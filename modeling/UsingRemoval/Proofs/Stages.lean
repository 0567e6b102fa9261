import Mathlib.Data.Nat.Basic
import Mathlib.Order.WellFounded
import UsingRemoval.Proofs.Recomputation

/-!
How far a session has come. A stage is not kept but read off the results that are, so it can be
trusted only because no result is ever kept without those it was made from. One equation carries
this: a question leaves every result up to its own as computing it anew gives it, which is nothing
from the first failure on, and leaves later results alone.
-/

set_option autoImplicit false

namespace UsingRemoval

theorem Stage.ctorIdx_injective : Function.Injective Stage.ctorIdx := by
  intro a b
  cases a <;> cases b <;> decide

/-- Stages are ordered as a session goes through them. -/
instance : LinearOrder Stage := LinearOrder.lift' Stage.ctorIdx Stage.ctorIdx_injective

namespace Session

theorem Question.ctorIdx_injective : Function.Injective Question.ctorIdx := by
  intro a b
  cases a <;> cases b <;> decide

/-- Questions are ordered as a session works on them. -/
instance : LinearOrder Question := LinearOrder.lift' Question.ctorIdx Question.ctorIdx_injective

def Question.kept (s : Session) : (q : Question) → Option q.Answer
  | tree => s.tree
  | captures => s.captures
  | resolution => s.resolution
  | plan => s.plan
  | output => s.output

/-- The stage that an answer brings a session to. -/
def Question.reached : Question → Stage
  | tree => .parsed
  | captures => .queried
  | resolution => .resolved
  | plan => .resolved
  | output => .fixed

/-- A result is kept only together with all results before it. -/
def PrefixClosed (s : Session) : Prop :=
  ∀ q r : Question, r ≤ q → (q.kept s).isSome → (r.kept s).isSome

/-- The session with all results up to a question computed anew. -/
def answered (s : Session) (q : Question) : Session :=
  { s with
    tree := if .tree ≤ q then s.freshTree.toOption else s.tree
    captures := if .captures ≤ q then s.freshCaptures.toOption else s.captures
    resolution := if .resolution ≤ q then s.freshResolution.toOption else s.resolution
    plan := if .plan ≤ q then s.freshPlan.toOption else s.plan
    output := if .output ≤ q then s.freshOutput.toOption else s.output }

variable {s : Session}

theorem kept_answered (q r : Question) :
    r.kept (s.answered q) = if r ≤ q then (r.fresh s).toOption else r.kept s := by
  cases r <;> rfl

theorem Current.fresh_of_kept (current : Current s) {q : Question} {x : q.Answer}
    (h : q.kept s = some x) : q.fresh s = .ok x := by
  cases q with
  | tree => exact current.tree x h
  | captures => exact current.captures x h
  | resolution => exact current.resolution x h
  | plan => exact current.plan x h
  | output => exact current.output x h

theorem fresh_error_of_le {q r : Question} (hle : r ≤ q) {e : RemovalError}
    (failed : r.fresh s = .error e) : q.fresh s = .error e := by
  let Fails (q : Question) : Prop := q.fresh s = .error e
  have captures : Fails .tree → Fails .captures := by
    intro h
    change s.freshCaptures = _
    rw [freshCaptures, show s.freshTree = _ from h]
    rfl
  have resolution : Fails .captures → Fails .resolution := by
    intro h
    change s.freshResolution = _
    rw [freshResolution, show s.freshCaptures = _ from h]
    rfl
  have plan : Fails .resolution → Fails .plan := by
    intro h
    change s.freshPlan = _
    rw [freshPlan, show s.freshResolution = _ from h]
    rfl
  have output : Fails .plan → Fails .output := by
    intro h
    change s.freshOutput = _
    rw [freshOutput, show s.freshPlan = _ from h]
    rfl
  have hr : Fails r := failed
  have hrank : r.ctorIdx ≤ q.ctorIdx := hle
  change Fails q
  clear_value Fails
  cases r <;> cases q <;> grind [Question.ctorIdx]

theorem exists_fresh_of_le {q r : Question} (hle : r ≤ q) {x : q.Answer}
    (answered : q.fresh s = .ok x) : ∃ y, r.fresh s = .ok y := by
  cases fresh : r.fresh s with
  | error e =>
    rw [fresh_error_of_le hle fresh] at answered
    cases answered
  | ok y => exact ⟨y, rfl⟩

theorem eq_of_kept {t : Session} (same : t.restarted = s.restarted)
    (kept : ∀ q : Question, q.kept t = q.kept s) : t = s := by
  obtain ⟨hparser, hobjection, hsource, hfallback⟩ := restarted_eq_iff.1 same
  have htree : t.tree = s.tree := kept .tree
  have hcaptures : t.captures = s.captures := kept .captures
  have hresolution : t.resolution = s.resolution := kept .resolution
  have hplan : t.plan = s.plan := kept .plan
  have houtput : t.output = s.output := kept .output
  cases s
  cases t
  simp_all only

section Steps

variable {α β : Type}

theorem take_look {next : Session → Step α} {r : Except RemovalError α × Session}
    (h : s.take (next s) = r) : s.take (get >>= next) = r := h

theorem take_bind_ok {step : Step α} {next : α → Step β} {a : α} {t : Session}
    (first : s.take step = (.ok a, t)) : s.take (step >>= next) = t.take (next a) := by
  rw [take_bind, first]

theorem take_bind_error {step : Step α} {next : α → Step β} {e : RemovalError} {t : Session}
    (first : s.take step = (.error e, t)) : s.take (step >>= next) = (.error e, t) := by
  rw [take_bind, first]

end Steps

theorem take_of_kept {q : Question} {x : q.Answer} (h : q.kept s = some x) :
    s.take q.step = (.ok x, s) := by
  cases q with
  | tree =>
    refine take_look ?_
    rw [show s.tree = some x from h]
    rfl
  | captures =>
    refine take_look ?_
    rw [show s.captures = some x from h]
    rfl
  | resolution =>
    refine take_look ?_
    rw [show s.resolution = some x from h]
    rfl
  | plan =>
    refine take_look ?_
    rw [show s.plan = some x from h]
    rfl
  | output =>
    refine take_look ?_
    rw [show s.output = some x from h]
    rfl

theorem take_step_of_kept (current : Current s) (closed : PrefixClosed s) {q : Question}
    {x : q.Answer} (h : q.kept s = some x) : s.take q.step = (q.fresh s, s.answered q) := by
  have same : s.answered q = s := by
    refine eq_of_kept (t := s.answered q) rfl ?_
    intro r
    rw [kept_answered]
    split
    · rename_i hle
      obtain ⟨y, hy⟩ := Option.isSome_iff_exists.1 (closed q r hle (by rw [h]; rfl))
      rw [hy, current.fresh_of_kept hy]
      rfl
    · rfl
  rw [take_of_kept h, current.fresh_of_kept h, same]

/-- Where a question fails, the session is left as its predecessor leaves it. -/
theorem answered_of_error {p q : Question} (adjacent : ∀ r, r ≤ q ↔ r ≤ p ∨ r = q)
    (empty : q.kept s = none) {e : RemovalError} (failed : q.fresh s = .error e) :
    s.answered p = s.answered q := by
  refine eq_of_kept (t := s.answered p) (s := s.answered q) rfl ?_
  intro r
  rw [kept_answered, kept_answered]
  by_cases hp : r ≤ p
  · rw [if_pos hp, if_pos ((adjacent r).2 (.inl hp))]
  · rw [if_neg hp]
    split
    · rename_i hq
      obtain rfl : r = q := ((adjacent r).1 hq).resolve_left hp
      rw [empty, failed]
      rfl
    · rfl

theorem take_bind_of_error {p q : Question} (adjacent : ∀ r, r ≤ q ↔ r ≤ p ∨ r = q)
    (empty : q.kept s = none) (first : s.take p.step = (p.fresh s, s.answered p))
    {e : RemovalError} (failed : p.fresh s = .error e) (next : p.Answer → Step q.Answer) :
    s.take (p.step >>= next) = (q.fresh s, s.answered q) := by
  have hle : p ≤ q := (adjacent p).2 (.inl le_rfl)
  have later : q.fresh s = .error e := fresh_error_of_le hle failed
  rw [failed] at first
  rw [later, ← answered_of_error adjacent empty later]
  exact take_bind_error first

theorem take_parse (current : Current s) (closed : PrefixClosed s) :
    s.take parse = (s.freshTree, s.answered .tree) := by
  cases kept : s.tree with
  | some tree => exact take_step_of_kept (q := .tree) current closed kept
  | none =>
    refine take_look ?_
    rw [kept]
    cases parsed : s.parser s.source with
    | none =>
      have fresh : s.freshTree = .error .noTree := by rw [freshTree, parsed]
      have same : s = s.answered .tree := by
        refine eq_of_kept (t := s) (s := s.answered .tree) rfl ?_
        intro r
        cases r with
        | tree =>
          change s.tree = s.freshTree.toOption
          rw [kept, fresh]
          rfl
        | _ => rfl
      rw [fresh, ← same]
      rfl
    | some tree =>
      have fresh : s.freshTree = .ok tree := by rw [freshTree, parsed]
      rw [answered, fresh]
      rfl

theorem take_query (current : Current s) (closed : PrefixClosed s) :
    s.take query = (s.freshCaptures, s.answered .captures) := by
  cases kept : s.captures with
  | some captures => exact take_step_of_kept (q := .captures) current closed kept
  | none =>
    have first := take_parse current closed
    have adjacent (r : Question) : r ≤ .captures ↔ r ≤ .tree ∨ r = .captures := by
      cases r <;> decide
    refine take_look ?_
    rw [kept]
    cases htree : s.freshTree with
    | error e => exact take_bind_of_error adjacent kept first htree _
    | ok tree =>
      rw [htree] at first
      refine (take_bind_ok first).trans (take_look ?_)
      cases ho : s.objection with
      | some cause =>
        have failed : s.freshCaptures = .error (.unknownShape cause) := by
          rw [freshCaptures, htree, ho]
          rfl
        rw [failed, ← answered_of_error adjacent kept failed,
          show (s.answered .tree).objection = some cause from ho]
        rfl
      | none =>
        have fresh : s.freshCaptures = .ok (CaptureSet.collect tree s.source) := by
          rw [freshCaptures, htree, ho]
          rfl
        rw [show (s.answered .tree).objection = none from ho]
        rw [fresh, answered, answered, fresh]
        rfl

theorem take_resolve (current : Current s) (closed : PrefixClosed s) :
    s.take resolve = (s.freshResolution, s.answered .resolution) := by
  cases kept : s.resolution with
  | some resolution => exact take_step_of_kept (q := .resolution) current closed kept
  | none =>
    have first := take_query current closed
    have adjacent (r : Question) : r ≤ .resolution ↔ r ≤ .captures ∨ r = .resolution := by
      cases r <;> decide
    refine take_look ?_
    rw [kept]
    cases hcaptures : s.freshCaptures with
    | error e => exact take_bind_of_error adjacent kept first hcaptures _
    | ok captures =>
      obtain ⟨tree, htree⟩ :=
        exists_fresh_of_le (q := .captures) (r := .tree) (by decide) hcaptures
      have again : (s.answered .captures).take parse = (.ok tree, s.answered .captures) :=
        take_of_kept (q := .tree) (by rw [kept_answered, if_pos (by decide), htree]; rfl)
      have fresh : s.freshResolution = .ok (Resolution.ofCaptures captures tree s.source) := by
        rw [freshResolution, hcaptures, show s.freshTree = _ from htree]
        rfl
      rw [hcaptures] at first
      refine (take_bind_ok first).trans ((take_bind_ok again).trans (take_look ?_))
      rw [fresh, answered, answered, fresh]
      rfl

theorem take_makePlan (current : Current s) (closed : PrefixClosed s) :
    s.take makePlan = (s.freshPlan, s.answered .plan) := by
  cases kept : s.plan with
  | some plan => exact take_step_of_kept (q := .plan) current closed kept
  | none =>
    have first := take_resolve current closed
    have adjacent (r : Question) : r ≤ .plan ↔ r ≤ .resolution ∨ r = .plan := by
      cases r <;> decide
    refine take_look ?_
    rw [kept]
    cases hresolution : s.freshResolution with
    | error e => exact take_bind_of_error adjacent kept first hresolution _
    | ok resolution =>
      obtain ⟨captures, hcaptures⟩ :=
        exists_fresh_of_le (q := .resolution) (r := .captures) (by decide) hresolution
      have again : (s.answered .resolution).take query = (.ok captures, s.answered .resolution) :=
        take_of_kept (q := .captures) (by rw [kept_answered, if_pos (by decide), hcaptures]; rfl)
      have fresh : s.freshPlan = Plan.make captures resolution s.fallback := by
        rw [freshPlan, hresolution, show s.freshCaptures = _ from hcaptures]
        rfl
      rw [hresolution] at first
      refine (take_bind_ok first).trans ((take_bind_ok again).trans (take_look ?_))
      rw [show (s.answered .resolution).fallback = s.fallback from rfl]
      cases made : Plan.make captures resolution s.fallback with
      | error e =>
        have failed : s.freshPlan = .error e := fresh.trans made
        rw [failed, ← answered_of_error adjacent kept failed]
        rfl
      | ok plan =>
        rw [made] at fresh
        rw [fresh, answered, answered, fresh]
        rfl

theorem take_fix (current : Current s) (closed : PrefixClosed s) :
    s.take fix = (s.freshOutput, s.answered .output) := by
  cases kept : s.output with
  | some output => exact take_step_of_kept (q := .output) current closed kept
  | none =>
    have first := take_makePlan current closed
    have adjacent (r : Question) : r ≤ .output ↔ r ≤ .plan ∨ r = .output := by
      cases r <;> decide
    refine take_look ?_
    rw [kept]
    cases hplan : s.freshPlan with
    | error e => exact take_bind_of_error adjacent kept first hplan _
    | ok plan =>
      rw [hplan] at first
      refine (take_bind_ok first).trans (take_look ?_)
      rw [show (s.answered .plan).source = s.source from rfl]
      cases applied : Edit.applyAll s.source plan.edits with
      | none =>
        have failed : s.freshOutput = .error .outsideSource := by
          simp only [freshOutput, hplan, bind, Except.bind, applied]
        rw [failed, ← answered_of_error adjacent kept failed]
        rfl
      | some output =>
        have fresh : s.freshOutput = .ok output := by
          simp only [freshOutput, hplan, bind, Except.bind, applied]
        rw [fresh, answered, answered, fresh]
        rfl

theorem take_step (current : Current s) (closed : PrefixClosed s) (q : Question) :
    s.take q.step = (q.fresh s, s.answered q) := by
  cases q with
  | tree => exact take_parse current closed
  | captures => exact take_query current closed
  | resolution => exact take_resolve current closed
  | plan => exact take_makePlan current closed
  | output => exact take_fix current closed

/-! ### Whole runs -/

theorem isSome_kept_answered (q r : Question) :
    (r.kept (s.answered q)).isSome ↔
      r ≤ q ∧ (∃ y, r.fresh s = .ok y) ∨ q < r ∧ (r.kept s).isSome := by
  rw [kept_answered]
  by_cases hle : r ≤ q
  · rw [if_pos hle]
    cases fresh : r.fresh s <;> simp [Except.toOption, hle, not_lt.2 hle]
  · rw [if_neg hle]
    simp [hle, not_le.1 hle]

theorem isSome_kept_of_answered (current : Current s) {q r : Question} (h : (r.kept s).isSome) :
    (r.kept (s.answered q)).isSome := by
  rw [isSome_kept_answered]
  rcases le_or_gt r q with hle | hlt
  · obtain ⟨x, hx⟩ := Option.isSome_iff_exists.1 h
    exact .inl ⟨hle, x, current.fresh_of_kept hx⟩
  · exact .inr ⟨hlt, h⟩

theorem PrefixClosed.answered (current : Current s) (closed : PrefixClosed s) (q : Question) :
    PrefixClosed (s.answered q) := by
  intro r p hle kept
  rcases (isSome_kept_answered q r).1 kept with ⟨hr, x, fresh⟩ | ⟨_, before⟩
  · exact (isSome_kept_answered q p).2 (.inl ⟨hle.trans hr, exists_fresh_of_le hle fresh⟩)
  · exact isSome_kept_of_answered current (closed r p hle before)

theorem kept_setFallback (fallback : NamespaceMap) (q : Question) :
    q.kept (s.setFallback fallback) = if q < .plan then q.kept s else none := by
  cases q <;> rfl

theorem PrefixClosed.setFallback (closed : PrefixClosed s) (fallback : NamespaceMap) :
    PrefixClosed (s.setFallback fallback) := by
  intro q r hle kept
  rw [kept_setFallback] at kept ⊢
  by_cases hq : q < .plan
  · rw [if_pos hq] at kept
    rw [if_pos (hle.trans_lt hq)]
    exact closed q r hle kept
  · rw [if_neg hq] at kept
    cases kept

theorem prefixClosed_start (parser : Parser) (source : List UInt8) (fallback : NamespaceMap)
    (objection : Option String) : PrefixClosed (start parser source fallback objection) := by
  intro q r _ kept
  cases q <;> cases kept

theorem PrefixClosed.after (current : Current s) (closed : PrefixClosed s) (request : Request) :
    PrefixClosed (s.after request) := by
  cases request with
  | ask q =>
    change PrefixClosed (s.take q.step).2
    rw [take_step current closed]
    exact closed.answered current q
  | readStage => exact closed
  | setFallback fallback => exact closed.setFallback fallback

theorem prefixClosed_foldl_after (current : Current s) (closed : PrefixClosed s)
    (requests : List Request) : PrefixClosed (requests.foldl Session.after s) := by
  induction requests generalizing s with
  | nil => exact closed
  | cons request requests ih =>
    exact ih (current_after current request).1 (closed.after current request)

theorem reached_le_stage (closed : PrefixClosed s) {q : Question} (h : (q.kept s).isSome) :
    q.reached ≤ s.stage := by
  -- a plan does not show in the stage, but the resolution it was made from does
  have resolved (kept : s.resolution.isSome) : .resolved ≤ s.stage := by
    rw [stage, if_pos kept]
    split_ifs <;> decide
  cases q with
  | tree =>
    rw [stage, if_pos (show s.tree.isSome from h)]
    split_ifs <;> decide
  | captures =>
    rw [stage, if_pos (show s.captures.isSome from h)]
    split_ifs <;> decide
  | resolution => exact resolved h
  | plan => exact resolved (closed .plan .resolution (by decide) h)
  | output =>
    rw [stage, if_pos (show s.output.isSome from h)]
    decide

theorem stage_eq_reached (s : Session) :
    s.stage = .notStarted ∨ ∃ q : Question, (q.kept s).isSome ∧ s.stage = q.reached := by
  unfold stage
  split_ifs with output resolution captures tree
  · exact .inr ⟨.output, output, rfl⟩
  · exact .inr ⟨.resolution, resolution, rfl⟩
  · exact .inr ⟨.captures, captures, rfl⟩
  · exact .inr ⟨.tree, tree, rfl⟩
  · exact .inl rfl

theorem stage_le_answered (current : Current s) (closed : PrefixClosed s) (q : Question) :
    s.stage ≤ (s.answered q).stage := by
  rcases s.stage_eq_reached with none | ⟨r, kept, reached⟩
  · rw [none]
    exact Nat.zero_le _
  · rw [reached]
    exact reached_le_stage (closed.answered current q) (isSome_kept_of_answered current kept)

theorem stage_setFallback (closed : PrefixClosed s) (fallback : NamespaceMap) :
    (s.setFallback fallback).stage = if s.stage = .fixed then .resolved else s.stage := by
  by_cases output : s.output.isSome
  · have resolution : s.resolution.isSome := closed .output .resolution (by decide) output
    simp [stage, setFallback, output, resolution]
  · have same : (s.setFallback fallback).stage = s.stage := by
      rw [stage, stage, if_neg output]
      rfl
    have unfixed : s.stage ≠ .fixed := by
      rw [stage, if_neg output]
      split_ifs <;> decide
    rw [same, if_neg unfixed]

theorem exists_first_error {q : Question} {e : RemovalError} (failed : q.fresh s = .error e) :
    ∃ r ≤ q, r.fresh s = .error e ∧ ∀ p < r, ∃ a, p.fresh s = .ok a := by
  obtain ⟨r, ⟨e', hr⟩, least⟩ := (measure Question.ctorIdx).wf.has_min
    {r : Question | ∃ e, r.fresh s = .error e} ⟨q, e, failed⟩
  have hle : r ≤ q := not_lt.1 (least q ⟨e, failed⟩)
  obtain rfl : e' = e := Except.error.inj ((fresh_error_of_le hle hr).symm.trans failed)
  refine ⟨r, hle, hr, ?_⟩
  intro p hlt
  cases fresh : p.fresh s with
  | error e'' => exact absurd hlt (least p ⟨e'', fresh⟩)
  | ok a => exact ⟨a, rfl⟩

/-- After any requests, what is kept is a prefix of the results. A question never takes a session
back, and an answer brings it as far as the question goes; a new table undoes the last stage only;
and after a failure exactly the results before the first failing question are kept. -/
theorem stage_invariant (parser : Parser) (source : List UInt8) (fallback : NamespaceMap)
    (objection : Option String) (earlier : List Request) :
    let s := earlier.foldl after (start parser source fallback objection)
    PrefixClosed s ∧
    (∀ q : Question, s.stage ≤ (s.after (.ask q)).stage) ∧
    (s.after .readStage).stage = s.stage ∧
    (∀ table, (s.after (.setFallback table)).stage =
      if s.stage = .fixed then .resolved else s.stage) ∧
    (∀ (q : Question) (e : RemovalError), (s.take q.step).1 = .error e →
      ∃ r ≤ q, (s.take r.step).1 = .error e ∧ (∀ p < r, ∃ a, (s.take p.step).1 = .ok a) ∧
        ∀ p : Question, (p.kept (s.take q.step).2).isSome ↔ p < r) ∧
    (∀ (q : Question) (a : q.Answer), (s.take q.step).1 = .ok a →
      q.reached ≤ (s.take q.step).2.stage) := by
  intro s
  have fresh := current_start parser source fallback objection
  obtain ⟨current, _⟩ := current_foldl_after fresh earlier
  have closed : PrefixClosed s :=
    prefixClosed_foldl_after fresh (prefixClosed_start parser source fallback objection) earlier
  have step (q : Question) : s.take q.step = (q.fresh s, s.answered q) := take_step current closed q
  refine ⟨closed, ?_, rfl, stage_setFallback closed, ?_, ?_⟩
  · intro q
    change s.stage ≤ (s.take q.step).2.stage
    rw [step]
    exact stage_le_answered current closed q
  · intro q e failed
    simp only [step] at failed ⊢
    obtain ⟨r, hle, hr, earlier⟩ := exists_first_error failed
    refine ⟨r, hle, hr, earlier, ?_⟩
    intro p
    rw [isSome_kept_answered]
    constructor
    · rintro (⟨_, a, fresh⟩ | ⟨hlt, kept⟩)
      · by_contra hp
        rw [fresh_error_of_le (not_lt.1 hp) hr] at fresh
        cases fresh
      · -- a later result would have been kept together with the answer that failed
        obtain ⟨x, hx⟩ := Option.isSome_iff_exists.1 (closed p q hlt.le kept)
        rw [current.fresh_of_kept hx] at failed
        cases failed
    · intro hlt
      exact .inl ⟨hlt.le.trans hle, earlier p hlt⟩
  · intro q a answer
    simp only [step] at answer ⊢
    exact reached_le_stage (closed.answered current q)
      ((isSome_kept_answered q q).2 (.inl ⟨le_rfl, a, answer⟩))

end Session

end UsingRemoval
