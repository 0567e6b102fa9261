import UsingRemoval.Session

/-!
Kept results against results computed anew. Whatever was asked of a session before, and however
often its fallback table was changed, it answers as a session would that starts with the table of
the moment. The invariant is that every result that is kept is what computing it anew gives.
-/

set_option autoImplicit false

namespace UsingRemoval.Session

/-! ### Steps one at a time -/

section Steps

variable {α β : Type} (s : Session)

theorem take_bind (step : Step α) (next : α → Step β) :
    s.take (step >>= next) = match s.take step with
      | (.ok a, t) => t.take (next a)
      | (.error e, t) => (.error e, t) := by
  simp only [take, ExceptT.run_bind, StateT.run_bind]
  rcases step.run.run s with ⟨_ | a, t⟩ <;> rfl

end Steps

/-! ### Results computed anew -/

def freshTree (s : Session) : Except RemovalError Node :=
  match s.parser s.source with
  | none => .error .noTree
  | some tree => .ok tree

/-- The captures on that tree, if the grammar knows all shapes. -/
def freshCaptures (s : Session) : Except RemovalError CaptureSet := do
  let tree ← s.freshTree
  match s.objection with
  | some cause => .error (.unknownShape cause)
  | none => .ok (CaptureSet.collect tree s.source)

def freshResolution (s : Session) : Except RemovalError Resolution := do
  let captures ← s.freshCaptures
  let tree ← s.freshTree
  return Resolution.ofCaptures captures tree s.source

/-- The plan with the fallback table of the moment. -/
def freshPlan (s : Session) : Except RemovalError Plan := do
  let resolution ← s.freshResolution
  let captures ← s.freshCaptures
  Plan.make captures resolution s.fallback

/-- The source with the edits of that plan made. -/
def freshOutput (s : Session) : Except RemovalError (List UInt8) := do
  let plan ← s.freshPlan
  match Edit.applyAll s.source plan.edits with
  | none => .error .outsideSource
  | some output => .ok output

inductive Question where
  | tree
  | captures
  | resolution
  | plan
  | output
  deriving DecidableEq, Repr

/-- What a question is answered with, unless it fails. -/
def Question.Answer : Question → Type
  | tree => Node
  | captures => CaptureSet
  | resolution => Resolution
  | plan => Plan
  | output => List UInt8

def Question.step : (q : Question) → Step q.Answer
  | tree => parse
  | captures => query
  | resolution => resolve
  | plan => makePlan
  | output => fix

def Question.fresh (s : Session) : (q : Question) → Except RemovalError q.Answer
  | tree => s.freshTree
  | captures => s.freshCaptures
  | resolution => s.freshResolution
  | plan => s.freshPlan
  | output => s.freshOutput

/-- A session on the same source, with the same grammar and table, that has done nothing yet. -/
def restarted (s : Session) : Session :=
  start s.parser s.source s.fallback s.objection

/-- Every result that is kept is what computing it anew gives. -/
structure Current (s : Session) : Prop where
  tree : ∀ x, s.tree = some x → s.freshTree = .ok x
  captures : ∀ x, s.captures = some x → s.freshCaptures = .ok x
  resolution : ∀ x, s.resolution = some x → s.freshResolution = .ok x
  plan : ∀ x, s.plan = some x → s.freshPlan = .ok x
  output : ∀ x, s.output = some x → s.freshOutput = .ok x

theorem current_start (parser : Parser) (source : List UInt8) (fallback : NamespaceMap)
    (objection : Option String) : Current (start parser source fallback objection) where
  tree _ h := nomatch h
  captures _ h := nomatch h
  resolution _ h := nomatch h
  plan _ h := nomatch h
  output _ h := nomatch h

theorem Current.setFallback {s : Session} (h : Current s) (fallback : NamespaceMap) :
    Current (s.setFallback fallback) where
  tree := h.tree
  captures := h.captures
  resolution := h.resolution
  plan _ h := nomatch h
  output _ h := nomatch h

/-- A step answers `fresh`, keeps only current results, and changes nothing but what is kept. -/
structure Answers {α : Type} (s : Session) (step : Step α) (fresh : Except RemovalError α) :
    Prop where
  answer : (s.take step).1 = fresh
  current : Current (s.take step).2
  restarted : (s.take step).2.restarted = s.restarted

namespace Answers

variable {α β : Type} {s : Session}

theorem pure (h : Current s) (a : α) : s.Answers (pure a) (.ok a) :=
  ⟨rfl, h, rfl⟩

theorem throw (h : Current s) (e : RemovalError) : s.Answers (throw e : Step α) (.error e) :=
  ⟨rfl, h, rfl⟩

theorem look {next : Session → Step α} {fresh : Except RemovalError α}
    (h : s.Answers (next s) fresh) : s.Answers (get >>= next) fresh :=
  ⟨h.answer, h.current, h.restarted⟩

theorem keep {f : Session → Session} (h : Current (f s))
    (same : (f s).restarted = s.restarted) (a : α) :
    s.Answers (modify f >>= fun _ => Pure.pure a) (.ok a) :=
  ⟨rfl, h, same⟩

theorem bind {step : Step α} {next : α → Step β} {fresh : Except RemovalError α}
    {freshNext : α → Except RemovalError β} (first : s.Answers step fresh)
    (second : ∀ a t, fresh = .ok a → Current t → t.restarted = s.restarted →
      t.Answers (next a) (freshNext a)) :
    s.Answers (step >>= next) (fresh >>= freshNext) := by
  obtain ⟨answer, current, same⟩ := first
  have htake := take_bind s step next
  rcases hs : s.take step with ⟨e | a, t⟩
  · rw [hs] at answer current same htake
    subst answer
    exact ⟨congrArg Prod.fst htake, by rwa [htake], by rwa [htake]⟩
  · rw [hs] at answer current same htake
    subst answer
    obtain ⟨answer', current', same'⟩ := second a t rfl current same
    refine ⟨(congrArg Prod.fst htake).trans answer', ?_, ?_⟩
    · rwa [htake]
    · rw [htake]
      exact same'.trans same

end Answers

theorem restarted_eq_iff {s t : Session} :
    t.restarted = s.restarted ↔
      t.parser = s.parser ∧ t.objection = s.objection ∧ t.source = s.source ∧
        t.fallback = s.fallback := by
  simp [restarted, start]

theorem fresh_eq_of_restarted {s t : Session} (h : t.restarted = s.restarted) (q : Question) :
    q.fresh t = q.fresh s := by
  have hq (u : Session) : q.fresh u.restarted = q.fresh u := by cases q <;> rfl
  rw [← hq t, h, hq s]

theorem answers_parse {s : Session} (h : Current s) : s.Answers parse s.freshTree := by
  refine .look ?_
  cases ht : s.tree with
  | some tree =>
    rw [h.tree tree ht]
    exact .pure h tree
  | none =>
    unfold freshTree
    cases hp : s.parser s.source with
    | none => exact .throw h .noTree
    | some tree =>
      have hfresh : s.freshTree = .ok tree := by rw [freshTree, hp]
      exact .keep ⟨fun _ hx => hfresh.trans (congrArg _ (Option.some.inj hx)), h.captures,
        h.resolution, h.plan, h.output⟩ rfl tree

theorem answers_query {s : Session} (h : Current s) : s.Answers query s.freshCaptures := by
  refine .look ?_
  cases hc : s.captures with
  | some captures =>
    rw [h.captures captures hc]
    exact .pure h captures
  | none =>
    refine (answers_parse h).bind fun tree t htree ht same => .look ?_
    obtain ⟨_, hobjection, hsource, _⟩ := restarted_eq_iff.1 same
    have htree : t.freshTree = .ok tree := (fresh_eq_of_restarted same .tree).trans htree
    rw [← hobjection, ← hsource]
    cases ho : t.objection with
    | some cause => exact .throw ht (.unknownShape cause)
    | none =>
      have hfresh : t.freshCaptures = .ok (CaptureSet.collect tree t.source) := by
        rw [freshCaptures, htree, ho]
        rfl
      exact .look (.keep ⟨ht.tree, fun _ hx => hfresh.trans (congrArg _ (Option.some.inj hx)),
        ht.resolution, ht.plan, ht.output⟩ rfl _)

theorem answers_resolve {s : Session} (h : Current s) :
    s.Answers resolve s.freshResolution := by
  refine .look ?_
  cases hr : s.resolution with
  | some resolution =>
    rw [h.resolution resolution hr]
    exact .pure h resolution
  | none =>
    refine (answers_query h).bind fun captures t hcaptures ht same => ?_
    rw [← show t.freshTree = s.freshTree from fresh_eq_of_restarted same .tree]
    refine (answers_parse ht).bind fun tree u htree hu same' => .look ?_
    have hall := same'.trans same
    obtain ⟨_, _, hsource, _⟩ := restarted_eq_iff.1 hall
    have hcaptures : u.freshCaptures = .ok captures :=
      (fresh_eq_of_restarted hall .captures).trans hcaptures
    have htree : u.freshTree = .ok tree := (fresh_eq_of_restarted same' .tree).trans htree
    have hfresh : u.freshResolution = .ok (Resolution.ofCaptures captures tree u.source) := by
      rw [freshResolution, hcaptures, htree]
      rfl
    rw [← hsource]
    exact .keep ⟨hu.tree, hu.captures, fun _ hx => hfresh.trans (congrArg _ (Option.some.inj hx)),
      hu.plan, hu.output⟩ rfl _

theorem answers_makePlan {s : Session} (h : Current s) : s.Answers makePlan s.freshPlan := by
  refine .look ?_
  cases hp : s.plan with
  | some plan =>
    rw [h.plan plan hp]
    exact .pure h plan
  | none =>
    refine (answers_resolve h).bind fun resolution t hresolution ht same => ?_
    rw [← show t.freshCaptures = s.freshCaptures from fresh_eq_of_restarted same .captures]
    refine (answers_query ht).bind fun captures u hcaptures hu same' => .look ?_
    have hall := same'.trans same
    obtain ⟨_, _, _, hfallback⟩ := restarted_eq_iff.1 hall
    have hresolution : u.freshResolution = .ok resolution :=
      (fresh_eq_of_restarted hall .resolution).trans hresolution
    have hcaptures : u.freshCaptures = .ok captures :=
      (fresh_eq_of_restarted same' .captures).trans hcaptures
    have hfresh : u.freshPlan = Plan.make captures resolution u.fallback := by
      rw [freshPlan, hresolution, hcaptures]
      rfl
    rw [← hfallback]
    cases hm : Plan.make captures resolution u.fallback with
    | error e => exact .throw hu e
    | ok plan =>
      rw [hm] at hfresh
      exact .keep ⟨hu.tree, hu.captures, hu.resolution,
        fun _ hx => hfresh.trans (congrArg _ (Option.some.inj hx)), hu.output⟩ rfl _

theorem answers_fix {s : Session} (h : Current s) : s.Answers fix s.freshOutput := by
  refine .look ?_
  cases ho : s.output with
  | some output =>
    rw [h.output output ho]
    exact .pure h output
  | none =>
    refine (answers_makePlan h).bind fun plan t hplan ht same => .look ?_
    obtain ⟨_, _, hsource, _⟩ := restarted_eq_iff.1 same
    have hplan : t.freshPlan = .ok plan := (fresh_eq_of_restarted same .plan).trans hplan
    rw [← hsource]
    cases ha : Edit.applyAll t.source plan.edits with
    | none => exact .throw ht .outsideSource
    | some output =>
      have hfresh : t.freshOutput = .ok output := by
        rw [freshOutput, hplan]
        change (match Edit.applyAll t.source plan.edits with
          | none => Except.error RemovalError.outsideSource
          | some output => .ok output) = _
        rw [ha]
      exact .keep ⟨ht.tree, ht.captures, ht.resolution, ht.plan,
        fun _ hx => hfresh.trans (congrArg _ (Option.some.inj hx))⟩ rfl _

theorem answers_step {s : Session} (h : Current s) (q : Question) :
    s.Answers q.step (q.fresh s) := by
  cases q with
  | tree => exact answers_parse h
  | captures => exact answers_query h
  | resolution => exact answers_resolve h
  | plan => exact answers_makePlan h
  | output => exact answers_fix h

/-! ### Whole runs -/

inductive Request where
  | ask (q : Question)
  /-- Reads the stage and changes nothing. -/
  | readStage
  | setFallback (fallback : NamespaceMap)

def after (s : Session) : Request → Session
  | .ask q => (s.take q.step).2
  | .readStage => s
  | .setFallback fallback => s.setFallback fallback

/-- The table set last, or `fallback` if none was set. -/
def latestFallback (fallback : NamespaceMap) (requests : List Request) : NamespaceMap :=
  requests.foldl (fun latest request =>
    match request with
    | .setFallback next => next
    | _ => latest) fallback

/-- No request makes what is kept out of date, and only a new table changes what is computed. -/
theorem current_after {s : Session} (h : Current s) (request : Request) :
    Current (s.after request) ∧
      (s.after request).restarted =
        { s.restarted with fallback := latestFallback s.fallback [request] } := by
  cases request with
  | ask q =>
    obtain ⟨_, current, same⟩ := answers_step h q
    exact ⟨current, same⟩
  | readStage => exact ⟨h, rfl⟩
  | setFallback fallback => exact ⟨h.setFallback fallback, rfl⟩

theorem current_foldl_after {s : Session} (h : Current s) (requests : List Request) :
    Current (requests.foldl after s) ∧
      (requests.foldl after s).restarted =
        { s.restarted with fallback := latestFallback s.fallback requests } := by
  induction requests generalizing s with
  | nil => exact ⟨h, rfl⟩
  | cons request requests ih =>
    obtain ⟨current, step⟩ := current_after h request
    obtain ⟨hrun, run⟩ := ih current
    have hfallback : (s.after request).fallback = latestFallback s.fallback [request] := by
      change (s.after request).restarted.fallback = _
      rw [step]
    refine ⟨hrun, run.trans ?_⟩
    rw [step, hfallback]
    rfl

/-- Whatever was done with a session before, it answers every question as a session does that
starts with the table set last. -/
theorem answer_eq_restart (parser : Parser) (source : List UInt8) (fallback : NamespaceMap)
    (objection : Option String) (earlier : List Request) (q : Question) :
    ((earlier.foldl after (start parser source fallback objection)).take q.step).1 =
      ((start parser source (latestFallback fallback earlier) objection).take q.step).1 := by
  obtain ⟨current, same⟩ :=
    current_foldl_after (current_start parser source fallback objection) earlier
  let latest := start parser source (latestFallback fallback earlier) objection
  calc
    ((earlier.foldl after (start parser source fallback objection)).take q.step).1
      = q.fresh (earlier.foldl after (start parser source fallback objection)) :=
        (answers_step current q).answer
    _ = q.fresh latest := fresh_eq_of_restarted same q
    _ = (latest.take q.step).1 :=
        (answers_step (current_start parser source _ objection) q).answer.symm

end UsingRemoval.Session
