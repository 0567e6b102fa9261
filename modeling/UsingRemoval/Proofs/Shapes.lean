import Mathlib.Tactic.MkIffOfInductiveProp
import UsingRemoval.Proofs.Nesting
import UsingRemoval.Survey

/-!
What the surveys note, said of the tree alone. For each tag there is a description of the nodes
noted under it by their kind, their field and their place among their parent's children.
-/

set_option autoImplicit false

namespace UsingRemoval

namespace Node

def Is (n : Node) (kind : String) : Prop :=
  n.label.named = true ∧ n.kind = kind

def IsToken (n : Node) (text : String) : Prop :=
  n.label.named = false ∧ n.kind = text

/-- A named node of this kind that its parent holds under this field. -/
def IsUnder (n : Node) (field kind : String) : Prop :=
  n.field = some field ∧ n.Is kind

end Node

namespace Pattern

/-! ### Matches of a pattern -/

def Fits (p : Pattern) (n : Node) : Prop :=
  ∃ m, m ∈ p.matchesAt n

/-- Some match of the pattern at node `n` notes `x`. -/
def Notes (p : Pattern) (n : Node) (x : Tag × Node) : Prop :=
  ∃ m ∈ p.matchesAt n, x ∈ m

private theorem mem_picks {α : Type} {l : List α} {pick : α × List α} :
    pick ∈ picks l ↔ pick.1 :: pick.2 <:+ l := by
  induction l with
  | nil => simp [picks]
  | cons b l ih =>
    rw [picks, List.mem_cons, ih, List.suffix_cons_iff, Prod.ext_iff, List.cons.injEq]

private theorem mem_matchesAmong_cons {p : Pattern} {ps : List Pattern} {ns : List Node}
    {m : Match} :
    m ∈ matchesAmong (p :: ps) ns ↔
      ∃ c rest, c :: rest <:+ ns ∧
        ∃ m₁ ∈ p.matchesAt c, ∃ m₂ ∈ matchesAmong ps rest, m = m₁ ++ m₂ := by
  simp only [matchesAmong, List.mem_flatMap, List.mem_map, Prod.exists, mem_picks]
  grind

private theorem mem_matchesAmong_one {p : Pattern} {ns : List Node} {m : Match} :
    m ∈ matchesAmong [p] ns ↔ ∃ c ∈ ns, m ∈ p.matchesAt c := by
  rw [mem_matchesAmong_cons]
  constructor
  · rintro ⟨c, rest, hsuffix, m₁, hm₁, m₂, hm₂, rfl⟩
    obtain rfl : m₂ = [] := by simpa [matchesAmong] using hm₂
    exact ⟨c, hsuffix.mem List.mem_cons_self, by simpa using hm₁⟩
  · rintro ⟨c, hc, hm⟩
    obtain ⟨before, rest, rfl⟩ := List.append_of_mem hc
    exact ⟨c, rest, List.suffix_append before _, m, hm, [], by simp [matchesAmong], by simp⟩

private theorem mem_matchesAmong_two {p q : Pattern} {ns : List Node} {m : Match} :
    m ∈ matchesAmong [p, q] ns ↔
      ∃ c d, [c, d].Sublist ns ∧ ∃ m₁ ∈ p.matchesAt c, ∃ m₂ ∈ q.matchesAt d, m = m₁ ++ m₂ := by
  rw [mem_matchesAmong_cons]
  simp only [mem_matchesAmong_one]
  constructor
  · rintro ⟨c, rest, hsuffix, m₁, hm₁, m₂, ⟨d, hd, hm₂⟩, rfl⟩
    exact ⟨c, d, ((List.singleton_sublist.2 hd).cons_cons c).trans hsuffix.sublist, m₁, hm₁, m₂, hm₂,
      rfl⟩
  · rintro ⟨c, d, hsub, m₁, hm₁, m₂, hm₂, rfl⟩
    obtain ⟨front, back, rfl, hc, hd⟩ := List.cons_sublist_iff.1 hsub
    obtain ⟨before, between, rfl⟩ := List.append_of_mem hc
    have hd : d ∈ back := List.singleton_sublist.1 hd
    refine ⟨c, between ++ back, ?_, m₁, hm₁, m₂, ⟨d, List.mem_append_right _ hd, hm₂⟩, rfl⟩
    rw [List.append_assoc, List.cons_append]
    exact List.suffix_append before _

section

variable {p q : Pattern} {n : Node} {x : Tag × Node} {kind text name : String} {tag : Tag}

private theorem mem_matchesAt_node {ps : List Pattern} {m : Match} :
    m ∈ (node kind ps).matchesAt n ↔ n.Is kind ∧ m ∈ matchesAmong ps n.children := by
  rw [matchesAt]
  split <;> simp_all [Node.Is]

@[simp] theorem fits_node_nil : (node kind []).Fits n ↔ n.Is kind := by
  simp [Fits, mem_matchesAt_node, matchesAmong]

@[simp] theorem fits_node_one :
    (node kind [p]).Fits n ↔ n.Is kind ∧ ∃ c ∈ n.children, p.Fits c := by
  simp only [Fits, mem_matchesAt_node, mem_matchesAmong_one]
  grind

@[simp] theorem fits_node_two :
    (node kind [p, q]).Fits n ↔
      n.Is kind ∧ ∃ c d, [c, d].Sublist n.children ∧ p.Fits c ∧ q.Fits d := by
  simp only [Fits, mem_matchesAt_node, mem_matchesAmong_two]
  grind

@[simp] theorem notes_node_nil : ¬ (node kind []).Notes n x := by
  simp [Notes, mem_matchesAt_node, matchesAmong]

@[simp] theorem notes_node_one :
    (node kind [p]).Notes n x ↔ n.Is kind ∧ ∃ c ∈ n.children, p.Notes c x := by
  simp only [Notes, mem_matchesAt_node, mem_matchesAmong_one]
  grind

@[simp] theorem notes_node_two :
    (node kind [p, q]).Notes n x ↔
      n.Is kind ∧ ∃ c d, [c, d].Sublist n.children ∧
        (p.Notes c x ∧ q.Fits d ∨ p.Fits c ∧ q.Notes d x) := by
  simp only [Notes, Fits, mem_matchesAt_node, mem_matchesAmong_two]
  constructor
  · rintro ⟨_, ⟨hn, c, d, hsub, m₁, hm₁, m₂, hm₂, rfl⟩, hx⟩
    rcases List.mem_append.1 hx with hx | hx
    · exact ⟨hn, c, d, hsub, .inl ⟨⟨m₁, hm₁, hx⟩, m₂, hm₂⟩⟩
    · exact ⟨hn, c, d, hsub, .inr ⟨⟨m₁, hm₁⟩, m₂, hm₂, hx⟩⟩
  · rintro ⟨hn, c, d, hsub, ⟨⟨m₁, hm₁, hx⟩, m₂, hm₂⟩ | ⟨⟨m₁, hm₁⟩, m₂, hm₂, hx⟩⟩
    · exact ⟨_, ⟨hn, c, d, hsub, m₁, hm₁, m₂, hm₂, rfl⟩, List.mem_append_left _ hx⟩
    · exact ⟨_, ⟨hn, c, d, hsub, m₁, hm₁, m₂, hm₂, rfl⟩, List.mem_append_right _ hx⟩

@[simp] theorem fits_token : (token text).Fits n ↔ n.IsToken text := by
  rw [Fits, matchesAt]
  split <;> simp_all [Node.IsToken]

@[simp] theorem notes_token : ¬ (token text).Notes n x := by
  rw [Notes, matchesAt]
  split <;> simp

private theorem mem_matchesOneOf {ps : List Pattern} {m : Match} :
    m ∈ matchesOneOf ps n ↔ ∃ p ∈ ps, m ∈ p.matchesAt n := by
  induction ps with
  | nil => simp [matchesOneOf]
  | cons p ps ih => simp [matchesOneOf, ih]

@[simp] theorem fits_oneOf {ps : List Pattern} :
    (oneOf ps).Fits n ↔ ∃ p ∈ ps, p.Fits n := by
  simp only [Fits, matchesAt, mem_matchesOneOf]
  grind

@[simp] theorem notes_oneOf {ps : List Pattern} :
    (oneOf ps).Notes n x ↔ ∃ p ∈ ps, p.Notes n x := by
  simp only [Notes, matchesAt, mem_matchesOneOf]
  grind

@[simp] theorem fits_field : (field name p).Fits n ↔ n.field = some name ∧ p.Fits n := by
  rw [Fits, matchesAt]
  split <;> simp_all [Fits]

@[simp] theorem notes_field :
    (field name p).Notes n x ↔ n.field = some name ∧ p.Notes n x := by
  rw [Notes, matchesAt]
  split <;> simp_all [Notes]

@[simp] theorem fits_tagged : (tagged p tag).Fits n ↔ p.Fits n := by
  simp only [Fits, matchesAt, List.mem_map]
  grind

@[simp] theorem notes_tagged :
    (tagged p tag).Notes n x ↔
      x = (tag, n) ∧ n.span.stop ≠ 0 ∧ p.Fits n ∨ p.Notes n x := by
  simp only [Notes, Fits, matchesAt, List.mem_map]
  split <;> grind

end

end Pattern

namespace Survey

/-- The survey notes `x` at node `n`. -/
def Notes (s : Survey) (n : Node) (x : Tag × Node) : Prop :=
  (∀ c ∈ n.children, c.kind ∉ s.exceptWith) ∧ ∃ p ∈ s.patterns, p.Notes n x

theorem mem_notes {root : Node} {x : Tag × Node} :
    x ∈ notes root ↔ ∃ n ∈ root.preorder, ∃ s ∈ all, s.Notes n x := by
  have hsurvey (s : Survey) (n : Node) : x ∈ (s.matchesAt n).flatten ↔ s.Notes n x := by
    by_cases hc : ∀ c ∈ n.children, c.kind ∉ s.exceptWith
    · have hany : (n.children.any fun c => s.exceptWith.contains c.kind) = false := by
        simpa using hc
      rw [matchesAt, hany]
      simp only [Bool.false_eq_true, if_false, List.mem_flatten, List.mem_flatMap, Notes,
        Pattern.Notes]
      grind
    · have hany : (n.children.any fun c => s.exceptWith.contains c.kind) = true := by
        simpa using hc
      rw [matchesAt, hany]
      simp [Notes, hc]
  simp only [notes, List.mem_flatMap, hsurvey]

/-! ### What is noted under each tag -/

/-- Node `q` spells a type name right behind a namespace: `ns::Type`. -/
def SpellsType (q m : Node) : Prop :=
  q.Is "qualified_identifier" ∧ ∃ scope, [scope, m].Sublist q.children ∧
    scope.IsUnder "scope" "namespace_identifier" ∧ m.IsUnder "name" "type_identifier"

/-- Node `q` spells a type name as part of a template behind a namespace: either name of
`ns::Template<...>` and `ns::Template<...>::Member`, if both names are type names. -/
inductive SpellsTemplate (q : Node) : Node → Prop where
  | template {scope template m : Node} (hq : q.Is "qualified_identifier")
      (order : [scope, template].Sublist q.children)
      (hscope : scope.IsUnder "scope" "namespace_identifier")
      (htemplate : template.IsUnder "name" "template_type")
      (hm : m ∈ template.children) (name : m.IsUnder "name" "type_identifier") :
      SpellsTemplate q m
  | member {scope inner template name member m : Node} (hq : q.Is "qualified_identifier")
      (order : [scope, inner].Sublist q.children)
      (hscope : scope.IsUnder "scope" "namespace_identifier")
      (hinner : inner.IsUnder "name" "qualified_identifier")
      (order' : [template, member].Sublist inner.children)
      (htemplate : template.IsUnder "scope" "template_type") (hname : name ∈ template.children)
      (htype : name.IsUnder "name" "type_identifier")
      (hmember : member.IsUnder "name" "type_identifier") (hm : m = name ∨ m = member) :
      SpellsTemplate q m

/-- Node `n` calls the function or the function template of this name. -/
@[mk_iff]
inductive Calls (n : Node) : Node → Prop where
  | function {m : Node} (hn : n.Is "call_expression") (hm : m ∈ n.children)
      (name : m.IsUnder "function" "identifier") : Calls n m
  | template {template m : Node} (hn : n.Is "call_expression") (htemplate : template ∈ n.children)
      (hfunction : template.IsUnder "function" "template_function")
      (hm : m ∈ template.children) (name : m.IsUnder "name" "identifier") : Calls n m

def IsStreamOperator (n : Node) : Prop :=
  n.field = some "operator" ∧ (n.IsToken "<<" ∨ n.IsToken ">>")

/-- Node `n` puts the name on one side of a stream operator. -/
@[mk_iff]
inductive Streams (n : Node) : Node → Prop where
  | right {operator m : Node} (hn : n.Is "binary_expression")
      (order : [operator, m].Sublist n.children) (hoperator : IsStreamOperator operator)
      (name : m.IsUnder "right" "identifier") : Streams n m
  | left {operator m : Node} (hn : n.Is "binary_expression")
      (order : [m, operator].Sublist n.children) (hoperator : IsStreamOperator operator)
      (name : m.IsUnder "left" "identifier") : Streams n m

def IsDeclaration (d : Node) : Prop :=
  d.Is "using_declaration" ∧ (∃ name ∈ d.children, name.Is "qualified_identifier") ∧
    ∀ c ∈ d.children, c.kind ≠ "namespace" ∧ c.kind ≠ "enum"

def IsDirective (d : Node) : Prop :=
  d.Is "using_declaration" ∧ ∃ keyword name, [keyword, name].Sublist d.children ∧
    keyword.IsToken "namespace" ∧ (name.Is "identifier" ∨ name.Is "qualified_identifier")

section

variable {n m : Node}

attribute [local simp] all Notes allTypes qualifiedTypes qualifiedTemplateTypes streamSymbols
  streamOperator functionSymbols usingDeclarations usingNamespaces Node.IsUnder

theorem exists_notes_type :
    (∃ s ∈ all, s.Notes n (.type, m)) ↔
      m.span.stop ≠ 0 ∧ m = n ∧ n.Is "type_identifier" := by
  simp
  grind

theorem exists_notes_typeQual :
    (∃ s ∈ all, s.Notes n (.typeQual, m)) ↔ m.span.stop ≠ 0 ∧ SpellsType n m := by
  simp [SpellsType]
  grind

theorem exists_notes_typeQualTemplate :
    (∃ s ∈ all, s.Notes n (.typeQualTemplate, m)) ↔
      m.span.stop ≠ 0 ∧ SpellsTemplate n m := by
  simp only [all, allTypes, qualifiedTypes, qualifiedTemplateTypes, streamSymbols, streamOperator,
    functionSymbols, usingDeclarations, usingNamespaces, Notes, List.mem_cons, List.not_mem_nil,
    exists_eq_or_imp, exists_eq_left, Pattern.notes_tagged, Pattern.notes_field,
    Pattern.notes_node_nil, Pattern.notes_node_one, Pattern.notes_node_two, Pattern.notes_oneOf,
    Pattern.notes_token, Pattern.fits_field, Pattern.fits_tagged, Pattern.fits_node_nil,
    Pattern.fits_node_one, Prod.mk.injEq, reduceCtorEq, not_false_eq_true, implies_true,
    true_and, false_and, and_false, or_false, false_or, or_self, exists_const]
  constructor
  · rintro (⟨hn, scope, template, order, hscope, hfield, htemplate, name, hname, hname', rfl, hstop,
      htype⟩ | ⟨hn, scope, inner, order, hscope, hfield, hinner, template, member, order', h⟩)
    · exact ⟨hstop, .template hn order hscope ⟨hfield, htemplate⟩ hname ⟨hname', htype⟩⟩
    · rcases h with ⟨⟨hfield', htemplate, name, hname, hname', rfl, hstop, htype⟩, hmember⟩ |
        ⟨⟨hfield', htemplate, name, hname, htype⟩, hmember, rfl, hstop, htype'⟩
      · exact ⟨hstop, .member hn order hscope ⟨hfield, hinner⟩ order' ⟨hfield', htemplate⟩ hname
          ⟨hname', htype⟩ hmember (.inl rfl)⟩
      · exact ⟨hstop, .member hn order hscope ⟨hfield, hinner⟩ order' ⟨hfield', htemplate⟩ hname
          htype ⟨hmember, htype'⟩ (.inr rfl)⟩
  · rintro ⟨hstop, h⟩
    cases h with
    | template hn order hscope htemplate hm htype =>
      exact .inl ⟨hn, _, _, order, hscope, htemplate.1, htemplate.2, _, hm, htype.1, rfl, hstop,
        htype.2⟩
    | member hn order hscope hinner order' htemplate hname htype hmember hm =>
      refine .inr ⟨hn, _, _, order, hscope, hinner.1, hinner.2, _, _, order', ?_⟩
      rcases hm with rfl | rfl
      · exact .inl ⟨⟨htemplate.1, htemplate.2, _, hname, htype.1, rfl, hstop, htype.2⟩, hmember⟩
      · exact .inr ⟨⟨htemplate.1, htemplate.2, _, hname, htype⟩, hmember.1, rfl, hstop, hmember.2⟩

theorem exists_notes_func :
    (∃ s ∈ all, s.Notes n (.func, m)) ↔ m.span.stop ≠ 0 ∧ Calls n m := by
  simp [calls_iff]
  grind

theorem exists_notes_symbol :
    (∃ s ∈ all, s.Notes n (.symbol, m)) ↔ m.span.stop ≠ 0 ∧ Streams n m := by
  simp [streams_iff, IsStreamOperator]
  grind

theorem exists_notes_usingQualType :
    (∃ s ∈ all, s.Notes n (.usingQualType, m)) ↔
      m.span.stop ≠ 0 ∧ IsDeclaration n ∧ m ∈ n.children ∧ m.Is "qualified_identifier" := by
  simp [IsDeclaration]
  grind

theorem exists_notes_usingDecl :
    (∃ s ∈ all, s.Notes n (.usingDecl, m)) ↔ m.span.stop ≠ 0 ∧ m = n ∧ IsDeclaration n := by
  simp [IsDeclaration]
  grind

theorem exists_notes_usingNsDecl :
    (∃ s ∈ all, s.Notes n (.usingNsDecl, m)) ↔ m.span.stop ≠ 0 ∧ m = n ∧ IsDirective n := by
  simp [IsDirective]
  grind

end

end Survey

end UsingRemoval
