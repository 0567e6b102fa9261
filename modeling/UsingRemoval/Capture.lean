import UsingRemoval.Span

/-!
Captures: nodes of a syntax tree noted for a reason. The reason is one of eleven tags; apart from
its tag a capture is identified by its span alone.
-/

set_option autoImplicit false

namespace UsingRemoval

inductive Tag where
  /-- Every type name, qualified or not. -/
  | type
  /-- A type name behind a namespace, as `string` in `std::string`. -/
  | typeQual
  /-- The namespace of such a type name. -/
  | typeScope
  /-- A type name reached through a qualified template, as `vector` in `std::vector<int>`. -/
  | typeQualTemplate
  /-- The namespace of a qualified template. -/
  | typeScopeTemplate
  /-- A bare name beside a stream operator. -/
  | symbol
  /-- A bare name that is called. -/
  | func
  /-- The qualified name in `using a::b;`. -/
  | usingQualType
  /-- The whole of `using a::b;`. -/
  | usingDecl
  /-- The namespace in `using namespace a;`. -/
  | usingId
  /-- The whole of `using namespace a;`. -/
  | usingNsDecl
  deriving DecidableEq, Repr, Inhabited

namespace Tag

def all : List Tag :=
  [type, typeQual, typeScope, typeQualTemplate, typeScopeTemplate, symbol, func, usingQualType,
    usingDecl, usingId, usingNsDecl]

def name : Tag → String
  | type => "type"
  | typeQual => "type_qual"
  | typeScope => "type_scope"
  | typeQualTemplate => "type_qual_template"
  | typeScopeTemplate => "type_scope_template"
  | symbol => "symbol"
  | func => "func"
  | usingQualType => "using_qual_type"
  | usingDecl => "using_decl"
  | usingId => "using_id"
  | usingNsDecl => "using_ns_decl"

def ofName? (name : String) : Option Tag :=
  all.find? fun tag => tag.name == name

def rank (tag : Tag) : Nat :=
  tag.ctorIdx

theorem eq_of_rank_eq {a b : Tag} (h : a.rank = b.rank) : a = b := by
  revert h
  cases a <;> cases b <;> decide

instance : Ord Tag := ⟨compareOn rank⟩

instance : Std.TransOrd Tag := inferInstanceAs (Std.TransCmp (compareOn rank))

instance : Std.LawfulEqOrd Tag where
  eq_of_compare h := eq_of_rank_eq (Std.LawfulEqOrd.eq_of_compare h)
  compare_self := Std.ReflCmp.compare_self

end Tag

/-- A node noted under a tag: its span, kind and text. -/
structure Capture where
  span : Span
  kind : String
  text : String
  tag : Tag
  deriving DecidableEq, Repr, Inhabited

structure Slot where
  tag : Tag
  span : Span
  deriving DecidableEq, Repr

namespace Slot

instance : Ord Slot := ⟨compareLex (compareOn tag) (compareOn span)⟩

instance : Std.TransOrd Slot :=
  inferInstanceAs (Std.TransCmp (compareLex (compareOn tag) (compareOn span)))

instance : Std.LawfulEqOrd Slot where
  eq_of_compare {a b} h := by
    have h : compareLex (compareOn tag) (compareOn span) a b = .eq := h
    rw [compareLex_eq_eq] at h
    have ht : a.tag = b.tag := Std.LawfulEqOrd.eq_of_compare h.1
    have hs : a.span = b.span := Std.LawfulEqOrd.eq_of_compare h.2
    cases a; cases b; simp_all
  compare_self := Std.ReflCmp.compare_self

end Slot

def Capture.slot (c : Capture) : Slot := ⟨c.tag, c.span⟩

end UsingRemoval
