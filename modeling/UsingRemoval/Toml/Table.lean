/-!
Values of TOML documents, and how the statements of a document build up its tables. A table may be
opened once by a header; tables that only stand on the way to others may still be opened later,
and tables made by dotted keys may only be filled by dotted keys.
-/

set_option autoImplicit false

namespace UsingRemoval.Toml

inductive Value where
  | text (text : String)
  | integer (number : Int)
  | float (written : String)
  | boolean (truth : Bool)
  /-- A date, a time, or both, in their plainest written form. -/
  | date (written : String)
  | array (items : List Value)
  | table (entries : List (String × Value))
  deriving Inhabited

inductive Statement where
  /-- `[path]` -/
  | header (path : List String)
  /-- `[[path]]` -/
  | element (path : List String)
  /-- `path.key = value` -/
  | assign (path : List String) (key : String) (value : Value)

mutual

inductive Item where
  | value (value : Value)
  | table (table : Table)
  /-- An array of tables, the last one first. -/
  | elements (tables : List Table)

inductive Table where
  /-- `implicit` tables were not opened by a header; `dotted` ones were made by dotted keys. -/
  | mk (implicit dotted : Bool) (items : List (String × Item))

end

namespace Table

/-- Whether no header opened the table. -/
def implicit : Table → Bool
  | mk implicit _ _ => implicit

/-- Whether dotted keys made the table. -/
def dotted : Table → Bool
  | mk _ dotted _ => dotted

def items : Table → List (String × Item)
  | mk _ _ items => items

def set (t : Table) (key : String) (item : Item) : Table :=
  mk t.implicit t.dotted ((key, item) :: t.items.filter fun i => i.1 != key)

/-- Changes the table at the end of a path, making the tables on the way as needed. Under an array
of tables the path goes on in its last element. With `dotted`, the path belongs to a dotted key. -/
def at? (dotted : Bool) (change : Table → Option Table) : List String → Table → Option Table
  | [], t => change t
  | key :: path, t =>
    match t.items.lookup key with
    | none => do
      let child ← at? dotted change path (mk true dotted [])
      return t.set key (.table child)
    | some (.table child) =>
      if dotted && !child.implicit then none
      else do
        let child ← at? dotted change path child
        return t.set key (.table child)
    | some (.elements (last :: earlier)) => do
      let last ← at? dotted change path last
      return t.set key (.elements (last :: earlier))
    | some _ => none

/-- Gives a key its value, unless it has one. Dotted keys only go into tables of their own. -/
def assign? (path : List String) (key : String) (value : Value) : Table → Option Table :=
  at? true (fun t =>
    if t.dotted == path.isEmpty then none
    else if (t.items.lookup key).isSome then none
    else some (t.set key (.value value))) path

def openTable? (key : String) (t : Table) : Option Table :=
  match t.items.lookup key with
  | none => some (t.set key (.table (mk false false [])))
  | some (.table child) =>
    if child.implicit && !child.dotted then
      some (t.set key (.table (mk false false child.items)))
    else none
  | some _ => none

def openElement? (key : String) (t : Table) : Option Table :=
  match t.items.lookup key with
  | none => some (t.set key (.elements [mk false false []]))
  | some (.elements tables) => some (t.set key (.elements (mk false false [] :: tables)))
  | some _ => none

def step? (state : Table × List String) (s : Statement) : Option (Table × List String) :=
  match s with
  | .header path => do
    let root ← at? false (openTable? (path.getLastD "")) path.dropLast state.1
    return (root, path)
  | .element path => do
    let root ← at? false (openElement? (path.getLastD "")) path.dropLast state.1
    return (root, path)
  | .assign path key value => do
    let root ← at? false (assign? path key value) state.2 state.1
    return (root, state.2)

mutual

def itemValue : Item → Value
  | .value v => v
  | .table t => tableValue t
  | .elements ts => .array (tableValues ts).reverse

def tableValue : Table → Value
  | mk _ _ items => .table (entryValues items).reverse

def entryValues : List (String × Item) → List (String × Value)
  | [] => []
  | (key, item) :: rest => (key, itemValue item) :: entryValues rest

def tableValues : List Table → List Value
  | [] => []
  | t :: ts => tableValue t :: tableValues ts

end

def ofStatements? (statements : List Statement) : Option Value := do
  let (root, _) ← statements.foldlM step? (mk false false [], [])
  return tableValue root

def ofPairs? (pairs : List (List String × String × Value)) : Option Value := do
  let table ← pairs.foldlM (fun t pair => assign? pair.1 pair.2.1 pair.2.2 t) (mk false false [])
  return tableValue table

end Table

end UsingRemoval.Toml
