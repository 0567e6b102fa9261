/-!
Paths as text. A path is a sequence of pieces between slashes. Empty pieces and `.` name nothing,
except that a relative path may begin with `.`; only the text is looked at, not the files.
-/

set_option autoImplicit false

namespace UsingRemoval.Path

def pieces (path : String) : List String :=
  (path.toList.splitOn '/').map String.ofList

def isAbsolute (path : String) : Bool :=
  path.toList.head? == some '/'

def marked (index : Nat) : List String → List (String × Bool)
  | [] => []
  | piece :: rest =>
    (piece, piece != "" && (piece != "." || index == 0)) :: marked (index + 1) rest

/-- The pieces of a path up to the last that names something, the last one first. -/
def named (path : String) : List (String × Bool) :=
  (marked 0 (pieces path)).reverse.dropWhile fun piece => !piece.2

/-- The path without its last name; the root and the empty path have no parent. -/
def parent? (path : String) : Option String :=
  match named path with
  | [] => none
  | _ :: before =>
    match before.dropWhile fun piece => !piece.2 with
    | [] => some (if isAbsolute path then "/" else "")
    | rest => some ("/".intercalate (rest.reverse.map Prod.fst))

/-- The last name of a path, unless it is `.` or `..`. -/
def fileName? (path : String) : Option String :=
  match named path with
  | [] => none
  | (piece, _) :: _ => if piece == "." || piece == ".." then none else some piece

def join (base rest : String) : String :=
  if isAbsolute rest || base == "" then rest
  else if base.toList.getLast? == some '/' then base ++ rest
  else base ++ "/" ++ rest

def withFileName (path name : String) : String :=
  match fileName? path with
  | some _ => join ((parent? path).getD "") name
  | none => join path name

/-- The path and the paths above it, near to far. At most `fuel` of them. -/
def ancestors : Nat → String → List String
  | 0, _ => []
  | fuel + 1, path =>
    path :: match parent? path with
      | none => []
      | some up => ancestors fuel up

def stripSuffix? (s ending : String) : Option String :=
  if ending.toList.isSuffixOf s.toList then
    some (String.ofList (s.toList.take (s.length - ending.length)))
  else none

end UsingRemoval.Path
