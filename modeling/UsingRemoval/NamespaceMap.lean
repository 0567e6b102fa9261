import UsingRemoval.Ordered

/-!
Tables from names to the namespaces that qualify them, and the built-in table of well-known
library names.
-/

set_option autoImplicit false

namespace UsingRemoval

abbrev NamespaceMap := Ordered (Prod.fst : String × String → String)

namespace NamespaceMap

def get? (map : NamespaceMap) (name : String) : Option String :=
  (map.find? name).map Prod.snd

def standardNames : List String :=
  ["abs", "ceil", "cerr", "cin", "cout", "dec", "endl", "fabs", "fixed", "floor",
    "forward_as_tuple", "frexp", "hex", "ifstream", "ios", "ios_base", "isnan", "istream",
    "istringstream", "ldexp", "list", "log", "make_pair", "map", "max", "min", "oct", "ofstream",
    "ostream", "ostringstream", "out_of_range", "pair", "piecewise_construct", "round", "regex",
    "set", "setfill", "setprecision", "setw", "signbit", "sqrt", "string", "to_string",
    "unordered_map", "vector", "ws"]

def standard : NamespaceMap :=
  Ordered.ofList (standardNames.map fun name => (name, "std"))

end NamespaceMap

end UsingRemoval
