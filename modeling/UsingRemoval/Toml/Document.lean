import UsingRemoval.Toml.Table

/-!
The text of TOML 1.0 documents. Readers take characters from the front of the text or fail; where
two readings are possible the first that succeeds is taken.
-/

set_option autoImplicit false

namespace UsingRemoval.Toml

/-- A reader takes something from the front of a text, or fails. -/
abbrev Reader (α : Type) := StateT (List Char) Option α

namespace Reader

def char (ok : Char → Bool) : Reader Char := do
  match ← get with
  | c :: rest => if ok c then set rest; return c else failure
  | [] => failure

def word (expected : List Char) : Reader Unit := do
  let text ← get
  if expected.isPrefixOf text then set (text.drop expected.length) else failure

def peek : Reader (Option Char) :=
  return (← get).head?

/-- Takes what `item` takes, at most `bound` times and as often as it succeeds. -/
def upTo {α : Type} (item : Reader α) : Nat → Reader (List α)
  | 0 => return []
  | bound + 1 =>
    (do
      let first ← item
      let rest ← upTo item bound
      return first :: rest) <|> return []

/-- Takes what `item` takes as often as it succeeds. Each time takes a character or more, so there
are no more times than characters. -/
def many {α : Type} (item : Reader α) : Reader (List α) := do
  upTo item (← get).length

def perhaps {α : Type} (item : Reader α) : Reader (Option α) :=
  (do return some (← item)) <|> return none

def exactly (ok : Char → Bool) : Nat → Reader (List Char)
  | 0 => return []
  | count + 1 => do
    let c ← char ok
    let rest ← exactly ok count
    return c :: rest

end Reader

open Reader

/-! ### Blanks, comments and line ends -/

def isBlank (c : Char) : Bool := c == ' ' || c == '\t'

/-- A character that may stand in comments: anything but controls other than tab. -/
def isPlain (c : Char) : Bool :=
  c == '\t' || (0x20 ≤ c.toNat && c.toNat != 0x7F)

def blanks : Reader Unit := modify fun text => text.dropWhile isBlank

def newline : Reader Unit :=
  word ['\n'] <|> word ['\r', '\n']

def comment : Reader Unit := do
  word ['#']
  modify fun text => text.dropWhile isPlain

def gap : Reader Unit := do
  let _ ← many ((do let _ ← char isBlank) <|> newline <|> comment)

/-! ### Strings -/

def hexValue? (c : Char) : Option Nat :=
  if '0' ≤ c ∧ c ≤ '9' then some (c.toNat - 0x30)
  else if 'a' ≤ c ∧ c ≤ 'f' then some (c.toNat - 0x57)
  else if 'A' ≤ c ∧ c ≤ 'F' then some (c.toNat - 0x37)
  else none

def isHex (c : Char) : Bool := (hexValue? c).isSome

def numeral (base : Nat) (digits : List Char) : Nat :=
  digits.foldl (fun n c => n * base + (hexValue? c).getD 0) 0

/-- Takes the digits of a character's number. Only numbers of characters are taken. -/
def scalar (count : Nat) : Reader Char := do
  let n := numeral 16 (← exactly isHex count)
  if n.isValidChar then return Char.ofNat n else failure

def escape : Reader Char := do
  word ['\\']
  match ← char fun _ => true with
  | 'b' => return '\x08'
  | 't' => return '\t'
  | 'n' => return '\n'
  | 'f' => return '\x0c'
  | 'r' => return '\r'
  | '"' => return '"'
  | '\\' => return '\\'
  | 'u' => scalar 4
  | 'U' => scalar 8
  | _ => failure

def basicString : Reader String := do
  word ['"']
  let chars ← many (char (fun c => isPlain c && c != '"' && c != '\\') <|> escape)
  word ['"']
  return String.ofList chars

def literalString : Reader String := do
  word ['\'']
  let chars ← many (char fun c => isPlain c && c != '\'')
  word ['\'']
  return String.ofList chars

/-- Takes a quote that does not begin the closing three. -/
def innerQuote (quote : Char) : Reader Char := do
  if [quote, quote, quote].isPrefixOf (← get) then failure else char (· == quote)

/-- Takes the closing three quotes; up to two more before them belong to the string. -/
def closing (quote : Char) : Reader (List Char) := do
  word [quote, quote, quote]
  upTo (char (· == quote)) 2

/-- Takes a backslash at the end of a line and all blanks and line ends after it. -/
def lineContinuation : Reader Unit := do
  word ['\\']
  blanks
  newline
  let _ ← many ((do let _ ← char isBlank) <|> newline)

/-- Takes a string between three quotes each, made of pieces; a line end right after the opening
quotes does not count. -/
def longString (quote : Char) (piece : Reader (List Char)) : Reader String := do
  word [quote, quote, quote]
  let _ ← perhaps newline
  let pieces ← many (piece <|> (do newline; return ['\n']) <|> (do return [← innerQuote quote]))
  let extra ← closing quote
  return String.ofList (pieces.flatten ++ extra)

def longBasicString : Reader String :=
  longString '"' ((do return [← char fun c => isPlain c && c != '"' && c != '\\'])
    <|> (do lineContinuation; return []) <|> (do return [← escape]))

def longLiteralString : Reader String :=
  longString '\'' (do return [← char fun c => isPlain c && c != '\''])

/-! ### Numbers -/

def digits (ok : Char → Bool) : Reader (List Char) := do
  let first ← char ok
  let rest ← many (char ok <|> (do word ['_']; char ok))
  return first :: rest

def sign : Reader (Option Char) := perhaps (char fun c => c == '+' || c == '-')

def decimalDigits : Reader (List Char) := do
  match ← peek with
  | some '0' => exactly (· == '0') 1
  | _ => digits Char.isDigit

def basedInteger (letter : Char) (base : Nat) : Reader Nat := do
  word ['0', letter]
  let ds ← digits fun c => match hexValue? c with
    | some v => v < base
    | none => false
  return numeral base ds

/-- Takes an integer; all integers have 64 bits. -/
def integer : Reader Value := do
  let n ← (do return ((← basedInteger 'x' 16) : Int)) <|> (do return ((← basedInteger 'o' 8) : Int))
    <|> (do return ((← basedInteger 'b' 2) : Int))
    <|> (do
      let s ← sign
      let n : Int := numeral 10 (← decimalDigits)
      return if s = some '-' then -n else n)
  if -9223372036854775808 ≤ n ∧ n ≤ 9223372036854775807 then return .integer n else failure

/-- Whether `mantissa * 10 ^ exponent` is so large that its nearest double is infinite. -/
def overflows (mantissa : Nat) (exponent : Int) : Bool :=
  let limit := Nat.pow 2 1024 - Nat.pow 2 970
  if mantissa = 0 then false
  else if exponent ≤ 0 then limit * Nat.pow 10 (min exponent.natAbs (mantissa.log2 + 1)) ≤ mantissa
  else exponent > 400 || limit ≤ mantissa * Nat.pow 10 exponent.toNat

/-- Takes a number with a fraction or an exponent. One too large for a double is not taken. -/
def finiteFloat : Reader Value := do
  let s ← sign
  let whole ← decimalDigits
  let fraction ← perhaps (do word ['.']; digits Char.isDigit)
  let exponent ← perhaps (do
    let _ ← char fun c => c == 'e' || c == 'E'
    let s ← sign
    let n : Int := numeral 10 (← digits Char.isDigit)
    return if s = some '-' then -n else n)
  if fraction.isNone && exponent.isNone then failure
  let places := fraction.getD []
  if s ≠ some '-' ∧ overflows (numeral 10 (whole ++ places)) (exponent.getD 0 - places.length) then
    failure
  return .float (String.ofList (s.toList ++ whole ++ '.' :: places) ++ "e" ++
    toString (exponent.getD 0))

def specialFloat : Reader Value := do
  let s ← sign
  let name ← (do word ['i', 'n', 'f']; return "inf") <|> (do word ['n', 'a', 'n']; return "nan")
  return .float (String.ofList s.toList ++ name)

/-! ### Dates and times -/

def bounded (count low high : Nat) : Reader (Nat × String) := do
  let ds ← exactly Char.isDigit count
  let n := numeral 10 ds
  if low ≤ n ∧ n ≤ high then return (n, String.ofList ds) else failure

def daysOf (year month : Nat) : Nat :=
  if month = 2 then
    if year % 4 = 0 ∧ (year % 100 ≠ 0 ∨ year % 400 = 0) then 29 else 28
  else if month = 4 ∨ month = 6 ∨ month = 9 ∨ month = 11 then 30
  else 31

def fullDate : Reader String := do
  let (y, year) ← bounded 4 0 9999
  word ['-']
  let (m, month) ← bounded 2 1 12
  word ['-']
  let (_, day) ← bounded 2 1 (daysOf y m)
  return year ++ "-" ++ month ++ "-" ++ day

/-- Takes a time of day. Of a fraction of a second nine digits count, without zeros at the end. -/
def partialTime : Reader String := do
  let (_, hour) ← bounded 2 0 23
  word [':']
  let (_, minute) ← bounded 2 0 59
  word [':']
  let (_, second) ← bounded 2 0 60
  let fraction ← perhaps (do
    word ['.']
    let first ← char Char.isDigit
    return first :: (← many (char Char.isDigit)))
  let shown := (((fraction.getD []).take 9).reverse.dropWhile (· == '0')).reverse
  return hour ++ ":" ++ minute ++ ":" ++ second ++
    (if shown.isEmpty then "" else "." ++ String.ofList shown)

def timeOffset : Reader String :=
  (do let _ ← char fun c => c == 'Z' || c == 'z'; return "Z") <|> do
    let s ← char fun c => c == '+' || c == '-'
    let (h, hour) ← bounded 2 0 23
    word [':']
    let (m, minute) ← bounded 2 0 59
    return (if s == '-' && h + m != 0 then "-" else "+") ++ hour ++ ":" ++ minute

def dateTime : Reader Value :=
  (do
    let date ← fullDate
    let time ← perhaps (do
      let _ ← char fun c => c == 'T' || c == 't' || c == ' '
      let time ← partialTime
      let offset ← perhaps timeOffset
      return "T" ++ time ++ offset.getD "")
    return .date (date ++ time.getD "")) <|> do return .date (← partialTime)

/-! ### Keys and values -/

/-- The most parts a key may have, and the most levels values may have, is one less. -/
def limit : Nat := 80

def isBare (c : Char) : Bool :=
  ('a' ≤ c && c ≤ 'z') || ('A' ≤ c && c ≤ 'Z') || ('0' ≤ c && c ≤ '9') || c == '_' || c == '-'

def simpleKey : Reader String := do
  match ← peek with
  | some '"' => basicString
  | some '\'' => literalString
  | _ =>
    let first ← char isBare
    return String.ofList (first :: (← many (char isBare)))

def key : Reader (List String × String) := do
  let part := do blanks; let k ← simpleKey; blanks; return k
  let first ← part
  let rest ← many (do word ['.']; part)
  if rest.length + 1 < limit then
    return ((first :: rest).dropLast, rest.getLastD first)
  else failure

def keyValue (value : Reader Value) : Reader (List String × String × Value) := do
  let (path, last) ← key
  word ['=']
  blanks
  let v ← value
  return (path, last, v)

def array (item : Reader Value) : Reader Value := do
  word ['[']
  let element := do gap; let v ← item; gap; return v
  let first ← perhaps element
  match first with
  | none =>
    gap
    word [']']
    return .array []
  | some first =>
    let rest ← many (do word [',']; element)
    let _ ← perhaps (word [','])
    gap
    word [']']
    return .array (first :: rest)

/-- Takes a table in braces, which stands on one line and has no comma at its end. -/
def inlineTable (value : Reader Value) : Reader Value := do
  word ['\x7b']
  let pair := do blanks; let p ← keyValue value; blanks; return p
  let first ← perhaps pair
  let pairs ← match first with
    | none => pure []
    | some first => do
      let rest ← many (do word [',']; pair)
      pure (first :: rest)
  blanks
  word ['\x7d']
  match Table.ofPairs? pairs with
  | some table => return table
  | none => failure

/-- Takes a value with fewer than `depth` levels of arrays and tables. -/
def value : Nat → Reader Value
  | 0 => failure
  | depth + 1 => do
    match ← peek with
    | some '"' => return .text (← longBasicString <|> basicString)
    | some '\'' => return .text (← longLiteralString <|> literalString)
    | some '[' => if depth = 0 then failure else array (value depth)
    | some '\x7b' => if depth = 0 then failure else inlineTable (value depth)
    | some 't' => word ['t', 'r', 'u', 'e']; return .boolean true
    | some 'f' => word ['f', 'a', 'l', 's', 'e']; return .boolean false
    | _ => dateTime <|> finiteFloat <|> integer <|> specialFloat

/-! ### Documents -/

/-- Takes the header of a table or of an element of an array of tables. -/
def header : Reader Statement :=
  (do
    word ['[', '[']
    let (path, last) ← key
    word [']', ']']
    return .element (path ++ [last])) <|> do
    word ['[']
    let (path, last) ← key
    word [']']
    return .header (path ++ [last])

def line : Reader (Option Statement) := do
  blanks
  let statement ← perhaps (header <|> do
    let (path, last, v) ← keyValue (value limit)
    return .assign path last v)
  blanks
  let _ ← perhaps comment
  return statement

def document : Reader (List Statement) := do
  let _ ← perhaps (word ['\uFEFF'])
  let first ← line
  let rest ← many (do newline; line)
  if (← get).isEmpty then return (first :: rest).filterMap id else failure

def parse? (text : String) : Option Value := do
  let (statements, _) ← document.run text.toList
  Table.ofStatements? statements

end UsingRemoval.Toml
