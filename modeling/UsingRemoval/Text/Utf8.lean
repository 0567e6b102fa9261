/-!
UTF-8 text as a list of bytes. A decoder reads one byte at a time and hands out a character, or a
mark for each maximal run of bytes that begins a character and does not finish it. Strict and
forgiving reading are two views of the same output.
-/

set_option autoImplicit false

namespace UsingRemoval.Utf8

/-- What the decoder has read of an unfinished character: how many bytes are missing, the range
the next one must lie in, and the value so far. -/
inductive State where
  | start
  | inside (missing : Nat) (low high : UInt8) (value : Nat)

def lead (b : UInt8) : Option State :=
  if 0xC2 ≤ b ∧ b ≤ 0xDF then some (.inside 1 0x80 0xBF (b.toNat - 0xC0))
  else if b = 0xE0 then some (.inside 2 0xA0 0xBF 0)
  else if b = 0xED then some (.inside 2 0x80 0x9F 0xD)
  else if 0xE1 ≤ b ∧ b ≤ 0xEF then some (.inside 2 0x80 0xBF (b.toNat - 0xE0))
  else if b = 0xF0 then some (.inside 3 0x90 0xBF 0)
  else if 0xF1 ≤ b ∧ b ≤ 0xF3 then some (.inside 3 0x80 0xBF (b.toNat - 0xF0))
  else if b = 0xF4 then some (.inside 3 0x80 0x8F 4)
  else none

/-- Reads a byte between two characters; `none` marks a byte that begins no character. -/
def fresh (b : UInt8) : List (Option Char) × State :=
  if b < 0x80 then ([some (Char.ofNat b.toNat)], .start)
  else match lead b with
    | some s => ([], s)
    | none => ([none], .start)

/-- Reads one byte. A byte that cannot go on with the character leaves a mark and starts anew. -/
def step (s : State) (b : UInt8) : List (Option Char) × State :=
  match s with
  | .start => fresh b
  | .inside missing low high value =>
    if low ≤ b ∧ b ≤ high then
      let value := value * 64 + (b.toNat - 0x80)
      if missing ≤ 1 then ([some (Char.ofNat value)], .start)
      else ([], .inside (missing - 1) 0x80 0xBF value)
    else
      let (out, next) := fresh b
      (none :: out, next)

/-- The characters and marks of a byte list, read from state `s`. -/
def scan (s : State) : List UInt8 → List (Option Char)
  | [] => match s with
    | .start => []
    | .inside .. => [none]
  | b :: bs =>
    let (out, next) := step s b
    out ++ scan next bs

def decode? (bytes : List UInt8) : Option String :=
  ((scan .start bytes).mapM id).map String.ofList

def decodeLossy (bytes : List UInt8) : String :=
  String.ofList ((scan .start bytes).map (·.getD '\uFFFD'))

def encode (text : String) : List UInt8 :=
  text.toList.flatMap String.utf8EncodeChar

end UsingRemoval.Utf8
