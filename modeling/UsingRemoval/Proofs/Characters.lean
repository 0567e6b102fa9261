import Mathlib.Data.List.Basic
import UsingRemoval.Span
import UsingRemoval.Text.Utf8

/-!
Text and its bytes. Encoded text is read back as it was. An ASCII byte ends whatever character was
begun before it, so the forgiving decoder reads what stands on the two sides of it apart, be they
text or not. Text that is cut between two characters falls into text.
-/

set_option autoImplicit false

namespace UsingRemoval.Utf8

/-! ### Reading across an ASCII byte -/

private theorem scan_cons (s : State) (b : UInt8) (bs : List UInt8) :
    scan s (b :: bs) = (step s b).1 ++ scan (step s b).2 bs :=
  rfl

/-- Nothing below `0x80` goes on with the character that was begun. -/
def State.AboveAscii : State → Prop
  | .start => True
  | .inside _ low _ _ => 0x80 ≤ low

private theorem aboveAscii_of_lead {b : UInt8} {s : State} (h : lead b = some s) :
    s.AboveAscii := by
  unfold lead at h
  repeat' split at h
  all_goals first | contradiction | (cases h; simp only [State.AboveAscii]; decide)

private theorem aboveAscii_fresh (b : UInt8) : (fresh b).2.AboveAscii := by
  unfold fresh
  split
  · trivial
  · cases h : lead b with
    | none => trivial
    | some s => exact aboveAscii_of_lead h

private theorem aboveAscii_step (s : State) (b : UInt8) : (step s b).2.AboveAscii := by
  cases s with
  | start => exact aboveAscii_fresh b
  | inside missing low high value =>
    simp only [step]
    split
    · split
      · trivial
      · exact UInt8.le_refl _
    · exact aboveAscii_fresh b

private theorem step_ascii {s : State} (above : s.AboveAscii) {b : UInt8} (ascii : b < 0x80) :
    step s b = (scan s [] ++ [some (Char.ofNat b.toNat)], .start) := by
  have hfresh : fresh b = ([some (Char.ofNat b.toNat)], .start) := if_pos ascii
  cases s with
  | start => exact hfresh
  | inside missing low high value =>
    have hout : ¬ (low ≤ b ∧ b ≤ high) := by
      rintro ⟨hlow, _⟩
      exact UInt8.not_le.2 ascii (UInt8.le_trans above hlow)
    simp only [step, if_neg hout, hfresh, scan, List.cons_append, List.nil_append]

theorem scan_append_ascii {s : State} (above : s.AboveAscii) (bs rest : List UInt8) {b : UInt8}
    (ascii : b < 0x80) :
    scan s (bs ++ b :: rest) =
      scan s bs ++ some (Char.ofNat b.toNat) :: scan .start rest := by
  induction bs generalizing s with
  | nil =>
    rw [List.nil_append, scan_cons, step_ascii above ascii]
    simp
  | cons a bs ih =>
    rw [List.cons_append, scan_cons, scan_cons, ih (aboveAscii_step s a), List.append_assoc]

theorem decodeLossy_append_ascii (bs rest : List UInt8) {b : UInt8} (ascii : b < 0x80) :
    decodeLossy (bs ++ b :: rest) =
      decodeLossy bs ++ String.ofList [Char.ofNat b.toNat] ++ decodeLossy rest := by
  have above : State.start.AboveAscii := trivial
  simp only [decodeLossy, scan_append_ascii above bs rest ascii, ← String.ofList_append]
  simp

/-- A scope and what it scopes are read apart. -/
theorem decodeLossy_scoped (scope name : List UInt8) :
    decodeLossy (scope ++ encode "::" ++ name) =
      decodeLossy scope ++ "::" ++ decodeLossy name := by
  have hcolons : scope ++ encode "::" ++ name = scope ++ 0x3A :: ([] ++ 0x3A :: name) := by
    simp [show encode "::" = [0x3A, 0x3A] by decide]
  rw [hcolons, decodeLossy_append_ascii _ _ (by decide), decodeLossy_append_ascii _ _ (by decide)]
  have hempty : decodeLossy [] = "" := rfl
  have hjoined : String.ofList [Char.ofNat (0x3A : UInt8).toNat] ++
      ("" ++ String.ofList [Char.ofNat (0x3A : UInt8).toNat] ++ decodeLossy name) =
        "::" ++ decodeLossy name := by
    rw [String.empty_append, ← String.append_assoc]
    rfl
  rw [hempty, String.append_assoc, hjoined, String.append_assoc]

/-! ### Reading encoded text -/

private theorem scan_lead {b : UInt8} {s : State} (high : 0x80 ≤ b) (h : lead b = some s)
    (bs : List UInt8) : scan .start (b :: bs) = scan s bs := by
  have hstep : step .start b = ([], s) := by
    rw [step, fresh, if_neg (UInt8.not_lt.2 high), h]
  rw [scan_cons, hstep, List.nil_append]

private theorem scan_last {b low high : UInt8} (hb : low ≤ b ∧ b ≤ high) (value : Nat)
    (bs : List UInt8) :
    scan (.inside 1 low high value) (b :: bs) =
      some (Char.ofNat (value * 64 + (b.toNat - 0x80))) :: scan .start bs := by
  have hstep : step (.inside 1 low high value) b =
      ([some (Char.ofNat (value * 64 + (b.toNat - 0x80)))], .start) := by
    simp [step, if_pos hb]
  rw [scan_cons, hstep, List.singleton_append]

private theorem scan_more {b low high : UInt8} (hb : low ≤ b ∧ b ≤ high) (missing value : Nat)
    (bs : List UInt8) :
    scan (.inside (missing + 2) low high value) (b :: bs) =
      scan (.inside (missing + 1) 0x80 0xBF (value * 64 + (b.toNat - 0x80))) bs := by
  have hstep : step (.inside (missing + 2) low high value) b =
      ([], .inside (missing + 1) 0x80 0xBF (value * 64 + (b.toNat - 0x80))) := by
    simp [step, if_pos hb]
  rw [scan_cons, hstep, List.nil_append]

private theorem toNat_six_bits (v : Nat) :
    (UInt8.ofNat (v % 64 + 128)).toNat = v % 64 + 128 := by
  rw [UInt8.toNat_ofNat']
  omega

private theorem six_bits_mem (v : Nat) :
    0x80 ≤ UInt8.ofNat (v % 64 + 128) ∧ UInt8.ofNat (v % 64 + 128) ≤ 0xBF := by
  simp only [UInt8.le_iff_toNat_le, toNat_six_bits, UInt8.reduceToNat]
  omega

private theorem lead_of_two {v : Nat} (hlow : 127 < v) (hhigh : v ≤ 2047) :
    0x80 ≤ UInt8.ofNat (v / 64 % 32 + 192) ∧
      lead (UInt8.ofNat (v / 64 % 32 + 192)) = some (.inside 1 0x80 0xBF (v / 64)) := by
  have hbyte : (UInt8.ofNat (v / 64 % 32 + 192)).toNat = v / 64 + 192 := by
    rw [UInt8.toNat_ofNat']
    omega
  have hrange : 0xC2 ≤ UInt8.ofNat (v / 64 % 32 + 192) ∧
      UInt8.ofNat (v / 64 % 32 + 192) ≤ 0xDF := by
    simp only [UInt8.le_iff_toNat_le, hbyte, UInt8.reduceToNat]
    omega
  refine ⟨UInt8.le_trans (by decide) hrange.1, ?_⟩
  rw [lead, if_pos hrange, hbyte, Nat.add_sub_cancel]

private theorem lead_of_three {v : Nat} (hlow : 2047 < v) (hhigh : v ≤ 65535)
    (valid : v < 0xD800 ∨ 0xDFFF < v) :
    0x80 ≤ UInt8.ofNat (v / 4096 % 16 + 224) ∧
      ∃ low high, lead (UInt8.ofNat (v / 4096 % 16 + 224)) =
          some (.inside 2 low high (v / 4096)) ∧
        low ≤ UInt8.ofNat (v / 64 % 64 + 128) ∧ UInt8.ofNat (v / 64 % 64 + 128) ≤ high := by
  have hbyte : (UInt8.ofNat (v / 4096 % 16 + 224)).toNat = v / 4096 + 224 := by
    rw [UInt8.toNat_ofNat']
    omega
  generalize UInt8.ofNat (v / 4096 % 16 + 224) = b at hbyte ⊢
  refine ⟨by simp only [UInt8.le_iff_toNat_le, hbyte, UInt8.reduceToNat]; omega, ?_⟩
  simp only [lead, UInt8.le_iff_toNat_le, ← UInt8.toNat_inj, hbyte, UInt8.reduceToNat]
  rw [if_neg (by omega)]
  -- after `0xE0` come no values that fit into two bytes, and after `0xED` no surrogates
  by_cases hfirst : v / 4096 = 0
  · refine ⟨0xA0, 0xBF, ?_, ?_⟩
    · rw [if_pos (by omega), hfirst]
    · simp only [toNat_six_bits, UInt8.reduceToNat]
      omega
  rw [if_neg (by omega)]
  by_cases hsurrogate : v / 4096 = 0xD
  · refine ⟨0x80, 0x9F, ?_, ?_⟩
    · rw [if_pos (by omega), hsurrogate]
    · simp only [toNat_six_bits, UInt8.reduceToNat]
      omega
  · refine ⟨0x80, 0xBF, ?_, ?_⟩
    · rw [if_neg (by omega), if_pos (by omega), Nat.add_sub_cancel]
    · simp only [toNat_six_bits, UInt8.reduceToNat]
      omega

private theorem lead_of_four {v : Nat} (hlow : 65535 < v) (hhigh : v < 0x110000) :
    0x80 ≤ UInt8.ofNat (v / 262144 % 8 + 240) ∧
      ∃ low high, lead (UInt8.ofNat (v / 262144 % 8 + 240)) =
          some (.inside 3 low high (v / 262144)) ∧
        low ≤ UInt8.ofNat (v / 4096 % 64 + 128) ∧ UInt8.ofNat (v / 4096 % 64 + 128) ≤ high := by
  have hbyte : (UInt8.ofNat (v / 262144 % 8 + 240)).toNat = v / 262144 + 240 := by
    rw [UInt8.toNat_ofNat']
    omega
  generalize UInt8.ofNat (v / 262144 % 8 + 240) = b at hbyte ⊢
  refine ⟨by simp only [UInt8.le_iff_toNat_le, hbyte, UInt8.reduceToNat]; omega, ?_⟩
  simp only [lead, UInt8.le_iff_toNat_le, ← UInt8.toNat_inj, hbyte, UInt8.reduceToNat]
  rw [if_neg (by omega), if_neg (by omega), if_neg (by omega), if_neg (by omega)]
  -- after `0xF0` come no values that fit into three bytes, and after `0xF4` none past the last
  by_cases hfirst : v / 262144 = 0
  · refine ⟨0x90, 0xBF, ?_, ?_⟩
    · rw [if_pos (by omega), hfirst]
    · simp only [toNat_six_bits, UInt8.reduceToNat]
      omega
  rw [if_neg (by omega)]
  by_cases hlast : v / 262144 = 4
  · refine ⟨0x80, 0x8F, ?_, ?_⟩
    · rw [if_neg (by omega), if_pos (by omega), hlast]
    · simp only [toNat_six_bits, UInt8.reduceToNat]
      omega
  · refine ⟨0x80, 0xBF, ?_, ?_⟩
    · rw [if_pos (by omega), Nat.add_sub_cancel]
    · simp only [toNat_six_bits, UInt8.reduceToNat]
      omega

theorem scan_utf8EncodeChar (c : Char) (rest : List UInt8) :
    scan .start (String.utf8EncodeChar c ++ rest) = some c :: scan .start rest := by
  have valid : c.val.toNat < 0xD800 ∨ 0xDFFF < c.val.toNat ∧ c.val.toNat < 0x110000 := c.valid
  have back : Char.ofNat c.val.toNat = c := Char.ofNat_toNat c
  simp only [String.utf8EncodeChar]
  generalize c.val.toNat = v at valid back ⊢
  split
  · rename_i hone
    have hbyte : (UInt8.ofNat v).toNat = v := by
      rw [UInt8.toNat_ofNat']
      omega
    have ascii : UInt8.ofNat v < 0x80 := by
      simp only [UInt8.lt_iff_toNat_lt, hbyte, UInt8.reduceToNat]
      omega
    have hread := scan_append_ascii (s := .start) trivial [] rest ascii
    rwa [hbyte, back] at hread
  split
  · rename_i hone htwo
    obtain ⟨habove, hlead⟩ := lead_of_two (by omega) htwo
    rw [List.cons_append, scan_lead habove hlead, List.cons_append, scan_last (six_bits_mem v),
      toNat_six_bits, List.nil_append, show v / 64 * 64 + (v % 64 + 128 - 128) = v by omega, back]
  split
  · rename_i hone htwo hthree
    obtain ⟨habove, low, high, hlead, hsecond⟩ := lead_of_three (by omega) hthree (by omega)
    rw [List.cons_append, scan_lead habove hlead, List.cons_append, scan_more hsecond 0,
      List.cons_append, scan_last (six_bits_mem v), toNat_six_bits, toNat_six_bits, List.nil_append,
      show (v / 4096 * 64 + (v / 64 % 64 + 128 - 128)) * 64 + (v % 64 + 128 - 128) = v by omega,
      back]
  · rename_i hone htwo hthree
    obtain ⟨habove, low, high, hlead, hsecond⟩ := lead_of_four (v := v) (by omega) (by omega)
    rw [List.cons_append, scan_lead habove hlead, List.cons_append, scan_more hsecond 1,
      List.cons_append, scan_more (six_bits_mem _) 0, List.cons_append, scan_last (six_bits_mem v),
      toNat_six_bits, toNat_six_bits, toNat_six_bits, List.nil_append,
      show ((v / 262144 * 64 + (v / 4096 % 64 + 128 - 128)) * 64 + (v / 64 % 64 + 128 - 128)) * 64 +
        (v % 64 + 128 - 128) = v by omega, back]

theorem scan_encode (text : String) : scan .start (encode text) = text.toList.map some := by
  unfold encode
  induction text.toList with
  | nil => rfl
  | cons c cs ih => rw [List.flatMap_cons, scan_utf8EncodeChar, ih, List.map_cons]

theorem decodeLossy_encode (text : String) : decodeLossy (encode text) = text := by
  rw [decodeLossy, scan_encode, List.map_map]
  have hsame : (fun mark : Option Char => mark.getD '\uFFFD') ∘ some = id := rfl
  rw [hsame, List.map_id, String.ofList_toList]

theorem encode_append (first second : String) :
    encode (first ++ second) = encode first ++ encode second := by
  simp [encode]

/-! ### Cutting text -/

/-- The bytes are those of a text. -/
def Valid (bytes : List UInt8) : Prop :=
  ∃ text, encode text = bytes

theorem Valid.encode_decodeLossy {bytes : List UInt8} (valid : Valid bytes) :
    encode (decodeLossy bytes) = bytes := by
  obtain ⟨text, rfl⟩ := valid
  rw [decodeLossy_encode]

/-- The offset is where a character begins, or the end. -/
def IsBoundary (bytes : List UInt8) (offset : Nat) : Prop :=
  ∀ b ∈ bytes[offset]?, b.IsUTF8FirstByte

instance (bytes : List UInt8) (offset : Nat) : Decidable (IsBoundary bytes offset) :=
  inferInstanceAs (Decidable (∀ b ∈ bytes[offset]?, b.IsUTF8FirstByte))

def Uncut (source : List UInt8) (span : Span) : Prop :=
  IsBoundary source span.start ∧ IsBoundary source span.stop

instance (source : List UInt8) (span : Span) : Decidable (Uncut source span) :=
  inferInstanceAs (Decidable (_ ∧ _))

private theorem exists_cut {cs : List Char} {l r : List UInt8}
    (h : cs.flatMap String.utf8EncodeChar = l ++ r)
    (boundary : ∀ b ∈ r.head?, b.IsUTF8FirstByte) :
    ∃ before after : List Char, before.flatMap String.utf8EncodeChar = l ∧
      after.flatMap String.utf8EncodeChar = r := by
  induction cs generalizing l with
  | nil =>
    obtain ⟨rfl, rfl⟩ := List.append_eq_nil_iff.1 h.symm
    exact ⟨[], [], rfl, rfl⟩
  | cons c cs ih =>
    rw [List.flatMap_cons, List.append_eq_append_iff] at h
    rcases h with ⟨l', rfl, hcs⟩ | ⟨r', hc, rfl⟩
    · obtain ⟨before, after, rfl, hafter⟩ := ih hcs
      exact ⟨c :: before, after, List.flatMap_cons, hafter⟩
    · cases r' with
      | nil => exact ⟨[c], cs, by simpa using hc, rfl⟩
      | cons b r' =>
        -- of the bytes of `c` only the first begins a character, so nothing of `c` is in `l`
        have hfirst : b.IsUTF8FirstByte := boundary b rfl
        have hlt : l.length < (String.utf8EncodeChar c).length := by simp [hc]
        have hb : (String.utf8EncodeChar c)[l.length] = b := by simp [hc]
        have hempty : l.length = 0 := by
          rwa [← hb, UInt8.isUTF8FirstByte_getElem_utf8EncodeChar] at hfirst
        obtain rfl := List.eq_nil_of_length_eq_zero hempty
        exact ⟨[], c :: cs, rfl, by rw [List.flatMap_cons, hc, List.nil_append]⟩

private theorem valid_take_drop {bytes : List UInt8} (valid : Valid bytes) {offset : Nat}
    (boundary : IsBoundary bytes offset) :
    Valid (bytes.take offset) ∧ Valid (bytes.drop offset) := by
  obtain ⟨text, hbytes⟩ := valid
  rw [← List.take_append_drop offset bytes] at hbytes
  obtain ⟨before, after, hbefore, hafter⟩ := exists_cut hbytes (by
    rw [List.head?_drop]
    exact boundary)
  exact ⟨⟨.ofList before, by simpa [encode] using hbefore⟩,
    ⟨.ofList after, by simpa [encode] using hafter⟩⟩

theorem Valid.slice {source : List UInt8} (valid : Valid source) {span : Span}
    (uncut : Uncut source span) : Valid (span.slice source) := by
  obtain ⟨begins, ends⟩ := uncut
  have hrest := (valid_take_drop valid begins).2
  have hoffset : IsBoundary (source.drop span.start) (span.stop - span.start) := by
    unfold IsBoundary
    rw [List.getElem?_drop]
    rcases Nat.le_total span.start span.stop with hle | hle
    · rw [Nat.add_sub_cancel' hle]
      exact ends
    · rw [Nat.sub_eq_zero_of_le hle]
      exact begins
  exact (valid_take_drop hrest hoffset).1

end UsingRemoval.Utf8
