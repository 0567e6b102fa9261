import Mathlib.Data.List.DropRight
import UsingRemoval.Proofs.Nesting
import UsingRemoval.Proofs.Segments
import UsingRemoval.Session

/-!
What becomes of the lines of a source. A deletion takes the line breaks right after it, whatever
stands before it on its line. So the next line goes on where the deletion stood, and it is a line of
its own only if nothing but blanks was written there before.
-/

set_option autoImplicit false

namespace UsingRemoval.Edit

def isBlank (b : UInt8) : Bool :=
  b == 0x20 || b == 0x09

/-- Only blanks stand behind the last line break of a text. -/
def OpensLine (text : List UInt8) : Prop :=
  ∀ b ∈ text.rtakeWhile fun b => !isLineBreak b, isBlank b = true

instance (text : List UInt8) : Decidable (OpensLine text) :=
  inferInstanceAs (Decidable (∀ b ∈ _, _))

/-- What the edits that begin at an offset write there. -/
def writtenAt (edits : List Edit) (offset : Nat) : List UInt8 :=
  (edits.filter fun e => e.span.start == offset).flatMap qualifier

/-- The edit is a deletion and takes the line break at the offset, before later edits begin. -/
def TakesBreak (source : List UInt8) (e : Edit) (later : List Edit) (offset : Nat) : Prop :=
  e.action = .delete ∧ e.span.stop ≤ offset ∧ offset < e.resume source ∧
    offset < gapStop source later

theorem opensLine_concat_lineBreak (text : List UInt8) {b : UInt8} (h : isLineBreak b = true) :
    OpensLine (text ++ [b]) := by
  have hempty : (text ++ [b]).rtakeWhile (fun b => !isLineBreak b) = [] :=
    List.rtakeWhile_concat_neg _ _ _ (by simp [h])
  intro c hc
  rw [hempty] at hc
  cases hc

/-! ### Cutting a source at an edit -/

section

variable {source : List UInt8}

private theorem span_eq_nil {a b : Nat} (h : b ≤ a) : Piece.span ⟨a, b⟩ = [] := by
  simp [Piece.span, Nat.sub_eq_zero_of_le h]

private theorem span_append {a b c : Nat} (hab : a ≤ b) (hbc : b ≤ c) :
    Piece.span ⟨a, b⟩ ++ Piece.span ⟨b, c⟩ = Piece.span ⟨a, c⟩ := by
  have hlength : c - a = (b - a) + (c - b) := by omega
  have hmiddle : a + (b - a) = b := by omega
  simp only [Piece.span, hlength, ← List.map_append]
  rw [← List.range'_append_1, hmiddle]

private theorem span_cons {a b : Nat} (h : a < b) :
    Piece.span ⟨a, b⟩ = Piece.copied a :: Piece.span ⟨a + 1, b⟩ := by
  have hlength : b - a = (b - (a + 1)) + 1 := by omega
  simp only [Piece.span, hlength, List.range'_succ, List.map_cons]

private theorem span_concat {a b : Nat} (h : a ≤ b) :
    Piece.span ⟨a, b + 1⟩ = Piece.span ⟨a, b⟩ ++ [Piece.copied b] := by
  rw [← span_append h (Nat.le_succ b), span_cons (Nat.lt_succ_self b), span_eq_nil le_rfl]

private theorem length_takeWhile_take {α : Type} (p : α → Bool) (l : List α) (n : Nat) :
    ((l.take n).takeWhile p).length = min (l.takeWhile p).length n := by
  induction l generalizing n with
  | nil => simp
  | cons a l ih =>
    cases n with
    | zero => simp
    | succ n =>
      by_cases h : p a
      · simp [h, ih]
      · simp [h]

private theorem span_resume_take (source : List UInt8) (e : Edit) {n stop : Nat} (h : stop ≤ n) :
    Piece.span ⟨e.resume source, stop⟩ = Piece.span ⟨e.resume (source.take n), stop⟩ := by
  by_cases ha : e.action = .delete
  · have hrun : lineBreaksAt (source.take n) e.span.stop =
        min (lineBreaksAt source e.span.stop) (n - e.span.stop) := by
      rw [lineBreaksAt, List.drop_take, length_takeWhile_take, lineBreaksAt]
    rw [resume_of_delete source ha, resume_of_delete _ ha, hrun]
    by_cases hreach : lineBreaksAt source e.span.stop ≤ n - e.span.stop
    · rw [Nat.min_eq_left hreach]
    · rw [span_eq_nil (by omega), span_eq_nil (by omega)]
  · rw [resume_of_ne_delete source ha, resume_of_ne_delete _ ha]

private theorem piecesFrom_append {n : Nat} {earlier rest : List Edit} (hn : n ≤ source.length)
    (hrest : gapStop source rest = n) (starts : ∀ d ∈ earlier, d.span.start ≤ n) {cursor cut : Nat}
    (same : ∀ stop ≤ n, Piece.span ⟨cursor, stop⟩ = Piece.span ⟨cut, stop⟩) :
    Piece.span ⟨cursor, gapStop source (earlier ++ rest)⟩ ++ piecesFrom source (earlier ++ rest) =
      Piece.span ⟨cut, gapStop (source.take n) earlier⟩ ++ piecesFrom (source.take n) earlier ++
        piecesFrom source rest := by
  induction earlier generalizing cursor cut with
  | nil =>
    have hlength : gapStop (source.take n) [] = n := by simp [gapStop, hn]
    rw [List.nil_append, hrest, hlength, same n le_rfl, piecesFrom, List.append_nil]
  | cons d earlier ih =>
    obtain ⟨hd, hearlier⟩ := List.forall_mem_cons.1 starts
    have hgap : Piece.span ⟨cursor, d.span.start⟩ = Piece.span ⟨cut, d.span.start⟩ :=
      same d.span.start hd
    have later := ih hearlier fun stop hstop => span_resume_take source d hstop
    simp only [List.cons_append, gapStop, piecesFrom, hgap, List.append_assoc] at later ⊢
    rw [later]

variable {earlier later edits : List Edit} {e : Edit}

theorem start_le_of_mem (inside : ∀ d ∈ edits, d.Within source) (chain : edits.IsChain Before) :
    ∀ d ∈ edits, gapStop source edits ≤ d.span.start := by
  intro d hd
  cases edits with
  | nil => cases hd
  | cons a rest =>
    rcases List.mem_cons.1 hd with rfl | hd
    · exact le_rfl
    · have hbefore : a.span.stop ≤ d.span.start :=
        (List.pairwise_cons.1 (pairwise_before_of_isChain inside chain)).1 d hd
      have hforward := (inside a List.mem_cons_self).1
      simp only [gapStop]
      omega

theorem stop_le_of_mem_earlier (inside : ∀ d ∈ earlier ++ e :: later, d.Within source)
    (chain : (earlier ++ e :: later).IsChain Before) :
    ∀ d ∈ earlier, d.span.stop ≤ e.span.start := by
  intro d hd
  have apart := (List.pairwise_append.1 (pairwise_before_of_isChain inside chain)).2.2
  exact apart d hd e List.mem_cons_self

theorem within_take (inside : ∀ d ∈ earlier ++ e :: later, d.Within source)
    (chain : (earlier ++ e :: later).IsChain Before) :
    ∀ d ∈ earlier, d.Within (source.take e.span.start) := by
  intro d hd
  have hstop := stop_le_of_mem_earlier inside chain d hd
  have hd := inside d (List.mem_append_left _ hd)
  have hlength := hd.2
  refine ⟨hd.1, ?_⟩
  rw [List.length_take]
  omega

/-- What comes before an edit is what the edits before it make of the source before it. -/
theorem pieces_append (inside : ∀ d ∈ earlier ++ e :: later, d.Within source)
    (chain : (earlier ++ e :: later).IsChain Before) :
    pieces source (earlier ++ e :: later) =
      pieces (source.take e.span.start) earlier ++ piecesFrom source (e :: later) := by
  have he := inside e (by simp)
  have starts : ∀ d ∈ earlier, d.span.start ≤ e.span.start := by
    intro d hd
    have hforward := (inside d (List.mem_append_left _ hd)).1
    have hstop := stop_le_of_mem_earlier inside chain d hd
    omega
  exact piecesFrom_append (he.1.trans he.2) rfl starts fun _ _ => rfl

end

/-! ### Where a line goes on -/

section

variable {source : List UInt8} {edits earlier later : List Edit} {e : Edit} {offset : Nat}
variable {b : UInt8}

private theorem exists_split (edits : List Edit) (hlength : offset ≤ source.length) :
    ∃ earlier later, edits = earlier ++ later ∧ (∀ d ∈ earlier, d.span.start < offset) ∧
      offset ≤ gapStop source later := by
  let begun := fun d : Edit => decide (d.span.start < offset)
  refine ⟨edits.takeWhile begun, edits.dropWhile begun, List.takeWhile_append_dropWhile.symm,
    ?_, ?_⟩
  · intro d hd
    have hbegun : begun d = true := List.mem_takeWhile_imp hd
    exact of_decide_eq_true hbegun
  · have hfirst := edits.head?_dropWhile_not begun
    cases hlater : edits.dropWhile begun with
    | nil => exact hlength
    | cons d later => simpa [hlater, begun, gapStop] using hfirst

private theorem eq_of_split {earlier' later' : List Edit}
    (same : earlier ++ later = earlier' ++ later')
    (starts : ∀ d ∈ earlier, d.span.start < offset) (gap : offset ≤ gapStop source later)
    (starts' : ∀ d ∈ earlier', d.span.start < offset) (gap' : offset ≤ gapStop source later') :
    earlier = earlier' ∧ later = later' := by
  have begun {earlier later : List Edit} (starts : ∀ d ∈ earlier, d.span.start < offset)
      (gap : offset ≤ gapStop source later) :
      (earlier ++ later).takeWhile (fun d => decide (d.span.start < offset)) = earlier := by
    rw [List.takeWhile_append_of_pos (by simpa using starts)]
    cases later with
    | nil => simp
    | cons d later => simpa [gapStop] using gap
  have hearlier : earlier = earlier' := by
    rw [← begun starts gap, same, begun starts' gap']
  subst hearlier
  exact ⟨rfl, List.append_cancel_left same⟩

private theorem isLineBreak_of_lt {start : Nat} (hstart : start ≤ offset)
    (hrun : offset < start + lineBreaksAt source start) (hb : source[offset]? = some b) :
    isLineBreak b = true := by
  have hlt : offset - start < ((source.drop start).takeWhile isLineBreak).length := by
    rw [lineBreaksAt] at hrun
    omega
  have hget : ((source.drop start).takeWhile isLineBreak)[offset - start] = b := by
    have hrun := List.takeWhile_prefix isLineBreak (l := source.drop start)
    rw [hrun.getElem hlt, List.getElem_drop]
    simpa [Nat.add_sub_cancel' hstart] using (List.getElem?_eq_some_iff.1 hb).2
  exact List.mem_takeWhile_imp (hget ▸ List.getElem_mem hlt)

private theorem resume_le (hb : source[offset]? = some b) (solid : isLineBreak b = false)
    (hstop : e.span.stop ≤ offset) : e.resume source ≤ offset := by
  by_cases ha : e.action = .delete
  · rw [resume_of_delete source ha]
    by_contra hlt
    rw [isLineBreak_of_lt hstop (Nat.lt_of_not_le hlt) hb] at solid
    cases solid
  · rwa [resume_of_ne_delete source ha]

private theorem writtenAt_eq_nil (h : ∀ d ∈ edits, d.span.start ≠ offset) :
    writtenAt edits offset = [] := by
  have hnone : edits.filter (fun d => d.span.start == offset) = [] := by
    rw [List.filter_eq_nil_iff]
    intro d hd
    simpa using h d hd
  rw [writtenAt, hnone, List.flatMap_nil]

private theorem writtenAt_append (earlier later : List Edit) :
    writtenAt (earlier ++ later) offset = writtenAt earlier offset ++ writtenAt later offset := by
  rw [writtenAt, List.filter_append, List.flatMap_append, writtenAt, writtenAt]

private theorem Dropped.append_left (h : Dropped source later offset) (earlier : List Edit) :
    Dropped source (earlier ++ later) offset := by
  induction earlier with
  | nil => exact h
  | cons d earlier ih => exact .inr ih

private theorem piecesFrom_of_delete (ha : e.action = .delete) :
    piecesFrom source (e :: later) =
      Piece.span ⟨e.resume source, gapStop source later⟩ ++ piecesFrom source later := by
  simp [piecesFrom, qualifier, Edit.kept, ha]

private theorem piecesFrom_of_ne_delete (ha : e.action ≠ .delete) (he : e.Within source)
    (chain : (e :: later).IsChain Before) :
    piecesFrom source (e :: later) = e.qualifier.map .written ++
      (Piece.span ⟨e.span.start, gapStop source later⟩ ++ piecesFrom source later) := by
  have hkept : e.kept = Piece.span e.span := by
    unfold Edit.kept
    split
    · contradiction
    · rfl
  rw [piecesFrom, hkept, resume_of_ne_delete source ha,
    ← span_append he.1 (stop_le_gapStop he chain)]
  simp only [List.append_assoc]

private theorem piecesFrom_of_start (he : e.Within source) (chain : (e :: later).IsChain Before)
    (hb : source[offset]? = some b) (solid : isLineBreak b = false)
    (stays : ¬ Dropped source (e :: later) offset) (hstart : e.span.start = offset) :
    piecesFrom source (e :: later) = e.qualifier.map .written ++
      (Piece.span ⟨offset, gapStop source later⟩ ++ piecesFrom source later) := by
  by_cases ha : e.action = .delete
  · -- the deletion covers nothing, and the byte after it is no line break that it could take
    have hstop : e.span.stop ≤ offset := by
      by_contra hlt
      exact stays (.inl ⟨ha, Nat.le_of_eq hstart, .inl (Nat.lt_of_not_le hlt)⟩)
    have hresume : e.resume source = offset := by
      have hle := resume_le hb solid hstop
      have hge := stop_le_resume source e
      have hforward := he.1
      omega
    have hwritten : e.qualifier = [] := by simp [qualifier, ha]
    rw [piecesFrom_of_delete ha, hresume, hwritten, List.map_nil, List.nil_append]
  · rw [piecesFrom_of_ne_delete ha he chain, hstart]

private theorem exists_copied (inside : ∀ d ∈ later, d.Within source) (chain : later.IsChain Before)
    (hb : source[offset]? = some b) (solid : isLineBreak b = false)
    (stays : ¬ Dropped source later offset) (gap : offset ≤ gapStop source later) :
    ∃ after, Piece.span ⟨offset, gapStop source later⟩ ++ piecesFrom source later =
      (writtenAt later offset).map .written ++ .copied offset :: after := by
  have hlength : offset < source.length := (List.getElem?_eq_some_iff.1 hb).1
  induction later with
  | nil => exact ⟨_, by rw [gapStop, span_cons hlength]; rfl⟩
  | cons d later ih =>
    obtain ⟨hd, hlater⟩ := List.forall_mem_cons.1 inside
    rcases Nat.lt_or_eq_of_le gap with hgap | hstart
    · have hnone : writtenAt (d :: later) offset = [] := by
        apply writtenAt_eq_nil
        intro a ha
        have hfirst := start_le_of_mem inside chain a ha
        omega
      exact ⟨_, by rw [span_cons hgap, hnone]; rfl⟩
    · have hstart : d.span.start = offset := hstart.symm
      have hnext : offset ≤ gapStop source later := by
        have hstop := stop_le_gapStop hd chain
        have hforward := hd.1
        omega
      obtain ⟨after, hafter⟩ := ih hlater chain.of_cons (fun h => stays (.inr h)) hnext
      have hwritten : writtenAt (d :: later) offset = d.qualifier ++ writtenAt later offset := by
        simp [writtenAt, hstart]
      refine ⟨after, ?_⟩
      rw [gapStop, span_eq_nil (Nat.le_of_eq hstart), List.nil_append,
        piecesFrom_of_start hd chain hb solid stays hstart, hafter, hwritten, List.map_append,
        List.append_assoc]

private theorem mem_slice_of_covered {s : Span} (hb : source[offset]? = some b)
    (hstart : s.start ≤ offset) (hstop : offset < s.stop) : b ∈ s.slice source := by
  rw [List.mem_iff_getElem?]
  refine ⟨offset - s.start, ?_⟩
  rw [Span.slice, List.getElem?_take_of_lt (by omega), List.getElem?_drop,
    Nat.add_sub_cancel' hstart, hb]

private theorem pieces_of_takesBreak (inside : ∀ d ∈ earlier ++ e :: later, d.Within source)
    (chain : (earlier ++ e :: later).IsChain Before) (hb : source[offset + 1]? = some b)
    (solid : isLineBreak b = false) (takes : TakesBreak source e later offset) :
    pieces source (earlier ++ e :: later) = pieces (source.take e.span.start) earlier ++
      (Piece.span ⟨offset + 1, gapStop source later⟩ ++ piecesFrom source later) := by
  obtain ⟨ha, hstop, htaken, _⟩ := takes
  have hresume : e.resume source = offset + 1 := by
    have hle := resume_le hb solid (Nat.le_succ_of_le hstop)
    omega
  rw [pieces_append inside chain, piecesFrom_of_delete ha, hresume]

private theorem exists_pieces_of_kept (inside : ∀ d ∈ earlier ++ later, d.Within source)
    (chain : (earlier ++ later).IsChain Before)
    (unbroken : ∀ d ∈ earlier ++ later, d.action = .delete →
      ∀ b ∈ d.span.slice source, isLineBreak b = false)
    {c : UInt8} (hc : source[offset]? = some c) (ends : isLineBreak c = true)
    (starts : ∀ d ∈ earlier, d.span.start < offset + 1) (gap : offset + 1 ≤ gapStop source later)
    (keeps : ∀ before e, earlier = before ++ [e] → ¬ TakesBreak source e later offset) :
    ∃ front, pieces source (earlier ++ later) = front ++ [.copied offset] ++
      (Piece.span ⟨offset + 1, gapStop source later⟩ ++ piecesFrom source later) := by
  rcases List.eq_nil_or_concat' earlier with rfl | ⟨before, e, rfl⟩
  · refine ⟨Piece.span ⟨0, offset⟩, ?_⟩
    rw [List.nil_append, pieces, ← span_append (Nat.zero_le (offset + 1)) gap,
      span_concat (Nat.zero_le offset), List.append_assoc _ _ (piecesFrom source later)]
  · rw [List.append_assoc, List.singleton_append] at inside chain unbroken ⊢
    have hstart : e.span.start ≤ offset := Nat.le_of_lt_succ (starts e (by simp))
    rw [pieces_append inside chain]
    by_cases ha : e.action = .delete
    · have hstop : e.span.stop ≤ offset := by
        by_contra hlt
        have hsolid := unbroken e (by simp) ha c
          (mem_slice_of_covered hc hstart (Nat.lt_of_not_le hlt))
        rw [ends] at hsolid
        cases hsolid
      have hresume : e.resume source ≤ offset := by
        by_contra hlt
        exact keeps before e rfl ⟨ha, hstop, Nat.lt_of_not_le hlt, gap⟩
      refine ⟨pieces (source.take e.span.start) before ++ Piece.span ⟨e.resume source, offset⟩, ?_⟩
      rw [piecesFrom_of_delete ha, ← span_append (Nat.le_succ_of_le hresume) gap,
        span_concat hresume]
      simp only [List.append_assoc]
    · have he := inside e (by simp)
      have hchain : (e :: later).IsChain Before := (List.isChain_append.1 chain).2.1
      refine ⟨pieces (source.take e.span.start) before ++ e.qualifier.map .written ++
        Piece.span ⟨e.span.start, offset⟩, ?_⟩
      rw [piecesFrom_of_ne_delete ha he hchain, ← span_append (Nat.le_succ_of_le hstart) gap,
        span_concat hstart]
      simp only [List.append_assoc]

private theorem byte?_of_take {n : Nat} {piece : Piece} (h : piece.byte? (source.take n) = some b) :
    piece.byte? source = some b := by
  cases piece with
  | copied i =>
    simp only [Piece.byte?, List.getElem?_take] at h ⊢
    split at h
    · exact h
    · cases h
  | written a => exact h

private theorem map_byte?_pieces_take {n : Nat} (inside : ∀ d ∈ edits, d.Within (source.take n)) :
    ∃ text, applyAll (source.take n) edits = some text ∧
      (pieces (source.take n) edits).map (Piece.byte? source) = text.map some := by
  have hbytes := map_byte?_pieces inside
  refine ⟨_, applyFrom_eq_segments inside 0, ?_⟩
  rw [← hbytes]
  apply List.map_congr_left
  intro piece hpiece
  have hmem := List.mem_map_of_mem (f := Piece.byte? (source.take n)) hpiece
  rw [hbytes] at hmem
  obtain ⟨a, _, ha⟩ := List.mem_map.1 hmem
  rw [← ha, byte?_of_take ha.symm]

private theorem eq_of_takesBreak {earlier' later' : List Edit}
    (inside : ∀ d ∈ earlier' ++ e :: later', d.Within source)
    (chain : (earlier' ++ e :: later').IsChain Before) (takes : TakesBreak source e later' offset)
    (same : earlier ++ later = earlier' ++ e :: later')
    (starts : ∀ d ∈ earlier, d.span.start < offset + 1) (gap : offset + 1 ≤ gapStop source later) :
    earlier = earlier' ++ [e] ∧ later = later' := by
  have hstop := takes.2.1
  have starts' : ∀ d ∈ earlier' ++ [e], d.span.start < offset + 1 := by
    intro d hd
    rcases List.mem_append.1 hd with hd | hd
    · have hapart := stop_le_of_mem_earlier inside chain d hd
      have hforward := (inside d (List.mem_append_left _ hd)).1
      have he := (inside e (by simp)).1
      omega
    · rw [List.mem_singleton.1 hd]
      have he := (inside e (by simp)).1
      omega
  rw [← List.singleton_append, ← List.append_assoc] at same
  exact eq_of_split same starts gap starts' takes.2.2.2

/-- The output has these bytes before what is written at an offset and the byte copied from
there. -/
def StandsBefore (source : List UInt8) (edits : List Edit) (offset : Nat)
    (head : List UInt8) : Prop :=
  ∃ before after,
    pieces source edits =
      before ++ (writtenAt edits offset).map .written ++ .copied offset :: after ∧
    before.map (Piece.byte? source) = head.map some

private theorem opensLine_of_copied {c : UInt8} (hc : source[offset]? = some c)
    (ends : isLineBreak c = true) {front : List Piece} {head : List UInt8}
    (hhead : (front ++ [Piece.copied offset]).map (Piece.byte? source) = head.map some) :
    OpensLine head := by
  rw [List.map_append] at hhead
  obtain ⟨line, last, rfl, _, hlast⟩ := List.map_eq_append_iff.1 hhead.symm
  have hlast : last = [c] := by
    apply (List.map_inj_right fun _ _ => Option.some.inj).1
    simp [hlast, Piece.byte?, hc]
  rw [hlast]
  exact opensLine_concat_lineBreak line ends

private theorem exists_standsBefore (inside : ∀ d ∈ edits, d.Within source)
    (hb : source[offset]? = some b) {front after : List Piece}
    (hpieces : pieces source edits =
      front ++ ((writtenAt edits offset).map .written ++ .copied offset :: after)) :
    ∃ head tail, applyAll source edits = some (head ++ writtenAt edits offset ++ b :: tail) ∧
      StandsBefore source edits offset head ∧ front.map (Piece.byte? source) = head.map some := by
  have hbytes := map_byte?_pieces inside
  rw [hpieces, List.map_append] at hbytes
  obtain ⟨head, rest, houtput, hhead, hrest⟩ := List.map_eq_append_iff.1 hbytes.symm
  rw [List.map_append, List.map_map, List.map_cons] at hrest
  obtain ⟨written, tail, rfl, hwritten, htail⟩ := List.map_eq_append_iff.1 hrest
  obtain ⟨b', tail, rfl, hb', _⟩ := List.map_eq_cons_iff.1 htail
  have hwritten : written = writtenAt edits offset :=
    (List.map_inj_right fun _ _ => Option.some.inj).1 hwritten
  have hbyte : b' = b := Option.some.inj (hb'.trans hb)
  refine ⟨head, tail, ?_, ⟨front, after, ?_, hhead.symm⟩, hhead.symm⟩
  · rw [applyAll, applyFrom_eq_segments inside 0, houtput, hwritten, hbyte, List.append_assoc]
  · rw [hpieces, List.append_assoc]

end

/-- A line whose first byte is copied begins a line of the output, blanks aside, except where a
deletion takes the line break before it and other bytes stand before the deletion on its line. -/
theorem opensLine_iff (source : List UInt8) (edits : List Edit)
    (inside : ∀ e ∈ edits, e.Within source) (disjoint : Plan.checkDisjoint edits = .ok ())
    (unbroken : ∀ e ∈ edits, e.action = .delete →
      ∀ b ∈ e.span.slice source, isLineBreak b = false)
    {p : Nat} {c b : UInt8} (hc : source[p]? = some c) (ends : isLineBreak c = true)
    (hb : source[p + 1]? = some b) (solid : isLineBreak b = false)
    (copied : p + 1 ∈ (pieces source edits).filterMap Piece.offset?) :
    ∃ head tail, applyAll source edits = some (head ++ writtenAt edits (p + 1) ++ b :: tail) ∧
      StandsBefore source edits (p + 1) head ∧
      (OpensLine head ↔ ∀ earlier e later, edits = earlier ++ e :: later →
        TakesBreak source e later p →
        ∃ text, applyAll (source.take e.span.start) earlier = some text ∧ OpensLine text) := by
  have chain := (Plan.checkDisjoint_ok_iff edits).1 disjoint
  have hlength : p + 1 < source.length := (List.getElem?_eq_some_iff.1 hb).1
  have stays := ((offset?_pieces inside chain).2 (p + 1)).1 copied |>.2
  obtain ⟨earlier, later, rfl, starts, gap⟩ := exists_split edits hlength.le
  have hlater : ∀ d ∈ later, d.Within source := fun d hd => inside d (List.mem_append_right _ hd)
  have hchain : later.IsChain Before := (List.isChain_append.1 chain).2.1
  obtain ⟨after, hafter⟩ := exists_copied hlater hchain hb solid
    (fun h => stays (h.append_left earlier)) gap
  have hwritten : writtenAt (earlier ++ later) (p + 1) = writtenAt later (p + 1) := by
    rw [writtenAt_append, writtenAt_eq_nil fun d hd => (starts d hd).ne, List.nil_append]
  by_cases taken : ∃ before e, earlier = before ++ [e] ∧ TakesBreak source e later p
  · obtain ⟨before, e, rfl, takes⟩ := taken
    have hsplit : before ++ [e] ++ later = before ++ e :: later := by simp
    rw [hsplit] at inside chain hwritten ⊢
    have hpieces := pieces_of_takesBreak inside chain hb solid takes
    rw [hafter, ← hwritten] at hpieces
    obtain ⟨head, tail, applied, stands, hhead⟩ := exists_standsBefore inside hb hpieces
    obtain ⟨text, happlied, htext⟩ := map_byte?_pieces_take (within_take inside chain)
    have hsame : head = text :=
      (List.map_inj_right fun _ _ => Option.some.inj).1 (hhead.symm.trans htext)
    refine ⟨head, tail, applied, stands, ?_, ?_⟩
    · intro opens before' e' rest same takes'
      rw [same] at inside chain
      obtain ⟨h, rfl⟩ := eq_of_takesBreak inside chain takes' (hsplit.trans same) starts gap
      obtain ⟨rfl, h⟩ := List.append_inj' h rfl
      obtain rfl : e = e' := by simpa using h
      exact ⟨text, happlied, hsame ▸ opens⟩
    · intro opens
      obtain ⟨text', applied', opens⟩ := opens before e later rfl takes
      rw [happlied] at applied'
      rw [hsame, Option.some.inj applied']
      exact opens
  · have keeps : ∀ before e, earlier = before ++ [e] → ¬ TakesBreak source e later p :=
      fun before e h takes => taken ⟨before, e, h, takes⟩
    obtain ⟨front, hfront⟩ := exists_pieces_of_kept inside chain unbroken hc ends starts gap keeps
    rw [hafter, ← hwritten] at hfront
    obtain ⟨head, tail, applied, stands, hhead⟩ := exists_standsBefore inside hb hfront
    refine ⟨head, tail, applied, stands, iff_of_true (opensLine_of_copied hc ends hhead) ?_⟩
    intro before e rest same takes
    rw [same] at inside chain
    obtain ⟨h, rfl⟩ := eq_of_takesBreak inside chain takes same starts gap
    exact absurd takes (keeps before e h)

theorem opensLine_iff_indented :
    let source := Utf8.encode "f();\n  using n::a;\na b;\n"
    let edits : List Edit := [⟨⟨7, 18⟩, .delete⟩, ⟨⟨19, 20⟩, .qualify "n"⟩]
    (∀ e ∈ edits, e.Within source) ∧ Plan.checkDisjoint edits = .ok () ∧
      ∃ head tail, applyAll source edits =
          some (head ++ Utf8.encode "n::" ++ 0x61 :: tail) ∧
        StandsBefore source edits 19 head ∧ OpensLine head := by
  intro source edits
  have inside : ∀ e ∈ edits, e.Within source := by decide +kernel
  have copied : 18 + 1 ∈ (pieces source edits).filterMap Piece.offset? := by decide +kernel
  obtain ⟨head, tail, applied, stands, opens⟩ := opensLine_iff source edits inside rfl
    (by decide +kernel) (p := 18) (c := 0x0A) (b := 0x61) (by decide +kernel) rfl
    (by decide +kernel) rfl copied
  refine ⟨inside, rfl, head, tail, applied, stands, opens.2 ?_⟩
  intro earlier e later same takes
  rcases List.cons_eq_append_iff.1 same with ⟨rfl, hfirst⟩ | ⟨rest, rfl, hrest⟩
  · obtain ⟨rfl, _⟩ := List.cons.inj hfirst
    exact ⟨Utf8.encode "f();\n  ", by decide +kernel, by decide +kernel⟩
  · -- the qualification behind the deletion deletes nothing
    have he : e ∈ [⟨⟨19, 20⟩, .qualify "n"⟩] := hrest ▸ List.mem_append_right _ List.mem_cons_self
    rw [List.mem_singleton.1 he] at takes
    cases takes.1

/-- The tree of the lines `int x;using std::foo;` and `#include <string>`. -/
def besideDeclaration : Node :=
  .branch "translation_unit" none 0 40 [
    .branch "declaration" none 0 6 [
      .branch "primitive_type" (some "type") 0 3,
      .branch "identifier" (some "declarator") 4 5,
      .literal ";" 5 6],
    .branch "using_declaration" none 6 21 [
      .literal "using" 6 11,
      .branch "qualified_identifier" none 12 20 [
        .branch "namespace_identifier" (some "scope") 12 15,
        .literal "::" 15 17,
        .branch "identifier" (some "name") 17 20],
      .literal ";" 20 21],
    .branch "preproc_include" none 22 40 [
      .literal "#include" 22 30,
      .branch "system_lib_string" (some "path") 31 39]]

/-- A deletion behind a declaration puts the directive on the next line right after that
declaration. -/
theorem line_glued_besideDeclaration :
    let source := Utf8.encode "int x;using std::foo;\n#include <string>\n"
    let edits : List Edit := [⟨⟨6, 21⟩, .delete⟩]
    (∀ e ∈ edits, e.Within source) ∧ Plan.checkDisjoint edits = .ok () ∧
      (∀ e ∈ edits, e.action = .delete → ∀ b ∈ e.span.slice source, isLineBreak b = false) ∧
      source[21]? = some 0x0A ∧ source[22]? = some 0x23 ∧
      22 ∈ (pieces source edits).filterMap Piece.offset? ∧
      applyAll source edits = some (Utf8.encode "int x;#include <string>\n") ∧
      StandsBefore source edits 22 (Utf8.encode "int x;") ∧ ¬ OpensLine (Utf8.encode "int x;") ∧
      ((Session.start (fun _ => some besideDeclaration) source .empty).take Session.makePlan).1 =
        .ok ⟨edits, []⟩ ∧
      ((Session.start (fun _ => some besideDeclaration) source .empty).take Session.fix).1 =
        .ok (Utf8.encode "int x;#include <string>\n") := by
  intro source edits
  have stands : StandsBefore source edits 22 (Utf8.encode "int x;") :=
    ⟨Piece.span ⟨0, 6⟩, Piece.span ⟨23, 40⟩, rfl, by decide +kernel⟩
  exact ⟨by decide +kernel, rfl, by decide +kernel, by decide +kernel, by decide +kernel,
    by decide +kernel, by decide +kernel, stands, by decide +kernel, by decide +kernel,
    by decide +kernel⟩

end UsingRemoval.Edit
