import ShapeFit.Diagnostic.Span
import ShapeFit.Text.Bytes

/-!
# ShapeFit.Proofs.Diagnostic.Pieces

Pieces of a source and the byte positions between which they stand.

`Remains` says what is left of a source after some bytes, and `Span.Covers` which piece
stands at a span. The ends of a span that covers a piece are between two characters, or at
an end of the source. Two ways to cut a source agree up to the earlier cut
(`exists_of_append_eq_append`), so a span covers one piece only (`Span.Covers.unique`).
-/

namespace ShapeFit

open Text

/-! ## Cuts -/

theorem Text.eq_nil_of_byteSize_eq_zero {cs : List Char} (h : byteSize cs = 0) : cs = [] := by
  cases cs with
  | nil => rfl
  | cons c cs =>
      have hc := Char.utf8Size_pos c
      simp only [byteSize] at h
      omega

/-- Of two cuts of a source, the later one is behind all that is before the earlier one. -/
theorem Text.exists_of_append_eq_append {l r l' r' : List Char} (h : l ++ r = l' ++ r')
    (hsize : byteSize l ≤ byteSize l') : ∃ m, l' = l ++ m ∧ r = m ++ r' := by
  obtain ⟨m, hl', hr⟩ | ⟨m, hl, hr'⟩ := List.append_eq_append_iff.mp h
  · exact ⟨m, hl', hr⟩
  · rw [hl, byteSize_append] at hsize
    have hm : m = [] := eq_nil_of_byteSize_eq_zero (by omega)
    subst hm
    exact ⟨[], by simp [hl], by simp [hr']⟩

/-- There is one way to cut a source after a number of bytes. -/
theorem Text.append_inj_of_byteSize {l r l' r' : List Char} (h : l ++ r = l' ++ r')
    (hsize : byteSize l = byteSize l') : l = l' ∧ r = r' := by
  obtain ⟨m, hl', hr⟩ := exists_of_append_eq_append h (Nat.le_of_eq hsize)
  rw [hl', byteSize_append] at hsize
  have hm : m = [] := eq_nil_of_byteSize_eq_zero (by omega)
  subst hm
  exact ⟨by simp [hl'], by simpa using hr⟩

/-! ## What is left of a source -/

/-- Whether `cs` is what is left of a source after its first `pos` bytes. -/
def Remains (source : List Char) (pos : Nat) (cs : List Char) : Prop :=
  ∃ before, before ++ cs = source ∧ byteSize before = pos

namespace Remains

variable {source piece rest cs : List Char} {pos : Nat} {c : Char}

theorem whole (source : List Char) : Remains source 0 source := ⟨[], rfl, rfl⟩

theorem drop (h : Remains source pos cs) (hcs : piece ++ rest = cs) :
    Remains source (pos + byteSize piece) rest := by
  obtain ⟨before, hsource, hpos⟩ := h
  refine ⟨before ++ piece, ?_, ?_⟩
  · rw [List.append_assoc, hcs, hsource]
  · rw [byteSize_append, hpos]

theorem tail (h : Remains source pos (c :: cs)) : Remains source (pos + c.utf8Size) cs := by
  have hcs : [c] ++ cs = c :: cs := rfl
  simpa [byteSize] using h.drop hcs

/-- What is left after a number of bytes. -/
theorem unique {cs' : List Char} (h : Remains source pos cs) (h' : Remains source pos cs') :
    cs = cs' := by
  obtain ⟨before, hsource, hpos⟩ := h
  obtain ⟨before', hsource', hpos'⟩ := h'
  exact (append_inj_of_byteSize (hsource.trans hsource'.symm) (hpos.trans hpos'.symm)).2

end Remains

/-! ## What is at a span -/

/-- Whether a span covers exactly these characters of a source. Both its ends are then
between two characters, or at an end of the source. -/
def Span.Covers (span : Span) (source piece : List Char) : Prop :=
  ∃ before after, before ++ piece ++ after = source ∧ byteSize before = span.start ∧
    byteSize (before ++ piece) = span.stop

namespace Span.Covers

variable {span : Span} {source piece rest cs : List Char} {pos : Nat}

theorem bounds (h : span.Covers source piece) :
    span.start ≤ span.stop ∧ span.stop ≤ byteSize source := by
  obtain ⟨before, after, hsource, hstart, hstop⟩ := h
  have hsize := congrArg byteSize hsource
  simp only [byteSize_append] at hsize hstop
  omega

/-- A span that covers a character is not empty. -/
theorem start_lt_stop (h : span.Covers source piece) (hpiece : 0 < byteSize piece) :
    span.start < span.stop := by
  obtain ⟨before, after, -, hstart, hstop⟩ := h
  rw [byteSize_append] at hstop
  omega

/-- A piece at the front of what is left is covered. -/
theorem of_remains (h : Remains source pos cs) (hcs : piece ++ rest = cs) :
    Span.Covers ⟨pos, pos + byteSize piece⟩ source piece := by
  obtain ⟨before, hsource, hpos⟩ := h
  refine ⟨before, rest, ?_, hpos, ?_⟩
  · rw [List.append_assoc, hcs, hsource]
  · rw [byteSize_append, hpos]

/-- What is covered is at the front of what is left at the start of the span. -/
theorem exists_rest (h : span.Covers source piece) (hleft : Remains source span.start cs) :
    (∃ rest, piece ++ rest = cs) ∧ span.stop = span.start + byteSize piece := by
  obtain ⟨before, after, hsource, hstart, hstop⟩ := h
  have hleft' : Remains source span.start (piece ++ after) :=
    ⟨before, by rw [← List.append_assoc, hsource], hstart⟩
  rw [byteSize_append] at hstop
  exact ⟨⟨after, hleft'.unique hleft⟩, by omega⟩

/-- In a source whose offsets a span can hold, the span of a piece is between its offsets. -/
theorem ofOffsets_eq (hsize : byteSize source ≤ Span.limit) (h : Remains source pos cs)
    (hcs : piece ++ rest = cs) :
    Span.ofOffsets pos (pos + byteSize piece) = ⟨pos, pos + byteSize piece⟩ := by
  have hbounds : pos ≤ pos + byteSize piece ∧ pos + byteSize piece ≤ byteSize source :=
    (of_remains h hcs).bounds
  rw [Span.ofOffsets, Nat.min_eq_left (by omega), Nat.min_eq_left (by omega)]

/-- The span of a piece at the front of what is left. -/
theorem ofOffsets (hsize : byteSize source ≤ Span.limit) (h : Remains source pos cs)
    (hcs : piece ++ rest = cs) :
    (Span.ofOffsets pos (pos + byteSize piece)).Covers source piece := by
  rw [ofOffsets_eq hsize h hcs]
  exact of_remains h hcs

/-- The empty span behind a piece. -/
theorem behind (h : span.Covers source piece) :
    Span.Covers ⟨span.stop, span.stop⟩ source [] := by
  obtain ⟨before, after, hsource, -, hstop⟩ := h
  exact ⟨before ++ piece, after, by simpa using hsource, hstop, by simpa using hstop⟩

end Span.Covers

end ShapeFit
