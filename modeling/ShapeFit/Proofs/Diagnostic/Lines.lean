import ShapeFit.Diagnostic.Render
import ShapeFit.Proofs.Diagnostic.Pieces

/-!
# ShapeFit.Proofs.Diagnostic.Lines

Which line of a text a label quotes.

A position belongs to the line that reaches from the line break before it, or from the
beginning of the text, to the next line break or to the end (`LineAt`). A span that
starts between two characters is placed on the line around its start, as many characters
in as there are before it (`Placement.exists_of_split`).
-/

namespace ShapeFit

open Text

/-- The line of a text around a byte position, with what stands above and below it. A line
break ends what is above and begins what is below. -/
structure LineAt (source : List Char) (position : Nat) (above line below : List Char) : Prop where
  split : above ++ line ++ below = source
  unbroken : '\n' ∉ line
  begins : above = [] ∨ ∃ front, above = front ++ ['\n']
  ends : below = [] ∨ ∃ back, below = '\n' :: back
  reached : byteSize above ≤ position
  not_passed : position ≤ byteSize above + byteSize line

/-- The end of a span, clipped to the positions from its start to `high`. -/
def Span.clippedStop (span : Span) (high : Nat) : Nat := max span.start (min span.stop high)

namespace Placement

theorem not_mem_lineFront (cs : List Char) : '\n' ∉ lineFront cs := by
  have hall : (lineFront cs).all (· != '\n') = true := List.all_takeWhile
  intro hmem
  simpa using List.all_eq_true.mp hall '\n' hmem

theorem not_mem_lineBack (cs : List Char) : '\n' ∉ lineBack cs := by
  simpa [lineBack] using not_mem_lineFront cs.reverse

/-- What follows the first line of a text begins with a line break. -/
theorem exists_below (cs : List Char) :
    ∃ below, cs = lineFront cs ++ below ∧ (below = [] ∨ ∃ back, below = '\n' :: back) := by
  induction cs with
  | nil => exact ⟨[], rfl, .inl rfl⟩
  | cons c cs ih =>
      by_cases hc : c = '\n'
      · subst hc
        exact ⟨'\n' :: cs, by simp [lineFront], .inr ⟨cs, rfl⟩⟩
      · obtain ⟨below, hcs, hbelow⟩ := ih
        have hfront : lineFront (c :: cs) = c :: lineFront cs := by simp [lineFront, hc]
        refine ⟨below, ?_, hbelow⟩
        rw [hfront, List.cons_append, ← hcs]

/-- What precedes the last line of a text ends in a line break. -/
theorem exists_above (cs : List Char) :
    ∃ above, cs = above ++ lineBack cs ∧ (above = [] ∨ ∃ front, above = front ++ ['\n']) := by
  obtain ⟨below, hcs, hbelow⟩ := exists_below cs.reverse
  have hreverse := congrArg List.reverse hcs
  rw [List.reverse_reverse, List.reverse_append] at hreverse
  refine ⟨below.reverse, hreverse, ?_⟩
  obtain hnil | ⟨back, hback⟩ := hbelow
  · exact .inl (by simp [hnil])
  · exact .inr ⟨back.reverse, by simp [hback]⟩

/-- The number of characters within some bytes, if these end between two characters. -/
theorem charsWithin_of_split {cs l r : List Char} {n : Nat} (hcs : l ++ r = cs)
    (hn : byteSize l = min n (byteSize cs)) : charsWithin cs n = l.length := by
  rw [charsWithin, splitAtByte_eq_some_iff.mpr ⟨hcs, hn⟩]

/-- No character is within bytes that end inside a character. -/
theorem charsWithin_eq_zero {cs : List Char} {n : Nat}
    (h : ∀ l r, l ++ r = cs → byteSize l ≠ min n (byteSize cs)) : charsWithin cs n = 0 := by
  unfold charsWithin
  split
  · next l r hsplit =>
      obtain ⟨hcs, hn⟩ := splitAtByte_eq_some_iff.mp hsplit
      exact absurd hn (h l r hcs)
  · rfl

/-- How many characters of a line are underlined: those up to the end of the span, which is
clipped to the line, and none if that is inside a character. -/
theorem charsWithin_cases {source before right below : List Char} {span : Span}
    (hsource : before ++ (right ++ below) = source) (hstart : byteSize before = span.start) :
    (∃ piece, Span.Covers ⟨span.start, span.clippedStop (span.start + byteSize right)⟩
        source piece ∧ charsWithin right span.length = piece.length) ∨
      (∀ front back, front ++ back = source →
        byteSize front ≠ span.clippedStop (span.start + byteSize right)) ∧
        charsWithin right span.length = 0 := by
  have hwithin : span.clippedStop (span.start + byteSize right) =
      span.start + min span.length (byteSize right) := by
    rw [Span.clippedStop, Span.length]
    omega
  by_cases hcut : ∃ piece rest, piece ++ rest = right ∧
      byteSize piece = min span.length (byteSize right)
  · obtain ⟨piece, rest, hright, hsize⟩ := hcut
    have hleft : Remains source span.start (piece ++ (rest ++ below)) :=
      ⟨before, by rw [← hsource, ← hright, List.append_assoc], hstart⟩
    have hcovers := Span.Covers.of_remains hleft rfl
    rw [hsize, ← hwithin] at hcovers
    exact .inl ⟨piece, hcovers, charsWithin_of_split hright hsize⟩
  · refine .inr ⟨fun front back hsplit hfront => hcut ?_, charsWithin_eq_zero fun l r hlr hl =>
      hcut ⟨l, r, hlr, hl⟩⟩
    -- A cut of the source there is a cut of the line.
    obtain ⟨piece, hpiece, hback⟩ :=
      exists_of_append_eq_append (hsource.trans hsplit.symm) (by omega)
    rw [hpiece, byteSize_append] at hfront
    obtain ⟨rest, hright, -⟩ := exists_of_append_eq_append hback.symm (by omega)
    exact ⟨piece, rest, hright.symm, by omega⟩

/-- A span that starts between two characters has a placement: on the line around its start,
behind `left` and under the first characters of `right`. -/
theorem exists_of_split {source before after : List Char} {span : Span}
    (hsplit : before ++ after = source) (hstart : byteSize before = span.start) :
    ∃ above left right below,
      of? source span = some ⟨left ++ right, left.length, max 1 (charsWithin right span.length)⟩ ∧
      LineAt source span.start above (left ++ right) below ∧
      byteSize (above ++ left) = span.start := by
  -- The line goes back into what is before the span and on into what follows its start.
  obtain ⟨above, hbefore, habove⟩ := exists_above before
  obtain ⟨below, hafter, hbelow⟩ := exists_below after
  have hplaced : splitAtByte source span.start = some (before, after) :=
    splitAtByte_eq_some_iff.mpr ⟨hsplit, hstart⟩
  have hsize := congrArg byteSize hbefore
  rw [byteSize_append] at hsize
  refine ⟨above, lineBack before, lineFront after, below, by rw [of?, hplaced]; rfl,
    ⟨?_, ?_, habove, hbelow, ?_, ?_⟩, by rw [← hbefore, hstart]⟩
  · rw [← hsplit, ← List.append_assoc, ← hbefore, List.append_assoc, ← hafter]
  · simp [not_mem_lineFront, not_mem_lineBack]
  · omega
  · simp only [byteSize_append]
    omega

end Placement

/-- The block of a label with its placement: a bar, the line, and the underline with the
message. -/
def Label.blockAt (label : Label) (p : Placement) : String :=
  "  |\n  | " ++ String.ofList p.line ++ "\n  | " ++
    String.ofList (List.replicate p.column ' ' ++
      List.replicate p.width (if label.isPrimary then '^' else '-')) ++
    " " ++ label.message ++ "\n"

theorem Label.block_of_placement {source : List Char} {label : Label} {p : Placement}
    (h : Placement.of? source label.span = some p) : label.block source = label.blockAt p := by
  rw [block, h]
  rfl

theorem Label.block_of_none {source : List Char} {label : Label}
    (h : Placement.of? source label.span = none) : label.block source = "" := by
  rw [block, h]

end ShapeFit
