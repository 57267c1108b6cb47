import ShapeFit.Diagnostic
import ShapeFit.Text.Bytes

/-!
# ShapeFit.Diagnostic.Render

Diagnostics shown with the text that their labels point into.

Every label that starts in the text quotes its line and underlines it there. A
span may point anywhere: `Placement.of?` clips the end to the line, and gives no
placement where the start lies past the end of the text or inside a character
(`Placement.isSome_of?`). Columns and widths count characters.
-/

namespace ShapeFit

open Text

/-- The place of an underline: the line it belongs to, the number of characters
before it, and the number of characters underlined. -/
structure Placement where
  line : List Char
  column : Nat
  width : Nat
deriving DecidableEq

namespace Placement

/-- The part of a text before its first line break. -/
def lineFront (cs : List Char) : List Char := cs.takeWhile (· != '\n')

/-- The part of a text after its last line break. -/
def lineBack (cs : List Char) : List Char := (lineFront cs.reverse).reverse

/-- The number of characters in the first `n` bytes of a text, or in all of a
shorter text. It is zero if the `n` bytes end inside a character. -/
def charsWithin (cs : List Char) (n : Nat) : Nat :=
  match splitAtByte cs (min n (byteSize cs)) with
  | some (l, _) => l.length
  | none => 0

/-- The placement of a span's underline: on the line around its start, from there
to its end or to the end of the line, and at least one character wide. -/
def of? (source : List Char) (span : Span) : Option Placement :=
  (splitAtByte source span.start).map fun (before, after) =>
    { line := lineBack before ++ lineFront after
      column := (lineBack before).length
      width := max 1 (charsWithin (lineFront after) span.length) }

/-- The spans that can be placed are those that start between two characters, or
at an end of the text. -/
theorem isSome_of? {source : List Char} {span : Span} :
    (of? source span).isSome ↔
      ∃ before after, before ++ after = source ∧ byteSize before = span.start := by
  simp [of?, Option.isSome_iff_exists, splitAtByte_eq_some_iff]

end Placement

/-- A label's block: a bar, the quoted line, and the underline with the message.
It is empty for a label that has no placement. -/
def Label.block (source : List Char) (label : Label) : String :=
  match Placement.of? source label.span with
  | none => ""
  | some p =>
    let marker := if label.isPrimary then '^' else '-'
    "  |\n  | " ++ String.ofList p.line ++ "\n  | " ++
      String.ofList (List.replicate p.column ' ' ++ List.replicate p.width marker) ++
      " " ++ label.message ++ "\n"

/-- The diagnostic with the lines of the text that its labels point into. -/
def Diagnostic.render (d : Diagnostic) (source : String) : String :=
  d.header ++ String.join (d.labels.map (·.block source.toList)) ++ d.trailer

end ShapeFit
