import ShapeFit.Signature.ReadError
import ShapeFit.Signature.Token
import ShapeFit.Text.Bytes

/-!
# ShapeFit.Signature.Lexeme

The tokens of a source text with their places.

Tokens are read from left to right, each as long as it can be, with blanks
skipped between them. The whole text is read before anything is made of it, so a
piece that is no token is reported whatever stands before it.
-/

namespace ShapeFit

open Text

/-- A token at its place in the source. -/
structure Lexeme where
  token : Token
  span : Span
deriving DecidableEq

namespace Lexeme

/-- Whether a character separates tokens: space, tab, carriage return or line feed. -/
def isBlank (c : Char) : Bool := c == ' ' || c == '\t' || c == '\r' || c == '\n'

/-- Reads the tokens of `cs`, which begins `pos` bytes into the source, and puts
them behind those in `done`, the latest of which comes first. -/
def readFrom (pos : Nat) (cs : List Char) (done : List Lexeme) :
    Except ReadError (List Lexeme) :=
  match cs with
  | [] => .ok done.reverse
  | c :: cs =>
    if isBlank c then readFrom (pos + c.utf8Size) cs done
    else
      match h : Token.next? (c :: cs) with
      | some (t, rest) =>
        have := Token.length_lt_of_next? h
        let stop := pos + byteSize t.text.toList
        readFrom stop rest (⟨t, .ofOffsets pos stop⟩ :: done)
      | none =>
        let piece := Token.unreadable (c :: cs)
        .error ⟨.unrecognisedChar (String.ofList piece), .ofOffsets pos (pos + byteSize piece)⟩
termination_by cs.length
decreasing_by
  · exact Nat.lt_succ_self _
  · assumption

/-- The tokens of a source text, or the first piece that is none. -/
def read (source : String) : Except ReadError (List Lexeme) := readFrom 0 source.toList []

end Lexeme

end ShapeFit
