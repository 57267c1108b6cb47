import ShapeFit.Name.Quoted
import ShapeFit.Prim

/-!
# ShapeFit.Signature.Token

The tokens of signature literals.

A token is determined by its text and the text by the token (`Token.text`), so a
token stands for the piece of the source that it was read from
(`Token.text_append_of_next?`).
-/

namespace ShapeFit

/-- A word of a literal: a bare identifier, or a name between backticks. -/
inductive Word where
  | bare (text : String)
  | quoted (name : String)
deriving DecidableEq

namespace Word

/-- The name that a word stands for. -/
def name : Word → String
  | .bare s => s
  | .quoted s => s

/-- The text of a word in the source. -/
def text : Word → String
  | .bare s => s
  | .quoted s => Name.quoted s

/-- The primitive kind that a word is the keyword of. A quoted word is none. -/
def prim? : Word → Option Prim
  | .bare s => Prim.ofName? s
  | .quoted _ => none

end Word

/-- A token of a signature literal. -/
inductive Token where
  | openParen | closeParen | openBracket | closeBracket | comma | colon | underscore
  | word (w : Word)
deriving DecidableEq

namespace Token

/-- The text of a token in the source. -/
def text : Token → String
  | .openParen => "("
  | .closeParen => ")"
  | .openBracket => "["
  | .closeBracket => "]"
  | .comma => ","
  | .colon => ":"
  | .underscore => "_"
  | .word w => w.text

/-! ## Reading one token -/

/-- Reads an identifier on after its first letter: word characters, and dots that
a letter follows. A dot without a letter behind it is left in the rest. -/
def identRun : List Char → List Char × List Char
  | '.' :: c :: cs =>
    if c.isAlpha then
      let (ident, rest) := identRun cs
      ('.' :: c :: ident, rest)
    else ([], '.' :: c :: cs)
  | c :: cs =>
    if Name.isWordChar c then
      let (ident, rest) := identRun cs
      (c :: ident, rest)
    else ([], c :: cs)
  | [] => ([], [])

/-- The token that a punctuation character is. -/
def punctuation? : Char → Option Token
  | '(' => some .openParen
  | ')' => some .closeParen
  | '[' => some .openBracket
  | ']' => some .closeBracket
  | ',' => some .comma
  | ':' => some .colon
  | '_' => some .underscore
  | _ => none

/-- Reads the longest token at the front of a text. -/
def next? : List Char → Option (Token × List Char)
  | [] => none
  | c :: cs =>
    match punctuation? c with
    | some t => some (t, cs)
    | none =>
      if c = '\x60' then
        match Name.decodeRun cs with
        | (name, '\x60' :: rest) => some (.word (.quoted (String.ofList name)), rest)
        | _ => none
      else if c.isAlpha then
        let (ident, rest) := identRun cs
        some (.word (.bare (String.ofList (c :: ident))), rest)
      else none

/-- The text to blame where no token can be read: one character, or a quoted name
as far as it goes when its closing backtick does not follow. -/
def unreadable : List Char → List Char
  | [] => []
  | '\x60' :: cs => '\x60' :: Name.encode (Name.decodeRun cs).1
  | c :: _ => [c]

/-! ## Nothing is lost -/

theorem identRun_append (cs : List Char) : (identRun cs).1 ++ (identRun cs).2 = cs := by
  fun_induction identRun cs with
  | case1 c cs hc ident rest heq ih => simpa [heq] using ih
  | case2 c cs hc => rfl
  | case3 c cs hne hc ident rest heq ih => simpa [heq] using ih
  | case4 c cs hne hc => rfl
  | case5 => rfl

theorem text_of_punctuation? {c : Char} {t : Token} (h : punctuation? c = some t) :
    t.text.toList = [c] := by
  unfold punctuation? at h
  split at h <;> cases h <;> rfl

/-- A token that is read, followed by the rest, is the text it was read from. -/
theorem text_append_of_next? {cs rest : List Char} {t : Token} (h : next? cs = some (t, rest)) :
    t.text.toList ++ rest = cs := by
  revert h
  fun_cases next? cs with
  | case1 => nofun
  | case2 c cs t' hp =>
    rintro ⟨⟩
    rw [text_of_punctuation? hp, List.singleton_append]
  | case3 cs name rest' heq hp =>
    rintro ⟨⟩
    have hcs := Name.encode_decodeRun_append cs
    rw [heq] at hcs
    simp [text, Word.text, Name.quoted, ← hcs]
  | case4 => nofun
  | case5 c cs hp hq hc ident rest' heq =>
    rintro ⟨⟩
    have hcs := identRun_append cs
    rw [heq] at hcs
    simp [text, Word.text, ← hcs]
  | case6 => nofun

/-- A token that is read has taken characters away. -/
theorem length_lt_of_next? {cs rest : List Char} {t : Token} (h : next? cs = some (t, rest)) :
    rest.length < cs.length := by
  have hne : t.text.toList ≠ [] := by
    revert h
    fun_cases next? cs with
    | case1 => nofun
    | case2 c cs t' hp =>
      rintro ⟨⟩
      simp [text_of_punctuation? hp]
    | case3 => rintro ⟨⟩; simp [text, Word.text, Name.quoted]
    | case4 => nofun
    | case5 => rintro ⟨⟩; simp [text, Word.text]
    | case6 => nofun
  have hlen := congrArg List.length (text_append_of_next? h)
  rw [List.length_append] at hlen
  have := List.length_pos_iff.2 hne
  omega

end Token

end ShapeFit
