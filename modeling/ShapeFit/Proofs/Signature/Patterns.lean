import Mathlib.Computability.Language
import ShapeFit.Proofs.Signature.Reading

/-!
# ShapeFit.Proofs.Signature.Patterns

The texts that tokens may have, as languages.

Each token has a pattern (`Token.pattern`). An identifier is made of segments between dots,
and a quoted name of items between backticks. The functions that read tokens are independent
of the patterns, and follow them in both directions:

* `Token.mem_pattern_of_next?` — a token that is read is in its pattern;
* `Token.next?_of_mem_pattern` — a text that begins with a piece in some pattern is read as a
  token that begins with that piece, so no piece is longer than the token read;
* `Name.decodeRun_append_of_mem` — the items that a text begins with are all read.
-/

namespace ShapeFit

open Computability

namespace Pattern

/-- The texts of one character out of a class. -/
def oneOf (p : Char → Bool) : Language Char := {w | ∃ c, p c = true ∧ w = [c]}

/-- A segment of an identifier: a letter and word characters. -/
def nameSegment : Language Char := oneOf Char.isAlpha * (oneOf Name.isWordChar)∗

/-- Identifiers: segments between dots. -/
def identifier : Language Char := nameSegment * (oneOf (· == '.') * nameSegment)∗

/-- What a quoted name is made of: a character that is neither a backtick nor a backslash, or
one of these two behind a backslash. -/
def item : Language Char :=
  oneOf (fun c => c != '\x60' && c != '\\') +
    oneOf (· == '\\') * oneOf fun c => c == '\x60' || c == '\\'

/-- Quoted names: items between backticks. -/
def quotedName : Language Char := oneOf (· == '\x60') * item∗ * oneOf (· == '\x60')

/-! ## Repetitions -/

theorem append_mem_kstar {l : Language Char} {u v : List Char} (hu : u ∈ l) (hv : v ∈ l∗) :
    u ++ v ∈ l∗ := by
  obtain ⟨L, hL, hmem⟩ := Language.mem_kstar.mp hv
  refine Language.mem_kstar.mpr ⟨u :: L, by rw [hL, List.flatten_cons], ?_⟩
  rw [List.forall_mem_cons]
  exact ⟨hu, hmem⟩

/-- What holds of the empty text, and of texts put together, holds of all repetitions. -/
theorem kstar_induction {l : Language Char} {motive : List Char → Prop} (nil : motive [])
    (append : ∀ u ∈ l, ∀ v, motive v → motive (u ++ v)) {w : List Char} (h : w ∈ l∗) :
    motive w := by
  rw [Language.mem_kstar] at h
  obtain ⟨L, rfl, hmem⟩ := h
  induction L with
  | nil => exact nil
  | cons u L ih =>
      rw [List.forall_mem_cons] at hmem
      rw [List.flatten_cons]
      exact append u hmem.1 _ (ih hmem.2)

end Pattern

open Pattern

/-! ## Identifiers -/

namespace Token

/-- What may follow the first letter of an identifier. -/
def continuation : Language Char :=
  (oneOf Name.isWordChar)∗ * (oneOf (· == '.') * nameSegment)∗

theorem mem_identifier_iff {w : List Char} :
    w ∈ identifier ↔ ∃ c cs, w = c :: cs ∧ c.isAlpha = true ∧ cs ∈ continuation := by
  rw [identifier, nameSegment, mul_assoc, Language.mem_mul]
  constructor
  · rintro ⟨_, ⟨c, hc, rfl⟩, cs, hcs, rfl⟩
    exact ⟨c, cs, rfl, hc, hcs⟩
  · rintro ⟨c, cs, rfl, hc, hcs⟩
    exact ⟨[c], ⟨c, hc, rfl⟩, cs, hcs, rfl⟩

/-- The lexer reads on through a text, whatever follows it. -/
def ReadThrough (cs : List Char) : Prop :=
  ∀ rest, identRun (cs ++ rest) = (cs ++ (identRun rest).1, (identRun rest).2)

namespace ReadThrough

theorem nil : ReadThrough [] := fun _ => rfl

theorem append {u v : List Char} (hu : ReadThrough u) (hv : ReadThrough v) :
    ReadThrough (u ++ v) := by
  intro rest
  rw [List.append_assoc, hu, hv, List.append_assoc]

theorem wordChar {c : Char} (hc : Name.isWordChar c = true) : ReadThrough [c] := by
  have hdot : c ≠ '.' := by
    rintro rfl
    contradiction
  intro rest
  simp [identRun, hc, hdot]

theorem dot {c : Char} (hc : c.isAlpha = true) : ReadThrough ['.', c] := by
  intro rest
  simp [identRun, hc]

theorem wordChars {u : List Char} (hu : u ∈ (oneOf Name.isWordChar)∗) : ReadThrough u := by
  refine kstar_induction nil (fun w hw v hv => ?_) hu
  obtain ⟨c, hc, rfl⟩ := hw
  exact (wordChar hc).append hv

theorem segments {u : List Char} (hu : u ∈ (oneOf (· == '.') * nameSegment)∗) :
    ReadThrough u := by
  refine kstar_induction nil (fun w hw v hv => ?_) hu
  obtain ⟨_, ⟨d, hd, rfl⟩, _, ⟨_, ⟨c, hc, rfl⟩, x, hx, rfl⟩, rfl⟩ := hw
  obtain rfl : d = '.' := by simpa using hd
  exact ((dot hc).append (wordChars hx)).append hv

theorem continuation {u : List Char} (hu : u ∈ continuation) : ReadThrough u := by
  obtain ⟨x, hx, y, hy, rfl⟩ := hu
  exact (wordChars hx).append (segments hy)

end ReadThrough

/-- What the lexer reads on through may follow the first letter of an identifier. -/
theorem identRun_mem_continuation (cs : List Char) : (identRun cs).1 ∈ continuation := by
  fun_induction identRun cs with
  | case1 c cs hc ident rest heq ih =>
      rw [heq] at ih
      obtain ⟨x, hx, y, hy, rfl⟩ := ih
      have hsegment : '.' :: c :: x ∈ oneOf (· == '.') * nameSegment :=
        ⟨['.'], ⟨'.', rfl, rfl⟩, c :: x, ⟨[c], ⟨c, hc, rfl⟩, x, hx, rfl⟩, rfl⟩
      exact ⟨[], Language.nil_mem_kstar _, _, append_mem_kstar hsegment hy, rfl⟩
  | case3 c cs hne hc ident rest heq ih =>
      rw [heq] at ih
      obtain ⟨x, hx, y, hy, rfl⟩ := ih
      exact ⟨_, append_mem_kstar ⟨c, hc, rfl⟩ hx, y, hy, rfl⟩
  | case2 | case4 | case5 =>
      exact ⟨[], Language.nil_mem_kstar _, [], Language.nil_mem_kstar _, rfl⟩

end Token

/-! ## Quoted names -/

namespace Name

theorem encode_mem_kstar (name : List Char) : encode name ∈ item∗ := by
  induction name with
  | nil => exact Language.nil_mem_kstar _
  | cons c cs ih =>
      rw [encode]
      split
      · next hc =>
          have hitem : ['\\', c] ∈ item :=
            .inr ⟨['\\'], ⟨'\\', rfl, rfl⟩, [c], ⟨c, hc, rfl⟩, rfl⟩
          exact append_mem_kstar hitem ih
      · next hc =>
          have hitem : [c] ∈ item := .inl ⟨c, by simpa [isSpecial] using hc, rfl⟩
          exact append_mem_kstar hitem ih

/-- Items at the front of a text are read, and what follows them is read as by itself. -/
theorem decodeRun_append_of_mem {run : List Char} (h : run ∈ item∗) (rest : List Char) :
    encode (decodeRun (run ++ rest)).1 = run ++ encode (decodeRun rest).1 ∧
      (decodeRun (run ++ rest)).2 = (decodeRun rest).2 := by
  refine kstar_induction (motive := fun run => encode (decodeRun (run ++ rest)).1 =
    run ++ encode (decodeRun rest).1 ∧ (decodeRun (run ++ rest)).2 = (decodeRun rest).2)
    ⟨rfl, rfl⟩ (fun u hu v hv => ?_) h
  obtain ⟨c, hc, rfl⟩ | ⟨_, ⟨b, hb, rfl⟩, _, ⟨c, hc, rfl⟩, rfl⟩ := hu
  · have hspecial : isSpecial c = false := by simpa [isSpecial] using hc
    have hne : c ≠ '\\' := by
      rintro rfl
      contradiction
    simp [decodeRun, encode, hspecial, hne, hv]
  · obtain rfl : b = '\\' := by simpa using hb
    have hspecial : isSpecial c = true := hc
    simp [decodeRun, encode, hspecial, hv]

theorem decodeRun_backtick (rest : List Char) :
    decodeRun ('\x60' :: rest) = ([], '\x60' :: rest) := by
  simp [decodeRun, isSpecial]

end Name

/-! ## Tokens -/

namespace Token

/-- The texts that a token of its kind may have. -/
def pattern : Token → Language Char
  | .word (.bare _) => identifier
  | .word (.quoted _) => quotedName
  | .openParen => {['(']}
  | .closeParen => {[')']}
  | .openBracket => {['[']}
  | .closeBracket => {[']']}
  | .comma => {[',']}
  | .colon => {[':']}
  | .underscore => {['_']}

theorem mem_pattern_of_punctuation? {c : Char} {t : Token} (h : punctuation? c = some t) :
    t.text.toList ∈ t.pattern := by
  unfold punctuation? at h
  split at h <;> cases h <;> rfl

/-- A token that is read is in its pattern. -/
theorem mem_pattern_of_next? {cs rest : List Char} {t : Token} (h : next? cs = some (t, rest)) :
    t.text.toList ∈ t.pattern := by
  revert h
  fun_cases next? cs with
  | case2 c cs t' hp =>
      rintro ⟨⟩
      exact mem_pattern_of_punctuation? hp
  | case3 cs name rest' heq hp =>
      rintro ⟨⟩
      have htext : (Word.quoted (String.ofList name)).text.toList =
          '\x60' :: Name.encode name ++ ['\x60'] := by
        simp [Word.text, Name.quoted]
      rw [text, htext]
      exact ⟨_, ⟨_, ⟨'\x60', rfl, rfl⟩, _, Name.encode_mem_kstar name, rfl⟩, _,
        ⟨'\x60', rfl, rfl⟩, rfl⟩
  | case5 c cs hp hq hc ident rest' heq =>
      rintro ⟨⟩
      have hident := identRun_mem_continuation cs
      rw [heq] at hident
      refine mem_identifier_iff.mpr ⟨c, ident, ?_, hc, hident⟩
      simp [text, Word.text]
  | case1 | case4 | case6 =>
      intro h
      contradiction

/-- Items between backticks are read as a quoted name, whatever follows them. -/
theorem next?_of_items {run : List Char} (h : run ∈ item∗) (rest : List Char) :
    ∃ name, next? ('\x60' :: (run ++ '\x60' :: rest)) = some (.word (.quoted name), rest) ∧
      (Token.word (.quoted name)).text.toList = '\x60' :: (run ++ ['\x60']) := by
  have hquote : punctuation? '\x60' = none := rfl
  obtain ⟨hname, hrest⟩ := Name.decodeRun_append_of_mem h ('\x60' :: rest)
  rw [Name.decodeRun_backtick] at hname hrest
  cases hdecode : Name.decodeRun (run ++ '\x60' :: rest) with
  | mk name left =>
      rw [hdecode] at hname hrest
      obtain rfl : left = '\x60' :: rest := hrest
      refine ⟨String.ofList name, by simp [next?, hquote, hdecode], ?_⟩
      have hname' : Name.encode name = run := by simpa [Name.encode] using hname
      simp [text, Word.text, Name.quoted, hname']

/-- A text that begins with a piece in the pattern of some token is read as a token that begins
with that piece. -/
theorem next?_of_mem_pattern {t : Token} {piece : List Char} (h : piece ∈ t.pattern)
    (rest : List Char) :
    ∃ t' more rest', next? (piece ++ rest) = some (t', rest') ∧ t'.text.toList = piece ++ more := by
  cases t with
  | word w =>
      cases w with
      | bare s =>
          obtain ⟨c, cs, rfl, hc, hcs⟩ := mem_identifier_iff.mp h
          have hquote : c ≠ '\x60' := by
            rintro rfl
            contradiction
          refine ⟨.word (.bare (String.ofList (c :: (cs ++ (identRun rest).1)))),
            (identRun rest).1, (identRun rest).2, ?_, ?_⟩
          · simp [next?, punctuation?_of_isAlpha hc, hquote, hc, ReadThrough.continuation hcs rest]
          · simp [text, Word.text]
      | quoted s =>
          obtain ⟨_, ⟨_, ⟨a, ha, rfl⟩, run, hrun, rfl⟩, _, ⟨b, hb, rfl⟩, rfl⟩ := h
          obtain rfl : a = '\x60' := by simpa using ha
          obtain rfl : b = '\x60' := by simpa using hb
          obtain ⟨name, hnext, htext⟩ := next?_of_items hrun rest
          refine ⟨_, [], rest, ?_, by simpa using htext⟩
          simpa using hnext
  | openParen | closeParen | openBracket | closeBracket | comma | colon | underscore =>
      obtain rfl := h
      exact ⟨_, [], rest, rfl, rfl⟩

end Token

end ShapeFit
