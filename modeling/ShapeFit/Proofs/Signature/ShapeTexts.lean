import ShapeFit.Proofs.Signature.Grammar
import ShapeFit.Proofs.Signature.Places
import ShapeFit.Proofs.Signature.Reading
import ShapeFit.Shape

/-!
# ShapeFit.Proofs.Signature.ShapeTexts

The texts of shapes, read as signature literals.

Shapes have a notation of their own: an array is written with brackets behind its elements, and
a sequence with its elements between angles. Only primitives are written alike in both
notations. The text of a list of primitives, however deep, is no literal
(`Shape.parse_text_eq_ok_iff`): behind the word that it begins with comes a bracket, where the
literal is over already, or an angle, which is no token.
-/

namespace ShapeFit

/-! ## What texts are read as -/

/-- A text from which a token is read has that token as its first lexeme. -/
theorem Lexes.of_next? {pos : Nat} {cs rest : List Char} {t : Token} {ls : List Lexeme}
    (h : Lexes pos cs ls) (hnext : Token.next? cs = some (t, rest)) :
    ∃ l ls' pos', ls = l :: ls' ∧ l.token = t ∧ Lexes pos' rest ls' := by
  cases h with
  | nil => contradiction
  | blank hc =>
      rw [Token.next?_of_isBlank hc] at hnext
      contradiction
  | token hnext' hrest =>
      rw [hnext, Option.some.injEq, Prod.mk.injEq] at hnext'
      obtain ⟨rfl, rfl⟩ := hnext'
      exact ⟨_, _, _, rfl, rfl, hrest⟩

/-- A text with an angle at its front is not read. -/
theorem Lexes.not_angle {pos : Nat} {cs : List Char} {ls : List Lexeme} :
    ¬ Lexes pos ('<' :: cs) ls := by
  intro h
  cases h with
  | blank hc => contradiction
  | token hnext => contradiction

namespace Signature

variable {source : String} {s : Signature}

/-- A literal is read as tokens, all of which the parser takes. -/
theorem exists_lexes_of_parse (h : parse source = .ok s) :
    ∃ ls last, Lexes 0 source.toList ls ∧
      Parser.State.start.feed (ls.map Lexeme.token) = some last := by
  rw [parse] at h
  cases hread : Lexeme.read source with
  | error e =>
      rw [hread] at h
      contradiction
  | ok ls =>
      rw [hread] at h
      obtain ⟨last, hlast, -⟩ := Parser.State.run_eq_ok_iff.mp h
      exact ⟨ls, last, Lexeme.lexes_of_read hread, hlast⟩

/-- The keyword of a primitive kind is a literal. -/
theorem parse_name (k : Prim) : parse k.name = .ok (.prim k) := by
  cases k <;> with_unfolding_all rfl

/-- A literal that begins with the keyword of a primitive kind is over behind it. -/
theorem not_bracket_of_parse {k : Prim} {rest : List Char} (h : parse source = .ok s) :
    source.toList ≠ k.name.toList ++ '[' :: rest := by
  intro hsource
  obtain ⟨ls, last, hlexes, hlast⟩ := exists_lexes_of_parse h
  rw [hsource] at hlexes
  obtain ⟨l, ls', pos, rfl, hword, hrest⟩ :=
    hlexes.of_next? (Token.next?_bare (Name.isIdentifier_name k) ⟨rfl, by decide⟩)
  obtain ⟨m, ls'', -, rfl, hbracket, -⟩ :=
    hrest.of_next? (Token.next?_of_punctuation rfl rest)
  have hstep : Parser.State.start.step (.word (.bare k.name)) = some ⟨.complete (.prim k), []⟩ := by
    cases k <;> rfl
  rw [List.map_cons, List.map_cons, hword, hbracket, Parser.State.feed_cons, hstep] at hlast
  contradiction

/-- In a literal no angle follows a word. -/
theorem not_angle_of_parse {word : String} {rest : List Char}
    (hword : Name.isIdentifier word = true) (h : parse source = .ok s) :
    source.toList ≠ word.toList ++ '<' :: rest := by
  intro hsource
  obtain ⟨ls, last, hlexes, -⟩ := exists_lexes_of_parse h
  rw [hsource] at hlexes
  obtain ⟨l, ls', pos, -, -, hrest⟩ :=
    hlexes.of_next? (Token.next?_bare hword ⟨rfl, by decide⟩)
  exact hrest.not_angle

end Signature

/-! ## Texts of shapes -/

namespace Shape

/-- Whether a shape is made of primitives and lists alone. -/
def ObjectFree : Shape → Prop
  | .prim _ => True
  | .array e | .sequence e => e.ObjectFree
  | .object _ => False

variable {x : Shape}

/-- The text of a list of primitives begins with their keyword and a bracket, or, if there is a
sequence in it, with an angle behind the word for sequences. -/
theorem text_cases (hx : x.ObjectFree) :
    (∃ k, x = .prim k) ∨
      (∃ (k : Prim) (rest : List Char), x.text.toList = k.name.toList ++ '[' :: rest) ∨
      ∃ rest, x.text.toList = "seq".toList ++ '<' :: rest := by
  induction x with
  | prim k => exact .inl ⟨k, rfl⟩
  | array e ih =>
      obtain ⟨k, rfl⟩ | ⟨k, rest, htext⟩ | ⟨rest, htext⟩ := ih hx
      · exact .inr (.inl ⟨k, [']'], by simp [text]⟩)
      · exact .inr (.inl ⟨k, rest ++ ['[', ']'], by simp [text, htext]⟩)
      · exact .inr (.inr ⟨rest ++ ['[', ']'], by simp [text, htext]⟩)
  | sequence e ih => exact .inr (.inr ⟨e.text.toList ++ ['>'], by simp [text]⟩)
  | object n => exact hx.elim

/-- Of the texts of primitives and lists, only those of primitives are literals. -/
theorem parse_text_eq_ok_iff (hx : x.ObjectFree) :
    (∃ s, Signature.parse x.text = .ok s) ↔ ∃ k, x = .prim k := by
  constructor
  · rintro ⟨s, hs⟩
    obtain hprim | ⟨k, rest, htext⟩ | ⟨rest, htext⟩ := text_cases hx
    · exact hprim
    · exact absurd htext (Signature.not_bracket_of_parse hs)
    · exact absurd htext (Signature.not_angle_of_parse (by decide) hs)
  · rintro ⟨k, rfl⟩
    exact ⟨_, Signature.parse_name k⟩

end Shape

end ShapeFit
