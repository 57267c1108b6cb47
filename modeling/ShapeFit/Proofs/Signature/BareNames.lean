import ShapeFit.Proofs.Diagnostic.Pieces
import ShapeFit.Proofs.Signature.Patterns
import ShapeFit.Proofs.Signature.Places

/-!
# ShapeFit.Proofs.Signature.BareNames

Which names are written bare.

The printer cuts a name at its dots and looks at each segment, while the lexer reads on as long
as its pattern for identifiers allows. Both accept the same names
(`Name.isIdentifier_iff_mem_identifier`). A source is read as one token that takes up all of it
exactly if nothing is left behind the first token (`Lexeme.read_eq_whole_iff`), so the names that
are written bare are those that the lexer reads as one identifier (`Name.bare_iff_read_whole`).
-/

namespace ShapeFit

open Text

/-! ## Identifiers -/

/-- The lexer reads a text to its end exactly if all of the text may follow the first letter of an
identifier. -/
theorem Token.identRun_eq_self_iff {cs : List Char} :
    identRun cs = (cs, []) ↔ cs ∈ continuation := by
  constructor
  · intro hrun
    have hcs := identRun_mem_continuation cs
    rwa [hrun] at hcs
  · intro hcs
    have hrun := ReadThrough.continuation hcs []
    rwa [List.append_nil, identRun, List.append_nil] at hrun

/-- Segments between dots make up a text in the pattern of identifiers, and no other text is in
it. -/
theorem Name.isIdentifier_iff_mem_identifier {s : String} :
    isIdentifier s = true ↔ s.toList ∈ Pattern.identifier := by
  simp only [isIdentifier_iff_identRun, Token.mem_identifier_iff, Token.identRun_eq_self_iff]

/-- A text is a bare word with nothing left behind it exactly if it is an identifier. The word is
the text then. -/
theorem Token.next?_eq_bare_iff {s w : String} :
    next? s.toList = some (.word (.bare w), []) ↔ w = s ∧ Name.isIdentifier s = true := by
  constructor
  · intro hnext
    have htext := text_append_of_next? hnext
    rw [List.append_nil, String.toList_inj] at htext
    obtain rfl : w = s := htext
    exact ⟨rfl, Name.isIdentifier_iff_mem_identifier.mpr (mem_pattern_of_next? hnext)⟩
  · rintro ⟨rfl, hs⟩
    have hend : Delimits [] := trivial
    have hnext := next?_bare hs hend
    rwa [List.append_nil] at hnext

/-! ## Sources of one token -/

/-- Nothing is left behind the token of a lexeme that takes up all of a text. -/
theorem Lexes.next?_of_whole {cs : List Char} {ls : List Lexeme} {t : Token} (h : Lexes 0 cs ls)
    (hsize : byteSize cs ≤ Span.limit) (hls : ls = [⟨t, ⟨0, byteSize cs⟩⟩]) :
    Token.next? cs = some (t, []) := by
  cases h with
  | nil => contradiction
  | @blank _ c cs _ hc hrest =>
      -- The lexeme would begin behind the blank.
      have hpos := Char.utf8Size_pos c
      simp only [byteSize] at hsize
      have hbounds := hrest.span_bounds (by omega) _ (hls ▸ List.mem_singleton_self _)
      simp only at hbounds
      omega
  | @token _ _ rest t' ls hnext hrest =>
      obtain ⟨hl, -⟩ := List.cons.inj hls
      obtain ⟨rfl, hspan⟩ := Lexeme.mk.inj hl
      have hcs := congrArg byteSize (Token.text_append_of_next? hnext)
      have hstop := congrArg Span.stop hspan
      rw [byteSize_append] at hcs
      simp only [Span.ofOffsets] at hstop
      have hend : rest = [] := eq_nil_of_byteSize_eq_zero (by omega)
      rw [hnext, hend]

/-- A source is read as one token that takes up all of it exactly if nothing is left behind the
token. -/
theorem Lexeme.read_eq_whole_iff {source : String} {t : Token}
    (hsize : source.utf8ByteSize ≤ Span.limit) :
    read source = .ok [⟨t, ⟨0, source.utf8ByteSize⟩⟩] ↔
      Token.next? source.toList = some (t, []) := by
  rw [utf8ByteSize_eq_byteSize] at hsize ⊢
  constructor
  · intro hread
    exact (lexes_of_read hread).next?_of_whole hsize rfl
  · intro hnext
    have htext := Token.text_append_of_next? hnext
    rw [read, readFrom_of_next? hnext, readFrom, Span.Covers.ofOffsets_eq hsize (.whole _) htext]
    rw [List.append_nil] at htext
    rw [htext, Nat.zero_add, List.reverse_singleton]

/-! ## Printed names -/

namespace Name

theorem length_le_length_encode (name : List Char) : name.length ≤ (encode name).length := by
  induction name with
  | nil => exact Nat.le_refl 0
  | cons c cs ih =>
      rw [encode]
      split
      · exact Nat.le_succ_of_le (Nat.succ_le_succ ih)
      · exact Nat.succ_le_succ ih

/-- Backticks around a name change it, whatever the name holds itself. -/
theorem quoted_ne (s : String) : quoted s ≠ s := by
  intro h
  have hlen : (quoted s).toList.length = (encode s.toList).length + 2 := by simp [quoted]
  have hle := length_le_length_encode s.toList
  rw [h] at hlen
  omega

/-- A name that is quoted unless `bare` holds is left as it is exactly if `bare` holds. -/
theorem ite_quoted_eq_self_iff {bare : Bool} {s : String} :
    (if bare then s else quoted s) = s ↔ bare = true := by
  cases bare <;> simp [quoted_ne]

theorem written_eq_self_iff {s : String} : written s = s ↔ isIdentifier s = true :=
  ite_quoted_eq_self_iff

theorem writtenTarget_eq_self_iff {s : String} :
    writtenTarget s = s ↔ isIdentifier s = true ∧ Prim.ofName? s = none := by
  rw [writtenTarget, ite_quoted_eq_self_iff, Bool.and_eq_true, Option.isNone_iff_eq_none]

/-- Whether the lexer reads a text as one identifier that takes up all of it. A word between blanks
is read as one identifier too, but is not all of the text. -/
def ReadsAsIdentifier (s : String) : Prop :=
  ∃ w, Lexeme.read s = .ok [⟨.word (.bare w), ⟨0, s.utf8ByteSize⟩⟩]

theorem readsAsIdentifier_iff {s : String} (hsize : s.utf8ByteSize ≤ Span.limit) :
    ReadsAsIdentifier s ↔ isIdentifier s = true := by
  simp [ReadsAsIdentifier, Lexeme.read_eq_whole_iff hsize, Token.next?_eq_bare_iff]

/-- The printer's test for a bare name is the lexer's. So a name stands without backticks exactly
if it is read back as one identifier, and, as the name of a target, is no keyword. -/
theorem bare_iff_read_whole {s : String} (hsize : s.utf8ByteSize ≤ Span.limit) :
    (isIdentifier s = true ↔ ReadsAsIdentifier s) ∧
      (written s = s ↔ ReadsAsIdentifier s) ∧
      (writtenTarget s = s ↔ ReadsAsIdentifier s ∧ Prim.ofName? s = none) := by
  rw [written_eq_self_iff, writtenTarget_eq_self_iff, readsAsIdentifier_iff hsize]
  exact ⟨.rfl, .rfl, .rfl⟩

/-- A keyword is read back as an identifier. It may stand bare as the name of an argument, but not
as that of a target. -/
theorem bare_iff_read_whole_keyword :
    "int".utf8ByteSize ≤ Span.limit ∧ isIdentifier "int" = true ∧ ReadsAsIdentifier "int" ∧
      written "int" = "int" ∧ writtenTarget "int" ≠ "int" := by
  have hsize : "int".utf8ByteSize ≤ Span.limit := by decide
  have hname : isIdentifier "int" = true := by decide
  obtain ⟨hread, hwritten, htarget⟩ := bare_iff_read_whole hsize
  have hbare : ReadsAsIdentifier "int" := hread.mp hname
  refine ⟨hsize, hname, hbare, hwritten.mpr hbare, fun h => ?_⟩
  have hkeyword : Prim.ofName? "int" ≠ none := by decide
  exact hkeyword (htarget.mp h).2

/-- An identifier goes on behind a dot only with a letter, for the printer and for the lexer. -/
example : isIdentifier "a.b.2" = false ∧
    Lexeme.read "a.b.2" = .error ⟨.unrecognisedChar ".", ⟨3, 4⟩⟩ := by
  cbv

end Name

end ShapeFit
