import ShapeFit.Proofs.Diagnostic.Pieces
import ShapeFit.Signature.Lexeme

/-!
# ShapeFit.Proofs.Signature.Places

Where the tokens of a text stand.

`Lexes` says which lexemes a text is read as, with the offset at which it begins. The lexer
reads a text as nothing else (`Lexeme.lexes_of_readFrom`). In a text whose offsets a span can
hold, each lexeme covers at least one byte and ends before the next one begins
(`Lexes.pairwise`), so a span belongs to one lexeme only (`Lexes.index_unique`). What stands
there is the text of its token (`Lexes.covers`).
-/

namespace ShapeFit

open Text

/-- The text `cs`, which begins `pos` bytes into the source, is read as these lexemes. -/
inductive Lexes : Nat → List Char → List Lexeme → Prop
  | nil {pos : Nat} : Lexes pos [] []
  | blank {pos : Nat} {c : Char} {cs : List Char} {ls : List Lexeme} :
      Lexeme.isBlank c = true → Lexes (pos + c.utf8Size) cs ls → Lexes pos (c :: cs) ls
  | token {pos : Nat} {cs rest : List Char} {t : Token} {ls : List Lexeme} :
      Token.next? cs = some (t, rest) → Lexes (pos + byteSize t.text.toList) rest ls →
      Lexes pos cs (⟨t, .ofOffsets pos (pos + byteSize t.text.toList)⟩ :: ls)

namespace Lexeme

/-- The lexer reads a text as lexemes that stand in it. -/
theorem lexes_of_readFrom {pos : Nat} {cs : List Char} {done ls : List Lexeme}
    (h : readFrom pos cs done = .ok ls) : ∃ new, ls = done.reverse ++ new ∧ Lexes pos cs new := by
  fun_induction readFrom pos cs done with
  | case1 pos done =>
      have hls : done.reverse = ls := Except.ok.inj h
      exact ⟨[], by simp [hls], .nil⟩
  | case2 pos done c cs hc ih =>
      obtain ⟨new, hls, hnew⟩ := ih h
      exact ⟨new, hls, .blank hc hnew⟩
  | case3 pos done c cs hc t rest hnext hlt stop ih =>
      obtain ⟨new, hls, hnew⟩ := ih h
      exact ⟨_, by simpa using hls, .token hnext hnew⟩
  | case4 => contradiction

theorem lexes_of_read {source : String} {ls : List Lexeme} (h : read source = .ok ls) :
    Lexes 0 source.toList ls := by
  obtain ⟨new, hls, hnew⟩ := lexes_of_readFrom h
  have hnew' : ls = new := by simpa using hls
  rwa [hnew']

/-- What stops the lexer is a piece that is no token. -/
theorem fault_of_readFrom_error {pos : Nat} {cs : List Char} {done : List Lexeme} {e : ReadError}
    (h : readFrom pos cs done = .error e) : ∃ piece, e.fault = .unrecognisedChar piece := by
  fun_induction readFrom pos cs done with
  | case1 => contradiction
  | case2 pos done c cs hc ih => exact ih h
  | case3 pos done c cs hc t rest hnext hlt stop ih => exact ih h
  | case4 pos done c cs hc piece =>
      rw [← Except.error.inj h]
      exact ⟨_, rfl⟩

theorem fault_of_read_error {source : String} {e : ReadError} (h : read source = .error e) :
    ∃ piece, e.fault = .unrecognisedChar piece := fault_of_readFrom_error h

end Lexeme

/-- The text to blame stands at the front of what is left. -/
theorem Token.unreadable_append (cs : List Char) : ∃ rest, unreadable cs ++ rest = cs := by
  unfold unreadable
  split
  · exact ⟨[], rfl⟩
  · next cs => exact ⟨(Name.decodeRun cs).2, by simp [Name.encode_decodeRun_append]⟩
  · next c cs _ => exact ⟨cs, rfl⟩

theorem Token.unreadable_of_ne {c : Char} (hc : c ≠ '\x60') (cs : List Char) :
    unreadable (c :: cs) = [c] := by
  rw [unreadable]
  exact hc

/-- A token takes at least one byte. -/
theorem Token.byteSize_text_pos {cs rest : List Char} {t : Token}
    (h : next? cs = some (t, rest)) : 0 < byteSize t.text.toList := by
  have hlen := length_lt_of_next? h
  have happend := text_append_of_next? h
  cases htext : t.text.toList with
  | nil => simp [← happend, htext] at hlen
  | cons c cs' =>
      have hc := Char.utf8Size_pos c
      simp only [byteSize]
      omega

namespace Lexes

variable {pos : Nat} {cs : List Char} {ls : List Lexeme}

/-- A lexeme covers bytes of the text. -/
theorem span_bounds (h : Lexes pos cs ls) (hsize : pos + byteSize cs ≤ Span.limit) :
    ∀ l ∈ ls, pos ≤ l.span.start ∧ l.span.start < l.span.stop := by
  induction h with
  | nil => simp
  | @blank pos c cs ls hc _ ih =>
      simp only [byteSize] at hsize
      intro l hl
      have hbounds := ih (by omega) l hl
      omega
  | @token pos cs rest t ls hnext _ ih =>
      have hpos := Token.byteSize_text_pos hnext
      have hcs := congrArg byteSize (Token.text_append_of_next? hnext)
      rw [byteSize_append] at hcs
      rw [List.forall_mem_cons]
      constructor
      · simp only [Span.ofOffsets]
        omega
      · intro l hl
        have hbounds := ih (by omega) l hl
        omega

/-- Each lexeme ends before the next one begins. -/
theorem pairwise (h : Lexes pos cs ls) (hsize : pos + byteSize cs ≤ Span.limit) :
    ls.Pairwise fun l m => l.span.stop ≤ m.span.start := by
  induction h with
  | nil => exact .nil
  | @blank pos c cs ls hc _ ih =>
      simp only [byteSize] at hsize
      exact ih (by omega)
  | @token pos cs rest t ls hnext hrest ih =>
      have hcs := congrArg byteSize (Token.text_append_of_next? hnext)
      rw [byteSize_append] at hcs
      have hsize' : pos + byteSize t.text.toList + byteSize rest ≤ Span.limit := by omega
      refine List.pairwise_cons.mpr ⟨fun l hl => ?_, ih hsize'⟩
      have hbounds := hrest.span_bounds hsize' l hl
      simp only [Span.ofOffsets]
      omega

/-- Two lexemes with one span are one. -/
theorem index_unique (h : Lexes pos cs ls) (hsize : pos + byteSize cs ≤ Span.limit) {i j : Nat}
    {l m : Lexeme} (hl : ls[i]? = some l) (hm : ls[j]? = some m) (hspan : l.span = m.span) :
    i = j := by
  have hbounds := h.span_bounds hsize l (List.mem_of_getElem? hl)
  obtain ⟨hi, hli⟩ := List.getElem?_eq_some_iff.mp hl
  obtain ⟨hj, hmj⟩ := List.getElem?_eq_some_iff.mp hm
  have hordered := List.pairwise_iff_getElem.mp (h.pairwise hsize)
  obtain hlt | heq | hgt := Nat.lt_trichotomy i j
  · have hle := hordered i j hi hj hlt
    rw [hli, hmj, ← hspan] at hle
    omega
  · exact heq
  · have hle := hordered j i hj hi hgt
    rw [hli, hmj, ← hspan] at hle
    omega

/-- Each lexeme is at the text of its token. -/
theorem covers {source : List Char} (h : Lexes pos cs ls)
    (hsize : byteSize source ≤ Span.limit) (hleft : Remains source pos cs) :
    ∀ l ∈ ls, 0 < byteSize l.token.text.toList ∧ l.span.Covers source l.token.text.toList := by
  induction h with
  | nil => simp
  | blank hc _ ih => exact ih hleft.tail
  | @token pos cs rest t ls hnext _ ih =>
      have hcs := Token.text_append_of_next? hnext
      rw [List.forall_mem_cons]
      exact ⟨⟨Token.byteSize_text_pos hnext, .ofOffsets hsize hleft hcs⟩, ih (hleft.drop hcs)⟩

end Lexes

end ShapeFit
