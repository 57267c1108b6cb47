import ShapeFit.Signature.Lexeme

/-!
# ShapeFit.Proofs.Signature.Reading

Which tokens a text is read as.

A bare word is read up to the first character that can not go on with it, so the
printer's test for a bare name has to be the lexer's: a name is an identifier
exactly if the lexer takes all of it for one (`Name.isIdentifier_iff_identRun`),
and then it is read back from any text in which it stands before a delimiter
(`Token.next?_word`).

`Reads` says which tokens a text is read as, without their places.
-/

namespace ShapeFit

/-! ## Identifiers -/

namespace Name

/-- Whether the characters after the first one of a segment go on with an identifier to
its end. -/
def continues (cs : List Char) : Bool :=
  match cs.splitOn '.' with
  | [] => true
  | segment :: segments => segment.all isWordChar && segments.all isSegment

theorem continues_nil : continues [] = true := rfl

theorem continues_dot (cs : List Char) :
    continues ('.' :: cs) = (cs.splitOn '.').all isSegment := by
  simp [continues, List.splitOn_cons_eq_if_modifyHead]

/-- A character that is no dot goes to the front of the first segment. -/
theorem splitOn_cons {c : Char} (hc : c ≠ '.') (cs : List Char) :
    (c :: cs).splitOn '.' = (cs.splitOn '.').modifyHead (c :: ·) := by
  rw [List.splitOn_cons_eq_if_modifyHead, if_neg (by simpa using hc)]

theorem continues_cons {c : Char} (hc : c ≠ '.') (cs : List Char) :
    continues (c :: cs) = (isWordChar c && continues cs) := by
  rw [continues, continues, splitOn_cons hc]
  cases h : cs.splitOn '.' with
  | nil => exact absurd h (List.splitOn_ne_nil '.' cs)
  | cons segment segments => simp [Bool.and_assoc]

/-- An identifier begins with a letter and goes on to its end. -/
theorem all_isSegment_splitOn_cons (c : Char) (cs : List Char) :
    ((c :: cs).splitOn '.').all isSegment = (c.isAlpha && continues cs) := by
  by_cases hc : c = '.'
  · subst hc
    simp [List.splitOn_cons_eq_if_modifyHead, isSegment]
  · rw [splitOn_cons hc, continues]
    cases h : cs.splitOn '.' with
    | nil => exact absurd h (List.splitOn_ne_nil '.' cs)
    | cons segment segments => simp [isSegment, Bool.and_assoc]

/-- The lexer goes on to the end of what goes on with an identifier. -/
theorem identRun_eq_iff {cs : List Char} :
    Token.identRun cs = (cs, []) ↔ continues cs = true := by
  fun_induction Token.identRun cs with
  | case1 c cs hc ident rest heq ih =>
      rw [continues_dot, all_isSegment_splitOn_cons, hc, Bool.true_and, ← ih, heq]
      simp
  | case2 c cs hc =>
      rw [continues_dot, all_isSegment_splitOn_cons]
      simp [hc]
  | case3 c cs hne hc ident rest heq ih =>
      have hdot : c ≠ '.' := by
        intro he
        subst he
        contradiction
      rw [continues_cons hdot, hc, Bool.true_and, ← ih, heq]
      simp
  | case4 c cs hne hc =>
      by_cases hdot : c = '.'
      · subst hdot
        cases cs with
        | nil => simp [continues_dot, isSegment]
        | cons d ds => exact absurd rfl (hne d ds rfl)
      · rw [continues_cons hdot]
        simp [hc]
  | case5 => simp [continues_nil]

/-- A name is an identifier exactly if it begins with a letter from which the lexer goes
on to its end. -/
theorem isIdentifier_iff_identRun {s : String} :
    isIdentifier s = true ↔
      ∃ c cs, s.toList = c :: cs ∧ c.isAlpha = true ∧ Token.identRun cs = (cs, []) := by
  rw [isIdentifier]
  cases hs : s.toList with
  | nil => simp [isSegment]
  | cons c cs =>
      rw [all_isSegment_splitOn_cons, Bool.and_eq_true, ← identRun_eq_iff]
      constructor
      · intro h
        obtain ⟨hc, hrun⟩ := h
        exact ⟨c, cs, rfl, hc, hrun⟩
      · intro h
        obtain ⟨d, ds, he, hd, hrun⟩ := h
        obtain ⟨hc, hcs⟩ := List.cons.inj he
        subst hc hcs
        exact ⟨hd, hrun⟩

/-- The keyword of a primitive kind is an identifier. -/
theorem isIdentifier_name (k : Prim) : isIdentifier k.name = true := by
  cases k <;> decide

end Name

/-! ## One token -/

namespace Token

/-- A text that no identifier goes on with. -/
def Delimits : List Char → Prop
  | [] => True
  | c :: _ => Name.isWordChar c = false ∧ c ≠ '.'

theorem identRun_of_delimits {rest : List Char} (h : Delimits rest) :
    identRun rest = ([], rest) := by
  cases rest with
  | nil => rfl
  | cons c cs =>
      obtain ⟨hc, hdot⟩ := h
      rw [identRun]
      · simp [hc]
      · intro d ds he
        exact absurd he hdot

/-- The lexer stops where an identifier can not go on. -/
theorem identRun_append_of_delimits {cs rest : List Char} (h : identRun cs = (cs, []))
    (hrest : Delimits rest) : identRun (cs ++ rest) = (cs, rest) := by
  fun_induction identRun cs with
  | case1 c cs hc ident rest' heq ih =>
      simp only [Prod.mk.injEq, List.cons.injEq, true_and] at h
      obtain ⟨hident, hend⟩ := h
      subst hident hend
      have hrun := ih heq
      simp only [List.cons_append, identRun, hc, if_true, hrun]
  | case2 c cs hc => simp at h
  | case3 c cs hne hc ident rest' heq ih =>
      simp only [Prod.mk.injEq, List.cons.injEq, true_and] at h
      obtain ⟨hident, hend⟩ := h
      subst hident hend
      have hrun := ih heq
      rw [List.cons_append, identRun, hrun, if_pos hc]
      intro d ds he
      subst he
      contradiction
  | case4 c cs hne hc => simp at h
  | case5 => exact identRun_of_delimits hrest

theorem next?_of_punctuation {c : Char} {t : Token} (h : punctuation? c = some t)
    (rest : List Char) : next? (c :: rest) = some (t, rest) := by
  rw [next?, h]

/-- A letter is no punctuation. -/
theorem punctuation?_of_isAlpha {c : Char} (hc : c.isAlpha = true) : punctuation? c = none := by
  unfold punctuation?
  split
  all_goals first | contradiction | rfl

/-- An identifier is read whole, up to its delimiter. -/
theorem next?_bare {s : String} (hs : Name.isIdentifier s = true) {rest : List Char}
    (hrest : Delimits rest) :
    next? (s.toList ++ rest) = some (.word (.bare s), rest) := by
  obtain ⟨c, cs, he, hc, hrun⟩ := Name.isIdentifier_iff_identRun.mp hs
  have hquote : c ≠ '\x60' := by
    intro hq
    subst hq
    contradiction
  rw [he, List.cons_append, next?, punctuation?_of_isAlpha hc]
  simp only [hquote, if_false, hc, if_true, identRun_append_of_delimits hrun hrest]
  rw [← he, String.ofList_toList]

/-- A name between backticks is read whole, whatever follows it. -/
theorem next?_quoted (s : String) (rest : List Char) :
    next? ((Name.quoted s).toList ++ rest) = some (.word (.quoted s), rest) := by
  have htext : (Name.quoted s).toList ++ rest =
      '\x60' :: (Name.encode s.toList ++ '\x60' :: rest) := by
    simp [Name.quoted]
  have hquote : punctuation? '\x60' = none := rfl
  rw [htext, next?, hquote]
  simp only [if_true, Name.decodeRun_encode_append, String.ofList_toList]

end Token

/-- A word that can be read: if it is bare, it is an identifier. -/
def Word.Readable : Word → Prop
  | .bare s => Name.isIdentifier s = true
  | .quoted _ => True

theorem Token.next?_word {w : Word} (hw : w.Readable) {rest : List Char} (hrest : Delimits rest) :
    next? (w.text.toList ++ rest) = some (.word w, rest) := by
  cases w with
  | bare s => exact next?_bare hw hrest
  | quoted s => exact next?_quoted s rest

/-! ## A whole text -/

/-- The text is read as these tokens, with blanks between them. -/
inductive Reads : List Char → List Token → Prop
  | nil : Reads [] []
  | blank {c : Char} {cs : List Char} {ts : List Token} :
      Lexeme.isBlank c = true → Reads cs ts → Reads (c :: cs) ts
  | token {cs rest : List Char} {t : Token} {ts : List Token} :
      Token.next? cs = some (t, rest) → Reads rest ts → Reads cs (t :: ts)

/-- No token begins with a blank. -/
theorem Token.next?_of_isBlank {c : Char} (hc : Lexeme.isBlank c = true) (cs : List Char) :
    next? (c :: cs) = none := by
  simp only [Lexeme.isBlank, Bool.or_eq_true, beq_iff_eq] at hc
  obtain ((hc | hc) | hc) | hc := hc <;> subst hc <;> rfl

/-- Where a token can be read, the lexer reads it and goes on behind it. -/
theorem Lexeme.readFrom_of_next? {cs rest : List Char} {t : Token}
    (hnext : Token.next? cs = some (t, rest)) (pos : Nat) (done : List Lexeme) :
    readFrom pos cs done =
      readFrom (pos + Text.byteSize t.text.toList) rest
        (⟨t, .ofOffsets pos (pos + Text.byteSize t.text.toList)⟩ :: done) := by
  cases cs with
  | nil => contradiction
  | cons c cs =>
      have hblank : isBlank c = false := by
        cases hc : isBlank c with
        | true =>
            rw [Token.next?_of_isBlank hc] at hnext
            contradiction
        | false => rfl
      rw [readFrom, if_neg (by simp [hblank])]
      split
      · next t' rest' hnext' =>
          rw [hnext, Option.some.injEq, Prod.mk.injEq] at hnext'
          obtain ⟨rfl, rfl⟩ := hnext'
          rfl
      · next hnext' =>
          rw [hnext] at hnext'
          contradiction

/-- What a text is read as, the lexer reads it as, wherever the text begins. -/
theorem Lexeme.readFrom_of_reads {cs : List Char} {ts : List Token} (h : Reads cs ts) (pos : Nat)
    (done : List Lexeme) :
    ∃ ls, readFrom pos cs done = .ok (done.reverse ++ ls) ∧ ls.map Lexeme.token = ts := by
  induction h generalizing pos done with
  | nil => exact ⟨[], by rw [readFrom, List.append_nil], rfl⟩
  | blank hc _ ih =>
      rw [readFrom, if_pos hc]
      exact ih _ done
  | @token cs rest t ts hnext _ ih =>
      let l : Lexeme := ⟨t, .ofOffsets pos (pos + Text.byteSize t.text.toList)⟩
      obtain ⟨ls, hls, htokens⟩ := ih (pos + Text.byteSize t.text.toList) (l :: done)
      refine ⟨l :: ls, ?_, congrArg (t :: ·) htokens⟩
      rw [readFrom_of_next? hnext, hls, List.reverse_cons, List.append_assoc,
        List.singleton_append]

end ShapeFit
