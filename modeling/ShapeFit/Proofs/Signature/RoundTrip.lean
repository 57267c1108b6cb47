import ShapeFit.Proofs.Signature.Grammar
import ShapeFit.Proofs.Signature.Reading
import ShapeFit.Signature.Printer

/-!
# ShapeFit.Proofs.Signature.RoundTrip

The literal of a signature is read as the signature (`Signature.parse_text`), whatever
its names are.

Names are written as words that the lexer reads whole and that stand for the same names.
No two tokens of a literal run together, since what follows a bare word in it delimits
the word. So each literal is read as tokens that derive its signature
(`Signature.text_writes`), and the parser follows the derivation.
-/

namespace ShapeFit

/-! ## Names as words -/

namespace Name

/-- A name as a word, between backticks unless it may stand bare. -/
def asWord (bare : Bool) (s : String) : Word := if bare then .bare s else .quoted s

theorem name_asWord (bare : Bool) (s : String) : (asWord bare s).name = s := by
  cases bare <;> rfl

theorem text_asWord (bare : Bool) (s : String) :
    (asWord bare s).text = if bare then s else quoted s := by
  cases bare <;> rfl

theorem readable_asWord {bare : Bool} {s : String} (h : bare = true → isIdentifier s = true) :
    (asWord bare s).Readable := by
  cases bare with
  | true => exact h rfl
  | false => trivial

/-- The word that an argument's name is written as. -/
def word (s : String) : Word := asWord (isIdentifier s) s

theorem text_word (s : String) : (word s).text = written s := text_asWord ..

theorem readable_word (s : String) : (word s).Readable := readable_asWord id

/-- The word that a target's name is written as. -/
def targetWord (s : String) : Word := asWord (isIdentifier s && (Prim.ofName? s).isNone) s

theorem text_targetWord (s : String) : (targetWord s).text = writtenTarget s := text_asWord ..

theorem readable_targetWord (s : String) : (targetWord s).Readable := by
  refine readable_asWord fun h => ?_
  rw [Bool.and_eq_true] at h
  exact h.1

/-- A target's name is never written as the keyword of a primitive kind. -/
theorem prim?_targetWord (s : String) : (targetWord s).prim? = none := by
  rw [targetWord]
  cases h : isIdentifier s && (Prim.ofName? s).isNone with
  | true =>
      rw [Bool.and_eq_true, Option.isNone_iff_eq_none] at h
      exact h.2
  | false => rfl

end Name

/-! ## Literals as tokens -/

theorem Reads.punctuation {c : Char} {t : Token} (h : Token.punctuation? c = some t)
    {rest : List Char} {us : List Token} (hrest : Reads rest us) : Reads (c :: rest) (t :: us) :=
  .token (Token.next?_of_punctuation h rest) hrest

/-- The text is read as these tokens from whatever text it is part of, if a delimiter
follows it there. -/
def Writes (cs : List Char) (ts : List Token) : Prop :=
  ∀ rest us, Token.Delimits rest → Reads rest us → Reads (cs ++ rest) (ts ++ us)

/-- A literal of an argument is read as tokens that derive it, if that of its signature is. -/
theorem Arg.text_writes {a : Arg}
    (h : ∃ ts, Derives ts a.val ∧ Writes a.val.text.toList ts) :
    ∃ ts, DerivesArg ts a ∧ Writes a.text.toList ts := by
  obtain ⟨n, s⟩ := a
  obtain ⟨ts, hts, hwrites⟩ := h
  by_cases hn : n = ""
  · subst hn
    exact ⟨ts, .unnamed hts, hwrites⟩
  · have htext : (Arg.text ⟨n, s⟩).toList =
        (Name.word n).text.toList ++ ':' :: ' ' :: s.text.toList := by
      have hempty : n.isEmpty = false := by simpa using hn
      simp [Arg.text, hempty, Name.text_word]
    refine ⟨.word (Name.word n) :: .colon :: ts, ?_, ?_⟩
    · have hnamed : DerivesArg _ ⟨(Name.word n).name, s⟩ := .named hts
      rw [Name.word, Name.name_asWord] at hnamed
      exact hnamed
    · intro rest us hrest hreads
      have hsignature : Reads (' ' :: (s.text.toList ++ rest)) (ts ++ us) :=
        .blank rfl (hwrites rest us hrest hreads)
      rw [htext, List.append_assoc]
      exact .token (Token.next?_word (Name.readable_word n) ⟨rfl, by decide⟩)
        (.punctuation rfl hsignature)

theorem Signature.argTexts_writes {args : List Arg}
    (h : ∀ a ∈ args, ∃ ts, Derives ts a.val ∧ Writes a.val.text.toList ts) :
    ∃ ts, DerivesArgs ts args ∧ Writes (", ".intercalate (argTexts args)).toList ts := by
  rw [argTexts_eq_map]
  induction args with
  | nil => exact ⟨[], .nil, fun rest us _ hreads => hreads⟩
  | cons a as ih =>
      rw [List.forall_mem_cons] at h
      obtain ⟨ts, hts, hwrites⟩ := Arg.text_writes h.1
      cases as with
      | nil =>
          refine ⟨ts, .last hts, ?_⟩
          simpa using hwrites
      | cons b as =>
          obtain ⟨us, hus, hwrites'⟩ := ih h.2
          refine ⟨ts ++ .comma :: us, .cons hts hus, ?_⟩
          have htext : (", ".intercalate ((a :: b :: as).map Arg.text)).toList =
              a.text.toList ++
                ',' :: ' ' :: (", ".intercalate ((b :: as).map Arg.text)).toList := by
            simp [String.intercalate_cons_cons]
          intro rest vs hrest hreads
          rw [htext, List.append_assoc, List.append_assoc]
          apply hwrites
          · exact ⟨rfl, by decide⟩
          · exact .punctuation rfl (.blank rfl (hwrites' rest vs hrest hreads))

/-- The literal of a signature is read as tokens that derive it. -/
theorem Signature.text_writes (s : Signature) :
    ∃ ts, Derives ts s ∧ Writes s.text.toList ts := by
  induction s with
  | prim k =>
      refine ⟨[.word (.bare k.name)], .prim (Prim.ofName?_name k), ?_⟩
      intro rest us hrest hreads
      have hreadable : (Word.bare k.name).Readable := Name.isIdentifier_name k
      exact .token (Token.next?_word hreadable hrest) hreads
  | list e ih =>
      obtain ⟨ts, hts, hwrites⟩ := ih
      refine ⟨.openBracket :: (ts ++ [.closeBracket]), .list hts, ?_⟩
      intro rest us hrest hreads
      have htext : (Signature.list e).text.toList ++ rest =
          '[' :: (e.text.toList ++ ']' :: rest) := by
        simp [Signature.text]
      rw [htext, List.cons_append, List.append_assoc]
      exact .punctuation rfl (hwrites _ _ ⟨rfl, by decide⟩ (.punctuation rfl hreads))
  | composite t args ih =>
      obtain ⟨ts, hts, hwrites⟩ := argTexts_writes ih
      refine ⟨.word (Name.targetWord t.text) :: .openParen :: (ts ++ [.closeParen]), ?_, ?_⟩
      · have hcomposite := Derives.composite (Name.prim?_targetWord t.text) hts
        rw [Name.targetWord, Name.name_asWord] at hcomposite
        exact hcomposite
      · intro rest us hrest hreads
        have htext : (Signature.composite t args).text.toList ++ rest =
            (Name.targetWord t.text).text.toList ++
              '(' :: ((", ".intercalate (argTexts args)).toList ++ ')' :: rest) := by
          simp [Signature.text, Name.text_targetWord]
        rw [htext, List.cons_append, List.cons_append, List.append_assoc]
        exact .token (Token.next?_word (Name.readable_targetWord t.text) ⟨rfl, by decide⟩)
          (.punctuation rfl (hwrites _ _ ⟨rfl, by decide⟩ (.punctuation rfl hreads)))
  | wildcard =>
      refine ⟨[.underscore], .wildcard, ?_⟩
      intro rest us hrest hreads
      exact .punctuation rfl hreads

/-- Reading the literal of a signature gives back the signature: of any nesting, with any
number of arguments and with any names. The literal may be longer than `Span.limit`, as words
carry their names; a reader that cuts the names out of the source at their spans gives back
the signature for literals up to that size. -/
theorem Signature.parse_text (s : Signature) : Signature.parse s.text = .ok s := by
  obtain ⟨ts, hderives, hwrites⟩ := s.text_writes
  have hreads := hwrites [] [] trivial .nil
  rw [List.append_nil, List.append_nil] at hreads
  obtain ⟨ls, hread, htokens⟩ := Lexeme.readFrom_of_reads hreads 0 []
  rw [← htokens] at hderives
  exact parse_of_derives hread hderives

/-- Between backticks a keyword is the name of a target. -/
example : Signature.parse "`int`(_, `a b`: int)" =
    .ok (.composite ⟨"int"⟩ [⟨"", .wildcard⟩, ⟨"a b", .prim .int⟩]) := by
  cbv

end ShapeFit
