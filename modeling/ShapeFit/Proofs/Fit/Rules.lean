import ShapeFit.Proofs.Fit.Expands

/-!
# ShapeFit.Proofs.Fit.Rules

The rules of fitting, as a relation, and that fitting decides them.

`Fits` says what a signature becomes at a shape. A composite takes the first declared
constructor that accepts its arguments, so the rule for composites has a premise that
something is *not* derivable: every constructor declared earlier, of as many parameters,
has a position at which the argument becomes nothing. The relation is therefore given by
recursion on the signature, and the premise is about its arguments, which are smaller.

* `Plain.signature_eq_ok_iff` — fitting finds what the rules derive, and nothing else;
* `Plain.composite_eq_ok_iff` — resolving finds the constructor that the rule for
  composites selects.
-/

namespace ShapeFit

/-! ## The rules -/

/-- The constructor `k` of the type `n` is the first declared that takes `arity` arguments
and accepts them, as `args`. Each one declared before it with `arity` parameters rejects
them. -/
def Selects (r : Registry) (n : TypeName) (arity : Nat)
    (accepts : List Param → List Arg → Prop) (rejects : List Param → Prop)
    (k : Constructor) (args : List Arg) : Prop :=
  ∃ d, r.find? n = some d ∧ d.overloads[k.index]? = some k.params ∧ k.params.length = arity ∧
    accepts k.params args ∧
    ∀ i < k.index, ∀ ps, d.overloads[i]? = some ps → ps.length = arity → rejects ps

mutual
/-- The signature `s` becomes `t` at the shape `x`. -/
def Fits (r : Registry) (w : Bool) : Signature → Shape → Signature → Prop
  | .prim k, x, t =>
    ∃ found, x = .prim found ∧ (k = found ∨ (w = true ∧ k.widens found = true)) ∧ t = .prim k
  | .list e, x, t =>
    ∃ y e', (x = .array y ∨ x = .sequence y) ∧ Fits r w e y e' ∧ t = .list e'
  | .composite n as, x, t =>
    x = .object n ∧ ∃ k args,
      Selects r n as.length (fun ps args => FitsArgs r w as ps args) (fun ps => Rejects r w as ps)
        k args ∧
      t = .composite n args
  | .wildcard, x, t => Expands r x t

/-- Each argument becomes one of `args` at its parameter, under the same name. -/
def FitsArgs (r : Registry) (w : Bool) :
    List (Named Signature) → List Param → List Arg → Prop
  | [], [], args => args = []
  | ⟨n, s⟩ :: as, p :: ps, args =>
    ∃ t rest, Fits r w s p.val t ∧ FitsArgs r w as ps rest ∧ args = ⟨n, t⟩ :: rest
  | _, _, _ => False

/-- Some argument becomes nothing at its parameter. -/
def Rejects (r : Registry) (w : Bool) : List (Named Signature) → List Param → Prop
  | ⟨_, s⟩ :: as, p :: ps => (∀ t, ¬ Fits r w s p.val t) ∨ Rejects r w as ps
  | _, _ => False
end

variable {r : Registry} {w : Bool}

/-- Arguments are rejected exactly if they become nothing together. -/
theorem rejects_iff {as : List Arg} {ps : List Param} (hlen : ps.length = as.length) :
    Rejects r w as ps ↔ ∀ args, ¬ FitsArgs r w as ps args := by
  induction as generalizing ps with
  | nil =>
      rw [List.eq_nil_of_length_eq_zero hlen]
      simp [Rejects, FitsArgs]
  | cons a as ih =>
      cases ps with
      | nil => contradiction
      | cons p ps =>
          rw [Rejects, ih (Nat.succ.inj hlen)]
          constructor
          · intro hreject args hfits
            obtain ⟨t, rest, ht, hrest, -⟩ := hfits
            exact hreject.elim (fun h => h t ht) (fun h => h rest hrest)
          · intro hnone
            by_cases hhead : ∃ t, Fits r w a.val p.val t
            · obtain ⟨t, ht⟩ := hhead
              exact .inr fun rest hrest => hnone (⟨a.name, t⟩ :: rest) ⟨t, rest, ht, hrest, rfl⟩
            · exact .inl fun t ht => hhead ⟨t, ht⟩

/-- Induction on arguments that become others at parameters, one by one. -/
@[elab_as_elim]
theorem FitsArgs.induction
    {motive : (as : List Arg) → (ps : List Param) → (args : List Arg) → FitsArgs r w as ps args →
      Prop}
    (nil : motive [] [] [] rfl)
    (cons : ∀ {n s as p ps t args} (ht : Fits r w s p.val t) (hargs : FitsArgs r w as ps args),
      motive as ps args hargs →
        motive (⟨n, s⟩ :: as) (p :: ps) (⟨n, t⟩ :: args) ⟨t, args, ht, hargs, rfl⟩)
    {as : List Arg} {ps : List Param} {args : List Arg} (h : FitsArgs r w as ps args) :
    motive as ps args h := by
  induction as generalizing ps args with
  | nil =>
      cases ps with
      | nil =>
          cases h
          exact nil
      | cons p ps => exact h.elim
  | cons a as ih =>
      cases ps with
      | nil => exact h.elim
      | cons p ps =>
          obtain ⟨t, rest, ht, hrest, rfl⟩ := h
          exact cons ht hrest (ih hrest)

/-- Each argument has its parameter. -/
theorem FitsArgs.length_params {as args : List Arg} {ps : List Param}
    (h : FitsArgs r w as ps args) : ps.length = as.length := by
  induction h using FitsArgs.induction with
  | nil => rfl
  | cons _ _ ih => rw [List.length_cons, List.length_cons, ih]

/-- Which constructor is selected depends on what is accepted and rejected of as many
parameters as there are arguments. -/
theorem Selects.congr {n : TypeName} {arity : Nat} {accepts accepts' : List Param → List Arg → Prop}
    {rejects rejects' : List Param → Prop} {k : Constructor} {args : List Arg}
    (ha : ∀ ps args, ps.length = arity → (accepts ps args ↔ accepts' ps args))
    (hr : ∀ ps, ps.length = arity → (rejects ps ↔ rejects' ps)) :
    Selects r n arity accepts rejects k args ↔ Selects r n arity accepts' rejects' k args := by
  unfold Selects
  refine exists_congr fun d => and_congr_right fun _ => and_congr_right fun _ =>
    and_congr_right fun hlen => and_congr (ha _ _ hlen) ?_
  refine forall₅_congr fun i hi ps hps hlen' => hr ps hlen'

/-! ## Fitting decides the rules -/

namespace Plain

theorem firstAccepted_cons_eq_ok_iff {accept : List Param → Except Rejection (List Arg)}
    {head k : Constructor} {ks : List Constructor} {args : List Arg} :
    firstAccepted accept (head :: ks) = .ok (k, args) ↔
      (head = k ∧ accept k.params = .ok args) ∨
        ((∀ args', accept head.params ≠ .ok args') ∧ firstAccepted accept ks = .ok (k, args)) := by
  rw [firstAccepted]
  cases haccept : accept head.params with
  | ok args' =>
      constructor
      · intro h
        obtain ⟨hk, hargs⟩ := Prod.mk.inj (Except.ok.inj h)
        subst hk hargs
        exact .inl ⟨rfl, haccept⟩
      · intro h
        cases h with
        | inl hhead =>
            obtain ⟨hk, hargs⟩ := hhead
            subst hk
            rw [haccept, Except.ok.injEq] at hargs
            rw [hargs]
            rfl
        | inr hlater => exact absurd rfl (hlater.1 args')
  | error e =>
      change (firstAccepted accept ks).mapError (e :: ·) = _ ↔ _
      rw [mapError_eq_ok]
      constructor
      · intro h
        exact .inr ⟨nofun, h⟩
      · intro h
        cases h with
        | inl hhead =>
            rw [← hhead.1, haccept] at hhead
            nomatch hhead.2
        | inr hlater => exact hlater.2

/-- The first accepted of the constructors that count, by its place among all of them. -/
theorem firstAccepted_eq_ok_iff {accept : List Param → Except Rejection (List Arg)}
    {counts : Constructor → Bool} {ks : List Constructor} {k : Constructor} {args : List Arg} :
    firstAccepted accept (ks.filter counts) = .ok (k, args) ↔
      ∃ i : Nat, ks[i]? = some k ∧ counts k = true ∧ accept k.params = .ok args ∧
        ∀ j < i, ∀ k', ks[j]? = some k' → counts k' = true →
          ∀ args', accept k'.params ≠ .ok args' := by
  induction ks with
  | nil => simp [firstAccepted]
  | cons head ks ih =>
      -- The constructor found is the first in the list, or one of the others and the first
      -- in the list is not accepted.
      rw [← Nat.or_exists_add_one]
      simp only [Nat.forall_lt_succ_left, List.getElem?_cons_zero, List.getElem?_cons_succ,
        Option.some.injEq, forall_eq']
      by_cases hcounts : counts head = true
      · rw [List.filter_cons_of_pos hcounts, firstAccepted_cons_eq_ok_iff, ih]
        apply or_congr
        · constructor
          · intro ⟨hk, hargs⟩
            exact ⟨hk, hk ▸ hcounts, hargs, nofun⟩
          · intro h
            obtain ⟨hk, -, hargs, -⟩ := h
            exact ⟨hk, hargs⟩
        · constructor
          · intro ⟨hhead, i, hk, hcount, hargs, hearlier⟩
            exact ⟨i, hk, hcount, hargs, fun _ => hhead, hearlier⟩
          · intro ⟨i, hk, hcount, hargs, hhead, hearlier⟩
            exact ⟨hhead hcounts, i, hk, hcount, hargs, hearlier⟩
      · rw [List.filter_cons_of_neg hcounts, ih]
        constructor
        · intro ⟨i, hk, hcount, hargs, hearlier⟩
          exact .inr ⟨i, hk, hcount, hargs, fun hhead => absurd hhead hcounts, hearlier⟩
        · intro h
          cases h with
          | inl hhead => exact absurd (hhead.1 ▸ hhead.2.1) hcounts
          | inr hlater =>
              obtain ⟨i, hk, hcount, hargs, -, hearlier⟩ := hlater
              exact ⟨i, hk, hcount, hargs, hearlier⟩

/-- Choosing a constructor finds the one that the rule for composites selects. -/
theorem select_eq_ok_iff {c : Composite} {accept : List Param → Except Rejection (List Arg)}
    {res : Resolution} :
    select r c accept = .ok res ↔
      res.signature.target = c.target ∧
        Selects r c.target c.arity (fun ps args => accept ps = .ok args)
          (fun ps => ∀ args, accept ps ≠ .ok args) res.constructor res.signature.args := by
  rw [select, Registry.constructors?, Selects]
  cases r.find? c.target with
  | none => simp
  | some d =>
      simp only [Option.map_some, bind_eq_ok, mapError_eq_ok, Candidate.of, Prod.exists,
        firstAccepted_eq_ok_iff, TypeDescriptor.getElem?_constructors, pure_eq_ok,
        Option.some.injEq, exists_eq_left', Constructor.arity, Option.map_eq_some_iff,
        beq_iff_eq]
      constructor
      · intro ⟨k, args, ⟨i, ⟨ps, hps, hk⟩, hlen, hargs, hearlier⟩, hres⟩
        subst hk hres
        refine ⟨rfl, hps, hlen, hargs, ?_⟩
        intro j hj qs hqs hqlen
        exact hearlier j hj _ ⟨qs, hqs, rfl⟩ hqlen
      · intro ⟨htarget, hps, hlen, hargs, hearlier⟩
        refine ⟨res.constructor, res.signature.args, ?_, ?_⟩
        · refine ⟨res.constructor.index, ⟨_, hps, rfl⟩, hlen, hargs, ?_⟩
          intro j hj k' hk' hlen'
          obtain ⟨qs, hqs, he⟩ := hk'
          subst he
          exact hearlier j hj qs hqs hlen'
        · rw [← htarget]

theorem args_eq_ok_iff {as : List Arg} {ps : List Param} {position : Nat} {args : List Arg}
    (hargs : ∀ a ∈ as, ∀ x t, signature r w a.val x = .ok t ↔ Fits r w a.val x t)
    (hlen : ps.length = as.length) :
    Plain.args r w position as ps = .ok args ↔ FitsArgs r w as ps args := by
  induction as generalizing ps position args with
  | nil =>
      rw [List.eq_nil_of_length_eq_zero hlen, FitsArgs, Plain.args, pure_eq_ok, eq_comm]
      nofun
  | cons a as ih =>
      cases ps with
      | nil => contradiction
      | cons p ps =>
          rw [List.forall_mem_cons] at hargs
          have ih' : ∀ rest, Plain.args r w (position + 1) as ps = .ok rest ↔
              FitsArgs r w as ps rest := fun rest => ih hargs.2 (Nat.succ.inj hlen)
          rw [Plain.args, FitsArgs]
          simp only [bind_eq_ok, pure_eq_ok, mapError_eq_ok, hargs.1, ih']
          constructor
          · intro ⟨t, ht, rest, hrest, he⟩
            exact ⟨t, rest, ht, hrest, he.symm⟩
          · intro ⟨t, rest, ht, hrest, he⟩
            exact ⟨t, ht, rest, hrest, he.symm⟩

/-- The two ways to say what selecting a constructor asks of the arguments agree. -/
theorem selects_args_iff {n : TypeName} {as : List Arg} {k : Constructor} {args : List Arg}
    (hargs : ∀ a ∈ as, ∀ x t, signature r w a.val x = .ok t ↔ Fits r w a.val x t) :
    Selects r n as.length (fun ps args => Plain.args r w 0 as ps = .ok args)
        (fun ps => ∀ args, Plain.args r w 0 as ps ≠ .ok args) k args ↔
      Selects r n as.length (FitsArgs r w as) (Rejects r w as) k args := by
  apply Selects.congr
  · intro ps args hlen
    exact args_eq_ok_iff hargs hlen
  · intro ps hlen
    rw [rejects_iff hlen]
    exact forall_congr' fun args => not_congr (args_eq_ok_iff hargs hlen)

/-- Fitting finds what the rules derive, and fails where they derive nothing. -/
theorem signature_eq_ok_iff {s : Signature} {x : Shape} {t : Signature} :
    signature r w s x = .ok t ↔ Fits r w s x t := by
  induction s generalizing x t with
  | prim k =>
      rw [signature, Fits]
      cases x with
      | prim found =>
          simp only [Fit.prim, Shape.prim.injEq]
          have hk : (k = found || (w && k.widens found)) = true ↔
              k = found ∨ (w = true ∧ k.widens found = true) := by simp
          by_cases hmatch : k = found ∨ (w = true ∧ k.widens found = true)
          · rw [if_pos (hk.mpr hmatch), Except.ok.injEq]
            constructor
            · intro ht
              exact ⟨found, rfl, hmatch, ht.symm⟩
            · intro ⟨_, _, _, ht⟩
              exact ht.symm
          · rw [if_neg (mt hk.mp hmatch)]
            constructor
            · intro h
              contradiction
            · intro ⟨found', hfound, hmatch', _⟩
              subst hfound
              contradiction
      | array y | sequence y | object n => simp [Fit.prim]
  | list e ih =>
      rw [signature, Fits]
      cases x with
      | array y | sequence y =>
          simp only [Shape.element?, bind_eq_ok, within_eq_ok, ih, pure_eq_ok]
          constructor
          · intro ⟨e', he, ht⟩
            exact ⟨y, e', by simp, he, ht.symm⟩
          · intro ⟨y', e', hy, he, ht⟩
            simp at hy
            subst hy
            exact ⟨e', he, ht.symm⟩
      | prim k | object n => simp [Shape.element?]
  | composite n as ih =>
      rw [signature, Fits]
      by_cases hx : x = .object n
      · rw [if_pos hx]
        simp only [bind_eq_ok, select_eq_ok_iff, pure_eq_ok, hx, true_and]
        constructor
        · intro ⟨res, ⟨htarget, hselects⟩, ht⟩
          refine ⟨res.constructor, res.signature.args, ?_, ?_⟩
          · exact (selects_args_iff fun a ha _ _ => ih a ha).mp hselects
          · rw [← ht, ← htarget]
            rfl
        · intro ⟨k, args, hselects, ht⟩
          refine ⟨⟨k, ⟨n, args⟩⟩, ⟨rfl, ?_⟩, ht.symm⟩
          exact (selects_args_iff fun a ha _ _ => ih a ha).mpr hselects
      · rw [if_neg hx]
        simp [hx]
  | wildcard => exact expand_eq_ok_iff

/-- Resolving finds the constructor that the rule for composites selects. -/
theorem composite_eq_ok_iff {c : Composite} {res : Resolution} :
    composite r w c = .ok res ↔
      res.signature.target = c.target ∧
        Selects r c.target c.arity (FitsArgs r w c.args) (Rejects r w c.args) res.constructor
          res.signature.args := by
  rw [composite, select_eq_ok_iff]
  exact and_congr_right fun _ => selects_args_iff fun a _ _ _ => signature_eq_ok_iff

end Plain

end ShapeFit
