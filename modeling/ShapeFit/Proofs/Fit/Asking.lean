import ShapeFit.Proofs.Fit.Counting

/-!
# ShapeFit.Proofs.Fit.Asking

Which types an attempt asks for, told by its result.

`Attempt.Asks` is a judgement on attempts that succeed, with one rule for each way of putting
attempts together. Filling an open slot asks for the target of every composite in the
signature that it becomes, in the order in which they stand there (`Attempt.Asks.expand`).
-/

namespace ShapeFit

/-- The targets of the composites in a signature, each before those in its arguments. -/
def Signature.targets (s : Signature) : List TypeName := s.composites.map Composite.target

/-- The targets of the composites in arguments. -/
def Signature.targetsArgs (args : List Arg) : List TypeName :=
  (Signature.compositesArgs args).map Composite.target

namespace Attempt

variable {ε ε' α β : Type}

/-- If the attempt succeeds, the types that it has asked for are as `Q` tells of its result. -/
def Asks (Q : α → List TypeName → Prop) (x : Attempt ε α) : Prop :=
  ∀ s a t, x.run s = (.ok a, t) → ∃ asked, t.consulted = s.consulted ++ asked ∧ Q a asked

namespace Asks

variable {Q : α → List TypeName → Prop}

theorem pure {a : α} (h : Q a []) : Asks Q (pure a : Attempt ε α) := by
  intro s b t hrun
  rw [pure_apply, Prod.mk.injEq, Except.ok.injEq] at hrun
  obtain ⟨hb, ht⟩ := hrun
  subst hb ht
  exact ⟨[], by simp, h⟩

theorem fail (e : ε) : Asks Q (fail e : Attempt ε α) := by
  intro s a t hrun
  simp [fail_apply] at hrun

theorem bind {R : β → List TypeName → Prop} {x : Attempt ε α} {f : α → Attempt ε β}
    (hx : Asks Q x) (hf : ∀ a asked, Q a asked → Asks (fun b more => R b (asked ++ more)) (f a)) :
    Asks R (x >>= f) := by
  intro s b u hrun
  rw [bind_apply] at hrun
  cases hfirst : x.run s with
  | mk res t =>
      rw [hfirst] at hrun
      cases res with
      | ok a =>
          obtain ⟨asked, ht, ha⟩ := hx s a t hfirst
          obtain ⟨more, hu, hb⟩ := hf a asked ha t b u hrun
          exact ⟨asked ++ more, by rw [hu, ht, List.append_assoc], hb⟩
      | error e => simp at hrun

theorem within {x : Attempt Failure α} (hx : Asks Q x) (seg : Segment) :
    Asks Q (within seg x) := by
  intro s a t hrun
  rw [within_apply, Prod.mk.injEq, Plain.mapError_eq_ok] at hrun
  exact hx s a t (Prod.ext hrun.1 hrun.2)

theorem consult (n : TypeName) :
    Asks (fun _ asked => asked = [n]) (record (.consult n) : Attempt ε Unit) := by
  intro s a t hrun
  rw [record_apply, Prod.mk.injEq] at hrun
  refine ⟨[n], ?_, rfl⟩
  rw [← hrun.2, Session.consulted_record]
  rfl

/-! ### filling open slots -/

section

variable {object : TypeName → Attempt Failure Signature}

theorem expansion_shape (hobject : ∀ n, Asks (fun s asked => asked = s.targets) (object n))
    (x : Shape) : Asks (fun s asked => asked = s.targets) (Expansion.shape object x) := by
  induction x with
  | prim k => exact .pure rfl
  | array e ih | sequence e ih =>
      refine .bind (ih.within .element) fun s asked hs => .pure ?_
      simp [hs, Signature.targets, Signature.composites]
  | object n => exact hobject n

theorem expansion_params (hobject : ∀ n, Asks (fun s asked => asked = s.targets) (object n))
    (index : Nat) (ps : List Param) :
    Asks (fun args asked => asked = Signature.targetsArgs args)
      (Expansion.params object index ps) := by
  induction ps generalizing index with
  | nil => exact .pure rfl
  | cons p ps ih =>
      have hshape := (expansion_shape hobject p.val).within (.argument index p.name)
      refine .bind hshape fun s asked hs => .bind (ih (index + 1)) fun args more hargs => .pure ?_
      simp [hs, hargs, Signature.targets, Signature.targetsArgs, Signature.compositesArgs]

end

theorem expansion_object (r : Registry) (opened : List TypeName) (n : TypeName) :
    Asks (fun s asked => asked = s.targets) (Expansion.object r opened n) := by
  induction opened, n using Plain.Expansion.object.induct (r := r) with
  | case1 opened n hn =>
      rw [Expansion.object_eq, if_pos hn]
      exact .fail _
  | case2 opened n hn hr =>
      rw [Expansion.object_eq, if_neg hn, hr]
      exact .bind (consult n) fun _ _ _ => .fail _
  | case3 opened n hn d hr hd =>
      simp only [Expansion.object_eq r opened, if_neg hn, hr, hd]
      exact .bind (consult n) fun _ _ _ => .fail _
  | case4 opened n hn d hr first tail hd hlt ih =>
      simp only [Expansion.object_eq r opened, if_neg hn, hr, hd]
      have hparams := expansion_params ih 0 first
      refine .bind (consult n) fun _ asked hasked => .bind hparams fun args more hargs => .pure ?_
      simp [hasked, hargs, Signature.targets, Signature.targetsArgs, Signature.composites]

/-- An open slot that is filled has asked for the targets in the signature it becomes. -/
theorem expand (r : Registry) (x : Shape) :
    Asks (fun s asked => asked = s.targets) (ShapeFit.expand r x) :=
  expansion_shape (expansion_object r []) x

end Asks

end Attempt

end ShapeFit
