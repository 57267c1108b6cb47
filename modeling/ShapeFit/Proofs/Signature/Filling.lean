import ShapeFit.Signature

/-!
# ShapeFit.Proofs.Signature.Filling

Signatures that differ in open slots only.

`Fills s t` says that `t` is `s` with a signature in place of each open slot. Read the
other way round, `s` is `t` with open slots in place of some of its parts, whichever and
however deep. Everything outside the slots is the same in both: kinds, lists, targets,
the order of arguments and their names. So a signature without open slots is filled by
itself only (`Fills.eq_of_isResolved`).
-/

namespace ShapeFit

mutual
/-- The signature `t` is `s` with a signature in place of each open slot. -/
inductive Fills : Signature → Signature → Prop
  | slot (t : Signature) : Fills .wildcard t
  | prim (k : Prim) : Fills (.prim k) (.prim k)
  | list {e e' : Signature} : Fills e e' → Fills (.list e) (.list e')
  | composite (n : TypeName) {as bs : List Arg} :
      FillsArgs as bs → Fills (.composite n as) (.composite n bs)

/-- The arguments `bs` are `as` with a signature in place of each open slot. -/
inductive FillsArgs : List Arg → List Arg → Prop
  | nil : FillsArgs [] []
  | cons (n : String) {s t : Signature} {as bs : List Arg} :
      Fills s t → FillsArgs as bs → FillsArgs (⟨n, s⟩ :: as) (⟨n, t⟩ :: bs)
end

theorem FillsArgs.refl_of_forall {as : List Arg} (h : ∀ a ∈ as, Fills a.val a.val) :
    FillsArgs as as := by
  induction as with
  | nil => exact .nil
  | cons a as ih =>
      rw [List.forall_mem_cons] at h
      exact .cons a.name h.1 (ih h.2)

/-- A signature is itself with every slot left open. -/
theorem Fills.refl (s : Signature) : Fills s s := by
  induction s with
  | prim k => exact .prim k
  | list e ih => exact .list ih
  | composite n as ih => exact .composite n (.refl_of_forall ih)
  | wildcard => exact .slot .wildcard

mutual
/-- A signature without open slots has only itself to become. -/
theorem Fills.eq_of_isResolved {s t : Signature} (h : Fills s t) (hs : s.isResolved = true) :
    t = s := by
  match h with
  | .slot t => simp [Signature.isResolved] at hs
  | .prim k => rfl
  | .list he =>
      rw [Signature.isResolved] at hs
      rw [he.eq_of_isResolved hs]
  | .composite n has =>
      rw [Signature.isResolved] at hs
      rw [has.eq_of_isResolved hs]
termination_by structural h

theorem FillsArgs.eq_of_isResolved {as bs : List Arg} (h : FillsArgs as bs)
    (has : Signature.isResolvedArgs as = true) : bs = as := by
  match h with
  | .nil => rfl
  | .cons n hs hrest =>
      rw [Signature.isResolvedArgs, Bool.and_eq_true] at has
      rw [hs.eq_of_isResolved has.1, hrest.eq_of_isResolved has.2]
termination_by structural h
end

end ShapeFit
