import ShapeFit.Signature

/-!
# ShapeFit.Proofs.Signature.Composites

The composites that occur in a signature.

A composite occurs in itself, and every other composite that occurs in it is
smaller (`size_le_of_mem_composites`), so none occurs inside its own arguments
(`Composite.not_mem_inner`).
-/

namespace ShapeFit

namespace Signature

mutual
/-- The composites that occur in a signature at any depth, itself included. -/
def composites : Signature → List Composite
  | .prim _ | .wildcard => []
  | .list e => e.composites
  | .composite t args => ⟨t, args⟩ :: compositesArgs args

/-- The composites that occur in arguments at any depth. -/
def compositesArgs : List (Named Signature) → List Composite
  | [] => []
  | ⟨_, s⟩ :: args => s.composites ++ compositesArgs args
end

theorem mem_compositesArgs {args : List Arg} {c : Composite} :
    c ∈ compositesArgs args ↔ ∃ a ∈ args, c ∈ a.val.composites := by
  induction args with
  | nil => simp [compositesArgs]
  | cons a args ih => simp [compositesArgs, ih]

/-- An argument is no larger than all arguments together. -/
theorem size_le_sizeArgs {args : List Arg} {a : Arg} (h : a ∈ args) :
    a.val.size ≤ sizeArgs args := by
  induction args with
  | nil => cases h
  | cons b args ih =>
      rw [sizeArgs]
      rw [List.mem_cons] at h
      cases h with
      | inl he => subst he; omega
      | inr ht => have hle := ih ht; omega

/-- What occurs in arguments is no larger than they are together. -/
theorem size_le_of_mem_compositesArgs {args : List Arg} {c : Composite}
    (hargs : ∀ a ∈ args, c ∈ a.val.composites → c.size ≤ a.val.size)
    (h : c ∈ compositesArgs args) : c.size ≤ sizeArgs args := by
  obtain ⟨a, ha, hc⟩ := mem_compositesArgs.mp h
  exact Nat.le_trans (hargs a ha hc) (size_le_sizeArgs ha)

/-- What occurs in a signature is no larger than the signature. -/
theorem size_le_of_mem_composites {s : Signature} {c : Composite} (h : c ∈ s.composites) :
    c.size ≤ s.size := by
  induction s with
  | prim k => simp [composites] at h
  | list e ih =>
      have hle := ih h
      rw [size]
      omega
  | composite t args ih =>
      rw [composites, List.mem_cons] at h
      cases h with
      | inl he =>
          rw [he]
          exact Nat.le_refl _
      | inr hin =>
          have hle := size_le_of_mem_compositesArgs ih hin
          rw [size]
          omega
  | wildcard => simp [composites] at h

end Signature

namespace Composite

/-- The composites that occur in a composite, itself included. -/
def composites (c : Composite) : List Composite := c.toSignature.composites

/-- The composites that occur in the arguments of a composite. -/
def inner (c : Composite) : List Composite := Signature.compositesArgs c.args

theorem composites_eq (c : Composite) : c.composites = c :: c.inner := by
  simp [composites, toSignature, Signature.composites, inner]

theorem inner_subset (c : Composite) : c.inner ⊆ c.composites := by
  rw [composites_eq]
  exact List.subset_cons_self c c.inner

/-- No composite occurs in its own arguments. -/
theorem not_mem_inner (c : Composite) : c ∉ c.inner := by
  intro h
  have hle := Signature.size_le_of_mem_compositesArgs
    (fun _ _ => Signature.size_le_of_mem_composites) h
  have hsize : c.size = 1 + Signature.sizeArgs c.args := by
    simp [size, toSignature, Signature.size]
  omega

end Composite

end ShapeFit
