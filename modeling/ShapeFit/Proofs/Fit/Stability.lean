import ShapeFit.Proofs.Fit.Filling

/-!
# ShapeFit.Proofs.Fit.Stability

What a signature becomes at a shape, it stays.

Filling an open slot makes a signature more specific, and a constructor declared earlier
might then accept what it rejected before. It never does: whatever shape the filled
signature fits, the open one fits too (`Fits.exists_of_fits`). For an open slot that is
because a signature that a shape has of itself only fits shapes that have one. So a filled
signature is rejected wherever the open one was (`FitsArgs.rejects`), the same constructor
is selected again (`Selects.refit`), and the signature becomes itself (`Fits.refit`).
-/

namespace ShapeFit

variable {r : Registry} {w : Bool}

/-! ## Signatures that shapes have of themselves -/

/-- The signature that a shape has of itself fits only shapes that have one. -/
theorem Expands.exists_of_fits {x y : Shape} {s t : Signature} (h : Expands r x s)
    (hfits : Fits r w s y t) : ∃ u, Expands r y u := by
  match h with
  | .prim k =>
      obtain ⟨found, hy, -, -⟩ := hfits
      exact ⟨.prim found, hy ▸ .prim found⟩
  | .array hx | .sequence hx =>
      obtain ⟨z, e, hy, he, -⟩ := hfits
      obtain ⟨u, hu⟩ := hx.exists_of_fits he
      cases hy with
      | inl harray => exact ⟨.list u, harray ▸ .array hu⟩
      | inr hsequence => exact ⟨.list u, hsequence ▸ .sequence hu⟩
  | .object hfind hd hargs =>
      obtain ⟨hy, -⟩ := hfits
      rw [hy]
      exact ⟨_, .object hfind hd hargs⟩
termination_by structural h

/-! ## Filled signatures -/

/-- What a signature becomes fits no shape that the signature itself does not fit. -/
theorem Fits.exists_of_fits {s t u : Signature} {x y : Shape} (h : Fits r w s x t)
    (hfits : Fits r w t y u) : ∃ v, Fits r w s y v := by
  induction s generalizing x y t u with
  | prim k =>
      obtain ⟨found, -, -, ht⟩ := h
      rw [ht] at hfits
      exact ⟨u, hfits⟩
  | list e ih =>
      obtain ⟨z, e', -, he, ht⟩ := h
      rw [ht] at hfits
      obtain ⟨z', e'', hy, he', -⟩ := hfits
      obtain ⟨v, hv⟩ := ih he he'
      exact ⟨.list v, z', v, hy, hv, rfl⟩
  | composite n as =>
      -- The shape can only be an object of the same type, which the composite fits already.
      obtain ⟨hx, k, args, hselects, ht⟩ := h
      rw [ht] at hfits
      obtain ⟨hy, -⟩ := hfits
      exact ⟨t, hy, k, args, hselects, ht⟩
  | wildcard => exact Expands.exists_of_fits h hfits

/-- Parameters that reject arguments reject what the arguments become at others. -/
theorem FitsArgs.rejects {as args : List Arg} {ps qs : List Param} (h : FitsArgs r w as ps args)
    (hrejects : Rejects r w as qs) : Rejects r w args qs := by
  induction h using FitsArgs.induction generalizing qs with
  | nil => exact hrejects.elim
  | cons ht _ ih =>
      cases qs with
      | nil => exact hrejects.elim
      | cons q qs =>
          cases hrejects with
          | inl hhead =>
              refine .inl fun u hu => ?_
              obtain ⟨v, hv⟩ := Fits.exists_of_fits ht hu
              exact hhead v hv
          | inr hlater => exact .inr (ih hlater)

theorem FitsArgs.length_eq {as args : List Arg} {ps : List Param} (h : FitsArgs r w as ps args) :
    args.length = as.length := by
  induction h using FitsArgs.induction with
  | nil => rfl
  | cons _ _ ih => rw [List.length_cons, List.length_cons, ih]

/-- Arguments that have become what they are stay so, if each of them does. -/
theorem FitsArgs.refit {as args : List Arg} {ps : List Param}
    (hargs : ∀ a ∈ as, ∀ x t, Fits r w a.val x t → Fits r w t x t)
    (h : FitsArgs r w as ps args) : FitsArgs r w args ps args := by
  induction h using FitsArgs.induction with
  | nil => rfl
  | cons ht _ ih =>
      rw [List.forall_mem_cons] at hargs
      exact ⟨_, _, hargs.1 _ _ ht, ih hargs.2, rfl⟩

/-- The constructor selected for arguments is selected again for what they become. -/
theorem Selects.refit {n : TypeName} {as args : List Arg} {k : Constructor}
    (hargs : ∀ a ∈ as, ∀ x t, Fits r w a.val x t → Fits r w t x t)
    (h : Selects r n as.length (FitsArgs r w as) (Rejects r w as) k args) :
    Selects r n args.length (FitsArgs r w args) (Rejects r w args) k args := by
  obtain ⟨d, hfind, hk, hlen, hfits, hearlier⟩ := h
  rw [hfits.length_eq]
  refine ⟨d, hfind, hk, hlen, hfits.refit hargs, ?_⟩
  intro i hi ps hps hpslen
  exact hfits.rejects (hearlier i hi ps hps hpslen)

/-- What a signature becomes at a shape stays as it is there. -/
theorem Fits.refit {s t : Signature} {x : Shape} (h : Fits r w s x t) : Fits r w t x t := by
  induction s generalizing x t with
  | prim k =>
      obtain ⟨found, hx, hmatch, ht⟩ := h
      rw [ht]
      exact ⟨found, hx, hmatch, rfl⟩
  | list e ih =>
      obtain ⟨y, e', hx, he, ht⟩ := h
      rw [ht]
      exact ⟨y, e', hx, ih he, rfl⟩
  | composite n as ih =>
      obtain ⟨hx, k, args, hselects, ht⟩ := h
      rw [ht]
      exact ⟨hx, k, args, hselects.refit fun a ha _ _ => ih a ha, rfl⟩
  | wildcard => exact Expands.fits_of_fills h (.refl t)

end ShapeFit
