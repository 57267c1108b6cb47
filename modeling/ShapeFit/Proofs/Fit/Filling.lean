import ShapeFit.Proofs.Fit.Rules
import ShapeFit.Proofs.Signature.Filling

/-!
# ShapeFit.Proofs.Fit.Filling

Fitting fills open slots and does nothing else.

* `Fits.fills`, `Fits.isResolved` — what a signature becomes at a shape is the signature
  with its slots filled, and no slot is left open. Widening does not show in it: a kind
  stays the declared one.
* `Expands.fits_of_fills` — the signature that a shape has of itself may be opened again
  at any of its parts: at that shape the parts come back. An object takes the first
  constructor declared for its type however much of the composite is left open
  (`Expands.resolves_first`).
-/

namespace ShapeFit

variable {r : Registry} {w : Bool}

/-! ## What a signature becomes -/

mutual
/-- A signature that a shape has of itself has no open slot. -/
theorem Expands.isResolved {x : Shape} {s : Signature} (h : Expands r x s) :
    s.isResolved = true := by
  match h with
  | .prim k => rfl
  | .array hx | .sequence hx => rw [Signature.isResolved, hx.isResolved]
  | .object _ _ hargs => rw [Signature.isResolved, hargs.isResolved]
termination_by structural h

theorem ExpandsParams.isResolved {ps : List Param} {args : List Arg}
    (h : ExpandsParams r ps args) : Signature.isResolvedArgs args = true := by
  match h with
  | .nil => rfl
  | .cons hp hps =>
      rw [Signature.isResolvedArgs, Bool.and_eq_true]
      exact ⟨hp.isResolved, hps.isResolved⟩
termination_by structural h
end

theorem FitsArgs.isResolved {as args : List Arg} {ps : List Param}
    (hargs : ∀ a ∈ as, ∀ x t, Fits r w a.val x t → t.isResolved = true)
    (h : FitsArgs r w as ps args) : Signature.isResolvedArgs args = true := by
  induction h using FitsArgs.induction with
  | nil => rfl
  | cons ht _ ih =>
      rw [List.forall_mem_cons] at hargs
      rw [Signature.isResolvedArgs, Bool.and_eq_true]
      exact ⟨hargs.1 _ _ ht, ih hargs.2⟩

/-- No slot stays open in what a signature becomes. -/
theorem Fits.isResolved {s t : Signature} {x : Shape} (h : Fits r w s x t) :
    t.isResolved = true := by
  induction s generalizing x t with
  | prim k =>
      obtain ⟨_, -, -, rfl⟩ := h
      rfl
  | list e ih =>
      obtain ⟨_, _, -, he, rfl⟩ := h
      rw [Signature.isResolved, ih he]
  | composite n as ih =>
      obtain ⟨-, _, _, ⟨_, -, -, -, hargs, -⟩, rfl⟩ := h
      rw [Signature.isResolved]
      exact hargs.isResolved fun a ha _ _ => ih a ha
  | wildcard => exact Expands.isResolved h

theorem FitsArgs.fills {as args : List Arg} {ps : List Param}
    (hargs : ∀ a ∈ as, ∀ x t, Fits r w a.val x t → Fills a.val t)
    (h : FitsArgs r w as ps args) : FillsArgs as args := by
  induction h using FitsArgs.induction with
  | nil => exact .nil
  | cons ht _ ih =>
      rw [List.forall_mem_cons] at hargs
      exact .cons _ (hargs.1 _ _ ht) (ih hargs.2)

/-- A signature becomes itself with its open slots filled. -/
theorem Fits.fills {s t : Signature} {x : Shape} (h : Fits r w s x t) : Fills s t := by
  induction s generalizing x t with
  | prim k =>
      obtain ⟨_, -, -, rfl⟩ := h
      exact .prim k
  | list e ih =>
      obtain ⟨_, _, -, he, rfl⟩ := h
      exact .list (ih he)
  | composite n as ih =>
      obtain ⟨-, _, _, ⟨_, -, -, -, hargs, -⟩, rfl⟩ := h
      exact .composite n (hargs.fills fun a ha _ _ => ih a ha)
  | wildcard => exact .slot t

/-- A signature without open slots stays as it is wherever it fits. -/
theorem Fits.eq_of_isResolved {s t : Signature} {x : Shape} (h : Fits r w s x t)
    (hs : s.isResolved = true) : t = s :=
  h.fills.eq_of_isResolved hs

/-- A composite is resolved to itself with its open slots filled. -/
theorem Plain.fills_of_composite {c : Composite} {res : Resolution}
    (h : Plain.composite r w c = .ok res) :
    Fills c.toSignature res.signature.toSignature := by
  obtain ⟨htarget, _, -, -, -, hargs, -⟩ := composite_eq_ok_iff.mp h
  rw [Composite.toSignature, Composite.toSignature, htarget]
  exact .composite c.target (hargs.fills fun _ _ _ _ => Fits.fills)

/-- A composite without open slots stays as it is when it is resolved. -/
theorem Plain.eq_of_composite_isResolved {c : Composite} {res : Resolution}
    (h : Plain.composite r w c = .ok res) (hc : c.toSignature.isResolved = true) :
    res.signature = c := by
  have heq := (fills_of_composite h).eq_of_isResolved hc
  have hres := Signature.composite?_eq_some_iff.mpr heq
  have hself := Signature.composite?_eq_some_iff.mpr (rfl : c.toSignature = c.toSignature)
  rw [hself, Option.some.injEq] at hres
  exact hres.symm

/-! ## Opening a signature again -/

/-- A first constructor that accepts the arguments is selected: none is declared earlier. -/
theorem Selects.of_first {n : TypeName} {d : TypeDescriptor} {first : List Param}
    {rest : List (List Param)} {as args : List Arg} (hfind : r.find? n = some d)
    (hd : d.overloads = first :: rest) (hargs : FitsArgs r w as first args) :
    Selects r n as.length (FitsArgs r w as) (Rejects r w as) ⟨0, first⟩ args := by
  have hhead : d.overloads[0]? = some first := by rw [hd, List.getElem?_cons_zero]
  exact ⟨d, hfind, hhead, hargs.length_params, hargs, nofun⟩

mutual
/-- The signature that a shape has of itself, opened again at any of its parts, becomes
the same signature at the shape. -/
theorem Expands.fits_of_fills {x : Shape} {g t : Signature} (h : Expands r x t) (hg : Fills g t) :
    Fits r w g x t := by
  match h, hg with
  -- The whole is open again, so the derivation for the shape is what an open slot takes.
  | h, .slot _ => exact h
  | .prim k, .prim _ => exact ⟨k, rfl, .inl rfl, rfl⟩
  | .array hx, .list he => exact ⟨_, _, .inl rfl, hx.fits_of_fills he, rfl⟩
  | .sequence hx, .list he => exact ⟨_, _, .inr rfl, hx.fits_of_fills he, rfl⟩
  | .object hfind hd hargs, .composite _ has =>
      exact ⟨rfl, _, _, .of_first hfind hd (hargs.fits_of_fills has), rfl⟩
termination_by structural h

theorem ExpandsParams.fits_of_fills {ps : List Param} {as args : List Arg}
    (h : ExpandsParams r ps args) (has : FillsArgs as args) : FitsArgs r w as ps args := by
  match h, has with
  | .nil, .nil => rfl
  | .cons hp hps, .cons _ hs hrest =>
      exact ⟨_, _, hp.fits_of_fills hs, hps.fits_of_fills hrest, rfl⟩
termination_by structural h
end

/-- A composite that a shape has of itself is resolved by the first constructor declared
for its target, whichever of its parts are opened again. -/
theorem Expands.resolves_first {x : Shape} {t : Signature} {c : Composite} (h : Expands r x t)
    (hc : Fills c.toSignature t) :
    ∃ res, Plain.composite r w c = .ok res ∧ res.constructor.index = 0 ∧
      res.signature.toSignature = t := by
  cases hc with
  | @composite _ _ args has =>
      cases h with
      | @object _ d first rest _ hfind hd hargs =>
          have hselects : Selects r c.target c.arity (FitsArgs r w c.args) (Rejects r w c.args)
              ⟨0, first⟩ args :=
            .of_first hfind hd (hargs.fits_of_fills has)
          exact ⟨⟨⟨0, first⟩, ⟨c.target, args⟩⟩,
            Plain.composite_eq_ok_iff.mpr ⟨rfl, hselects⟩, rfl, rfl⟩

end ShapeFit
