import ShapeFit.Proofs.Fit.Filling
import ShapeFit.Proofs.Resolver.Decision

/-!
# ShapeFit.Proofs.Resolver.Filling

A resolver fills the open slots of a signature and changes nothing else, from whatever
candidate or remembered resolution the parts come (`Resolver.result_fills_slots`). What it
makes of a slot may be opened again at any parts, and it fills them as before
(`Resolver.reopened_refills`).
-/

namespace ShapeFit.Resolver

/-- After any history, a signature that fits becomes itself with its open slots filled. What
stands in place of a slot is a part of a signature that has no slot any more. -/
theorem result_fills_slots (registry : Registry) (caching : Bool) (history : List Request)
    {s : Signature} {x : Shape} {w : Bool} {t : Signature}
    (h : (((⟨registry, caching, .empty⟩ : Resolver).after history).apply s x w).result = .ok t) :
    Fills s t ∧ t.isResolved = true ∧ t.wildcardCount = 0 ∧ (s.isResolved = true → t = s) := by
  have hfits : Fits registry w s x t := result_apply_after_eq_ok_iff.mp h
  have hcount : t.wildcardCount = 0 :=
    Signature.isResolved_iff_wildcardCount.mp hfits.isResolved
  exact ⟨hfits.fills, hfits.isResolved, hcount, hfits.eq_of_isResolved⟩

/-- Points, and lines from a point with a label or with the lengths of their pieces. -/
def drawing : Registry where
  types := [TypeDescriptor.ofName ⟨"Point"⟩ |>.declare [⟨"x", .prim .int⟩, ⟨"y", .prim .int⟩],
    TypeDescriptor.ofName ⟨"Line"⟩
      |>.declare [⟨"origin", .object ⟨"Point"⟩⟩, ⟨"label", .prim .string⟩]
      |>.declare [⟨"origin", .object ⟨"Point"⟩⟩, ⟨"pieces", .sequence (.prim .int)⟩]]
  nodup_names := by decide

/-- A point with the names of its parameters. -/
def point (x y : Signature) : Signature := .composite ⟨"Point"⟩ [⟨"x", x⟩, ⟨"y", y⟩]

/-- A line whose arguments have names of their own. -/
def lineBy (origin pieces : Signature) : Composite :=
  ⟨⟨"Line"⟩, [⟨"from", origin⟩, ⟨"by", pieces⟩]⟩

/-- A line with the names of the first constructor's parameters. -/
def labelled (origin label : Signature) : Composite :=
  ⟨⟨"Line"⟩, [⟨"origin", origin⟩, ⟨"label", label⟩]⟩

/-- The resolution that an earlier request has left is used. The slot is a point with the
names of its parameters now. The names of the line's arguments stay as they are, and so does
the kind that is widened. -/
theorem result_fills_slots_remembered :
    (((ofRegistry drawing).after
        [.resolve (lineBy .wildcard (.list (.prim .short))) true]).apply
          (lineBy .wildcard (.list (.prim .short))).toSignature (.object ⟨"Line"⟩) true).result =
      .ok (lineBy (point (.prim .int) (.prim .int)) (.list (.prim .short))).toSignature ∧
    Fills (lineBy .wildcard (.list (.prim .short))).toSignature
      (lineBy (point (.prim .int) (.prim .int)) (.list (.prim .short))).toSignature ∧
    (lineBy (point (.prim .int) (.prim .int)) (.list (.prim .short))).toSignature.isResolved =
      true := by
  have h : (((ofRegistry drawing).after
        [.resolve (lineBy .wildcard (.list (.prim .short))) true]).apply
          (lineBy .wildcard (.list (.prim .short))).toSignature (.object ⟨"Line"⟩) true).result =
      .ok (lineBy (point (.prim .int) (.prim .int)) (.list (.prim .short))).toSignature := by
    cbv
  obtain ⟨hfills, hresolved, -, -⟩ := result_fills_slots drawing true _ h
  exact ⟨h, hfills, hresolved⟩

/-- What an open slot becomes at a shape, opened again at any of its parts, becomes the same
at that shape, for either setting of widening and whatever the resolvers were asked before.
If a composite is left, it is resolved by the first constructor of its target. -/
theorem reopened_refills (registry : Registry) (w w' caching caching' : Bool)
    (history history' : List Request) {x : Shape} {g t : Signature}
    (h : (((⟨registry, caching, .empty⟩ : Resolver).after history).apply .wildcard x w).result =
      .ok t)
    (hg : Fills g t) :
    (((⟨registry, caching', .empty⟩ : Resolver).after history').apply g x w').result = .ok t ∧
    ∀ c : Composite, c.toSignature = g → ∃ res,
      (((⟨registry, caching', .empty⟩ : Resolver).after history').resolve c w').result = .ok res ∧
        res.constructor.index = 0 ∧ res.signature.toSignature = t := by
  have hexpands : Expands registry x t := result_apply_after_eq_ok_iff.mp h
  constructor
  · exact result_apply_after_eq_ok_iff.mpr (hexpands.fits_of_fills hg)
  · intro c hc
    rw [result_resolve_after]
    exact hexpands.resolves_first (hc ▸ hg)

/-- A line of itself is a point and a label. With the label and a coordinate of the point
open again, the second constructor would take the arguments too, but does not win. -/
theorem reopened_refills_line :
    ((ofRegistry drawing).apply .wildcard (.object ⟨"Line"⟩) false).result =
      .ok (labelled (point (.prim .int) (.prim .int)) (.prim .string)).toSignature ∧
    ((uncached drawing).apply (labelled (point (.prim .int) .wildcard) .wildcard).toSignature
        (.object ⟨"Line"⟩) true).result =
      .ok (labelled (point (.prim .int) (.prim .int)) (.prim .string)).toSignature ∧
    ∃ res,
      ((uncached drawing).resolve (labelled (point (.prim .int) .wildcard) .wildcard) true).result =
        .ok res ∧
      res.constructor.index = 0 := by
  have h : ((ofRegistry drawing).apply .wildcard (.object ⟨"Line"⟩) false).result =
      .ok (labelled (point (.prim .int) (.prim .int)) (.prim .string)).toSignature := by cbv
  have hpoint : Fills (point (.prim .int) .wildcard) (point (.prim .int) (.prim .int)) :=
    .composite _ (.cons _ (.prim _) (.cons _ (.slot _) .nil))
  have hline : Fills (labelled (point (.prim .int) .wildcard) .wildcard).toSignature
      (labelled (point (.prim .int) (.prim .int)) (.prim .string)).toSignature :=
    .composite _ (.cons _ hpoint (.cons _ (.slot _) .nil))
  obtain ⟨happly, hresolve⟩ := reopened_refills drawing false true true false [] [] h hline
  obtain ⟨res, hres, hindex, -⟩ := hresolve _ rfl
  exact ⟨h, happly, res, hres, hindex⟩

end ShapeFit.Resolver
