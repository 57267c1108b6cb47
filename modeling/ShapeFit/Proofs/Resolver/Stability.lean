import ShapeFit.Proofs.Fit.Stability
import ShapeFit.Proofs.Resolver.Step

/-!
# ShapeFit.Proofs.Resolver.Stability

Fitting what a signature has become, and resolving what a composite has become, changes
nothing any more (`Resolver.refit_after`). In particular the same constructor is chosen.
-/

namespace ShapeFit

/-- What a composite is resolved to is resolved to itself. -/
theorem Plain.composite_refit {r : Registry} {w : Bool} {c : Composite} {res : Resolution}
    (h : Plain.composite r w c = .ok res) : Plain.composite r w res.signature = .ok res := by
  rw [composite_eq_ok_iff] at h ⊢
  obtain ⟨htarget, hselects⟩ := h
  rw [htarget]
  exact ⟨rfl, hselects.refit fun a _ x t ht => ht.refit⟩

namespace Resolver

/-- Whatever resolvers over one registry have been asked before, and whether they remember
it or not: what one fits a signature to, the other fits to itself, and what one resolves a
composite to, the other resolves to itself by the same constructor. -/
theorem refit_after (registry : Registry) (w caching caching' : Bool)
    (history history' : List Request) :
    (∀ s x t,
      (((⟨registry, caching, .empty⟩ : Resolver).after history).apply s x w).result = .ok t →
        (((⟨registry, caching', .empty⟩ : Resolver).after history').apply t x w).result = .ok t) ∧
    ∀ c res,
      (((⟨registry, caching, .empty⟩ : Resolver).after history).resolve c w).result = .ok res →
        (((⟨registry, caching', .empty⟩ : Resolver).after history').resolve res.signature
          w).result = .ok res := by
  constructor
  · intro s x t h
    rw [result_apply_after, Plain.signature_eq_ok_iff] at h ⊢
    exact h.refit
  · intro c res h
    rw [result_resolve_after] at h ⊢
    exact Plain.composite_refit h

/-- A type whose first constructor leads back to it, and one whose first constructor
takes it. -/
def chained : Registry where
  types := [TypeDescriptor.ofName ⟨"Chain"⟩ |>.declare [⟨"next", .object ⟨"Chain"⟩⟩],
    TypeDescriptor.ofName ⟨"Pair"⟩
      |>.declare [⟨"x", .object ⟨"Chain"⟩⟩, ⟨"y", .prim .int⟩]
      |>.declare [⟨"x", .prim .long⟩, ⟨"y", .prim .int⟩]]
  nodup_names := by decide

/-- A composite of the second type. -/
def pair (first : Signature) : Composite := ⟨⟨"Pair"⟩, [⟨"a", first⟩, ⟨"b", .prim .int⟩]⟩

/-- An open slot that the first constructor can not fill is filled at the second, and
the first is not taken afterwards either. -/
theorem refit_after_chained :
    ((ofRegistry chained).resolve (pair .wildcard) true).result =
        .ok ⟨⟨1, [⟨"x", .prim .long⟩, ⟨"y", .prim .int⟩]⟩, pair (.prim .long)⟩ ∧
      ((ofRegistry chained).resolve (pair (.prim .long)) true).result =
        .ok ⟨⟨1, [⟨"x", .prim .long⟩, ⟨"y", .prim .int⟩]⟩, pair (.prim .long)⟩ := by
  have h : ((ofRegistry chained).resolve (pair .wildcard) true).result =
      .ok ⟨⟨1, [⟨"x", .prim .long⟩, ⟨"y", .prim .int⟩]⟩, pair (.prim .long)⟩ := by cbv
  exact ⟨h, (refit_after chained true true true [] []).2 _ _ h⟩

end Resolver

end ShapeFit
