import ShapeFit.Proofs.Fit.Asking
import ShapeFit.Proofs.Fit.Reachability
import ShapeFit.Resolver

/-!
# ShapeFit.Proofs.Resolver.Expansion

Filling an open slot ends on every registry, and succeeds exactly at well-founded shapes
(`Resolver.fills_iff_grounded`). What a resolver remembers plays no part in it.
-/

namespace ShapeFit.Resolver

/-- An open slot becomes what it does by itself, whatever is remembered. -/
theorem result_apply_wildcard (r : Resolver) (x : Shape) (w : Bool) :
    (r.apply .wildcard x w).result = Plain.expand r.registry x := by
  have hfaithful : (Context.mk r.registry w none).Faithful .empty := Table.Faithful.empty
  obtain ⟨hresult, -⟩ := Conforms.expand r.registry x .empty hfaithful
  rw [← hresult]
  rfl

/-- An open slot that is filled has asked for the targets in the signature it becomes. -/
theorem consulted_apply_wildcard {r : Resolver} {x : Shape} {w : Bool} {s : Signature}
    (h : (r.apply .wildcard x w).result = .ok s) :
    (r.apply .wildcard x w).consulted = s.targets := by
  cases hrun : (expand r.registry x).run .empty with
  | mk result t =>
      have hresult : (r.apply .wildcard x w).result = ((expand r.registry x).run .empty).1 := rfl
      have hconsulted : (r.apply .wildcard x w).consulted =
          ((expand r.registry x).run .empty).2.consulted := rfl
      rw [hresult, hrun] at h
      subst h
      obtain ⟨asked, ht, hasked⟩ := Attempt.Asks.expand r.registry x .empty s t hrun
      rw [hconsulted, hrun, ht, hasked]
      rfl

/-- Filling an open slot ends on every registry. It succeeds exactly if every object type
reached from the shape through the elements of lists and the parameters of first declared
constructors has a constructor and does not reach itself; a type met again without reaching
itself is no error. After a success each composite of the signature has been asked for once,
those around it first. -/
theorem fills_iff_grounded (r : Resolver) (x : Shape) (w : Bool) :
    (WellFounded fun inner outer => Expansion.Calls r.registry outer inner) ∧
    ((∃ s, (r.apply .wildcard x w).result = .ok s) ↔
      ∀ t, Reaches r.registry x t → r.registry.Grounded t) ∧
    (∀ f t, (r.apply .wildcard x w).result = .error f → f.mismatch = .circularType t →
      Reaches r.registry x t ∧ Recurs r.registry t) ∧
    ∀ s, (r.apply .wildcard x w).result = .ok s →
      (r.apply .wildcard x w).consulted = s.composites.map Composite.target := by
  refine ⟨Expansion.wellFounded_calls r.registry, ?_, ?_, fun s hs => consulted_apply_wildcard hs⟩
  · rw [result_apply_wildcard]
    exact Plain.exists_expand_iff
  · intro f t hresult hf
    rw [result_apply_wildcard] at hresult
    exact Plain.recurs_of_circularType hresult hf

end ShapeFit.Resolver
