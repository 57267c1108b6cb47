import ShapeFit.Proofs.Fit.Location
import ShapeFit.Proofs.Resolver.Step

/-!
# ShapeFit.Proofs.Resolver.Location

A failure points at what is at fault (`Resolver.failure_located`), whatever has been asked
before. What fitting a part alone fails with may be asked of any resolver over the same
registry.
-/

namespace ShapeFit.Resolver

/-- Every failure to fit a signature is located, by what fitting the parts alone comes to. -/
theorem failure_located (registry : Registry) (w caching caching' : Bool)
    (history history' : List Request) {s : Signature} {x : Shape} {f : Failure}
    (h : (((⟨registry, caching, .empty⟩ : Resolver).after history).apply s x w).result =
      .error f) :
    Located registry
      (fun n y => (((⟨registry, caching', .empty⟩ : Resolver).after history').apply n y w).result)
      s x f := by
  simp only [result_apply_after] at h ⊢
  exact Plain.located_of_error h

/-- A type whose constructor leads back to it through a sequence, and one that takes it. -/
def looped : Registry where
  types := [TypeDescriptor.ofName ⟨"Node"⟩ |>.declare [⟨"next", .sequence (.object ⟨"Node"⟩)⟩],
    TypeDescriptor.ofName ⟨"Tree"⟩ |>.declare [⟨"root", .object ⟨"Node"⟩⟩]]
  nodup_names := by decide

/-- In a list of composites, an open slot leads to a type that it has passed. -/
theorem failure_located_looped :
    ((ofRegistry looped).apply (.list (.composite ⟨"Tree"⟩ [⟨"top", .wildcard⟩]))
        (.array (.object ⟨"Tree"⟩)) false).result =
      .error ⟨.noCandidate ⟨"Tree"⟩ 1 1 0 [.argument 0 "top", .argument 0 "next", .element]
        (.circularType ⟨"Node"⟩), [.element]⟩ ∧
    Located looped (fun n y => ((uncached looped).apply n y false).result)
      (.list (.composite ⟨"Tree"⟩ [⟨"top", .wildcard⟩])) (.array (.object ⟨"Tree"⟩))
      ⟨.noCandidate ⟨"Tree"⟩ 1 1 0 [.argument 0 "top", .argument 0 "next", .element]
        (.circularType ⟨"Node"⟩), [.element]⟩ := by
  have h : ((ofRegistry looped).apply (.list (.composite ⟨"Tree"⟩ [⟨"top", .wildcard⟩]))
        (.array (.object ⟨"Tree"⟩)) false).result =
      .error ⟨.noCandidate ⟨"Tree"⟩ 1 1 0 [.argument 0 "top", .argument 0 "next", .element]
        (.circularType ⟨"Node"⟩), [.element]⟩ := by cbv
  exact ⟨h, failure_located looped false true false [] [] h⟩

end ShapeFit.Resolver
