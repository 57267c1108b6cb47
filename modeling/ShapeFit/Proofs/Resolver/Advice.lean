import ShapeFit.Proofs.Fit.Advice
import ShapeFit.Proofs.Resolver.Step

/-!
# ShapeFit.Proofs.Resolver.Advice

What is suggested on a failure to fit a signature, and on each cause behind it, and which of
the suggestions can be followed (`Resolver.failure_advised`), whatever has been asked before.
What an argument comes to that is declared as suggested may be asked of any resolver over the
same registry.
-/

namespace ShapeFit.Resolver

/-- Widening is suggested exactly where it helps, and a kind or an open slot where it fits. The
text of a shape is suggested, too, and can be declared if the shape is a primitive. -/
theorem failure_advised (registry : Registry) (w caching caching' : Bool)
    (history history' : List Request) {s : Signature} {x : Shape} {f : Failure}
    (h : (((⟨registry, caching, .empty⟩ : Resolver).after history).apply s x w).result =
      .error f) :
    ∀ g ∈ f.levels, Advised
      (fun v n y =>
        (((⟨registry, caching', .empty⟩ : Resolver).after history').apply n y v).result) g := by
  simp only [result_apply_after] at h ⊢
  exact fun g hg => Plain.advised_of_mem_levels h hg

/-- A type that is made of rows of numbers. -/
def rowed : Registry where
  types := [TypeDescriptor.ofName ⟨"Grid"⟩ |>.declare [⟨"rows", .array (.array (.prim .int))⟩]]
  nodup_names := by decide

/-- Behind the failure of a composite is that of an argument, with a suggestion of its own. -/
theorem failure_advised_grid :
    ((ofRegistry rowed).apply (.composite ⟨"Grid"⟩ [⟨"rows", .prim .int⟩]) (.object ⟨"Grid"⟩)
        false).result =
      .error (Mismatch.noCandidate ⟨"Grid"⟩ 1 1 0 [.argument 0 "rows"]
        (.shape "`int`" (.array (.array (.prim .int))))).here ∧
    Advised (fun v n y => ((uncached rowed).apply n y v).result)
      ⟨.shape "`int`" (.array (.array (.prim .int))), [.argument 0 "rows"]⟩ := by
  have h : ((ofRegistry rowed).apply (.composite ⟨"Grid"⟩ [⟨"rows", .prim .int⟩])
        (.object ⟨"Grid"⟩) false).result =
      .error (Mismatch.noCandidate ⟨"Grid"⟩ 1 1 0 [.argument 0 "rows"]
        (.shape "`int`" (.array (.array (.prim .int))))).here := by cbv
  refine ⟨h, failure_advised rowed false true false [] [] h _ ?_⟩
  simp [Failure.levels, Mismatch.here, Mismatch.causes]

/-- An array of numbers where a number is declared: the text that is suggested is refused. -/
theorem suggested_array_refused :
    ∃ f, ((ofRegistry .empty).apply (.prim .int) (.array (.prim .int)) false).result = .error f ∧
      f.mismatch = .shape "`int`" (.array (.prim .int)) ∧
      f.diagnostic.suggestions = ["declare the argument as `int[]` or `_`"] ∧
      Signature.parse "int[]" = .error ⟨.trailingInput "[", ⟨3, 4⟩⟩ := by
  refine ⟨(Mismatch.shape "`int`" (.array (.prim .int))).here, by cbv, rfl, by decide, ?_⟩
  with_unfolding_all rfl

end ShapeFit.Resolver
