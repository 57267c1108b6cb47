import ShapeFit.Proofs.Fit.Furthest
import ShapeFit.Proofs.Resolver.Step

/-!
# ShapeFit.Proofs.Resolver.Selection

A composite that can not be resolved is reported with the candidate that gets furthest
(`Resolver.failure_furthest`), whatever has been asked before. What an argument alone fails
with may be asked of any resolver over the same registry.
-/

namespace ShapeFit.Resolver

/-- A composite can not be resolved because its target is unknown, because no constructor of
it takes as many arguments, or because each that does rejects one of them. Then the failure
of the earliest of the candidates that get furthest is told. -/
theorem failure_furthest (registry : Registry) (w caching caching' : Bool)
    (history history' : List Request) {c : Composite} {f : Failure}
    (h : (((⟨registry, caching, .empty⟩ : Resolver).after history).resolve c w).result =
      .error f) :
    (registry.find? c.target = none → f = (Mismatch.unknownType c.target).here) ∧
    ∀ d candidates, registry.find? c.target = some d →
      candidates = d.constructors.filter (fun k => k.params.length = c.args.length) →
      (candidates = [] →
        ∃ available, f = (Mismatch.arity c.target c.args.length available).here ∧
          FirstOccurrences (d.constructors.map fun k => k.params.length) available) ∧
      (candidates ≠ [] →
        ∃ position path cause,
          f = (Mismatch.noCandidate c.target c.args.length candidates.length position path
            cause).here ∧
          Furthest
            (fun s x =>
              (((⟨registry, caching', .empty⟩ : Resolver).after history').apply s x w).result)
            c.args candidates position ⟨cause, path⟩) := by
  simp only [result_resolve_after, result_apply_after] at h ⊢
  obtain ⟨hunknown, hknown⟩ := Plain.furthest_of_composite_error h
  refine ⟨hunknown, fun d candidates hd hcandidates => ?_⟩
  rw [hcandidates, ← Candidate.of_eq_filter]
  exact hknown d hd

/-- A type with three constructors of two parameters, of which the last two agree in the
first one. -/
def overloaded : Registry where
  types := [TypeDescriptor.ofName ⟨"Pair"⟩
    |>.declare [⟨"a", .prim .string⟩, ⟨"b", .prim .int⟩]
    |>.declare [⟨"a", .prim .int⟩, ⟨"b", .array (.prim .int)⟩]
    |>.declare [⟨"a", .prim .int⟩, ⟨"b", .prim .boolean⟩]
    |>.declare [⟨"a", .prim .int⟩]]
  nodup_names := by decide

/-- Two of the candidates get to the second argument, and the earlier one is told. -/
theorem failure_furthest_tied :
    ((ofRegistry overloaded).resolve ⟨⟨"Pair"⟩, [⟨"n", .prim .int⟩, ⟨"m", .list (.prim .long)⟩]⟩
        false).result =
      .error (Mismatch.noCandidate ⟨"Pair"⟩ 2 3 1 [.argument 1 "m", .element]
        (.primitive .long .int false)).here ∧
    ∃ d, overloaded.find? ⟨"Pair"⟩ = some d ∧
      Furthest (fun s x => ((uncached overloaded).apply s x false).result)
        [⟨"n", .prim .int⟩, ⟨"m", .list (.prim .long)⟩]
        (d.constructors.filter fun k => k.params.length = 2)
        1 ⟨.primitive .long .int false, [.argument 1 "m", .element]⟩ := by
  have h : ((ofRegistry overloaded).resolve
        ⟨⟨"Pair"⟩, [⟨"n", .prim .int⟩, ⟨"m", .list (.prim .long)⟩]⟩ false).result =
      .error (Mismatch.noCandidate ⟨"Pair"⟩ 2 3 1 [.argument 1 "m", .element]
        (.primitive .long .int false)).here := by cbv
  obtain ⟨-, hknown⟩ := failure_furthest overloaded false true false [] [] h
  obtain ⟨d, hd⟩ : ∃ d, overloaded.find? ⟨"Pair"⟩ = some d := ⟨_, rfl⟩
  obtain ⟨-, hrejected⟩ := hknown d _ hd rfl
  obtain ⟨position, path, cause, hf, hfurthest⟩ := hrejected (by cases hd; decide)
  simp only [Mismatch.here, Failure.mk.injEq, Mismatch.noCandidate.injEq, and_true, true_and] at hf
  obtain ⟨-, -, rfl, rfl, rfl⟩ := hf
  exact ⟨h, d, hd, hfurthest⟩

end ShapeFit.Resolver
