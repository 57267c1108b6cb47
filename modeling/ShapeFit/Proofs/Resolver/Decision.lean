import ShapeFit.Proofs.Fit.Rules
import ShapeFit.Proofs.Resolver.Step

/-!
# ShapeFit.Proofs.Resolver.Decision

Resolvers decide the rules of fitting, whatever they were asked before
(`Resolver.result_iff_rules`).
-/

namespace ShapeFit

/-- A signature becomes at most one signature at a shape. -/
theorem Fits.unique {r : Registry} {w : Bool} {s : Signature} {x : Shape} {t t' : Signature}
    (h : Fits r w s x t) (h' : Fits r w s x t') : t = t' := by
  rw [← Plain.signature_eq_ok_iff] at h h'
  rw [h] at h'
  exact Except.ok.inj h'

namespace Resolver

/-- After any history, a signature becomes what the rules derive for it. -/
theorem result_apply_after_eq_ok_iff {registry : Registry} {caching : Bool}
    {history : List Request} {s t : Signature} {x : Shape} {w : Bool} :
    (((⟨registry, caching, .empty⟩ : Resolver).after history).apply s x w).result = .ok t ↔
      Fits registry w s x t := by
  rw [result_apply_after]
  exact Plain.signature_eq_ok_iff

/-- After any history, a resolver fits a signature exactly if the rules derive what it
becomes, which is one signature at most. It resolves a composite exactly to the first
declared constructor that takes the arguments, with what they become. -/
theorem result_iff_rules (registry : Registry) (caching : Bool) (history : List Request)
    (w : Bool) :
    (∀ s x t,
      (((⟨registry, caching, .empty⟩ : Resolver).after history).apply s x w).result = .ok t ↔
        Fits registry w s x t) ∧
    (∀ s x t t', Fits registry w s x t → Fits registry w s x t' → t = t') ∧
    ∀ c res,
      (((⟨registry, caching, .empty⟩ : Resolver).after history).resolve c w).result = .ok res ↔
        res.signature.target = c.target ∧
          Selects registry c.target c.arity (FitsArgs registry w c.args)
            (Rejects registry w c.args) res.constructor res.signature.args := by
  obtain ⟨hfaithful, hregistry, -⟩ := faithful_after (faithful_empty registry caching) history
  refine ⟨?_, ?_, ?_⟩
  · intro s x t
    rw [(apply_spec hfaithful s x w).1, hregistry]
    exact Plain.signature_eq_ok_iff
  · intro s x t t' h h'
    exact h.unique h'
  · intro c res
    rw [(resolve_spec hfaithful c w).1, hregistry]
    exact Plain.composite_eq_ok_iff

end Resolver

end ShapeFit
