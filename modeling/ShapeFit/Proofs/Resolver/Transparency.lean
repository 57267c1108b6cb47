import ShapeFit.Proofs.Resolver.Step

/-!
# ShapeFit.Proofs.Resolver.Transparency

Remembering resolutions changes no answer.

Whatever a resolver has been asked before, and whatever it has forgotten since, it
answers as one that remembers nothing (`caching_transparent`): with the same signature,
the same constructor, or the same failure down to its innermost cause.
-/

namespace ShapeFit.Resolver

/-- Faithful resolvers over one registry answer alike, whether they remember or not. -/
theorem reply_perform_eq {r r' : Resolver} (h : r.Faithful) (h' : r'.Faithful)
    (hregistry : r.registry = r'.registry) {q : Request} (hq : q.attempted?.isSome = true) :
    (r.perform q).reply = (r'.perform q).reply := by
  obtain ⟨⟨s, w⟩, hsw⟩ := Option.isSome_iff_exists.mp hq
  obtain ⟨hreply, -⟩ := perform_attempted h hsw
  obtain ⟨hreply', -⟩ := perform_attempted h' hsw
  rw [hregistry, hreply'] at hreply
  exact (Option.some.inj hreply).symm

/-- After any history of requests to a resolver that remembers, every request to fit a
signature is answered as by a fresh resolver that does not, and every resolution that is
remembered is the one that such a resolver finds. -/
theorem caching_transparent (registry : Registry) (history : List Request) :
    (∀ q : Request, q.attempted?.isSome = true →
      (((ofRegistry registry).after history).perform q).reply =
        ((uncached registry).perform q).reply) ∧
    ∀ c w res, ((ofRegistry registry).after history).cache.peek c w = some res →
      ((uncached registry).resolve c w).result = .ok res := by
  obtain ⟨hfaithful, hregistry, -⟩ := faithful_after_ofRegistry registry history
  constructor
  · intro q hq
    exact reply_perform_eq hfaithful (faithful_uncached registry) hregistry hq
  · intro c w res hpeek
    have hplain := (hfaithful.table w).sound c res hpeek
    rw [hregistry] at hplain
    rw [(resolve_spec (faithful_uncached registry) c w).1]
    exact hplain

end ShapeFit.Resolver
