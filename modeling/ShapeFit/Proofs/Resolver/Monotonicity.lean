import ShapeFit.Proofs.Fit.Filling
import ShapeFit.Proofs.Fit.Monotonicity
import ShapeFit.Proofs.Resolver.Decision

/-!
# ShapeFit.Proofs.Resolver.Monotonicity

Allowing widening breaks no match (`Resolver.widening_keeps_matches`), and neither does
registering more types or more constructors after those of a type
(`Resolver.extension_keeps_matches`). Another constructor may be chosen than before, but
none that is declared later.
-/

namespace ShapeFit.Resolver

/-- Whatever resolvers over one registry have been asked before: what one fits without
widening, the other fits with it, and what one resolves without, the other resolves with it
by a constructor that is declared no later. The results are the same if nothing was open. -/
theorem widening_keeps_matches (registry : Registry) (caching caching' : Bool)
    (history history' : List Request) :
    (∀ s x t,
      (((⟨registry, caching, .empty⟩ : Resolver).after history).apply s x false).result = .ok t →
      ∃ t',
        (((⟨registry, caching', .empty⟩ : Resolver).after history').apply s x true).result =
          .ok t' ∧
        (s.isResolved = true → t' = t)) ∧
    ∀ c res,
      (((⟨registry, caching, .empty⟩ : Resolver).after history).resolve c false).result =
        .ok res →
      ∃ res',
        (((⟨registry, caching', .empty⟩ : Resolver).after history').resolve c true).result =
          .ok res' ∧
        res'.constructor.index ≤ res.constructor.index ∧
        (c.toSignature.isResolved = true → res'.signature = res.signature) := by
  have hr := Registry.ExtendedBy.refl registry
  have hw : false = true → true = true := nofun
  simp only [result_apply_after_eq_ok_iff, result_resolve_after]
  constructor
  · intro s x t h
    obtain ⟨t', h'⟩ := h.mono hr hw
    have hsame : s.isResolved = true → t' = t := fun hs => by
      rw [h.eq_of_isResolved hs, h'.eq_of_isResolved hs]
    exact ⟨t', h', hsame⟩
  · intro c res h
    obtain ⟨res', h', hle⟩ := Plain.composite_mono hr hw h
    have hsame : c.toSignature.isResolved = true → res'.signature = res.signature := fun hc => by
      rw [Plain.eq_of_composite_isResolved h hc, Plain.eq_of_composite_isResolved h' hc]
    exact ⟨res', h', hle, hsame⟩

/-- A type with a constructor that takes more where widening is allowed. -/
def numbered : Registry where
  types := [TypeDescriptor.ofName ⟨"Tag"⟩
    |>.declare [⟨"number", .prim .long⟩]
    |>.declare [⟨"number", .prim .int⟩]]
  nodup_names := by decide

/-- A composite of that type, of which nothing is open. -/
def tag : Composite := ⟨⟨"Tag"⟩, [⟨"n", .prim .int⟩]⟩

/-- The second constructor is chosen without widening, and another one may be with it. -/
theorem widening_keeps_matches_tag :
    ((ofRegistry numbered).resolve tag false).result =
        .ok ⟨⟨1, [⟨"number", .prim .int⟩]⟩, tag⟩ ∧
      ∃ res, ((ofRegistry numbered).resolve tag true).result = .ok res ∧
        res.constructor.index ≤ 1 ∧ res.signature = tag := by
  have h : ((ofRegistry numbered).resolve tag false).result =
      .ok ⟨⟨1, [⟨"number", .prim .int⟩]⟩, tag⟩ := by cbv
  obtain ⟨res, hres, hle, hsame⟩ :=
    (widening_keeps_matches numbered true true [] []).2 tag _ h
  exact ⟨h, res, hres, hle, hsame rfl⟩

/-- It is the first one, whose parameter takes the argument only if it is widened. -/
example : ((ofRegistry numbered).resolve tag true).result =
    .ok ⟨⟨0, [⟨"number", .prim .long⟩]⟩, tag⟩ := by cbv

/-- Whatever resolvers over a registry and over an extension of it have been asked before:
what the first fits, the second fits, and what the first resolves, the second resolves by a
constructor that is declared no later. An open slot becomes the same. -/
theorem extension_keeps_matches {registry registry' : Registry}
    (hextended : registry.ExtendedBy registry') (w caching caching' : Bool)
    (history history' : List Request) :
    (∀ s x t,
      (((⟨registry, caching, .empty⟩ : Resolver).after history).apply s x w).result = .ok t →
      ∃ t',
        (((⟨registry', caching', .empty⟩ : Resolver).after history').apply s x w).result =
          .ok t') ∧
    (∀ c res,
      (((⟨registry, caching, .empty⟩ : Resolver).after history).resolve c w).result = .ok res →
      ∃ res',
        (((⟨registry', caching', .empty⟩ : Resolver).after history').resolve c w).result =
          .ok res' ∧
        res'.constructor.index ≤ res.constructor.index) ∧
    ∀ x t,
      (((⟨registry, caching, .empty⟩ : Resolver).after history).apply .wildcard x w).result =
        .ok t →
      (((⟨registry', caching', .empty⟩ : Resolver).after history').apply .wildcard x w).result =
        .ok t := by
  simp only [result_apply_after_eq_ok_iff, result_resolve_after]
  have hfits : ∀ s x t, Fits registry w s x t → ∃ t', Fits registry' w s x t' :=
    fun _ _ _ h => h.mono hextended id
  have hresolves : ∀ c res, Plain.composite registry w c = .ok res →
      ∃ res', Plain.composite registry' w c = .ok res' ∧
        res'.constructor.index ≤ res.constructor.index :=
    fun _ _ h => Plain.composite_mono hextended id h
  have hslots : ∀ x t, Fits registry w .wildcard x t → Fits registry' w .wildcard x t :=
    fun _ _ h => Expands.mono hextended h
  exact ⟨hfits, hresolves, hslots⟩

/-- A type whose first constructor takes an object that nothing is known of. -/
def sealed : Registry where
  types := [TypeDescriptor.ofName ⟨"Box"⟩
    |>.declare [⟨"content", .object ⟨"Secret"⟩⟩]
    |>.declare [⟨"content", .prim .int⟩]]
  nodup_names := by decide

/-- The type of that object. -/
def secret : TypeDescriptor := TypeDescriptor.ofName ⟨"Secret"⟩ |>.declare []

/-- A composite of the first type, with its argument open. -/
def box : Composite := ⟨⟨"Box"⟩, [⟨"content", .wildcard⟩]⟩

/-- The second constructor is chosen while the object's type is unknown. Once it is
registered, a constructor is chosen still. -/
theorem extension_keeps_matches_sealed :
    sealed.ExtendedBy (sealed.insert secret) ∧
      ((ofRegistry sealed).resolve box false).result =
        .ok ⟨⟨1, [⟨"content", .prim .int⟩]⟩, ⟨⟨"Box"⟩, [⟨"content", .prim .int⟩]⟩⟩ ∧
      ∃ res, ((ofRegistry (sealed.insert secret)).resolve box false).result = .ok res ∧
        res.constructor.index ≤ 1 := by
  have hextended : sealed.ExtendedBy (sealed.insert secret) := .insert nofun
  have h : ((ofRegistry sealed).resolve box false).result =
      .ok ⟨⟨1, [⟨"content", .prim .int⟩]⟩, ⟨⟨"Box"⟩, [⟨"content", .prim .int⟩]⟩⟩ := by cbv
  obtain ⟨-, hresolve, -⟩ := extension_keeps_matches hextended false true true [] []
  obtain ⟨res, hres, hle⟩ := hresolve box _ h
  exact ⟨hextended, h, res, hres, hle⟩

/-- It is the first one, and the argument becomes another signature than before. -/
example : ((ofRegistry (sealed.insert secret)).resolve box false).result =
    .ok ⟨⟨0, [⟨"content", .object ⟨"Secret"⟩⟩]⟩,
      ⟨⟨"Box"⟩, [⟨"content", .composite ⟨"Secret"⟩ []⟩]⟩⟩ := by cbv

end ShapeFit.Resolver
