import ShapeFit.Fit
import ShapeFit.Resolver.Cache

/-!
# ShapeFit.Resolver

Fitting over a registry, with the resolutions of earlier attempts remembered.

An attempt that succeeds adds the resolutions of all composites that it went
through; one that fails adds none. Its lookups are counted either way. A resolver
may also be set to remember nothing, and then neither looks up nor counts.
-/

namespace ShapeFit

/-- A registry with what has been resolved over it so far. -/
structure Resolver where
  registry : Registry
  /-- Whether attempts use and fill the cache. -/
  caching : Bool
  cache : Cache

/-- What comes of an attempt: its result, the types whose constructors were asked
for, in order, and the resolver afterwards. -/
structure Outcome (α : Type) where
  result : Except Failure α
  consulted : List TypeName
  resolver : Resolver

namespace Resolver

/-- A resolver over a registry with an empty cache. It remembers what it resolves. -/
def ofRegistry (registry : Registry) : Resolver := ⟨registry, true, .empty⟩

/-- A resolver over a registry that remembers nothing. -/
def uncached (registry : Registry) : Resolver := ⟨registry, false, .empty⟩

/-- What an attempt may use. -/
def context (r : Resolver) (widening : Bool) : Context where
  registry := r.registry
  widening := widening
  memo? := if r.caching then some (r.cache.table widening) else none

/-- Runs an attempt to its end and takes up what it leaves behind. -/
def attempt {α : Type} (r : Resolver) (widening : Bool) (x : Context → Attempt Failure α) :
    Outcome α :=
  let (result, session) := (x (r.context widening)).run .empty
  let counted := r.cache.countEvents session.events
  { result := result
    consulted := session.consulted
    resolver :=
      { r with
        cache := match result with
          | .ok _ => counted.commit widening session.staged
          | .error _ => counted } }

/-! ## Attempts -/

/-- Fits a signature to a shape. -/
def apply (r : Resolver) (s : Signature) (subject : Shape) (widening : Bool) : Outcome Signature :=
  r.attempt widening fun ctx => Fit.signature ctx s subject

/-- Chooses a constructor of a composite's target type. -/
def resolve (r : Resolver) (c : Composite) (widening : Bool) : Outcome Resolution :=
  r.attempt widening fun ctx => Fit.composite ctx c

/-- Chooses a constructor for a shape. The shape has to be an object of the
composite's target type, or nothing is tried. -/
def resolveFor (r : Resolver) (c : Composite) (subject : Shape) (widening : Bool) :
    Outcome Resolution :=
  if subject = .object c.target then r.resolve c widening
  else ⟨.error (Mismatch.shape ("an object of type `" ++ c.target.text ++ "`") subject).here, [], r⟩

end Resolver

end ShapeFit
