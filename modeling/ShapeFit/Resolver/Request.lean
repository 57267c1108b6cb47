import ShapeFit.Resolver

/-!
# ShapeFit.Resolver.Request

Everything that a resolver can be asked for, as data, so that whole histories of a
resolver can be written down (`Resolver.perform`, `Resolver.after`).
-/

namespace ShapeFit

/-- Something to ask of a resolver. -/
inductive Request where
  /-- Fit a signature to a shape. -/
  | apply (s : Signature) (subject : Shape) (widening : Bool)
  /-- Tell whether a signature fits a shape. -/
  | fits (s : Signature) (subject : Shape) (widening : Bool)
  /-- Choose a constructor. -/
  | resolve (c : Composite) (widening : Bool)
  /-- Choose a constructor for a shape. -/
  | resolveFor (c : Composite) (subject : Shape) (widening : Bool)
  /-- Look up a remembered resolution and count the lookup. -/
  | get (c : Composite) (widening : Bool)
  /-- Look up a remembered resolution. -/
  | peek (c : Composite) (widening : Bool)
  /-- Tell whether a resolution is remembered. -/
  | contains (c : Composite) (widening : Bool)
  /-- Forget every resolution. -/
  | clear
deriving DecidableEq

/-- What is answered to a request. -/
inductive Reply where
  | applied (result : Except Failure Signature)
  | fits (yes : Bool)
  | resolved (result : Except Failure Resolution)
  | found (resolution? : Option Resolution)
  | contained (yes : Bool)
  | cleared

/-- A reply, the types whose constructors were asked for on the way, in order, and
the resolver afterwards. -/
structure Response where
  reply : Reply
  consulted : List TypeName
  resolver : Resolver

/-- The outcome of an attempt as a response. -/
def Outcome.respond {α : Type} (o : Outcome α) (reply : Except Failure α → Reply) : Response :=
  ⟨reply o.result, o.consulted, o.resolver⟩

namespace Resolver

/-- Carries out a request. -/
def perform (r : Resolver) : Request → Response
  | .apply s subject widening => (r.apply s subject widening).respond .applied
  | .fits s subject widening => (r.apply s subject widening).respond fun result => .fits result.isOk
  | .resolve c widening => (r.resolve c widening).respond .resolved
  | .resolveFor c subject widening => (r.resolveFor c subject widening).respond .resolved
  | .get c widening =>
    let (found, cache) := r.cache.get c widening
    ⟨.found found, [], { r with cache := cache }⟩
  | .peek c widening => ⟨.found (r.cache.peek c widening), [], r⟩
  | .contains c widening => ⟨.contained (r.cache.contains c widening), [], r⟩
  | .clear => ⟨.cleared, [], { r with cache := r.cache.clear }⟩

/-- The resolver after a history of requests. -/
def after (r : Resolver) (requests : List Request) : Resolver :=
  requests.foldl (fun r q => (r.perform q).resolver) r

end Resolver

end ShapeFit
