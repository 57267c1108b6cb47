import ShapeFit.Fit.Candidate
import ShapeFit.Fit.Expansion

/-!
# ShapeFit.Fit

Fitting a signature to a shape.

* A primitive fits a primitive of its own kind and, if widening is allowed, of the
  kinds that its own kind widens to. It stays as it is.
* A list fits an array or a sequence whose elements its own element fits.
* A composite fits an object of its target type if some constructor of that type
  accepts the arguments. They are fitted to the parameters of the first that does.
* An open slot fits every shape that can be expanded, and becomes the signature of
  that shape.

Nothing else fits. With a memo, a composite that is staged or known is not
resolved again; the result is the same.
-/

namespace ShapeFit

/-- What an attempt may use: the known types, whether widening is allowed, and the
resolutions known before, if resolutions are remembered at all. -/
structure Context where
  registry : Registry
  widening : Bool
  memo? : Option Table

namespace Fit

/-- The failure of a shape of another structure than the signature's. -/
def shapeFailure (expected : String) (found : Shape) : Failure :=
  (Mismatch.shape expected found).here

/-- Fits a primitive kind. -/
def prim (widening : Bool) (k : Prim) : Shape → Except Failure Signature
  | .prim found =>
    if k = found || (widening && k.widens found) then .ok (.prim k)
    else .error (Mismatch.primitive k found widening).here
  | shape => .error (shapeFailure ("`" ++ k.name ++ "`") shape)

/-- The failure of a composite at a shape that is no object of its target type. -/
def targetFailure (target : TypeName) (found : Shape) : Failure :=
  shapeFailure ("an object of type `" ++ target.text ++ "`") found

/-- Resolves a composite by `select`, unless it is staged or known. A staged
composite is not looked up among the known ones. -/
def remember (memo? : Option Table) (c : Composite) (select : Attempt Failure Resolution) :
    Attempt Failure Resolution :=
  match memo? with
  | none => select
  | some table => do
    match ← Attempt.staged? c with
    | some r => return r
    | none =>
      match table.find? c with
      | some r =>
        Attempt.record (.hit c)
        return r
      | none =>
        Attempt.record (.miss c)
        let r ← select
        Attempt.stage c r
        return r

mutual
/-- Fits a signature to a shape: the signature with its open slots filled. -/
def signature (ctx : Context) : Signature → Shape → Attempt Failure Signature
  | .prim k, subject => Attempt.ofExcept (prim ctx.widening k subject)
  | .list e, subject =>
    match subject.element? with
    | some x => return .list (← Attempt.within .element (signature ctx e x))
    | none => Attempt.fail (shapeFailure (Signature.list e).describe subject)
  | .composite t as, subject =>
    if subject = .object t then do
      let r ← remember ctx.memo? ⟨t, as⟩
        (Candidate.select ctx.registry ⟨t, as⟩ fun ps => args ctx 0 as ps)
      return r.signature.toSignature
    else Attempt.fail (targetFailure t subject)
  | .wildcard, subject => expand ctx.registry subject

/-- Fits arguments to parameters one by one, the first pair having the position
`position`. -/
def args (ctx : Context) (position : Nat) :
    List (Named Signature) → List Param → Attempt Rejection (List Arg)
  | ⟨n, s⟩ :: as, p :: ps => do
    let r ← (signature ctx s p.val).mapFailure fun f =>
      ⟨position, f.within (.argument position n)⟩
    return ⟨n, r⟩ :: (← args ctx (position + 1) as ps)
  | _, _ => return []
end

/-- Resolves a composite against its target type. -/
def composite (ctx : Context) (c : Composite) : Attempt Failure Resolution :=
  remember ctx.memo? c (Candidate.select ctx.registry c fun ps => args ctx 0 c.args ps)

end Fit

end ShapeFit
