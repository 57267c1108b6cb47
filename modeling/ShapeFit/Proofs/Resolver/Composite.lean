import ShapeFit.Resolver

/-!
# ShapeFit.Proofs.Resolver.Composite

Two ways to ask for a composite.

A composite can be fitted to a shape as a signature, or a constructor can be chosen
for it there. Both look at the shape first, and both do the same from there on: the
signature that the one comes to is that of the resolution that the other comes to, and
they ask, look up, count and remember the same (`Resolver.apply_toSignature`).
-/

namespace ShapeFit

variable {α β : Type}

/-- An outcome with another value in place of its own. -/
def Outcome.map (f : α → β) (o : Outcome α) : Outcome β := ⟨f <$> o.result, o.consulted, o.resolver⟩

/-- Mapping the value of an attempt leaves its session alone. -/
theorem Attempt.map_apply {ε : Type} (f : α → β) (x : Attempt ε α) (s : Session) :
    (f <$> x).run s = (f <$> (x.run s).1, (x.run s).2) := by
  rw [← bind_pure_comp, bind_apply]
  rcases x.run s with ⟨_ | _, t⟩ <;> rfl

/-- Fitting a composite to an object of its target type resolves it. -/
theorem Fit.signature_toSignature (ctx : Context) (c : Composite) :
    Fit.signature ctx c.toSignature (.object c.target) =
      (fun res => res.signature.toSignature) <$> Fit.composite ctx c := by
  rw [Composite.toSignature, Fit.signature, if_pos rfl]
  rfl

namespace Resolver

/-- Mapping the value of an attempt changes nothing else of its outcome. -/
theorem attempt_map (r : Resolver) (w : Bool) (x : Context → Attempt Failure α) (f : α → β) :
    r.attempt w (fun ctx => f <$> x ctx) = (r.attempt w x).map f := by
  simp only [attempt, Attempt.map_apply, Outcome.map]
  rcases (x (r.context w)).run .empty with ⟨_ | _, t⟩ <;> rfl

/-- An attempt that fails at once leaves the resolver as it is. -/
theorem attempt_fail (r : Resolver) (w : Bool) (f : Failure) :
    r.attempt w (fun _ => (Attempt.fail f : Attempt Failure α)) = ⟨.error f, [], r⟩ := rfl

/-- Fitting a composite to a shape that is no object of its target type fails at once. -/
theorem apply_toSignature_of_ne (r : Resolver) (c : Composite) {x : Shape} (w : Bool)
    (hx : x ≠ .object c.target) :
    r.apply c.toSignature x w =
      ⟨.error (Mismatch.shape ("an object of type `" ++ c.target.text ++ "`") x).here, [], r⟩ := by
  have hfit : ∀ ctx, Fit.signature ctx c.toSignature x =
      Attempt.fail (Mismatch.shape ("an object of type `" ++ c.target.text ++ "`") x).here :=
    fun ctx => by
      rw [Composite.toSignature, Fit.signature, if_neg hx]
      rfl
  rw [apply, funext hfit]
  exact attempt_fail r w _

/-- A resolver in whatever state fits a composite to a shape as it chooses a constructor for
it there: with the signature of the resolution or the same failure, after the same types have
been asked for, and with the same resolver left behind. A shape that is no object of the
target type is refused by both as a shape where such an object was expected, and nothing is
touched. -/
theorem apply_toSignature (r : Resolver) (c : Composite) (x : Shape) (w : Bool) :
    r.apply c.toSignature x w =
        (r.resolveFor c x w).map (fun res => res.signature.toSignature) ∧
      (x ≠ .object c.target →
        r.resolveFor c x w =
            ⟨.error (Mismatch.shape ("an object of type `" ++ c.target.text ++ "`") x).here, [],
              r⟩ ∧
          r.apply c.toSignature x w =
            ⟨.error (Mismatch.shape ("an object of type `" ++ c.target.text ++ "`") x).here, [],
              r⟩) := by
  by_cases hx : x = .object c.target
  · refine ⟨?_, fun hne => absurd hx hne⟩
    rw [resolveFor, if_pos hx, hx, apply, funext fun ctx => Fit.signature_toSignature ctx c]
    exact attempt_map r w _ _
  · have hresolve : r.resolveFor c x w =
        ⟨.error (Mismatch.shape ("an object of type `" ++ c.target.text ++ "`") x).here, [], r⟩ := by
      rw [resolveFor, if_neg hx]
    have hfit := apply_toSignature_of_ne r c w hx
    refine ⟨?_, fun _ => ⟨hresolve, hfit⟩⟩
    rw [hfit, hresolve]
    rfl

end Resolver

end ShapeFit
