import ShapeFit.Fit.Failure
import ShapeFit.Fit.Session

/-!
# ShapeFit.Fit.Attempt

Attempts: computations that may fail and that leave their traces in a session
either way.

What an attempt did before it failed stays in the session, so a later candidate
can use what an earlier one has staged. An attempt is `ExceptT ε (StateM Session)`
written as one function, so what each way of putting attempts together does to a
session holds by definition (`bind_apply`, `recover_apply` and so on).
-/

namespace ShapeFit

/-- A computation with results in `α` and failures in `ε`: from the session before
it to its result and the session after it. -/
def Attempt (ε α : Type) : Type := Session → Except ε α × Session

namespace Attempt

variable {ε ε' α β : Type}

/-- Runs an attempt in a session. -/
def run (x : Attempt ε α) (s : Session) : Except ε α × Session := x s

/-- Succeeds at once. -/
protected def pure (a : α) : Attempt ε α := fun s => (.ok a, s)

/-- Goes on with the result of an attempt. A failure ends both. -/
protected def bind (x : Attempt ε α) (f : α → Attempt ε β) : Attempt ε β := fun s =>
  match x s with
  | (.ok a, t) => f a t
  | (.error e, t) => (.error e, t)

instance : Monad (Attempt ε) where
  pure := Attempt.pure
  bind := Attempt.bind

instance : LawfulMonad (Attempt ε) := LawfulMonad.mk' (Attempt ε)
  (fun x => funext fun s => by
    change Attempt.bind x Attempt.pure s = x s
    unfold Attempt.bind
    rcases x s with ⟨_ | _, t⟩ <;> rfl)
  (fun a f => rfl)
  (fun x f g => funext fun s => by
    change Attempt.bind (Attempt.bind x f) g s = Attempt.bind x (fun a => Attempt.bind (f a) g) s
    simp only [Attempt.bind]
    rcases x s with ⟨_ | _, t⟩ <;> rfl)

/-- Fails at once. -/
def fail (e : ε) : Attempt ε α := fun s => (.error e, s)

/-- The attempt with a result that is known already. -/
def ofExcept : Except ε α → Attempt ε α
  | .ok a => .pure a
  | .error e => fail e

/-- Goes on after a failure, in the session that it has left. -/
def recover (x : Attempt ε α) (handle : ε → Attempt ε' α) : Attempt ε' α := fun s =>
  match x s with
  | (.ok a, t) => (.ok a, t)
  | (.error e, t) => handle e t

/-- Tells failures in another way. -/
def mapFailure (f : ε → ε') (x : Attempt ε α) : Attempt ε' α := x.recover fun e => fail (f e)

/-- Makes an attempt one step further in: its failure is seen from here. -/
def within (seg : Segment) (x : Attempt Failure α) : Attempt Failure α :=
  x.mapFailure (Failure.within seg)

/-- Records an event. -/
def record (e : Event) : Attempt ε Unit := fun s => (.ok (), s.record e)

/-- Stages a resolution. -/
def stage (c : Composite) (r : Resolution) : Attempt ε Unit := fun s => (.ok (), s.stage c r)

/-- The staged resolution of a composite. -/
def staged? (c : Composite) : Attempt ε (Option Resolution) := fun s => (.ok (s.staged.find? c), s)

/-! ## What attempts do to a session -/

theorem pure_apply (a : α) (s : Session) : (pure a : Attempt ε α).run s = (.ok a, s) := rfl

theorem fail_apply (e : ε) (s : Session) : (fail e : Attempt ε α).run s = (.error e, s) := rfl

theorem bind_apply (x : Attempt ε α) (f : α → Attempt ε β) (s : Session) :
    (x >>= f).run s =
      match x.run s with
      | (.ok a, t) => (f a).run t
      | (.error e, t) => (.error e, t) := rfl

theorem recover_apply (x : Attempt ε α) (handle : ε → Attempt ε' α) (s : Session) :
    (x.recover handle).run s =
      match x.run s with
      | (.ok a, t) => (.ok a, t)
      | (.error e, t) => (handle e).run t := rfl

theorem mapFailure_apply (f : ε → ε') (x : Attempt ε α) (s : Session) :
    (x.mapFailure f).run s = ((x.run s).1.mapError f, (x.run s).2) := by
  rw [mapFailure, recover_apply]
  rcases x.run s with ⟨_ | _, t⟩ <;> rfl

theorem within_apply (seg : Segment) (x : Attempt Failure α) (s : Session) :
    (within seg x).run s = ((x.run s).1.mapError (Failure.within seg), (x.run s).2) :=
  mapFailure_apply ..

theorem record_apply (e : Event) (s : Session) :
    (record e : Attempt ε Unit).run s = (.ok (), s.record e) := rfl

theorem stage_apply (c : Composite) (r : Resolution) (s : Session) :
    (stage c r : Attempt ε Unit).run s = (.ok (), s.stage c r) := rfl

theorem staged?_apply (c : Composite) (s : Session) :
    (staged? c : Attempt ε _).run s = (.ok (s.staged.find? c), s) := rfl

end Attempt

end ShapeFit
