import ShapeFit.Fit.Table

/-!
# ShapeFit.Fit.Session

The state of one attempt to fit a signature.

Within an attempt, the resolutions found so far are staged, so that a composite
that occurs again is not resolved again. They are kept when a candidate is
rejected; only an attempt that succeeds as a whole hands them on. The session also
records, in order, each counted lookup among the resolutions known before and each
type whose constructors were asked for.
-/

namespace ShapeFit

/-- Something that an attempt did besides computing. -/
inductive Event where
  /-- A composite was found among the resolutions known before. -/
  | hit (c : Composite)
  /-- A composite was looked for there and not found. -/
  | miss (c : Composite)
  /-- The constructors of a type were asked for. -/
  | consult (t : TypeName)
deriving DecidableEq

/-- What an attempt has done so far. The latest entries come first. -/
structure Session where
  staged : Table
  log : List Event
deriving DecidableEq

namespace Session

/-- The session at the start of an attempt. -/
def empty : Session := ⟨.empty, []⟩

/-- Records an event. -/
def record (s : Session) (e : Event) : Session := { s with log := e :: s.log }

/-- Stages a resolution. -/
def stage (s : Session) (c : Composite) (r : Resolution) : Session :=
  { s with staged := s.staged.insert c r }

/-- The events in the order in which they happened. -/
def events (s : Session) : List Event := s.log.reverse

/-- The types whose constructors were asked for, in order. -/
def consulted (s : Session) : List TypeName :=
  s.events.filterMap fun
    | .consult t => some t
    | .hit _ | .miss _ => none

end Session

end ShapeFit
