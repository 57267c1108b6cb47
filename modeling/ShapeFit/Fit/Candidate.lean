import ShapeFit.Fit.Attempt

/-!
# ShapeFit.Fit.Candidate

Choosing a constructor for a composite.

The candidates are the constructors with as many parameters as the composite has
arguments. They are tried in declaration order and the first that accepts every
argument is chosen, however well a later one would fit. If none does, the
rejection that got furthest is reported (`furthest`).
-/

namespace ShapeFit

/-- Why a candidate was rejected: the position of the first argument that it does
not accept, and the failure there, seen from the composite. -/
structure Rejection where
  position : Nat
  cause : Failure
deriving DecidableEq

namespace Rejection

/-- The rejection with the highest position, the earliest of those that share it. -/
def furthest : List Rejection → Option Rejection
  | [] => none
  | r :: rs =>
    match furthest rs with
    | none => some r
    | some s => if r.position < s.position then some s else some r

theorem furthest_eq_none_iff {rs : List Rejection} : furthest rs = none ↔ rs = [] := by
  cases rs with
  | nil => simp [furthest]
  | cons r rs =>
    simp only [furthest, reduceCtorEq, iff_false]
    split
    · nofun
    · split <;> nofun

theorem mem_of_furthest {rs : List Rejection} {r : Rejection} (h : furthest rs = some r) :
    r ∈ rs := by
  induction rs with
  | nil => cases h
  | cons a rs ih =>
    simp only [furthest] at h
    split at h
    · cases h
      exact List.mem_cons_self
    · next b hb =>
      split at h <;> cases h
      · exact List.mem_cons_of_mem _ (ih hb)
      · exact List.mem_cons_self

/-- No rejection got further than the one reported. -/
theorem position_le_of_furthest {rs : List Rejection} {r : Rejection} (h : furthest rs = some r) :
    ∀ s ∈ rs, s.position ≤ r.position := by
  induction rs generalizing r with
  | nil => cases h
  | cons a rs ih =>
    simp only [furthest] at h
    split at h
    · next hn =>
      cases h
      simp [furthest_eq_none_iff.1 hn]
    · next b hb =>
      have hle := ih hb
      split at h <;> cases h <;> rw [List.forall_mem_cons]
      · next hlt => exact ⟨Nat.le_of_lt hlt, hle⟩
      · next hnlt => exact ⟨Nat.le_refl _, fun s hs => by have := hle s hs; omega⟩

end Rejection

namespace Candidate

/-- The constructors with as many parameters as the composite has arguments. -/
def of (c : Composite) (constructors : List Constructor) : List Constructor :=
  constructors.filter (·.arity == c.arity)

theorem of_eq_filter (c : Composite) (constructors : List Constructor) :
    of c constructors = constructors.filter fun k => k.params.length = c.args.length := rfl

/-- Tries candidates in order. The result is the first one accepted, with the
arguments it was accepted with; the failure is the rejections of all. -/
def firstAccepted (accept : List Param → Attempt Rejection (List Arg)) :
    List Constructor → Attempt (List Rejection) (Constructor × List Arg)
  | [] => Attempt.fail []
  | k :: ks =>
    ((k, ·) <$> accept k.params).recover fun r => (firstAccepted accept ks).mapFailure (r :: ·)

/-- What is wrong with a composite whose candidates were all rejected. -/
def mismatch (c : Composite) (constructors : List Constructor) (rejections : List Rejection) :
    Mismatch :=
  match Rejection.furthest rejections with
  | none => .arity c.target c.arity (constructors.map Constructor.arity).eraseDups
  | some r =>
    .noCandidate c.target c.arity rejections.length r.position r.cause.path r.cause.mismatch

/-- Chooses a constructor of the composite's target. The arguments are put to each
candidate by `accept`. -/
def select (registry : Registry) (c : Composite)
    (accept : List Param → Attempt Rejection (List Arg)) : Attempt Failure Resolution := do
  Attempt.record (.consult c.target)
  match registry.constructors? c.target with
  | none => Attempt.fail (Mismatch.unknownType c.target).here
  | some constructors =>
    let (k, args) ← (firstAccepted accept (of c constructors)).mapFailure fun rejections =>
      (mismatch c constructors rejections).here
    return ⟨k, ⟨c.target, args⟩⟩

end Candidate

end ShapeFit
