import ShapeFit.Fit

/-!
# ShapeFit.Proofs.Fit.Plain

Fitting by itself: what a signature becomes at a shape, or why it does not fit,
without a session, a memo or a record of what was asked for.

The functions follow `ShapeFit.Fit` clause by clause. `ShapeFit.Proofs.Fit.Memo`
shows that an attempt comes to the same result in every session that it can start in,
so what is proved of fitting is proved here.
-/

namespace ShapeFit.Plain

variable {ε ε' α β : Type}

/-! ## Results -/

/-- Goes on after a failure. -/
def recover (x : Except ε α) (handle : ε → Except ε' α) : Except ε' α :=
  match x with
  | .ok a => .ok a
  | .error e => handle e

/-- A result one step further in, seen from here. -/
def within (seg : Segment) (x : Except Failure α) : Except Failure α :=
  x.mapError (Failure.within seg)

theorem bind_eq_ok {x : Except ε α} {f : α → Except ε β} {b : β} :
    x >>= f = .ok b ↔ ∃ a, x = .ok a ∧ f a = .ok b := by
  cases x <;> simp [bind, Except.bind]

theorem pure_eq_ok {a b : α} : (pure a : Except ε α) = .ok b ↔ a = b := by
  simp [pure, Except.pure]

theorem mapError_eq_ok {x : Except ε α} {f : ε → ε'} {a : α} :
    x.mapError f = .ok a ↔ x = .ok a := by
  cases x with
  | ok b =>
      change (.ok b : Except ε' α) = .ok a ↔ _
      rw [Except.ok.injEq, Except.ok.injEq]
  | error e =>
      constructor
      · intro h
        cases h
      · intro h
        cases h

theorem within_eq_ok {seg : Segment} {x : Except Failure α} {a : α} :
    within seg x = .ok a ↔ x = .ok a := mapError_eq_ok

theorem bind_eq_error {x : Except ε α} {f : α → Except ε β} {e : ε} :
    x >>= f = .error e ↔ x = .error e ∨ ∃ a, x = .ok a ∧ f a = .error e := by
  cases x <;> simp [bind, Except.bind]

theorem pure_ne_error {a : α} {e : ε} : (pure a : Except ε α) ≠ .error e := by
  simp [pure, Except.pure]

theorem mapError_eq_error {x : Except ε α} {f : ε → ε'} {e' : ε'} :
    x.mapError f = .error e' ↔ ∃ e, x = .error e ∧ f e = e' := by
  cases x with
  | ok a =>
      change (.ok a : Except ε' α) = .error e' ↔ _
      simp only [reduceCtorEq, false_and, exists_false]
  | error e =>
      change (.error (f e) : Except ε' α) = .error e' ↔ _
      simp only [Except.error.injEq, exists_eq_left']

theorem within_eq_error {seg : Segment} {x : Except Failure α} {f : Failure} :
    within seg x = .error f ↔ ∃ g, x = .error g ∧ g.within seg = f := mapError_eq_error

/-! ## Filling open slots -/

namespace Expansion

/-- Fills an open slot at a shape. What an object becomes is left to `object`. -/
def shape (object : TypeName → Except Failure Signature) : Shape → Except Failure Signature
  | .prim k => return .prim k
  | .array e | .sequence e => return .list (← within .element (shape object e))
  | .object n => object n

/-- Fills arguments from parameters, the first of which has the position `index`. -/
def params (object : TypeName → Except Failure Signature) (index : Nat) :
    List Param → Except Failure (List Arg)
  | [] => return []
  | p :: ps => do
    let s ← within (.argument index p.name) (shape object p.val)
    return ⟨p.name, s⟩ :: (← params object (index + 1) ps)

/-- Fills an open slot at an object, while the types `opened` are being expanded. -/
def object (r : Registry) (opened : List TypeName) (n : TypeName) : Except Failure Signature :=
  if hn : n ∈ opened then .error (Mismatch.circularType n).here
  else
    match hr : r.find? n with
    | none => .error (Mismatch.unknownType n).here
    | some d =>
      match d.overloads with
      | [] => .error (Mismatch.noConstructors n).here
      | first :: _ => do
        have := Registry.unopened_cons_lt (Registry.mem_names_of_find? hr) hn
        return .composite n (← params (object r (n :: opened)) 0 first)
termination_by r.unopened opened

/-- Expanding an object without the reason why it ends. -/
theorem object_eq (r : Registry) (opened : List TypeName) (n : TypeName) :
    object r opened n =
      if n ∈ opened then .error (Mismatch.circularType n).here
      else
        match r.find? n with
        | none => .error (Mismatch.unknownType n).here
        | some d =>
          match d.overloads with
          | [] => .error (Mismatch.noConstructors n).here
          | first :: _ => do return .composite n (← params (object r (n :: opened)) 0 first) := by
  rw [object]
  by_cases hn : n ∈ opened
  · rw [dif_pos hn, if_pos hn]
  · rw [dif_neg hn, if_neg hn]
    split
    · next hr => rw [hr]
    · next d hr => simp only [hr]

end Expansion

/-- The signature that a shape has of itself. -/
def expand (r : Registry) (subject : Shape) : Except Failure Signature :=
  Expansion.shape (Expansion.object r []) subject

/-! ## Choosing a constructor -/

/-- Tries candidates in order. -/
def firstAccepted (accept : List Param → Except Rejection (List Arg)) :
    List Constructor → Except (List Rejection) (Constructor × List Arg)
  | [] => .error []
  | k :: ks =>
    recover ((k, ·) <$> accept k.params) fun r => (firstAccepted accept ks).mapError (r :: ·)

/-- Chooses a constructor of the composite's target. -/
def select (r : Registry) (c : Composite) (accept : List Param → Except Rejection (List Arg)) :
    Except Failure Resolution :=
  match r.constructors? c.target with
  | none => .error (Mismatch.unknownType c.target).here
  | some constructors => do
    let (k, args) ← (firstAccepted accept (Candidate.of c constructors)).mapError
      fun rejections => (Candidate.mismatch c constructors rejections).here
    return ⟨k, ⟨c.target, args⟩⟩

/-! ## Signatures -/

mutual
/-- Fits a signature to a shape. -/
def signature (r : Registry) (w : Bool) : Signature → Shape → Except Failure Signature
  | .prim k, subject => Fit.prim w k subject
  | .list e, subject =>
    match subject.element? with
    | some x => return .list (← within .element (signature r w e x))
    | none => .error (Fit.shapeFailure (Signature.list e).describe subject)
  | .composite t as, subject =>
    if subject = .object t then do
      let res ← select r ⟨t, as⟩ fun ps => args r w 0 as ps
      return res.signature.toSignature
    else .error (Fit.targetFailure t subject)
  | .wildcard, subject => expand r subject

/-- Fits arguments to parameters one by one, the first pair having the position
`position`. -/
def args (r : Registry) (w : Bool) (position : Nat) :
    List (Named Signature) → List Param → Except Rejection (List Arg)
  | ⟨n, s⟩ :: as, p :: ps => do
    let fitted ← (signature r w s p.val).mapError fun f =>
      ⟨position, f.within (.argument position n)⟩
    return ⟨n, fitted⟩ :: (← args r w (position + 1) as ps)
  | _, _ => return []
end

/-- Resolves a composite against its target type. -/
def composite (r : Registry) (w : Bool) (c : Composite) : Except Failure Resolution :=
  select r c fun ps => args r w 0 c.args ps

end ShapeFit.Plain
