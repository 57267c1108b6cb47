import ShapeFit.Fit.Attempt

/-!
# ShapeFit.Fit.Expansion

Filling an open slot: the signature that a shape has of itself.

Lists become lists, and an object becomes a composite of its first declared
constructor, with arguments named after the parameters and expanded in turn. The
types that are being expanded are remembered; meeting one of them again is an
error. So the expansion ends on every registry: each type opened is registered
and was not open before, and `Registry.unopened` counts those that are left.
-/

namespace ShapeFit

/-- The number of registered types that are not among those opened. -/
def Registry.unopened (r : Registry) (opened : List TypeName) : Nat :=
  r.names.countP (· ∉ opened)

/-- Opening a registered type leaves fewer types to open. -/
theorem Registry.unopened_cons_lt {r : Registry} {opened : List TypeName} {n : TypeName}
    (hr : n ∈ r.names) (hn : n ∉ opened) : r.unopened (n :: opened) < r.unopened opened := by
  have hle (names : List TypeName) :
      names.countP (· ∉ n :: opened) ≤ names.countP (· ∉ opened) :=
    List.countP_mono_left fun m _ hm => by simp_all
  obtain ⟨front, back, heq⟩ := List.append_of_mem hr
  have hfront := hle front
  have hback := hle back
  simp only [unopened, heq, List.countP_append, List.countP_cons]
  simp [hn] at hfront hback ⊢
  omega

namespace Expansion

/-- Fills an open slot at a shape. What an object becomes is left to `object`. -/
def shape (object : TypeName → Attempt Failure Signature) : Shape → Attempt Failure Signature
  | .prim k => return .prim k
  | .array e | .sequence e => return .list (← Attempt.within .element (shape object e))
  | .object n => object n

/-- Fills arguments from parameters, the first of which has the position `index`. -/
def params (object : TypeName → Attempt Failure Signature) (index : Nat) :
    List Param → Attempt Failure (List Arg)
  | [] => return []
  | p :: ps => do
    let s ← Attempt.within (.argument index p.name) (shape object p.val)
    return ⟨p.name, s⟩ :: (← params object (index + 1) ps)

/-- Fills an open slot at an object, while the types `opened` are being expanded. -/
def object (r : Registry) (opened : List TypeName) (n : TypeName) :
    Attempt Failure Signature :=
  if hn : n ∈ opened then Attempt.fail (Mismatch.circularType n).here
  else do
    Attempt.record (.consult n)
    match hr : r.find? n with
    | none => Attempt.fail (Mismatch.unknownType n).here
    | some d =>
      match d.overloads with
      | [] => Attempt.fail (Mismatch.noConstructors n).here
      | first :: _ =>
        have := Registry.unopened_cons_lt (Registry.mem_names_of_find? hr) hn
        return .composite n (← params (object r (n :: opened)) 0 first)
termination_by r.unopened opened

/-- Expanding an object without the reason why it ends. -/
theorem object_eq (r : Registry) (opened : List TypeName) (n : TypeName) :
    object r opened n =
      if n ∈ opened then Attempt.fail (Mismatch.circularType n).here
      else do
        Attempt.record (.consult n)
        match r.find? n with
        | none => Attempt.fail (Mismatch.unknownType n).here
        | some d =>
          match d.overloads with
          | [] => Attempt.fail (Mismatch.noConstructors n).here
          | first :: _ => return .composite n (← params (object r (n :: opened)) 0 first) := by
  rw [object]
  by_cases hn : n ∈ opened
  · rw [dif_pos hn, if_pos hn]
  · rw [dif_neg hn, if_neg hn]
    refine bind_congr fun _ => ?_
    split
    · next hr => rw [hr]
    · next d hr => simp only [hr]

end Expansion

/-- The signature that a shape has of itself. -/
def expand (r : Registry) (subject : Shape) : Attempt Failure Signature :=
  Expansion.shape (Expansion.object r []) subject

end ShapeFit
