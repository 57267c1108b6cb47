import ShapeFit.Name
import ShapeFit.Prim

/-!
# ShapeFit.Signature

Signatures: declared descriptions of the data that a value is expected to hold.

A signature is declared once and fitted to many shapes. It may leave slots open
(`wildcard`); fitting it to a shape fills them, and a signature without open
slots is *resolved*.

Signatures nest through lists of named arguments, so a function on signatures
comes with its counterpart on argument lists, and `Signature.induct` is the
induction that hands a composite the hypothesis for each of its arguments.
-/

namespace ShapeFit

/-- The expected shape of a value. -/
inductive Signature where
  /-- A primitive value. -/
  | prim (kind : Prim)
  /-- An array or sequence whose elements all fit one signature. -/
  | list (element : Signature)
  /-- A value built by a constructor of `target` from these arguments, in order.
  Their names document them; they are matched by position. -/
  | composite (target : TypeName) (args : List (Named Signature))
  /-- An open slot, which takes on the shape it is fitted to. -/
  | wildcard

/-- An argument of a composite signature. -/
abbrev Arg := Named Signature

namespace Signature

/-- Induction on signatures: a composite has the hypothesis for each argument. -/
@[elab_as_elim, induction_eliminator]
theorem induct {motive : Signature → Prop} (prim : ∀ k, motive (.prim k))
    (list : ∀ e, motive e → motive (.list e))
    (composite : ∀ t args, (∀ a ∈ args, motive a.val) → motive (.composite t args))
    (wildcard : motive .wildcard) (s : Signature) : motive s :=
  Signature.rec (motive_1 := motive) (motive_2 := fun args => ∀ a ∈ args, motive a.val)
    (motive_3 := fun a => motive a.val) prim list composite wildcard (by simp)
    (fun _ _ ha has => List.forall_mem_cons.2 ⟨ha, has⟩) (fun _ _ h => h) s

/-! ## Equality -/

mutual
/-- Decides whether two signatures are the same tree. -/
def decEq : (s t : Signature) → Decidable (s = t)
  | .prim k, .prim l => decidable_of_iff (k = l) (by simp)
  | .list s, .list t =>
    match decEq s t with
    | isTrue h => isTrue (by rw [h])
    | isFalse h => isFalse (by simpa using h)
  | .composite m as, .composite n bs =>
    if hn : m = n then
      match decEqArgs as bs with
      | isTrue h => isTrue (by rw [hn, h])
      | isFalse h => isFalse (by simp [h])
    else isFalse (by simp [hn])
  | .wildcard, .wildcard => isTrue rfl
  | .prim _, .list _ | .prim _, .composite .. | .prim _, .wildcard
  | .list _, .prim _ | .list _, .composite .. | .list _, .wildcard
  | .composite .., .prim _ | .composite .., .list _ | .composite .., .wildcard
  | .wildcard, .prim _ | .wildcard, .list _ | .wildcard, .composite .. => isFalse nofun

/-- Decides whether two argument lists are the same. -/
def decEqArgs : (as bs : List (Named Signature)) → Decidable (as = bs)
  | [], [] => isTrue rfl
  | [], _ :: _ | _ :: _, [] => isFalse nofun
  | ⟨m, s⟩ :: as, ⟨n, t⟩ :: bs =>
    if hn : m = n then
      match decEq s t with
      | isTrue hs =>
        match decEqArgs as bs with
        | isTrue h => isTrue (by rw [hn, hs, h])
        | isFalse h => isFalse (by simp [h])
      | isFalse hs => isFalse (by simp [hs])
    else isFalse (by simp [hn])
end

instance : DecidableEq Signature := decEq

/-! ## Measures -/

mutual
/-- The number of open slots. -/
def wildcardCount : Signature → Nat
  | .prim _ => 0
  | .list e => e.wildcardCount
  | .composite _ args => wildcardCountArgs args
  | .wildcard => 1

/-- The number of open slots in an argument list. -/
def wildcardCountArgs : List (Named Signature) → Nat
  | [] => 0
  | ⟨_, s⟩ :: args => s.wildcardCount + wildcardCountArgs args
end

mutual
/-- Whether a signature has no open slot. -/
def isResolved : Signature → Bool
  | .prim _ => true
  | .list e => e.isResolved
  | .composite _ args => isResolvedArgs args
  | .wildcard => false

/-- Whether an argument list has no open slot. -/
def isResolvedArgs : List (Named Signature) → Bool
  | [] => true
  | ⟨_, s⟩ :: args => s.isResolved && isResolvedArgs args
end

mutual
/-- The nesting depth: one for a leaf. -/
def depth : Signature → Nat
  | .prim _ | .wildcard => 1
  | .list e => 1 + e.depth
  | .composite _ args => 1 + depthArgs args

/-- The greatest depth in an argument list, zero if it is empty. -/
def depthArgs : List (Named Signature) → Nat
  | [] => 0
  | ⟨_, s⟩ :: args => max s.depth (depthArgs args)
end

mutual
/-- The number of nodes, open slots included. -/
def size : Signature → Nat
  | .prim _ | .wildcard => 1
  | .list e => 1 + e.size
  | .composite _ args => 1 + sizeArgs args

/-- The number of nodes in an argument list. -/
def sizeArgs : List (Named Signature) → Nat
  | [] => 0
  | ⟨_, s⟩ :: args => s.size + sizeArgs args
end

theorem isResolvedArgs_iff_wildcardCount {args : List Arg}
    (h : ∀ a ∈ args, a.val.isResolved ↔ a.val.wildcardCount = 0) :
    isResolvedArgs args ↔ wildcardCountArgs args = 0 := by
  induction args with
  | nil => simp [isResolvedArgs, wildcardCountArgs]
  | cons a as ih =>
    rw [List.forall_mem_cons] at h
    simp [isResolvedArgs, wildcardCountArgs, h.1, ih h.2]

/-- A signature is resolved exactly when it has no open slot to count. -/
theorem isResolved_iff_wildcardCount {s : Signature} : s.isResolved ↔ s.wildcardCount = 0 := by
  induction s with
  | prim k => simp [isResolved, wildcardCount]
  | list e ih => simpa [isResolved, wildcardCount] using ih
  | composite t args ih =>
    simpa [isResolved, wildcardCount] using isResolvedArgs_iff_wildcardCount ih
  | wildcard => simp [isResolved, wildcardCount]

/-- A noun phrase for the kind of signature. -/
def describe : Signature → String
  | .prim _ => "a primitive"
  | .list _ => "a list"
  | .composite .. => "an object"
  | .wildcard => "anything"

end Signature

/-! ## Composites -/

/-- A composite signature by itself: the target type, and the arguments for one
of its constructors. -/
structure Composite where
  target : TypeName
  args : List Arg
deriving DecidableEq

namespace Composite

/-- The number of arguments. -/
def arity (c : Composite) : Nat := c.args.length

/-- A composite as a signature. -/
def toSignature (c : Composite) : Signature := .composite c.target c.args

/-- The number of nodes. -/
def size (c : Composite) : Nat := c.toSignature.size

end Composite

/-- The composite that a signature is, if it is one. -/
def Signature.composite? : Signature → Option Composite
  | .composite t args => some ⟨t, args⟩
  | .prim _ | .list _ | .wildcard => none

theorem Signature.composite?_eq_some_iff {s : Signature} {c : Composite} :
    s.composite? = some c ↔ c.toSignature = s := by
  obtain ⟨t, args⟩ := c
  cases s <;> simp [composite?, Composite.toSignature, eq_comm]

end ShapeFit
