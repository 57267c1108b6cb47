/-!
# ShapeFit.Prim

The primitive kinds and the widening table.

A primitive signature fits a primitive shape of its own kind and, where
widening is allowed, of every kind that its own kind widens to. Widening is a
strict partial order on the kinds (`widens_irrefl`, `widens_trans`): a kind
never widens to itself, and two widenings in a row are one widening.
-/

namespace ShapeFit

/-- The kind of a primitive value. -/
inductive Prim where
  | boolean | byte | short | char | int | long | float | double | string
deriving DecidableEq

namespace Prim

/-- Every kind, in declaration order. -/
def all : List Prim :=
  [.boolean, .byte, .short, .char, .int, .long, .float, .double, .string]

theorem mem_all (k : Prim) : k ∈ all := by cases k <;> decide

/-- The position of a kind in `all`. -/
def ordinal (k : Prim) : Nat := all.idxOf k

/-- The ordinal is the position in `all`. -/
theorem getElem?_ordinal (k : Prim) : all[k.ordinal]? = some k := by cases k <;> rfl

/-! ## Names -/

/-- The keyword of a kind, as signature literals write it. -/
def name : Prim → String
  | .boolean => "boolean"
  | .byte => "byte"
  | .short => "short"
  | .char => "char"
  | .int => "int"
  | .long => "long"
  | .float => "float"
  | .double => "double"
  | .string => "string"

/-- The kind with a given keyword. -/
def ofName? (s : String) : Option Prim := all.find? fun k => k.name == s

theorem ofName?_name (k : Prim) : ofName? k.name = some k := by cases k <;> decide

/-- A keyword names one kind only. -/
theorem ofName?_eq_some_iff {s : String} {k : Prim} : ofName? s = some k ↔ k.name = s := by
  refine ⟨fun h => ?_, fun h => h ▸ ofName?_name k⟩
  simpa using List.find?_some h

/-! ## Widening -/

/-- Whether the kind holds numbers. -/
def isNumeric : Prim → Bool
  | .byte | .short | .int | .long | .float | .double => true
  | .boolean | .char | .string => false

/-- The widening table: the kinds of slot that data declared with this kind may
fill besides its own, in declaration order. -/
def widenings : Prim → List Prim
  | .boolean => [.string]
  | .byte => [.short, .int, .long, .float, .double]
  | .short => [.int, .long, .float, .double]
  | .char => [.int, .long, .float, .double, .string]
  | .int => [.long, .float, .double]
  | .long => [.float, .double]
  | .float => [.double]
  | .double => []
  | .string => []

/-- Whether data declared as `k` may fill a slot of the other kind `slot`. -/
def widens (k slot : Prim) : Bool := k.widenings.contains slot

/-- A kind does not widen to itself: an exact match is no widening. -/
theorem widens_irrefl (k : Prim) : k.widens k = false := by cases k <;> rfl

theorem widens_trans {a b c : Prim} (hab : a.widens b) (hbc : b.widens c) : a.widens c := by
  revert hab hbc
  cases a <;> cases b <;> cases c <;> decide

/-- The table lists a kind's widenings as a selection from `all`. -/
theorem widenings_eq_filter (k : Prim) : k.widenings = all.filter k.widens := by
  cases k <;> rfl

end Prim

end ShapeFit
