import ShapeFit.Text.Escape

/-!
# ShapeFit.Name

Names of target types, and values under a declared name.

Type names are compared by their text. Their order is the order of code points,
which is the order of their UTF-8 bytes.
-/

namespace ShapeFit

/-- The name of a type that is built through one of its constructors, such as
`ClassA` or `geo.Point`. Any text is a name. -/
structure TypeName where
  text : String
deriving DecidableEq

namespace TypeName

instance : LE TypeName := ⟨fun a b => a.text ≤ b.text⟩

instance (a b : TypeName) : Decidable (a ≤ b) := inferInstanceAs (Decidable (a.text ≤ b.text))

/-- The distinct names of a list, in increasing order. -/
def sortDistinct (names : List TypeName) : List TypeName :=
  names.eraseDups.mergeSort fun a b => decide (a ≤ b)

/-- The name with its type, its text between double quotes. -/
def inspect (hides : Char → Bool) (name : TypeName) : String :=
  "TypeName(" ++ Text.doubleQuoted hides name.text ++ ")"

end TypeName

/-- A value under a declared name, such as an argument or a parameter. The name
may be empty. -/
structure Named (α : Type) where
  name : String
  val : α
deriving DecidableEq

end ShapeFit
