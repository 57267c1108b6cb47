import ShapeFit.Name
import ShapeFit.Prim

/-!
# ShapeFit.Shape

The concrete shape of a runtime value: the declared type of a constructor
parameter, or the type that a data source reports. Signatures are fitted to
shapes.
-/

namespace ShapeFit

/-- The concrete type of a runtime value. -/
inductive Shape where
  /-- A primitive value. -/
  | prim (kind : Prim)
  /-- A fixed-size array. -/
  | array (element : Shape)
  /-- An ordered collection that can grow. -/
  | sequence (element : Shape)
  /-- A value of a type that is built through one of its constructors. -/
  | object (name : TypeName)
deriving DecidableEq

namespace Shape

/-- The shape of the elements of an array or a sequence. -/
def element? : Shape → Option Shape
  | .array e | .sequence e => some e
  | .prim _ | .object _ => none

/-- The text of a shape, such as `int[]`, `seq<string>` or `geo.Point`. A type
name stands as it is. -/
def text : Shape → String
  | .prim k => k.name
  | .array e => e.text ++ "[]"
  | .sequence e => "seq<" ++ e.text ++ ">"
  | .object n => n.text

/-- A noun phrase for the kind of shape. -/
def describe : Shape → String
  | .prim _ => "a primitive"
  | .array _ => "an array"
  | .sequence _ => "a sequence"
  | .object _ => "an object"

end Shape

end ShapeFit
