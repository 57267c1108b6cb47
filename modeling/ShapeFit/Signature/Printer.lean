import ShapeFit.Name.Quoted
import ShapeFit.Signature

/-!
# ShapeFit.Signature.Printer

The literal of a signature: `int`, `[string]`, `_`,
`geo.Point(x: int, y: int)`. It is valid input for `Signature.parse`.
-/

namespace ShapeFit

namespace Signature

mutual
/-- The literal of a signature. -/
def text : Signature → String
  | .prim k => k.name
  | .list e => "[" ++ e.text ++ "]"
  | .composite t args =>
    Name.writtenTarget t.text ++ "(" ++ ", ".intercalate (argTexts args) ++ ")"
  | .wildcard => "_"

/-- The literals of arguments. An empty name is left out with its colon. -/
def argTexts : List (Named Signature) → List String
  | [] => []
  | ⟨n, s⟩ :: args =>
    (if n.isEmpty then s.text else Name.written n ++ ": " ++ s.text) :: argTexts args
end

end Signature

/-- The literal of one argument. -/
def Arg.text (arg : Arg) : String :=
  if arg.name.isEmpty then arg.val.text else Name.written arg.name ++ ": " ++ arg.val.text

theorem Signature.argTexts_eq_map (args : List Arg) :
    Signature.argTexts args = args.map Arg.text := by
  induction args with
  | nil => rfl
  | cons a as ih => simp [Signature.argTexts, Arg.text, ih]

end ShapeFit
