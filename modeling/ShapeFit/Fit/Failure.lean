import ShapeFit.Diagnostic
import ShapeFit.Shape

/-!
# ShapeFit.Fit.Failure

Why a signature does not fit a shape.

A failure tells what is wrong and the path to it. A composite that no constructor
accepts is itself the failure; the failure inside the candidate that got furthest
is its cause, with a path of its own that starts at the composite's arguments.
-/

namespace ShapeFit

/-! ## Paths -/

/-- One step into a signature. -/
inductive Segment where
  /-- To an argument of a composite. -/
  | argument (index : Nat) (name : String)
  /-- To the elements of a list. -/
  | element
deriving DecidableEq

/-- The steps from a signature to a place inside it, outermost first. -/
abbrev Path := List Segment

namespace Segment

/-- The text of a step: an argument's name, or its position if it has none. -/
def text : Segment → String
  | .argument index name => if name.isEmpty then "#" ++ toString index else name
  | .element => "[]"

/-- The text of a step after another one: a dot stands before an argument. -/
def followingText : Segment → String
  | .argument index name => "." ++ (Segment.argument index name).text
  | .element => Segment.element.text

end Segment

/-- The text of a path, such as `tom[].zip`. -/
def Path.text : Path → String
  | [] => ""
  | s :: rest => s.text ++ String.join (rest.map Segment.followingText)

/-! ## Mismatches -/

/-- What is wrong at one place. -/
inductive Mismatch where
  /-- A primitive kind meets another one that it does not widen to, or that it
  would widen to if widening were allowed. -/
  | primitive (expected found : Prim) (widening : Bool)
  /-- A shape of another structure than the signature's. -/
  | shape (expected : String) (found : Shape)
  /-- No constructor takes that many arguments. The numbers taken are listed once
  each, in declaration order. -/
  | arity (target : TypeName) (arity : Nat) (available : List Nat)
  /-- Every constructor with that many parameters rejects an argument. The
  candidate that got furthest does so at `position`, and there the cause is
  `cause`, at `causePath` from the composite. -/
  | noCandidate (target : TypeName) (arity tried position : Nat) (causePath : Path)
    (cause : Mismatch)
  /-- The target type is not registered. -/
  | unknownType (target : TypeName)
  /-- An open slot meets an object whose type has no constructor. -/
  | noConstructors (target : TypeName)
  /-- An open slot meets an object whose first constructor leads back to its type. -/
  | circularType (target : TypeName)
deriving DecidableEq

/-- A mismatch and the path to it. -/
structure Failure where
  mismatch : Mismatch
  path : Path
deriving DecidableEq

namespace Mismatch

/-- A mismatch at the very place where it is reported. -/
def here (m : Mismatch) : Failure := ⟨m, []⟩

/-- The message for a mismatch. -/
def message : Mismatch → String
  | .primitive expected found _ =>
    "primitive kind mismatch: expected `" ++ expected.name ++ "`, found `" ++ found.name ++ "`"
  | .shape expected found =>
    "shape mismatch: expected " ++ expected ++ ", found `" ++ found.text ++ "`"
  | .arity target n _ =>
    "`" ++ target.text ++ "` has no constructor taking " ++ toString n ++ " argument(s)"
  | .noCandidate target n _ _ _ _ =>
    "no constructor of `" ++ target.text ++ "` taking " ++ toString n ++
      " argument(s) accepts the arguments"
  | .unknownType target => "unknown type `" ++ target.text ++ "`"
  | .noConstructors target => "`" ++ target.text ++ "` has no constructors"
  | .circularType target => "`" ++ target.text ++ "` is defined in terms of itself"

/-- The code for a mismatch. -/
def code : Mismatch → Code
  | .primitive .. => .primitiveMismatch
  | .shape .. => .shapeMismatch
  | .arity .. => .noMatchingArity
  | .noCandidate .. => .noCandidate
  | .unknownType _ => .unknownType
  | .noConstructors _ => .noConstructors
  | .circularType _ => .circularType

/-- The failures behind a mismatch, from the nearest cause to the innermost one. -/
def causes : Mismatch → List Failure
  | .noCandidate _ _ _ _ causePath cause => ⟨cause, causePath⟩ :: cause.causes
  | .primitive .. | .shape .. | .arity .. | .unknownType _ | .noConstructors _
  | .circularType _ => []

end Mismatch

namespace Failure

/-- The same failure seen from one step further out. -/
def within (s : Segment) (f : Failure) : Failure := { f with path := s :: f.path }

/-- The innermost cause of a failure, which is the failure itself if it has none. -/
def rootCause (f : Failure) : Failure := f.mismatch.causes.getLastD f

/-- The message for a failure, with the path if there is one. -/
def message (f : Failure) : String :=
  if f.path.isEmpty then f.mismatch.message
  else f.mismatch.message ++ " at `" ++ Path.text f.path ++ "`"

/-! ## Advice -/

/-- The notes on a mismatch: what else is known of it. -/
def notesOn : Mismatch → List String
  | .shape _ found => ["`" ++ found.text ++ "` is " ++ found.describe]
  | .arity _ _ [] => ["the type declares no constructors"]
  | .arity _ _ available =>
    ["constructors take " ++ ", ".intercalate (available.map toString) ++ " argument(s)"]
  | .noCandidate _ _ tried position causePath cause =>
    ["tried " ++ toString tried ++ " constructor(s) in declaration order",
      "the closest candidate rejected argument " ++ toString position ++ ": " ++
        message ⟨cause, causePath⟩]
  | .circularType _ => ["wildcards close over the first declared constructor"]
  | .primitive .. | .unknownType _ | .noConstructors _ => []

/-- The suggestions on a mismatch: what would mend it. -/
def suggestionsOn : Mismatch → List String
  | .primitive expected found widening =>
    if !widening && expected.widens found then
      ["enable widening to accept `" ++ expected.name ++ "` data where `" ++ found.name ++
        "` is expected"]
    else ["declare the argument as `" ++ found.name ++ "`"]
  | .shape _ found => ["declare the argument as `" ++ found.text ++ "` or `_`"]
  | .unknownType target => ["register `" ++ target.text ++ "` in the type registry"]
  | .noConstructors _ | .circularType _ => ["declare this argument with an explicit signature"]
  | .arity .. | .noCandidate .. => []

/-- The diagnostic for a failure. The path comes as the first note. -/
def diagnostic (f : Failure) : Diagnostic :=
  { Diagnostic.error f.mismatch.code f.mismatch.message with
    notes := (if f.path.isEmpty then [] else ["at `" ++ Path.text f.path ++ "`"]) ++
      notesOn f.mismatch
    suggestions := suggestionsOn f.mismatch }

end Failure

end ShapeFit
