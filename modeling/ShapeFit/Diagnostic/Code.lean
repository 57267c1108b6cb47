/-!
# ShapeFit.Diagnostic.Code

The codes of the diagnostics: one for each way in which reading a signature
literal or fitting a signature can fail.
-/

namespace ShapeFit

/-- What a diagnostic is about. -/
inductive Code where
  | unexpectedToken | unexpectedEnd | unrecognisedChar | trailingInput
  | primitiveMismatch | shapeMismatch | noMatchingArity | noCandidate
  | unknownType | noConstructors | circularType
deriving DecidableEq

/-- The stage of work in which a diagnostic arises. -/
inductive Phase where
  /-- Reading a signature literal. -/
  | reading
  /-- Fitting a signature to a shape, or choosing a constructor. -/
  | fitting
deriving DecidableEq

namespace Code

/-- Every code, in the order of their identifiers. -/
def all : List Code :=
  [.unexpectedToken, .unexpectedEnd, .unrecognisedChar, .trailingInput, .primitiveMismatch,
    .shapeMismatch, .noMatchingArity, .noCandidate, .unknownType, .noConstructors, .circularType]

theorem mem_all (c : Code) : c ∈ all := by cases c <;> decide

/-- The identifier printed with a diagnostic. -/
def id : Code → String
  | .unexpectedToken => "E0001"
  | .unexpectedEnd => "E0002"
  | .unrecognisedChar => "E0003"
  | .trailingInput => "E0004"
  | .primitiveMismatch => "E1001"
  | .shapeMismatch => "E1002"
  | .noMatchingArity => "E1003"
  | .noCandidate => "E1004"
  | .unknownType => "E1005"
  | .noConstructors => "E1006"
  | .circularType => "E1007"

/-- The code with a given identifier. -/
def ofId? (s : String) : Option Code := all.find? fun c => c.id == s

theorem ofId?_id (c : Code) : ofId? c.id = some c := by cases c <;> decide

/-- A summary of what the code stands for. -/
def description : Code → String
  | .unexpectedToken => "unexpected token in signature"
  | .unexpectedEnd => "unexpected end of signature"
  | .unrecognisedChar => "unrecognised character in signature"
  | .trailingInput => "trailing input after signature"
  | .primitiveMismatch => "primitive kind mismatch"
  | .shapeMismatch => "shape mismatch"
  | .noMatchingArity => "no constructor with matching arity"
  | .noCandidate => "no candidate constructor accepts the arguments"
  | .unknownType => "unknown target type"
  | .noConstructors => "target type has no constructors"
  | .circularType => "circular type definition"

/-- The stage in which the code arises. The digit after the letter of its
identifier tells it: `0` for reading, `1` for fitting. -/
def phase : Code → Phase
  | .unexpectedToken | .unexpectedEnd | .unrecognisedChar | .trailingInput => .reading
  | .primitiveMismatch | .shapeMismatch | .noMatchingArity | .noCandidate | .unknownType
  | .noConstructors | .circularType => .fitting

end Code

end ShapeFit
