import ShapeFit.Diagnostic

/-!
# ShapeFit.Signature.ReadError

Why a text is no signature literal, and where.
-/

namespace ShapeFit

/-- What a literal lacks at some point. -/
inductive Expected where
  | signature | closeBracket | openParen | commaOrCloseParen
deriving DecidableEq

/-- The phrase for what is lacking. -/
def Expected.text : Expected → String
  | .signature => "a signature"
  | .closeBracket => "`]`"
  | .openParen => "`(` after a type name"
  | .commaOrCloseParen => "`,` or `)`"

/-- What is wrong with a literal. -/
inductive ReadFault where
  /-- A token stands where it cannot go on. -/
  | unexpectedToken (found : String) (expected : Expected)
  /-- The text ends too early. -/
  | unexpectedEnd (expected : Expected)
  /-- A piece of the text is no token. -/
  | unrecognisedChar (piece : String)
  /-- A token follows a whole signature. -/
  | trailingInput (found : String)
deriving DecidableEq

namespace ReadFault

/-- The message for a fault. -/
def message : ReadFault → String
  | .unexpectedToken found expected =>
    "unexpected `" ++ found ++ "`, expected " ++ expected.text
  | .unexpectedEnd expected => "unexpected end of signature, expected " ++ expected.text
  | .unrecognisedChar piece => "unrecognised character `" ++ piece ++ "`"
  | .trailingInput found => "unexpected `" ++ found ++ "` after the end of the signature"

/-- The code for a fault. -/
def code : ReadFault → Code
  | .unexpectedToken .. => .unexpectedToken
  | .unexpectedEnd _ => .unexpectedEnd
  | .unrecognisedChar _ => .unrecognisedChar
  | .trailingInput _ => .trailingInput

/-- The piece of the text at fault. A text that ends too early has none. -/
def found? : ReadFault → Option String
  | .unexpectedToken found _ => some found
  | .unexpectedEnd _ => none
  | .unrecognisedChar piece => some piece
  | .trailingInput found => some found

/-- What is expected in place of the fault, where that is known. -/
def expected? : ReadFault → Option Expected
  | .unexpectedToken _ expected => some expected
  | .unexpectedEnd expected => some expected
  | .unrecognisedChar _ => none
  | .trailingInput _ => none

end ReadFault

/-- Why and where a text is no signature literal. -/
structure ReadError where
  fault : ReadFault
  span : Span
deriving DecidableEq

/-- The diagnostic for a text that is no literal. Its one label is at the fault. -/
def ReadError.diagnostic (e : ReadError) : Diagnostic :=
  let base := Diagnostic.error e.fault.code e.fault.message
  match e.fault with
  | .unexpectedToken _ expected => base.addLabel e.span ("expected " ++ expected.text)
  | .unexpectedEnd expected => base.addLabel e.span ("expected " ++ expected.text)
  | .unrecognisedChar _ =>
    (base.addLabel e.span "not valid in a signature").addNote
      "signatures use primitive names, `[..]`, `_` and `Type(name: sig, ..)`"
  | .trailingInput _ =>
    (base.addLabel e.span "signature already ended").addSuggestion
      "wrap several arguments in a composite: `Type(a: int, b: int)`"

end ShapeFit
