/-!
# ShapeFit.Text.Escape

Text between double quotes, for messages that have to show a name exactly.

The quote and the backslash stand behind a backslash, and characters that do not
show have a printable form: `\n`, `\t`, `\r`, `\0`, and the code point in lower-case
hexadecimal for the others.

Control characters never show. Which other characters do not show by themselves,
such as combining marks, blanks other than the space and code points without a
character, depends on the version of Unicode. They are a parameter here (`hides`).
-/

namespace ShapeFit.Text

/-- Whether a character is a control character: C0, DEL or C1. -/
def isControl (c : Char) : Bool := c.toNat < 0x20 || (0x7f ≤ c.toNat && c.toNat < 0xa0)

/-- A character as it stands between double quotes, where `hides` tells of each
character that is no control character whether it does not show. -/
def escapeChar (hides : Char → Bool) (c : Char) : String :=
  match c with
  | '"' => "\\\""
  | '\\' => "\\\\"
  | '\n' => "\\n"
  | '\t' => "\\t"
  | '\r' => "\\r"
  | '\x00' => "\\0"
  | c =>
    if isControl c || hides c then "\\u\x7b" ++ String.ofList (Nat.toDigits 16 c.toNat) ++ "\x7d"
    else String.singleton c

/-- A text between double quotes. -/
def doubleQuoted (hides : Char → Bool) (s : String) : String :=
  "\"" ++ String.join (s.toList.map (escapeChar hides)) ++ "\""

end ShapeFit.Text
