import ShapeFit.Signature
import ShapeFit.Signature.Lexeme

/-!
# ShapeFit.Signature.Parser

Reading signature literals:

```
sig  =  PRIM  |  "[" sig "]"  |  "_"  |  NAME "(" [ arg { "," arg } [ "," ] ] ")"
arg  =  [ NAME ":" ] sig
```

A `PRIM` is a bare word that spells a primitive kind; every other word is a
`NAME`. Before a colon any word is a name.

The parser is a machine that takes one token at a time. Its state holds what has
been read and what is still open around it, so nesting is not limited by a call
stack, and what has come of a state (`State.outcome`) is one function of it: with a
whole signature read, a token that cannot be taken is trailing input; any other
state names what should have come.
-/

namespace ShapeFit

namespace Parser

/-- Something open around the current position. -/
inductive Frame where
  /-- A list whose element is being read. -/
  | list
  /-- A composite whose argument `name` is being read. The arguments before it
  are in `done`, the latest first. -/
  | arg (target : TypeName) (done : List Arg) (name : String)

/-- What is to be read next. -/
inductive Focus where
  /-- A signature has to start. -/
  | signature
  /-- A target's name has been read; its arguments have to follow. -/
  | target (target : TypeName)
  /-- An argument may start, or the arguments end. -/
  | args (target : TypeName) (done : List Arg)
  /-- An argument has started with a word: its name, if a colon follows. -/
  | word (target : TypeName) (done : List Arg) (w : Word)
  /-- A signature has been read. -/
  | complete (s : Signature)

/-- A state of the parser. The innermost frame comes first. -/
structure State where
  focus : Focus
  frames : List Frame

namespace State

/-- The state before the first token. -/
def start : State := ⟨.signature, []⟩

/-- A signature that starts with a word: a primitive, or the target of a composite. -/
def ofWord (w : Word) (frames : List Frame) : State :=
  match w.prim? with
  | some k => ⟨.complete (.prim k), frames⟩
  | none => ⟨.target ⟨w.name⟩, frames⟩

/-- The same state with a word that is not followed by a colon taken as the start
of an argument without a name. -/
def settled : State → State
  | ⟨.word t done w, frames⟩ => ofWord w (.arg t done "" :: frames)
  | st => st

/-- Starts a signature. -/
def begin (frames : List Frame) : Token → Option State
  | .underscore => some ⟨.complete .wildcard, frames⟩
  | .openBracket => some ⟨.signature, .list :: frames⟩
  | .word w => some (ofWord w frames)
  | .openParen | .closeParen | .closeBracket | .comma | .colon => none

/-- Goes on after a whole signature, inside of what is open around it. -/
def resume (s : Signature) : List Frame → Token → Option State
  | .list :: frames, .closeBracket => some ⟨.complete (.list s), frames⟩
  | .arg t done n :: frames, .comma => some ⟨.args t (⟨n, s⟩ :: done), frames⟩
  | .arg t done n :: frames, .closeParen =>
    some ⟨.complete (.composite t (⟨n, s⟩ :: done).reverse), frames⟩
  | _, _ => none

/-- Takes a token in a state whose focus is not a word. -/
def advance : State → Token → Option State
  | ⟨.signature, frames⟩, tok => begin frames tok
  | ⟨.target t, frames⟩, .openParen => some ⟨.args t [], frames⟩
  | ⟨.args t done, frames⟩, .closeParen => some ⟨.complete (.composite t done.reverse), frames⟩
  | ⟨.args t done, frames⟩, .word w => some ⟨.word t done w, frames⟩
  | ⟨.args t done, frames⟩, tok => begin (.arg t done "" :: frames) tok
  | ⟨.complete s, frames⟩, tok => resume s frames tok
  | _, _ => none

/-- Takes a token. There is no next state if the token cannot stand there. -/
def step : State → Token → Option State
  | ⟨.word t done w, frames⟩, .colon => some ⟨.signature, .arg t done w.name :: frames⟩
  | st, tok => st.settled.advance tok

/-- What has come of a state: the signature read, if nothing is open around it,
and otherwise what is lacking. -/
def outcome (st : State) : Except Expected Signature :=
  match st.settled with
  | ⟨.complete s, []⟩ => .ok s
  | ⟨.complete _, .list :: _⟩ => .error .closeBracket
  | ⟨.complete _, .arg .. :: _⟩ => .error .commaOrCloseParen
  | ⟨.target _, _⟩ => .error .openParen
  | _ => .error .signature

/-- The fault of a token, with text `found`, that cannot stand in a state. -/
def refusal (st : State) (found : String) : ReadFault :=
  match st.outcome with
  | .ok _ => .trailingInput found
  | .error expected => .unexpectedToken found expected

/-- Takes tokens to the end. An early end is reported at `stop`, the place where
the last token ended. -/
def run (st : State) (stop : Nat) : List Lexeme → Except ReadError Signature
  | [] =>
    match st.outcome with
    | .ok s => .ok s
    | .error expected => .error ⟨.unexpectedEnd expected, ⟨stop, stop⟩⟩
  | l :: ls =>
    match st.step l.token with
    | some next => run next l.span.stop ls
    | none => .error ⟨st.refusal l.token.text, l.span⟩

end State

end Parser

/-- Reads a signature literal. If it has no token at all, its end is reported at
the end of the source.

A token carries its text, so a source of any size is read. Spans do not go past
`Span.limit` bytes, though: to cut the text of a token out of the source again at
its span gives the same text in sources up to that size only. -/
def Signature.parse (source : String) : Except ReadError Signature := do
  let lexemes ← Lexeme.read source
  Parser.State.start.run (min source.utf8ByteSize Span.limit) lexemes

end ShapeFit
