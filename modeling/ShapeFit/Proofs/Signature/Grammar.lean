import ShapeFit.Signature.Parser

/-!
# ShapeFit.Proofs.Signature.Grammar

The grammar of signature literals, as derivations over tokens, and that the parser
follows them: from a state in which a signature has to start, the tokens that derive a
signature lead to the state in which it has been read
(`Parser.State.feed_of_derives`).
-/

namespace ShapeFit

mutual
/-- The tokens of a signature. -/
inductive Derives : List Token → Signature → Prop
  | prim {w : Word} {k : Prim} : w.prim? = some k → Derives [.word w] (.prim k)
  | list {ts : List Token} {e : Signature} :
      Derives ts e → Derives (.openBracket :: (ts ++ [.closeBracket])) (.list e)
  | wildcard : Derives [.underscore] .wildcard
  | composite {w : Word} {ts : List Token} {args : List Arg} :
      w.prim? = none → DerivesArgs ts args →
      Derives (.word w :: .openParen :: (ts ++ [.closeParen])) (.composite ⟨w.name⟩ args)

/-- The tokens of an argument, with its name or without. -/
inductive DerivesArg : List Token → Arg → Prop
  | unnamed {ts : List Token} {s : Signature} : Derives ts s → DerivesArg ts ⟨"", s⟩
  | named {w : Word} {ts : List Token} {s : Signature} :
      Derives ts s → DerivesArg (.word w :: .colon :: ts) ⟨w.name, s⟩

/-- The tokens of arguments, with a comma between them and maybe one after the last. -/
inductive DerivesArgs : List Token → List Arg → Prop
  | nil : DerivesArgs [] []
  | last {ts : List Token} {a : Arg} : DerivesArg ts a → DerivesArgs ts [a]
  | cons {ts us : List Token} {a : Arg} {as : List Arg} :
      DerivesArg ts a → DerivesArgs us as → DerivesArgs (ts ++ .comma :: us) (a :: as)
end

namespace Parser.State

/-! ## Taking several tokens -/

/-- Takes tokens one after the other. -/
def feed (st : State) (ts : List Token) : Option State := ts.foldlM step st

theorem feed_nil (st : State) : st.feed [] = some st := rfl

theorem feed_cons (st : State) (t : Token) (ts : List Token) :
    st.feed (t :: ts) = (st.step t).bind fun next => next.feed ts := List.foldlM_cons

theorem feed_append (st : State) (ts us : List Token) :
    st.feed (ts ++ us) = (st.feed ts).bind fun next => next.feed us := List.foldlM_append

/-- A run reads a signature exactly if all tokens can be taken and the signature has been
read then. -/
theorem run_eq_ok_iff {st : State} {stop : Nat} {ls : List Lexeme} {s : Signature} :
    st.run stop ls = .ok s ↔
      ∃ last, st.feed (ls.map Lexeme.token) = some last ∧ last.outcome = .ok s := by
  induction ls generalizing st stop with
  | nil =>
      rw [run, List.map_nil, feed_nil]
      cases h : st.outcome <;> simp [h]
  | cons l ls ih =>
      rw [run, List.map_cons, feed_cons]
      cases st.step l.token with
      | none => simp
      | some next => simp [ih]

/-- A token other than a colon makes a word that starts an argument part of its
signature. -/
theorem step_of_ne_colon (st : State) (t : Token) (ht : t ≠ .colon) :
    st.step t = st.settled.advance t := by
  unfold step
  split
  · contradiction
  · rfl

/-! ## Following a derivation -/

/-- An argument without a name is read as its signature is. Only a first word may still
wait for a colon. -/
theorem feed_args_of_feed {ts : List Token} {s : Signature} (h : Derives ts s) {t : TypeName}
    {done : List Arg} {frames : List Frame}
    (hfeed : feed ⟨.signature, .arg t done "" :: frames⟩ ts =
      some ⟨.complete s, .arg t done "" :: frames⟩) :
    ∃ st, feed ⟨.args t done, frames⟩ ts = some st ∧
      st.settled = ⟨.complete s, .arg t done "" :: frames⟩ := by
  cases h with
  | prim hw =>
      refine ⟨⟨.word t done _, frames⟩, rfl, ?_⟩
      rw [settled, ofWord, hw]
  | list he => exact ⟨_, hfeed, rfl⟩
  | wildcard => exact ⟨_, hfeed, rfl⟩
  | @composite w us args hw hargs =>
      have hword : step ⟨.args t done, frames⟩ (.word w) = some ⟨.word t done w, frames⟩ := rfl
      have hopen : step ⟨.word t done w, frames⟩ .openParen =
          step (ofWord w (.arg t done "" :: frames)) .openParen := by
        rw [step_of_ne_colon _ .openParen (by simp), settled, ofWord, hw]
        rfl
      refine ⟨⟨.complete (.composite ⟨w.name⟩ args), .arg t done "" :: frames⟩, ?_, rfl⟩
      rw [feed_cons, hword, Option.bind_some, feed_cons, hopen]
      exact hfeed

mutual
/-- The tokens that derive a signature lead to its end, inside of whatever is open. -/
theorem feed_of_derives {ts : List Token} {s : Signature} (h : Derives ts s)
    (frames : List Frame) : feed ⟨.signature, frames⟩ ts = some ⟨.complete s, frames⟩ := by
  match h with
  | .prim (w := w) hw =>
      have hstep : step ⟨.signature, frames⟩ (.word w) = some (ofWord w frames) := rfl
      rw [feed_cons, hstep, ofWord, hw]
      rfl
  | .list he =>
      have hstep : step ⟨.signature, frames⟩ .openBracket = some ⟨.signature, .list :: frames⟩ :=
        rfl
      rw [feed_cons, hstep, Option.bind_some, feed_append, feed_of_derives he]
      rfl
  | .wildcard => rfl
  | .composite (w := w) hw hargs =>
      have hstep : step ⟨.signature, frames⟩ (.word w) = some (ofWord w frames) := rfl
      have hopen : step ⟨.target ⟨w.name⟩, frames⟩ .openParen = some ⟨.args ⟨w.name⟩ [], frames⟩ :=
        rfl
      rw [feed_cons, hstep, Option.bind_some, ofWord, hw, feed_cons, hopen, Option.bind_some]
      exact feed_of_derivesArgs hargs ⟨w.name⟩ [] frames
termination_by structural h

theorem feed_of_derivesArg {ts : List Token} {a : Arg} (h : DerivesArg ts a) (t : TypeName)
    (done : List Arg) (frames : List Frame) :
    ∃ st, feed ⟨.args t done, frames⟩ ts = some st ∧
      st.settled = ⟨.complete a.val, .arg t done a.name :: frames⟩ := by
  match h with
  | .unnamed hs => exact feed_args_of_feed hs (feed_of_derives hs _)
  | .named hs => exact ⟨_, feed_of_derives hs _, rfl⟩
termination_by structural h

theorem feed_of_derivesArgs {ts : List Token} {args : List Arg} (h : DerivesArgs ts args)
    (t : TypeName) (done : List Arg) (frames : List Frame) :
    feed ⟨.args t done, frames⟩ (ts ++ [.closeParen]) =
      some ⟨.complete (.composite t (done.reverse ++ args)), frames⟩ := by
  match h with
  | .nil =>
      rw [List.append_nil]
      rfl
  | .last (a := a) ha =>
      obtain ⟨st, hfeed, hsettled⟩ := feed_of_derivesArg ha t done frames
      rw [feed_append, hfeed, Option.bind_some, feed_cons,
        step_of_ne_colon st .closeParen (by simp), hsettled]
      simp [advance, resume, feed_nil]
  | .cons (a := a) ha has =>
      obtain ⟨st, hfeed, hsettled⟩ := feed_of_derivesArg ha t done frames
      have hcomma : step st .comma = some ⟨.args t (a :: done), frames⟩ := by
        rw [step_of_ne_colon st .comma (by simp), hsettled]
        rfl
      rw [List.append_assoc, List.cons_append, feed_append, hfeed, Option.bind_some, feed_cons,
        hcomma, Option.bind_some, feed_of_derivesArgs has]
      simp
termination_by structural h
end

end Parser.State

/-- A source whose tokens derive a signature is read as it. -/
theorem Signature.parse_of_derives {source : String} {ls : List Lexeme} {s : Signature}
    (hread : Lexeme.read source = .ok ls) (h : Derives (ls.map Lexeme.token) s) :
    Signature.parse source = .ok s := by
  have hrun : Parser.State.start.run (min source.utf8ByteSize Span.limit) ls = .ok s := by
    rw [Parser.State.run_eq_ok_iff]
    exact ⟨_, Parser.State.feed_of_derives h [], rfl⟩
  rw [parse, hread]
  exact hrun

end ShapeFit
