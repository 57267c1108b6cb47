import ShapeFit.Proofs.Signature.Grammar

/-!
# ShapeFit.Proofs.Signature.Record

What a state of the parser records of the tokens that led to it.

The frames record the tokens that opened them (`Opens`), and the focus what has been read
since (`Records`). Taking a token keeps the record (`Records.step`), so it holds of every
state that a text leads to (`records_of_feed`). When nothing is left open, the record is a
derivation. So the parser reads exactly what the grammar derives
(`derives_iff_feed`).
-/

namespace ShapeFit

namespace Parser

/-! ## Records -/

/-- The tokens of arguments, the latest of which comes first, each with a comma behind it. -/
inductive DerivesInit : List Token → List Arg → Prop
  | nil : DerivesInit [] []
  | snoc {ts us : List Token} {a : Arg} {done : List Arg} :
      DerivesInit ts done → DerivesArg us a → DerivesInit (ts ++ (us ++ [.comma])) (a :: done)

/-- Arguments with commas behind them, and more arguments, are arguments. -/
theorem DerivesInit.append {ts us : List Token} {done args : List Arg} (h : DerivesInit ts done)
    (hargs : DerivesArgs us args) : DerivesArgs (ts ++ us) (done.reverse ++ args) := by
  induction h generalizing us args with
  | nil => exact hargs
  | snoc _ ha ih =>
      have hmore := ih (.cons ha hargs)
      simpa using hmore

mutual
/-- The tokens that opened the frames around a position. -/
inductive Opens : List Frame → List Token → Prop
  | nil : Opens [] []
  | list {frames : List Frame} {ts : List Token} :
      Opens frames ts → Opens (.list :: frames) (ts ++ [.openBracket])
  | unnamed {t : TypeName} {done : List Arg} {frames : List Frame} {ts : List Token} :
      OpensArgs t done frames ts → Opens (.arg t done "" :: frames) ts
  | named {t : TypeName} {done : List Arg} {w : Word} {frames : List Frame} {ts : List Token} :
      OpensArgs t done frames ts →
      Opens (.arg t done w.name :: frames) (ts ++ [.word w, .colon])

/-- The tokens of a composite up to a place where an argument may start. -/
inductive OpensArgs : TypeName → List Arg → List Frame → List Token → Prop
  | intro {w : Word} {done : List Arg} {frames : List Frame} {ts us : List Token} :
      w.prim? = none → Opens frames ts → DerivesInit us done →
      OpensArgs ⟨w.name⟩ done frames (ts ++ .word w :: .openParen :: us)
end

/-- What a state records of the tokens that led to it. -/
inductive Records : State → List Token → Prop
  | signature {frames : List Frame} {ts : List Token} :
      Opens frames ts → Records ⟨.signature, frames⟩ ts
  | target {w : Word} {frames : List Frame} {ts : List Token} :
      w.prim? = none → Opens frames ts → Records ⟨.target ⟨w.name⟩, frames⟩ (ts ++ [.word w])
  | args {t : TypeName} {done : List Arg} {frames : List Frame} {ts : List Token} :
      OpensArgs t done frames ts → Records ⟨.args t done, frames⟩ ts
  | word {t : TypeName} {done : List Arg} {w : Word} {frames : List Frame} {ts : List Token} :
      OpensArgs t done frames ts → Records ⟨.word t done w, frames⟩ (ts ++ [.word w])
  | complete {s : Signature} {frames : List Frame} {ts us : List Token} :
      Opens frames ts → Derives us s → Records ⟨.complete s, frames⟩ (ts ++ us)

/-- After an argument and a comma another argument may start. -/
theorem OpensArgs.comma {t : TypeName} {done : List Arg} {frames : List Frame}
    {ts us : List Token} {a : Arg} (h : OpensArgs t done frames ts) (ha : DerivesArg us a) :
    OpensArgs t (a :: done) frames (ts ++ (us ++ [.comma])) := by
  cases h with
  | intro hw hframes hinit =>
      have hmore := OpensArgs.intro hw hframes (hinit.snoc ha)
      simpa using hmore

/-- The closing parenthesis makes a composite of its arguments. -/
theorem OpensArgs.close {t : TypeName} {done args : List Arg} {frames : List Frame}
    {ts us : List Token} (h : OpensArgs t done frames ts) (hargs : DerivesArgs us args) :
    Records ⟨.complete (.composite t (done.reverse ++ args)), frames⟩
      (ts ++ (us ++ [.closeParen])) := by
  cases h with
  | intro hw hframes hinit =>
      have hcomplete := Records.complete hframes (.composite hw (hinit.append hargs))
      simpa using hcomplete

/-- A signature read in the place of an argument is that argument, with the name that
stands before it. -/
theorem Opens.arg {t : TypeName} {done : List Arg} {n : String} {frames : List Frame}
    {ts us : List Token} {s : Signature} (h : Opens (.arg t done n :: frames) ts)
    (hs : Derives us s) :
    ∃ front back, ts ++ us = front ++ back ∧ OpensArgs t done frames front ∧
      DerivesArg back ⟨n, s⟩ := by
  cases h with
  | unnamed hargs => exact ⟨ts, us, rfl, hargs, .unnamed hs⟩
  | @named _ _ w _ front hargs =>
      refine ⟨front, .word w :: .colon :: us, ?_, hargs, .named hs⟩
      simp

/-! ## Taking a token -/

namespace Records

variable {st next : State} {frames : List Frame} {ts us : List Token} {tok : Token}

theorem ofWord (h : Opens frames ts) (w : Word) :
    Records (State.ofWord w frames) (ts ++ [.word w]) := by
  rw [State.ofWord]
  cases hw : w.prim? with
  | some k => exact .complete h (.prim hw)
  | none => exact .target hw h

/-- A word that turns out to start an argument without a name. -/
theorem settled (h : Records st ts) : Records st.settled ts := by
  cases h with
  | word hargs => exact ofWord (.unnamed hargs) _
  | signature hframes => exact .signature hframes
  | target hw hframes => exact .target hw hframes
  | args hargs => exact .args hargs
  | complete hframes hs => exact .complete hframes hs

theorem begin (h : Opens frames ts) (hnext : State.begin frames tok = some next) :
    Records next (ts ++ [tok]) := by
  cases tok with
  | underscore =>
      cases hnext
      exact .complete h .wildcard
  | openBracket =>
      cases hnext
      exact .signature (.list h)
  | word w =>
      cases hnext
      exact ofWord h w
  | openParen | closeParen | closeBracket | comma | colon => contradiction

theorem resume {s : Signature} (h : Opens frames ts) (hs : Derives us s)
    (hnext : State.resume s frames tok = some next) : Records next (ts ++ us ++ [tok]) := by
  cases frames with
  | nil => contradiction
  | cons frame frames =>
      cases frame with
      | list =>
          cases tok with
          | closeBracket =>
              cases hnext
              cases h with
              | list hframes =>
                  have hlist := Records.complete hframes (.list hs)
                  simpa using hlist
          | underscore | openBracket | word | openParen | closeParen | comma | colon =>
              contradiction
      | arg t done n =>
          obtain ⟨front, back, hsplit, hargs, ha⟩ := h.arg hs
          rw [hsplit, List.append_assoc]
          cases tok with
          | comma =>
              cases hnext
              exact .args (hargs.comma ha)
          | closeParen =>
              cases hnext
              rw [List.reverse_cons]
              exact hargs.close (.last ha)
          | underscore | openBracket | word | openParen | closeBracket | colon => contradiction

theorem advance (h : Records st ts) (hnext : st.advance tok = some next) :
    Records next (ts ++ [tok]) := by
  cases h with
  | signature hframes => exact begin hframes hnext
  | @target w frames ts hw hframes =>
      cases tok with
      | openParen =>
          cases hnext
          have hopen := OpensArgs.intro hw hframes .nil
          rw [List.append_assoc]
          exact .args hopen
      | underscore | openBracket | word | closeParen | closeBracket | comma | colon =>
          contradiction
  | args hargs =>
      cases tok with
      | closeParen =>
          cases hnext
          have hclose := hargs.close .nil
          simpa using hclose
      | word w =>
          cases hnext
          exact .word hargs
      | underscore | openBracket | openParen | closeBracket | comma | colon =>
          exact begin (.unnamed hargs) hnext
  | word => contradiction
  | complete hframes hs => exact resume hframes hs hnext

/-- Taking a token keeps the record. -/
theorem step (h : Records st ts) (hnext : st.step tok = some next) :
    Records next (ts ++ [tok]) := by
  by_cases hcolon : tok = .colon
  · subst hcolon
    cases h with
    | word hargs =>
        cases hnext
        rw [List.append_assoc]
        exact .signature (.named hargs)
    | signature hframes => exact advance (.signature hframes) hnext
    | target hw hframes => exact advance (.target hw hframes) hnext
    | args hargs => exact advance (.args hargs) hnext
    | complete hframes hs => exact advance (.complete hframes hs) hnext
  · rw [State.step_of_ne_colon st tok hcolon] at hnext
    exact h.settled.advance hnext

/-- Taking several tokens keeps the record. -/
theorem feed (h : Records st ts) (hlast : st.feed us = some next) : Records next (ts ++ us) := by
  induction us generalizing st ts with
  | nil =>
      rw [State.feed_nil, Option.some.injEq] at hlast
      rw [List.append_nil, ← hlast]
      exact h
  | cons tok us ih =>
      rw [State.feed_cons, Option.bind_eq_some_iff] at hlast
      obtain ⟨mid, hmid, hrest⟩ := hlast
      have hall := ih (h.step hmid) hrest
      simpa using hall

end Records

/-- Every state that tokens lead to records them. -/
theorem records_of_feed {ts : List Token} {last : State} (h : State.start.feed ts = some last) :
    Records last ts :=
  Records.feed (.signature .nil) h

/-! ## Reading what the grammar derives -/

/-- A state with nothing left open around a signature. -/
theorem State.outcome_eq_ok_iff {st : State} {s : Signature} :
    st.outcome = .ok s ↔ st.settled = ⟨.complete s, []⟩ := by
  rw [outcome]
  constructor
  · intro h
    split at h
    · next hsettled =>
        rw [Except.ok.injEq] at h
        rw [hsettled, h]
    all_goals contradiction
  · intro h
    rw [h]

/-- Tokens derive a signature exactly if the parser can take them all and has read it then. -/
theorem derives_iff_feed {ts : List Token} {s : Signature} :
    Derives ts s ↔ ∃ last, State.start.feed ts = some last ∧ last.outcome = .ok s := by
  constructor
  · intro h
    exact ⟨_, State.feed_of_derives h [], rfl⟩
  · intro ⟨last, hfeed, houtcome⟩
    have hrecord := (records_of_feed hfeed).settled
    rw [State.outcome_eq_ok_iff] at houtcome
    rw [houtcome] at hrecord
    cases hrecord with
    | complete hframes hs =>
        cases hframes
        exact hs

end Parser

end ShapeFit
