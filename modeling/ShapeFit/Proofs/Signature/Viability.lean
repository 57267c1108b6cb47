import ShapeFit.Proofs.Signature.Places
import ShapeFit.Proofs.Signature.Record

/-!
# ShapeFit.Proofs.Signature.Viability

A literal with a fault is refused at the first token that no signature can go on with.

Tokens are viable if some continuation completes them to a signature. Whatever is open
around a position of the parser can be closed (`Parser.State.exists_completion`), so tokens
are viable exactly if the parser can take them all (`viable_iff_feed`). It therefore stops at
no token too early and takes none that is impossible
(`Signature.parse_blames_first_impossible`).
-/

namespace ShapeFit

/-! ## Viable tokens -/

/-- Some continuation of the tokens is a signature. -/
def Viable (ts : List Token) : Prop := ∃ us s, Derives (ts ++ us) s

/-- The tokens are a signature. -/
def Complete (ts : List Token) : Prop := ∃ s, Derives ts s

namespace Parser

namespace State

/-- What closes the frames, from the inside out. -/
def closing : List Frame → List Token
  | [] => []
  | .list :: frames => .closeBracket :: closing frames
  | .arg .. :: frames => .closeParen :: closing frames

theorem feed_closing (s : Signature) (frames : List Frame) :
    ∃ r, feed ⟨.complete s, frames⟩ (closing frames) = some ⟨.complete r, []⟩ := by
  induction frames generalizing s with
  | nil => exact ⟨s, rfl⟩
  | cons frame frames ih =>
      cases frame with
      | list => exact ih (.list s)
      | arg t done n => exact ih (.composite t (⟨n, s⟩ :: done).reverse)

/-- From every state the parser can be led to the end of a signature. -/
theorem exists_completion (st : State) :
    ∃ us last s, st.feed us = some last ∧ last.outcome = .ok s := by
  obtain ⟨focus, frames⟩ := st
  cases focus with
  | signature =>
      obtain ⟨r, hr⟩ := feed_closing .wildcard frames
      exact ⟨.underscore :: closing frames, _, r, hr, rfl⟩
  | target t =>
      obtain ⟨r, hr⟩ := feed_closing (.composite t []) frames
      exact ⟨.openParen :: .closeParen :: closing frames, _, r, hr, rfl⟩
  | args t done =>
      obtain ⟨r, hr⟩ := feed_closing (.composite t done.reverse) frames
      exact ⟨.closeParen :: closing frames, _, r, hr, rfl⟩
  | word t done w =>
      -- A colon makes a name of the word, whatever it spells.
      obtain ⟨r, hr⟩ := feed_closing .wildcard (.arg t done w.name :: frames)
      exact ⟨.colon :: .underscore :: closing (.arg t done w.name :: frames), _, r, hr, rfl⟩
  | complete s =>
      obtain ⟨r, hr⟩ := feed_closing s frames
      exact ⟨closing frames, _, r, hr, rfl⟩

end State

/-- Tokens are viable exactly if the parser can take them all. -/
theorem viable_iff_feed {ts : List Token} :
    Viable ts ↔ ∃ st, State.start.feed ts = some st := by
  constructor
  · intro ⟨us, s, hderives⟩
    obtain ⟨last, hfeed, -⟩ := derives_iff_feed.mp hderives
    rw [State.feed_append, Option.bind_eq_some_iff] at hfeed
    obtain ⟨st, hst, -⟩ := hfeed
    exact ⟨st, hst⟩
  · intro ⟨st, hst⟩
    obtain ⟨us, last, s, hfeed, houtcome⟩ := st.exists_completion
    have hall : State.start.feed (ts ++ us) = some last := by
      rw [State.feed_append, hst, Option.bind_some, hfeed]
    exact ⟨us, s, derives_iff_feed.mpr ⟨last, hall, houtcome⟩⟩

variable {st next : State} {ts : List Token}

/-- Tokens are a signature exactly if one has been read after them. -/
theorem complete_iff_outcome (h : State.start.feed ts = some st) :
    Complete ts ↔ ∃ s, st.outcome = .ok s := by
  simp [Complete, derives_iff_feed, h]

/-- A token that the parser can not take after others makes them impossible. -/
theorem not_viable_concat (h : State.start.feed ts = some st) {tok : Token}
    (htok : st.step tok = none) : ¬ Viable (ts ++ [tok]) := by
  simp [viable_iff_feed, State.feed_append, h, State.feed_cons, htok]

/-! ## Where a run ends -/

/-- A run that fails has taken all tokens, or has come to one that it can not take. -/
theorem State.run_eq_error {stop : Nat} {ls : List Lexeme} {e : ReadError}
    (h : st.run stop ls = .error e) :
    (∃ last expected, st.feed (ls.map Lexeme.token) = some last ∧
      last.outcome = .error expected ∧ e.fault = .unexpectedEnd expected) ∨
    ∃ front l back mid, ls = front ++ l :: back ∧
      st.feed (front.map Lexeme.token) = some mid ∧ mid.step l.token = none ∧
      e = ⟨mid.refusal l.token.text, l.span⟩ := by
  induction ls generalizing st stop with
  | nil =>
      rw [run] at h
      cases houtcome : st.outcome with
      | ok s => simp [houtcome] at h
      | error expected =>
          have he : e.fault = .unexpectedEnd expected := by
            simp only [houtcome, Except.error.injEq] at h
            rw [← h]
          exact .inl ⟨st, expected, rfl, houtcome, he⟩
  | cons l ls ih =>
      rw [run] at h
      cases hstep : st.step l.token with
      | none =>
          simp only [hstep, Except.error.injEq] at h
          exact .inr ⟨[], l, ls, st, rfl, rfl, hstep, h.symm⟩
      | some next =>
          simp only [hstep] at h
          obtain ⟨last, expected, hfeed, hrest⟩ | ⟨front, m, back, mid, hls, hfeed, hrest⟩ := ih h
          · exact .inl ⟨last, expected, by simp [feed_cons, hstep, hfeed], hrest⟩
          · exact .inr ⟨l :: front, m, back, mid, by rw [hls, List.cons_append],
              by simp [feed_cons, hstep, hfeed], hrest⟩

end Parser

/-! ## Blame -/

/-- The tokens before index `i` can go on to be a signature, but not with the one there. -/
def FirstImpossible (ts : List Token) (i : Nat) : Prop :=
  Viable (ts.take i) ∧ ¬ Viable (ts.take (i + 1))

namespace ReadError

/-- The error is at the lexeme with index `i`, and at no other. -/
def PointsAt (e : ReadError) (ls : List Lexeme) (i : Nat) : Prop :=
  ∃ l, ls[i]? = some l ∧ e.span = l.span ∧ e.fault.found? = some l.token.text ∧
    ∀ j m, ls[j]? = some m → e.span = m.span → j = i

/-- The error is at the first of the tokens that no signature can go on with, by whether a
signature has ended before it; or no token is impossible, and more of them have to come. -/
def Explains (e : ReadError) (ls : List Lexeme) : Prop :=
  let ts := ls.map Lexeme.token
  match e.fault with
  | .unexpectedToken .. => ∃ i, e.PointsAt ls i ∧ FirstImpossible ts i ∧ ¬ Complete (ts.take i)
  | .trailingInput _ => ∃ i, e.PointsAt ls i ∧ FirstImpossible ts i ∧ Complete (ts.take i)
  | .unexpectedEnd _ => Viable ts ∧ ¬ Complete ts
  | .unrecognisedChar _ => False

end ReadError

namespace Parser

variable {source : String} {ls front back : List Lexeme} {l : Lexeme} {mid : State}

/-- A refused token is the one that the error is at. -/
theorem pointsAt_of_refusal (hread : Lexeme.read source = .ok ls)
    (hsize : source.utf8ByteSize ≤ Span.limit) (hls : ls = front ++ l :: back) (mid : State) :
    ReadError.PointsAt ⟨mid.refusal l.token.text, l.span⟩ ls front.length := by
  have hl : ls[front.length]? = some l := by simp [hls]
  have hfound : (mid.refusal l.token.text).found? = some l.token.text := by
    unfold State.refusal
    split <;> rfl
  refine ⟨l, hl, rfl, hfound, fun j m hm hspan => ?_⟩
  have hsize' : 0 + Text.byteSize source.toList ≤ Span.limit := by
    rwa [Nat.zero_add, ← Text.utf8ByteSize_eq_byteSize]
  exact (Lexeme.lexes_of_read hread).index_unique hsize' hm hl hspan.symm

theorem take_tokens (hls : ls = front ++ l :: back) :
    (ls.map Lexeme.token).take front.length = front.map Lexeme.token := by
  simp [hls]

/-- The tokens before a refused one are viable, and impossible together with it. -/
theorem firstImpossible_of_refusal (hls : ls = front ++ l :: back)
    (hfeed : State.start.feed (front.map Lexeme.token) = some mid)
    (hstep : mid.step l.token = none) :
    FirstImpossible (ls.map Lexeme.token) front.length := by
  have hupto : (ls.map Lexeme.token).take (front.length + 1) =
      front.map Lexeme.token ++ [l.token] := by
    rw [hls, List.append_cons, List.map_append, List.take_left' (by simp), List.map_append]
    rfl
  constructor
  · rw [take_tokens hls]
    exact viable_iff_feed.mpr ⟨mid, hfeed⟩
  · rw [hupto]
    exact not_viable_concat hfeed hstep

/-- A run over the lexemes of a source fails with an error that explains them. -/
theorem explains_of_run_eq_error {stop : Nat} {e : ReadError}
    (hread : Lexeme.read source = .ok ls) (hsize : source.utf8ByteSize ≤ Span.limit)
    (hrun : State.start.run stop ls = .error e) : e.Explains ls := by
  obtain ⟨last, expected, hfeed, houtcome, hfault⟩ | ⟨front, l, back, mid, hls, hfeed, hstep, he⟩ :=
    State.run_eq_error hrun
  · simp only [ReadError.Explains, hfault]
    refine ⟨viable_iff_feed.mpr ⟨last, hfeed⟩, ?_⟩
    simp [complete_iff_outcome hfeed, houtcome]
  · have hpoints := pointsAt_of_refusal hread hsize hls mid
    have hfirst := firstImpossible_of_refusal hls hfeed hstep
    rw [← he] at hpoints
    cases houtcome : mid.outcome with
    | ok s =>
        have hfault : e.fault = .trailingInput l.token.text := by
          simp [he, State.refusal, houtcome]
        have hcomplete : Complete ((ls.map Lexeme.token).take front.length) := by
          rw [take_tokens hls, complete_iff_outcome hfeed]
          exact ⟨s, houtcome⟩
        simp only [ReadError.Explains, hfault]
        exact ⟨front.length, hpoints, hfirst, hcomplete⟩
    | error expected =>
        have hfault : e.fault = .unexpectedToken l.token.text expected := by
          simp [he, State.refusal, houtcome]
        have hcomplete : ¬ Complete ((ls.map Lexeme.token).take front.length) := by
          rw [take_tokens hls, complete_iff_outcome hfeed]
          simp [houtcome]
        simp only [ReadError.Explains, hfault]
        exact ⟨front.length, hpoints, hfirst, hcomplete⟩

end Parser

/-- A source of tokens that is no signature is refused at the first token that no signature
can go on with, or at its end if there is none. A source with a piece that is no token is
refused for that piece, whatever stands before it. -/
theorem Signature.parse_blames_first_impossible {source : String}
    (hsize : source.utf8ByteSize ≤ Span.limit) :
    (∀ ls e, Lexeme.read source = .ok ls → Signature.parse source = .error e → e.Explains ls) ∧
    ∀ e, Lexeme.read source = .error e →
      Signature.parse source = .error e ∧ ∃ piece, e.fault = .unrecognisedChar piece := by
  constructor
  · intro ls e hread hparse
    rw [parse, hread] at hparse
    exact Parser.explains_of_run_eq_error hread hsize hparse
  · intro e hread
    refine ⟨?_, Lexeme.fault_of_read_error hread⟩
    rw [parse, hread]
    rfl

/-- The second of two commas is the first impossible token: an argument was due before it. -/
theorem Signature.parse_blames_first_impossible_doubled_comma :
    "A(x: [int],, _)".utf8ByteSize ≤ Span.limit ∧
    Signature.parse "A(x: [int],, _)" = .error ⟨.unexpectedToken "," .signature, ⟨11, 12⟩⟩ ∧
    ∃ ls, Lexeme.read "A(x: [int],, _)" = .ok ls ∧
      FirstImpossible (ls.map Lexeme.token) 8 ∧ ¬ Complete ((ls.map Lexeme.token).take 8) := by
  have hsize : "A(x: [int],, _)".utf8ByteSize ≤ Span.limit := by decide
  have hparse : Signature.parse "A(x: [int],, _)" =
      .error ⟨.unexpectedToken "," .signature, ⟨11, 12⟩⟩ := by with_unfolding_all rfl
  obtain ⟨ls, hread, hcomma⟩ : ∃ ls, Lexeme.read "A(x: [int],, _)" = .ok ls ∧
      ls[8]? = some ⟨.comma, ⟨11, 12⟩⟩ :=
    ⟨_, by with_unfolding_all rfl, by with_unfolding_all rfl⟩
  obtain ⟨i, ⟨l, -, -, -, honly⟩, hfirst, hcomplete⟩ :=
    (parse_blames_first_impossible hsize).1 ls _ hread hparse
  have hi : 8 = i := honly 8 _ hcomma rfl
  subst hi
  exact ⟨hsize, hparse, ls, hread, hfirst, hcomplete⟩

end ShapeFit
