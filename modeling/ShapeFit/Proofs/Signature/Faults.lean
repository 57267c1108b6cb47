import ShapeFit.Proofs.Diagnostic.Lines
import ShapeFit.Proofs.Diagnostic.Pieces
import ShapeFit.Proofs.Signature.Places
import ShapeFit.Proofs.Signature.Viability

/-!
# ShapeFit.Proofs.Signature.Faults

Where the fault of a literal is, and how it is shown.

A fault that is told with a piece of the source is exactly at that piece, and the fault of
a source that ends too early is right behind its last token (`ReadError.Placed`). Either
way it begins between two characters of the source, so its label is never left out where
the source is at hand: it quotes the line on which the fault begins (`ReadError.Shown`).
`Signature.parse_error_placed` says so of every error.
-/

namespace ShapeFit

open Text

/-! ## Pieces that are no token -/

theorem Token.byteSize_unreadable_pos (c : Char) (cs : List Char) :
    0 < byteSize (unreadable (c :: cs)) := by
  obtain ⟨d, ds, hpiece⟩ : ∃ d ds, unreadable (c :: cs) = d :: ds := by
    unfold unreadable
    split
    · contradiction
    · exact ⟨_, _, rfl⟩
    · exact ⟨_, _, rfl⟩
  have hd := Char.utf8Size_pos d
  rw [hpiece, byteSize]
  omega

namespace Lexeme

/-- What stops the lexer is at the piece that it tells of. -/
theorem covers_of_readFrom_error {source cs : List Char} {pos : Nat} {done : List Lexeme}
    {e : ReadError} (hsize : byteSize source ≤ Span.limit) (hleft : Remains source pos cs)
    (h : readFrom pos cs done = .error e) :
    ∃ piece, e.fault = .unrecognisedChar (String.ofList piece) ∧ 0 < byteSize piece ∧
      e.span.Covers source piece := by
  fun_induction readFrom pos cs done with
  | case1 => contradiction
  | case2 pos done c cs hc ih => exact ih hleft.tail h
  | case3 pos done c cs hc t rest hnext hlt stop ih =>
      exact ih (hleft.drop (Token.text_append_of_next? hnext)) h
  | case4 pos done c cs hc hnext =>
      obtain ⟨rest, hrest⟩ := Token.unreadable_append (c :: cs)
      rw [← Except.error.inj h]
      exact ⟨_, rfl, Token.byteSize_unreadable_pos c cs, .ofOffsets hsize hleft hrest⟩

/-- Where the last lexeme ends. Without lexemes that is `stop`. -/
def lastStop (stop : Nat) (ls : List Lexeme) : Nat :=
  (ls.getLast?.map fun l => l.span.stop).getD stop

end Lexeme

/-! ## Tokens that make no signature -/

namespace Parser.State

/-- An early end is reported right behind the last lexeme. -/
theorem span_of_unexpectedEnd {st : State} {stop : Nat} {ls : List Lexeme} {e : ReadError}
    {expected : Expected} (h : st.run stop ls = .error e)
    (hfault : e.fault = .unexpectedEnd expected) :
    e.span = ⟨Lexeme.lastStop stop ls, Lexeme.lastStop stop ls⟩ := by
  induction ls generalizing st stop with
  | nil =>
      rw [run] at h
      cases houtcome : st.outcome with
      | ok s => simp [houtcome] at h
      | error expected =>
          simp only [houtcome, Except.error.injEq] at h
          rw [← h]
          rfl
  | cons l ls ih =>
      rw [run] at h
      cases hstep : st.step l.token with
      | none =>
          -- A token that is refused is no early end.
          simp only [hstep, Except.error.injEq] at h
          rw [← h] at hfault
          unfold refusal at hfault
          split at hfault <;> contradiction
      | some next =>
          simp only [hstep] at h
          simpa [Lexeme.lastStop, List.getLast?_cons] using ih h

end Parser.State

/-! ## Errors -/

namespace ReadError

/-- Whether an error is where it should be in its source: at the piece that it tells of, or,
where the source ends too early, between the last lexeme and what follows it. -/
def Placed (source : String) (e : ReadError) : Prop :=
  match e.fault with
  | .unexpectedToken found _ | .trailingInput found | .unrecognisedChar found =>
    e.span.start < e.span.stop ∧ e.span.Covers source.toList found.toList
  | .unexpectedEnd _ =>
    e.span.Covers source.toList [] ∧
      ∃ ls, Lexeme.read source = .ok ls ∧ e.span.start = Lexeme.lastStop source.utf8ByteSize ls

/-- Whether the diagnostic for an error is shown with the source: its one label, a primary
one, is at the error, and quotes and underlines the line on which the error begins. -/
def Shown (source : String) (e : ReadError) : Prop :=
  ∃ message above line below column width,
    e.diagnostic.labels = [⟨e.span, message, true⟩] ∧
    LineAt source.toList e.span.start above line below ∧
    column ≤ line.length ∧ byteSize above + byteSize (line.take column) = e.span.start ∧
    1 ≤ width ∧
    e.diagnostic.render source =
      e.diagnostic.header ++
        ("  |\n  | " ++ String.ofList line ++ "\n  | " ++
          String.ofList (List.replicate column ' ' ++ List.replicate width '^') ++
          " " ++ message ++ "\n") ++
        e.diagnostic.trailer

variable {source : String} {e : ReadError}

/-- An error that is where it should be covers a piece of the source. -/
theorem Placed.covers (h : e.Placed source) : ∃ piece, e.span.Covers source.toList piece := by
  unfold Placed at h
  split at h
  · exact ⟨_, h.2⟩
  · exact ⟨_, h.2⟩
  · exact ⟨_, h.2⟩
  · exact ⟨_, h.1⟩

/-- The diagnostic has one label, at the error. -/
theorem labels_diagnostic (e : ReadError) :
    ∃ message, e.diagnostic.labels = [⟨e.span, message, true⟩] := by
  obtain ⟨fault, span⟩ := e
  cases fault <;> exact ⟨_, rfl⟩

theorem Placed.shown (h : e.Placed source) : e.Shown source := by
  obtain ⟨piece, before, after, hsource, hstart, -⟩ := h.covers
  rw [List.append_assoc] at hsource
  obtain ⟨above, left, right, below, hp, hline, hchars⟩ :=
    Placement.exists_of_split hsource hstart
  obtain ⟨message, hlabels⟩ := e.labels_diagnostic
  refine ⟨message, above, left ++ right, below, left.length,
    max 1 (Placement.charsWithin right e.span.length), hlabels, hline, by simp, ?_,
    Nat.le_max_left .., ?_⟩
  · rwa [List.take_left, ← byteSize_append]
  have hblock : Label.block source.toList ⟨e.span, message, true⟩ = _ :=
    Label.block_of_placement hp
  simp only [Label.blockAt, if_true] at hblock
  rw [Diagnostic.render, hlabels, List.map_singleton, hblock]
  simp [String.join]

end ReadError

namespace Signature

/-- A token that the parser refuses is in its place. -/
theorem placed_of_refusal {source : String} {ls : List Lexeme}
    (hsize : source.utf8ByteSize ≤ Span.limit) (hread : Lexeme.read source = .ok ls) {l : Lexeme}
    (hl : l ∈ ls) (st : Parser.State) :
    ReadError.Placed source ⟨st.refusal l.token.text, l.span⟩ := by
  rw [utf8ByteSize_eq_byteSize] at hsize
  obtain ⟨hbytes, hcovers⟩ := (Lexeme.lexes_of_read hread).covers hsize (.whole _) l hl
  unfold Parser.State.refusal
  split <;> exact ⟨hcovers.start_lt_stop hbytes, hcovers⟩

/-- An end that comes too early is in its place. -/
theorem placed_of_unexpectedEnd {source : String} {ls : List Lexeme} {e : ReadError}
    {expected : Expected} (hsize : source.utf8ByteSize ≤ Span.limit)
    (hread : Lexeme.read source = .ok ls) (hfault : e.fault = .unexpectedEnd expected)
    (hspan : e.span = ⟨Lexeme.lastStop source.utf8ByteSize ls,
      Lexeme.lastStop source.utf8ByteSize ls⟩) : e.Placed source := by
  have hcovers : e.span.Covers source.toList [] := by
    rw [hspan]
    cases hlast : ls.getLast? with
    | none =>
        refine ⟨source.toList, [], by simp, ?_, ?_⟩ <;>
          simp [Lexeme.lastStop, hlast, utf8ByteSize_eq_byteSize]
    | some l =>
        rw [utf8ByteSize_eq_byteSize] at hsize
        have hl := (Lexeme.lexes_of_read hread).covers hsize (.whole _) l
          (List.mem_of_getLast? hlast)
        simpa [Lexeme.lastStop, hlast] using hl.2.behind
  rw [ReadError.Placed, hfault]
  exact ⟨hcovers, ls, hread, by rw [hspan]⟩

/-- Every error of reading a literal is exactly where its fault is in the source, and is
always shown on the line on which it begins. -/
theorem parse_error_placed {source : String} {e : ReadError}
    (hsize : source.utf8ByteSize ≤ Span.limit) (h : Signature.parse source = .error e) :
    (e.span.start ≤ e.span.stop ∧ e.span.stop ≤ source.utf8ByteSize) ∧
      e.Placed source ∧ e.Shown source := by
  have hplaced : e.Placed source := by
    cases hread : Lexeme.read source with
    | error e' =>
        -- What stopped the lexer is the error.
        rw [parse, hread] at h
        obtain rfl : e' = e := Except.error.inj h
        rw [utf8ByteSize_eq_byteSize] at hsize
        obtain ⟨piece, hfault, hbytes, hcovers⟩ :=
          Lexeme.covers_of_readFrom_error hsize (.whole _) hread
        rw [ReadError.Placed, hfault]
        exact ⟨hcovers.start_lt_stop hbytes, by simpa using hcovers⟩
    | ok ls =>
        have hrun : Parser.State.start.run source.utf8ByteSize ls = .error e := by
          -- In a source of this size the offset of its end is held as it is.
          rw [parse, hread] at h
          rwa [← Nat.min_eq_left hsize]
        obtain ⟨last, expected, -, -, hfault⟩ | ⟨front, l, back, mid, hls, -, -, he⟩ :=
          Parser.State.run_eq_error hrun
        · exact placed_of_unexpectedEnd hsize hread hfault
            (Parser.State.span_of_unexpectedEnd hrun hfault)
        · rw [he]
          exact placed_of_refusal hsize hread (by simp [hls]) mid
  obtain ⟨piece, hcovers⟩ := hplaced.covers
  rw [utf8ByteSize_eq_byteSize]
  exact ⟨hcovers.bounds, hplaced, hplaced.shown⟩

/-- A name that goes over two lines is no signature by itself: the bracket behind it, on the
second line, is refused. -/
theorem parse_error_placed_second_line :
    "[`é\nü`]".utf8ByteSize ≤ Span.limit ∧
      Signature.parse "[`é\nü`]" = .error ⟨.unexpectedToken "]" .openParen, ⟨8, 9⟩⟩ ∧
      ReadError.Placed "[`é\nü`]" ⟨.unexpectedToken "]" .openParen, ⟨8, 9⟩⟩ ∧
      ReadError.Shown "[`é\nü`]" ⟨.unexpectedToken "]" .openParen, ⟨8, 9⟩⟩ := by
  have hsize : "[`é\nü`]".utf8ByteSize ≤ Span.limit := by decide
  have hparse : Signature.parse "[`é\nü`]" =
      .error ⟨.unexpectedToken "]" .openParen, ⟨8, 9⟩⟩ := by with_unfolding_all rfl
  obtain ⟨-, hplaced, hshown⟩ := parse_error_placed hsize hparse
  exact ⟨hsize, hparse, hplaced, hshown⟩

/-- The second line is quoted, and the bracket is underlined there. -/
example : (ReadError.diagnostic ⟨.unexpectedToken "]" .openParen, ⟨8, 9⟩⟩).render "[`é\nü`]" =
    "error[E0001]: unexpected `]`, expected `(` after a type name\n" ++
      "  |\n  | ü`]\n  |   ^ expected `(` after a type name\n" := by decide +kernel

end Signature

end ShapeFit
