import ShapeFit.Proofs.Diagnostic.Pieces
import ShapeFit.Proofs.Signature.Patterns
import ShapeFit.Proofs.Signature.Places

/-!
# ShapeFit.Proofs.Signature.Tiling

Lexemes as a partition of their source.

`Tiles` says that lexemes cover a source up to some position: each stands at the longest piece
that is in the pattern of any token, and what is between them is blank. No tiling goes past a
position at which nothing matches (`Tiles.le_of_unmatched`), so there is one such position at
most. The lexer either tiles its source or stops at that position (`Lexeme.read_tiles`).
-/

namespace ShapeFit

open Computability Text Pattern

/-! ## Matches -/

/-- Whether a character that may stand between tokens is at a position. Each of them takes one
byte. -/
def BlankAt (source : List Char) (i : Nat) : Prop :=
  ∃ c rest, Remains source i (c :: rest) ∧ c ∈ [' ', '\t', '\r', '\n']

/-- Whether the piece between two positions is in the pattern of a token. -/
def Matches (source : List Char) (start stop : Nat) : Prop :=
  ∃ (t : Token) (piece : List Char), piece ∈ t.pattern ∧ Span.Covers ⟨start, stop⟩ source piece

/-- Whether no token and no blank begins at a position. -/
def Unmatched (source : List Char) (i : Nat) : Prop :=
  ¬ BlankAt source i ∧ ∀ stop, ¬ Matches source i stop

theorem Lexeme.isBlank_iff {c : Char} : isBlank c = true ↔ c ∈ [' ', '\t', '\r', '\n'] := by
  simp [isBlank, or_assoc]

theorem Lexeme.utf8Size_of_isBlank {c : Char} (hc : isBlank c = true) : c.utf8Size = 1 := by
  simp only [isBlank, Bool.or_eq_true, beq_iff_eq] at hc
  obtain ((rfl | rfl) | rfl) | rfl := hc <;> rfl

namespace Matches

variable {source cs rest : List Char} {pos stop : Nat} {t : Token}

/-- What matches is no longer than the token that is read. -/
theorem stop_le (h : Matches source pos stop) (hleft : Remains source pos cs)
    (hnext : Token.next? cs = some (t, rest)) : stop ≤ pos + byteSize t.text.toList := by
  obtain ⟨t', piece, hpiece, hcovers⟩ := h
  obtain ⟨⟨after, hcs⟩, hstop⟩ := hcovers.exists_rest hleft
  obtain ⟨t'', more, rest', hnext', htext⟩ := Token.next?_of_mem_pattern hpiece after
  rw [hcs, hnext, Option.some.injEq, Prod.mk.injEq] at hnext'
  rw [hnext'.1, htext, byteSize_append]
  simp only at hstop
  omega

/-- Where something matches, a token is read. -/
theorem exists_next? (h : Matches source pos stop) (hleft : Remains source pos cs) :
    ∃ t rest, Token.next? cs = some (t, rest) := by
  obtain ⟨t', piece, hpiece, hcovers⟩ := h
  obtain ⟨⟨after, hcs⟩, -⟩ := hcovers.exists_rest hleft
  obtain ⟨t'', -, rest', hnext', -⟩ := Token.next?_of_mem_pattern hpiece after
  exact ⟨t'', rest', hcs ▸ hnext'⟩

/-- Nothing matches at a blank. -/
theorem not_blankAt (h : Matches source pos stop) : ¬ BlankAt source pos := by
  rintro ⟨c, rest, hleft, hc⟩
  obtain ⟨t, rest', hnext⟩ := h.exists_next? hleft
  rw [Token.next?_of_isBlank (Lexeme.isBlank_iff.mpr hc)] at hnext
  contradiction

end Matches

/-! ## Tilings -/

/-- The lexemes cover a source up to the position `stop`. -/
structure Tiles (source : List Char) (stop : Nat) (ls : List Lexeme) : Prop where
  nonempty : ∀ l ∈ ls, l.span.start < l.span.stop
  ordered : ls.Pairwise fun l m => l.span.stop ≤ m.span.start
  within : ∀ l ∈ ls, l.span.stop ≤ stop
  /-- What is outside of the lexemes is blank. -/
  blank : ∀ i < stop, (∀ l ∈ ls, i < l.span.start ∨ l.span.stop ≤ i) → BlankAt source i
  /-- Each lexeme is at the text of its token, which is in the pattern of the token. -/
  covers : ∀ l ∈ ls,
    l.span.Covers source l.token.text.toList ∧ l.token.text.toList ∈ l.token.pattern
  /-- No longer piece is in the pattern of any token. -/
  longest : ∀ l ∈ ls, ∀ stop', Matches source l.span.start stop' → stop' ≤ l.span.stop

namespace Tiles

variable {source cs rest : List Char} {pos p q : Nat} {c : Char} {t : Token} {ls ms : List Lexeme}

theorem nil : Tiles source 0 [] where
  nonempty := nofun
  ordered := .nil
  within := nofun
  blank := nofun
  covers := nofun
  longest := nofun

/-- A blank goes to the end of a tiling. -/
theorem skip (h : Tiles source pos ls) (hleft : Remains source pos (c :: cs))
    (hc : Lexeme.isBlank c = true) : Tiles source (pos + c.utf8Size) ls where
  nonempty := h.nonempty
  ordered := h.ordered
  within l hl := Nat.le_add_right_of_le (h.within l hl)
  blank i hi houtside := by
    rw [Lexeme.utf8Size_of_isBlank hc] at hi
    by_cases hlt : i < pos
    · exact h.blank i hlt houtside
    · obtain rfl : i = pos := by omega
      exact ⟨c, cs, hleft, Lexeme.isBlank_iff.mp hc⟩
  covers := h.covers
  longest := h.longest

/-- A token that is read goes to the end of a tiling. -/
theorem concat (h : Tiles source pos ls) (hleft : Remains source pos cs)
    (hnext : Token.next? cs = some (t, rest)) :
    Tiles source (pos + byteSize t.text.toList)
      (ls ++ [⟨t, ⟨pos, pos + byteSize t.text.toList⟩⟩]) where
  nonempty := by
    have hpos := Token.byteSize_text_pos hnext
    rw [List.forall_mem_append, List.forall_mem_singleton]
    exact ⟨h.nonempty, Nat.lt_add_of_pos_right hpos⟩
  ordered := by
    rw [List.pairwise_append]
    refine ⟨h.ordered, List.pairwise_singleton .., fun l hl m hm => ?_⟩
    rw [List.mem_singleton] at hm
    rw [hm]
    exact h.within l hl
  within := by
    rw [List.forall_mem_append, List.forall_mem_singleton]
    exact ⟨fun l hl => Nat.le_add_right_of_le (h.within l hl), Nat.le_refl _⟩
  blank i hi houtside := by
    rw [List.forall_mem_append, List.forall_mem_singleton] at houtside
    refine h.blank i ?_ houtside.1
    have hlast : i < pos ∨ pos + byteSize t.text.toList ≤ i := houtside.2
    omega
  covers := by
    rw [List.forall_mem_append, List.forall_mem_singleton]
    exact ⟨h.covers, .of_remains hleft (Token.text_append_of_next? hnext),
      Token.mem_pattern_of_next? hnext⟩
  longest := by
    rw [List.forall_mem_append, List.forall_mem_singleton]
    exact ⟨h.longest, fun stop' hmatches => hmatches.stop_le hleft hnext⟩

/-! ## One tiling -/

theorem matches_of_mem (h : Tiles source p ls) {l : Lexeme} (hl : l ∈ ls) :
    Matches source l.span.start l.span.stop :=
  ⟨l.token, _, (h.covers l hl).2, (h.covers l hl).1⟩

/-- Of two lexemes, the one that begins first ends before the other begins. -/
theorem stop_le_start (h : Tiles source p ls) {l m : Lexeme} (hl : l ∈ ls) (hm : m ∈ ls)
    (hlt : l.span.start < m.span.start) : l.span.stop ≤ m.span.start := by
  obtain ⟨i, hi, rfl⟩ := List.getElem_of_mem hl
  obtain ⟨j, hj, rfl⟩ := List.getElem_of_mem hm
  have hordered := List.pairwise_iff_getElem.mp h.ordered
  obtain hij | hij | hij := Nat.lt_trichotomy i j
  · exact hordered i j hi hj hij
  · subst hij
    omega
  · have hle := hordered j i hj hi hij
    have hm' := h.nonempty _ hm
    omega

/-- Where a match begins in the range of a tiling, there is a lexeme. -/
theorem exists_mem_of_matches (h : Tiles source p ls) {i stop : Nat} (hi : i < p)
    (hmatches : Matches source i stop) :
    ∃ l ∈ ls, l.span.start ≤ i ∧ i < l.span.stop := by
  by_contra hnone
  refine hmatches.not_blankAt (h.blank i hi fun l hl => ?_)
  by_contra hinside
  exact hnone ⟨l, hl, by omega⟩

/-- No lexeme of one tiling goes over the end of another one, or over the beginning of a lexeme
of it. -/
theorem not_straddles {source : List Char} {p q : Nat} {ls ms : List Lexeme}
    (h : Tiles source p ls) (h' : Tiles source q ms) {m : Lexeme} (hm : m ∈ ms) {k : Nat}
    (hk : k = p ∨ ∃ l ∈ ls, l.span.start = k) (hstart : m.span.start < k) :
    m.span.stop ≤ k := by
  have hkp : k ≤ p := by
    obtain rfl | ⟨l, hl, rfl⟩ := hk
    · exact Nat.le_refl _
    · exact Nat.le_of_lt (Nat.lt_of_lt_of_le (h.nonempty l hl) (h.within l hl))
  obtain ⟨l, hl, hle, hlt⟩ := h.exists_mem_of_matches (Nat.lt_of_lt_of_le hstart hkp)
    (h'.matches_of_mem hm)
  obtain heq | hbefore := Nat.eq_or_lt_of_le hle
  · -- They begin together, so the other one is as long.
    have hlong : m.span.stop ≤ l.span.stop :=
      h.longest l hl _ (heq ▸ h'.matches_of_mem hm)
    obtain rfl | ⟨l', hl', rfl⟩ := hk
    · exact Nat.le_trans hlong (h.within l hl)
    · exact Nat.le_trans hlong (h.stop_le_start hl hl' (by omega))
  · -- The other one begins earlier and would go over the beginning of this one.
    have hstop := not_straddles h' h hl (.inr ⟨m, hm, rfl⟩) hbefore
    omega
termination_by m.span.start

/-- No tiling goes past the end of another one at which nothing matches. -/
theorem le_of_unmatched (h : Tiles source p ls) (hp : Unmatched source p)
    (h' : Tiles source q ms) : q ≤ p := by
  by_contra hlt
  refine hp.1 (h'.blank p (by omega) fun m hm => ?_)
  by_contra hinside
  obtain heq | hbefore := Nat.eq_or_lt_of_le (show m.span.start ≤ p by omega)
  · exact hp.2 _ (heq ▸ h'.matches_of_mem hm)
  · have hstop := h.not_straddles h' hm (.inl rfl) hbefore
    omega

end Tiles

/-! ## What the lexer does -/

/-- Whether `run` is the longest run of items at the front of a text. -/
def LongestItems (cs run : List Char) : Prop :=
  run ∈ item∗ ∧ run <+: cs ∧ ∀ run' ∈ item∗, run' <+: cs → run'.length ≤ run.length

/-- Whether a span is where the lexer has to stop: at the first position behind a tiling at which
nothing matches. -/
structure Stuck (source : List Char) (span : Span) : Prop where
  tiled : ∃ ls, Tiles source span.start ls
  unmatched : Unmatched source span.start
  first : ∀ p ls, Tiles source p ls → Unmatched source p → span.start ≤ p
  /-- The span is one character wide. From a backtick it goes on over the items behind it. -/
  blamed : ∃ c cs, Remains source span.start (c :: cs) ∧
    if c = '\x60' then ∃ run, LongestItems cs run ∧ span.Covers source ('\x60' :: run)
    else span.Covers source [c]

/-- Whether a result is the tokens that tile all of the source, or is stuck in it. -/
def Lexeme.Tokenizes (source : List Char) : Except ReadError (List Lexeme) → Prop
  | .ok ls => Tiles source (byteSize source) ls
  | .error e => Stuck source e.span

namespace Token

/-- No items at the front of a text go further than the name that is read there. -/
theorem longestItems (cs : List Char) : LongestItems cs (Name.encode (Name.decodeRun cs).1) := by
  refine ⟨Name.encode_mem_kstar _, ⟨_, Name.encode_decodeRun_append cs⟩, fun run hrun hprefix => ?_⟩
  obtain ⟨rest, rfl⟩ := hprefix
  rw [(Name.decodeRun_append_of_mem hrun rest).1, List.length_append]
  exact Nat.le_add_right ..

end Token

namespace Stuck

variable {source cs : List Char} {pos : Nat} {c : Char} {ls : List Lexeme}

/-- Where no blank and no token is read, nothing matches. -/
theorem unmatched_of_next? (hleft : Remains source pos (c :: cs))
    (hc : Lexeme.isBlank c = false) (hnext : Token.next? (c :: cs) = none) :
    Unmatched source pos := by
  constructor
  · rintro ⟨d, rest, hleft', hd⟩
    obtain ⟨rfl, -⟩ := List.cons.inj (hleft.unique hleft')
    rw [Lexeme.isBlank_iff.mpr hd] at hc
    contradiction
  · intro stop hmatches
    obtain ⟨t, rest, hnext'⟩ := hmatches.exists_next? hleft
    rw [hnext] at hnext'
    contradiction

/-- The lexer is stuck where it reads neither a blank nor a token. -/
theorem of_tiles (h : Tiles source pos ls) (hleft : Remains source pos (c :: cs))
    (hc : Lexeme.isBlank c = false) (hnext : Token.next? (c :: cs) = none) :
    Stuck source ⟨pos, pos + byteSize (Token.unreadable (c :: cs))⟩ := by
  have hunmatched := unmatched_of_next? hleft hc hnext
  obtain ⟨rest, hrest⟩ := Token.unreadable_append (c :: cs)
  have hcovers := Span.Covers.of_remains hleft hrest
  refine ⟨⟨ls, h⟩, hunmatched, fun p ms hms hp => hms.le_of_unmatched hp h, c, cs, hleft, ?_⟩
  split
  · next hquote =>
      subst hquote
      exact ⟨_, Token.longestItems cs, hcovers⟩
  · next hquote =>
      rwa [Token.unreadable_of_ne hquote] at hcovers ⊢

end Stuck

namespace Lexeme

/-- The lexer goes on with a tiling to the end of the source, or to where it is stuck. -/
theorem tokenizes_readFrom {source cs : List Char} {pos : Nat} {done : List Lexeme}
    (hsize : byteSize source ≤ Span.limit) (h : Tiles source pos done.reverse)
    (hleft : Remains source pos cs) : Tokenizes source (readFrom pos cs done) := by
  fun_induction readFrom pos cs done with
  | case1 pos done =>
      obtain ⟨before, hsource, hpos⟩ := hleft
      obtain rfl : before = source := by simpa using hsource
      rwa [Tokenizes, hpos]
  | case2 pos done c cs hc ih => exact ih (h.skip hleft hc) hleft.tail
  | case3 pos done c cs hc t rest hnext hlt stop ih =>
      have hcs := Token.text_append_of_next? hnext
      refine ih ?_ (hleft.drop hcs)
      rw [List.reverse_cons, Span.Covers.ofOffsets_eq hsize hleft hcs]
      exact h.concat hleft hnext
  | case4 pos done c cs hc hnext =>
      obtain ⟨rest, hrest⟩ := Token.unreadable_append (c :: cs)
      rw [Tokenizes, Span.Covers.ofOffsets_eq hsize hleft hrest]
      exact .of_tiles h hleft (by simpa using hc) hnext

/-- The lexer reads a source whose offsets a span can hold as the longest tokens that tile it, or
stops at the first position at which nothing matches. -/
theorem read_tiles {source : String} (hsize : source.utf8ByteSize ≤ Span.limit) :
    Tokenizes source.toList (read source) := by
  rw [utf8ByteSize_eq_byteSize] at hsize
  exact tokenizes_readFrom hsize .nil (.whole _)

/-- A name that is not closed stops the lexer behind a word. The backslash in it escapes nothing,
so the piece that is blamed ends before it. -/
theorem read_tiles_open_name :
    "a.b `é\\d".utf8ByteSize ≤ Span.limit ∧
      read "a.b `é\\d" = .error ⟨.unrecognisedChar "`é", ⟨4, 7⟩⟩ ∧
      Stuck "a.b `é\\d".toList ⟨4, 7⟩ := by
  have hsize : "a.b `é\\d".utf8ByteSize ≤ Span.limit := by decide
  have hread : read "a.b `é\\d" = .error ⟨.unrecognisedChar "`é", ⟨4, 7⟩⟩ := by
    with_unfolding_all rfl
  have htiles := read_tiles hsize
  rw [hread] at htiles
  exact ⟨hsize, hread, htiles⟩

end Lexeme

end ShapeFit
