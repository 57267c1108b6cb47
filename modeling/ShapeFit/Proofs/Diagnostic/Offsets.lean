import ShapeFit.Proofs.Diagnostic.Lines
import ShapeFit.Proofs.Diagnostic.Pieces

/-!
# ShapeFit.Proofs.Diagnostic.Offsets

Placing and rendering labels by byte offsets.

`Placement.of?` cuts a text in two where a span starts and reads its line off the two parts.
On a text that is held as bytes the same is done with offsets: the line begins behind the
last line break before the start, and the text is sliced at offsets that have been added up.
A slice has to begin and end between two characters, a sum of offsets has to be one that can
be held, and a number can only be clamped between bounds that are in order; anything else is a
`Fault` that ends the program. None ever happens:

* `locate_eq` — the offsets come to the placement, for every span and every text;
* `Diagnostic.renderByOffsets_eq` — so the diagnostic is rendered, whatever its labels are.
-/

namespace ShapeFit

open Text

namespace Offsets

/-- What ends a program that computes with offsets. -/
inductive Fault where
  /-- A slice that is not there. -/
  | slice (start stop : Nat)
  /-- A sum past the end of the source. Offsets up to there can be held. -/
  | sum (offset more : Nat)
  /-- A number clamped between bounds in the wrong order. -/
  | clamp (low high : Nat)

/-- The characters between two offsets, unless one of the offsets is past the end or inside a
character, or they are in the wrong order. -/
def slice? (cs : List Char) (start stop : Nat) : Option (List Char) := do
  let (front, _) ← splitAtByte cs stop
  let (_, piece) ← splitAtByte front start
  return piece

/-- The characters between two offsets, which have to be there. -/
def slice (cs : List Char) (start stop : Nat) : Except Fault (List Char) :=
  match slice? cs start stop with
  | some piece => .ok piece
  | none => .error (.slice start stop)

/-- The sum of two offsets into a source, which has to be an offset into it. -/
def sum (source : List Char) (offset more : Nat) : Except Fault Nat :=
  if offset + more ≤ byteSize source then .ok (offset + more) else .error (.sum offset more)

/-- A number cut to two bounds. -/
def clamp (n low high : Nat) : Except Fault Nat :=
  if low ≤ high then .ok (max low (min n high)) else .error (.clamp low high)

/-- The offset of the last line break in a text. -/
def lastBreak? : List Char → Option Nat
  | [] => none
  | c :: cs =>
    match lastBreak? cs with
    | some i => some (c.utf8Size + i)
    | none => if c = '\n' then some 0 else none

/-- The offset at which the last line of the front of a source begins. -/
def lineStart (source front : List Char) : Except Fault Nat :=
  match lastBreak? front with
  | some i => sum source i 1
  | none => return 0

/-- The placement of a span's underline, by offsets into the source. -/
def locate (source : List Char) (span : Span) : Except Fault (Option Placement) :=
  match splitAtByte source span.start with
  | none => return none
  | some (before, _) => do
    let lineStart ← lineStart source before
    let rest ← slice source lineStart (byteSize source)
    let line := Placement.lineFront rest
    let lineStop ← sum source lineStart (byteSize line)
    let indent ← slice source lineStart span.start
    let stop ← clamp span.stop span.start lineStop
    let width := ((slice? source span.start stop).map List.length).getD 0
    return some ⟨line, indent.length, max width 1⟩

/-! ## Slices -/

/-- The slices that are there are the pieces that the offsets cover. -/
theorem slice?_eq_some_iff {cs piece : List Char} {start stop : Nat} :
    slice? cs start stop = some piece ↔ Span.Covers ⟨start, stop⟩ cs piece := by
  simp only [slice?, Option.bind_eq_bind, Option.bind_eq_some_iff, Prod.exists,
    splitAtByte_eq_some_iff]
  constructor
  · rintro ⟨front, after, ⟨hcs, hstop⟩, before, piece', ⟨hfront, hstart⟩, hpiece⟩
    obtain rfl : piece' = piece := Option.some.inj hpiece
    exact ⟨before, after, by rw [hfront, hcs], hstart, by rw [hfront, hstop]⟩
  · rintro ⟨before, after, hcs, hstart, hstop⟩
    exact ⟨before ++ piece, after, ⟨hcs, hstop⟩, before, piece, ⟨rfl, hstart⟩, rfl⟩

/-- A piece that is at two offsets can be sliced there. -/
theorem slice_of_covers {cs piece : List Char} {start stop : Nat}
    (h : Span.Covers ⟨start, stop⟩ cs piece) : slice cs start stop = .ok piece := by
  rw [slice, slice?_eq_some_iff.mpr h]

/-- The end of a span can be clamped between its start and what is not before it. -/
theorem clamp_stop {span : Span} {high : Nat} (h : span.start ≤ high) :
    clamp span.stop span.start high = .ok (span.clippedStop high) := if_pos h

/-! ## The beginning of a line -/

theorem lastBreak?_eq_none {cs : List Char} (h : '\n' ∉ cs) : lastBreak? cs = none := by
  induction cs with
  | nil => rfl
  | cons c cs ih =>
      simp only [List.mem_cons, not_or] at h
      rw [lastBreak?, ih h.2]
      exact if_neg fun hc => h.1 hc.symm

/-- A line break with none behind it is the last one. -/
theorem lastBreak?_append {front line : List Char} (h : '\n' ∉ line) :
    lastBreak? (front ++ '\n' :: line) = some (byteSize front) := by
  induction front with
  | nil => simp [lastBreak?, lastBreak?_eq_none h, byteSize]
  | cons c front ih => simp [lastBreak?, ih, byteSize]

theorem sum_of_le {source : List Char} {offset more : Nat} (h : offset + more ≤ byteSize source) :
    sum source offset more = .ok (offset + more) := if_pos h

/-- The last line of a text begins behind its last line break. -/
theorem lineStart_eq {source above line : List Char} (hline : '\n' ∉ line)
    (habove : above = [] ∨ ∃ front, above = front ++ ['\n'])
    (hsize : byteSize above ≤ byteSize source) :
    lineStart source (above ++ line) = .ok (byteSize above) := by
  obtain rfl | ⟨front, rfl⟩ := habove
  · rw [lineStart, List.nil_append, lastBreak?_eq_none hline]
    rfl
  · have hbreak : byteSize (front ++ ['\n']) = byteSize front + 1 := by
      rw [byteSize_append]
      rfl
    rw [hbreak] at hsize ⊢
    rw [lineStart, List.append_assoc, List.singleton_append, lastBreak?_append hline]
    exact sum_of_le hsize

/-- A line goes on as far as what follows it does. -/
theorem lineFront_append {line cs : List Char} (h : '\n' ∉ line) :
    Placement.lineFront (line ++ cs) = line ++ Placement.lineFront cs := by
  apply List.takeWhile_append_of_pos
  intro c hc
  have hne : c ≠ '\n' := fun he => h (he ▸ hc)
  simpa using hne

/-! ## Placements -/

/-- The characters sliced from the start of a span to its end within the line are those that
are underlined. -/
theorem length_slice? {source before right below : List Char} {span : Span}
    (hsource : before ++ (right ++ below) = source) (hstart : byteSize before = span.start) :
    ((slice? source span.start (span.clippedStop (span.start + byteSize right))).map
        List.length).getD 0 = Placement.charsWithin right span.length := by
  obtain ⟨piece, hcovers, hwidth⟩ | ⟨hinside, hwidth⟩ :=
    Placement.charsWithin_cases hsource hstart
  · rw [slice?_eq_some_iff.mpr hcovers, hwidth]
    rfl
  · have hnone : slice? source span.start (span.clippedStop (span.start + byteSize right)) =
        none := by
      rw [Option.eq_none_iff_forall_ne_some]
      intro piece hpiece
      obtain ⟨front, back, hsplit, -, hfront⟩ := slice?_eq_some_iff.mp hpiece
      exact hinside (front ++ piece) back hsplit hfront
    rw [hnone, hwidth]
    rfl

/-- Every span is placed by offsets, without a fault, as by cutting the text. -/
theorem locate_eq (source : List Char) (span : Span) :
    locate source span = .ok (Placement.of? source span) := by
  rw [locate, Placement.of?]
  cases hcut : splitAtByte source span.start with
  | none => rfl
  | some cut =>
      obtain ⟨before, after⟩ := cut
      obtain ⟨hsource, hstart⟩ := splitAtByte_eq_some_iff.mp hcut
      obtain ⟨above, hbefore, habove⟩ := Placement.exists_above before
      obtain ⟨below, hafter, -⟩ := Placement.exists_below after
      have hline := Placement.not_mem_lineBack before
      have hsplit : before ++ (Placement.lineFront after ++ below) = source := by
        rw [← hafter, hsource]
      have hleft : byteSize above + byteSize (Placement.lineBack before) = span.start := by
        rw [← byteSize_append, ← hbefore, hstart]
      have hsize := congrArg byteSize hsplit
      simp only [byteSize_append, hstart] at hsize
      have hlineStart : lineStart source before = .ok (byteSize above) := by
        rw [hbefore]
        exact lineStart_eq hline habove (by omega)
      have hrest : slice source (byteSize above) (byteSize source) =
          .ok (Placement.lineBack before ++ after) := by
        have hwhole : above ++ (Placement.lineBack before ++ after) = source := by
          rw [← List.append_assoc, ← hbefore, hsource]
        exact slice_of_covers ⟨above, [], by rw [hwhole, List.append_nil], rfl, by rw [hwhole]⟩
      have hindent : slice source (byteSize above) span.start = .ok (Placement.lineBack before) :=
        slice_of_covers ⟨above, after, by rw [← hbefore, hsource], rfl, by rw [← hbefore, hstart]⟩
      have hlineStop : sum source (byteSize above)
          (byteSize (Placement.lineBack before ++ Placement.lineFront after)) =
            .ok (span.start + byteSize (Placement.lineFront after)) := by
        rw [byteSize_append, sum_of_le (by omega), ← Nat.add_assoc, hleft]
      simp only [hlineStart, hrest, lineFront_append hline, hlineStop, hindent,
        clamp_stop (Nat.le_add_right _ _), length_slice? hsplit hstart, bind, Except.bind, pure,
        Except.pure, Option.map_some, Nat.max_comm]

end Offsets

/-! ## Rendering -/

/-- The diagnostic with the lines of the text that its labels point into, each placed by
offsets. -/
def Diagnostic.renderByOffsets (d : Diagnostic) (source : String) :
    Except Offsets.Fault String := do
  let blocks ← d.labels.mapM fun label => do
    match ← Offsets.locate source.toList label.span with
    | none => return ""
    | some p => return label.blockAt p
  return d.header ++ String.join blocks ++ d.trailer

/-- A diagnostic is rendered by offsets without a fault, whatever its labels are. -/
theorem Diagnostic.renderByOffsets_eq (d : Diagnostic) (source : String) :
    d.renderByOffsets source = .ok (d.render source) := by
  have hblock (label : Label) :
      (do match ← Offsets.locate source.toList label.span with
          | none => return ""
          | some p => return label.blockAt p : Except Offsets.Fault String) =
        pure (label.block source.toList) := by
    rw [Offsets.locate_eq]
    cases hp : Placement.of? source.toList label.span with
    | none => rw [Label.block_of_none hp]; rfl
    | some p => rw [Label.block_of_placement hp]; rfl
  simp only [renderByOffsets, hblock, List.mapM_pure]
  rfl

end ShapeFit
