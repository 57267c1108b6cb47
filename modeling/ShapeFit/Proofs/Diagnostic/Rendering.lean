import ShapeFit.Proofs.Diagnostic.Offsets

/-!
# ShapeFit.Proofs.Diagnostic.Rendering

What a rendered diagnostic shows.

Each label that begins in the text has a block, in the order of the labels. It quotes the
longest stretch without a line break around the start of the label, and underlines it from
there to the end of the label or of the stretch (`Underlines`). A label that begins nowhere in
the text is left out. `Diagnostic.render_underlines` says so of every diagnostic and every
text, wherever the labels point, and that rendering always comes to an end.
-/

namespace ShapeFit

open Text

/-! ## Stretches without a line break -/

/-- A stretch of a source without a line break, around a byte position. -/
structure StretchAt (source : List Char) (position : Nat) (above line below : List Char) :
    Prop where
  split : above ++ line ++ below = source
  unbroken : '\n' ∉ line
  reached : byteSize above ≤ position
  not_passed : position ≤ byteSize above + byteSize line

namespace LineAt

variable {source above line below above' line' below' : List Char} {position : Nat}

theorem stretch (h : LineAt source position above line below) :
    StretchAt source position above line below :=
  ⟨h.split, h.unbroken, h.reached, h.not_passed⟩

/-- No stretch around the position begins before its line: there is a line break between. -/
theorem begins_le (h : LineAt source position above line below)
    (h' : StretchAt source position above' line' below') : byteSize above ≤ byteSize above' := by
  obtain hnil | ⟨front, hfront⟩ := h.begins
  · simp [hnil, byteSize]
  · refine Nat.le_of_not_lt fun hlt => h'.unbroken ?_
    have hbreak : byteSize above = byteSize front + 1 := by
      rw [hfront, byteSize_append]
      rfl
    have hreached := h.reached
    have hpassed := h'.not_passed
    have hsplit : above' ++ (line' ++ below') = front ++ ('\n' :: (line ++ below)) := by
      rw [← List.append_assoc, h'.split, ← h.split, hfront]
      simp
    obtain ⟨m, hm, hrest⟩ := exists_of_append_eq_append hsplit (by omega)
    have hsize := congrArg byteSize hm
    rw [byteSize_append] at hsize
    rw [List.append_cons] at hrest
    obtain ⟨k, hline, -⟩ := exists_of_append_eq_append hrest.symm (by
      rw [byteSize_append, show byteSize ['\n'] = 1 from rfl]
      omega)
    simp [hline]

/-- No stretch around the position goes on behind its line: there is a line break first. -/
theorem le_ends (h : LineAt source position above line below)
    (h' : StretchAt source position above' line' below') :
    byteSize above' + byteSize line' ≤ byteSize above + byteSize line := by
  refine Nat.le_of_not_lt fun hlt => h'.unbroken ?_
  have hreached := h'.reached
  have hpassed := h.not_passed
  have hsplit : (above ++ line) ++ below = (above' ++ line') ++ below' := by
    rw [h.split, h'.split]
  obtain ⟨m, hfront, hbelow⟩ := exists_of_append_eq_append hsplit (by
    simp only [byteSize_append]
    omega)
  obtain ⟨k, -, hline⟩ := exists_of_append_eq_append hfront (by
    simp only [byteSize_append]
    omega)
  obtain hnil | ⟨back, hback⟩ := h.ends
  · -- Behind the last line there is nothing to go on with.
    rw [hnil, List.nil_eq_append_iff] at hbelow
    have hsize := congrArg byteSize hfront
    simp only [byteSize_append, hbelow.1, byteSize] at hsize
    omega
  · cases m with
    | nil =>
        have hsize := congrArg byteSize hfront
        simp only [byteSize_append, byteSize] at hsize
        omega
    | cons c m =>
        rw [hback, List.cons_append] at hbelow
        have hc := (List.cons.inj hbelow).1
        subst hc
        simp [hline]

end LineAt

/-! ## Underlines -/

/-- Whether a span begins in a source: at the end of the source or before it, and not inside
a character. -/
def Span.BeginsIn (span : Span) (source : List Char) : Prop :=
  ∃ before after, before ++ after = source ∧ byteSize before = span.start

/-- How a span that begins in a source is underlined there, in the stretch `p.line` between
`above` and `below`. -/
structure Underlines (source : List Char) (span : Span) (p : Placement) (above below : List Char) :
    Prop where
  stretch : StretchAt source span.start above p.line below
  /-- The stretch quoted is the longest one. -/
  longest : ∀ above' line' below', StretchAt source span.start above' line' below' →
    byteSize above ≤ byteSize above' ∧
      byteSize above' + byteSize line' ≤ byteSize above + byteSize p.line
  /-- The padding is as wide as what is before the span in the stretch. -/
  padding : ∃ indent, Span.Covers ⟨byteSize above, span.start⟩ source indent ∧
    p.column = indent.length
  /-- The underline goes to the end of the span, clipped to the stretch, and is one character
  wide at least, also where that end is inside a character. -/
  marks :
    (∃ marked, Span.Covers ⟨span.start, span.clippedStop (byteSize above + byteSize p.line)⟩
        source marked ∧ p.width = max 1 marked.length) ∨
      (∀ front back, front ++ back = source →
        byteSize front ≠ span.clippedStop (byteSize above + byteSize p.line)) ∧ p.width = 1

/-- The placement of a span that begins in a source is its underline. -/
theorem Placement.exists_underlines {source : List Char} {span : Span}
    (h : span.BeginsIn source) :
    ∃ p above below, of? source span = some p ∧ Underlines source span p above below := by
  obtain ⟨before, after, hsplit, hstart⟩ := h
  obtain ⟨above, left, right, below, hp, hline, hleft⟩ := exists_of_split hsplit hstart
  have hsource : above ++ left ++ (right ++ below) = source := by
    rw [← hline.split]
    simp
  have hend : byteSize above + byteSize (left ++ right) = span.start + byteSize right := by
    rw [← hleft, byteSize_append, byteSize_append, Nat.add_assoc]
  refine ⟨_, above, below, hp, hline.stretch, ?_, ?_, ?_⟩
  · intro above' line' below' h'
    exact ⟨hline.begins_le h', hline.le_ends h'⟩
  · exact ⟨left, ⟨above, right ++ below, hsource, rfl, hleft⟩, rfl⟩
  · rw [hend]
    obtain ⟨marked, hmarked, hwidth⟩ | ⟨hinside, hwidth⟩ := charsWithin_cases hsource hleft
    · exact .inl ⟨marked, hmarked, by rw [hwidth]⟩
    · exact .inr ⟨hinside, by rw [hwidth]; rfl⟩

/-! ## Blocks -/

/-- The blocks of labels in a source, in the order of the labels. -/
inductive Blocks (source : List Char) : List Label → List String → Prop
  | nil : Blocks source [] []
  | shown {label : Label} {labels : List Label} {blocks : List String} {p : Placement}
      {above below : List Char} :
      label.span.BeginsIn source → Underlines source label.span p above below →
      Blocks source labels blocks → Blocks source (label :: labels) (label.blockAt p :: blocks)
  | omitted {label : Label} {labels : List Label} {blocks : List String} :
      ¬ label.span.BeginsIn source →
      Blocks source labels blocks → Blocks source (label :: labels) blocks

theorem exists_blocks (source : List Char) (labels : List Label) :
    ∃ blocks, Blocks source labels blocks ∧
      String.join (labels.map (·.block source)) = String.join blocks := by
  induction labels with
  | nil => exact ⟨[], .nil, rfl⟩
  | cons label labels ih =>
      obtain ⟨blocks, hblocks, hjoin⟩ := ih
      by_cases hbegins : label.span.BeginsIn source
      · obtain ⟨p, above, below, hp, hunderlines⟩ := Placement.exists_underlines hbegins
        refine ⟨label.blockAt p :: blocks, .shown hbegins hunderlines hblocks, ?_⟩
        rw [List.map_cons, Label.block_of_placement hp, String.join_cons, String.join_cons, hjoin]
      · have hnone : Placement.of? source label.span = none := by
          rw [← Option.isSome_eq_false_iff.trans Option.isNone_iff_eq_none, ← Bool.not_eq_true,
            Placement.isSome_of?]
          exact hbegins
        refine ⟨blocks, .omitted hbegins hblocks, ?_⟩
        rw [List.map_cons, Label.block_of_none hnone, String.join_cons, hjoin, String.empty_append]

theorem Blocks.eq_nil {source : List Char} {labels : List Label} {blocks : List String}
    (h : Blocks source labels blocks) (hnone : ∀ l ∈ labels, ¬ l.span.BeginsIn source) :
    blocks = [] := by
  induction h with
  | nil => rfl
  | shown hbegins => exact absurd hbegins (hnone _ List.mem_cons_self)
  | omitted _ _ ih => exact ih fun l hl => hnone l (List.mem_cons_of_mem _ hl)

namespace Diagnostic

/-- Every diagnostic is rendered in every source without a fault: a line with its severity, its
code and its message, a block for each label that begins in the source, and the notes and
suggestions. If no label begins there, that
is the text of the diagnostic by itself. -/
theorem render_underlines (d : Diagnostic) (source : String) :
    d.renderByOffsets source = .ok (d.render source) ∧
      (∃ blocks, Blocks source.toList d.labels blocks ∧
        d.render source =
          d.severity.text ++ "[" ++ d.code.id ++ "]: " ++ d.message ++ "\n" ++ String.join blocks ++
          (String.join (d.notes.map fun n => "  = note: " ++ n ++ "\n") ++
            String.join (d.suggestions.map fun s => "  = help: " ++ s ++ "\n"))) ∧
      ((∀ l ∈ d.labels, ¬ l.span.BeginsIn source.toList) → d.render source = d.text) := by
  obtain ⟨blocks, hblocks, hjoin⟩ := exists_blocks source.toList d.labels
  refine ⟨d.renderByOffsets_eq source, ⟨blocks, hblocks, ?_⟩, fun hnone => ?_⟩
  · rw [render, hjoin]
    rfl
  · rw [render, hjoin, hblocks.eq_nil hnone, text]
    simp [String.join]

/-- A label inside a character is left out. A label that runs backwards at the end of a line and
one whose end is inside a character are each underlined by one character. -/
example : ((Diagnostic.error .trailingInput "odd").addLabel ⟨2, 9⟩ "inside"
      |>.addLabel ⟨3, 0⟩ "backwards" |>.addSecondaryLabel ⟨0, 2⟩ "cut").render "aé\nb" =
    "error[E0004]: odd\n  |\n  | aé\n  |   ^ backwards\n  |\n  | aé\n  | - cut\n" := by
  decide +kernel

end Diagnostic

end ShapeFit
