import ShapeFit.Proofs.Blur
import ShapeFit.Proofs.Fit.Location
import ShapeFit.Proofs.Fit.Rules
import ShapeFit.Proofs.Signature.ShapeTexts

/-!
# ShapeFit.Proofs.Fit.Advice

What the suggestions on a failure are worth.

A suggestion to declare an argument in another way quotes a text. It can be followed if that
text is a literal whose signature fits the shape that was found (`Declarable`). What fails at
some level of a failure fails alone (`Plain.forall_levels`), so a suggestion to enable widening
is given exactly where that helps. The other suggestions quote the text of a shape, which is a
literal only if the shape is a primitive (`Advised`).
-/

namespace ShapeFit

/-! ## Advice -/

section

variable (fit : Bool → Signature → Shape → Except Failure Signature)

/-- Whether an argument for a shape can be declared by a text: it is a literal whose signature
fits the shape, with widening and without. -/
def Declarable (source : String) (x : Shape) : Prop :=
  ∃ s, Signature.parse source = .ok s ∧ ∀ w, ∃ t, fit w s x = .ok t

/-- Whether a kind fits another one with widening only. -/
def NeedsWidening (expected found : Prim) : Prop :=
  (∃ f, fit false (.prim expected) (.prim found) = .error f) ∧
    ∃ t, fit true (.prim expected) (.prim found) = .ok t

/-- What is suggested for a failure, and what of it can be followed. Where kinds do not fit,
widening is suggested if that is enough, and otherwise the kind that was found, which can be
declared. Where a shape made of primitives and lists does not fit, its text and an open slot are
suggested. The open slot can be declared, and the text only if the shape is a primitive: that of
a list is no literal. -/
def Advised (f : Failure) : Prop :=
  match f.mismatch with
  | .primitive expected found _ =>
    (f.diagnostic.suggestions = ["enable widening to accept `" ++ expected.name ++
        "` data where `" ++ found.name ++ "` is expected"] ↔ NeedsWidening fit expected found) ∧
      (¬ NeedsWidening fit expected found →
        f.diagnostic.suggestions = ["declare the argument as `" ++ found.name ++ "`"] ∧
          Declarable fit found.name (.prim found))
  | .shape _ found =>
    found.ObjectFree →
      f.diagnostic.suggestions = ["declare the argument as `" ++ found.text ++ "` or `_`"] ∧
        ((∃ s, Signature.parse found.text = .ok s) ↔ ∃ k, found = .prim k) ∧
        (Declarable fit found.text found ↔ ∃ k, found = .prim k) ∧ Declarable fit "_" found
  | _ => True

end

namespace Failure

theorem suggestions_diagnostic (f : Failure) :
    f.diagnostic.suggestions = suggestionsOn f.mismatch := rfl

/-- Enabling widening is suggested where it is off and the table has the two kinds. -/
theorem suggestionsOn_primitive_iff {expected found : Prim} {widening : Bool} :
    suggestionsOn (.primitive expected found widening) =
        ["enable widening to accept `" ++ expected.name ++ "` data where `" ++ found.name ++
          "` is expected"] ↔
      (!widening && expected.widens found) = true := by
  rw [suggestionsOn]
  split
  · next h => simp [h]
  · next h =>
      -- The other suggestion begins with another letter.
      refine iff_of_false (fun heq => ?_) h
      have hhead := congrArg (fun texts => texts.head?.bind fun s => s.toList.head?) heq
      simp at hhead

end Failure

namespace Plain

variable {r : Registry} {w : Bool}

/-! ## Levels of a failure -/

/-- What holds of what a part fails with alone, and of what is at fault at an open slot, holds at
each level of a failure. -/
theorem forall_levels {motive : Mismatch → Prop}
    (part : ∀ s x m, s ≠ .wildcard → signature r w s x = .error m.here → motive m)
    (slot : ∀ passed t m, Blames r passed t m → motive m) {s : Signature} {x : Shape}
    {f : Failure} (h : signature r w s x = .error f) : ∀ g ∈ f.levels, motive g.mismatch := by
  obtain ⟨m, path⟩ := f
  have htop {m s x path} (h : signature r w s x = .error ⟨m, path⟩) :
      motive m ∧ ∃ n y, Caused r (signature r w) n y m := by
    obtain ⟨depth, n, y, path', -, -, hfault⟩ := located_of_error h
    refine ⟨?_, n, y, hfault.cause⟩
    by_cases hn : n = .wildcard
    · obtain ⟨t, passed, -, hblames⟩ := hfault.slot hn
      exact slot passed t m hblames
    · exact part n y m hn (hfault.alone hn).2
  rw [Failure.levels, List.forall_mem_cons]
  -- The induction is on what is behind the mismatch, wherever it was found.
  induction m generalizing s x path with
  | noCandidate target arity tried position causePath cause ih =>
      obtain ⟨hp, n, y, hcaused⟩ := htop h
      obtain ⟨args, d, ps, -, -, -, -, -, hrejects⟩ := hcaused _ _ _ _ _ _ rfl
      obtain ⟨-, a, p, path', -, -, -, hfit⟩ := hrejects
      refine ⟨hp, ?_⟩
      rw [Mismatch.causes, List.forall_mem_cons]
      exact ih path' hfit
  | primitive | shape | arity | unknownType | noConstructors | circularType =>
      exact ⟨(htop h).1, by simp [Mismatch.causes]⟩

/-- A mismatch of kinds is what these kinds fail with alone. -/
theorem kinds_of_error {s : Signature} {x : Shape} {expected found : Prim} {widening : Bool}
    (hs : s ≠ .wildcard)
    (h : signature r w s x = .error (Mismatch.primitive expected found widening).here) :
    s = .prim expected ∧ x = .prim found ∧ widening = w := by
  cases s with
  | prim k =>
      rw [signature] at h
      cases x with
      | prim k' =>
          rw [Fit.prim] at h
          split at h
          · contradiction
          · simp only [Mismatch.here, Except.error.injEq, Failure.mk.injEq,
              Mismatch.primitive.injEq, and_true] at h
            obtain ⟨rfl, rfl, rfl⟩ := h
            exact ⟨rfl, rfl, rfl⟩
      | array | sequence | object => simp [Fit.prim, Fit.shapeFailure, Mismatch.here] at h
  | list e =>
      rw [signature] at h
      split at h
      · simp only [bind_eq_error, pure_ne_error, and_false, exists_false, or_false,
          within_eq_error] at h
        obtain ⟨g, -, hg⟩ := h
        simp [Failure.within, Mismatch.here] at hg
      · simp [Fit.shapeFailure, Mismatch.here] at h
  | composite t as =>
      rw [signature] at h
      split at h
      · simp only [bind_eq_error, pure_ne_error, and_false, exists_false, or_false,
          select_eq_error_iff] at h
        obtain ⟨-, hf⟩ | ⟨d, rejections, -, -, hf⟩ := h
        · simp [Mismatch.here] at hf
        · rw [Candidate.mismatch] at hf
          split at hf <;> simp [Mismatch.here] at hf
      · simp [Fit.targetFailure, Fit.shapeFailure, Mismatch.here] at h
  | wildcard => contradiction

/-- At each level of a failure, a mismatch of kinds is what these kinds fail with alone. -/
theorem kinds_of_mem_levels {s : Signature} {x : Shape} {f g : Failure}
    (h : signature r w s x = .error f) (hg : g ∈ f.levels) {expected found : Prim}
    {widening : Bool} (hmismatch : g.mismatch = .primitive expected found widening) :
    widening = w ∧ ∃ f', signature r w (.prim expected) (.prim found) = .error f' := by
  refine forall_levels (motive := fun m => ∀ expected found widening,
    m = .primitive expected found widening →
      widening = w ∧ ∃ f', signature r w (.prim expected) (.prim found) = .error f')
    ?_ ?_ h g hg expected found widening hmismatch
  · rintro s x _ hs hfit expected found widening rfl
    obtain ⟨rfl, rfl, rfl⟩ := kinds_of_error hs hfit
    exact ⟨rfl, _, hfit⟩
  · rintro passed t _ hblames expected found widening rfl
    cases hblames

/-! ## Following advice -/

theorem prim_fits_iff {k found : Prim} :
    (∃ t, signature r w (.prim k) (.prim found) = .ok t) ↔
      k = found ∨ (w = true ∧ k.widens found = true) := by
  simp [signature_eq_ok_iff, Fits]

/-- An open slot fits every shape that has no objects in it. -/
theorem wildcard_fits {x : Shape} (hx : x.ObjectFree) :
    ∃ t, signature r w .wildcard x = .ok t := by
  simp only [signature_eq_ok_iff, Fits]
  induction x with
  | prim k => exact ⟨_, .prim k⟩
  | array e ih | sequence e ih =>
      obtain ⟨t, ht⟩ := ih hx
      refine ⟨.list t, ?_⟩
      constructor
      exact ht
  | object n => exact hx.elim

theorem needsWidening_iff {k found : Prim} :
    NeedsWidening (signature r) k found ↔ k ≠ found ∧ k.widens found = true := by
  have herror : (∃ f, signature r false (.prim k) (.prim found) = .error f) ↔
      ¬ ∃ t, signature r false (.prim k) (.prim found) = .ok t := by
    cases signature r false (.prim k) (.prim found) <;> simp
  rw [NeedsWidening, herror, prim_fits_iff, prim_fits_iff]
  grind

/-- An open slot declares every shape that has no objects in it. -/
theorem declarable_wildcard {x : Shape} (hx : x.ObjectFree) : Declarable (signature r) "_" x :=
  ⟨.wildcard, by with_unfolding_all rfl, fun _ => wildcard_fits hx⟩

/-- The keyword of a kind declares it. -/
theorem declarable_name (k : Prim) : Declarable (signature r) k.name (.prim k) :=
  ⟨_, Signature.parse_name k, fun _ => prim_fits_iff.mpr (.inl rfl)⟩

/-- The text of a shape declares it if it is that of a primitive. -/
theorem declarable_text_iff {x : Shape} (hx : x.ObjectFree) :
    Declarable (signature r) x.text x ↔ ∃ k, x = .prim k := by
  constructor
  · rintro ⟨s, hs, -⟩
    exact (Shape.parse_text_eq_ok_iff hx).mp ⟨s, hs⟩
  · rintro ⟨k, rfl⟩
    exact declarable_name k

/-- The suggestions at each level of a failure. -/
theorem advised_of_mem_levels {s : Signature} {x : Shape} {f g : Failure}
    (h : signature r w s x = .error f) (hg : g ∈ f.levels) : Advised (signature r) g := by
  unfold Advised
  split
  · next expected found widening hmismatch =>
      have hkinds : (!widening && expected.widens found) = true ↔
          NeedsWidening (signature r) expected found := by
        obtain ⟨rfl, f', hf'⟩ := kinds_of_mem_levels h hg hmismatch
        have hunfit : ¬ (expected = found ∨ (widening = true ∧ expected.widens found = true)) := by
          rw [← prim_fits_iff (r := r), hf']
          simp
        rw [needsWidening_iff]
        grind
      rw [Failure.suggestions_diagnostic, hmismatch, Failure.suggestionsOn_primitive_iff, hkinds]
      refine ⟨Iff.rfl, fun hno => ⟨?_, declarable_name found⟩⟩
      rw [Failure.suggestionsOn, if_neg (mt hkinds.mp hno)]
  · next expected found hmismatch =>
      intro hfound
      rw [Failure.suggestions_diagnostic, hmismatch]
      exact ⟨rfl, Shape.parse_text_eq_ok_iff hfound, declarable_text_iff hfound,
        declarable_wildcard hfound⟩
  · trivial

end Plain

end ShapeFit
