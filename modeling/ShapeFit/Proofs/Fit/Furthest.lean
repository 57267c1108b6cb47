import ShapeFit.Proofs.Fit.Location
import ShapeFit.Proofs.Occurrences

/-!
# ShapeFit.Proofs.Fit.Furthest

What is told of a composite that no constructor accepts.

Each candidate is rejected at the first argument that does not fit, which it determines
(`RejectsAt.unique`). Of all rejections the one with the highest position is told, and the
earliest of those that share it (`Rejection.furthest_eq_some`). So the failure is that of the
earliest among the candidates that get furthest (`Plain.furthest_of_composite_error`).
-/

namespace ShapeFit

/-- The rejections before the one reported do not get as far. -/
theorem Rejection.furthest_eq_some {rs : List Rejection} {r : Rejection}
    (h : furthest rs = some r) :
    ∃ front back, rs = front ++ r :: back ∧ ∀ s ∈ front, s.position < r.position := by
  induction rs generalizing r with
  | nil => contradiction
  | cons a rs ih =>
      rw [furthest] at h
      cases hrs : furthest rs with
      | none =>
          simp only [hrs, Option.some.injEq] at h
          exact ⟨[], rs, by simp [h], by simp⟩
      | some b =>
          simp only [hrs] at h
          by_cases hlt : a.position < b.position
          · simp only [if_pos hlt, Option.some.injEq] at h
            subst h
            obtain ⟨front, back, hsplit, hfront⟩ := ih hrs
            exact ⟨a :: front, back, by simp [hsplit], List.forall_mem_cons.mpr ⟨hlt, hfront⟩⟩
          · simp only [if_neg hlt, Option.some.injEq] at h
            exact ⟨[], rs, by simp [h], by simp⟩

/-- Parameters reject arguments at one position only, for one failure. -/
theorem RejectsAt.unique {fit : Signature → Shape → Except Failure Signature} {args : List Arg}
    {ps : List Param} {i j : Nat} {f g : Failure} (h : RejectsAt fit args ps i f)
    (h' : RejectsAt fit args ps j g) : i = j ∧ f = g := by
  obtain ⟨hbefore, a, p, path, ha, hp, hpath, hfit⟩ := h
  obtain ⟨hbefore', a', p', path', ha', hp', hpath', hfit'⟩ := h'
  have hij : i = j := by
    obtain hlt | heq | hgt := Nat.lt_trichotomy i j
    · obtain ⟨t, ht⟩ := hbefore' i hlt a p ha hp
      simp [ht] at hfit
    · exact heq
    · obtain ⟨t, ht⟩ := hbefore j hgt a' p' ha' hp'
      simp [ht] at hfit'
  subst hij
  rw [ha, Option.some.injEq] at ha'
  rw [hp, Option.some.injEq] at hp'
  subst ha' hp'
  rw [hfit, Except.error.injEq, Failure.mk.injEq] at hfit'
  obtain ⟨hmismatch, htail⟩ := hfit'
  have hwhole : f.path = g.path := by rw [hpath, hpath', htail]
  refine ⟨rfl, ?_⟩
  cases f
  cases g
  simp_all only

/-- Candidates for arguments are all rejected. None gets further than `position`, and the
earliest that gets so far is rejected there for the failure `cause`. -/
structure Furthest (fit : Signature → Shape → Except Failure Signature) (args : List Arg)
    (candidates : List Constructor) (position : Nat) (cause : Failure) : Prop where
  rejected : ∀ k ∈ candidates, ∃ i f, RejectsAt fit args k.params i f
  highest : ∀ k ∈ candidates, ∀ i f, RejectsAt fit args k.params i f → i ≤ position
  earliest : ∃ front k back, candidates = front ++ k :: back ∧
    RejectsAt fit args k.params position cause ∧
    ∀ k' ∈ front, ∀ i f, RejectsAt fit args k'.params i f → i < position

namespace Plain

variable {r : Registry} {w : Bool}

/-- Each candidate has its rejection among those told. -/
theorem exists_rejection {as : List Arg} {ks : List Constructor} {rejections : List Rejection}
    (h : ks.map (fun k => args r w 0 as k.params) = rejections.map .error) {k : Constructor}
    (hk : k ∈ ks) :
    ∃ e ∈ rejections, RejectsAt (signature r w) as k.params e.position e.cause := by
  have hmem : args r w 0 as k.params ∈ rejections.map Except.error := by
    rw [← h]
    exact List.mem_map_of_mem hk
  obtain ⟨e, he, hargs⟩ := List.mem_map.mp hmem
  exact ⟨e, he, rejectsAt_of_args_error hargs.symm⟩

/-- The rejection that is reported is that of the earliest candidate that gets furthest. -/
theorem furthest_of_rejections {as : List Arg} {ks : List Constructor}
    {rejections : List Rejection} {rejection : Rejection}
    (h : ks.map (fun k => args r w 0 as k.params) = rejections.map .error)
    (hfurthest : Rejection.furthest rejections = some rejection) :
    Furthest (signature r w) as ks rejection.position rejection.cause := by
  obtain ⟨front, back, hsplit, hfront⟩ := Rejection.furthest_eq_some hfurthest
  refine ⟨fun k hk => ?_, fun k hk i f hf => ?_, ?_⟩
  · obtain ⟨e, -, he⟩ := exists_rejection h hk
    exact ⟨_, _, he⟩
  · obtain ⟨e, hmem, he⟩ := exists_rejection h hk
    rw [(hf.unique he).1]
    exact Rejection.position_le_of_furthest hfurthest e hmem
  · rw [hsplit, List.map_append, List.map_cons, List.map_eq_append_iff] at h
    obtain ⟨before, rest, hks, hbefore, hrest⟩ := h
    obtain ⟨k, after, hcons, hk, -⟩ := List.map_eq_cons_iff.mp hrest
    refine ⟨before, k, after, by rw [hks, hcons], rejectsAt_of_args_error hk, ?_⟩
    intro k' hk' i f hf
    obtain ⟨e, hmem, he⟩ := exists_rejection hbefore hk'
    rw [(hf.unique he).1]
    exact hfront e hmem

/-- What a composite that can not be resolved fails with. -/
theorem furthest_of_composite_error {c : Composite} {f : Failure}
    (h : composite r w c = .error f) :
    (r.find? c.target = none → f = (Mismatch.unknownType c.target).here) ∧
    ∀ d, r.find? c.target = some d →
      (Candidate.of c d.constructors = [] →
        ∃ available, f = (Mismatch.arity c.target c.arity available).here ∧
          FirstOccurrences (d.constructors.map Constructor.arity) available) ∧
      (Candidate.of c d.constructors ≠ [] →
        ∃ position path cause,
          f = (Mismatch.noCandidate c.target c.arity (Candidate.of c d.constructors).length
            position path cause).here ∧
          Furthest (signature r w) c.args (Candidate.of c d.constructors) position
            ⟨cause, path⟩) := by
  rw [composite, select_eq_error_iff] at h
  obtain ⟨hnone, hf⟩ | ⟨d, rejections, hfind, hrejections, hf⟩ := h
  · exact ⟨fun _ => hf, fun d hd => by simp [hnone] at hd⟩
  · refine ⟨fun hnone => by simp [hfind] at hnone, fun d' hd' => ?_⟩
    obtain rfl : d = d' := by simpa [hfind] using hd'
    have hlen : (Candidate.of c d.constructors).length = rejections.length := by
      simpa using congrArg List.length hrejections
    rw [hf]
    constructor
    · intro hempty
      have hnil : rejections = [] := by simpa [hempty] using hlen.symm
      refine ⟨_, ?_, firstOccurrences_eraseDups _⟩
      rw [hnil]
      rfl
    · intro hsome
      cases hfurthest : Rejection.furthest rejections with
      | none =>
          rw [Rejection.furthest_eq_none_iff] at hfurthest
          simp [hfurthest, hsome] at hlen
      | some rejection =>
          refine ⟨rejection.position, rejection.cause.path, rejection.cause.mismatch, ?_, ?_⟩
          · rw [Candidate.mismatch, hfurthest, hlen]
          · exact furthest_of_rejections hrejections hfurthest

end Plain

end ShapeFit
