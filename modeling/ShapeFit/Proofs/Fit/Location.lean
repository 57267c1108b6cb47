import ShapeFit.Proofs.Fit.Plain

/-!
# ShapeFit.Proofs.Fit.Location

Where a failure is.

The path of a failure goes through the list levels that the signature and the shape have in
common (`Signature.peel`) and ends at the signature below them, unless that is an open
slot. From an open slot it goes on through the shape and the types in it, as filling the
slot does (`Walk`), to the type at fault (`Blames`). The failure behind a composite that no
constructor accepts is that of one argument at the parameter of one of the constructors
(`RejectsAt`). That is the `Fault` at the place, and `Located` says so of a failure. It holds
of every failure (`Plain.located_of_error`).
-/

namespace ShapeFit

/-! ## Places -/

namespace Signature

/-- The list levels that a signature and a shape have in common: how many there are, and
the signature and the shape below them. -/
def peel : Signature → Shape → Nat × Signature × Shape
  | .list e, x =>
    match x.element? with
    | some y => ((e.peel y).1 + 1, (e.peel y).2)
    | none => (0, .list e, x)
  | s, x => (0, s, x)

end Signature

/-- A path from a shape to an object type, through the elements of lists and the parameters
of first declared constructors. The types passed on the way are listed. -/
inductive Walk (r : Registry) : Shape → Path → List TypeName → TypeName → Prop
  | here (t : TypeName) : Walk r (.object t) [] [] t
  | array {x : Shape} {path : Path} {passed : List TypeName} {t : TypeName} :
      Walk r x path passed t → Walk r (.array x) (.element :: path) passed t
  | sequence {x : Shape} {path : Path} {passed : List TypeName} {t : TypeName} :
      Walk r x path passed t → Walk r (.sequence x) (.element :: path) passed t
  | param {n : TypeName} {d : TypeDescriptor} {first : List Param} {rest : List (List Param)}
      {i : Nat} {p : Param} {path : Path} {passed : List TypeName} {t : TypeName} :
      r.find? n = some d → d.overloads = first :: rest → first[i]? = some p →
      Walk r p.val path passed t →
      Walk r (.object n) (.argument i p.name :: path) (n :: passed) t

/-- Why an open slot can not be filled at an object of the type `t`, after the types
`passed`. -/
inductive Blames (r : Registry) (passed : List TypeName) (t : TypeName) : Mismatch → Prop
  | unknown : r.find? t = none → Blames r passed t (.unknownType t)
  | constructorless {d : TypeDescriptor} :
      r.find? t = some d → d.overloads = [] → Blames r passed t (.noConstructors t)
  | circular : t ∈ passed → Blames r passed t (.circularType t)

/-- What is at fault after few types is at fault after more. -/
theorem Blames.mono {r : Registry} {passed passed' : List TypeName} {t : TypeName}
    {m : Mismatch} (h : Blames r passed t m) (hsub : passed ⊆ passed') : Blames r passed' t m := by
  cases h with
  | unknown hnone => exact .unknown hnone
  | constructorless hfind hnone => exact .constructorless hfind hnone
  | circular hmem => exact .circular (hsub hmem)

/-- What is wrong at an open slot has nothing behind it. -/
theorem Blames.causes_eq_nil {r : Registry} {passed : List TypeName} {t : TypeName}
    {m : Mismatch} (h : Blames r passed t m) : m.causes = [] := by
  cases h <;> rfl

/-- The argument at `position` is the first that parameters reject, for the failure `cause`,
seen from the composite. What becomes of a signature at a shape is told by `fit`. -/
def RejectsAt (fit : Signature → Shape → Except Failure Signature) (args : List Arg)
    (ps : List Param) (position : Nat) (cause : Failure) : Prop :=
  (∀ i < position, ∀ a p, args[i]? = some a → ps[i]? = some p → ∃ t, fit a.val p.val = .ok t) ∧
    ∃ a p path, args[position]? = some a ∧ ps[position]? = some p ∧
      cause.path = .argument position a.name :: path ∧
      fit a.val p.val = .error ⟨cause.mismatch, path⟩

/-- If what is wrong with `s` at `x` is that no constructor accepts the arguments of a
composite, the cause is the failure of one of them at a constructor with as many
parameters. -/
def Caused (r : Registry) (fit : Signature → Shape → Except Failure Signature) (s : Signature)
    (x : Shape) (m : Mismatch) : Prop :=
  ∀ target arity tried position causePath cause,
    m = .noCandidate target arity tried position causePath cause →
      ∃ args d ps, s = .composite target args ∧ x = .object target ∧
        r.find? target = some d ∧ ps ∈ d.overloads ∧ ps.length = args.length ∧
        RejectsAt fit args ps position ⟨cause, causePath⟩

/-- A mismatch with nothing behind it needs no cause. -/
theorem caused_of_causes_eq_nil {r : Registry}
    {fit : Signature → Shape → Except Failure Signature} {s : Signature} {x : Shape} {m : Mismatch}
    (h : m.causes = []) : Caused r fit s x m := by
  intro target arity tried position causePath cause hm
  rw [hm] at h
  contradiction

/-- What is wrong at the place that a failure points at, `path` further in than the
signature `s` and the shape `x`. -/
structure Fault (r : Registry) (fit : Signature → Shape → Except Failure Signature)
    (s : Signature) (x : Shape) (path : Path) (m : Mismatch) : Prop where
  /-- It is what fitting the signature there alone fails with. -/
  alone : s ≠ .wildcard → path = [] ∧ fit s x = .error m.here
  /-- An open slot leads on to a type at fault. -/
  slot : s = .wildcard → ∃ t passed, Walk r x path passed t ∧ Blames r passed t m
  /-- What is behind it is the failure of an argument. -/
  cause : Caused r fit s x m

/-- A failure of fitting `s` at `x` points at its place, through the list levels that the
two have in common. -/
def Located (r : Registry) (fit : Signature → Shape → Except Failure Signature) (s : Signature)
    (x : Shape) (f : Failure) : Prop :=
  ∃ depth n y path, s.peel x = (depth, n, y) ∧ f.path = List.replicate depth .element ++ path ∧
    Fault r fit n y path f.mismatch

namespace Located

variable {r : Registry} {fit : Signature → Shape → Except Failure Signature} {x y : Shape}
  {f : Failure}

/-- The place is the outermost one. -/
theorem here {s : Signature} (hpeel : s.peel x = (0, s, x)) (hs : s ≠ .wildcard)
    (hfit : fit s x = .error f) (hpath : f.path = [])
    (hcause : Caused r fit s x f.mismatch) : Located r fit s x f := by
  refine ⟨0, s, x, [], hpeel, hpath, fun _ => ⟨rfl, ?_⟩, fun h => absurd h hs, hcause⟩
  rw [hfit, Mismatch.here, ← hpath]

/-- The place is the outermost one, and nothing is behind what is wrong there. -/
theorem leaf {s : Signature} (hpeel : s.peel x = (0, s, x)) (hs : s ≠ .wildcard)
    (hfit : fit s x = .error f) (hpath : f.path = []) (hcauses : f.mismatch.causes = []) :
    Located r fit s x f :=
  here hpeel hs hfit hpath (caused_of_causes_eq_nil hcauses)

/-- The place is further in, and the slot there is open. -/
theorem wildcard {t : TypeName} {passed : List TypeName} (hwalk : Walk r x f.path passed t)
    (hblames : Blames r passed t f.mismatch) : Located r fit .wildcard x f :=
  ⟨0, .wildcard, x, f.path, rfl, rfl, fun h => absurd rfl h, fun _ => ⟨t, passed, hwalk, hblames⟩,
    caused_of_causes_eq_nil hblames.causes_eq_nil⟩

/-- A place in the elements of a list is one in the list. -/
theorem list {e : Signature} (hy : x.element? = some y) (h : Located r fit e y f) :
    Located r fit (.list e) x (f.within .element) := by
  obtain ⟨depth, n, z, path, hpeel, hpath, hfault⟩ := h
  refine ⟨depth + 1, n, z, path, ?_, ?_, hfault⟩
  · simp only [Signature.peel, hy, hpeel]
  · rw [Failure.within, hpath, List.replicate_succ, List.cons_append]

end Located

namespace Plain

variable {r : Registry} {w : Bool}

/-! ## Open slots -/

namespace Expansion

/-- While the types `opened` are being expanded, a failure points at a type that is at
fault because of the types on the way and those that are open. -/
def Strays (r : Registry) (opened : List TypeName) (x : Shape) (f : Failure) : Prop :=
  ∃ t passed, Walk r x f.path passed t ∧ Blames r (passed ++ opened) t f.mismatch

section

variable {object : TypeName → Except Failure Signature} {opened : List TypeName}

theorem strays_of_shape (hobject : ∀ n f, object n = .error f → Strays r opened (.object n) f)
    {x : Shape} {f : Failure} (h : shape object x = .error f) : Strays r opened x f := by
  induction x generalizing f with
  | prim k => exact absurd h pure_ne_error
  | array x ih | sequence x ih =>
      simp only [shape, bind_eq_error, pure_ne_error, and_false, exists_false, or_false,
        within_eq_error] at h
      obtain ⟨g, hg, hf⟩ := h
      obtain ⟨t, passed, hwalk, hblames⟩ := ih hg
      rw [← hf]
      refine ⟨t, passed, ?_, hblames⟩
      constructor
      exact hwalk
  | object n => exact hobject n f h

/-- A failure of parameters is that of one of them. -/
theorem strays_of_params (hobject : ∀ n f, object n = .error f → Strays r opened (.object n) f)
    {index : Nat} {ps : List Param} {f : Failure} (h : params object index ps = .error f) :
    ∃ i p path, ps[i]? = some p ∧ f.path = .argument (index + i) p.name :: path ∧
      Strays r opened p.val ⟨f.mismatch, path⟩ := by
  induction ps generalizing index f with
  | nil => exact absurd h pure_ne_error
  | cons p ps ih =>
      rw [params, bind_eq_error] at h
      cases h with
      | inl hhead =>
          rw [within_eq_error] at hhead
          obtain ⟨g, hg, hf⟩ := hhead
          rw [← hf]
          exact ⟨0, p, g.path, rfl, rfl, strays_of_shape hobject hg⟩
      | inr hlater =>
          obtain ⟨s, -, hrest⟩ := hlater
          simp only [bind_eq_error, pure_ne_error, and_false, exists_false, or_false] at hrest
          obtain ⟨i, q, path, hq, hpath, hstrays⟩ := ih hrest
          refine ⟨i + 1, q, path, hq, ?_, hstrays⟩
          rw [hpath, Nat.add_assoc, Nat.add_comm 1 i]

end

theorem strays_of_object (opened : List TypeName) (n : TypeName) (f : Failure)
    (h : object r opened n = .error f) : Strays r opened (.object n) f := by
  induction opened, n using object.induct (r := r) generalizing f with
  | case1 opened n hn =>
      rw [object_eq, if_pos hn, Except.error.injEq] at h
      rw [← h]
      exact ⟨n, [], .here n, .circular hn⟩
  | case2 opened n hn hr =>
      rw [object_eq, if_neg hn, hr, Except.error.injEq] at h
      rw [← h]
      exact ⟨n, [], .here n, .unknown hr⟩
  | case3 opened n hn d hr hd =>
      simp only [object_eq r opened, if_neg hn, hr, hd, Except.error.injEq] at h
      rw [← h]
      exact ⟨n, [], .here n, .constructorless hr hd⟩
  | case4 opened n hn d hr first rest hd hlt ih =>
      simp only [object_eq r opened, if_neg hn, hr, hd, bind_eq_error, pure_ne_error, and_false,
        exists_false, or_false] at h
      obtain ⟨i, p, path, hp, hpath, t, passed, hwalk, hblames⟩ := strays_of_params ih h
      rw [Nat.zero_add] at hpath
      refine ⟨t, n :: passed, ?_, ?_⟩
      · rw [hpath]
        exact .param hr hd hp hwalk
      · -- The type just passed is among those that were open further in.
        refine hblames.mono fun m hm => ?_
        rw [List.mem_append, List.mem_cons] at hm
        rw [List.cons_append, List.mem_cons, List.mem_append]
        exact or_left_comm.mp hm

end Expansion

/-- An open slot that can not be filled points at a type at fault. -/
theorem walk_of_expand_error {x : Shape} {f : Failure} (h : expand r x = .error f) :
    ∃ t passed, Walk r x f.path passed t ∧ Blames r passed t f.mismatch := by
  obtain ⟨t, passed, hwalk, hblames⟩ :=
    Expansion.strays_of_shape (Expansion.strays_of_object []) h
  rw [List.append_nil] at hblames
  exact ⟨t, passed, hwalk, hblames⟩

/-! ## Composites -/

/-- All candidates are rejected exactly if each of them is, and then all rejections are
told. -/
theorem firstAccepted_eq_error_iff {accept : List Param → Except Rejection (List Arg)}
    {ks : List Constructor} {rejections : List Rejection} :
    firstAccepted accept ks = .error rejections ↔
      ks.map (fun k => accept k.params) = rejections.map .error := by
  induction ks generalizing rejections with
  | nil => cases rejections <;> simp [firstAccepted]
  | cons k ks ih =>
      rw [firstAccepted]
      cases haccept : accept k.params with
      | ok args => cases rejections <;> simp [recover, Functor.map, Except.map, haccept]
      | error e =>
          change (firstAccepted accept ks).mapError (e :: ·) = _ ↔ _
          rw [mapError_eq_error]
          cases rejections with
          | nil => simp
          | cons e' rejections =>
              simp only [ih, List.map_cons, haccept, List.cons.injEq, Except.error.injEq]
              constructor
              · rintro ⟨later, hlater, he, rfl⟩
                exact ⟨he, hlater⟩
              · rintro ⟨he, hlater⟩
                exact ⟨rejections, hlater, he, rfl⟩

/-- A composite can not be resolved exactly if its type is unknown, or all candidates are
rejected. -/
theorem select_eq_error_iff {c : Composite} {accept : List Param → Except Rejection (List Arg)}
    {f : Failure} :
    select r c accept = .error f ↔
      (r.find? c.target = none ∧ f = (Mismatch.unknownType c.target).here) ∨
        ∃ d rejections, r.find? c.target = some d ∧
          (Candidate.of c d.constructors).map (fun k => accept k.params) =
            rejections.map .error ∧
          f = (Candidate.mismatch c d.constructors rejections).here := by
  rw [select, Registry.constructors?]
  cases r.find? c.target with
  | none => simp [eq_comm]
  | some d =>
      simp only [Option.map_some, bind_eq_error, pure_ne_error, and_false, exists_false, or_false,
        mapError_eq_error, firstAccepted_eq_error_iff, reduceCtorEq, false_and, false_or,
        Option.some.injEq]
      constructor
      · rintro ⟨rejections, hrejections, rfl⟩
        exact ⟨d, rejections, rfl, hrejections, rfl⟩
      · rintro ⟨_, rejections, rfl, hrejections, rfl⟩
        exact ⟨rejections, hrejections, rfl⟩

/-- A composite that can not be resolved is itself at fault. -/
theorem path_eq_nil_of_select {c : Composite} {accept : List Param → Except Rejection (List Arg)}
    {f : Failure} (h : select r c accept = .error f) : f.path = [] := by
  rw [select_eq_error_iff] at h
  obtain ⟨-, hf⟩ | ⟨d, rejections, -, -, hf⟩ := h <;> rw [hf] <;> rfl

/-- Parameters reject the first argument that does not fit its own. -/
theorem args_eq_error {as : List Arg} {ps : List Param} {position : Nat} {rejection : Rejection}
    (h : args r w position as ps = .error rejection) :
    ∃ i a p g, as[i]? = some a ∧ ps[i]? = some p ∧ signature r w a.val p.val = .error g ∧
      rejection = ⟨position + i, g.within (.argument (position + i) a.name)⟩ ∧
      ∀ j < i, ∀ b q, as[j]? = some b → ps[j]? = some q →
        ∃ t, signature r w b.val q.val = .ok t := by
  induction as generalizing ps position with
  | nil =>
      rw [args] at h
      · exact absurd h pure_ne_error
      · intros
        contradiction
  | cons a as ih =>
      cases ps with
      | nil =>
          rw [args] at h
          · exact absurd h pure_ne_error
          · intros
            contradiction
      | cons p ps =>
          rw [args, bind_eq_error] at h
          cases h with
          | inl hhead =>
              rw [mapError_eq_error] at hhead
              obtain ⟨g, hg, hrejection⟩ := hhead
              exact ⟨0, a, p, g, rfl, rfl, hg, hrejection.symm, nofun⟩
          | inr hlater =>
              obtain ⟨t, ht, hrest⟩ := hlater
              rw [mapError_eq_ok] at ht
              simp only [bind_eq_error, pure_ne_error, and_false, exists_false, or_false] at hrest
              obtain ⟨i, b, q, g, hb, hq, hg, hrejection, hbefore⟩ := ih hrest
              refine ⟨i + 1, b, q, g, hb, hq, hg, ?_, ?_⟩
              · rw [hrejection, Nat.add_assoc, Nat.add_comm 1 i]
              · intro j hj b' q' hb' hq'
                cases j with
                | zero =>
                    cases hb'
                    cases hq'
                    exact ⟨t, ht⟩
                | succ j => exact hbefore j (Nat.lt_of_succ_lt_succ hj) b' q' hb' hq'

theorem rejectsAt_of_args_error {as : List Arg} {ps : List Param} {rejection : Rejection}
    (h : args r w 0 as ps = .error rejection) :
    RejectsAt (signature r w) as ps rejection.position rejection.cause := by
  obtain ⟨i, a, p, g, ha, hp, hg, hrejection, hbefore⟩ := args_eq_error h
  rw [hrejection, Nat.zero_add]
  exact ⟨hbefore, a, p, g.path, ha, hp, rfl, hg⟩

/-- The parameters of a type's constructor are declared. -/
theorem params_mem_overloads {d : TypeDescriptor} {k : Constructor} (h : k ∈ d.constructors) :
    k.params ∈ d.overloads := List.mem_map_of_mem h

/-- A composite without an accepting constructor is reported with the rejection of one that
has as many parameters. -/
theorem rejectsAt_of_noCandidate {c : Composite} {f : Failure} {target : TypeName}
    {arity tried position : Nat} {causePath : Path} {cause : Mismatch}
    (h : select r c (args r w 0 c.args) = .error f)
    (hf : f.mismatch = .noCandidate target arity tried position causePath cause) :
    c.target = target ∧ ∃ d ps, r.find? target = some d ∧ ps ∈ d.overloads ∧
      ps.length = c.args.length ∧
      RejectsAt (signature r w) c.args ps position ⟨cause, causePath⟩ := by
  rw [select_eq_error_iff] at h
  obtain ⟨-, hunknown⟩ | ⟨d, rejections, hfind, hrejections, hmismatch⟩ := h
  · rw [hunknown] at hf
    contradiction
  · rw [hmismatch] at hf
    simp only [Mismatch.here, Candidate.mismatch] at hf
    cases hfurthest : Rejection.furthest rejections with
    | none =>
        rw [hfurthest] at hf
        contradiction
    | some rejection =>
        simp only [hfurthest, Mismatch.noCandidate.injEq] at hf
        obtain ⟨htarget, -, -, hposition, hpath, hcause⟩ := hf
        have hmem : Except.error rejection ∈
            (Candidate.of c d.constructors).map fun k => args r w 0 c.args k.params := by
          rw [hrejections]
          exact List.mem_map_of_mem (Rejection.mem_of_furthest hfurthest)
        obtain ⟨k, hk, hargs⟩ := List.mem_map.mp hmem
        obtain ⟨hdeclared, harity⟩ := List.mem_filter.mp hk
        have hrejects := rejectsAt_of_args_error hargs
        rw [hposition, show rejection.cause = ⟨cause, causePath⟩ by rw [← hpath, ← hcause]]
          at hrejects
        subst htarget
        exact ⟨rfl, d, k.params, hfind, params_mem_overloads hdeclared, eq_of_beq harity, hrejects⟩

/-! ## Signatures -/

/-- A primitive that does not fit is itself at fault, for nothing behind it. -/
theorem prim_eq_error {k : Prim} {x : Shape} {f : Failure} (h : Fit.prim w k x = .error f) :
    f.path = [] ∧ f.mismatch.causes = [] := by
  cases x with
  | prim found =>
      rw [Fit.prim] at h
      split at h
      · contradiction
      · rw [← Except.error.inj h]
        exact ⟨rfl, rfl⟩
  | array x | sequence x | object n =>
      rw [← Except.error.inj h]
      exact ⟨rfl, rfl⟩

/-- Every failure is where its path points, and what is behind it is the failure of an
argument. -/
theorem located_of_error {s : Signature} {x : Shape} {f : Failure}
    (h : signature r w s x = .error f) : Located r (signature r w) s x f := by
  induction s generalizing x f with
  | prim k =>
      have hprim : Fit.prim w k x = .error f := by rwa [signature] at h
      obtain ⟨hpath, hcauses⟩ := prim_eq_error hprim
      exact .leaf rfl (by simp) h hpath hcauses
  | list e ih =>
      cases hx : x.element? with
      | none =>
          have hf : f = Fit.shapeFailure (Signature.list e).describe x := by
            rw [signature, hx] at h
            exact (Except.error.inj h).symm
          refine .leaf ?_ (by simp) h (by rw [hf]; rfl) (by rw [hf]; rfl)
          rw [Signature.peel, hx]
      | some y =>
          simp only [signature, hx, bind_eq_error, pure_ne_error, and_false, exists_false,
            or_false, within_eq_error] at h
          obtain ⟨g, hg, hf⟩ := h
          rw [← hf]
          exact (ih hg).list hx
  | composite t as =>
      by_cases hx : x = .object t
      · have hselect : select r ⟨t, as⟩ (args r w 0 as) = .error f := by
          rw [signature, if_pos hx, bind_eq_error] at h
          exact h.resolve_right fun ⟨_, _, hpure⟩ => pure_ne_error hpure
        refine .here rfl (by simp) h (path_eq_nil_of_select hselect) ?_
        intro target arity tried position causePath cause hcause
        obtain ⟨rfl, d, ps, hfind, hps, hlen, hrejects⟩ := rejectsAt_of_noCandidate hselect hcause
        exact ⟨as, d, ps, rfl, hx, hfind, hps, hlen, hrejects⟩
      · have hf : f = Fit.targetFailure t x := by
          rw [signature, if_neg hx] at h
          exact (Except.error.inj h).symm
        exact .leaf rfl (by simp) h (by rw [hf]; rfl) (by rw [hf]; rfl)
  | wildcard =>
      rw [signature] at h
      obtain ⟨t, passed, hwalk, hblames⟩ := walk_of_expand_error h
      exact .wildcard hwalk hblames

end Plain

end ShapeFit
