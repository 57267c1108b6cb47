import ShapeFit.Proofs.Blur
import ShapeFit.Proofs.Fit.Plain

/-!
# ShapeFit.Proofs.Fit.Blurring

Fitting does not look at what a blur leaves out.

A blurred signature is fitted to a blurred shape, over a blurred registry, as the
signature is fitted to the shape, up to the blur: with the same constructors
selected and the same candidates rejected at the same positions
(`Plain.signature_blur`, `Plain.composite_blur`). So two signatures, shapes and
registries that a blur makes the same have results that it makes the same
(`Plain.seen_signature_eq`, `Plain.seen_composite_eq`).
-/

namespace ShapeFit

namespace Blur

/-- Whether the types of `r'` are those of `r`, blurred. -/
def Shows (b : Blur) (r r' : Registry) : Prop := ∀ n, r'.find? n = (r.find? n).map b.descriptor

theorem shows_registry (b : Blur) (r : Registry) : b.Shows r (b.registry r) := b.find?_registry r

theorem shows_of_confuses {b : Blur} {r r' : Registry} (h : b.Confuses r r') :
    b.Shows r' (b.registry r) := fun n => (b.find?_registry r n).trans (h n)

variable (b : Blur)

/-- A list is seen as a list of what its elements are seen as. -/
theorem element?_shape_eq_some {x y : Shape} (h : x.element? = some y) :
    (b.shape x).element? = some (b.shape y) := by
  rw [b.element?_shape, h, Option.map_some]

/-- Only an object of a type is seen as one. -/
theorem shape_eq_object_iff {x : Shape} {t : TypeName} : b.shape x = .object t ↔ x = .object t := by
  have hlist : ∀ y, x.element? = some y → b.shape x ≠ .object t := fun y hy hobject => by
    have helement := b.element?_shape_eq_some hy
    rw [hobject] at helement
    contradiction
  cases x with
  | prim k => simp [b.shape_prim]
  | array e | sequence e => simp [hlist e rfl]
  | object n => simp [b.shape_object]

end Blur

namespace Plain

variable {ε ε' δ δ' α α' β β' : Type}

/-! ## Results -/

/-- A result seen through a function on failures and one on values. -/
def seen (g : ε → ε') (f : α → α') : Except ε α → Except ε' α'
  | .ok a => .ok (f a)
  | .error e => .error (g e)

theorem seen_bind {g : ε → ε'} {f : α → α'} {h : β → β'} {x : Except ε α} {x' : Except ε' α'}
    {k : α → Except ε β} {k' : α' → Except ε' β'} (hx : x' = seen g f x)
    (hk : ∀ a, k' (f a) = seen g h (k a)) : x' >>= k' = seen g h (x >>= k) := by
  subst hx
  cases x with
  | ok a => exact hk a
  | error e => rfl

theorem seen_mapError {g : ε → ε'} {h : δ → δ'} {f : α → α'} {m : ε → δ} {m' : ε' → δ'}
    {x : Except ε α} {x' : Except ε' α'} (hx : x' = seen g f x) (hm : ∀ e, m' (g e) = h (m e)) :
    x'.mapError m' = seen h f (x.mapError m) := by
  subst hx
  cases x with
  | ok a => rfl
  | error e => exact congrArg Except.error (hm e)

theorem seen_recover {g : ε → ε'} {h : δ → δ'} {f : α → α'} {x : Except ε α} {x' : Except ε' α'}
    {k : ε → Except δ α} {k' : ε' → Except δ' α'} (hx : x' = seen g f x)
    (hk : ∀ e, k' (g e) = seen h f (k e)) : recover x' k' = seen h f (recover x k) := by
  subst hx
  cases x with
  | ok a => rfl
  | error e => exact hk e

/-- A failure one step further in is seen from here with that step blurred. -/
theorem seen_within (b : Blur) {f : α → α'} {x : Except Failure α} {x' : Except Failure α'}
    (seg : Segment) (hx : x' = seen b.failure f x) :
    within (b.segment seg) x' = seen b.failure f (within seg x) :=
  seen_mapError hx fun _ => (b.failure_within seg _).symm

variable {b : Blur} {r r' : Registry} {w : Bool}

/-! ## Open slots -/

namespace Expansion

section

variable {object object' : TypeName → Except Failure Signature}

/-- A list of either kind becomes the list of what its elements become. -/
theorem shape_of_element? {x y : Shape} (h : x.element? = some y) :
    shape object x = do return .list (← within .element (shape object y)) := by
  cases x with
  | prim k => contradiction
  | array e | sequence e =>
      obtain rfl : e = y := Option.some.inj h
      rfl
  | object n => contradiction

theorem shape_blur (hobject : ∀ n, object' n = seen b.failure b.signature (object n)) (x : Shape) :
    shape object' (b.shape x) = seen b.failure b.signature (shape object x) := by
  induction x with
  | prim k =>
      rw [b.shape_prim]
      rfl
  | array e ih | sequence e ih =>
      rw [shape_of_element? (b.element?_shape_eq_some rfl), shape]
      exact seen_bind (seen_within b .element ih) fun _ => rfl
  | object n =>
      rw [b.shape_object]
      exact hobject n

theorem params_blur (hobject : ∀ n, object' n = seen b.failure b.signature (object n))
    (index : Nat) (ps : List Param) :
    params object' index (ps.map b.param) = seen b.failure b.args (params object index ps) := by
  induction ps generalizing index with
  | nil => rfl
  | cons p ps ih =>
      have hshape := seen_within b (.argument index p.name) (shape_blur hobject p.val)
      exact seen_bind hshape fun s => seen_bind (ih (index + 1)) fun args => rfl

end

theorem object_blur (hr : b.Shows r r') (opened : List TypeName) (n : TypeName) :
    object r' opened n = seen b.failure b.signature (object r opened n) := by
  -- The cases are those of the one registry. The other finds a type wherever this one does.
  induction opened, n using object.induct (r := r) with
  | case1 opened n hn =>
      rw [object_eq, object_eq, if_pos hn, if_pos hn]
      rfl
  | case2 opened n hn hfind =>
      have hfind' : r'.find? n = none := by simp [hr n, hfind]
      rw [object_eq, object_eq, if_neg hn, if_neg hn, hfind, hfind']
      rfl
  | case3 opened n hn d hfind hd =>
      have hfind' : r'.find? n = some (b.descriptor d) := by simp [hr n, hfind]
      simp only [object_eq _ opened, if_neg hn, hfind, hfind', b.overloads_descriptor,
        hd, List.map_nil]
      rfl
  | case4 opened n hn d hfind first rest hd hlt ih =>
      have hfind' : r'.find? n = some (b.descriptor d) := by simp [hr n, hfind]
      simp only [object_eq _ opened, if_neg hn, hfind, hfind', b.overloads_descriptor,
        hd, List.map_cons]
      exact seen_bind (params_blur ih 0 first) fun args => rfl

end Expansion

theorem expand_blur (hr : b.Shows r r') (x : Shape) :
    expand r' (b.shape x) = seen b.failure b.signature (expand r x) :=
  Expansion.shape_blur (Expansion.object_blur hr []) x

/-! ## Choosing a constructor -/

variable {accept accept' : List Param → Except Rejection (List Arg)}

theorem firstAccepted_blur
    (haccept : ∀ ps, accept' (ps.map b.param) = seen b.rejection b.args (accept ps))
    (ks : List Constructor) :
    firstAccepted accept' (ks.map b.constructor) =
      seen (List.map b.rejection) (fun a => (b.constructor a.1, b.args a.2))
        (firstAccepted accept ks) := by
  induction ks with
  | nil => rfl
  | cons k ks ih =>
      have hk : ((b.constructor k, ·) <$> accept' (k.params.map b.param)) =
          seen b.rejection (fun a => (b.constructor a.1, b.args a.2))
            ((k, ·) <$> accept k.params) := by
        rw [haccept]
        cases accept k.params <;> rfl
      exact seen_recover hk fun e => seen_mapError ih fun es => rfl

end Plain

/-- The rejection that got furthest is the same one, blurred. -/
theorem Rejection.furthest_blur (b : Blur) (rs : List Rejection) :
    furthest (rs.map b.rejection) = (furthest rs).map b.rejection := by
  induction rs with
  | nil => rfl
  | cons a rs ih =>
      simp only [List.map_cons, furthest, ih]
      cases furthest rs with
      | none => rfl
      | some c => by_cases hlt : a.position < c.position <;> simp [Blur.rejection, hlt]

theorem Candidate.of_blur (b : Blur) (c : Composite) (ks : List Constructor) :
    of (b.composite c) (ks.map b.constructor) = (of c ks).map b.constructor := by
  simp [of, List.filter_map, Function.comp_def, Constructor.arity, Composite.arity,
    Blur.constructor, Blur.composite, b.length_args]

theorem Candidate.mismatch_blur (b : Blur) (c : Composite) (ks : List Constructor)
    (rs : List Rejection) :
    mismatch (b.composite c) (ks.map b.constructor) (rs.map b.rejection) =
      b.mismatch (mismatch c ks rs) := by
  have harity : (b.composite c).arity = c.arity := b.length_args c.args
  have harities : (ks.map b.constructor).map Constructor.arity = ks.map Constructor.arity := by
    simp [Constructor.arity, Blur.constructor, Function.comp_def]
  rw [mismatch, mismatch, Rejection.furthest_blur, harity, harities]
  cases Rejection.furthest rs with
  | none => rfl
  | some r => simp [Blur.mismatch, Blur.rejection, Blur.failure, Blur.composite]

namespace Plain

variable {b : Blur} {r r' : Registry} {w : Bool}

theorem select_blur {accept accept' : List Param → Except Rejection (List Arg)}
    (hr : b.Shows r r') (c : Composite)
    (haccept : ∀ ps, accept' (ps.map b.param) = seen b.rejection b.args (accept ps)) :
    select r' (b.composite c) accept' = seen b.failure b.resolution (select r c accept) := by
  have hconstructors : r'.constructors? c.target =
      (r.constructors? c.target).map (List.map b.constructor) := by
    simp [Registry.constructors?, hr c.target, b.constructors_descriptor, Function.comp_def]
  have htarget : (b.composite c).target = c.target := rfl
  rw [select, select, htarget, hconstructors]
  cases r.constructors? c.target with
  | none => rfl
  | some ks =>
      have hfirst := firstAccepted_blur haccept (Candidate.of c ks)
      rw [← Candidate.of_blur] at hfirst
      refine seen_bind (seen_mapError hfirst fun rs => ?_) fun a => rfl
      rw [Candidate.mismatch_blur]
      rfl

/-! ## Signatures -/

/-- A primitive fits no list. -/
theorem prim_of_element? {k : Prim} {x y : Shape} (h : x.element? = some y) :
    Fit.prim w k x = .error (Fit.shapeFailure ("`" ++ k.name ++ "`") x) := by
  cases x with
  | prim found => contradiction
  | array e | sequence e | object n => rfl

theorem prim_blur (k : Prim) (x : Shape) :
    Fit.prim w k (b.shape x) = seen b.failure b.signature (Fit.prim w k x) := by
  cases x with
  | prim found =>
      rw [b.shape_prim, Fit.prim]
      split <;> rfl
  | array e | sequence e =>
      rw [prim_of_element? (b.element?_shape_eq_some rfl), prim_of_element? rfl]
      rfl
  | object n =>
      rw [b.shape_object]
      simp [Fit.prim, seen, Fit.shapeFailure, Mismatch.here, Blur.failure, Blur.mismatch,
        Blur.path, b.shape_object]

theorem args_blur {as : List Arg}
    (h : ∀ a ∈ as, ∀ x, signature r' w (b.signature a.val) (b.shape x) =
      seen b.failure b.signature (signature r w a.val x)) (position : Nat) (ps : List Param) :
    args r' w position (b.args as) (ps.map b.param) =
      seen b.rejection b.args (args r w position as ps) := by
  induction as generalizing position ps with
  | nil =>
      rw [Blur.args, args, args]
      · rfl
      all_goals intros; contradiction
  | cons a as ih =>
      cases ps with
      | nil =>
          rw [List.map_nil, args, args]
          · rfl
          all_goals intros; contradiction
      | cons p ps =>
          rw [List.forall_mem_cons] at h
          have hhead : (signature r' w (b.signature a.val) (b.shape p.val)).mapError
                (fun f => ⟨position, f.within (.argument position (b.name a.name))⟩) =
              seen b.rejection b.signature ((signature r w a.val p.val).mapError
                fun f => ⟨position, f.within (.argument position a.name)⟩) :=
            seen_mapError (h.1 p.val) fun _ => rfl
          exact seen_bind hhead fun s => seen_bind (ih h.2 (position + 1) ps) fun bs => rfl

/-- Fitting a blurred signature to a blurred shape. -/
theorem signature_blur (hr : b.Shows r r') (s : Signature) (x : Shape) :
    signature r' w (b.signature s) (b.shape x) =
      seen b.failure b.signature (signature r w s x) := by
  -- For every shape at once: the arguments meet the parameters of one candidate after another.
  induction s generalizing x with
  | prim k => exact prim_blur k x
  | list e ih =>
      rw [Blur.signature, signature, signature, b.element?_shape]
      cases x.element? with
      | none => rfl
      | some y => exact seen_bind (seen_within b .element (ih y)) fun _ => rfl
  | composite t as ih =>
      rw [Blur.signature, signature, signature]
      by_cases hx : x = .object t
      · rw [if_pos hx, if_pos (b.shape_eq_object_iff.mpr hx)]
        have hselect := select_blur hr ⟨t, as⟩ fun ps => args_blur (w := w) ih 0 ps
        exact seen_bind hselect fun res => congrArg Except.ok (b.signature_toSignature _).symm
      · rw [if_neg hx, if_neg fun h => hx (b.shape_eq_object_iff.mp h)]
        rfl
  | wildcard => exact expand_blur hr x

/-- Resolving a blurred composite. -/
theorem composite_blur (hr : b.Shows r r') (c : Composite) :
    composite r' w (b.composite c) = seen b.failure b.resolution (composite r w c) :=
  select_blur hr c fun ps => args_blur (fun a _ x => signature_blur hr a.val x) 0 ps

/-! ## Two that look the same -/

/-- What looks the same is fitted with results that look the same. -/
theorem seen_signature_eq (hr : b.Confuses r r') {s s' : Signature} {x x' : Shape}
    (hs : b.signature s = b.signature s') (hx : b.shape x = b.shape x') :
    seen b.failure b.signature (signature r w s x) =
      seen b.failure b.signature (signature r' w s' x') := by
  rw [← signature_blur (b.shows_registry r), hs, hx, signature_blur (Blur.shows_of_confuses hr)]

theorem seen_composite_eq (hr : b.Confuses r r') {c c' : Composite}
    (hc : b.composite c = b.composite c') :
    seen b.failure b.resolution (composite r w c) =
      seen b.failure b.resolution (composite r' w c') := by
  rw [← composite_blur (b.shows_registry r), hc, composite_blur (Blur.shows_of_confuses hr)]

end Plain

end ShapeFit
