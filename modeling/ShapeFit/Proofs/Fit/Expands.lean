import ShapeFit.Proofs.Fit.Plain

/-!
# ShapeFit.Proofs.Fit.Expands

The signature that a shape has of itself, as a relation.

Lists have lists, and an object has a composite of the first constructor declared for
its type, with arguments named after the parameters. A derivation is finite, so a type
whose first constructor leads back to it has none. Filling an open slot finds exactly
the signatures that have a derivation (`Plain.expand_eq_ok_iff`). It never gives up on
one of them: a type met again inside its own expansion would have a signature smaller
than itself.
-/

namespace ShapeFit

mutual
/-- A shape has a signature of itself. -/
inductive Expands (r : Registry) : Shape → Signature → Prop
  | prim (k : Prim) : Expands r (.prim k) (.prim k)
  | array {x : Shape} {s : Signature} : Expands r x s → Expands r (.array x) (.list s)
  | sequence {x : Shape} {s : Signature} : Expands r x s → Expands r (.sequence x) (.list s)
  | object {n : TypeName} {d : TypeDescriptor} {first : List Param} {rest : List (List Param)}
      {args : List Arg} : r.find? n = some d → d.overloads = first :: rest →
      ExpandsParams r first args → Expands r (.object n) (.composite n args)

/-- The shapes of parameters have signatures of themselves, named after them. -/
inductive ExpandsParams (r : Registry) : List Param → List Arg → Prop
  | nil : ExpandsParams r [] []
  | cons {p : Param} {ps : List Param} {s : Signature} {args : List Arg} :
      Expands r p.val s → ExpandsParams r ps args → ExpandsParams r (p :: ps) (⟨p.name, s⟩ :: args)
end

variable {r : Registry}

mutual
/-- A shape has one signature of itself. -/
theorem Expands.unique {x : Shape} {s t : Signature} (h : Expands r x s) (h' : Expands r x t) :
    s = t := by
  match h, h' with
  | .prim k, .prim _ => rfl
  | .array hx, .array hx' => rw [hx.unique hx']
  | .sequence hx, .sequence hx' => rw [hx.unique hx']
  | .object hfind hd hargs, .object hfind' hd' hargs' =>
      rw [hfind, Option.some.injEq] at hfind'
      subst hfind'
      rw [hd, List.cons.injEq] at hd'
      obtain ⟨hfirst, -⟩ := hd'
      subst hfirst
      rw [hargs.unique hargs']
termination_by structural h

theorem ExpandsParams.unique {ps : List Param} {as bs : List Arg} (h : ExpandsParams r ps as)
    (h' : ExpandsParams r ps bs) : as = bs := by
  match h, h' with
  | .nil, .nil => rfl
  | .cons hp hps, .cons hp' hps' => rw [hp.unique hp', hps.unique hps']
termination_by structural h
end

namespace Plain.Expansion

/-! ## Only what has a derivation is found -/

section

variable {object : TypeName → Except Failure Signature}

theorem expands_of_shape (hobject : ∀ n s, object n = .ok s → Expands r (.object n) s) {x : Shape}
    {s : Signature} (h : shape object x = .ok s) : Expands r x s := by
  induction x generalizing s with
  | prim k =>
      rw [shape, pure_eq_ok] at h
      rw [← h]
      exact .prim k
  | array x ih | sequence x ih =>
      rw [shape, bind_eq_ok] at h
      obtain ⟨e, he, hs⟩ := h
      rw [within_eq_ok] at he
      rw [pure_eq_ok] at hs
      rw [← hs]
      constructor
      exact ih he
  | object n => exact hobject n s h

theorem expandsParams_of_params (hobject : ∀ n s, object n = .ok s → Expands r (.object n) s)
    {index : Nat} {ps : List Param} {args : List Arg} (h : params object index ps = .ok args) :
    ExpandsParams r ps args := by
  induction ps generalizing index args with
  | nil =>
      rw [params, pure_eq_ok] at h
      rw [← h]
      exact .nil
  | cons p ps ih =>
      rw [params, bind_eq_ok] at h
      obtain ⟨s, hs, hrest⟩ := h
      rw [bind_eq_ok] at hrest
      obtain ⟨as, has, hargs⟩ := hrest
      rw [within_eq_ok] at hs
      rw [pure_eq_ok] at hargs
      rw [← hargs]
      exact .cons (expands_of_shape hobject hs) (ih has)

end

theorem expands_of_object (opened : List TypeName) (n : TypeName) (s : Signature)
    (h : object r opened n = .ok s) : Expands r (.object n) s := by
  induction opened, n using object.induct (r := r) generalizing s with
  | case1 opened n hn =>
      rw [object_eq, if_pos hn] at h
      contradiction
  | case2 opened n hn hr =>
      rw [object_eq, if_neg hn, hr] at h
      contradiction
  | case3 opened n hn d hr hd =>
      simp only [object_eq r opened, if_neg hn, hr, hd] at h
      contradiction
  | case4 opened n hn d hr first rest hd hlt ih =>
      simp only [object_eq r opened, if_neg hn, hr, hd, bind_eq_ok, pure_eq_ok] at h
      obtain ⟨args, hargs, hs⟩ := h
      rw [← hs]
      exact .object hr hd (expandsParams_of_params ih hargs)

/-! ## Whatever has a derivation is found -/

/-- Every type among `opened` has a signature larger than `size`, if it has any. -/
def Around (r : Registry) (opened : List TypeName) (size : Nat) : Prop :=
  ∀ m ∈ opened, ∀ t, Expands r (.object m) t → size < t.size

theorem Around.mono {opened : List TypeName} {a b : Nat} (h : Around r opened a) (hba : b ≤ a) :
    Around r opened b :=
  fun m hm t ht => Nat.lt_of_le_of_lt hba (h m hm t ht)

/-- What stands inside the signature of a type is smaller than it. -/
theorem Around.cons {opened : List TypeName} {n : TypeName} {args : List Arg}
    (h : Around r opened (Signature.composite n args).size)
    (hn : Expands r (.object n) (.composite n args)) :
    Around r (n :: opened) (Signature.sizeArgs args) := by
  have hlt : Signature.sizeArgs args < (Signature.composite n args).size := by
    rw [Signature.size]
    omega
  intro m hm t ht
  rw [List.mem_cons] at hm
  cases hm with
  | inl he =>
      subst he
      rw [← hn.unique ht]
      exact hlt
  | inr hopened => exact Nat.lt_trans hlt (h m hopened t ht)

mutual
theorem shape_of_expands {x : Shape} {s : Signature} (h : Expands r x s)
    {opened : List TypeName} (hopened : Around r opened s.size) :
    shape (object r opened) x = .ok s := by
  match h with
  | .prim k => rfl
  | .array hx | .sequence hx =>
      rw [Signature.size] at hopened
      rw [shape, shape_of_expands hx (hopened.mono (by omega))]
      rfl
  | .object (n := n) hfind hd hargs =>
      have hself := Expands.object hfind hd hargs
      have hn : n ∉ opened := fun hn => Nat.lt_irrefl _ (hopened n hn _ hself)
      have hparams := params_of_expands hargs (hopened.cons hself) 0
      simp only [shape, object_eq r opened, if_neg hn, hfind, hd, hparams]
      rfl
termination_by structural h

theorem params_of_expands {ps : List Param} {args : List Arg} (h : ExpandsParams r ps args)
    {opened : List TypeName} (hopened : Around r opened (Signature.sizeArgs args)) (index : Nat) :
    params (object r opened) index ps = .ok args := by
  match h with
  | .nil => rfl
  | .cons hp hps =>
      rw [Signature.sizeArgs] at hopened
      rw [params, shape_of_expands hp (hopened.mono (by omega))]
      have hrest := params_of_expands hps (hopened.mono (by omega)) (index + 1)
      change (params _ (index + 1) _ >>= fun _ => _) = _
      rw [hrest]
      rfl
termination_by structural h
end

end Plain.Expansion

/-- Filling an open slot at a shape finds the signature that the shape has of itself, if
it has one. -/
theorem Plain.expand_eq_ok_iff {x : Shape} {s : Signature} :
    Plain.expand r x = .ok s ↔ Expands r x s := by
  constructor
  · exact Expansion.expands_of_shape (Expansion.expands_of_object [])
  · intro h
    exact Expansion.shape_of_expands h fun m hm => by contradiction

end ShapeFit
