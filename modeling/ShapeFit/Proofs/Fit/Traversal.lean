import ShapeFit.Proofs.Fit.Memo

/-!
# ShapeFit.Proofs.Fit.Traversal

What fitting does to a session, whatever comes of it.

`Attempt.Along` says that an attempt takes each session to one that it is related to. For a
relation that is reflexive and transitive it passes through every way of putting attempts
together. So a relation holds along fitting a whole signature as soon as it holds along
resolving one composite, given that it does along trying its candidates
(`Traversal.signature`). The relation may depend on the composites gone through.
-/

namespace ShapeFit

namespace Attempt

variable {ε ε' α β : Type} {R : Session → Session → Prop}

/-- The attempt takes every session to one that it is related to. -/
def Along (R : Session → Session → Prop) (x : Attempt ε α) : Prop := ∀ s, R s (x.run s).2

/-- A relation that several steps can be taken along. -/
structure Chains (R : Session → Session → Prop) : Prop where
  refl : ∀ s, R s s
  trans : ∀ {s t u}, R s t → R t u → R s u

namespace Along

theorem pure (hR : Chains R) (a : α) : Along R (pure a : Attempt ε α) := hR.refl

theorem fail (hR : Chains R) (e : ε) : Along R (fail e : Attempt ε α) := hR.refl

theorem ofExcept (hR : Chains R) (p : Except ε α) : Along R (ofExcept p) := by
  cases p with
  | ok a => exact pure hR a
  | error e => exact fail hR e

theorem bind (hR : Chains R) {x : Attempt ε α} {f : α → Attempt ε β} (hx : Along R x)
    (hf : ∀ a, Along R (f a)) : Along R (x >>= f) := by
  intro s
  have hstep := hx s
  rw [bind_apply]
  cases hrun : x.run s with
  | mk res t =>
      rw [hrun] at hstep
      cases res with
      | ok a => exact hR.trans hstep (hf a t)
      | error e => exact hstep

theorem map (hR : Chains R) {x : Attempt ε α} (hx : Along R x) (f : α → β) : Along R (f <$> x) :=
  bind hR hx fun a => pure hR (f a)

theorem recover (hR : Chains R) {x : Attempt ε α} {handle : ε → Attempt ε' α} (hx : Along R x)
    (hhandle : ∀ e, Along R (handle e)) : Along R (x.recover handle) := by
  intro s
  have hstep := hx s
  rw [recover_apply]
  cases hrun : x.run s with
  | mk res t =>
      rw [hrun] at hstep
      cases res with
      | ok a => exact hstep
      | error e => exact hR.trans hstep (hhandle e t)

theorem mapFailure (hR : Chains R) {x : Attempt ε α} (hx : Along R x) (f : ε → ε') :
    Along R (x.mapFailure f) :=
  recover hR hx fun e => fail hR (f e)

theorem within (hR : Chains R) {x : Attempt Failure α} (hx : Along R x) (seg : Segment) :
    Along R (Attempt.within seg x) :=
  mapFailure hR hx (Failure.within seg)

/-! ## Filling open slots -/

section

variable {object : TypeName → Attempt Failure Signature}

theorem expansion_shape (hR : Chains R) (hobject : ∀ n, Along R (object n)) (x : Shape) :
    Along R (Expansion.shape object x) := by
  induction x with
  | prim k => exact pure hR _
  | array e ih | sequence e ih => exact bind hR (within hR ih .element) fun _ => pure hR _
  | object n => exact hobject n

theorem expansion_params (hR : Chains R) (hobject : ∀ n, Along R (object n)) (index : Nat)
    (ps : List Param) : Along R (Expansion.params object index ps) := by
  induction ps generalizing index with
  | nil => exact pure hR _
  | cons p ps ih =>
      have hshape := within hR (expansion_shape hR hobject p.val) (.argument index p.name)
      exact bind hR hshape fun _ => bind hR (ih (index + 1)) fun _ => pure hR _

end

theorem expansion_object (hR : Chains R)
    (hconsult : ∀ n, Along R (record (.consult n) : Attempt Failure Unit)) (r : Registry)
    (opened : List TypeName) (n : TypeName) : Along R (Expansion.object r opened n) := by
  induction opened, n using Plain.Expansion.object.induct (r := r) with
  | case1 opened n hn =>
      rw [Expansion.object_eq, if_pos hn]
      exact fail hR _
  | case2 opened n hn hr =>
      rw [Expansion.object_eq, if_neg hn, hr]
      exact bind hR (hconsult n) fun _ => fail hR _
  | case3 opened n hn d hr hd =>
      simp only [Expansion.object_eq r opened, if_neg hn, hr, hd]
      exact bind hR (hconsult n) fun _ => fail hR _
  | case4 opened n hn d hr first tail hd hlt ih =>
      simp only [Expansion.object_eq r opened, if_neg hn, hr, hd]
      have hparams := expansion_params hR ih 0 first
      exact bind hR (hconsult n) fun _ => bind hR hparams fun _ => pure hR _

theorem expand (hR : Chains R)
    (hconsult : ∀ n, Along R (record (.consult n) : Attempt Failure Unit)) (r : Registry)
    (x : Shape) : Along R (ShapeFit.expand r x) :=
  expansion_shape hR (expansion_object hR hconsult r []) x

/-! ## Choosing a constructor -/

section

variable {accept : List Param → Attempt Rejection (List Arg)}

theorem firstAccepted (hR : Chains R) (haccept : ∀ ps, Along R (accept ps))
    (ks : List Constructor) : Along R (Candidate.firstAccepted accept ks) := by
  induction ks with
  | nil => exact fail hR []
  | cons k ks ih =>
      exact recover hR (map hR (haccept k.params) (k, ·)) fun r => mapFailure hR ih (r :: ·)

/-- The type is asked for first, and then the candidates are tried. -/
theorem select (hR : Chains R) (haccept : ∀ ps, Along R (accept ps)) (r : Registry)
    (c : Composite) (s : Session) :
    R (s.record (.consult c.target)) ((Candidate.select r c accept).run s).2 := by
  rw [Candidate.select, bind_apply, record_apply]
  cases r.constructors? c.target with
  | none => exact hR.refl _
  | some constructors =>
      have hfirst := mapFailure hR (firstAccepted hR haccept (Candidate.of c constructors))
        fun rejections => (Candidate.mismatch c constructors rejections).here
      exact bind hR hfirst (fun _ => pure hR _) _

end

end Along

end Attempt

/-! ## Signatures -/

/-- The choice of a constructor for a composite, without a look at what is remembered. -/
def Fit.selection (ctx : Context) (c : Composite) : Attempt Failure Resolution :=
  Candidate.select ctx.registry c fun ps => Fit.args ctx 0 c.args ps

/-- A relation that fitting takes every session along, by the composites gone through. -/
structure Traversal (ctx : Context) (R : List Composite → Session → Session → Prop) : Prop where
  chains : ∀ nodes, Attempt.Chains (R nodes)
  mono : ∀ {N M s t}, N ⊆ M → R N s t → R M s t
  /-- One composite is resolved along the relation, if its candidates are tried along it. -/
  composite : ∀ c,
    (∀ s, R c.inner (s.record (.consult c.target)) ((Fit.selection ctx c).run s).2) →
      Attempt.Along (R c.composites) (Fit.composite ctx c)

/-- A composite has the open slots of its arguments. -/
theorem Signature.isResolved_composite_of_mem {t : TypeName} {args : List Arg} {a : Arg}
    (ha : a ∈ args) (hslot : a.val.isResolved = false) :
    (composite t args).isResolved = false := by
  rw [isResolved]
  induction args with
  | nil => contradiction
  | cons b args ih =>
      rw [isResolvedArgs]
      rw [List.mem_cons] at ha
      cases ha with
      | inl he => rw [← he, hslot, Bool.false_and]
      | inr hmem => rw [ih hmem, Bool.and_false]

namespace Traversal

open Attempt

variable {ctx : Context} {R : List Composite → Session → Session → Prop}

theorem args (h : Traversal ctx R) {as : List Arg}
    (hargs : ∀ a ∈ as, ∀ x, Along (R a.val.composites) (Fit.signature ctx a.val x))
    (position : Nat) (ps : List Param) :
    Along (R (Signature.compositesArgs as)) (Fit.args ctx position as ps) := by
  have hR := h.chains (Signature.compositesArgs as)
  induction as generalizing ps position with
  | nil =>
      rw [Fit.args]
      · exact .pure hR []
      · intros
        contradiction
  | cons a as ih =>
      cases ps with
      | nil =>
          rw [Fit.args]
          · exact .pure hR []
          · intros
            contradiction
      | cons p ps =>
          have hhead : Along (R (Signature.compositesArgs (a :: as)))
              (Fit.signature ctx a.val p.val) :=
            fun s => h.mono (List.subset_append_left _ _) (hargs a List.mem_cons_self p.val s)
          have htail : Along (R (Signature.compositesArgs (a :: as)))
              (Fit.args ctx (position + 1) as ps) := by
            intro s
            refine h.mono (List.subset_append_right _ _) (ih ?_ (position + 1) ps (h.chains _) s)
            exact fun b hb => hargs b (List.mem_cons_of_mem a hb)
          exact .bind hR (.mapFailure hR hhead _) fun _ => .bind hR htail fun _ => .pure hR _

theorem of_args (h : Traversal ctx R) {c : Composite}
    (hargs : ∀ a ∈ c.args, ∀ x, Along (R a.val.composites) (Fit.signature ctx a.val x)) :
    Along (R c.composites) (Fit.composite ctx c) :=
  h.composite c fun s =>
    Along.select (h.chains c.inner) (fun ps => h.args hargs 0 ps) ctx.registry c s

/-- Fitting a signature takes every session along the relation. Where the signature has an
open slot, filling open slots has to do so, too. -/
theorem signature (h : Traversal ctx R) (s : Signature)
    (hopen : s.isResolved = false → ∀ x, Along (R []) (expand ctx.registry x)) (x : Shape) :
    Along (R s.composites) (Fit.signature ctx s x) := by
  induction s generalizing x with
  | prim k => exact .ofExcept (h.chains _) _
  | list e ih =>
      rw [Fit.signature]
      cases x.element? with
      | some y =>
          have helement := Along.within (h.chains _) (ih hopen y) .element
          exact .map (h.chains _) helement Signature.list
      | none => exact .fail (h.chains _) _
  | composite t as ih =>
      rw [Fit.signature]
      by_cases hx : x = .object t
      · rw [if_pos hx]
        have hcomposite : Along _ (Fit.composite ctx ⟨t, as⟩) := h.of_args fun a ha =>
          ih a ha fun hslot => hopen (Signature.isResolved_composite_of_mem ha hslot)
        exact .map (h.chains _) hcomposite fun res => res.signature.toSignature
      · rw [if_neg hx]
        exact .fail (h.chains _) _
  | wildcard => exact hopen rfl x

/-- Resolving a composite takes every session along the relation. -/
theorem resolve (h : Traversal ctx R) (c : Composite)
    (hopen : c.toSignature.isResolved = false → ∀ x, Along (R []) (expand ctx.registry x)) :
    Along (R c.composites) (Fit.composite ctx c) :=
  h.of_args fun a ha =>
    h.signature a.val fun hslot => hopen (Signature.isResolved_composite_of_mem ha hslot)

end Traversal

end ShapeFit
