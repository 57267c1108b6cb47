import Mathlib.Data.Nat.Find
import ShapeFit.Proofs.Fit.Rules

/-!
# ShapeFit.Proofs.Fit.Monotonicity

More types and more widening break no match.

A registry is extended by one that knows each of its types, with constructors added at
the end only (`Registry.ExtendedBy`). Over an extension, and where widening is allowed
that was not, a candidate that was accepted still is. One that was rejected may be
accepted now and win, so another signature may come out; but the constructor selected is
declared no later (`Selects.mono`), and what fitted still fits (`Fits.mono`). An open slot
becomes what it did before (`Expands.mono`): it takes first constructors only, and those
stay the first.
-/

namespace ShapeFit

/-! ## Extensions of a registry -/

/-- Each type of `r` is a type of `r'`, where further constructors may follow those that it
has in `r`. -/
def Registry.ExtendedBy (r r' : Registry) : Prop :=
  ∀ n d, r.find? n = some d → ∃ d', r'.find? n = some d' ∧ d.overloads <+: d'.overloads

namespace Registry.ExtendedBy

theorem refl (r : Registry) : r.ExtendedBy r :=
  fun _ d hfind => ⟨d, hfind, List.prefix_rfl⟩

/-- A registration extends a registry unless it takes constructors away from a type, or
their places in the order of declaration. -/
theorem insert {r : Registry} {d : TypeDescriptor}
    (hd : ∀ e, r.find? d.name = some e → e.overloads <+: d.overloads) :
    r.ExtendedBy (r.insert d) := by
  intro n e hfind
  rw [find?_insert]
  by_cases hn : n = d.name
  · subst hn
    exact ⟨d, if_pos rfl, hd e hfind⟩
  · exact ⟨e, by rw [if_neg hn, hfind], List.prefix_rfl⟩

/-- A constructor of an extended registry has the same place in the extension. -/
theorem overload {r r' : Registry} (hr : r.ExtendedBy r') {n : TypeName} {d : TypeDescriptor}
    {i : Nat} {ps : List Param} (hfind : r.find? n = some d) (hps : d.overloads[i]? = some ps) :
    ∃ d', r'.find? n = some d' ∧ d'.overloads[i]? = some ps := by
  obtain ⟨d', hfind', added, hadded⟩ := hr n d hfind
  obtain ⟨hi, -⟩ := List.getElem?_eq_some_iff.mp hps
  have hps' : d'.overloads[i]? = some ps := by
    rw [← hadded, List.getElem?_append_left hi, hps]
  exact ⟨d', hfind', hps'⟩

end Registry.ExtendedBy

variable {r r' : Registry} {w w' : Bool}

/-! ## Open slots -/

mutual
/-- The signature that a shape has of itself, it has over every extension. -/
theorem Expands.mono (hr : r.ExtendedBy r') {x : Shape} {s : Signature} (h : Expands r x s) :
    Expands r' x s := by
  match h with
  | .prim k => exact .prim k
  | .array hx => exact .array (hx.mono hr)
  | .sequence hx => exact .sequence (hx.mono hr)
  | .object hfind hd hargs =>
      obtain ⟨d', hfind', added, hadded⟩ := hr _ _ hfind
      rw [hd, List.cons_append] at hadded
      exact .object hfind' hadded.symm (hargs.mono hr)
termination_by structural h

theorem ExpandsParams.mono (hr : r.ExtendedBy r') {ps : List Param} {args : List Arg}
    (h : ExpandsParams r ps args) : ExpandsParams r' ps args := by
  match h with
  | .nil => exact .nil
  | .cons hp hps => exact .cons (hp.mono hr) (hps.mono hr)
termination_by structural h
end

/-! ## Candidates -/

/-- Where a constructor accepts the arguments, one is selected, and it is declared no
later: the first of those that accept. -/
theorem exists_selects_le {n : TypeName} {d : TypeDescriptor} {i : Nat} {ps : List Param}
    {as args : List Arg} (hfind : r.find? n = some d) (hps : d.overloads[i]? = some ps)
    (hargs : FitsArgs r w as ps args) :
    ∃ k args', k.index ≤ i ∧ Selects r n as.length (FitsArgs r w as) (Rejects r w as) k args' := by
  classical
  have haccepted : ∃ j ps args, d.overloads[j]? = some ps ∧ FitsArgs r w as ps args :=
    ⟨i, ps, args, hps, hargs⟩
  have hle : Nat.find haccepted ≤ i := Nat.find_min' haccepted ⟨ps, args, hps, hargs⟩
  have hearlier : ∀ j < Nat.find haccepted, ∀ ps, d.overloads[j]? = some ps →
      ps.length = as.length → Rejects r w as ps := by
    intro j hj ps hps hlen
    rw [rejects_iff hlen]
    exact fun args hargs => Nat.find_min haccepted hj ⟨ps, args, hps, hargs⟩
  obtain ⟨ps', args', hps', hargs'⟩ := Nat.find_spec haccepted
  exact ⟨⟨Nat.find haccepted, ps'⟩, args', hle, d, hfind, hps', hargs'.length_params, hargs',
    hearlier⟩

theorem FitsArgs.mono {as args : List Arg} {ps : List Param}
    (hmono : ∀ a ∈ as, ∀ x t, Fits r w a.val x t → ∃ t', Fits r' w' a.val x t')
    (h : FitsArgs r w as ps args) : ∃ args', FitsArgs r' w' as ps args' := by
  induction h using FitsArgs.induction with
  | nil => exact ⟨[], rfl⟩
  | @cons n s as p ps t args ht _ ih =>
      rw [List.forall_mem_cons] at hmono
      obtain ⟨t', ht'⟩ := hmono.1 _ _ ht
      obtain ⟨args', hargs'⟩ := ih hmono.2
      exact ⟨⟨n, t'⟩ :: args', t', args', ht', hargs', rfl⟩

/-- Over an extension where each argument fits at least where it did, the constructor
selected is declared no later than the one selected before. -/
theorem Selects.mono (hr : r.ExtendedBy r') {n : TypeName} {as args : List Arg} {k : Constructor}
    (hmono : ∀ a ∈ as, ∀ x t, Fits r w a.val x t → ∃ t', Fits r' w' a.val x t')
    (h : Selects r n as.length (FitsArgs r w as) (Rejects r w as) k args) :
    ∃ k' args', k'.index ≤ k.index ∧
      Selects r' n as.length (FitsArgs r' w' as) (Rejects r' w' as) k' args' := by
  obtain ⟨d, hfind, hk, -, hargs, -⟩ := h
  obtain ⟨d', hfind', hk'⟩ := hr.overload hfind hk
  obtain ⟨args', hargs'⟩ := hargs.mono hmono
  exact exists_selects_le hfind' hk' hargs'

/-! ## Signatures -/

/-- What fits fits over every extension, and with widening if it does without. -/
theorem Fits.mono (hr : r.ExtendedBy r') (hw : w = true → w' = true) {s t : Signature} {x : Shape}
    (h : Fits r w s x t) : ∃ t', Fits r' w' s x t' := by
  induction s generalizing x t with
  | prim k =>
      obtain ⟨found, hx, hmatch, -⟩ := h
      have hmatch' : k = found ∨ (w' = true ∧ k.widens found = true) :=
        hmatch.imp_right fun hwidens => ⟨hw hwidens.1, hwidens.2⟩
      exact ⟨.prim k, found, hx, hmatch', rfl⟩
  | list e ih =>
      obtain ⟨y, e', hx, he, -⟩ := h
      obtain ⟨e'', he'⟩ := ih he
      exact ⟨.list e'', y, e'', hx, he', rfl⟩
  | composite n as ih =>
      obtain ⟨hx, k, args, hselects, -⟩ := h
      obtain ⟨k', args', -, hselects'⟩ := hselects.mono hr fun a ha _ _ => ih a ha
      exact ⟨.composite n args', hx, k', args', hselects', rfl⟩
  | wildcard => exact ⟨t, Expands.mono hr h⟩

/-- What is resolved is resolved over every extension, and with widening if it is without,
by a constructor that is declared no later. -/
theorem Plain.composite_mono (hr : r.ExtendedBy r') (hw : w = true → w' = true) {c : Composite}
    {res : Resolution} (h : Plain.composite r w c = .ok res) :
    ∃ res', Plain.composite r' w' c = .ok res' ∧ res'.constructor.index ≤ res.constructor.index := by
  obtain ⟨-, hselects⟩ := composite_eq_ok_iff.mp h
  obtain ⟨k', args', hle, hselects'⟩ := hselects.mono hr fun a _ x t ht => ht.mono hr hw
  exact ⟨⟨k', ⟨c.target, args'⟩⟩, composite_eq_ok_iff.mpr ⟨rfl, hselects'⟩, hle⟩

end ShapeFit
