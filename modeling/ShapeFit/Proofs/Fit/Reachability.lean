import Mathlib.Order.WellFounded
import ShapeFit.Proofs.Fit.Expands
import ShapeFit.Proofs.Fit.Location
import ShapeFit.Proofs.Signature.Composites

/-!
# ShapeFit.Proofs.Fit.Reachability

Which open slots can be filled.

A shape reaches the object types that a walk leads to (`Reaches`). Every slot that is filled
on the way is smaller than the one before it, so the types reached from a shape with a
signature of itself have one too, and none of them reaches itself
(`Expands.object_of_walk`). Conversely a slot that can not be filled leads to a type that is
unknown, has no constructor, or reaches itself. So the slots that can be filled are those at
well-founded shapes (`Plain.exists_expand_iff`).

Filling a slot fills others, each at a part of its shape, or with one more registered type
open (`Expansion.Calls`). There is no endless descent (`Expansion.wellFounded_calls`),
whatever the registry.
-/

namespace ShapeFit

variable {r : Registry}

/-! ## Types reached -/

/-- A walk leads from the shape to an object type. -/
def Reaches (r : Registry) (x : Shape) (t : TypeName) : Prop :=
  ∃ path passed, Walk r x path passed t

/-- A walk of at least one step leads from an object type back to it. -/
def Recurs (r : Registry) (t : TypeName) : Prop :=
  ∃ path passed, path ≠ [] ∧ Walk r (.object t) path passed t

/-- A registered type with a constructor, none of whose parameters leads back to it. -/
structure Registry.Grounded (r : Registry) (t : TypeName) : Prop where
  built : ∃ d, r.find? t = some d ∧ d.overloads ≠ []
  acyclic : ¬ Recurs r t

namespace Walk

variable {x : Shape} {path : Path} {passed : List TypeName} {t m : TypeName}

/-- A type passed on a walk is reached, and leads on to where the walk ends. -/
theorem of_mem_passed (h : Walk r x path passed t) (hm : m ∈ passed) :
    Reaches r x m ∧ ∃ path' passed', path' ≠ [] ∧ Walk r (.object m) path' passed' t := by
  induction h with
  | here t => simp at hm
  | array _ ih =>
      obtain ⟨⟨path', passed', hwalk⟩, hon⟩ := ih hm
      exact ⟨⟨_, _, hwalk.array⟩, hon⟩
  | sequence _ ih =>
      obtain ⟨⟨path', passed', hwalk⟩, hon⟩ := ih hm
      exact ⟨⟨_, _, hwalk.sequence⟩, hon⟩
  | @param n d first rest i p path passed t hfind hd hp hwalk ih =>
      rw [List.mem_cons] at hm
      cases hm with
      | inl he =>
          subst he
          exact ⟨⟨[], [], .here m⟩, _, _, by simp, hwalk.param hfind hd hp⟩
      | inr hpassed =>
          obtain ⟨⟨path', passed', hfront⟩, hon⟩ := ih hpassed
          exact ⟨⟨_, _, hfront.param hfind hd hp⟩, hon⟩

end Walk

/-! ## Signatures along a walk -/

/-- A parameter has a signature of itself among the arguments. -/
theorem ExpandsParams.exists_of_getElem? {ps : List Param} {args : List Arg}
    (h : ExpandsParams r ps args) {i : Nat} {p : Param} (hp : ps[i]? = some p) :
    ∃ a ∈ args, Expands r p.val a.val := by
  induction ps generalizing i args with
  | nil => simp at hp
  | cons q ps ih =>
      cases h with
      | cons hq hps =>
          cases i with
          | zero =>
              have he : q = p := by simpa using hp
              exact ⟨_, List.mem_cons_self, he ▸ hq⟩
          | succ i =>
              obtain ⟨a, ha, hexpands⟩ := ih hps (by simpa using hp)
              exact ⟨a, List.mem_cons_of_mem _ ha, hexpands⟩

/-- The signature of a list is that of its elements, as a list. -/
theorem Expands.exists_of_element? {x y : Shape} {s : Signature} (h : Expands r x s)
    (hy : x.element? = some y) : ∃ e, s = .list e ∧ Expands r y e := by
  cases h with
  | array hx | sequence hx => exact ⟨_, rfl, Option.some.inj hy ▸ hx⟩
  | prim | object => simp [Shape.element?] at hy

/-- The type at the end of a walk has a signature of itself, smaller by as much as the walk is
long. -/
theorem Expands.object_of_walk {x : Shape} {path : Path} {passed : List TypeName} {t : TypeName}
    (hwalk : Walk r x path passed t) {s : Signature} (h : Expands r x s) :
    ∃ s', Expands r (.object t) s' ∧ s'.size + path.length ≤ s.size := by
  induction hwalk generalizing s with
  | here t => exact ⟨s, h, by simp⟩
  | array _ ih | sequence _ ih =>
      obtain ⟨e, he, hexpands⟩ := h.exists_of_element? rfl
      obtain ⟨s', hs', hsize⟩ := ih hexpands
      refine ⟨s', hs', ?_⟩
      simp only [he, List.length_cons, Signature.size]
      omega
  | param hfind hd hp _ ih =>
      cases h with
      | object hfind' hd' hargs =>
          have hsame := hfind.symm.trans hfind'
          rw [Option.some.injEq] at hsame
          subst hsame
          rw [hd, List.cons.injEq] at hd'
          rw [← hd'.1] at hargs
          obtain ⟨a, ha, hexpands⟩ := hargs.exists_of_getElem? hp
          obtain ⟨s', hs', hsize⟩ := ih hexpands
          have hle := Signature.size_le_sizeArgs ha
          refine ⟨s', hs', ?_⟩
          simp only [List.length_cons, Signature.size]
          omega

/-- A type with a signature of itself has a constructor and does not lead back to itself. -/
theorem Expands.grounded {t : TypeName} {s : Signature} (h : Expands r (.object t) s) :
    r.Grounded t where
  built := by
    cases h with
    | object hfind hd _ => exact ⟨_, hfind, by simp [hd]⟩
  acyclic := by
    intro ⟨path, passed, hpath, hwalk⟩
    obtain ⟨s', hs', hsize⟩ := h.object_of_walk hwalk
    have hlen := List.length_pos_iff.mpr hpath
    rw [h.unique hs'] at hsize
    omega

namespace Plain

/-- An error that a type leads back to itself is one: the type is reached and recurs. -/
theorem recurs_of_circularType {x : Shape} {f : Failure} {t : TypeName}
    (h : expand r x = .error f) (hf : f.mismatch = .circularType t) :
    Reaches r x t ∧ Recurs r t := by
  obtain ⟨t', passed, hwalk, hblames⟩ := walk_of_expand_error h
  rw [hf] at hblames
  cases hblames with
  | circular ht =>
      obtain ⟨-, hrecurs⟩ := hwalk.of_mem_passed ht
      exact ⟨⟨_, _, hwalk⟩, hrecurs⟩

/-- An open slot can be filled exactly if every type reached from its shape has a constructor
and does not lead back to itself. -/
theorem exists_expand_iff {x : Shape} :
    (∃ s, expand r x = .ok s) ↔ ∀ t, Reaches r x t → r.Grounded t := by
  constructor
  · intro ⟨s, hs⟩ t ⟨path, passed, hwalk⟩
    obtain ⟨s', hs', -⟩ := (expand_eq_ok_iff.mp hs).object_of_walk hwalk
    exact hs'.grounded
  · intro hgrounded
    cases hresult : expand r x with
    | ok s => exact ⟨s, rfl⟩
    | error f =>
        obtain ⟨t, passed, hwalk, hblames⟩ := walk_of_expand_error hresult
        obtain ⟨⟨d, hfind, hd⟩, hacyclic⟩ := hgrounded t ⟨_, _, hwalk⟩
        generalize f.mismatch = m at hblames
        cases hblames with
        | unknown hnone => simp [hfind] at hnone
        | constructorless hfind' hempty => simp_all
        | circular ht =>
            obtain ⟨-, hrecurs⟩ := hwalk.of_mem_passed ht
            exact absurd hrecurs hacyclic

end Plain

/-! ## No endless descent -/

namespace Expansion

/-- Filling a slot at a shape, while some types are being expanded, fills the slot at a part
of it. At an object these are the parameters of the first constructor, while its type is
being expanded too. -/
inductive Calls (r : Registry) : List TypeName × Shape → List TypeName × Shape → Prop
  | array (opened : List TypeName) (x : Shape) : Calls r (opened, .array x) (opened, x)
  | sequence (opened : List TypeName) (x : Shape) : Calls r (opened, .sequence x) (opened, x)
  | param {opened : List TypeName} {n : TypeName} {d : TypeDescriptor} {first : List Param}
      {rest : List (List Param)} {p : Param} : n ∉ opened → r.find? n = some d →
      d.overloads = first :: rest → p ∈ first → Calls r (opened, .object n) (n :: opened, p.val)

/-- There is no endless chain of slots, each filled for the one before. -/
theorem wellFounded_calls (r : Registry) : WellFounded fun inner outer => Calls r outer inner := by
  have hlex : WellFounded (Prod.Lex (· < · : Nat → Nat → Prop) (· < · : Nat → Nat → Prop)) :=
    WellFounded.prod_lex wellFounded_lt wellFounded_lt
  refine Subrelation.wf (fun {inner outer} hcall => ?_)
    (InvImage.wf (fun call => (r.unopened call.1, sizeOf call.2)) hlex)
  cases hcall with
  | array opened x | sequence opened x => exact .right _ (by simp)
  | param hn hfind _ _ =>
      exact .left _ _ (Registry.unopened_cons_lt (Registry.mem_names_of_find? hfind) hn)

end Expansion

end ShapeFit
