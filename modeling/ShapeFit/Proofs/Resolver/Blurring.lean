import ShapeFit.Proofs.Fit.Blurring
import ShapeFit.Proofs.Resolver.Step

/-!
# ShapeFit.Proofs.Resolver.Blurring

The names of arguments and parameters do not matter to fitting
(`Resolver.names_irrelevant`), and neither does whether a list is an array or a
sequence (`Resolver.list_kinds_irrelevant`).

Composites are remembered under their names. So of two signatures that differ in
names only, one may find remembered what the other has to resolve; the two fit
alike even so.
-/

namespace ShapeFit

/-- Whether two results are values that are related, or failures that are related at each
level. -/
def Corresponding {α : Type} (values : α → α → Prop) (failures : Failure → Failure → Prop) :
    Except Failure α → Except Failure α → Prop
  | .ok a, .ok a' => values a a'
  | .error f, .error f' => List.Forall₂ failures f.levels f'.levels
  | .ok _, .error _ | .error _, .ok _ => False

namespace Corresponding

variable {α β : Type} {values values' : α → α → Prop}
  {failures failures' : Failure → Failure → Prop} {p p' : Except Failure α}

theorem imp (h : Corresponding values failures p p') (hvalues : ∀ a a', values a a' → values' a a')
    (hfailures : ∀ f f', failures f f' → failures' f f') :
    Corresponding values' failures' p p' := by
  cases p <;> cases p'
  · exact List.Forall₂.imp hfailures h
  · exact h
  · exact h
  · exact hvalues _ _ h

/-- Results that a blur makes the same. -/
theorem of_seen_eq {b : Blur} {f : α → β}
    (h : Plain.seen b.failure f p = Plain.seen b.failure f p') :
    Corresponding (fun a a' => f a = f a') b.Alike p p' := by
  cases p <;> cases p'
  · exact Failure.levels_alike b (Except.error.inj h)
  · cases h
  · cases h
  · exact Except.ok.inj h

end Corresponding

namespace Resolver

/-- Over registries that are the same but for the names of parameters, whatever has been
asked of the resolvers before: signatures that are the same but for the names of arguments
fit alike, and composites have the same constructor chosen. Where one fails, so does the
other, and at each level the failures differ in the names of their paths at most. -/
theorem names_irrelevant {registry registry' : Registry}
    (hregistry : Blur.nameless.Confuses registry registry') (w caching caching' : Bool)
    (history history' : List Request) :
    (∀ s s' x, Blur.nameless.signature s = Blur.nameless.signature s' →
      Corresponding (fun t t' => Blur.nameless.signature t = Blur.nameless.signature t')
        Blur.nameless.Alike
        (((⟨registry, caching, .empty⟩ : Resolver).after history).apply s x w).result
        (((⟨registry', caching', .empty⟩ : Resolver).after history').apply s' x w).result) ∧
    ∀ c c', Blur.nameless.composite c = Blur.nameless.composite c' →
      Corresponding
        (fun res res' => res.constructor.index = res'.constructor.index ∧
          Blur.nameless.composite res.signature = Blur.nameless.composite res'.signature)
        Blur.nameless.Alike
        (((⟨registry, caching, .empty⟩ : Resolver).after history).resolve c w).result
        (((⟨registry', caching', .empty⟩ : Resolver).after history').resolve c' w).result := by
  simp only [result_apply_after, result_resolve_after]
  constructor
  · intro s s' x hs
    exact .of_seen_eq (Plain.seen_signature_eq hregistry hs rfl)
  · intro c c' hc
    refine (Corresponding.of_seen_eq (Plain.seen_composite_eq hregistry hc)).imp ?_ fun _ _ => id
    intro res res' hres
    have hindex := congrArg (fun res => res.constructor.index) hres
    have hsignature := congrArg Resolution.signature hres
    exact ⟨hindex, hsignature⟩

/-- A type of pairs of leaves, with names for everything. -/
def named : Registry where
  types := [TypeDescriptor.ofName ⟨"Pair"⟩
      |>.declare [⟨"left", .object ⟨"Leaf"⟩⟩, ⟨"right", .object ⟨"Leaf"⟩⟩],
    TypeDescriptor.ofName ⟨"Leaf"⟩ |>.declare [⟨"size", .prim .int⟩]]
  nodup_names := by decide

/-- The same types with other names, and with none. -/
def renamed : Registry where
  types := [TypeDescriptor.ofName ⟨"Pair"⟩
      |>.declare [⟨"a", .object ⟨"Leaf"⟩⟩, ⟨"b", .object ⟨"Leaf"⟩⟩],
    TypeDescriptor.ofName ⟨"Leaf"⟩ |>.declare [⟨"", .prim .int⟩]]
  nodup_names := by decide

/-- A pair whose leaves have arguments of these names. -/
def pairOf (first second : String) : Signature :=
  .composite ⟨"Pair"⟩ [⟨first, .composite ⟨"Leaf"⟩ [⟨first, .wildcard⟩]⟩,
    ⟨second, .composite ⟨"Leaf"⟩ [⟨second, .wildcard⟩]⟩]

/-- The leaves of a pair are resolved apart if they differ in names, and one is remembered
for the other if they do not. -/
theorem names_irrelevant_pair :
    ((ofRegistry named).apply (pairOf "x" "y") (.object ⟨"Pair"⟩) false).consulted =
        [⟨"Pair"⟩, ⟨"Leaf"⟩, ⟨"Leaf"⟩] ∧
      ((ofRegistry renamed).apply (pairOf "" "") (.object ⟨"Pair"⟩) false).consulted =
        [⟨"Pair"⟩, ⟨"Leaf"⟩] ∧
      Corresponding (fun t t' => Blur.nameless.signature t = Blur.nameless.signature t')
        Blur.nameless.Alike
        ((ofRegistry named).apply (pairOf "x" "y") (.object ⟨"Pair"⟩) false).result
        ((ofRegistry renamed).apply (pairOf "" "") (.object ⟨"Pair"⟩) false).result := by
  have hregistry : Blur.nameless.Confuses named renamed := Blur.confuses_of_types _ rfl
  have hs : Blur.nameless.signature (pairOf "x" "y") = Blur.nameless.signature (pairOf "" "") := rfl
  obtain ⟨happly, -⟩ := names_irrelevant hregistry false true true [] []
  exact ⟨by cbv, by cbv, happly _ _ (.object ⟨"Pair"⟩) hs⟩

/-- Over registries whose parameters are the same but for the kinds of lists in their
shapes, whatever has been asked of the resolvers before: a signature fits shapes that are
the same but for the kinds of lists with one result, and a composite has the same
constructor chosen. Where one fails, so does the other, with the same paths, and at each
level the failures differ in the shape found at most. -/
theorem list_kinds_irrelevant {registry registry' : Registry}
    (hregistry : Blur.listlike.Confuses registry registry') (w caching caching' : Bool)
    (history history' : List Request) :
    (∀ s (x x' : Shape), x.asArrays = x'.asArrays →
      Corresponding (fun t t' => t = t') (fun f f' => Blur.listlike.Alike f f' ∧ f.path = f'.path)
        (((⟨registry, caching, .empty⟩ : Resolver).after history).apply s x w).result
        (((⟨registry', caching', .empty⟩ : Resolver).after history').apply s x' w).result) ∧
    ∀ c, Corresponding
      (fun res res' => res.constructor.index = res'.constructor.index ∧
        res.signature = res'.signature)
      (fun f f' => Blur.listlike.Alike f f' ∧ f.path = f'.path)
      (((⟨registry, caching, .empty⟩ : Resolver).after history).resolve c w).result
      (((⟨registry', caching', .empty⟩ : Resolver).after history').resolve c w).result := by
  have hname : ∀ n, Blur.listlike.name n = n := fun _ => rfl
  have hfailures : ∀ f f', Blur.listlike.Alike f f' → Blur.listlike.Alike f f' ∧ f.path = f'.path :=
    fun f f' h => ⟨h, h.path_eq hname⟩
  simp only [result_apply_after, result_resolve_after]
  constructor
  · intro s x x' hx
    refine (Corresponding.of_seen_eq (Plain.seen_signature_eq hregistry rfl hx)).imp ?_ hfailures
    intro t t' ht
    rwa [Blur.signature_eq_self hname, Blur.signature_eq_self hname] at ht
  · intro c
    refine (Corresponding.of_seen_eq (Plain.seen_composite_eq hregistry rfl)).imp ?_ hfailures
    intro res res' hres
    have hindex := congrArg (fun res => res.constructor.index) hres
    have hsignature := congrArg Resolution.signature hres
    simp only [Blur.resolution, Blur.composite_eq_self hname] at hsignature
    exact ⟨hindex, hsignature⟩

/-- A type that takes an array of sequences. -/
def rows : Registry where
  types := [TypeDescriptor.ofName ⟨"Grid"⟩
    |>.declare [⟨"cells", .array (.sequence (.prim .int))⟩]]
  nodup_names := by decide

/-- The same type, taking a sequence of arrays. -/
def columns : Registry where
  types := [TypeDescriptor.ofName ⟨"Grid"⟩
    |>.declare [⟨"cells", .sequence (.array (.prim .int))⟩]]
  nodup_names := by decide

/-- A list of grids whose cells are expected to be one level deep. -/
def grids : Signature := .list (.composite ⟨"Grid"⟩ [⟨"cells", .list (.prim .int)⟩])

/-- Both kinds of grids are refused at the same place, and what is found there is told. -/
theorem list_kinds_irrelevant_grids :
    ((ofRegistry rows).apply grids (.sequence (.object ⟨"Grid"⟩)) false).result =
        .error ⟨.noCandidate ⟨"Grid"⟩ 1 1 0 [.argument 0 "cells", .element]
          (.shape "`int`" (.sequence (.prim .int))), [.element]⟩ ∧
      ((ofRegistry columns).apply grids (.array (.object ⟨"Grid"⟩)) false).result =
        .error ⟨.noCandidate ⟨"Grid"⟩ 1 1 0 [.argument 0 "cells", .element]
          (.shape "`int`" (.array (.prim .int))), [.element]⟩ ∧
      Corresponding (fun t t' => t = t') (fun f f' => Blur.listlike.Alike f f' ∧ f.path = f'.path)
        ((ofRegistry rows).apply grids (.sequence (.object ⟨"Grid"⟩)) false).result
        ((ofRegistry columns).apply grids (.array (.object ⟨"Grid"⟩)) false).result := by
  have hregistry : Blur.listlike.Confuses rows columns := Blur.confuses_of_types _ rfl
  obtain ⟨happly, -⟩ := list_kinds_irrelevant hregistry false true true [] []
  exact ⟨by cbv, by cbv,
    happly grids (.sequence (.object ⟨"Grid"⟩)) (.array (.object ⟨"Grid"⟩)) rfl⟩

end Resolver

end ShapeFit
