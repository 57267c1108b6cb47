import Mathlib.Data.List.Basic
import Mathlib.Data.List.Induction

/-!
# ShapeFit.Proofs.Occurrences

The members of a list in the order in which they first occur.
-/

namespace ShapeFit

variable {α : Type} [DecidableEq α]

/-- The list `firsts` has the members of `xs`, each once, in the order in which they first
occur there. -/
structure FirstOccurrences (xs firsts : List α) : Prop where
  mem_iff : ∀ a, a ∈ firsts ↔ a ∈ xs
  ordered : firsts.Pairwise fun a b => xs.idxOf a < xs.idxOf b

namespace FirstOccurrences

variable {xs firsts : List α}

theorem nil : FirstOccurrences ([] : List α) [] where
  mem_iff := by simp
  ordered := .nil

/-- A further element comes last, unless it has occurred. -/
theorem concat (h : FirstOccurrences xs firsts) (x : α) :
    FirstOccurrences (xs ++ [x]) (if x ∈ firsts then firsts else firsts ++ [x]) where
  mem_iff a := by
    have hmem := h.mem_iff a
    by_cases hx : x ∈ firsts
    · have hxs := (h.mem_iff x).mp hx
      simp only [if_pos hx, List.mem_append, List.mem_singleton, hmem]
      constructor
      · exact .inl
      · rintro (ha | rfl)
        · exact ha
        · exact hxs
    · simp [if_neg hx, hmem]
  ordered := by
    have hindex : ∀ a ∈ firsts, (xs ++ [x]).idxOf a = xs.idxOf a := fun a ha =>
      List.idxOf_append_of_mem ((h.mem_iff a).mp ha)
    have hold : firsts.Pairwise fun a b => (xs ++ [x]).idxOf a < (xs ++ [x]).idxOf b := by
      refine h.ordered.imp_of_mem fun ha hb hlt => ?_
      rwa [hindex _ ha, hindex _ hb]
    by_cases hx : x ∈ firsts
    · rwa [if_pos hx]
    · rw [if_neg hx, List.pairwise_append]
      refine ⟨hold, by simp, fun a ha b hb => ?_⟩
      have hxs : x ∉ xs := fun hxs => hx ((h.mem_iff x).mpr hxs)
      have ha' : a ∈ xs := (h.mem_iff a).mp ha
      rw [List.mem_singleton.mp hb, hindex a ha, List.idxOf_append_of_notMem hxs]
      have hlt := List.idxOf_lt_length_iff.mpr ha'
      omega

end FirstOccurrences

/-- Erasing later duplicates leaves the first occurrences. -/
theorem firstOccurrences_eraseDups (xs : List α) : FirstOccurrences xs xs.eraseDups := by
  induction xs using List.reverseRecOn with
  | nil => exact .nil
  | append_singleton xs x ih =>
      have hconcat : (xs ++ [x]).eraseDups =
          if x ∈ xs.eraseDups then xs.eraseDups else xs.eraseDups ++ [x] := by
        by_cases hx : x ∈ xs <;>
          simp [List.eraseDups_append, List.removeAll, List.eraseDups_cons, hx]
      rw [hconcat]
      exact ih.concat x

end ShapeFit
