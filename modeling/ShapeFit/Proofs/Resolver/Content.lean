import Mathlib.Data.List.DropRight
import Mathlib.Data.Set.Card
import ShapeFit.Proofs.Resolver.Step

/-!
# ShapeFit.Proofs.Resolver.Content

What a resolver remembers after a history of requests.

It remembers, for each setting of widening, the composites that occur in the signatures
fitted with that setting since everything was last forgotten, and no others
(`mem_keys_after`). So what is remembered does not depend on the order of the requests,
and a request that fails leaves no trace in it (`remembered_after`).
-/

namespace ShapeFit

namespace Request

/-- The requests of a history since everything was last forgotten. -/
def sinceClear (history : List Request) : List Request := history.rtakeWhile (· ≠ .clear)

theorem sinceClear_concat (history : List Request) (q : Request) :
    sinceClear (history ++ [q]) = if q = .clear then [] else sinceClear history ++ [q] := by
  rw [sinceClear, List.rtakeWhile_concat]
  by_cases hq : q = .clear
  · simp [hq]
  · simp [hq, sinceClear]

/-- A request counts if it is not followed by one to forget everything. -/
theorem mem_sinceClear {history : List Request} {q : Request} :
    q ∈ sinceClear history ↔
      q ≠ .clear ∧ ∃ before later, history = before ++ q :: later ∧ .clear ∉ later := by
  constructor
  · intro hq
    obtain ⟨front, later, hsplit⟩ := List.append_of_mem hq
    have hclear : ∀ x ∈ sinceClear history, x ≠ .clear := by
      intro x hx
      simpa using List.mem_rtakeWhile_imp hx
    have hhistory : history.rdropWhile (· ≠ .clear) ++ sinceClear history = history :=
      List.rdropWhile_append_rtakeWhile
    refine ⟨hclear q hq, history.rdropWhile (· ≠ .clear) ++ front, later, ?_, ?_⟩
    · rw [List.append_assoc, ← hsplit, hhistory]
    · intro hlater
      refine hclear .clear ?_ rfl
      rw [hsplit]
      exact List.mem_append_right _ (List.mem_cons_of_mem _ hlater)
  · intro ⟨hq, before, later, hhistory, hlater⟩
    subst hhistory
    induction later using List.reverseRecOn with
    | nil => simp [sinceClear_concat, hq]
    | append_singleton later x ih =>
        rw [List.mem_append, not_or, List.mem_singleton] at hlater
        have hmem := ih hlater.1
        rw [← List.cons_append, ← List.append_assoc, sinceClear_concat, if_neg (Ne.symm hlater.2)]
        exact List.mem_append_left _ hmem

/-- The composites that a request with a setting of widening makes a resolver remember:
those of its signature, if it can be fitted. -/
def fitted (r : Registry) (w : Bool) (q : Request) : List Composite :=
  match q.attempted? with
  | some (s, v) => if v = w ∧ (q.plainReply? r).any Reply.succeeded then s.composites else []
  | none => []

end Request

namespace Resolver

variable {r : Resolver}

/-- The composites remembered after one request. -/
theorem mem_keys_perform (h : r.Faithful) (hcaching : r.caching = true) (q : Request) (w : Bool)
    (c : Composite) :
    c ∈ ((r.perform q).resolver.cache.table w).keys ↔
      (q ≠ .clear ∧ c ∈ (r.cache.table w).keys) ∨ c ∈ q.fitted r.registry w := by
  rw [Request.fitted]
  cases hq : q.attempted? with
  | none =>
      rw [table_perform_of_attempted?_eq_none hq]
      by_cases hclear : q = .clear
      · simp [hclear, Table.keys, Table.empty]
      · simp [hclear]
  | some sv =>
      obtain ⟨s, v⟩ := sv
      obtain ⟨hreply, hadv⟩ := perform_attempted h hq
      have hclear : q ≠ .clear := by
        intro he
        rw [he] at hq
        contradiction
      rw [hreply, Option.any_some]
      by_cases hv : v = w
      · subst hv
        cases hok : (r.perform q).reply.succeeded with
        | true => simpa [hclear] using hadv.success hok hcaching c
        | false => simp [hclear, hadv.failure hok]
      · simp [hclear, hv, hadv.other w (Ne.symm hv)]

/-- The composites remembered after a history: those that occur in a signature fitted
since everything was last forgotten. -/
theorem mem_keys_after (registry : Registry) (history : List Request) (w : Bool)
    (c : Composite) :
    c ∈ (((ofRegistry registry).after history).cache.table w).keys ↔
      ∃ q ∈ Request.sinceClear history, c ∈ q.fitted registry w := by
  induction history using List.reverseRecOn with
  | nil => cases w <;> simp [after, ofRegistry, Cache.table, Cache.empty, Table.keys, Table.empty,
      Request.sinceClear]
  | append_singleton history q ih =>
      obtain ⟨hfaithful, hregistry, hcaching⟩ := faithful_after_ofRegistry registry history
      rw [after_concat, mem_keys_perform hfaithful hcaching, ih, hregistry,
        Request.sinceClear_concat]
      by_cases hq : q = .clear
      · simp [hq, Request.fitted, Request.attempted?]
      · simp [hq, or_and_right, exists_or]

theorem contains_iff_mem_keys (cache : Cache) (c : Composite) (w : Bool) :
    cache.contains c w = true ↔ c ∈ (cache.table w).keys := Table.isSome_find?

/-- A request for one setting of widening succeeds in a resolver as plain fitting has it. -/
theorem mem_fitted_iff {registry : Registry} {history : List Request} {q : Request} {w : Bool}
    {c : Composite} :
    c ∈ q.fitted registry w ↔
      ∃ s, q.attempted? = some (s, w) ∧ c ∈ s.composites ∧
        (((ofRegistry registry).after history).perform q).reply.succeeded = true := by
  obtain ⟨hfaithful, hregistry, -⟩ := faithful_after_ofRegistry registry history
  rw [Request.fitted]
  cases hq : q.attempted? with
  | none => simp
  | some sv =>
      obtain ⟨s, v⟩ := sv
      have hreply := (perform_attempted hfaithful hq).1
      rw [hregistry] at hreply
      rw [hreply, Option.any_some]
      by_cases hv : v = w
      · simp [hv, and_comm]
      · simp [hv]

/-- The number of resolutions under one setting is the number of composites remembered. -/
theorem encard_contains (h : r.Faithful) (w : Bool) :
    {c | r.cache.contains c w = true}.encard = (r.cache.table w).size := by
  have hset : {c | r.cache.contains c w = true} = ((r.cache.table w).keys.toFinset : Set _) := by
    ext c
    simp [contains_iff_mem_keys]
  rw [hset, Set.encard_coe_eq_coe_finsetCard, List.toFinset_card_of_nodup (h.table w).nodup,
    Table.keys, List.length_map, Table.size]

/-- A composite is remembered exactly if it occurs in the signature of a request that
succeeded, with that setting of widening, and was not followed by one to forget. -/
theorem contains_after_iff (registry : Registry) (history : List Request) (c : Composite)
    (w : Bool) :
    ((ofRegistry registry).after history).cache.contains c w = true ↔
      ∃ before q later s, history = before ++ q :: later ∧ .clear ∉ later ∧
        q.attempted? = some (s, w) ∧
        (((ofRegistry registry).after before).perform q).reply.succeeded = true ∧
        c ∈ s.composites := by
  rw [contains_iff_mem_keys, mem_keys_after]
  constructor
  · intro ⟨q, hq, hc⟩
    obtain ⟨-, before, later, hhistory, hlater⟩ := Request.mem_sinceClear.mp hq
    obtain ⟨s, hs, hcs, hok⟩ := mem_fitted_iff.mp hc
    exact ⟨before, q, later, s, hhistory, hlater, hs, hok, hcs⟩
  · intro ⟨before, q, later, s, hhistory, hlater, hs, hok, hcs⟩
    have hq : q ≠ .clear := by
      intro he
      rw [he] at hs
      contradiction
    exact ⟨q, Request.mem_sinceClear.mpr ⟨hq, before, later, hhistory, hlater⟩,
      mem_fitted_iff.mpr ⟨s, hs, hcs, hok⟩⟩

/-- What is remembered depends on the requests since everything was last forgotten, and
not on their order. -/
theorem find?_after_eq_of_perm {registry : Registry} {history other : List Request}
    (h : (Request.sinceClear history).Perm (Request.sinceClear other)) (w : Bool)
    (c : Composite) :
    (((ofRegistry registry).after other).cache.table w).find? c =
      (((ofRegistry registry).after history).cache.table w).find? c := by
  obtain ⟨hfaithful, hregistry, -⟩ := faithful_after_ofRegistry registry history
  obtain ⟨hfaithful', hregistry', -⟩ := faithful_after_ofRegistry registry other
  have ht := hfaithful.table w
  have ht' := hfaithful'.table w
  rw [hregistry] at ht
  rw [hregistry'] at ht'
  refine ht'.find?_congr ht (fun d => ?_) c
  rw [mem_keys_after, mem_keys_after]
  constructor
  · intro ⟨q, hq, hd⟩
    exact ⟨q, h.mem_iff.mpr hq, hd⟩
  · intro ⟨q, hq, hd⟩
    exact ⟨q, h.mem_iff.mp hq, hd⟩

/-- After any history of requests, the composites remembered for a setting of widening
are those that occur in the signatures fitted with it since everything was last
forgotten, each once. So a request that fails changes nothing that is remembered, none
changes anything under the other setting, and the order of the requests does not matter. -/
theorem remembered_after (registry : Registry) (history : List Request) :
    (∀ c w, ((ofRegistry registry).after history).cache.contains c w = true ↔
      ∃ before q later s, history = before ++ q :: later ∧ .clear ∉ later ∧
        q.attempted? = some (s, w) ∧
        (((ofRegistry registry).after before).perform q).reply.succeeded = true ∧
        c ∈ s.composites) ∧
    (((ofRegistry registry).after history).cache.size =
      {c | ((ofRegistry registry).after history).cache.contains c false = true}.encard +
        {c | ((ofRegistry registry).after history).cache.contains c true = true}.encard) ∧
    (∀ q s w, q.attempted? = some (s, w) →
      ((((ofRegistry registry).after history).perform q).reply.succeeded = false →
        ∀ c v, (((ofRegistry registry).after history).perform q).resolver.cache.peek c v =
          ((ofRegistry registry).after history).cache.peek c v) ∧
      ∀ c v, v ≠ w → (((ofRegistry registry).after history).perform q).resolver.cache.peek c v =
        ((ofRegistry registry).after history).cache.peek c v) ∧
    ∀ other, (Request.sinceClear history).Perm (Request.sinceClear other) →
      ∀ c w, ((ofRegistry registry).after other).cache.peek c w =
        ((ofRegistry registry).after history).cache.peek c w := by
  obtain ⟨hfaithful, -, -⟩ := faithful_after_ofRegistry registry history
  refine ⟨contains_after_iff registry history, ?_, ?_, ?_⟩
  · rw [encard_contains hfaithful, encard_contains hfaithful, Cache.size]
    exact Nat.cast_add _ _
  · intro q s w hq
    obtain ⟨-, hadv⟩ := perform_attempted hfaithful hq
    constructor
    · intro hfailed c v
      rw [Cache.peek, Cache.peek]
      by_cases hv : v = w
      · rw [hv, hadv.failure hfailed]
      · rw [hadv.other v hv]
    · intro c v hv
      rw [Cache.peek, Cache.peek, hadv.other v hv]
  · intro other hperm c w
    exact find?_after_eq_of_perm hperm w c

end Resolver

end ShapeFit
