import Mathlib.Data.List.Induction
import ShapeFit.Proofs.Fit.Memo
import ShapeFit.Resolver.Request

/-!
# ShapeFit.Proofs.Resolver.Step

What one request is answered and what it makes of a resolver.

A resolver is faithful if its tables are (`Resolver.Faithful`). A request keeps it so
(`faithful_perform`). A request that tries to fit a signature is answered as plain
fitting has it. Afterwards the composites of the signature are remembered in addition if
it succeeded, and nothing has changed if it failed; the other setting of widening is not
touched (`Advance`, `perform_attempted`).
-/

namespace ShapeFit

/-! ## Requests that fit a signature -/

namespace Request

/-- The signature that a request tries to fit, with its setting of widening. -/
def attempted? : Request → Option (Signature × Bool)
  | .apply s _ w | .fits s _ w => some (s, w)
  | .resolve c w | .resolveFor c _ w => some (c.toSignature, w)
  | .get .. | .peek .. | .contains .. | .clear => none

/-- The answer that plain fitting gives to a request that tries to fit a signature. -/
def plainReply? (r : Registry) : Request → Option Reply
  | .apply s x w => some (.applied (Plain.signature r w s x))
  | .fits s x w => some (.fits (Plain.signature r w s x).isOk)
  | .resolve c w => some (.resolved (Plain.composite r w c))
  | .resolveFor c x w =>
    some (.resolved (if x = .object c.target then Plain.composite r w c
      else .error (Mismatch.shape ("an object of type `" ++ c.target.text ++ "`") x).here))
  | .get .. | .peek .. | .contains .. | .clear => none

end Request

/-- Whether a reply tells that a signature was fitted. -/
def Reply.succeeded : Reply → Bool
  | .applied result => result.isOk
  | .fits yes => yes
  | .resolved result => result.isOk
  | .found _ | .contained _ | .cleared => false

/-! ## Faithful resolvers -/

/-- A resolver as requests leave it: each table is faithful, and empty if nothing is
remembered. -/
structure Resolver.Faithful (r : Resolver) : Prop where
  table : ∀ w, (r.cache.table w).Faithful r.registry w
  idle : r.caching = false → ∀ w, r.cache.table w = .empty

namespace Resolver

theorem faithful_empty (registry : Registry) (caching : Bool) :
    Faithful ⟨registry, caching, .empty⟩ where
  table w := by cases w <;> exact .empty
  idle _ w := by cases w <;> rfl

theorem faithful_ofRegistry (r : Registry) : (ofRegistry r).Faithful := faithful_empty r true

theorem faithful_uncached (r : Registry) : (uncached r).Faithful := faithful_empty r false

variable {r : Resolver} {α : Type}

/-- What an attempt knows is what is remembered for its setting of widening. -/
theorem known_context (h : r.Faithful) (w : Bool) : (r.context w).known = r.cache.table w := by
  rw [Context.known, context]
  cases hc : r.caching with
  | true => rfl
  | false => exact (h.idle hc w).symm

theorem faithful_context (h : r.Faithful) (w : Bool) : (r.context w).Faithful .empty := by
  rw [Context.Faithful, Context.visible, known_context h]
  exact h.table w

/-! ## One attempt -/

/-- What an attempt to fit the composites `nodes` makes of a resolver. -/
structure Advance (r : Resolver) (w : Bool) (nodes : List Composite) (ok : Bool) (r' : Resolver) :
    Prop where
  faithful : r'.Faithful
  registry : r'.registry = r.registry
  caching : r'.caching = r.caching
  other : ∀ v, v ≠ w → r'.cache.table v = r.cache.table v
  failure : ok = false → r'.cache.table w = r.cache.table w
  success : ok = true → r.caching = true →
    ∀ c, c ∈ (r'.cache.table w).keys ↔ c ∈ (r.cache.table w).keys ∨ c ∈ nodes

/-- The tables after a success: what was visible in its session is remembered. -/
theorem table_commit_visible (h : r.Faithful) (w v : Bool) (t : Session) :
    ((r.cache.countEvents t.events).commit w t.staged).table v =
      if v = w then (r.context w).visible t else r.cache.table v := by
  rw [Cache.table_commit, Cache.table_countEvents, Context.visible, known_context h]
  by_cases hv : v = w
  · rw [if_pos hv, if_pos hv, hv]
  · rw [if_neg hv, if_neg hv]

theorem advance_of_error (h : r.Faithful) (w : Bool) (nodes : List Composite) (t : Session) :
    Advance r w nodes false { r with cache := r.cache.countEvents t.events } where
  faithful.table v := by
    rw [Cache.table_countEvents]
    exact h.table v
  faithful.idle hc v := by
    rw [Cache.table_countEvents]
    exact h.idle hc v
  registry := rfl
  caching := rfl
  other v _ := Cache.table_countEvents ..
  failure _ := Cache.table_countEvents ..
  success := nofun

theorem advance_of_ok (h : r.Faithful) {w : Bool} {nodes : List Composite} {t : Session}
    (hprog : Progress (r.context w) nodes true .empty t) :
    Advance r w nodes true
      { r with cache := (r.cache.countEvents t.events).commit w t.staged } where
  faithful.table v := by
    rw [table_commit_visible h]
    by_cases hv : v = w
    · rw [if_pos hv, hv]
      exact hprog.faithful
    · rw [if_neg hv]
      exact h.table v
  faithful.idle hc v := by
    have hmemo : (r.context w).memo? = none := by
      rw [context, if_neg (by simp [show r.caching = false from hc])]
    rw [Cache.table_commit, Cache.table_countEvents, hprog.idle hmemo, h.idle hc v]
    exact ite_self _
  registry := rfl
  caching := rfl
  other v hv := by rw [table_commit_visible h, if_neg hv]
  failure := nofun
  success _ hc c := by
    have hmemo : (r.context w).memo?.isSome = true := by
      rw [context, if_pos hc]
      rfl
    have hstart : (r.context w).visible .empty = r.cache.table w := known_context h w
    rw [table_commit_visible h, if_pos rfl, ← hstart]
    constructor
    · exact hprog.only c
    · intro hcases
      cases hcases with
      | inl hold => exact hprog.grows hold
      | inr hnew => exact hprog.all rfl hmemo hnew

theorem attempt_spec (h : r.Faithful) {w : Bool} {x : Context → Attempt Failure α}
    {p : Except Failure α} {nodes : List Composite}
    (hx : Conforms (r.context w) (x (r.context w)) p nodes) :
    (r.attempt w x).result = p ∧ Advance r w nodes p.isOk (r.attempt w x).resolver := by
  obtain ⟨hres, hprog⟩ := hx .empty (faithful_context h w)
  rw [attempt]
  cases hrun : (x (r.context w)).run .empty with
  | mk res t =>
      rw [hrun] at hres hprog
      subst hres
      refine ⟨rfl, ?_⟩
      cases res with
      | ok a => exact advance_of_ok h hprog
      | error f => exact advance_of_error h w nodes t

theorem apply_spec (h : r.Faithful) (s : Signature) (x : Shape) (w : Bool) :
    (r.apply s x w).result = Plain.signature r.registry w s x ∧
      Advance r w s.composites (Plain.signature r.registry w s x).isOk (r.apply s x w).resolver :=
  attempt_spec h (Conforms.signature s x)

theorem resolve_spec (h : r.Faithful) (c : Composite) (w : Bool) :
    (r.resolve c w).result = Plain.composite r.registry w c ∧
      Advance r w c.composites (Plain.composite r.registry w c).isOk (r.resolve c w).resolver :=
  attempt_spec h (Conforms.composite c)

/-- Nothing is tried for a subject that is no object of the composite's target type. -/
theorem advance_refl (h : r.Faithful) (w : Bool) (nodes : List Composite) :
    Advance r w nodes false r where
  faithful := h
  registry := rfl
  caching := rfl
  other _ _ := rfl
  failure _ := rfl
  success := nofun

/-! ## One request -/

/-- A request that tries to fit a signature is answered as plain fitting has it, and goes
through the composites of the signature. -/
theorem perform_attempted (h : r.Faithful) {q : Request} {s : Signature} {w : Bool}
    (hq : q.attempted? = some (s, w)) :
    q.plainReply? r.registry = some (r.perform q).reply ∧
      Advance r w s.composites (r.perform q).reply.succeeded (r.perform q).resolver := by
  cases q with
  | apply s' x w' | fits s' x w' =>
      cases hq
      obtain ⟨hres, hadv⟩ := apply_spec h s x w
      rw [← hres] at hadv
      refine ⟨?_, hadv⟩
      rw [Request.plainReply?, ← hres]
      rfl
  | resolve c w' =>
      cases hq
      obtain ⟨hres, hadv⟩ := resolve_spec h c w
      rw [← hres] at hadv
      refine ⟨?_, hadv⟩
      rw [Request.plainReply?, ← hres]
      rfl
  | resolveFor c x w' =>
      cases hq
      rw [Request.plainReply?, perform, resolveFor]
      by_cases hx : x = .object c.target
      · obtain ⟨hres, hadv⟩ := resolve_spec h c w
        rw [← hres] at hadv ⊢
        rw [if_pos hx, if_pos hx]
        exact ⟨rfl, hadv⟩
      · rw [if_neg hx, if_neg hx]
        exact ⟨rfl, advance_refl h w _⟩
  | get | peek | contains | clear => contradiction

/-- What the tables are after a request that fits no signature. -/
theorem table_perform_of_attempted?_eq_none {q : Request} (hq : q.attempted? = none) (w : Bool) :
    (r.perform q).resolver.cache.table w = if q = .clear then .empty else r.cache.table w := by
  cases q with
  | apply | fits | resolve | resolveFor => contradiction
  | get c v => exact Cache.table_get ..
  | peek | contains => rfl
  | clear => exact Cache.table_clear ..

/-- A request leaves the registry and the setting of caching alone, and keeps a resolver
faithful. -/
theorem faithful_perform (h : r.Faithful) (q : Request) :
    (r.perform q).resolver.Faithful ∧ (r.perform q).resolver.registry = r.registry ∧
      (r.perform q).resolver.caching = r.caching := by
  cases hq : q.attempted? with
  | some sw =>
      obtain ⟨-, hadv⟩ := perform_attempted h hq
      exact ⟨hadv.faithful, hadv.registry, hadv.caching⟩
  | none =>
      have hregistry : (r.perform q).resolver.registry = r.registry := by
        cases q with
        | apply | fits | resolve | resolveFor => contradiction
        | get | peek | contains | clear => rfl
      have hcaching : (r.perform q).resolver.caching = r.caching := by
        cases q with
        | apply | fits | resolve | resolveFor => contradiction
        | get | peek | contains | clear => rfl
      refine ⟨⟨fun w => ?_, fun hc w => ?_⟩, hregistry, hcaching⟩
      · rw [table_perform_of_attempted?_eq_none hq, hregistry]
        split
        · exact .empty
        · exact h.table w
      · rw [table_perform_of_attempted?_eq_none hq]
        rw [hcaching] at hc
        rw [h.idle hc w, ite_self]

/-! ## Histories -/

theorem after_append (r : Resolver) (history later : List Request) :
    r.after (history ++ later) = (r.after history).after later := List.foldl_append

theorem after_concat (r : Resolver) (history : List Request) (q : Request) :
    r.after (history ++ [q]) = ((r.after history).perform q).resolver := after_append r history [q]

/-- What holds after one request holds after a history of them. -/
theorem faithful_after (h : r.Faithful) (history : List Request) :
    (r.after history).Faithful ∧ (r.after history).registry = r.registry ∧
      (r.after history).caching = r.caching := by
  induction history using List.reverseRecOn with
  | nil => exact ⟨h, rfl, rfl⟩
  | append_singleton history q ih =>
      obtain ⟨hfaithful, hregistry, hcaching⟩ := ih
      obtain ⟨hfaithful', hregistry', hcaching'⟩ := faithful_perform hfaithful q
      rw [after_concat]
      exact ⟨hfaithful', hregistry'.trans hregistry, hcaching'.trans hcaching⟩

theorem faithful_after_ofRegistry (registry : Registry) (history : List Request) :
    ((ofRegistry registry).after history).Faithful ∧
      ((ofRegistry registry).after history).registry = registry ∧
        ((ofRegistry registry).after history).caching = true :=
  faithful_after (faithful_ofRegistry registry) history

/-- After any history, a signature is fitted as plain fitting has it. -/
theorem result_apply_after (registry : Registry) (caching : Bool) (history : List Request)
    (s : Signature) (x : Shape) (w : Bool) :
    (((⟨registry, caching, .empty⟩ : Resolver).after history).apply s x w).result =
      Plain.signature registry w s x := by
  obtain ⟨hfaithful, hregistry, -⟩ := faithful_after (faithful_empty registry caching) history
  rw [(apply_spec hfaithful s x w).1, hregistry]

/-- After any history, a composite is resolved as plain fitting has it. -/
theorem result_resolve_after (registry : Registry) (caching : Bool) (history : List Request)
    (c : Composite) (w : Bool) :
    (((⟨registry, caching, .empty⟩ : Resolver).after history).resolve c w).result =
      Plain.composite registry w c := by
  obtain ⟨hfaithful, hregistry, -⟩ := faithful_after (faithful_empty registry caching) history
  rw [(resolve_spec hfaithful c w).1, hregistry]

end Resolver

end ShapeFit
