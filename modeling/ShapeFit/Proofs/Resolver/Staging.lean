import ShapeFit.Proofs.Fit.Staging
import ShapeFit.Proofs.Resolver.Counting

/-!
# ShapeFit.Proofs.Resolver.Staging

What an attempt of a resolver stages, and what becomes of it.

At every point of an attempt, what is staged is in order beside what the resolver remembers,
and if the attempt succeeds, each staged resolution is remembered in addition and none is
replaced (`Resolver.staged_in_order`).
-/

namespace ShapeFit.Resolver

/-- What the resolutions `staged` add to what a resolver remembers. -/
structure Adds (r r' : Resolver) (w : Bool) (staged : Table) : Prop where
  /-- They are set one by one. -/
  table : r'.cache.table w = (r.cache.table w).setAll staged
  /-- There are as many more as are staged. -/
  size : (r'.cache.table w).size = (r.cache.table w).size + staged.size
  distinct : (r'.cache.table w).keys.Nodup
  kept : ∀ c, r.cache.contains c w = true → r'.cache.peek c w = r.cache.peek c w
  new : ∀ c ∈ staged.keys, r.cache.contains c w = false ∧ r'.cache.peek c w = staged.find? c
  other : ∀ v, v ≠ w → r'.cache.table v = r.cache.table v

/-- How the session of an attempt gets from its start to its end `t`. -/
structure Staging {α : Type} (r : Resolver) (w : Bool) (t : Session) (o : Outcome α) : Prop where
  /-- It takes one step after the other. -/
  steps : Session.Reaches (r.context w) .empty t
  /-- At every point on the way, what is staged is in order. -/
  points : ∀ s, Session.Reaches (r.context w) .empty s → Session.Reaches (r.context w) s t →
    (r.cache.table w).Orderly s.staged
  success : o.result.isOk = true → Adds r o.resolver w t.staged
  failure : o.result.isOk = false → ∀ v, o.resolver.cache.table v = r.cache.table v

variable {r : Resolver} {α : Type}

/-- Remembering what is staged in order adds it. -/
theorem adds_of_orderly (h : r.Faithful) {w : Bool} {staged : Table} {events : List Event}
    (horderly : (r.cache.table w).Orderly staged) :
    Adds r { r with cache := (r.cache.countEvents events).commit w staged } w staged := by
  have htable (v : Bool) : ((r.cache.countEvents events).commit w staged).table v =
      if v = w then (r.cache.table v).insertAll staged else r.cache.table v := by
    rw [Cache.table_commit, Cache.table_countEvents]
  have hpeek (c : Composite) : ((r.cache.countEvents events).commit w staged).peek c w =
      (staged.find? c).or (r.cache.peek c w) := by
    rw [Cache.peek, htable, if_pos rfl, Table.find?_insertAll, Cache.peek]
  have hkeys : (((r.cache.countEvents events).commit w staged).table w).keys =
      staged.keys ++ (r.cache.table w).keys := by
    rw [htable, if_pos rfl]
    exact List.map_append
  constructor
  · rw [htable, if_pos rfl, horderly.setAll_eq]
  · rw [htable, if_pos rfl]
    simp [Table.size, Table.insertAll, Nat.add_comm]
  · rw [hkeys, List.nodup_append']
    exact ⟨horderly.distinct, (h.table w).nodup, horderly.fresh⟩
  · intro c hc
    have hold : c ∈ (r.cache.table w).keys := Table.isSome_find?.mp hc
    have hunstaged : staged.find? c = none := by
      rw [← Option.not_isSome_iff_eq_none, Table.isSome_find?]
      exact fun hnew => horderly.fresh c hnew hold
    rw [hpeek, hunstaged, Option.none_or]
  · intro c hc
    have hunknown : ¬ (r.cache.peek c w).isSome = true :=
      fun hold => horderly.fresh c hc (Table.isSome_find?.mp hold)
    obtain ⟨res, hres⟩ := Option.isSome_iff_exists.mp (Table.isSome_find?.mpr hc)
    refine ⟨by simpa [Cache.contains] using hunknown, ?_⟩
    rw [hpeek, hres, Option.some_or]
  · intro v hv
    rw [htable, if_neg hv]

/-- An attempt that goes on by steps stages in order, and what it has staged is added. -/
theorem staging_attempt (h : r.Faithful) {w : Bool} {x : Context → Attempt Failure α}
    (hx : Attempt.Along (fun s t => (r.context w).Faithful s →
      (r.context w).Faithful t ∧ Session.Reaches (r.context w) s t) (x (r.context w))) :
    Staging r w (r.session w x) (r.attempt w x) := by
  have hstart : (r.context w).known.Orderly Session.empty.staged := .empty _
  have hsteps : Session.Reaches (r.context w) .empty (r.session w x) :=
    (hx .empty (faithful_context h w)).2
  have hpoint {s : Session} (hs : Session.Reaches (r.context w) .empty s) :
      (r.cache.table w).Orderly s.staged := by
    rw [← known_context h]
    exact hstart.of_reaches hs
  refine ⟨hsteps, fun s hs _ => hpoint hs, ?_, ?_⟩
  · intro hok
    rw [cache_attempt]
    cases hresult : (r.attempt w x).result with
    | ok a => exact adds_of_orderly h (hpoint hsteps)
    | error f =>
        rw [hresult] at hok
        contradiction
  · intro hfailed v
    rw [cache_attempt]
    cases hresult : (r.attempt w x).result with
    | ok a =>
        rw [hresult] at hfailed
        contradiction
    | error f => exact Cache.table_countEvents ..

/-- After any history, what an attempt to fit a signature or to resolve a composite stages is in
order at every point. It is remembered in addition if the attempt succeeds, and replaces
nothing. -/
theorem staged_in_order (registry : Registry) (history : List Request) (w : Bool) :
    (∀ s x, Staging ((ofRegistry registry).after history) w
      (((ofRegistry registry).after history).session w fun ctx => Fit.signature ctx s x)
      (((ofRegistry registry).after history).apply s x w)) ∧
    ∀ c, Staging ((ofRegistry registry).after history) w
      (((ofRegistry registry).after history).session w fun ctx => Fit.composite ctx c)
      (((ofRegistry registry).after history).resolve c w) := by
  obtain ⟨hfaithful, -, -⟩ := faithful_after_ofRegistry registry history
  have hexpand (ctx : Context) (x : Shape) := Attempt.Along.expand
    ((traversal_reaches ctx).chains []) (Session.Reaches.record_consult ctx) ctx.registry x
  constructor
  · intro s x
    exact staging_attempt hfaithful ((traversal_reaches _).signature s (fun _ => hexpand _) x)
  · intro c
    exact staging_attempt hfaithful ((traversal_reaches _).resolve c fun _ => hexpand _)

end ShapeFit.Resolver
