import ShapeFit.Proofs.Fit.Counting
import ShapeFit.Proofs.Resolver.Content

/-!
# ShapeFit.Proofs.Resolver.Counting

What a resolver counts, and when it asks for the constructors of a type.

While resolutions are remembered, an attempt for a signature without open slots asks for
the targets of the composites that it looked for in vain, one for one and in order
(`Accounts`). What has been fitted is found again without asking (`resolve_of_contains`).
A resolver that remembers nothing stays as it is (`attempt_idle`).
-/

namespace ShapeFit

/-! ## Counters -/

namespace Cache

/-- Events are counted by what their lookups found. -/
theorem countEvents_eq (cache : Cache) (events : List Event) :
    cache.countEvents events =
      { cache with
        hits := cache.hits + (events.filterMap Event.found?).length
        misses := cache.misses + (events.filterMap Event.missed?).length } := by
  induction events generalizing cache with
  | nil => rfl
  | cons e events ih =>
      rw [countEvents, List.foldl_cons, ← countEvents, ih]
      cases e <;> simp [countLookup, List.filterMap_cons, Event.found?, Event.missed?,
        Nat.add_assoc, Nat.add_comm 1]

theorem hits_commit (cache : Cache) (w : Bool) (staged : Table) :
    (cache.commit w staged).hits = cache.hits := by
  cases w <;> rfl

theorem misses_commit (cache : Cache) (w : Bool) (staged : Table) :
    (cache.commit w staged).misses = cache.misses := by
  cases w <;> rfl

theorem commit_empty (cache : Cache) (w : Bool) : cache.commit w .empty = cache := by
  cases w <;> rfl

end Cache

namespace Resolver

variable {r : Resolver} {α : Type}

/-- The session of an attempt at its end. -/
def session (r : Resolver) (w : Bool) (x : Context → Attempt Failure α) : Session :=
  ((x (r.context w)).run .empty).2

/-- The cache after an attempt: its lookups are counted, and what it staged is remembered if
it succeeded. -/
theorem cache_attempt (r : Resolver) (w : Bool) (x : Context → Attempt Failure α) :
    (r.attempt w x).resolver =
      { r with
        cache := match (r.attempt w x).result with
          | .ok _ => (r.cache.countEvents (r.session w x).events).commit w (r.session w x).staged
          | .error _ => r.cache.countEvents (r.session w x).events } := rfl

/-! ## One attempt -/

/-- How the counters, the types asked for and the composites missed agree after an attempt
for the signature `s` that ended in the session `t`. -/
structure Accounts (r : Resolver) (s : Signature) (w : Bool) (t : Session) (o : Outcome α) :
    Prop where
  hits : o.resolver.cache.hits = r.cache.hits + t.found.length
  misses : o.resolver.cache.misses = r.cache.misses + t.missed.length
  /-- Without open slots, the types asked for are the targets of the composites missed. -/
  consulted : s.isResolved = true → o.consulted = t.missed.map Composite.target
  /-- So there are as many of them as misses are added. -/
  balance : s.isResolved = true →
    o.resolver.cache.misses = r.cache.misses + o.consulted.length
  /-- A composite that can be resolved is missed once at most. -/
  once : ∀ c res, ((uncached r.registry).resolve c w).result = .ok res → t.missed.count c ≤ 1

theorem counters_attempt (r : Resolver) (w : Bool) (x : Context → Attempt Failure α) :
    (r.attempt w x).resolver.cache.hits = r.cache.hits + (r.session w x).found.length ∧
      (r.attempt w x).resolver.cache.misses = r.cache.misses + (r.session w x).missed.length := by
  simp only [cache_attempt]
  cases (r.attempt w x).result with
  | ok a =>
      simp only [Cache.hits_commit, Cache.misses_commit, Cache.countEvents_eq]
      exact ⟨rfl, rfl⟩
  | error f =>
      simp only [Cache.countEvents_eq]
      exact ⟨rfl, rfl⟩

/-- An attempt of a resolver that remembers is accounted for, if it keeps to what fitting a
signature does to a session. -/
theorem accounts_attempt (h : r.Faithful) {s : Signature} {w : Bool}
    {x : Context → Attempt Failure α} {nodes : List Composite}
    (hbalanced : s.isResolved = true → Attempt.Along Balanced (x (r.context w)))
    (htally : Attempt.Along
      (fun t u => (r.context w).Faithful t → Tally (r.context w) nodes t u) (x (r.context w))) :
    Accounts r s w (r.session w x) (r.attempt w x) := by
  have hconsulted : s.isResolved = true →
      (r.attempt w x).consulted = (r.session w x).missed.map Composite.target := by
    intro hs
    obtain ⟨cs, hmissed, hasked⟩ := hbalanced hs .empty
    have hcs : (r.session w x).missed = cs := hmissed
    rw [hcs]
    exact hasked
  obtain ⟨-, -, cs, hcs⟩ := htally .empty (faithful_context h w)
  have hmissed : (r.session w x).missed = cs := hcs.missed
  obtain ⟨hhits, hmisses⟩ := counters_attempt r w x
  refine ⟨hhits, hmisses, hconsulted, ?_, ?_⟩
  · intro hs
    rw [hmisses, hconsulted hs, List.length_map]
  · intro c res hres
    rw [(resolve_spec (faithful_uncached r.registry) c w).1] at hres
    rw [hmissed]
    exact hcs.once c res hres

/-- A resolver that remembers gives its attempts what it remembers. -/
theorem memo?_context (hcaching : r.caching = true) (w : Bool) :
    (r.context w).memo? = some (r.cache.table w) := by
  rw [context, if_pos hcaching]

theorem accounts_apply (h : r.Faithful) (hcaching : r.caching = true) (s : Signature) (x : Shape)
    (w : Bool) :
    Accounts r s w (r.session w fun ctx => Fit.signature ctx s x) (r.apply s x w) := by
  refine accounts_attempt h (fun hs => ?_) ((traversal_tally _).signature s (fun _ => ?_) x)
  · refine (traversal_balanced (memo?_context hcaching w)).signature s (fun hslot => ?_) x
    rw [hs] at hslot
    contradiction
  · exact .expand ((traversal_tally _).chains []) (Tally.record_consult _) _

theorem accounts_resolve (h : r.Faithful) (hcaching : r.caching = true) (c : Composite)
    (w : Bool) :
    Accounts r c.toSignature w (r.session w fun ctx => Fit.composite ctx c) (r.resolve c w) := by
  refine accounts_attempt h (fun hs => ?_) ((traversal_tally _).resolve c fun _ => ?_)
  · refine (traversal_balanced (memo?_context hcaching w)).resolve c fun hslot => ?_
    rw [hs] at hslot
    contradiction
  · exact .expand ((traversal_tally _).chains []) (Tally.record_consult _) _

/-! ## What has been resolved before -/

/-- A composite that is staged or remembered is resolved without asking for any type. -/
theorem consulted_composite_of_known (hcaching : r.caching = true) {w : Bool} {c : Composite}
    {t : Session}
    (hknown : (t.staged.find? c).isSome = true ∨ (r.cache.peek c w).isSome = true) :
    ((Fit.composite (r.context w) c).run t).2.consulted = t.consulted := by
  rw [Fit.composite, memo?_context hcaching]
  obtain ⟨res, -, ht⟩ | ⟨res, -, -, ht⟩ | ⟨hstaged, hnone, -⟩ := Fit.remember_cases rfl
  · rw [ht]
  · simp [ht]
  · rw [hstaged, Cache.peek, hnone] at hknown
    simp at hknown

/-- A remembered composite is found by one lookup, and no type is asked for. -/
theorem resolve_of_contains (hcaching : r.caching = true) {c : Composite} {w : Bool}
    (hc : r.cache.contains c w = true) :
    (r.resolve c w).consulted = [] ∧
      (r.resolve c w).resolver.cache = { r.cache with hits := r.cache.hits + 1 } := by
  obtain ⟨res, hres⟩ := Option.isSome_iff_exists.mp hc
  have hrun : (Fit.composite (r.context w) c).run .empty =
      (.ok res, Session.empty.record (.hit c)) := by
    rw [Fit.composite, memo?_context hcaching, Conforms.remember_run,
      show (r.cache.table w).find? c = some res from hres]
    rfl
  have hcache : r.cache.countEvents [.hit c] = { r.cache with hits := r.cache.hits + 1 } := rfl
  rw [resolve, attempt, hrun]
  refine ⟨rfl, ?_⟩
  change (r.cache.countEvents [.hit c]).commit w .empty = _
  rw [Cache.commit_empty, hcache]

/-! ## Without memory -/

/-- Nothing has been looked up or staged between two sessions. -/
def Idle (s t : Session) : Prop :=
  t.found = s.found ∧ t.missed = s.missed ∧ t.staged = s.staged

theorem Idle.chains : Attempt.Chains Idle where
  refl _ := ⟨rfl, rfl, rfl⟩
  trans h h' := ⟨h'.1.trans h.1, h'.2.1.trans h.2.1, h'.2.2.trans h.2.2⟩

theorem Idle.record_consult (n : TypeName) :
    Attempt.Along Idle (Attempt.record (.consult n) : Attempt Failure Unit) := by
  intro s
  change Idle s (s.record (.consult n))
  exact ⟨by simp, by simp, rfl⟩

/-- Without a memo nothing is looked up or staged. -/
theorem traversal_idle {ctx : Context} (hmemo : ctx.memo? = none) :
    Traversal ctx fun _ => Idle where
  chains _ := Idle.chains
  mono _ h := h
  composite c hselection s := by
    rw [Fit.composite, hmemo]
    exact Idle.chains.trans (Idle.record_consult c.target s) (hselection s)

/-- An attempt that looks up nothing and stages nothing leaves the resolver as it is. -/
theorem attempt_idle {w : Bool} {x : Context → Attempt Failure α}
    (hx : Attempt.Along Idle (x (r.context w))) : (r.attempt w x).resolver = r := by
  obtain ⟨hfound, hmissed, hstaged⟩ := hx .empty
  have hcount : r.cache.countEvents (r.session w x).events = r.cache := by
    have hf : (r.session w x).events.filterMap Event.found? = [] := hfound
    have hm : (r.session w x).events.filterMap Event.missed? = [] := hmissed
    rw [Cache.countEvents_eq, hf, hm]
    rfl
  have hs : (r.session w x).staged = .empty := hstaged
  rw [cache_attempt, hcount, hs, Cache.commit_empty]
  cases (r.attempt w x).result <;> rfl

theorem apply_uncached (registry : Registry) (cache : Cache) (s : Signature) (x : Shape)
    (w : Bool) :
    ((⟨registry, false, cache⟩ : Resolver).apply s x w).resolver = ⟨registry, false, cache⟩ :=
  attempt_idle ((traversal_idle rfl).signature s
    (fun _ => .expand Idle.chains Idle.record_consult registry) x)

theorem resolve_uncached (registry : Registry) (cache : Cache) (c : Composite) (w : Bool) :
    ((⟨registry, false, cache⟩ : Resolver).resolve c w).resolver = ⟨registry, false, cache⟩ :=
  attempt_idle ((traversal_idle rfl).resolve c
    fun _ => .expand Idle.chains Idle.record_consult registry)

/-! ## Histories -/

/-- After any history, the counters and the types asked for agree with the composites missed,
whether an attempt succeeds or fails, and a composite that is staged or remembered is
resolved without asking for a type. What has been fitted since everything was last
forgotten is found by one lookup. A resolver that remembers nothing counts nothing. -/
theorem lookups_accounted (registry : Registry) (history : List Request) :
    (∀ s x w, Accounts ((ofRegistry registry).after history) s w
      (((ofRegistry registry).after history).session w fun ctx => Fit.signature ctx s x)
      (((ofRegistry registry).after history).apply s x w)) ∧
    (∀ c w, Accounts ((ofRegistry registry).after history) c.toSignature w
      (((ofRegistry registry).after history).session w fun ctx => Fit.composite ctx c)
      (((ofRegistry registry).after history).resolve c w)) ∧
    (∀ c w (t : Session),
      (t.staged.find? c).isSome = true ∨
          (((ofRegistry registry).after history).cache.peek c w).isSome = true →
        ((Fit.composite (((ofRegistry registry).after history).context w) c).run t).2.consulted =
          t.consulted) ∧
    (∀ before q later s w, history = before ++ q :: later → .clear ∉ later →
      q.attempted? = some (s, w) →
      (((ofRegistry registry).after before).perform q).reply.succeeded = true →
      ∀ c ∈ s.composites,
        (((ofRegistry registry).after history).resolve c w).consulted = [] ∧
        (((ofRegistry registry).after history).resolve c w).resolver.cache =
          { ((ofRegistry registry).after history).cache with
            hits := ((ofRegistry registry).after history).cache.hits + 1 }) ∧
    ∀ cache,
      (∀ s x w, ((⟨registry, false, cache⟩ : Resolver).apply s x w).resolver =
        ⟨registry, false, cache⟩) ∧
      ∀ c w, ((⟨registry, false, cache⟩ : Resolver).resolve c w).resolver =
        ⟨registry, false, cache⟩ := by
  obtain ⟨hfaithful, -, hcaching⟩ := faithful_after_ofRegistry registry history
  refine ⟨accounts_apply hfaithful hcaching, accounts_resolve hfaithful hcaching, ?_, ?_, ?_⟩
  · intro c w t hknown
    exact consulted_composite_of_known hcaching hknown
  · intro before q later s w hhistory hlater hs hok c hc
    apply resolve_of_contains hcaching
    rw [contains_after_iff]
    exact ⟨before, q, later, s, hhistory, hlater, hs, hok, hc⟩
  · intro cache
    exact ⟨apply_uncached registry cache, resolve_uncached registry cache⟩

end Resolver

end ShapeFit
