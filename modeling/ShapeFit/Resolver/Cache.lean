import ShapeFit.Fit.Session

/-!
# ShapeFit.Resolver.Cache

The resolutions that a resolver remembers, and how often they were asked for.

Attempts with widening and attempts without it are remembered apart, since a
composite may have another constructor under each.

The counters have no upper end. Counters of 64 bits show the same numbers until
one of them has counted `2 ^ 64` lookups, and start again at zero there.
-/

namespace ShapeFit

/-- Remembered resolutions, with the numbers of counted lookups that found one and
that did not. -/
structure Cache where
  exact : Table
  widened : Table
  hits : Nat
  misses : Nat
deriving DecidableEq

namespace Cache

/-- The cache that remembers nothing and has counted nothing. -/
def empty : Cache := ⟨.empty, .empty, 0, 0⟩

/-- The resolutions remembered for one setting of widening. -/
def table (cache : Cache) (widening : Bool) : Table :=
  if widening then cache.widened else cache.exact

/-! ## Lookup -/

/-- A lookup that is not counted. -/
def peek (cache : Cache) (c : Composite) (widening : Bool) : Option Resolution :=
  (cache.table widening).find? c

/-- Whether a resolution is remembered. -/
def contains (cache : Cache) (c : Composite) (widening : Bool) : Bool :=
  (cache.peek c widening).isSome

/-- Counts a lookup by what it found. -/
def countLookup (cache : Cache) (found : Bool) : Cache :=
  if found then { cache with hits := cache.hits + 1 }
  else { cache with misses := cache.misses + 1 }

/-- A lookup that is counted. -/
def get (cache : Cache) (c : Composite) (widening : Bool) : Option Resolution × Cache :=
  (cache.peek c widening, cache.countLookup (cache.contains c widening))

/-! ## Size -/

/-- The number of resolutions remembered, under both settings. -/
def size (cache : Cache) : Nat := cache.exact.size + cache.widened.size

/-- Whether nothing is remembered. -/
def isEmpty (cache : Cache) : Bool := cache.exact.isEmpty && cache.widened.isEmpty

/-- Forgets every resolution. What was counted stays. -/
def clear (cache : Cache) : Cache := { cache with exact := .empty, widened := .empty }

/-! ## After an attempt -/

/-- Counts the lookups among some events. -/
def countEvents (cache : Cache) (events : List Event) : Cache :=
  events.foldl (fun
    | cache, .hit _ => cache.countLookup true
    | cache, .miss _ => cache.countLookup false
    | cache, .consult _ => cache) cache

/-- Remembers the resolutions that an attempt has staged. An attempt stages what
it has looked for and not found, so no entry is hidden by a new one. -/
def commit (cache : Cache) (widening : Bool) (staged : Table) : Cache :=
  if widening then { cache with widened := cache.widened.insertAll staged }
  else { cache with exact := cache.exact.insertAll staged }

/-! ## What a lookup finds -/

/-- Counting leaves the resolutions alone. -/
theorem table_countEvents (cache : Cache) (events : List Event) (widening : Bool) :
    (cache.countEvents events).table widening = cache.table widening := by
  induction events generalizing cache with
  | nil => rfl
  | cons e events ih =>
      rw [countEvents, List.foldl_cons, ← countEvents, ih]
      cases e <;> rfl

/-- A commit is seen under its own setting of widening only. -/
theorem table_commit (cache : Cache) (staged : Table) (w v : Bool) :
    (cache.commit w staged).table v =
      if v = w then (cache.table v).insertAll staged else cache.table v := by
  cases w <;> cases v <;> rfl

theorem table_clear (cache : Cache) (widening : Bool) : cache.clear.table widening = .empty := by
  cases widening <;> rfl

theorem table_get (cache : Cache) (c : Composite) (w v : Bool) :
    (cache.get c w).2.table v = cache.table v := by
  rw [get, countLookup]
  split <;> rfl

end Cache

end ShapeFit
