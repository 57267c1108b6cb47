import ShapeFit.Registry
import ShapeFit.Signature

/-!
# ShapeFit.Fit.Table

Resolutions, and tables of them by the composite that was resolved.

A table is a list of entries, the latest first, and the latest entry for a
composite counts (`Table.find?_insert`). Each entry carries the size of its
composite: composites of different sizes are told apart by it, without walking
through trees that may be deep and alike almost to the leaves.
-/

namespace ShapeFit

/-- A constructor chosen for a composite, and the composite with every open slot
filled. -/
structure Resolution where
  constructor : Constructor
  signature : Composite
deriving DecidableEq

/-- The handle of the constructor chosen, as in `geo.Point#0`. -/
def Resolution.handle (r : Resolution) : String :=
  Constructor.handle r.signature.target r.constructor.index

/-- A resolution under the composite that was resolved. -/
structure Entry where
  key : Composite
  keySize : Nat
  resolution : Resolution
  keySize_eq : keySize = key.size
deriving DecidableEq

/-- Resolutions by the composite that was resolved. -/
structure Table where
  entries : List Entry
deriving DecidableEq

namespace Table

/-- The table without entries. -/
def empty : Table := ⟨[]⟩

/-- The resolution of a composite. -/
def find? (t : Table) (c : Composite) : Option Resolution :=
  let n := c.size
  (t.entries.find? fun e => e.keySize == n && e.key == c).map Entry.resolution

/-- Adds a resolution. It hides an earlier one of the same composite. -/
def insert (t : Table) (c : Composite) (r : Resolution) : Table :=
  ⟨⟨c, c.size, r, rfl⟩ :: t.entries⟩

/-- Adds the entries of a later table. -/
def insertAll (t later : Table) : Table := ⟨later.entries ++ t.entries⟩

/-- The number of entries. -/
def size (t : Table) : Nat := t.entries.length

/-- Whether there is no entry. -/
def isEmpty (t : Table) : Bool := t.entries.isEmpty

/-- The composites with an entry, the latest first. -/
def keys (t : Table) : List Composite := t.entries.map Entry.key

/-! ## Lookup -/

/-- Comparing sizes first changes no answer. -/
theorem find?_eq (t : Table) (c : Composite) :
    t.find? c = (t.entries.find? (·.key == c)).map Entry.resolution := by
  have h : (fun e : Entry => e.keySize == c.size && e.key == c) = (·.key == c) := by
    funext e
    by_cases h : e.key = c <;> simp [h, e.keySize_eq]
  simp only [find?, h]

theorem find?_empty (c : Composite) : empty.find? c = none := rfl

theorem find?_insert (t : Table) (c d : Composite) (r : Resolution) :
    (t.insert c r).find? d = if c = d then some r else t.find? d := by
  by_cases h : c = d <;> simp [find?_eq, insert, h]

theorem find?_insertAll (t later : Table) (c : Composite) :
    (t.insertAll later).find? c = (later.find? c).or (t.find? c) := by
  simp [find?_eq, insertAll, List.find?_append, Option.map_or]

/-- A composite has a resolution exactly when it is a key. -/
theorem isSome_find? {t : Table} {c : Composite} : (t.find? c).isSome ↔ c ∈ t.keys := by
  simp [find?_eq, keys, List.find?_isSome]

end Table

end ShapeFit
