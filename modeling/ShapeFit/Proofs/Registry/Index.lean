import Mathlib.Data.List.Nodup
import ShapeFit.Registry

/-!
# ShapeFit.Proofs.Registry.Index

A registry kept in two parts.

A `Registry` is one list. Kept instead as a table of the types by name, beside the order in
which the names came in, nothing in the parts themselves makes them agree: a name could be
missing in one of them, or stand in the order twice. They are in step (`Index.InStep`) after
each registration if they were before (`Index.InStep.register`), and then answer as the list
does (`Index.InStep.answers`).
-/

namespace ShapeFit

/-! ## The list of types -/

namespace Registry

/-- A type is found under its name exactly if it is listed. -/
theorem find?_eq_some_iff {r : Registry} {n : TypeName} {d : TypeDescriptor} :
    r.find? n = some d ↔ d ∈ r.types ∧ d.name = n := by
  constructor
  · intro h
    exact ⟨List.mem_of_find?_eq_some h, name_of_find? h⟩
  · intro ⟨hd, hn⟩
    have hnames : n ∈ r.names := hn ▸ List.mem_map_of_mem hd
    rw [← contains_iff_mem_names, contains, Option.isSome_iff_exists] at hnames
    obtain ⟨e, he⟩ := hnames
    have hsame : e.name = d.name := by rw [name_of_find? he, hn]
    have hed := List.inj_on_of_nodup_map r.nodup_names (List.mem_of_find?_eq_some he) hd hsame
    rw [he, hed]

theorem length_types_insert (r : Registry) (d : TypeDescriptor) :
    (r.insert d).types.length = if d.name ∈ r.names then r.types.length else r.types.length + 1 := by
  have hnames := congrArg List.length (names_insert r d)
  rw [apply_ite List.length] at hnames
  simpa [names] using hnames

/-- Looking up the names in their order lists the types. -/
theorem filterMap_find?_names (r : Registry) : r.names.filterMap r.find? = r.types := by
  rw [names, List.filterMap_map]
  have hfound : ∀ d ∈ r.types, (r.find? ∘ TypeDescriptor.name) d = some d := fun d hd =>
    find?_eq_some_iff.mpr ⟨hd, rfl⟩
  rw [List.filterMap_congr hfound, List.filterMap_some]

end Registry

/-! ## Two parts -/

instance : Hashable TypeName := ⟨fun n => hash n.text⟩

/-- The types by name, and the names in the order in which they came in. -/
structure Index where
  types : Std.HashMap TypeName TypeDescriptor
  order : List TypeName

namespace Index

/-- The index without types. -/
def empty : Index := ⟨∅, []⟩

/-- Registers a type and tells which one it replaces. A name that was not known comes last. -/
def register (s : Index) (d : TypeDescriptor) : Option TypeDescriptor × Index :=
  let previous := s.types[d.name]?
  (previous, ⟨s.types.insert d.name d,
    if previous.isNone then s.order ++ [d.name] else s.order⟩)

/-- The type registered under a name. -/
def find? (s : Index) (n : TypeName) : Option TypeDescriptor := s.types[n]?

/-- Whether a name is registered. -/
def contains (s : Index) (n : TypeName) : Bool := s.types.contains n

/-- The constructors of a registered type in declaration order. -/
def constructors? (s : Index) (n : TypeName) : Option (List Constructor) :=
  (s.find? n).map TypeDescriptor.constructors

/-- The number of registered types. -/
def size (s : Index) : Nat := s.types.size

/-- Whether no type is registered. -/
def isEmpty (s : Index) : Bool := s.types.isEmpty

/-- The types in the order of their names. A name without a type would be passed over. -/
def listed (s : Index) : List TypeDescriptor := s.order.filterMap s.find?

/-- The index gives every answer of the registry. -/
structure Answers (s : Index) (r : Registry) : Prop where
  listed : s.listed = r.types
  found : ∀ n, s.find? n = r.find? n
  known : ∀ n, s.contains n = r.contains n
  built : ∀ n, s.constructors? n = r.constructors? n
  counted : s.size = r.size
  vacant : s.isEmpty = r.isEmpty
  replaced : ∀ d, (s.register d).1 = (r.register d).1

/-! ## In step -/

/-- Both parts are those of the registry. -/
structure InStep (s : Index) (r : Registry) : Prop where
  order : s.order = r.names
  found : ∀ n, s.types[n]? = r.find? n
  counted : s.types.size = r.types.length

namespace InStep

variable {s : Index} {r : Registry}

theorem empty : Index.empty.InStep Registry.empty where
  order := rfl
  found n := by simp [Index.empty, Registry.find?, Registry.empty]
  counted := by simp [Index.empty, Registry.empty]

theorem mem_types (h : s.InStep r) (n : TypeName) : n ∈ s.types ↔ n ∈ r.names := by
  rw [← Registry.contains_iff_mem_names, Registry.contains, ← h.found n,
    Std.HashMap.isSome_getElem?_iff_mem]

/-- A registration keeps the parts in step. -/
theorem register (h : s.InStep r) (d : TypeDescriptor) :
    (s.register d).2.InStep (r.insert d) where
  order := by
    simp [Index.register, Registry.names_insert, h.mem_types, h.order]
  found n := by
    simp only [Index.register, Std.HashMap.getElem?_insert, h.found, Registry.find?_insert,
      beq_iff_eq, eq_comm (a := n)]
  counted := by
    simp [Index.register, Std.HashMap.size_insert, Registry.length_types_insert, h.mem_types,
      h.counted]

/-- Parts in step answer as the registry does. -/
theorem answers (h : s.InStep r) : s.Answers r where
  listed := by
    rw [Index.listed, h.order, ← Registry.filterMap_find?_names]
    exact List.filterMap_congr fun n _ => h.found n
  found := h.found
  known n := by
    rw [Index.contains, Std.HashMap.contains_eq_isSome_getElem?, h.found n]
    rfl
  built n := by
    rw [Index.constructors?, Index.find?, h.found n]
    rfl
  counted := h.counted
  vacant := by
    have hcounted := h.counted
    rw [Index.isEmpty, Std.HashMap.isEmpty_eq_size_eq_zero, hcounted, Registry.isEmpty]
    cases r.types <;> rfl
  replaced d := h.found d.name

end InStep

end Index

end ShapeFit
