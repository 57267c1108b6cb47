import ShapeFit.Shape

/-!
# ShapeFit.Registry

Target types with their constructors, and the registry that knows them by name.

The constructors of a type are declared one after the other, and each takes the
number of those before it as its index. So the index is the position in the order
of declaration (`TypeDescriptor.numbered`, a field that every declaration keeps).

A registry lists its types in the order in which their names first came in. A
type registered again takes its earlier place, so every name occurs once
(`Registry.nodup_names`, a field) and lookup through the list is unambiguous:

* `find?_insert` — a lookup after a registration finds the new type under its
  own name and what was there before under every other name;
* `names_insert` — the names keep their order, a new one comes last.
-/

namespace ShapeFit

/-! ## Constructors and types -/

/-- A declared parameter of a constructor. -/
abbrev Param := Named Shape

/-- One constructor of a type, with its position in declaration order. -/
structure Constructor where
  index : Nat
  params : List Param
deriving DecidableEq

namespace Constructor

/-- The number of parameters. -/
def arity (c : Constructor) : Nat := c.params.length

/-- The parameter shapes between parentheses, as in `(float, int)`. -/
def text (c : Constructor) : String :=
  "(" ++ ", ".intercalate (c.params.map fun p => p.val.text) ++ ")"

/-- The handle of the constructor at a position of a type, as in `geo.Point#0`. -/
def handle (target : TypeName) (index : Nat) : String := target.text ++ "#" ++ toString index

end Constructor

/-- A parameter without a declared name, which is called after its position. -/
def positionalParam (index : Nat) (shape : Shape) : Param := ⟨"arg" ++ toString index, shape⟩

/-- Parameters without declared names, which are called `arg0`, `arg1` and so on. -/
def positionalParams (shapes : List Shape) : List Param := shapes.mapIdx positionalParam

/-- A target type: its name and its constructors in declaration order, each with
its position as its index. -/
@[ext]
structure TypeDescriptor where
  name : TypeName
  constructors : List Constructor
  numbered : constructors.map Constructor.index = List.range constructors.length
deriving DecidableEq

namespace TypeDescriptor

/-! ### Declaring -/

/-- A type for which no constructor has been declared. -/
def ofName (name : TypeName) : TypeDescriptor := ⟨name, [], rfl⟩

/-- Declares the next constructor. -/
def declare (d : TypeDescriptor) (params : List Param) : TypeDescriptor where
  name := d.name
  constructors := d.constructors ++ [⟨d.constructors.length, params⟩]
  numbered := by simp [d.numbered, List.range_succ]

/-- Declares the next constructor by the shapes of its parameters alone. -/
def declarePositional (d : TypeDescriptor) (shapes : List Shape) : TypeDescriptor :=
  d.declare (positionalParams shapes)

@[simp] theorem name_declare (d : TypeDescriptor) (params : List Param) :
    (d.declare params).name = d.name := rfl

/-- A constructor comes last, numbered by those before it. -/
@[simp] theorem constructors_declare (d : TypeDescriptor) (params : List Param) :
    (d.declare params).constructors = d.constructors ++ [⟨d.constructors.length, params⟩] := rfl

/-! ### Reading off -/

/-- The parameter lists of the constructors, in declaration order. -/
def overloads (d : TypeDescriptor) : List (List Param) := d.constructors.map Constructor.params

/-- A constructor's index is its position. -/
theorem index_eq {d : TypeDescriptor} {i : Nat} {k : Constructor}
    (h : d.constructors[i]? = some k) : k.index = i := by
  obtain ⟨hi, rfl⟩ := List.getElem?_eq_some_iff.1 h
  have hindex := List.getElem_of_eq d.numbered (by simpa using hi)
  simpa using hindex

/-- The constructor at a position has the parameters that are listed there. -/
theorem getElem?_constructors (d : TypeDescriptor) (i : Nat) :
    d.constructors[i]? = d.overloads[i]?.map (Constructor.mk i) := by
  rw [overloads, List.getElem?_map]
  cases h : d.constructors[i]? with
  | none => rfl
  | some k => simp [← index_eq h]

end TypeDescriptor

/-! ## Registration -/

/-- Puts a type in the place of the one with its name, or at the end. -/
def insertType (d : TypeDescriptor) : List TypeDescriptor → List TypeDescriptor
  | [] => [d]
  | e :: es => if e.name = d.name then d :: es else e :: insertType d es

/-- Inserting a type adds its name at the end, unless it is there already. -/
theorem names_insertType (d : TypeDescriptor) (es : List TypeDescriptor) :
    (insertType d es).map TypeDescriptor.name =
      if d.name ∈ es.map TypeDescriptor.name then es.map TypeDescriptor.name
      else es.map TypeDescriptor.name ++ [d.name] := by
  induction es with
  | nil => simp [insertType]
  | cons e es ih =>
    by_cases h : e.name = d.name
    · simp [insertType, h]
    · rw [insertType, if_neg h, List.map_cons, ih, List.map_cons]
      by_cases hm : d.name ∈ es.map TypeDescriptor.name
      · rw [if_pos hm, if_pos (List.mem_cons_of_mem _ hm)]
      · have hn : d.name ∉ e.name :: es.map TypeDescriptor.name :=
          List.not_mem_cons_of_ne_of_not_mem (Ne.symm h) hm
        rw [if_neg hm, if_neg hn, List.cons_append]

/-- Known target types, each name once, in the order of first registration. -/
structure Registry where
  types : List TypeDescriptor
  nodup_names : (types.map TypeDescriptor.name).Nodup

namespace Registry

/-- The registry that knows no type. -/
def empty : Registry := ⟨[], .nil⟩

/-- The registered names in the order of first registration. -/
def names (r : Registry) : List TypeName := r.types.map TypeDescriptor.name

/-- The number of registered types. -/
def size (r : Registry) : Nat := r.types.length

/-- Whether no type is registered. -/
def isEmpty (r : Registry) : Bool := r.types.isEmpty

/-- The type registered under a name. -/
def find? (r : Registry) (name : TypeName) : Option TypeDescriptor :=
  r.types.find? fun d => d.name = name

/-- Whether a name is registered. -/
def contains (r : Registry) (name : TypeName) : Bool := (r.find? name).isSome

/-- The constructors of a registered type in declaration order. -/
def constructors? (r : Registry) (name : TypeName) : Option (List Constructor) :=
  (r.find? name).map TypeDescriptor.constructors

/-- Registers a type in the place of the one with its name, or as the last. -/
def insert (r : Registry) (d : TypeDescriptor) : Registry where
  types := insertType d r.types
  nodup_names := by
    rw [names_insertType]
    split
    · exact r.nodup_names
    · next h =>
      rw [List.nodup_append]
      refine ⟨r.nodup_names, by simp, fun n hn m hm => ?_⟩
      rw [List.mem_singleton.1 hm]
      exact fun heq => h (heq ▸ hn)

/-- Registers a type and tells which one it replaces. -/
def register (r : Registry) (d : TypeDescriptor) : Option TypeDescriptor × Registry :=
  (r.find? d.name, r.insert d)

/-- Registers types one after the other. -/
def insertAll (r : Registry) (ds : List TypeDescriptor) : Registry := ds.foldl insert r

theorem names_insert (r : Registry) (d : TypeDescriptor) :
    (r.insert d).names = if d.name ∈ r.names then r.names else r.names ++ [d.name] :=
  names_insertType d r.types

theorem name_of_find? {r : Registry} {n : TypeName} {d : TypeDescriptor}
    (h : r.find? n = some d) : d.name = n := by
  simpa using List.find?_some h

theorem mem_names_of_find? {r : Registry} {n : TypeName} {d : TypeDescriptor}
    (h : r.find? n = some d) : n ∈ r.names :=
  List.mem_map.2 ⟨d, List.mem_of_find?_eq_some h, name_of_find? h⟩

/-- A registration is seen under its own name and leaves every other name alone. -/
theorem find?_insert (r : Registry) (d : TypeDescriptor) (n : TypeName) :
    (r.insert d).find? n = if n = d.name then some d else r.find? n := by
  simp only [find?, insert]
  induction r.types with
  | nil => simp [insertType, eq_comm]
  | cons e es ih =>
    by_cases he : e.name = d.name <;> by_cases hn : n = d.name <;>
      simp_all [insertType, List.find?_cons, eq_comm]

theorem contains_iff_mem_names {r : Registry} {n : TypeName} : r.contains n ↔ n ∈ r.names := by
  simp [contains, find?, names, List.find?_isSome]

end Registry

end ShapeFit
