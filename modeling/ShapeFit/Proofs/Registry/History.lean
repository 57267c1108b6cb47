import ShapeFit.Proofs.Occurrences
import ShapeFit.Proofs.Registry.Declarations
import ShapeFit.Proofs.Registry.Index

/-!
# ShapeFit.Proofs.Registry.History

What a registry answers after a history of registrations.

A history is written down with the calls that declare each type. A registration is seen under
its own name and leaves every other name alone, so what is found under a name is what was
registered last under it (`Registry.find?_after`). The names come in the order in which they
were first registered (`Registry.names_after`). Every other answer is told by these two. A
table and an order that are kept beside each other give the same answers
(`Registry.after_reflects`).
-/

namespace ShapeFit

/-- A call that registers a type. It may ask which type it replaces. -/
inductive Registration where
  /-- Register a type and tell which one it replaces. -/
  | register (t : TypeDeclaration)
  /-- Register a type. -/
  | insert (t : TypeDeclaration)

namespace Registration

/-- How the type registered is declared. -/
def declaration : Registration → TypeDeclaration
  | .register t | .insert t => t

/-- The type registered. -/
def type (q : Registration) : TypeDescriptor := q.declaration.type

/-- The registry after a call. -/
def perform (r : Registry) : Registration → Registry
  | .register t => (r.register t.type).2
  | .insert t => r.insert t.type

/-- Either call leaves the same registry behind. -/
theorem perform_eq (r : Registry) (q : Registration) : q.perform r = r.insert q.type := by
  cases q <;> rfl

/-- The names of a history, one for each call. -/
def names (history : List Registration) : List TypeName := history.map (·.declaration.name)

/-- How the type is declared that a history registers last under a name. -/
def declared? (history : List Registration) (n : TypeName) : Option TypeDeclaration :=
  (history.map declaration).reverse.find? fun t => t.name = n

/-- What a history registers last under a name. -/
def latest? (history : List Registration) (n : TypeName) : Option TypeDescriptor :=
  (declared? history n).map TypeDeclaration.type

theorem latest?_concat (history : List Registration) (q : Registration) (n : TypeName) :
    latest? (history ++ [q]) n =
      if n = q.declaration.name then some q.type else latest? history n := by
  by_cases hn : q.declaration.name = n
  · simp [latest?, declared?, type, hn]
  · simp [latest?, declared?, hn, Ne.symm hn]

end Registration

namespace Registry

open Registration

/-- The registry after a history of calls, from one that knows no type. -/
def after (history : List Registration) : Registry := history.foldl perform empty

theorem after_concat (history : List Registration) (q : Registration) :
    after (history ++ [q]) = (after history).insert q.type := by
  simp [after, perform_eq]

/-! ## After a history -/

/-- What is found under a name is what was registered last under it. -/
theorem find?_after (history : List Registration) (n : TypeName) :
    (after history).find? n = latest? history n := by
  induction history using List.reverseRecOn with
  | nil => rfl
  | append_singleton history q ih =>
      rw [after_concat, find?_insert, latest?_concat, ih, type, TypeDeclaration.name_type]

/-- The names are those registered, in the order in which they came in. -/
theorem names_after (history : List Registration) :
    FirstOccurrences (Registration.names history) (after history).names := by
  induction history using List.reverseRecOn with
  | nil => exact .nil
  | append_singleton history q ih =>
      have hnames : Registration.names (history ++ [q]) =
          Registration.names history ++ [q.type.name] := by
        simp [Registration.names, type, TypeDeclaration.name_type]
      rw [after_concat, names_insert, hnames]
      exact ih.concat q.type.name

/-- A type listed after a history is the one registered last under its name. -/
theorem mem_types_after {history : List Registration} {d : TypeDescriptor} :
    d ∈ (after history).types ↔ latest? history d.name = some d := by
  rw [← find?_after, find?_eq_some_iff]
  simp

/-! ## Answers -/

/-- A registry answers as the ordered map that a history of registrations has filled. -/
structure Reflects (history : List Registration) (r : Registry) : Prop where
  /-- The types are listed by name in the order of first registration, each once. -/
  order : FirstOccurrences (Registration.names history) (r.types.map TypeDescriptor.name)
  /-- Each of them is the one registered last under its name. -/
  current : ∀ d ∈ r.types, latest? history d.name = some d
  /-- A type is found under a name exactly if it is listed under it. -/
  found : ∀ n d, r.find? n = some d ↔ d ∈ r.types ∧ d.name = n
  known : ∀ n, r.contains n = true ↔ ∃ d ∈ r.types, d.name = n
  /-- The constructors under a name are those of the listed type. -/
  built : ∀ n ks, r.constructors? n = some ks ↔ ∃ d ∈ r.types, d.name = n ∧ d.constructors = ks
  /-- They are those declared last under the name, in the order of the calls, each with its place
  as its index and with the parameters that were declared. -/
  declared : ∀ n, r.constructors? n =
    (declared? history n).map fun t => t.calls.mapIdx fun i q => ⟨i, q.params⟩
  counted : r.size = r.types.length
  vacant : r.isEmpty = true ↔ r.size = 0
  /-- Registering a type tells which one was registered last under its name. -/
  replaced : ∀ d : TypeDescriptor, (r.register d).1 = latest? history d.name
  /-- The constructors of a type are numbered in declaration order. -/
  numbered : ∀ d ∈ r.types, ∀ i (k : Constructor), d.constructors[i]? = some k → k.index = i

theorem reflects_after (history : List Registration) : (after history).Reflects history where
  order := names_after history
  current _ hd := mem_types_after.mp hd
  found _ _ := find?_eq_some_iff
  known n := by
    rw [contains_iff_mem_names, names, List.mem_map]
  built n ks := by
    simp [constructors?, find?_eq_some_iff, and_assoc]
  counted := rfl
  vacant := by
    simp [isEmpty, size]
  declared n := by
    simp [constructors?, find?_after, latest?, TypeDeclaration.constructors_type,
      Function.comp_def]
  replaced d := find?_after history d.name
  numbered d hd i k hk := by
    obtain ⟨t, -, rfl⟩ := Option.map_eq_some_iff.mp (mem_types_after.mp hd)
    rw [TypeDeclaration.constructors_type, List.getElem?_mapIdx, Option.map_eq_some_iff] at hk
    obtain ⟨q, -, rfl⟩ := hk
    rfl

end Registry

namespace Index

/-- The index after a history of calls, from one without types. -/
def after (history : List Registration) : Index :=
  history.foldl (fun s q => (s.register q.type).2) empty

theorem inStep_after (history : List Registration) :
    (after history).InStep (Registry.after history) := by
  induction history using List.reverseRecOn with
  | nil => exact .empty
  | append_singleton history q ih =>
      have hafter : after (history ++ [q]) = ((after history).register q.type).2 := by
        simp [after]
      rw [hafter, Registry.after_concat]
      exact ih.register q.type

end Index

/-- After any history of registrations a registry answers as the ordered map that the
history has filled, and so does a table of the types beside the order of their names. There is
no type that a history could not declare. -/
theorem Registry.after_reflects (history : List Registration) :
    (after history).Reflects history ∧ (Index.after history).Answers (after history) ∧
      ∀ d : TypeDescriptor, ∃ t : TypeDeclaration, t.type = d :=
  ⟨reflects_after history, (Index.inStep_after history).answers,
    TypeDescriptor.exists_declaration⟩

end ShapeFit
