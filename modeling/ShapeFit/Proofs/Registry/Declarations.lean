import Mathlib.Data.List.Induction
import ShapeFit.Registry

/-!
# ShapeFit.Proofs.Registry.Declarations

Types by the calls that declare them.

A type is declared by its name and then a call for each constructor. No call tells an index:
each takes the number of constructors before it. So the constructors of a type are those that
its calls declare, in the order of the calls, each with its place as its index
(`TypeDeclaration.constructors_type`). There are no other types
(`TypeDescriptor.exists_declaration`).
-/

namespace ShapeFit

/-- A call that declares the next constructor of a type. -/
inductive ConstructorDeclaration where
  /-- Declare it by its parameters. -/
  | named (params : List Param)
  /-- Declare it by the shapes of its parameters. -/
  | positional (shapes : List Shape)

namespace ConstructorDeclaration

/-- The parameters declared. Those without a name are called after their positions. -/
def params : ConstructorDeclaration → List Param
  | .named ps => ps
  | .positional shapes => shapes.mapIdx fun i x => ⟨"arg" ++ toString i, x⟩

/-- The type after a call. -/
def perform (d : TypeDescriptor) : ConstructorDeclaration → TypeDescriptor
  | .named ps => d.declare ps
  | .positional shapes => d.declarePositional shapes

/-- Either call declares its parameters. -/
theorem perform_eq (d : TypeDescriptor) (q : ConstructorDeclaration) :
    q.perform d = d.declare q.params := by
  cases q <;> rfl

end ConstructorDeclaration

/-- The name of a type, and the calls that declare its constructors. -/
structure TypeDeclaration where
  name : TypeName
  calls : List ConstructorDeclaration

namespace TypeDeclaration

/-- The type declared. -/
def type (t : TypeDeclaration) : TypeDescriptor :=
  t.calls.foldl ConstructorDeclaration.perform (.ofName t.name)

theorem type_concat (n : TypeName) (calls : List ConstructorDeclaration)
    (q : ConstructorDeclaration) :
    type ⟨n, calls ++ [q]⟩ = (type ⟨n, calls⟩).declare q.params := by
  simp [type, ConstructorDeclaration.perform_eq]

theorem name_type (t : TypeDeclaration) : t.type.name = t.name := by
  obtain ⟨n, calls⟩ := t
  induction calls using List.reverseRecOn with
  | nil => rfl
  | append_singleton calls q ih =>
      rw [type_concat, TypeDescriptor.name_declare]
      exact ih

/-- Each call declares one constructor, with the parameters of the call. Its index is the place
of the call. -/
theorem constructors_type (t : TypeDeclaration) :
    t.type.constructors = t.calls.mapIdx fun i q => ⟨i, q.params⟩ := by
  obtain ⟨n, calls⟩ := t
  induction calls using List.reverseRecOn with
  | nil => rfl
  | append_singleton calls q ih =>
      rw [type_concat, TypeDescriptor.constructors_declare, ih]
      simp

end TypeDeclaration

/-- Every type is declared by some calls: those that list its parameters. -/
theorem TypeDescriptor.exists_declaration (d : TypeDescriptor) :
    ∃ t : TypeDeclaration, t.type = d := by
  refine ⟨⟨d.name, d.overloads.map .named⟩, ?_⟩
  refine TypeDescriptor.ext (TypeDeclaration.name_type _) (List.ext_getElem? fun i => ?_)
  rw [TypeDeclaration.constructors_type, d.getElem?_constructors]
  simp [ConstructorDeclaration.params, Function.comp_def]

end ShapeFit
