import Mathlib.Data.List.Forall2
import ShapeFit.Fit.Candidate

/-!
# ShapeFit.Proofs.Blur

Signatures, shapes, registries and failures with some detail blurred.

A blur changes declared names, and may take one kind of list for another
(`Blur`). There are two of interest here: `Blur.nameless` leaves no name of an
argument or a parameter, and `Blur.listlike` takes every sequence for an array.

What is blurred in a signature, in a shape or in a registry is blurred in a
failure, too. A failure and each of its causes keep their code, and everything
in them but names in paths and the shapes that were found (`Failure.levels_blur`,
`Mismatch.code_blur`).
-/

namespace ShapeFit

/-- A way to blur declared names and shapes. Primitives and objects are seen as
they are, and a list is seen as some list of what its elements are seen as. -/
structure Blur where
  name : String → String
  shape : Shape → Shape
  shape_prim : ∀ k, shape (.prim k) = .prim k
  shape_object : ∀ n, shape (.object n) = .object n
  element?_shape : ∀ x, (shape x).element? = x.element?.map shape

namespace Blur

variable (b : Blur)

/-! ## Signatures -/

mutual
/-- A signature with the names of its arguments blurred. -/
def signature : Signature → Signature
  | .prim k => .prim k
  | .list e => .list (signature e)
  | .composite t as => .composite t (args as)
  | .wildcard => .wildcard

/-- Arguments with their names blurred, those inside of them included. -/
def args : List (Named Signature) → List Arg
  | [] => []
  | ⟨n, s⟩ :: as => ⟨b.name n, signature s⟩ :: args as
end

theorem length_args (as : List Arg) : (b.args as).length = as.length := by
  induction as with
  | nil => rfl
  | cons a as ih => simp [args, ih]

/-- A composite with the names of its arguments blurred. -/
def composite (c : Composite) : Composite := ⟨c.target, b.args c.args⟩

theorem signature_toSignature (c : Composite) :
    b.signature c.toSignature = (b.composite c).toSignature := by
  rw [Composite.toSignature, signature]
  rfl

/-! ## Registries -/

/-- A parameter with its name and its shape blurred. -/
def param (p : Param) : Param := ⟨b.name p.name, b.shape p.val⟩

/-- A constructor with its parameters blurred. It keeps its position. -/
def constructor (k : Constructor) : Constructor := ⟨k.index, k.params.map b.param⟩

/-- A type with the parameters of its constructors blurred. -/
def descriptor (d : TypeDescriptor) : TypeDescriptor where
  name := d.name
  constructors := d.constructors.map b.constructor
  numbered := by
    rw [List.map_map, List.length_map]
    exact d.numbered

theorem constructors_descriptor (d : TypeDescriptor) :
    (b.descriptor d).constructors = d.constructors.map b.constructor := rfl

theorem overloads_descriptor (d : TypeDescriptor) :
    (b.descriptor d).overloads = d.overloads.map fun ps => ps.map b.param := by
  rw [TypeDescriptor.overloads, constructors_descriptor, TypeDescriptor.overloads, List.map_map,
    List.map_map]
  rfl

/-- A registry with its types blurred. -/
def registry (r : Registry) : Registry where
  types := r.types.map b.descriptor
  nodup_names := by
    rw [List.map_map]
    exact r.nodup_names

theorem find?_registry (r : Registry) (n : TypeName) :
    (b.registry r).find? n = (r.find? n).map b.descriptor := by
  rw [Registry.find?, registry, List.find?_map]
  rfl

/-- Whether two registries know the same types, once these are blurred. -/
def Confuses (r r' : Registry) : Prop :=
  ∀ n, (r.find? n).map b.descriptor = (r'.find? n).map b.descriptor

/-- Registries with the same types in the same order, once these are blurred. -/
theorem confuses_of_types {r r' : Registry}
    (h : r.types.map b.descriptor = r'.types.map b.descriptor) : b.Confuses r r' := by
  intro n
  have hregistry : b.registry r = b.registry r' := by simp [registry, h]
  rw [← find?_registry, ← find?_registry, hregistry]

/-! ## Failures -/

/-- A step with the name of its argument blurred. -/
def segment : Segment → Segment
  | .argument index name => .argument index (b.name name)
  | .element => .element

/-- A path with the names of arguments blurred. -/
def path (p : Path) : Path := p.map b.segment

/-- A mismatch with the shape found and the paths behind it blurred. -/
def mismatch : Mismatch → Mismatch
  | .primitive expected found widening => .primitive expected found widening
  | .shape expected found => .shape expected (b.shape found)
  | .arity target arity available => .arity target arity available
  | .noCandidate target arity tried position causePath cause =>
    .noCandidate target arity tried position (b.path causePath) (mismatch cause)
  | .unknownType target => .unknownType target
  | .noConstructors target => .noConstructors target
  | .circularType target => .circularType target

/-- A failure with its mismatch and its path blurred. -/
def failure (f : Failure) : Failure := ⟨b.mismatch f.mismatch, b.path f.path⟩

/-- A rejection with its cause blurred. It keeps its position. -/
def rejection (r : Rejection) : Rejection := ⟨r.position, b.failure r.cause⟩

theorem failure_within (s : Segment) (f : Failure) :
    b.failure (f.within s) = (b.failure f).within (b.segment s) := rfl

/-- A resolution with its constructor and its composite blurred. -/
def resolution (res : Resolution) : Resolution :=
  ⟨b.constructor res.constructor, b.composite res.signature⟩

end Blur

/-! ## Levels of a failure -/

/-- A failure and the failures behind it, from the outermost to the innermost. -/
def Failure.levels (f : Failure) : List Failure := f :: f.mismatch.causes

variable (b : Blur)

/-- A blur changes no code. -/
theorem Mismatch.code_blur (m : Mismatch) : (b.mismatch m).code = m.code := by
  cases m <;> rfl

theorem Mismatch.causes_blur (m : Mismatch) : (b.mismatch m).causes = m.causes.map b.failure := by
  induction m with
  | noCandidate target arity tried position causePath cause ih =>
      simp [Blur.mismatch, causes, ih, Blur.failure]
  | primitive | shape | arity | unknownType | noConstructors | circularType => rfl

/-- A failure is blurred at each of its levels. -/
theorem Failure.levels_blur (f : Failure) : (b.failure f).levels = f.levels.map b.failure := by
  simp [levels, Blur.failure, Mismatch.causes_blur]

/-- Whether two failures have the same code and are the same once they are blurred. -/
def Blur.Alike (f f' : Failure) : Prop :=
  f.mismatch.code = f'.mismatch.code ∧ b.failure f = b.failure f'

/-- Failures that are the same once they are blurred are alike at each level. -/
theorem Failure.levels_alike {f f' : Failure} (h : b.failure f = b.failure f') :
    List.Forall₂ b.Alike f.levels f'.levels := by
  have hlevels : f.levels.map b.failure = f'.levels.map b.failure := by
    rw [← levels_blur, ← levels_blur, h]
  rw [← List.forall₂_eq_eq_eq, List.forall₂_map_left_iff, List.forall₂_map_right_iff] at hlevels
  refine hlevels.imp fun g g' hg => ⟨?_, hg⟩
  have hcode := congrArg (fun f => f.mismatch.code) hg
  simpa [Blur.failure, Mismatch.code_blur] using hcode

/-! ## The two blurs -/

/-- A shape with every sequence taken for an array. -/
def Shape.asArrays : Shape → Shape
  | .prim k => .prim k
  | .array e | .sequence e => .array e.asArrays
  | .object n => .object n

namespace Blur

/-- Sees no name of an argument or a parameter. -/
def nameless : Blur where
  name _ := ""
  shape := id
  shape_prim _ := rfl
  shape_object _ := rfl
  element?_shape _ := by rw [Option.map_id, id, id]

/-- Sees no difference between arrays and sequences. -/
def listlike : Blur where
  name n := n
  shape := Shape.asArrays
  shape_prim _ := rfl
  shape_object _ := rfl
  element?_shape x := by cases x <;> rfl

theorem args_eq_self {b : Blur} (hname : ∀ n, b.name n = n) {as : List Arg}
    (h : ∀ a ∈ as, b.signature a.val = a.val) : b.args as = as := by
  induction as with
  | nil => rfl
  | cons a as ih =>
      rw [List.forall_mem_cons] at h
      rw [args, hname, h.1, ih h.2]

/-- A blur that leaves names alone leaves signatures alone. -/
theorem signature_eq_self {b : Blur} (hname : ∀ n, b.name n = n) (s : Signature) :
    b.signature s = s := by
  induction s with
  | prim k => rfl
  | list e ih => rw [signature, ih]
  | composite t as ih => rw [signature, args_eq_self hname ih]
  | wildcard => rfl

theorem composite_eq_self {b : Blur} (hname : ∀ n, b.name n = n) (c : Composite) :
    b.composite c = c := by
  rw [composite, args_eq_self hname fun a _ => signature_eq_self hname a.val]

theorem path_eq_self {b : Blur} (hname : ∀ n, b.name n = n) (p : Path) : b.path p = p := by
  have hsegment : ∀ s, b.segment s = s := fun s => by cases s <;> simp [segment, hname]
  exact List.map_id'' hsegment p

/-- Where names are left alone, failures that are alike have one path. -/
theorem Alike.path_eq {b : Blur} (hname : ∀ n, b.name n = n) {f f' : Failure}
    (h : b.Alike f f') : f.path = f'.path := by
  have hpath := congrArg Failure.path h.2
  simpa [failure, path_eq_self hname] using hpath

end Blur

end ShapeFit
