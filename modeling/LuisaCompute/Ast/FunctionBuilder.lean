import LuisaCompute.Ast.Type

/-!
# The arguments of a kernel or a callable

`Kernel`'s and `Callable`'s constructors run the definition on a tuple of
`Var<Arg>{ArgumentCreation{}}...` built left to right, and each of those constructors appends its
prototype's argument variables to the current function builder: one `buffer()` for a buffer or a
buffer view, a `texture()` then a `uint2` (`uint3`) `argument()` for an image (volume) or its view,
one `heap()`, one `accel()`, one `argument(Type::of<T>())` for any other `T`. The builder is not among
the sources; what argument creation needs of it (ids in declaration order, one appended variable per
creation) is modelled from the spec. `Prototype.parameters` is the layout both call sites are checked
against: the shader binder and the callable invocation.
-/

namespace LuisaCompute

namespace Variable

inductive Tag
  | «local»
  | shared
  | buffer
  | texture
  | heap
  | accel
  | threadId
  | blockId
  | dispatchId
  | dispatchSize
  deriving DecidableEq, Repr

end Variable

structure Variable where
  type : Shape
  tag : Variable.Tag
  uid : Nat

/-- Modelled from the spec: `Usage` (`ast/usage.h`) is not in `src/`; the spec names the access
modes the binder records. -/
inductive Usage
  | none
  | read
  | write
  | readWrite
  deriving DecidableEq, Repr

/-- Modelled from the spec: `detail::FunctionBuilder` is not in `src/`. The part argument creation
touches: the arguments in declaration order, the count of variables declared so far (the next id),
and the block size a kernel sets before its arguments are created. -/
structure FunctionBuilder where
  arguments : List Variable
  variableCount : Nat
  blockSize : Nat × Nat × Nat

namespace FunctionBuilder

def empty : FunctionBuilder := ⟨[], 0, (1, 1, 1)⟩

def declare (fb : FunctionBuilder) (tag : Variable.Tag) (type : Shape) : FunctionBuilder :=
  { fb with
    arguments := fb.arguments ++ [⟨type, tag, fb.variableCount⟩]
    variableCount := fb.variableCount + 1 }

def argument (fb : FunctionBuilder) (type : Shape) : FunctionBuilder := fb.declare .local type

def buffer (fb : FunctionBuilder) (type : Shape) : FunctionBuilder := fb.declare .buffer type

def texture (fb : FunctionBuilder) (type : Shape) : FunctionBuilder := fb.declare .texture type

def heap (fb : FunctionBuilder) : FunctionBuilder := fb.declare .heap .heap

def accel (fb : FunctionBuilder) : FunctionBuilder := fb.declare .accel .accel

def setBlockSize (fb : FunctionBuilder) (size : Nat × Nat × Nat) : FunctionBuilder :=
  { fb with blockSize := size }

@[simp] theorem declare_arguments (fb : FunctionBuilder) (tag : Variable.Tag) (type : Shape) :
    (fb.declare tag type).arguments = fb.arguments ++ [⟨type, tag, fb.variableCount⟩] := rfl

@[simp] theorem declare_variableCount (fb : FunctionBuilder) (tag : Variable.Tag) (type : Shape) :
    (fb.declare tag type).variableCount = fb.variableCount + 1 := rfl

@[simp] theorem setBlockSize_arguments (fb : FunctionBuilder) (size : Nat × Nat × Nat) :
    (fb.setBlockSize size).arguments = fb.arguments := rfl

@[simp] theorem setBlockSize_variableCount (fb : FunctionBuilder) (size : Nat × Nat × Nat) :
    (fb.setBlockSize size).variableCount = fb.variableCount := rfl

end FunctionBuilder

/-- The types a kernel's or a callable's signature names. `value` is the primary template `Var<T>`:
every `T` without a specialization of its own. -/
inductive Prototype
  | buffer (element : Shape)
  | bufferView (element : Shape)
  | image (element : Shape)
  | imageView (element : Shape)
  | volume (element : Shape)
  | volumeView (element : Shape)
  | heap
  | accel
  | value (type : Shape)

namespace Prototype

/-- `Type::of<T>()` of the prototype, a view having the type of its resource. -/
def type : Prototype → Shape
  | .buffer t | .bufferView t => .buffer t
  | .image t | .imageView t => .image t
  | .volume t | .volumeView t => .volume t
  | .heap => .heap
  | .accel => .accel
  | .value t => t

/-- The argument variables, role and type, that a prototype adds to a function's arguments. -/
def parameters : Prototype → List (Variable.Tag × Shape)
  | .buffer t | .bufferView t => [(.buffer, .buffer t)]
  | .image t | .imageView t => [(.texture, .image t), (.local, Shape.uint2)]
  | .volume t | .volumeView t => [(.texture, .volume t), (.local, Shape.uint3)]
  | .heap => [(.heap, .heap)]
  | .accel => [(.accel, .accel)]
  | .value t => [(.local, t)]

end Prototype

/-- `Var<T>(detail::ArgumentCreation)`, one case per specialization (`Accel`'s is in `rtx/accel.h`).
The `BufferView`, `ImageView` and `VolumeView` specializations call `detail::FunctionBuilder::buffer`
and `texture` without `current()->`; they are read as the `current()->` calls of the others. -/
def Var.create : Prototype → FunctionBuilder → FunctionBuilder
  | .buffer t, fb | .bufferView t, fb => fb.buffer (.buffer t)
  | .image t, fb | .imageView t, fb => (fb.texture (.image t)).argument Shape.uint2
  | .volume t, fb | .volumeView t, fb => (fb.texture (.volume t)).argument Shape.uint3
  | .heap, fb => fb.heap
  | .accel, fb => fb.accel
  | .value t, fb => fb.argument t

def defineArguments (ps : List Prototype) (fb : FunctionBuilder) : FunctionBuilder :=
  ps.foldl (fun fb p => Var.create p fb) fb

def kernelDefaultBlockSize : Nat → Nat × Nat × Nat
  | 1 => (256, 1, 1)
  | 2 => (16, 16, 1)
  | _ => (8, 8, 8)

/-- The arguments `Kernel<N, Args...>`'s constructor records: the block size is set, then the
arguments are created. -/
def Kernel.define (dimension : Nat) (ps : List Prototype) : FunctionBuilder :=
  defineArguments ps (FunctionBuilder.empty.setBlockSize (kernelDefaultBlockSize dimension))

def Callable.define (ps : List Prototype) : FunctionBuilder := defineArguments ps FunctionBuilder.empty

/-! ### What argument creation appends -/

def Variable.signature (v : Variable) : Variable.Tag × Shape := (v.tag, v.type)

def freshVariables : Nat → List (Variable.Tag × Shape) → List Variable
  | _, [] => []
  | start, (tag, type) :: params => ⟨type, tag, start⟩ :: freshVariables (start + 1) params

theorem create_arguments (p : Prototype) (fb : FunctionBuilder) :
    (Var.create p fb).arguments = fb.arguments ++ freshVariables fb.variableCount p.parameters ∧
      (Var.create p fb).variableCount = fb.variableCount + p.parameters.length := by
  cases p <;> simp [Var.create, Prototype.parameters, freshVariables, FunctionBuilder.argument,
    FunctionBuilder.buffer, FunctionBuilder.texture, FunctionBuilder.heap, FunctionBuilder.accel]

theorem freshVariables_append (start : Nat) (xs ys : List (Variable.Tag × Shape)) :
    freshVariables start (xs ++ ys) = freshVariables start xs ++ freshVariables (start + xs.length) ys := by
  induction xs generalizing start with
  | nil => rfl
  | cons x xs ih =>
    obtain ⟨tag, type⟩ := x
    rw [List.cons_append, freshVariables, freshVariables, ih, List.cons_append, List.length_cons,
      Nat.add_right_comm, Nat.add_assoc]

theorem defineArguments_arguments (ps : List Prototype) (fb : FunctionBuilder) :
    (defineArguments ps fb).arguments =
        fb.arguments ++ freshVariables fb.variableCount (ps.flatMap Prototype.parameters) ∧
      (defineArguments ps fb).variableCount =
        fb.variableCount + (ps.flatMap Prototype.parameters).length := by
  induction ps generalizing fb with
  | nil => simp [defineArguments, freshVariables]
  | cons p ps ih =>
    obtain ⟨harguments, hcount⟩ := create_arguments p fb
    obtain ⟨iharguments, ihcount⟩ := ih (Var.create p fb)
    simp only [defineArguments, List.foldl_cons] at iharguments ihcount ⊢
    rw [iharguments, ihcount, harguments, hcount, List.flatMap_cons, freshVariables_append,
      List.append_assoc, List.length_append]
    exact ⟨rfl, by omega⟩

theorem signature_freshVariables (start : Nat) (params : List (Variable.Tag × Shape)) :
    (freshVariables start params).map Variable.signature = params := by
  induction params generalizing start with
  | nil => rfl
  | cons param params ih => simp [freshVariables, Variable.signature, ih]

end LuisaCompute
