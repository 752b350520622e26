import LuisaCompute.Rtx.Accel
import Mathlib.Data.List.Forall2

/-!
# Binding a shader's arguments

`Shader<N, Args...>::operator()(args...)` builds a `ShaderInvoke`: its constructor encodes the
resources the kernel body captured, then the left fold `(invoke << ... << args)` binds the call's
arguments, each `operator<<` reading `_kernel.arguments()[_argument_index++]` and encoding under that
variable's id (an image or volume view encodes its texture, then recurses on its offset). Nothing in
the binder checks the cursor, so the definition side (`Var<T>(ArgumentCreation)`) and the binding side
must count the same slots for each prototype; the spec makes a 65th slot of an invocation a fatal
error, which the model places in the command's `encode`. `shader_binds_kernel_arguments` gives every
call's outcome: within 64 slots the cursor ends at the last argument and each argument is bound by an
encode of its own kind under its own id; past them, the fatal error. A read past the argument list,
undefined behaviour in the code, is `outOfRange` and never happens.
-/

namespace LuisaCompute

structure Value (type : Shape) where
  bytes : List UInt8
  alignment : Nat

structure BufferView (element : Shape) where
  handle : UInt64
  offsetBytes : Nat

structure ImageView (element : Shape) where
  handle : UInt64
  offset : Value Shape.uint2

structure VolumeView (element : Shape) where
  handle : UInt64
  offset : Value Shape.uint3

structure Heap where
  handle : UInt64

/-- `detail::prototype_to_shader_invocation_t`: what a shader is called with for each prototype. -/
def ShaderArgument : Prototype → Type
  | .buffer t | .bufferView t => BufferView t
  | .image t | .imageView t => ImageView t
  | .volume t | .volumeView t => VolumeView t
  | .heap => Heap
  | .accel => Accel
  | .value t => Value t

inductive ShaderArguments : List Prototype → Type
  | nil : ShaderArguments []
  | cons {p : Prototype} {ps : List Prototype} :
      ShaderArgument p → ShaderArguments ps → ShaderArguments (p :: ps)

/-- The encodes the constructor of `ShaderInvokeBase` makes for the captured resources, in its
order: buffers, textures, heaps, acceleration structures. -/
def capturedArguments (kernel : Function) : List Argument :=
  kernel.capturedBuffers.map (fun b =>
      .buffer b.variable.uid b.handle b.offsetBytes (kernel.variableUsage b.variable.uid)) ++
    kernel.capturedTextures.map (fun t =>
      .texture t.variable.uid t.handle (kernel.variableUsage t.variable.uid)) ++
    kernel.capturedHeaps.map (fun h => .heap h.variable.uid h.handle) ++
    kernel.capturedAccels.map (fun a => .accel a.variable.uid a.handle)

/-- How a call stops: an encode past the command's capacity, the spec's fatal error, or a read past
the kernel's arguments. -/
inductive BindError
  | tooManyArguments
  | outOfRange
  deriving DecidableEq, Repr

structure ShaderInvokeBase where
  command : ShaderDispatchCommand
  kernel : Function
  argumentIndex : Nat

namespace ShaderInvokeBase

def create (handle : UInt64) (kernel : Function) : Except BindError ShaderInvokeBase :=
  match (capturedArguments kernel).foldlM ShaderDispatchCommand.encode
      (ShaderDispatchCommand.create handle kernel) with
  | some command => .ok ⟨command, kernel, 0⟩
  | none => .error .tooManyArguments

/-- `_kernel.arguments()[_argument_index++].uid()` and the encode an overload makes under it. -/
def bind (s : ShaderInvokeBase) (encode : Nat → Argument) : Except BindError ShaderInvokeBase :=
  match s.kernel.arguments[s.argumentIndex]? with
  | none => .error .outOfRange
  | some v =>
    match s.command.encode (encode v.uid) with
    | some command => .ok { s with command := command, argumentIndex := s.argumentIndex + 1 }
    | none => .error .tooManyArguments

section Overloads

variable (s : ShaderInvokeBase) {t : Shape}

def pushBuffer (buffer : BufferView t) : Except BindError ShaderInvokeBase :=
  s.bind fun uid => .buffer uid buffer.handle buffer.offsetBytes (s.kernel.variableUsage uid)

def pushData (data : Value t) : Except BindError ShaderInvokeBase :=
  s.bind fun uid => .uniform uid data.bytes data.alignment

/-- The body `operator<<(ImageView<T>)` and `operator<<(VolumeView<T>)` share: the texture, then
`*this << offset`. -/
def pushTexture (handle : UInt64) (offset : Value t) : Except BindError ShaderInvokeBase :=
  (s.bind fun uid => .texture uid handle (s.kernel.variableUsage uid)).bind fun s => s.pushData offset

def pushImage (image : ImageView t) : Except BindError ShaderInvokeBase :=
  s.pushTexture image.handle image.offset

def pushVolume (volume : VolumeView t) : Except BindError ShaderInvokeBase :=
  s.pushTexture volume.handle volume.offset

def pushHeap (heap : Heap) : Except BindError ShaderInvokeBase := s.bind fun uid => .heap uid heap.handle

def pushAccel (accel : Accel) : Except BindError ShaderInvokeBase :=
  s.bind fun uid => .accel uid accel.handle

end Overloads

def push (s : ShaderInvokeBase) : (p : Prototype) → ShaderArgument p → Except BindError ShaderInvokeBase
  | .buffer _, b | .bufferView _, b => s.pushBuffer b
  | .image _, i | .imageView _, i => s.pushImage i
  | .volume _, v | .volumeView _, v => s.pushVolume v
  | .heap, h => s.pushHeap h
  | .accel, a => s.pushAccel a
  | .value _, d => s.pushData d

def pushAll (s : ShaderInvokeBase) :
    {ps : List Prototype} → ShaderArguments ps → Except BindError ShaderInvokeBase
  | _, .nil => .ok s
  | _, .cons a args => (s.push _ a).bind fun s => s.pushAll args

def parallelize (s : ShaderInvokeBase) (size : UInt32 × UInt32 × UInt32) : Command :=
  .shaderDispatch (s.command.setDispatchSize size)

end ShaderInvokeBase

def ShaderInvokeBase.dispatch1 (s : ShaderInvokeBase) (x : UInt32) : Command := s.parallelize (x, 1, 1)

def ShaderInvokeBase.dispatch2 (s : ShaderInvokeBase) (x y : UInt32) : Command := s.parallelize (x, y, 1)

def ShaderInvokeBase.dispatch3 (s : ShaderInvokeBase) (x y z : UInt32) : Command :=
  s.parallelize (x, y, z)

/-- The kernel a `Kernel<N, Args...>` records: the arguments its constructor creates, and whatever
else the body records (captured resources, usages). -/
def Kernel.function (dimension : Nat) (ps : List Prototype) (body : Function) : Function :=
  { body with arguments := (Kernel.define dimension ps).arguments }

structure Shader where
  handle : UInt64
  kernel : Function

def Shader.call {ps : List Prototype} (shader : Shader) (args : ShaderArguments ps) :
    Except BindError ShaderInvokeBase :=
  (ShaderInvokeBase.create shader.handle shader.kernel).bind fun s => s.pushAll args

/-! ### Advancing the cursor -/

/-- An encoded argument is of the kind its variable was declared for, under the variable's id. -/
def Binds (v : Variable) (a : Argument) : Prop := a.uid = v.uid ∧ a.tag = v.tag

namespace ShaderInvokeBase

def remaining (s : ShaderInvokeBase) : List Variable := s.kernel.arguments.drop s.argumentIndex

/-- `s'` is `s` with the cursor moved over `vs`, each of them bound by one encoded argument. -/
def Advances (s : ShaderInvokeBase) (vs : List Variable) (s' : ShaderInvokeBase) : Prop :=
  s'.kernel = s.kernel ∧ s'.argumentIndex = s.argumentIndex + vs.length ∧
    ∃ bs, s'.command.arguments = s.command.arguments ++ bs ∧ List.Forall₂ Binds vs bs

theorem Advances.nil (s : ShaderInvokeBase) : Advances s [] s :=
  ⟨rfl, rfl, [], (List.append_nil _).symm, .nil⟩

theorem Advances.trans {s₁ s₂ s₃ : ShaderInvokeBase} {vs ws : List Variable}
    (h₁ : Advances s₁ vs s₂) (h₂ : Advances s₂ ws s₃) : Advances s₁ (vs ++ ws) s₃ := by
  obtain ⟨hkernel₁, hindex₁, bs, hargs₁, hbinds₁⟩ := h₁
  obtain ⟨hkernel₂, hindex₂, cs, hargs₂, hbinds₂⟩ := h₂
  refine ⟨hkernel₂.trans hkernel₁, ?_, bs ++ cs, ?_, List.rel_append hbinds₁ hbinds₂⟩
  · rw [hindex₂, hindex₁, List.length_append, Nat.add_assoc]
  · rw [hargs₂, hargs₁, List.append_assoc]

theorem Advances.remaining {s s' : ShaderInvokeBase} {vs rest : List Variable}
    (h : Advances s vs s') (hs : s.remaining = vs ++ rest) : s'.remaining = rest := by
  rw [ShaderInvokeBase.remaining, h.1, h.2.1, ← List.drop_drop, ← ShaderInvokeBase.remaining, hs,
    List.drop_left]

theorem Advances.length_arguments {s s' : ShaderInvokeBase} {vs : List Variable} (h : Advances s vs s') :
    s'.command.arguments.length = s.command.arguments.length + vs.length := by
  obtain ⟨-, -, bs, hargs, hbinds⟩ := h
  rw [hargs, List.length_append, hbinds.length_eq]

/-- What binding `vs` from `s` ends in: all of them if the command has room, and otherwise the
fatal error. -/
def BindsAll (s : ShaderInvokeBase) (vs : List Variable) (r : Except BindError ShaderInvokeBase) : Prop :=
  if s.command.arguments.length + vs.length ≤ ShaderDispatchCommand.maxArgumentCount then
    ∃ s', r = .ok s' ∧ Advances s vs s'
  else r = .error .tooManyArguments

theorem BindsAll.nil {s : ShaderInvokeBase}
    (h : s.command.arguments.length ≤ ShaderDispatchCommand.maxArgumentCount) : BindsAll s [] (.ok s) := by
  rw [BindsAll, List.length_nil, Nat.add_zero, if_pos h]
  exact ⟨s, rfl, Advances.nil s⟩

theorem BindsAll.bind {s : ShaderInvokeBase} {vs ws : List Variable} {r : Except BindError ShaderInvokeBase}
    {f : ShaderInvokeBase → Except BindError ShaderInvokeBase} (h : BindsAll s vs r)
    (hf : ∀ s', Advances s vs s' → s'.command.arguments.length ≤ ShaderDispatchCommand.maxArgumentCount →
      BindsAll s' ws (f s')) :
    BindsAll s (vs ++ ws) (r.bind f) := by
  rw [BindsAll] at h
  split at h <;> rename_i hroom
  · obtain ⟨s', rfl, hadv⟩ := h
    have hf' := hf s' hadv (hadv.length_arguments ▸ hroom)
    rw [BindsAll, hadv.length_arguments, Nat.add_assoc, ← List.length_append] at hf'
    rw [BindsAll]
    split at hf' <;> rename_i hroom'
    · obtain ⟨s'', hs'', hadv'⟩ := hf'
      rw [if_pos hroom']
      exact ⟨s'', hs'', hadv.trans hadv'⟩
    · rwa [if_neg hroom']
  · rw [h, BindsAll, if_neg (by rw [List.length_append]; omega)]
    rfl

theorem bind_bindsAll {s : ShaderInvokeBase} {v : Variable} {rest : List Variable}
    (hs : s.remaining = v :: rest) (encode : Nat → Argument) (hencode : Binds v (encode v.uid)) :
    BindsAll s [v] (s.bind encode) := by
  have hv : s.kernel.arguments[s.argumentIndex]? = some v := by
    rw [← List.head?_drop, ← ShaderInvokeBase.remaining, hs, List.head?_cons]
  rw [BindsAll, List.length_singleton]
  split <;> rename_i hroom
  · simp only [bind, hv, ShaderDispatchCommand.encode_of_lt (Nat.lt_of_succ_le hroom)]
    exact ⟨_, rfl, rfl, rfl, [encode v.uid], rfl, .cons hencode .nil⟩
  · simp only [bind, hv, ShaderDispatchCommand.encode_of_le (by omega : _ ≤ s.command.arguments.length)]

theorem pushTexture_bindsAll {s : ShaderInvokeBase} {v₁ v₂ : Variable} {rest : List Variable}
    {t : Shape} (hs : s.remaining = v₁ :: v₂ :: rest) (handle : UInt64) (offset : Value t)
    (h₁ : v₁.tag = .texture) (h₂ : v₂.tag = .local) :
    BindsAll s [v₁, v₂] (s.pushTexture handle offset) :=
  (bind_bindsAll hs _ (by exact ⟨rfl, h₁.symm⟩)).bind fun _ hadv _ =>
    bind_bindsAll (hadv.remaining (show s.remaining = [v₁] ++ v₂ :: rest from hs)) _ (by exact ⟨rfl, h₂.symm⟩)

theorem push_bindsAll (s : ShaderInvokeBase) (p : Prototype) (a : ShaderArgument p) (n : Nat)
    {rest : List Variable} (hs : s.remaining = freshVariables n p.parameters ++ rest) :
    BindsAll s (freshVariables n p.parameters) (s.push p a) := by
  cases p with
  | buffer | bufferView | heap | accel | value =>
    simp only [push, pushBuffer, pushHeap, pushAccel, pushData]
    refine bind_bindsAll hs _ ?_
    exact ⟨rfl, rfl⟩
  | image | imageView | volume | volumeView => exact pushTexture_bindsAll hs _ _ rfl rfl

theorem pushAll_bindsAll (s : ShaderInvokeBase) {ps : List Prototype} (args : ShaderArguments ps)
    (n : Nat) {rest : List Variable}
    (hcap : s.command.arguments.length ≤ ShaderDispatchCommand.maxArgumentCount)
    (hs : s.remaining = freshVariables n (ps.flatMap Prototype.parameters) ++ rest) :
    BindsAll s (freshVariables n (ps.flatMap Prototype.parameters)) (s.pushAll args) := by
  induction args generalizing s n with
  | nil => exact BindsAll.nil hcap
  | @cons p ps a args ih =>
    rw [List.flatMap_cons, freshVariables_append] at hs ⊢
    rw [List.append_assoc] at hs
    exact (push_bindsAll s p a n hs).bind fun s' hadv hcap' => ih s' _ hcap' (hadv.remaining hs)

theorem create_eq (handle : UInt64) (kernel : Function) :
    create handle kernel =
      if (capturedArguments kernel).length ≤ ShaderDispatchCommand.maxArgumentCount then
        .ok ⟨{ ShaderDispatchCommand.create handle kernel with arguments := capturedArguments kernel },
          kernel, 0⟩
      else .error .tooManyArguments := by
  rw [create, ShaderDispatchCommand.foldlM_encode (Nat.zero_le _)]
  by_cases h : (capturedArguments kernel).length ≤ ShaderDispatchCommand.maxArgumentCount
  · rw [if_pos (by simpa [ShaderDispatchCommand.create] using h), if_pos h]
    rfl
  · rw [if_neg (by simpa [ShaderDispatchCommand.create] using h), if_neg h]

end ShaderInvokeBase

theorem kernel_arguments (dimension : Nat) (ps : List Prototype) (body : Function) :
    (Kernel.function dimension ps body).arguments = freshVariables 0 (ps.flatMap Prototype.parameters) := by
  simpa [Kernel.function, Kernel.define, FunctionBuilder.empty] using
    (defineArguments_arguments ps (FunctionBuilder.empty.setBlockSize (kernelDefaultBlockSize dimension))).1

/-- For every kernel signature, every body and every call: if the captured resources and the
arguments fit in the invocation's 64 slots, the binder reads each of the kernel's arguments once, in
order, never past the last, ends with the cursor at the argument count, and after the captured
resources encodes one argument per kernel argument, under its id and of the kind its
`Var<T>(ArgumentCreation)` declared it; otherwise the call ends in the fatal error. -/
theorem shader_binds_kernel_arguments (dimension : Nat) (ps : List Prototype) (body : Function)
    (handle : UInt64) (args : ShaderArguments ps) :
    let kernel := Kernel.function dimension ps body
    if (capturedArguments kernel).length + kernel.arguments.length ≤ ShaderDispatchCommand.maxArgumentCount then
      ∃ s, (Shader.mk handle kernel).call args = .ok s ∧ s.argumentIndex = kernel.arguments.length ∧
        ∃ explicit, s.command.arguments = capturedArguments kernel ++ explicit ∧
          List.Forall₂ Binds kernel.arguments explicit
    else (Shader.mk handle kernel).call args = .error .tooManyArguments := by
  intro kernel
  have hkernel : kernel.arguments = freshVariables 0 (ps.flatMap Prototype.parameters) :=
    kernel_arguments dimension ps body
  rw [Shader.call, ShaderInvokeBase.create_eq]
  by_cases hcap : (capturedArguments kernel).length ≤ ShaderDispatchCommand.maxArgumentCount
  · rw [if_pos hcap]
    have h := @ShaderInvokeBase.pushAll_bindsAll
      ⟨{ ShaderDispatchCommand.create handle kernel with arguments := capturedArguments kernel }, kernel, 0⟩
      ps args 0 [] hcap (by rw [List.append_nil, ← hkernel]; rfl)
    rw [ShaderInvokeBase.BindsAll, ← hkernel] at h
    split at h <;> rename_i hroom
    · obtain ⟨s, hcall, -, hindex, explicit, hargs, hbinds⟩ := h
      rw [if_pos hroom]
      exact ⟨s, hcall, hindex.trans (Nat.zero_add _), explicit, hargs, hkernel ▸ hbinds⟩
    · rwa [if_neg hroom]
  · rw [if_neg hcap, if_neg (by omega)]
    rfl

def uintArguments : (n : Nat) → ShaderArguments (List.replicate n (.value (.scalar .uint)))
  | 0 => .nil
  | n + 1 => .cons (p := .value (.scalar .uint)) (⟨[0, 0, 0, 0], 4⟩ : Value (.scalar .uint)) (uintArguments n)

/-- A kernel of 65 `uint` parameters that captures nothing: its call ends in the fatal error
instead of reaching the 65th argument. -/
theorem shader_call_65_uints_aborts :
    (Kernel.function 1 (List.replicate 65 (.value (.scalar .uint))) ⟨[], [], [], [], [], fun _ => .read⟩).arguments.length = 65 ∧
      (Shader.mk 0 (Kernel.function 1 (List.replicate 65 (.value (.scalar .uint)))
        ⟨[], [], [], [], [], fun _ => .read⟩)).call (uintArguments 65) = .error .tooManyArguments :=
  ⟨rfl, rfl⟩

/-- The spec's dispatch: `kernel(float_buffer, 12u).dispatch(1024u)` for a kernel of signature
`(Buffer<float>, uint)` whose body captures nothing binds two arguments and dispatches `(1024, 1, 1)`. -/
example : ((Shader.mk 1 (Kernel.function 1 [.buffer (.scalar .float), .value (.scalar .uint)]
      ⟨[], [], [], [], [], fun _ => .read⟩)).call
      (.cons (p := .buffer (.scalar .float)) (⟨7, 0⟩ : BufferView (.scalar .float))
        (.cons (p := .value (.scalar .uint)) (⟨[12, 0, 0, 0], 4⟩ : Value (.scalar .uint)) .nil))).map
      (fun s => ((s.command.setDispatchSize (1024, 1, 1)).dispatchSize, s.command.arguments)) =
    .ok ((1024, 1, 1), [.buffer 0 7 0 .read, .uniform 1 [12, 0, 0, 0] 4]) := rfl

end LuisaCompute
