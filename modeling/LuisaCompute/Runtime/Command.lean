import LuisaCompute.Ast.FunctionBuilder

/-!
# Commands and fatal errors

The commands the modelled code records (a shader dispatch, built by the binder of `shader.h`, and
the acceleration-structure build and updates `Accel` returns) and `LUISA_ERROR_WITH_LOCATION`, which
logs its message and aborts, so that a call reaching it returns the message as an error. The headers
declaring the commands (`runtime/command.h`, `rtx/mesh.h`, `ast/function.h`) are not among the
sources: everything here is modelled from the spec, as far as the code writes it.
-/

namespace LuisaCompute

structure LuisaError where
  message : String
  deriving DecidableEq, Repr

/-! ### The recorded kernel -/

structure BufferBinding where
  «variable» : Variable
  handle : UInt64
  offsetBytes : Nat

structure ResourceBinding where
  «variable» : Variable
  handle : UInt64

/-- The recorded kernel a shader invocation reads: its arguments as argument creation left them, the
resources its body captured, and how the body uses each variable. -/
structure Function where
  arguments : List Variable
  capturedBuffers : List BufferBinding
  capturedTextures : List ResourceBinding
  capturedHeaps : List ResourceBinding
  capturedAccels : List ResourceBinding
  variableUsage : Nat → Usage

/-! ### Commands -/

inductive Argument
  | buffer (uid : Nat) (handle : UInt64) (offsetBytes : Nat) (usage : Usage)
  | texture (uid : Nat) (handle : UInt64) (usage : Usage)
  | uniform (uid : Nat) (data : List UInt8) (alignment : Nat)
  | heap (uid : Nat) (handle : UInt64)
  | accel (uid : Nat) (handle : UInt64)
  deriving DecidableEq, Repr

namespace Argument

def uid : Argument → Nat
  | .buffer uid .. | .texture uid .. | .uniform uid .. | .heap uid .. | .accel uid .. => uid

def tag : Argument → Variable.Tag
  | .buffer .. => .buffer
  | .texture .. => .texture
  | .uniform .. => .local
  | .heap .. => .heap
  | .accel .. => .accel

end Argument

structure ShaderDispatchCommand where
  handle : UInt64
  kernel : Function
  arguments : List Argument
  dispatchSize : UInt32 × UInt32 × UInt32

namespace ShaderDispatchCommand

/-- The spec's (4.5) most slots of one invocation, captured resources included. -/
def maxArgumentCount : Nat := 64

def create (handle : UInt64) (kernel : Function) : ShaderDispatchCommand :=
  ⟨handle, kernel, [], (0, 0, 0)⟩

/-- `encode_buffer`, `encode_texture`, `encode_uniform`, `encode_heap` and `encode_accel`. An
argument past `maxArgumentCount` is the spec's fatal error, whose message is not among the
sources: `none`. -/
def encode (command : ShaderDispatchCommand) (argument : Argument) : Option ShaderDispatchCommand :=
  if command.arguments.length < maxArgumentCount then
    some { command with arguments := command.arguments ++ [argument] }
  else none

def setDispatchSize (command : ShaderDispatchCommand) (size : UInt32 × UInt32 × UInt32) :
    ShaderDispatchCommand :=
  { command with dispatchSize := size }

theorem encode_of_lt {command : ShaderDispatchCommand} (h : command.arguments.length < maxArgumentCount)
    (argument : Argument) :
    command.encode argument = some { command with arguments := command.arguments ++ [argument] } :=
  if_pos h

theorem encode_of_le {command : ShaderDispatchCommand} (h : maxArgumentCount ≤ command.arguments.length)
    (argument : Argument) : command.encode argument = none :=
  if_neg (Nat.not_lt.2 h)

theorem foldlM_encode {command : ShaderDispatchCommand} (h : command.arguments.length ≤ maxArgumentCount)
    (arguments : List Argument) :
    arguments.foldlM encode command =
      if command.arguments.length + arguments.length ≤ maxArgumentCount then
        some { command with arguments := command.arguments ++ arguments }
      else none := by
  induction arguments generalizing command with
  | nil => simp [h]
  | cons a arguments ih =>
    by_cases hlt : command.arguments.length < maxArgumentCount
    · have hnext : (command.arguments ++ [a]).length ≤ maxArgumentCount := by simpa using hlt
      simp only [List.foldlM_cons, encode_of_lt hlt, Option.bind_eq_bind, Option.some_bind]
      rw [ih hnext]
      simp [Nat.add_assoc, Nat.add_comm 1]
    · simp only [List.foldlM_cons, encode_of_le (Nat.not_lt.1 hlt), Option.bind_eq_bind,
        Option.none_bind, List.length_cons]
      rw [if_neg (by omega)]

@[simp] theorem setDispatchSize_arguments (command : ShaderDispatchCommand)
    (size : UInt32 × UInt32 × UInt32) : (command.setDispatchSize size).arguments = command.arguments :=
  rfl

end ShaderDispatchCommand

inductive AccelBuildHint
  | fastTrace
  | fastUpdate
  | fastRebuild
  deriving DecidableEq, Repr

structure Float4 where
  x : Float
  y : Float
  z : Float
  w : Float

structure Float4x4 where
  cols : Float4 × Float4 × Float4 × Float4

inductive Command
  | shaderDispatch (command : ShaderDispatchCommand)
  | accelBuild (handle : UInt64) (hint : AccelBuildHint) (meshHandles : List UInt64)
      (transforms : List Float4x4)
  | accelUpdate (handle : UInt64)
  | accelUpdateRange (handle : UInt64) (transforms : List Float4x4) (first : Nat)

end LuisaCompute
