import LuisaCompute.Runtime.Command
import Mathlib.Data.List.Forall2

/-!
# Invoking a callable

`Callable<Ret(Args...)>::operator()(args...)` folds its `Expr<Arg>` arguments into an `Invoke`, a
fixed array of 64 expression pointers and a count, and hands the filled prefix to
`FunctionBuilder::call`. An image or a volume takes two slots (its expression, then its offset or a
zero literal), matching the `texture()` and offset `argument()` its `Var` declared; any other argument
takes one. The one-slot overload errors when the count is 64, the two-slot overloads when it is 63, so
an image after 64 filled slots stores past the end of the array. The sections prove, in turn, that
every call within 64 slots passes what the definition declared, that missed guard, and every call's
outcome in closed form. A call site's `Expr<T>` carries the DSL's typing: its expression has type
`Type::of<T>()`, its offset the offset's type.
-/

namespace LuisaCompute

/-- An AST expression as an invocation stores it (`const Expression *`): a node the caller built,
known by its address, or the zero literal `detail::extract_expression(uint2(0u))` (or `uint3(0u)`)
makes for an image or a volume that has no offset. -/
inductive Expression
  | node (address : Nat) (type : Shape)
  | zero (type : Shape)

def Expression.type : Expression → Shape
  | .node _ t | .zero t => t

namespace Prototype

def isImageOrView : Prototype → Bool
  | .image _ | .imageView _ => true
  | _ => false

def isVolumeOrView : Prototype → Bool
  | .volume _ | .volumeView _ => true
  | _ => false

def offsetType : Prototype → Option Shape
  | .image _ | .imageView _ => some Shape.uint2
  | .volume _ | .volumeView _ => some Shape.uint3
  | _ => none

def slotCount (p : Prototype) : Nat := if p.isImageOrView || p.isVolumeOrView then 2 else 1

end Prototype

structure Expr (p : Prototype) where
  expression : Expression
  offset : Option Expression
  expression_type : expression.type = p.type
  offset_type : ∀ e ∈ offset, some e.type = p.offsetType

inductive CallableArguments : List Prototype → Type
  | nil : CallableArguments []
  | cons {p : Prototype} {ps : List Prototype} : Expr p → CallableArguments ps → CallableArguments (p :: ps)

def maxArgumentCount : Nat := 64

def tooManyArguments : LuisaError := ⟨"Too many arguments for callable."⟩

/-- What stops an invocation: the reported error, or a store past the end of `_args`, which the code
makes without noticing. -/
inductive InvokeError
  | error (e : LuisaError)
  | outOfBounds (index : Nat)
  deriving DecidableEq, Repr

/-- `Callable::Invoke`: the filled prefix `_args[0, _arg_count)` of the 64-entry array. -/
structure Invoke where
  args : List Expression
  arg_count_le : args.length ≤ maxArgumentCount

namespace Invoke

def empty : Invoke := ⟨[], Nat.zero_le _⟩

def store (invoke : Invoke) (e : Expression) : Except InvokeError Invoke :=
  if h : invoke.args.length < maxArgumentCount then
    .ok ⟨invoke.args ++ [e], by rw [List.length_append, List.length_singleton]; omega⟩
  else .error (.outOfBounds invoke.args.length)

def pushOne (invoke : Invoke) (e : Expression) : Except InvokeError Invoke :=
  if invoke.args.length = maxArgumentCount then .error (.error tooManyArguments)
  else invoke.store e

/-- The image and the volume overloads, which differ only in the literal they pass for a missing
offset. -/
def pushTwo (invoke : Invoke) (e offset : Expression) : Except InvokeError Invoke :=
  if invoke.args.length = maxArgumentCount - 1 then .error (.error tooManyArguments)
  else (invoke.store e).bind fun invoke => invoke.store offset

def push (invoke : Invoke) : (p : Prototype) → Expr p → Except InvokeError Invoke
  | .image _, a | .imageView _, a => invoke.pushTwo a.expression (a.offset.getD (.zero Shape.uint2))
  | .volume _, a | .volumeView _, a => invoke.pushTwo a.expression (a.offset.getD (.zero Shape.uint3))
  | .buffer _, a | .bufferView _, a | .heap, a | .accel, a | .value _, a => invoke.pushOne a.expression

def pushAll (invoke : Invoke) : {ps : List Prototype} → CallableArguments ps → Except InvokeError Invoke
  | _, .nil => .ok invoke
  | _, .cons a args => (invoke.push _ a).bind fun invoke => invoke.pushAll args

end Invoke

/-- `Callable::operator()(args...)`: the span `invoke.args()` it passes to `FunctionBuilder::call`. -/
def Callable.call {ps : List Prototype} (args : CallableArguments ps) : Except InvokeError (List Expression) :=
  Invoke.args <$> Invoke.empty.pushAll args

/-! ### Arguments that fit -/

def uintArgument (address : Nat) : Expr (.value (.scalar .uint)) :=
  ⟨.node address (.scalar .uint), none, rfl, by simp⟩

def imageArgument (address : Nat) : Expr (.image (.scalar .float)) :=
  ⟨.node address (.image (.scalar .float)), none, rfl, by simp⟩

def Expr.slots : (p : Prototype) → Expr p → List Expression
  | .image _, a | .imageView _, a => [a.expression, a.offset.getD (.zero Shape.uint2)]
  | .volume _, a | .volumeView _, a => [a.expression, a.offset.getD (.zero Shape.uint3)]
  | .buffer _, a | .bufferView _, a | .heap, a | .accel, a | .value _, a => [a.expression]

def CallableArguments.slots : {ps : List Prototype} → CallableArguments ps → List Expression
  | _, .nil => []
  | _, .cons a args => Expr.slots _ a ++ args.slots

theorem Expr.slots_length (p : Prototype) (a : Expr p) : (Expr.slots p a).length = p.slotCount := by
  cases p <;> rfl

namespace Invoke

theorem store_ok (invoke : Invoke) (e : Expression) (h : invoke.args.length < maxArgumentCount) :
    ∃ invoke', invoke.store e = .ok invoke' ∧ invoke'.args = invoke.args ++ [e] :=
  ⟨_, dif_pos h, rfl⟩

theorem pushOne_ok (invoke : Invoke) (e : Expression) (h : invoke.args.length + 1 ≤ maxArgumentCount) :
    ∃ invoke', invoke.pushOne e = .ok invoke' ∧ invoke'.args = invoke.args ++ [e] := by
  rw [pushOne, if_neg (by omega)]
  exact invoke.store_ok e (by omega)

theorem pushTwo_ok (invoke : Invoke) (e offset : Expression)
    (h : invoke.args.length + 2 ≤ maxArgumentCount) :
    ∃ invoke', invoke.pushTwo e offset = .ok invoke' ∧ invoke'.args = invoke.args ++ [e, offset] := by
  obtain ⟨invoke₁, hstore₁, hargs₁⟩ := invoke.store_ok e (by omega)
  obtain ⟨invoke₂, hstore₂, hargs₂⟩ := invoke₁.store_ok offset (by rw [hargs₁]; simp; omega)
  refine ⟨invoke₂, ?_, by rw [hargs₂, hargs₁, List.append_assoc, List.singleton_append]⟩
  rw [pushTwo, if_neg (by unfold maxArgumentCount at h ⊢; omega), hstore₁]
  exact hstore₂

theorem push_ok (invoke : Invoke) (p : Prototype) (a : Expr p)
    (h : invoke.args.length + p.slotCount ≤ maxArgumentCount) :
    ∃ invoke', invoke.push p a = .ok invoke' ∧ invoke'.args = invoke.args ++ Expr.slots p a := by
  cases p with
  | image | imageView | volume | volumeView => exact invoke.pushTwo_ok _ _ h
  | buffer | bufferView | heap | accel | value => exact invoke.pushOne_ok _ h

theorem pushAll_ok (invoke : Invoke) {ps : List Prototype} (args : CallableArguments ps)
    (h : invoke.args.length + (ps.map Prototype.slotCount).sum ≤ maxArgumentCount) :
    ∃ invoke', invoke.pushAll args = .ok invoke' ∧ invoke'.args = invoke.args ++ args.slots := by
  induction args generalizing invoke with
  | nil => exact ⟨invoke, rfl, (List.append_nil _).symm⟩
  | @cons p ps a args ih =>
    rw [List.map_cons, List.sum_cons] at h
    obtain ⟨invoke₁, hpush, hargs₁⟩ := invoke.push_ok p a (by omega)
    obtain ⟨invoke₂, hall, hargs₂⟩ :=
      ih invoke₁ (by rw [hargs₁, List.length_append, Expr.slots_length]; omega)
    refine ⟨invoke₂, by rw [pushAll, hpush]; exact hall, ?_⟩
    rw [hargs₂, hargs₁, List.append_assoc]
    rfl

end Invoke

/-! ### Slots against the definition -/

theorem offset_getD_type {p : Prototype} (a : Expr p) {o : Shape} (ho : p.offsetType = some o) :
    (a.offset.getD (.zero o)).type = o := by
  cases hoffset : a.offset with
  | none => rfl
  | some e => exact Option.some.inj ((a.offset_type e (by simp [hoffset])).trans ho)

theorem slots_types (p : Prototype) (a : Expr p) :
    (Expr.slots p a).map Expression.type = p.parameters.map Prod.snd := by
  have hexpr := a.expression_type
  cases p with
  | image | imageView | volume | volumeView =>
    simp only [Expr.slots, List.map_cons, List.map_nil, hexpr, offset_getD_type a rfl]
    rfl
  | buffer | bufferView | heap | accel | value =>
    simp only [Expr.slots, List.map_cons, List.map_nil, hexpr]
    rfl

theorem CallableArguments.slots_types {ps : List Prototype} (args : CallableArguments ps) :
    args.slots.map Expression.type = (ps.flatMap Prototype.parameters).map Prod.snd := by
  induction args with
  | nil => rfl
  | @cons p ps a args ih =>
    rw [slots, List.map_append, ih, LuisaCompute.slots_types, List.flatMap_cons, List.map_append]

theorem callable_define_signatures (ps : List Prototype) :
    (Callable.define ps).arguments.map Variable.signature = ps.flatMap Prototype.parameters := by
  rw [Callable.define, (defineArguments_arguments ps FunctionBuilder.empty).1]
  exact signature_freshVariables 0 _

theorem callable_define_types (ps : List Prototype) :
    (Callable.define ps).arguments.map Variable.type = (ps.flatMap Prototype.parameters).map Prod.snd := by
  rw [← callable_define_signatures, List.map_map]
  rfl

/-- For every callable signature and every call whose arguments fit in the 64 slots, the invocation
reports no error and hands `FunctionBuilder::call` exactly the call's slots in order, one per
definition argument and of its type; and the definition's arguments have, in order, the roles and
types the prototypes declare. So a resource sits where the definition has a resource variable, an
offset (or the zero literal) where it has the local that follows a texture, and a value where it has
a value. -/
theorem callable_invoke_matches_definition (ps : List Prototype) (args : CallableArguments ps)
    (h : (ps.map Prototype.slotCount).sum ≤ maxArgumentCount) :
    ∃ passed, Callable.call args = .ok passed ∧ passed = args.slots ∧
      List.Forall₂ (fun v e => e.type = v.type) (Callable.define ps).arguments passed ∧
      (Callable.define ps).arguments.map Variable.signature = ps.flatMap Prototype.parameters := by
  obtain ⟨invoke, hall, hargs⟩ := Invoke.empty.pushAll_ok args (by simpa [Invoke.empty] using h)
  refine ⟨args.slots, ?_, rfl, ?_, callable_define_signatures ps⟩
  · rw [Callable.call, hall]
    exact congrArg Except.ok (hargs.trans (List.nil_append _))
  have htypes : (Callable.define ps).arguments.map Variable.type = args.slots.map Expression.type := by
    rw [callable_define_types, CallableArguments.slots_types]
  rw [← List.forall₂_eq_eq_eq, List.forall₂_map_left_iff, List.forall₂_map_right_iff] at htypes
  exact htypes.imp fun _ _ => Eq.symm

/-- A `uint` and an `Image<float>` with no offset: three slots, the last the zero offset. -/
theorem callable_invoke_uint_then_image :
    ([.value (.scalar .uint), .image (.scalar .float)].map Prototype.slotCount).sum ≤ maxArgumentCount ∧
      ∃ passed, Callable.call (.cons (uintArgument 1) (.cons (imageArgument 2) .nil)) = .ok passed ∧
        passed = [.node 1 (.scalar .uint), .node 2 (.image (.scalar .float)), .zero Shape.uint2] ∧
        List.Forall₂ (fun v e => e.type = v.type)
          (Callable.define [.value (.scalar .uint), .image (.scalar .float)]).arguments passed ∧
        (Callable.define [.value (.scalar .uint), .image (.scalar .float)]).arguments.map Variable.signature =
          [(.local, .scalar .uint), (.texture, .image (.scalar .float)), (.local, Shape.uint2)] :=
  ⟨by decide, callable_invoke_matches_definition _ (.cons (uintArgument 1) (.cons (imageArgument 2) .nil))
    (by decide)⟩

/-! ### Every outcome

The two guards decide every call. Starting from `n` filled slots, the fold stores past the end
exactly when it reaches an image or a volume with all 64 slots filled (`fullBeforeTwoSlot`): the
one-slot guard looks for 64, but the two-slot guard only for 63. Any other call of more than 64
slots reaches the error, and every call of at most 64 succeeds. -/

/-- Whether the fold, from `n` filled slots, reaches a two-slot argument with the array full. -/
def fullBeforeTwoSlot : Nat → List Prototype → Bool
  | _, [] => false
  | n, p :: ps => (n == maxArgumentCount && p.slotCount == 2) || fullBeforeTwoSlot (n + p.slotCount) ps

theorem Prototype.slotCount_pos (p : Prototype) : 0 < p.slotCount := by
  unfold Prototype.slotCount; split <;> omega

theorem fullBeforeTwoSlot_of_gt {n : Nat} (hn : maxArgumentCount < n) (ps : List Prototype) :
    fullBeforeTwoSlot n ps = false := by
  induction ps generalizing n with
  | nil => rfl
  | cons p ps ih =>
    rw [fullBeforeTwoSlot, ih (by omega), Bool.or_false, Bool.and_eq_false_iff]
    exact .inl (by simpa using Nat.ne_of_gt hn)

/-- `fullBeforeTwoSlot` holds exactly when a prefix of the signature fills the array and an image
or a volume follows it. -/
theorem fullBeforeTwoSlot_iff (n : Nat) (ps : List Prototype) :
    fullBeforeTwoSlot n ps = true ↔ ∃ pre p post, ps = pre ++ p :: post ∧
      n + (pre.map Prototype.slotCount).sum = maxArgumentCount ∧ p.slotCount = 2 := by
  induction ps generalizing n with
  | nil => simp [fullBeforeTwoSlot]
  | cons p ps ih =>
    simp only [fullBeforeTwoSlot, Bool.or_eq_true, Bool.and_eq_true, beq_iff_eq, ih]
    constructor
    · rintro (⟨hn, hp⟩ | ⟨pre, q, post, rfl, hsum, hq⟩)
      · exact ⟨[], p, ps, rfl, by simpa using hn, hp⟩
      · exact ⟨p :: pre, q, post, rfl, by simp only [List.map_cons, List.sum_cons]; omega, hq⟩
    · rintro ⟨pre, q, post, hsplit, hsum, hq⟩
      rcases List.cons_eq_append_iff.1 hsplit with ⟨rfl, hqp⟩ | ⟨pre', rfl, rfl⟩
      · obtain ⟨rfl, -⟩ := List.cons.inj hqp
        exact .inl ⟨by simpa using hsum, hq⟩
      · refine .inr ⟨pre', q, post, rfl, ?_, hq⟩
        simp only [List.map_cons, List.sum_cons] at hsum
        omega

/-- With all 64 slots filled, the image and volume overloads pass their guard, which only looks
for 63, and store at index 64. -/
theorem Invoke.pushTwo_full (invoke : Invoke) (e offset : Expression)
    (h : invoke.args.length = maxArgumentCount) :
    invoke.pushTwo e offset = .error (.outOfBounds maxArgumentCount) := by
  have hstore : invoke.store e = .error (.outOfBounds maxArgumentCount) := by
    rw [store, dif_neg (by omega), h]
  rw [pushTwo, if_neg (by unfold maxArgumentCount at h ⊢; omega), hstore]
  rfl

/-- An argument without room for its slots stops the fold: at the error, or, for an image or a
volume arriving with all 64 slots filled, at a store past the end. -/
theorem Invoke.push_full (invoke : Invoke) (p : Prototype) (a : Expr p)
    (h : maxArgumentCount < invoke.args.length + p.slotCount) :
    invoke.push p a = .error (if invoke.args.length = maxArgumentCount ∧ p.slotCount = 2
      then .outOfBounds maxArgumentCount else .error tooManyArguments) := by
  have hle := invoke.arg_count_le
  cases p with
  | image | imageView | volume | volumeView =>
    change maxArgumentCount < invoke.args.length + 2 at h
    by_cases hfull : invoke.args.length = maxArgumentCount
    · rw [if_pos ⟨hfull, rfl⟩]
      exact invoke.pushTwo_full _ _ hfull
    · rw [if_neg fun h => hfull h.1]
      exact if_pos (by unfold maxArgumentCount at *; omega)
  | buffer | bufferView | heap | accel | value =>
    change maxArgumentCount < invoke.args.length + 1 at h
    rw [if_neg fun h => absurd h.2 (by change ¬1 = 2; omega)]
    exact if_pos (by omega)

theorem Invoke.pushAll_eq (invoke : Invoke) {ps : List Prototype} (args : CallableArguments ps) :
    Invoke.args <$> invoke.pushAll args =
      if fullBeforeTwoSlot invoke.args.length ps then .error (.outOfBounds maxArgumentCount)
      else if invoke.args.length + (ps.map Prototype.slotCount).sum ≤ maxArgumentCount then
        .ok (invoke.args ++ args.slots)
      else .error (.error tooManyArguments) := by
  induction args generalizing invoke with
  | nil =>
    simp only [fullBeforeTwoSlot, List.map_nil, List.sum_nil, Nat.add_zero, if_pos invoke.arg_count_le]
    exact congrArg Except.ok (List.append_nil _).symm
  | @cons p ps a args ih =>
    have hk := p.slotCount_pos
    simp only [fullBeforeTwoSlot, List.map_cons, List.sum_cons, Bool.or_eq_true, Bool.and_eq_true,
      beq_iff_eq, CallableArguments.slots]
    by_cases hroom : invoke.args.length + p.slotCount ≤ maxArgumentCount
    · obtain ⟨invoke₁, hpush, hargs₁⟩ := invoke.push_ok p a hroom
      have hnotfull : ¬(invoke.args.length = maxArgumentCount ∧ p.slotCount = 2) := by omega
      rw [pushAll, hpush]
      refine (ih invoke₁).trans ?_
      rw [hargs₁, List.length_append, Expr.slots_length, List.append_assoc]
      simp only [hnotfull, false_or, Nat.add_assoc]
    · have hover :
          ¬invoke.args.length + (p.slotCount + (ps.map Prototype.slotCount).sum) ≤ maxArgumentCount := by
        omega
      rw [pushAll, invoke.push_full p a (by omega), fullBeforeTwoSlot_of_gt (by omega)]
      by_cases hfull : invoke.args.length = maxArgumentCount ∧ p.slotCount = 2 <;>
        simp only [hfull, hover, Bool.false_eq_true, or_false, if_true, if_false] <;> rfl

/-- Every call of a callable ends one of three ways, decided by the signature alone: it stores past
the end of `_args` exactly when a prefix of the signature fills all 64 slots and an image or a
volume follows it; otherwise it passes its slots if they number at most 64, and reaches
`LUISA_ERROR_WITH_LOCATION("Too many arguments for callable.")` if they do not. -/
theorem callable_call_outcome {ps : List Prototype} (args : CallableArguments ps) :
    Callable.call args =
        (if fullBeforeTwoSlot 0 ps then .error (.outOfBounds maxArgumentCount)
        else if (ps.map Prototype.slotCount).sum ≤ maxArgumentCount then .ok args.slots
        else .error (.error tooManyArguments)) ∧
      (fullBeforeTwoSlot 0 ps = true ↔ ∃ pre p post, ps = pre ++ p :: post ∧
        (pre.map Prototype.slotCount).sum = maxArgumentCount ∧ p.slotCount = 2) := by
  refine ⟨?_, by simpa using fullBeforeTwoSlot_iff 0 ps⟩
  have h := Invoke.empty.pushAll_eq args
  simp only [Invoke.empty, List.length_nil, Nat.zero_add, List.nil_append] at h
  exact h

/-! ### The two-slot guard -/

def uintsThenImage : (n : Nat) →
    CallableArguments (List.replicate n (.value (.scalar .uint)) ++ [.image (.scalar .float)])
  | 0 => .cons (imageArgument 0) .nil
  | n + 1 => .cons (uintArgument (n + 1)) (uintsThenImage n)

/-- A callable of 65 parameters, 64 `uint`s and then an `Image<float>`, called with an image that
has no offset: its 66 slots exceed 64, yet the invocation never reaches
`LUISA_ERROR_WITH_LOCATION("Too many arguments for callable.")`: it stores at `_args[64]`. -/
theorem callable_image_after_full_args_stores_out_of_bounds :
    Callable.call (uintsThenImage 64) = .error (.outOfBounds 64) := by
  have h := Invoke.empty.pushAll_eq (uintsThenImage 64)
  rw [if_pos (by decide)] at h
  exact h

end LuisaCompute
