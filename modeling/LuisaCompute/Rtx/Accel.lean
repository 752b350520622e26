import LuisaCompute.Runtime.Command

/-!
# The build/refit protocol of an acceleration structure

`Accel` (`rtx/accel.h`, `rtx/accel.cpp`) is a resource handle and one flag, `_built`, false from
construction: `build` sets it and records a build command, and both `refit` forms check it first and
reach `LUISA_ERROR_WITH_LOCATION("Geometry #{} is not built when updating.")` when it is clear. `run`
executes a sequence of calls and stops at the first error, as the process does; its invariant is
`Tracks` (the handle is kept, and the flag says whether a build has happened).
-/

namespace LuisaCompute

/-- `Accel`: the handle `Resource` holds, and `_built`. -/
structure Accel where
  handle : UInt64
  built : Bool

namespace Accel

def create (handle : UInt64) : Accel := ⟨handle, false⟩

/-- The message both refits log: `"Geometry #{} is not built when updating."` formatted with the
handle. -/
def notBuiltMessage (handle : UInt64) : String :=
  "Geometry #" ++ toString handle ++ " is not built when updating."

def checkBuilt (a : Accel) : Except LuisaError Unit :=
  if a.built then .ok () else .error ⟨notBuiltMessage a.handle⟩

def refit (a : Accel) : Except LuisaError Command := do
  a.checkBuilt
  return .accelUpdate a.handle

/-- `Accel::refit(first, count, transforms)`: the update reads `count` matrices at `transforms`,
which the caller keeps readable for the call. -/
def refitRange (a : Accel) (first count : Nat) (transforms : List Float4x4) :
    Except LuisaError Command := do
  a.checkBuilt
  return .accelUpdateRange a.handle (transforms.take count) first

def build (a : Accel) (mode : AccelBuildHint) (meshHandles : List UInt64)
    (transforms : List Float4x4) : Accel × Command :=
  ({ a with built := true }, .accelBuild a.handle mode meshHandles transforms)

end Accel

inductive AccelOp
  | build (mode : AccelBuildHint) (meshHandles : List UInt64) (transforms : List Float4x4)
  | refit
  | refitRange (first count : Nat) (transforms : List Float4x4)

def AccelOp.isBuild : AccelOp → Bool
  | .build .. => true
  | _ => false

/-- The command a call returns when it succeeds on the structure with the given handle. -/
def AccelOp.command (handle : UInt64) : AccelOp → Command
  | .build mode meshHandles transforms => .accelBuild handle mode meshHandles transforms
  | .refit => .accelUpdate handle
  | .refitRange first count transforms => .accelUpdateRange handle (transforms.take count) first

namespace Accel

def step (a : Accel) : AccelOp → Except LuisaError (Accel × Command)
  | .build mode meshHandles transforms => .ok (a.build mode meshHandles transforms)
  | .refit => (a, ·) <$> a.refit
  | .refitRange first count transforms => (a, ·) <$> a.refitRange first count transforms

def run (a : Accel) : List AccelOp → Except LuisaError (Accel × List Command)
  | [] => .ok (a, [])
  | op :: ops =>
    match a.step op with
    | .error e => .error e
    | .ok (a', command) =>
      match a'.run ops with
      | .error e => .error e
      | .ok (b, commands) => .ok (b, command :: commands)

/-! ### One step -/

theorem checkBuilt_eq_error {a : Accel} {e : LuisaError} :
    a.checkBuilt = .error e ↔ a.built = false ∧ e = ⟨notBuiltMessage a.handle⟩ := by
  cases h : a.built <;> simp [checkBuilt, h, eq_comm]

theorem step_eq_error {a : Accel} {op : AccelOp} {e : LuisaError} :
    a.step op = .error e ↔ op.isBuild = false ∧ a.built = false ∧ e = ⟨notBuiltMessage a.handle⟩ := by
  cases op <;> cases h : a.built <;>
    simp [step, refit, refitRange, checkBuilt, AccelOp.isBuild, h, eq_comm]

theorem step_eq_ok {a a' : Accel} {op : AccelOp} {command : Command}
    (h : a.step op = .ok (a', command)) :
    a'.handle = a.handle ∧ a'.built = (a.built || op.isBuild) := by
  cases op with
  | build mode meshHandles transforms =>
    simp only [step, build, Except.ok.injEq, Prod.mk.injEq] at h
    simp [← h.1, AccelOp.isBuild]
  | refit | refitRange =>
    cases hb : a.built <;> simp [step, refit, refitRange, checkBuilt, hb] at h
    simp [← h.1, hb, AccelOp.isBuild]

theorem step_build (a : Accel) (mode : AccelBuildHint) (meshHandles : List UInt64)
    (transforms : List Float4x4) :
    a.step (.build mode meshHandles transforms) = .ok (a.build mode meshHandles transforms) := rfl

/-! ### Runs -/

/-- What a successful run from `a` to `b` over `ops` leaves in `b`. -/
def Tracks (a : Accel) (ops : List AccelOp) (b : Accel) : Prop :=
  b.handle = a.handle ∧ b.built = (a.built || ops.any AccelOp.isBuild)

theorem run_tracks {a b : Accel} {ops : List AccelOp} {commands : List Command}
    (h : a.run ops = .ok (b, commands)) : Tracks a ops b := by
  induction ops generalizing a commands with
  | nil =>
    simp only [run, Except.ok.injEq, Prod.mk.injEq] at h
    obtain ⟨rfl, -⟩ := h
    simp [Tracks]
  | cons op ops ih =>
    simp only [run] at h
    split at h
    · cases h
    rename_i a' command hstep
    split at h
    · cases h
    rename_i b' rest hrun
    obtain ⟨rfl, -⟩ := Prod.mk.inj (Except.ok.inj h)
    obtain ⟨hhandle, hbuilt⟩ := step_eq_ok hstep
    obtain ⟨ihhandle, ihbuilt⟩ := ih hrun
    refine ⟨ihhandle.trans hhandle, ?_⟩
    rw [ihbuilt, hbuilt, List.any_cons, Bool.or_assoc]

theorem run_of_built {a : Accel} (ha : a.built = true) (ops : List AccelOp) :
    ∃ b commands, a.run ops = .ok (b, commands) ∧ b.built = true := by
  induction ops generalizing a with
  | nil => exact ⟨a, [], rfl, ha⟩
  | cons op ops ih =>
    obtain ⟨a', command, hstep⟩ : ∃ a' command, a.step op = .ok (a', command) := by
      cases h : a.step op with
      | error e => simp [(step_eq_error.1 h).2.1] at ha
      | ok r => exact ⟨r.1, r.2, rfl⟩
    have hbuilt : a'.built = true := by rw [(step_eq_ok hstep).2, ha, Bool.true_or]
    obtain ⟨b, commands, hrun, hb⟩ := ih hbuilt
    exact ⟨b, command :: commands, by simp only [run, hstep, hrun], hb⟩

/-- The build/refit protocol over every sequence of calls on a fresh `Accel`. Whenever the calls
`pre` have run without error, the next call `op` aborts exactly when it is a refit and `pre` holds
no build, and then with the not-built message for the handle; if it succeeds, the flag afterwards
says whether `pre` and `op` hold a build. Once `pre` holds a build, every continuation runs to the
end and leaves the structure built. A build succeeds from every state. -/
theorem accel_build_refit_protocol (handle : UInt64) (pre : List AccelOp) (a : Accel)
    (commands : List Command) (hpre : (create handle).run pre = .ok (a, commands)) :
    (∀ op e, a.step op = .error e ↔
        op.isBuild = false ∧ pre.any AccelOp.isBuild = false ∧ e = ⟨notBuiltMessage handle⟩) ∧
    (∀ op a' command, a.step op = .ok (a', command) →
        a'.built = (pre ++ [op]).any AccelOp.isBuild) ∧
    (pre.any AccelOp.isBuild = true →
        ∀ post, ∃ b rest, a.run post = .ok (b, rest) ∧ b.built = true) ∧
    (∀ (b : Accel) mode meshHandles transforms,
        ∃ r, b.step (.build mode meshHandles transforms) = .ok r) := by
  obtain ⟨hhandle, hbuilt⟩ := run_tracks hpre
  simp only [create, Bool.false_or] at hhandle hbuilt
  refine ⟨fun op e => ?_, fun op a' command hstep => ?_, fun hbuild => run_of_built (hbuilt.trans hbuild),
    fun b mode meshHandles transforms => ⟨_, step_build b mode meshHandles transforms⟩⟩
  · rw [step_eq_error, hbuilt, hhandle]
  · rw [(step_eq_ok hstep).2, hbuilt, List.any_append, List.any_cons, List.any_nil, Bool.or_false]

theorem accel_refit_after_build :
    (create 7).run [.build .fastTrace [1, 1] []] = .ok (⟨7, true⟩, [.accelBuild 7 .fastTrace [1, 1] []]) ∧
      ∀ e, (⟨7, true⟩ : Accel).step .refit ≠ .error e :=
  ⟨rfl, fun e h => by
    have := ((accel_build_refit_protocol 7 [.build .fastTrace [1, 1] []] _ _ rfl).1 .refit e).1 h
    simp [AccelOp.isBuild] at this⟩

/-! ### Whole runs -/

theorem step_of_built {a : Accel} (ha : a.built = true) (op : AccelOp) :
    a.step op = .ok (a, op.command a.handle) := by
  obtain ⟨handle, built⟩ := a
  subst ha
  cases op <;> rfl

theorem run_of_built_eq {a : Accel} (ha : a.built = true) (ops : List AccelOp) :
    a.run ops = .ok (a, ops.map (AccelOp.command a.handle)) := by
  induction ops with
  | nil => rfl
  | cons op ops ih => simp only [run, step_of_built ha, ih, List.map_cons]

/-- Every sequence of calls, from every state, in closed form. It aborts exactly when the
structure is not built and the first call is a refit, with the not-built message for its handle.
Otherwise it returns one command per call, in order, each for the structure's handle, and leaves the
structure built exactly when it was built or the sequence holds a build. -/
theorem accel_run_outcome (a : Accel) (ops : List AccelOp) :
    a.run ops =
      if a.built || ops.head?.all AccelOp.isBuild then
        .ok (⟨a.handle, a.built || ops.any AccelOp.isBuild⟩, ops.map (AccelOp.command a.handle))
      else .error ⟨notBuiltMessage a.handle⟩ := by
  obtain ⟨handle, built⟩ := a
  cases built with
  | true => exact run_of_built_eq rfl ops
  | false =>
    cases ops with
    | nil => rfl
    | cons op ops =>
      cases op with
      | build mode meshHandles transforms =>
        simp only [run, step_build, build, run_of_built_eq (a := ⟨handle, true⟩) rfl ops]
        rfl
      | refit | refitRange => rfl

/-- Building two instances and then refitting the range `[1, 2)` with one new transform. -/
example (m : Float4x4) : (create 7).run [.build .fastTrace [1, 2] [m, m], .refitRange 1 1 [m]] =
    .ok (⟨7, true⟩, [.accelBuild 7 .fastTrace [1, 2] [m, m], .accelUpdateRange 7 [m] 1]) :=
  rfl

end Accel

end LuisaCompute
