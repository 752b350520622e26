import Mathlib.Data.List.Infix

/-!
# The job system's buckets

`JobSystem` (`backends/dx/JobSystem/JobSystem.cpp`) is the DirectX backend's thread pool; its headers
are not among the sources, and the state here is what `JobSystem.cpp` reads and writes, pointers as
addresses. `ExecuteBucket` hands it a list of buckets and the main thread enters `UpdateNewBucket`,
which skips the buckets with no nodes or of another system, starts the next (count, push its
`executeJobs`, clear it, advance `currentBucketPos`), or sets `mainThreadFinished`; a worker runs the
nodes it pops, with what `JobNode::Execute` pushes and hands on chosen by the environment, and calls
`UpdateNewBucket` itself when its decrement leaves the count at zero. `UpdateNewBucket` takes no
lock, so each model step reads or writes the shared state once (`UpdateStep`) and a run is any
interleaving (`JobSystem.run`). The condition variables are left out: a woken worker, notified or
spuriously, goes back to `Pop`, so a worker may pop at any time.
-/

namespace LuisaCompute

/-- The part of a `JobBucket` that `JobSystem.cpp` reads and writes: the system it was created for,
all of its nodes, and the nodes that start it. -/
structure JobBucket where
  sys : Nat
  allJobNodes : List Nat
  executeJobs : List Nat
  deriving DecidableEq, Repr

def JobBucket.clear (b : JobBucket) : JobBucket := { b with allJobNodes := [], executeJobs := [] }

/-- Where a thread is in `UpdateNewBucket`: at an iteration of the search loop; about to set the
count for the bucket it found; in the loop pushing that bucket's `executeJobs`, at an index; about to
clear the bucket; about to advance `currentBucketPos`. -/
inductive UpdateStep
  | search
  | count (bucket : Nat)
  | push (bucket index : Nat)
  | clear (bucket : Nat)
  | advance
  deriving DecidableEq, Repr

/-- A thread: idle (a worker at `executingNode.Pop`, or the main thread past `UpdateNewBucket`), a
worker about to run a node, or a thread inside `UpdateNewBucket`. -/
inductive JobThread
  | idle
  | running (node : Nat)
  | updating (step : UpdateStep)
  deriving DecidableEq, Repr

/-- The state `JobSystem.cpp` shares between threads. `threads[0]` is the main thread, the others
are the workers of `allThreads`. -/
structure JobSystem where
  this : Nat
  heap : Nat → JobBucket
  buckets : List Nat
  currentBucketPos : Nat
  bucketMissionCount : Int
  executingNode : List Nat
  mainThreadFinished : Bool
  threads : List JobThread

/-- A step of one thread: worker `worker` (thread `worker + 1`) pops a node, or runs its node, which
pushes `pushed` and hands on `next`; or thread `thread` takes its next step in `UpdateNewBucket`. -/
inductive JobEvent
  | pop (worker : Nat)
  | execute (worker : Nat) (pushed : List Nat) (next : Option Nat)
  | update (thread : Nat)

namespace JobSystem

def runnable (s : JobSystem) (b : Nat) : Bool :=
  !(s.heap b).allJobNodes.isEmpty && (s.heap b).sys == s.this

def updateStep (s : JobSystem) (t : Nat) : UpdateStep → JobSystem × List Nat
  | .search =>
    match s.buckets[s.currentBucketPos]? with
    | none => ({ s with mainThreadFinished := true, threads := s.threads.set t .idle }, [])
    | some b =>
      if s.runnable b then ({ s with threads := s.threads.set t (.updating (.count b)) }, [])
      else ({ s with currentBucketPos := s.currentBucketPos + 1 }, [])
  | .count b =>
    ({ s with bucketMissionCount := (s.heap b).allJobNodes.length,
              threads := s.threads.set t (.updating (.push b 0)) }, [b])
  | .push b i =>
    match (s.heap b).executeJobs[i]? with
    | some node =>
      ({ s with executingNode := s.executingNode ++ [node],
                threads := s.threads.set t (.updating (.push b (i + 1))) }, [])
    | none => ({ s with threads := s.threads.set t (.updating (.clear b)) }, [])
  | .clear b =>
    ({ s with heap := Function.update s.heap b (s.heap b).clear,
              threads := s.threads.set t (.updating .advance) }, [])
  | .advance =>
    ({ s with currentBucketPos := s.currentBucketPos + 1, threads := s.threads.set t .idle }, [])

/-- Where a worker goes after a node: to the next node it was handed, or, at the end of its run, to
`UpdateNewBucket` if its decrement left the count at zero, and otherwise back to the queue. -/
def afterExecute (count : Int) : Option Nat → JobThread
  | some node => .running node
  | none => if count = 0 then .updating .search else .idle

/-- One step of one thread, and the bucket it starts, if any. A step the thread cannot take where it
is changes nothing. -/
def step (s : JobSystem) : JobEvent → JobSystem × List Nat
  | .pop w =>
    match s.threads[w + 1]?, s.executingNode with
    | some .idle, node :: rest =>
      ({ s with executingNode := rest, threads := s.threads.set (w + 1) (.running node) }, [])
    | _, _ => (s, [])
  | .execute w pushed next =>
    match s.threads[w + 1]? with
    | some (.running _) =>
      ({ s with executingNode := s.executingNode ++ pushed,
                bucketMissionCount := s.bucketMissionCount - 1,
                threads := s.threads.set (w + 1) (afterExecute (s.bucketMissionCount - 1) next) }, [])
    | _ => (s, [])
  | .update t =>
    match s.threads[t]? with
    | some (.updating u) => s.updateStep t u
    | _ => (s, [])

def run (s : JobSystem) : List JobEvent → JobSystem × List Nat
  | [] => (s, [])
  | e :: es =>
    let (s', started) := s.step e
    let (s'', rest) := s'.run es
    (s'', started ++ rest)

def executeBucket (s : JobSystem) (buckets : List Nat) : JobSystem :=
  { s with buckets := buckets, currentBucketPos := 0, mainThreadFinished := false,
           threads := s.threads.set 0 (.updating .search) }

/-- The other `ExecuteBucket(bucket, bucketCount)`, on an array of buckets: `buckets[i] = bucket + i`,
the addresses counted in buckets. -/
def executeBucketArray (s : JobSystem) (bucket bucketCount : Nat) : JobSystem :=
  s.executeBucket ((List.range bucketCount).map (bucket + ·))

end JobSystem

/-! ### One `UpdateNewBucket` at a time -/

def firstOccurrences : List Nat → List Nat
  | [] => []
  | b :: bs => b :: (firstOccurrences bs).filter (· ≠ b)

theorem firstOccurrences_append (l₁ l₂ : List Nat) :
    firstOccurrences (l₁ ++ l₂) = firstOccurrences l₁ ++ (firstOccurrences l₂).filter (· ∉ l₁) := by
  induction l₁ with
  | nil => simp [firstOccurrences]
  | cons a l₁ ih =>
    rw [List.cons_append, firstOccurrences, ih, List.filter_append, firstOccurrences, List.cons_append,
      List.filter_filter]
    congr 2
    exact List.filter_congr fun x _ => by simp

namespace JobSystem

/-- The buckets `ExecuteBucket` is meant to run on the system `s`, in order: each listed bucket that
`UpdateNewBucket` starts, at its first place in the list. -/
def toRun (s : JobSystem) (buckets : List Nat) : List Nat := (firstOccurrences buckets).filter s.runnable

end JobSystem

def JobThread.isUpdating : JobThread → Bool
  | .updating _ => true
  | _ => false

def JobThread.hasStarted : JobThread → Bool
  | .updating (.push ..) | .updating (.clear _) | .updating .advance => true
  | _ => false

def JobThread.hasCleared : JobThread → Bool
  | .updating .advance => true
  | _ => false

namespace JobSystem

def Sequential (s : JobSystem) : Prop := s.threads.countP JobThread.isUpdating ≤ 1

instance : DecidablePred Sequential := fun s =>
  inferInstanceAs (Decidable (s.threads.countP JobThread.isUpdating ≤ 1))

def Along (P : JobSystem → Prop) : JobSystem → List JobEvent → Prop
  | s, [] => P s
  | s, e :: es => P s ∧ Along P (s.step e).1 es

instance Along.decidable (P : JobSystem → Prop) [DecidablePred P] :
    (s : JobSystem) → (es : List JobEvent) → Decidable (Along P s es)
  | s, [] => inferInstanceAs (Decidable (P s))
  | s, e :: es =>
    haveI := Along.decidable P (s.step e).1 es
    inferInstanceAs (Decidable (P s ∧ Along P (s.step e).1 es))

end JobSystem

theorem set_self_of_getElem? {l : List JobThread} {t : Nat} {x : JobThread} (h : l[t]? = some x) :
    l.set t x = l := by
  apply List.ext_getElem?
  intro j
  rw [List.getElem?_set]
  split
  · subst_vars
    rw [if_pos (List.getElem?_eq_some_iff.1 h).1, h]
  · rfl

/-! ### The threads around the one in `UpdateNewBucket` -/

section Sole

variable {l : List JobThread} {t : Nat} {u : UpdateStep}

theorem not_updating_of_sole (hseq : l.countP JobThread.isUpdating ≤ 1)
    (ht : l[t]? = some (.updating u)) : ∀ th ∈ l.set t .idle, th.isUpdating = false := by
  obtain ⟨hlt, hget⟩ := List.getElem?_eq_some_iff.1 ht
  have hpos : 0 < l.countP JobThread.isUpdating :=
    List.countP_pos_iff.2 ⟨_, List.getElem_mem hlt, by rw [hget]; rfl⟩
  have hset := List.countP_set JobThread.isUpdating l t .idle hlt
  rw [hget] at hset
  simp only [JobThread.isUpdating, if_true, Bool.false_eq_true, if_false] at hset
  intro th hth
  simpa using List.countP_eq_zero.1 (by omega) th hth

theorem countP_set_sole (hseq : l.countP JobThread.isUpdating ≤ 1) (ht : l[t]? = some (.updating u))
    (p : JobThread → Bool) (hp : ∀ th, p th = true → th.isUpdating = true) (x : JobThread) :
    (l.set t x).countP p = if p x then 1 else 0 := by
  have hlt := (List.getElem?_eq_some_iff.1 ht).1
  have hidle : (l.set t .idle).countP p = 0 := List.countP_eq_zero.2 fun th hth hpth => by
    have := hp th hpth
    rw [not_updating_of_sole hseq ht th hth] at this
    exact Bool.false_ne_true this
  have hpidle : p .idle = false := Bool.eq_false_iff.2 fun h => absurd (hp _ h) (by decide)
  have hset := List.countP_set p (l.set t .idle) t x (by rwa [List.length_set])
  rw [List.set_set, hidle, List.getElem_set_self, hpidle] at hset
  simpa using hset

theorem mem_set_sole (hseq : l.countP JobThread.isUpdating ≤ 1) (ht : l[t]? = some (.updating u))
    (x : JobThread) : ∀ th ∈ l.set t x, th = x ∨ th.isUpdating = false := by
  intro th hth
  have hth' : th ∈ (l.set t .idle).set t x := by rwa [List.set_set]
  rcases List.mem_or_eq_of_mem_set hth' with hth | rfl
  · exact .inr (not_updating_of_sole hseq ht th hth)
  · exact .inl rfl

theorem countP_sole (hseq : l.countP JobThread.isUpdating ≤ 1) (ht : l[t]? = some (.updating u))
    (p : JobThread → Bool) (hp : ∀ th, p th = true → th.isUpdating = true) :
    l.countP p = if p (.updating u) then 1 else 0 := by
  have := countP_set_sole hseq ht p hp (.updating u)
  rwa [set_self_of_getElem? ht] at this

theorem mem_sole (hseq : l.countP JobThread.isUpdating ≤ 1) (ht : l[t]? = some (.updating u)) :
    ∀ th ∈ l, th = .updating u ∨ th.isUpdating = false := by
  have := mem_set_sole hseq ht (.updating u)
  rwa [set_self_of_getElem? ht] at this

end Sole

namespace JobThread

theorem isUpdating_of_hasStarted {th : JobThread} (h : th.hasStarted = true) : th.isUpdating = true := by
  rcases th with _ | _ | (_ | _ | _ | _ | _) <;> simp_all [hasStarted, isUpdating]

theorem isUpdating_of_hasCleared {th : JobThread} (h : th.hasCleared = true) : th.isUpdating = true := by
  rcases th with _ | _ | (_ | _ | _ | _ | _) <;> simp_all [hasCleared, isUpdating]

end JobThread

/-! ### The invariant of one `UpdateNewBucket` at a time -/

section Tracks

variable (s₀ : JobSystem) (L : List Nat)

namespace JobSystem

def startedUpTo (n : Nat) : List Nat := s₀.toRun (L.take n)

def clearedUpTo (n a : Nat) : JobBucket :=
  if a ∈ L.take n ∧ s₀.runnable a = true then (s₀.heap a).clear else s₀.heap a

def Fresh (pos b : Nat) : Prop := L[pos]? = some b ∧ s₀.runnable b = true ∧ b ∉ L.take pos

theorem startedUpTo_succ {pos b : Nat} (hb : L[pos]? = some b) :
    startedUpTo s₀ L (pos + 1) =
      startedUpTo s₀ L pos ++ if b ∉ L.take pos ∧ s₀.runnable b = true then [b] else [] := by
  rw [startedUpTo, startedUpTo, toRun, toRun, List.take_succ, hb, Option.toList_some,
    firstOccurrences_append, List.filter_append]
  congr 1
  by_cases h₁ : b ∈ L.take pos <;> by_cases h₂ : s₀.runnable b = true <;> simp [firstOccurrences, h₁, h₂]

theorem clearedUpTo_succ {pos b : Nat} (hb : L[pos]? = some b) (a : Nat) :
    clearedUpTo s₀ L (pos + 1) a =
      if a = b ∧ b ∉ L.take pos ∧ s₀.runnable b = true then (s₀.heap b).clear
      else clearedUpTo s₀ L pos a := by
  simp only [clearedUpTo, List.take_succ, hb, Option.toList_some, List.mem_append, List.mem_singleton]
  by_cases ha : a = b
  · subst ha
    by_cases h₁ : a ∈ L.take pos <;> by_cases h₂ : s₀.runnable a = true <;> simp [h₁, h₂]
  · simp [ha]

end JobSystem

/-- What a thread inside `UpdateNewBucket` relies on at its step. -/
def JobThread.Ok (pos : Nat) : JobThread → Prop
  | .updating (.count b) | .updating (.push b _) | .updating (.clear b) => JobSystem.Fresh s₀ L pos b
  | .updating .advance => pos < L.length
  | _ => True

theorem JobThread.ok_of_not_updating {th : JobThread} (h : th.isUpdating = false) (pos : Nat) :
    th.Ok s₀ L pos := by
  rcases th with _ | _ | _ <;> simp_all [isUpdating, Ok]

/-- The invariant of `ExecuteBucket` on the list `L` from the system `s₀`, with one
`UpdateNewBucket` at a time: the places before `currentBucketPos` are done, and so is the bucket
that the thread inside `UpdateNewBucket` has started or cleared. `started` is what was started. -/
structure JobSystem.Tracks (s : JobSystem) (started : List Nat) : Prop where
  this_eq : s.this = s₀.this
  buckets_eq : s.buckets = L
  pos_le : s.currentBucketPos ≤ L.length
  started_eq :
    started = JobSystem.startedUpTo s₀ L (s.currentBucketPos + s.threads.countP JobThread.hasStarted)
  heap_eq : s.heap = JobSystem.clearedUpTo s₀ L (s.currentBucketPos + s.threads.countP JobThread.hasCleared)
  threads_ok : ∀ th ∈ s.threads, th.Ok s₀ L s.currentBucketPos
  finished : s.mainThreadFinished = true → L.length ≤ s.currentBucketPos

namespace JobSystem.Tracks

variable {s₀ L} {s : JobSystem} {started : List Nat}

theorem runnable_eq (h : Tracks s₀ L s started) (b : Nat) :
    s.runnable b =
      (s₀.runnable b && decide (b ∉ L.take (s.currentBucketPos + s.threads.countP JobThread.hasCleared))) := by
  rw [runnable, h.heap_eq, clearedUpTo, h.this_eq]
  by_cases h₁ : b ∈ L.take (s.currentBucketPos + s.threads.countP JobThread.hasCleared) <;>
    cases h₂ : s₀.runnable b <;> simp_all [runnable, JobBucket.clear]

theorem set_worker (h : Tracks s₀ L s started) {t : Nat} {y x : JobThread} (ht : s.threads[t]? = some y)
    (hy : y.isUpdating = false) (hx : x.hasStarted = false ∧ x.hasCleared = false)
    (hxok : x.Ok s₀ L s.currentBucketPos) (queue : List Nat) (count : Int) :
    Tracks s₀ L
      { s with executingNode := queue, bucketMissionCount := count, threads := s.threads.set t x }
      started := by
  have hlt := (List.getElem?_eq_some_iff.1 ht).1
  have hget := (List.getElem?_eq_some_iff.1 ht).2
  have hys : y.hasStarted = false :=
    Bool.eq_false_iff.2 fun h' => Bool.false_ne_true (hy ▸ JobThread.isUpdating_of_hasStarted h')
  have hyc : y.hasCleared = false :=
    Bool.eq_false_iff.2 fun h' => Bool.false_ne_true (hy ▸ JobThread.isUpdating_of_hasCleared h')
  refine ⟨h.this_eq, h.buckets_eq, h.pos_le, ?_, ?_, fun th hth => ?_, h.finished⟩
  · rw [List.countP_set _ _ _ _ hlt, hget, hys, hx.1]
    simpa using h.started_eq
  · rw [List.countP_set _ _ _ _ hlt, hget, hyc, hx.2]
    simpa using h.heap_eq
  · rcases List.mem_or_eq_of_mem_set hth with hth | rfl
    · exact h.threads_ok th hth
    · exact hxok

theorem set_updater (h : Tracks s₀ L s started) (hseq : s.Sequential) {t : Nat} {u : UpdateStep}
    (ht : s.threads[t]? = some (.updating u)) (x : JobThread) (pos : Nat) (heap : Nat → JobBucket)
    (finished : Bool) (queue : List Nat) (count : Int) {started' : List Nat} (hpos : pos ≤ L.length)
    (hstarted : started' = startedUpTo s₀ L (pos + if x.hasStarted then 1 else 0))
    (hheap : heap = clearedUpTo s₀ L (pos + if x.hasCleared then 1 else 0))
    (hxok : x.Ok s₀ L pos) (hfinished : finished = true → L.length ≤ pos) :
    Tracks s₀ L
      { s with currentBucketPos := pos, heap := heap, mainThreadFinished := finished,
               executingNode := queue, bucketMissionCount := count, threads := s.threads.set t x }
      started' := by
  refine ⟨h.this_eq, h.buckets_eq, hpos, ?_, ?_, fun th hth => ?_, hfinished⟩
  · rw [countP_set_sole hseq ht _ (fun _ => JobThread.isUpdating_of_hasStarted) x]
    exact hstarted
  · rw [countP_set_sole hseq ht _ (fun _ => JobThread.isUpdating_of_hasCleared) x]
    exact hheap
  · rcases mem_set_sole hseq ht x th hth with rfl | hth
    · exact hxok
    · exact JobThread.ok_of_not_updating s₀ L hth pos

theorem set_updater_same (h : Tracks s₀ L s started) (hseq : s.Sequential) {t : Nat} {u : UpdateStep}
    (ht : s.threads[t]? = some (.updating u)) (x : JobThread) (finished : Bool) (queue : List Nat)
    (count : Int) (hxs : x.hasStarted = (JobThread.updating u).hasStarted)
    (hxc : x.hasCleared = (JobThread.updating u).hasCleared) (hxok : x.Ok s₀ L s.currentBucketPos)
    (hfinished : finished = true → L.length ≤ s.currentBucketPos) :
    Tracks s₀ L
      { s with mainThreadFinished := finished, executingNode := queue, bucketMissionCount := count,
               threads := s.threads.set t x }
      started := by
  refine h.set_updater hseq ht x s.currentBucketPos s.heap finished queue count h.pos_le ?_ ?_ hxok hfinished
  · rw [hxs, h.started_eq, countP_sole hseq ht _ fun _ => JobThread.isUpdating_of_hasStarted]
  · rw [hxc, h.heap_eq, countP_sole hseq ht _ fun _ => JobThread.isUpdating_of_hasCleared]

theorem update (h : Tracks s₀ L s started) (hseq : s.Sequential) {t : Nat} {u : UpdateStep}
    (ht : s.threads[t]? = some (.updating u)) :
    Tracks s₀ L (s.updateStep t u).1 (started ++ (s.updateStep t u).2) := by
  have hok : (JobThread.updating u).Ok s₀ L s.currentBucketPos := by
    obtain ⟨hlt, hget⟩ := List.getElem?_eq_some_iff.1 ht
    exact h.threads_ok _ (hget ▸ List.getElem_mem hlt)
  have hS := h.started_eq
  have hH := h.heap_eq
  rw [countP_sole hseq ht _ fun _ => JobThread.isUpdating_of_hasStarted] at hS
  rw [countP_sole hseq ht _ fun _ => JobThread.isUpdating_of_hasCleared] at hH
  cases u with
  | search =>
    rcases hb : s.buckets[s.currentBucketPos]? with _ | b
    · have hfin : L.length ≤ s.currentBucketPos := List.getElem?_eq_none_iff.1 (h.buckets_eq ▸ hb)
      simp only [updateStep, hb, List.append_nil]
      exact h.set_updater_same hseq ht .idle true _ _ rfl rfl trivial fun _ => hfin
    · have hbL : L[s.currentBucketPos]? = some b := h.buckets_eq ▸ hb
      have hC := h.runnable_eq b
      rw [countP_sole hseq ht _ fun _ => JobThread.isUpdating_of_hasCleared] at hC
      simp only [JobThread.hasStarted, JobThread.hasCleared, Bool.false_eq_true, if_false,
        Nat.add_zero] at hS hH hC
      by_cases hr : s.runnable b = true
      · have hfresh : b ∉ L.take s.currentBucketPos ∧ s₀.runnable b = true := by
          rw [hC, Bool.and_eq_true, decide_eq_true_iff] at hr
          exact ⟨hr.2, hr.1⟩
        simp only [updateStep, hb, if_pos hr, List.append_nil]
        exact h.set_updater_same hseq ht (.updating (.count b)) _ _ _ rfl rfl ⟨hbL, hfresh.2, hfresh.1⟩
          h.finished
      · have hskip : ¬(b ∉ L.take s.currentBucketPos ∧ s₀.runnable b = true) := fun hc =>
          hr (by rw [hC, hc.2, Bool.true_and, decide_eq_true_iff]; exact hc.1)
        simp only [updateStep, hb, if_neg hr, List.append_nil]
        rw [← set_self_of_getElem? ht]
        refine h.set_updater hseq ht (.updating .search) (s.currentBucketPos + 1) s.heap
          s.mainThreadFinished s.executingNode s.bucketMissionCount (List.getElem?_eq_some_iff.1 hbL).1
          ?_ ?_ trivial fun hf => Nat.le_succ_of_le (h.finished hf)
        · simp only [JobThread.hasStarted, Bool.false_eq_true, if_false, Nat.add_zero]
          rw [startedUpTo_succ s₀ L hbL, if_neg hskip, List.append_nil, hS]
        · funext a
          simp only [JobThread.hasCleared, Bool.false_eq_true, if_false, Nat.add_zero]
          rw [clearedUpTo_succ s₀ L hbL, if_neg fun hc => hskip hc.2, hH]
  | count b =>
    obtain ⟨hbL, hr, hfresh⟩ := hok
    simp only [updateStep]
    refine h.set_updater hseq ht (.updating (.push b 0)) _ s.heap s.mainThreadFinished s.executingNode _
      h.pos_le ?_ hH ⟨hbL, hr, hfresh⟩ h.finished
    simp only [JobThread.hasStarted, if_true, Bool.false_eq_true, if_false, Nat.add_zero] at hS ⊢
    rw [startedUpTo_succ s₀ L hbL, if_pos ⟨hfresh, hr⟩, hS]
  | push b i =>
    simp only [updateStep]
    split <;> rw [List.append_nil]
    · exact h.set_updater_same hseq ht (.updating (.push b (i + 1))) _ _ _ rfl rfl hok h.finished
    · exact h.set_updater_same hseq ht (.updating (.clear b)) _ _ _ rfl rfl hok h.finished
  | clear b =>
    obtain ⟨hbL, hr, hfresh⟩ := hok
    simp only [updateStep]
    refine h.set_updater hseq ht (.updating .advance) _ _ s.mainThreadFinished s.executingNode
      s.bucketMissionCount h.pos_le (by simpa [JobThread.hasStarted] using hS) ?_
      (List.getElem?_eq_some_iff.1 hbL).1 h.finished
    funext a
    simp only [JobThread.hasCleared, if_true, Bool.false_eq_true, if_false, Nat.add_zero] at hH ⊢
    rw [clearedUpTo_succ s₀ L hbL, hH, Function.update_apply]
    by_cases ha : a = b
    · rw [if_pos ha, if_pos ⟨ha, hfresh, hr⟩, clearedUpTo, if_neg fun hc => hfresh hc.1]
    · rw [if_neg ha, if_neg fun hc => ha hc.1]
  | advance =>
    simp only [updateStep, List.append_nil]
    exact h.set_updater hseq ht .idle (s.currentBucketPos + 1) s.heap s.mainThreadFinished
      s.executingNode s.bucketMissionCount hok (by simpa [JobThread.hasStarted] using hS)
      (by simpa [JobThread.hasCleared] using hH) trivial fun hf => Nat.le_succ_of_le (h.finished hf)

theorem afterExecute_marks (count : Int) (next : Option Nat) :
    (JobSystem.afterExecute count next).hasStarted = false ∧
      (JobSystem.afterExecute count next).hasCleared = false := by
  unfold JobSystem.afterExecute
  split
  · exact ⟨rfl, rfl⟩
  · split <;> exact ⟨rfl, rfl⟩

theorem afterExecute_ok (count : Int) (next : Option Nat) (pos : Nat) :
    (JobSystem.afterExecute count next).Ok s₀ L pos := by
  unfold JobSystem.afterExecute
  split
  · trivial
  · split <;> trivial

theorem step (h : Tracks s₀ L s started) (hseq : s.Sequential) (e : JobEvent) :
    Tracks s₀ L (s.step e).1 (started ++ (s.step e).2) := by
  cases e with
  | pop w =>
    simp only [JobSystem.step]
    split
    · rename_i node rest hthread _
      rw [List.append_nil]
      exact h.set_worker (x := .running node) hthread rfl ⟨rfl, rfl⟩ trivial rest s.bucketMissionCount
    · simpa using h
  | execute w pushed next =>
    simp only [JobSystem.step]
    split
    · rename_i node hthread
      rw [List.append_nil]
      exact h.set_worker hthread rfl (afterExecute_marks _ next) (afterExecute_ok _ next _) _ _
    · simpa using h
  | update t =>
    simp only [JobSystem.step]
    split
    · exact h.update hseq ‹_›
    · simpa using h

theorem run (h : Tracks s₀ L s started) (events : List JobEvent) (hseq : Along Sequential s events) :
    Tracks s₀ L (s.run events).1 (started ++ (s.run events).2) := by
  induction events generalizing s started with
  | nil => simpa [JobSystem.run] using h
  | cons e es ih =>
    have := ih (h.step hseq.1 e) hseq.2
    rwa [List.append_assoc] at this

theorem executeBucket (hseq : (s₀.executeBucket L).Sequential) : Tracks s₀ L (s₀.executeBucket L) [] := by
  have hthreads : ∀ th ∈ (s₀.executeBucket L).threads,
      th = .updating .search ∨ th.isUpdating = false := by
    cases hs : s₀.threads with
    | nil => simp [JobSystem.executeBucket, hs]
    | cons th ths =>
      exact mem_sole hseq (t := 0) (by simp [JobSystem.executeBucket, hs])
  have hcount (p : JobThread → Bool) (hp : ∀ th, p th = true → th.isUpdating = true)
      (hsearch : p (.updating .search) = false) : (s₀.executeBucket L).threads.countP p = 0 :=
    List.countP_eq_zero.2 fun th hth hpth => by
      rcases hthreads th hth with rfl | hth
      · exact Bool.false_ne_true (hsearch ▸ hpth)
      · exact Bool.false_ne_true (hth ▸ hp th hpth)
  refine ⟨rfl, rfl, Nat.zero_le _, ?_, ?_, fun th hth => ?_, fun h => nomatch h⟩
  · rw [hcount _ (fun _ => JobThread.isUpdating_of_hasStarted) rfl]
    rfl
  · rw [hcount _ (fun _ => JobThread.isUpdating_of_hasCleared) rfl]
    funext a
    simp [clearedUpTo, JobSystem.executeBucket]
  · rcases hthreads th hth with rfl | hth
    · trivial
    · exact JobThread.ok_of_not_updating s₀ L hth _

end JobSystem.Tracks

end Tracks

theorem JobSystem.startedUpTo_prefix (s₀ : JobSystem) (L : List Nat) (n : Nat) :
    JobSystem.startedUpTo s₀ L n <+: s₀.toRun L := by
  rw [JobSystem.startedUpTo, JobSystem.toRun, JobSystem.toRun]
  conv_rhs => rw [← List.take_append_drop n L, firstOccurrences_append]
  exact List.IsPrefix.filter _ (List.prefix_append _ _)

/-- Whenever one thread at a time runs `UpdateNewBucket`, every run of `ExecuteBucket` on a list,
from any state, with any number of workers in any interleaving and whatever the nodes push and hand
on, starts buckets in the order of the list: those that have nodes and belong to the system, each at
its first place, so never one twice, nor one of another system or without nodes. By the time `Wait`
returns, all of them have started. -/
theorem bucket_order (s : JobSystem) (buckets : List Nat) (events : List JobEvent)
    (hseq : JobSystem.Along JobSystem.Sequential (s.executeBucket buckets) events) :
    ((s.executeBucket buckets).run events).2 <+: s.toRun buckets ∧
      (((s.executeBucket buckets).run events).1.mainThreadFinished = true →
        ((s.executeBucket buckets).run events).2 = s.toRun buckets) := by
  have hinit : (s.executeBucket buckets).Sequential := by
    cases events <;> [exact hseq; exact hseq.1]
  have h := (JobSystem.Tracks.executeBucket hinit).run events hseq
  rw [List.nil_append] at h
  refine ⟨h.started_eq ▸ JobSystem.startedUpTo_prefix s buckets _, fun hfin => ?_⟩
  rw [h.started_eq, JobSystem.startedUpTo, List.take_of_length_le (by have := h.finished hfin; omega)]

/-- A system at address 0 with a main thread and one worker, and three buckets: two independent
nodes at 1, one node at 2, and a bucket of another system at 3. -/
def sampleJobSystem : JobSystem :=
  ⟨0, fun a => if a = 1 then ⟨0, [10, 11], [10, 11]⟩ else if a = 2 then ⟨0, [20], [20]⟩ else ⟨1, [30], [30]⟩,
    [], 0, 0, [], true, [.idle, .idle]⟩

def sampleSequentialRun : List JobEvent :=
  List.replicate 7 (.update 0) ++ [.pop 0, .execute 0 [] none, .pop 0, .execute 0 [] none] ++
    List.replicate 6 (.update 1) ++ [.pop 0, .execute 0 [] none, .update 1, .update 1]

theorem bucket_order_sample :
    JobSystem.Along JobSystem.Sequential (sampleJobSystem.executeBucket [1, 2, 3]) sampleSequentialRun ∧
      ((sampleJobSystem.executeBucket [1, 2, 3]).run sampleSequentialRun).2 <+:
        sampleJobSystem.toRun [1, 2, 3] ∧
      (((sampleJobSystem.executeBucket [1, 2, 3]).run sampleSequentialRun).1.mainThreadFinished = true →
        ((sampleJobSystem.executeBucket [1, 2, 3]).run sampleSequentialRun).2 =
          sampleJobSystem.toRun [1, 2, 3]) :=
  ⟨by decide, bucket_order _ _ _ (by decide)⟩

/-! ### Two threads in `UpdateNewBucket` -/

namespace JobSystem

theorem run_nil (s : JobSystem) : s.run [] = (s, []) := rfl

theorem run_cons (s : JobSystem) (e : JobEvent) (es : List JobEvent) :
    s.run (e :: es) = (((s.step e).1.run es).1, (s.step e).2 ++ ((s.step e).1.run es).2) := rfl

theorem run_append (s : JobSystem) (es₁ es₂ : List JobEvent) :
    s.run (es₁ ++ es₂) = (((s.run es₁).1.run es₂).1, (s.run es₁).2 ++ ((s.run es₁).1.run es₂).2) := by
  induction es₁ generalizing s with
  | nil => rfl
  | cons e es ih => rw [List.cons_append, run_cons, ih, run_cons, List.append_assoc]

theorem run_push (σ : JobSystem) (t b i : Nat) (ht : σ.threads[t]? = some (.updating (.push b i))) :
    σ.run (List.replicate (((σ.heap b).executeJobs.drop i).length + 1) (.update t)) =
      ({ σ with executingNode := σ.executingNode ++ (σ.heap b).executeJobs.drop i,
                threads := σ.threads.set t (.updating (.clear b)) }, []) := by
  have htlen := (List.getElem?_eq_some_iff.1 ht).1
  obtain ⟨rem, hrem⟩ : ∃ rem, (σ.heap b).executeJobs.drop i = rem := ⟨_, rfl⟩
  induction rem generalizing σ i with
  | nil =>
    have hnone : (σ.heap b).executeJobs[i]? = none := by
      rw [← List.head?_drop, hrem, List.head?_nil]
    rw [hrem, List.length_nil, List.replicate_one, run_cons, run_nil]
    simp only [step, ht, updateStep, hnone, List.append_nil]
  | cons x rem ih =>
    have hsome : (σ.heap b).executeJobs[i]? = some x := by
      rw [← List.head?_drop, hrem, List.head?_cons]
    have hnext : (σ.heap b).executeJobs.drop (i + 1) = rem := by
      rw [← List.tail_drop, hrem, List.tail_cons]
    rw [hrem, List.length_cons, List.replicate_succ, run_cons]
    simp only [step, ht, updateStep, hsome]
    have hrest := ih
      { σ with
        executingNode := σ.executingNode ++ [x]
        threads := σ.threads.set t (.updating (.push b (i + 1))) }
      (i + 1) (by simp [List.getElem?_set, htlen]) (by simpa using htlen) hnext
    simp only [hnext] at hrest
    rw [hrest]
    simp [List.set_set]

theorem run_start (σ : JobSystem) (t b : Nat) (js : List Nat) (ht : σ.threads[t]? = some (.updating .search))
    (hb : σ.buckets[σ.currentBucketPos]? = some b) (hr : σ.runnable b = true)
    (hjs : (σ.heap b).executeJobs = js) :
    σ.run (.update t :: .update t :: List.replicate (js.length + 1) (.update t)) =
      ({ σ with bucketMissionCount := (σ.heap b).allJobNodes.length,
                executingNode := σ.executingNode ++ js,
                threads := σ.threads.set t (.updating (.clear b)) }, [b]) := by
  have htlen := (List.getElem?_eq_some_iff.1 ht).1
  rw [run_cons, run_cons]
  simp only [step, ht, updateStep, hb, hr, if_true, List.getElem?_set_self htlen, List.set_set]
  have hpush := run_push
    { σ with
      bucketMissionCount := (σ.heap b).allJobNodes.length
      threads := σ.threads.set t (.updating (.push b 0)) }
    t b 0 (by simp [List.getElem?_set, htlen])
  simp only [List.drop_zero, hjs] at hpush
  rw [hpush]
  simp [List.set_set]

theorem run_finish (σ : JobSystem) (t b : Nat) (ht : σ.threads[t]? = some (.updating (.clear b))) :
    σ.run [.update t, .update t] =
      ({ σ with heap := Function.update σ.heap b (σ.heap b).clear,
                currentBucketPos := σ.currentBucketPos + 1, threads := σ.threads.set t .idle }, []) := by
  have htlen := (List.getElem?_eq_some_iff.1 ht).1
  rw [run_cons, run_cons, run_nil]
  simp [step, ht, updateStep, List.getElem?_set_self htlen, List.set_set]

theorem run_drain (σ : JobSystem) (w : Nat) (js : List Nat) (hw : σ.threads[w + 1]? = some .idle)
    (hq : σ.executingNode = js) (hc : σ.bucketMissionCount = js.length) (hne : js ≠ []) :
    σ.run (js.flatMap fun _ => [.pop w, .execute w [] none]) =
      ({ σ with executingNode := [], bucketMissionCount := 0,
                threads := σ.threads.set (w + 1) (.updating .search) }, []) := by
  induction js generalizing σ with
  | nil => exact absurd rfl hne
  | cons j js ih =>
    have hwlen := (List.getElem?_eq_some_iff.1 hw).1
    rw [List.flatMap_cons, List.cons_append, List.cons_append, List.nil_append, run_cons, run_cons]
    simp only [step, hw, hq, List.getElem?_set_self hwlen, List.append_nil, hc]
    cases js with
    | nil =>
      simp [run_nil, afterExecute, List.set_set]
    | cons k ks =>
      have hcount : ((List.length (j :: k :: ks) : Nat) : Int) - 1 = (k :: ks).length := by
        simp
      have hpos : ((ks.length : Int) + 1) ≠ 0 := by omega
      rw [hcount, ih _ (by simp [afterExecute, hpos, List.getElem?_set, hwlen]) rfl rfl
        (List.cons_ne_nil _ _)]
      simp [afterExecute, List.set_set]

end JobSystem

/-- `UpdateNewBucket` is not atomic. Take any system with an idle worker and an empty queue, and
any list whose first bucket is runnable and holds only nodes with no dependency. Some interleaving of
the main thread and that worker starts the first bucket twice. In it the worker runs the bucket's
nodes after the main thread pushed them and before it cleared the bucket. The count falls to zero,
and the worker's own `UpdateNewBucket` finds the same bucket at the same position. So the nodes are
pushed again after they ran. Both threads then advance the position, so the bucket after the first is
never reached. -/
theorem update_new_bucket_race (s : JobSystem) (b c : Nat) (rest : List Nat)
    (hworker : s.threads[1]? = some .idle) (hqueue : s.executingNode = [])
    (hb : s.runnable b = true) (hready : (s.heap b).executeJobs = (s.heap b).allJobNodes) :
    ∃ events, ((s.executeBucket (b :: c :: rest)).run events).2 = [b, b] ∧
      ((s.executeBucket (b :: c :: rest)).run events).1.executingNode = (s.heap b).executeJobs ∧
      ((s.executeBucket (b :: c :: rest)).run events).1.currentBucketPos = 2 := by
  have hlen := (List.getElem?_eq_some_iff.1 hworker).1
  have hne : (s.heap b).executeJobs ≠ [] := by
    rw [hready]
    intro h
    simp [JobSystem.runnable, h] at hb
  refine ⟨(.update 0 :: .update 0 :: List.replicate ((s.heap b).executeJobs.length + 1) (.update 0)) ++
      (s.heap b).executeJobs.flatMap (fun _ => [.pop 0, .execute 0 [] none]) ++
      (.update 1 :: .update 1 :: List.replicate ((s.heap b).executeJobs.length + 1) (.update 1)) ++
      [.update 0, .update 0] ++ [.update 1, .update 1], ?_⟩
  simp only [JobSystem.run_append]
  rw [JobSystem.run_start _ 0 b _ ?_ ?_ ?_ ?_]
  rw [JobSystem.run_drain _ 0 _ ?_ ?_ ?_ hne]
  rw [JobSystem.run_start _ 1 b _ ?_ ?_ ?_ ?_]
  rw [JobSystem.run_finish _ 0 b ?_]
  rw [JobSystem.run_finish _ 1 b ?_]
  · simp [JobSystem.executeBucket]
  all_goals first
    | exact hb
    | simp [JobSystem.executeBucket, List.getElem?_set, hlen, hqueue, hready,
        List.ne_nil_of_length_pos (show 0 < s.threads.length by omega),
        (List.getElem?_eq_some_iff.1 hworker).2]

theorem update_new_bucket_race_sample :
    sampleJobSystem.threads[1]? = some .idle ∧ sampleJobSystem.executingNode = [] ∧
      sampleJobSystem.runnable 1 = true ∧
      (sampleJobSystem.heap 1).executeJobs = (sampleJobSystem.heap 1).allJobNodes ∧
      ∃ events, ((sampleJobSystem.executeBucket [1, 2, 3]).run events).2 = [1, 1] ∧
        ((sampleJobSystem.executeBucket [1, 2, 3]).run events).1.executingNode =
          (sampleJobSystem.heap 1).executeJobs ∧
        ((sampleJobSystem.executeBucket [1, 2, 3]).run events).1.currentBucketPos = 2 :=
  ⟨rfl, rfl, rfl, rfl, update_new_bucket_race sampleJobSystem 1 2 [3] rfl rfl rfl rfl⟩

end LuisaCompute
