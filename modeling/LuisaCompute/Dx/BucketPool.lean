import LuisaCompute.Dx.JobSystem
import Mathlib.Data.List.Nodup

/-!
# The bucket pool

A client gets buckets from `GetJobBucket` and gives them back with `ReleaseJobBucket`
(`JobSystem.cpp`): a new bucket is recorded in `usedBuckets`, which the destructor deletes, one given
back goes to `releasedBuckets`, and `GetJobBucket` reuses the last one given back before making a new
one. Neither call takes a lock, so the model is one client's sequence of calls, the client giving back
only buckets it holds; the invariant `BucketPool.Owned` says that its hand and `releasedBuckets` are,
together, the buckets created, each once.
-/

namespace LuisaCompute

@[simp] theorem JobBucket.clear_sys (b : JobBucket) : b.clear.sys = b.sys := rfl

@[simp] theorem JobBucket.sys_update_clear (heap : Nat → JobBucket) (c b : Nat) :
    (Function.update heap c (heap c).clear b).sys = (heap b).sys := by
  by_cases hb : b = c
  · subst hb
    simp
  · rw [Function.update_noteq hb]

/-- The buckets `GetJobBucket` and `ReleaseJobBucket` manage: the system's address, the buckets'
contents, `usedBuckets` (every bucket the system created, which its destructor deletes),
`releasedBuckets` (those given back), and the address at which `new` places the next bucket. -/
structure BucketPool where
  this : Nat
  heap : Nat → JobBucket
  usedBuckets : List Nat
  releasedBuckets : List Nat
  fresh : Nat

namespace BucketPool

def empty (this : Nat) (heap : Nat → JobBucket) (fresh : Nat) : BucketPool := ⟨this, heap, [], [], fresh⟩

/-- `GetJobBucket()`: the last bucket given back, emptied, or a `new JobBucket(this)` recorded in
`usedBuckets`. -/
def getJobBucket (p : BucketPool) : BucketPool × Nat :=
  match p.releasedBuckets.getLast? with
  | none =>
    ({ p with heap := Function.update p.heap p.fresh ⟨p.this, [], []⟩,
              usedBuckets := p.usedBuckets ++ [p.fresh], fresh := p.fresh + 1 }, p.fresh)
  | some cur =>
    ({ p with heap := Function.update p.heap cur (p.heap cur).clear,
              releasedBuckets := p.releasedBuckets.dropLast }, cur)

def releaseJobBucket (p : BucketPool) (b : Nat) : BucketPool :=
  { p with heap := Function.update p.heap b (p.heap b).clear, releasedBuckets := p.releasedBuckets ++ [b] }

end BucketPool

inductive PoolCall
  | get
  | release (i : Nat)

namespace BucketPool

/-- A client's calls from the pool `p` with the buckets `held` in hand: the pool after them, and the
buckets in hand. Giving back a bucket it does not hold is not a call it makes. -/
def clientRun (p : BucketPool) (held : List Nat) : List PoolCall → BucketPool × List Nat
  | [] => (p, held)
  | .get :: calls => p.getJobBucket.1.clientRun (held ++ [p.getJobBucket.2]) calls
  | .release i :: calls =>
    match held[i]? with
    | some b => (p.releaseJobBucket b).clientRun (held.erase b) calls
    | none => p.clientRun held calls

/-- Every bucket the pool created is in the client's hand or given back, once; all are of this
system, below `fresh`. -/
structure Owned (p : BucketPool) (held : List Nat) : Prop where
  perm : (held ++ p.releasedBuckets).Perm p.usedBuckets
  nodup : p.usedBuckets.Nodup
  lt_fresh : ∀ b ∈ p.usedBuckets, b < p.fresh
  sys : ∀ b ∈ p.usedBuckets, (p.heap b).sys = p.this

namespace Owned

variable {p : BucketPool} {held : List Nat}

theorem empty (this : Nat) (heap : Nat → JobBucket) (fresh : Nat) : Owned (BucketPool.empty this heap fresh) [] :=
  ⟨List.Perm.refl _, List.nodup_nil, fun _ h => (nomatch h), fun _ h => (nomatch h)⟩

theorem getJobBucket_new (h : Owned p held) (hnone : p.releasedBuckets.getLast? = none) :
    Owned { p with heap := Function.update p.heap p.fresh ⟨p.this, [], []⟩,
                   usedBuckets := p.usedBuckets ++ [p.fresh], fresh := p.fresh + 1 }
      (held ++ [p.fresh]) := by
  have hfresh : p.fresh ∉ p.usedBuckets := fun hf => Nat.lt_irrefl _ (h.lt_fresh _ hf)
  have hrel : p.releasedBuckets = [] := List.getLast?_eq_none_iff.1 hnone
  refine ⟨?_, h.nodup.append (List.nodup_singleton _) (List.disjoint_singleton.2 hfresh), ?_, ?_⟩
  · simpa [hrel] using h.perm.append_right [p.fresh]
  · simp only [List.mem_append, List.mem_singleton]
    rintro b (hb | rfl)
    · exact Nat.lt_succ_of_lt (h.lt_fresh b hb)
    · exact Nat.lt_succ_self _
  · simp only [List.mem_append, List.mem_singleton]
    rintro b (hb | rfl)
    · rw [Function.update_noteq (by rintro rfl; exact hfresh hb)]
      exact h.sys b hb
    · simp

theorem getJobBucket_reuse (h : Owned p held) {cur : Nat} (hcur : p.releasedBuckets.getLast? = some cur) :
    Owned { p with heap := Function.update p.heap cur (p.heap cur).clear,
                   releasedBuckets := p.releasedBuckets.dropLast } (held ++ [cur]) := by
  refine ⟨List.Perm.trans ?_ h.perm, h.nodup, h.lt_fresh, fun b hb => by simpa using h.sys b hb⟩
  obtain ⟨rs, hrs⟩ : ∃ rs, p.releasedBuckets = rs ++ [cur] :=
    ⟨_, (List.dropLast_append_getLast? cur hcur).symm⟩
  rw [hrs, List.dropLast_concat, List.append_assoc]
  exact List.Perm.append_left _ List.perm_append_comm

theorem getJobBucket (h : Owned p held) : Owned p.getJobBucket.1 (held ++ [p.getJobBucket.2]) := by
  unfold BucketPool.getJobBucket
  split
  · exact h.getJobBucket_new ‹_›
  · exact h.getJobBucket_reuse ‹_›

theorem releaseJobBucket (h : Owned p held) {b : Nat} (hb : b ∈ held) :
    Owned (p.releaseJobBucket b) (held.erase b) := by
  refine ⟨?_, h.nodup, h.lt_fresh, fun c hc => by simpa [BucketPool.releaseJobBucket] using h.sys c hc⟩
  show (held.erase b ++ (p.releasedBuckets ++ [b])).Perm p.usedBuckets
  rw [← List.append_assoc]
  exact (List.perm_append_singleton _ _).trans
    (((List.perm_cons_erase hb).symm.append_right _).trans h.perm)

theorem getJobBucket_empty (h : Owned p held) : p.getJobBucket.1.heap p.getJobBucket.2 = ⟨p.this, [], []⟩ := by
  unfold BucketPool.getJobBucket
  split
  · simp
  · rename_i cur hcur
    have hused : cur ∈ p.usedBuckets :=
      h.perm.subset (List.mem_append_right _ (List.mem_of_mem_getLast? hcur))
    simp [JobBucket.clear, ← h.sys cur hused]

theorem clientRun (h : Owned p held) (calls : List PoolCall) :
    Owned (p.clientRun held calls).1 (p.clientRun held calls).2 := by
  induction calls generalizing p held with
  | nil => exact h
  | cons call calls ih =>
    cases call with
    | get => exact ih h.getJobBucket
    | release i =>
      simp only [BucketPool.clientRun]
      split
      · rename_i b hb
        exact ih (h.releaseJobBucket (List.mem_iff_getElem?.2 ⟨i, hb⟩))
      · exact ih h

end Owned

theorem this_clientRun (p : BucketPool) (held : List Nat) (calls : List PoolCall) :
    (p.clientRun held calls).1.this = p.this := by
  induction calls generalizing p held with
  | nil => rfl
  | cons call calls ih =>
    cases call with
    | get =>
      rw [clientRun, ih]
      unfold getJobBucket
      split <;> rfl
    | release i =>
      simp only [clientRun]
      split <;> exact ih _ _

end BucketPool

/-- For every sequence of `GetJobBucket` and `ReleaseJobBucket` calls from a client that gives back
only buckets it holds: the buckets in its hand and those given back are, together, the buckets the
system created, each once, so the destructor deletes each once and no bucket is handed out while it
is held; every one belongs to this system; and the next `GetJobBucket` hands out an empty one. -/
theorem bucket_pool_ownership (this : Nat) (heap : Nat → JobBucket) (fresh : Nat) (calls : List PoolCall) :
    (((BucketPool.empty this heap fresh).clientRun [] calls).2 ++
        ((BucketPool.empty this heap fresh).clientRun [] calls).1.releasedBuckets).Perm
      ((BucketPool.empty this heap fresh).clientRun [] calls).1.usedBuckets ∧
      ((BucketPool.empty this heap fresh).clientRun [] calls).1.usedBuckets.Nodup ∧
      (∀ b ∈ ((BucketPool.empty this heap fresh).clientRun [] calls).1.usedBuckets,
        (((BucketPool.empty this heap fresh).clientRun [] calls).1.heap b).sys = this) ∧
      ((BucketPool.empty this heap fresh).clientRun [] calls).1.getJobBucket.1.heap
          ((BucketPool.empty this heap fresh).clientRun [] calls).1.getJobBucket.2 = ⟨this, [], []⟩ := by
  have h := (BucketPool.Owned.empty this heap fresh).clientRun calls
  have hthis := BucketPool.this_clientRun (BucketPool.empty this heap fresh) [] calls
  exact ⟨h.perm, h.nodup, fun b hb => (h.sys b hb).trans hthis, h.getJobBucket_empty.trans (by rw [hthis]; rfl)⟩

/-- A bucket given back twice is handed out twice. -/
example :
    let p := (((BucketPool.empty 0 (fun _ => ⟨0, [], []⟩) 5).getJobBucket.1).releaseJobBucket 5).releaseJobBucket 5
    p.getJobBucket.2 = 5 ∧ p.getJobBucket.1.getJobBucket.2 = 5 := by
  decide

end LuisaCompute
