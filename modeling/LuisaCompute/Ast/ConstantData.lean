import Mathlib.Data.List.Nodup

/-!
# The constant store

`ConstantData` (`ast/constant_data.h`) stores the constant arrays kernel definitions embed: the header
declares an entry (copied bytes, a typed view, a 64-bit hash) and the static `create(view)` and
`view(hash)`, whose bodies are not among the sources. They are modelled from the spec, with the hash
function as a parameter: `create` stores a copy under the data's hash only if no entry has that hash
yet, and a `view` of a hash no `create` returned is a fatal error. The store is lock-guarded, so every
concurrent execution is a sequence of creates (`createAll`).
-/

namespace LuisaCompute

structure ConstantData (View : Type) where
  view : View
  hash : UInt64

section Store

variable {View : Type} (hash : View → UInt64)

/-- Modelled from the spec: the store, its entries in creation order. Each entry is registered under
the hash of its data, and no two entries share a hash. -/
structure ConstantStore where
  entries : List (ConstantData View)
  hash_eq : ∀ e ∈ entries, e.hash = hash e.view
  nodup : (entries.map ConstantData.hash).Nodup

namespace ConstantStore

def empty : ConstantStore hash := ⟨[], fun _ h => (nomatch h), List.nodup_nil⟩

variable {hash}

/-- Modelled from the spec: `ConstantData::view(hash)`. `none` is a hash that no `create` returned,
which the spec makes a fatal error. -/
def view (s : ConstantStore hash) (h : UInt64) : Option View :=
  (s.entries.find? (·.hash == h)).map ConstantData.view

def create (s : ConstantStore hash) (data : View) : ConstantStore hash × UInt64 :=
  match hfind : s.entries.find? (·.hash == hash data) with
  | some _ => (s, hash data)
  | none =>
    (⟨s.entries ++ [⟨data, hash data⟩],
      fun e he => (List.mem_append.1 he).elim (s.hash_eq e) fun he => by rw [List.mem_singleton.1 he],
      by
        rw [List.map_append]
        exact List.nodup_append.2 ⟨s.nodup, List.nodup_singleton _, fun x hx hd => by
          obtain ⟨e, he, rfl⟩ := List.mem_map.1 hx
          exact List.find?_eq_none.1 hfind e he (by simpa using hd)⟩⟩,
      hash data)

def createAll (s : ConstantStore hash) : List View → ConstantStore hash × List UInt64
  | [] => (s, [])
  | data :: rest =>
    let (s', h) := s.create data
    let (s'', hs) := s'.createAll rest
    (s'', h :: hs)

/-! ### One create -/

theorem create_snd (s : ConstantStore hash) (data : View) : (s.create data).2 = hash data := by
  unfold create
  split <;> rfl

theorem view_create (s : ConstantStore hash) (data : View) (h : UInt64) :
    (s.create data).1.view h = (s.view h).or (if hash data = h then some data else none) := by
  unfold create
  split
  · rename_i e hfind
    by_cases hh : hash data = h
    · subst hh
      simp [view, hfind]
    · simp [hh]
  · simp only [view, List.find?_append, List.find?_singleton, beq_iff_eq]
    split <;> cases List.find? _ s.entries <;> rfl

/-! ### Every sequence of creates -/

theorem createAll_snd (s : ConstantStore hash) (views : List View) :
    (s.createAll views).2 = views.map hash := by
  induction views generalizing s with
  | nil => rfl
  | cons data rest ih => simp only [createAll, List.map_cons, ← create_snd s data, ih]

theorem view_createAll (s : ConstantStore hash) (views : List View) (h : UInt64) :
    (s.createAll views).1.view h = (s.view h).or (views.find? (fun d => hash d == h)) := by
  induction views generalizing s with
  | nil => simp [createAll]
  | cons data rest ih =>
    simp only [createAll, ih, view_create, Option.or_assoc]
    by_cases hh : hash data = h
    · rw [if_pos hh, List.find?_cons_of_pos _ (by simpa using hh)]
      rfl
    · rw [if_neg hh, List.find?_cons_of_neg _ (by simpa using hh)]
      rfl

end ConstantStore

/-- For every sequence of creates on the empty store, from any threads: each returns the hash of its
data; `view` maps every hash to the first data created with it, and every other hash to the fatal
miss; and when the hash has no collisions among the data created, every data reads back through its
hash. -/
theorem constant_store_first_wins (views : List View) :
    ((ConstantStore.empty hash).createAll views).2 = views.map hash ∧
      (∀ h, ((ConstantStore.empty hash).createAll views).1.view h = views.find? (fun d => hash d == h)) ∧
      ((∀ a ∈ views, ∀ b ∈ views, hash a = hash b → a = b) →
        ∀ d ∈ views, ((ConstantStore.empty hash).createAll views).1.view (hash d) = some d) := by
  have hview (h : UInt64) := (ConstantStore.empty hash).view_createAll views h
  refine ⟨ConstantStore.createAll_snd _ views, fun h => hview h, fun hinj d hd => ?_⟩
  rw [hview]
  obtain ⟨x, hx⟩ := Option.isSome_iff_exists.1
    ((List.find?_isSome (p := fun x => hash x == hash d)).2 ⟨d, hd, beq_self_eq_true _⟩)
  have hxd : hash x = hash d := by simpa using List.find?_some hx
  rw [hx, hinj x (List.mem_of_find?_eq_some hx) d hd hxd]
  rfl

/-- A hash by length collides on `[1]` and `[2]`: the second create returns the first's hash, which
reads back the first. -/
example : ((ConstantStore.empty (fun d : List Nat => d.length.toUInt64)).createAll [[1], [2]]).2 = [1, 1] ∧
    ((ConstantStore.empty (fun d : List Nat => d.length.toUInt64)).createAll [[1], [2]]).1.view 1 = some [1] := by
  decide

end Store

end LuisaCompute
