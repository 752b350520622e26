import LuisaCompute.Ast.TypeParse
import Mathlib.Data.List.Forall2

/-!
# The type registry

`Type::of<T>()` keeps, per C++ type and thread, a `static thread_local` pointer that the thread's
first call initialises with `Type::from(TypeDesc<T>::description())`; `Type::from`, not among the
sources, is modelled from the spec: under the registry's lock it returns the registered type with
that description, appending one if there is none. A lookup touches only its own thread's pointer and,
under the lock, the registry, so every concurrent execution is a sequence of lookups by any threads
in any order (`TypeState.run`), and `type_of_identity` proves the registry's contract over all of
them from the invariant `TypeState.Consistent` and the injectivity of descriptions.
-/

namespace LuisaCompute

/-- Modelled from the spec: `TypeRegistry::_types`, the descriptions of the registered types in
registration order, each once. -/
structure TypeRegistry where
  types : List String
  nodup : types.Nodup

namespace TypeRegistry

def empty : TypeRegistry := ⟨[], List.nodup_nil⟩

/-- Modelled from the spec: `Type::from(description)` inside `with_types`: the position of the type
with this description, registered at the end if there was none. -/
def «from» (r : TypeRegistry) (description : String) : TypeRegistry × Nat :=
  match h : r.types.findIdx? (· == description) with
  | some i => (r, i)
  | none =>
    (⟨r.types ++ [description], List.nodup_append.2 ⟨r.nodup, List.nodup_singleton _,
      fun x hx hd => by
        have := List.findIdx?_eq_none_iff.1 h x hx
        simp_all⟩⟩, r.types.length)

theorem from_spec (r : TypeRegistry) (description : String) :
    (r.from description).1.types[(r.from description).2]? = some description ∧
      ∃ extra, (r.from description).1.types = r.types ++ extra ∧ ∀ d ∈ extra, d = description := by
  unfold «from»
  split
  · rename_i i h
    obtain ⟨hi, hfound, -⟩ := List.findIdx?_eq_some_iff_getElem.1 h
    exact ⟨by simpa [List.getElem?_eq_getElem hi] using hfound, [], (List.append_nil _).symm,
      by simp⟩
  · exact ⟨by simp, [description], rfl, by simp⟩

end TypeRegistry

theorem getElem?_append_of_eq_some {l extra : List String} {i : Nat} {d : String}
    (h : l[i]? = some d) : (l ++ extra)[i]? = some d := by
  rw [List.getElem?_append_left (List.getElem?_eq_some_iff.1 h).1, h]

section Lookups

variable {κ : Type} [DecidableEq κ] (shape : κ → Shape)

/-- The process's types: the registry, and for each thread and each C++ type `T` (a `κ`, whose
shape `TypeDesc<T>` describes) the `static thread_local` pointer once it is initialised. -/
structure TypeState (κ : Type) where
  registry : TypeRegistry
  cache : Nat → κ → Option Nat

def TypeState.init : TypeState κ := ⟨TypeRegistry.empty, fun _ _ => none⟩

def TypeState.of (s : TypeState κ) (thread : Nat) (k : κ) : TypeState κ × Nat :=
  match s.cache thread k with
  | some i => (s, i)
  | none =>
    let (registry, i) := s.registry.from (shape k).description
    (⟨registry, fun thread' k' => if thread' = thread ∧ k' = k then some i else s.cache thread' k'⟩, i)

def TypeState.run (s : TypeState κ) : List (Nat × κ) → TypeState κ × List Nat
  | [] => (s, [])
  | (thread, k) :: calls =>
    let (s', i) := s.of shape thread k
    let (s'', results) := s'.run calls
    (s'', i :: results)

/-- Every initialised pointer points at an entry with its type's description. -/
def TypeState.Consistent (s : TypeState κ) : Prop :=
  ∀ thread k i, s.cache thread k = some i → s.registry.types[i]? = some (shape k).description

theorem TypeState.of_spec {s : TypeState κ} (hs : s.Consistent shape) (thread : Nat) (k : κ) :
    (s.of shape thread k).1.Consistent shape ∧
      (s.of shape thread k).1.registry.types[(s.of shape thread k).2]? = some (shape k).description ∧
      ∃ extra, (s.of shape thread k).1.registry.types = s.registry.types ++ extra ∧
        ∀ d ∈ extra, d = (shape k).description := by
  unfold TypeState.of
  split
  · rename_i i hi
    exact ⟨hs, hs thread k i hi, [], (List.append_nil _).symm, by simp⟩
  · obtain ⟨hfound, extra, hgrow, hextra⟩ := s.registry.from_spec (shape k).description
    refine ⟨fun thread' k' i' hi' => ?_, hfound, extra, hgrow, hextra⟩
    dsimp only at hi' ⊢
    split at hi'
    · rename_i heq
      obtain ⟨-, rfl⟩ := heq
      exact Option.some.inj hi' ▸ hfound
    · exact hgrow ▸ getElem?_append_of_eq_some (hs thread' k' i' hi')

theorem TypeState.run_spec {s : TypeState κ} (hs : s.Consistent shape) (calls : List (Nat × κ)) :
    (s.run shape calls).1.Consistent shape ∧
      List.Forall₂ (fun c i => (s.run shape calls).1.registry.types[i]? = some (shape c.2).description)
        calls (s.run shape calls).2 ∧
      ∃ added, (s.run shape calls).1.registry.types = s.registry.types ++ added ∧
        ∀ d ∈ added, ∃ c ∈ calls, d = (shape c.2).description := by
  induction calls generalizing s with
  | nil => exact ⟨hs, .nil, [], (List.append_nil _).symm, by simp⟩
  | cons c calls ih =>
    obtain ⟨thread, k⟩ := c
    obtain ⟨hs₁, hfound, extra, hgrow, hextra⟩ := s.of_spec shape hs thread k
    obtain ⟨hs₂, hanswers, added, hadded, hfrom⟩ := ih hs₁
    refine ⟨hs₂, .cons (hadded ▸ getElem?_append_of_eq_some hfound) hanswers, extra ++ added,
      hadded.trans (by rw [hgrow, List.append_assoc]), fun d hd => ?_⟩
    rcases List.mem_append.1 hd with hd | hd
    · exact ⟨(thread, k), List.mem_cons_self _ _, hextra d hd⟩
    · obtain ⟨c, hc, rfl⟩ := hfrom d hd
      exact ⟨c, List.mem_cons_of_mem _ hc, rfl⟩

/-- For every sequence of `Type::of` calls from any threads, in any order, from the empty registry:
two calls return the same `Type` exactly when their types have the same shape; the registry holds
each description once, and only descriptions that were looked up. -/
theorem type_of_identity (calls : List (Nat × κ)) :
    (∀ p ∈ calls.zip (TypeState.init.run shape calls).2, ∀ q ∈ calls.zip (TypeState.init.run shape calls).2,
      p.2 = q.2 ↔ shape p.1.2 = shape q.1.2) ∧
      (TypeState.init.run shape calls).1.registry.types.Nodup ∧
      ∀ d ∈ (TypeState.init.run shape calls).1.registry.types, ∃ c ∈ calls, d = (shape c.2).description := by
  obtain ⟨-, hanswers, added, hadded, hfrom⟩ :=
    (TypeState.init (κ := κ)).run_spec shape (fun _ _ _ h => nomatch h) calls
  set types := (TypeState.init.run shape calls).1.registry.types
  have hnodup : types.Nodup := (TypeState.init.run shape calls).1.registry.nodup
  have hfind := @(List.forall₂_iff_zip.1 hanswers).2
  refine ⟨fun ⟨c, i⟩ hp ⟨c', i'⟩ hq => ?_, hnodup, fun d hd => hfrom d (by simpa [hadded, TypeState.init,
    TypeRegistry.empty] using hd)⟩
  have hp' := hfind hp
  have hq' := hfind hq
  show i = i' ↔ shape c.2 = shape c'.2
  constructor
  · rintro rfl
    have hdesc := Option.some.inj (hp'.symm.trans hq')
    exact Option.some.inj ((TypeParse.parse_description _).symm.trans
      (hdesc ▸ TypeParse.parse_description _))
  · intro h
    rw [h] at hp'
    exact List.getElem?_inj (List.getElem?_eq_some_iff.1 hp').1 hnodup (hp'.trans hq'.symm)

/-- Two threads ask for the type of a structure `struct<4,int,float>`: both get the first entry, and
the registry holds that one description. -/
example : (TypeState.init.run (fun _ : Unit => Shape.struct 4 [.scalar .int, .scalar .float])
      [(0, ()), (1, ())]).2 = [0, 0] := by
  decide

example : (TypeState.init.run (fun _ : Unit => Shape.struct 4 [.scalar .int, .scalar .float])
      [(0, ()), (1, ())]).1.registry.types = ["struct<4,int,float>"] := by
  decide

end Lookups

end LuisaCompute
