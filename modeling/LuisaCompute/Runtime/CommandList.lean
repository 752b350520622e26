import Mathlib.Data.List.Nodup

/-!
# The command list

`CommandList` (`runtime/command_list.h`) is an intrusive singly linked list: every command carries its
`_next`, the list keeps `_head` and `_tail`, and the header defines iteration (`begin()` is `_head`,
`end()` is `nullptr`, `++` follows `_next()`) and `empty()`. `append`, in `command_list.cpp`, is not
among the sources and is modelled from the spec: it links the command at the tail. Pointers are
addresses, `none` for `nullptr`, the `_next` fields form a heap, and `CommandList.Holds` ties a list and
a heap to the commands they stand for.
-/

namespace LuisaCompute

structure CommandList where
  head : Option Nat
  tail : Option Nat

namespace CommandList

def empty : CommandList := ⟨none, none⟩

def isEmpty (l : CommandList) : Bool := l.head.isNone

/-- `t->_set_next(cmd)`: the heap with the `_next` of `t` pointing at `cmd`. -/
def link (next : Nat → Option Nat) (t cmd : Nat) : Nat → Option Nat :=
  fun c => if c = t then some cmd else next c

@[simp] theorem link_self (next : Nat → Option Nat) (t cmd : Nat) : link next t cmd t = some cmd :=
  if_pos rfl

theorem link_ne (next : Nat → Option Nat) {t c : Nat} (cmd : Nat) (h : c ≠ t) :
    link next t cmd c = next c :=
  if_neg h

/-- Modelled from the spec: `append(cmd)` makes `cmd` the head of an empty list, and otherwise links
it after `_tail`; either way it becomes the tail. -/
def append (l : CommandList) (next : Nat → Option Nat) (cmd : Nat) :
    CommandList × (Nat → Option Nat) :=
  match l.tail with
  | none => (⟨some cmd, some cmd⟩, next)
  | some t => (⟨l.head, some cmd⟩, link next t cmd)

theorem append_next_of_ne {l : CommandList} {next : Nat → Option Nat} {cmd c : Nat}
    (hc : l.tail ≠ some c) : (l.append next cmd).2 c = next c := by
  unfold append
  split
  · rfl
  · rename_i t ht
    exact link_ne _ _ fun h => hc (h ▸ ht)

/-- A new list after `append(cmd)` for each command in turn, every command created with a null
`_next`. -/
def appendAll (cmds : List Nat) : CommandList × (Nat → Option Nat) :=
  cmds.foldl (fun s cmd => s.1.append s.2 cmd) (empty, fun _ => none)

/-- The commands `for (auto cmd : list)` visits from an iterator: `*it` until `it == end()`, with
`++it` following `_next()`. `fuel` bounds the steps. -/
def iterate (next : Nat → Option Nat) : Nat → Option Nat → Option (List Nat)
  | _, none => some []
  | 0, some _ => none
  | fuel + 1, some c => (c :: ·) <$> iterate next fuel (next c)

theorem iterate_some (next : Nat → Option Nat) (fuel c : Nat) :
    iterate next (fuel + 1) (some c) = (c :: ·) <$> iterate next fuel (next c) := rfl

/-- The list and the heap stand for the commands `cmds`, in order. -/
def Holds (l : CommandList) (next : Nat → Option Nat) (cmds : List Nat) : Prop :=
  cmds.Nodup ∧ l.head = cmds.head? ∧ l.tail = cmds.getLast? ∧ iterate next cmds.length l.head = some cmds

theorem holds_empty (next : Nat → Option Nat) : empty.Holds next [] :=
  ⟨List.nodup_nil, rfl, rfl, rfl⟩

theorem iterate_link {next : Nat → Option Nat} {cmds : List Nat} {p : Option Nat} {t cmd : Nat}
    (hchain : iterate next cmds.length p = some cmds) (hnodup : cmds.Nodup)
    (hlast : cmds.getLast? = some t) (hcmd : cmd ∉ cmds) (hfresh : next cmd = none) :
    iterate (link next t cmd) (cmds ++ [cmd]).length p = some (cmds ++ [cmd]) := by
  induction cmds generalizing p with
  | nil => cases hlast
  | cons d rest ih =>
    obtain ⟨p, rfl⟩ : ∃ q, p = some q := by cases p <;> simp_all [iterate]
    rw [List.length_cons, iterate_some] at hchain
    obtain ⟨hrest, rfl⟩ : iterate next rest.length (next p) = some rest ∧ p = d := by
      cases h : iterate next rest.length (next p) <;> simp_all
    have hcmd_ne : cmd ≠ t := fun h => hcmd (h ▸ List.mem_of_mem_getLast? hlast)
    rw [List.cons_append, List.length_cons, iterate_some]
    cases rest with
    | nil =>
      obtain rfl : p = t := by simpa using hlast
      simp [iterate, link_ne _ _ hcmd_ne, hfresh]
    | cons e rest' =>
      have hp_ne : p ≠ t := fun h => (List.nodup_cons.1 hnodup).1
        (h ▸ List.mem_of_mem_getLast? (by simpa using hlast))
      rw [link_ne _ _ hp_ne, ih hrest (List.nodup_cons.1 hnodup).2 (by simpa using hlast)
        (fun h => hcmd (List.mem_cons_of_mem _ h))]
      rfl

theorem append_holds {l : CommandList} {next : Nat → Option Nat} {cmds : List Nat} {cmd : Nat}
    (h : l.Holds next cmds) (hcmd : cmd ∉ cmds) (hfresh : next cmd = none) :
    (l.append next cmd).1.Holds (l.append next cmd).2 (cmds ++ [cmd]) := by
  obtain ⟨hnodup, hhead, htail, hchain⟩ := h
  have hnodup' : (cmds ++ [cmd]).Nodup := List.nodup_append.2
    ⟨hnodup, List.nodup_singleton _, fun x hx hy => hcmd (List.mem_singleton.1 hy ▸ hx)⟩
  unfold append
  cases htail' : l.tail with
  | none =>
    obtain rfl : cmds = [] := List.getLast?_eq_none_iff.1 (htail.symm.trans htail')
    exact ⟨hnodup', rfl, rfl, by simp [iterate, hfresh]⟩
  | some t =>
    have hlast : cmds.getLast? = some t := htail.symm.trans htail'
    have hne : cmds ≠ [] := fun h => by simp [h] at hlast
    refine ⟨hnodup', ?_, by simp, ?_⟩
    · rw [hhead, List.head?_append_of_ne_nil _ hne]
    · rw [hhead, ← hhead]
      exact iterate_link hchain hnodup hlast hcmd hfresh

theorem foldl_append_holds (cmds pre : List Nat) (s : CommandList × (Nat → Option Nat))
    (hpre : (pre ++ cmds).Nodup) (hs : s.1.Holds s.2 pre) (hfresh : ∀ c ∈ cmds, s.2 c = none) :
    (cmds.foldl (fun s cmd => s.1.append s.2 cmd) s).1.Holds
      (cmds.foldl (fun s cmd => s.1.append s.2 cmd) s).2 (pre ++ cmds) := by
  induction cmds generalizing pre s with
  | nil => simpa using hs
  | cons c cmds ih =>
    have hc : c ∉ pre := fun h => (List.nodup_append.1 hpre).2.2 h (List.mem_cons_self _ _)
    have hs' := append_holds hs hc (hfresh c (List.mem_cons_self _ _))
    have hfresh' : ∀ d ∈ cmds, (s.1.append s.2 c).2 d = none := fun d hd => by
      have hd_pre : d ∉ pre := fun h => (List.nodup_append.1 hpre).2.2 h (List.mem_cons_of_mem _ hd)
      rw [append_next_of_ne fun h => hd_pre (List.mem_of_mem_getLast? (hs.2.2.1.symm.trans h))]
      exact hfresh d (List.mem_cons_of_mem _ hd)
    simpa using ih (pre ++ [c]) _ (by simpa using hpre) hs' hfresh'

/-- Appending distinct fresh commands one by one to a new list: iterating the list visits exactly
those commands, in the order they were appended, and the list is empty exactly when none was. -/
theorem command_list_fifo (cmds : List Nat) (hnodup : cmds.Nodup) :
    iterate (appendAll cmds).2 cmds.length (appendAll cmds).1.head = some cmds ∧
      ((appendAll cmds).1.isEmpty = true ↔ cmds = []) := by
  obtain ⟨-, hhead, -, hchain⟩ :=
    foldl_append_holds cmds [] (empty, fun _ => none) hnodup (holds_empty _) (fun _ _ => rfl)
  rw [List.nil_append] at hhead hchain
  refine ⟨hchain, ?_⟩
  rw [isEmpty, appendAll, hhead]
  cases cmds <;> simp

theorem command_list_three : [1, 2, 3].Nodup ∧
    iterate (appendAll [1, 2, 3]).2 3 (appendAll [1, 2, 3]).1.head = some [1, 2, 3] :=
  ⟨by decide, (command_list_fifo [1, 2, 3] (by decide)).1⟩

end CommandList

end LuisaCompute
