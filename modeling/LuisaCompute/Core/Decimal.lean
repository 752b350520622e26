import Mathlib.Data.Nat.Digits
import Mathlib.Tactic.IntervalCases

/-!
# Decimal numerals

The canonical decimal numeral is the library's `Nat.toDigits 10`. The code prints numbers in decimal
in two places, the type descriptions of `type_registry.h` (array extents, structure alignments) and
the integer formatter of `vstring.h`, which writes digits backwards into a buffer; both are proved
against `Nat.toDigits` through `toDigits_eq_append`, which peels off the last digit.
-/

namespace LuisaCompute

namespace Decimal

theorem toDigitsCore_append (b f n : Nat) (ds : List Char) :
    Nat.toDigitsCore b f n ds = Nat.toDigitsCore b f n [] ++ ds := by
  induction f generalizing n ds with
  | zero => rfl
  | succ f ih =>
    simp only [Nat.toDigitsCore]
    split
    · rfl
    · rw [ih _ (_ :: ds), ih _ [_]]
      simp

/-- The fuel of `Nat.toDigitsCore` only has to exceed the number it prints. -/
theorem toDigitsCore_fuel {b : Nat} (hb : 2 ≤ b) {f g n : Nat} (hf : n < f) (hg : n < g)
    (ds : List Char) : Nat.toDigitsCore b f n ds = Nat.toDigitsCore b g n ds := by
  induction f generalizing g n ds with
  | zero => omega
  | succ f ih =>
    obtain ⟨g, rfl⟩ : ∃ g', g = g' + 1 := ⟨g - 1, by omega⟩
    simp only [Nat.toDigitsCore]
    split
    · rfl
    · rename_i hq
      have hn : 0 < n := Nat.pos_of_ne_zero fun h0 => hq (by simp [h0])
      have hlt : n / b < n := Nat.div_lt_self hn (by omega)
      exact ih (by omega) (by omega) _

theorem toDigits_of_lt {n : Nat} (hn : n < 10) : Nat.toDigits 10 n = [Nat.digitChar n] := by
  simp [Nat.toDigits, Nat.toDigitsCore, Nat.div_eq_of_lt hn, Nat.mod_eq_of_lt hn]

theorem toDigits_eq_append {n : Nat} (hn : 10 ≤ n) :
    Nat.toDigits 10 n = Nat.toDigits 10 (n / 10) ++ [Nat.digitChar (n % 10)] := by
  have hq : n / 10 ≠ 0 := by omega
  rw [Nat.toDigits, Nat.toDigitsCore, if_neg hq, toDigitsCore_append, Nat.toDigits,
    toDigitsCore_fuel (by norm_num) (g := n / 10 + 1) (by omega) (by omega)]

theorem digitChar_toNat {d : Nat} (hd : d < 10) : (Nat.digitChar d).toNat = 48 + d := by
  interval_cases d <;> rfl

/-- The character `'0' + d` that C++ code computes for a digit is the library's digit. -/
theorem ofNat_add_digit {d : Nat} (hd : d < 10) : Char.ofNat (48 + d) = Nat.digitChar d := by
  interval_cases d <;> rfl

theorem isDigit_digitChar {d : Nat} (hd : d < 10) : (Nat.digitChar d).isDigit = true := by
  interval_cases d <;> rfl

theorem isDigit_of_mem_toDigits {n : Nat} {c : Char} (hc : c ∈ Nat.toDigits 10 n) :
    c.isDigit = true := by
  induction n using Nat.strong_induction_on with
  | _ n ih =>
    rcases Nat.lt_or_ge n 10 with hn | hn
    · rw [toDigits_of_lt hn, List.mem_singleton] at hc
      exact hc ▸ isDigit_digitChar hn
    · rw [toDigits_eq_append hn, List.mem_append, List.mem_singleton] at hc
      rcases hc with hc | rfl
      · exact ih _ (by omega) hc
      · exact isDigit_digitChar (Nat.mod_lt n (by norm_num))

theorem toDigits_ne_nil (n : Nat) : Nat.toDigits 10 n ≠ [] := by
  rcases Nat.lt_or_ge n 10 with hn | hn
  · simp [toDigits_of_lt hn]
  · simp [toDigits_eq_append hn]

theorem eq_zero_of_toDigits_head? {n : Nat} (h : (Nat.toDigits 10 n).head? = some '0') : n = 0 := by
  induction n using Nat.strong_induction_on with
  | _ n ih =>
    rcases Nat.lt_or_ge n 10 with hn | hn
    · rw [toDigits_of_lt hn, List.head?_cons, Option.some.injEq] at h
      have := digitChar_toNat hn
      rw [h] at this
      exact (Nat.add_eq_left.1 this.symm)
    · rw [toDigits_eq_append hn, List.head?_append_of_ne_nil _ (toDigits_ne_nil _)] at h
      have := ih (n / 10) (by omega) h
      omega

/-- The number a run of decimal digits denotes, read most significant first. -/
def digitsValue (cs : List Char) : Nat :=
  cs.foldl (fun acc c => 10 * acc + (c.toNat - 48)) 0

theorem digitsValue_toDigits (n : Nat) : digitsValue (Nat.toDigits 10 n) = n := by
  induction n using Nat.strong_induction_on with
  | _ n ih =>
    rcases Nat.lt_or_ge n 10 with hn | hn
    · simp [toDigits_of_lt hn, digitsValue, digitChar_toNat hn]
    · have hlast := digitChar_toNat (Nat.mod_lt n (by norm_num : 10 > 0))
      rw [toDigits_eq_append hn, digitsValue, List.foldl_append, ← digitsValue, ih _ (by omega)]
      simp only [List.foldl_cons, List.foldl_nil, hlast]
      omega

theorem toDigits_length_le {n k : Nat} (hk : 0 < k) (hn : n < 10 ^ k) :
    (Nat.toDigits 10 n).length ≤ k := by
  induction k generalizing n with
  | zero => omega
  | succ k ih =>
    rcases Nat.lt_or_ge n 10 with h10 | h10
    · simp [toDigits_of_lt h10]
    · have hk' : 0 < k := Nat.pos_of_ne_zero fun h0 => by subst h0; omega
      have hq : n / 10 < 10 ^ k := by rw [pow_succ] at hn; omega
      have := ih hk' hq
      rw [toDigits_eq_append h10, List.length_append, List.length_singleton]
      omega

/-! ### The low digits of a number

The formatter peels nine digits at a time off a 64-bit value; `lowDigits k n` is what such a chunk
writes, zero padding included. -/

/-- The `k` lowest decimal digits of `n`, most significant first and padded with zeros. -/
def lowDigits : Nat → Nat → List Char
  | 0, _ => []
  | k + 1, n => lowDigits k (n / 10) ++ [Nat.digitChar (n % 10)]

theorem lowDigits_mod (k n : Nat) : lowDigits k (n % 10 ^ k) = lowDigits k n := by
  induction k generalizing n with
  | zero => rfl
  | succ k ih =>
    rw [lowDigits, lowDigits, pow_succ', Nat.mod_mul_right_div_self, ih, Nat.mod_mul_right_mod]

/-- A number of at least `k + 1` digits prints as its leading part followed by its `k` low
digits. -/
theorem toDigits_eq_append_lowDigits (k : Nat) {n : Nat} (hn : 10 ^ k ≤ n) :
    Nat.toDigits 10 n = Nat.toDigits 10 (n / 10 ^ k) ++ lowDigits k n := by
  induction k generalizing n with
  | zero => simp [lowDigits]
  | succ k ih =>
    have hpow : 10 ^ (k + 1) = 10 * 10 ^ k := pow_succ' 10 k
    have h10 : 10 ≤ n := le_trans (by have := Nat.one_le_pow k 10 (by norm_num); omega) hn
    have hq : 10 ^ k ≤ n / 10 := (Nat.le_div_iff_mul_le (by norm_num)).2 (by omega)
    rw [toDigits_eq_append h10, ih hq, lowDigits, hpow, Nat.div_div_eq_div_mul,
      List.append_assoc]

end Decimal

end LuisaCompute
