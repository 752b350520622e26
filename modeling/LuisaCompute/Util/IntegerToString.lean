import LuisaCompute.Core.Decimal

/-!
# Integer formatting

`IntegerToString(_Val)`, `IntegerToString(_Val, str)` and `IntegerToWString(_Val)` (`vstring.h`)
share one body: a 21-element buffer is filled from its end by `UIntegral_to_buff`, one `*--_RNext = c`
per digit, a negative value being negated in the unsigned type and given a `'-'`; without `_WIN64`, a
64-bit value is first cut into nine-digit chunks. The buffer is seen from `_RNext` (the cells before
it, and what has been written), a write with no cell left is `none`, and every write loop is proved
equal to one `Buffer.prepend`, so that all paths prepend `Nat.toDigits 10` of their value.
-/

namespace LuisaCompute

/-- The buffer as `_RNext` sees it. -/
structure Buffer where
  /-- The cells before `_RNext`, nearest first. -/
  free : List Char
  /-- `[_RNext, _Buff_end)`: what has been written so far, in order. -/
  written : List Char

namespace Buffer

/-- `char _Buff[21]` with `_RNext = std::end(_Buff)`. Its cells are indeterminate in C++; nothing
reads them before they are written, so the model fills them with NUL. -/
def fresh : Buffer := ⟨List.replicate 21 (Char.ofNat 0), []⟩

/-- `*--_RNext = c`, or `none` when `_RNext` is already at the start of the buffer. -/
def write (b : Buffer) (c : Char) : Option Buffer :=
  match b.free with
  | _ :: free => some ⟨free, c :: b.written⟩
  | [] => none

def prepend (b : Buffer) (cs : List Char) : Option Buffer :=
  if cs.length ≤ b.free.length then some ⟨b.free.drop cs.length, cs ++ b.written⟩ else none

theorem write_eq_prepend (b : Buffer) (c : Char) : b.write c = b.prepend [c] := by
  obtain ⟨_ | ⟨x, free⟩, written⟩ := b <;> simp [write, prepend]

theorem prepend_nil (b : Buffer) : b.prepend [] = some b := by
  simp [prepend]

theorem prepend_bind_prepend (b : Buffer) (xs ys : List Char) :
    (b.prepend xs).bind (·.prepend ys) = b.prepend (ys ++ xs) := by
  by_cases hx : xs.length ≤ b.free.length
  · by_cases hy : ys.length + xs.length ≤ b.free.length
    · simp [prepend, hx, hy, Nat.le_sub_iff_add_le hx, List.drop_drop, Nat.add_comm]
    · simp [prepend, hx, hy, Nat.le_sub_iff_add_le hx]
  · have hyx : ¬ys.length + xs.length ≤ b.free.length := by omega
    simp [prepend, hx, hyx]

theorem fresh_prepend {cs : List Char} (h : cs.length ≤ 21) :
    ∃ b, fresh.prepend cs = some b ∧ b.written = cs :=
  ⟨_, if_pos (by simpa [fresh] using h), List.append_nil cs⟩

end Buffer

/-! ### The platform and the types -/

/-- What of the target `UIntegral_to_buff` reads: whether `_WIN64` is defined, and the width of
`unsigned long`, which C++ makes at least 32 bits. -/
structure Platform where
  win64 : Bool
  unsignedLongBits : Nat
  unsignedLongBits_ge : 32 ≤ unsignedLongBits

def Platform.unsignedLong (p : Platform) (x : Nat) : Nat := x % 2 ^ p.unsignedLongBits

inductive Width
  | w8
  | w16
  | w32
  | w64
  deriving DecidableEq, Repr

def Width.bytes : Width → Nat
  | .w8 => 1
  | .w16 => 2
  | .w32 => 4
  | .w64 => 8

def Width.bits (w : Width) : Nat := 8 * w.bytes

structure IntegralType where
  width : Width
  signed : Bool
  deriving DecidableEq, Repr

def IntegralType.bits (t : IntegralType) : Nat := t.width.bits

/-- The integer a value of the type denotes: its bits in two's complement when the type is signed. -/
def IntegralType.value (t : IntegralType) (v : BitVec t.bits) : Int :=
  if t.signed then v.toInt else v.toNat

theorem Platform.unsignedLong_of_lt (p : Platform) {x : Nat} (hx : x < 2 ^ 32) :
    p.unsignedLong x = x :=
  Nat.mod_eq_of_lt (lt_of_lt_of_le hx (Nat.pow_le_pow_right (by norm_num) p.unsignedLongBits_ge))

theorem Width.bits_le_of_bytes_le {w : Width} (hw : w.bytes ≤ 4) : w.bits ≤ 32 := by
  cases w <;> simp_all [Width.bits, Width.bytes]

theorem Width.bits_le (w : Width) : w.bits ≤ 64 := by
  cases w <;> simp [Width.bits, Width.bytes]

theorem IntegralType.two_pow_bits_le (t : IntegralType) : 2 ^ t.bits ≤ 2 ^ 64 :=
  Nat.pow_le_pow_right (by norm_num) t.width.bits_le

/-! ### The write loops -/

def digitOf (x : Nat) : Char := Char.ofNat (48 + x % 10)

def digitLoop (b : Buffer) (t : Nat) : Option Buffer :=
  (b.write (digitOf t)).bind fun b => if t / 10 = 0 then some b else digitLoop b (t / 10)
termination_by t
decreasing_by omega

/-- `for (int32_t _Idx = 0; _Idx != 9; ++_Idx) { *--_RNext = ...; _UVal_chunk /= 10; }`, with
`count` the iterations left. -/
def chunkDigits (b : Buffer) : (count : Nat) → (chunk : Nat) → Option Buffer
  | 0, _ => some b
  | count + 1, chunk => (b.write (digitOf chunk)).bind fun b => chunkDigits b count (chunk / 10)

def chunkLoop (p : Platform) (b : Buffer) (u : Nat) : Option (Buffer × Nat) :=
  if u > 0xFFFFFFFF then
    (chunkDigits b 9 (p.unsignedLong (u % 1000000000))).bind fun b => chunkLoop p b (u / 1000000000)
  else some (b, u)
termination_by u
decreasing_by omega

def uIntegralToBuff (p : Platform) (w : Width) (b : Buffer) (u : Nat) : Option Buffer :=
  if p.win64 then digitLoop b u
  else
    let chunked := if 4 < w.bytes then chunkLoop p b u else some (b, u)
    chunked.bind fun (b, u) => digitLoop b (p.unsignedLong u)

theorem digitOf_eq (x : Nat) : digitOf x = Nat.digitChar (x % 10) :=
  Decimal.ofNat_add_digit (Nat.mod_lt x (by norm_num))

theorem digitLoop_eq (b : Buffer) (t : Nat) : digitLoop b t = b.prepend (Nat.toDigits 10 t) := by
  induction t using Nat.strong_induction_on generalizing b with
  | _ t ih =>
    rw [digitLoop, Buffer.write_eq_prepend, digitOf_eq]
    by_cases ht : t / 10 = 0
    · simp only [ht, if_true, Option.bind_some]
      rw [Decimal.toDigits_of_lt (by omega), Nat.mod_eq_of_lt (by omega)]
    · simp only [ht, if_false, ih (t / 10) (by omega), Buffer.prepend_bind_prepend]
      rw [Decimal.toDigits_eq_append (show 10 ≤ t by omega)]

theorem chunkDigits_eq (b : Buffer) (count chunk : Nat) :
    chunkDigits b count chunk = b.prepend (Decimal.lowDigits count chunk) := by
  induction count generalizing b chunk with
  | zero => exact (Buffer.prepend_nil b).symm
  | succ count ih =>
    simp only [chunkDigits, Buffer.write_eq_prepend, digitOf_eq, ih, Buffer.prepend_bind_prepend,
      Decimal.lowDigits]

theorem chunkLoop_bind_digitLoop (p : Platform) (b : Buffer) (u : Nat) :
    (chunkLoop p b u).bind (fun (b, u) => digitLoop b (p.unsignedLong u)) =
      b.prepend (Nat.toDigits 10 u) := by
  induction u using Nat.strong_induction_on generalizing b with
  | _ u ih =>
    rw [chunkLoop]
    by_cases hu : u > 0xFFFFFFFF
    · have hlt : u / 1000000000 < u := by omega
      have hchunk : p.unsignedLong (u % 1000000000) = u % 10 ^ 9 :=
        p.unsignedLong_of_lt (Nat.lt_of_lt_of_le (Nat.mod_lt u (by norm_num)) (by norm_num))
      simp only [hu, if_true, hchunk, Option.bind_assoc, chunkDigits_eq, Decimal.lowDigits_mod,
        ih _ hlt, Buffer.prepend_bind_prepend]
      rw [Decimal.toDigits_eq_append_lowDigits 9 (show 10 ^ 9 ≤ u by norm_num; omega)]
      rfl
    · simp only [hu, if_false, Option.some_bind]
      rw [p.unsignedLong_of_lt (by omega), digitLoop_eq]

theorem uIntegralToBuff_eq (p : Platform) (w : Width) (b : Buffer) {u : Nat} (hu : u < 2 ^ w.bits) :
    uIntegralToBuff p w b u = b.prepend (Nat.toDigits 10 u) := by
  unfold uIntegralToBuff
  by_cases hwin : p.win64
  · rw [if_pos hwin, digitLoop_eq]
  rw [if_neg hwin]
  by_cases hbig : 4 < w.bytes
  · simp only [hbig, if_true, chunkLoop_bind_digitLoop]
  · have hsmall : u < 2 ^ 32 :=
      lt_of_lt_of_le hu (Nat.pow_le_pow_right (by norm_num) (w.bits_le_of_bytes_le (by omega)))
    simp only [hbig, if_false, Option.some_bind]
    rw [p.unsignedLong_of_lt hsmall, digitLoop_eq]

/-! ### The three functions -/

/-- The body `IntegerToString(_Val)`, `IntegerToString(_Val, str)` and `IntegerToWString(_Val)`
share, up to the final `_RNext`. `_UVal` is the bits of `_Val` read unsigned, and
`static_cast<_UTy>(0 - _UVal)` is their negation modulo `2 ^ bits`. -/
def integerToBuff (p : Platform) (t : IntegralType) (v : BitVec t.bits) : Option Buffer :=
  if t.value v < 0 then
    (uIntegralToBuff p t.width Buffer.fresh (0 - v).toNat).bind (·.write '-')
  else uIntegralToBuff p t.width Buffer.fresh v.toNat

def integerToString (p : Platform) (t : IntegralType) (v : BitVec t.bits) : Option String :=
  (fun b => String.mk b.written) <$> integerToBuff p t v

def integerToStringAppend (p : Platform) (t : IntegralType) (v : BitVec t.bits) (str : String) :
    Option String :=
  (fun b => str ++ String.mk b.written) <$> integerToBuff p t v

/-- `IntegerToWString(_Val)`: `wstring(_RNext, _Buff_end)`. `wchar_t` holds the same codes as `char`
for `'-'` and the digits, so a wide string is a `String` here too. -/
def integerToWString (p : Platform) (t : IntegralType) (v : BitVec t.bits) : Option String :=
  (fun b => String.mk b.written) <$> integerToBuff p t v

theorem toString_int_data (i : Int) :
    (toString i).data = if i < 0 then '-' :: Nat.toDigits 10 i.natAbs else Nat.toDigits 10 i.natAbs := by
  cases i with
  | ofNat n => exact (if_neg (Int.not_lt.2 (Int.ofNat_nonneg n))).symm
  | negSucc n => exact (if_pos (Int.negSucc_lt_zero n)).symm

/-- `_Val < 0` exactly when the value is minus `static_cast<_UTy>(0 - _UVal)`, which is then at most
half the range; otherwise the value is `_UVal`. -/
theorem IntegralType.value_cases (t : IntegralType) (v : BitVec t.bits) :
    (t.value v < 0 ∧ t.value v = -((0 - v).toNat : Int) ∧ 2 * (0 - v).toNat ≤ 2 ^ t.bits) ∨
      (¬t.value v < 0 ∧ t.value v = v.toNat) := by
  unfold IntegralType.value
  cases t.signed
  · exact .inr ⟨by simp, if_neg Bool.false_ne_true⟩
  simp only [if_true, BitVec.toInt_eq_toNat_cond, BitVec.ofNat_eq_ofNat, BitVec.zero_sub,
    BitVec.toNat_neg]
  have hlt := v.isLt
  split
  · exact .inr ⟨by omega, rfl⟩
  · rw [Nat.mod_eq_of_lt (by omega)]
    exact .inl ⟨by omega, by omega, by omega⟩

theorem integerToBuff_written (p : Platform) (t : IntegralType) (v : BitVec t.bits) :
    ∃ b, integerToBuff p t v = some b ∧ b.written = (toString (t.value v)).data := by
  have hdigits : ∀ u < 2 ^ t.bits, (Nat.toDigits 10 u).length ≤ 20 := fun u hu =>
    Decimal.toDigits_length_le (by norm_num) (lt_of_lt_of_le hu (t.two_pow_bits_le.trans (by norm_num)))
  rw [toString_int_data, integerToBuff]
  rcases t.value_cases v with ⟨hneg, hvalue, -⟩ | ⟨hneg, hvalue⟩
  · have hlen := hdigits (0 - v).toNat (BitVec.isLt _)
    rw [if_pos hneg, if_pos hneg, hvalue, Int.natAbs_neg, Int.natAbs_ofNat,
      uIntegralToBuff_eq p t.width _ (BitVec.isLt _)]
    simp only [Buffer.write_eq_prepend, Buffer.prepend_bind_prepend]
    exact Buffer.fresh_prepend (by simp only [List.length_append, List.length_singleton]; omega)
  · rw [if_neg hneg, if_neg hneg, hvalue, Int.natAbs_ofNat, uIntegralToBuff_eq p t.width _ v.isLt]
    exact Buffer.fresh_prepend (by have := hdigits v.toNat v.isLt; omega)

/-- For every platform, every integral type of 8, 16, 32 or 64 bits, signed or unsigned, and every
value of it, the three formatters write only inside their buffer and return Lean's decimal numeral
of the value: a `'-'` for a negative value, then the digits of its magnitude with no leading zero,
`"0"` for zero. And without `_WIN64`, the chunked path for 64-bit values writes the same buffer as
the plain digit loop of `_WIN64`, from every buffer and for every 64-bit value. -/
theorem integer_to_string_canonical (p : Platform) (t : IntegralType) (v : BitVec t.bits)
    (str : String) :
    integerToString p t v = some (toString (t.value v)) ∧
      integerToStringAppend p t v str = some (str ++ toString (t.value v)) ∧
      integerToWString p t v = some (toString (t.value v)) ∧
      ∀ (b : Buffer) (u : BitVec 64),
        uIntegralToBuff { p with win64 := false } .w64 b u.toNat =
          uIntegralToBuff { p with win64 := true } .w64 b u.toNat := by
  obtain ⟨b, hb, hwritten⟩ := integerToBuff_written p t v
  refine ⟨?_, ?_, ?_, fun b u => ?_⟩
  · simp [integerToString, hb, hwritten]
  · simp [integerToStringAppend, hb, hwritten]
  · simp [integerToWString, hb, hwritten]
  · rw [uIntegralToBuff_eq _ .w64 _ u.isLt, uIntegralToBuff_eq _ .w64 _ u.isLt]

/-! ### The numeral read back -/

theorem numeral_length_le (t : IntegralType) (v : BitVec t.bits) :
    ((if t.value v < 0 then ['-'] else []) ++ Nat.toDigits 10 (t.value v).natAbs).length ≤ 20 := by
  have h64 : 2 ^ t.bits ≤ 18446744073709551616 := t.two_pow_bits_le.trans (by norm_num)
  rcases t.value_cases v with ⟨hneg, hvalue, hhalf⟩ | ⟨hneg, hvalue⟩
  · rw [if_pos hneg, hvalue, Int.natAbs_neg, Int.natAbs_ofNat, List.length_append,
      List.length_singleton]
    have := Decimal.toDigits_length_le (k := 19) (by norm_num)
      (lt_of_le_of_lt (show (0 - v).toNat ≤ 9223372036854775808 by omega) (by norm_num))
    omega
  · rw [if_neg hneg, hvalue, Int.natAbs_ofNat, List.nil_append]
    exact Decimal.toDigits_length_le (by norm_num) (show v.toNat < 10 ^ 20 by have := v.isLt; norm_num; omega)

/-- What `IntegerToString(_Val)` returns, read as a numeral without reference to Lean's printing: a
`'-'` exactly when the value is negative, then a nonempty run of decimal digits with no leading zero
unless it is `"0"`, which denotes the magnitude of the value; at most 20 characters in all. -/
theorem integer_to_string_reads_back (p : Platform) (t : IntegralType) (v : BitVec t.bits) :
    ∃ digits, integerToString p t v = some (String.mk ((if t.value v < 0 then ['-'] else []) ++ digits)) ∧
      digits ≠ [] ∧ (∀ c ∈ digits, c.isDigit) ∧ (digits.head? = some '0' → digits = ['0']) ∧
      Decimal.digitsValue digits = (t.value v).natAbs ∧
      ((if t.value v < 0 then ['-'] else []) ++ digits).length ≤ 20 := by
  obtain ⟨b, hb, hwritten⟩ := integerToBuff_written p t v
  refine ⟨Nat.toDigits 10 (t.value v).natAbs, ?_, Decimal.toDigits_ne_nil _,
    fun c hc => Decimal.isDigit_of_mem_toDigits hc, fun h => ?_, Decimal.digitsValue_toDigits _,
    numeral_length_le t v⟩
  · rw [integerToString, hb]
    show some (String.mk b.written) = _
    rw [hwritten, toString_int_data]
    split <;> rfl
  · rw [Decimal.eq_zero_of_toDigits_head? h]
    rfl

end LuisaCompute
