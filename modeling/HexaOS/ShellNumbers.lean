import HexaOS.ShellText
import Mathlib.Data.Nat.Digits.Lemmas

/-!
# Numbers as the shell writes and reads them

itoa writes the digits of a number, hex_val and the loops around it read hexadecimal ones,
and atoi reads decimal ones up to the first character that is none. Every numeral of itoa
in base 16 is read back by the former, and by atoi only when it has one decimal digit.
-/

namespace HexaOS.Shell

open DevicePrograms PackedBytes Hexafs Kernel

/-- The character of a digit. -/
def digitChar (digit : ℕ) : UInt8 :=
  if 9 < digit then UInt8.ofNat (digit - 10 + 65) else UInt8.ofNat (digit + 48)

/-- The digits of a number, the first one first. Zero has one digit. -/
def numeral (base n : ℕ) : List ℕ := if n = 0 then [0] else (Nat.digits base n).reverse

/-- The number that some digits stand for. -/
def valueOf (base : ℕ) (digits : List ℕ) : ℕ := digits.foldl (fun n digit => n * base + digit) 0

section Numerals

variable {base n k : ℕ}

/-- A numeral stands for its number. -/
theorem valueOf_numeral (base n : ℕ) : valueOf base (numeral base n) = n := by
  rw [numeral]
  split
  · next hzero =>
    rw [hzero, valueOf, List.foldl_cons, List.foldl_nil, Nat.zero_mul]
  · rw [valueOf, List.foldl_reverse]
    have hvalue := Nat.ofDigits_digits base n
    rw [Nat.ofDigits_eq_foldr] at hvalue
    conv_rhs => rw [← hvalue]
    refine List.foldr_ext _ _ _ fun digit _ rest => ?_
    rw [Nat.cast_id, Nat.add_comm, Nat.mul_comm]

/-- The digits of a numeral. -/
theorem lt_of_mem_numeral (hbase : 1 < base) {digit : ℕ} (h : digit ∈ numeral base n) :
    digit < base := by
  rw [numeral] at h
  split at h
  · rw [List.mem_singleton.mp h]
    omega
  · exact Nat.digits_lt_base hbase (List.mem_reverse.mp h)

/-- How many digits a numeral has. -/
theorem length_numeral_le (hbase : 1 < base) (hk : 0 < k) (hn : n < base ^ k) :
    (numeral base n).length ≤ k := by
  rw [numeral]
  split
  · exact hk
  · rw [List.length_reverse]
    exact (Nat.digits_length_le_iff hbase n).mpr hn

/-- The loop of itoa writes the digits. -/
theorem itoaDigits_eq (hbase : 1 < base) (fuel : ℕ) (hn : n < base ^ fuel) :
    itoaDigits base fuel n = (Nat.digits base n).map digitChar := by
  induction fuel generalizing n with
  | zero =>
    have hzero : n = 0 := Nat.lt_one_iff.mp hn
    rw [hzero, Nat.digits_zero]
    rfl
  | succ fuel ih =>
    by_cases hzero : n = 0
    · rw [hzero, Nat.digits_zero]
      rfl
    · have hdiv : n / base < base ^ fuel := by
        rw [Nat.pow_succ] at hn
        exact Nat.div_lt_of_lt_mul (by rwa [Nat.mul_comm] at hn)
      rw [itoaDigits, if_neg hzero, Nat.digits_def' hbase (Nat.pos_of_ne_zero hzero),
        List.map_cons, ← ih hdiv]
      rfl

/-- itoa in base 16 writes the numeral. -/
theorem itoa_hex (value : UInt32) :
    itoa value.toInt32 16 = (numeral 16 value.toNat).map digitChar := by
  have hback : value.toInt32.toUInt32 = value := UInt32.toUInt32_toInt32 value
  rw [itoa, numeral]
  by_cases hzero : value = 0
  · rw [hzero]
    exact rfl
  · have hne : value.toInt32 ≠ 0 := by
      intro hsame
      rw [hsame] at hback
      exact hzero hback.symm
    have hnat : value.toNat ≠ 0 := fun hnone => hzero (UInt32.toNat_inj.mp hnone)
    have hlt : value.toNat < 16 ^ 32 := value.toNat_lt.trans (by decide)
    rw [if_neg hne, if_neg fun hboth => absurd hboth.1 (by decide), if_neg hnat, hback,
      itoaDigits_eq (by decide) 32 hlt, List.map_reverse]

/-- A numeral of itoa in base 16 has at most eight characters. -/
theorem length_itoa_hex_le (hk : 0 < k) {value : UInt32} (hvalue : value.toNat < 16 ^ k) :
    (itoa value.toInt32 16).length ≤ k := by
  rw [itoa_hex, List.length_map]
  exact length_numeral_le (by decide) hk hvalue

end Numerals

section Reading

/-- A hexadecimal digit is read back from its character. -/
theorem hexVal_digitChar {digit : ℕ} (h : digit < 16) :
    hexVal (digitChar digit) = UInt32.ofNat digit ∧ digitChar digit ≠ 0 := by
  have hall : ∀ digit < 16, hexVal (digitChar digit) = UInt32.ofNat digit ∧
      digitChar digit ≠ 0 := by decide
  exact hall digit h

/-- Characters of digits are read back as the number that the digits stand for. -/
theorem foldHex_map {digits : List ℕ} (h : ∀ digit ∈ digits, digit < 16) :
    foldHex (digits.map digitChar) = UInt32.ofNat (valueOf 16 digits) := by
  have hfold : ∀ start : ℕ, (digits.map digitChar).foldl (fun n c => n * 16 + hexVal c)
      (UInt32.ofNat start) = UInt32.ofNat (digits.foldl (fun n digit => n * 16 + digit) start) := by
    induction digits with
    | nil => exact fun _ => rfl
    | cons digit digits ih =>
      intro start
      have hfirst := (hexVal_digitChar (h digit List.mem_cons_self)).1
      have hstep : UInt32.ofNat start * 16 + hexVal (digitChar digit) =
          UInt32.ofNat (start * 16 + digit) := by
        rw [hfirst, UInt32.ofNat_add, UInt32.ofNat_mul]
        rfl
      rw [List.map_cons, List.foldl_cons, List.foldl_cons, hstep]
      exact ih (fun other hother => h other (List.mem_cons_of_mem _ hother)) _
  exact hfold 0

/-- What itoa writes in base 16 is read back. -/
theorem foldHex_itoa (value : UInt32) : foldHex (itoa value.toInt32 16) = value := by
  rw [itoa_hex, foldHex_map fun digit hdigit => lt_of_mem_numeral (by decide) hdigit,
    valueOf_numeral]
  exact UInt32.ofNat_toNat

/-- The characters of a numeral end no string. -/
theorem zero_notMem_itoa_hex (value : UInt32) : 0 ∉ itoa value.toInt32 16 := by
  rw [itoa_hex]
  intro hzero
  obtain ⟨digit, hdigit, hchar⟩ := List.mem_map.mp hzero
  exact (hexVal_digitChar (lt_of_mem_numeral (by decide) hdigit)).2 hchar

/-- Zeros in front of digits do not count. -/
theorem foldHex_zeros (count : ℕ) (digits : List UInt8) :
    foldHex (List.replicate count 48 ++ digits) = foldHex digits := by
  induction count with
  | zero => rfl
  | succ count ih =>
    rw [List.replicate_succ, List.cons_append]
    exact ih

end Reading

end HexaOS.Shell
