import Mathlib.Data.List.Basic
import Mathlib.Data.Set.Function
import Mathlib.Logic.Function.Basic

/-!
# Records sealed with a checksum

A record holds, in a field of its own, a checksum that is a fold over its other bytes. When
the step of the fold loses neither the state nor the byte, a record that was sealed is
refused after any one of its bytes was replaced, also one of the checksum.
-/

namespace HexaOS.SealedRecords

variable {α σ : Type}

/-- The checksum of a record, and where it lies. -/
structure Format (α σ : Type) where
  /-- The step of the checksum. -/
  step : σ → α → σ
  /-- The checksum of no bytes. -/
  initial : σ
  /-- Where the field of the checksum starts. -/
  start : ℕ
  /-- The size of the field. -/
  width : ℕ
  /-- What the checksum takes in place of the field. -/
  blank : List α
  /-- The checksum that a field holds. -/
  decode : List α → σ

namespace Format

/-- The bytes that the checksum covers. -/
def covered (format : Format α σ) (bytes : List α) : List α :=
  bytes.take format.start ++ format.blank ++ bytes.drop (format.start + format.width)

/-- The field of the checksum. -/
def field (format : Format α σ) (bytes : List α) : List α := (bytes.drop format.start).take format.width

/-- The checksum of a record. -/
def checksum (format : Format α σ) (bytes : List α) : σ :=
  (format.covered bytes).foldl format.step format.initial

/-- The record holds its checksum. -/
def Holds (format : Format α σ) (bytes : List α) : Prop :=
  format.checksum bytes = format.decode (format.field bytes)

/-- Nothing is lost: a step tells apart the states before it, and the bytes, and a field tells
apart the checksums. -/
structure Lossless (format : Format α σ) : Prop where
  /-- A step tells states apart. -/
  state : ∀ a, Function.Injective fun s => format.step s a
  /-- A step tells bytes apart. -/
  byte : ∀ s, Function.Injective (format.step s)
  /-- Decoding tells records apart. -/
  decode : Set.InjOn format.decode {bytes | bytes.length = format.width}

variable {format : Format α σ} {bytes : List α} {i : ℕ} {a : α}

/-- Different states stay different under the same bytes. -/
theorem Lossless.foldl_injective (h : format.Lossless) (bytes : List α) :
    Function.Injective fun s => bytes.foldl format.step s := by
  induction bytes with
  | nil => exact Function.injective_id
  | cons a rest ih => exact ih.comp (h.state a)

/-- Another byte changes the fold. -/
theorem Lossless.foldl_set_ne (h : format.Lossless) (hi : i < bytes.length) (hne : bytes[i] ≠ a)
    (s : σ) : (bytes.set i a).foldl format.step s ≠ bytes.foldl format.step s := by
  induction bytes generalizing i s with
  | nil => exact absurd hi (Nat.not_lt_zero i)
  | cons b rest ih =>
    cases i with
    | zero =>
      have hstep : format.step s a ≠ format.step s b := fun heq => hne (h.byte s heq).symm
      exact (h.foldl_injective rest).ne hstep
    | succ i => exact ih (Nat.lt_of_succ_lt_succ hi) hne (format.step s b)

/-- A byte outside the field is covered by the checksum. -/
theorem covered_set_of_outside (hout : i < format.start ∨ format.start + format.width ≤ i)
    (hlength : format.start ≤ bytes.length) (hi : i < bytes.length) (a : α) :
    ∃ j, ∃ hj : j < (format.covered bytes).length, (format.covered bytes)[j] = bytes[i] ∧
      format.covered (bytes.set i a) = (format.covered bytes).set j a := by
  rcases hout with hbefore | hbehind
  · have htake : i < (bytes.take format.start).length := by
      rw [List.length_take]
      omega
    refine ⟨i, ?_, ?_, ?_⟩
    · rw [covered, List.append_assoc, List.length_append]
      omega
    · simp only [covered, List.append_assoc, List.getElem_append_left htake, List.getElem_take]
    · rw [covered, covered, List.take_set, List.drop_set_of_lt (by omega), List.append_assoc,
        List.append_assoc, List.set_append_left i a htake]
  · -- the byte lies as far behind the blank as behind the field
    have hfront : (bytes.take format.start ++ format.blank).length =
        format.start + format.blank.length := by
      rw [List.length_append, List.length_take, Nat.min_eq_left hlength]
    have hindex : format.start + format.blank.length + (i - (format.start + format.width)) -
        (bytes.take format.start ++ format.blank).length = i - (format.start + format.width) := by
      omega
    refine ⟨format.start + format.blank.length + (i - (format.start + format.width)), ?_, ?_, ?_⟩
    · rw [covered, List.length_append, hfront, List.length_drop]
      omega
    · simp only [covered]
      rw [List.getElem_append_right (by omega), List.getElem_drop]
      congr 1
      omega
    · rw [covered, covered, List.take_set_of_le (by omega), List.drop_set, if_neg (by omega),
        List.set_append_right _ _ (by omega), hindex]

/-- A byte of the field. -/
theorem covered_set_of_mem (hlow : format.start ≤ i) (hhigh : i < format.start + format.width) :
    format.covered (bytes.set i a) = format.covered bytes := by
  rw [covered, covered, List.take_set_of_le hlow, List.drop_set_of_lt hhigh]

/-- A byte outside the field is none of the field. -/
theorem field_set_of_outside (hout : i < format.start ∨ format.start + format.width ≤ i) (a : α) :
    format.field (bytes.set i a) = format.field bytes := by
  refine List.ext_getElem? fun j => ?_
  rw [field, field, List.getElem?_take, List.getElem?_take, List.getElem?_drop, List.getElem?_drop]
  split
  · rw [List.getElem?_set_ne (by omega)]
  · rfl

theorem length_field (hlength : format.start + format.width ≤ bytes.length) :
    (format.field bytes).length = format.width := by
  rw [field, List.length_take, List.length_drop]
  omega

/-- A record that holds its checksum does not hold it any more when a byte is replaced. -/
theorem Lossless.not_holds_set (h : format.Lossless) (hholds : format.Holds bytes)
    (hlength : format.start + format.width ≤ bytes.length) (hi : i < bytes.length)
    (hne : bytes[i] ≠ a) : ¬format.Holds (bytes.set i a) := by
  intro hreplaced
  by_cases hout : i < format.start ∨ format.start + format.width ≤ i
  · -- the field is the same, and the checksum is another one
    have ⟨j, hj, hbyte, hcovered⟩ := covered_set_of_outside hout (by omega) hi a
    have hfield : format.field (bytes.set i a) = format.field bytes := field_set_of_outside hout a
    have hsame : format.checksum (bytes.set i a) = format.checksum bytes := by
      rw [hreplaced, hfield, hholds]
    rw [checksum, checksum, hcovered] at hsame
    exact h.foldl_set_ne hj (hbyte ▸ hne) format.initial hsame
  · -- the checksum is the same, and the field is another one
    have hcovered : format.covered (bytes.set i a) = format.covered bytes :=
      covered_set_of_mem (by omega) (by omega)
    have hsame : format.decode (format.field (bytes.set i a)) =
        format.decode (format.field bytes) := by
      rw [← hreplaced, ← hholds, checksum, checksum, hcovered]
    have hfield := h.decode (length_field (by rw [List.length_set]; exact hlength))
      (length_field hlength) hsame
    have hbyte := congrArg (·[i - format.start]?) hfield
    have hindex : format.start + (i - format.start) = i := by omega
    simp only [field, List.getElem?_take, List.getElem?_drop, hindex] at hbyte
    rw [if_pos (by omega), if_pos (by omega), List.getElem?_set_self hi,
      List.getElem?_eq_getElem hi] at hbyte
    exact hne (Option.some.inj hbyte).symm

end Format

end HexaOS.SealedRecords
