import Mathlib.Data.UInt
import Mathlib.Logic.Equiv.Defs

/-!
# Packed little-endian records

A packed type has a fixed number of bytes, an encoder and a total decoder that
ignores what follows. Both round trips are fields, so a record built from packed
parts decodes exactly what was encoded and encodes exactly what was decoded.
A block is a byte string of known length; a packed record of that size and the
block are two views of the same memory.
-/

namespace HexaOS.PackedBytes

/-- The 32-bit word of four little-endian bytes. -/
def wordOfBytes (b0 b1 b2 b3 : UInt8) : UInt32 :=
  b0.toUInt32 ||| (b1.toUInt32 <<< 8) ||| (b2.toUInt32 <<< 16) ||| (b3.toUInt32 <<< 24)

/-- The four little-endian bytes of a 32-bit word. -/
def bytesOfWord (word : UInt32) : List UInt8 :=
  [word.toUInt8, (word >>> 8).toUInt8, (word >>> 16).toUInt8, (word >>> 24).toUInt8]

/-- The four bytes of a word give the word back. -/
theorem wordOfBytes_bytes (word : UInt32) :
    wordOfBytes word.toUInt8 (word >>> 8).toUInt8 (word >>> 16).toUInt8 (word >>> 24).toUInt8 =
      word := by
  apply UInt32.toBitVec_inj.mp
  ext i hi
  simp [wordOfBytes, -UInt32.toUInt32_toUInt8]
  grind

/-- The bytes of an assembled word are the bytes it was assembled from. -/
theorem bytesOfWord_wordOfBytes (b0 b1 b2 b3 : UInt8) :
    bytesOfWord (wordOfBytes b0 b1 b2 b3) = [b0, b1, b2, b3] := by
  simp only [bytesOfWord, List.cons.injEq, and_true]
  refine ⟨?_, ?_, ?_, ?_⟩ <;>
  · apply UInt8.toBitVec_inj.mp
    ext i hi
    simp [wordOfBytes] <;> grind

/-- The 16-bit word of two little-endian bytes. -/
def halfOfBytes (b0 b1 : UInt8) : UInt16 := b0.toUInt16 ||| (b1.toUInt16 <<< 8)

/-- The two bytes of a 16-bit word give the word back. -/
theorem halfOfBytes_bytes (half : UInt16) :
    halfOfBytes half.toUInt8 (half >>> 8).toUInt8 = half := by
  apply UInt16.toBitVec_inj.mp
  ext i hi
  simp [halfOfBytes, -UInt16.toUInt16_toUInt8]
  grind

/-- The bytes of an assembled 16-bit word are the bytes it was assembled from. -/
theorem bytes_halfOfBytes (b0 b1 : UInt8) :
    (halfOfBytes b0 b1).toUInt8 = b0 ∧ (halfOfBytes b0 b1 >>> 8).toUInt8 = b1 := by
  constructor <;>
  · apply UInt8.toBitVec_inj.mp
    ext i hi
    simp [halfOfBytes] <;> grind

/-- A type whose values occupy a fixed number of bytes. -/
class Packed (α : Type) where
  /-- The size in bytes. -/
  size : ℕ
  /-- The bytes of a value. -/
  toBytes : α → List UInt8
  /-- The value at the front of a byte string. -/
  ofBytes : List UInt8 → α
  /-- Every value has the same size. -/
  length_toBytes : ∀ a, (toBytes a).length = size
  /-- Decoding undoes encoding, whatever follows. -/
  ofBytes_toBytes_append : ∀ a rest, ofBytes (toBytes a ++ rest) = a
  /-- Encoding undoes decoding of a byte string that is long enough. -/
  toBytes_ofBytes : ∀ bytes, size ≤ bytes.length → toBytes (ofBytes bytes) = bytes.take size

export Packed (toBytes ofBytes)

namespace Packed

variable {α β : Type} [Packed α] [Packed β]

/-- Decoding undoes encoding. -/
@[simp] theorem ofBytes_toBytes (a : α) : ofBytes (toBytes a) = a := by
  simpa using ofBytes_toBytes_append a []

/-- What follows an encoded value. -/
theorem drop_toBytes_append (a : α) (rest : List UInt8) :
    (toBytes a ++ rest).drop (size α) = rest := by
  rw [← length_toBytes a, List.drop_left]

instance : Packed UInt8 where
  size := 1
  toBytes byte := [byte]
  ofBytes bytes := bytes.headD 0
  length_toBytes _ := rfl
  ofBytes_toBytes_append _ _ := rfl
  toBytes_ofBytes
    | [], h => by simp at h
    | _ :: _, _ => rfl

instance : Packed UInt16 where
  size := 2
  toBytes half := [half.toUInt8, (half >>> 8).toUInt8]
  ofBytes
    | b0 :: b1 :: _ => halfOfBytes b0 b1
    | _ => 0
  length_toBytes _ := rfl
  ofBytes_toBytes_append half _ := halfOfBytes_bytes half
  toBytes_ofBytes
    | [], h => by simp at h
    | [_], h => by simp at h
    | b0 :: b1 :: _, _ => by simp [bytes_halfOfBytes]

instance : Packed UInt32 where
  size := 4
  toBytes := bytesOfWord
  ofBytes
    | b0 :: b1 :: b2 :: b3 :: _ => wordOfBytes b0 b1 b2 b3
    | _ => 0
  length_toBytes _ := rfl
  ofBytes_toBytes_append word _ := wordOfBytes_bytes word
  toBytes_ofBytes
    | [], h => by simp at h
    | [_], h => by simp at h
    | [_, _], h => by simp at h
    | [_, _, _], h => by simp at h
    | b0 :: b1 :: b2 :: b3 :: _, _ => bytesOfWord_wordOfBytes b0 b1 b2 b3

instance : Packed (α × β) where
  size := size α + size β
  toBytes p := toBytes p.1 ++ toBytes p.2
  ofBytes bytes := (ofBytes bytes, ofBytes (bytes.drop (size α)))
  length_toBytes p := by simp only [List.length_append, length_toBytes]
  ofBytes_toBytes_append p rest := by
    rw [List.append_assoc, drop_toBytes_append, ofBytes_toBytes_append, ofBytes_toBytes_append]
  toBytes_ofBytes bytes h := by
    rw [toBytes_ofBytes bytes (by omega), toBytes_ofBytes _ (by rw [List.length_drop]; omega),
      List.take_add]

/-- Decode `n` consecutive values. -/
def ofBytesList (α : Type) [Packed α] : ℕ → List UInt8 → List α
  | 0, _ => []
  | n + 1, bytes => ofBytes bytes :: ofBytesList α n (bytes.drop (size α))

@[simp] theorem length_ofBytesList (n : ℕ) (bytes : List UInt8) :
    (ofBytesList α n bytes).length = n := by
  induction n generalizing bytes with
  | zero => rfl
  | succ n ih => simp only [ofBytesList, List.length_cons, ih]

theorem length_flatMap_toBytes (values : List α) :
    (values.flatMap toBytes).length = values.length * size α := by
  induction values with
  | nil => simp
  | cons a values ih =>
    rw [List.flatMap_cons, List.length_append, ih, length_toBytes, List.length_cons, Nat.succ_mul,
      Nat.add_comm]

/-- Consecutive encoded values decode to the list they came from. -/
theorem ofBytesList_flatMap_append (values : List α) (rest : List UInt8) :
    ofBytesList α values.length (values.flatMap toBytes ++ rest) = values := by
  induction values with
  | nil => rfl
  | cons a values ih =>
    rw [List.flatMap_cons, List.length_cons, List.append_assoc, ofBytesList,
      ofBytes_toBytes_append, drop_toBytes_append, ih]

/-- Consecutive values by their positions. -/
theorem ofBytesList_eq_map (n : ℕ) (bytes : List UInt8) :
    ofBytesList α n bytes = (List.range n).map fun i => ofBytes (bytes.drop (i * size α)) := by
  induction n generalizing bytes with
  | zero => rfl
  | succ n ih =>
    rw [ofBytesList, ih, List.range_succ_eq_map, List.map_cons, List.map_map, Nat.zero_mul,
      List.drop_zero]
    refine congrArg _ (List.map_congr_left fun i _ => ?_)
    rw [List.drop_drop, Function.comp_apply, Nat.succ_mul, Nat.add_comm]

/-- Decoded consecutive values encode to the bytes they came from. -/
theorem flatMap_toBytes_ofBytesList (n : ℕ) (bytes : List UInt8) (h : n * size α ≤ bytes.length) :
    (ofBytesList α n bytes).flatMap toBytes = bytes.take (n * size α) := by
  induction n generalizing bytes with
  | zero => simp [ofBytesList]
  | succ n ih =>
    rw [Nat.succ_mul] at h
    rw [ofBytesList, List.flatMap_cons, toBytes_ofBytes bytes (by omega),
      ih _ (by rw [List.length_drop]; omega), Nat.succ_mul, Nat.add_comm, List.take_add]

/-- A packed array of fixed length. -/
instance {n : ℕ} : Packed (Vector α n) where
  size := n * size α
  toBytes v := v.toList.flatMap toBytes
  ofBytes bytes := ⟨(ofBytesList α n bytes).toArray, by simp⟩
  length_toBytes v := by rw [length_flatMap_toBytes, Vector.length_toList]
  ofBytes_toBytes_append v rest := by
    have h := ofBytesList_flatMap_append v.toList rest
    rw [Vector.length_toList] at h
    apply Vector.toList_inj.mp
    simpa using h
  toBytes_ofBytes bytes h := flatMap_toBytes_ofBytesList n bytes h

/-- A record is packed like the tuple of its fields. -/
@[reducible] def ofEquiv (fields : β ≃ α) : Packed β where
  size := size α
  toBytes b := toBytes (fields b)
  ofBytes bytes := fields.symm (ofBytes bytes)
  length_toBytes b := length_toBytes (fields b)
  ofBytes_toBytes_append b rest := by rw [ofBytes_toBytes_append, Equiv.symm_apply_apply]
  toBytes_ofBytes bytes h := by rw [Equiv.apply_symm_apply, toBytes_ofBytes bytes h]

end Packed

/-- A byte string of length `n`. -/
structure Block (n : ℕ) where
  /-- The bytes in address order. -/
  bytes : List UInt8
  /-- The length is part of the type. -/
  length_bytes : bytes.length = n
  deriving DecidableEq

@[ext] theorem Block.ext {n : ℕ} {a b : Block n} (h : a.bytes = b.bytes) : a = b := by
  cases a
  cases b
  simp only [Block.mk.injEq]
  exact h

/-- Packed records that fill a block of `n` bytes. -/
class Fills (α : Type) [Packed α] (n : ℕ) : Prop where
  /-- The record and the block have the same size. -/
  size_eq : Packed.size α = n

variable {α : Type} [Packed α] {n : ℕ} [Fills α n]

/-- The memory of a record. -/
def toBlock (n : ℕ) [Fills α n] (a : α) : Block n :=
  ⟨toBytes a, by rw [Packed.length_toBytes, Fills.size_eq (n := n)]⟩

/-- The record that a block of memory holds. -/
def ofBlock (α : Type) [Packed α] {n : ℕ} (block : Block n) : α := ofBytes block.bytes

@[simp] theorem ofBlock_toBlock (a : α) : ofBlock α (toBlock n a) = a :=
  Packed.ofBytes_toBytes a

@[simp] theorem toBlock_ofBlock (block : Block n) : toBlock n (ofBlock α block) = block := by
  apply Block.ext
  have hsize : Packed.size α = block.bytes.length := by
    rw [block.length_bytes, Fills.size_eq (n := n)]
  show toBytes (ofBytes (α := α) block.bytes) = block.bytes
  rw [Packed.toBytes_ofBytes _ (by omega), hsize, List.take_length]

/-- The first bytes of a string, padded with zeros to a whole block. -/
def padBlock (n : ℕ) (bytes : List UInt8) : Block n :=
  ⟨bytes.take n ++ List.replicate (n - bytes.length) 0, by
    simp only [List.length_append, List.length_take, List.length_replicate]; omega⟩

/-- Padding keeps the bytes that fit. -/
theorem take_padBlock (bytes : List UInt8) {k : ℕ} (hk : k ≤ bytes.length) (hn : k ≤ n) :
    (padBlock n bytes).bytes.take k = bytes.take k := by
  simp only [padBlock]
  rw [List.take_append_of_le_length (by simp only [List.length_take]; omega), List.take_take,
    Nat.min_eq_left hn]

end HexaOS.PackedBytes
