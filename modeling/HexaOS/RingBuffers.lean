import Mathlib.Algebra.Group.Fin.Basic
import Mathlib.Algebra.GroupWithZero.Nat
import Mathlib.Data.Fin.Basic
import Mathlib.Data.List.DropRight
import Mathlib.Logic.Function.Basic

/-!
# Ring buffers

A ring of cells with the position of the next value to come in and of the next one to go
out. The two positions are equal when the ring is empty, and a value is refused when it
would make them equal, so that one cell stays unused. What the ring holds is a list: a value
comes in at its end and goes out at its front, wherever the positions lie. A ring may also
drop its oldest value for one that comes in, and then holds a suffix of what came in.
-/

namespace HexaOS.RingBuffers

/-- Cells in a circle with two positions. -/
structure Ring (n : ℕ) (α : Type) where
  /-- The cells. -/
  cells : Fin n → α
  /-- Where the next value comes in. -/
  head : Fin n
  /-- Where the next value goes out. -/
  tail : Fin n

/-- The values that have come in and those that have gone out, oldest first. -/
structure Traffic (α : Type) where
  /-- What went in, in order. -/
  inserted : List α
  /-- What came out, in order. -/
  removed : List α

section Lists

variable {α : Type}

/-- The last part of two lists, when the second one has so many values. -/
theorem rtake_append_of_le {k : ℕ} (xs : List α) {ys : List α} (h : k ≤ ys.length) :
    (xs ++ ys).rtake k = ys.rtake k := by
  rw [List.rtake, List.rtake, List.length_append, Nat.add_sub_assoc h, ← List.drop_drop,
    List.drop_left]

/-- A list of so few values is its own last part. -/
theorem rtake_of_length_le {k : ℕ} {xs : List α} (h : xs.length ≤ k) : xs.rtake k = xs := by
  rw [List.rtake, Nat.sub_eq_zero_of_le h, List.drop_zero]

/-- The last part of a list and of what is put behind it. -/
theorem rtake_append_rtake (k : ℕ) (xs ys : List α) :
    (xs.rtake k ++ ys).rtake k = (xs ++ ys).rtake k := by
  rcases Nat.le_total xs.length k with hshort | hlong
  · rw [rtake_of_length_le hshort]
  · have hsplit : xs ++ ys = xs.take (xs.length - k) ++ (xs.rtake k ++ ys) := by
      rw [List.rtake, ← List.append_assoc, List.take_append_drop]
    have hlength : k ≤ (xs.rtake k ++ ys).length := by
      rw [List.length_append, List.rtake, List.length_drop]
      omega
    rw [hsplit, rtake_append_of_le _ hlength]

end Lists

namespace Ring

variable {α : Type} {n : ℕ} [NeZero n]

/-- How many values a ring holds. -/
def size (ring : Ring n α) : ℕ := (ring.head - ring.tail).val

/-- The cell of the value with a given number of older ones. -/
def cellAt (ring : Ring n α) (i : ℕ) : Fin n := ring.tail + Fin.ofNat n i

/-- What a ring holds, oldest first. -/
def contents (ring : Ring n α) : List α :=
  (List.range ring.size).map fun i => ring.cells (ring.cellAt i)

/-- A ring that refuses a value. -/
def Full (ring : Ring n α) : Prop := ring.head + 1 = ring.tail

/-- A ring that has no value to give. -/
def Empty (ring : Ring n α) : Prop := ring.head = ring.tail

instance (ring : Ring n α) : Decidable ring.Full :=
  inferInstanceAs (Decidable (ring.head + 1 = ring.tail))

instance (ring : Ring n α) : Decidable ring.Empty :=
  inferInstanceAs (Decidable (ring.head = ring.tail))

/-- A value comes in. -/
def push (value : α) (ring : Ring n α) : Ring n α where
  cells := Function.update ring.cells ring.head value
  head := ring.head + 1
  tail := ring.tail

/-- The oldest value. -/
def front (ring : Ring n α) : α := ring.cells ring.tail

/-- The oldest value goes out. -/
def pop (ring : Ring n α) : Ring n α := { ring with tail := ring.tail + 1 }

variable {ring : Ring n α}

@[simp] theorem length_contents (ring : Ring n α) : ring.contents.length = ring.size := by
  simp [contents]

omit [NeZero n] in
/-- One cell stays unused. -/
theorem size_lt (ring : Ring n α) : ring.size < n := (ring.head - ring.tail).isLt

/-- An empty ring holds nothing. -/
theorem size_eq_zero_iff : ring.size = 0 ↔ ring.Empty := by
  rw [size, Empty, Fin.val_eq_zero_iff, sub_eq_zero]

/-- An empty ring holds nothing. -/
theorem contents_eq_nil_iff : ring.contents = [] ↔ ring.Empty := by
  rw [← List.length_eq_zero_iff, length_contents, size_eq_zero_iff]

/-- A position and its successor, before the end of the circle. -/
theorem val_succ {i : Fin n} (h : i + 1 ≠ 0) : (i + 1).val = i.val + 1 := by
  have hpos : (i + 1).val ≠ 0 := fun hzero => h (Fin.val_eq_zero_iff.mp hzero)
  have hval : (i + 1).val = (i.val + 1) % n := by
    rw [Fin.val_add]
    simp
  rcases Nat.lt_or_ge (i.val + 1) n with hlt | hge
  · rw [hval, Nat.mod_eq_of_lt hlt]
  · have hend : i.val + 1 = n := by omega
    rw [hval, hend, Nat.mod_self] at hpos
    exact absurd rfl hpos

/-- A ring that takes a value holds one more. -/
theorem size_push (value : α) (hroom : ¬ring.Full) : (ring.push value).size = ring.size + 1 := by
  have hnext : ring.head + 1 - ring.tail = ring.head - ring.tail + 1 :=
    add_sub_right_comm ring.head 1 ring.tail
  have hne : ring.head - ring.tail + 1 ≠ 0 := by
    rw [← hnext, sub_ne_zero]
    exact hroom
  show (ring.head + 1 - ring.tail).val = _
  rw [hnext, val_succ hne]
  rfl

/-- The cell behind the newest value is where the next one comes in. -/
theorem cellAt_size (ring : Ring n α) : ring.cellAt ring.size = ring.head := by
  rw [cellAt, size, Fin.ofNat_val_eq_self]
  exact add_sub_cancel ring.tail ring.head

/-- The cells of a ring are distinct. -/
theorem cellAt_inj {i j : ℕ} (hi : i < n) (hj : j < n) (h : ring.cellAt i = ring.cellAt j) :
    i = j := by
  have hcell : Fin.ofNat n i = Fin.ofNat n j := add_left_cancel h
  have hval := congrArg Fin.val hcell
  rwa [Fin.val_ofNat, Fin.val_ofNat, Nat.mod_eq_of_lt hi, Nat.mod_eq_of_lt hj] at hval

/-- A value comes in behind all others. -/
theorem contents_push (value : α) (hroom : ¬ring.Full) :
    (ring.push value).contents = ring.contents ++ [value] := by
  have hlast : (ring.push value).cells ((ring.push value).cellAt ring.size) = value := by
    show Function.update ring.cells ring.head value (ring.cellAt ring.size) = value
    rw [cellAt_size, Function.update_self]
  have hkept : ∀ i ∈ List.range ring.size,
      (ring.push value).cells ((ring.push value).cellAt i) = ring.cells (ring.cellAt i) := by
    intro i hi
    have hlt : i < ring.size := List.mem_range.mp hi
    have hsize := ring.size_lt
    have hne : ring.cellAt i ≠ ring.head := by
      intro heq
      rw [← cellAt_size] at heq
      have hequal := cellAt_inj (by omega) hsize heq
      omega
    exact Function.update_of_ne hne value ring.cells
  rw [contents, size_push value hroom, List.range_succ, List.map_append, List.map_cons,
    List.map_nil, hlast, List.map_congr_left hkept]
  rfl

/-- A ring that gives a value holds one less. -/
theorem size_pop (hsome : ¬ring.Empty) : ring.size = ring.pop.size + 1 := by
  have hback : ring.head - ring.tail = ring.head - (ring.tail + 1) + 1 := by
    rw [sub_add_eq_sub_sub, sub_add_cancel]
  have hne : ring.head - (ring.tail + 1) + 1 ≠ 0 := by
    rw [← hback, sub_ne_zero]
    exact hsome
  have hval := val_succ hne
  rw [← hback] at hval
  exact hval

/-- The oldest value goes out. -/
theorem contents_pop (hsome : ¬ring.Empty) : ring.contents = ring.front :: ring.pop.contents := by
  have hfirst : ring.cellAt 0 = ring.tail := by
    rw [cellAt, Fin.ofNat_zero, add_zero]
  have hrest : ∀ i, ring.cellAt (i + 1) = ring.pop.cellAt i := by
    intro i
    show ring.tail + Fin.ofNat n (i + 1) = ring.tail + 1 + Fin.ofNat n i
    have hsucc : Fin.ofNat n (i + 1) = 1 + Fin.ofNat n i := by
      apply Fin.ext
      rw [Fin.val_add, Fin.val_ofNat, Fin.val_ofNat, Fin.val_one', ← Nat.add_mod, Nat.add_comm]
    rw [hsucc, add_assoc]
  rw [contents, size_pop hsome, List.range_succ_eq_map, List.map_cons, List.map_map, hfirst]
  refine congrArg _ (List.map_congr_left fun i _ => ?_)
  exact congrArg ring.cells (hrest i)

/-- A full ring has a value in every cell but one. -/
theorem size_of_full (h : ring.Full) : ring.size + 1 = n := by
  have hwrap : ring.head - ring.tail + 1 = 0 := by
    rw [← add_sub_right_comm, sub_eq_zero]
    exact h
  have hval := congrArg Fin.val hwrap
  rw [Fin.val_add, Fin.val_zero, Fin.val_one', Nat.add_mod_mod] at hval
  have hlt : (ring.head - ring.tail).val < n := (ring.head - ring.tail).isLt
  have hdvd := Nat.dvd_of_mod_eq_zero hval
  exact Nat.le_antisymm hlt (Nat.le_of_dvd (Nat.succ_pos _) hdvd)

/-- A ring is full when it has a value in every cell but one. -/
theorem full_iff_size (ring : Ring n α) : ring.Full ↔ ring.size + 1 = n := by
  constructor
  · exact size_of_full
  · intro hsize
    by_contra hroom
    have hpush := size_push ring.front hroom
    have hlt := (ring.push ring.front).size_lt
    omega

/-- A value comes in, and the oldest one goes out if there is no cell for it. -/
def overwrite (value : α) (ring : Ring n α) : Ring n α :=
  if (ring.push value).Empty then (ring.push value).pop else ring.push value

/-- In a full ring the oldest value goes out first. -/
theorem overwrite_of_full (value : α) (h : ring.Full) :
    ring.overwrite value = ring.pop.push value := by
  have hempty : (ring.push value).Empty := h
  rw [overwrite, if_pos hempty]
  rfl

/-- A ring with room takes the value. -/
theorem overwrite_of_not_full (value : α) (h : ¬ring.Full) :
    ring.overwrite value = ring.push value := if_neg h

/-- A value comes in behind all others, as many of which stay as there are cells for. -/
theorem contents_overwrite (hn : 1 < n) (value : α) :
    (ring.overwrite value).contents = (ring.contents ++ [value]).rtake (n - 1) := by
  have hlt := ring.size_lt
  by_cases hfull : ring.Full
  · have hsize := size_of_full hfull
    have hsome : ¬ring.Empty := by
      intro hempty
      have hzero := size_eq_zero_iff.mpr hempty
      omega
    have hpop := size_pop hsome
    have hroom : ¬ring.pop.Full := by
      intro hagain
      have hsize' := size_of_full hagain
      omega
    rw [overwrite_of_full value hfull, contents_push value hroom, contents_pop hsome]
    have hone : (ring.front :: ring.pop.contents ++ [value]).length - (n - 1) = 1 := by
      rw [List.length_append, List.length_cons, List.length_singleton, length_contents]
      omega
    rw [List.rtake, hone]
    rfl
  · have hsize : ring.size + 1 ≠ n := mt (full_iff_size ring).mpr hfull
    have hfew : (ring.contents ++ [value]).length ≤ n - 1 := by
      rw [List.length_append, List.length_singleton, length_contents]
      omega
    rw [overwrite_of_not_full value hfull, contents_push value hfull, rtake_of_length_le hfew]

/-- Values come in one after the other. -/
def overwriteAll (values : List α) (ring : Ring n α) : Ring n α :=
  values.foldl (fun ring value => ring.overwrite value) ring

/-- The ring keeps the last values of what it held and of what came in. -/
theorem contents_overwriteAll (hn : 1 < n) (values : List α) (ring : Ring n α) :
    (ring.overwriteAll values).contents = (ring.contents ++ values).rtake (n - 1) := by
  induction values generalizing ring with
  | nil =>
    have hlt := ring.size_lt
    have hfew : ring.contents.length ≤ n - 1 := by
      rw [length_contents]
      omega
    show ring.contents = _
    rw [List.append_nil, rtake_of_length_le hfew]
  | cons value values ih =>
    show ((ring.overwrite value).overwriteAll values).contents = _
    rw [ih, contents_overwrite hn, rtake_append_rtake, List.append_assoc, List.singleton_append]

/-- A loop that reads the cells from a position on, up to the head and so many at most. -/
def readFrom (ring : Ring n α) : ℕ → Fin n → List α
  | 0, _ => []
  | left + 1, idx => if idx = ring.head then [] else ring.cells idx :: ring.readFrom left (idx + 1)

/-- The tail does not matter to the loop. -/
theorem readFrom_pop (ring : Ring n α) (left : ℕ) (idx : Fin n) :
    ring.pop.readFrom left idx = ring.readFrom left idx := by
  induction left generalizing idx with
  | zero => rfl
  | succ left ih =>
    rw [readFrom, readFrom, ih]
    rfl

/-- From the tail on the loop reads what the ring holds. -/
theorem readFrom_tail (ring : Ring n α) (left : ℕ) :
    ring.readFrom left ring.tail = ring.contents.take left := by
  induction left generalizing ring with
  | zero => rfl
  | succ left ih =>
    rw [readFrom]
    by_cases hempty : ring.Empty
    · have htail : ring.tail = ring.head := Eq.symm hempty
      rw [if_pos htail, contents_eq_nil_iff.mpr hempty, List.take_nil]
    · have htail : ring.tail ≠ ring.head := Ne.symm hempty
      have hrest := ih ring.pop
      rw [readFrom_pop] at hrest
      rw [if_neg htail, contents_pop hempty, List.take_succ_cons, ← hrest]
      rfl

end Ring

namespace Traffic

variable {α : Type} {n : ℕ} [NeZero n] {ring : Ring n α} {traffic : Traffic α}

/-- What has come in has gone out, in the same order, or is still there. -/
def Fits (traffic : Traffic α) (ring : Ring n α) : Prop :=
  traffic.removed ++ ring.contents = traffic.inserted

/-- A value comes in. -/
def insert (value : α) (traffic : Traffic α) : Traffic α :=
  { traffic with inserted := traffic.inserted ++ [value] }

/-- A value goes out. -/
def remove (value : α) (traffic : Traffic α) : Traffic α :=
  { traffic with removed := traffic.removed ++ [value] }

/-- The traffic of a ring that has held nothing yet. -/
theorem fits_start (h : ring.Empty) : Fits ⟨[], []⟩ ring := Ring.contents_eq_nil_iff.mpr h

/-- A value that is taken is counted. -/
theorem Fits.push (h : traffic.Fits ring) (value : α) (hroom : ¬ring.Full) :
    (traffic.insert value).Fits (ring.push value) := by
  show traffic.removed ++ (ring.push value).contents = traffic.inserted ++ [value]
  rw [Ring.contents_push value hroom, ← List.append_assoc, h]

/-- A value that is given is counted. -/
theorem Fits.pop (h : traffic.Fits ring) (hsome : ¬ring.Empty) :
    (traffic.remove ring.front).Fits ring.pop := by
  show traffic.removed ++ [ring.front] ++ ring.pop.contents = traffic.inserted
  rw [List.append_assoc, List.singleton_append, ← Ring.contents_pop hsome, h]

/-- What has come in and not gone out is what the ring holds. -/
theorem Fits.length (h : traffic.Fits ring) :
    traffic.removed.length + ring.size = traffic.inserted.length := by
  have hlength := congrArg List.length h
  rwa [List.length_append, Ring.length_contents] at hlength

end Traffic

end HexaOS.RingBuffers
