import Mathlib.Data.Finmap
import Mathlib.Data.Finset.Card
import Mathlib.Logic.Function.Basic
import Mathlib.Tactic.TypeStar

/-!
# Slot tables and finite maps

A table keeps its records in the first slots of an array, and every record has a key. It is
a finite map as long as no key is there twice. A record with a known key takes the place of
the old one, a record with a new key goes behind the others, and the records behind one that
is taken out move up.
-/

namespace HexaOS.SlotMaps

variable {κ ν ρ : Type} [DecidableEq κ]

/-- A finite map from keys to values. -/
abbrev KeyMap (κ ν : Type) : Type := Finmap fun _ : κ => ν

/-- Give a key its value in a map with at most `capacity` keys. A new key needs room. -/
def insertWithin (capacity : ℕ) (key : κ) (value : ν) (map : KeyMap κ ν) : Bool × KeyMap κ ν :=
  if key ∈ map ∨ map.keys.card < capacity then (true, map.insert key value) else (false, map)

/-- Take a key out of a map. -/
def eraseKnown (key : κ) (map : KeyMap κ ν) : Bool × KeyMap κ ν :=
  if key ∈ map then (true, map.erase key) else (false, map)

/-- The first `count` slots are a map. -/
structure Shows (key : ρ → κ) (value : ρ → ν) (slots : ℕ → ρ) (count : ℕ) (map : KeyMap κ ν) :
    Prop where
  /-- No key is there twice. -/
  distinct : ∀ i < count, ∀ j < count, key (slots i) = key (slots j) → i = j
  /-- A record is what the map has under its key. -/
  lookup : ∀ i < count, map.lookup (key (slots i)) = some (value (slots i))
  /-- A key of the map has a record. -/
  covered : ∀ k ∈ map, ∃ i < count, key (slots i) = k

variable {key : ρ → κ} {value : ρ → ν} {slots : ℕ → ρ} {count : ℕ} {map : KeyMap κ ν}

/-- A table of no records is the empty map. -/
theorem shows_empty (key : ρ → κ) (value : ρ → ν) (slots : ℕ → ρ) :
    Shows key value slots 0 ∅ where
  distinct i hi := absurd hi (Nat.not_lt_zero i)
  lookup i hi := absurd hi (Nat.not_lt_zero i)
  covered _ hk := absurd hk Finmap.notMem_empty

/-- The keys of the map are those of the records. -/
theorem Shows.mem_iff (h : Shows key value slots count map) {k : κ} :
    k ∈ map ↔ ∃ i < count, key (slots i) = k := by
  constructor
  · exact h.covered k
  · rintro ⟨i, hi, rfl⟩
    exact Finmap.mem_of_lookup_eq_some (h.lookup i hi)

/-- What the map has under a key is the record with that key. -/
theorem Shows.lookup_iff (h : Shows key value slots count map) {k : κ} {v : ν} :
    map.lookup k = some v ↔ ∃ i < count, key (slots i) = k ∧ value (slots i) = v := by
  constructor
  · intro hk
    obtain ⟨i, hi, rfl⟩ := h.covered k (Finmap.mem_of_lookup_eq_some hk)
    rw [h.lookup i hi] at hk
    exact ⟨i, hi, rfl, Option.some.inj hk⟩
  · rintro ⟨i, hi, rfl, rfl⟩
    exact h.lookup i hi

/-- A table has as many records as the map has keys. -/
theorem Shows.card_keys (h : Shows key value slots count map) : map.keys.card = count := by
  have hkeys : map.keys = (Finset.range count).image fun i => key (slots i) := by
    ext k
    rw [Finmap.mem_keys, h.mem_iff, Finset.mem_image]
    simp only [Finset.mem_range]
  have hinj : Set.InjOn (fun i => key (slots i)) (Finset.range count) := by
    intro i hi j hj hsame
    have hi' : i < count := Finset.mem_range.mp (Finset.mem_coe.mp hi)
    have hj' : j < count := Finset.mem_range.mp (Finset.mem_coe.mp hj)
    exact h.distinct i hi' j hj' hsame
  rw [hkeys, Finset.card_image_of_injOn hinj, Finset.card_range]

/-- A record with the key of slot `i` takes its place. -/
theorem Shows.replace (h : Shows key value slots count map) {i : ℕ} (hi : i < count) {record : ρ}
    (hkey : key record = key (slots i)) :
    Shows key value (Function.update slots i record) count
      (map.insert (key record) (value record)) := by
  have hkeys : ∀ j, key (Function.update slots i record j) = key (slots j) := by
    intro j
    by_cases hj : j = i
    · rw [hj, Function.update_self, hkey]
    · rw [Function.update_of_ne hj]
  constructor
  · intro j hj k hk hsame
    rw [hkeys, hkeys] at hsame
    exact h.distinct j hj k hk hsame
  · intro j hj
    by_cases hji : j = i
    · rw [hji, Function.update_self, Finmap.lookup_insert]
    · have hother : key (slots j) ≠ key record := by
        intro hsame
        exact hji (h.distinct j hj i hi (hsame.trans hkey))
      rw [Function.update_of_ne hji, Finmap.lookup_insert_of_ne _ hother, h.lookup j hj]
  · intro k hk
    rcases Finmap.mem_insert.mp hk with rfl | hk
    · exact ⟨i, hi, (hkeys i).trans hkey.symm⟩
    · obtain ⟨j, hj, rfl⟩ := h.covered k hk
      exact ⟨j, hj, hkeys j⟩

/-- A record with a new key goes behind the others. -/
theorem Shows.append (h : Shows key value slots count map) {record : ρ} (hnew : key record ∉ map) :
    Shows key value (Function.update slots count record) (count + 1)
      (map.insert (key record) (value record)) := by
  have hold : ∀ i < count, Function.update slots count record i = slots i := by
    intro i hi
    exact Function.update_of_ne (by omega) _ _
  have hother : ∀ i < count, key (slots i) ≠ key record := by
    intro i hi hsame
    exact hnew (h.mem_iff.mpr ⟨i, hi, hsame⟩)
  constructor
  · intro i hi j hj hsame
    have hi' : i < count ∨ i = count := by omega
    have hj' : j < count ∨ j = count := by omega
    rcases hi' with hi' | rfl <;> rcases hj' with hj' | rfl
    · rw [hold i hi', hold j hj'] at hsame
      exact h.distinct i hi' j hj' hsame
    · rw [hold i hi', Function.update_self] at hsame
      exact absurd hsame (hother i hi')
    · rw [hold j hj', Function.update_self] at hsame
      exact absurd hsame.symm (hother j hj')
    · rfl
  · intro i hi
    have hi' : i < count ∨ i = count := by omega
    rcases hi' with hi' | rfl
    · rw [hold i hi', Finmap.lookup_insert_of_ne _ (hother i hi'), h.lookup i hi']
    · rw [Function.update_self, Finmap.lookup_insert]
  · intro k hk
    rcases Finmap.mem_insert.mp hk with rfl | hk
    · exact ⟨count, Nat.lt_succ_self count, by rw [Function.update_self]⟩
    · obtain ⟨i, hi, rfl⟩ := h.covered k hk
      exact ⟨i, Nat.lt_succ_of_lt hi, by rw [hold i hi]⟩

/-- The slots behind slot `i` move up. -/
def moveUp (slots : ℕ → ρ) (count i : ℕ) : ℕ → ρ := fun j =>
  if i ≤ j ∧ j + 1 < count then slots (j + 1) else slots j

/-- The slot whose record comes to slot `j`. -/
theorem exists_moveUp (slots : ℕ → ρ) {i j : ℕ} (hi : i < count) (hj : j < count - 1) :
    ∃ k < count, k ≠ i ∧ moveUp slots count i j = slots k ∧ (j < i → k = j) ∧
      (i ≤ j → k = j + 1) := by
  by_cases hij : i ≤ j
  · have hmoved : moveUp slots count i j = slots (j + 1) := if_pos ⟨hij, by omega⟩
    exact ⟨j + 1, by omega, by omega, hmoved, fun h => by omega, fun _ => rfl⟩
  · have hstays : moveUp slots count i j = slots j := if_neg fun hboth => hij hboth.1
    exact ⟨j, by omega, by omega, hstays, fun _ => rfl, fun h => absurd h hij⟩

/-- The slot to which a record comes. -/
theorem exists_moved (slots : ℕ → ρ) {i k : ℕ} (hi : i < count) (hk : k < count) (hne : k ≠ i) :
    ∃ j < count - 1, moveUp slots count i j = slots k := by
  by_cases hki : k < i
  · have hstays : moveUp slots count i k = slots k := if_neg fun hboth => by omega
    exact ⟨k, by omega, hstays⟩
  · have hback : k - 1 + 1 = k := by omega
    have hmoved : moveUp slots count i (k - 1) = slots (k - 1 + 1) := if_pos ⟨by omega, by omega⟩
    rw [hback] at hmoved
    exact ⟨k - 1, by omega, hmoved⟩

/-- The record of slot `i` is taken out. -/
theorem Shows.remove (h : Shows key value slots count map) {i : ℕ} (hi : i < count) :
    Shows key value (moveUp slots count i) (count - 1) (map.erase (key (slots i))) := by
  constructor
  · intro j hj k hk hsame
    obtain ⟨j', hj', _, hrecord, hbelow, habove⟩ := exists_moveUp slots hi hj
    obtain ⟨k', hk', _, hrecord', hbelow', habove'⟩ := exists_moveUp slots hi hk
    rw [hrecord, hrecord'] at hsame
    have hindex := h.distinct j' hj' k' hk' hsame
    omega
  · intro j hj
    obtain ⟨k, hk, hne, hrecord, -⟩ := exists_moveUp slots hi hj
    have hother : key (slots k) ≠ key (slots i) := fun hsame => hne (h.distinct k hk i hi hsame)
    rw [hrecord, Finmap.lookup_erase_ne hother, h.lookup k hk]
  · intro k hk
    obtain ⟨hne, hmem⟩ := Finmap.mem_erase.mp hk
    obtain ⟨j, hj, rfl⟩ := h.covered k hmem
    have hji : j ≠ i := fun hsame => hne (by rw [hsame])
    obtain ⟨j', hj', hrecord⟩ := exists_moved slots hi hj hji
    exact ⟨j', hj', by rw [hrecord]⟩

end HexaOS.SlotMaps
