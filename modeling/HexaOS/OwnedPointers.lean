import Mathlib.Data.Set.Function
import Mathlib.Order.Interval.Set.Defs

/-!
# Tables of owning pointers

The first entries of a table own what they point to when every pointer is live and no two
of them are equal. A fresh pointer may replace an entry or follow the last one, and
entries may be taken out along any injective renumbering.
-/

namespace HexaOS.OwnedPointers

/-- The first `count` pointers are live and distinct. -/
structure Owned {κ : Type} (count : ℕ) (pointer : ℕ → κ) (live : κ → Prop) : Prop where
  /-- Every pointer of the table is live. -/
  live : ∀ i < count, live (pointer i)
  /-- No two of them are the same. -/
  distinct : Set.InjOn pointer (Set.Iio count)

variable {κ : Type} {count count' : ℕ} {pointer pointer' : ℕ → κ} {live live' : κ → Prop}

namespace Owned

/-- An empty table owns nothing. -/
theorem zero (pointer : ℕ → κ) (live : κ → Prop) : Owned 0 pointer live where
  live i hi := absurd hi (Nat.not_lt_zero i)
  distinct i hi := absurd hi (Nat.not_lt_zero i)

/-- Two entries with one pointer are the same entry. -/
theorem eq_of_eq (h : Owned count pointer live) {i j : ℕ} (hi : i < count) (hj : j < count)
    (heq : pointer i = pointer j) : i = j :=
  h.distinct hi hj heq

/-- Entries taken out along an injective renumbering. -/
theorem comp (h : Owned count pointer live) {index : ℕ → ℕ}
    (hlt : ∀ i < count', index i < count) (hinj : Set.InjOn index (Set.Iio count')) :
    Owned count' (pointer ∘ index) live where
  live i hi := h.live (index i) (hlt i hi)
  distinct i hi j hj heq := hinj hi hj (h.eq_of_eq (hlt i hi) (hlt j hj) heq)

/-- Only the entries that count and what they point to matter. -/
theorem congr (h : Owned count pointer live) (hpointer : ∀ i < count, pointer' i = pointer i)
    (hlive : ∀ i < count, live (pointer i) → live' (pointer i)) : Owned count pointer' live' where
  live i hi := by
    rw [hpointer i hi]
    exact hlive i hi (h.live i hi)
  distinct i hi j hj heq := by
    rw [hpointer i hi, hpointer j hj] at heq
    exact h.eq_of_eq hi hj heq

/-- A live pointer that no other entry holds, in some entry. -/
theorem put {k : ℕ} (hlive : ∀ i < count, live (pointer i))
    (hothers : ∀ i < count, ∀ j < count, i ≠ k → j ≠ k → pointer i = pointer j → i = j)
    (hnew : ∀ i < count, i ≠ k → pointer i ≠ pointer k) : Owned count pointer live where
  live := hlive
  distinct i hi j hj heq := by
    by_cases hik : i = k
    · by_contra hne
      exact hnew j hj (fun hjk => hne (hik.trans hjk.symm)) (by rw [← heq, hik])
    · by_cases hjk : j = k
      · exact absurd (heq.trans (by rw [hjk])) (hnew i hi hik)
      · exact hothers i hi j hj hik hjk heq

/-- Another pointer in one entry: the others stay live, and none of them is the new one. -/
theorem replace (h : Owned count pointer live) {k : ℕ}
    (hother : ∀ i ≠ k, pointer' i = pointer i)
    (hlive : ∀ i < count, i ≠ k → live (pointer i) → live' (pointer i))
    (hnew : live' (pointer' k)) (hne : ∀ i < count, i ≠ k → pointer i ≠ pointer' k) :
    Owned count pointer' live' := by
  refine put (k := k) (fun i hi => ?_) (fun i hi j hj hik hjk heq => ?_) fun i hi hik => ?_
  · by_cases hik : i = k
    · rw [hik]
      exact hnew
    · rw [hother i hik]
      exact hlive i hi hik (h.live i hi)
  · rw [hother i hik, hother j hjk] at heq
    exact h.eq_of_eq hi hj heq
  · rw [hother i hik]
    exact hne i hi hik

/-- One entry more. -/
theorem succ (h : Owned count pointer live) (hlive : live (pointer count))
    (hne : ∀ i < count, pointer i ≠ pointer count) : Owned (count + 1) pointer live := by
  refine put (k := count) (fun i hi => ?_) (fun i hi j hj hik hjk heq => ?_) fun i hi hik => ?_
  · by_cases hik : i = count
    · rw [hik]
      exact hlive
    · exact h.live i (by omega)
  · exact h.eq_of_eq (by omega) (by omega) heq
  · exact hne i (by omega)

/-- One entry taken out: the later ones move down. -/
theorem remove (h : Owned count pointer live) (idx : ℕ) :
    Owned (count - 1) (pointer ∘ fun i => if idx ≤ i then i + 1 else i) live := by
  refine h.comp (fun i hi => ?_) fun i _ j _ heq => ?_
  · split
    · omega
    · omega
  · have hindex : (if idx ≤ i then i + 1 else i) = if idx ≤ j then j + 1 else j := heq
    split at hindex <;> split at hindex <;> omega

end Owned

end HexaOS.OwnedPointers
