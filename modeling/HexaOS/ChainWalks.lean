import Mathlib.Data.Finset.Card

/-!
# Walks along links

Every node has at most one next node. A walk from a node ends exactly if it meets no node that
leads back to itself; among finitely many nodes it then ends within as many steps as there are
nodes.
-/

namespace HexaOS.ChainWalks

variable {ν : Type}

/-- The node behind a number of links. -/
def follow (next : ν → Option ν) : ℕ → ν → Option ν
  | 0, node => some node
  | k + 1, node => (next node).bind (follow next k)

/-- The walk from a node comes to another one. -/
def Meets (next : ν → Option ν) (node other : ν) : Prop := ∃ k, follow next k node = some other

/-- The walk from a node comes to it again. -/
def LeadsBack (next : ν → Option ν) (node : ν) : Prop :=
  ∃ k, 0 < k ∧ follow next k node = some node

variable {next : ν → Option ν} {node other : ν}

/-- First some links, then others. -/
theorem follow_add (next : ν → Option ν) (j k : ℕ) (node : ν) :
    follow next (j + k) node = (follow next j node).bind (follow next k) := by
  induction j generalizing node with
  | zero =>
    rw [Nat.zero_add]
    rfl
  | succ j ih =>
    rw [Nat.add_right_comm, follow, follow]
    cases next node with
    | none => rfl
    | some other => exact ih other

/-- A walk that has ended has ended. -/
theorem follow_none_of_le {j k : ℕ} (hle : j ≤ k) (h : follow next j node = none) :
    follow next k node = none := by
  obtain ⟨d, rfl⟩ := Nat.exists_eq_add_of_le hle
  rw [follow_add, h]
  rfl

/-- A walk comes to its first node. -/
theorem meets_self (next : ν → Option ν) (node : ν) : Meets next node node := ⟨0, rfl⟩

/-- What the next node meets is met. -/
theorem Meets.step {middle : ν} (hnext : next node = some middle) (h : Meets next middle other) :
    Meets next node other := by
  obtain ⟨k, hk⟩ := h
  refine ⟨k + 1, ?_⟩
  rw [follow, hnext]
  exact hk

/-- A walk that ends here goes no further. -/
theorem follow_succ_of_none (h : next node = none) (k : ℕ) : follow next (k + 1) node = none := by
  rw [follow, h]
  rfl

/-- What a walk meets is its first node, or is met from the next one. -/
theorem Meets.eq_or_step (h : Meets next node other) :
    other = node ∨ ∃ middle, next node = some middle ∧ Meets next middle other := by
  obtain ⟨k, hk⟩ := h
  cases k with
  | zero => exact .inl (Option.some.inj hk).symm
  | succ k =>
    rw [follow] at hk
    obtain ⟨middle, hmiddle, hrest⟩ := Option.bind_eq_some_iff.mp hk
    exact .inr ⟨middle, hmiddle, k, hrest⟩

/-- A walk that ends here meets nothing else. -/
theorem Meets.eq_of_none (h : Meets next node other) (hnone : next node = none) : other = node := by
  rcases h.eq_or_step with heq | ⟨middle, hmiddle, -⟩
  · exact heq
  · cases hnone.symm.trans hmiddle

/-- A walk goes round and round. -/
theorem follow_mul {period : ℕ} (h : follow next period node = some node) (rounds : ℕ) :
    follow next (rounds * period) node = some node := by
  induction rounds with
  | zero =>
    rw [Nat.zero_mul]
    rfl
  | succ rounds ih =>
    rw [Nat.succ_mul, follow_add, ih]
    exact h

/-- A walk that meets a node that leads back to itself does not end. -/
theorem Meets.follow_ne_none (hmeets : Meets next node other) (hback : LeadsBack next other)
    (k : ℕ) : follow next k node ≠ none := by
  obtain ⟨j, hj⟩ := hmeets
  obtain ⟨period, hpos, hperiod⟩ := hback
  intro hnone
  have hle : k ≤ j + k * period := by
    have hmul := Nat.le_mul_of_pos_right k hpos
    omega
  have hend := follow_none_of_le hle hnone
  rw [follow_add, hj] at hend
  exact nomatch hend.symm.trans (follow_mul hperiod k)

/-- Among finitely many nodes a walk that does not end in time meets a node that leads back to
itself. -/
theorem exists_leadsBack {rank : ν → ℕ} (hrank : Function.Injective rank) {bound : ℕ}
    (hbound : ∀ node, rank node < bound) {fuel : ℕ} (hfuel : bound ≤ fuel)
    (h : follow next fuel node ≠ none) : ∃ other, Meets next node other ∧ LeadsBack next other := by
  have hsome : ∀ k ≤ fuel, ∃ other, follow next k node = some other := fun k hk =>
    Option.ne_none_iff_exists'.mp fun hnone => h (follow_none_of_le hk hnone)
  have hnonempty : Nonempty ν := ⟨node⟩
  choose! visited hvisited using hsome
  have hmaps : ∀ k ∈ Finset.range (fuel + 1), rank (visited k) ∈ Finset.range bound :=
    fun k _ => Finset.mem_range.mpr (hbound _)
  have hcard : (Finset.range bound).card < (Finset.range (fuel + 1)).card := by
    rw [Finset.card_range, Finset.card_range]
    omega
  obtain ⟨i, hi, j, hj, hne, heq⟩ := Finset.exists_ne_map_eq_of_card_lt_of_maps_to hcard hmaps
  have hsame := hrank heq
  rw [Finset.mem_range] at hi hj
  -- the earlier of the two visits leads to the later one
  wlog hlt : i < j generalizing i j
  · exact this j hj i hi (Ne.symm hne) heq.symm hsame.symm (by omega)
  · have hfirst := hvisited i (by omega)
    have hsecond := hvisited j (by omega)
    refine ⟨visited i, ⟨i, hfirst⟩, j - i, by omega, ?_⟩
    have hsum : i + (j - i) = j := by omega
    rw [← hsum, follow_add, hfirst] at hsecond
    rw [hsum, ← hsame] at hsecond
    exact hsecond

/-- Among finitely many nodes a walk ends in time exactly if it meets no node that leads back to
itself. -/
theorem follow_eq_none_iff {rank : ν → ℕ} (hrank : Function.Injective rank) {bound : ℕ}
    (hbound : ∀ node, rank node < bound) {fuel : ℕ} (hfuel : bound ≤ fuel) :
    follow next fuel node = none ↔ ∀ other, Meets next node other → ¬LeadsBack next other := by
  constructor
  · exact fun hnone other hmeets hback => hmeets.follow_ne_none hback fuel hnone
  · intro hall
    by_contra hne
    obtain ⟨other, hmeets, hback⟩ := exists_leadsBack hrank hbound hfuel hne
    exact hall other hmeets hback

end HexaOS.ChainWalks
