import HexaOS.HexafsBootPolicy
import Mathlib.Algebra.Order.BigOperators.Group.List
import Mathlib.Algebra.Order.Group.Nat

/-!
# How many forms a save keeps

hexafs_save_all commits its new abstraction whether or not every form got its blocks and its
entry. Which forms are left out is decided by their sizes and the number of free blocks. The
list of the allocations that a save makes says when nothing is left out, and when the blocks
run out in such a way that the snapshot gets none either and the old root stays.
-/

namespace HexaOS.Hexafs

open DevicePrograms PackedBytes StoreTyping

section Items

/-- The blocks that the forms take one after the other, when some entries exist already. Behind
the twelfth entry stands the block of the chain. -/
def saveItems : ℕ → List ℕ → List ℕ
  | _, [] => []
  | entries, cost :: costs =>
    if entries < 11 then cost :: saveItems (entries + 1) costs
    else if entries = 11 then cost :: 1 :: saveItems 12 costs
    else cost :: saveItems entries costs

variable {entries free : ℕ} {costs : List ℕ}

/-- An abstraction never has more than twelve entries. -/
theorem entries_foldl_form_le (hentries : entries ≤ 12) :
    (costs.foldl SaveBudget.form ⟨entries, free⟩).entries ≤ 12 := by
  induction costs generalizing entries free with
  | nil => exact hentries
  | cons cost costs ih =>
    rw [List.foldl_cons, SaveBudget.form]
    split
    · exact ih hentries
    · split
      · exact ih (by dsimp only at *; omega)
      · split
        · exact ih (Nat.le_refl 12)
        · exact ih hentries

/-- The number is a sum over the first items of a list. -/
def PrefixSum (items : List ℕ) (n : ℕ) : Prop := ∃ k, n = (items.take k).sum

theorem prefixSum_nil_iff {n : ℕ} : PrefixSum [] n ↔ n = 0 := by
  constructor
  · rintro ⟨k, hk⟩
    rw [hk, List.take_nil, List.sum_nil]
  · intro hzero
    exact ⟨0, hzero⟩

theorem prefixSum_zero {items : List ℕ} : PrefixSum items 0 := ⟨0, rfl⟩

theorem prefixSum_cons_iff {item n : ℕ} {items : List ℕ} :
    PrefixSum (item :: items) n ↔ n = 0 ∨ item ≤ n ∧ PrefixSum items (n - item) := by
  constructor
  · rintro ⟨k, hk⟩
    cases k with
    | zero => exact .inl hk
    | succ k =>
      rw [List.take_succ_cons, List.sum_cons] at hk
      exact .inr ⟨by omega, k, by omega⟩
  · rintro (hzero | ⟨hle, k, hk⟩)
    · exact ⟨0, hzero⟩
    · exact ⟨k + 1, by rw [List.take_succ_cons, List.sum_cons]; omega⟩

/-- What one form does to a budget that has the blocks for it. -/
theorem SaveBudget.form_of_le {cost : ℕ} (h : cost ≤ free) :
    SaveBudget.form ⟨entries, free⟩ cost =
      if entries < 11 then ⟨entries + 1, free - cost⟩
      else if entries = 11 ∧ cost < free then ⟨12, free - cost - 1⟩
      else ⟨entries, free - cost⟩ := if_neg (Nat.not_lt.mpr h)

/-- What one form does to a budget that lacks blocks for it. -/
theorem SaveBudget.form_of_lt {cost : ℕ} (h : free < cost) :
    SaveBudget.form ⟨entries, free⟩ cost = ⟨entries, min free 1⟩ := if_pos h

/-- The blocks run out exactly if they are used up between two allocations. -/
theorem free_foldl_form_eq_zero_iff (hcosts : ∀ cost ∈ costs, 2 ≤ cost) (hentries : entries ≤ 12) :
    (costs.foldl SaveBudget.form ⟨entries, free⟩).free = 0 ↔
      PrefixSum (saveItems entries costs) free := by
  induction costs generalizing entries free with
  | nil => exact prefixSum_nil_iff.symm
  | cons cost costs ih =>
    have hcost := hcosts cost (List.mem_cons_self ..)
    have hrest : ∀ other ∈ costs, 2 ≤ other := fun other hother =>
      hcosts other (List.mem_cons_of_mem _ hother)
    have hitems : ∃ items, saveItems entries (cost :: costs) = cost :: items := by
      rw [saveItems]
      split
      · exact ⟨_, rfl⟩
      · split <;> exact ⟨_, rfl⟩
    rw [List.foldl_cons]
    rcases Nat.lt_or_ge free cost with hshort | henough
    · obtain ⟨items, hitems⟩ := hitems
      rw [SaveBudget.form_of_lt hshort, foldl_form_of_free_le_one hrest (Nat.min_le_right _ _),
        hitems, prefixSum_cons_iff]
      dsimp only
      omega
    · rw [SaveBudget.form_of_le henough, saveItems]
      by_cases hroom : entries < 11
      · rw [if_pos hroom, if_pos hroom, ih hrest (by omega), prefixSum_cons_iff]
        constructor
        · exact fun h => .inr ⟨henough, h⟩
        · rintro (hzero | ⟨_, h⟩)
          · omega
          · exact h
      · rw [if_neg hroom, if_neg hroom]
        by_cases hlast : entries = 11
        · rw [if_pos hlast, prefixSum_cons_iff, prefixSum_cons_iff]
          by_cases hchain : cost < free
          · rw [if_pos ⟨hlast, hchain⟩, ih hrest (Nat.le_refl 12)]
            constructor
            · exact fun h => .inr ⟨henough, .inr ⟨by omega, h⟩⟩
            · rintro (hzero | ⟨_, hzero | ⟨_, h⟩⟩)
              · omega
              · omega
              · exact h
          · rw [if_neg fun h => hchain h.2,
              foldl_form_of_free_le_one hrest (by omega)]
            dsimp only
            omega
        · rw [if_neg hlast, if_neg fun h => hlast h.1, ih hrest hentries, prefixSum_cons_iff]
          constructor
          · exact fun h => .inr ⟨henough, h⟩
          · rintro (hzero | ⟨_, h⟩)
            · omega
            · exact h

/-- Every form gets its entry exactly if there are at most twelve and the blocks suffice. -/
theorem entries_foldl_form_eq_iff (hcosts : ∀ cost ∈ costs, 2 ≤ cost) (hentries : entries ≤ 12) :
    (costs.foldl SaveBudget.form ⟨entries, free⟩).entries = entries + costs.length ↔
      entries + costs.length ≤ 12 ∧ (saveItems entries costs).sum ≤ free := by
  induction costs generalizing entries free with
  | nil =>
    have hnone : (saveItems entries []).sum = 0 := rfl
    rw [hnone]
    exact iff_of_true rfl ⟨hentries, Nat.zero_le _⟩
  | cons cost costs ih =>
    have hcost := hcosts cost (List.mem_cons_self ..)
    have hrest : ∀ other ∈ costs, 2 ≤ other := fun other hother =>
      hcosts other (List.mem_cons_of_mem _ hother)
    rw [List.foldl_cons, List.length_cons, saveItems]
    rcases Nat.lt_or_ge free cost with hshort | henough
    · rw [SaveBudget.form_of_lt hshort, foldl_form_of_free_le_one hrest (Nat.min_le_right _ _)]
      split
      · rw [List.sum_cons]
        dsimp only
        omega
      · split
        · rw [List.sum_cons]
          dsimp only
          omega
        · rw [List.sum_cons]
          dsimp only
          omega
    · rw [SaveBudget.form_of_le henough]
      by_cases hroom : entries < 11
      · have hih := @ih (entries + 1) (free - cost) hrest (by omega)
        rw [if_pos hroom, if_pos hroom, List.sum_cons]
        omega
      · rw [if_neg hroom, if_neg hroom]
        by_cases hlast : entries = 11
        · rw [if_pos hlast, List.sum_cons, List.sum_cons]
          by_cases hchain : cost < free
          · have hih := @ih 12 (free - cost - 1) hrest (Nat.le_refl 12)
            rw [if_pos ⟨hlast, hchain⟩]
            omega
          · rw [if_neg fun h => hchain h.2, foldl_form_of_free_le_one hrest (by omega)]
            dsimp only
            omega
        · have hmost : (costs.foldl SaveBudget.form ⟨entries, free - cost⟩).entries ≤ 12 :=
            entries_foldl_form_le hentries
          rw [if_neg hlast, if_neg fun h => hlast h.1, List.sum_cons]
          omega

/-- Behind the twelfth entry one block goes into the chain. -/
theorem sum_saveItems (hentries : entries ≤ 12) :
    (saveItems entries costs).sum =
      costs.sum + if entries < 12 ∧ 12 ≤ entries + costs.length then 1 else 0 := by
  induction costs generalizing entries with
  | nil =>
    rw [List.length_nil, if_neg (by omega)]
    rfl
  | cons cost costs ih =>
    rw [saveItems, List.sum_cons, List.length_cons]
    split
    · rw [List.sum_cons, ih (by omega)]
      split <;> split <;> omega
    · split
      · rw [List.sum_cons, List.sum_cons, ih (Nat.le_refl 12), if_neg (by omega), if_pos (by omega)]
        omega
      · rw [List.sum_cons, ih hentries, if_neg (by omega), if_neg (by omega)]
        rfl

/-- A sum over the first items is at most the sum over all. -/
theorem PrefixSum.le {items : List ℕ} {n : ℕ} (h : PrefixSum items n) : n ≤ items.sum := by
  obtain ⟨k, rfl⟩ := h
  exact (List.take_sublist k items).sum_le_sum fun _ _ => Nat.zero_le _

/-- Every form makes at most one entry. -/
theorem entries_foldl_form_le_add :
    (costs.foldl SaveBudget.form ⟨entries, free⟩).entries ≤ entries + costs.length := by
  induction costs generalizing entries free with
  | nil => exact Nat.le_refl _
  | cons cost costs ih =>
    rw [List.foldl_cons, List.length_cons, SaveBudget.form]
    split
    · exact ih.trans (by dsimp only; omega)
    · split
      · exact ih.trans (by dsimp only; omega)
      · split
        · exact ih.trans (by dsimp only at *; omega)
        · exact ih.trans (by dsimp only; omega)

end Items

variable {env env' : Environment} {machine machine' : Machine} {roles : UInt32 → Option Role}
  {mem mem' : Memory} {d d' : PlainDisk} {forms : List FormEntry}

section Budgets

theorem servedForms_sublist (env : Environment) (k : ℕ) (forms : List FormEntry) :
    (servedForms env k forms).Sublist forms := by
  induction forms generalizing k with
  | nil => exact List.Sublist.slnil
  | cons form forms ih =>
    rw [servedForms]
    split
    · exact (ih _).cons_cons form
    · exact (ih _).cons form

/-- The allocations of a save, from the first form on, when the forms that the heap serves get
all their blocks. -/
def savedItems (env : Environment) (k : ℕ) (forms : List FormEntry) : List ℕ :=
  saveItems 0 (formCosts (servedForms env k forms))

/-- A new abstraction holds these forms, and the heap and `free` blocks suffice for them. -/
structure SaveFits (env : Environment) (k : ℕ) (forms : List FormEntry) (free : ℕ) : Prop where
  /-- Every form gets its memory. -/
  served : servedForms env k forms = forms
  /-- There are at most twelve. -/
  length_le : forms.length ≤ 12
  /-- The blocks suffice. -/
  items : (savedItems env k forms).sum ≤ free

variable {n : UInt32} {saved : List FormEntry} {free : ℕ} {roles' : UInt32 → Option Role}

/-- Every form is saved exactly if the save fits. -/
theorem SavedAll.length_eq_iff (h : SavedAll env mem d roles n saved free mem' d' roles') :
    saved.length = mem.forms.length ↔
      SaveFits env d.kmallocCount mem.forms (mem.allocator.freeCount - 1) := by
  have hbudget := congrArg SaveBudget.entries h.budget
  have hsub := servedForms_sublist env d.kmallocCount mem.forms
  have hiff := @entries_foldl_form_eq_iff 0 (mem.allocator.freeCount - 1)
    (formCosts (servedForms env d.kmallocCount mem.forms)) two_le_of_mem_formCosts (Nat.zero_le 12)
  have hlength : (formCosts (servedForms env d.kmallocCount mem.forms)).length =
      (servedForms env d.kmallocCount mem.forms).length := List.length_map _
  dsimp only at hbudget
  rw [← hbudget, hlength, Nat.zero_add] at hiff
  constructor
  · intro hall
    have hmost : saved.length ≤ (servedForms env d.kmallocCount mem.forms).length := by
      rw [hbudget, ← hlength]
      exact entries_foldl_form_le_add.trans_eq (Nat.zero_add _)
    have hserved := hsub.eq_of_length (by have hle := hsub.length_le; omega)
    obtain ⟨hle, hitems⟩ := hiff.mp (by rw [hserved, hall])
    exact ⟨hserved, by rwa [hserved] at hle, hitems⟩
  · rintro ⟨hserved, hle, hitems⟩
    rw [hiff.mpr ⟨by rwa [hserved], hitems⟩, hserved]

/-- The snapshot gets no block exactly if the forms use up the blocks between two allocations. -/
theorem SavedAll.free_eq_zero_iff (h : SavedAll env mem d roles n saved free mem' d' roles') :
    free = 0 ↔
      PrefixSum (savedItems env d.kmallocCount mem.forms) (mem.allocator.freeCount - 1) := by
  have hbudget := congrArg SaveBudget.free h.budget
  have hiff := @free_foldl_form_eq_zero_iff 0 (mem.allocator.freeCount - 1)
    (formCosts (servedForms env d.kmallocCount mem.forms)) two_le_of_mem_formCosts (Nat.zero_le 12)
  dsimp only at hbudget
  rwa [← hbudget] at hiff

end Budgets

section Complete

/-- The root abstraction that the superblock in memory leads to. -/
def Machine.rootAbs (machine : Machine) : UInt32 :=
  rootAbsAt machine.sectors machine.mem.sbCache.rootSnapBlock

/-- An abstraction with an entry of its own for every form of a list. -/
def HoldsEntries (sectors : UInt32 → Sector) (block : UInt32) (forms : List FormEntry) : Prop :=
  ∃ entries, entries.Sublist (absEntries sectors block) ∧
    List.Forall₂ (fun entry form => EntryFor entry form.name entry.objectBlock hexafsForm)
      entries forms

/-- After a save the root abstraction is the old one, or it has an entry for every form. -/
def Machine.CompleteOrOld (machine machine' : Machine) : Prop :=
  machine'.rootAbs = machine.rootAbs ∨
    HoldsEntries machine'.sectors machine'.rootAbs machine.mem.forms

variable {n : UInt32} {saved : List FormEntry} {free : ℕ} {roles' : UInt32 → Option Role}

/-- The new abstraction has an entry for every form if and only if every form was saved. -/
theorem SavedAll.holdsEntries_iff (h : SavedAll env mem d roles n saved free mem' d' roles') :
    HoldsEntries d'.sectors n mem.forms ↔ saved.length = mem.forms.length := by
  constructor
  · rintro ⟨entries, hsub, hentries⟩
    have hle := h.sublist.length_le
    have hmost := hsub.length_le
    rw [hentries.length_eq, h.entries.length_eq] at hmost
    omega
  · intro hlength
    refine ⟨absEntries d'.sectors n, List.Sublist.refl _, ?_⟩
    rw [← h.sublist.eq_of_length hlength]
    exact h.entries.imp fun _ _ hstored => ⟨hstored.entry_for.name, rfl, hstored.entry_for.type⟩

/-- The root abstraction stays exactly if there was no block for the snapshot. -/
theorem SavedAll.rootAbs_eq_iff (h : SavedAll env mem d roles n saved free mem' d' roles')
    (hstore : Store mem d roles) :
    rootAbsAt d'.sectors mem'.sbCache.rootSnapBlock =
      rootAbsAt d.sectors mem.sbCache.rootSnapBlock ↔ free = 0 := by
  rcases h.root with ⟨hzero, _, hkept⟩ | ⟨hpos, _, _, _, habs⟩
  · refine iff_of_true ?_ hzero
    rw [hkept]
    exact hstore.rootAbsAt_eq fun b hb => h.same b _ hb
  · refine iff_of_false (fun heq => ?_) (by omega)
    rw [habs] at heq
    have hne := h.fresh.1.ne_zero
    rw [heq] at hne
    have hold := hstore.rootAbs_role hne
    rw [← heq] at hold
    exact hstore.heap.not_fresh hold h.fresh

/-- When a save leaves a complete abstraction or the old one. -/
theorem Machine.Mounted.completeOrOld_iff (h : machine.Mounted roles) (hio : env.IoOk)
    (hrun : machine.run env hexafsSaveAll = .ok ((), machine')) :
    machine.CompleteOrOld machine' ↔
      machine.mem.allocator.freeCount = 0 ∨
        PrefixSum (savedItems env machine.dev.kmallocCount machine.mem.forms)
          (machine.mem.allocator.freeCount - 1) ∨
        SaveFits env machine.dev.kmallocCount machine.mem.forms
          (machine.mem.allocator.freeCount - 1) := by
  obtain ⟨_, hout⟩ := h.saveAll hio hrun
  have hrootAbs : machine'.rootAbs =
      rootAbsAt machine'.dev.plain.sectors machine'.mem.sbCache.rootSnapBlock := rfl
  have hentries : HoldsEntries machine'.sectors machine'.rootAbs machine.mem.forms ↔
      HoldsEntries machine'.dev.plain.sectors machine'.rootAbs machine.mem.forms := Iff.rfl
  rw [Machine.CompleteOrOld, hentries, hrootAbs]
  have hcount : machine.dev.plain.kmallocCount = machine.dev.kmallocCount := rfl
  rw [← hcount]
  generalize machine'.mem = mem' at hout
  generalize machine'.dev.plain = d' at hout
  cases hout with
  | refused hrefused hd =>
    refine iff_of_true (.inl ?_) (.inl hrefused.free)
    rw [hd, hrefused.sbCache]
    rfl
  | @saved n saved free _ _ roles' hsaved =>
    have hroot : rootAbsAt d'.sectors mem'.sbCache.rootSnapBlock = machine.rootAbs ↔ free = 0 :=
      hsaved.rootAbs_eq_iff h.store
    have hfree := hsaved.free_eq_zero_iff
    rcases hsaved.root with ⟨hzero, _⟩ | ⟨hpos, _, _, _, habs⟩
    · exact iff_of_true (.inl (hroot.mpr hzero)) (.inr (.inl (hfree.mp hzero)))
    · have hnot : ¬free = 0 := by omega
      have hsome : ¬machine.mem.allocator.freeCount = 0 := by
        intro hfull
        rw [hfull] at hfree
        exact hnot (hfree.mpr prefixSum_zero)
      have hlength := hsaved.length_eq_iff
      rw [hroot, habs, hsaved.holdsEntries_iff, ← hfree, or_iff_right hnot, or_iff_right hsome,
        or_iff_right hnot]
      exact hlength

/-- For every form table and every bitmap, when no sector access fails: behind hexafs_save_all the
root abstraction has an entry for every form or is the old one exactly if no block is free, or the
blocks behind the one for the new abstraction are used up between two allocations, or the save
fits. -/
theorem hexafsSaveAll_completeOrOld_iff (h : machine.Mounted roles) (hio : env.IoOk) :
    ∃ machine', machine.run env hexafsSaveAll = .ok ((), machine') ∧
      (machine.CompleteOrOld machine' ↔
        machine.mem.allocator.freeCount = 0 ∨
          PrefixSum (savedItems env machine.dev.kmallocCount machine.mem.forms)
            (machine.mem.allocator.freeCount - 1) ∨
          SaveFits env machine.dev.kmallocCount machine.mem.forms
            (machine.mem.allocator.freeCount - 1)) := by
  obtain ⟨machine', hrun⟩ := h.saveAll_returns hio
  exact ⟨machine', hrun, h.completeOrOld_iff hio hrun⟩

/-- The save of three forms on a new store. -/
theorem hexafsSaveAll_completeOrOld_iff_letters : ∃ machine machine' : Machine,
    machine.mem.forms = letterForms 3 ∧
      machine.run .faultless hexafsSaveAll = .ok ((), machine') ∧
        (machine.CompleteOrOld machine' ↔
          machine.mem.allocator.freeCount = 0 ∨
            PrefixSum (savedItems .faultless machine.dev.kmallocCount machine.mem.forms)
              (machine.mem.allocator.freeCount - 1) ∨
            SaveFits .faultless machine.dev.kmallocCount machine.mem.forms
              (machine.mem.allocator.freeCount - 1)) := by
  obtain ⟨machine, roles, hunsaved⟩ := exists_unsaved letterForm 3
  obtain ⟨machine', hrun⟩ :=
    hexafsSaveAll_completeOrOld_iff hunsaved.mounted Environment.faultless_ioOk
  exact ⟨machine, machine', hunsaved.forms_eq, hrun⟩

/-- Of thirteen forms with different names on an almost empty disk, the save leaves one out. -/
theorem hexafsSaveAll_leavesOut : ∃ machine machine' : Machine, StoreRun machine ∧
    machine.mem.forms = letterForms 13 ∧ ((letterForms 13).map FormEntry.name).Nodup ∧
      machine.mem.allocator.freeCount = 3985 ∧
        machine.run .faultless hexafsSaveAll = .ok ((), machine') ∧
          ¬machine.CompleteOrOld machine' := by
  obtain ⟨machine, roles, hunsaved⟩ := exists_unsaved letterForm 13
  have hio := Environment.faultless_ioOk
  obtain ⟨machine', hrun⟩ := hunsaved.mounted.saveAll_returns hio
  have hforms : machine.mem.forms = letterForms 13 := hunsaved.forms_eq
  have hiff := hunsaved.mounted.completeOrOld_iff hio hrun
  rw [hforms, hunsaved.free] at hiff
  refine ⟨machine, machine', hunsaved.run, hforms, by decide, hunsaved.free, hrun, fun hcomplete => ?_⟩
  have hitems : (savedItems .faultless machine.dev.kmallocCount (letterForms 13)).sum = 27 := by
    rw [savedItems, servedForms_of_kmallocOk Environment.faultless_kmallocOk]
    decide
  rcases hiff.mp hcomplete with hzero | hprefix | hfits
  · cases hzero
  · have hle := hprefix.le
    omega
  · exact absurd hfits.length_le (by decide)

end Complete

section Reloaded

/-- The free blocks that a save of these forms takes: the abstraction, the forms, the block of the
chain behind the twelfth entry and the snapshot. -/
def blocksNeeded (forms : List FormEntry) : ℕ :=
  2 + (formCosts forms).sum + if 12 ≤ forms.length then 1 else 0

/-- A reboot on the disk of the second machine finds the forms of the first in their order, with
name, size, bytes, owner and mode. -/
def Machine.FormsReloaded (env' : Environment) (machine machine' : Machine) : Prop :=
  ∃ forms, reload env' machine'.sectors loadForms = .ok (true, forms) ∧
    forms.map FormEntry.view = machine.mem.forms.map FormEntry.view

/-- The forms that the heap serves take no more blocks than all of them. -/
theorem savedItems_sum_add_two_le (env : Environment) (k : ℕ) (forms : List FormEntry) :
    (savedItems env k forms).sum + 2 ≤ blocksNeeded forms := by
  have hsub := servedForms_sublist env k forms
  have hlength := hsub.length_le
  have hsum : (formCosts (servedForms env k forms)).sum ≤ (formCosts forms).sum :=
    (hsub.map _).sum_le_sum fun _ _ => Nat.zero_le _
  rw [savedItems, sum_saveItems (Nat.zero_le 12), blocksNeeded, formCosts, List.length_map,
    ← formCosts]
  split <;> split <;> omega

variable {n : UInt32} {saved : List FormEntry} {free : ℕ} {roles' : UInt32 → Option Role}

/-- Enough free blocks leave one for the snapshot. -/
theorem SavedAll.free_pos (h : SavedAll env mem d roles n saved free mem' d' roles')
    (hroom : blocksNeeded mem.forms ≤ mem.allocator.freeCount) : 0 < free := by
  have hitems := savedItems_sum_add_two_le env d.kmallocCount mem.forms
  refine Nat.pos_of_ne_zero fun hzero => ?_
  have hle := (h.free_eq_zero_iff.mp hzero).le
  omega

/-- What is loaded behind a save is what was saved, up to the end of the first block. -/
theorem SavedAll.formsOf_view_iff (h : SavedAll env mem d roles n saved free mem' d' roles')
    (himage : Image d'.sectors roles' mem'.allocator)
    (hroot : rootAbsAt d'.sectors (rootOn d'.sectors) = n)
    (hforms : ∀ form ∈ mem.forms, form.Savable) (hall : saved = mem.forms) :
    (formsOf env' d'.sectors).map FormEntry.view = mem.forms.map FormEntry.view ↔
      mem.forms.length ≤ 11 ∧ LoadsAlike env' 0 mem.forms := by
  have hne := h.fresh.1.ne_zero
  have hlength : (formsOf env' d'.sectors).length =
      if rootAbsAt d'.sectors (rootOn d'.sectors) = 0 then 0
      else min 11 (absEntries d'.sectors (rootAbsAt d'.sectors (rootOn d'.sectors))).length :=
    himage.length_formsOf
  rw [hroot, if_neg hne, h.entries.length_eq, hall] at hlength
  by_cases hle : mem.forms.length ≤ 11
  · have hlive : (headerAt d'.sectors n).live = absEntries d'.sectors n := by
      rw [(himage.heap.absSound h.role).live_eq, List.take_of_length_le]
      rwa [h.entries.length_eq, hall]
    have hentries := h.entries
    rw [hall] at hentries
    have hview := @loadedTable_view_iff env' d'.sectors _ _ hentries hforms 0 0
      (fun _ => FormEntry.zero) fun _ _ => rfl
    rw [formsOf, formsAt, hroot, if_neg hne, hlive]
    simp only [List.length_map, List.map_map, List.range_eq_range']
    exact hview.trans (and_iff_right hle).symm
  · refine iff_of_false (fun heq => ?_) fun hboth => hle hboth.1
    have hcount := congrArg List.length heq
    rw [List.length_map, List.length_map] at hcount
    omega

/-- When a reboot finds the forms that were saved, with enough free blocks. -/
theorem Machine.Mounted.formsReloaded_iff (h : machine.Mounted roles) (hio : env.IoOk)
    (hreads : ∀ n, env'.readOk n = true) (hforms : ∀ form ∈ machine.mem.forms, form.Savable)
    (hroom : blocksNeeded machine.mem.forms ≤ machine.mem.allocator.freeCount)
    (hrun : machine.run env hexafsSaveAll = .ok ((), machine')) :
    machine.FormsReloaded env' machine' ↔
      machine.mem.forms.length ≤ 11 ∧
        servedForms env machine.dev.kmallocCount machine.mem.forms = machine.mem.forms ∧
          LoadsAlike env' 0 machine.mem.forms := by
  obtain ⟨hcoh, hout⟩ := h.saveAll hio hrun
  have hneeded := savedItems_sum_add_two_le env machine.dev.kmallocCount machine.mem.forms
  generalize hmem : machine'.mem = mem' at hout
  generalize hplain : machine'.dev.plain = d' at hout
  cases hout with
  | refused hrefused _ =>
    have hzero := hrefused.free
    omega
  | @saved n saved free _ _ roles' hsaved =>
    subst hmem hplain
    have h' : machine'.Settled roles' := ⟨⟨hcoh, hsaved.store⟩, hsaved.committed⟩
    have hpos := hsaved.free_pos hroom
    have hroot : rootAbsAt machine'.sectors (rootOn machine'.sectors) = n := by
      rw [h'.rootOn_eq]
      rcases hsaved.root with ⟨hzero, _⟩ | ⟨_, _, _, _, habs⟩
      · omega
      · exact habs
    have hreloaded : machine.FormsReloaded env' machine' ↔
        (formsOf env' machine'.sectors).map FormEntry.view =
          machine.mem.forms.map FormEntry.view := by
      rw [Machine.FormsReloaded, h'.image.reload_forms hreads]
      constructor
      · rintro ⟨forms, heq, hview⟩
        simp only [Except.ok.injEq, Prod.mk.injEq, true_and] at heq
        rwa [heq]
      · intro hview
        exact ⟨_, rfl, hview⟩
    have hlength := hsaved.length_eq_iff
    rw [hreloaded]
    by_cases hall : saved.length = machine.mem.forms.length
    · have hserved := (hlength.mp hall).served
      have hsame := hsaved.sublist.eq_of_length hall
      exact (hsaved.formsOf_view_iff h'.image hroot hforms hsame).trans (and_congr_right fun _ => (and_iff_right hserved).symm)
    · refine iff_of_false (fun heq => hall ?_) fun hcond => hall (hlength.mpr ?_)
      · have hcount := congrArg List.length heq
        have hle := hsaved.sublist.length_le
        rw [List.length_map, List.length_map, h'.image.length_formsOf, hroot,
          if_neg hsaved.fresh.1.ne_zero] at hcount
        have hentries : (absEntries machine'.sectors n).length = saved.length :=
          hsaved.entries.length_eq
        omega
      · exact ⟨hcond.2.1, by omega, by
          show (savedItems env machine.dev.kmallocCount machine.mem.forms).sum ≤ _
          omega⟩

/-- For every form table whose names, bytes and owners fit, on a mounted store with enough free
blocks, when no sector access fails: the forms are rebuilt by a reboot behind hexafs_save_all exactly
if there are at most eleven and the two heaps serve them. -/
theorem hexafsSaveAll_formsReloaded_iff (h : machine.Mounted roles) (hio : env.IoOk)
    (hreads : ∀ n, env'.readOk n = true) (hforms : ∀ form ∈ machine.mem.forms, form.Savable)
    (hroom : blocksNeeded machine.mem.forms ≤ machine.mem.allocator.freeCount) :
    ∃ machine', machine.run env hexafsSaveAll = .ok ((), machine') ∧
      (machine.FormsReloaded env' machine' ↔
        machine.mem.forms.length ≤ 11 ∧
          servedForms env machine.dev.kmallocCount machine.mem.forms = machine.mem.forms ∧
            LoadsAlike env' 0 machine.mem.forms) := by
  obtain ⟨machine', hrun⟩ := h.saveAll_returns hio
  exact ⟨machine', hrun, h.formsReloaded_iff hio hreads hforms hroom hrun⟩

theorem letterForm_savable {i : ℕ} (hi : i < 26) : (letterForm i).Savable := by
  have hname : ∀ i : Fin 26, (letterForm i).name.chars.length = 1 := by decide
  have hlength := hname ⟨i, hi⟩
  dsimp only at hlength
  exact ⟨by omega, by omega, Nat.zero_le _, rfl, by show (0 : UInt32) < 12; decide⟩

theorem letterForms_savable {count : ℕ} (hcount : count ≤ 26) :
    ∀ form ∈ letterForms count, form.Savable := by
  intro form hform
  obtain ⟨i, hi, rfl⟩ := List.mem_map.mp hform
  exact letterForm_savable ((List.mem_range.mp hi).trans_le hcount)

/-- Three forms are saved on a new store and loaded. -/
theorem hexafsSaveAll_formsReloaded_iff_letters : ∃ machine machine' : Machine,
    machine.mem.forms = letterForms 3 ∧
      machine.run .faultless hexafsSaveAll = .ok ((), machine') ∧
        (machine.FormsReloaded .faultless machine' ↔
          machine.mem.forms.length ≤ 11 ∧
            servedForms .faultless machine.dev.kmallocCount machine.mem.forms = machine.mem.forms ∧
              LoadsAlike .faultless 0 machine.mem.forms) := by
  obtain ⟨machine, roles, hunsaved⟩ := exists_unsaved letterForm 3
  have hio := Environment.faultless_ioOk
  have hforms : machine.mem.forms = letterForms 3 := hunsaved.forms_eq
  have hroom : blocksNeeded machine.mem.forms ≤ machine.mem.allocator.freeCount := by
    rw [hforms, hunsaved.free]
    decide
  obtain ⟨machine', hrun⟩ := hexafsSaveAll_formsReloaded_iff hunsaved.mounted hio hio.reads
    (by rw [hforms]; exact letterForms_savable (by decide)) hroom
  exact ⟨machine, machine', hforms, hrun⟩

/-- Twelve forms with different names are saved on an almost empty disk, and a reboot does not find
the same forms. -/
theorem hexafsSaveAll_notReloaded : ∃ machine machine' : Machine, StoreRun machine ∧
    machine.mem.forms = letterForms 12 ∧ ((letterForms 12).map FormEntry.name).Nodup ∧
      (∀ form ∈ letterForms 12, form.Savable) ∧ machine.mem.allocator.freeCount = 3985 ∧
        machine.run .faultless hexafsSaveAll = .ok ((), machine') ∧
          ¬machine.FormsReloaded .faultless machine' := by
  obtain ⟨machine, roles, hunsaved⟩ := exists_unsaved letterForm 12
  have hio := Environment.faultless_ioOk
  obtain ⟨machine', hrun⟩ := hunsaved.mounted.saveAll_returns hio
  have hforms : machine.mem.forms = letterForms 12 := hunsaved.forms_eq
  have hsavable := letterForms_savable (show 12 ≤ 26 by decide)
  have hroom : blocksNeeded machine.mem.forms ≤ machine.mem.allocator.freeCount := by
    rw [hforms, hunsaved.free]
    decide
  have hiff := hunsaved.mounted.formsReloaded_iff hio hio.reads (by rwa [hforms]) hroom hrun
  refine ⟨machine, machine', hunsaved.run, hforms, by decide, hsavable, hunsaved.free, hrun,
    fun hsame => ?_⟩
  have hle := (hiff.mp hsame).1
  rw [hforms] at hle
  exact absurd hle (by decide)

end Reloaded

end HexaOS.Hexafs
