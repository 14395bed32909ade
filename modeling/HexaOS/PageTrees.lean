import HexaOS.X86Paging

/-!
# Directories with tables of their own

A directory whose tables lie in distinct frames. Giving it a table in a fresh frame changes no
walk, and replacing the entry of a page in its table changes the walks from that page only.
-/

namespace X86

variable {words words' : ℕ → ℕ → UInt32} {dir v w entry : UInt32} {page f : ℕ}

/-- The table that a directory has for an address. -/
def tableEntry (words : ℕ → ℕ → UInt32) (dir v : UInt32) : UInt32 :=
  words (frameOf dir) (directoryIndex v)

/-- The frames of a directory and its tables. -/
def InTree (words : ℕ → ℕ → UInt32) (dir : UInt32) (f : ℕ) : Prop :=
  f = frameOf dir ∨ ∃ v, present (tableEntry words dir v) = true ∧ f = frameOf (tableEntry words dir v)

/-- The directory and its tables lie in distinct frames. -/
structure Separated (words : ℕ → ℕ → UInt32) (dir : UInt32) : Prop where
  /-- No table lies in the frame of the directory. -/
  directory : ∀ v, present (tableEntry words dir v) = true →
    frameOf (tableEntry words dir v) ≠ frameOf dir
  /-- Two parts of the address space have no table in common. -/
  tables : ∀ v w, present (tableEntry words dir v) = true →
    present (tableEntry words dir w) = true →
    frameOf (tableEntry words dir v) = frameOf (tableEntry words dir w) →
    directoryIndex v = directoryIndex w

/-- A table without pages. -/
def blankTable (i : ℕ) : UInt32 := if i < 1024 then 0x002 else 0

/-- The words once the directory has a table for an address; a new table has the given entry. -/
def withTable (words : ℕ → ℕ → UInt32) (dir v table : UInt32) : ℕ → ℕ → UInt32 :=
  if present (tableEntry words dir v) then words
  else setEntry (Function.update words (frameOf table) blankTable) (frameOf dir)
    (directoryIndex v) table

/-- The words once the page of an address has an entry in its table. -/
def withPage (words : ℕ → ℕ → UInt32) (dir v entry : UInt32) : ℕ → ℕ → UInt32 :=
  setEntry words (frameOf (tableEntry words dir v)) (tableIndex v) entry

/-- The page of an address, from its two indices. -/
theorem page_eq_of_indices (hdir : directoryIndex v = directoryIndex w)
    (htable : tableIndex v = tableIndex w) : v.toNat / 4096 = w.toNat / 4096 := by
  rw [← indices_eq v, ← indices_eq w, hdir, htable]

/-- A directory has one entry for all addresses of a part of the address space. -/
theorem tableEntry_congr (h : directoryIndex v = directoryIndex w) :
    tableEntry words dir v = tableEntry words dir w := by
  rw [tableEntry, tableEntry, h]

/-- The walk from an address without a table. -/
theorem walk_absent (h : present (tableEntry words dir v) = false) : walk words dir v = none := by
  have hpde : ¬present (words (frameOf dir) (directoryIndex v)) = true :=
    Bool.eq_false_iff.mp h
  simp only [walk, hpde]
  rfl

/-- The walk from an address whose page is not present in its table. -/
theorem walk_notPresent
    (h : present (words (frameOf (tableEntry words dir v)) (tableIndex v)) = false) :
    walk words dir v = none := by
  cases hwalk : walk words dir v with
  | none => rfl
  | some found =>
    rcases found with ⟨pde, pte⟩
    have ⟨hpde, _, hpte, hpresent⟩ := walk_eq_some hwalk
    rw [tableEntry, hpde, hpte, hpresent] at h
    exact absurd h.symm Bool.false_ne_true

/-- The walks of a directory depend on the frames of its tree. -/
theorem walk_eq_of_tree (h : ∀ f, InTree words dir f → words' f = words f) (v : UInt32) :
    walk words' dir v = walk words dir v := by
  refine walk_congr ?_ fun hpresent => ?_
  · rw [h (frameOf dir) (.inl rfl)]
  · have htable : InTree words dir (frameOf (words (frameOf dir) (directoryIndex v))) :=
      .inr ⟨v, hpresent, rfl⟩
    rw [h _ htable]

/-- An entry that was not present may change without a page being lost. -/
theorem walk_setEntry {i : ℕ} {found : UInt32 × UInt32} (habsent : present (words f i) = false)
    (hwalk : walk words dir v = some found) : walk (setEntry words f i entry) dir v = some found := by
  have ⟨hpde, hpresent, hpte, hpresent'⟩ := walk_eq_some hwalk
  have hkept : ∀ f' i' word, words f' i' = word → present word = true →
      setEntry words f i entry f' i' = word := by
    intro f' i' word hword hset
    have hne : ¬(f' = f ∧ i' = i) := by
      intro hsame
      rw [hsame.1, hsame.2] at hword
      rw [hword, hset] at habsent
      exact Bool.false_ne_true habsent.symm
    rw [setEntry_of_ne (by omega), hword]
  exact walk_eq (hkept _ _ _ hpde hpresent) hpresent (hkept _ _ _ hpte hpresent') hpresent'

section Table

variable {table : UInt32} (hseparated : Separated words dir)
  (hfresh : present (tableEntry words dir v) = false → ¬InTree words dir (frameOf table))
  (hpresent : present table = true)

/-- The entry of the directory for an address, once it has a table. -/
theorem tableEntry_withTable_self : tableEntry (withTable words dir v table) dir v =
    if present (tableEntry words dir v) then tableEntry words dir v else table := by
  rw [withTable]
  by_cases hset : present (tableEntry words dir v) = true
  · rw [if_pos hset, if_pos hset]
  · rw [if_neg hset, if_neg hset, tableEntry, setEntry_self]

include hfresh in
/-- The entries of the directory for the other parts of the address space. -/
theorem tableEntry_withTable_of_ne (hne : directoryIndex w ≠ directoryIndex v) :
    tableEntry (withTable words dir v table) dir w = tableEntry words dir w := by
  rw [withTable]
  by_cases hset : present (tableEntry words dir v) = true
  · rw [if_pos hset]
  · have hframe : frameOf dir ≠ frameOf table := fun heq =>
      hfresh (Bool.eq_false_iff.mpr hset) (.inl heq.symm)
    rw [if_neg hset, tableEntry, setEntry_of_ne (.inr hne), Function.update_of_ne hframe]
    rfl

include hseparated hfresh in
/-- The frames stay distinct. -/
theorem Separated.withTable : Separated (withTable words dir v table) dir := by
  by_cases hset : present (tableEntry words dir v) = true
  · have hsame : X86.withTable words dir v table = words := if_pos hset
    rw [hsame]
    exact hseparated
  have habsent := Bool.eq_false_iff.mpr hset
  have hself : ∀ u, directoryIndex u = directoryIndex v →
      tableEntry (X86.withTable words dir v table) dir u = table := by
    intro u hu
    rw [tableEntry_congr hu, tableEntry_withTable_self, if_neg hset]
  have hother : ∀ u, directoryIndex u ≠ directoryIndex v →
      tableEntry (X86.withTable words dir v table) dir u = tableEntry words dir u :=
    fun u hu => tableEntry_withTable_of_ne hfresh hu
  have hnew : ∀ u, present (tableEntry words dir u) = true →
      frameOf (tableEntry words dir u) ≠ frameOf table :=
    fun u hu heq => hfresh habsent (.inr ⟨u, hu, heq.symm⟩)
  refine ⟨fun u hu => ?_, fun u u' hu hu' heq => ?_⟩
  · by_cases hsame : directoryIndex u = directoryIndex v
    · rw [hself u hsame]
      exact fun heq => hfresh habsent (.inl heq)
    · rw [hother u hsame] at hu ⊢
      exact hseparated.directory u hu
  · by_cases hsame : directoryIndex u = directoryIndex v
    · by_cases hsame' : directoryIndex u' = directoryIndex v
      · rw [hsame, hsame']
      · rw [hself u hsame, hother u' hsame'] at heq
        rw [hother u' hsame'] at hu'
        exact absurd heq.symm (hnew u' hu')
    · by_cases hsame' : directoryIndex u' = directoryIndex v
      · rw [hother u hsame, hself u' hsame'] at heq
        rw [hother u hsame] at hu
        exact absurd heq (hnew u hu)
      · rw [hother u hsame] at hu heq
        rw [hother u' hsame'] at hu' heq
        exact hseparated.tables u u' hu hu' heq

include hseparated hfresh in
/-- A fresh table changes no walk. -/
theorem walk_withTable (w : UInt32) :
    walk (withTable words dir v table) dir w = walk words dir w := by
  by_cases hset : present (tableEntry words dir v) = true
  · rw [withTable, if_pos hset]
  have habsent := Bool.eq_false_iff.mpr hset
  have hdir : frameOf dir ≠ frameOf table := fun heq => hfresh habsent (.inl heq.symm)
  by_cases hsame : directoryIndex w = directoryIndex v
  · have hbefore : present (tableEntry words dir w) = false := by
      rw [tableEntry_congr hsame, habsent]
    have hentry : tableEntry (withTable words dir v table) dir w = table := by
      rw [tableEntry_congr hsame, tableEntry_withTable_self, if_neg hset]
    have hblank : withTable words dir v table (frameOf table) (tableIndex w) = 0x002 := by
      rw [withTable, if_neg hset, setEntry_of_ne (.inl hdir.symm), Function.update_self, blankTable,
        if_pos (tableIndex_lt w)]
    rw [walk_absent hbefore]
    refine walk_notPresent ?_
    rw [hentry, hblank]
    rfl
  · have hentry := tableEntry_withTable_of_ne hfresh hsame
    refine walk_congr hentry fun hw => ?_
    have htable : frameOf (tableEntry words dir w) ≠ frameOf table :=
      fun heq => hfresh habsent (.inr ⟨w, hw, heq.symm⟩)
    have hframe := hseparated.directory w hw
    show withTable words dir v table (frameOf (tableEntry words dir w)) (tableIndex w) =
      words (frameOf (tableEntry words dir w)) (tableIndex w)
    rw [withTable, if_neg hset, setEntry_of_ne (.inl hframe), Function.update_of_ne htable]

end Table

section Page

variable (hseparated : Separated words dir) (hpresent : present (tableEntry words dir v) = true)

include hseparated hpresent

/-- The entries of the directory stay. -/
theorem tableEntry_withPage (w : UInt32) :
    tableEntry (withPage words dir v entry) dir w = tableEntry words dir w := by
  have hframe := hseparated.directory v hpresent
  rw [tableEntry, withPage, setEntry_of_ne (.inl hframe.symm)]
  rfl

/-- The entry of the page. -/
theorem withPage_self :
    withPage words dir v entry (frameOf (tableEntry (withPage words dir v entry) dir v))
      (tableIndex v) = entry := by
  rw [tableEntry_withPage hseparated hpresent, withPage, setEntry_self]

/-- The walks from the other pages stay. -/
theorem walk_withPage (hpage : w.toNat / 4096 ≠ v.toNat / 4096) :
    walk (withPage words dir v entry) dir w = walk words dir w := by
  refine walk_congr (tableEntry_withPage hseparated hpresent w) fun hw => ?_
  show withPage words dir v entry (frameOf (tableEntry words dir w)) (tableIndex w) =
    words (frameOf (tableEntry words dir w)) (tableIndex w)
  refine setEntry_of_ne ?_
  by_cases hindex : tableIndex w = tableIndex v
  · refine .inl fun heq => hpage ?_
    exact page_eq_of_indices (hseparated.tables w v hw hpresent heq) hindex
  · exact .inr hindex

end Page

end X86
