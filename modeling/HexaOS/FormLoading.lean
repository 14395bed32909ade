import HexaOS.FormOwnership
import HexaOS.HexafsLoading

/-!
# The form table after a boot

With its memory granted, hexafs_load_all gives every form a content that ends with its
terminator and fills its block. Placed in the kernel's table every form owns its content,
and the slots behind the last form are as they were.
-/

namespace HexaOS.Shell

open DevicePrograms PackedBytes Hexafs Kernel OwnedPointers

section Entries

variable {env : Environment} {mem : Memory} {dev : Device}

/-- The content ends with its terminator and fills its block. -/
def Whole (form : FormEntry) : Prop :=
  ∃ bytes, form.content = some (bytes ++ [0]) ∧ form.size = bytes.length ∧
    form.cap = bytes.length + 1

/-- The forms that are in the table are whole. -/
def LoadedWhole (mem : Memory) : Prop := ∀ i < mem.formCount, Whole (mem.formTable i)

/-- The next slot of the table. -/
def nextEntry (mem : Memory) : FormEntry := mem.formTable mem.formCount

/-- An update of the next slot leaves the forms alone. -/
theorem modifySlot_loaded {update : FormEntry → FormEntry} (h : LoadedWhole mem) :
    (modifySlot update).outcome (cachedDevice env) (fun _ => True) mem dev fun _ mem' _ =>
      LoadedWhole mem' ∧ nextEntry mem' = update (nextEntry mem) := by
  refine (Code.outcome_modify _ _).mpr ⟨fun i hi => ?_, Function.update_self ..⟩
  have hi' : i < mem.formCount := hi
  show Whole (Function.update mem.formTable mem.formCount _ i)
  rw [Function.update_of_ne hi'.ne]
  exact h i hi'

theorem kmalloc_outcome {size : ℕ} {post : Option (List UInt8) → Memory → Device → Prop}
    (hkm : env.KmallocOk) (h : ∀ fill : List UInt8, post (some fill) mem (nextKmalloc dev)) :
    (Hexafs.kmalloc size).outcome (cachedDevice env) (fun _ => True) mem dev post := by
  have hop : cachedDevice env (.kmalloc size) dev =
      .ok (env.heapBlock dev.kmallocCount size, nextKmalloc dev) := rfl
  rw [Hexafs.kmalloc, Code.outcome_request hop, hkm.heapBlock]
  exact h _

theorem modifySlotEmpty_loaded (hkm : env.KmallocOk) (h : LoadedWhole mem) :
    modifySlotEmpty.outcome (cachedDevice env) (fun _ => True) mem dev fun _ mem' _ =>
      LoadedWhole mem' ∧ Whole (nextEntry mem') := by
  rw [modifySlotEmpty, Code.outcome_bind]
  refine kmalloc_outcome hkm fun fill => ?_
  refine Code.outcome_imp (modifySlot_loaded h) fun _ mem' _ hmem => ⟨hmem.1, ?_⟩
  rw [hmem.2]
  exact ⟨[], rfl, rfl, rfl⟩

/-- Owner and mode do not matter. -/
theorem setOwner_loaded {owner : UInt32} {mode : UInt16} (h : LoadedWhole mem)
    (hnext : Whole (nextEntry mem)) :
    (modifySlot fun slot => { slot with owner := owner, mode := mode }).outcome (cachedDevice env)
      (fun _ => True) mem dev fun _ mem' _ => LoadedWhole mem' ∧ Whole (nextEntry mem') := by
  refine Code.outcome_imp (modifySlot_loaded h) fun _ mem' _ hmem => ⟨hmem.1, ?_⟩
  rw [hmem.2]
  exact hnext

theorem emptyForm_loaded (hkm : env.KmallocOk) {owner : UInt32} {mode : UInt16}
    (h : LoadedWhole mem) :
    (do
      modifySlotEmpty
      modifySlot fun slot => { slot with owner := owner, mode := mode }).outcome (cachedDevice env)
        (fun _ => True) mem dev fun _ mem' _ => LoadedWhole mem' ∧ Whole (nextEntry mem') := by
  rw [Code.outcome_bind]
  exact Code.outcome_imp (modifySlotEmpty_loaded hkm h) fun _ _ _ hmem =>
    setOwner_loaded hmem.1 hmem.2

theorem storeForm_loaded (hkm : env.KmallocOk) {dataSize : UInt32} {buffer : List UInt8}
    (h : LoadedWhole mem) :
    (storeForm dataSize buffer).outcome (cachedDevice env) (fun _ => True) mem dev fun _ mem' _ =>
      LoadedWhole mem' ∧ Whole (nextEntry mem') := by
  rw [storeForm]
  dsimp only
  rw [Code.outcome_bind]
  refine kmalloc_outcome hkm fun fill => ?_
  dsimp only
  split
  · exact trivial
  rw [Code.outcome_bind]
  refine Code.outcome_imp (modifySlot_loaded h) fun _ mem' dev' hmem => ?_
  refine setOwner_loaded hmem.1 ?_
  rw [hmem.2]
  exact ⟨_, rfl, rfl, rfl⟩

theorem loadEntry_loaded (hkm : env.KmallocOk) (entry : HexafsAbsEntry) (h : LoadedWhole mem) :
    (loadEntry entry).outcome (cachedDevice env) (fun _ => True) mem dev fun _ mem' _ =>
      LoadedWhole mem' := by
  have hcount : ∀ middle dev', LoadedWhole middle ∧ Whole (nextEntry middle) →
      (Code.modify fun mem : Memory => { mem with formCount := mem.formCount + 1 } :
        HexafsM Unit).outcome
        (cachedDevice env) (fun _ => True) middle dev' fun _ mem' _ => LoadedWhole mem' := by
    intro middle dev' hmiddle i hi
    have hi' : i < middle.formCount + 1 := hi
    by_cases hlast : i = middle.formCount
    · rw [hlast]
      exact hmiddle.2
    · exact hmiddle.1 i (by omega)
  rw [loadEntry, Code.outcome_bind]
  refine Code.outcome_imp (modifySlot_loaded h) fun _ named dev₁ hnamed => ?_
  rw [Code.outcome_bind]
  refine kmalloc_outcome hkm fun fill => ?_
  dsimp only
  rw [Code.outcome_bind]
  refine Code.outcome_imp (hexafsObjectReadData_keeps entry.objectBlock named).outcome
    fun read mem₂ dev₂ hkept => ?_
  obtain rfl : mem₂ = named := hkept
  have hempty : (do
      modifySlotEmpty
      modifySlot fun slot => { slot with owner := 0, mode := 0x1A4 }
      Code.modify fun mem : Memory => { mem with formCount := mem.formCount + 1 } :
        HexafsM Unit).outcome (cachedDevice env) (fun _ => True) mem₂ dev₂ fun _ mem' _ =>
          LoadedWhole mem' := by
    rw [← bind_assoc, Code.outcome_bind]
    exact Code.outcome_imp (emptyForm_loaded hkm hnamed.1) fun _ _ _ hmem => hcount _ _ hmem
  split
  · split
    · rw [Code.outcome_bind]
      exact Code.outcome_imp (storeForm_loaded hkm hnamed.1) fun _ _ _ hmem => hcount _ _ hmem
    · exact hempty
  · exact hempty

theorem loadEntries_loaded (hkm : env.KmallocOk) (count : ℕ) {entries : List HexafsAbsEntry}
    {mem : Memory} {dev : Device} (h : LoadedWhole mem) :
    (loadEntries count entries).outcome (cachedDevice env) (fun _ => True) mem dev fun _ mem' _ =>
      LoadedWhole mem' := by
  induction count generalizing entries mem dev with
  | zero => exact h
  | succ count ih =>
    simp only [loadEntries, Code.outcome_bind, Code.outcome_memory]
    split
    · cases entries with
      | nil => exact trivial
      | cons entry rest =>
        dsimp only
        rw [Code.outcome_bind]
        exact Code.outcome_imp (loadEntry_loaded hkm entry h) fun _ _ _ hmem => ih hmem
    · exact h

/-- hexafs_load_all from an empty table. -/
theorem hexafsLoadAll_loaded (hkm : env.KmallocOk) (h : mem.formCount = 0) :
    hexafsLoadAll.outcome (cachedDevice env) (fun _ => True) mem dev fun _ mem' _ =>
      LoadedWhole mem' := by
  have hempty : ∀ mem' : Memory, mem'.formCount = 0 → LoadedWhole mem' := fun mem' hzero i hi => by
    rw [hzero] at hi
    exact absurd hi (Nat.not_lt_zero i)
  have hread : ∀ lba, (hexafsBlockRead lba).Keeps id := fun lba => Code.keeps_request _
  rw [hexafsLoadAll, Code.outcome_bind, Code.outcome_modify, Code.outcome_bind, Code.outcome_memory]
  dsimp only
  split
  · exact hempty _ h
  rw [Code.outcome_bind]
  refine Code.outcome_imp (hread _ _).outcome fun read mem₁ dev₁ hkept => ?_
  obtain rfl : mem₁ = _ := hkept
  cases read with
  | none => exact hempty _ h
  | some buf =>
    dsimp only
    split
    · exact hempty _ h
    rw [Code.outcome_bind, Code.outcome_modify]
    split
    · exact hempty _ h
    rw [Code.outcome_bind]
    refine Code.outcome_imp (hread _ _).outcome fun read mem₂ dev₂ hkept => ?_
    obtain rfl : mem₂ = _ := hkept
    cases read with
    | none => exact hempty _ h
    | some buf =>
      dsimp only
      split
      · exact hempty _ h
      rw [Code.outcome_bind, Code.outcome_modify]
      exact loadEntries_loaded hkm _ (hempty _ rfl)

end Entries

section Placing

variable {env : Environment} {kernel : KernelMemory} {dev : Device} {forms : FormStore}
  {i count : ℕ}

/-- The size of a form is below its capacity, which is the length of its block, and the byte
at the size is zero. -/
def SoundForm (forms : FormStore) (i : ℕ) : Prop :=
  ∃ block, forms.block (contents forms i) = some block ∧ block.length = (forms.slot i).cap ∧
    (forms.slot i).size < (forms.slot i).cap ∧ block[(forms.slot i).size]? = some 0

/-- Soundness looks at one slot and its block. -/
theorem SoundForm.congr {forms' : FormStore} (h : SoundForm forms i)
    (hslot : forms'.slot i = forms.slot i)
    (hblock : forms'.block (contents forms i) = forms.block (contents forms i)) :
    SoundForm forms' i := by
  rw [SoundForm, contents, hslot]
  rw [SoundForm, ← hblock] at h
  exact h

/-- The first forms own their contents and are sound. -/
structure SoundTable (forms : FormStore) (count : ℕ) : Prop where
  /-- Every form has a buffer of its own. -/
  owned : OwnsFirst forms count
  /-- Every form is as it was loaded. -/
  sound : ∀ i < count, SoundForm forms i

/-- A whole form placed behind the others. -/
theorem SoundTable.place (h : SoundTable forms count) {form : FormEntry} (hform : Whole form) :
    SoundTable (placeForm forms count form) (count + 1) := by
  obtain ⟨bytes, hcontent, hsize, hcap⟩ := hform
  have hplaced : placeForm forms count form = (forms.alloc (bytes ++ [0])).setSlot count
      ⟨form.name, forms.fresh, form.size, form.cap, form.owner, form.mode⟩ := by
    rw [placeForm, hcontent]
  rw [hplaced]
  generalize hnew : (forms.alloc (bytes ++ [0])).setSlot count
    ⟨form.name, forms.fresh, form.size, form.cap, form.owner, form.mode⟩ = placed
  have hslot : placed.slot count =
      ⟨form.name, forms.fresh, form.size, form.cap, form.owner, form.mode⟩ := by
    rw [← hnew, FormStore.slot_setSlot_self]
  have hother : ∀ j < count, placed.slot j = forms.slot j := fun j hj => by
    rw [← hnew, FormStore.slot_setSlot_of_ne _ hj.ne]
    rfl
  have hblock : ∀ j, placed.block (contents forms j) = forms.block (contents forms j) := fun j => by
    rw [← hnew, FormStore.block_setSlot, forms.block_alloc _ (contents_ne_fresh forms j)]
  have hfresh : placed.block forms.fresh = some (bytes ++ [0]) := by
    rw [← hnew, FormStore.block_setSlot, forms.block_alloc_fresh]
  have hself : contents placed count = forms.fresh := by rw [contents, hslot]
  have hcontents : ∀ j < count, contents placed j = contents forms j := fun j hj => by
    rw [contents, contents, hother j hj]
  refine ⟨Owned.succ (Owned.congr h.owned hcontents fun j _ hlive => ?_) ?_ fun j hj => ?_,
    fun j hj => ?_⟩
  · exact ⟨hlive.1, by rw [hblock j]; exact hlive.2⟩
  · rw [hself]
    exact ⟨fresh_pos forms, by rw [hfresh]; rfl⟩
  · rw [hself, hcontents j hj]
    exact contents_ne_fresh forms j
  · by_cases hlast : j = count
    · subst hlast
      refine ⟨bytes ++ [0], ?_, ?_, ?_, ?_⟩
      · rw [hself, hfresh]
      · rw [hslot, hcap, List.length_append, List.length_singleton]
      · rw [hslot, hsize, hcap]
        exact Nat.lt_succ_self _
      · rw [hslot, hsize, List.getElem?_append_right (Nat.le_refl _), Nat.sub_self]
        rfl
    · exact (h.sound j (by omega)).congr (hother j (by omega)) (hblock j)

/-- The slots behind the forms that are placed stay as they were. -/
theorem slot_placeForms (forms : FormStore) (table : ℕ → FormEntry) {count j : ℕ} (h : count ≤ j) :
    (placeForms forms table count).slot j = forms.slot j := by
  induction count with
  | zero => rfl
  | succ count ih =>
    have hne : j ≠ count := by omega
    rw [placeForms, ← ih (by omega), placeForm]
    split
    · exact FormStore.slot_setSlot_of_ne _ hne _
    · exact FormStore.slot_setSlot_of_ne _ hne _

theorem placeForms_sound (forms : FormStore) {table : ℕ → FormEntry} {count : ℕ}
    (h : ∀ i < count, Whole (table i)) : SoundTable (placeForms forms table count) count := by
  induction count with
  | zero => exact ⟨.zero _ _, fun i hi => absurd hi (Nat.not_lt_zero i)⟩
  | succ count ih =>
    have hbefore := ih fun i hi => h i (by omega)
    exact hbefore.place (h count (Nat.lt_succ_self _))

/-- The table after a boot: its forms are sound, and the other slots were not touched. -/
theorem loadForms_sound (hkm : env.KmallocOk) (h : kernel.store.formCount = 0) :
    loadForms.outcome (cachedDevice env) (fun _ => True) kernel dev fun _ kernel' _ =>
      SoundTable kernel'.forms kernel'.store.formCount ∧
        ∀ j, kernel'.store.formCount ≤ j → kernel'.forms.slot j = kernel.forms.slot j := by
  rw [loadForms, Code.outcome_bind, onStore_outcome]
  refine Code.outcome_imp (hexafsLoadAll_loaded hkm h) fun _ mem' dev' hloaded => ?_
  exact ⟨placeForms_sound kernel.forms hloaded, fun j hj => slot_placeForms kernel.forms _ hj⟩

end Placing

end HexaOS.Shell
