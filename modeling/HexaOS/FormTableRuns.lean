import HexaOS.BufferedForms
import HexaOS.HexafsFrames

/-!
# Runs of commands on the form table

Every command keeps the forms held: their contents are owned and lie in their buffers, as long
as the slots in which it makes forms with the buffers that lie there are usable. None of its
accesses leaves a block. A run starts with the table that hexafs_load_all makes at boot; between
two commands anything may happen that leaves the table alone.
-/

namespace HexaOS.Shell

open DevicePrograms PackedBytes Hexafs Kernel OwnedPointers

section Removal

variable {env : Environment} {stops : Stop → Prop} {idx count : ℕ} {forms freed : FormStore}
  {kernel : KernelMemory} {dev : Device}

/-- A form taken out of the table, its block freed or not. -/
theorem OwnsFirst.remove (h : OwnsFirst forms count) (hidx : idx < count)
    (hslot : freed.slot = forms.slot)
    (hblock : ∀ address ≠ contents forms idx, freed.block address = forms.block address) :
    OwnsFirst (shiftForms freed idx count) (count - 1) := by
  refine Owned.congr (Owned.remove h idx) (fun i hi => ?_) fun i hi hlive => ?_
  · show (if idx ≤ i ∧ i + 1 < count then freed.slot (i + 1) else freed.slot i).content = _
    rw [hslot]
    by_cases hle : idx ≤ i
    · rw [if_pos ⟨hle, by omega⟩, Function.comp_apply, if_pos hle]
      rfl
    · rw [if_neg (fun hand => hle hand.1), Function.comp_apply, if_neg hle]
      rfl
  · have hne : contents forms (if idx ≤ i then i + 1 else i) ≠ contents forms idx := by
      intro heq
      have hindex : (if idx ≤ i then i + 1 else i) < count := by split <;> omega
      have hsame := h.eq_of_eq hindex hidx heq
      split at hsame <;> omega
    refine ⟨hlive.1, ?_⟩
    show (freed.block _).isSome
    rw [Function.comp_apply, hblock _ hne]
    exact hlive.2

/-- The other forms lie in their buffers as before. -/
theorem BufferedTable.remove (h : BufferedTable forms count) (hidx : idx < count)
    (hslot : freed.slot = forms.slot)
    (hblock : ∀ address ≠ contents forms idx, freed.block address = forms.block address) :
    BufferedTable (shiftForms freed idx count) (count - 1) where
  owned := h.owned.remove hidx hslot hblock
  buffered i hi := by
    have hmoved : (shiftForms freed idx count).slot i =
        forms.slot (if idx ≤ i then i + 1 else i) := by
      show (if idx ≤ i ∧ i + 1 < count then freed.slot (i + 1) else freed.slot i) = _
      rw [hslot]
      by_cases hle : idx ≤ i
      · rw [if_pos ⟨hle, by omega⟩, if_pos hle]
      · rw [if_neg (fun hand => hle hand.1), if_neg hle]
    have hlt : (if idx ≤ i then i + 1 else i) < count := by split <;> omega
    refine (h.buffered _ hlt).congr hmoved (hblock _ fun heq => ?_)
    have hsame := h.owned.eq_of_eq hlt hidx heq
    split at hsame <;> omega

theorem removeForm_held (h : FormsHeld kernel) (hidx : idx < kernel.store.formCount) :
    (removeForm idx).outcome (cachedDevice env) stops kernel dev fun _ kernel' _ =>
      FormsHeld kernel' :=
  BufferedTable.remove h hidx rfl fun _ _ => rfl

theorem deleteForm_held (h : FormsHeld kernel) (hidx : idx < kernel.store.formCount) :
    (deleteForm idx).outcome (cachedDevice env) stops kernel dev fun _ kernel' _ =>
      FormsHeld kernel' := by
  have hlive := h.owned.live idx hidx
  rw [deleteForm, Code.outcome_bind, Code.outcome_memory, Code.outcome_bind]
  refine freeBlock_outcome (.inr (.inr hlive.2)) (fun _ => removeForm_held h hidx) fun _ _ => ?_
  exact BufferedTable.remove h hidx rfl fun _ hne => FormStore.block_setBlock_of_ne _ hne _

end Removal

section Making

variable {env : Environment} {stops : Stop → Prop} {kernel kernel' : KernelMemory} {dev : Device}
  {address room : ℕ}

/-- Kernels that differ in blocks only that no slot has. -/
structure SameForms (kernel kernel' : KernelMemory) : Prop where
  /-- The tables of the shell stay. -/
  store : kernel'.store = kernel.store
  /-- The slots stay. -/
  slot : kernel'.forms.slot = kernel.forms.slot
  /-- The blocks of the slots stay. -/
  block : ∀ i, kernel'.forms.block (contents kernel.forms i) =
    kernel.forms.block (contents kernel.forms i)

theorem SameForms.findForm (h : SameForms kernel kernel') (name : CString) :
    findForm kernel' name = Kernel.findForm kernel name := by
  rw [Kernel.findForm, Kernel.findForm, h.store, h.slot]

theorem SameForms.checkPerm (h : SameForms kernel kernel') (idx : ℕ) (wantWrite : Bool) :
    checkPerm kernel' idx wantWrite = Kernel.checkPerm kernel idx wantWrite := by
  rw [Kernel.checkPerm, Kernel.checkPerm, h.store, h.slot]

theorem SameForms.owned (h : SameForms kernel kernel') (hown : ContentsOwned kernel) :
    ContentsOwned kernel' := by
  have hcontents : contents kernel'.forms = contents kernel.forms := by
    funext i
    rw [contents, contents, h.slot]
  rw [ContentsOwned, OwnsFirst, h.store, hcontents]
  refine Owned.congr hown (fun _ _ => rfl) fun i _ hlive => ⟨hlive.1, ?_⟩
  rw [h.block]
  exact hlive.2

theorem SameForms.held (h : SameForms kernel kernel') (hheld : FormsHeld kernel) :
    FormsHeld kernel' where
  owned := h.owned hheld.owned
  buffered i hi := by
    rw [h.store] at hi
    exact (hheld.buffered i hi).congr (congrFun h.slot i) (h.block i)

/-- A block of this length that no form has. -/
structure Spare (kernel : KernelMemory) (address room : ℕ) : Prop where
  /-- The address is not null. -/
  ne_zero : address ≠ 0
  /-- It is that of an allocated block of this length. -/
  block : ∃ block, kernel.forms.block address = some block ∧ block.length = room
  /-- No form has it. -/
  apart : ∀ i < kernel.store.formCount, contents kernel.forms i ≠ address

/-- A store into a spare block stays inside. -/
theorem Spare.stored (h : Spare kernel address room) {offset : ℕ} {bytes : List UInt8}
    (hle : offset + bytes.length ≤ room) :
    Spare (kernel.withForms (kernel.forms.stored address offset bytes)) address room where
  ne_zero := h.ne_zero
  block := by
    obtain ⟨block, hblock, hlength⟩ := h.block
    refine ⟨overlay block offset bytes, ?_, ?_⟩
    · rw [forms_withForms, FormStore.stored, FormStore.block_setBlock_self, hblock]
      rfl
    · rw [length_overlay (by omega), hlength]
  apart := h.apart

theorem contents_made_self (forms : FormStore) (idx : ℕ) (name : CString) (owner : UInt32)
    (fill : List UInt8) : contents (forms.made idx name owner fill) idx = forms.fresh := by
  rw [contents, FormStore.slot_made_self]

theorem contents_made_of_ne (forms : FormStore) {idx j : ℕ} (h : j ≠ idx) (name : CString)
    (owner : UInt32) (fill : List UInt8) :
    contents (forms.made idx name owner fill) j = contents forms j := by
  rw [contents, contents, FormStore.slot_made_of_ne _ h]

/-- The blocks that were allocated before a form is made still are. -/
theorem allocated_made {forms : FormStore} {other : ℕ} (hne : other ≠ forms.fresh) (idx : ℕ)
    (name : CString) (owner : UInt32) (fill : List UInt8) (h : Allocated forms other) :
    Allocated (forms.made idx name owner fill) other := by
  refine ⟨h.1, ?_⟩
  rw [FormStore.block_made, Function.update_of_ne hne]
  exact h.2

/-- A form that is made behind the others has a content of its own. -/
theorem OwnsFirst.made {forms : FormStore} {count : ℕ} (h : OwnsFirst forms count)
    (name : CString) (owner : UInt32) (fill : List UInt8) :
    OwnsFirst (forms.made count name owner fill) (count + 1) := by
  have hcontent : ∀ i < count, contents (forms.made count name owner fill) i = contents forms i :=
    fun i hi => contents_made_of_ne forms hi.ne name owner fill
  refine Owned.succ (Owned.congr h hcontent fun i _ hlive => ?_) ?_ fun i hi => ?_
  · exact allocated_made (contents_ne_fresh forms i) count name owner fill hlive
  · rw [contents_made_self]
    refine ⟨fresh_pos forms, ?_⟩
    rw [FormStore.block_made, Function.update_self]
    rfl
  · rw [contents_made_self, hcontent i hi]
    exact contents_ne_fresh forms i

/-- The new form has a buffer of one byte. -/
theorem BufferedTable.made {forms : FormStore} {count : ℕ} (h : BufferedTable forms count)
    (name : CString) (owner : UInt32) {fill : List UInt8} (hfill : fill.length = 1) :
    BufferedTable (forms.made count name owner fill) (count + 1) where
  owned := h.owned.made name owner fill
  buffered i hi := by
    by_cases hlast : i = count
    · subst hlast
      have hself := contents_made_self forms i name owner fill
      have hfits : 0 + [(0 : UInt8)].length ≤ fill.length := by
        rw [hfill]
        exact Nat.le_refl 1
      refine ⟨1, ⟨?_, ⟨overlay fill 0 [0], ?_, ?_⟩, Nat.one_pos, ?_, ?_⟩, ?_⟩
      · rw [hself]
        exact fresh_pos forms
      · rw [hself, FormStore.block_made, Function.update_self]
      · rw [length_overlay hfits, hfill]
      all_goals rw [FormStore.slot_made_self]
      · exact Nat.le_succ 1
      · exact Nat.zero_le 1
    · refine (h.buffered i (by omega)).congr (FormStore.slot_made_of_ne _ hlast _ _ _) ?_
      rw [FormStore.block_made, Function.update_of_ne (contents_ne_fresh forms i)]

/-- The slot behind the last form, after a cmd_mkform that got no memory. -/
theorem BufferedTable.unmade {forms : FormStore} {count : ℕ} (h : BufferedTable forms count)
    (name : CString) : BufferedTable (forms.unmade count name) count where
  owned := Owned.congr h.owned
    (fun i hi => by rw [contents, contents, FormStore.slot_unmade_of_ne _ hi.ne])
    fun _ _ hlive => hlive
  buffered i hi := (h.buffered i hi).congr (FormStore.slot_unmade_of_ne _ hi.ne name) rfl

/-- cmd_mkform keeps the forms held and spare blocks spare. -/
theorem cmdMkform_held {name : CString} (h : FormsHeld kernel)
    (hname : stops .fault ∨ name.chars.length < nameMax ∨ kernel.RefusesForm name) :
    (cmdMkform name).outcome (cachedDevice env) stops kernel dev fun _ kernel' _ =>
      FormsHeld kernel' ∧ ∀ address < kernel.forms.fresh, ∀ room,
        Spare kernel address room → Spare kernel' address room := by
  refine cmdMkform_outcome hname (fun _ _ _ => ⟨h, fun _ _ _ hspare => hspare⟩)
    (fun _ => ?_) fun fill hfill _ _ _ _ => ?_
  · refine ⟨BufferedTable.unmade h name, fun address _ room hspare => ?_⟩
    refine ⟨hspare.ne_zero, hspare.block, fun i hi => ?_⟩
    have hi' : i < kernel.store.formCount := hi
    rw [forms_withForms, contents, FormStore.slot_unmade_of_ne _ hi'.ne]
    exact hspare.apart i hi
  · refine ⟨BufferedTable.made h name _ (length_heapBlock hfill), fun address hlt room hspare => ?_⟩
    refine ⟨hspare.ne_zero, ?_, fun i hi => ?_⟩
    · rw [forms_withTable, FormStore.block_made, Function.update_of_ne hlt.ne]
      exact hspare.block
    · have hi' : i < kernel.store.formCount + 1 := hi
      rw [forms_withTable]
      by_cases hlast : i = kernel.store.formCount
      · rw [hlast, contents_made_self]
        exact hlt.ne'
      · rw [contents_made_of_ne _ hlast]
        exact hspare.apart i (by omega)

/-- A form that gives up its block for one that no form has. -/
theorem adoptBlock_held {hidx len : ℕ} (h : FormsHeld kernel)
    (hspare : Spare kernel address (len + 1)) (hlt : hidx < kernel.store.formCount) :
    (adoptBlock hidx address len).outcome (cachedDevice env) stops kernel dev
      fun _ kernel' _ => FormsHeld kernel' := by
  rw [adoptBlock, Code.outcome_bind, Code.outcome_memory, Code.outcome_bind]
  have hadopt : ∀ freed : FormStore, freed.slot = kernel.forms.slot →
      (∀ other ≠ contents kernel.forms hidx, freed.block other = kernel.forms.block other) →
        BufferedTable (freed.setSlot hidx { freed.slot hidx with
          content := address, size := len, cap := len }) kernel.store.formCount := by
    intro freed hslot hblock
    generalize hplaced : freed.setSlot hidx { freed.slot hidx with
      content := address, size := len, cap := len } = placed
    have hself : contents placed hidx = address := by
      rw [← hplaced, contents, FormStore.slot_setSlot_self]
    have hother : ∀ i ≠ hidx, placed.slot i = kernel.forms.slot i := fun i hi => by
      rw [← hplaced, FormStore.slot_setSlot_of_ne _ hi, hslot]
    have hkept : ∀ other ≠ contents kernel.forms hidx,
        placed.block other = kernel.forms.block other := fun other hne => by
      rw [← hplaced, FormStore.block_setSlot]
      exact hblock other hne
    have hapart : ∀ i < kernel.store.formCount, i ≠ hidx →
        contents kernel.forms i ≠ contents kernel.forms hidx :=
      fun i hi hne heq => hne (h.owned.eq_of_eq hi hlt heq)
    have hnew : HasBuffer placed hidx (len + 1) := by
      refine ⟨by rw [hself]; exact hspare.ne_zero, ?_, Nat.succ_pos _, ?_, ?_⟩
      · rw [hself, hkept _ (hspare.apart hidx hlt).symm]
        exact hspare.block
      · rw [← hplaced, FormStore.slot_setSlot_self]
        exact Nat.le_succ _
      · rw [← hplaced, FormStore.slot_setSlot_self]
    refine ⟨Owned.replace h.owned (k := hidx) (fun i hi => ?_) (fun i hi hne hlive => ?_)
      hnew.allocated fun i hi _ => ?_, fun i hi => ?_⟩
    · exact congrArg FormSlot.content (hother i hi)
    · exact ⟨hlive.1, by rw [hkept _ (hapart i hi hne)]; exact hlive.2⟩
    · rw [hself]
      exact hspare.apart i hi
    · by_cases hi' : i = hidx
      · rw [hi']
        refine ⟨len + 1, hnew, ?_⟩
        rw [← hplaced, FormStore.slot_setSlot_self]
        exact Nat.le_succ _
      · exact (h.buffered i hi).congr (hother i hi') (hkept _ (hapart i hi hi'))
  have hlive := h.owned.live hidx hlt
  refine freeBlock_outcome (.inr (.inr hlive.2)) (fun _ => ?_) fun _ _ => ?_
  · exact hadopt kernel.forms rfl fun _ _ => rfl
  · exact hadopt _ rfl fun _ hne => FormStore.block_setBlock_of_ne _ hne _

theorem wrapForm_held {name : CString} {len : ℕ} (h : FormsHeld kernel)
    (hname : stops .fault ∨ name.chars.length < nameMax ∨ kernel.RefusesForm name)
    (hspare : Spare kernel address (len + 1)) (hlt : address < kernel.forms.fresh) :
    (wrapForm name address len).outcome (cachedDevice env) stops kernel dev
      fun _ kernel' _ => FormsHeld kernel' := by
  rw [wrapForm, Code.outcome_bind]
  refine Code.outcome_imp (cmdMkform_held h hname) fun line middle dev' hmiddle => ?_
  rw [Code.outcome_bind, Code.outcome_memory]
  cases hfound : findForm middle name with
  | none => exact hmiddle.1
  | some hidx =>
    dsimp only
    rw [Code.outcome_bind]
    exact adoptBlock_held hmiddle.1 (hmiddle.2 address hlt _ hspare) (findForm_lt hfound)

/-- A kernel on which a spare block is being filled: the forms are as they were. -/
structure Packing (first kernel : KernelMemory) (address room : ℕ) : Prop where
  /-- The forms stay. -/
  same : SameForms first kernel
  /-- The new block belongs to no form. -/
  spare : Spare kernel address room
  /-- The heap has handed it out. -/
  below : address < kernel.forms.fresh
  /-- No slot has it. -/
  other : ∀ i, contents first.forms i ≠ address

/-- The block that hex_pack_elf allocates. -/
theorem Packing.start (kernel : KernelMemory) {fill : List UInt8} {size : ℕ}
    (hfill : fill.length = size) :
    Packing kernel (kernel.withForms (kernel.forms.alloc fill)) kernel.forms.fresh size where
  same := ⟨rfl, rfl, fun i => kernel.forms.block_alloc fill (contents_ne_fresh kernel.forms i)⟩
  spare := ⟨fresh_pos kernel.forms, ⟨fill, kernel.forms.block_alloc_fresh fill, hfill⟩,
    fun i _ => contents_ne_fresh kernel.forms i⟩
  below := Nat.lt_succ_self _
  other := contents_ne_fresh kernel.forms

/-- A store into the spare block. -/
theorem Packing.store {first : KernelMemory} (h : Packing first kernel address room) (offset : ℕ)
    {bytes : List UInt8} (hle : offset + bytes.length ≤ room) :
    (storeBytes address offset bytes).outcome (cachedDevice env) stops kernel dev
      fun _ kernel' _ => Packing first kernel' address room := by
  obtain ⟨block, hblock, hlength⟩ := h.spare.block
  refine storeBytes_outcome (.inr ⟨block, hblock, Int.natCast_nonneg _, by omega⟩) fun _ => ?_
  refine ⟨⟨h.same.store, h.same.slot, fun i => ?_⟩, h.spare.stored hle, h.below, h.other⟩
  rw [forms_withForms, FormStore.stored, FormStore.block_setBlock_of_ne _ (h.other i)]
  exact h.same.block i

theorem elfEntry_keeps (idx : ℕ) : (elfEntry idx).Keeps id :=
  Code.keeps_memory.bind fun _ =>
    Code.Keeps.ite ((loadBytes_keeps _ _ _).bind fun _ => Code.keeps_pure _) (Code.keeps_pure _)

theorem elfBytes_keeps (idx : ℕ) : (elfBytes idx).Keeps id :=
  Code.keeps_memory.bind fun _ => (loadBytes_keeps _ _ _).ite (Code.keeps_pure _)

/-- The header of a form of 4 bytes or more is read up to its byte 28. -/
def EntryFits (forms : FormStore) (idx : ℕ) : Prop :=
  4 ≤ (forms.slot idx).size → forms.Within (contents forms idx) 24 4

theorem elfEntry_stays {idx : ℕ} (h : EntryFits kernel.forms idx) :
    (elfEntry idx).outcome (cachedDevice env) stops kernel dev fun _ kernel' _ =>
      kernel' = kernel := by
  rw [elfEntry, Code.outcome_bind, Code.outcome_memory]
  dsimp only
  split
  · rename_i hread
    rw [Code.outcome_bind]
    exact loadBytes_outcome (.inr (h hread.2)) fun _ => rfl
  · rfl

/-- The bytes of a form that lies in its buffer are as many as its size. -/
theorem elfBytes_stays {idx : ℕ} (h : Buffered kernel.forms idx) :
    (elfBytes idx).outcome (cachedDevice env) stops kernel dev fun bytes kernel' _ =>
      kernel' = kernel ∧ bytes.length = (kernel.forms.slot idx).size := by
  obtain ⟨room, hroom, hsize⟩ := h
  rw [elfBytes, Code.outcome_bind, Code.outcome_memory]
  dsimp only
  split
  · refine loadBytes_outcome (.inr (hroom.within (Int.le_refl 0) (by omega))) fun hwithin => ?_
    obtain ⟨block, hblock, -, hle⟩ := hwithin
    refine ⟨rfl, ?_⟩
    rw [hblock, Option.getD_some, List.length_take, List.length_drop]
    omega
  · rename_i hempty
    have hzero : ¬0 < (kernel.forms.slot idx).size := fun hpos => hempty ⟨hroom.ne_zero, hpos⟩
    exact ⟨rfl, by rw [List.length_nil]; omega⟩

theorem length_hexName_lt (elfName : CString) : (hexName elfName).chars.length < nameMax := by
  have htake : ((takeChars 24 elfName).chars).length ≤ 24 := length_takeChars_le 24 elfName
  have hmax : nameMax = 32 := rfl
  have hdot : ([46, 104, 101, 120] : List UInt8).length = 4 := rfl
  rw [hexName, List.length_append]
  omega

/-- hex_pack_elf fills a spare block, and then looks for a form to give it to. -/
theorem packForm_outcome {idx : ℕ} {elfName caps : CString} {inSchema outSchema : UInt32}
    {post : KernelMemory → Prop} (h : FormsHeld kernel) (hidx : idx < kernel.store.formCount)
    (hentry : EntryFits kernel.forms idx) (hnone : post kernel)
    (hwrap : ∀ filled dev', Packing kernel filled kernel.forms.fresh
      (hexHeaderSize + (kernel.forms.slot idx).size + 1) →
        (wrapForm (hexName elfName) kernel.forms.fresh
          (hexHeaderSize + (kernel.forms.slot idx).size)).outcome (cachedDevice env) stops filled dev'
            fun _ kernel' _ => post kernel') :
    (packForm idx elfName caps inSchema outSchema).outcome (cachedDevice env) stops
      kernel dev fun _ kernel' _ => post kernel' := by
  rw [packForm, Code.outcome_bind, Code.outcome_memory]
  dsimp only
  rw [Code.outcome_bind]
  refine Code.outcome_imp (elfEntry_stays hentry) fun entryPoint kernel₁ dev₁ hkept => ?_
  obtain rfl : kernel₁ = kernel := hkept
  rw [Code.outcome_bind]
  refine allocBlock_outcome (fun _ => hnone) fun fill hfill => ?_
  dsimp only
  -- the packed block is spare until a form takes it
  rw [Code.outcome_bind]
  refine Code.outcome_imp (Packing.store (.start kernel₁ (length_heapBlock hfill)) 0 ?_)
    fun _ packed dev₂ hpacked => ?_
  · rw [length_toBytes_hexHeader]
    omega
  have hheld : FormsHeld packed := hpacked.same.held h
  have hsize : (packed.forms.slot idx).size = (kernel₁.forms.slot idx).size := by
    rw [hpacked.same.slot]
  have hidx' : idx < packed.store.formCount := by
    rw [hpacked.same.store]
    exact hidx
  rw [Code.outcome_bind]
  refine Code.outcome_imp (elfBytes_stays (hheld.buffered idx hidx')) fun code kernel₂ dev₃ hread => ?_
  obtain ⟨rfl, hlength⟩ := hread
  rw [Code.outcome_bind]
  refine Code.outcome_imp (hpacked.store _ (by omega)) fun _ filled dev₄ hfilled => ?_
  rw [Code.outcome_bind]
  exact Code.outcome_imp (hwrap filled dev₄ hfilled) fun _ _ _ hlast => hlast

theorem packForm_held {idx : ℕ} {elfName caps : CString} {inSchema outSchema : UInt32}
    (h : FormsHeld kernel) (hidx : idx < kernel.store.formCount)
    (hentry : EntryFits kernel.forms idx) :
    (packForm idx elfName caps inSchema outSchema).outcome (cachedDevice env) stops
      kernel dev fun _ kernel' _ => FormsHeld kernel' :=
  packForm_outcome h hidx hentry h fun _ _ hfilled => wrapForm_held (hfilled.same.held h)
    (.inr (.inl (length_hexName_lt elfName))) hfilled.spare hfilled.below

end Making

section Packages

/-- The capacity that the content of a form of a package takes. -/
def PkgForm.needed (form : PkgForm) : Int32 := Int32.ofNat form.text.chars.length + 1

/-- The forms of a package that are not in the table and are made. `full` says of the names
in the table whether nothing more is made. -/
def newForms (full : List CString → Bool) : List CString → List PkgForm → List PkgForm
  | _, [] => []
  | names, form :: rest =>
    if form.fileName ∈ names ∨ full names = true then newForms full names rest
    else form :: newForms full (names ++ [form.fileName]) rest

/-- The table takes no more forms. -/
def tableFull (names : List CString) : Bool := decide (maxForms ≤ names.length)

/-- The forms that `ayo update` makes, package after package. -/
def refreshedForms : List CString → List PkgEntry → List PkgForm
  | _, [] => []
  | names, pkg :: rest =>
    if pkg.marker ∈ names then
      let new := newForms tableFull names pkg.forms
      new ++ refreshedForms (names ++ new.map PkgForm.fileName) rest
    else refreshedForms names rest

/-- A condition that a form which is made in a usable slot keeps. -/
def KeptByMaking (kept : KernelMemory → Prop) : Prop :=
  ∀ kernel kernel' needed, UsableSlot kernel.forms kernel.store.formCount needed →
    Created kernel kernel' → kept kernel → kept kernel'

theorem formsHeld_keptByMaking : KeptByMaking FormsHeld :=
  fun _ _ _ husable hcreated hheld => hcreated.held husable hheld

/-- The table has these names and usable slots for these needs, under a condition that was kept. -/
structure Ready (kept : KernelMemory → Prop) (kernel : KernelMemory) (names : List CString)
    (needs : List Int32) : Prop where
  /-- The condition. -/
  kept : kept kernel
  /-- The names of the forms, in their order. -/
  names : formNames kernel = names
  /-- The slots behind the last form. -/
  usable : UsableSlots kernel.forms kernel.store.formCount needs

/-- The content is short enough for form_ensure_cap to ask for it. -/
def PkgForm.Small (form : PkgForm) : Prop := form.text.chars.length + 1025 < 2 ^ 31

/-- Every character of a text takes a byte. -/
theorem length_toList_le (text : String) : text.toList.length ≤ text.utf8ByteSize := by
  have hencoded : ∀ chars : List Char, chars.length ≤ chars.utf8Encode.size := by
    intro chars
    induction chars with
    | nil => exact Nat.zero_le _
    | cons c rest ih =>
      have hfirst : 0 < [c].utf8Encode.size := by
        rw [List.utf8Encode_singleton, List.size_toByteArray, String.length_utf8EncodeChar]
        exact c.utf8Size_pos
      rw [List.utf8Encode_cons, ByteArray.size_append, List.length_cons]
      omega
  have hlength := hencoded text.toList
  rw [String.utf8Encode_toList] at hlength
  exact hlength

theorem PkgForm.small_of_bytes {form : PkgForm} (h : form.content.utf8ByteSize < 256) :
    form.Small := by
  have htext : form.text.chars.length ≤ form.content.toList.length := by
    rw [PkgForm.text, cString, literal, CString.ofBytes]
    exact (List.takeWhile_sublist _).length_le.trans (List.length_map _).le
  have hbytes := length_toList_le form.content
  rw [PkgForm.Small]
  omega

/-- The contents of the packages are short. -/
theorem pkgDb_small : ∀ pkg ∈ pkgDb, ∀ form ∈ pkg.forms, form.Small := by
  have hshort : (pkgDb.all fun pkg => pkg.forms.all fun form =>
      decide (form.content.utf8ByteSize < 256)) = true := by
    decide +kernel
  intro pkg hpkg form hform
  have hpkg' := List.all_eq_true.mp hshort pkg hpkg
  exact PkgForm.small_of_bytes (of_decide_eq_true (List.all_eq_true.mp hpkg' form hform))

theorem findPackage_small {pkg : CString} {entry : PkgEntry} (h : findPackage pkg = some entry) :
    ∀ form ∈ entry.forms, form.Small :=
  pkgDb_small entry (List.mem_of_find?_eq_some h)

variable {env : Environment} {stops : Stop → Prop} {kernel : KernelMemory} {dev : Device}
  {kept : KernelMemory → Prop} {names : List CString} {needs : List Int32}

theorem createForm_ready (hkm : env.KmallocOk) (hmake : KeptByMaking kept) {name content : CString}
    (h : Ready kept kernel names ((Int32.ofNat content.chars.length + 1) :: needs))
    (hmax : content.chars.length + 1025 < 2 ^ 31) :
    (createForm name content).outcome (cachedDevice env) stops kernel dev
      fun _ kernel' _ => Ready kept kernel' (names ++ [name]) needs := by
  refine Code.outcome_imp ((createForm_names kernel name content).and_outcome
    (createForm_created hkm h.usable.1 hmax)) fun _ kernel' _ hboth => ?_
  obtain ⟨hnames, hcreated⟩ := hboth
  refine ⟨hmake _ _ _ h.usable.1 hcreated h.kept, ?_, hcreated.usable h.usable.2⟩
  rw [hnames, h.names]

theorem rewriteForm_ready (hkm : env.KmallocOk) {idx : ℕ} {content : CString}
    (h : Ready FormsHeld kernel names needs) (hidx : idx < kernel.store.formCount)
    (hmax : content.chars.length + 1025 < 2 ^ 31) :
    (rewriteForm idx content).outcome (cachedDevice env) stops kernel dev
      fun _ kernel' _ => Ready FormsHeld kernel' names needs := by
  refine Code.outcome_imp ((rewriteForm_keepsNames idx content kernel).and_outcome
    (rewriteForm_refilled hkm (h.kept.buffered idx hidx) hmax)) fun _ kernel' _ hboth => ?_
  obtain ⟨hnames, hrefilled⟩ := hboth
  refine ⟨hrefilled.held h.kept hidx, ?_, ?_⟩
  · rw [formNames_of_slotNames hnames, h.names]
  · rw [hrefilled.touches.formCount]
    exact h.usable.touched hrefilled.touches.forms hidx

/-- A loop that may make one form after the other. -/
theorem newForms_cons (full : List CString → Bool) (names : List CString) (form : PkgForm)
    (rest : List PkgForm) : newForms full names (form :: rest) = newForms full names [form] ++
      newForms full (names ++ (newForms full names [form]).map PkgForm.fileName) rest := by
  by_cases hskip : form.fileName ∈ names ∨ full names = true
  · simp only [newForms, if_pos hskip, List.map_nil, List.append_nil, List.nil_append]
  · simp only [newForms, if_neg hskip, List.map_cons, List.map_nil, List.singleton_append]

theorem installForm_ready (hkm : env.KmallocOk) (hmake : KeptByMaking kept) {form : PkgForm}
    (hsmall : form.Small)
    (h : Ready kept kernel names
      ((newForms (fun _ => false) names [form]).map PkgForm.needed ++ needs)) :
    (installForm form).outcome (cachedDevice env) stops kernel dev fun _ kernel' _ =>
      Ready kept kernel' (names ++ (newForms (fun _ => false) names [form]).map PkgForm.fileName)
        needs := by
  have hfound := findForm_isSome_iff kernel form.fileName
  rw [h.names] at hfound
  rw [installForm, Code.outcome_bind, Code.outcome_memory]
  by_cases hmem : form.fileName ∈ names
  · rw [if_pos (hfound.mpr hmem)]
    simp only [newForms, hmem, true_or, if_true, List.map_nil, List.append_nil, List.nil_append]
      at h ⊢
    exact h
  · rw [if_neg (fun hsome => hmem (hfound.mp hsome))]
    simp only [newForms, hmem, Bool.false_eq_true, or_self, if_false, List.map_cons, List.map_nil,
      List.singleton_append] at h ⊢
    exact createForm_ready hkm hmake h hsmall

theorem installForms_ready (hkm : env.KmallocOk) (hmake : KeptByMaking kept) (forms : List PkgForm)
    (hsmall : ∀ form ∈ forms, form.Small) {names : List CString} {kernel : KernelMemory} {dev : Device}
    (h : Ready kept kernel names
      ((newForms (fun _ => false) names forms).map PkgForm.needed ++ needs)) :
    (installForms forms).outcome (cachedDevice env) stops kernel dev fun _ kernel' _ =>
      kept kernel' := by
  induction forms generalizing kernel dev names with
  | nil => exact h.kept
  | cons form rest ih =>
    obtain ⟨hform, hrest⟩ := List.forall_mem_cons.mp hsmall
    rw [newForms_cons, List.map_append, List.append_assoc] at h
    rw [installForms, Code.outcome_bind]
    refine Code.outcome_imp (installForm_ready hkm hmake hform h) fun _ kernel' dev' hready => ?_
    exact ih hrest hready

theorem refreshForm_ready (hkm : env.KmallocOk) {form : PkgForm} (hsmall : form.Small)
    (h : Ready FormsHeld kernel names
      ((newForms tableFull names [form]).map PkgForm.needed ++ needs)) :
    (refreshForm form).outcome (cachedDevice env) stops kernel dev fun _ kernel' _ =>
      Ready FormsHeld kernel' (names ++ (newForms tableFull names [form]).map PkgForm.fileName)
        needs := by
  have hfound := findForm_isSome_iff kernel form.fileName
  have hlength := length_formNames kernel
  rw [h.names] at hfound hlength
  rw [refreshForm, Code.outcome_bind, Code.outcome_memory]
  have hskip : form.fileName ∈ names ∨ tableFull names = true →
      Ready FormsHeld kernel names needs ∧
        names ++ (newForms tableFull names [form]).map PkgForm.fileName = names := by
    intro hskip
    simp only [newForms, if_pos hskip, List.map_nil, List.nil_append] at h
    simp only [newForms, if_pos hskip, List.map_nil, List.append_nil]
    exact ⟨h, trivial⟩
  cases hform : findForm kernel form.fileName with
  | some idx =>
    have hmem : form.fileName ∈ names := hfound.mp (by
      rw [hform]
      rfl)
    have hready := hskip (.inl hmem)
    rw [hready.2]
    exact rewriteForm_ready hkm hready.1 (findForm_lt hform) hsmall
  | none =>
    have hmem : form.fileName ∉ names := fun hmem => by
      have hsome := hfound.mpr hmem
      rw [hform] at hsome
      cases hsome
    dsimp only
    split
    · rename_i hroom
      have hfull : ¬tableFull names = true := by
        rw [tableFull, decide_eq_true_eq]
        omega
      simp only [newForms, hmem, hfull, or_self, if_false, List.map_cons, List.map_nil,
        List.singleton_append, Bool.false_eq_true] at h ⊢
      exact createForm_ready hkm formsHeld_keptByMaking h hsmall
    · rename_i hroom
      have hfull : tableFull names = true := by
        rw [tableFull, decide_eq_true_eq]
        omega
      have hready := hskip (.inr hfull)
      rw [hready.2]
      exact hready.1

theorem refreshForms_ready (hkm : env.KmallocOk) (forms : List PkgForm)
    (hsmall : ∀ form ∈ forms, form.Small) {names : List CString} {kernel : KernelMemory} {dev : Device}
    (h : Ready FormsHeld kernel names
      ((newForms tableFull names forms).map PkgForm.needed ++ needs)) :
    (refreshForms forms).outcome (cachedDevice env) stops kernel dev fun _ kernel' _ =>
      Ready FormsHeld kernel' (names ++ (newForms tableFull names forms).map PkgForm.fileName)
        needs := by
  induction forms generalizing kernel dev names with
  | nil =>
    simp only [newForms, List.map_nil, List.nil_append, List.append_nil] at h ⊢
    exact h
  | cons form rest ih =>
    obtain ⟨hform, hrest⟩ := List.forall_mem_cons.mp hsmall
    rw [newForms_cons, List.map_append, List.append_assoc] at h
    rw [refreshForms, Code.outcome_bind, newForms_cons, List.map_append, ← List.append_assoc]
    refine Code.outcome_imp (refreshForm_ready hkm hform h) fun _ kernel' dev' hready => ?_
    exact ih hrest hready

theorem refreshPackages_ready (hkm : env.KmallocOk) (pkgs : List PkgEntry)
    (hsmall : ∀ pkg ∈ pkgs, ∀ form ∈ pkg.forms, form.Small) {names : List CString} {kernel : KernelMemory} {dev : Device}
    (h : Ready FormsHeld kernel names ((refreshedForms names pkgs).map PkgForm.needed)) :
    (refreshPackages pkgs).outcome (cachedDevice env) stops kernel dev
      fun _ kernel' _ => FormsHeld kernel' := by
  induction pkgs generalizing kernel dev names with
  | nil => exact h.kept
  | cons pkg rest ih =>
    obtain ⟨hpkg, hothers⟩ := List.forall_mem_cons.mp hsmall
    have hfound := findForm_isSome_iff kernel pkg.marker
    rw [h.names] at hfound
    rw [refreshPackages, Code.outcome_bind, refreshPackage, Code.outcome_bind, Code.outcome_memory]
    have hrest : ∀ names' one middle dev',
        Ready FormsHeld middle names' ((refreshedForms names' rest).map PkgForm.needed) →
          (do
            let others ← refreshPackages rest
            pure (one + others) : KernelM ℕ).outcome (cachedDevice env) stops middle dev'
              fun _ kernel' _ => FormsHeld kernel' := by
      intro names' one middle dev' hready
      rw [Code.outcome_bind]
      exact Code.outcome_imp (ih hothers hready) fun _ _ _ hheld => hheld
    by_cases hmem : pkg.marker ∈ names
    · have hsome := hfound.mpr hmem
      have hnone : ¬(findForm kernel pkg.marker).isNone = true := by
        rw [Option.isNone_iff_eq_none]
        intro hnone
        rw [hnone] at hsome
        cases hsome
      rw [if_neg hnone, Code.outcome_bind]
      simp only [refreshedForms, if_pos hmem, List.map_append] at h
      exact Code.outcome_imp (refreshForms_ready hkm pkg.forms hpkg h) fun _ middle dev' hready =>
        hrest _ 1 middle dev' hready
    · have hnone : (findForm kernel pkg.marker).isNone = true := by
        rw [Option.isNone_iff_eq_none]
        exact Option.not_isSome_iff_eq_none.mp fun hsome => hmem (hfound.mp hsome)
      rw [if_pos hnone]
      simp only [refreshedForms, if_neg hmem] at h
      exact hrest _ 0 kernel dev h

theorem uninstallForms_held (names : List CString) {kernel : KernelMemory} {dev : Device}
    (h : FormsHeld kernel) :
    (uninstallForms names).outcome (cachedDevice env) stops kernel dev
      fun _ kernel' _ => FormsHeld kernel' := by
  induction names generalizing kernel dev with
  | nil => exact h
  | cons name rest ih =>
    rw [uninstallForms, Code.outcome_bind, uninstallForm, Code.outcome_bind, Code.outcome_memory]
    cases hfound : findForm kernel name with
    | none => exact ih h
    | some idx =>
      exact Code.outcome_imp (removeForm_held h (findForm_lt hfound)) fun _ _ _ hheld => ih hheld

end Packages

end HexaOS.Shell
