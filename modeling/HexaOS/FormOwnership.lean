import HexaOS.FormOutcomes
import HexaOS.HexBinaries
import HexaOS.OwnedPointers
import HexaOS.ShellPackages

/-!
# Who owns the contents

A form owns its content when the block is allocated and no other form points to it. Code
that touches one form keeps this, and so does taking a form out of the table. A slot
behind the last form may hold anything that a removed form left there, so a command that
makes a form in it without a new block is right only when the slot is usable.
-/

namespace HexaOS.Shell

open DevicePrograms PackedBytes Hexafs Kernel OwnedPointers

/-- An address that kmalloc returned and that was not freed since. -/
def Allocated (forms : FormStore) (address : ℕ) : Prop :=
  address ≠ 0 ∧ (forms.block address).isSome

/-- The addresses of the contents. -/
def contents (forms : FormStore) : ℕ → ℕ := fun i => (forms.slot i).content

/-- The first forms own their contents. -/
def OwnsFirst (forms : FormStore) (count : ℕ) : Prop :=
  Owned count (contents forms) (Allocated forms)

/-- The contents of the forms are not null, pairwise distinct and allocated. -/
def ContentsOwned (kernel : KernelMemory) : Prop := OwnsFirst kernel.forms kernel.store.formCount

/-- The buffer of a slot: an allocated block of as many bytes as the capacity says or, behind
hex_pack_elf, of one byte more. -/
structure HasBuffer (forms : FormStore) (i room : ℕ) : Prop where
  /-- The content is not null. -/
  ne_zero : contents forms i ≠ 0
  /-- The content is an allocated block of this length. -/
  block : ∃ block, forms.block (contents forms i) = some block ∧ block.length = room
  /-- The block is not empty. -/
  pos : 0 < room
  /-- The capacity fits the block. -/
  cap_le : (forms.slot i).cap ≤ room
  /-- The block is at most one byte longer. -/
  le_cap : room ≤ (forms.slot i).cap + 1

/-- The content of a slot lies in its buffer. -/
def Buffered (forms : FormStore) (i : ℕ) : Prop :=
  ∃ room, HasBuffer forms i room ∧ (forms.slot i).size ≤ room

/-- A slot in which a form may be made by form_ensure_cap alone: there is no buffer and one
has to be allocated, or the slot has a buffer and no slot before has it. -/
def UsableSlot (forms : FormStore) (n : ℕ) (needed : Int32) : Prop :=
  contents forms n = 0 ∧ ((forms.slot n).cap : Int) < needed.toInt ∨
    Buffered forms n ∧ ∀ i < n, contents forms i ≠ contents forms n

/-- Consecutive slots that are usable. -/
def UsableSlots (forms : FormStore) : ℕ → List Int32 → Prop
  | _, [] => True
  | n, needed :: rest => UsableSlot forms n needed ∧ UsableSlots forms (n + 1) rest

/-- Only one slot changes, and its content and what lies in it. A content that was allocated
still is. -/
structure Touches (idx : ℕ) (forms forms' : FormStore) : Prop where
  /-- The other slots stay. -/
  other : ∀ j ≠ idx, forms'.slot j = forms.slot j
  /-- A buffer of another slot stays apart. -/
  apart : ∀ j ≠ idx, contents forms j ≠ contents forms idx →
    contents forms' j ≠ contents forms' idx
  /-- A block of another slot stays. -/
  block : ∀ j ≠ idx, contents forms j ≠ contents forms idx →
    forms'.block (contents forms j) = forms.block (contents forms j)
  /-- The block of the slot stays allocated. -/
  live : Allocated forms (contents forms idx) → Allocated forms' (contents forms' idx)

section Touching

variable {idx n : ℕ} {forms forms' forms'' : FormStore}

theorem Touches.refl (idx : ℕ) (forms : FormStore) : Touches idx forms forms :=
  ⟨fun _ _ => rfl, fun _ _ h => h, fun _ _ _ => rfl, fun h => h⟩

/-- A buffer is an allocated block. -/
theorem HasBuffer.allocated {room : ℕ} (h : HasBuffer forms n room) :
    Allocated forms (contents forms n) := by
  obtain ⟨block, hblock, -⟩ := h.block
  refine ⟨h.ne_zero, ?_⟩
  rw [hblock]
  rfl

theorem Buffered.allocated (h : Buffered forms n) : Allocated forms (contents forms n) := by
  obtain ⟨room, hroom, -⟩ := h
  exact hroom.allocated

/-- A buffer is told by the content and the capacity of its slot, and its block. -/
theorem HasBuffer.congr {room m : ℕ} (h : HasBuffer forms n room)
    (hcontent : contents forms' m = contents forms n)
    (hcap : (forms'.slot m).cap = (forms.slot n).cap)
    (hblock : forms'.block (contents forms n) = forms.block (contents forms n)) :
    HasBuffer forms' m room where
  ne_zero := hcontent ▸ h.ne_zero
  block := by
    rw [hcontent, hblock]
    exact h.block
  pos := h.pos
  cap_le := hcap ▸ h.cap_le
  le_cap := hcap ▸ h.le_cap

theorem Buffered.congr {m : ℕ} (h : Buffered forms n) (hslot : forms'.slot m = forms.slot n)
    (hblock : forms'.block (contents forms n) = forms.block (contents forms n)) :
    Buffered forms' m := by
  obtain ⟨room, hroom, hsize⟩ := h
  have hcontent : contents forms' m = contents forms n := congrArg FormSlot.content hslot
  exact ⟨room, hroom.congr hcontent (by rw [hslot]) hblock, by rw [hslot]; exact hsize⟩

theorem Touches.content_other (h : Touches idx forms forms') {j : ℕ} (hj : j ≠ idx) :
    contents forms' j = contents forms j := by
  rw [contents, contents, h.other j hj]

theorem Touches.trans (h : Touches idx forms forms') (h' : Touches idx forms' forms'') :
    Touches idx forms forms'' where
  other j hj := (h'.other j hj).trans (h.other j hj)
  apart j hj hne := h'.apart j hj (h.apart j hj hne)
  block j hj hne := by
    have hblock := h'.block j hj (h.apart j hj hne)
    rw [h.content_other hj] at hblock
    exact hblock.trans (h.block j hj hne)
  live hlive := h'.live (h.live hlive)

/-- Other fields of the entry, with the same content. -/
theorem Touches.setSlot (forms : FormStore) {slot : FormSlot}
    (hcontent : slot.content = contents forms idx) :
    Touches idx forms (forms.setSlot idx slot) := by
  have hself : contents (forms.setSlot idx slot) idx = contents forms idx := by
    rw [contents, FormStore.slot_setSlot_self, hcontent]
  refine ⟨fun j hj => forms.slot_setSlot_of_ne hj _, fun j hj hne => ?_, fun _ _ _ => rfl,
    fun h => ?_⟩
  · rw [hself, contents, FormStore.slot_setSlot_of_ne _ hj]
    exact hne
  · rw [hself]
    exact h

/-- Other bytes in the block of the form. -/
theorem Touches.stored (idx : ℕ) (forms : FormStore) (offset : Int) (bytes : List UInt8) :
    Touches idx forms (forms.stored (contents forms idx) offset bytes) where
  other _ _ := rfl
  apart _ _ h := h
  block _ _ hne := FormStore.block_setBlock_of_ne _ hne _
  live h := by
    refine ⟨h.1, ?_⟩
    have hblock := forms.block_setBlock_self (contents forms idx)
      (some (overlay ((forms.block (contents forms idx)).getD []) offset.toNat bytes))
    exact Option.isSome_iff_exists.mpr ⟨_, hblock⟩

theorem fresh_pos (forms : FormStore) : forms.fresh ≠ 0 := by
  have hlt := forms.content_lt 0
  omega

theorem contents_ne_fresh (forms : FormStore) (i : ℕ) : contents forms i ≠ forms.fresh :=
  (forms.content_lt i).ne

theorem grown_allocated (forms : FormStore) (idx : ℕ) (fill : List UInt8) (newcap : ℕ) :
    Allocated (forms.grown idx fill newcap) (contents (forms.grown idx fill newcap) idx) := by
  rw [contents, FormStore.slot_grown_self]
  refine ⟨fresh_pos forms, ?_⟩
  rw [FormStore.block_grown_fresh]
  rfl

theorem Touches.grown (idx : ℕ) (forms : FormStore) (fill : List UInt8) (newcap : ℕ) :
    Touches idx forms (forms.grown idx fill newcap) := by
  refine ⟨fun j hj => forms.slot_grown_of_ne hj fill newcap, fun j hj _ => ?_, fun j hj hne => ?_,
    fun _ => grown_allocated forms idx fill newcap⟩
  · rw [contents, contents, forms.slot_grown_of_ne hj, FormStore.slot_grown_self]
    exact contents_ne_fresh forms j
  · exact forms.block_grown_of_ne idx fill newcap (contents_ne_fresh forms j) hne

/-- What touches a form that owns its content keeps all contents owned. -/
theorem OwnsFirst.touched (h : OwnsFirst forms n) (ht : Touches idx forms forms') (hidx : idx < n) :
    OwnsFirst forms' n := by
  refine Owned.replace h (k := idx) (fun i hi => ht.content_other hi) (fun i hi hne hlive => ?_)
    (ht.live (h.live idx hidx)) fun i hi hne => ?_
  · have hapart : contents forms i ≠ contents forms idx := fun heq =>
      hne (h.eq_of_eq hi hidx heq)
    exact ⟨hlive.1, by rw [ht.block i hne hapart]; exact hlive.2⟩
  · have hapart : contents forms i ≠ contents forms idx := fun heq =>
      hne (h.eq_of_eq hi hidx heq)
    have hne' := ht.apart i hne hapart
    rwa [ht.content_other hne] at hne'

/-- What touches a form behind the last one keeps the contents owned as well, when the
form's content is none of theirs. -/
theorem OwnsFirst.touched_behind (h : OwnsFirst forms n) (ht : Touches idx forms forms')
    (hidx : n ≤ idx) (hne : ∀ i < n, contents forms i ≠ contents forms idx) :
    OwnsFirst forms' n := by
  refine Owned.congr h (fun i hi => ht.content_other (by omega)) fun i hi hlive => ?_
  exact ⟨hlive.1, by rw [ht.block i (by omega) (hne i hi)]; exact hlive.2⟩

/-- A slot stays usable when a slot before it is touched. -/
theorem UsableSlot.touched {needed : Int32} (h : UsableSlot forms n needed)
    (ht : Touches idx forms forms') (hidx : idx < n) : UsableSlot forms' n needed := by
  have hn : n ≠ idx := by omega
  rcases h with ⟨hzero, hcap⟩ | ⟨hlive, hapart⟩
  · refine .inl ⟨?_, ?_⟩
    · rw [ht.content_other hn]
      exact hzero
    · rw [ht.other n hn]
      exact hcap
  · have hne : contents forms n ≠ contents forms idx := (hapart idx hidx).symm
    refine .inr ⟨hlive.congr (ht.other n hn) (ht.block n hn hne), fun i hi => ?_⟩
    · by_cases hi' : i = idx
      · rw [hi']
        exact (ht.apart n hn hne).symm
      · rw [ht.content_other hi', ht.content_other hn]
        exact hapart i hi

theorem UsableSlots.touched {needs : List Int32} {n : ℕ} (h : UsableSlots forms n needs)
    (ht : Touches idx forms forms') (hidx : idx < n) : UsableSlots forms' n needs := by
  induction needs generalizing n with
  | nil => trivial
  | cons needed rest ih =>
    have hrest : UsableSlots forms' (n + 1) rest := ih h.2 (by omega)
    exact ⟨h.1.touched ht hidx, hrest⟩

end Touching

section OneForm

variable {α β : Type} {env : Environment} {idx : ℕ} {kernel kernel' kernel'' : KernelMemory}
  {dev : Device}

/-- Only one form changes, and its content stays allocated. -/
structure TouchesForm (idx : ℕ) (kernel kernel' : KernelMemory) : Prop where
  /-- The number of forms stays. -/
  formCount : kernel'.store.formCount = kernel.store.formCount
  /-- Only the slot and its block change. -/
  forms : Touches idx kernel.forms kernel'.forms

theorem TouchesForm.refl (idx : ℕ) (kernel : KernelMemory) : TouchesForm idx kernel kernel :=
  ⟨rfl, .refl idx _⟩

theorem TouchesForm.trans (h : TouchesForm idx kernel kernel')
    (h' : TouchesForm idx kernel' kernel'') : TouchesForm idx kernel kernel'' :=
  ⟨h'.formCount.trans h.formCount, h.forms.trans h'.forms⟩

/-- Code that touches one form, wherever it returns. -/
def TouchesOne (idx : ℕ) (code : KernelM α) : Prop :=
  ∀ env kernel dev, code.outcome (cachedDevice env) (fun _ => True) kernel dev
    fun _ kernel' _ => TouchesForm idx kernel kernel'

theorem touchesOne_pure (value : α) : TouchesOne idx (pure value : KernelM α) :=
  fun _ kernel _ => .refl idx kernel

theorem touchesOne_halt (stop : Stop) : TouchesOne idx (Code.halt stop : KernelM α) :=
  fun _ _ _ => trivial

theorem TouchesOne.bind {code : KernelM α} {rest : α → KernelM β} (h : TouchesOne idx code)
    (hrest : ∀ value, TouchesOne idx (rest value)) : TouchesOne idx (code >>= rest) := by
  intro env kernel dev
  rw [Code.outcome_bind]
  refine Code.outcome_imp (h env kernel dev) fun value kernel' dev' htouched => ?_
  exact Code.outcome_imp (hrest value env kernel' dev') fun _ _ _ hrest' => htouched.trans hrest'

/-- Code that looks at the state first. -/
theorem TouchesOne.memory_bind {rest : KernelMemory → KernelM β}
    (h : ∀ env kernel dev, (rest kernel).outcome (cachedDevice env) (fun _ => True) kernel dev
      fun _ kernel' _ => TouchesForm idx kernel kernel') :
    TouchesOne idx (Code.memory >>= rest) := by
  intro env kernel dev
  rw [Code.outcome_bind, Code.outcome_memory]
  exact h env kernel dev

theorem TouchesOne.ite {condition : Prop} [Decidable condition] {code other : KernelM α}
    (h : TouchesOne idx code) (hother : TouchesOne idx other) :
    TouchesOne idx (if condition then code else other) := by
  split
  · exact h
  · exact hother

/-- Code that leaves the table and the blocks alone. -/
theorem touchesOne_of_keeps {code : KernelM α}
    (h : code.Keeps fun kernel => (kernel.forms, kernel.store.formCount)) :
    TouchesOne idx code := by
  intro env kernel dev
  refine Code.outcome_imp (h kernel).outcome fun _ kernel' _ hkept => ?_
  have hforms : kernel'.forms = kernel.forms := congrArg Prod.fst hkept
  exact ⟨congrArg Prod.snd hkept, hforms ▸ .refl idx _⟩

theorem modifyForm_outcome {stops : Stop → Prop} {update : FormSlot → FormSlot}
    {post : Unit → KernelMemory → Device → Prop} :
    (modifyForm idx update).outcome (cachedDevice env) stops kernel dev post ↔
      post () (kernel.withForms (kernel.forms.setSlot idx (update (kernel.forms.slot idx)))) dev :=
  Iff.rfl

theorem TouchesForm.setSlot (kernel : KernelMemory) {slot : FormSlot}
    (h : slot.content = contents kernel.forms idx) :
    TouchesForm idx kernel (kernel.withForms (kernel.forms.setSlot idx slot)) :=
  ⟨rfl, .setSlot kernel.forms h⟩

theorem modifyForm_touches {update : FormSlot → FormSlot}
    (h : ∀ form, (update form).content = form.content) : TouchesOne idx (modifyForm idx update) :=
  fun _ kernel _ => ⟨rfl, .setSlot kernel.forms (h _)⟩

/-- A store into the content of the form. -/
theorem storeBytes_touches {offset : Int} {bytes : List UInt8} :
    (storeBytes (contents kernel.forms idx) offset bytes).outcome (cachedDevice env)
      (fun _ => True) kernel dev fun _ kernel' _ => TouchesForm idx kernel kernel' :=
  storeBytes_outcome (.inl trivial) fun _ => ⟨rfl, .stored idx _ offset bytes⟩

/-- A store into the content of the form, and other fields of its entry. -/
theorem storeThen_touches {offset : Int} {bytes : List UInt8} {update : FormSlot → FormSlot}
    (h : ∀ form, (update form).content = form.content) :
    (do
      storeBytes (contents kernel.forms idx) offset bytes
      modifyForm idx update).outcome (cachedDevice env) (fun _ => True) kernel dev
        fun _ kernel' _ => TouchesForm idx kernel kernel' := by
  rw [Code.outcome_bind]
  refine Code.outcome_imp storeBytes_touches fun _ kernel' dev' htouched => ?_
  exact Code.outcome_imp (modifyForm_touches h env kernel' dev') fun _ _ _ h => htouched.trans h

theorem copyText_touches (idx : ℕ) (text : List UInt8) : TouchesOne idx (copyText idx text) :=
  .memory_bind fun _ _ _ => storeBytes_touches

theorem formEnsureCap_touches (idx : ℕ) (needed : Int32) :
    TouchesOne idx (formEnsureCap idx needed) := by
  intro env kernel dev
  refine formEnsureCap_outcome (.inl trivial) (fun _ => .refl idx kernel)
    (fun _ _ => .refl idx kernel) fun fill _ _ _ => ?_
  exact ⟨rfl, .grown idx kernel.forms fill _⟩

theorem writeText_touches (idx : ℕ) (content : CString) : TouchesOne idx (writeText idx content) :=
  (copyText_touches idx _).bind fun _ => modifyForm_touches (by intro _; rfl)

theorem writeForm_touches (idx : ℕ) (content : CString) :
    TouchesOne idx (writeForm idx content) := by
  refine (formEnsureCap_touches idx _).bind fun ok => ?_
  exact ((writeText_touches idx content).bind fun _ => touchesOne_pure _).ite (touchesOne_pure _)

theorem appendText_touches (idx : ℕ) (content : CString) :
    TouchesOne idx (appendText idx content) := by
  refine .memory_bind fun env kernel dev => ?_
  exact storeThen_touches (by intro _; rfl)

theorem appendForm_touches (idx : ℕ) (content : CString) :
    TouchesOne idx (appendForm idx content) := by
  refine .memory_bind fun env kernel dev => ?_
  refine ((formEnsureCap_touches idx _).bind fun ok => ?_) env kernel dev
  exact ((appendText_touches idx content).bind fun _ => touchesOne_pure _).ite (touchesOne_pure _)

theorem storeLine_touches (idx total : ℕ) (line : CString) :
    TouchesOne idx (storeLine idx total line) := by
  refine .memory_bind fun env kernel dev => ?_
  exact storeThen_touches (by intro _; rfl)

theorem editLoop_touches (idx : ℕ) (typed : List CString) (total : ℕ) :
    TouchesOne idx (editLoop idx typed total) := by
  induction typed generalizing total with
  | nil => exact touchesOne_halt _
  | cons line rest ih =>
    refine (touchesOne_pure _).ite ((touchesOne_pure _).ite ?_)
    exact (storeLine_touches idx total _).bind fun _ => (ih _).bind fun _ => touchesOne_pure _

theorem showContent_keeps (idx : ℕ) : (showContent idx).Keeps id := by
  refine Code.keeps_memory.bind fun kernel => ?_
  cases kernel.forms.block (kernel.forms.slot idx).content with
  | none => exact Code.keeps_halt _
  | some block => exact (Code.keeps_pure _).ite (Code.keeps_halt _)

theorem showCurrent_keeps (idx : ℕ) : (showCurrent idx).Keeps id := by
  refine Code.keeps_memory.bind fun kernel => Code.Keeps.ite ?_ (Code.keeps_pure _)
  exact (showContent_keeps idx).bind fun _ => Code.keeps_pure _

theorem editForm_touches (idx : ℕ) (name : CString) (typed : List CString) :
    TouchesOne idx (editForm idx name typed) := by
  have hshown : TouchesOne idx (showCurrent idx) := touchesOne_of_keeps
    ((showCurrent_keeps idx).comp fun kernel => (kernel.forms, kernel.store.formCount))
  refine hshown.bind fun current => (copyText_touches idx []).bind fun _ => ?_
  refine (modifyForm_touches (by intro _; rfl)).bind fun _ => ?_
  exact (editLoop_touches idx typed 0).bind fun _ => touchesOne_pure _

end OneForm

section Names

/-- The names in the table. -/
def formNames (kernel : KernelMemory) : List CString :=
  (List.range kernel.store.formCount).map fun i => (kernel.forms.slot i).name

/-- The names in all slots, and how many of them count. -/
def slotNames (kernel : KernelMemory) : (ℕ → CString) × ℕ :=
  (fun i => (kernel.forms.slot i).name, kernel.store.formCount)

theorem findForm_isSome_iff (kernel : KernelMemory) (name : CString) :
    (findForm kernel name).isSome ↔ name ∈ formNames kernel := by
  rw [findForm, List.find?_isSome, formNames, List.mem_map]
  simp only [beq_iff_eq]

theorem length_formNames (kernel : KernelMemory) :
    (formNames kernel).length = kernel.store.formCount := by
  rw [formNames, List.length_map, List.length_range]

theorem formNames_of_slotNames {kernel kernel' : KernelMemory}
    (h : slotNames kernel' = slotNames kernel) : formNames kernel' = formNames kernel := by
  have hcount : kernel'.store.formCount = kernel.store.formCount := congrArg Prod.snd h
  have hname : (fun i => (kernel'.forms.slot i).name) = fun i => (kernel.forms.slot i).name :=
    congrArg Prod.fst h
  rw [formNames, formNames, hcount, hname]

variable {idx : ℕ}

theorem modifyForm_keepsNames {update : FormSlot → FormSlot}
    (h : ∀ form, (update form).name = form.name) : (modifyForm idx update).Keeps slotNames := by
  refine Code.keeps_modify fun kernel => Prod.ext (funext fun i => ?_) rfl
  show ((kernel.forms.setSlot idx (update (kernel.forms.slot idx))).slot i).name = _
  by_cases hi : i = idx
  · rw [hi, FormStore.slot_setSlot_self, h]
    rfl
  · rw [FormStore.slot_setSlot_of_ne _ hi]
    rfl

theorem formEnsureCap_keepsNames (idx : ℕ) (needed : Int32) :
    (formEnsureCap idx needed).Keeps slotNames := by
  intro kernel
  refine (formEnsureCap_ensures kernel idx needed).mono fun _ kernel' htouched => ?_
  obtain ⟨hstore, -, hforms⟩ := htouched
  refine Prod.ext (funext fun i => ?_) (congrArg Memory.formCount hstore)
  show (kernel'.forms.slot i).name = (kernel.forms.slot i).name
  by_cases hi : i = idx
  · rw [hi, hforms.name]
  · rw [hforms.other i hi]

theorem copyText_keepsNames (idx : ℕ) (text : List UInt8) :
    (copyText idx text).Keeps slotNames := by
  intro kernel
  rw [copyText, Code.ensures_bind, Code.ensures_memory]
  exact storeBytes_ensures fun _ _ _ _ => rfl

theorem rewriteForm_keepsNames (idx : ℕ) (content : CString) :
    (rewriteForm idx content).Keeps slotNames := by
  refine (formEnsureCap_keepsNames idx _).bind fun _ => (copyText_keepsNames idx _).bind fun _ => ?_
  exact modifyForm_keepsNames fun _ => rfl

/-- The names in all slots with another one behind the last form. -/
def namesWith (kernel : KernelMemory) (name : CString) : (ℕ → CString) × ℕ :=
  (Function.update (slotNames kernel).1 kernel.store.formCount name, kernel.store.formCount)

/-- The slot behind the last form gets a name. -/
theorem nameNext_ensures {kernel kernel' : KernelMemory} (h : slotNames kernel' = slotNames kernel)
    (name : CString) :
    (modifyForm kernel.store.formCount fun form => { form with name := name }).Ensures kernel'
      fun _ kernel'' => slotNames kernel'' = namesWith kernel name := by
  have hcount : kernel'.store.formCount = kernel.store.formCount := congrArg Prod.snd h
  have hname : ∀ i, (kernel'.forms.slot i).name = (kernel.forms.slot i).name :=
    congrFun (congrArg Prod.fst h)
  refine (Code.ensures_modify _ _).mpr (Prod.ext (funext fun i => ?_) hcount)
  show ((kernel'.forms.setSlot kernel.store.formCount _).slot i).name =
    Function.update (slotNames kernel).1 kernel.store.formCount name i
  by_cases hi : i = kernel.store.formCount
  · rw [hi, FormStore.slot_setSlot_self, Function.update_self]
  · rw [FormStore.slot_setSlot_of_ne _ hi, Function.update_of_ne hi, hname]
    rfl

/-- A name behind the last form does not count. -/
theorem formNames_of_namesWith {kernel kernel' : KernelMemory} {name : CString}
    (h : slotNames kernel' = namesWith kernel name) : formNames kernel' = formNames kernel := by
  have hcount : kernel'.store.formCount = kernel.store.formCount := congrArg Prod.snd h
  have hname : ∀ i, (kernel'.forms.slot i).name =
      Function.update (slotNames kernel).1 kernel.store.formCount name i :=
    congrFun (congrArg Prod.fst h)
  rw [formNames, formNames, hcount]
  refine List.map_congr_left fun i hi => ?_
  have hne : i ≠ kernel.store.formCount := (List.mem_range.mp hi).ne
  rw [hname, Function.update_of_ne hne]
  rfl

/-- The named slot is counted. -/
theorem countNext_ensures {kernel kernel' : KernelMemory} {name : CString}
    (h : slotNames kernel' = namesWith kernel name) :
    (setFormCount (· + 1)).Ensures kernel' fun _ kernel'' =>
      formNames kernel'' = formNames kernel ++ [name] := by
  have hcount : kernel'.store.formCount = kernel.store.formCount := congrArg Prod.snd h
  have hlast : (kernel'.forms.slot kernel.store.formCount).name = name :=
    (congrFun (congrArg Prod.fst h) kernel.store.formCount).trans (Function.update_self ..)
  refine (Code.ensures_modify _ _).mpr ?_
  show (List.range (kernel'.store.formCount + 1)).map (fun i => (kernel'.forms.slot i).name) = _
  rw [List.range_succ, List.map_append, List.map_singleton, hcount, hlast]
  refine congrArg (· ++ [name]) ?_
  have hfirst : formNames kernel' = formNames kernel := formNames_of_namesWith h
  rwa [formNames, hcount] at hfirst

/-- A form is created with its name, behind the others. -/
theorem createForm_names (kernel : KernelMemory) (name content : CString) :
    (createForm name content).Ensures kernel fun _ kernel' =>
      formNames kernel' = formNames kernel ++ [name] := by
  rw [createForm, Code.ensures_bind, Code.ensures_memory]
  dsimp only
  rw [Code.ensures_bind]
  refine (nameNext_ensures rfl name).mono fun _ _ hnamed => ?_
  refine (formEnsureCap_keepsNames _ _).ensures_bind fun _ _ hkept => ?_
  refine (copyText_keepsNames _ _).ensures_bind fun _ _ hkept' => ?_
  refine (modifyForm_keepsNames (by intro _; rfl)).ensures_bind fun _ _ hkept'' => ?_
  exact countNext_ensures (hkept''.trans (hkept'.trans (hkept.trans hnamed)))

end Names

end HexaOS.Shell
