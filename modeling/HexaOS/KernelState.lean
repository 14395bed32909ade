import HexaOS.HexafsCaps

/-!
# The statics of the kernel

The form table with the buffers that its entries point to, the intent table and the
file descriptors, beside the statics of the form store. A buffer is a block of bytes
under an address, so two entries may hold the same one; an access outside a block or
to a block that was freed is a fault. Kernel code runs on the same device as the code
of the form store.
-/

namespace HexaOS.Kernel

open DevicePrograms PackedBytes Hexafs

/-- MAX_FORMS -/
def maxForms : ℕ := 64

/-- NAME_MAX -/
def nameMax : ℕ := 32

/-- struct hexa_formentry, with the address of its content, 0 for a null pointer. -/
structure FormSlot where
  /-- The name. -/
  name : CString
  /-- The address of the content. -/
  content : ℕ
  /-- The bytes of the form. -/
  size : ℕ
  /-- The bytes that the content is to hold. -/
  cap : ℕ
  /-- The owner. -/
  owner : UInt32
  /-- The mode. -/
  mode : UInt16

/-- form_table and the heap blocks by their address. -/
structure FormStore where
  /-- The slots, also those behind the last form. -/
  slot : ℕ → FormSlot
  /-- The allocated blocks. -/
  block : ℕ → Option (List UInt8)
  /-- The address of the next block that kmalloc returns. -/
  fresh : ℕ
  /-- No slot holds the address of a block that kmalloc has not returned. -/
  content_lt : ∀ i, (slot i).content < fresh

namespace FormStore

/-- A new block with these bytes. -/
def alloc (forms : FormStore) (bytes : List UInt8) : FormStore where
  slot := forms.slot
  block := Function.update forms.block forms.fresh (some bytes)
  fresh := forms.fresh + 1
  content_lt i := Nat.lt_succ_of_lt (forms.content_lt i)

/-- Other bytes, or none, under an address. -/
def setBlock (forms : FormStore) (address : ℕ) (bytes : Option (List UInt8)) : FormStore :=
  { forms with block := Function.update forms.block address bytes }

/-- Another entry in a slot. -/
def setSlot (forms : FormStore) (i : ℕ) (slot : FormSlot) : FormStore where
  slot := Function.update forms.slot i slot
  block := forms.block
  fresh := max forms.fresh (slot.content + 1)
  content_lt j := by
    by_cases hj : j = i
    · rw [hj, Function.update_self]
      omega
    · have hlt := forms.content_lt j
      rw [Function.update_of_ne hj]
      omega

/-- The content of a form. -/
def bytes (forms : FormStore) (i : ℕ) : List UInt8 :=
  ((forms.block (forms.slot i).content).getD []).take (forms.slot i).size

@[simp] theorem slot_alloc (forms : FormStore) (bytes : List UInt8) :
    (forms.alloc bytes).slot = forms.slot := rfl

@[simp] theorem slot_setBlock (forms : FormStore) (address : ℕ) (bytes : Option (List UInt8)) :
    (forms.setBlock address bytes).slot = forms.slot := rfl

@[simp] theorem block_setSlot (forms : FormStore) (i : ℕ) (slot : FormSlot) :
    (forms.setSlot i slot).block = forms.block := rfl

theorem block_setBlock_self (forms : FormStore) (address : ℕ) (bytes : Option (List UInt8)) :
    (forms.setBlock address bytes).block address = bytes :=
  Function.update_self ..

theorem block_setBlock_of_ne (forms : FormStore) {address other : ℕ} (h : other ≠ address)
    (bytes : Option (List UInt8)) : (forms.setBlock address bytes).block other = forms.block other :=
  Function.update_of_ne h _ _

theorem slot_setSlot_of_ne (forms : FormStore) {i j : ℕ} (h : j ≠ i) (slot : FormSlot) :
    (forms.setSlot i slot).slot j = forms.slot j :=
  Function.update_of_ne h _ _

theorem slot_setSlot_self (forms : FormStore) (i : ℕ) (slot : FormSlot) :
    (forms.setSlot i slot).slot i = slot :=
  Function.update_self ..

/-- A new block is no form's. -/
theorem bytes_alloc (forms : FormStore) (bytes : List UInt8) (i : ℕ) :
    (forms.alloc bytes).bytes i = forms.bytes i := by
  have hother : (forms.slot i).content ≠ forms.fresh := (forms.content_lt i).ne
  have hblock : (forms.alloc bytes).block (forms.slot i).content =
      forms.block (forms.slot i).content :=
    Function.update_of_ne hother _ _
  rw [FormStore.bytes, FormStore.bytes, slot_alloc, hblock]

/-- Another slot keeps its content. -/
theorem bytes_setSlot_of_ne (forms : FormStore) {i j : ℕ} (h : j ≠ i) (slot : FormSlot) :
    (forms.setSlot i slot).bytes j = forms.bytes j := by
  rw [bytes, bytes, slot_setSlot_of_ne forms h, block_setSlot]

/-- A form with another block keeps its content. -/
theorem bytes_setBlock_of_ne (forms : FormStore) {address i : ℕ}
    (h : (forms.slot i).content ≠ address) (bytes : Option (List UInt8)) :
    (forms.setBlock address bytes).bytes i = forms.bytes i := by
  rw [FormStore.bytes, FormStore.bytes, slot_setBlock, block_setBlock_of_ne forms h]

end FormStore

/-- hexaos_intent_t -/
structure HexaosIntent where
  /-- What is done with the target. -/
  intentType : UInt32
  /-- The form that it is about, by its index. -/
  targetHash : UInt32
  /-- The hash of the schema. -/
  schemaHash : UInt32
  /-- The offset of a filter, which nothing reads. -/
  filterOffset : UInt32
  /-- The flags. -/
  flags : UInt32

/-- intent_entry_t -/
structure IntentEntry where
  /-- Is the entry in use? -/
  active : Bool
  /-- The task that made it. -/
  pid : UInt32
  /-- The intent. -/
  intent : HexaosIntent
  /-- Its handle. -/
  handle : UInt32
  /-- A buffer block, which stays 0. -/
  bufferBlock : UInt32
  /-- The bytes that were produced last. -/
  bufferLen : Int32

/-- An entry of zeros. -/
def IntentEntry.zero : IntentEntry := ⟨false, 0, ⟨0, 0, 0, 0, 0⟩, 0, 0, 0⟩

/-- The type field of a descriptor. vfs.c stores the first two of its four values only. -/
inductive FdType where
  | free
  | form
  deriving DecidableEq

/-- An entry of vfs_fds. -/
structure VfsFd where
  /-- The task that opened it. -/
  pid : ℕ
  /-- Is it free or on a form? -/
  type : FdType
  /-- The form. -/
  ref : ℕ
  /-- The position. -/
  pos : Int32
  /-- The flags of the open. -/
  flags : UInt32

/-- A free descriptor. -/
def VfsFd.zero : VfsFd := ⟨0, .free, 0, 0, 0⟩

/-- The statics of the kernel. -/
structure KernelMemory where
  /-- The statics of the form store, with form_count, the users and the rules. Its own
  form table is what the store code is given of `forms`. -/
  store : Memory
  /-- form_table -/
  forms : FormStore
  /-- cap_grant_storage -/
  capGrants : CapGrants
  /-- system_ticks -/
  systemTicks : UInt32
  /-- intent_table -/
  intentTable : ℕ → IntentEntry
  /-- next_handle -/
  nextHandle : UInt32
  /-- vfs_fds -/
  vfsFds : ℕ → VfsFd

/-- Code of the kernel. -/
abbrev KernelM (α : Type) : Type := Code KernelMemory BlockOp BlockReply α

/-- Run code of the form store. -/
def onStore {α : Type} (code : HexafsM α) : KernelM α := fun kernel =>
  (code kernel.store).bind fun result => .done (result.1, { kernel with store := result.2 })

/-- Update the form table and its blocks. -/
def modifyForms (update : FormStore → FormStore) : KernelM Unit :=
  Code.modify fun kernel => { kernel with forms := update kernel.forms }

/-- kmalloc: the address of a new block, as long as was asked for. The heap below rounds sizes up
and hands freed memory out again, which no access tells that stays in the block it is meant for. -/
def allocBlock (size : ℕ) : KernelM (Option ℕ) := do
  let reply ← Code.request (BlockOp.kmalloc size)
  match reply with
  | none => pure none
  | some fill =>
    let kernel ← Code.memory
    modifyForms fun forms => forms.alloc fill
    pure (some kernel.forms.fresh)

/-- kfree. A null pointer is left alone, a block that is not allocated is a fault. -/
def freeBlock (address : ℕ) : KernelM Unit := do
  if address = 0 then pure ()
  else
    let kernel ← Code.memory
    match kernel.forms.block address with
    | none => Code.halt .fault
    | some _ => modifyForms fun forms => forms.setBlock address none

/-- The bytes of a block with others stored over it from an offset on. -/
def overlay (block : List UInt8) (offset : ℕ) (bytes : List UInt8) : List UInt8 :=
  block.take offset ++ bytes ++ block.drop (offset + bytes.length)

/-- Bytes that are stored over a block leave its length. -/
theorem length_overlay {block bytes : List UInt8} {offset : ℕ}
    (h : offset + bytes.length ≤ block.length) :
    (overlay block offset bytes).length = block.length := by
  simp only [overlay, List.length_append, List.length_take, List.length_drop]
  omega

/-- Store bytes into a block. A store that leaves the block goes on into other memory of the heap;
here it is a fault, which ends the run. -/
def storeBytes (address : ℕ) (offset : Int) (bytes : List UInt8) : KernelM Unit := do
  let kernel ← Code.memory
  match kernel.forms.block address with
  | none => Code.halt .fault
  | some block =>
    if 0 ≤ offset ∧ offset + bytes.length ≤ block.length then
      modifyForms fun forms => forms.setBlock address (some (overlay block offset.toNat bytes))
    else Code.halt .fault

/-- Read bytes of a block, or fault where they do not all lie in it. -/
def loadBytes (address offset count : ℕ) : KernelM (List UInt8) := do
  let kernel ← Code.memory
  match kernel.forms.block address with
  | none => Code.halt .fault
  | some block =>
    if offset + count ≤ block.length then pure ((block.drop offset).take count)
    else Code.halt .fault

/-- find_form -/
def findForm (kernel : KernelMemory) (name : CString) : Option ℕ :=
  (List.range kernel.store.formCount).find? fun i => (kernel.forms.slot i).name == name

theorem findForm_lt {kernel : KernelMemory} {name : CString} {idx : ℕ}
    (h : findForm kernel name = some idx) : idx < kernel.store.formCount :=
  List.mem_range.mp (List.mem_of_find?_eq_some h)

/-- PERM_OWNER_R -/
def permOwnerR : UInt16 := 0x100

/-- PERM_OWNER_W -/
def permOwnerW : UInt16 := 0x080

/-- PERM_OTH_R -/
def permOthR : UInt16 := 0x004

/-- PERM_OTH_W -/
def permOthW : UInt16 := 0x002

/-- PERM_DEFAULT -/
def permDefault : UInt16 := 0x1A4

/-- check_perm: is the access denied? -/
def checkPerm (kernel : KernelMemory) (idx : ℕ) (wantWrite : Bool) : Bool :=
  let form := kernel.forms.slot idx
  if kernel.store.formCount ≤ idx then true
  else if kernel.store.uCur = 0 then false
  else if form.owner = UInt32.ofNat kernel.store.uCur then
    if wantWrite then form.mode &&& permOwnerW == 0 else form.mode &&& permOwnerR == 0
  else if wantWrite then form.mode &&& permOthW == 0
  else form.mode &&& permOthR == 0

/-- Move the content of a form into a new block and free the old one. -/
def moveContent (form : FormSlot) (new : ℕ) : KernelM Unit := do
  if form.content = 0 then pure ()
  else
    let old ← loadBytes form.content 0 form.size
    storeBytes new 0 old
    freeBlock form.content

/-- form_ensure_cap -/
def formEnsureCap (idx : ℕ) (needed : Int32) : KernelM Bool := do
  let kernel ← Code.memory
  let form := kernel.forms.slot idx
  if needed.toInt ≤ form.cap then pure true
  else
    let newcap := (needed + 1024).toUInt32.toNat
    match ← allocBlock newcap with
    | none => pure false
    | some new =>
      moveContent form new
      modifyForms fun forms => forms.setSlot idx { form with content := new, cap := newcap }
      pure true

/-- The line that cmd_mkform prints. -/
inductive MkformLine where
  /-- "Usage: mkform <formname>" -/
  | usage
  /-- "Form store full." -/
  | storeFull
  /-- "Form exists." -/
  | formExists
  /-- "Out of memory." -/
  | outOfMemory
  /-- "Created." -/
  | created
  deriving DecidableEq

/-- cmd_mkform. A name of 32 characters or more does not fit the entry. -/
def cmdMkform (name : CString) : KernelM MkformLine := do
  let kernel ← Code.memory
  if name.chars = [] then pure .usage
  else if maxForms ≤ kernel.store.formCount then pure .storeFull
  else if (findForm kernel name).isSome then pure .formExists
  else if nameMax ≤ name.chars.length then Code.halt .fault
  else
    let count := kernel.store.formCount
    modifyForms fun forms => forms.setSlot count { forms.slot count with name := name }
    match ← allocBlock 1 with
    | none =>
      modifyForms fun forms => forms.setSlot count { forms.slot count with content := 0 }
      pure .outOfMemory
    | some address =>
      storeBytes address 0 [0]
      modifyForms fun forms => forms.setSlot count { forms.slot count with
        content := address
        size := 0
        cap := 1
        owner := UInt32.ofNat kernel.store.uCur
        mode := permDefault }
      Code.modify fun kernel =>
        { kernel with store := { kernel.store with formCount := kernel.store.formCount + 1 } }
      pure .created

/-- The kernel on its machine. -/
structure System where
  /-- The memory of the kernel. -/
  kernel : KernelMemory
  /-- The device. -/
  dev : Device

/-- Run code on a system. -/
def System.run {α : Type} (env : Environment) (code : KernelM α) (system : System) :
    Except Stop (α × System) :=
  match code.exec (cachedDevice env) system.kernel system.dev with
  | .error stop => .error stop
  | .ok ((value, kernel), dev) => .ok (value, ⟨kernel, dev⟩)

section Runs

variable {α β : Type} {env : Environment} {system system' : System}

/-- A sequence runs its second part from where the first one stopped. -/
theorem System.run_bind (code : KernelM α) (rest : α → KernelM β) :
    system.run env (code >>= rest) =
      (system.run env code).bind fun result => result.2.run env (rest result.1) := by
  rw [System.run, Code.exec_bind, System.run]
  cases code.exec (cachedDevice env) system.kernel system.dev with
  | error stop => rfl
  | ok result => rfl

theorem System.run_memory (rest : KernelMemory → KernelM β) :
    system.run env (Code.memory >>= rest) = system.run env (rest system.kernel) := rfl

/-- A sequence that returns returned from its first part. -/
theorem System.run_bind_elim {code : KernelM α} {rest : α → KernelM β} {value : β}
    (h : system.run env (code >>= rest) = .ok (value, system')) :
    ∃ first middle, system.run env code = .ok (first, middle) ∧
      middle.run env (rest first) = .ok (value, system') := by
  rw [System.run_bind] at h
  cases hcode : system.run env code with
  | error stop => rw [hcode] at h; cases h
  | ok result =>
    rw [hcode] at h
    exact ⟨result.1, result.2, rfl, h⟩

/-- What code ensures holds behind its runs. -/
theorem System.run_ensures {code : KernelM α} {post : α → KernelMemory → Prop}
    (h : code.Ensures system.kernel post) {value : α}
    (hrun : system.run env code = .ok (value, system')) : post value system'.kernel := by
  rw [System.run] at hrun
  cases hexec : code.exec (cachedDevice env) system.kernel system.dev with
  | error stop => rw [hexec] at hrun; cases hrun
  | ok result =>
    rw [hexec] at hrun
    simp only [Except.ok.injEq, Prod.mk.injEq] at hrun
    have hpost : post result.1.1 result.1.2 := h.of_exec hexec
    obtain ⟨rfl, rfl⟩ := hrun
    exact hpost

end Runs

end HexaOS.Kernel
