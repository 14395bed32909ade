import HexaOS.KernelFrames

/-!
# File descriptors

The descriptors of vfs.c on forms: vfs_open, vfs_close, vfs_read, vfs_write, vfs_lseek and
vfs_dup. Opening looks at the permissions, the others look at the descriptor only.
-/

namespace HexaOS.Kernel

open DevicePrograms PackedBytes Hexafs

/-- FORM_WRITE -/
def formWrite : UInt32 := 1

/-- FORM_CREAT -/
def formCreat : UInt32 := 4

/-- FORM_APPEND -/
def formAppend : UInt32 := 16

/-- VFS_MAX_FDS -/
def vfsMaxFds : ℕ := 128

/-- Update a descriptor. -/
def modifyFd (fd : ℕ) (update : VfsFd → VfsFd) : KernelM Unit :=
  Code.modify fun kernel => { kernel with
    vfsFds := Function.update kernel.vfsFds fd (update (kernel.vfsFds fd)) }

/-- The first free descriptor from 3 on. -/
def freeFd (fds : ℕ → VfsFd) : Option ℕ :=
  (List.range' 3 (vfsMaxFds - 3)).find? fun i => (fds i).type == .free

/-- The descriptor that vfs_open fills for a form. -/
def openedFd (task idx : ℕ) (flags : UInt32) : VfsFd :=
  ⟨task, .form, idx, if flags &&& formAppend ≠ 0 then 0x7FFFFFFF else 0, flags⟩

/-- The part of vfs_open behind the lookup of the form. -/
def vfsOpenForm (task idx : ℕ) (flags : UInt32) : KernelM (Option ℕ) := do
  let kernel ← Code.memory
  if checkPerm kernel idx (flags &&& formWrite != 0) then pure none
  else
    match freeFd kernel.vfsFds with
    | none => pure none
    | some fd =>
      modifyFd fd fun _ => openedFd task idx flags
      pure (some fd)

/-- vfs_open: the descriptor, `none` for -1. `task` is current_task. -/
def vfsOpen (task : ℕ) (path : CString) (flags : UInt32) : KernelM (Option ℕ) := do
  let kernel ← Code.memory
  match findForm kernel path with
  | some idx => vfsOpenForm task idx flags
  | none =>
    if flags &&& formCreat = 0 then pure none
    else
      let _ ← cmdMkform path
      let kernel ← Code.memory
      match findForm kernel path with
      | none => pure none
      | some idx => vfsOpenForm task idx flags

/-- The form behind a descriptor: the checks that vfs_read and vfs_write share. -/
def fdForm (kernel : KernelMemory) (fd : Int32) : Option ℕ :=
  if 0 ≤ fd ∧ fd.toNatClampNeg < vfsMaxFds ∧
      (kernel.vfsFds fd.toNatClampNeg).type = .form ∧
        (kernel.vfsFds fd.toNatClampNeg).ref < kernel.store.formCount then
    some (kernel.vfsFds fd.toNatClampNeg).ref
  else none

/-- How many bytes the loop of vfs_read copies. -/
def readCount (size : ℕ) (pos count : Int32) : ℕ := (min count.toInt (size - pos.toInt)).toNat

/-- vfs_read -/
def vfsRead (fd : Int32) (count : Int32) : KernelM Fulfilled := do
  let kernel ← Code.memory
  match fdForm kernel fd with
  | none => pure ⟨-1, []⟩
  | some idx =>
    let pos := (kernel.vfsFds fd.toNatClampNeg).pos
    let form := kernel.forms.slot idx
    let n := readCount form.size pos count
    if n = 0 then pure ⟨0, []⟩
    else if pos < 0 then Code.halt .fault
    else
      let bytes ← loadBytes form.content pos.toNatClampNeg n
      modifyFd fd.toNatClampNeg fun entry => { entry with pos := entry.pos + Int32.ofNat n }
      pure ⟨Int32.ofNat n, bytes⟩

/-- How many bytes the loop of vfs_write stores. -/
def writeCount (pos count : Int32) : ℕ := (min count.toInt (65528 - pos.toInt)).toNat

/-- The part of vfs_write behind form_ensure_cap. -/
def vfsStore (fd : Int32) (idx : ℕ) (buffer : ℕ → UInt8) (count : Int32) : KernelM Fulfilled := do
  let kernel ← Code.memory
  let pos := (kernel.vfsFds fd.toNatClampNeg).pos
  let n := writeCount pos count
  storeBytes (kernel.forms.slot idx).content pos.toInt (bufferBytes buffer n ++ [0])
  modifyForms fun forms => forms.setSlot idx { forms.slot idx with
    size := max (forms.slot idx).size (pos.toInt + n).toNat }
  modifyFd fd.toNatClampNeg fun entry => { entry with pos := entry.pos + Int32.ofNat n }
  pure ⟨Int32.ofNat n, []⟩

/-- vfs_write -/
def vfsWrite (fd : Int32) (buffer : ℕ → UInt8) (count : Int32) : KernelM Fulfilled := do
  let kernel ← Code.memory
  match fdForm kernel fd with
  | none => pure ⟨-1, []⟩
  | some idx =>
    let ok ← formEnsureCap idx ((kernel.vfsFds fd.toNatClampNeg).pos + count + 1)
    if ok then vfsStore fd idx buffer count else pure ⟨-1, []⟩

/-- A descriptor that is not free. -/
def usedFd (kernel : KernelMemory) (fd : Int32) : Option ℕ :=
  if 0 ≤ fd ∧ fd.toNatClampNeg < vfsMaxFds ∧ (kernel.vfsFds fd.toNatClampNeg).type ≠ .free then
    some fd.toNatClampNeg
  else none

/-- vfs_close -/
def vfsClose (fd : Int32) : KernelM Int32 := do
  let kernel ← Code.memory
  match usedFd kernel fd with
  | none => pure (-1)
  | some i =>
    modifyFd i fun entry => { entry with type := .free }
    pure 0

/-- SEEK_SET -/
def seekSet : Int32 := 0

/-- SEEK_CUR -/
def seekCur : Int32 := 1

/-- SEEK_END -/
def seekEnd : Int32 := 2

/-- The position that the switch of vfs_lseek stores. SEEK_END has the branch of an unknown
`whence`, which stores 0. -/
def soughtPos (pos offset whence : Int32) : Int32 :=
  if whence = seekSet then offset else if whence = seekCur then pos + offset else 0

/-- vfs_lseek -/
def vfsLseek (fd offset whence : Int32) : KernelM Int32 := do
  let kernel ← Code.memory
  match usedFd kernel fd with
  | none => pure (-1)
  | some i =>
    let pos := soughtPos (kernel.vfsFds i).pos offset whence
    let pos := if pos < 0 then 0 else pos
    modifyFd i fun entry => { entry with pos := pos }
    pure pos

/-- vfs_dup: the new descriptor, `none` for -1. It is a copy with a position of its own. -/
def vfsDup (oldFd : Int32) : KernelM (Option ℕ) := do
  let kernel ← Code.memory
  match usedFd kernel oldFd with
  | none => pure none
  | some i =>
    match freeFd kernel.vfsFds with
    | none => pure none
    | some fd =>
      modifyFd fd fun _ => kernel.vfsFds i
      pure (some fd)

/-- What a descriptor keeps while it is open. -/
def VfsFd.opened (entry : VfsFd) : FdType × ℕ × UInt32 := (entry.type, entry.ref, entry.flags)

section Frames

/-- Only the form `idx` may be another one, in its block or a new one, and it keeps its
name, owner and mode. -/
structure TouchesOnly (idx : ℕ) (forms forms' : FormStore) : Prop where
  /-- The other slots stay. -/
  other : ∀ j ≠ idx, forms'.slot j = forms.slot j
  /-- The name stays. -/
  name : (forms'.slot idx).name = (forms.slot idx).name
  /-- The owner stays. -/
  owner : (forms'.slot idx).owner = (forms.slot idx).owner
  /-- The mode stays. -/
  mode : (forms'.slot idx).mode = (forms.slot idx).mode
  /-- A buffer of another slot stays apart. -/
  apart : ∀ j ≠ idx, (forms.slot j).content ≠ (forms.slot idx).content →
    (forms'.slot j).content ≠ (forms'.slot idx).content
  /-- A block of another slot stays. -/
  block : ∀ j ≠ idx, (forms.slot j).content ≠ (forms.slot idx).content →
    forms'.block (forms.slot j).content = forms.block (forms.slot j).content

variable {idx : ℕ} {forms forms' forms'' : FormStore}

theorem TouchesOnly.refl (idx : ℕ) (forms : FormStore) : TouchesOnly idx forms forms :=
  ⟨fun _ _ => rfl, rfl, rfl, rfl, fun _ _ h => h, fun _ _ _ => rfl⟩

theorem TouchesOnly.trans (h : TouchesOnly idx forms forms') (h' : TouchesOnly idx forms' forms'') :
    TouchesOnly idx forms forms'' where
  other j hj := (h'.other j hj).trans (h.other j hj)
  name := h'.name.trans h.name
  owner := h'.owner.trans h.owner
  mode := h'.mode.trans h.mode
  apart j hj hne := h'.apart j hj (h.apart j hj hne)
  block j hj hne := by
    have hblock := h'.block j hj (h.apart j hj hne)
    rw [h.other j hj] at hblock
    exact hblock.trans (h.block j hj hne)

/-- Another form with another block shows the same bytes. -/
theorem TouchesOnly.bytes (h : TouchesOnly idx forms forms') {j : ℕ} (hj : j ≠ idx)
    (hne : (forms.slot j).content ≠ (forms.slot idx).content) : forms'.bytes j = forms.bytes j := by
  rw [FormStore.bytes, FormStore.bytes, h.other j hj, h.block j hj hne]

/-- Other bytes in the block of the form. -/
theorem TouchesOnly.setBlock (idx : ℕ) (forms : FormStore) (bytes : Option (List UInt8)) :
    TouchesOnly idx forms (forms.setBlock (forms.slot idx).content bytes) :=
  ⟨fun _ _ => rfl, rfl, rfl, rfl, fun _ _ h => h, fun _ _ hne => Function.update_of_ne hne _ _⟩

/-- Another size of the form. -/
theorem TouchesOnly.setSize (idx : ℕ) (forms : FormStore) (size : ℕ) :
    TouchesOnly idx forms (forms.setSlot idx { forms.slot idx with size := size }) := by
  refine ⟨fun j hj => forms.slot_setSlot_of_ne hj _, ?_, ?_, ?_, fun j hj hne => ?_, fun _ _ _ => rfl⟩
  · rw [FormStore.slot_setSlot_self]
  · rw [FormStore.slot_setSlot_self]
  · rw [FormStore.slot_setSlot_self]
  · rw [FormStore.slot_setSlot_of_ne _ hj, FormStore.slot_setSlot_self]
    exact hne

/-- A production stores in its form only. -/
theorem TouchesOnly.produced (idx : ℕ) (forms : FormStore) (bytes : List UInt8) :
    TouchesOnly idx forms (forms.produced idx bytes) :=
  (TouchesOnly.setBlock idx forms _).trans (TouchesOnly.setSize idx _ _)

/-- Another block for the form, which no slot holds. -/
theorem TouchesOnly.setContent {moved : FormStore} {new : ℕ} (cap : ℕ)
    (hslot : moved.slot = forms.slot)
    (hblock : ∀ j ≠ idx, (forms.slot j).content ≠ (forms.slot idx).content →
      moved.block (forms.slot j).content = forms.block (forms.slot j).content)
    (hnew : ∀ j, (forms.slot j).content ≠ new) :
    TouchesOnly idx forms
      (moved.setSlot idx { forms.slot idx with content := new, cap := cap }) := by
  refine ⟨fun j hj => ?_, ?_, ?_, ?_, fun j hj _ => ?_, hblock⟩
  · rw [FormStore.slot_setSlot_of_ne _ hj, hslot]
  · rw [FormStore.slot_setSlot_self]
  · rw [FormStore.slot_setSlot_self]
  · rw [FormStore.slot_setSlot_self]
  · rw [FormStore.slot_setSlot_of_ne _ hj, FormStore.slot_setSlot_self, hslot]
    exact hnew j

theorem loadBytes_keeps (address offset count : ℕ) : (loadBytes address offset count).Keeps id := by
  refine Code.keeps_memory.bind fun kernel => ?_
  cases kernel.forms.block address with
  | none => exact Code.keeps_halt _
  | some block => exact (Code.keeps_pure _).ite (Code.keeps_halt _)

/-- form_ensure_cap moves the content of its form, if it has to. -/
theorem formEnsureCap_ensures (kernel : KernelMemory) (idx : ℕ) (needed : Int32) :
    (formEnsureCap idx needed).Ensures kernel fun _ kernel' =>
      kernel'.store = kernel.store ∧ kernel'.vfsFds = kernel.vfsFds ∧
        TouchesOnly idx kernel.forms kernel'.forms := by
  have hnew : ∀ j, (kernel.forms.slot j).content ≠ kernel.forms.fresh :=
    fun j => (kernel.forms.content_lt j).ne
  have halloc : ∀ fill j, (kernel.forms.alloc fill).block (kernel.forms.slot j).content =
      kernel.forms.block (kernel.forms.slot j).content :=
    fun fill j => Function.update_of_ne (hnew j) _ _
  simp only [formEnsureCap, Code.ensures_bind, Code.ensures_memory]
  split
  · exact ⟨rfl, rfl, .refl idx _⟩
  rw [Code.ensures_bind]
  refine allocBlock_ensures ?_ fun fill => ?_
  · exact ⟨rfl, rfl, .refl idx _⟩
  simp only [moveContent, modifyForms, Code.ensures_bind, Code.ensures_modify, Code.ensures_pure]
  split
  · exact ⟨rfl, rfl, .setContent _ rfl (fun j _ _ => halloc fill j) hnew⟩
  · rw [Code.ensures_bind]
    refine (loadBytes_keeps _ _ _ _).mono fun old kernel₁ hkept => ?_
    obtain rfl : kernel₁ = kernel.withBlock fill := hkept
    rw [Code.ensures_bind]
    refine storeBytes_ensures fun block _ _ _ => ?_
    simp only [freeBlock, modifyForms]
    rw [if_neg (by assumption), Code.ensures_bind, Code.ensures_memory]
    split
    · trivial
    · rw [Code.ensures_modify]
      refine ⟨rfl, rfl, .setContent _ rfl (fun j hj hne => ?_) hnew⟩
      rw [FormStore.block_setBlock_of_ne _ hne, FormStore.block_setBlock_of_ne _ (hnew j)]
      exact halloc fill j

/-- The stores of vfs_write touch its form only. -/
theorem vfsStore_ensures (kernel : KernelMemory) (fd : Int32) (idx : ℕ) (buffer : ℕ → UInt8)
    (count : Int32) :
    (vfsStore fd idx buffer count).Ensures kernel fun _ kernel' =>
      kernel'.store = kernel.store ∧ TouchesOnly idx kernel.forms kernel'.forms ∧
        ∀ i, (kernel'.vfsFds i).opened = (kernel.vfsFds i).opened := by
  simp only [vfsStore, modifyForms, modifyFd, Code.ensures_bind, Code.ensures_memory]
  refine storeBytes_ensures fun block _ _ _ => ?_
  simp only [Code.ensures_modify, Code.ensures_pure]
  refine ⟨trivial, ?_, fun i => ?_⟩
  · exact (TouchesOnly.setBlock idx kernel.forms _).trans (TouchesOnly.setSize idx _ _)
  · by_cases hi : i = fd.toNatClampNeg
    · rw [hi, Function.update_self]
      rfl
    · rw [Function.update_of_ne hi]

end Frames

end HexaOS.Kernel
