import HexaOS.KernelState

/-!
# Intents and their system calls

intent.c and the four system calls of syscall.c that open and use intents. A handle
names an entry of the intent table; the entry keeps the pid that created it, which no
later call looks at. Buffers and strings of the caller are what its memory holds at
the address it passes.
-/

namespace HexaOS.Kernel

open DevicePrograms PackedBytes Hexafs

/-- MAX_INTENTS -/
def maxIntents : ℕ := 64

/-- INTENT_CONSUME -/
def intentConsume : UInt32 := 0x01

/-- INTENT_PRODUCE -/
def intentProduce : UInt32 := 0x02

/-- INTENT_OBSERVE -/
def intentObserve : UInt32 := 0x03

/-- INTENT_TRANSFORM -/
def intentTransform : UInt32 := 0x04

/-- INTENT_STREAM -/
def intentStream : UInt32 := 0x01

/-- INTENT_ONCE -/
def intentOnce : UInt32 := 0x02

/-- CAP_TYPE_INTENT -/
def capTypeIntent : UInt32 := 0x00000002

/-- hexafs_cap_check, with the grants and the tick of the moment. -/
def capCheck (pid capType : UInt32) : KernelM Bool := do
  let kernel ← Code.memory
  onStore (hexafsCapCheck kernel.capGrants kernel.systemTicks pid capType)

/-- The first inactive entry of intent_table. -/
def freeIntent (table : ℕ → IntentEntry) : Option ℕ :=
  (List.range maxIntents).find? fun i => !(table i).active

/-- The first active entry with a handle. -/
def findIntent (table : ℕ → IntentEntry) (handle : UInt32) : Option ℕ :=
  (List.range maxIntents).find? fun i => (table i).active && (table i).handle == handle

/-- Update an entry of intent_table. -/
def modifyIntent (i : ℕ) (update : IntentEntry → IntentEntry) : KernelM Unit :=
  Code.modify fun kernel => { kernel with
    intentTable := Function.update kernel.intentTable i (update (kernel.intentTable i)) }

/-- The part of intent_create behind its check: fill the first inactive entry. -/
def registerIntent (pid : UInt32) (intent : HexaosIntent) : KernelM (Option UInt32) := do
  let kernel ← Code.memory
  match freeIntent kernel.intentTable with
  | none => pure none
  | some i =>
    Code.modify fun kernel => { kernel with
      intentTable := Function.update kernel.intentTable i
        ⟨true, pid, intent, kernel.nextHandle, 0, 0⟩
      nextHandle := kernel.nextHandle + 1 }
    pure (some kernel.nextHandle)

/-- intent_create: the handle, `none` for -1. -/
def intentCreate (pid : UInt32) (intent : HexaosIntent) : KernelM (Option UInt32) := do
  if intent.intentType = intentProduce ∨ intent.intentType = intentTransform then
    let ok ← capCheck pid capTypeIntent
    if ok = false ∧ pid ≠ 0 then pure none else registerIntent pid intent
  else registerIntent pid intent

/-- What memory holds at the address of a buffer, `none` for a null pointer. -/
abbrev Buffer : Type := Option (ℕ → UInt8)

/-- The first bytes of a buffer. -/
def bufferBytes (buffer : ℕ → UInt8) (count : ℕ) : List UInt8 := (List.range count).map buffer

/-- A return value, and the bytes that were stored at the front of the caller's buffer. -/
structure Fulfilled where
  /-- The number that is returned. -/
  ret : Int32
  /-- The bytes for the caller. -/
  out : List UInt8

/-- `(int)target_hash`, when that is the index of a form. -/
def targetForm (kernel : KernelMemory) (intent : HexaosIntent) : Option ℕ :=
  if intent.targetHash < 0x80000000 ∧ intent.targetHash.toNat < kernel.store.formCount then
    some intent.targetHash.toNat
  else none

/-- The schema check of a production: 0, or the hash of the whole buffer. -/
def schemaAccepts (intent : HexaosIntent) (buffer : ℕ → UInt8) (len : Int32) : Bool :=
  intent.schemaHash == 0 || hexafsContentHash (bufferBytes buffer len.toNatClampNeg) == intent.schemaHash

/-- The bytes that a production stores: `len < 65528 ? len : 65528` of them. -/
def producedBytes (buffer : ℕ → UInt8) (len : Int32) : List UInt8 :=
  bufferBytes buffer (min len.toNatClampNeg 65528)

/-- The stores of a production. The buffer of the form is not grown, and a shorter
content keeps the size. -/
def produce (i idx : ℕ) (bytes : List UInt8) : KernelM Fulfilled := do
  let kernel ← Code.memory
  storeBytes (kernel.forms.slot idx).content 0 (bytes ++ [0])
  modifyForms fun forms => forms.setSlot idx { forms.slot idx with
    size := max (forms.slot idx).size bytes.length }
  modifyIntent i fun entry => { entry with bufferLen := Int32.ofNat bytes.length }
  pure ⟨Int32.ofNat bytes.length, []⟩

/-- Copy the front of a form into the buffer. -/
def consume (idx : ℕ) (len : Int32) : KernelM Fulfilled := do
  let kernel ← Code.memory
  let form := kernel.forms.slot idx
  let copy := min len.toNatClampNeg form.size
  let bytes ← loadBytes form.content 0 copy
  pure ⟨Int32.ofNat copy, bytes⟩

/-- The buffer of an entry, as memory holds it: buffer_block and buffer_len. -/
def IntentEntry.bufferField (entry : IntentEntry) : List UInt8 :=
  toBytes entry.bufferBlock ++ toBytes entry.bufferLen.toUInt32

/-- The branches of intent_fulfill that store into a form. They differ in what is done
without a buffer or a form. -/
def fulfillStore (i : ℕ) (entry : IntentEntry) (buffer : Buffer) (len : Int32)
    (otherwise : KernelM Fulfilled) : KernelM Fulfilled := do
  let kernel ← Code.memory
  match (if 0 < len then buffer else none), targetForm kernel entry.intent with
  | some (buf), some idx =>
    if schemaAccepts entry.intent buf len then produce i idx (producedBytes buf len)
    else pure ⟨-1, []⟩
  | _, _ => otherwise

/-- The branch of intent_fulfill for INTENT_PRODUCE. -/
def fulfillProduce (i : ℕ) (entry : IntentEntry) (buffer : Buffer) (len : Int32) :
    KernelM Fulfilled :=
  fulfillStore i entry buffer len do
    modifyIntent i fun entry => { entry with bufferBlock := 0, bufferLen := len }
    pure ⟨len, []⟩

/-- The branch for INTENT_TRANSFORM. -/
def fulfillTransform (i : ℕ) (entry : IntentEntry) (buffer : Buffer) (len : Int32) :
    KernelM Fulfilled :=
  fulfillStore i entry buffer len (pure ⟨0, []⟩)

/-- The branch for INTENT_CONSUME. Without a form it copies the entry's own buffer field. -/
def fulfillConsume (entry : IntentEntry) (buffer : Buffer) (len : Int32) : KernelM Fulfilled := do
  let kernel ← Code.memory
  match (if 0 < len then buffer else none) with
  | none => pure ⟨0, []⟩
  | some _ =>
    match targetForm kernel entry.intent with
    | some idx => consume idx len
    | none =>
      let copy := min len entry.bufferLen
      if entry.bufferField.length < copy.toNatClampNeg then Code.halt .fault
      else pure ⟨copy, entry.bufferField.take copy.toNatClampNeg⟩

/-- The branch for INTENT_OBSERVE. -/
def fulfillObserve (entry : IntentEntry) (buffer : Buffer) (len : Int32) : KernelM Fulfilled := do
  let kernel ← Code.memory
  match (if 0 < len then buffer else none), targetForm kernel entry.intent with
  | some _, some idx => consume idx len
  | _, _ => pure ⟨0, []⟩

/-- intent_fulfill -/
def intentFulfill (handle : UInt32) (buffer : Buffer) (len : Int32) : KernelM Fulfilled := do
  let kernel ← Code.memory
  match findIntent kernel.intentTable handle with
  | none => pure ⟨-1, []⟩
  | some i =>
    let entry := kernel.intentTable i
    if entry.intent.intentType = intentProduce then fulfillProduce i entry buffer len
    else if entry.intent.intentType = intentConsume then fulfillConsume entry buffer len
    else if entry.intent.intentType = intentObserve then fulfillObserve entry buffer len
    else if entry.intent.intentType = intentTransform then fulfillTransform i entry buffer len
    else pure ⟨0, []⟩

/-- intent_close -/
def intentClose (handle : UInt32) : KernelM Int32 := do
  let kernel ← Code.memory
  match findIntent kernel.intentTable handle with
  | none => pure (-1)
  | some i =>
    modifyIntent i fun entry => { entry with active := false }
    pure 0

/-- The intent that intent_compat_open builds. -/
def openedIntent (idx : ℕ) (flags : UInt32) : HexaosIntent :=
  if flags &&& 1 ≠ 0 then ⟨intentProduce, UInt32.ofNat idx, 0, 0, intentOnce⟩
  else ⟨intentConsume, UInt32.ofNat idx, 0, 0, intentStream⟩

/-- intent_compat_open: the handle, `none` for -1. -/
def intentCompatOpen (pid : UInt32) (path : CString) (flags : UInt32) :
    KernelM (Option UInt32) := do
  let kernel ← Code.memory
  match findForm kernel path with
  | some idx => intentCreate pid (openedIntent idx flags)
  | none =>
    if flags &&& 4 = 0 then pure none
    else
      let _ ← cmdMkform path
      let kernel ← Code.memory
      match findForm kernel path with
      | none => pure none
      | some idx => intentCreate pid (openedIntent idx flags)

/-- The intent that intent_compat_write builds for a form named by its descriptor. -/
def writtenIntent (idx : ℕ) : HexaosIntent := ⟨intentProduce, UInt32.ofNat idx, 0, 0, intentOnce⟩

/-- intent_compat_write. A descriptor that is no handle is the address of a name;
`nameAt` is the string in memory there. -/
def intentCompatWrite (pid fd : UInt32) (nameAt : CString) (buffer : Buffer) (count : Int32) :
    KernelM Fulfilled := do
  let kernel ← Code.memory
  match findIntent kernel.intentTable fd with
  | none =>
    match findForm kernel nameAt with
    | none => pure ⟨-1, []⟩
    | some idx =>
      match ← intentCreate pid (writtenIntent idx) with
      | none => pure ⟨-1, []⟩
      | some handle => intentFulfill handle buffer count
  | some i =>
    if (kernel.intentTable i).intent.intentType ≠ intentProduce then pure ⟨-1, []⟩
    else intentFulfill fd buffer count

/-- SYS_EINVAL -/
def sysEinval : Int32 := -1

/-- SYS_EPERM -/
def sysEperm : Int32 := -4

/-- SYS_EAGAIN -/
def sysEagain : Int32 := -6

/-- The return value of a system call, the bytes stored in the caller's buffer and the
handle stored for the caller. -/
structure SysResult where
  /-- The number that is returned. -/
  ret : Int32
  /-- The bytes for the caller. -/
  out : List UInt8
  /-- The handle that is stored for the caller. -/
  handle : Option UInt32

/-- sys_validate_str with a limit of 256: a terminator among the first 256 bytes. -/
def validPath : Option CString → Option CString
  | none => none
  | some path => if path.chars.length < 256 then some path else none

/-- sys_validate_buf -/
def validBuf (buffer : Buffer) (len : Int32) : Bool :=
  decide (0 < len ∧ len ≤ 4096) && buffer.isSome

/-- sys_open -/
def sysOpen (pid : UInt32) (path : Option CString) (flags : UInt32) : KernelM SysResult := do
  match validPath path with
  | none => pure ⟨sysEinval, [], none⟩
  | some path =>
    match ← intentCompatOpen pid path flags with
    | none => pure ⟨-1, [], none⟩
    | some handle => pure ⟨handle.toInt32, [], none⟩

/-- sys_write -/
def sysWrite (pid fd : UInt32) (nameAt : CString) (buffer : Buffer) (len : Int32) :
    KernelM SysResult := do
  if validBuf buffer len then
    let done ← intentCompatWrite pid fd nameAt buffer len
    pure ⟨done.ret, done.out, none⟩
  else pure ⟨sysEinval, [], none⟩

/-- The part of sys_intent behind its check. -/
def sysIntentCreate (pid : UInt32) (intent : HexaosIntent) : KernelM SysResult := do
  match ← intentCreate pid intent with
  | none => pure ⟨sysEagain, [], none⟩
  | some handle => pure ⟨0, [], some handle⟩

/-- sys_intent: `intent` is what the first pointer points to, `handlePointer` says
whether the second one is not null. -/
def sysIntent (pid : UInt32) (intent : Option HexaosIntent) (handlePointer : Bool) :
    KernelM SysResult := do
  match intent with
  | none => pure ⟨sysEinval, [], none⟩
  | some intent =>
    if handlePointer then
      let ok ← capCheck pid capTypeIntent
      if ok = false ∧ intent.intentType ≠ intentConsume ∧ pid ≠ 0 then pure ⟨sysEperm, [], none⟩
      else sysIntentCreate pid intent
    else pure ⟨sysEinval, [], none⟩

/-- sys_fulfill -/
def sysFulfill (handle : UInt32) (buffer : Buffer) (len : Int32) : KernelM SysResult := do
  let done ← intentFulfill handle buffer len
  pure ⟨done.ret, done.out, none⟩

/-- The system calls that open and use intents. -/
inductive IntentCall where
  /-- SYS_INTENT -/
  | intent (intent : Option HexaosIntent) (handlePointer : Bool)
  /-- SYS_OPEN -/
  | open (path : Option CString) (flags : UInt32)
  /-- SYS_WRITE -/
  | write (fd : UInt32) (nameAt : CString) (buffer : Buffer) (len : Int32)
  /-- SYS_FULFILL -/
  | fulfill (handle : UInt32) (buffer : Buffer) (len : Int32)

/-- The code of a system call, for the task with this pid. -/
def IntentCall.code (pid : UInt32) : IntentCall → KernelM SysResult
  | .intent record handlePointer => sysIntent pid record handlePointer
  | .open path flags => sysOpen pid path flags
  | .write fd nameAt buffer len => sysWrite pid fd nameAt buffer len
  | .fulfill handle buffer len => sysFulfill handle buffer len

end HexaOS.Kernel
