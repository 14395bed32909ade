import HexaOS.HexafsDisk

/-!
# Transactions, forms, rules and accounts

hexafs.c: transactions over the root snapshot, the mount with its formatting
fallback, saving and loading the form table, and the two configuration objects
`.users` and `.pimp`. The two pairs of configuration functions differ in the
entry name, the snapshot name and the buffer only, so each is one definition
applied to those values.
-/

namespace HexaOS.Hexafs

open DevicePrograms PackedBytes

/-- "boot_ok" -/
def bootOkName : CString := ⟨[98, 111, 111, 116, 95, 111, 107], by decide⟩

/-- "live" -/
def liveName : CString := ⟨[108, 105, 118, 101], by decide⟩

/-- "users_update" -/
def usersUpdateName : CString :=
  ⟨[117, 115, 101, 114, 115, 95, 117, 112, 100, 97, 116, 101], by decide⟩

/-- "pimp_update" -/
def pimpUpdateName : CString :=
  ⟨[112, 105, 109, 112, 95, 117, 112, 100, 97, 116, 101], by decide⟩

/-- ".users" -/
def usersName : CString := ⟨[46, 117, 115, 101, 114, 115], by decide⟩

/-- ".pimp" -/
def pimpName : CString := ⟨[46, 112, 105, 109, 112], by decide⟩

/-- hexafs_tx_begin -/
def hexafsTxBegin : HexafsM Bool := do
  let mem ← Code.memory
  if mem.currentTx.active then pure false
  else
    Code.modify fun mem => { mem with
      txGen := mem.txGen + 1
      currentTx := { HexafsTx.zero with
        active := true
        tid := mem.txGen + 1
        parentSnapBlock := mem.sbCache.rootSnapBlock } }
    pure true

/-- hexafs_tx_commit -/
def hexafsTxCommit : HexafsM Bool := do
  let mem ← Code.memory
  if mem.currentTx.active then
    if mem.currentTx.dirty then
      let ok ← hexafsSaveBitmap
      if ok then
        let ok ← hexafsWriteSuperblock
        if ok then
          modifyTx fun tx => { tx with active := false }
          pure true
        else pure false
      else pure false
    else
      modifyTx fun tx => { tx with active := false }
      pure true
  else pure false

/-- hexafs_tx_abort -/
def hexafsTxAbort : HexafsM Bool := do
  let mem ← Code.memory
  if mem.currentTx.active then
    modifyTx fun tx => { tx with active := false }
    pure true
  else pure false

/-- The last four lines of every writer: mark the transaction, create the
snapshot, commit. Neither result is used. -/
def commitRoot (newRoot : UInt32) (name : CString) : HexafsM Unit := do
  modifyTx fun tx => { tx with newRootBlock := newRoot, dirty := true }
  let _ ← hexafsSnapCreate name
  let _ ← hexafsTxCommit
  pure ()

/-- hexafs_mount -/
def hexafsMount : HexafsM Bool := do
  let mounted ← hexafsMountDisk
  if mounted then pure true
  else
    let formatted ← hexafsFormat
    if formatted then
      let rootAbs ← hexafsAbstractionCreate
      if rootAbs = 0 then pure false
      else
        let _ ← hexafsTxBegin
        commitRoot rootAbs bootOkName
        pure true
    else pure false

/-- The first ten bytes of a form object: owner, mode and an unused word. -/
def formMeta (owner : UInt32) (mode : UInt16) : List UInt8 :=
  toBytes owner ++ toBytes mode ++ toBytes (0 : UInt32)

/-- The buffer that form_from_fentry writes: at most 2048 bytes. With a null
content pointer the heap block keeps what it held. -/
def formBuffer (content : Option (List UInt8)) (size : ℕ) (owner : UInt32) (mode : UInt16)
    (fill : List UInt8) : List UInt8 :=
  let copy := min size (min 2048 (10 + size) - 10)
  formMeta owner mode ++ (content.getD (fill.drop 10)).take copy

/-- form_from_fentry -/
def formFromFentry (content : Option (List UInt8)) (size : ℕ) (owner : UInt32) (mode : UInt16) :
    HexafsM UInt32 := do
  let formBlock ← hexafsObjectAlloc hexafsForm
  if formBlock = 0 then pure 0
  else
    match ← kmalloc (min 2048 (10 + size)) with
    | none =>
      hexafsFreeBlock formBlock
      pure 0
    | some fill =>
      let ok ← hexafsObjectWriteData formBlock (formBuffer content size owner mode fill)
      if ok then pure formBlock
      else
        hexafsFreeBlock formBlock
        pure 0

/-- The loop of hexafs_save_all, from form `i` on. The result of adding the
entry is not used. -/
def saveForms (newAbs : UInt32) : ℕ → ℕ → HexafsM Unit
  | 0, _ => pure ()
  | left + 1, i => do
    let mem ← Code.memory
    let form := mem.formTable i
    let fb ← formFromFentry form.content form.size form.owner form.mode
    if fb = 0 then saveForms newAbs left (i + 1)
    else
      let _ ← hexafsAbstractionAddEntry newAbs form.name fb hexafsForm
      saveForms newAbs left (i + 1)

/-- hexafs_save_all -/
def hexafsSaveAll : HexafsM Unit := do
  let mem ← Code.memory
  if mem.hexafsMounted then
    let _ ← hexafsTxBegin
    let newAbs ← hexafsAbstractionCreate
    if newAbs = 0 then
      let _ ← hexafsTxAbort
      pure ()
    else
      saveForms newAbs mem.formCount 0
      commitRoot newAbs liveName
  else pure ()

/-- Update the form table slot behind the last form. -/
def modifySlot (update : FormEntry → FormEntry) : HexafsM Unit :=
  Code.modify fun mem => { mem with
    formTable :=
      Function.update mem.formTable mem.formCount (update (mem.formTable mem.formCount)) }

/-- A form without bytes, when the small allocation for its terminator succeeds. -/
def modifySlotEmpty : HexafsM Unit := do
  match ← kmalloc 1 with
  | none => modifySlot fun slot => { slot with content := none, size_le := slot.size_le_none }
  | some _ =>
    modifySlot fun slot =>
      { slot with content := some [0], size := 0, cap := 1, size_le := FormEntry.zero_le_one }

/-- Owner, mode and content bytes that hexafs_load_all takes out of an object. -/
structure FormFields where
  /-- The owner. -/
  owner : UInt32
  /-- The mode. -/
  mode : UInt16
  /-- The offset of the tags. -/
  metaOffset : ℕ
  /-- The bytes of the content. -/
  contentBytes : ℕ

/-- The prefix that hexafs_load_all decodes from a buffer of 2048 bytes. -/
def formFields (dataSize : UInt32) (buffer : List UInt8) : FormFields :=
  let owner := if 4 ≤ dataSize.toNat then ofBytes buffer else 0
  let offset := if 4 ≤ dataSize.toNat then 4 else 0
  let mode := if offset + 2 ≤ dataSize.toNat then ofBytes (buffer.drop offset) else 0x1A4
  let offset := if offset + 2 ≤ dataSize.toNat then offset + 2 else offset
  let offset := if offset + 4 ≤ dataSize.toNat then offset + 4 else offset
  let bytes := dataSize - UInt32.ofNat offset
  ⟨owner, mode, offset, if bytes < 0x80000000 then bytes.toNat else 0⟩

/-- Store a form object that was read into the form table slot. -/
def storeForm (dataSize : UInt32) (buffer : List UInt8) : HexafsM Unit := do
  let fields := formFields dataSize buffer
  match ← kmalloc (fields.contentBytes + 1) with
  | none => modifySlotEmpty
  | some _ =>
    if buffer.length < fields.metaOffset + fields.contentBytes then Code.halt .fault
    else
      let bytes := (buffer.drop fields.metaOffset).take fields.contentBytes
      modifySlot fun slot =>
        { slot with
          content := some (bytes ++ [0])
          size := bytes.length
          cap := bytes.length + 1
          size_le := by simp }
  modifySlot fun slot =>
    { slot with
      owner := if fields.owner < 12 then fields.owner else 0
      mode := fields.mode }

/-- The body of the loop of hexafs_load_all. -/
def loadEntry (entry : HexafsAbsEntry) : HexafsM Unit := do
  modifySlot fun slot => { slot with name := CString.ofBytes (entry.name.toList.take 31) }
  match ← kmalloc 2048 with
  | none => modifySlot fun slot =>
      { slot with content := none, size := 0, size_le := FormEntry.zero_le_none }
  | some fill =>
    match ← hexafsObjectReadData entry.objectBlock with
    | some ⟨true, type, dataSize, bytes⟩ =>
      if type = hexafsForm then storeForm dataSize (bytes ++ fill.drop bytes.length)
      else
        modifySlotEmpty
        modifySlot fun slot => { slot with owner := 0, mode := 0x1A4 }
    | _ =>
      modifySlotEmpty
      modifySlot fun slot => { slot with owner := 0, mode := 0x1A4 }
  Code.modify fun mem => { mem with formCount := mem.formCount + 1 }

/-- The loop of hexafs_load_all over `count` entries, at most 64 forms. -/
def loadEntries : ℕ → List HexafsAbsEntry → HexafsM Unit
  | 0, _ => pure ()
  | count + 1, entries => do
    let mem ← Code.memory
    if mem.formCount < 64 then
      match entries with
      | [] => Code.halt .fault
      | entry :: rest =>
        loadEntry entry
        loadEntries count rest
    else pure ()

/-- hexafs_load_all. It reads the first block of the root abstraction only. -/
def hexafsLoadAll : HexafsM Unit := do
  Code.modify fun mem => { mem with rootAbsBlock := mem.sbCache.rootSnapBlock }
  let mem ← Code.memory
  if mem.rootAbsBlock = 0 then pure ()
  else
    match ← hexafsBlockRead mem.rootAbsBlock with
    | none => pure ()
    | some buf =>
      let snap := ofBlock HexafsSnap buf
      if snap.magic ≠ hexafsSnapMagic then pure ()
      else
        Code.modify fun mem => { mem with rootAbsBlock := snap.rootObjectBlock }
        if snap.rootObjectBlock = 0 then pure ()
        else
          match ← hexafsBlockRead snap.rootObjectBlock with
          | none => pure ()
          | some buf =>
            let hdr := ofBlock HexafsAbsHeader buf
            if hdr.magic ≠ hexafsAbstractMagic then pure ()
            else
              Code.modify fun mem => { mem with formCount := 0 }
              loadEntries hdr.countInt hdr.entries.toList

/-- The abstraction that the root snapshot names, when there is one. -/
def rootAbstraction : HexafsM UInt32 := do
  let mem ← Code.memory
  if mem.sbCache.rootSnapBlock = 0 then pure 0
  else
    match ← hexafsBlockRead mem.sbCache.rootSnapBlock with
    | none => pure 0
    | some buf =>
      let snap := ofBlock HexafsSnap buf
      if snap.magic ≠ hexafsSnapMagic then pure 0
      else pure snap.rootObjectBlock

/-- The common text of hexafs_users_load and pimp_load_rules; `none` is a return
of 0 before anything is read into the buffer. -/
def loadConfig (name : CString) : HexafsM (Option ObjectRead) := do
  let absBlock ← rootAbstraction
  if absBlock = 0 then pure none
  else
    match ← hexafsAbstractionFind absBlock name with
    | none => pure none
    | some entry =>
      if entry.objectBlock = 0 then pure none
      else hexafsObjectReadData entry.objectBlock

/-- The common text of hexafs_users_save and pimp_save_rules. The results of
adding the entry, of the snapshot and of the commit are not used. -/
def saveConfig (name snapName : CString) (data : List UInt8) : HexafsM Bool := do
  let mem ← Code.memory
  if mem.hexafsMounted then
    let _ ← hexafsTxBegin
    let absBlock ← rootAbstraction
    if absBlock = 0 then
      let _ ← hexafsTxAbort
      pure false
    else
      let found ← hexafsAbstractionFind absBlock name
      match found.map (·.objectBlock) with
      | some (block) =>
        if block = 0 then saveNewConfig absBlock else writeConfig absBlock block
      | none => saveNewConfig absBlock
  else pure false
where
  /-- Create the object and its entry, then write. -/
  saveNewConfig (absBlock : UInt32) : HexafsM Bool := do
    let block ← hexafsObjectAlloc hexafsConfig
    if block = 0 then
      let _ ← hexafsTxAbort
      pure false
    else
      let _ ← hexafsAbstractionAddEntry absBlock name block hexafsConfig
      writeConfig absBlock block
  /-- Write the object and commit. -/
  writeConfig (absBlock block : UInt32) : HexafsM Bool := do
    let ok ← hexafsObjectWriteData block data
    if ok then
      commitRoot absBlock snapName
      pure true
    else
      let _ ← hexafsTxAbort
      pure false

/-- hexafs_users_save -/
def hexafsUsersSave (data : List UInt8) : HexafsM Bool := saveConfig usersName usersUpdateName data

/-- hexafs_users_load: the size that is set and the bytes stored at the front of
the caller's buffer. -/
def hexafsUsersLoad : HexafsM (Option (UInt32 × List UInt8)) := do
  match ← loadConfig usersName with
  | some ⟨true, _, size, bytes⟩ => pure (some (size, bytes))
  | _ => pure none

/-- pimp_save_rules -/
def pimpSaveRules : HexafsM Bool := do
  let mem ← Code.memory
  saveConfig pimpName pimpUpdateName (mem.rules.flatMap toBytes)

/-- The array pimp_rules as memset leaves it, with bytes stored at its front. -/
def rulesOfBytes (bytes : List UInt8) : ℕ → PimpRule := fun i =>
  ofBytes ((bytes ++ List.replicate (pimpRuleMax * pimpRuleSize - bytes.length) 0).drop
    (i * pimpRuleSize))

/-- pimp_load_rules. More bytes than the array holds are a fault. -/
def pimpLoadRules : HexafsM Bool := do
  Code.modify fun mem => { mem with pimpCount := 0, pimpRules := fun _ => PimpRule.zero }
  match ← loadConfig pimpName with
  | none => pure false
  | some ⟨ok, _, dsize, bytes⟩ =>
    if pimpRuleMax * pimpRuleSize < bytes.length then Code.halt .fault
    else
      Code.modify fun mem => { mem with pimpRules := rulesOfBytes bytes }
      if ok then
        Code.modify fun mem =>
          { mem with pimpCount := min pimpRuleMax (dsize.toNat / pimpRuleSize) }
        pure true
      else pure false

end HexaOS.Hexafs
