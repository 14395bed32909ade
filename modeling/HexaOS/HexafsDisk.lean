import HexaOS.HexafsState

/-!
# The disk layer of the form store

Bitmap, block allocation, superblock, format and mount, objects, snapshots and
abstractions, as hexafs_disk.c computes them. Loops over a chain of blocks carry
a budget of one more step than there are block addresses: a loop that spends it
has repeated an address and never ends. Reading an entry beyond the array of a
sector is a fault.
-/

namespace HexaOS.Hexafs

open DevicePrograms PackedBytes

/-- bitmap_test -/
def bitmapTest (bitmap : Vector UInt8 1024) (block : ℕ) : Bool :=
  if h : block / 8 < 1024 then
    (bitmap[block / 8] >>> UInt8.ofNat (block % 8)) &&& 1 == 1
  else true

/-- bitmap_set, without the dirty flag -/
def bitmapSet (bitmap : Vector UInt8 1024) (block : ℕ) : Vector UInt8 1024 :=
  if h : block / 8 < 1024 then
    bitmap.set (block / 8) (bitmap[block / 8] ||| (1 <<< UInt8.ofNat (block % 8)))
  else bitmap

/-- bitmap_clear, without the dirty flag -/
def bitmapClear (bitmap : Vector UInt8 1024) (block : ℕ) : Vector UInt8 1024 :=
  if h : block / 8 < 1024 then
    bitmap.set (block / 8) (bitmap[block / 8] &&& ~~~(1 <<< UInt8.ofNat (block % 8)))
  else bitmap

/-- The scanning loops of hexafs_alloc_block: the first free block of a range. -/
def scanFree (bitmap : Vector UInt8 1024) (first stop : ℕ) : Option ℕ :=
  (List.range' first (stop - first)).find? fun i => !bitmapTest bitmap i

/-- The body of both loops of hexafs_alloc_block, for a free block `i`. -/
def takeBlock (i : ℕ) : HexafsM UInt32 := do
  modifyAllocator fun a => { a with bitmap := bitmapSet a.bitmap i, dirty := true }
  let _ ← hexafsBlockWrite (UInt32.ofNat i) zeroSector
  modifyAllocator fun a => { a with nextHint := i + 1 }
  pure (UInt32.ofNat i)

/-- The block that hexafs_alloc_block takes: from the hint on, then before it. -/
def Allocator.choose (a : Allocator) : Option ℕ :=
  (scanFree a.bitmap a.nextHint hexafsDiskBlocks).or
    (scanFree a.bitmap hexafsObjectLba a.nextHint)

/-- hexafs_alloc_block -/
def hexafsAllocBlock : HexafsM UInt32 := do
  let mem ← Code.memory
  match Allocator.choose mem.allocator with
  | some i => takeBlock i
  | none =>
    modifyAllocator fun a => { a with outOfBlocks := true }
    pure 0

/-- hexafs_free_block -/
def hexafsFreeBlock (lba : UInt32) : HexafsM Unit :=
  if lba.toNat < hexafsObjectLba ∨ hexafsDiskBlocks ≤ lba.toNat then pure ()
  else modifyAllocator fun a =>
    { a with
      bitmap := bitmapClear a.bitmap lba.toNat
      dirty := true
      nextHint := if lba.toNat < a.nextHint then lba.toNat else a.nextHint }

/-- bitmap_init -/
def bitmapInit : HexafsM Unit :=
  modifyAllocator fun a =>
    let reserved := (List.range hexafsObjectLba).foldl bitmapSet (Vector.replicate 1024 0)
    let reserved := (List.range' hexafsAllocLba.toNat hexafsAllocBlocks).foldl bitmapSet reserved
    { a with bitmap := reserved, dirty := true }

/-- The i-th sector of the bitmap. -/
def bitmapSector (bitmap : Vector UInt8 1024) (i : ℕ) : Sector :=
  padBlock 512 (bitmap.toList.drop (i * 512))

/-- Copy a sector over the i-th part of the bitmap. -/
def bitmapStore (bitmap : Vector UInt8 1024) (i : ℕ) (sector : Sector) : Vector UInt8 1024 :=
  Vector.ofFn fun k : Fin 1024 =>
    if i * 512 ≤ k ∧ k < i * 512 + 512 then sector.bytes.getD (k - i * 512) 0 else bitmap[k]

/-- The writing loop of hexafs_save_bitmap, from sector `i` on. -/
def saveBitmapFrom : ℕ → ℕ → HexafsM Bool
  | 0, _ => pure true
  | left + 1, i => do
    let mem ← Code.memory
    let ok ← hexafsBlockWrite (hexafsAllocLba + UInt32.ofNat i)
      (bitmapSector mem.allocator.bitmap i)
    if ok then saveBitmapFrom left (i + 1) else pure false

/-- hexafs_save_bitmap -/
def hexafsSaveBitmap : HexafsM Bool := do
  let mem ← Code.memory
  if mem.allocator.dirty then
    let ok ← saveBitmapFrom hexafsAllocBlocks 0
    if ok then
      modifyAllocator fun a => { a with dirty := false }
      pure true
    else pure false
  else pure true

/-- The reading loop of bitmap_load, from sector `i` on. -/
def loadBitmapFrom : ℕ → ℕ → HexafsM Bool
  | 0, _ => pure true
  | left + 1, i => do
    match ← hexafsBlockRead (hexafsAllocLba + UInt32.ofNat i) with
    | none => pure false
    | some buf =>
      modifyAllocator fun a => { a with bitmap := bitmapStore a.bitmap i buf }
      loadBitmapFrom left (i + 1)

/-- bitmap_load -/
def bitmapLoad : HexafsM Bool := do
  let ok ← loadBitmapFrom hexafsAllocBlocks 0
  if ok then
    modifyAllocator fun a => { a with dirty := false }
    pure true
  else pure false

/-- The record that hexafs_write_superblock builds from sb_cache. -/
def nextSuperblock (cache : HexafsSuperblock) : HexafsSuperblock :=
  let sb : HexafsSuperblock :=
    { magic := hexafsSuperMagic
      version := 1
      totalBlocks := UInt32.ofNat hexafsDiskBlocks
      allocatorLba := hexafsAllocLba
      allocatorBlocks := UInt32.ofNat hexafsAllocBlocks
      objectStoreLba := UInt32.ofNat hexafsObjectLba
      rootSnapBlock := cache.rootSnapBlock
      checksum := 0
      timestamp := cache.timestamp
      formatGen := cache.formatGen + 1
      pad := Vector.replicate 468 0 }
  { sb with checksum := sbChecksum sb }

/-- hexafs_write_superblock -/
def hexafsWriteSuperblock : HexafsM Bool := do
  let mem ← Code.memory
  let sb := nextSuperblock mem.sbCache
  Code.modify fun mem => { mem with sbCache := sb }
  hexafsBlockWrite hexafsSuperLba (toBlock 512 sb)

/-- The two checks of hexafs_read_superblock. -/
def superblockValid (sb : HexafsSuperblock) : Bool :=
  sb.magic == hexafsSuperMagic && sbChecksum sb == sb.checksum

/-- hexafs_read_superblock -/
def hexafsReadSuperblock : HexafsM Bool := do
  match ← hexafsBlockRead hexafsSuperLba with
  | none => pure false
  | some buf =>
    let sb := ofBlock HexafsSuperblock buf
    if superblockValid sb then
      Code.modify fun mem => { mem with sbCache := sb }
      pure true
    else pure false

/-- The superblock that hexafs_format puts into sb_cache. -/
def formatSuperblock : HexafsSuperblock :=
  { HexafsSuperblock.zero with
    magic := hexafsSuperMagic
    version := 1
    totalBlocks := UInt32.ofNat hexafsDiskBlocks
    allocatorLba := hexafsAllocLba
    allocatorBlocks := UInt32.ofNat hexafsAllocBlocks
    objectStoreLba := UInt32.ofNat hexafsObjectLba
    formatGen := 1 }

/-- hexafs_format -/
def hexafsFormat : HexafsM Bool := do
  Code.modify fun mem => { mem with sbCache := formatSuperblock }
  clearBlockCache
  bitmapInit
  let ok ← hexafsWriteSuperblock
  if ok then
    let ok ← hexafsSaveBitmap
    if ok then
      Code.modify fun mem => { mem with hexafsMounted := true }
      pure true
    else pure false
  else pure false

/-- hexafs_mount_disk -/
def hexafsMountDisk : HexafsM Bool := do
  clearBlockCache
  let ok ← hexafsReadSuperblock
  if ok then
    let ok ← bitmapLoad
    if ok then
      Code.modify fun mem => { mem with hexafsMounted := true }
      pure true
    else pure false
  else pure false

/-- The header that hexafs_object_alloc writes. -/
def newObject (type : UInt8) (timestamp : UInt32) : HexafsObject :=
  let obj : HexafsObject :=
    { magic := hexafsObjectType type
      type := type
      pad1 := Vector.replicate 3 0
      schemaHash := 0
      contentSize := 0
      contentBlock := 0
      contentBlocksExtra := Vector.replicate 3 0
      contentHash := 0
      parentSnap := 0
      capBlocks := Vector.replicate 4 0
      timestamp := timestamp
      checksum := 0
      pad2 := Vector.replicate 448 0 }
  { obj with checksum := objChecksum obj }

/-- hexafs_object_alloc -/
def hexafsObjectAlloc (type : UInt8) : HexafsM UInt32 := do
  let block ← hexafsAllocBlock
  if block = 0 then pure 0
  else
    let mem ← Code.memory
    let ok ← hexafsBlockWrite block (toBlock 512 (newObject type mem.sbCache.timestamp))
    if ok then pure block
    else
      hexafsFreeBlock block
      pure 0

/-- `(obj.magic & 0xFFFFFF00) == HEXAFS_OBJ_MAGIC_BASE` -/
def objMagicOk (obj : HexafsObject) : Bool := obj.magic &&& 0xFFFFFF00 == hexafsObjMagicBase

/-- The four content block fields, in the order of the arrays `blocks` and `db`. -/
def HexafsObject.slots (obj : HexafsObject) : List UInt32 :=
  obj.contentBlock :: obj.contentBlocksExtra.toList

/-- Store the four content block fields. -/
def HexafsObject.setSlots (obj : HexafsObject) (slots : List UInt32) : HexafsObject :=
  { obj with
    contentBlock := slots.getD 0 0
    contentBlocksExtra := #v[slots.getD 1 0, slots.getD 2 0, slots.getD 3 0] }

/-- `(size + HEXAFS_BLOCK_SIZE - 1) / HEXAFS_BLOCK_SIZE`, at most 4 -/
def contentBlockCount (size : UInt32) : ℕ := min 4 ((size + 512 - 1) / 512).toNat

/-- The two loops of hexafs_object_write_data, from slot `i` on: `left` blocks are
still written, the slots after them become 0. -/
def writeContent : ℕ → ℕ → List UInt32 → List UInt8 → HexafsM (Option (List UInt32))
  | 0, _, slots, _ => pure (some (slots.map fun _ => 0))
  | _ + 1, _, [], _ => pure (some [])
  | left + 1, i, slot :: slots, data => do
    let db ← if slot = 0 then hexafsAllocBlock else pure slot
    if db = 0 then pure none
    else
      let ok ← hexafsBlockWrite db (padBlock 512 data)
      if ok then
        let rest ← writeContent left (i + 1) slots (data.drop 512)
        pure (rest.map (db :: ·))
      else
        if 0 < i ∧ db ≠ slot then hexafsFreeBlock db
        pure none

/-- The header after hexafs_object_write_data, with its new checksum. -/
def HexafsObject.withContent (obj : HexafsObject) (slots : List UInt32) (data : List UInt8) :
    HexafsObject :=
  let obj := { obj.setSlots slots with
    contentSize := UInt32.ofNat data.length
    contentHash := hexafsContentHash data }
  { obj with checksum := objChecksum obj }

/-- hexafs_object_write_data. The checksum of the old header only decides about
a log line. -/
def hexafsObjectWriteData (objBlock : UInt32) (data : List UInt8) : HexafsM Bool := do
  match ← hexafsBlockRead objBlock with
  | none => pure false
  | some buf =>
    let obj := ofBlock HexafsObject buf
    if objMagicOk obj then
      match ← writeContent (contentBlockCount (UInt32.ofNat data.length)) 0 obj.slots data with
      | none => pure false
      | some slots => hexafsBlockWrite objBlock (toBlock 512 (obj.withContent slots data))
    else pure false

/-- What hexafs_object_read_data returns, sets and stores once the header is read. -/
structure ObjectRead where
  /-- The return value. -/
  ok : Bool
  /-- `*type` -/
  type : UInt8
  /-- `*size`: the size in the header, whatever the caller's buffer holds. -/
  size : UInt32
  /-- The bytes stored at the front of the buffer. -/
  bytes : List UInt8
  deriving DecidableEq

/-- The content loop of hexafs_object_read_data. -/
def readContent : List UInt32 → ℕ → HexafsM (Bool × List UInt8)
  | [], _ => pure (true, [])
  | db :: rest, remaining => do
    if remaining = 0 ∨ db = 0 then pure (true, [])
    else
      match ← hexafsBlockRead db with
      | none => pure (false, [])
      | some buf =>
        let copy := min remaining 512
        let more ← readContent rest (remaining - copy)
        pure (more.1, buf.bytes.take copy ++ more.2)

/-- hexafs_object_read_data with a buffer; `none` is a return of 0 that sets nothing. -/
def hexafsObjectReadData (objBlock : UInt32) : HexafsM (Option ObjectRead) := do
  match ← hexafsBlockRead objBlock with
  | none => pure none
  | some buf =>
    let obj := ofBlock HexafsObject buf
    if objMagicOk obj then
      if obj.contentBlock ≠ 0 ∧ 0 < obj.contentSize.toNat then
        let content ← readContent obj.slots obj.contentSize.toNat
        pure (some ⟨content.1, obj.type, obj.contentSize, content.2⟩)
      else pure (some ⟨true, obj.type, obj.contentSize, []⟩)
    else pure none

/-- The snapshot that hexafs_snap_create writes. -/
def newSnap (mem : Memory) (name : CString) : HexafsSnap :=
  let snap : HexafsSnap :=
    { magic := hexafsSnapMagic
      parentSnapBlock := mem.sbCache.rootSnapBlock
      rootObjectBlock := mem.currentTx.newRootBlock
      timestamp := mem.sbCache.timestamp
      name := copyName (Vector.replicate 32 0) name
      checksum := 0
      pad := Vector.replicate 460 0 }
  { snap with checksum := hexafsContentHash (toBytes snap) }

/-- hexafs_snap_create -/
def hexafsSnapCreate (name : CString) : HexafsM UInt32 := do
  let mem ← Code.memory
  if mem.currentTx.active && mem.currentTx.dirty then
    let snapBlock ← hexafsAllocBlock
    if snapBlock = 0 then pure 0
    else
      let ok ← hexafsBlockWrite snapBlock (toBlock 512 (newSnap mem name))
      if ok then
        modifyTx fun tx => { tx with snapBlock := snapBlock }
        Code.modify fun mem =>
          { mem with sbCache := { mem.sbCache with rootSnapBlock := snapBlock } }
        pure snapBlock
      else
        hexafsFreeBlock snapBlock
        pure 0
  else pure 0

/-- An abstraction without entries. -/
def newAbstraction : HexafsAbsHeader :=
  let hdr : HexafsAbsHeader :=
    { magic := hexafsAbstractMagic
      entryCount := 0
      checksum := 0
      entries := Vector.replicate 11 ⟨Vector.replicate 32 0, 0, 0, Vector.replicate 7 0⟩
      pad := Vector.replicate 16 0 }
  { hdr with checksum := absChecksum hdr }

/-- hexafs_abstraction_create -/
def hexafsAbstractionCreate : HexafsM UInt32 := do
  let block ← hexafsAllocBlock
  if block = 0 then pure 0
  else
    let ok ← hexafsBlockWrite block (toBlock 512 newAbstraction)
    if ok then pure block
    else
      hexafsFreeBlock block
      pure 0

/-- The address in the first four bytes of the padding. -/
def HexafsAbsHeader.nextChain (hdr : HexafsAbsHeader) : UInt32 :=
  hdr.pad[0].toUInt32 ||| (hdr.pad[1].toUInt32 <<< 8) ||| (hdr.pad[2].toUInt32 <<< 16) |||
    (hdr.pad[3].toUInt32 <<< 24)

/-- Store an address there. The checksum stays as it was. -/
def HexafsAbsHeader.withChain (hdr : HexafsAbsHeader) (next : UInt32) : HexafsAbsHeader :=
  { hdr with
    pad := (((hdr.pad.set 0 next.toUInt8).set 1 (next >>> 8).toUInt8).set 2
      (next >>> 16).toUInt8).set 3 (next >>> 24).toUInt8 }

/-- hexafs_abstraction_next_chain -/
def hexafsAbstractionNextChain (absBlock : UInt32) : HexafsM UInt32 := do
  match ← hexafsBlockRead absBlock with
  | none => pure 0
  | some buf => pure (ofBlock HexafsAbsHeader buf).nextChain

/-- hexafs_abstraction_set_chain -/
def hexafsAbstractionSetChain (absBlock nextBlock : UInt32) : HexafsM Unit := do
  match ← hexafsBlockRead absBlock with
  | none => pure ()
  | some buf =>
    let _ ← hexafsBlockWrite absBlock
      (toBlock 512 ((ofBlock HexafsAbsHeader buf).withChain nextBlock))
    pure ()

/-- Fill entry `count` of a header and renew its checksum. -/
def HexafsAbsHeader.putEntry (hdr : HexafsAbsHeader) (count : Fin 11) (name : CString)
    (objBlock : UInt32) (type : UInt8) : HexafsAbsHeader :=
  let entry := { hdr.entries[count] with
    name := copyName hdr.entries[count].name name
    objectBlock := objBlock
    type := type }
  let hdr := { hdr with
    entries := hdr.entries.set count entry
    entryCount := UInt32.ofNat (count + 1) }
  { hdr with checksum := absChecksum hdr }

/-- One more than the number of block addresses. -/
def chainFuel : ℕ := 2 ^ 32 + 1

/-- How the loop of hexafs_abstraction_add_entry ends. -/
inductive AddWalk where
  /-- The function returns from inside the loop. -/
  | returned (value : Bool)
  /-- The loop is over and `cur` is this block. -/
  | fellOut (cur : UInt32)

/-- The loop of hexafs_abstraction_add_entry. -/
def addEntryLoop (name : CString) (objBlock : UInt32) (type : UInt8) : ℕ → UInt32 → HexafsM AddWalk
  | 0, _ => Code.halt .hang
  | fuel + 1, cur => do
    if cur = 0 then pure (.fellOut cur)
    else
      match ← hexafsBlockRead cur with
      | none => pure (.returned false)
      | some buf =>
        let hdr := ofBlock HexafsAbsHeader buf
        if absChecksum hdr ≠ hdr.checksum then pure (.returned false)
        else if hdr.magic ≠ hexafsAbstractMagic then pure (.returned false)
        else if h : hdr.entryCount.toNat < hexafsAbsMaxEntries then
          let ok ← hexafsBlockWrite cur
            (toBlock 512 (hdr.putEntry ⟨hdr.entryCount.toNat, h⟩ name objBlock type))
          pure (.returned ok)
        else
          let next ← hexafsAbstractionNextChain cur
          if next = 0 then pure (.fellOut cur)
          else addEntryLoop name objBlock type fuel next

/-- hexafs_abstraction_add_entry -/
def hexafsAbstractionAddEntry (absBlock : UInt32) (name : CString) (objBlock : UInt32)
    (type : UInt8) : HexafsM Bool := do
  match ← addEntryLoop name objBlock type chainFuel absBlock with
  | .returned value => pure value
  | .fellOut cur =>
    let newBlock ← hexafsAbstractionCreate
    if newBlock = 0 then pure false
    else
      hexafsAbstractionSetChain cur newBlock
      match ← hexafsBlockRead newBlock with
      | none => pure false
      | some buf =>
        hexafsBlockWrite newBlock
          (toBlock 512 ((ofBlock HexafsAbsHeader buf).putEntry 0 name objBlock type))

/-- `(int)hdr->entry_count`, as the bound of a loop from 0. -/
def HexafsAbsHeader.countInt (hdr : HexafsAbsHeader) : ℕ :=
  if hdr.entryCount < 0x80000000 then hdr.entryCount.toNat else 0

/-- A loop over the first `count` entries that stops at the first match. -/
def scanEntries (wanted : HexafsAbsEntry → Bool) :
    ℕ → List HexafsAbsEntry → Except Stop (Option HexafsAbsEntry)
  | 0, _ => .ok none
  | _ + 1, [] => .error .fault
  | count + 1, entry :: rest =>
    if wanted entry then .ok (some entry) else scanEntries wanted count rest

/-- The loop of hexafs_abstraction_find. -/
def findLoop (name : CString) : ℕ → UInt32 → HexafsM (Option HexafsAbsEntry)
  | 0, _ => Code.halt .hang
  | fuel + 1, cur => do
    if cur = 0 then pure none
    else
      match ← hexafsBlockRead cur with
      | none => pure none
      | some buf =>
        let hdr := ofBlock HexafsAbsHeader buf
        if hdr.magic ≠ hexafsAbstractMagic then pure none
        else
          let found ← liftStop
            (scanEntries (fun e => nameMatches e.name name) hdr.countInt hdr.entries.toList)
          match found with
          | some entry => pure (some entry)
          | none =>
            let next ← hexafsAbstractionNextChain cur
            findLoop name fuel next

/-- hexafs_abstraction_find; `none` is a return of 0, and an entry carries
`*obj_block` and `*type`. -/
def hexafsAbstractionFind (absBlock : UInt32) (name : CString) : HexafsM (Option HexafsAbsEntry) :=
  findLoop name chainFuel absBlock

/-- The same loop where only the position of the match matters. -/
def scanPosition (wanted : HexafsAbsEntry → Bool) :
    ℕ → List HexafsAbsEntry → Except Stop (Option ℕ)
  | 0, _ => .ok none
  | _ + 1, [] => .error .fault
  | count + 1, entry :: rest =>
    if wanted entry then .ok (some 0)
    else (scanPosition wanted count rest).map (Option.map (· + 1))

/-- Close the gap at entry `found`, count one entry less and renew the checksum. -/
def HexafsAbsHeader.removeEntry (hdr : HexafsAbsHeader) (found : ℕ) : HexafsAbsHeader :=
  let hdr := { hdr with
    entries := Vector.ofFn fun i : Fin 11 =>
      if h : found ≤ i ∧ i.val + 1 < hdr.countInt ∧ i.val + 1 < 11 then hdr.entries[i.val + 1]
      else hdr.entries[i]
    entryCount := hdr.entryCount - 1 }
  { hdr with checksum := absChecksum hdr }

/-- The loop of hexafs_abstraction_remove_entry. Moving the entries of a header that counts
more than it has reads beyond the sector. -/
def removeLoop (name : CString) : ℕ → UInt32 → HexafsM Bool
  | 0, _ => Code.halt .hang
  | fuel + 1, cur => do
    if cur = 0 then pure false
    else
      match ← hexafsBlockRead cur with
      | none => pure false
      | some buf =>
        let hdr := ofBlock HexafsAbsHeader buf
        if absChecksum hdr ≠ hdr.checksum then pure false
        else if hdr.magic ≠ hexafsAbstractMagic then pure false
        else
          let found ← liftStop
            (scanPosition (fun e => nameMatches e.name name) hdr.countInt hdr.entries.toList)
          match found with
          | some i =>
            if hexafsAbsMaxEntries < hdr.countInt then Code.halt .fault
            else hexafsBlockWrite cur (toBlock 512 (hdr.removeEntry i))
          | none =>
            let next ← hexafsAbstractionNextChain cur
            removeLoop name fuel next

/-- hexafs_abstraction_remove_entry -/
def hexafsAbstractionRemoveEntry (absBlock : UInt32) (name : CString) : HexafsM Bool :=
  removeLoop name chainFuel absBlock

/-- A loop over the first `count` entries that visits all of them. -/
def takeEntries : ℕ → List HexafsAbsEntry → Except Stop (List HexafsAbsEntry)
  | 0, _ => .ok []
  | _ + 1, [] => .error .fault
  | count + 1, entry :: rest => (takeEntries count rest).map (entry :: ·)

/-- The loop of hexafs_abstraction_list. -/
def listLoop : ℕ → UInt32 → HexafsM (List HexafsAbsEntry)
  | 0, _ => Code.halt .hang
  | fuel + 1, cur => do
    if cur = 0 then pure []
    else
      match ← hexafsBlockRead cur with
      | none => pure []
      | some buf =>
        let hdr := ofBlock HexafsAbsHeader buf
        if hdr.magic ≠ hexafsAbstractMagic then pure []
        else
          let here ← liftStop (takeEntries hdr.countInt hdr.entries.toList)
          let next ← hexafsAbstractionNextChain cur
          let rest ← listLoop fuel next
          pure (here ++ rest)

/-- hexafs_abstraction_list: the entries handed to the callback, in order. -/
def hexafsAbstractionList (absBlock : UInt32) : HexafsM (List HexafsAbsEntry) :=
  listLoop chainFuel absBlock

end HexaOS.Hexafs
