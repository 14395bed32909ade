import HexaOS.PackedBytes

/-!
# The sector formats of the form store

Every record of the store fills one 512-byte sector, little-endian and without
gaps. The records below list the fields of the packed structures of
hexafs_disk.h in order, reserved bytes included, so a sector and a record are
two views of the same 512 bytes. The checksums are the DJB2 hash of the whole
record with the checksum field set to zero.
-/

namespace HexaOS.Hexafs

open PackedBytes

/-- HEXAFS_DISK_BLOCKS -/
def hexafsDiskBlocks : ℕ := 4096

/-- HEXAFS_SUPER_LBA -/
def hexafsSuperLba : UInt32 := 100

/-- HEXAFS_ALLOC_LBA -/
def hexafsAllocLba : UInt32 := 101

/-- HEXAFS_ALLOC_BLOCKS -/
def hexafsAllocBlocks : ℕ := 2

/-- HEXAFS_OBJECT_LBA -/
def hexafsObjectLba : ℕ := 109

/-- HEXAFS_SUPER_MAGIC, with its terminator: the eight bytes memcpy takes. -/
def hexafsSuperMagic : Vector UInt8 8 := #v[72, 69, 88, 65, 70, 83, 48, 0]

/-- HEXAFS_SNAP_MAGIC -/
def hexafsSnapMagic : UInt32 := 0x534E4150

/-- HEXAFS_OBJ_MAGIC_BASE -/
def hexafsObjMagicBase : UInt32 := 0x4F424A00

/-- HEXAFS_ABSTRACT_MAGIC -/
def hexafsAbstractMagic : UInt32 := 0x42534241

/-- HEXAFS_OBJECT_TYPE(t) -/
def hexafsObjectType (type : UInt8) : UInt32 := hexafsObjMagicBase ||| type.toUInt32

/-- HEXAFS_FORM -/
def hexafsForm : UInt8 := 0x01

/-- HEXAFS_CONFIG -/
def hexafsConfig : UInt8 := 0x05

/-- HEXAFS_ABS_MAX_ENTRIES -/
abbrev hexafsAbsMaxEntries : ℕ := 11

instance : NeZero hexafsAbsMaxEntries := ⟨by decide⟩

/-- One disk sector, HEXAFS_BLOCK_SIZE bytes. -/
abbrev Sector : Type := Block 512

/-- A sector of zeros. -/
def zeroSector : Sector := ⟨List.replicate 512 0, List.length_replicate⟩

/-- hexafs_superblock_t -/
structure HexafsSuperblock where
  /-- The magic bytes. -/
  magic : Vector UInt8 8
  /-- The version. -/
  version : UInt32
  /-- The sectors of the disk. -/
  totalBlocks : UInt32
  /-- The first sector of the bitmap. -/
  allocatorLba : UInt32
  /-- The sectors of the bitmap. -/
  allocatorBlocks : UInt32
  /-- The first block of the object area. -/
  objectStoreLba : UInt32
  /-- The newest snapshot. -/
  rootSnapBlock : UInt32
  /-- The sum over the fields. -/
  checksum : UInt32
  /-- A timestamp. -/
  timestamp : UInt32
  /-- The number of commits. -/
  formatGen : UInt32
  /-- The rest of the sector. -/
  pad : Vector UInt8 468
  deriving DecidableEq

/-- hexafs_snap_t -/
structure HexafsSnap where
  /-- The magic number. -/
  magic : UInt32
  /-- The snapshot before. -/
  parentSnapBlock : UInt32
  /-- The abstraction of the snapshot. -/
  rootObjectBlock : UInt32
  /-- The timestamp of the superblock. -/
  timestamp : UInt32
  /-- The name. -/
  name : Vector UInt8 32
  /-- The sum over the fields. -/
  checksum : UInt32
  /-- The rest of the sector. -/
  pad : Vector UInt8 460
  deriving DecidableEq

/-- hexafs_object_t -/
structure HexafsObject where
  /-- The magic number. -/
  magic : UInt32
  /-- The type. -/
  type : UInt8
  /-- Unused. -/
  pad1 : Vector UInt8 3
  /-- The hash of a schema. -/
  schemaHash : UInt32
  /-- The bytes of the content. -/
  contentSize : UInt32
  /-- The first content block. -/
  contentBlock : UInt32
  /-- The other content blocks. -/
  contentBlocksExtra : Vector UInt32 3
  /-- The checksum of the content. -/
  contentHash : UInt32
  /-- The snapshot it belongs to. -/
  parentSnap : UInt32
  /-- The blocks of capabilities. -/
  capBlocks : Vector UInt32 4
  /-- The timestamp of the superblock. -/
  timestamp : UInt32
  /-- The sum over the fields. -/
  checksum : UInt32
  /-- The rest of the sector. -/
  pad2 : Vector UInt8 448
  deriving DecidableEq

/-- hexafs_abs_entry_t -/
structure HexafsAbsEntry where
  /-- The name. -/
  name : Vector UInt8 32
  /-- The block of the object. -/
  objectBlock : UInt32
  /-- The type. -/
  type : UInt8
  /-- Unused. -/
  pad : Vector UInt8 7
  deriving DecidableEq

/-- hexafs_abs_header_t -/
structure HexafsAbsHeader where
  /-- The magic number. -/
  magic : UInt32
  /-- The number of entries. -/
  entryCount : UInt32
  /-- The sum over the fields. -/
  checksum : UInt32
  /-- The entries of this block. -/
  entries : Vector HexafsAbsEntry 11
  /-- The rest of the sector, with the link to the next block. -/
  pad : Vector UInt8 16
  deriving DecidableEq

instance : Packed HexafsSuperblock :=
  .ofEquiv (α := Vector UInt8 8 × UInt32 × UInt32 × UInt32 × UInt32 × UInt32 × UInt32 × UInt32 ×
      UInt32 × UInt32 × Vector UInt8 468)
    { toFun := fun s => (s.magic, s.version, s.totalBlocks, s.allocatorLba, s.allocatorBlocks,
        s.objectStoreLba, s.rootSnapBlock, s.checksum, s.timestamp, s.formatGen, s.pad)
      invFun := fun (a, b, c, d, e, f, g, h, i, j, k) => ⟨a, b, c, d, e, f, g, h, i, j, k⟩
      left_inv := fun _ => rfl
      right_inv := fun _ => rfl }

instance : Packed HexafsSnap :=
  .ofEquiv (α := UInt32 × UInt32 × UInt32 × UInt32 × Vector UInt8 32 × UInt32 × Vector UInt8 460)
    { toFun := fun s => (s.magic, s.parentSnapBlock, s.rootObjectBlock, s.timestamp, s.name,
        s.checksum, s.pad)
      invFun := fun (a, b, c, d, e, f, g) => ⟨a, b, c, d, e, f, g⟩
      left_inv := fun _ => rfl
      right_inv := fun _ => rfl }

instance : Packed HexafsObject :=
  .ofEquiv (α := UInt32 × UInt8 × Vector UInt8 3 × UInt32 × UInt32 × UInt32 × Vector UInt32 3 ×
      UInt32 × UInt32 × Vector UInt32 4 × UInt32 × UInt32 × Vector UInt8 448)
    { toFun := fun o => (o.magic, o.type, o.pad1, o.schemaHash, o.contentSize, o.contentBlock,
        o.contentBlocksExtra, o.contentHash, o.parentSnap, o.capBlocks, o.timestamp, o.checksum,
        o.pad2)
      invFun := fun (a, b, c, d, e, f, g, h, i, j, k, l, m) => ⟨a, b, c, d, e, f, g, h, i, j, k, l, m⟩
      left_inv := fun _ => rfl
      right_inv := fun _ => rfl }

instance : Packed HexafsAbsEntry :=
  .ofEquiv (α := Vector UInt8 32 × UInt32 × UInt8 × Vector UInt8 7)
    { toFun := fun e => (e.name, e.objectBlock, e.type, e.pad)
      invFun := fun (a, b, c, d) => ⟨a, b, c, d⟩
      left_inv := fun _ => rfl
      right_inv := fun _ => rfl }

instance : Packed HexafsAbsHeader :=
  .ofEquiv (α := UInt32 × UInt32 × UInt32 × Vector HexafsAbsEntry 11 × Vector UInt8 16)
    { toFun := fun h => (h.magic, h.entryCount, h.checksum, h.entries, h.pad)
      invFun := fun (a, b, c, d, e) => ⟨a, b, c, d, e⟩
      left_inv := fun _ => rfl
      right_inv := fun _ => rfl }

instance : Fills HexafsSuperblock 512 := ⟨rfl⟩
instance : Fills HexafsSnap 512 := ⟨rfl⟩
instance : Fills HexafsObject 512 := ⟨rfl⟩
instance : Fills HexafsAbsHeader 512 := ⟨rfl⟩

/-- hexafs_content_hash: the DJB2 hash. -/
def hexafsContentHash (data : List UInt8) : UInt32 :=
  data.foldl (fun h p => ((h <<< 5) + h) + p.toUInt32) 5381

/-- obj_checksum -/
def objChecksum (obj : HexafsObject) : UInt32 :=
  hexafsContentHash (toBytes { obj with checksum := 0 })

/-- sb_checksum -/
def sbChecksum (sb : HexafsSuperblock) : UInt32 :=
  hexafsContentHash (toBytes { sb with checksum := 0 })

/-- abs_checksum -/
def absChecksum (hdr : HexafsAbsHeader) : UInt32 :=
  hexafsContentHash (toBytes { hdr with checksum := 0 })

/-- The bytes of a C string before its terminator. -/
structure CString where
  /-- The characters. -/
  chars : List UInt8
  /-- The terminator is not a character. -/
  nonzero : 0 ∉ chars
  deriving DecidableEq

/-- The empty string has no terminator among its characters. -/
theorem CString.zero_notMem_nil : (0 : UInt8) ∉ ([] : List UInt8) := List.not_mem_nil

/-- The byte `name[i]`, as far as the terminator. -/
def CString.byte (name : CString) (i : ℕ) : UInt8 := name.chars.getD i 0

/-- The C string that starts at the front of a byte array. -/
def CString.ofBytes (bytes : List UInt8) : CString :=
  ⟨bytes.takeWhile (· ≠ 0), by
    intro h
    have hall := List.all_eq_true.mp (List.all_takeWhile (p := (· ≠ 0)) (l := bytes)) 0 h
    simp at hall⟩

/-- The loop `while (name[i] && i < 31) { dst[i] = name[i]; i++; } dst[i] = 0;`
leaves the bytes after the terminator as they were. -/
def copyName (dst : Vector UInt8 32) (name : CString) : Vector UInt8 32 :=
  Vector.ofFn fun i : Fin 32 =>
    if i < min 31 name.chars.length then name.byte i
    else if i = min 31 name.chars.length then 0
    else dst[i]

/-- The comparison loop of hexafs_abstraction_find: at most 32 bytes, ending at
the terminator of the name that is looked for. -/
def nameMatches (entry : Vector UInt8 32) (name : CString) : Bool :=
  (List.finRange 32).all fun j => j > name.chars.length || entry[j] == name.byte j

end HexaOS.Hexafs
