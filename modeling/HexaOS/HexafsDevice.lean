import Mathlib.Logic.Function.Basic
import HexaOS.DevicePrograms
import HexaOS.HexafsFormat

/-!
# The ATA disk and the sixteen-slot block cache

The upper code reads and writes blocks, clears the cache and calls kmalloc. The
device below answers: block_cache in front of the ATA disk. Which transfers and
which heap allocations fail is a fixed environment, so a run is a function of
the environment and the state it starts from. The disk also keeps the list of
the writes that reached it, in program order.
-/

namespace HexaOS.Hexafs

open DevicePrograms

/-- How one call of ata_write_sector ends. -/
inductive WriteOutcome where
  /-- The sector is written and the call returns 1. -/
  | written
  /-- The drive never asks for the data: nothing is written, the call returns 0. -/
  | refused
  /-- The data is transferred but the drive stays busy: the call returns 0. -/
  | unconfirmed
  deriving DecidableEq, Repr

/-- Does the sector reach the disk? -/
def WriteOutcome.reaches : WriteOutcome → Bool
  | .written => true
  | .refused => false
  | .unconfirmed => true

/-- The value ata_write_sector returns. -/
def WriteOutcome.returns : WriteOutcome → Bool
  | .written => true
  | .refused => false
  | .unconfirmed => false

/-- What the hardware and the kernel heap do, by call number. -/
structure Environment where
  /-- Does the n-th ata_read_sector succeed? -/
  readOk : ℕ → Bool
  /-- How does the n-th ata_write_sector end? -/
  writeOutcome : ℕ → WriteOutcome
  /-- Does the n-th kmalloc return a block? -/
  kmallocOk : ℕ → Bool
  /-- The bytes that the n-th block holds before it is written. -/
  heapByte : ℕ → ℕ → UInt8

/-- The ATA disk behind the driver. -/
structure AtaDisk where
  /-- The sectors of the medium. -/
  sectors : UInt32 → Sector
  /-- The writes that reached the medium, oldest first. -/
  log : List (UInt32 × Sector)
  /-- Calls of ata_read_sector so far. -/
  readCount : ℕ
  /-- Calls of ata_write_sector so far. -/
  writeCount : ℕ

/-- The driver puts 28 bits of the address into the task file. -/
def ataAddress (lba : UInt32) : UInt32 := lba &&& 0x0FFFFFFF

/-- ata_read_sector -/
def ataReadSector (env : Environment) (lba : UInt32) (disk : AtaDisk) : Option Sector × AtaDisk :=
  let result := if env.readOk disk.readCount then some (disk.sectors (ataAddress lba)) else none
  (result, { disk with readCount := disk.readCount + 1 })

/-- ata_write_sector -/
def ataWriteSector (env : Environment) (lba : UInt32) (buf : Sector) (disk : AtaDisk) :
    Bool × AtaDisk :=
  let outcome := env.writeOutcome disk.writeCount
  let disk := { disk with writeCount := disk.writeCount + 1 }
  if outcome.reaches then
    (outcome.returns, { disk with
      sectors := Function.update disk.sectors (ataAddress lba) buf
      log := disk.log ++ [(ataAddress lba, buf)] })
  else (outcome.returns, disk)

/-- hexafs_cache_slot_t. A slot with lba 0 is empty. -/
structure CacheSlot where
  /-- The sector that is held. -/
  lba : UInt32
  /-- Must it be written? -/
  dirty : Bool
  /-- Its bytes. -/
  data : Sector
  deriving DecidableEq

/-- HEXAFS_CACHE_SLOTS slots, as memset leaves them. -/
def emptyCache : List CacheSlot := List.replicate 16 ⟨0, false, zeroSector⟩

/-- The device state: disk, block_cache and the number of kmalloc calls. -/
structure Device where
  /-- The drive. -/
  disk : AtaDisk
  /-- The slots of the cache. -/
  blockCache : List CacheSlot
  /-- The calls of kmalloc so far. -/
  kmallocCount : ℕ

/-- cache_find: the index of the first slot that holds the block. -/
def cacheFind (lba : UInt32) (cache : List CacheSlot) : Option ℕ :=
  cache.findIdx? (·.lba == lba)

/-- cache_evict: the first empty slot, else slot 0, dirty or not. -/
def cacheEvict (cache : List CacheSlot) : ℕ := (cache.findIdx? (·.lba == 0)).getD 0

/-- cache_read -/
def cacheRead (env : Environment) (lba : UInt32) (dev : Device) : Option Sector × Device :=
  match cacheFind lba dev.blockCache with
  | some idx => (dev.blockCache[idx]?.map (·.data), dev)
  | none =>
    match ataReadSector env lba dev.disk with
    | (none, disk) => (none, { dev with disk := disk })
    | (some tmp, disk) =>
      (some tmp, { dev with
        disk := disk
        blockCache := dev.blockCache.set (cacheEvict dev.blockCache) ⟨lba, false, tmp⟩ })

/-- cache_write: the slot is filled and marked dirty, and the sector is written
through. Nothing clears the mark when the write succeeds. -/
def cacheWrite (env : Environment) (lba : UInt32) (buf : Sector) (dev : Device) : Bool × Device :=
  let idx := (cacheFind lba dev.blockCache).getD (cacheEvict dev.blockCache)
  let result := ataWriteSector env lba buf dev.disk
  (result.1, { dev with
    disk := result.2
    blockCache := dev.blockCache.set idx ⟨lba, true, buf⟩ })

/-- What the store code asks of the layer below. -/
inductive BlockOp where
  /-- hexafs_block_read -/
  | read (lba : UInt32)
  /-- hexafs_block_write -/
  | write (lba : UInt32) (buf : Sector)
  /-- memset(block_cache, 0, sizeof(block_cache)) -/
  | clearCache
  /-- kmalloc -/
  | kmalloc (size : ℕ)

/-- The type of each reply; a failed read or allocation replies none. -/
@[reducible] def BlockReply : BlockOp → Type
  | .read _ => Option Sector
  | .write _ _ => Bool
  | .clearCache => Unit
  | .kmalloc _ => Option (List UInt8)

/-- The n-th heap block, with the bytes it holds at first. -/
def Environment.heapBlock (env : Environment) (n size : ℕ) : Option (List UInt8) :=
  if env.kmallocOk n then some ((List.range size).map (env.heapByte n)) else none

/-- The device that the kernel runs on. -/
def cachedDevice (env : Environment) : Handler BlockOp BlockReply Device
  | .read lba, dev => .ok (cacheRead env lba dev)
  | .write lba buf, dev => .ok (cacheWrite env lba buf dev)
  | .clearCache, dev => .ok ((), { dev with blockCache := emptyCache })
  | .kmalloc size, dev =>
    .ok (env.heapBlock dev.kmallocCount size, { dev with kmallocCount := dev.kmallocCount + 1 })

end HexaOS.Hexafs
