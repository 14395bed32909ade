import HexaOS.HexafsTransactions

/-!
# The block cache in front of the disk

hexafs_block_read and hexafs_block_write go through sixteen slots. The first
part compares a sequence of accesses with the same sequence on the bare driver.
The second part follows the store up to a commit under arbitrary write failures:
a history beside the device records which blocks were accessed and what the last
write of each block did, and decides what the cache and the disk agree on.
-/

namespace HexaOS.Hexafs

open DevicePrograms

/-! ## Lookup -/

section Lookup

variable {env : Environment} {dev : Device} {lba : UInt32}

/-- A block in the cache is read from its slot. -/
theorem cacheRead_found (env : Environment) {idx : ℕ}
    (hfind : cacheFind lba dev.blockCache = some idx) :
    ∃ slot ∈ dev.blockCache, slot.lba = lba ∧ cacheRead env lba dev = (some slot.data, dev) := by
  have ⟨slot, hslot, hlba⟩ := cacheFind_some hfind
  refine ⟨slot, List.mem_of_getElem? hslot, hlba, ?_⟩
  simp only [cacheRead, hfind, hslot, Option.map_some]

/-- A block outside the cache is read from the disk into the evicted slot. -/
theorem cacheRead_missed (hfind : cacheFind lba dev.blockCache = none)
    (hread : env.readOk dev.disk.readCount = true) :
    cacheRead env lba dev = (some (dev.disk.sectors (ataAddress lba)),
      { dev with
        disk := { dev.disk with readCount := dev.disk.readCount + 1 }
        blockCache := dev.blockCache.set (cacheEvict dev.blockCache)
          ⟨lba, false, dev.disk.sectors (ataAddress lba)⟩ }) := by
  simp only [cacheRead, hfind, ataReadSector, hread, if_true]

/-- A failed transfer leaves the cache as it was. -/
theorem cacheRead_failed (hfind : cacheFind lba dev.blockCache = none)
    (hread : env.readOk dev.disk.readCount = false) :
    cacheRead env lba dev =
      (none, { dev with disk := { dev.disk with readCount := dev.disk.readCount + 1 } }) := by
  simp only [cacheRead, hfind, ataReadSector, hread, Bool.false_eq_true, if_false]

/-- A sector write changes the sector at the driver's address, if it reaches the disk. -/
theorem ataWriteSector_sectors (env : Environment) (lba : UInt32) (buf : Sector) (disk : AtaDisk) :
    (ataWriteSector env lba buf disk).2.sectors =
      if (env.writeOutcome disk.writeCount).reaches then
        Function.update disk.sectors (ataAddress lba) buf
      else disk.sectors := by
  cases hreaches : (env.writeOutcome disk.writeCount).reaches with
  | true => simp only [ataWriteSector, hreaches, if_true]
  | false => simp only [ataWriteSector, hreaches, Bool.false_eq_true, if_false]

end Lookup

/-! ## Sequences of accesses -/

/-- A call of hexafs_block_read or hexafs_block_write. -/
inductive BlockAccess where
  | read (lba : UInt32)
  | write (lba : UInt32) (buf : Sector)

/-- The block of an access. -/
def BlockAccess.lba : BlockAccess → UInt32
  | .read lba => lba
  | .write lba _ => lba

/-- What an access returns. -/
inductive AccessResult where
  /-- The bytes read, none if the transfer failed. -/
  | bytes (buf : Option Sector)
  /-- The result of a write. -/
  | stored (ok : Bool)
  deriving DecidableEq

/-- An access through the cache. -/
def BlockAccess.cached (env : Environment) (dev : Device) : BlockAccess → AccessResult × Device
  | .read lba => (.bytes (cacheRead env lba dev).1, (cacheRead env lba dev).2)
  | .write lba buf => (.stored (cacheWrite env lba buf dev).1, (cacheWrite env lba buf dev).2)

/-- The same access on a disk without a cache. -/
def BlockAccess.uncached (env : Environment) (disk : AtaDisk) : BlockAccess → AccessResult × AtaDisk
  | .read lba => (.bytes (ataReadSector env lba disk).1, (ataReadSector env lba disk).2)
  | .write lba buf =>
    (.stored (ataWriteSector env lba buf disk).1, (ataWriteSector env lba buf disk).2)

/-- The result of every access of a sequence and the device behind it. -/
def cachedTrace (env : Environment) : Device → List BlockAccess → List (AccessResult × Device)
  | _, [] => []
  | dev, access :: rest =>
    access.cached env dev :: cachedTrace env (access.cached env dev).2 rest

/-- The result of every access of a sequence and the disk behind it. -/
def uncachedTrace (env : Environment) : AtaDisk → List BlockAccess → List (AccessResult × AtaDisk)
  | _, [] => []
  | disk, access :: rest =>
    access.uncached env disk :: uncachedTrace env (access.uncached env disk).2 rest

/-- No two slots hold the same block. Block 0 marks an empty slot. -/
def EachBlockOnce (cache : List CacheSlot) : Prop :=
  ∀ (i j : ℕ) (a b : CacheSlot), cache[i]? = some a → cache[j]? = some b →
    a.lba = b.lba → a.lba ≠ 0 → i = j

/-- The driver tells the blocks of a list apart. -/
def ToldApart (blocks : List UInt32) : Prop :=
  ∀ a ∈ blocks, ∀ b ∈ blocks, ataAddress a = ataAddress b → a = b

/-- The driver tells the blocks of a list apart, as a test. -/
def toldApart (blocks : List UInt32) : Bool :=
  blocks.all fun a => blocks.all fun b => ataAddress a != ataAddress b || a == b

theorem toldApart_iff (blocks : List UInt32) : toldApart blocks = true ↔ ToldApart blocks := by
  simp only [toldApart, ToldApart, List.all_eq_true, Bool.or_eq_true, bne_iff_ne, beq_iff_eq,
    ne_eq, ← imp_iff_not_or]

/-- Every slot holds one of the blocks, with the bytes of its sector. -/
def CacheExact (blocks : List UInt32) (sectors : UInt32 → Sector) (cache : List CacheSlot) : Prop :=
  SlotsHold (· ≠ 0) (fun lba data => lba ∈ blocks ∧ data = sectors (ataAddress lba)) cache

section Exact

variable {env : Environment} {blocks : List UInt32} {dev : Device} {disk : AtaDisk}

/-- A read returns the bytes of the sector and keeps the cache exact. -/
theorem CacheExact.read (h : CacheExact blocks dev.disk.sectors dev.blockCache)
    (hreads : ∀ n, env.readOk n = true) {lba : UInt32} (hlba : lba ≠ 0) (hblock : lba ∈ blocks) :
    (cacheRead env lba dev).1 = some (dev.disk.sectors (ataAddress lba)) ∧
      (cacheRead env lba dev).2.disk.sectors = dev.disk.sectors ∧
        CacheExact blocks dev.disk.sectors (cacheRead env lba dev).2.blockCache := by
  cases hfind : cacheFind lba dev.blockCache with
  | some idx =>
    have ⟨slot, hslot, hslotLba, hread⟩ := cacheRead_found env hfind
    have hdata := (h.holds slot hslot (by rw [hslotLba]; exact hlba)).2
    rw [hslotLba] at hdata
    rw [hread, hdata]
    exact ⟨rfl, rfl, h⟩
  | none =>
    rw [cacheRead_missed hfind (hreads _)]
    refine ⟨rfl, rfl, h.set ?_ ⟨hblock, rfl⟩ fun _ _ _ hheld => hheld⟩
    intro j slot hslot hslotLba
    exact absurd hslotLba (cacheFind_none hfind slot (List.mem_of_getElem? hslot))

/-- A write that succeeds keeps the cache exact for the new sectors. -/
theorem CacheExact.write (h : CacheExact blocks dev.disk.sectors dev.blockCache)
    (hwrites : ∀ n, env.writeOutcome n = .written) (hapart : ToldApart blocks) {lba : UInt32}
    (hlba : lba ≠ 0) (hblock : lba ∈ blocks) (buf : Sector) :
    (cacheWrite env lba buf dev).2.disk.sectors =
        Function.update dev.disk.sectors (ataAddress lba) buf ∧
      CacheExact blocks (Function.update dev.disk.sectors (ataAddress lba) buf)
        (cacheWrite env lba buf dev).2.blockCache := by
  constructor
  · have hsectors := ataWriteSector_sectors env lba buf dev.disk
    rw [hwrites] at hsectors
    exact hsectors
  · refine SlotsHold.set h (fun j slot hslot hslotLba => h.only hlba hslot hslotLba) ?_ ?_
    · refine ⟨hblock, ?_⟩
      show buf = Function.update dev.disk.sectors (ataAddress lba) buf (ataAddress lba)
      rw [Function.update_self]
    · intro other data hne hheld
      have haddr : ataAddress other ≠ ataAddress lba :=
        fun heq => hne (hapart other hheld.1 lba hblock heq)
      rw [Function.update_of_ne haddr]
      exact hheld

/-- One access returns through the cache what it returns without it, and leaves the same
sectors. -/
theorem CacheExact.access (h : CacheExact blocks dev.disk.sectors dev.blockCache)
    (hreads : ∀ n, env.readOk n = true) (hwrites : ∀ n, env.writeOutcome n = .written)
    (hapart : ToldApart blocks) (hsectors : dev.disk.sectors = disk.sectors) {access : BlockAccess}
    (hlba : access.lba ≠ 0) (hblock : access.lba ∈ blocks) :
    (access.cached env dev).1 = (access.uncached env disk).1 ∧
      (access.cached env dev).2.disk.sectors = (access.uncached env disk).2.sectors ∧
        CacheExact blocks (access.cached env dev).2.disk.sectors
          (access.cached env dev).2.blockCache := by
  cases access with
  | read lba =>
    have hlba : lba ≠ 0 := hlba
    have hblock : lba ∈ blocks := hblock
    obtain ⟨hvalue, hkept, hexact⟩ := h.read hreads hlba hblock
    have hdirect : (ataReadSector env lba disk).1 = some (disk.sectors (ataAddress lba)) := by
      simp only [ataReadSector, hreads, if_true]
    refine ⟨?_, ?_, ?_⟩
    · show AccessResult.bytes _ = AccessResult.bytes _
      rw [hvalue, hdirect, hsectors]
    · exact hkept.trans hsectors
    · show CacheExact blocks (cacheRead env lba dev).2.disk.sectors _
      rw [hkept]
      exact hexact
  | write lba buf =>
    have hlba : lba ≠ 0 := hlba
    have hblock : lba ∈ blocks := hblock
    obtain ⟨hstored, hexact⟩ := h.write hwrites hapart hlba hblock buf
    have hdirect := ataWriteSector_sectors env lba buf disk
    rw [hwrites] at hdirect
    have hreply : ∀ d : AtaDisk, (ataWriteSector env lba buf d).1 = true := by
      intro d
      simp only [ataWriteSector, hwrites, WriteOutcome.reaches, WriteOutcome.returns, if_true]
    refine ⟨?_, ?_, ?_⟩
    · show AccessResult.stored (ataWriteSector env lba buf dev.disk).1 = AccessResult.stored _
      rw [hreply, hreply]
    · show (cacheWrite env lba buf dev).2.disk.sectors = (ataWriteSector env lba buf disk).2.sectors
      rw [hstored, hdirect, hsectors]
      rfl
    · show CacheExact blocks (cacheWrite env lba buf dev).2.disk.sectors _
      rw [hstored]
      exact hexact

/-- A sequence of accesses returns the same with and without the cache, leaves the same
sectors after every access and keeps the cache exact. -/
theorem CacheExact.trace (hreads : ∀ n, env.readOk n = true)
    (hwrites : ∀ n, env.writeOutcome n = .written) (hapart : ToldApart blocks) :
    ∀ (accesses : List BlockAccess) (dev : Device) (disk : AtaDisk),
      (∀ access ∈ accesses, access.lba ≠ 0 ∧ access.lba ∈ blocks) →
      CacheExact blocks dev.disk.sectors dev.blockCache → dev.disk.sectors = disk.sectors →
      (cachedTrace env dev accesses).map (fun step => (step.1, step.2.disk.sectors)) =
          (uncachedTrace env disk accesses).map (fun step => (step.1, step.2.sectors)) ∧
        ∀ step ∈ cachedTrace env dev accesses,
          CacheExact blocks step.2.disk.sectors step.2.blockCache := by
  intro accesses
  induction accesses with
  | nil =>
    intro dev disk _ _ _
    exact ⟨rfl, fun step hstep => absurd hstep List.not_mem_nil⟩
  | cons access rest ih =>
    intro dev disk hblocks hexact hsectors
    have ⟨hlba, hblock⟩ := hblocks access List.mem_cons_self
    have ⟨hvalue, hsame, hkept⟩ := hexact.access hreads hwrites hapart hsectors hlba hblock
    have ⟨hrest, hslots⟩ := ih _ _
      (fun other hother => hblocks other (List.mem_cons_of_mem _ hother)) hkept hsame
    refine ⟨?_, ?_⟩
    · simp only [cachedTrace, uncachedTrace, List.map_cons]
      rw [hrest, hvalue, hsame]
    · intro step hstep
      rcases List.mem_cons.mp hstep with hfirst | hlater
      · rw [hfirst]
        exact hkept
      · exact hslots step hlater

/-- On blocks that the driver tells apart, any sequence of accesses from the empty cache
reads what a disk without a cache reads, leaves the same sectors after every access, and
never holds a block in two slots. -/
theorem cachedTrace_eq_uncached (hreads : ∀ n, env.readOk n = true)
    (hwrites : ∀ n, env.writeOutcome n = .written) (disk : AtaDisk) (kmallocCount : ℕ)
    (accesses : List BlockAccess) (hnonzero : ∀ access ∈ accesses, access.lba ≠ 0)
    (hapart : ToldApart (accesses.map (·.lba))) :
    (cachedTrace env ⟨disk, emptyCache, kmallocCount⟩ accesses).map
          (fun step => (step.1, step.2.disk.sectors)) =
        (uncachedTrace env disk accesses).map (fun step => (step.1, step.2.sectors)) ∧
      ∀ step ∈ cachedTrace env ⟨disk, emptyCache, kmallocCount⟩ accesses,
        EachBlockOnce step.2.blockCache := by
  have hblocks : ∀ access ∈ accesses, access.lba ≠ 0 ∧ access.lba ∈ accesses.map (·.lba) :=
    fun access haccess => ⟨hnonzero access haccess, List.mem_map_of_mem haccess⟩
  have hempty : CacheExact (accesses.map (·.lba)) disk.sectors emptyCache :=
    SlotsHold.empty fun hzero => hzero rfl
  have ⟨htrace, hslots⟩ := CacheExact.trace hreads hwrites hapart accesses
    ⟨disk, emptyCache, kmallocCount⟩ disk hblocks hempty rfl
  exact ⟨htrace, fun step hstep => (hslots step hstep).unique⟩

end Exact

/-- A sector of set bits. -/
def onesSector : Sector := ⟨List.replicate 512 255, List.length_replicate⟩

/-- Block 1, then a block that the driver takes for block 1, then block 1 again. -/
def sharedAddress : List BlockAccess :=
  [.write 1 zeroSector, .write 0x10000001 onesSector, .read 1]

/-- The cache keeps two slots for blocks of one address, and the read returns the bytes that
the disk no longer holds. -/
theorem cachedTrace_sharedAddress :
    (∀ access ∈ sharedAddress, access.lba ≠ 0) ∧
      (cachedTrace .faultless (Machine.boot blankDisk).dev sharedAddress).map (·.1) =
        [.stored true, .stored true, .bytes (some zeroSector)] ∧
      (uncachedTrace .faultless (Machine.boot blankDisk).dev.disk sharedAddress).map (·.1) =
        [.stored true, .stored true, .bytes (some onesSector)] ∧
      ¬(cachedTrace .faultless (Machine.boot blankDisk).dev sharedAddress).map
            (fun step => (step.1, step.2.disk.sectors)) =
          (uncachedTrace .faultless (Machine.boot blankDisk).dev.disk sharedAddress).map
            (fun step => (step.1, step.2.sectors)) := by
  have hcached : (cachedTrace .faultless (Machine.boot blankDisk).dev sharedAddress).map (·.1) =
      [.stored true, .stored true, .bytes (some zeroSector)] := by
    decide +kernel
  have huncached : (uncachedTrace .faultless (Machine.boot blankDisk).dev.disk sharedAddress).map
      (·.1) = [.stored true, .stored true, .bytes (some onesSector)] := by
    decide +kernel
  refine ⟨by decide +kernel, hcached, huncached, fun htrace => ?_⟩
  have hfirst := congrArg (List.map Prod.fst) htrace
  simp only [List.map_map, Function.comp_def] at hfirst
  rw [hcached, huncached] at hfirst
  exact absurd hfirst (by decide +kernel)

/-- Two blocks of different addresses. -/
def twoBlocks : List BlockAccess := [.write 1 zeroSector, .write 2 onesSector, .read 1]

theorem cachedTrace_eq_uncached_twoBlocks :
    (cachedTrace .faultless ⟨(Machine.boot blankDisk).dev.disk, emptyCache, 0⟩ twoBlocks).map
          (fun step => (step.1, step.2.disk.sectors)) =
        (uncachedTrace .faultless (Machine.boot blankDisk).dev.disk twoBlocks).map
          (fun step => (step.1, step.2.sectors)) ∧
      ∀ step ∈ cachedTrace .faultless ⟨(Machine.boot blankDisk).dev.disk, emptyCache, 0⟩ twoBlocks,
        EachBlockOnce step.2.blockCache := by
  have hnonzero : ∀ access ∈ twoBlocks, access.lba ≠ 0 := by
    decide +kernel
  have hapart : ToldApart (twoBlocks.map (·.lba)) := (toldApart_iff _).mp (by decide +kernel)
  exact cachedTrace_eq_uncached (fun _ => rfl) (fun _ => rfl) (Machine.boot blankDisk).dev.disk 0
    twoBlocks hnonzero hapart

/-! ## Histories -/

/-- What the last hexafs_block_write of a block did. -/
structure LastWrite where
  /-- The bytes it was given. -/
  buf : Sector
  /-- Did they reach the disk? -/
  reached : Bool
  /-- The bytes of the sector before the write. -/
  held : Sector

/-- The accesses of a run. -/
structure CacheHistory where
  /-- The blocks that were read into the cache or written. -/
  accessed : List UInt32
  /-- The different blocks accessed since the cache was cleared. -/
  recent : List UInt32
  /-- The last write of each block. -/
  last : UInt32 → Option LastWrite

/-- No access yet. -/
def CacheHistory.empty : CacheHistory := ⟨[], [], fun _ => none⟩

/-- The history behind an access. -/
def CacheHistory.access (history : CacheHistory) (lba : UInt32) : CacheHistory :=
  { history with
    accessed := lba :: history.accessed
    recent := if lba ∈ history.recent then history.recent else history.recent ++ [lba] }

/-- The history behind a read: a failed transfer brings nothing into the cache. -/
def CacheHistory.read (history : CacheHistory) (lba : UInt32) (reply : Option Sector) :
    CacheHistory :=
  if reply.isSome then history.access lba else history

/-- The history behind a write. -/
def CacheHistory.write (history : CacheHistory) (lba : UInt32) (write : LastWrite) :
    CacheHistory :=
  { history.access lba with last := Function.update history.last lba (some write) }

/-- What the next write of a block does. -/
def Device.nextWrite (env : Environment) (dev : Device) (lba : UInt32) (buf : Sector) : LastWrite :=
  ⟨buf, (env.writeOutcome dev.disk.writeCount).reaches, dev.disk.sectors (ataAddress lba)⟩

/-- The device that the kernel runs on, with a history beside it. -/
def recordedDevice (env : Environment) : Handler BlockOp BlockReply (Device × CacheHistory)
  | .read lba, (dev, history) =>
    .ok ((cacheRead env lba dev).1,
      ((cacheRead env lba dev).2, history.read lba (cacheRead env lba dev).1))
  | .write lba buf, (dev, history) =>
    .ok ((cacheWrite env lba buf dev).1,
      ((cacheWrite env lba buf dev).2, history.write lba (dev.nextWrite env lba buf)))
  | .clearCache, (dev, history) =>
    .ok ((), ({ dev with blockCache := emptyCache }, { history with recent := [] }))
  | .kmalloc size, (dev, history) =>
    .ok (env.heapBlock dev.kmallocCount size,
      ({ dev with kmallocCount := dev.kmallocCount + 1 }, history))

/-- The recorded device answers as the device itself. -/
theorem recordedDevice_erases (env : Environment) (op : BlockOp) (dev : Device)
    (history : CacheHistory) : ∃ reply after, cachedDevice env op dev = .ok (reply, after) ∧
      ∃ history', recordedDevice env op (dev, history) = .ok (reply, (after, history')) := by
  cases op with
  | read lba => exact ⟨_, _, rfl, _, rfl⟩
  | write lba buf => exact ⟨_, _, rfl, _, rfl⟩
  | clearCache => exact ⟨_, _, rfl, _, rfl⟩
  | kmalloc size => exact ⟨_, _, rfl, _, rfl⟩

/-- Every run of the machine has a history. -/
theorem Machine.run_recorded {env : Environment} {α : Type} {code : HexafsM α}
    {machine after : Machine} {value : α} (hrun : machine.run env code = .ok (value, after))
    (history : CacheHistory) : ∃ history',
      code.exec (recordedDevice env) machine.mem (machine.dev, history) =
        .ok ((value, after.mem), (after.dev, history')) := by
  have hstep : ∀ op (recorded : Device × CacheHistory) dev reply dev', recorded.1 = dev →
      cachedDevice env op dev = .ok (reply, dev') →
      ∃ recorded', recordedDevice env op recorded = .ok (reply, recorded') ∧
        recorded'.1 = dev' := by
    intro op recorded dev reply dev' hdev hop
    have ⟨reply', after', hcached, history', hrecorded⟩ :=
      recordedDevice_erases env op recorded.1 recorded.2
    rw [hdev, hop] at hcached
    have hpair := Except.ok.inj hcached
    simp only [Prod.mk.injEq] at hpair
    rw [← hpair.1, ← hpair.2] at hrecorded
    exact ⟨(dev', history'), hrecorded, rfl⟩
  unfold Machine.run at hrun
  cases hexec : code.exec (cachedDevice env) machine.mem machine.dev with
  | error stop => rw [hexec] at hrun; cases hrun
  | ok result =>
    obtain ⟨⟨value', mem⟩, dev⟩ := result
    rw [hexec] at hrun
    have hend : (value', (⟨mem, dev⟩ : Machine)) = (value, after) := Except.ok.inj hrun
    simp only [Prod.mk.injEq] at hend
    have ⟨recorded, hrecorded, hdev⟩ := Program.run_simulates hstep (code machine.mem)
      (rfl : (machine.dev, history).1 = machine.dev) hexec
    refine ⟨recorded.2, ?_⟩
    rw [← hend.1, ← hend.2]
    show (code machine.mem).run (recordedDevice env) (machine.dev, history) = _
    rw [hrecorded, ← hdev]

/-- Every block reads through the cache what it reads from the disk. -/
def Device.ReadsThrough (env : Environment) (dev : Device) : Prop :=
  ∀ lba, (cacheRead env lba dev).1 = (ataReadSector env lba dev.disk).1

/-- The sectors hold what was last written to their blocks. -/
def CacheHistory.Landed (history : CacheHistory) (sectors : UInt32 → Sector) : Prop :=
  ∀ lba write, history.last lba = some write → sectors (ataAddress lba) = write.buf

/-- The last write of every block reached the disk, or wrote what the sector held. -/
def CacheHistory.Arrived (history : CacheHistory) : Prop :=
  ∀ lba write, history.last lba = some write → write.reached = true ∨ write.buf = write.held

/-- Block 0 is not accessed, and the driver tells it and the accessed blocks apart. -/
def CacheHistory.Addressed (history : CacheHistory) : Prop :=
  0 ∉ history.accessed ∧ ToldApart (0 :: history.accessed)

/-- The slots are filled in turn until none is empty. -/
def FilledBy (recent : List UInt32) (cache : List CacheSlot) : Prop :=
  (16 ≤ recent.length ∧ ∀ slot ∈ cache, slot.lba ≠ 0) ∨
    (cache.map (·.lba) = recent ++ List.replicate (16 - recent.length) 0 ∧
      ∀ slot ∈ cache, slot.lba = 0 → slot.data = zeroSector)

/-- What a slot may hold: the bytes of the sector, or what was last written to the block. -/
def CacheHistory.Allows (history : CacheHistory) (sectors : UInt32 → Sector) (lba : UInt32)
    (data : Sector) : Prop :=
  lba ∈ history.accessed ∧ (data = sectors (ataAddress lba) ∨
    ∃ write, history.last lba = some write ∧ data = write.buf)

/-- The history explains the cache and the disk of a run that found `boot` in sector 0. -/
structure CacheHistory.Explains (history : CacheHistory) (boot : Sector) (dev : Device) :
    Prop where
  /-- A slot holds what a read may return. -/
  slots : SlotsHold (· ≠ 0) (history.Allows dev.disk.sectors) dev.blockCache
  /-- The slots are filled with what was accessed last. -/
  filled : FilledBy history.recent dev.blockCache
  /-- What was accessed last was accessed. -/
  recent_accessed : ∀ lba ∈ history.recent, lba ∈ history.accessed
  /-- What was written was accessed. -/
  last_accessed : ∀ lba write, history.last lba = some write → lba ∈ history.accessed
  /-- A sector is as its last write has left it. -/
  last_sector : ∀ lba write, history.last lba = some write →
    dev.disk.sectors (ataAddress lba) = if write.reached then write.buf else write.held
  /-- The boot sector stays. -/
  boot_sector : dev.disk.sectors 0 = boot

section Filling

variable {recent : List UInt32} {cache : List CacheSlot} {lba : UInt32}

/-- cache_find looks at the blocks of the slots only. -/
theorem cacheFind_eq_map (lba : UInt32) (cache : List CacheSlot) :
    cacheFind lba cache = (cache.map (·.lba)).findIdx? (· == lba) := by
  rw [cacheFind, List.findIdx?_map]
  rfl

/-- cache_evict looks for the marker of an empty slot. -/
theorem cacheEvict_eq_find (cache : List CacheSlot) :
    cacheEvict cache = (cacheFind 0 cache).getD 0 := rfl

/-- The empty cache is filled by nothing. -/
theorem FilledBy.empty : FilledBy [] emptyCache :=
  .inr ⟨rfl, fun _ hslot _ => by rw [List.eq_of_mem_replicate hslot]⟩

/-- A block that was found adds nothing, unless no slot is empty. -/
theorem FilledBy.found (h : FilledBy recent cache) (hlba : lba ≠ 0) {slot : CacheSlot}
    (hslot : slot ∈ cache) (hslotLba : slot.lba = lba) :
    FilledBy (if lba ∈ recent then recent else recent ++ [lba]) cache := by
  by_cases hmem : lba ∈ recent
  · rw [if_pos hmem]
    exact h
  · rw [if_neg hmem]
    rcases h with ⟨hfull, hslots⟩ | ⟨hmap, _⟩
    · have hlength : (recent ++ [lba]).length = recent.length + 1 := by simp
      exact .inl ⟨by omega, hslots⟩
    · have hin : lba ∈ recent ++ List.replicate (16 - recent.length) 0 := by
        rw [← hmap, ← hslotLba]
        exact List.mem_map_of_mem hslot
      rcases List.mem_append.mp hin with hrecent | hzero
      · exact absurd hrecent hmem
      · exact absurd (List.eq_of_mem_replicate hzero) hlba

/-- Behind the recent blocks stands the first empty slot. -/
theorem FilledBy.evict (hmap : cache.map (·.lba) = recent ++ List.replicate (16 - recent.length) 0)
    (hlength : recent.length < 16) (hzero : 0 ∉ recent) :
    cacheEvict cache = recent.length := by
  have hnone : recent.findIdx? (· == 0) = none := by
    rw [List.findIdx?_eq_none_iff]
    intro lba hlba
    simpa using fun heq : lba = 0 => hzero (heq ▸ hlba)
  have hcount : 0 < 16 - recent.length := by omega
  rw [cacheEvict_eq_find, cacheFind_eq_map, hmap, List.findIdx?_append, hnone,
    List.findIdx?_replicate]
  simp [hcount]

/-- A block of the cache that was filled in turn is recent, or marks an empty slot. -/
theorem FilledBy.recent_or_zero
    (hmap : cache.map (·.lba) = recent ++ List.replicate (16 - recent.length) 0)
    {slot : CacheSlot} (hslot : slot ∈ cache) : slot.lba ∈ recent ∨ slot.lba = 0 := by
  have hin : slot.lba ∈ recent ++ List.replicate (16 - recent.length) 0 := by
    rw [← hmap]
    exact List.mem_map_of_mem hslot
  exact (List.mem_append.mp hin).imp_right List.eq_of_mem_replicate

/-- A recent block takes the slot it has, so the blocks of the slots stay. -/
theorem FilledBy.map_rewrite
    (hmap : cache.map (·.lba) = recent ++ List.replicate (16 - recent.length) 0)
    (hmem : lba ∈ recent) (dirty : Bool) (data : Sector) :
    (cache.set ((cacheFind lba cache).getD (cacheEvict cache)) ⟨lba, dirty, data⟩).map (·.lba) =
      recent ++ List.replicate (16 - recent.length) 0 := by
  cases hfind : cacheFind lba cache with
  | none =>
    have hin : lba ∈ cache.map (·.lba) := by
      rw [hmap]
      exact List.mem_append_left _ hmem
    have ⟨slot, hslot, hslotLba⟩ := List.mem_map.mp hin
    exact absurd hslotLba (cacheFind_none hfind slot hslot)
  | some idx =>
    have ⟨slot, hslot, hslotLba⟩ := cacheFind_some hfind
    have hblock : (cache.map (·.lba))[idx]? = some lba := by
      rw [List.getElem?_map, hslot, ← hslotLba]
      rfl
    have ⟨hidx, hget⟩ := List.getElem?_eq_some_iff.mp hblock
    have hsame := List.set_getElem_self hidx
    rw [hget] at hsame
    rw [Option.getD_some, List.map_set, hsame, hmap]

/-- A new block takes the first empty slot. -/
theorem FilledBy.map_append
    (hmap : cache.map (·.lba) = recent ++ List.replicate (16 - recent.length) 0)
    (hroom : recent.length < 16) (hzero : 0 ∉ recent) (dirty : Bool) (data : Sector) :
    (cache.set (cacheEvict cache) ⟨lba, dirty, data⟩).map (·.lba) =
      (recent ++ [lba]) ++ List.replicate (16 - (recent ++ [lba]).length) 0 := by
  have hsplit : List.replicate (16 - recent.length) (0 : UInt32) =
      0 :: List.replicate (16 - (recent ++ [lba]).length) 0 := by
    have hcount : 16 - recent.length = 16 - (recent ++ [lba]).length + 1 := by
      simp only [List.length_append, List.length_cons, List.length_nil]
      omega
    rw [hcount, List.replicate_succ]
  rw [FilledBy.evict hmap hroom hzero, List.map_set, hmap, hsplit,
    List.set_append_right _ _ le_rfl, Nat.sub_self, List.set_cons_zero, List.append_assoc]
  rfl

/-- An access that takes a slot fills it with its block. -/
theorem FilledBy.take (h : FilledBy recent cache) (hlba : lba ≠ 0) (hzero : 0 ∉ recent)
    (dirty : Bool) (data : Sector) :
    FilledBy (if lba ∈ recent then recent else recent ++ [lba])
      (cache.set ((cacheFind lba cache).getD (cacheEvict cache)) ⟨lba, dirty, data⟩) := by
  have hoccupied : (∀ slot ∈ cache, slot.lba ≠ 0) → ∀ idx,
      ∀ slot ∈ cache.set idx ⟨lba, dirty, data⟩, slot.lba ≠ 0 := by
    intro hslots idx slot hslot
    rcases List.mem_or_eq_of_mem_set hslot with hold | hnew
    · exact hslots slot hold
    · rw [hnew]
      exact hlba
  rcases h with ⟨hfull, hslots⟩ | ⟨hmap, hdata⟩
  · refine .inl ⟨?_, hoccupied hslots _⟩
    split
    · exact hfull
    · simp only [List.length_append]
      omega
  · have hempties : ∀ idx, ∀ slot ∈ cache.set idx ⟨lba, dirty, data⟩, slot.lba = 0 →
        slot.data = zeroSector := by
      intro idx slot hslot hmarker
      rcases List.mem_or_eq_of_mem_set hslot with hold | hnew
      · exact hdata slot hold hmarker
      · rw [hnew] at hmarker
        exact absurd hmarker hlba
    by_cases hmem : lba ∈ recent
    · rw [if_pos hmem]
      exact .inr ⟨FilledBy.map_rewrite hmap hmem dirty data, hempties _⟩
    · rw [if_neg hmem]
      have hfind : cacheFind lba cache = none := by
        cases hfind : cacheFind lba cache with
        | none => rfl
        | some idx =>
          have ⟨slot, hslot, hslotLba⟩ := cacheFind_some hfind
          rcases FilledBy.recent_or_zero hmap (List.mem_of_getElem? hslot) with hrecent | hmarker
          · exact absurd (hslotLba ▸ hrecent) hmem
          · exact absurd (hslotLba.symm.trans hmarker) hlba
      rw [hfind, Option.getD_none]
      by_cases hroom : recent.length < 16
      · exact .inr ⟨FilledBy.map_append hmap hroom hzero dirty data, hempties _⟩
      · have hslots : ∀ slot ∈ cache, slot.lba ≠ 0 := by
          intro slot hslot hmarker
          have hin : slot.lba ∈ cache.map (·.lba) := List.mem_map_of_mem hslot
          have hnone : 16 - recent.length = 0 := by omega
          rw [hmap, hnone, List.replicate_zero, List.append_nil, hmarker] at hin
          exact hzero hin
        refine .inl ⟨?_, hoccupied hslots _⟩
        simp only [List.length_append]
        omega

end Filling

section Recorded

variable {env : Environment} {history : CacheHistory} {boot : Sector} {dev : Device}

/-- Earlier accesses are addressed if the later ones are. -/
theorem CacheHistory.Addressed.mono {later : CacheHistory}
    (hsubset : ∀ lba ∈ history.accessed, lba ∈ later.accessed) (h : later.Addressed) :
    history.Addressed := by
  have hcons : ∀ lba ∈ 0 :: history.accessed, lba ∈ 0 :: later.accessed := by
    intro lba hlba
    rcases List.mem_cons.mp hlba with hzero | hmem
    · exact hzero ▸ List.mem_cons_self
    · exact List.mem_cons_of_mem _ (hsubset lba hmem)
  exact ⟨fun hzero => h.1 (hsubset 0 hzero),
    fun a ha b hb => h.2 a (hcons a ha) b (hcons b hb)⟩

/-- An operation adds to the accessed blocks. -/
theorem recordedDevice_accessed {op : BlockOp} {before after : Device × CacheHistory}
    {reply : BlockReply op} (hop : recordedDevice env op before = .ok (reply, after)) :
    ∀ lba ∈ before.2.accessed, lba ∈ after.2.accessed := by
  intro lba hlba
  cases op with
  | read block =>
    cases hop
    show lba ∈ (before.2.read block _).accessed
    unfold CacheHistory.read
    split
    · exact List.mem_cons_of_mem _ hlba
    · exact hlba
  | write block buf =>
    cases hop
    exact List.mem_cons_of_mem _ hlba
  | clearCache =>
    cases hop
    exact hlba
  | kmalloc size =>
    cases hop
    exact hlba

/-- What a slot may hold stays allowed behind a further access. -/
theorem CacheHistory.Allows.access {sectors : UInt32 → Sector} {lba : UInt32} {data : Sector}
    (h : history.Allows sectors lba data) (block : UInt32) :
    (history.access block).Allows sectors lba data :=
  ⟨List.mem_cons_of_mem _ h.1, h.2⟩

/-- The recent blocks behind an access are accessed blocks. -/
theorem CacheHistory.access_recent (hrecent : ∀ lba ∈ history.recent, lba ∈ history.accessed)
    (block : UInt32) :
    ∀ lba ∈ (history.access block).recent, lba ∈ (history.access block).accessed := by
  intro lba hlba
  unfold CacheHistory.access at hlba
  dsimp only at hlba
  split at hlba
  · exact List.mem_cons_of_mem _ (hrecent lba hlba)
  · rcases List.mem_append.mp hlba with hold | hnew
    · exact List.mem_cons_of_mem _ (hrecent lba hold)
    · rw [List.mem_singleton.mp hnew]
      exact List.mem_cons_self

/-- A read keeps the explanation. -/
theorem CacheHistory.Explains.read (h : history.Explains boot dev) {lba : UInt32}
    (haddressed : (history.read lba (cacheRead env lba dev).1).Addressed) :
    (history.read lba (cacheRead env lba dev).1).Explains boot (cacheRead env lba dev).2 := by
  cases hfind : cacheFind lba dev.blockCache with
  | some idx =>
    have ⟨slot, hslot, hslotLba, hread⟩ := cacheRead_found env hfind
    rw [hread] at haddressed ⊢
    have hlba : lba ≠ 0 := fun hzero => haddressed.1 (hzero ▸ List.mem_cons_self)
    exact ⟨⟨h.slots.length_eq, h.slots.unique,
        fun other hother hne => (h.slots.holds other hother hne).access lba⟩,
      h.filled.found hlba hslot hslotLba, access_recent h.recent_accessed lba,
      fun other write hlast => List.mem_cons_of_mem _ (h.last_accessed other write hlast),
      h.last_sector, h.boot_sector⟩
  | none =>
    cases hok : env.readOk dev.disk.readCount with
    | false =>
      rw [cacheRead_failed hfind hok]
      exact ⟨h.slots, h.filled, h.recent_accessed, h.last_accessed, h.last_sector, h.boot_sector⟩
    | true =>
      rw [cacheRead_missed hfind hok] at haddressed ⊢
      have hlba : lba ≠ 0 := fun hzero => haddressed.1 (hzero ▸ List.mem_cons_self)
      have hzero : 0 ∉ history.recent := fun hmem =>
        haddressed.1 (List.mem_cons_of_mem _ (h.recent_accessed 0 hmem))
      have hfilled := h.filled.take hlba hzero false (dev.disk.sectors (ataAddress lba))
      rw [hfind] at hfilled
      refine ⟨h.slots.set ?_ ⟨List.mem_cons_self, .inl rfl⟩ ?_, hfilled,
        access_recent h.recent_accessed lba,
        fun other write hlast => List.mem_cons_of_mem _ (h.last_accessed other write hlast),
        h.last_sector, h.boot_sector⟩
      · intro j slot hslot hslotLba
        exact absurd hslotLba (cacheFind_none hfind slot (List.mem_of_getElem? hslot))
      · exact fun other data _ hheld => hheld.access lba

/-- The sectors behind a write, in the words of its record. -/
theorem cacheWrite_sectors (env : Environment) (lba : UInt32) (buf : Sector) (dev : Device) :
    (cacheWrite env lba buf dev).2.disk.sectors =
      Function.update dev.disk.sectors (ataAddress lba)
        (if (dev.nextWrite env lba buf).reached then buf
          else (dev.nextWrite env lba buf).held) := by
  have hsectors := ataWriteSector_sectors env lba buf dev.disk
  have hwrite : (cacheWrite env lba buf dev).2.disk.sectors =
      (ataWriteSector env lba buf dev.disk).2.sectors := rfl
  rw [hwrite, hsectors]
  unfold Device.nextWrite
  dsimp only
  split
  · rfl
  · rw [Function.update_eq_self]

/-- A write keeps the explanation. -/
theorem CacheHistory.Explains.write (h : history.Explains boot dev) (lba : UInt32) (buf : Sector)
    (haddressed : (history.write lba (dev.nextWrite env lba buf)).Addressed) :
    (history.write lba (dev.nextWrite env lba buf)).Explains boot
      (cacheWrite env lba buf dev).2 := by
  have hsectors := cacheWrite_sectors env lba buf dev
  have ⟨hblockZero, hapart⟩ := haddressed
  have hlba : lba ≠ 0 := fun hzero => hblockZero (hzero ▸ List.mem_cons_self)
  have hmem : lba ∈ 0 :: (history.write lba (dev.nextWrite env lba buf)).accessed :=
    List.mem_cons_of_mem _ List.mem_cons_self
  have hother : ∀ other ∈ history.accessed, other ≠ lba → ataAddress other ≠ ataAddress lba :=
    fun other hknown hne heq => hne (hapart other
      (List.mem_cons_of_mem _ (List.mem_cons_of_mem _ hknown)) lba hmem heq)
  have hboot : (0 : UInt32) ≠ ataAddress lba :=
    fun heq => hlba (hapart 0 List.mem_cons_self lba hmem heq).symm
  have hzero : 0 ∉ history.recent := fun hin =>
    hblockZero (List.mem_cons_of_mem _ (h.recent_accessed 0 hin))
  refine ⟨?_, h.filled.take hlba hzero true buf, access_recent h.recent_accessed lba, ?_, ?_, ?_⟩
  · refine h.slots.set (fun j slot hslot hslotLba => h.slots.only hlba hslot hslotLba) ?_ ?_
    · exact ⟨List.mem_cons_self, .inr ⟨_, Function.update_self _ _ _, rfl⟩⟩
    · intro other data hne hheld
      refine ⟨List.mem_cons_of_mem _ hheld.1, ?_⟩
      have hkept : (cacheWrite env lba buf dev).2.disk.sectors (ataAddress other) =
          dev.disk.sectors (ataAddress other) := by
        rw [hsectors, Function.update_of_ne (hother other hheld.1 hne)]
      have hlast : (history.write lba (dev.nextWrite env lba buf)).last other =
          history.last other := Function.update_of_ne hne _ _
      rw [hkept, hlast]
      exact hheld.2
  · intro other write hlast
    by_cases hne : other = lba
    · rw [hne]
      exact List.mem_cons_self
    · rw [show (history.write lba (dev.nextWrite env lba buf)).last other = history.last other from
        Function.update_of_ne hne _ _] at hlast
      exact List.mem_cons_of_mem _ (h.last_accessed other write hlast)
  · intro other write hlast
    by_cases hne : other = lba
    · rw [hne, show (history.write lba (dev.nextWrite env lba buf)).last lba =
        some (dev.nextWrite env lba buf) from Function.update_self _ _ _] at hlast
      rw [hne, hsectors, Function.update_self, ← Option.some.inj hlast]
      rfl
    · rw [show (history.write lba (dev.nextWrite env lba buf)).last other = history.last other from
        Function.update_of_ne hne _ _] at hlast
      have hknown := h.last_accessed other write hlast
      rw [hsectors, Function.update_of_ne (hother other hknown hne)]
      exact h.last_sector other write hlast
  · rw [hsectors, Function.update_of_ne hboot]
    exact h.boot_sector

/-- Every operation keeps the explanation, as long as the accessed blocks are addressed. -/
theorem CacheHistory.Explains.step {op : BlockOp} {before after : Device × CacheHistory}
    {reply : BlockReply op} (hop : recordedDevice env op before = .ok (reply, after))
    (h : before.2.Addressed → before.2.Explains boot before.1) (haddressed : after.2.Addressed) :
    after.2.Explains boot after.1 := by
  have h := h (haddressed.mono (recordedDevice_accessed hop))
  cases op with
  | read lba =>
    cases hop
    exact h.read haddressed
  | write lba buf =>
    cases hop
    exact h.write lba buf haddressed
  | clearCache =>
    cases hop
    exact ⟨SlotsHold.empty fun hzero => hzero rfl, FilledBy.empty,
      fun _ hlba => absurd hlba List.not_mem_nil, h.last_accessed, h.last_sector, h.boot_sector⟩
  | kmalloc size =>
    cases hop
    exact ⟨h.slots, h.filled, h.recent_accessed, h.last_accessed, h.last_sector, h.boot_sector⟩

/-- A run from the empty cache is explained by its history. -/
theorem CacheHistory.Explains.run {α : Type} {code : HexafsM α} {mem mem' : Memory}
    {disk : AtaDisk} {kmallocCount : ℕ} {value : α}
    (hrun : code.exec (recordedDevice env) mem
        (⟨disk, emptyCache, kmallocCount⟩, CacheHistory.empty) =
      .ok ((value, mem'), (dev, history)))
    (haddressed : history.Addressed) : history.Explains (disk.sectors 0) dev := by
  have hstart : CacheHistory.empty.Explains (disk.sectors 0)
      (⟨disk, emptyCache, kmallocCount⟩ : Device) :=
    ⟨SlotsHold.empty fun hzero => hzero rfl, FilledBy.empty,
      fun _ hlba => absurd hlba List.not_mem_nil, fun _ _ hlast => (nomatch hlast),
      fun _ _ hlast => (nomatch hlast), rfl⟩
  have hstep : ∀ op (before : Device × CacheHistory) (reply : BlockReply op)
      (after : Device × CacheHistory),
      (before.2.Addressed → before.2.Explains (disk.sectors 0) before.1) →
      recordedDevice env op before = .ok (reply, after) →
      after.2.Addressed → after.2.Explains (disk.sectors 0) after.1 :=
    fun op before reply after h hop => CacheHistory.Explains.step hop h
  exact Program.run_preserves hstep (code mem) (fun _ => hstart) hrun haddressed

/-- What a read of a block finds: its slot, or else its sector. -/
theorem cacheRead_value (env : Environment) (lba : UInt32) (dev : Device)
    (hread : env.readOk dev.disk.readCount = true) :
    (∃ slot ∈ dev.blockCache, slot.lba = lba ∧ (cacheRead env lba dev).1 = some slot.data) ∨
      ((∀ slot ∈ dev.blockCache, slot.lba ≠ lba) ∧
        (cacheRead env lba dev).1 = (ataReadSector env lba dev.disk).1) := by
  cases hfind : cacheFind lba dev.blockCache with
  | some idx =>
    have ⟨slot, hslot, hslotLba, hvalue⟩ := cacheRead_found env hfind
    exact .inl ⟨slot, hslot, hslotLba, by rw [hvalue]⟩
  | none =>
    refine .inr ⟨cacheFind_none hfind, ?_⟩
    rw [cacheRead_missed hfind hread]
    simp only [ataReadSector, hread, if_true]

/-- Block 0 reads as the boot sector exactly if no slot is empty or the boot sector is
blank. -/
theorem CacheHistory.Explains.bootRead_iff (h : history.Explains boot dev)
    (haddressed : history.Addressed) (hread : env.readOk dev.disk.readCount = true) :
    (cacheRead env 0 dev).1 = (ataReadSector env 0 dev.disk).1 ↔
      16 ≤ history.recent.length ∨ boot = zeroSector := by
  have hdirect : (ataReadSector env 0 dev.disk).1 = some boot := by
    simp only [ataReadSector, hread, if_true]
    exact congrArg some h.boot_sector
  rcases h.filled with ⟨hfull, hslots⟩ | ⟨hmap, hdata⟩
  · rcases cacheRead_value env 0 dev hread with ⟨slot, hslot, hmarker, _⟩ | ⟨_, hvalue⟩
    · exact absurd hmarker (hslots slot hslot)
    · exact ⟨fun _ => .inl hfull, fun _ => hvalue⟩
  · rcases cacheRead_value env 0 dev hread with ⟨slot, hslot, hmarker, hvalue⟩ | ⟨hslots, hvalue⟩
    · have hroom : ¬16 ≤ history.recent.length := by
        intro hfull
        have hin : slot.lba ∈ dev.blockCache.map (·.lba) := List.mem_map_of_mem hslot
        have hnone : 16 - history.recent.length = 0 := by omega
        rw [hmap, hnone, List.replicate_zero, List.append_nil, hmarker] at hin
        exact haddressed.1 (h.recent_accessed 0 hin)
      rw [hvalue, hdirect, hdata slot hslot hmarker, Option.some.injEq]
      exact ⟨fun heq => .inr heq.symm, fun hcond => (hcond.resolve_left hroom).symm⟩
    · have hfull : 16 ≤ history.recent.length := by
        by_contra hroom
        have hin : 0 ∈ dev.blockCache.map (·.lba) := by
          rw [hmap]
          exact List.mem_append_right _ (List.mem_replicate.mpr ⟨by omega, rfl⟩)
        obtain ⟨slot, hslot, hmarker⟩ := List.mem_map.mp hin
        exact hslots slot hslot hmarker
      exact ⟨fun _ => .inl hfull, fun _ => hvalue⟩

/-- What was last written is on the disk exactly if it arrived there. -/
theorem CacheHistory.Explains.landed_iff (h : history.Explains boot dev) :
    history.Landed dev.disk.sectors ↔ history.Arrived := by
  constructor
  · intro hlanded lba write hlast
    have hheld := h.last_sector lba write hlast
    rw [hlanded lba write hlast] at hheld
    cases hreached : write.reached with
    | true => exact .inl rfl
    | false =>
      rw [hreached] at hheld
      exact .inr hheld
  · intro harrived lba write hlast
    rw [h.last_sector lba write hlast]
    split
    · rfl
    · rename_i hlost
      exact ((harrived lba write hlast).resolve_left hlost).symm

/-- A block other than block 0 reads as its sector if what was last written is there. -/
theorem CacheHistory.Explains.read_landed (h : history.Explains boot dev)
    (hlanded : history.Landed dev.disk.sectors) (hread : env.readOk dev.disk.readCount = true)
    {lba : UInt32} (hlba : lba ≠ 0) :
    (cacheRead env lba dev).1 = (ataReadSector env lba dev.disk).1 := by
  rcases cacheRead_value env lba dev hread with ⟨slot, hslot, hslotLba, hvalue⟩ | ⟨_, hvalue⟩
  · have hheld := (h.slots.holds slot hslot (by rw [hslotLba]; exact hlba)).2
    have hdata : slot.data = dev.disk.sectors (ataAddress lba) := by
      rw [← hslotLba]
      rcases hheld with hsector | ⟨write, hlast, hbuf⟩
      · exact hsector
      · rw [hbuf, hlanded slot.lba write hlast]
    rw [hvalue, hdata]
    simp only [ataReadSector, hread, if_true]
  · exact hvalue

/-- When a commit returns 1, every block reads through the cache as from the disk and
nothing written is lost, exactly if the last write of every block arrived, and block 0 is
out of the cache's reach or blank. -/
theorem commit_readsThrough_iff {α : Type} {ops : HexafsM α} {sectors : UInt32 → Sector}
    {mem : Memory}
    (hrun : (do
        let _ ← ops
        hexafsTxCommit).exec (recordedDevice env) Memory.boot
          ((Machine.boot sectors).dev, CacheHistory.empty) =
      .ok ((true, mem), (dev, history)))
    (haddressed : history.Addressed) (hread : env.readOk dev.disk.readCount = true) :
    (dev.ReadsThrough env ∧ history.Landed dev.disk.sectors) ↔
      history.Arrived ∧ (16 ≤ history.recent.length ∨ sectors 0 = zeroSector) := by
  have hexplains : history.Explains (sectors 0) dev := CacheHistory.Explains.run hrun haddressed
  have hboot := hexplains.bootRead_iff haddressed hread
  rw [← hexplains.landed_iff, ← hboot]
  constructor
  · intro hgoal
    exact ⟨hgoal.2, hgoal.1 0⟩
  · intro hcond
    refine ⟨fun lba => ?_, hcond.1⟩
    by_cases hlba : lba = 0
    · rw [hlba]
      exact hcond.2
    · exact hexplains.read_landed hcond.1 hread hlba

/-- The calls up to a commit: the mount, which formats a blank disk, and the boot policy. -/
def mountAndBoot : HexafsM Bool := do
  let _ ← hexafsMount
  StoreCall.bootPolicyExecute.body

/-- The drive refuses the twelfth sector write. -/
def twelfthWriteRefused : Environment :=
  { Environment.faultless with writeOutcome := fun n => if n = 11 then .refused else .written }

/-- The twelfth write is the snapshot of the boot policy. The commit returns 1, block 111
reads as the snapshot, and the sector holds zeros. -/
theorem commit_leavesSnapshotInCache : ∃ after,
    (Machine.boot blankDisk).run twelfthWriteRefused (do
      let _ ← mountAndBoot
      hexafsTxCommit) = .ok (true, after) ∧
      after.mem.currentTx.dirty = true ∧
        (∀ n, twelfthWriteRefused.readOk n = true) ∧
          ¬after.dev.ReadsThrough twelfthWriteRefused := by
  have hrun : testRun (fun committed machine => committed && machine.mem.currentTx.dirty &&
      (cacheRead twelfthWriteRefused 111 machine.dev).1 !=
        (ataReadSector twelfthWriteRefused 111 machine.dev.disk).1)
      ((Machine.boot blankDisk).run twelfthWriteRefused (do
        let _ ← mountAndBoot
        hexafsTxCommit)) = true := by
    decide +kernel
  cases hresult : (Machine.boot blankDisk).run twelfthWriteRefused (do
      let _ ← mountAndBoot
      hexafsTxCommit) with
  | error stop =>
    rw [hresult] at hrun
    cases hrun
  | ok result =>
    obtain ⟨committed, after⟩ := result
    rw [hresult] at hrun
    simp only [testRun, Bool.and_eq_true, bne_iff_ne] at hrun
    have ⟨⟨hcommitted, hdirty⟩, hdiffers⟩ := hrun
    rw [hcommitted]
    exact ⟨after, rfl, hdirty, fun _ => rfl, fun hreads => hdiffers (hreads 111)⟩

/-- Does a recorded run end with a commit that returns 1 for a dirty transaction, on
addressed blocks? -/
def commitsAddressed : Except Stop ((Bool × Memory) × (Device × CacheHistory)) → Bool
  | .ok ((committed, mem), (_, history)) =>
    committed && mem.currentTx.dirty && decide (0 ∉ history.accessed) &&
      toldApart (0 :: history.accessed)
  | .error _ => false

/-- The mount and the boot policy on a blank disk without failures. -/
theorem commit_readsThrough_iff_mountAndBoot : ∃ (dev : Device) (history : CacheHistory),
    ((dev.ReadsThrough .faultless ∧ history.Landed dev.disk.sectors) ↔
      history.Arrived ∧ (16 ≤ history.recent.length ∨ blankDisk 0 = zeroSector)) := by
  have hrun : commitsAddressed ((do
      let _ ← mountAndBoot
      hexafsTxCommit).exec (recordedDevice .faultless) Memory.boot
        ((Machine.boot blankDisk).dev, CacheHistory.empty)) = true := by
    decide +kernel
  cases hresult : (do
      let _ ← mountAndBoot
      hexafsTxCommit).exec (recordedDevice .faultless) Memory.boot
        ((Machine.boot blankDisk).dev, CacheHistory.empty) with
  | error stop =>
    rw [hresult] at hrun
    cases hrun
  | ok result =>
    obtain ⟨⟨committed, mem⟩, dev, history⟩ := result
    rw [hresult] at hrun
    simp only [commitsAddressed, Bool.and_eq_true, decide_eq_true_eq, toldApart_iff] at hrun
    have ⟨⟨⟨hcommitted, _⟩, hzero⟩, hapart⟩ := hrun
    rw [hcommitted] at hresult
    exact ⟨dev, history, commit_readsThrough_iff hresult ⟨hzero, hapart⟩ rfl⟩

end Recorded

end HexaOS.Hexafs
