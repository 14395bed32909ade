import HexaOS.HexafsCommit

/-!
# Mounted stores

Mounting a disk reads superblock and bitmap. A store is the state between two
operations of a mounted machine: a heap under its root snapshot, no open
transaction, and a bitmap that is on the disk unless it is marked dirty. A store
is committed when superblock and bitmap on the disk are those of the statics, so
a remount gives the same store again.
-/

namespace HexaOS.Hexafs

open DevicePrograms PackedBytes StoreTyping

/-- A mounted machine with or without an open transaction. -/
structure StoreAt (active : Bool) (mem : Memory) (d : PlainDisk) (roles : UInt32 → Option Role) :
    Prop where
  /-- The heap is sound. -/
  heap : Heap d.sectors roles mem.allocator
  /-- The hint is in range. -/
  hint : mem.allocator.HintOk
  /-- The root is a snapshot. -/
  root : mem.sbCache.rootSnapBlock ≠ 0 → roles mem.sbCache.rootSnapBlock = some .snapshot
  /-- The store is mounted. -/
  mounted : mem.hexafsMounted = true
  /-- A transaction is active or not. -/
  active_eq : mem.currentTx.active = active
  /-- No sector is stale. -/
  stale : ∀ b, d.stale b = false
  /-- A bitmap that need not be written is on the disk. -/
  clean : mem.allocator.dirty = false → diskBitmap d.sectors = mem.allocator.bitmap

/-- A mounted machine between two operations. -/
abbrev Store : Memory → PlainDisk → (UInt32 → Option Role) → Prop := StoreAt false

/-- Superblock and bitmap on the disk are those of the statics. -/
structure Committed (mem : Memory) (sectors : UInt32 → Sector) : Prop where
  /-- The superblock on the disk is that of the statics. -/
  superblock : superblockAt sectors = mem.sbCache
  /-- It is valid. -/
  valid : superblockValid mem.sbCache = true
  /-- The bitmap on the disk is that of the statics. -/
  bitmap : diskBitmap sectors = mem.allocator.bitmap

variable {env : Environment} {mem : Memory} {d : PlainDisk}

/-- The disk with an empty cache in front of it. -/
def PlainDisk.cleared (d : PlainDisk) : PlainDisk := { d with stale := fun _ => false }

theorem wp_clearBlockCache {post : Unit → Memory → PlainDisk → Prop} (hpost : post () mem d.cleared) :
    clearBlockCache.wp (plainDevice env) mem d post :=
  Code.wp_request rfl hpost

/-- The statics with a mounted superblock and bitmap. -/
def Memory.mountedAs (mem : Memory) (sb : HexafsSuperblock) (bitmap : Vector UInt8 1024) :
    Memory :=
  { mem with
    sbCache := sb
    allocator := { mem.allocator with bitmap := bitmap, dirty := false }
    hexafsMounted := true }

/-- The statics after a disk was mounted. -/
def Memory.mountedOn (mem : Memory) (sectors : UInt32 → Sector) : Memory :=
  mem.mountedAs (superblockAt sectors) (diskBitmap sectors)

/-- The statics with another bitmap. -/
def Memory.withBitmap (mem : Memory) (bitmap : Vector UInt8 1024) : Memory :=
  { mem with allocator := { mem.allocator with bitmap := bitmap } }

theorem Memory.withBitmap_withBitmap (bitmap bitmap' : Vector UInt8 1024) :
    (mem.withBitmap bitmap).withBitmap bitmap' = mem.withBitmap bitmap' := rfl

/-- One round of the loop of bitmap_load. -/
theorem loadBitmapFrom_step {left i : ℕ} {lba : UInt32}
    (hlba : hexafsAllocLba + UInt32.ofNat i = lba) (hvalid : ValidLba lba)
    (hstale : ∀ b, d.stale b = false) {post : Bool → Memory → PlainDisk → Prop}
    (hpost : (loadBitmapFrom left (i + 1)).wp (plainDevice env)
      (mem.withBitmap (bitmapStore mem.allocator.bitmap i (d.sectors lba))) d post) :
    (loadBitmapFrom (left + 1) i).wp (plainDevice env) mem d post := by
  rw [loadBitmapFrom, hlba, Code.wp_bind]
  refine wp_hexafsBlockRead hvalid (hstale _) ?_
  dsimp only
  rw [Code.wp_bind, wp_modifyAllocator]
  exact hpost

/-- bitmap_load reads the two sectors. -/
theorem bitmapLoad_spec (hstale : ∀ b, d.stale b = false) {bitmap : Vector UInt8 1024}
    (hbitmap : diskBitmap d.sectors = bitmap) {post : Bool → Memory → PlainDisk → Prop}
    (hpost : post true { mem with allocator :=
      { mem.allocator with bitmap := bitmap, dirty := false } } d) :
    bitmapLoad.wp (plainDevice env) mem d post := by
  have hzero : hexafsAllocLba + UInt32.ofNat 0 = hexafsAllocLba := rfl
  have hone : hexafsAllocLba + UInt32.ofNat (0 + 1) = hexafsAllocLba + 1 := rfl
  rw [bitmapLoad, Code.wp_bind]
  refine loadBitmapFrom_step hzero allocLba_valid.1 hstale
    (loadBitmapFrom_step hone allocLba_valid.2 hstale ?_)
  have hstored : bitmapStore (mem.withBitmap (bitmapStore mem.allocator.bitmap 0
      (d.sectors hexafsAllocLba))).allocator.bitmap (0 + 1) (d.sectors (hexafsAllocLba + 1)) =
        bitmap := (bitmapStore_bitmapStore _ _ _).trans hbitmap
  rw [hstored, Memory.withBitmap_withBitmap, loadBitmapFrom, Code.wp_pure, if_pos rfl, Code.wp_bind, wp_modifyAllocator,
    Code.wp_pure]
  exact hpost

/-- hexafs_mount_disk on a disk with a valid superblock. -/
theorem hexafsMountDisk_valid (hvalid : superblockValid (superblockAt d.sectors) = true)
    {post : Bool → Memory → PlainDisk → Prop}
    (hpost : post true (mem.mountedOn d.sectors) d.cleared) :
    hexafsMountDisk.wp (plainDevice env) mem d post := by
  simp only [hexafsMountDisk, Code.wp_bind]
  refine wp_clearBlockCache ?_
  simp only [hexafsReadSuperblock, Code.wp_bind]
  refine wp_hexafsBlockRead superLba_valid rfl ?_
  have hsb : ofBlock HexafsSuperblock (d.cleared.sectors hexafsSuperLba) =
      superblockAt d.sectors := rfl
  simp only [hsb, hvalid, if_true, Code.wp_bind, Code.wp_modify, Code.wp_pure]
  refine bitmapLoad_spec (fun _ => rfl) rfl ?_
  rw [if_pos rfl, Code.wp_bind, Code.wp_modify, Code.wp_pure]
  exact hpost

/-- hexafs_mount_disk on a disk without a valid superblock. -/
theorem hexafsMountDisk_invalid (hvalid : superblockValid (superblockAt d.sectors) = false)
    {post : Bool → Memory → PlainDisk → Prop} (hpost : post false mem d.cleared) :
    hexafsMountDisk.wp (plainDevice env) mem d post := by
  simp only [hexafsMountDisk, Code.wp_bind]
  refine wp_clearBlockCache ?_
  simp only [hexafsReadSuperblock, Code.wp_bind]
  refine wp_hexafsBlockRead superLba_valid rfl ?_
  have hsb : ofBlock HexafsSuperblock (d.cleared.sectors hexafsSuperLba) =
      superblockAt d.sectors := rfl
  simp only [hsb, hvalid, Bool.false_eq_true, if_false, Code.wp_pure]
  exact hpost

section Format

/-- The bitmap of an empty store. -/
def reservedBitmap : Vector UInt8 1024 :=
  (List.range' hexafsAllocLba.toNat hexafsAllocBlocks).foldl bitmapSet
    ((List.range hexafsObjectLba).foldl bitmapSet (Vector.replicate 1024 0))

/-- Setting the bits of a list of blocks. -/
theorem bitmapTest_foldl_bitmapSet {blocks : List ℕ} (h : ∀ b ∈ blocks, b / 8 < 1024)
    (bitmap : Vector UInt8 1024) (other : ℕ) :
    bitmapTest (blocks.foldl bitmapSet bitmap) other =
      (decide (other ∈ blocks) || bitmapTest bitmap other) := by
  induction blocks generalizing bitmap with
  | nil => simp
  | cons b rest ih =>
    rw [List.foldl_cons, ih (fun c hc => h c (List.mem_cons_of_mem _ hc)),
      bitmapTest_bitmapSet bitmap (h b List.mem_cons_self)]
    by_cases hb : other = b <;> simp [hb, Bool.or_comm]

/-- Formatting reserves the blocks in front of the object area. -/
theorem bitmapTest_reservedBitmap {block : ℕ} (h : block < hexafsDiskBlocks) :
    bitmapTest reservedBitmap block = decide (block < hexafsObjectLba) := by
  have hlt : block < 4096 := h
  rw [reservedBitmap, bitmapTest_foldl_bitmapSet, bitmapTest_foldl_bitmapSet,
    bitmapTest_zero (by omega)]
  · rw [Bool.or_false, ← Bool.decide_or, decide_eq_decide, List.mem_range'_1, List.mem_range]
    have hlba : hexafsAllocLba.toNat = 101 := rfl
    have hcount : hexafsAllocBlocks = 2 := rfl
    have hobj : hexafsObjectLba = 109 := rfl
    omega
  · intro b hb
    have hb' : b < 109 := List.mem_range.mp hb
    omega
  · intro b hb
    have hb' : 101 ≤ b ∧ b < 101 + 2 := List.mem_range'_1.mp hb
    omega

/-- The statics after hexafs_format. -/
def Memory.formatted (mem : Memory) : Memory :=
  { mem with
    sbCache := nextSuperblock formatSuperblock
    allocator := { mem.allocator with bitmap := reservedBitmap, dirty := false }
    hexafsMounted := true }

/-- The disk after hexafs_format. -/
def formatDisk (env : Environment) (d : PlainDisk) : PlainDisk :=
  (((d.cleared.write env hexafsSuperLba (toBlock 512 (nextSuperblock formatSuperblock))).write env
    hexafsAllocLba (bitmapSector reservedBitmap 0)).write env (hexafsAllocLba + 1)
      (bitmapSector reservedBitmap 1))

/-- hexafs_format when every write succeeds. -/
theorem hexafsFormat_spec (hok : env.WritesOk) {post : Bool → Memory → PlainDisk → Prop}
    (hpost : post true mem.formatted (formatDisk env d)) :
    hexafsFormat.wp (plainDevice env) mem d post := by
  simp only [hexafsFormat, Code.wp_bind, Code.wp_modify]
  refine wp_clearBlockCache ?_
  simp only [bitmapInit, wp_modifyAllocator, hexafsWriteSuperblock, Code.wp_bind, Code.wp_memory,
    Code.wp_modify]
  refine wp_hexafsBlockWrite superLba_valid ?_
  rw [hok.returns, if_pos rfl, Code.wp_bind]
  refine hexafsSaveBitmap_spec (fun _ _ hbad => absurd hok hbad) ?_
  simp only [if_true, Code.wp_bind, Code.wp_modify, Code.wp_pure]
  exact hpost

end Format

section Committing

/-- What is on the disk after a commit whose writes succeed. -/
theorem commitDisk_sectors (mem : Memory) (d : PlainDisk) (hok : env.WritesOk) :
    (commitDisk env mem d).sectors hexafsSuperLba = toBlock 512 (nextSuperblock mem.sbCache) ∧
      (mem.allocator.dirty = true →
        diskBitmap (commitDisk env mem d).sectors = mem.allocator.bitmap) ∧
      (mem.allocator.dirty = false →
        diskBitmap (commitDisk env mem d).sectors = diskBitmap d.sectors) := by
  obtain ⟨hne, hne', hne''⟩ := commitSectors_ne
  refine ⟨(PlainDisk.write_reaches _ _ (hok.reaches _)).1, fun hdirty => ?_, fun hclean => ?_⟩
  · have hfirst : (commitDisk env mem d).sectors hexafsAllocLba =
        bitmapSector mem.allocator.bitmap 0 := by
      rw [commitDisk, PlainDisk.write_sectors_of_ne hne.symm, commitBitmap, if_pos hdirty,
        PlainDisk.write_sectors_of_ne hne'', (PlainDisk.write_reaches _ _ (hok.reaches _)).1]
    have hsecond : (commitDisk env mem d).sectors (hexafsAllocLba + 1) =
        bitmapSector mem.allocator.bitmap 1 := by
      rw [commitDisk, PlainDisk.write_sectors_of_ne hne'.symm, commitBitmap, if_pos hdirty,
        (PlainDisk.write_reaches _ _ (hok.reaches _)).1]
    rw [diskBitmap, hfirst, hsecond, bitmapOf_bitmapSector]
  · have hsame : ∀ b, b ≠ hexafsSuperLba →
        (commitDisk env mem d).sectors b = d.sectors b := by
      intro b hb
      rw [commitDisk, PlainDisk.write_sectors_of_ne hb, commitBitmap, hclean,
        if_neg Bool.false_ne_true]
    rw [diskBitmap, diskBitmap, hsame _ hne.symm, hsame _ hne'.symm]

/-- A commit whose writes succeed leaves a committed state. -/
theorem committed_commitDisk (hok : env.WritesOk)
    (hclean : mem.allocator.dirty = false → diskBitmap d.sectors = mem.allocator.bitmap) :
    Committed mem.committed (commitDisk env mem d).sectors := by
  obtain ⟨hsb, hdirty, hsame⟩ := commitDisk_sectors mem d hok
  refine ⟨?_, superblockValid_nextSuperblock _, ?_⟩
  · rw [superblockAt, hsb, ofBlock_toBlock]
    rfl
  · cases h : mem.allocator.dirty with
    | true => exact hdirty h
    | false => exact (hsame h).trans (hclean h)

/-- A commit closes the transaction of a store. -/
theorem StoreAt.commit {roles : UInt32 → Option Role} (h : StoreAt true mem d roles)
    (hok : env.WritesOk) :
    Store mem.committed (commitDisk env mem d) roles ∧
      Committed mem.committed (commitDisk env mem d).sectors := by
  have hcommitted := committed_commitDisk hok h.clean
  refine ⟨⟨?_, h.hint, h.root, h.mounted, rfl, ?_, fun _ => hcommitted.bitmap⟩, hcommitted⟩
  · refine h.heap.frame (fun _ => id) fun b role hrole => ?_
    exact wrote_commitDisk.sectors_eq (h.heap.covered b role hrole).1.not_commitSector
  · exact wrote_commitDisk.stale_le hok h.stale

theorem StoreAt.begun {roles : UInt32 → Option Role} (h : Store mem d roles) :
    StoreAt true mem.begun d roles :=
  ⟨h.heap, h.hint, h.root, h.mounted, rfl, h.stale, h.clean⟩

theorem StoreAt.aborted {roles : UInt32 → Option Role} (h : StoreAt true mem d roles) :
    Store mem.aborted d roles :=
  ⟨h.heap, h.hint, h.root, h.mounted, rfl, h.stale, h.clean⟩

/-- Allocations and writes that respect the heap keep the store. -/
theorem StoreAt.grow {active : Bool} {roles roles' : UInt32 → Option Role} {a' : Allocator}
    {d' : PlainDisk} {blocks : List UInt32} (h : StoreAt active mem d roles) (hok : env.WritesOk)
    (hgrown : Grown mem.allocator a' blocks)
    (hwrote : Wrote env (fun b => ¬IsCommitSector b) d d') (hext : Extends roles roles')
    (hheap : Heap d'.sectors roles' a') :
    StoreAt active { mem with allocator := a' } d' roles' where
  heap := hheap
  hint := hgrown.hint
  root := fun hne => hext _ _ (h.root hne)
  mounted := h.mounted
  active_eq := h.active_eq
  stale := hwrote.stale_le hok h.stale
  clean := by
    intro hclean
    obtain ⟨hdirty, hbitmap⟩ := hgrown.clean hclean
    have hfirst := hwrote.sectors_eq (b := hexafsAllocLba) (not_not.mpr (.inr (.inl rfl)))
    have hsecond := hwrote.sectors_eq (b := hexafsAllocLba + 1) (not_not.mpr (.inr (.inr rfl)))
    show diskBitmap d'.sectors = a'.bitmap
    rw [hbitmap, ← h.clean hdirty, diskBitmap, diskBitmap, hfirst, hsecond]

/-- What the last lines of a writer do when every write succeeds. -/
structure RootCommitted (env : Environment) (mem : Memory) (newRoot : UInt32) (name : CString)
    (d : PlainDisk) (mem' : Memory) (d' : PlainDisk) : Prop where
  /-- No block is free and the root is kept, or a new snapshot is the root. -/
  outcome :
    (mem.allocator.freeCount = 0 ∧ mem'.allocator.outOfBlocks = true ∧
      mem'.sbCache.rootSnapBlock = mem.sbCache.rootSnapBlock ∧
        ∀ b, mem'.allocator.Used b ↔ mem.allocator.Used b) ∨
    ∃ s, Grown mem.allocator { mem'.allocator with dirty := true } [s] ∧
      mem'.allocator.outOfBlocks = mem.allocator.outOfBlocks ∧
      mem'.sbCache.rootSnapBlock = s ∧
        d'.sectors s = toBlock 512 (newSnap (mem.marked newRoot) name)
  /-- The bitmap follows the snapshot, the superblock is written last. -/
  last : ∃ mid dirty, Wrote env mem.allocator.Fresh d mid ∧
    d' = (commitBitmap env { mem'.allocator with dirty := dirty } mid).write env hexafsSuperLba
      (toBlock 512 mem'.sbCache)
  /-- The superblock is the next one, with the root. -/
  superblock : mem'.sbCache =
    nextSuperblock { mem.sbCache with rootSnapBlock := mem'.sbCache.rootSnapBlock }
  /-- A disk that was full stays marked so. -/
  outOfBlocks : mem.allocator.outOfBlocks = true → mem'.allocator.outOfBlocks = true
  /-- The other statics stay. -/
  statics : mem' = { mem with
    allocator := mem'.allocator
    sbCache := mem'.sbCache
    currentTx := mem'.currentTx }

/-- Where the last lines of a writer write before the superblock. -/
theorem RootCommitted.wrote {newRoot : UInt32} {name : CString} {mem' : Memory} {d' : PlainDisk}
    (h : RootCommitted env mem newRoot name d mem' d') : ∃ mid, Wrote env
      (fun b => mem.allocator.Fresh b ∨ b = hexafsAllocLba ∨ b = hexafsAllocLba + 1) d mid ∧
    d' = mid.write env hexafsSuperLba (toBlock 512 mem'.sbCache) := by
  obtain ⟨mid, dirty, hmid, hd'⟩ := h.last
  exact ⟨_, (hmid.mono fun b hb => .inl hb).trans ((wrote_commitBitmap _).mono fun b hb => .inr hb),
    hd'⟩

/-- The last lines of a writer keep the store and commit it. -/
theorem StoreAt.commitRoot {roles : UInt32 → Option Role} (h : StoreAt true mem d roles)
    (hok : env.WritesOk) {newRoot : UInt32} (hnew : newRoot ≠ 0 → roles newRoot = some .abstraction)
    {name : CString} {post : Unit → Memory → PlainDisk → Prop}
    (hpost : ∀ mem' d' roles', Extends roles roles' → Store mem' d' roles' →
      Committed mem' d'.sectors → RootCommitted env mem newRoot name d mem' d' →
      (∀ b role, roles b = some role → d'.sectors b = d.sectors b) → post () mem' d') :
    (commitRoot newRoot name).wp (plainDevice env) mem d post := by
  refine commitRoot_spec hok h.hint h.active_eq (fun hfree => ?_) fun s a' hgrown hquiet => ?_
  · have hstore : StoreAt true (mem.marked newRoot).diskFull d roles :=
      ⟨h.heap.frame (fun _ => id) fun _ _ _ => rfl, h.hint, h.root, h.mounted, h.active_eq, h.stale,
        h.clean⟩
    obtain ⟨hstore', hcommitted⟩ := hstore.commit hok
    refine hpost _ _ roles Extends.refl hstore' hcommitted
      ⟨.inl ⟨hfree, rfl, rfl, fun _ => Iff.rfl⟩, ⟨_, mem.allocator.dirty, Wrote.refl, rfl⟩, rfl,
        fun _ => rfl, rfl⟩ ?_
    · intro b role hrole
      exact wrote_commitDisk.sectors_eq (h.heap.covered b role hrole).1.not_commitSector
  · have hfresh := hgrown.fresh s (List.mem_singleton_self s)
    have hsnap : Wrote env mem.allocator.Fresh d (snapDisk env (mem.marked newRoot) name s d) :=
      (Wrote.refl.write hfresh).write hfresh
    have hsector : (snapDisk env (mem.marked newRoot) name s d).sectors s =
        toBlock 512 (newSnap (mem.marked newRoot) name) :=
      (PlainDisk.write_reaches _ _ (hok.reaches _)).1
    have hat : snapAt (snapDisk env (mem.marked newRoot) name s d).sectors s =
        newSnap (mem.marked newRoot) name := by
      rw [snapAt, hsector, ofBlock_toBlock]
    have hsame : ∀ b role, roles b = some role →
        (snapDisk env (mem.marked newRoot) name s d).sectors b = d.sectors b :=
      fun b role hrole => hsnap.sectors_eq (h.heap.not_fresh hrole)
    have hheap := h.heap.addSnapshot hgrown hsame (by rw [hat]; rfl)
      (by rw [hat]; exact h.root) (by rw [hat]; exact hnew)
    have hext : Extends roles (assign [(s, .snapshot)] roles) :=
      h.heap.extends_assign (by
        intro entry hentry
        rw [List.mem_singleton.mp hentry]
        exact hfresh.2)
    have hstore : StoreAt true ((mem.marked newRoot).withSnap a' s)
        (snapDisk env (mem.marked newRoot) name s d) (assign [(s, .snapshot)] roles) := by
      have hgrow := h.grow hok hgrown
        (hsnap.mono fun b hb => hb.1.not_commitSector) hext hheap
      exact ⟨hheap, hgrow.hint, fun _ => assign_of_mem (by simp)
        (List.mem_singleton_self _), h.mounted, h.active_eq, hgrow.stale, hgrow.clean⟩
    obtain ⟨hstore', hcommitted⟩ := hstore.commit hok
    refine hpost _ _ _ hext hstore' hcommitted ⟨.inr ⟨s, ?_, hquiet, rfl, ?_⟩,
      ⟨_, a'.dirty, hsnap, rfl⟩, rfl, hgrown.outOfBlocks, rfl⟩ ?_
    · exact ⟨hgrown.nodup, hgrown.fresh, hgrown.used, hgrown.hint, hgrown.outOfBlocks, nofun⟩
    · rw [wrote_commitDisk.sectors_eq hfresh.1.not_commitSector, hsector]
    · intro b role hrole
      rw [wrote_commitDisk.sectors_eq (h.heap.covered b role hrole).1.not_commitSector,
        hsame b role hrole]

/-- Mounting a superblock over a heap, with a bitmap that marks its blocks. -/
theorem Heap.mountedAs {roles : UInt32 → Option Role} {a : Allocator} (h : Heap d.sectors roles a)
    (hhint : mem.allocator.HintOk) (hidle : mem.currentTx.active = false)
    {sb : HexafsSuperblock} {bitmap : Vector UInt8 1024}
    (hroot : sb.rootSnapBlock ≠ 0 → roles sb.rootSnapBlock = some .snapshot)
    (hbitmap : a.bitmap = bitmap) (hdisk : diskBitmap d.sectors = bitmap) :
    Store (mem.mountedAs sb bitmap) d.cleared roles := by
  refine ⟨?_, hhint, hroot, rfl, hidle, fun _ => rfl, fun _ => hdisk⟩
  refine h.frame (fun b hb => ?_) fun _ _ _ => rfl
  rw [Allocator.Used, hbitmap] at hb
  exact hb

/-- What was read from the disk is committed. -/
theorem committed_mountedAs {sectors : UInt32 → Sector} {sb : HexafsSuperblock}
    {bitmap : Vector UInt8 1024} (hsb : superblockAt sectors = sb)
    (hvalid : superblockValid sb = true) (hdisk : diskBitmap sectors = bitmap) :
    Committed (mem.mountedAs sb bitmap) sectors := ⟨hsb, hvalid, hdisk⟩

end Committing

section Mounting

/-- hexafs_mount after hexafs_mount_disk has failed. -/
def formatStore : HexafsM Bool := do
  let formatted ← hexafsFormat
  if formatted then
    let rootAbs ← hexafsAbstractionCreate
    if rootAbs = 0 then pure false
    else
      let _ ← hexafsTxBegin
      commitRoot rootAbs bootOkName
      pure true
  else pure false

theorem hexafsMount_eq : hexafsMount = (do
    let mounted ← hexafsMountDisk
    if mounted then pure true else formatStore) := rfl

/-- Every block of the object area is free after formatting. -/
theorem Memory.formatted_freeCount (mem : Memory) : mem.formatted.allocator.freeCount = 3987 := by
  have hall : mem.formatted.allocator.freeBlocks = Finset.Ico hexafsObjectLba hexafsDiskBlocks := by
    refine Finset.filter_true_of_mem fun i hi => ?_
    rw [Finset.mem_Ico] at hi
    show bitmapTest reservedBitmap i = false
    rw [bitmapTest_reservedBitmap hi.2]
    exact decide_eq_false (Nat.not_lt.mpr hi.1)
  rw [Allocator.freeCount, hall, Nat.card_Ico]
  rfl

/-- What formatting leaves: an empty committed store, written from its first
superblock on. -/
structure Formatted (env : Environment) (mem : Memory) (d : PlainDisk) (mem' : Memory)
    (d' : PlainDisk) : Prop where
  /-- The store is in order. -/
  store : ∃ roles, Store mem' d' roles
  /-- It is committed. -/
  committed : Committed mem' d'.sectors
  /-- The superblock is written first. -/
  log : ∃ rest, d'.log =
    d.log ++ (hexafsSuperLba, toBlock 512 (nextSuperblock formatSuperblock)) :: rest
  /-- The sectors are those of the log. -/
  sectors : ∃ writes, d'.log = d.log ++ writes ∧ d'.sectors = applyWrites writes d.sectors
  /-- Two commits came behind the first superblock. -/
  formatGen : mem'.sbCache.formatGen = 3
  /-- The root snapshot names an abstraction without entries. -/
  root : mem'.sbCache.rootSnapBlock ≠ 0 ∧
    (snapAt d'.sectors mem'.sbCache.rootSnapBlock).rootObjectBlock ≠ 0 ∧
    headerAt d'.sectors (snapAt d'.sectors mem'.sbCache.rootSnapBlock).rootObjectBlock =
      newAbstraction
  /-- The free blocks. -/
  free : mem'.allocator.freeCount = 3985
  /-- The disk was not full. -/
  quiet : mem'.allocator.outOfBlocks = mem.allocator.outOfBlocks
  /-- The other statics stay. -/
  statics : mem' = { mem with
    allocator := mem'.allocator
    hexafsMounted := true
    sbCache := mem'.sbCache
    currentTx := mem'.currentTx
    txGen := mem'.txGen }

theorem wrote_formatDisk : Wrote env (fun _ => True) d.cleared (formatDisk env d) :=
  ((Wrote.refl.write trivial).write trivial).write trivial

/-- Formatting writes the superblock first. -/
theorem formatDisk_log (hok : env.WritesOk) : ∃ first, (formatDisk env d).log =
    d.log ++ (hexafsSuperLba, toBlock 512 (nextSuperblock formatSuperblock)) :: first := by
  refine ⟨[(hexafsAllocLba, bitmapSector reservedBitmap 0),
    (hexafsAllocLba + 1, bitmapSector reservedBitmap 1)], ?_⟩
  rw [formatDisk, PlainDisk.write_of_reaches (hok.reaches _),
    PlainDisk.write_of_reaches (hok.reaches _), PlainDisk.write_of_reaches (hok.reaches _)]
  dsimp only
  rw [List.append_assoc, List.append_assoc]
  rfl

theorem formatDisk_bitmap (hok : env.WritesOk) :
    diskBitmap (formatDisk env d).sectors = reservedBitmap := by
  have hne := commitSectors_ne.2.2
  rw [diskBitmap, formatDisk, (PlainDisk.write_reaches _ _ (hok.reaches _)).1,
    PlainDisk.write_sectors_of_ne hne, (PlainDisk.write_reaches _ _ (hok.reaches _)).1,
    bitmapOf_bitmapSector]

/-- A formatted disk is an empty store. -/
theorem store_formatted (hok : env.WritesOk) (hhint : mem.allocator.HintOk)
    (hidle : mem.currentTx.active = false) :
    Store mem.formatted (formatDisk env d) fun _ => none where
  heap := ⟨nofun, nofun⟩
  hint := hhint
  root := fun hne => absurd rfl hne
  mounted := rfl
  active_eq := hidle
  stale := wrote_formatDisk.stale_le hok fun _ => rfl
  clean := fun _ => formatDisk_bitmap hok

/-- hexafs_mount on a fresh disk up to its commit: an empty abstraction, which the commit
makes the root. -/
theorem formatStore_toCommit (hok : env.WritesOk) (hhint : mem.allocator.HintOk)
    (hidle : mem.currentTx.active = false) {post : Bool → Memory → PlainDisk → Prop}
    (hcommit : ∀ n a' d₁, Grown mem.formatted.allocator a' [n] →
      a'.outOfBlocks = mem.formatted.allocator.outOfBlocks →
      Wrote env mem.formatted.allocator.Fresh (formatDisk env d) d₁ →
      d₁.sectors n = toBlock 512 newAbstraction →
      StoreAt true (Memory.begun { mem.formatted with allocator := a' }) d₁
        (assign [(n, .abstraction)] fun _ => none) →
      (commitRoot n bootOkName).wp (plainDevice env)
        (Memory.begun { mem.formatted with allocator := a' }) d₁ fun _ => post true) :
    formatStore.wp (plainDevice env) mem d post := by
  have hstore := store_formatted (d := d) hok hhint hidle
  simp only [formatStore, Code.wp_bind]
  refine hexafsFormat_spec hok ?_
  rw [if_pos rfl, Code.wp_bind]
  have hsome : mem.formatted.allocator.freeCount ≠ 0 := by
    rw [mem.formatted_freeCount]
    omega
  refine hexafsAbstractionCreate_spec hstore.hint (fun hfree => absurd hfree hsome)
    (fun _ _ _ _ hbad => absurd hok hbad) fun n a' hgrown hquiet _ => ?_
  have hfresh := hgrown.fresh n (List.mem_singleton_self n)
  have hwrote : Wrote env mem.formatted.allocator.Fresh (formatDisk env d)
      (((formatDisk env d).write env n zeroSector).write env n (toBlock 512 newAbstraction)) :=
    (Wrote.refl.write hfresh).write hfresh
  have hsector := (PlainDisk.write_reaches n (toBlock 512 newAbstraction)
    (hok.reaches ((formatDisk env d).write env n zeroSector).writeCount)).1
  have hheap := hstore.heap.addAbstraction hgrown (fun _ _ hrole => by cases hrole) hsector
  have hgrow := hstore.grow hok hgrown
    (hwrote.mono fun b hb => hb.1.not_commitSector) (by rintro _ _ ⟨⟩) hheap
  rw [if_neg hfresh.1.ne_zero, Code.wp_bind]
  refine hexafsTxBegin_spec hgrow.active_eq ?_
  simp only [Code.wp_bind, Code.wp_pure]
  exact hcommit n a' _ hgrown hquiet hwrote hsector hgrow.begun

/-- Formatting with every write succeeding: an empty abstraction, a snapshot of it
and a commit. -/
theorem formatStore_spec (hok : env.WritesOk) (hhint : mem.allocator.HintOk)
    (hidle : mem.currentTx.active = false) {post : Bool → Memory → PlainDisk → Prop}
    (hpost : ∀ mem' d', Formatted env mem d mem' d' → post true mem' d') :
    formatStore.wp (plainDevice env) mem d post := by
  refine formatStore_toCommit hok hhint hidle fun n a' d₁ hgrown hquiet hwrote hsector hbegun => ?_
  have hfresh := hgrown.fresh n (List.mem_singleton_self n)
  refine hbegun.commitRoot hok (fun _ => assign_of_mem (by simp) (List.mem_singleton_self _))
    fun mem' d' roles' _ hstore' hcommitted hroot hsame => ?_
  obtain ⟨mid, hmid, hlast⟩ := hroot.wrote
  have hafter : Wrote env (fun _ => True) (formatDisk env d) d' := by
    rw [hlast]
    exact ((hwrote.mono fun _ _ => trivial).trans (hmid.mono fun _ _ => trivial)).write trivial
  obtain ⟨writes, hlog, hsec, _⟩ := (wrote_formatDisk.trans hafter).log
  obtain ⟨first, hfirst⟩ := formatDisk_log (d := d) hok
  obtain ⟨rest, hrest, _⟩ := hafter.log
  have hcount := hgrown.freeCount_add
  rw [List.length_singleton, mem.formatted_freeCount] at hcount
  have hkept : d'.sectors n = toBlock 512 newAbstraction := by
    rw [hsame n _ (assign_of_mem (by simp) (List.mem_singleton_self _)), hsector]
  obtain ⟨s, hgrown', hquiet', hs, hsnap⟩ := hroot.outcome.resolve_left fun hbad => by
    have hzero : a'.freeCount = 0 := hbad.1
    omega
  refine hpost mem' d'
    { store := ⟨roles', hstore'⟩
      committed := hcommitted
      log := ⟨first ++ rest, ?_⟩
      sectors := ⟨writes, hlog, hsec⟩
      formatGen := ?_
      root := ?_
      free := ?_
      quiet := ?_
      statics := ?_ }
  · rw [hrest, hfirst, List.append_assoc, List.cons_append]
  · rw [hroot.superblock]
    rfl
  · have hat : snapAt d'.sectors s =
        newSnap (Memory.marked (Memory.begun { mem.formatted with allocator := a' }) n)
          bootOkName := by
      rw [snapAt, hsnap, ofBlock_toBlock]
    have hroot' : (snapAt d'.sectors s).rootObjectBlock = n := by
      rw [hat]
      rfl
    have hs0 := (hgrown'.fresh s (List.mem_singleton_self s)).1.ne_zero
    rw [hs, hroot', headerAt, hkept, ofBlock_toBlock]
    exact ⟨hs0, hfresh.1.ne_zero, rfl⟩
  · have hcount' := hgrown'.freeCount_add
    rw [List.length_singleton] at hcount'
    have hfree : mem'.allocator.freeCount + 1 = a'.freeCount := hcount'
    omega
  · exact hquiet'.trans hquiet
  · rw [hroot.statics]
    rfl

end Mounting

end HexaOS.Hexafs
