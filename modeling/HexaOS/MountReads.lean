import HexaOS.HexafsCachedCalls
import HexaOS.HexafsCrash

/-!
# Mounting with failing reads

hexafs_mount reads the superblock and the two sectors of the bitmap. When one of these reads
fails it takes the disk for one without a store, as it does with a wrong checksum, and formats
it. What the formatting writes does not depend on any read, so it is the formatting of a disk
that can be read.
-/

namespace HexaOS.Hexafs

open DevicePrograms PackedBytes StoreTyping

section Formats

/-- Operations that read no sector. -/
def BlockOp.NoRead : BlockOp → Prop
  | .read _ => False
  | _ => True

/-- Code that reads no sector. -/
abbrev ReadsNothing {α : Type} (code : HexafsM α) : Prop := code.Uses BlockOp.NoRead

theorem hexafsBlockWrite_readsNothing (lba : UInt32) (buf : Sector) :
    ReadsNothing (hexafsBlockWrite lba buf) := Code.uses_request trivial

theorem hexafsAllocBlock_readsNothing : ReadsNothing hexafsAllocBlock := by
  refine Code.uses_memory.bind fun mem => ?_
  cases mem.allocator.choose with
  | none => exact (Code.uses_modify _).bind fun _ => Code.uses_pure _
  | some i =>
    refine Code.Uses.bind (Code.uses_modify _) fun _ => ?_
    refine (hexafsBlockWrite_readsNothing _ _).bind fun _ => ?_
    exact Code.Uses.bind (Code.uses_modify _) fun _ => Code.uses_pure _

theorem hexafsFreeBlock_readsNothing (lba : UInt32) : ReadsNothing (hexafsFreeBlock lba) :=
  (Code.uses_pure ()).ite (Code.uses_modify _)

theorem hexafsAbstractionCreate_readsNothing : ReadsNothing hexafsAbstractionCreate := by
  refine hexafsAllocBlock_readsNothing.bind fun block => (Code.uses_pure _).ite ?_
  refine (hexafsBlockWrite_readsNothing _ _).bind fun ok => (Code.uses_pure _).ite ?_
  exact (hexafsFreeBlock_readsNothing block).bind fun _ => Code.uses_pure _

theorem saveBitmapFrom_readsNothing (left i : ℕ) : ReadsNothing (saveBitmapFrom left i) := by
  induction left generalizing i with
  | zero => exact Code.uses_pure _
  | succ left ih =>
    refine Code.uses_memory.bind fun mem => (hexafsBlockWrite_readsNothing _ _).bind fun ok => ?_
    exact (ih _).ite (Code.uses_pure _)

theorem hexafsSaveBitmap_readsNothing : ReadsNothing hexafsSaveBitmap := by
  refine Code.uses_memory.bind fun mem => Code.Uses.ite ?_ (Code.uses_pure _)
  refine (saveBitmapFrom_readsNothing _ _).bind fun ok => Code.Uses.ite ?_ (Code.uses_pure _)
  exact Code.Uses.bind (Code.uses_modify _) fun _ => Code.uses_pure _

theorem hexafsWriteSuperblock_readsNothing : ReadsNothing hexafsWriteSuperblock :=
  Code.uses_memory.bind fun _ => (Code.uses_modify _).bind fun _ => hexafsBlockWrite_readsNothing _ _

theorem hexafsFormat_readsNothing : ReadsNothing hexafsFormat := by
  refine (Code.uses_modify _).bind fun _ => ?_
  refine Code.Uses.bind (Code.uses_request trivial) fun _ => ?_
  refine Code.Uses.bind (Code.uses_modify _) fun _ => ?_
  refine hexafsWriteSuperblock_readsNothing.bind fun ok => Code.Uses.ite ?_ (Code.uses_pure _)
  refine hexafsSaveBitmap_readsNothing.bind fun ok => Code.Uses.ite ?_ (Code.uses_pure _)
  exact (Code.uses_modify _).bind fun _ => Code.uses_pure _

theorem hexafsTxBegin_readsNothing : ReadsNothing hexafsTxBegin :=
  Code.uses_memory.bind fun _ => (Code.uses_pure _).ite
    ((Code.uses_modify _).bind fun _ => Code.uses_pure _)

theorem hexafsSnapCreate_readsNothing (name : CString) : ReadsNothing (hexafsSnapCreate name) := by
  refine Code.uses_memory.bind fun mem => Code.Uses.ite ?_ (Code.uses_pure _)
  refine hexafsAllocBlock_readsNothing.bind fun block => (Code.uses_pure _).ite ?_
  refine (hexafsBlockWrite_readsNothing _ _).bind fun ok => Code.Uses.ite ?_ ?_
  · refine Code.Uses.bind (Code.uses_modify _) fun _ => ?_
    exact (Code.uses_modify _).bind fun _ => Code.uses_pure _
  · exact (hexafsFreeBlock_readsNothing block).bind fun _ => Code.uses_pure _

theorem hexafsTxCommit_readsNothing : ReadsNothing hexafsTxCommit := by
  have hend : ReadsNothing (do
      modifyTx fun tx => { tx with active := false }
      pure true) := Code.Uses.bind (Code.uses_modify _) fun _ => Code.uses_pure _
  refine Code.uses_memory.bind fun mem => Code.Uses.ite ?_ (Code.uses_pure _)
  refine Code.Uses.ite ?_ hend
  refine hexafsSaveBitmap_readsNothing.bind fun ok => Code.Uses.ite ?_ (Code.uses_pure _)
  exact hexafsWriteSuperblock_readsNothing.bind fun ok => hend.ite (Code.uses_pure _)

theorem commitRoot_readsNothing (newRoot : UInt32) (name : CString) :
    ReadsNothing (commitRoot newRoot name) := by
  refine Code.Uses.bind (Code.uses_modify _) fun _ => ?_
  refine (hexafsSnapCreate_readsNothing name).bind fun _ => ?_
  exact hexafsTxCommit_readsNothing.bind fun _ => Code.uses_pure _

/-- hexafs_mount behind a failed hexafs_mount_disk. -/
theorem formatStore_readsNothing : ReadsNothing formatStore := by
  refine hexafsFormat_readsNothing.bind fun formatted => Code.Uses.ite ?_ (Code.uses_pure _)
  refine hexafsAbstractionCreate_readsNothing.bind fun rootAbs => (Code.uses_pure _).ite ?_
  refine hexafsTxBegin_readsNothing.bind fun _ => ?_
  exact (commitRoot_readsNothing _ _).bind fun _ => Code.uses_pure _

/-- The environment with a drive that reads every sector. -/
def Environment.readable (env : Environment) : Environment := { env with readOk := fun _ => true }

/-- Code that reads nothing runs as on a drive that reads every sector. -/
theorem ReadsNothing.run_eq {α : Type} {code : HexafsM α} (h : ReadsNothing code)
    (env : Environment) (machine : Machine) :
    machine.run env code = machine.run env.readable code := by
  have hsame : ∀ op (dev : Device), op.NoRead →
      cachedDevice env op dev = cachedDevice env.readable op dev := by
    intro op dev hop
    cases op with
    | read lba => exact hop.elim
    | write lba buf => rfl
    | clearCache => rfl
    | kmalloc size => rfl
  rw [Machine.run, h.exec_congr hsame, ← Machine.run]

end Formats

section Reads

variable {env : Environment} {sectors : UInt32 → Sector} {mem : Memory} {dev : Device}

/-- A machine that was switched on has made `n` sector reads and written nothing. Its cache holds
blocks that were read. -/
structure Reading (sectors : UInt32 → Sector) (n : ℕ) (seen : List UInt32) (dev : Device) : Prop where
  /-- The sectors are those of the disk. -/
  sectors_eq : dev.disk.sectors = sectors
  /-- Nothing was written. -/
  log : dev.disk.log = []
  /-- So many sectors were read. -/
  readCount : dev.disk.readCount = n
  /-- The cache agrees with the disk. -/
  coherent : dev.Coherent
  /-- The cache holds what was read. -/
  slots : ∀ slot ∈ dev.blockCache, slot.lba = 0 ∨ slot.lba ∈ seen

theorem reading_boot (sectors : UInt32 → Sector) : Reading sectors 0 [] (Machine.boot sectors).dev := by
  refine ⟨rfl, rfl, rfl, Machine.coherent_boot sectors, fun slot hslot => .inl ?_⟩
  rw [(List.mem_replicate.mp hslot).2]

/-- The next read of a block that was not read before asks the drive. -/
theorem Reading.read {n : ℕ} {seen : List UInt32} (h : Reading sectors n seen dev) {lba : UInt32}
    (hvalid : ValidLba lba) (hne : lba ≠ 0) (hnew : lba ∉ seen)
    {post : Option Sector → Memory → Device → Prop}
    (hfail : env.readOk n = false → ∀ dev', Reading sectors (n + 1) seen dev' → post none mem dev')
    (hok : env.readOk n = true → ∀ dev', Reading sectors (n + 1) (lba :: seen) dev' →
      post (some (sectors lba)) mem dev') :
    (hexafsBlockRead lba).wp (cachedDevice env) mem dev post := by
  have hmiss : cacheFind lba dev.blockCache = none := by
    rw [cacheFind, List.findIdx?_eq_none_iff]
    intro slot hslot
    refine beq_eq_false_iff_ne.mpr fun heq => ?_
    rcases h.slots slot hslot with hzero | hseen
    · exact hne (heq.symm.trans hzero)
    · exact hnew (heq ▸ hseen)
  have hnone := cacheFind_none hmiss
  have hcount : env.readOk dev.disk.readCount = env.readOk n := congrArg env.readOk h.readCount
  suffices hpost : post (cacheRead env lba dev).1 mem (cacheRead env lba dev).2 from
    Code.wp_request rfl hpost
  cases hread : env.readOk n with
  | false =>
    rw [hread] at hcount
    rw [cacheRead_failed hmiss hcount]
    exact hfail hread _ ⟨h.sectors_eq, h.log, congrArg (· + 1) h.readCount, h.coherent, h.slots⟩
  | true =>
    rw [hread] at hcount
    have hdata : dev.disk.sectors (ataAddress lba) = sectors lba := by
      rw [h.sectors_eq, ataAddress_of_valid hvalid]
    rw [cacheRead_missed hmiss hcount, hdata]
    refine hok hread _ ⟨h.sectors_eq, h.log, congrArg (· + 1) h.readCount, ?_, fun slot hslot => ?_⟩
    · refine CacheCoherent.set h.coherent (fun j b hb hlba => ?_) (fun _ => ?_)
        fun _ _ => ⟨rfl, rfl⟩
      · exact absurd hlba (hnone b (List.mem_of_getElem? hb))
      · exact (congrFun h.sectors_eq lba).symm
    · rcases List.mem_or_eq_of_mem_set hslot with hold | hnew'
      · exact (h.slots slot hold).imp id (List.mem_cons_of_mem lba)
      · exact .inr (hnew' ▸ List.mem_cons_self ..)

/-- The reads of hexafs_mount_disk. -/
def MountReadsOk (env : Environment) : Prop :=
  env.readOk 0 = true ∧ env.readOk 1 = true ∧ env.readOk 2 = true

/-- How hexafs_mount_disk ends on a disk with a valid superblock. -/
structure MountTried (env : Environment) (sectors : UInt32 → Sector) (mem : Memory) (ok : Bool)
    (mem' : Memory) (dev : Device) : Prop where
  /-- Some sectors were read and none written. -/
  reading : ∃ n seen, Reading sectors n seen dev
  /-- The hint is in range. -/
  hint : mem'.allocator.HintOk
  /-- No transaction is open. -/
  idle : mem'.currentTx.active = false
  /-- It succeeds exactly when its reads do. -/
  ok_iff : ok = true ↔ MountReadsOk env
  /-- The statics are then those of the disk. -/
  mounted : ok = true → mem' = mem.mountedOn sectors

/-- One iteration of bitmap_load. -/
theorem Reading.loadStep {n left i : ℕ} {seen : List UInt32} (h : Reading sectors n seen dev)
    {lba : UInt32} (hlba : hexafsAllocLba + UInt32.ofNat i = lba) (hvalid : ValidLba lba)
    (hne : lba ≠ 0) (hnew : lba ∉ seen) {post : Bool → Memory → Device → Prop}
    (hfail : env.readOk n = false → ∀ dev', Reading sectors (n + 1) seen dev' → post false mem dev')
    (hok : env.readOk n = true → ∀ dev', Reading sectors (n + 1) (lba :: seen) dev' →
      (loadBitmapFrom left (i + 1)).wp (cachedDevice env)
        (mem.withBitmap (bitmapStore mem.allocator.bitmap i (sectors lba))) dev' post) :
    (loadBitmapFrom (left + 1) i).wp (cachedDevice env) mem dev post := by
  rw [loadBitmapFrom, hlba, Code.wp_bind]
  refine h.read hvalid hne hnew (fun hread dev' hdev => ?_) fun hread dev' hdev => ?_
  · dsimp only
    rw [Code.wp_pure]
    exact hfail hread dev' hdev
  · dsimp only
    rw [Code.wp_bind, wp_modifyAllocator_cached]
    exact hok hread dev' hdev

/-- bitmap_load after the superblock was read. -/
theorem bitmapLoad_reads {seen : List UInt32} (h : Reading sectors 1 seen dev)
    (hseen : hexafsAllocLba ∉ seen ∧ hexafsAllocLba + 1 ∉ seen) {bitmap : Vector UInt8 1024}
    (hbitmap : diskBitmap sectors = bitmap) {post : Bool → Memory → Device → Prop}
    (hfail : (env.readOk 1 && env.readOk 2) = false → ∀ n seen' bitmap dev',
      Reading sectors n seen' dev' → post false (mem.withBitmap bitmap) dev')
    (hok : (env.readOk 1 && env.readOk 2) = true → ∀ seen' dev', Reading sectors 3 seen' dev' →
      post true { mem with allocator :=
        { mem.allocator with bitmap := bitmap, dirty := false } } dev') :
    bitmapLoad.wp (cachedDevice env) mem dev post := by
  have hzero : hexafsAllocLba + UInt32.ofNat 0 = hexafsAllocLba := rfl
  have hone : hexafsAllocLba + UInt32.ofNat (0 + 1) = hexafsAllocLba + 1 := rfl
  have hnext : hexafsAllocLba + 1 ∉ hexafsAllocLba :: seen := fun hmem =>
    (List.mem_cons.mp hmem).elim commitSectors_ne.2.2.symm hseen.2
  rw [bitmapLoad, Code.wp_bind]
  refine h.loadStep hzero allocLba_valid.1 (by decide) hseen.1 (fun hread dev' hdev => ?_)
    fun hread dev' hdev => ?_
  · rw [if_neg Bool.false_ne_true, Code.wp_pure]
    exact hfail (by rw [hread, Bool.false_and]) _ _ mem.allocator.bitmap _ hdev
  · refine hdev.loadStep hone allocLba_valid.2 (by decide) hnext (fun hread' dev'' hdev' => ?_)
      fun hread' dev'' hdev' => ?_
    · rw [if_neg Bool.false_ne_true, Code.wp_pure]
      exact hfail (by rw [hread', Bool.and_false]) _ _ _ _ hdev'
    · have hstored : bitmapStore (mem.withBitmap (bitmapStore mem.allocator.bitmap 0
          (sectors hexafsAllocLba))).allocator.bitmap (0 + 1) (sectors (hexafsAllocLba + 1)) =
            bitmap := (bitmapStore_bitmapStore _ _ _).trans hbitmap
      rw [hstored, Memory.withBitmap_withBitmap, loadBitmapFrom, Code.wp_pure, if_pos rfl,
        Code.wp_bind, wp_modifyAllocator_cached, Code.wp_pure]
      exact hok (by rw [hread, hread', Bool.and_self]) _ _ hdev'

/-- hexafs_mount_disk on a machine that was switched on with a store. -/
theorem hexafsMountDisk_reads (hvalid : superblockValid (superblockAt sectors) = true)
    (hhint : mem.allocator.HintOk) (hidle : mem.currentTx.active = false) :
    hexafsMountDisk.wp (cachedDevice env) mem (Machine.boot sectors).dev
      fun ok mem' dev => MountTried env sectors mem ok mem' dev := by
  have hsb : ofBlock HexafsSuperblock (sectors hexafsSuperLba) = superblockAt sectors := rfl
  have hclear : (clearBlockCache : HexafsM Unit).wp (cachedDevice env) mem
      (Machine.boot sectors).dev fun _ mem' dev => mem' = mem ∧ Reading sectors 0 [] dev :=
    Code.wp_request rfl ⟨rfl, reading_boot sectors⟩
  simp only [hexafsMountDisk, Code.wp_bind]
  refine Code.wp_mono hclear fun _ mem' dev hcleared => ?_
  obtain ⟨rfl, hstart⟩ := hcleared
  simp only [hexafsReadSuperblock, Code.wp_bind]
  refine hstart.read superLba_valid (by decide) List.not_mem_nil (fun hread dev' hdev => ?_)
    fun hread dev' hdev => ?_
  · dsimp only
    rw [Code.wp_pure, if_neg Bool.false_ne_true, Code.wp_pure]
    exact ⟨⟨_, _, hdev⟩, hhint, hidle,
      iff_of_false Bool.false_ne_true fun hall => Bool.false_ne_true (hread.symm.trans hall.1),
      fun h => absurd h Bool.false_ne_true⟩
  · have hseen : hexafsAllocLba ∉ [hexafsSuperLba] ∧ hexafsAllocLba + 1 ∉ [hexafsSuperLba] := by
      decide
    obtain ⟨bitmap, hbitmap⟩ : ∃ bitmap, diskBitmap sectors = bitmap := ⟨_, rfl⟩
    simp only [hsb, hvalid, if_true, Code.wp_bind, Code.wp_modify, Code.wp_pure]
    refine bitmapLoad_reads hdev hseen hbitmap (fun hrest n seen partly dev'' hdev' => ?_)
      fun hrest seen dev'' hdev' => ?_
    · rw [if_neg Bool.false_ne_true, Code.wp_pure]
      refine ⟨⟨_, _, hdev'⟩, hhint, hidle, iff_of_false Bool.false_ne_true fun hall => ?_,
        fun h => absurd h Bool.false_ne_true⟩
      rw [hall.2.1, hall.2.2] at hrest
      cases hrest
    · rw [if_pos rfl, Code.wp_bind, Code.wp_modify, Code.wp_pure]
      rw [Bool.and_eq_true] at hrest
      refine ⟨⟨_, _, hdev'⟩, hhint, hidle, iff_of_true rfl ⟨hread, hrest.1, hrest.2⟩, fun _ => ?_⟩
      rw [Memory.mountedOn, hbitmap]
      rfl

end Reads

section Mounts

variable {env : Environment} {sectors : UInt32 → Sector}

/-- What a mount of a store may do: it mounts the store of the sectors or returns 0, and wherever
it is stopped, the superblock, the bitmap and the allocated blocks are as they were. -/
structure MountsOrRefuses (sectors : UInt32 → Sector) (ok : Bool) (machine' : Machine) : Prop where
  /-- Mounted, it has the superblock and the bitmap of the disk. -/
  mounted : ok = true → machine'.mem.hexafsMounted = true ∧
    machine'.mem.sbCache = superblockAt sectors ∧
      machine'.mem.allocator.bitmap = diskBitmap sectors
  /-- Wherever it is stopped, the store is as before. -/
  kept : ∀ k b, IsCommitSector b ∨ (InStore b ∧ (bootAllocator sectors).Used b) →
    (Machine.boot sectors).stoppedAfter machine' k b = sectors b

/-- The two superblocks that a formatting writes differ. -/
theorem formatStore_superblocks {start machine' : Machine} {ok : Bool} (hwrites : env.WritesOk)
    (hcoh : start.dev.Coherent) (hlog : start.dev.disk.log = []) (hhint : start.mem.allocator.HintOk)
    (hidle : start.mem.currentTx.active = false)
    (hrun : start.run env formatStore = .ok (ok, machine')) :
    (∃ rest, machine'.dev.disk.log =
      (hexafsSuperLba, toBlock 512 (nextSuperblock formatSuperblock)) :: rest) ∧
      machine'.sectors = applyWrites machine'.dev.disk.log start.sectors ∧
        (superblockAt machine'.sectors).formatGen = 3 := by
  have hio : env.readable.IoOk := ⟨fun _ => rfl, hwrites⟩
  have hwp : formatStore.wp (plainDevice env.readable) start.mem start.dev.plain fun _ mem' d' =>
      Formatted env.readable start.mem start.dev.plain mem' d' :=
    formatStore_spec hio.writes hhint hidle fun _ _ hformatted => hformatted
  rw [formatStore_readsNothing.run_eq] at hrun
  obtain ⟨_, hformatted⟩ := Machine.run_elim hio.reads hcoh hwp
    (fun _ _ _ hformatted => hformatted.store.choose_spec.stale) hrun
  obtain ⟨rest, hrest⟩ := hformatted.log
  obtain ⟨writes, hwritten, hsec⟩ := hformatted.sectors
  have hnil : start.dev.plain.log = [] := hlog
  rw [hnil, List.nil_append] at hrest hwritten
  refine ⟨⟨rest, hrest⟩, ?_, ?_⟩
  · have hall : machine'.dev.disk.log = writes := hwritten
    rw [hall]
    exact hsec
  · have hsuper : superblockAt machine'.sectors = machine'.mem.sbCache :=
      hformatted.committed.superblock
    rw [hsuper, hformatted.formatGen]

/-- The sectors that a stopped mount leaves. -/
theorem stoppedAfter_boot (sectors : UInt32 → Sector) (machine' : Machine) (k : ℕ) :
    (Machine.boot sectors).stoppedAfter machine' k =
      applyWrites (machine'.dev.disk.log.take k) sectors := rfl

/-- hexafs_mount goes on from where hexafs_mount_disk has ended. -/
theorem hexafsMount_tried (env : Environment)
    (hvalid : superblockValid (superblockAt sectors) = true) :
    ∃ (tried : Bool) (start : Machine),
      MountTried env sectors Memory.boot tried start.mem start.dev ∧
        (Machine.boot sectors).run env hexafsMount =
          start.run env (if tried = true then pure true else formatStore) := by
  have hwp : hexafsMountDisk.wp (cachedDevice env) (Machine.boot sectors).mem
      (Machine.boot sectors).dev fun ok mem dev => MountTried env sectors Memory.boot ok mem dev :=
    hexafsMountDisk_reads hvalid Memory.boot_hintOk Memory.boot_idle
  obtain ⟨tried, start, htry, hstart⟩ := Machine.run_of_faulty hwp
  refine ⟨tried, start, hstart, ?_⟩
  rw [hexafsMount_eq, Machine.run_bind, htry]
  rfl

/-- A failed read formats the disk, and the superblock changes on the way. -/
theorem not_mountsOrRefuses (hvalid : superblockValid (superblockAt sectors) = true)
    (hwrites : env.WritesOk) (hfailed : ¬MountReadsOk env) {ok : Bool} {machine' : Machine}
    (hrun : (Machine.boot sectors).run env hexafsMount = .ok (ok, machine')) :
    ¬MountsOrRefuses sectors ok machine' := by
  intro hkeeps
  obtain ⟨tried, start, hstart, hsplit⟩ := hexafsMount_tried env hvalid
  obtain ⟨n, seen, hreading⟩ := hstart.reading
  rw [hsplit, if_neg fun htried => hfailed (hstart.ok_iff.mp htried)] at hrun
  obtain ⟨⟨rest, hrest⟩, hsec, hgen⟩ := formatStore_superblocks hwrites hreading.coherent
    hreading.log hstart.hint hstart.idle hrun
  -- the first superblock that is written, and the last one
  have hfirst := hkeeps.kept 1 hexafsSuperLba (.inl (.inl rfl))
  have hlast := hkeeps.kept machine'.dev.disk.log.length hexafsSuperLba (.inl (.inl rfl))
  rw [stoppedAfter_boot, hrest, List.take_succ_cons, List.take_zero, applyWrites_cons,
    applyWrites_nil, Function.update_self] at hfirst
  have hsame : start.sectors = sectors := hreading.sectors_eq
  rw [stoppedAfter_boot, List.take_length, ← hsame, ← hsec] at hlast
  have hold : (superblockAt sectors).formatGen = 2 := by
    rw [superblockAt, ← hfirst, ofBlock_toBlock]
    rfl
  have hnew : (superblockAt sectors).formatGen = 3 := by
    rw [← hgen, superblockAt, superblockAt, hlast, hsame]
  rw [hold] at hnew
  exact absurd hnew (by decide)

/-- Whatever reads fail while a store is mounted: it is mounted or refused and left as it was
exactly if the superblock and both sectors of the bitmap are read. -/
theorem hexafsMount_keeps_iff (hvalid : superblockValid (superblockAt sectors) = true)
    (hwrites : env.WritesOk) :
    (∃ ok machine', (Machine.boot sectors).run env hexafsMount = .ok (ok, machine') ∧
      MountsOrRefuses sectors ok machine') ↔ MountReadsOk env := by
  constructor
  · rintro ⟨ok, machine', hrun, hkeeps⟩
    by_contra hfailed
    exact not_mountsOrRefuses hvalid hwrites hfailed hrun hkeeps
  · intro hread
    obtain ⟨tried, start, hstart, hsplit⟩ := hexafsMount_tried env hvalid
    obtain ⟨n, seen, hreading⟩ := hstart.reading
    have htried := hstart.ok_iff.mpr hread
    rw [if_pos htried] at hsplit
    refine ⟨true, start, hsplit, fun _ => ?_, fun k b _ => ?_⟩
    · rw [hstart.mounted htried]
      exact ⟨rfl, rfl, rfl⟩
    · rw [stoppedAfter_boot, hreading.log, List.take_nil]
      rfl

/-- A store with a form on a drive that reads every sector. -/
theorem hexafsMount_keeps_saved : ∃ saved : Machine,
    List.Forall₂ (FormStored saved.sectors) (absEntries saved.sectors
      (rootAbsAt saved.sectors saved.mem.sbCache.rootSnapBlock)) [emptyForm] ∧
      ∃ ok machine', (Machine.boot saved.sectors).run .faultless hexafsMount = .ok (ok, machine') ∧
        MountsOrRefuses saved.sectors ok machine' := by
  obtain ⟨saved, roles, hsaved⟩ := exists_savedOne
  exact ⟨saved, hsaved.entries, (hexafsMount_keeps_iff hsaved.settled.image.valid
    Environment.faultless_ioOk.writes).mpr ⟨rfl, rfl, rfl⟩⟩

/-- A drive that fails the first read. -/
def firstReadFails : Environment :=
  { Environment.faultless with readOk := fun n => n ≠ 0 }

/-- A new store on a drive that fails to read the superblock. -/
theorem hexafsMount_reformats : ∃ start roles,
    (Machine.boot blankDisk).run .faultless hexafsMount = .ok (true, start) ∧
      Image start.sectors roles start.mem.allocator ∧
      ¬∃ ok machine', (Machine.boot start.sectors).run firstReadFails hexafsMount =
        .ok (ok, machine') ∧ MountsOrRefuses start.sectors ok machine' := by
  obtain ⟨start, roles, hmount, hfresh⟩ := exists_fresh
  refine ⟨start, roles, hmount, hfresh.settled.image, ?_⟩
  rintro ⟨ok, machine', hrun, hkeeps⟩
  have hwrites : firstReadFails.WritesOk := Environment.faultless_ioOk.writes
  have hfailed : ¬MountReadsOk firstReadFails := fun hread => absurd hread.1 (by decide)
  exact not_mountsOrRefuses hfresh.settled.image.valid hwrites hfailed hrun hkeeps

end Mounts

end HexaOS.Hexafs
