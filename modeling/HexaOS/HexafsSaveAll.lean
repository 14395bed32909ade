import HexaOS.HexafsForms

/-!
# Saving the form table

hexafs_save_all on a store, when every write succeeds. Without a free block
nothing happens. Otherwise the forms go into a new abstraction, one block at a
time out of the free ones, and the superblock that names a snapshot of it is the
last sector to be written.
-/

namespace HexaOS.Hexafs

open DevicePrograms PackedBytes StoreTyping

/-- The abstraction that a root snapshot names, 0 when there is none. -/
def rootAbsAt (sectors : UInt32 → Sector) (root : UInt32) : UInt32 :=
  if root = 0 then 0
  else if (snapAt sectors root).magic = hexafsSnapMagic then (snapAt sectors root).rootObjectBlock
  else 0

variable {env : Environment} {mem : Memory} {d : PlainDisk} {roles : UInt32 → Option Role}

/-- A root that the heap knows. -/
theorem Heap.rootAbsAt_eq {sectors : UInt32 → Sector} {a : Allocator} {root : UInt32}
    (h : Heap sectors roles a) (hroot : roles root = some .snapshot) :
    rootAbsAt sectors root = (snapAt sectors root).rootObjectBlock := by
  have hne : root ≠ 0 := (h.covered root _ hroot).1.ne_zero
  rw [rootAbsAt, if_neg hne, if_pos (h.snapshot hroot).1]

/-- The root abstraction of a known root. -/
theorem Heap.rootAbsAt_role {sectors : UInt32 → Sector} {a : Allocator} {root : UInt32}
    (h : Heap sectors roles a)
    (hroot : root ≠ 0 → roles root = some .snapshot) (hne : rootAbsAt sectors root ≠ 0) :
    roles (rootAbsAt sectors root) = some .abstraction := by
  by_cases hzero : root = 0
  · rw [rootAbsAt, if_pos hzero] at hne
    exact absurd rfl hne
  · rw [h.rootAbsAt_eq (hroot hzero)] at hne ⊢
    exact (h.snapshot (hroot hzero)).2.2 hne

/-- A heap under the root of the statics, on a disk that can be read. The loaders
need no more than that. -/
structure Readable (mem : Memory) (d : PlainDisk) (roles : UInt32 → Option Role) (a : Allocator) :
    Prop where
  /-- The heap is sound. -/
  heap : Heap d.sectors roles a
  /-- The root is a snapshot. -/
  root : mem.sbCache.rootSnapBlock ≠ 0 → roles mem.sbCache.rootSnapBlock = some .snapshot
  /-- No sector is stale. -/
  stale : ∀ b, d.stale b = false

theorem StoreAt.readable {active : Bool} (h : StoreAt active mem d roles) :
    Readable mem d roles mem.allocator := ⟨h.heap, h.root, h.stale⟩

theorem StoreAt.rootAbs_role {active : Bool} (h : StoreAt active mem d roles)
    (hne : rootAbsAt d.sectors mem.sbCache.rootSnapBlock ≠ 0) :
    roles (rootAbsAt d.sectors mem.sbCache.rootSnapBlock) = some .abstraction :=
  h.heap.rootAbsAt_role h.root hne

/-- The root abstraction depends on the root snapshot only. -/
theorem rootAbsAt_congr {sectors sectors' : UInt32 → Sector} {root : UInt32}
    (h : root ≠ 0 → sectors' root = sectors root) :
    rootAbsAt sectors' root = rootAbsAt sectors root := by
  by_cases hzero : root = 0
  · rw [rootAbsAt, rootAbsAt, if_pos hzero, if_pos hzero]
  · have hsnap : snapAt sectors' root = snapAt sectors root :=
      congrArg (ofBlock HexafsSnap) (h hzero)
    rw [rootAbsAt, rootAbsAt, hsnap]

/-- The store keeps its root abstraction while the blocks of the heap are unchanged. -/
theorem StoreAt.rootAbsAt_eq {active : Bool} (h : StoreAt active mem d roles)
    {sectors' : UInt32 → Sector}
    (hsame : ∀ b, roles b = some .snapshot → sectors' b = d.sectors b) :
    rootAbsAt sectors' mem.sbCache.rootSnapBlock =
      rootAbsAt d.sectors mem.sbCache.rootSnapBlock :=
  rootAbsAt_congr fun hne => hsame _ (h.root hne)

/-- What hexafs_save_all leaves when there was a free block for the new abstraction `n`. -/
structure SavedAll (env : Environment) (mem : Memory) (d : PlainDisk)
    (roles : UInt32 → Option Role) (n : UInt32) (saved : List FormEntry) (free : ℕ)
    (mem' : Memory) (d' : PlainDisk) (roles' : UInt32 → Option Role) : Prop where
  /-- The store is in order. -/
  store : Store mem' d' roles'
  /-- It is committed. -/
  committed : Committed mem' d'.sectors
  /-- No block loses its role. -/
  extend : Extends roles roles'
  /-- Nothing that had a role before is touched. -/
  same : ∀ b role, roles b = some role → d'.sectors b = d.sectors b
  /-- The abstraction was free. -/
  fresh : mem.allocator.Fresh n
  /-- It has its role. -/
  role : roles' n = some .abstraction
  /-- The entries are those of the saved forms. -/
  entries : List.Forall₂ (FormStored d'.sectors) (absEntries d'.sectors n) saved
  /-- The saved forms keep their order. -/
  sublist : saved.Sublist mem.forms
  /-- There are at most twelve. -/
  length_le : saved.length ≤ 12
  /-- `free` blocks are left for the snapshot. -/
  budget : (⟨saved.length, free⟩ : SaveBudget) =
    (formCosts (servedForms env d.kmallocCount mem.forms)).foldl SaveBudget.form
      ⟨0, mem.allocator.freeCount - 1⟩
  /-- Without failures the first twelve are saved. -/
  complete : env.KmallocOk → mem'.allocator.outOfBlocks = false → saved = mem.forms.take 12
  /-- Without a block for the snapshot the old root is committed again. -/
  root : (free = 0 ∧ mem'.allocator.outOfBlocks = true ∧
      mem'.sbCache.rootSnapBlock = mem.sbCache.rootSnapBlock) ∨
    (0 < free ∧ roles' mem'.sbCache.rootSnapBlock = some .snapshot ∧
      mem.allocator.Fresh mem'.sbCache.rootSnapBlock ∧
      (snapAt d'.sectors mem'.sbCache.rootSnapBlock).parentSnapBlock = mem.sbCache.rootSnapBlock ∧
      rootAbsAt d'.sectors mem'.sbCache.rootSnapBlock = n)
  /-- The superblock is written last. -/
  last : ∃ mid, Wrote env
      (fun b => mem.allocator.Fresh b ∨ b = hexafsAllocLba ∨ b = hexafsAllocLba + 1) d mid ∧
    d' = mid.write env hexafsSuperLba (toBlock 512 mem'.sbCache)
  /-- A disk that was full stays marked so. -/
  outOfBlocks : mem.allocator.outOfBlocks = true → mem'.allocator.outOfBlocks = true
  /-- The snapshot takes one of the blocks that are left. -/
  left : 0 < free → mem'.allocator.freeCount + 1 = free
  /-- When every form is saved and the snapshot too, nothing ran out. -/
  quiet : saved = mem.forms → 0 < free → mem'.allocator.outOfBlocks = mem.allocator.outOfBlocks
  /-- The other statics stay. -/
  statics : mem' = { mem with
    allocator := mem'.allocator
    sbCache := mem'.sbCache
    currentTx := mem'.currentTx
    txGen := mem'.txGen }

/-- What hexafs_save_all leaves without a free block: the same store. -/
structure SaveRefused (mem : Memory) (d : PlainDisk) (roles : UInt32 → Option Role)
    (mem' : Memory) : Prop where
  /-- The store is in order, on the old disk. -/
  store : Store mem' d roles
  /-- No block was free. -/
  free : mem.allocator.freeCount = 0
  /-- The full disk is marked. -/
  outOfBlocks : mem'.allocator.outOfBlocks = true
  /-- The bitmap stays. -/
  bitmap : mem'.allocator.bitmap = mem.allocator.bitmap
  /-- The superblock stays. -/
  sbCache : mem'.sbCache = mem.sbCache
  /-- The other statics stay. -/
  statics : mem' = { mem with
    allocator := mem'.allocator
    currentTx := mem'.currentTx
    txGen := mem'.txGen }

/-- How hexafs_save_all ends on a store, when every write succeeds. -/
inductive SaveOutcome (env : Environment) (mem : Memory) (d : PlainDisk)
    (roles : UInt32 → Option Role) : Memory → PlainDisk → Prop where
  | refused {mem' : Memory} {d' : PlainDisk} (h : SaveRefused mem d roles mem') (hd : d' = d) :
    SaveOutcome env mem d roles mem' d'
  | saved {n : UInt32} {saved : List FormEntry} {free : ℕ} {mem' : Memory} {d' : PlainDisk}
    {roles' : UInt32 → Option Role} (h : SavedAll env mem d roles n saved free mem' d' roles') :
    SaveOutcome env mem d roles mem' d'

/-- hexafs_save_all up to its commit: without a free block the transaction is aborted,
otherwise the forms are in the new abstraction `n` when the root is committed. -/
theorem hexafsSaveAll_toCommit (hok : env.WritesOk) (h : Store mem d roles)
    {post : Unit → Memory → PlainDisk → Prop}
    (hrefused : mem.allocator.freeCount = 0 → post () mem.begun.diskFull.aborted d)
    (hcommit : ∀ n a₁ saved a₂ d₂ roles₂, Grown mem.allocator a₁ [n] →
      a₁.outOfBlocks = mem.allocator.outOfBlocks →
      FormsSaved env n mem.allocator d roles saved a₂ d₂ roles₂ →
      FormsDone env mem.forms [] a₁ d.kmallocCount saved a₂ →
      (commitRoot n liveName).wp (plainDevice env) { mem.begun with allocator := a₂ } d₂ post) :
    hexafsSaveAll.wp (plainDevice env) mem d post := by
  simp only [hexafsSaveAll, Code.wp_bind, Code.wp_memory, h.mounted, if_true]
  refine hexafsTxBegin_spec h.active_eq ?_
  have hbegun := h.begun
  refine hexafsAbstractionCreate_spec hbegun.hint (fun hfree => ?_)
    (fun _ _ _ _ hbad => absurd hok hbad) fun n a₁ hgrown hquiet _ => ?_
  · rw [if_pos rfl]
    simp only [Code.wp_bind, Code.wp_pure]
    exact hexafsTxAbort_spec rfl (hrefused hfree)
  · have hfresh : mem.allocator.Fresh n := hgrown.fresh n (List.mem_singleton_self n)
    rw [if_neg hfresh.1.ne_zero]
    simp only [Code.wp_bind]
    have hwrote : Wrote env mem.allocator.Fresh d
        ((d.write env n zeroSector).write env n (toBlock 512 newAbstraction)) :=
      (Wrote.refl.write hfresh).write hfresh
    have hsector := (PlainDisk.write_reaches n (toBlock 512 newAbstraction)
      (hok.reaches (d.write env n zeroSector).writeCount)).1
    have hheap : ((d.write env n zeroSector).write env n (toBlock 512 newAbstraction)).kmallocCount =
        d.kmallocCount := by
      rw [PlainDisk.write_kmallocCount, PlainDisk.write_kmallocCount]
    generalize (d.write env n zeroSector).write env n (toBlock 512 newAbstraction) = d₁
      at hwrote hsector hheap
    have hblocks := h.heap.addAbstraction hgrown
      (fun b role hb => hwrote.sectors_eq (h.heap.not_fresh hb)) hsector
    have hext : Extends roles (assign [(n, .abstraction)] roles) :=
      h.heap.extends_assign fun entry hentry => by
        rw [List.mem_singleton.mp hentry]
        exact hfresh.2
    have hhead : headerAt d₁.sectors n = newAbstraction := by
      rw [headerAt, hsector, ofBlock_toBlock]
    have hempty : absEntries d₁.sectors n = [] := by
      rw [absEntries, hhead, newAbstraction_nextChain, if_pos rfl]
      rfl
    have hstart : FormsSaved env n mem.allocator d roles [] a₁ d₁ (assign [(n, .abstraction)] roles) :=
      { heap := hblocks
        extend := hext
        fresh := hfresh
        grown := ⟨[n], hgrown⟩
        wrote := hwrote
        role := assign_of_mem (by simp) (List.mem_singleton_self _)
        entries := by rw [hempty]; exact .nil
        linked := by
          rw [hhead, newAbstraction_nextChain]
          exact ⟨fun _ => Nat.zero_le _, fun _ => rfl⟩
        length_le := Nat.zero_le _ }
    have hlist : (List.range' 0 mem.formCount).map mem.formTable = mem.forms := by
      rw [Memory.forms, List.range_eq_range']
    refine saveForms_spec hok h.stale hstart fun saved a₂ d₂ roles₂ hdone hforms => ?_
    rw [hheap] at hforms
    exact hcommit n a₁ saved a₂ d₂ roles₂ hgrown hquiet hdone (hlist ▸ hforms)

/-- The store between the forms of hexafs_save_all and its commit. -/
theorem FormsSaved.store {n : UInt32} {saved : List FormEntry} {a₂ : Allocator} {d₂ : PlainDisk}
    {roles₂ : UInt32 → Option Role} (h : Store mem d roles) (hok : env.WritesOk)
    (hdone : FormsSaved env n mem.allocator d roles saved a₂ d₂ roles₂) :
    StoreAt true { mem.begun with allocator := a₂ } d₂ roles₂ := by
  obtain ⟨blocks, hgrown⟩ := hdone.grown
  exact h.begun.grow hok hgrown (hdone.wrote.mono fun b hb => hb.1.not_commitSector) hdone.extend
    hdone.heap

/-- hexafs_save_all on a store, when every write succeeds. -/
theorem hexafsSaveAll_spec (hok : env.WritesOk) (h : Store mem d roles)
    {post : Unit → Memory → PlainDisk → Prop}
    (hpost : ∀ mem' d', SaveOutcome env mem d roles mem' d' → post () mem' d') :
    hexafsSaveAll.wp (plainDevice env) mem d post := by
  refine hexafsSaveAll_toCommit hok h (fun hfree => ?_)
    fun n a₁ saved a₂ d₂ roles₂ hgrown hquiet hdone hforms => ?_
  · refine hpost _ _ (.refused ⟨?_, hfree, rfl, rfl, rfl, rfl⟩ rfl)
    exact ⟨h.heap.frame (fun _ => id) fun _ _ _ => rfl, h.hint, h.root, h.mounted, rfl, h.stale,
      h.clean⟩
  · have hfresh : mem.allocator.Fresh n := hgrown.fresh n (List.mem_singleton_self n)
    have hcount := hgrown.freeCount_add
    rw [List.length_singleton] at hcount
    obtain ⟨blocks, hgrown₂⟩ := hdone.grown
    refine (hdone.store h hok).commitRoot hok (fun _ => hdone.role) fun mem' d' roles' hext' hstore'
      hcommitted hroot hsame => ?_
    have hcount₁ : a₁.freeCount = mem.allocator.freeCount - 1 := by
      have hcount' : a₁.freeCount + 1 = mem.allocator.freeCount := hcount
      omega
    apply hpost mem' d'
    apply SaveOutcome.saved
    show SavedAll env mem d roles n saved a₂.freeCount mem' d' roles'
    refine
      { store := hstore'
        committed := hcommitted
        extend := hdone.extend.trans hext'
        same := fun b role hb => ?_
        fresh := hfresh
        role := hext' _ _ hdone.role
        entries := ?_
        sublist := ?_
        length_le := hdone.length_le
        budget := ?_
        complete := fun hkm hout => ?_
        root := ?_
        last := ?_
        outOfBlocks := fun hout => ?_
        left := fun hfree => ?_
        quiet := fun hall hfree => ?_
        statics := ?_ }
    · rw [hsame b role (hdone.extend _ _ hb)]
      exact hdone.wrote.sectors_eq (h.heap.not_fresh hb)
    · have hentries : absEntries d'.sectors n = absEntries d₂.sectors n :=
        absEntries_congr (hsame n _ hdone.role) fun hne =>
          hsame _ _ (hdone.heap.chain hdone.role hne)
      rw [hentries]
      exact hdone.entries_frame fun b role hb _ => hsame b role hb
    · obtain ⟨more, hmore, hsub⟩ := hforms.sublist
      rw [hmore, List.nil_append]
      exact hsub
    · rw [← hcount₁]
      exact hforms.budget
    · refine hforms.complete hkm ?_
      cases hb : a₂.outOfBlocks with
      | false => rfl
      | true =>
        have hbad := hroot.outOfBlocks hb
        rw [hout] at hbad
        cases hbad
    · rcases hroot.outcome with ⟨hfree, hout, hkeep, _⟩ | ⟨s, hgrown₃, _, hs, hsnap⟩
      · exact .inl ⟨hfree, hout, hkeep⟩
      · have hnew := hgrown₃.fresh s (List.mem_singleton_self s)
        have hcount₃ := hgrown₃.freeCount_add
        rw [List.length_singleton] at hcount₃
        have hat : snapAt d'.sectors s =
            newSnap (Memory.marked { mem.begun with allocator := a₂ } n) liveName := by
          rw [snapAt, hsnap, ofBlock_toBlock]
        have hrole' := hstore'.root (by rw [hs]; exact hnew.1.ne_zero)
        right
        refine ⟨?_, hrole', ?_, ?_, ?_⟩
        · have hfree : a₂.freeCount = _ := hcount₃.symm
          omega
        · rw [hs]
          exact hgrown₂.fresh_of_fresh hnew
        · rw [hs, hat]
          rfl
        · rw [hstore'.heap.rootAbsAt_eq hrole', hs, hat]
          rfl
    · obtain ⟨mid, hmid, hlast⟩ := hroot.wrote
      refine ⟨mid, ?_, hlast⟩
      exact (hdone.wrote.mono fun b hb => .inl hb).trans
        (hmid.mono fun b hb => hb.imp hgrown₂.fresh_of_fresh id)
    · exact hroot.outOfBlocks (hgrown₂.outOfBlocks hout)
    · rcases hroot.outcome with ⟨hzero, _⟩ | ⟨s, hgrown₃, _⟩
      · have hzero' : a₂.freeCount = 0 := hzero
        omega
      · exact hgrown₃.freeCount_add
    · have hmid : a₂.outOfBlocks = a₁.outOfBlocks := hforms.quiet hall
      rcases hroot.outcome with ⟨hzero, _⟩ | ⟨s, _, hkept, _⟩
      · have hzero' : a₂.freeCount = 0 := hzero
        omega
      · exact (hkept.trans hmid).trans hquiet
    · have hthis := hroot.statics
      rw [hthis]
      rfl

end HexaOS.Hexafs
