import HexaOS.HexafsLoading

/-!
# Saving a configuration object

hexafs_users_save and pimp_save_rules look their entry up in the root
abstraction, write the object in place and commit a snapshot of the same
abstraction. The specifications take the text apart where its cases meet: the
lookup, the new object and its entry, and the write with the commit behind it.
-/

namespace HexaOS.Hexafs

open DevicePrograms PackedBytes StoreTyping

variable {env : Environment} {mem : Memory} {d : PlainDisk} {roles : UInt32 → Option Role}
  {name snapName : CString} {data : List UInt8}

/-- A store without a root abstraction refuses. -/
theorem saveConfig_empty (h : Store mem d roles)
    (hempty : rootAbsAt d.sectors mem.sbCache.rootSnapBlock = 0)
    {post : Bool → Memory → PlainDisk → Prop} (hpost : post false mem.begun.aborted d) :
    (saveConfig name snapName data).wp (plainDevice env) mem d post := by
  simp only [saveConfig, Code.wp_bind, Code.wp_memory, h.mounted, if_true]
  refine hexafsTxBegin_spec h.active_eq (rootAbstraction_spec h.begun.readable ?_)
  have hroot : rootAbsAt d.sectors mem.begun.sbCache.rootSnapBlock = 0 := hempty
  rw [if_pos hroot]
  simp only [Code.wp_bind, Code.wp_pure]
  exact hexafsTxAbort_spec rfl hpost

/-- An entry of the name exists: its object is written. -/
theorem saveConfig_found (h : Store mem d roles)
    (hroot : rootAbsAt d.sectors mem.sbCache.rootSnapBlock ≠ 0) {entry : HexafsAbsEntry}
    (hfind : (absEntries d.sectors (rootAbsAt d.sectors mem.sbCache.rootSnapBlock)).find?
      (fun e => nameMatches e.name name) = some entry)
    {post : Bool → Memory → PlainDisk → Prop}
    (hpost : (saveConfig.writeConfig snapName data
      (rootAbsAt d.sectors mem.sbCache.rootSnapBlock) entry.objectBlock).wp (plainDevice env)
        mem.begun d post) :
    (saveConfig name snapName data).wp (plainDevice env) mem d post := by
  have habs := h.rootAbs_role hroot
  obtain ⟨i, hi⟩ := List.mem_iff_getElem?.mp (List.mem_of_find?_eq_some hfind)
  have hne : entry.objectBlock ≠ 0 := (h.heap.covered _ _ (h.heap.entry habs hi)).1.ne_zero
  simp only [saveConfig, Code.wp_bind, Code.wp_memory, h.mounted, if_true]
  refine hexafsTxBegin_spec h.active_eq (rootAbstraction_spec h.begun.readable ?_)
  have hsame : rootAbsAt d.sectors mem.begun.sbCache.rootSnapBlock =
      rootAbsAt d.sectors mem.sbCache.rootSnapBlock := rfl
  rw [hsame, if_neg hroot, Code.wp_bind]
  refine hexafsAbstractionFind_spec (h.heap.absSound habs) (h.heap.absReadable h.stale habs) ?_
  rw [hfind]
  dsimp only [Option.map_some]
  rw [if_neg hne]
  exact hpost

/-- No entry of the name exists: an object is created. -/
theorem saveConfig_new (h : Store mem d roles)
    (hroot : rootAbsAt d.sectors mem.sbCache.rootSnapBlock ≠ 0)
    (hfind : (absEntries d.sectors (rootAbsAt d.sectors mem.sbCache.rootSnapBlock)).find?
      (fun e => nameMatches e.name name) = none)
    {post : Bool → Memory → PlainDisk → Prop}
    (hpost : (saveConfig.saveNewConfig name snapName data
      (rootAbsAt d.sectors mem.sbCache.rootSnapBlock)).wp (plainDevice env) mem.begun d post) :
    (saveConfig name snapName data).wp (plainDevice env) mem d post := by
  have habs := h.rootAbs_role hroot
  simp only [saveConfig, Code.wp_bind, Code.wp_memory, h.mounted, if_true]
  refine hexafsTxBegin_spec h.active_eq (rootAbstraction_spec h.begun.readable ?_)
  have hsame : rootAbsAt d.sectors mem.begun.sbCache.rootSnapBlock =
      rootAbsAt d.sectors mem.sbCache.rootSnapBlock := rfl
  rw [hsame, if_neg hroot, Code.wp_bind]
  refine hexafsAbstractionFind_spec (h.heap.absSound habs) (h.heap.absReadable h.stale habs) ?_
  rw [hfind]
  exact hpost

section Write

variable {absBlock block : UInt32}

/-- The blocks of an object that a write of some size reuses. -/
def keptBlocks (sectors : UInt32 → Sector) (block : UInt32) (size : ℕ) : List UInt32 :=
  (objectAt sectors block).contents.take (blocksFor size)

/-- How many blocks a write of some size still needs. -/
def neededBlocks (sectors : UInt32 → Sector) (block : UInt32) (size : ℕ) : ℕ :=
  blocksFor size - (objectAt sectors block).contents.length

/-- The header that a write leaves, with its new blocks. -/
def writtenHeader (sectors : UInt32 → Sector) (block : UInt32) (fresh : List UInt32)
    (data : List UInt8) : HexafsObject :=
  (objectAt sectors block).withContent (keptBlocks sectors block data.length ++ fresh ++
    List.replicate (4 - blocksFor data.length) 0) data

/-- The object belongs to an entry of the heap, or to nobody. -/
def OwnedOrLeaked (roles : UInt32 → Option Role) (sectors : UInt32 → Sector) (block : UInt32) :
    Prop :=
  (∃ head i, roles block = some (.object head i)) ∨
    roles block = none ∧ (objectAt sectors block).contents = []

/-- The write ran out of blocks: some content blocks are overwritten, nothing is
committed. -/
structure ConfigRefused (env : Environment) (mem : Memory) (d : PlainDisk)
    (roles : UInt32 → Option Role) (block : UInt32) (data : List UInt8) (mem' : Memory)
    (d' : PlainDisk) : Prop where
  /-- The store is in order. -/
  store : Store mem' d' roles
  /-- The blocks do not suffice. -/
  need : mem.allocator.freeCount < neededBlocks d.sectors block data.length
  /-- The contents are written in place and in fresh blocks. -/
  inPlace : ∃ mid, InPlace env d (keptBlocks d.sectors block data.length) data mid ∧
    Wrote env mem.allocator.Fresh mid d'
  /-- The full disk is marked. -/
  outOfBlocks : mem'.allocator.outOfBlocks = true
  /-- What was taken was free. -/
  grown : ∃ blocks, Grown mem.allocator mem'.allocator blocks
  /-- The other statics stay. -/
  statics : mem' = { mem with
    allocator := mem'.allocator
    currentTx := mem'.currentTx }

/-- The write and the commit behind it went through. -/
structure ConfigWritten (env : Environment) (mem : Memory) (d : PlainDisk)
    (roles : UInt32 → Option Role) (absBlock block : UInt32) (data : List UInt8) (mem' : Memory)
    (d' : PlainDisk) (roles' : UInt32 → Option Role) : Prop where
  /-- The store is in order. -/
  store : Store mem' d' roles'
  /-- It is committed. -/
  committed : Committed mem' d'.sectors
  /-- No block loses its role. -/
  extend : Extends roles roles'
  /-- The blocks suffice. -/
  need : neededBlocks d.sectors block data.length ≤ mem.allocator.freeCount
  /-- The object has the bytes. -/
  read : readObject d'.sectors block =
    some ⟨true, (objectAt d.sectors block).type, UInt32.ofNat data.length, data⟩
  /-- Other blocks in use stay. -/
  same : ∀ b role, roles b = some role → b ≠ block →
    b ∉ keptBlocks d.sectors block data.length → d'.sectors b = d.sectors b
  /-- Without a block for the snapshot the old root is committed again. -/
  root : (mem'.allocator.outOfBlocks = true ∧
      mem'.sbCache.rootSnapBlock = mem.sbCache.rootSnapBlock) ∨
    (mem'.allocator.outOfBlocks = mem.allocator.outOfBlocks ∧
      roles' mem'.sbCache.rootSnapBlock = some .snapshot ∧
      mem.allocator.Fresh mem'.sbCache.rootSnapBlock ∧
      (snapAt d'.sectors mem'.sbCache.rootSnapBlock).parentSnapBlock = mem.sbCache.rootSnapBlock ∧
      rootAbsAt d'.sectors mem'.sbCache.rootSnapBlock = absBlock)
  /-- The order of the writes: content in place, new content, header, then the
  snapshot and the bitmap, and the superblock last. -/
  steps : ∃ mid mid₂ last dirty fresh,
    InPlace env d (keptBlocks d.sectors block data.length) data mid ∧
    fresh.length = neededBlocks d.sectors block data.length ∧
    (∀ b ∈ fresh, mem.allocator.Fresh b) ∧
    Wrote env mem.allocator.Fresh mid mid₂ ∧
    Wrote env mem.allocator.Fresh
      (mid₂.write env block (toBlock 512 (writtenHeader d.sectors block fresh data))) last ∧
    d' = (commitBitmap env { mem'.allocator with dirty := dirty } last).write env hexafsSuperLba
      (toBlock 512 mem'.sbCache)
  /-- A disk that was full stays marked so. -/
  outOfBlocks : mem.allocator.outOfBlocks = true → mem'.allocator.outOfBlocks = true
  /-- The other statics stay. -/
  statics : mem' = { mem with
    allocator := mem'.allocator
    sbCache := mem'.sbCache
    currentTx := mem'.currentTx }

/-- The object write of a writer and the commit behind it, when every write succeeds. -/
theorem writeConfig_spec (hok : env.WritesOk) (h : StoreAt true mem d roles)
    (habs : roles absBlock = some .abstraction) (hsafe : ObjectSafe mem.allocator d block)
    (howner : OwnedOrLeaked roles d.sectors block) (hdata : data.length ≤ 2048)
    {post : Bool → Memory → PlainDisk → Prop}
    (hrefused : ∀ mem' d', ConfigRefused env mem d roles block data mem' d' → post false mem' d')
    (hwritten : ∀ mem' d' roles', ConfigWritten env mem d roles absBlock block data mem' d' roles' →
      post true mem' d') :
    (saveConfig.writeConfig snapName data absBlock block).wp (plainDevice env) mem d post := by
  rw [saveConfig.writeConfig, Code.wp_bind]
  refine hexafsObjectWriteData_spec hsafe h.hint hdata (fun _ _ hbad => absurd hok hbad)
    (fun a₁ d₁ hcontent => ?_) fun fresh a₁ d₁ hcontent => ?_
  · obtain ⟨mid, hplace, happ⟩ := hcontent.split
    obtain ⟨blocks, hgrown⟩ := hcontent.grown
    obtain ⟨_, hneed, hout⟩ := hcontent.full hok
    have hmid := hplace.wrote.mono fun b hb => List.mem_of_mem_take hb
    have hwrote := hcontent.wrote
    have hheap : Heap d₁.sectors roles a₁ := by
      rcases howner with ⟨head, i, hrole⟩ | ⟨hnone, hnil⟩
      · refine h.heap.rewriteContents hrole (fun b => hgrown.used_mono) fun b role hb hnot => ?_
        exact hwrote.sectors_eq fun hor => hor.elim hnot (h.heap.not_fresh hb)
      · refine h.heap.frame (fun b => hgrown.used_mono) fun b role hb => ?_
        refine hwrote.sectors_eq fun hor => ?_
        rw [hnil] at hor
        exact hor.elim List.not_mem_nil (h.heap.not_fresh hb)
    have hstore : StoreAt true { mem with allocator := a₁ } d₁ roles := by
      refine h.grow hok hgrown (hwrote.mono fun b hb => ?_) Extends.refl hheap
      rcases hb with hb | hb
      · exact (hsafe.contents b hb).1.not_commitSector
      · exact hb.1.not_commitSector
    rw [if_neg Bool.false_ne_true]
    simp only [Code.wp_bind, Code.wp_pure]
    exact hexafsTxAbort_spec hstore.active_eq (hrefused _ _ ⟨hstore.aborted, hneed,
      ⟨mid, hplace, happ.wrote⟩, hout, ⟨blocks, hgrown⟩, rfl⟩)
  · obtain ⟨mid, hplace, happ⟩ := hcontent.split
    have hwrote := hcontent.wrote
    obtain ⟨hgrown, hslots⟩ := hcontent.slotsStored (fun b hb =>
      ⟨(hsafe.contents b hb).1, (hsafe.contents b hb).2.1⟩) hsafe.nodup
    have hlen : fresh.length = neededBlocks d.sectors block data.length :=
      (happ.stored fresh rfl).1
    have hcount := hgrown.freeCount_add
    have hnot : block ∉ keptBlocks d.sectors block data.length ++ fresh := by
      intro hb
      rcases List.mem_append.mp hb with hb | hb
      · exact (hsafe.contents block (List.mem_of_mem_take hb)).2.2 rfl
      · exact (hgrown.fresh block hb).2 hsafe.used
    have hreach := PlainDisk.write_reaches block
      (toBlock 512 (writtenHeader d.sectors block fresh data)) (hok.reaches d₁.writeCount)
    have hstored : (keptBlocks d.sectors block data.length ++ fresh).map
        (d₁.write env block (toBlock 512 (writtenHeader d.sectors block fresh data))).sectors =
          (keptBlocks d.sectors block data.length ++ fresh).map d₁.sectors :=
      List.map_congr_left fun c hc => PlainDisk.write_sectors_of_ne fun heq => hnot (heq ▸ hc)
    have hzero : 0 ∉ keptBlocks d.sectors block data.length ++ fresh := fun hz =>
      (hslots.inStore 0 hz).1.ne_zero rfl
    obtain ⟨hobjOk, hcontents, hread⟩ := readObject_withContent hsafe.ok.magic hdata
      hslots.length_eq hzero (hstored.trans hslots.stored) hreach.1
    have hheader : (toBlock 512 ((objectAt d.sectors block).withContent
        ((objectAt d.sectors block).contents.take (blocksFor data.length) ++ fresh ++
          List.replicate (4 - blocksFor data.length) 0) data)) =
        toBlock 512 (writtenHeader d.sectors block fresh data) := rfl
    rw [hheader, hok.returns, if_pos rfl]
    have hwrote₂ : Wrote env (fun b => b = block ∨ b ∈ keptBlocks d.sectors block data.length ∨
        mem.allocator.Fresh b) d
          (d₁.write env block (toBlock 512 (writtenHeader d.sectors block fresh data))) :=
      ((hplace.wrote.mono fun b hb => .inr (.inl hb)).trans
        (happ.wrote.mono fun b hb => .inr (.inr hb))).write (.inl rfl)
    have hsame : ∀ b role, roles b = some role → b ≠ block →
        b ∉ keptBlocks d.sectors block data.length →
        (d₁.write env block (toBlock 512 (writtenHeader d.sectors block fresh data))).sectors b =
          d.sectors b := fun b role hb hne hkept =>
      hwrote₂.sectors_eq fun hor => hor.elim hne fun hor => hor.elim hkept (h.heap.not_fresh hb)
    generalize hd₂ : d₁.write env block
      (toBlock 512 (writtenHeader d.sectors block fresh data)) = d₂ at *
    have hgrow : ∃ roles₂, Extends roles roles₂ ∧ Heap d₂.sectors roles₂ a₁ := by
      rcases howner with ⟨head, i, hrole⟩ | ⟨hnone, hnil⟩
      · refine ⟨_, h.heap.extends_assign ?_, h.heap.rewriteObject hrole hobjOk hcontents
          (List.take_prefix _ _) hgrown hsame⟩
        intro entry hentry
        have hmem : entry.1 ∈ fresh := by
          rw [← map_fst_contentRoles block
            (keptBlocks d.sectors block data.length).length fresh]
          exact List.mem_map_of_mem hentry
        exact (hgrown.fresh _ hmem).2
      · refine ⟨roles, Extends.refl, h.heap.frame (fun b => hgrown.used_mono) fun b role hb => ?_⟩
        refine hsame b role hb (fun heq => ?_) ?_
        · rw [heq, hnone] at hb
          cases hb
        · rw [keptBlocks, hnil, List.take_nil]
          exact List.not_mem_nil
    obtain ⟨roles₂, hext, hheap⟩ := hgrow
    have hstore : StoreAt true { mem with allocator := a₁ } d₂ roles₂ := by
      refine h.grow hok hgrown (hwrote₂.mono fun b hb => ?_) hext hheap
      rcases hb with rfl | hb | hb
      · exact hsafe.inStore.not_commitSector
      · exact (hsafe.contents b (List.mem_of_mem_take hb)).1.not_commitSector
      · exact hb.1.not_commitSector
    simp only [Code.wp_bind, Code.wp_pure]
    refine hstore.commitRoot hok (fun _ => hext _ _ habs) fun mem' d' roles' hext' hstore'
      hcommitted hroot hsame' => ?_
    obtain ⟨last, hlast, hd'⟩ := hroot.wrote
    obtain ⟨snap, dirty, hsnap, hd''⟩ := hroot.last
    have hkeep : ∀ b, InStore b → a₁.Used b → d'.sectors b = d₂.sectors b := by
      intro b hin hused
      have hsuper : b ≠ hexafsSuperLba := fun heq => hin.not_commitSector (.inl heq)
      rw [hd', PlainDisk.write_sectors_of_ne hsuper]
      refine hlast.sectors_eq fun hor => hor.elim (fun hf => hf.2 hused) fun hor => ?_
      exact hin.not_commitSector (.inr hor)
    have hread' : readObject d'.sectors block = readObject d₂.sectors block := by
      refine readObject_congr (hkeep block hsafe.inStore (hgrown.used_mono hsafe.used)) fun c hc => ?_
      rw [hcontents] at hc
      exact hkeep c (hslots.inStore c hc).1 (hslots.inStore c hc).2
    refine hwritten mem' d' roles'
      { store := hstore'
        committed := hcommitted
        extend := hext.trans hext'
        need := by omega
        read := hread'.trans hread
        same := fun b role hb hne hkept => ?_
        root := ?_
        steps := ⟨mid, d₁, snap, dirty, fresh, hplace, hlen, hgrown.fresh, happ.wrote, ?_, hd''⟩
        outOfBlocks := fun hout => hroot.outOfBlocks (hgrown.outOfBlocks hout)
        statics := ?_ }
    · rw [hsame' b role (hext _ _ hb), hsame b role hb hne hkept]
    · rcases hroot.outcome with ⟨_, hout, hkept, _⟩ | ⟨s, hgrown₂, hkept, hs, hsnap⟩
      · exact .inl ⟨hout, hkept⟩
      · have hnew := hgrown₂.fresh s (List.mem_singleton_self s)
        have hat : snapAt d'.sectors s =
            newSnap (Memory.marked { mem with allocator := a₁ } absBlock) snapName := by
          rw [snapAt, hsnap, ofBlock_toBlock]
        have hrole' := hstore'.root (by rw [hs]; exact hnew.1.ne_zero)
        refine .inr ⟨hkept.trans hcontent.quiet, hrole', ?_, ?_, ?_⟩
        · rw [hs]
          exact hgrown.fresh_of_fresh hnew
        · rw [hs, hat]
          rfl
        · rw [hstore'.heap.rootAbsAt_eq hrole', hs, hat]
          rfl
    · rw [hd₂]
      exact hsnap.mono fun b hb => hgrown.fresh_of_fresh hb
    · have hthis := hroot.statics
      rw [hthis]

/-- A new configuration object without content. -/
structure ConfigCreated (env : Environment) (absBlock : UInt32) (mem : Memory) (d : PlainDisk)
    (block : UInt32) (a₁ : Allocator) (d₁ : PlainDisk) : Prop where
  /-- The block was free. -/
  fresh : mem.allocator.Fresh block
  /-- The object can be written. -/
  safe : ObjectSafe a₁ d₁ block
  /-- It has no contents. -/
  contents : (objectAt d₁.sectors block).contents = []
  /-- It is one of a configuration. -/
  type : (objectAt d₁.sectors block).type = hexafsConfig
  /-- It reads as empty. -/
  read : readObject d₁.sectors block = some ⟨true, hexafsConfig, 0, []⟩
  /-- What was taken was free, the object among it. -/
  grown : ∃ blocks, Grown mem.allocator a₁ blocks ∧ block ∈ blocks
  /-- A disk that was full stays marked so. -/
  outOfBlocks : mem.allocator.outOfBlocks = true → a₁.outOfBlocks = true
  /-- Only the abstraction and fresh blocks are written. -/
  wrote : Wrote env (fun b => b = absBlock ∨ mem.allocator.Fresh b) d d₁

/-- An object without content reads as such. -/
theorem readObject_newObject {sectors : UInt32 → Sector} {type : UInt8} {timestamp : UInt32}
    (h : objectAt sectors block = newObject type timestamp) :
    readObject sectors block = some ⟨true, type, 0, []⟩ := by
  have hok : (objectAt sectors block).Ok := by
    rw [h]
    exact newObject_ok _ _
  rw [readObject_of_ok hok, h, newObject_contents]
  rfl

/-- The new object of a writer: no block is free, or its entry cannot be added, or
the abstraction is one entry longer. -/
theorem saveNewConfig_spec (hok : env.WritesOk) (h : StoreAt true mem d roles)
    (habs : roles absBlock = some .abstraction) {post : Bool → Memory → PlainDisk → Prop}
    (hfull : mem.allocator.freeCount = 0 → Store mem.diskFull.aborted d roles →
      post false mem.diskFull.aborted d)
    (hleaked : ∀ block a₁ d₁,
      ((headerAt d.sectors absBlock).nextChain ≠ 0 ∨
        (headerAt d.sectors absBlock).entryCount.toNat = 11 ∧ mem.allocator.freeCount = 1 ∧
          a₁.outOfBlocks = true) →
      ConfigCreated env absBlock mem d block a₁ d₁ →
      Wrote env mem.allocator.Fresh d d₁ → roles block = none →
      StoreAt true { mem with allocator := a₁ } d₁ roles →
      (saveConfig.writeConfig snapName data absBlock block).wp (plainDevice env)
        { mem with allocator := a₁ } d₁ post)
    (hadded : ∀ block a₁ d₁ roles₁ entry i,
      (headerAt d.sectors absBlock).nextChain = 0 →
      ((headerAt d.sectors absBlock).entryCount.toNat = 11 → 2 ≤ mem.allocator.freeCount) →
      0 < mem.allocator.freeCount →
      ConfigCreated env absBlock mem d block a₁ d₁ →
      a₁.outOfBlocks = mem.allocator.outOfBlocks → Extends roles roles₁ → roles₁ block = some (.object absBlock i) →
      StoreAt true { mem with allocator := a₁ } d₁ roles₁ →
      EntryFor entry name block hexafsConfig →
      absEntries d₁.sectors absBlock = absEntries d.sectors absBlock ++ [entry] →
      (saveConfig.writeConfig snapName data absBlock block).wp (plainDevice env)
        { mem with allocator := a₁ } d₁ post) :
    (saveConfig.saveNewConfig name snapName data absBlock).wp (plainDevice env) mem d post := by
  rw [saveConfig.saveNewConfig, Code.wp_bind]
  refine hexafsObjectAlloc_spec h.hint (fun hfree => ?_) (fun _ _ _ _ hbad => absurd hok hbad)
    fun b a₁ hgrown hquiet _ => ?_
  · have hstore : Store mem.diskFull.aborted d roles :=
      ⟨h.heap.frame (fun _ => id) fun _ _ _ => rfl, h.hint, h.root, h.mounted, rfl, h.stale, h.clean⟩
    rw [if_pos rfl]
    simp only [Code.wp_bind, Code.wp_pure]
    have hactive : mem.diskFull.currentTx.active = true := h.active_eq
    exact hexafsTxAbort_spec hactive (hfull hfree hstore)
  · have hfresh := hgrown.fresh b (List.mem_singleton_self b)
    have hcount := hgrown.freeCount_add
    rw [List.length_singleton] at hcount
    have hwrote : Wrote env mem.allocator.Fresh d ((d.write env b zeroSector).write env b
        (toBlock 512 (newObject hexafsConfig mem.sbCache.timestamp))) :=
      (Wrote.refl.write hfresh).write hfresh
    have hreach := PlainDisk.write_reaches b
      (toBlock 512 (newObject hexafsConfig mem.sbCache.timestamp))
        (hok.reaches (d.write env b zeroSector).writeCount)
    rw [if_neg hfresh.1.ne_zero, Code.wp_bind]
    generalize (d.write env b zeroSector).write env b
      (toBlock 512 (newObject hexafsConfig mem.sbCache.timestamp)) = d₁ at hwrote hreach
    have hobj : objectAt d₁.sectors b = newObject hexafsConfig mem.sbCache.timestamp := by
      rw [objectAt, hreach.1, ofBlock_toBlock]
    have hcontents : (objectAt d₁.sectors b).contents = [] := by
      rw [hobj, newObject_contents]
    have hobjOk : (objectAt d₁.sectors b).Ok := by
      rw [hobj]
      exact newObject_ok _ _
    have htype : (objectAt d₁.sectors b).type = hexafsConfig := by
      rw [hobj]
      rfl
    have hread := readObject_newObject hobj
    have hsame : ∀ c role, roles c = some role → d₁.sectors c = d.sectors c := fun c role hc =>
      hwrote.sectors_eq (h.heap.not_fresh hc)
    have hheap : Heap d₁.sectors roles mem.allocator := h.heap.frame (fun _ => id) hsame
    have hheap₁ : Heap d₁.sectors roles a₁ := hheap.frame (fun c => hgrown.used_mono) fun _ _ _ => rfl
    have hhead : headerAt d₁.sectors absBlock = headerAt d.sectors absBlock :=
      congrArg (ofBlock HexafsAbsHeader) (hsame absBlock _ habs)
    have hentries : absEntries d₁.sectors absBlock = absEntries d.sectors absBlock :=
      absEntries_congr (hsame absBlock _ habs) fun hne => hsame _ _ (h.heap.chain habs hne)
    have hstale₁ := hwrote.stale_le hok h.stale
    have hnew : NewObject d₁.sectors mem.allocator a₁ b :=
      ⟨hobjOk, by rw [hcontents]; exact List.nodup_singleton b, by
        rw [hcontents]
        intro c hc
        rw [List.mem_singleton.mp hc]
        exact ⟨hfresh, hgrown.used_of_mem (List.mem_singleton_self b)⟩⟩
    have hsafe : ∀ {a : Allocator}, a.Used b → ObjectSafe a d₁ b := fun hused =>
      { ok := hobjOk
        inStore := hfresh.1
        stale := hstale₁ b
        contents := by
          rw [hcontents]
          exact fun c hc => absurd hc List.not_mem_nil
        used := hused
        nodup := by
          rw [hcontents]
          exact List.nodup_nil }
    have hleft : ∀ a₂, Grown a₁ a₂ [] →
        ConfigCreated env absBlock mem d b a₂ d₁ ∧
          StoreAt true { mem with allocator := a₂ } d₁ roles := by
      intro a₂ hgrown₂
      have hboth := hgrown.trans hgrown₂
      refine ⟨⟨hfresh, hsafe (hboth.used_of_mem (List.mem_singleton_self b)), hcontents, htype,
        hread, ⟨_, hboth, List.mem_singleton_self b⟩, hboth.outOfBlocks,
        hwrote.mono fun c hc => .inr hc⟩, ?_⟩
      exact h.grow hok hboth (hwrote.mono fun c hc => hc.1.not_commitSector) Extends.refl
        (hheap.frame (fun c => hboth.used_mono) fun _ _ _ => rfl)
    refine hexafsAbstractionAddEntry_spec hok hheap habs hgrown hnew hstale₁ (fun hlinked => ?_)
      (fun hzero heleven hfree => ?_) fun hzero blocks a₂ d₂ roles₂ hdone => ?_
    · rw [hhead] at hlinked
      obtain ⟨hcreated, hstore⟩ := hleft a₁ (Grown.refl hgrown.hint)
      exact hleaked b a₁ d₁ (.inl hlinked) hcreated hwrote (h.heap.role_none hfresh.2) hstore
    · rw [hhead] at heleven
      have hfree' : a₁.freeCount = 0 := hfree
      obtain ⟨hcreated, hstore⟩ := hleft a₁.full (Grown.full hgrown.hint)
      exact hleaked b a₁.full d₁ (.inr ⟨heleven, by omega, rfl⟩) hcreated hwrote
        (h.heap.role_none hfresh.2) hstore
    · obtain ⟨entry, hentry, hlist⟩ := hdone.entries
      have hgrown₂ : Grown a₁ a₂ blocks := hdone.grown
      have hcount₂ := hgrown₂.freeCount_add
      have hlength := hdone.length_eq
      rw [hhead] at hzero hlength
      have hwrote₂ : Wrote env (fun c => c = absBlock ∨ a₁.Fresh c) d₁ d₂ := hdone.wrote
      have hb : d₂.sectors b = d₁.sectors b := hwrote₂.sectors_eq fun hor => by
        rcases hor with rfl | hf
        · exact hfresh.2 (h.heap.covered b _ habs).2
        · exact hgrown.not_fresh (List.mem_singleton_self b) hf
      have hobj₂ : objectAt d₂.sectors b = objectAt d₁.sectors b :=
        congrArg (ofBlock HexafsObject) hb
      have hwrote' : Wrote env (fun c => c = absBlock ∨ mem.allocator.Fresh c) d d₂ :=
        (hwrote.mono fun c hc => .inr hc).trans
          (hwrote₂.mono fun c hc => hc.imp id hgrown.fresh_of_fresh)
      have hboth := hgrown.trans hgrown₂
      have hlast : (absEntries d₂.sectors absBlock)[(absEntries d₁.sectors absBlock).length]? =
          some entry := by
        rw [hlist, List.getElem?_append_right (Nat.le_refl _), Nat.sub_self]
        rfl
      have hrole := hdone.heap.entry (hdone.extend _ _ habs) hlast
      rw [hentry.object] at hrole
      refine hadded b a₂ d₂ roles₂ entry _ hzero (fun heleven => ?_) (by omega)
        ⟨hfresh, ?_, ?_, ?_, ?_, ⟨_, hboth, List.mem_cons_self⟩, hboth.outOfBlocks, hwrote'⟩
        (hdone.quiet.trans hquiet) hdone.extend hrole ?_ hentry ?_
      · rw [if_pos heleven] at hlength
        omega
      · have hstale₂ := hwrote'.stale_le hok h.stale
        exact
          { ok := by rw [hobj₂]; exact hobjOk
            inStore := hfresh.1
            stale := hstale₂ b
            contents := by
              rw [hobj₂, hcontents]
              exact fun c hc => absurd hc List.not_mem_nil
            used := hboth.used_of_mem List.mem_cons_self
            nodup := by
              rw [hobj₂, hcontents]
              exact List.nodup_nil }
      · rw [hobj₂, hcontents]
      · rw [hobj₂, htype]
      · rw [← hread]
        refine readObject_congr hb ?_
        rw [hcontents]
        exact fun c hc => absurd hc List.not_mem_nil
      · refine h.grow hok hboth (hwrote'.mono fun c hc => ?_) hdone.extend hdone.heap
        rcases hc with rfl | hf
        · exact (h.heap.covered c _ habs).1.not_commitSector
        · exact hf.1.not_commitSector
      · rw [hlist, hentries]

end Write

/-- How hexafs_users_save or pimp_save_rules ends on a store, when every write
succeeds. Between a new object and its write the statics have the allocator `a₁` and
the disk is `d₁`. -/
inductive ConfigOutcome (env : Environment) (mem : Memory) (d : PlainDisk)
    (roles : UInt32 → Option Role) (name : CString) (data : List UInt8) :
    Bool → Memory → PlainDisk → Prop where
  /-- There is no root abstraction. -/
  | empty (hroot : rootAbsAt d.sectors mem.sbCache.rootSnapBlock = 0) :
    ConfigOutcome env mem d roles name data false mem.begun.aborted d
  /-- The object exists, and its new content does not fit the free blocks. -/
  | foundRefused {entry : HexafsAbsEntry} {mem' : Memory} {d' : PlainDisk}
    (hroot : rootAbsAt d.sectors mem.sbCache.rootSnapBlock ≠ 0)
    (hfind : (absEntries d.sectors (rootAbsAt d.sectors mem.sbCache.rootSnapBlock)).find?
      (fun e => nameMatches e.name name) = some entry)
    (hout : ConfigRefused env mem.begun d roles entry.objectBlock data mem' d') :
    ConfigOutcome env mem d roles name data false mem' d'
  /-- The object exists and is written. -/
  | foundWritten {entry : HexafsAbsEntry} {mem' : Memory} {d' : PlainDisk}
    {roles' : UInt32 → Option Role}
    (hroot : rootAbsAt d.sectors mem.sbCache.rootSnapBlock ≠ 0)
    (hfind : (absEntries d.sectors (rootAbsAt d.sectors mem.sbCache.rootSnapBlock)).find?
      (fun e => nameMatches e.name name) = some entry)
    (hout : ConfigWritten env mem.begun d roles
      (rootAbsAt d.sectors mem.sbCache.rootSnapBlock) entry.objectBlock data mem' d' roles') :
    ConfigOutcome env mem d roles name data true mem' d'
  /-- There is no block for a new object. -/
  | full (hroot : rootAbsAt d.sectors mem.sbCache.rootSnapBlock ≠ 0)
    (hfind : (absEntries d.sectors (rootAbsAt d.sectors mem.sbCache.rootSnapBlock)).find?
      (fun e => nameMatches e.name name) = none)
    (hfree : mem.allocator.freeCount = 0) (hstore : Store mem.begun.diskFull.aborted d roles) :
    ConfigOutcome env mem d roles name data false mem.begun.diskFull.aborted d
  /-- The new object gets no entry; it is written or refused all the same. -/
  | leaked {block : UInt32} {a₁ : Allocator} {d₁ : PlainDisk} {ok : Bool} {mem' : Memory}
    {d' : PlainDisk}
    (hroot : rootAbsAt d.sectors mem.sbCache.rootSnapBlock ≠ 0)
    (hfind : (absEntries d.sectors (rootAbsAt d.sectors mem.sbCache.rootSnapBlock)).find?
      (fun e => nameMatches e.name name) = none)
    (hroom : (headerAt d.sectors (rootAbsAt d.sectors mem.sbCache.rootSnapBlock)).nextChain ≠ 0 ∨
      (headerAt d.sectors (rootAbsAt d.sectors mem.sbCache.rootSnapBlock)).entryCount.toNat = 11 ∧
        mem.allocator.freeCount = 1 ∧ a₁.outOfBlocks = true)
    (hcreated : ConfigCreated env (rootAbsAt d.sectors mem.sbCache.rootSnapBlock)
      mem.begun d block a₁ d₁)
    (hwrote : Wrote env mem.allocator.Fresh d d₁) (hnone : roles block = none)
    (hout : ok = false ∧ ConfigRefused env { mem.begun with allocator := a₁ } d₁ roles block data
        mem' d' ∨
      ok = true ∧ ∃ roles', ConfigWritten env { mem.begun with allocator := a₁ } d₁ roles
        (rootAbsAt d.sectors mem.sbCache.rootSnapBlock) block data mem' d' roles') :
    ConfigOutcome env mem d roles name data ok mem' d'
  /-- The new object has an entry; it is written or refused. -/
  | added {block : UInt32} {a₁ : Allocator} {d₁ : PlainDisk} {roles₁ : UInt32 → Option Role}
    {entry : HexafsAbsEntry} {i : ℕ} {ok : Bool} {mem' : Memory} {d' : PlainDisk}
    (hroot : rootAbsAt d.sectors mem.sbCache.rootSnapBlock ≠ 0)
    (hfind : (absEntries d.sectors (rootAbsAt d.sectors mem.sbCache.rootSnapBlock)).find?
      (fun e => nameMatches e.name name) = none)
    (hlink : (headerAt d.sectors (rootAbsAt d.sectors mem.sbCache.rootSnapBlock)).nextChain = 0)
    (hroom : (headerAt d.sectors
      (rootAbsAt d.sectors mem.sbCache.rootSnapBlock)).entryCount.toNat = 11 →
        2 ≤ mem.allocator.freeCount) (hfree : 0 < mem.allocator.freeCount)
    (hcreated : ConfigCreated env (rootAbsAt d.sectors mem.sbCache.rootSnapBlock)
      mem.begun d block a₁ d₁)
    (hquiet : a₁.outOfBlocks = mem.allocator.outOfBlocks) (hext : Extends roles roles₁)
    (hrole : roles₁ block = some (.object (rootAbsAt d.sectors mem.sbCache.rootSnapBlock) i))
    (hstore : StoreAt true { mem.begun with allocator := a₁ } d₁ roles₁)
    (hentry : EntryFor entry name block hexafsConfig)
    (hlist : absEntries d₁.sectors (rootAbsAt d.sectors mem.sbCache.rootSnapBlock) =
      absEntries d.sectors (rootAbsAt d.sectors mem.sbCache.rootSnapBlock) ++ [entry])
    (hout : ok = false ∧ ConfigRefused env { mem.begun with allocator := a₁ } d₁ roles₁ block data
        mem' d' ∨
      ok = true ∧ ∃ roles', ConfigWritten env { mem.begun with allocator := a₁ } d₁ roles₁
        (rootAbsAt d.sectors mem.sbCache.rootSnapBlock) block data mem' d' roles') :
    ConfigOutcome env mem d roles name data ok mem' d'

/-- hexafs_users_save and pimp_save_rules on a store, when every write succeeds. -/
theorem saveConfig_spec (hok : env.WritesOk) (h : Store mem d roles) (hdata : data.length ≤ 2048)
    {post : Bool → Memory → PlainDisk → Prop}
    (hpost : ∀ ok mem' d', ConfigOutcome env mem d roles name data ok mem' d' → post ok mem' d') :
    (saveConfig name snapName data).wp (plainDevice env) mem d post := by
  by_cases hroot : rootAbsAt d.sectors mem.sbCache.rootSnapBlock = 0
  · exact saveConfig_empty h hroot (hpost _ _ _ (.empty hroot))
  · have habs := h.rootAbs_role hroot
    cases hfind : (absEntries d.sectors (rootAbsAt d.sectors mem.sbCache.rootSnapBlock)).find?
        fun e => nameMatches e.name name with
    | some entry =>
      obtain ⟨i, hi⟩ := List.mem_iff_getElem?.mp (List.mem_of_find?_eq_some hfind)
      have hrole := h.heap.entry habs hi
      refine saveConfig_found h hroot hfind (writeConfig_spec hok h.begun habs
        (h.heap.objectSafe h.stale hrole) (.inl ⟨_, _, hrole⟩) hdata (fun mem' d' hout => ?_)
          fun mem' d' roles' hout => ?_)
      · exact hpost _ _ _ (.foundRefused hroot hfind hout)
      · exact hpost _ _ _ (.foundWritten hroot hfind hout)
    | none =>
      refine saveConfig_new h hroot hfind (saveNewConfig_spec hok h.begun habs
        (fun hfree hstore => ?_) (fun block a₁ d₁ hroom hcreated hwrote hnone hstore => ?_)
          fun block a₁ d₁ roles₁ entry i hlink hroom hfree hcreated hquiet hext hrole hstore hentry hlist =>
            ?_)
      · exact hpost _ _ _ (.full hroot hfind hfree hstore)
      · refine writeConfig_spec hok hstore habs hcreated.safe (.inr ⟨hnone, hcreated.contents⟩) hdata
          (fun mem' d' hout => ?_) fun mem' d' roles' hout => ?_
        · exact hpost _ _ _ (.leaked hroot hfind hroom hcreated hwrote hnone (.inl ⟨rfl, hout⟩))
        · exact hpost _ _ _ (.leaked hroot hfind hroom hcreated hwrote hnone
            (.inr ⟨rfl, roles', hout⟩))
      · refine writeConfig_spec hok hstore (hext _ _ habs) hcreated.safe (.inl ⟨_, _, hrole⟩) hdata
          (fun mem' d' hout => ?_) fun mem' d' roles' hout => ?_
        · exact hpost _ _ _ (.added hroot hfind hlink hroom hfree hcreated hquiet hext hrole hstore hentry
            hlist (.inl ⟨rfl, hout⟩))
        · exact hpost _ _ _ (.added hroot hfind hlink hroom hfree hcreated hquiet hext hrole hstore hentry
            hlist (.inr ⟨rfl, roles', hout⟩))

/-- A configuration save keeps the store. -/
theorem ConfigOutcome.store {ok : Bool} {mem' : Memory} {d' : PlainDisk}
    (h : ConfigOutcome env mem d roles name data ok mem' d') (hstore : Store mem d roles) :
    ∃ roles', Extends roles roles' ∧ Store mem' d' roles' := by
  cases h with
  | empty hroot => exact ⟨roles, Extends.refl, hstore.begun.aborted⟩
  | foundRefused hroot hfind hout => exact ⟨roles, Extends.refl, hout.store⟩
  | foundWritten hroot hfind hout => exact ⟨_, hout.extend, hout.store⟩
  | full hroot hfind hfree hstore' => exact ⟨roles, Extends.refl, hstore'⟩
  | leaked hroot hfind hroom hcreated hwrote hnone hout =>
    rcases hout with ⟨_, hout⟩ | ⟨_, roles', hout⟩
    · exact ⟨roles, Extends.refl, hout.store⟩
    · exact ⟨roles', hout.extend, hout.store⟩
  | added hroot hfind hlink hroom hfree hcreated hquiet hext hrole hstore' hentry hlist hout =>
    rcases hout with ⟨_, hout⟩ | ⟨_, roles', hout⟩
    · exact ⟨_, hext, hout.store⟩
    · exact ⟨roles', hext.trans hout.extend, hout.store⟩

/-- A configuration save that found blocks for everything leaves a committed store. -/
theorem ConfigOutcome.committed {ok : Bool} {mem' : Memory} {d' : PlainDisk}
    (h : ConfigOutcome env mem d roles name data ok mem' d') (hcommitted : Committed mem d.sectors)
    (hout : mem'.allocator.outOfBlocks = false) : Committed mem' d'.sectors := by
  have hbad : ∀ {roles₁ : UInt32 → Option Role} {block : UInt32} {mem₁ : Memory} {d₁ : PlainDisk},
      ¬ConfigRefused env mem₁ d₁ roles₁ block data mem' d' := by
    intro roles₁ block mem₁ d₁ hrefused
    have htrue := hrefused.outOfBlocks
    rw [hout] at htrue
    cases htrue
  cases h with
  | empty hroot => exact ⟨hcommitted.superblock, hcommitted.valid, hcommitted.bitmap⟩
  | foundRefused hroot hfind hrefused => exact absurd hrefused hbad
  | foundWritten hroot hfind hwritten => exact hwritten.committed
  | full hroot hfind hfree hstore => cases hout
  | leaked hroot hfind hroom hcreated hwrote hnone hcases =>
    rcases hcases with ⟨_, hrefused⟩ | ⟨_, roles', hwritten⟩
    · exact absurd hrefused hbad
    · exact hwritten.committed
  | added hroot hfind hlink hroom hfree hcreated hquiet hext hrole hstore hentry hlist hcases =>
    rcases hcases with ⟨_, hrefused⟩ | ⟨_, roles', hwritten⟩
    · exact absurd hrefused hbad
    · exact hwritten.committed

section Unchanged

variable {sectors sectors' : UInt32 → Sector} {a : Allocator} {root absBlock block : UInt32}
  {entry : HexafsAbsEntry} {mem' : Memory} {d' : PlainDisk} {roles' : UInt32 → Option Role}

/-- The roles of the blocks that lead to objects. -/
def Role.Structural : Role → Prop
  | .snapshot => True
  | .abstraction => True
  | .chain _ => True
  | .object _ _ => False
  | .content _ _ => False

/-- While the blocks that lead to objects are unchanged, an entry leads to its object. -/
theorem Heap.configAt_found (h : Heap sectors roles a)
    (hroot : root ≠ 0 → roles root = some .snapshot) (hne : rootAbsAt sectors root ≠ 0)
    (hfind : (absEntries sectors (rootAbsAt sectors root)).find?
      (fun e => nameMatches e.name name) = some entry)
    (hsame : ∀ b role, roles b = some role → role.Structural → sectors' b = sectors b) :
    configAt sectors' root name = readObject sectors' entry.objectBlock := by
  have habs : rootAbsAt sectors' root = rootAbsAt sectors root :=
    rootAbsAt_congr fun hz => hsame _ _ (hroot hz) trivial
  have hrole := h.rootAbsAt_role hroot hne
  have hentries : absEntries sectors' (rootAbsAt sectors root) =
      absEntries sectors (rootAbsAt sectors root) :=
    absEntries_congr (hsame _ _ hrole trivial) fun hlinked =>
      hsame _ _ (h.chain hrole hlinked) trivial
  rw [configAt, habs, if_neg hne, hentries, hfind]
  rfl

/-- The blocks that lead to objects are not touched by a configuration save that
has its object. -/
theorem ConfigWritten.structural
    (h : ConfigWritten env mem d roles absBlock block data mem' d' roles')
    (hheap : Heap d.sectors roles a) (howner : OwnedOrLeaked roles d.sectors block) {b : UInt32}
    {role : Role} (hrole : roles b = some role) (hstructural : role.Structural) :
    d'.sectors b = d.sectors b := by
  refine h.same b role hrole (fun heq => ?_) fun hmem => ?_
  · rcases howner with ⟨head, i, hobject⟩ | ⟨hnone, _⟩
    · rw [← heq, hrole] at hobject
      rw [Option.some.inj hobject] at hstructural
      exact hstructural
    · rw [← heq, hrole] at hnone
      cases hnone
  · have hcontent := List.mem_of_mem_take hmem
    rcases howner with ⟨head, i, hobject⟩ | ⟨_, hnil⟩
    · obtain ⟨j, hj⟩ := hheap.mem_contents hobject hcontent
      rw [hrole] at hj
      rw [Option.some.inj hj] at hstructural
      exact hstructural
    · rw [hnil] at hcontent
      exact absurd hcontent List.not_mem_nil

/-- A configuration save that has its object keeps the root abstraction. -/
theorem ConfigWritten.rootAbs_eq
    (h : ConfigWritten env mem d roles absBlock block data mem' d' roles')
    (hheap : Heap d.sectors roles a) (howner : OwnedOrLeaked roles d.sectors block)
    (hroot : mem.sbCache.rootSnapBlock ≠ 0 → roles mem.sbCache.rootSnapBlock = some .snapshot)
    (habs : rootAbsAt d.sectors mem.sbCache.rootSnapBlock = absBlock) :
    rootAbsAt d'.sectors mem'.sbCache.rootSnapBlock = absBlock := by
  rcases h.root with ⟨_, hkept⟩ | ⟨_, _, _, _, hnew⟩
  · rw [hkept, ← habs]
    exact rootAbsAt_congr fun hne => h.structural hheap howner (hroot hne) trivial
  · exact hnew

/-- A configuration save that has its object keeps the entries. -/
theorem ConfigWritten.entries_eq
    (h : ConfigWritten env mem d roles absBlock block data mem' d' roles')
    (hheap : Heap d.sectors roles a) (howner : OwnedOrLeaked roles d.sectors block)
    (habs : roles absBlock = some .abstraction) :
    absEntries d'.sectors absBlock = absEntries d.sectors absBlock :=
  absEntries_congr (h.structural hheap howner habs trivial) fun hne =>
    h.structural hheap howner (hheap.chain habs hne) trivial

end Unchanged

end HexaOS.Hexafs
