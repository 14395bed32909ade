import HexaOS.HexafsCrash

/-!
# Stopping a configuration save

hexafs_users_save and pimp_save_rules overwrite the content blocks of their object
in place, one sector at a time, and link new blocks before the bitmap that marks
them is on the disk. Which stops are harmless is decided by the state before the
save: the mixtures of old and new content that the sector writes pass through, and
the blocks that the save has to allocate.
-/

namespace HexaOS.Hexafs

open DevicePrograms PackedBytes StoreTyping

variable {env env' : Environment} {machine machine' : Machine} {roles : UInt32 → Option Role}
  {name snapName : CString} {data : List UInt8} {block : UInt32}

section Mixtures

/-- The bytes of an object whose first `j` content blocks were overwritten with new
data, the last of them padded with zeros. -/
def mixedBytes (data old : List UInt8) (j : ℕ) : List UInt8 :=
  (data.take (512 * j) ++ List.replicate (512 * j - data.length) 0 ++ old.drop (512 * j)).take
    old.length

/-- The bytes of consecutive content sectors. -/
theorem flatMap_contentSectors (n : ℕ) (data : List UInt8) :
    (contentSectors n data).flatMap (·.bytes) =
      data.take (512 * n) ++ List.replicate (512 * n - data.length) 0 := by
  induction n generalizing data with
  | zero => simp [contentSectors]
  | succ n ih =>
    have hpad : (padBlock 512 data).bytes =
        data.take 512 ++ List.replicate (512 - data.length) 0 := by
      simp only [padBlock]
    rw [contentSectors, List.flatMap_cons, ih, hpad, List.length_drop]
    rcases Nat.le_total data.length 512 with hle | hge
    · have hnil : data.drop 512 = [] := List.drop_of_length_le hle
      have hall : data.take 512 = data := List.take_of_length_le hle
      have hlong : data.take (512 * (n + 1)) = data := List.take_of_length_le (by omega)
      rw [hnil, hall, hlong, List.take_nil, List.nil_append, List.append_assoc,
        List.replicate_append_replicate]
      have hsum : 512 - data.length + (512 * n - (data.length - 512)) =
          512 * (n + 1) - data.length := by omega
      rw [hsum]
    · have hnone : List.replicate (512 - data.length) (0 : UInt8) = [] := by
        rw [Nat.sub_eq_zero_of_le hge]
        rfl
      have htake : data.take 512 ++ (data.drop 512).take (512 * n) = data.take (512 * (n + 1)) := by
        rw [Nat.mul_succ, Nat.add_comm (512 * n), List.take_add]
      have hsum : 512 * n - (data.length - 512) = 512 * (n + 1) - data.length := by omega
      rw [hnone, List.append_nil, ← List.append_assoc, htake, hsum]

/-- Reading content blocks yields the front of their bytes. -/
theorem readSlots_eq_take {sectors : UInt32 → Sector} {slots : List UInt32} (hzero : 0 ∉ slots)
    (n : ℕ) : readSlots sectors slots n = (slots.flatMap fun b => (sectors b).bytes).take n := by
  induction slots generalizing n with
  | nil => rw [readSlots, List.flatMap_nil, List.take_nil]
  | cons db rest ih =>
    have hdb : db ≠ 0 := fun heq => hzero (heq ▸ List.mem_cons_self)
    have hlen := (sectors db).length_bytes
    rw [readSlots, List.flatMap_cons]
    by_cases hn : n = 0
    · rw [if_pos (.inl hn), hn, List.take_zero]
    · rw [if_neg (by simp only [hn, hdb, or_self, not_false_iff]),
        ih fun hm => hzero (List.mem_cons_of_mem _ hm), List.take_append, hlen]
      have htake : (sectors db).bytes.take (min n 512) = (sectors db).bytes.take n := by
        rw [← List.take_take, List.take_of_length_le (i := 512) hlen.le]
      have hsub : n - min n 512 = n - 512 := by omega
      rw [htake, hsub]

/-- Leaving out content blocks leaves out their bytes. -/
theorem drop_flatMap_bytes (sectors : UInt32 → Sector) (slots : List UInt32) (j : ℕ) :
    (slots.flatMap fun b => (sectors b).bytes).drop (512 * j) =
      (slots.drop j).flatMap fun b => (sectors b).bytes := by
  induction j generalizing slots with
  | zero => rfl
  | succ j ih =>
    cases slots with
    | nil => simp
    | cons db rest =>
      have hlen := (sectors db).length_bytes
      have hsum : 512 * (j + 1) = 512 + 512 * j := by omega
      rw [List.drop_succ_cons, ← ih, List.flatMap_cons, hsum, ← List.drop_drop,
        List.drop_left' hlen]

/-- A medium on which the first `j` content blocks of an object were overwritten. -/
structure PartlyWritten (sectors : UInt32 → Sector) (roles : UInt32 → Option Role)
    (block : UInt32) (data : List UInt8) (j : ℕ) (sectors' : UInt32 → Sector) : Prop where
  /-- The superblock stays. -/
  superblock : sectors' hexafsSuperLba = sectors hexafsSuperLba
  /-- The bitmap stays. -/
  bitmap : sectors' hexafsAllocLba = sectors hexafsAllocLba
  /-- Blocks that are not content of the object stay. -/
  same : ∀ b role, roles b = some role → b ∉ (objectAt sectors block).contents →
    sectors' b = sectors b
  /-- The first contents are new, the others old. -/
  contents : (objectAt sectors block).contents.map sectors' =
    contentSectors j data ++ ((objectAt sectors block).contents.drop j).map sectors

/-- What such an object reads as. -/
theorem PartlyWritten.readObject_eq {sectors sectors' : UInt32 → Sector} {a : Allocator}
    {head : UInt32} {i j : ℕ} (h : PartlyWritten sectors roles block data j sectors')
    (hheap : Heap sectors roles a) (hrole : roles block = some (.object head i))
    {read : ObjectRead} (hread : readObject sectors block = some read) :
    readObject sectors' block = some { read with bytes := mixedBytes data read.bytes j } := by
  have hok := hheap.objectOk hrole
  have hself : block ∉ (objectAt sectors block).contents := by
    intro hmem
    obtain ⟨k, hk⟩ := hheap.mem_contents hrole hmem
    rw [hk] at hrole
    cases hrole
  have hobj : objectAt sectors' block = objectAt sectors block :=
    congrArg (ofBlock HexafsObject) (h.same block _ hrole hself)
  have hzero : 0 ∉ (objectAt sectors block).contents := fun hm => ne_zero_of_mem_contents hm rfl
  have hlen := (length_bytes_readObject hok hread).1
  have hold := readObject_of_ok hok
  rw [hread] at hold
  obtain rfl := Option.some.inj hold
  have hok' : (objectAt sectors' block).Ok := hobj ▸ hok
  have hnew := readObject_of_ok hok'
  rw [hnew, hobj]
  dsimp only at hlen ⊢
  rw [readSlots_eq_take hzero, mixedBytes, hlen, ← flatMap_contentSectors]
  rw [readSlots_eq_take hzero]
  have hbytes : ((objectAt sectors block).contents.flatMap fun b => (sectors' b).bytes) =
      (contentSectors j data).flatMap (·.bytes) ++
        ((objectAt sectors block).contents.drop j).flatMap fun b => (sectors b).bytes := by
    have hmap := congrArg (List.flatMap (·.bytes)) h.contents
    rw [List.flatMap_append, List.flatMap_map, List.flatMap_map] at hmap
    exact hmap
  have hfront : ((contentSectors j data).flatMap (·.bytes)).length = 512 * j := by
    rw [flatMap_contentSectors, List.length_append, List.length_take, List.length_replicate]
    omega
  rw [hbytes, ← drop_flatMap_bytes, List.take_append, List.take_append, hfront, List.drop_take,
    List.take_take, Nat.min_self]

end Mixtures

section Stops

variable {α : Type} {loader : HexafsM α} {view : Option ObjectRead → Except Stop (Bool × α)}
  {sectors sectors' : UInt32 → Sector} {a : Allocator} {root : UInt32} {entry : HexafsAbsEntry}

/-- A reboot on these sectors loads what it loads before the save or what it has to
load after it, and everything that the root reaches is marked in the bitmap. -/
structure SafeStop (env' : Environment) (loader : HexafsM α)
    (before after : Except Stop (Bool × α)) (sectors : UInt32 → Sector) : Prop where
  /-- A reboot loads what it did before or what it does after. -/
  loaded : reload env' sectors loader = before ∨ reload env' sectors loader = after
  /-- What the root reaches is marked as used. -/
  marked : ∀ b role, Reachable sectors (rootOn sectors) b role →
    bitmapTest (diskBitmap sectors) b.toNat = true

/-- A loader whose value is a view of the object under one name. -/
structure ConfigView (env' : Environment) (loader : HexafsM α) (name : CString)
    (view : Option ObjectRead → Except Stop (Bool × α)) : Prop where
  /-- On a sound disk the loader returns a view of the configuration. -/
  reload_eq : ∀ {sectors : UInt32 → Sector} {roles : UInt32 → Option Role} {a : Allocator},
    Image sectors roles a → reload env' sectors loader =
      view (configAt sectors (rootOn sectors) name)
  /-- The view looks at the bytes alone. -/
  type_free : ∀ (type type' : UInt8) (size : UInt32) (bytes : List UInt8),
    view (some ⟨true, type, size, bytes⟩) = view (some ⟨true, type', size, bytes⟩)

/-- Only the first bitmap sector counts for the blocks of the disk. -/
theorem bitmapTest_diskBitmap (h : sectors' hexafsAllocLba = sectors hexafsAllocLba) {b : UInt32}
    (hb : InStore b) : bitmapTest (diskBitmap sectors') b.toNat =
      bitmapTest (diskBitmap sectors) b.toNat := by
  rw [diskBitmap, diskBitmap, h]
  exact bitmapTest_bitmapOf _ _ _ hb.2

/-- The bitmap of a settled machine marks every block with a role. -/
theorem Machine.Settled.marked (h : machine.Settled roles)
    (hfirst : sectors hexafsAllocLba = machine.sectors hexafsAllocLba) {b : UInt32} {role : Role}
    (hrole : roles b = some role) : bitmapTest (diskBitmap sectors) b.toNat = true := by
  obtain ⟨hin, hused⟩ := h.mounted.store.heap.covered b role hrole
  rw [bitmapTest_diskBitmap hfirst hin, h.committed.bitmap]
  exact hused

/-- On an image, what the root reaches has a role. -/
theorem Image.marked (h : Image sectors roles a)
    (hmarked : ∀ b role, roles b = some role → bitmapTest (diskBitmap sectors) b.toNat = true)
    {b : UInt32} {role : Role} (hreach : Reachable sectors (rootOn sectors) b role) :
    bitmapTest (diskBitmap sectors) b.toNat = true :=
  hmarked b role (h.heap.role_of_reachable h.root hreach)

/-- A settled machine that stops before its first write. -/
theorem Machine.Settled.safeStop (h : machine.Settled roles) (after : Except Stop (Bool × α)) :
    SafeStop env' loader (reload env' machine.sectors loader) after machine.sectors where
  loaded := .inl rfl
  marked _ _ := h.image.marked fun _ _ hrole => h.marked rfl hrole

/-- Overwritten content blocks keep the image. -/
theorem PartlyWritten.image {head : UInt32} {i j : ℕ}
    (h : PartlyWritten sectors roles block data j sectors') (himage : Image sectors roles a)
    (hrole : roles block = some (.object head i)) :
    Image sectors' roles a ∧ rootOn sectors' = rootOn sectors := by
  have hsb : superblockAt sectors' = superblockAt sectors :=
    congrArg (ofBlock HexafsSuperblock) h.superblock
  have hroot : rootOn sectors' = rootOn sectors := by
    rw [rootOn, rootOn, hsb]
  refine ⟨⟨?_, himage.heap.rewriteContents hrole (fun _ => id) h.same, ?_⟩, hroot⟩
  · rw [hsb]
    exact himage.valid
  · rw [hsb]
    exact himage.root

/-- What a reboot finds when the save stops between content blocks. -/
theorem PartlyWritten.reload_eq {head : UInt32} {i j : ℕ} (hview : ConfigView env' loader name view)
    (h : machine.Settled roles)
    (hne : rootAbsAt machine.sectors (rootOn machine.sectors) ≠ 0)
    (hfind : (absEntries machine.sectors (rootAbsAt machine.sectors (rootOn machine.sectors))).find?
      (fun e => nameMatches e.name name) = some entry)
    (hrole : roles entry.objectBlock = some (.object head i))
    (hpart : PartlyWritten machine.sectors roles entry.objectBlock data j sectors)
    {read : ObjectRead} (hread : readObject machine.sectors entry.objectBlock = some read) :
    reload env' sectors loader = view (some { read with bytes := mixedBytes data read.bytes j }) ∧
      ∀ b role, Reachable sectors (rootOn sectors) b role →
        bitmapTest (diskBitmap sectors) b.toNat = true := by
  have hheap := h.mounted.store.heap
  obtain ⟨himage, hroot⟩ := hpart.image h.image hrole
  have hsame : ∀ b role, roles b = some role → role.Structural → sectors b = machine.sectors b := by
    intro b role hb hstructural
    refine hpart.same b role hb fun hmem => ?_
    obtain ⟨k, hk⟩ := hheap.mem_contents hrole hmem
    have heq : some role = some (Role.content entry.objectBlock k) := hb.symm.trans hk
    rw [Option.some.inj heq] at hstructural
    exact hstructural
  have hconfig : configAt sectors (rootOn machine.sectors) name =
      readObject sectors entry.objectBlock :=
    hheap.configAt_found h.image.root hne hfind hsame
  constructor
  · rw [hview.reload_eq himage, hroot, hconfig, hpart.readObject_eq hheap hrole hread]
  · intro b role hreach
    exact himage.marked (fun _ _ hb => h.marked hpart.bitmap hb) hreach

/-- A medium between the last change of a store and its superblock. -/
structure BeforeCommit (before after : UInt32 → Sector) (roles : UInt32 → Option Role)
    (sectors : UInt32 → Sector) : Prop where
  /-- The superblock is the old one. -/
  superblock : sectors hexafsSuperLba = before hexafsSuperLba
  /-- The bitmap is the old one or the new one. -/
  bitmap : sectors hexafsAllocLba = before hexafsAllocLba ∨
    sectors hexafsAllocLba = after hexafsAllocLba
  /-- Blocks in use are as they are afterwards. -/
  same : ∀ b role, roles b = some role → sectors b = after b

/-- A commit keeps the blocks of the heap. -/
theorem commit_keeps {d last d' : PlainDisk} {alloc : Allocator} {sb : HexafsSuperblock}
    (hheap : Heap sectors roles a) (hwrote : Wrote env a.Fresh d last)
    (hd' : d' = (commitBitmap env alloc last).write env hexafsSuperLba (toBlock 512 sb))
    {b : UInt32} {role : Role} (hrole : roles b = some role) : d.sectors b = d'.sectors b := by
  have hnot := (hheap.covered b role hrole).1.not_commitSector
  have hlast : d'.sectors b = last.sectors b := by
    rw [hd', PlainDisk.write_sectors_of_ne fun heq => hnot (.inl heq)]
    exact (wrote_commitBitmap alloc).sectors_eq fun hor => hnot (.inr hor)
  rw [hlast, hwrote.sectors_eq (hheap.not_fresh hrole)]

/-- The stops between the last change of a store and its superblock. -/
theorem commit_throughout (hok : env.WritesOk) {d last d' : PlainDisk} {alloc : Allocator}
    {sb : HexafsSuperblock} {P : (UInt32 → Sector) → Prop} (hheap : Heap sectors roles a)
    (hwrote : Wrote env a.Fresh d last)
    (hd' : d' = (commitBitmap env alloc last).write env hexafsSuperLba (toBlock 512 sb))
    (hbefore : ∀ sectors, BeforeCommit d.sectors d'.sectors roles sectors → P sectors)
    (hafter : P d'.sectors) : d.Throughout P d' := by
  obtain ⟨hne, hne', hne''⟩ := commitSectors_ne
  have hwrite : ∀ {b buf} {sectors : UInt32 → Sector} {e : PlainDisk}, e.sectors = sectors →
      BeforeCommit d.sectors d'.sectors roles sectors → b = hexafsAllocLba ∧
        buf = d'.sectors hexafsAllocLba ∨ b = hexafsAllocLba + 1 →
      BeforeCommit d.sectors d'.sectors roles (e.write env b buf).sectors := by
    intro b buf sectors e he hmid hb
    subst he
    have hbne : hexafsSuperLba ≠ b := by
      rcases hb with ⟨rfl, _⟩ | rfl
      · exact hne
      · exact hne'
    refine ⟨?_, ?_, fun c role hc => ?_⟩
    · rw [PlainDisk.write_sectors_of_ne hbne]
      exact hmid.superblock
    · rcases hb with ⟨rfl, rfl⟩ | rfl
      · exact .inr (PlainDisk.write_reaches _ _ (hok.reaches _)).1
      · rw [PlainDisk.write_sectors_of_ne hne'']
        exact hmid.bitmap
    · have hnot := (hheap.covered c role hc).1.not_commitSector
      have hcne : c ≠ b := by
        rintro rfl
        rcases hb with ⟨rfl, _⟩ | rfl
        · exact hnot (.inr (.inl rfl))
        · exact hnot (.inr (.inr rfl))
      rw [PlainDisk.write_sectors_of_ne hcne]
      exact hmid.same c role hc
  have hframe : ∀ sectors, (∀ b, ¬a.Fresh b → sectors b = d.sectors b) →
      BeforeCommit d.sectors d'.sectors roles sectors := by
    intro sectors hsame
    refine ⟨hsame _ fun hf => hf.1.not_commitSector (.inl rfl),
      .inl (hsame _ fun hf => hf.1.not_commitSector (.inr (.inl rfl))), fun b role hb => ?_⟩
    rw [hsame b (hheap.not_fresh hb)]
    exact commit_keeps hheap hwrote hd' hb
  have hmid : BeforeCommit d.sectors d'.sectors roles last.sectors :=
    hframe _ fun b hb => hwrote.sectors_eq hb
  refine (hwrote.throughout fun sectors hsame => hbefore _ (hframe sectors hsame)).trans ?_
  have hsuper : ∀ e : PlainDisk, d' = e.write env hexafsSuperLba (toBlock 512 sb) →
      BeforeCommit d.sectors d'.sectors roles e.sectors → e.Throughout P d' := by
    intro e he hbef
    have hP := hbefore _ hbef
    rw [he] at hafter ⊢
    exact PlainDisk.throughout_write hP hafter
  cases hdirty : alloc.dirty with
  | false =>
    rw [commitBitmap, hdirty, if_neg Bool.false_ne_true] at hd'
    exact hsuper last hd' hmid
  | true =>
    rw [commitBitmap, hdirty, if_pos rfl] at hd'
    have hfirst : bitmapSector alloc.bitmap 0 = d'.sectors hexafsAllocLba := by
      rw [hd', PlainDisk.write_sectors_of_ne hne.symm, PlainDisk.write_sectors_of_ne hne'']
      exact (PlainDisk.write_reaches _ _ (hok.reaches _)).1.symm
    have hone := hwrite rfl hmid (.inl ⟨rfl, hfirst⟩)
    have htwo : BeforeCommit d.sectors d'.sectors roles ((last.write env hexafsAllocLba
        (bitmapSector alloc.bitmap 0)).write env (hexafsAllocLba + 1)
          (bitmapSector alloc.bitmap 1)).sectors := hwrite rfl hone (.inr rfl)
    exact ((PlainDisk.throughout_write (hbefore _ hmid) (hbefore _ hone)).trans
      (PlainDisk.throughout_write (hbefore _ hone) (hbefore _ htwo))).trans (hsuper _ hd' htwo)

end Stops

section Cases

variable {α : Type} {loader : HexafsM α} {view : Option ObjectRead → Except Stop (Bool × α)}
  {sectors sectors' : UInt32 → Sector} {a : Allocator} {head : UInt32} {i j : ℕ}
  {P : (UInt32 → Sector) → Prop} {d mid d' : PlainDisk} {roles' : UInt32 → Option Role}

/-- The first content sectors are those of less data. -/
theorem take_contentSectors (n : ℕ) (data : List UInt8) (h : j ≤ n) :
    (contentSectors n data).take j = contentSectors j data := by
  obtain ⟨m, rfl⟩ := Nat.exists_eq_add_of_le h
  rw [contentSectors_add, List.take_left' (length_contentSectors j data)]

/-- The disk after the first of the content sectors that are overwritten. -/
theorem Heap.partlyWritten (h : Heap sectors roles a) (hrole : roles block = some (.object head i))
    (hj : j ≤ (keptBlocks sectors block data.length).length) :
    PartlyWritten sectors roles block data j
      (applyWrites (((keptBlocks sectors block data.length).zip
        (contentSectors (keptBlocks sectors block data.length).length data)).take j) sectors) := by
  have hcut : ((keptBlocks sectors block data.length).zip
      (contentSectors (keptBlocks sectors block data.length).length data)).take j =
        ((objectAt sectors block).contents.take j).zip (contentSectors j data) := by
    rw [List.zip, List.take_zipWith, take_contentSectors _ _ hj, keptBlocks, List.take_take]
    rw [keptBlocks, List.length_take] at hj
    rw [Nat.min_eq_left (by omega)]
  have hlen : (contentSectors j data).length = ((objectAt sectors block).contents.take j).length := by
    rw [keptBlocks, List.length_take] at hj
    rw [length_contentSectors, List.length_take]
    omega
  have hnodup := h.nodup_contents hrole
  rw [hcut]
  have hout : ∀ b, b ∉ (objectAt sectors block).contents.take j →
      applyWrites (((objectAt sectors block).contents.take j).zip (contentSectors j data)) sectors b =
        sectors b := by
    intro b hb
    refine applyWrites_of_notMem (fun write hwrite heq => hb ?_) sectors
    rw [← heq]
    exact (List.of_mem_zip hwrite).1
  have hcommit : ∀ b, IsCommitSector b → b ∉ (objectAt sectors block).contents.take j := by
    intro b hb hmem
    obtain ⟨k, hk⟩ := h.mem_contents hrole (List.mem_of_mem_take hmem)
    exact (h.covered b _ hk).1.not_commitSector hb
  refine ⟨hout _ (hcommit _ (.inl rfl)), hout _ (hcommit _ (.inr (.inl rfl))),
    fun b role _ hb => hout b fun hmem => hb (List.mem_of_mem_take hmem), ?_⟩
  have hsplit := List.take_append_drop j (objectAt sectors block).contents
  have hdisjoint := hnodup
  rw [← hsplit, List.nodup_append] at hdisjoint
  have hrest : ((objectAt sectors block).contents.drop j).map
      (applyWrites (((objectAt sectors block).contents.take j).zip (contentSectors j data)) sectors) =
        ((objectAt sectors block).contents.drop j).map sectors :=
    List.map_congr_left fun b hb => hout b fun hmem => hdisjoint.2.2 b hmem b hb rfl
  have hall := congrArg (List.map (applyWrites (((objectAt sectors block).contents.take j).zip
    (contentSectors j data)) sectors)) hsplit
  rw [List.map_append, map_applyWrites_zip (hnodup.sublist (List.take_sublist _ _)) hlen,
    hrest] at hall
  exact hall.symm

/-- Changes outside the heap keep an object partly written. -/
theorem PartlyWritten.frame (h : PartlyWritten sectors roles block data j sectors')
    (hheap : Heap sectors roles a) (hrole : roles block = some (.object head i))
    {sectors'' : UInt32 → Sector} (hsame : ∀ b, ¬a.Fresh b → sectors'' b = sectors' b) :
    PartlyWritten sectors roles block data j sectors'' := by
  have hcommit : ∀ b, IsCommitSector b → sectors'' b = sectors' b := fun b hb =>
    hsame b fun hf => hf.1.not_commitSector hb
  refine ⟨(hcommit _ (.inl rfl)).trans h.superblock, (hcommit _ (.inr (.inl rfl))).trans h.bitmap,
    fun b role hb hnot => (hsame b (hheap.not_fresh hb)).trans (h.same b role hb hnot), ?_⟩
  rw [← h.contents]
  refine List.map_congr_left fun b hb => ?_
  obtain ⟨k, hk⟩ := hheap.mem_contents hrole hb
  exact hsame b (hheap.not_fresh hk)

/-- The stops up to the header: some of the content sectors are overwritten. -/
theorem content_throughout (hok : env.WritesOk) (hheap : Heap d.sectors roles a)
    (hrole : roles block = some (.object head i))
    (hplace : InPlace env d (keptBlocks d.sectors block data.length) data mid)
    (hwrote : Wrote env a.Fresh mid d')
    (hP : ∀ j ≤ (keptBlocks d.sectors block data.length).length, ∀ sectors,
      PartlyWritten d.sectors roles block data j sectors → P sectors) :
    d.Throughout P d' := by
  obtain ⟨writes, hlog, hsec, _⟩ := hplace.wrote.log
  have hwrites : writes = (keptBlocks d.sectors block data.length).zip
      (contentSectors (keptBlocks d.sectors block data.length).length data) :=
    List.append_cancel_left (hlog.symm.trans (hplace.log hok))
  have hlen : writes.length = (keptBlocks d.sectors block data.length).length := by
    rw [hwrites, List.length_zip, length_contentSectors, Nat.min_self]
  have hall : ∀ k, PartlyWritten d.sectors roles block data
      (min k (keptBlocks d.sectors block data.length).length)
        (applyWrites (writes.take k) d.sectors) := by
    intro k
    have htake : writes.take k = writes.take (min k writes.length) := by
      rw [List.take_eq_take_iff]
      omega
    rw [htake, hlen, hwrites]
    exact hheap.partlyWritten hrole (Nat.min_le_right _ _)
  have hmid : PartlyWritten d.sectors roles block data
      (keptBlocks d.sectors block data.length).length mid.sectors := by
    have hthis := hall writes.length
    rw [List.take_length, ← hsec, hlen, Nat.min_self] at hthis
    exact hthis
  have hfirst : d.Throughout P mid :=
    ⟨writes, hlog, hsec, fun k => hP _ (Nat.min_le_right _ _) _ (hall k)⟩
  exact hfirst.trans (hwrote.throughout fun sectors hsame =>
    hP _ (Nat.le_refl _) _ (hmid.frame hheap hrole hsame))

/-- The machine can stop between any two content sectors. -/
theorem exists_stoppedAfter_content (hok : env.WritesOk)
    (hplace : InPlace env machine.dev.plain (keptBlocks machine.sectors block data.length) data mid)
    {W : UInt32 → Prop} (hwrote : Wrote env W mid machine'.dev.plain) (k : ℕ)
    (hk : k ≤ (keptBlocks machine.sectors block data.length).length) :
    machine.stoppedAfter machine' k =
      applyWrites (((keptBlocks machine.sectors block data.length).zip
        (contentSectors (keptBlocks machine.sectors block data.length).length data)).take k)
          machine.sectors := by
  obtain ⟨writes, hlog, _⟩ := hwrote.log
  have hall : machine'.dev.disk.log = machine.dev.disk.log ++
      ((keptBlocks machine.sectors block data.length).zip
        (contentSectors (keptBlocks machine.sectors block data.length).length data) ++ writes) := by
    rw [← List.append_assoc]
    exact hlog.trans (congrArg (· ++ writes) (hplace.log hok))
  have hlen : k ≤ ((keptBlocks machine.sectors block data.length).zip
      (contentSectors (keptBlocks machine.sectors block data.length).length data)).length := by
    rw [List.length_zip, length_contentSectors]
    omega
  rw [Machine.stoppedAfter, hall, List.drop_left, List.take_append_of_le_length hlen]

/-- When stopping a configuration save is harmless anywhere: every mixture of content
that it passes through already reads as the old or the new object, and it links no
block that the bitmap on the disk does not mark yet. -/
def StopsHarmless (view : Option ObjectRead → Except Stop (Bool × α)) (sectors : UInt32 → Sector)
    (root : UInt32) (free : ℕ) (name : CString) (data : List UInt8) : Prop :=
  rootAbsAt sectors root = 0 ∨
  match (absEntries sectors (rootAbsAt sectors root)).find? fun e => nameMatches e.name name with
  | some entry =>
    (neededBlocks sectors entry.objectBlock data.length = 0 ∨
      free < neededBlocks sectors entry.objectBlock data.length) ∧
    ∀ read, readObject sectors entry.objectBlock = some read →
      ∀ j ≤ (keptBlocks sectors entry.objectBlock data.length).length,
        view (some { read with bytes := mixedBytes data read.bytes j }) = view (some read) ∨
          view (some { read with bytes := mixedBytes data read.bytes j }) =
            view (some ⟨true, hexafsConfig, UInt32.ofNat data.length, data⟩)
  | none =>
    free = 0 ∨ (headerAt sectors (rootAbsAt sectors root)).nextChain ≠ 0 ∨
      (headerAt sectors (rootAbsAt sectors root)).entryCount.toNat = 11 ∧ free = 1

/-- Every stop of an operation is harmless. -/
def Machine.SafelyStopped (env' : Environment) (machine machine' : Machine) (loader : HexafsM α)
    (after : Except Stop (Bool × α)) : Prop :=
  ∀ k, SafeStop env' loader (reload env' machine.sectors loader) after
    (machine.stoppedAfter machine' k)

/-- An operation without writes. -/
theorem Machine.Settled.safelyStopped_of_eq (h : machine.Settled roles)
    (hsame : machine'.dev.plain = machine.dev.plain) (after : Except Stop (Bool × α)) :
    machine.SafelyStopped env' machine' loader after := by
  refine Machine.stoppedAfter_of_throughout ?_
  rw [hsame]
  exact PlainDisk.throughout_refl (h.safeStop after)

/-- An operation whose writes stay outside the heap. -/
theorem Machine.Settled.safeStop_of_same (h : machine.Settled roles)
    (hsuper : sectors hexafsSuperLba = machine.sectors hexafsSuperLba)
    (hmarked : ∀ b role, roles b = some role → bitmapTest (diskBitmap sectors) b.toNat = true)
    (hsame : ∀ b role, roles b = some role → sectors b = machine.sectors b)
    (hview : ConfigView env' loader name view) (after : Except Stop (Bool × α)) :
    SafeStop env' loader (reload env' machine.sectors loader) after sectors := by
  obtain ⟨himage, hroot⟩ := h.image.frame hsuper hsame
  refine ⟨.inl ?_, fun b role hreach => himage.marked hmarked hreach⟩
  rw [hview.reload_eq himage, hview.reload_eq h.image, hroot]
  exact congrArg view (h.mounted.store.heap.configAt_eq h.image.root hsame)

/-- The object of the entry that a configuration save finds. -/
structure FoundEntry (machine : Machine) (roles : UInt32 → Option Role) (name : CString)
    (entry : HexafsAbsEntry) (i : ℕ) (read : ObjectRead) : Prop where
  /-- There is a root abstraction. -/
  root : rootAbsAt machine.sectors (rootOn machine.sectors) ≠ 0
  /-- It has an entry with the name. -/
  find : (absEntries machine.sectors (rootAbsAt machine.sectors (rootOn machine.sectors))).find?
    (fun e => nameMatches e.name name) = some entry
  /-- The entry leads to an object. -/
  role : roles entry.objectBlock =
    some (.object (rootAbsAt machine.sectors (rootOn machine.sectors)) i)
  /-- The object can be read. -/
  read : readObject machine.sectors entry.objectBlock = some read

theorem Machine.Settled.foundEntry (h : machine.Settled roles) {entry : HexafsAbsEntry}
    (hne : rootAbsAt machine.sectors (rootOn machine.sectors) ≠ 0)
    (hfind : (absEntries machine.sectors (rootAbsAt machine.sectors (rootOn machine.sectors))).find?
      (fun e => nameMatches e.name name) = some entry) :
    ∃ i read, FoundEntry machine roles name entry i read := by
  have hheap := h.mounted.store.heap
  obtain ⟨i, hi⟩ := List.mem_iff_getElem?.mp (List.mem_of_find?_eq_some hfind)
  have hrole := hheap.entry (hheap.rootAbsAt_role h.image.root hne) hi
  exact ⟨i, _, hne, hfind, hrole, readObject_of_ok (hheap.objectOk hrole)⟩

/-- The value behind a found entry. -/
theorem FoundEntry.reload_eq {entry : HexafsAbsEntry} {read : ObjectRead}
    (hfound : FoundEntry machine roles name entry i read) (h : machine.Settled roles)
    (hview : ConfigView env' loader name view) :
    reload env' machine.sectors loader = view (some read) := by
  have hconfig : configAt machine.sectors (rootOn machine.sectors) name =
      readObject machine.sectors entry.objectBlock :=
    h.mounted.store.heap.configAt_found h.image.root hfound.root hfound.find fun _ _ _ _ => rfl
  rw [hview.reload_eq h.image, hconfig, hfound.read]

/-- A stop between content sectors is harmless when the mixture is. -/
theorem FoundEntry.safeStop_iff {entry : HexafsAbsEntry} {read : ObjectRead}
    (hfound : FoundEntry machine roles name entry i read) (h : machine.Settled roles)
    (hview : ConfigView env' loader name view)
    (hpart : PartlyWritten machine.sectors roles entry.objectBlock data j sectors)
    (after : Except Stop (Bool × α)) :
    SafeStop env' loader (reload env' machine.sectors loader) after sectors ↔
      view (some { read with bytes := mixedBytes data read.bytes j }) = view (some read) ∨
        view (some { read with bytes := mixedBytes data read.bytes j }) = after := by
  obtain ⟨hreload, hmarked⟩ :=
    PartlyWritten.reload_eq hview h hfound.root hfound.find hfound.role hpart hfound.read
  rw [hfound.reload_eq h hview]
  constructor
  · intro hsafe
    rw [← hreload]
    exact hsafe.loaded
  · intro hmixed
    exact ⟨by rwa [hreload], hmarked⟩

/-- Whoever stops safely everywhere passes through harmless mixtures only. -/
theorem FoundEntry.mixtures {entry : HexafsAbsEntry} {read : ObjectRead}
    (hfound : FoundEntry machine roles name entry i read) (h : machine.Settled roles)
    (hok : env.WritesOk) (hview : ConfigView env' loader name view)
    (hplace : InPlace env machine.dev.plain
      (keptBlocks machine.sectors entry.objectBlock data.length) data mid)
    {W : UInt32 → Prop} (hwrote : Wrote env W mid machine'.dev.plain)
    {after : Except Stop (Bool × α)} (hsafe : machine.SafelyStopped env' machine' loader after)
    (hj : j ≤ (keptBlocks machine.sectors entry.objectBlock data.length).length) :
    view (some { read with bytes := mixedBytes data read.bytes j }) = view (some read) ∨
      view (some { read with bytes := mixedBytes data read.bytes j }) = after := by
  have hstop := hsafe j
  rw [exists_stoppedAfter_content hok hplace hwrote j hj] at hstop
  have hpart := h.mounted.store.heap.partlyWritten hfound.role hj
  exact (hfound.safeStop_iff h hview hpart after).mp hstop

/-- Without blocks for the new content, the content sectors are all that is written. -/
theorem FoundEntry.refused_iff {entry : HexafsAbsEntry} {read : ObjectRead}
    (hfound : FoundEntry machine roles name entry i read) (h : machine.Settled roles)
    (hok : env.WritesOk) (hview : ConfigView env' loader name view)
    (hout : ConfigRefused env machine.mem.begun machine.dev.plain roles entry.objectBlock data
      machine'.mem machine'.dev.plain) (after : Except Stop (Bool × α)) :
    machine.SafelyStopped env' machine' loader after ↔
      ∀ j ≤ (keptBlocks machine.sectors entry.objectBlock data.length).length,
        view (some { read with bytes := mixedBytes data read.bytes j }) = view (some read) ∨
          view (some { read with bytes := mixedBytes data read.bytes j }) = after := by
  obtain ⟨mid, hplace, hwrote⟩ := hout.inPlace
  constructor
  · intro hsafe j hj
    exact hfound.mixtures h hok hview hplace hwrote hsafe hj
  · intro hmixtures
    refine Machine.stoppedAfter_of_throughout ?_
    refine content_throughout hok h.mounted.store.heap hfound.role hplace hwrote ?_
    intro j hj sectors hpart
    exact (hfound.safeStop_iff h hview hpart after).mpr (hmixtures j hj)

/-- An image on which the entry leads to the new content. -/
theorem FoundEntry.safeStop_new {entry : HexafsAbsEntry} {read : ObjectRead}
    (hfound : FoundEntry machine roles name entry i read) (hview : ConfigView env' loader name view)
    {roles' : UInt32 → Option Role} (himage : Image sectors roles' a)
    (habs : rootAbsAt sectors (rootOn sectors) =
      rootAbsAt machine.sectors (rootOn machine.sectors))
    (hentries : absEntries sectors (rootAbsAt machine.sectors (rootOn machine.sectors)) =
      absEntries machine.sectors (rootAbsAt machine.sectors (rootOn machine.sectors)))
    {type : UInt8} (hread : readObject sectors entry.objectBlock =
      some ⟨true, type, UInt32.ofNat data.length, data⟩)
    (hmarked : ∀ b role, roles' b = some role → bitmapTest (diskBitmap sectors) b.toNat = true)
    (before : Except Stop (Bool × α)) :
    SafeStop env' loader before (view (some ⟨true, hexafsConfig, UInt32.ofNat data.length, data⟩))
      sectors := by
  have hconfig : configAt sectors (rootOn sectors) name = readObject sectors entry.objectBlock := by
    rw [configAt, habs, if_neg hfound.root, hentries, hfound.find]
    rfl
  refine ⟨.inr ?_, fun b role hreach => himage.marked hmarked hreach⟩
  rw [hview.reload_eq himage, hconfig, hread]
  exact hview.type_free _ _ _ _

/-- The disk with the new header. -/
structure HeaderWritten (env : Environment) (machine : Machine) (block : UInt32)
    (data : List UInt8) (mid : PlainDisk) (fresh : List UInt32) (d : PlainDisk) : Prop where
  /-- The last write is that of the header. -/
  eq : d = mid.write env block (toBlock 512 (writtenHeader machine.sectors block fresh data))
  /-- The contents come before it, first in place and then in fresh blocks. -/
  inPlace : ∃ start, InPlace env machine.dev.plain
    (keptBlocks machine.sectors block data.length) data start ∧
      Wrote env machine.mem.allocator.Fresh start mid
  /-- As many blocks are taken as are needed. -/
  length_eq : fresh.length = neededBlocks machine.sectors block data.length
  /-- They were free. -/
  fresh : ∀ b ∈ fresh, machine.mem.allocator.Fresh b

/-- The header on the disk: it names the kept blocks and the new ones. -/
theorem HeaderWritten.object {fresh : List UInt32}
    (hwritten : HeaderWritten env machine block data mid fresh d) (hok : env.WritesOk)
    (hdata : data.length ≤ 2048) (hmagic : objMagicOk (objectAt machine.sectors block) = true) :
    (objectAt d.sectors block).Ok ∧ (objectAt d.sectors block).contents =
      keptBlocks machine.sectors block data.length ++ fresh := by
  have hlen : (keptBlocks machine.sectors block data.length ++ fresh).length =
      blocksFor data.length := by
    rw [List.length_append, hwritten.length_eq, keptBlocks, neededBlocks, List.length_take]
    omega
  have hzero : 0 ∉ keptBlocks machine.sectors block data.length ++ fresh := by
    intro hz
    rcases List.mem_append.mp hz with hz | hz
    · exact ne_zero_of_mem_contents (List.mem_of_mem_take hz) rfl
    · exact (hwritten.fresh 0 hz).1.ne_zero rfl
  have hfour := blocksFor_le_four hdata
  have hobj : objectAt d.sectors block = (objectAt machine.sectors block).withContent
      (keptBlocks machine.sectors block data.length ++ fresh ++ List.replicate
        (4 - (keptBlocks machine.sectors block data.length ++ fresh).length) 0) data := by
    rw [objectAt, hwritten.eq, (PlainDisk.write_reaches _ _ (hok.reaches _)).1, ofBlock_toBlock,
      writtenHeader, hlen]
  rw [hobj]
  exact ⟨withContent_ok hmagic (by omega) hzero hdata (hlen ▸ le_blocksFor data.length),
    contents_withContent (by omega) hzero⟩

/-- Where the sectors up to the header are. -/
theorem HeaderWritten.wrote {fresh : List UInt32}
    (hwritten : HeaderWritten env machine block data mid fresh d) :
    Wrote env (fun b => b = block ∨ b ∈ keptBlocks machine.sectors block data.length ∨
      machine.mem.allocator.Fresh b) machine.dev.plain d := by
  obtain ⟨start, hplace, hwrote⟩ := hwritten.inPlace
  rw [hwritten.eq]
  exact ((hplace.wrote.mono fun b hb => .inr (.inl hb)).trans
    (hwrote.mono fun b hb => .inr (.inr hb))).write (.inl rfl)

/-- A medium with the superblock of a machine and its way to the objects. -/
structure SamePath (machine : Machine) (roles : UInt32 → Option Role)
    (sectors : UInt32 → Sector) : Prop where
  /-- The superblock stays. -/
  superblock : sectors hexafsSuperLba = machine.sectors hexafsSuperLba
  /-- Blocks that hold no content stay. -/
  structural : ∀ b role, roles b = some role → role.Structural → sectors b = machine.sectors b

/-- Up to the header the way to the object is not touched, nor is the bitmap. -/
theorem HeaderWritten.samePath {fresh : List UInt32}
    (hwritten : HeaderWritten env machine block data mid fresh d) (h : machine.Settled roles)
    (hrole : roles block = some (.object head i)) :
    SamePath machine roles d.sectors ∧
      d.sectors hexafsAllocLba = machine.sectors hexafsAllocLba := by
  have hheap := h.mounted.store.heap
  have hcommit : ∀ b, IsCommitSector b → d.sectors b = machine.sectors b := by
    intro b hb
    refine hwritten.wrote.sectors_eq fun hor => ?_
    rcases hor with rfl | hmem | hf
    · exact (hheap.covered b _ hrole).1.not_commitSector hb
    · obtain ⟨k, hk⟩ := hheap.mem_contents hrole (List.mem_of_mem_take hmem)
      exact (hheap.covered b _ hk).1.not_commitSector hb
    · exact hf.1.not_commitSector hb
  refine ⟨⟨hcommit _ (.inl rfl), fun b role hb hstructural => ?_⟩, hcommit _ (.inr (.inl rfl))⟩
  refine hwritten.wrote.sectors_eq fun hor => ?_
  rcases hor with rfl | hmem | hf
  · rw [hrole] at hb
    rw [← Option.some.inj hb] at hstructural
    exact hstructural
  · obtain ⟨k, hk⟩ := hheap.mem_contents hrole (List.mem_of_mem_take hmem)
    rw [hb] at hk
    rw [Option.some.inj hk] at hstructural
    exact hstructural
  · exact hheap.not_fresh hb hf

theorem SamePath.rootOn_eq (hpath : SamePath machine roles sectors) :
    rootOn sectors = rootOn machine.sectors :=
  congrArg (fun sector => (ofBlock HexafsSuperblock sector).rootSnapBlock) hpath.superblock

theorem SamePath.rootAbs_eq (hpath : SamePath machine roles sectors) (h : machine.Settled roles) :
    rootAbsAt sectors (rootOn sectors) = rootAbsAt machine.sectors (rootOn machine.sectors) := by
  rw [hpath.rootOn_eq]
  exact rootAbsAt_congr fun hne => hpath.structural _ _ (h.image.root hne) trivial

/-- The entries are those of the machine. -/
theorem SamePath.entries_eq (hpath : SamePath machine roles sectors) (h : machine.Settled roles)
    (hne : rootAbsAt machine.sectors (rootOn machine.sectors) ≠ 0) :
    AbsSound sectors (rootAbsAt machine.sectors (rootOn machine.sectors)) ∧
      absEntries sectors (rootAbsAt machine.sectors (rootOn machine.sectors)) =
        absEntries machine.sectors (rootAbsAt machine.sectors (rootOn machine.sectors)) := by
  have hheap := h.mounted.store.heap
  have hrole := hheap.rootAbsAt_role h.image.root hne
  have hhead := hpath.structural _ _ hrole trivial
  have hchain : (headerAt machine.sectors (rootAbsAt machine.sectors
      (rootOn machine.sectors))).nextChain ≠ 0 → sectors (headerAt machine.sectors
        (rootAbsAt machine.sectors (rootOn machine.sectors))).nextChain = machine.sectors
          (headerAt machine.sectors (rootAbsAt machine.sectors (rootOn machine.sectors))).nextChain :=
    fun hlinked => hpath.structural _ _ (hheap.chain hrole hlinked) trivial
  exact ⟨(hheap.absSound hrole).congr hhead hchain, absEntries_congr hhead hchain⟩

/-- The found object is reachable on every such medium. -/
theorem FoundEntry.reachable {entry : HexafsAbsEntry} {read : ObjectRead}
    (hfound : FoundEntry machine roles name entry i read) (h : machine.Settled roles)
    (hpath : SamePath machine roles sectors) : ∃ n, Reachable sectors (rootOn sectors)
      entry.objectBlock (.object (rootAbsAt machine.sectors (rootOn machine.sectors)) n) := by
  obtain ⟨hsound, hentries⟩ := hpath.entries_eq h hfound.root
  have habs := hpath.rootAbs_eq h
  have hne : rootAbsAt sectors (rootOn sectors) ≠ 0 := by
    rw [habs]
    exact hfound.root
  have hstart := reachable_rootAbs hne
  rw [habs] at hstart
  have hmem := List.mem_of_find?_eq_some hfound.find
  rw [← hentries] at hmem
  obtain ⟨n, hn⟩ := List.mem_iff_getElem?.mp hmem
  exact ⟨n, hstart.entry hsound hn⟩

/-- New blocks that are linked before the bitmap is written: a stop that is not safe. -/
theorem FoundEntry.not_safelyStopped {entry : HexafsAbsEntry} {read : ObjectRead}
    (hfound : FoundEntry machine roles name entry i read) (h : machine.Settled roles)
    (hok : env.WritesOk) (hdata : data.length ≤ 2048) {fresh : List UInt32}
    (hwritten : HeaderWritten env machine entry.objectBlock data mid fresh d)
    {W : UInt32 → Prop} (hrest : Wrote env W d machine'.dev.plain)
    (hneed : neededBlocks machine.sectors entry.objectBlock data.length ≠ 0)
    (after : Except Stop (Bool × α)) : ¬machine.SafelyStopped env' machine' loader after := by
  intro hsafe
  obtain ⟨hpath, hbitmap⟩ := hwritten.samePath h hfound.role
  have hmagic := (h.mounted.store.heap.objectOk hfound.role).magic
  obtain ⟨hobjOk, hcontents⟩ := hwritten.object hok hdata hmagic
  -- the first new block
  have hpos : 0 < fresh.length := by
    have hlen := hwritten.length_eq
    omega
  obtain ⟨b, rest, hfresh⟩ := List.exists_cons_of_length_pos hpos
  have hb : machine.mem.allocator.Fresh b := hwritten.fresh b (hfresh ▸ List.mem_cons_self)
  have hslot : (objectAt d.sectors entry.objectBlock).contents[(keptBlocks machine.sectors
      entry.objectBlock data.length).length]? = some b := by
    rw [hcontents, List.getElem?_append_right (Nat.le_refl _), Nat.sub_self, hfresh]
    rfl
  obtain ⟨k, hk⟩ := Machine.exists_stoppedAfter hwritten.wrote hrest
  have hstop := hsafe k
  rw [hk] at hstop
  obtain ⟨n, hreach⟩ := hfound.reachable h hpath
  have hmarked := hstop.marked b _ (hreach.content hobjOk hslot)
  rw [bitmapTest_diskBitmap hbitmap hb.1, h.committed.bitmap] at hmarked
  exact hb.2 hmarked

/-- A medium between a new header without new blocks and the commit is an image of
the old store that leads to the new content. -/
theorem FoundEntry.safeStop_beforeCommit {entry : HexafsAbsEntry} {read : ObjectRead}
    (hfound : FoundEntry machine roles name entry i read) (h : machine.Settled roles)
    (hok : env.WritesOk) (hview : ConfigView env' loader name view) (hdata : data.length ≤ 2048)
    (hwritten : HeaderWritten env machine entry.objectBlock data mid [] d)
    (h' : machine'.Settled roles') (hext : Extends roles roles')
    (hkeep : ∀ b role, roles b = some role → d.sectors b = machine'.sectors b)
    (hread : readObject machine'.sectors entry.objectBlock =
      some ⟨true, (objectAt machine.sectors entry.objectBlock).type, UInt32.ofNat data.length, data⟩)
    (hbefore : BeforeCommit d.sectors machine'.sectors roles sectors)
    (before : Except Stop (Bool × α)) :
    SafeStop env' loader before (view (some ⟨true, hexafsConfig, UInt32.ofNat data.length, data⟩))
      sectors := by
  have hheap := h.mounted.store.heap
  have hrole := hfound.role
  obtain ⟨hdiskPath, hdiskBitmap⟩ := hwritten.samePath h hrole
  obtain ⟨hobjOk, hcontents⟩ := hwritten.object hok hdata (hheap.objectOk hrole).magic
  have hsame : ∀ b role, roles b = some role → sectors b = d.sectors b := fun b role hb =>
    (hbefore.same b role hb).trans (hkeep b role hb).symm
  have hpath : SamePath machine roles sectors :=
    ⟨hbefore.superblock.trans hdiskPath.superblock, fun b role hb hstructural =>
      (hsame b role hb).trans (hdiskPath.structural b role hb hstructural)⟩
  have hblock : objectAt sectors entry.objectBlock = objectAt d.sectors entry.objectBlock :=
    congrArg (ofBlock HexafsObject) (hsame _ _ hrole)
  have hfront : keptBlocks machine.sectors entry.objectBlock data.length <+:
      (objectAt machine.sectors entry.objectBlock).contents := List.take_prefix _ _
  have hnew : Heap sectors roles machine.mem.allocator := by
    have hrewritten := hheap.rewriteObject hrole (hblock ▸ hobjOk)
      (hcontents ▸ congrArg HexafsObject.contents hblock) hfront
        (Grown.refl h.mounted.store.hint) fun b role hb hne hkept => by
          rw [hsame b role hb]
          refine hwritten.wrote.sectors_eq fun hor => ?_
          exact hor.elim hne fun hor => hor.elim hkept (hheap.not_fresh hb)
    rwa [contentRoles, List.mapIdx_nil, assign_nil] at hrewritten
  have himage : Image sectors roles machine.mem.allocator := by
    have hsb : superblockAt sectors = superblockAt machine.sectors :=
      congrArg (ofBlock HexafsSuperblock) hpath.superblock
    exact ⟨hsb ▸ h.image.valid, hnew, hsb ▸ h.image.root⟩
  have hread' : readObject sectors entry.objectBlock =
      readObject machine'.sectors entry.objectBlock := by
    have hobject := h'.mounted.store.heap.objectOk (hext _ _ hrole)
    refine readObject_congr (hbefore.same _ _ hrole) fun b hb => ?_
    have hblock' : objectAt machine'.sectors entry.objectBlock =
        objectAt d.sectors entry.objectBlock :=
      congrArg (ofBlock HexafsObject) (hkeep _ _ hrole).symm
    rw [hblock', hcontents, List.append_nil] at hb
    obtain ⟨k, hk⟩ := hheap.mem_contents hrole (hfront.subset hb)
    exact hbefore.same b _ hk
  refine hfound.safeStop_new hview himage (hpath.rootAbs_eq h)
    (hpath.entries_eq h hfound.root).2 (hread'.trans hread) (fun b role hb => ?_) before
  rcases hbefore.bitmap with hold | hnewBitmap
  · exact h.marked (hold.trans hdiskBitmap) hb
  · exact h'.marked hnewBitmap (hext _ _ hb)

/-- A save that needs no new block stops safely when its mixtures are harmless. -/
theorem FoundEntry.written_safelyStopped {entry : HexafsAbsEntry} {read : ObjectRead}
    (hfound : FoundEntry machine roles name entry i read) (h : machine.Settled roles)
    (hok : env.WritesOk) (hview : ConfigView env' loader name view) (hdata : data.length ≤ 2048)
    (hcoh : machine'.dev.Coherent)
    (hout : ConfigWritten env machine.mem.begun machine.dev.plain roles
      (rootAbsAt machine.sectors (rootOn machine.sectors)) entry.objectBlock data machine'.mem
        machine'.dev.plain roles')
    (hneed : neededBlocks machine.sectors entry.objectBlock data.length = 0)
    (hmixtures : ∀ j ≤ (keptBlocks machine.sectors entry.objectBlock data.length).length,
      view (some { read with bytes := mixedBytes data read.bytes j }) = view (some read) ∨
        view (some { read with bytes := mixedBytes data read.bytes j }) =
          view (some ⟨true, hexafsConfig, UInt32.ofNat data.length, data⟩)) :
    machine.SafelyStopped env' machine' loader
      (view (some ⟨true, hexafsConfig, UInt32.ofNat data.length, data⟩)) := by
  obtain ⟨start, mid, last, dirty, fresh, hplace, hlen, hfresh, hmid, hlast, hd'⟩ := hout.steps
  have hnil : fresh = [] := List.length_eq_zero_iff.mp (hlen.trans hneed)
  subst hnil
  have hheap := h.mounted.store.heap
  have hsettled : machine'.Settled roles' := ⟨⟨hcoh, hout.store⟩, hout.committed⟩
  have hwritten : HeaderWritten env machine entry.objectBlock data mid []
      (mid.write env entry.objectBlock
        (toBlock 512 (writtenHeader machine.sectors entry.objectBlock [] data))) :=
    ⟨rfl, ⟨start, hplace, hmid⟩, hlen, hfresh⟩
  have hstages := content_throughout hok hheap hfound.role hplace hmid fun j hj sectors hpart =>
    (hfound.safeStop_iff h hview hpart _).mpr (hmixtures j hj)
  have hkeep : ∀ b role, roles b = some role → (mid.write env entry.objectBlock
      (toBlock 512 (writtenHeader machine.sectors entry.objectBlock [] data))).sectors b =
        machine'.sectors b := fun b role hb => commit_keeps hheap hlast hd' hb
  have hbefore : ∀ sectors, BeforeCommit (mid.write env entry.objectBlock
      (toBlock 512 (writtenHeader machine.sectors entry.objectBlock [] data))).sectors
        machine'.sectors roles sectors → SafeStop env' loader (reload env' machine.sectors loader)
          (view (some ⟨true, hexafsConfig, UInt32.ofNat data.length, data⟩)) sectors :=
    fun sectors hsectors => hfound.safeStop_beforeCommit h hok hview hdata hwritten hsettled
      hout.extend hkeep hout.read hsectors _
  have howner : OwnedOrLeaked roles machine.dev.plain.sectors entry.objectBlock :=
    .inl ⟨_, _, hfound.role⟩
  have habs : rootAbsAt machine'.sectors (rootOn machine'.sectors) =
      rootAbsAt machine.sectors (rootOn machine.sectors) := by
    rw [hsettled.rootOn_eq]
    exact hout.rootAbs_eq hheap howner h.mounted.store.root (by rw [h.rootOn_eq]; rfl)
  have hentries := hout.entries_eq hheap howner (hheap.rootAbsAt_role h.image.root hfound.root)
  have hend := hfound.safeStop_new hview hsettled.image habs hentries hout.read
    (fun b role hb => hsettled.marked rfl hb) (reload env' machine.sectors loader)
  have hcommit := commit_throughout hok hheap hlast hd' hbefore hend
  exact Machine.stoppedAfter_of_throughout ((hstages.trans (PlainDisk.throughout_write hstages.last
    (hbefore _ ⟨rfl, .inl rfl, hkeep⟩))).trans hcommit)

/-- A save with its object only adds writes to the log. -/
theorem ConfigWritten.wrote {mem mem' : Memory} {absBlock : UInt32}
    (h : ConfigWritten env mem d roles absBlock block data mem' d' roles') :
    Wrote env (fun _ => True) d d' := by
  obtain ⟨start, mid, last, dirty, fresh, hplace, _, _, hmid, hlast, hd'⟩ := h.steps
  have hheader : Wrote env (fun _ => True) d
      (mid.write env block (toBlock 512 (writtenHeader d.sectors block fresh data))) :=
    ((hplace.wrote.mono fun _ _ => trivial).trans (hmid.mono fun _ _ => trivial)).write trivial
  rw [hd']
  exact ((hheader.trans (hlast.mono fun _ _ => trivial)).trans
    ((wrote_commitBitmap _).mono fun _ _ => trivial)).write trivial

theorem ConfigRefused.wrote {mem mem' : Memory}
    (h : ConfigRefused env mem d roles block data mem' d') : Wrote env (fun _ => True) d d' := by
  obtain ⟨mid, hplace, hmid⟩ := h.inPlace
  exact (hplace.wrote.mono fun _ _ => trivial).trans (hmid.mono fun _ _ => trivial)

/-- A save that writes its object stops safely when it needs no new block and its
mixtures are harmless, and only then. -/
theorem FoundEntry.written_iff {entry : HexafsAbsEntry} {read : ObjectRead}
    (hfound : FoundEntry machine roles name entry i read) (h : machine.Settled roles)
    (hok : env.WritesOk) (hview : ConfigView env' loader name view) (hdata : data.length ≤ 2048)
    (hcoh : machine'.dev.Coherent)
    (hout : ConfigWritten env machine.mem.begun machine.dev.plain roles
      (rootAbsAt machine.sectors (rootOn machine.sectors)) entry.objectBlock data machine'.mem
        machine'.dev.plain roles') :
    machine.SafelyStopped env' machine' loader
        (view (some ⟨true, hexafsConfig, UInt32.ofNat data.length, data⟩)) ↔
      neededBlocks machine.sectors entry.objectBlock data.length = 0 ∧
        ∀ j ≤ (keptBlocks machine.sectors entry.objectBlock data.length).length,
          view (some { read with bytes := mixedBytes data read.bytes j }) = view (some read) ∨
            view (some { read with bytes := mixedBytes data read.bytes j }) =
              view (some ⟨true, hexafsConfig, UInt32.ofNat data.length, data⟩) := by
  constructor
  · intro hsafe
    obtain ⟨start, mid, last, dirty, fresh, hplace, hlen, hfresh, hmid, hlast, hd'⟩ := hout.steps
    have hheader : HeaderWritten env machine entry.objectBlock data mid fresh
        (mid.write env entry.objectBlock
          (toBlock 512 (writtenHeader machine.sectors entry.objectBlock fresh data))) :=
      ⟨rfl, ⟨start, hplace, hmid⟩, hlen, hfresh⟩
    have hrest : Wrote env (fun _ => True) (mid.write env entry.objectBlock
        (toBlock 512 (writtenHeader machine.sectors entry.objectBlock fresh data)))
          machine'.dev.plain := by
      rw [hd']
      exact ((hlast.mono fun _ _ => trivial).trans
        ((wrote_commitBitmap _).mono fun _ _ => trivial)).write trivial
    have hfrom : Wrote env (fun _ => True) start machine'.dev.plain :=
      ((hmid.mono fun _ _ => trivial).write trivial).trans hrest
    constructor
    · by_contra hneed
      exact hfound.not_safelyStopped h hok hdata hheader hrest hneed _ hsafe
    · intro j hj
      exact hfound.mixtures h hok hview hplace hfrom hsafe hj
  · rintro ⟨hneed, hmixtures⟩
    exact hfound.written_safelyStopped h hok hview hdata hcoh hout hneed hmixtures

/-- A save whose new object gets no entry changes nothing that the root reaches. -/
theorem Machine.Settled.leaked_safelyStopped (h : machine.Settled roles) (hok : env.WritesOk)
    (hview : ConfigView env' loader name view) (hcoh : machine'.dev.Coherent)
    {absBlock : UInt32} {a₁ : Allocator} {d₁ : PlainDisk} {ok : Bool}
    (habs : absBlock = rootAbsAt machine.sectors (rootOn machine.sectors)) (hne : absBlock ≠ 0)
    (hcreated : ConfigCreated env absBlock machine.mem.begun machine.dev.plain block a₁ d₁)
    (hwrote : Wrote env machine.mem.allocator.Fresh machine.dev.plain d₁)
    (hnone : roles block = none)
    (hout : ok = false ∧ ConfigRefused env { machine.mem.begun with allocator := a₁ } d₁ roles block
        data machine'.mem machine'.dev.plain ∨
      ok = true ∧ ∃ roles', ConfigWritten env { machine.mem.begun with allocator := a₁ } d₁ roles
        absBlock block data machine'.mem machine'.dev.plain roles')
    (after : Except Stop (Bool × α)) : machine.SafelyStopped env' machine' loader after := by
  have hheap := h.mounted.store.heap
  obtain ⟨blocks, hgrown, _⟩ := hcreated.grown
  have hkept : keptBlocks d₁.sectors block data.length = [] := by
    rw [keptBlocks, hcreated.contents, List.take_nil]
  have hfresh : ∀ b, a₁.Fresh b → machine.mem.allocator.Fresh b := fun b hb =>
    hgrown.fresh_of_fresh hb
  have hsafe : ∀ sectors, (∀ b, ¬machine.mem.allocator.Fresh b →
      sectors b = machine.dev.plain.sectors b) →
        SafeStop env' loader (reload env' machine.sectors loader) after sectors := by
    intro sectors hsame
    have hcommit : ∀ b, IsCommitSector b → sectors b = machine.sectors b := fun b hb =>
      hsame b fun hf => hf.1.not_commitSector hb
    exact h.safeStop_of_same (hcommit _ (.inl rfl))
      (fun b role hb => h.marked (hcommit _ (.inr (.inl rfl))) hb)
      (fun b role hb => hsame b (hheap.not_fresh hb)) hview after
  rcases hout with ⟨_, hrefused⟩ | ⟨_, roles', hwritten⟩
  · obtain ⟨mid, hplace, hmid⟩ := hrefused.inPlace
    have hinPlace : Wrote env machine.mem.allocator.Fresh d₁ mid :=
      hplace.wrote.mono fun b hb => by
        rw [hkept] at hb
        exact absurd hb List.not_mem_nil
    have hall := (hwrote.trans hinPlace).trans (hmid.mono hfresh)
    exact Machine.stoppedAfter_of_throughout (hall.throughout hsafe)
  · have hsettled : machine'.Settled roles' := ⟨⟨hcoh, hwritten.store⟩, hwritten.committed⟩
    obtain ⟨start, mid, last, dirty, fresh, hplace, _, _, hmid, hlast, hd'⟩ := hwritten.steps
    have hinPlace : Wrote env machine.mem.allocator.Fresh d₁ start :=
      hplace.wrote.mono fun b hb => by
        rw [hkept] at hb
        exact absurd hb List.not_mem_nil
    have hall : Wrote env machine.mem.allocator.Fresh machine.dev.plain last :=
      (((hwrote.trans hinPlace).trans (hmid.mono hfresh)).write hcreated.fresh).trans
        (hlast.mono hfresh)
    have hkeep : ∀ b role, roles b = some role → machine.sectors b = machine'.sectors b :=
      fun b role hb => commit_keeps hheap hall hd' hb
    refine Machine.stoppedAfter_of_throughout (commit_throughout hok hheap hall hd' ?_ ?_)
    · intro sectors hbefore
      refine h.safeStop_of_same hbefore.superblock (fun b role hb => ?_) (fun b role hb => ?_) hview
        after
      · rcases hbefore.bitmap with hold | hnew
        · exact h.marked hold hb
        · exact hsettled.marked hnew (hwritten.extend _ _ hb)
      · rw [hbefore.same b role hb]
        exact (hkeep b role hb).symm
    · have howner : OwnedOrLeaked roles d₁.sectors block := .inr ⟨hnone, hcreated.contents⟩
      have hheap₁ : Heap d₁.sectors roles machine.mem.allocator :=
        hheap.frame (fun _ => id) fun b role hb => hwrote.sectors_eq (hheap.not_fresh hb)
      have hroot₁ : rootAbsAt d₁.sectors machine.mem.sbCache.rootSnapBlock = absBlock := by
        rw [habs, h.rootOn_eq]
        exact rootAbsAt_congr fun hz =>
          hwrote.sectors_eq (hheap.not_fresh (h.mounted.store.root hz))
      have habs' : rootAbsAt machine'.sectors (rootOn machine'.sectors) = absBlock := by
        rw [hsettled.rootOn_eq]
        exact hwritten.rootAbs_eq hheap₁ howner h.mounted.store.root hroot₁
      have hroleAbs : roles absBlock = some .abstraction := by
        rw [habs] at hne ⊢
        exact hheap.rootAbsAt_role h.image.root hne
      have hconfig : configAt machine'.sectors (rootOn machine'.sectors) name =
          configAt machine.sectors (rootOn machine.sectors) name := by
        have hentries : absEntries machine'.sectors absBlock =
            absEntries machine.sectors absBlock := hheap.absEntries_eq hroleAbs fun b role hb =>
          (hkeep b role hb).symm
        rw [configAt, configAt, habs', ← habs, hentries, if_neg hne, if_neg hne]
        cases hfind : (absEntries machine.sectors absBlock).find? fun e => nameMatches e.name name with
        | none => rfl
        | some entry =>
          exact hheap.readObject_same hroleAbs (fun b role hb => (hkeep b role hb).symm)
            (List.mem_of_find?_eq_some hfind)
      have hreload : reload env' machine'.sectors loader = reload env' machine.sectors loader := by
        rw [hview.reload_eq hsettled.image, hview.reload_eq h.image, hconfig]
      exact ⟨.inl hreload, fun b role hreach => hsettled.image.marked
        (fun _ _ hb => hsettled.marked rfl hb) hreach⟩

/-- A new entry is linked before the bitmap is written: a stop that is not safe. -/
theorem Machine.Settled.added_not_safelyStopped (h : machine.Settled roles)
    {absBlock : UInt32} {a₁ : Allocator} {d₁ : PlainDisk} {roles₁ : UInt32 → Option Role}
    {entry : HexafsAbsEntry} {entries : List HexafsAbsEntry} {W : UInt32 → Prop}
    (habs : absBlock = rootAbsAt machine.sectors (rootOn machine.sectors)) (hne : absBlock ≠ 0)
    (hcreated : ConfigCreated env absBlock machine.mem.begun machine.dev.plain block a₁ d₁)
    (hext : Extends roles roles₁)
    (hstore : StoreAt true { machine.mem.begun with allocator := a₁ } d₁ roles₁)
    (hentry : EntryFor entry name block hexafsConfig)
    (hlist : absEntries d₁.sectors absBlock = entries ++ [entry])
    (hrest : Wrote env W d₁ machine'.dev.plain) (after : Except Stop (Bool × α)) :
    ¬machine.SafelyStopped env' machine' loader after := by
  intro hsafe
  have hheap := h.mounted.store.heap
  have hroleAbs : roles absBlock = some .abstraction := by
    rw [habs] at hne ⊢
    exact hheap.rootAbsAt_role h.image.root hne
  have hcommit : ∀ b, IsCommitSector b → d₁.sectors b = machine.sectors b := by
    intro b hb
    refine hcreated.wrote.sectors_eq fun hor => ?_
    rcases hor with rfl | hf
    · exact (hheap.covered b _ hroleAbs).1.not_commitSector hb
    · exact hf.1.not_commitSector hb
  have hroot : rootOn d₁.sectors = rootOn machine.sectors :=
    congrArg (fun sector => (ofBlock HexafsSuperblock sector).rootSnapBlock) (hcommit _ (.inl rfl))
  have habs₁ : rootAbsAt d₁.sectors (rootOn d₁.sectors) = absBlock := by
    rw [hroot, habs]
    refine rootAbsAt_congr fun hz => hcreated.wrote.sectors_eq fun hor => ?_
    have hsnap := h.image.root hz
    rcases hor with heq | hf
    · have hboth := hroleAbs.symm.trans ((congrArg roles heq).symm.trans hsnap)
      cases hboth
    · exact hheap.not_fresh hsnap hf
  have hne₁ : rootAbsAt d₁.sectors (rootOn d₁.sectors) ≠ 0 := by
    rw [habs₁]
    exact hne
  have hstart := reachable_rootAbs hne₁
  rw [habs₁] at hstart
  have hlast : (absEntries d₁.sectors absBlock)[entries.length]? = some entry := by
    rw [hlist, List.getElem?_append_right (Nat.le_refl _), Nat.sub_self]
    rfl
  have hreach := hstart.entry (hstore.heap.absSound (hext _ _ hroleAbs)) hlast
  rw [hentry.object] at hreach
  obtain ⟨k, hk⟩ := Machine.exists_stoppedAfter hcreated.wrote hrest
  have hstop := hsafe k
  rw [hk] at hstop
  have hmarked := hstop.marked block _ hreach
  have hfresh := hcreated.fresh
  rw [bitmapTest_diskBitmap (hcommit _ (.inr (.inl rfl))) hfresh.1, h.committed.bitmap] at hmarked
  exact hfresh.2 hmarked

/-- Which stops of a configuration save are harmless is decided by the state before. -/
theorem Machine.Settled.saveConfig_safelyStopped_iff (h : machine.Settled roles) (hio : env.IoOk)
    (hview : ConfigView env' loader name view) (hdata : data.length ≤ 2048) :
    ∃ ok machine', machine.run env (saveConfig name snapName data) = .ok (ok, machine') ∧
      (machine.SafelyStopped env' machine' loader
          (view (some ⟨true, hexafsConfig, UInt32.ofNat data.length, data⟩)) ↔
        StopsHarmless view machine.sectors (rootOn machine.sectors)
          machine.mem.allocator.freeCount name data) := by
  have hwp : (saveConfig name snapName data).wp (plainDevice env) machine.mem machine.dev.plain
      fun _ _ _ => True := saveConfig_spec hio.writes h.mounted.store hdata fun _ _ _ _ => trivial
  obtain ⟨ok, machine', hrun, _⟩ := Machine.run_of_wp hio.reads h.mounted.coherent hwp
  obtain ⟨hcoh, hout⟩ := h.mounted.saveConfig hio hdata hrun
  have hroot := h.rootOn_eq
  generalize hafter : view (some ⟨true, hexafsConfig, UInt32.ofNat data.length, data⟩) = after
  refine ⟨ok, machine', hrun, ?_⟩
  rw [StopsHarmless, hroot]
  generalize hmem : machine'.mem = mem' at hout
  generalize hplain : machine'.dev.plain = d' at hout
  cases hout with
  | empty hempty =>
    have hsafe : machine.SafelyStopped env' machine' loader after :=
      h.safelyStopped_of_eq hplain after
    exact ⟨fun _ => .inl hempty, fun _ => hsafe⟩
  | full hne hfind hfree _ =>
    have hsafe : machine.SafelyStopped env' machine' loader after :=
      h.safelyStopped_of_eq hplain after
    have hfind' : (absEntries machine.sectors (rootAbsAt machine.sectors
        machine.mem.sbCache.rootSnapBlock)).find? (fun e => nameMatches e.name name) = none := hfind
    rw [hfind']
    exact ⟨fun _ => .inr (.inl hfree), fun _ => hsafe⟩
  | @foundRefused entry _ _ hne hfind hrefused =>
    have hne' := hne
    have hfind' := hfind
    rw [← hroot] at hne' hfind'
    obtain ⟨i, read, hfound⟩ := h.foundEntry hne' hfind'
    subst hmem hplain
    have hiff := hfound.refused_iff h hio.writes hview hrefused after
    rw [hiff]
    have hfindM : (absEntries machine.sectors (rootAbsAt machine.sectors
        machine.mem.sbCache.rootSnapBlock)).find? (fun e => nameMatches e.name name) =
          some entry := hfind
    rw [hfindM, hafter]
    constructor
    · intro hmixtures
      refine .inr ⟨.inr hrefused.need, fun read' hread' j hj => ?_⟩
      rw [hfound.read] at hread'
      obtain rfl := Option.some.inj hread'
      exact hmixtures j hj
    · intro hcond j hj
      rcases hcond with hzero | ⟨_, hmixtures⟩
      · exact absurd hzero hne
      · exact hmixtures read hfound.read j hj
  | @foundWritten entry _ _ roles' hne hfind hwritten =>
    have hne' := hne
    have hfind' := hfind
    rw [← hroot] at hne' hfind'
    obtain ⟨i, read, hfound⟩ := h.foundEntry hne' hfind'
    subst hmem hplain
    have hfindM : (absEntries machine.sectors (rootAbsAt machine.sectors
        machine.mem.sbCache.rootSnapBlock)).find? (fun e => nameMatches e.name name) =
          some entry := hfind
    rw [hfindM, hafter]
    have hwritten' : ConfigWritten env machine.mem.begun machine.dev.plain roles
        (rootAbsAt machine.sectors (rootOn machine.sectors)) entry.objectBlock data machine'.mem
          machine'.dev.plain roles' := by
      rw [hroot]
      exact hwritten
    have hiff := hfound.written_iff h hio.writes hview hdata hcoh hwritten'
    rw [hafter] at hiff
    rw [hiff]
    constructor
    · rintro ⟨hneed, hmixtures⟩
      refine .inr ⟨.inl hneed, fun read' hread' j hj => ?_⟩
      rw [hfound.read] at hread'
      obtain rfl := Option.some.inj hread'
      exact hmixtures j hj
    · intro hcond
      rcases hcond with hzero | ⟨hneed, hmixtures⟩
      · exact absurd hzero hne
      · rcases hneed with hneed | hshort
        · exact ⟨hneed, fun j hj => hmixtures read hfound.read j hj⟩
        · exact absurd hshort (Nat.not_lt.mpr hwritten.need)
  | @leaked block a₁ d₁ _ _ _ hne hfind hroom hcreated hwrote hnone hcases =>
    subst hmem hplain
    have hsafe := h.leaked_safelyStopped hio.writes hview hcoh (by rw [hroot]; rfl) hne hcreated
      hwrote hnone hcases after
    have hfindM : (absEntries machine.sectors (rootAbsAt machine.sectors
        machine.mem.sbCache.rootSnapBlock)).find? (fun e => nameMatches e.name name) = none := hfind
    rw [hfindM]
    refine ⟨fun _ => .inr (.inr ?_), fun _ => hsafe⟩
    exact hroom.imp id fun hlast => ⟨hlast.1, hlast.2.1⟩
  | @added block a₁ d₁ roles₁ entry i _ _ _ hne hfind hlink hroom hfree hcreated _ hext _ hstore hentry
      hlist hcases =>
    subst hmem hplain
    have hrest : Wrote env (fun _ => True) d₁ machine'.dev.plain := by
      rcases hcases with ⟨_, hrefused⟩ | ⟨_, roles', hwritten⟩
      · exact hrefused.wrote
      · exact hwritten.wrote
    have habs : rootAbsAt machine.dev.plain.sectors machine.mem.sbCache.rootSnapBlock =
        rootAbsAt machine.sectors (rootOn machine.sectors) := by
      rw [hroot]
      rfl
    have hnot : ¬machine.SafelyStopped env' machine' loader after :=
      h.added_not_safelyStopped habs hne hcreated hext hstore hentry hlist hrest after
    have hfindM : (absEntries machine.sectors (rootAbsAt machine.sectors
        machine.mem.sbCache.rootSnapBlock)).find? (fun e => nameMatches e.name name) = none := hfind
    rw [hfindM]
    refine ⟨fun hsafe => absurd hsafe hnot, fun hcond => ?_⟩
    rcases hcond with hzero | hzero | hlinked | ⟨heleven, hone⟩
    · exact absurd hzero hne
    · omega
    · exact absurd hlink hlinked
    · have htwo := hroom heleven
      omega

end Cases

section Views

/-- What hexafs_users_load returns, as a view of its object. -/
def usersView (read : Option ObjectRead) : Except Stop (Bool × Option (UInt32 × List UInt8)) :=
  .ok (true, usersOf read)

/-- What pimp_load_rules returns and leaves, as a view of its object. -/
def rulesView (read : Option ObjectRead) : Except Stop (Bool × Bool × List PimpRule) :=
  (rulesOf read).map fun value => (true, value)

theorem usersView_spec (hreads : ∀ n, env'.readOk n = true) :
    ConfigView env' hexafsUsersLoad usersName usersView where
  reload_eq himage := himage.reload_users hreads
  type_free _ _ _ _ := rfl

theorem rulesView_spec (hreads : ∀ n, env'.readOk n = true) :
    ConfigView env' loadRules pimpName rulesView where
  reload_eq himage := himage.reload_rules hreads
  type_free _ _ _ _ := rfl

/-- On a committed store, the machine may stop anywhere in hexafs_users_save or
pimp_save_rules exactly if the state before makes every stop harmless. -/
theorem configSave_safelyStopped_iff (h : machine.Settled roles) (hio : env.IoOk)
    (hreads : ∀ n, env'.readOk n = true) :
    (∀ data : List UInt8, data.length ≤ 2048 → ∃ ok machine',
      machine.run env (hexafsUsersSave data) = .ok (ok, machine') ∧
        (machine.SafelyStopped env' machine' hexafsUsersLoad
            (.ok (true, some (UInt32.ofNat data.length, data))) ↔
          StopsHarmless usersView machine.sectors (rootOn machine.sectors)
            machine.mem.allocator.freeCount usersName data)) ∧
      (machine.mem.pimpCount ≤ pimpRuleMax → ∃ ok machine',
        machine.run env pimpSaveRules = .ok (ok, machine') ∧
          (machine.SafelyStopped env' machine' loadRules (.ok (true, true, machine.mem.rules)) ↔
            StopsHarmless rulesView machine.sectors (rootOn machine.sectors)
              machine.mem.allocator.freeCount pimpName (machine.mem.rules.flatMap toBytes))) := by
  constructor
  · intro data hdata
    exact h.saveConfig_safelyStopped_iff hio (usersView_spec hreads) hdata
  · intro hrules
    have hlen : machine.mem.rules.length ≤ pimpRuleMax := by
      rw [Memory.rules, List.length_map, List.length_range]
      exact hrules
    have hafter : rulesView (some ⟨true, hexafsConfig,
        UInt32.ofNat (machine.mem.rules.flatMap toBytes).length,
          machine.mem.rules.flatMap toBytes⟩) = .ok (true, true, machine.mem.rules) := by
      rw [rulesView, rulesOf_flatMap hlen]
      rfl
    rw [Machine.run_pimpSaveRules, ← hafter]
    exact h.saveConfig_safelyStopped_iff hio (rulesView_spec hreads) (Memory.length_rules hrules)

/-- A user blob of one byte on a disk that was just formatted. -/
theorem configSave_safelyStopped_iff_blank : ∃ machine : Machine, ∃ ok machine',
    machine.run .faultless (hexafsUsersSave [1]) = .ok (ok, machine') ∧
      (machine.SafelyStopped .faultless machine' hexafsUsersLoad
          (.ok (true, some (UInt32.ofNat 1, [1]))) ↔
        StopsHarmless usersView machine.sectors (rootOn machine.sectors)
          machine.mem.allocator.freeCount usersName [1]) := by
  obtain ⟨machine, roles, _, hfresh⟩ := exists_fresh
  have hio := Environment.faultless_ioOk
  exact ⟨machine, (configSave_safelyStopped_iff hfresh.settled hio hio.reads).1 [1] (by decide)⟩

/-- The first hexafs_users_save on a formatted disk links an object that the bitmap on
the disk does not mark yet. -/
theorem usersSave_notSafelyStopped : ∃ (machine machine' : Machine) (ok : Bool),
    FirstMount machine ∧ machine.run .faultless (hexafsUsersSave [1]) = .ok (ok, machine') ∧
      ¬∀ k,
        (reload .faultless (machine.stoppedAfter machine' k) hexafsUsersLoad =
            reload .faultless machine.sectors hexafsUsersLoad ∨
          reload .faultless (machine.stoppedAfter machine' k) hexafsUsersLoad =
            .ok (true, some (1, [1]))) ∧
        ∀ b role, Reachable (machine.stoppedAfter machine' k)
          (rootOn (machine.stoppedAfter machine' k)) b role →
            bitmapTest (diskBitmap (machine.stoppedAfter machine' k)) b.toNat = true := by
  obtain ⟨machine, roles, _, hfresh⟩ := exists_fresh
  have hio := Environment.faultless_ioOk
  have hdata : [(1 : UInt8)].length ≤ 2048 := by decide
  obtain ⟨ok, machine', hrun, hiff⟩ :=
    hfresh.settled.saveConfig_safelyStopped_iff hio (usersView_spec hio.reads) hdata
  refine ⟨machine, machine', ok, hfresh.first, hrun, fun hall => ?_⟩
  have hsafe := hiff.mp fun k => ⟨(hall k).1, (hall k).2⟩
  have hentries := hfresh.entries
  have hheader := hfresh.header
  rw [StopsHarmless, hfresh.settled.rootOn_eq, hentries, hheader, hfresh.free] at hsafe
  rcases hsafe with hzero | hzero | hlinked | ⟨heleven, _⟩
  · exact hfresh.rootAbs hzero
  · cases hzero
  · exact hlinked newAbstraction_nextChain
  · rw [newAbstraction_entryCount] at heleven
    cases heleven

end Views

end HexaOS.Hexafs
