import HexaOS.HexafsOwnership

/-!
# Commit, mount and format on the plain disk

A commit writes the two bitmap sectors when the bitmap changed, then the
superblock. Mounting reads these three sectors back. A store is a mounted
machine between two operations: a heap whose root is a snapshot; it is committed
when the three sectors on the disk say the same as the statics.
-/

namespace HexaOS.Hexafs

open DevicePrograms PackedBytes StoreTyping

/-- The superblock on the disk. -/
def superblockAt (sectors : UInt32 → Sector) : HexafsSuperblock :=
  ofBlock HexafsSuperblock (sectors hexafsSuperLba)

/-- The bitmap on the disk. -/
def diskBitmap (sectors : UInt32 → Sector) : Vector UInt8 1024 :=
  bitmapOf (sectors hexafsAllocLba) (sectors (hexafsAllocLba + 1))

/-- The sectors in front of the object area that a commit writes. -/
def IsCommitSector (b : UInt32) : Prop :=
  b = hexafsSuperLba ∨ b = hexafsAllocLba ∨ b = hexafsAllocLba + 1

theorem InStore.not_commitSector {b : UInt32} (h : InStore b) : ¬IsCommitSector b := by
  rintro (rfl | rfl | rfl) <;> exact absurd h.1 (by decide)

theorem superLba_valid : ValidLba hexafsSuperLba := by decide

theorem allocLba_valid : ValidLba hexafsAllocLba ∧ ValidLba (hexafsAllocLba + 1) := by decide

theorem commitSectors_ne :
    hexafsSuperLba ≠ hexafsAllocLba ∧ hexafsSuperLba ≠ hexafsAllocLba + 1 ∧
      hexafsAllocLba ≠ hexafsAllocLba + 1 := by decide

variable {env : Environment} {mem : Memory} {d : PlainDisk}

section Transactions

/-- The statics after hexafs_tx_begin. -/
def Memory.begun (mem : Memory) : Memory :=
  { mem with
    txGen := mem.txGen + 1
    currentTx := { HexafsTx.zero with
      active := true
      tid := mem.txGen + 1
      parentSnapBlock := mem.sbCache.rootSnapBlock } }

/-- hexafs_tx_begin with no open transaction. -/
theorem hexafsTxBegin_spec (hidle : mem.currentTx.active = false)
    {post : Bool → Memory → PlainDisk → Prop} (hpost : post true mem.begun d) :
    hexafsTxBegin.wp (plainDevice env) mem d post := by
  simp only [hexafsTxBegin, Code.wp_bind, Code.wp_memory, hidle, Bool.false_eq_true, if_false,
    Code.wp_modify, Code.wp_pure]
  exact hpost

/-- The statics after hexafs_tx_abort. -/
def Memory.aborted (mem : Memory) : Memory :=
  { mem with currentTx := { mem.currentTx with active := false } }

/-- hexafs_tx_abort of an open transaction. -/
theorem hexafsTxAbort_spec (hactive : mem.currentTx.active = true)
    {post : Bool → Memory → PlainDisk → Prop} (hpost : post true mem.aborted d) :
    hexafsTxAbort.wp (plainDevice env) mem d post := by
  simp only [hexafsTxAbort, Code.wp_bind, Code.wp_memory, hactive, if_true, wp_modifyTx,
    Code.wp_pure]
  exact hpost

/-- The statics after hexafs_snap_create. -/
def Memory.withSnap (mem : Memory) (a : Allocator) (block : UInt32) : Memory :=
  { mem with
    allocator := a
    currentTx := { mem.currentTx with snapBlock := block }
    sbCache := { mem.sbCache with rootSnapBlock := block } }

/-- hexafs_snap_create in a dirty transaction: no block is free, or the write of the
snapshot fails, or the new snapshot is the root. -/
theorem hexafsSnapCreate_spec {name : CString} (hhint : mem.allocator.HintOk)
    (hactive : mem.currentTx.active = true) (hdirty : mem.currentTx.dirty = true)
    {post : UInt32 → Memory → PlainDisk → Prop}
    (hnone : mem.allocator.freeCount = 0 →
      post 0 { mem with allocator := mem.allocator.full } d)
    (hfail : ∀ b a', Grown mem.allocator a' [] → mem.allocator.Fresh b → ¬env.WritesOk →
      post 0 { mem with allocator := a' }
        ((d.write env b zeroSector).write env b (toBlock 512 (newSnap mem name))))
    (hsome : ∀ b a', Grown mem.allocator a' [b] → a'.outOfBlocks = mem.allocator.outOfBlocks →
      (env.writeOutcome (d.writeCount + 1)).returns = true →
      post b (mem.withSnap a' b)
        ((d.write env b zeroSector).write env b (toBlock 512 (newSnap mem name)))) :
    (hexafsSnapCreate name).wp (plainDevice env) mem d post := by
  simp only [hexafsSnapCreate, Code.wp_bind, Code.wp_memory, hactive, hdirty, Bool.and_self, if_true]
  refine hexafsAllocBlock_spec hhint (fun hfree => ?_) fun b a' hgrown hquiet => ?_
  · rw [if_pos rfl, Code.wp_pure]
    exact hnone hfree
  · have hfresh := hgrown.fresh b (List.mem_singleton_self b)
    simp only [if_neg hfresh.1.ne_zero, Code.wp_bind]
    refine wp_hexafsBlockWrite hfresh.1.valid ?_
    rw [PlainDisk.write_writeCount]
    cases hret : (env.writeOutcome (d.writeCount + 1)).returns with
    | true =>
      simp only [if_true, Code.wp_bind, wp_modifyTx, Code.wp_modify, Code.wp_pure]
      exact hsome b a' hgrown hquiet hret
    | false =>
      simp only [Bool.false_eq_true, if_false, Code.wp_bind]
      refine hexafsFreeBlock_spec hgrown (List.mem_singleton_self b) fun a'' hgrown' _ => ?_
      rw [Code.wp_pure]
      rw [List.erase_cons_head] at hgrown'
      refine hfail b a'' hgrown' hfresh fun hok => ?_
      rw [hok.returns] at hret
      cases hret

/-- The disk after the bitmap part of a commit whose writes succeed. -/
def commitBitmap (env : Environment) (a : Allocator) (d : PlainDisk) : PlainDisk :=
  if a.dirty then
    (d.write env hexafsAllocLba (bitmapSector a.bitmap 0)).write env (hexafsAllocLba + 1)
      (bitmapSector a.bitmap 1)
  else d

theorem wrote_commitBitmap (a : Allocator) :
    Wrote env (fun b => b = hexafsAllocLba ∨ b = hexafsAllocLba + 1) d (commitBitmap env a d) := by
  unfold commitBitmap
  split
  · exact (Wrote.refl.write (.inl rfl)).write (.inr rfl)
  · exact Wrote.refl

/-- hexafs_save_bitmap. -/
theorem hexafsSaveBitmap_spec {post : Bool → Memory → PlainDisk → Prop}
    (hfail : ∀ d', Wrote env (fun b => b = hexafsAllocLba ∨ b = hexafsAllocLba + 1) d d' →
      ¬env.WritesOk → post false mem d')
    (hok : post true { mem with allocator := { mem.allocator with dirty := false } }
      (commitBitmap env mem.allocator d)) :
    hexafsSaveBitmap.wp (plainDevice env) mem d post := by
  have hbad : ∀ n, (env.writeOutcome n).returns = false → ¬env.WritesOk := by
    intro n hret hall
    rw [hall.returns] at hret
    cases hret
  simp only [hexafsSaveBitmap, Code.wp_bind, Code.wp_memory]
  cases hdirty : mem.allocator.dirty with
  | false =>
    rw [commitBitmap, hdirty, if_neg Bool.false_ne_true] at hok
    rw [if_neg Bool.false_ne_true, Code.wp_pure]
    have hsame : { mem.allocator with dirty := false } = mem.allocator := by
      rw [← hdirty]
    rw [hsame] at hok
    exact hok
  | true =>
    rw [commitBitmap, hdirty, if_pos rfl] at hok
    simp only [if_true, Code.wp_bind, hexafsAllocBlocks, saveBitmapFrom, Code.wp_memory]
    refine wp_hexafsBlockWrite allocLba_valid.1 ?_
    have hzero : hexafsAllocLba + UInt32.ofNat 0 = hexafsAllocLba := rfl
    have hone : hexafsAllocLba + UInt32.ofNat (0 + 1) = hexafsAllocLba + 1 := rfl
    rw [hzero]
    cases hret : (env.writeOutcome d.writeCount).returns with
    | false =>
      simp only [Bool.false_eq_true, if_false, Code.wp_pure]
      exact hfail _ (Wrote.refl.write (.inl rfl)) (hbad _ hret)
    | true =>
      simp only [if_true, Code.wp_bind, Code.wp_memory]
      rw [hone]
      refine wp_hexafsBlockWrite allocLba_valid.2 ?_
      rw [PlainDisk.write_writeCount]
      cases hret' : (env.writeOutcome (d.writeCount + 1)).returns with
      | false =>
        simp only [Bool.false_eq_true, if_false, Code.wp_pure]
        exact hfail _ ((Wrote.refl.write (.inl rfl)).write (.inr rfl)) (hbad _ hret')
      | true =>
        simp only [if_true, Code.wp_pure, Code.wp_bind, wp_modifyAllocator]
        exact hok

/-- The statics when hexafs_tx_commit has written everything. -/
def Memory.committed (mem : Memory) : Memory :=
  { mem with
    allocator := { mem.allocator with dirty := false }
    sbCache := nextSuperblock mem.sbCache
    currentTx := { mem.currentTx with active := false } }

/-- The disk when hexafs_tx_commit has issued all its writes. -/
def commitDisk (env : Environment) (mem : Memory) (d : PlainDisk) : PlainDisk :=
  (commitBitmap env mem.allocator d).write env hexafsSuperLba
    (toBlock 512 (nextSuperblock mem.sbCache))

theorem wrote_commitDisk : Wrote env IsCommitSector d (commitDisk env mem d) :=
  ((wrote_commitBitmap mem.allocator).mono fun _ hb => .inr hb).write (.inl rfl)

/-- hexafs_tx_commit of a dirty transaction. -/
theorem hexafsTxCommit_spec (hactive : mem.currentTx.active = true)
    (hdirty : mem.currentTx.dirty = true) {post : Bool → Memory → PlainDisk → Prop}
    (hbitmap : ∀ d', Wrote env (fun b => b = hexafsAllocLba ∨ b = hexafsAllocLba + 1) d d' →
      ¬env.WritesOk → post false mem d')
    (hsuper : ¬env.WritesOk → post false { mem with
      allocator := { mem.allocator with dirty := false }
      sbCache := nextSuperblock mem.sbCache } (commitDisk env mem d))
    (hok : post true mem.committed (commitDisk env mem d)) :
    hexafsTxCommit.wp (plainDevice env) mem d post := by
  simp only [hexafsTxCommit, Code.wp_bind, Code.wp_memory, hactive, hdirty, if_true]
  refine hexafsSaveBitmap_spec (fun d' hw hbad => ?_) ?_
  · simp only [Bool.false_eq_true, if_false, Code.wp_pure]
    exact hbitmap d' hw hbad
  · simp only [if_true, Code.wp_bind, hexafsWriteSuperblock, Code.wp_memory, Code.wp_modify]
    refine wp_hexafsBlockWrite superLba_valid ?_
    cases hret : (env.writeOutcome (commitBitmap env mem.allocator d).writeCount).returns with
    | true =>
      simp only [if_true, Code.wp_bind, wp_modifyTx, Code.wp_pure]
      exact hok
    | false =>
      simp only [Bool.false_eq_true, if_false, Code.wp_pure]
      refine hsuper fun hall => ?_
      rw [hall.returns] at hret
      cases hret

/-- The statics with the transaction marked by a writer. -/
def Memory.marked (mem : Memory) (newRoot : UInt32) : Memory :=
  { mem with currentTx := { mem.currentTx with newRootBlock := newRoot, dirty := true } }

/-- The disk with the snapshot that a writer creates. -/
def snapDisk (env : Environment) (mem : Memory) (name : CString) (block : UInt32) (d : PlainDisk) :
    PlainDisk :=
  (d.write env block zeroSector).write env block (toBlock 512 (newSnap mem name))

/-- The statics after hexafs_alloc_block has found no free block. -/
def Memory.diskFull (mem : Memory) : Memory :=
  { mem with allocator := mem.allocator.full }

/-- The last lines of a writer when every write succeeds: without a free block the
old root is committed again, otherwise the new snapshot. -/
theorem commitRoot_spec {newRoot : UInt32} {name : CString} (hok : env.WritesOk)
    (hhint : mem.allocator.HintOk) (hactive : mem.currentTx.active = true)
    {post : Unit → Memory → PlainDisk → Prop}
    (hnone : mem.allocator.freeCount = 0 →
      post () (mem.marked newRoot).diskFull.committed
        (commitDisk env (mem.marked newRoot).diskFull d))
    (hsome : ∀ b a', Grown mem.allocator a' [b] → a'.outOfBlocks = mem.allocator.outOfBlocks →
      post () ((mem.marked newRoot).withSnap a' b).committed
        (commitDisk env ((mem.marked newRoot).withSnap a' b)
          (snapDisk env (mem.marked newRoot) name b d))) :
    (commitRoot newRoot name).wp (plainDevice env) mem d post := by
  simp only [commitRoot, Code.wp_bind, wp_modifyTx, Code.wp_pure]
  have hmarked : (mem.marked newRoot).allocator.HintOk := hhint
  refine hexafsSnapCreate_spec hmarked hactive rfl (fun hfree => ?_)
    (fun _ _ _ _ hbad => absurd hok hbad) fun b a' hgrown hquiet _ => ?_
  · have hactive' : (mem.marked newRoot).diskFull.currentTx.active = true := hactive
    exact hexafsTxCommit_spec hactive' rfl (fun _ _ hbad => absurd hok hbad)
      (fun hbad => absurd hok hbad) (hnone hfree)
  · have hactive' : ((mem.marked newRoot).withSnap a' b).currentTx.active = true := hactive
    exact hexafsTxCommit_spec hactive' rfl (fun _ _ hbad => absurd hok hbad)
      (fun hbad => absurd hok hbad) (hsome b a' hgrown hquiet)

end Transactions

end HexaOS.Hexafs
