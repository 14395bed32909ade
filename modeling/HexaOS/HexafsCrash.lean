import HexaOS.HexafsReachability

/-!
# Stopping between two writes

An operation issues its sector writes one after the other, and the machine can
stop between any two of them. The rules below say what holds after every prefix
of the writes, stage by stage. The first operation they are used on is
hexafs_save_all: it writes free blocks and the bitmap first, and the superblock
last, so what a reboot loads is the old table or the new one.
-/

namespace HexaOS.Hexafs

open DevicePrograms PackedBytes StoreTyping

variable {env env' : Environment} {mem : Memory} {d mid d' : PlainDisk}
  {roles : UInt32 → Option Role} {machine machine' : Machine}

/-- A property of the medium that holds after every prefix of the writes from one
disk to another. -/
def PlainDisk.Throughout (P : (UInt32 → Sector) → Prop) (d d' : PlainDisk) : Prop :=
  ∃ writes, d'.log = d.log ++ writes ∧ d'.sectors = applyWrites writes d.sectors ∧
    StoreTyping.Throughout P writes d.sectors

section Stages

variable {P : (UInt32 → Sector) → Prop} {W V : UInt32 → Prop}

/-- Without writes the property holds of the disk itself. -/
theorem PlainDisk.throughout_refl (h : P d.sectors) : d.Throughout P d :=
  ⟨[], by rw [List.append_nil], rfl, throughout_nil.mpr h⟩

/-- Two stages one after the other. -/
theorem PlainDisk.Throughout.trans (h : d.Throughout P mid) (h' : mid.Throughout P d') :
    d.Throughout P d' := by
  obtain ⟨writes, hlog, hsec, hall⟩ := h
  obtain ⟨writes', hlog', hsec', hall'⟩ := h'
  have hboth : StoreTyping.Throughout P (writes ++ writes') d.sectors := by
    rw [throughout_append, ← hsec]
    exact ⟨hall, hall'⟩
  refine ⟨writes ++ writes', ?_, ?_, hboth⟩
  · rw [hlog', hlog, List.append_assoc]
  · rw [hsec', hsec, applyWrites_append]

/-- What holds throughout holds at the end. -/
theorem PlainDisk.Throughout.last (h : d.Throughout P d') : P d'.sectors := by
  obtain ⟨writes, _, hsec, hall⟩ := h
  have hend := hall writes.length
  rwa [List.take_length, ← hsec] at hend

/-- A stage whose writes stay inside a set that the property does not look at. -/
theorem Wrote.throughout (h : Wrote env W d d')
    (hframe : ∀ sectors, (∀ b, ¬W b → sectors b = d.sectors b) → P sectors) :
    d.Throughout P d' := by
  obtain ⟨writes, hlog, hsec, hall⟩ := h.log
  refine ⟨writes, hlog, hsec, fun k => hframe _ fun b hb => ?_⟩
  refine applyWrites_of_notMem (fun write hwrite heq => ?_) d.sectors
  exact hb (heq ▸ hall write (List.mem_of_mem_take hwrite))

/-- A stage of one write. -/
theorem PlainDisk.throughout_write {lba : UInt32} {buf : Sector} (h : P d.sectors)
    (h' : P (d.write env lba buf).sectors) : d.Throughout P (d.write env lba buf) := by
  cases hreach : (env.writeOutcome d.writeCount).reaches with
  | true =>
    have hwrite : d.write env lba buf =
        { d with
          sectors := Function.update d.sectors lba buf
          log := d.log ++ [(lba, buf)]
          stale := Function.update d.stale lba false
          writeCount := d.writeCount + 1 } := PlainDisk.write_of_reaches hreach
    rw [hwrite] at h' ⊢
    have hlast : StoreTyping.Throughout P [] (Function.update d.sectors lba buf) :=
      throughout_nil.mpr h'
    exact ⟨[(lba, buf)], rfl, rfl, throughout_cons.mpr ⟨h, hlast⟩⟩
  | false =>
    have hwrite : (d.write env lba buf).sectors = d.sectors ∧
        (d.write env lba buf).log = d.log := by
      rw [PlainDisk.write, hreach, if_neg Bool.false_ne_true]
      exact ⟨rfl, rfl⟩
    exact ⟨[], by rw [hwrite.2, List.append_nil], hwrite.1, throughout_nil.mpr h⟩

/-- The sectors when the machine stops after `k` of the writes between two states. -/
def Machine.stoppedAfter (machine machine' : Machine) (k : ℕ) : UInt32 → Sector :=
  applyWrites ((machine'.dev.disk.log.drop machine.dev.disk.log.length).take k) machine.sectors

/-- What holds throughout holds wherever the machine stops. -/
theorem Machine.stoppedAfter_of_throughout
    (h : machine.dev.plain.Throughout P machine'.dev.plain) (k : ℕ) :
    P (machine.stoppedAfter machine' k) := by
  obtain ⟨writes, hlog, _, hall⟩ := h
  have hlog' : machine'.dev.disk.log = machine.dev.disk.log ++ writes := hlog
  rw [Machine.stoppedAfter, hlog', List.drop_left]
  exact hall k

/-- The machine can stop between any two stages. -/
theorem Machine.exists_stoppedAfter (h : Wrote env W machine.dev.plain mid)
    (h' : Wrote env V mid machine'.dev.plain) :
    ∃ k, machine.stoppedAfter machine' k = mid.sectors := by
  obtain ⟨writes, hlog, hsec, _⟩ := h.log
  obtain ⟨writes', hlog', _⟩ := h'.log
  have hall : machine'.dev.disk.log = machine.dev.disk.log ++ (writes ++ writes') := by
    rw [← List.append_assoc]
    exact hlog'.trans (congrArg (· ++ writes') hlog)
  refine ⟨writes.length, ?_⟩
  rw [Machine.stoppedAfter, hall, List.drop_left, List.take_left]
  exact hsec.symm

end Stages

/-- Before the superblock is written a disk that kept its blocks is the old image. -/
theorem Machine.Settled.image_of_same (h : machine.Settled roles) {sectors : UInt32 → Sector}
    (hsame : ∀ b, ¬(machine.mem.allocator.Fresh b ∨ b = hexafsAllocLba ∨ b = hexafsAllocLba + 1) →
      sectors b = machine.sectors b) :
    Image sectors roles machine.mem.allocator ∧ rootOn sectors = rootOn machine.sectors ∧
      ∀ b role, roles b = some role → sectors b = machine.sectors b := by
  have hheap := h.mounted.store.heap
  have hblocks : ∀ b role, roles b = some role → sectors b = machine.sectors b := by
    intro b role hb
    have hnot := (hheap.covered b role hb).1.not_commitSector
    refine hsame b fun hor => ?_
    rcases hor with hfresh | hbitmap
    · exact hheap.not_fresh hb hfresh
    · exact hnot (.inr hbitmap)
  have hsuper : sectors hexafsSuperLba = machine.sectors hexafsSuperLba := by
    refine hsame _ fun hor => ?_
    rcases hor with hfresh | hbitmap
    · exact hfresh.1.not_commitSector (.inl rfl)
    · exact absurd hbitmap (by decide)
  obtain ⟨himage, hroot⟩ := h.image.frame hsuper hblocks
  exact ⟨himage, hroot, hblocks⟩

/-- What a reboot loads wherever hexafs_save_all is stopped. -/
theorem Machine.Settled.saveAll_throughout (h : machine.Settled roles) (hio : env.IoOk)
    (hreads : ∀ n, env'.readOk n = true)
    (hrun : machine.run env hexafsSaveAll = .ok ((), machine')) :
    machine.dev.plain.Throughout (fun sectors => ∃ forms,
      reload env' sectors loadForms = .ok (true, forms) ∧
        (reload env' machine.sectors loadForms = .ok (true, forms) ∨
          reload env' machine'.sectors loadForms = .ok (true, forms)))
      machine'.dev.plain := by
  have hold := h.image.reload_forms hreads
  obtain ⟨_, hout⟩ := h.mounted.saveAll hio hrun
  cases hout with
  | refused _ hd =>
    rw [hd]
    exact PlainDisk.throughout_refl ⟨_, hold, .inl hold⟩
  | saved hsaved =>
    obtain ⟨last, hwrote, hsuper⟩ := hsaved.last
    have hbefore : ∀ sectors, (∀ b, ¬(machine.mem.allocator.Fresh b ∨ b = hexafsAllocLba ∨
        b = hexafsAllocLba + 1) → sectors b = machine.dev.plain.sectors b) →
          ∃ forms, reload env' sectors loadForms = .ok (true, forms) ∧
            (reload env' machine.sectors loadForms = .ok (true, forms) ∨
              reload env' machine'.sectors loadForms = .ok (true, forms)) := by
      intro sectors hsame
      obtain ⟨himage, hroot, hblocks⟩ := h.image_of_same hsame
      have hforms : formsOf env' sectors = formsOf env' machine.sectors := by
        refine formsOf_congr ?_
        rw [hroot]
        exact h.mounted.store.heap.formsAt_eq h.image.root hblocks
      have hnow := himage.reload_forms hreads
      rw [hforms] at hnow
      exact ⟨_, hnow, .inl hold⟩
    have hsettled : machine'.Settled _ :=
      ⟨⟨(h.mounted.saveAll hio hrun).1, hsaved.store⟩, hsaved.committed⟩
    have hnew := hsettled.image.reload_forms hreads
    refine (hwrote.throughout hbefore).trans ?_
    rw [hsuper]
    refine PlainDisk.throughout_write (hbefore _ fun b hb => hwrote.sectors_eq hb) ?_
    rw [← hsuper]
    exact ⟨_, hnew, .inr hnew⟩

/-- Wherever hexafs_save_all is stopped in a run without failures, a reboot mounts the
disk and loads the forms from before the call or the forms from after it. -/
theorem hexafsSaveAll_atomic (h : StoreRun machine) (hio : env.IoOk)
    (hreads : ∀ n, env'.readOk n = true) :
    ∃ machine', machine.run env hexafsSaveAll = .ok ((), machine') ∧ ∀ k, ∃ forms,
      reload env' (machine.stoppedAfter machine' k) loadForms = .ok (true, forms) ∧
        (reload env' machine.sectors loadForms = .ok (true, forms) ∨
          reload env' machine'.sectors loadForms = .ok (true, forms)) := by
  obtain ⟨roles, hsettled⟩ := h.settled
  obtain ⟨machine', hrun⟩ := hsettled.mounted.saveAll_returns hio
  have hall := hsettled.saveAll_throughout hio hreads hrun
  exact ⟨machine', hrun, Machine.stoppedAfter_of_throughout hall⟩

/-- Three forms replace a saved one, wherever the save is stopped. -/
theorem hexafsSaveAll_atomic_letters : ∃ machine machine' : Machine, StoreRun machine ∧
    machine.mem.forms = letterForms 3 ∧
      List.Forall₂ (FormStored machine.sectors) (absEntries machine.sectors
        (rootAbsAt machine.sectors machine.mem.sbCache.rootSnapBlock)) [emptyForm] ∧
      machine.run .faultless hexafsSaveAll = .ok ((), machine') ∧ ∀ k, ∃ forms,
        reload .faultless (machine.stoppedAfter machine' k) loadForms = .ok (true, forms) ∧
          (reload .faultless machine.sectors loadForms = .ok (true, forms) ∨
            reload .faultless machine'.sectors loadForms = .ok (true, forms)) := by
  obtain ⟨machine, roles, hsaved⟩ := exists_savedOne
  have hsame : machine.mem.SameStore (machine.mem.withForms letterForm 3) := ⟨rfl, rfl, rfl, rfl⟩
  have hrun : StoreRun ⟨machine.mem.withForms letterForm 3, machine.dev⟩ :=
    .step hsaved.run (.edit hsame) hsaved.run.neverFull
  have hio := Environment.faultless_ioOk
  obtain ⟨machine', hsave, hall⟩ := hexafsSaveAll_atomic hrun hio hio.reads
  exact ⟨_, machine', hrun, rfl, hsaved.entries, hsave, hall⟩

end HexaOS.Hexafs
