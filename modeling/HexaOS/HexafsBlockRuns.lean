import HexaOS.HexafsRuns
import HexaOS.StepRuns

/-!
# Runs of the block allocator

hexafs_alloc_block and hexafs_free_block in any order, on a machine that formats or mounts its
disk at any time. The scan of an allocation starts at a hint that allocations move on and releases
move back; it stays inside the object area, so the two loops cover the area exactly.
-/

namespace HexaOS.Hexafs

open DevicePrograms PackedBytes StepRuns

/-- hexafs_format and hexafs_mount_disk, and the calls of the allocator. -/
inductive BlockCall where
  | format
  | mount
  | alloc
  | free (lba : UInt32)

/-- The machine that code leaves when it returns. -/
def Machine.leaves {α : Type} (env : Environment) (code : HexafsM α) (machine : Machine) :
    Machine :=
  match machine.run env code with
  | .ok (_, machine') => machine'
  | .error _ => machine

/-- The machine after a call. -/
def BlockCall.after (env : Environment) : BlockCall → Machine → Machine
  | format, machine => machine.leaves env hexafsFormat
  | mount, machine => machine.leaves env hexafsMountDisk
  | alloc, machine => machine.leaves env hexafsAllocBlock
  | free lba, machine => machine.leaves env (hexafsFreeBlock lba)

/-- A block reads as zeros. -/
def Machine.ReadsZero (env : Environment) (machine : Machine) (block : UInt32) : Prop :=
  ∃ machine', machine.run env (hexafsBlockRead block) = .ok (some zeroSector, machine')

/-- What an allocation and a release promise: the call returns; an allocation fails exactly when
no block of the object area is free, and otherwise takes a free one and clears it; a release
clears the bit of a block of the object area and no other one. -/
def BlockCall.Kept (env : Environment) : BlockCall → Machine → Prop
  | alloc, machine => ∃ block machine', machine.run env hexafsAllocBlock = .ok (block, machine') ∧
    (block = 0 ↔ ∀ other, InStore other → machine.mem.allocator.Used other) ∧
    (block = 0 → ∀ other, machine'.mem.allocator.Used other ↔ machine.mem.allocator.Used other) ∧
    (block ≠ 0 → InStore block ∧ ¬machine.mem.allocator.Used block ∧
      (∀ other, machine'.mem.allocator.Used other ↔
        machine.mem.allocator.Used other ∨ other = block) ∧ machine'.ReadsZero env block)
  | free lba, machine => ∃ machine', machine.run env (hexafsFreeBlock lba) = .ok ((), machine') ∧
    ∀ other, machine'.mem.allocator.Used other ↔
      machine.mem.allocator.Used other ∧ ¬(other = lba ∧ InStore lba)
  | _, _ => True

/-- The cache agrees with the disk, and the hint lies in the object area. -/
structure Machine.Allocates (machine : Machine) : Prop where
  /-- The cache agrees with the disk. -/
  coherent : machine.dev.Coherent
  /-- The hint is in range. -/
  hint : machine.mem.allocator.HintOk

variable {env : Environment} {machine machine' : Machine} {d : PlainDisk}

theorem allocates_boot (sectors : UInt32 → Sector) : (Machine.boot sectors).Allocates :=
  ⟨CacheCoherent.empty _ _, Nat.le_refl hexafsObjectLba,
    (by decide : hexafsObjectLba ≤ hexafsDiskBlocks)⟩

/-- A write that succeeds leaves no stale sector. -/
theorem PlainDisk.write_stale (hok : env.WritesOk) (hstale : ∀ b, d.stale b = false)
    (lba : UInt32) (buf : Sector) (b : UInt32) : (d.write env lba buf).stale b = false := by
  have hwrote : Wrote env (· = lba) d (d.write env lba buf) := PlainDisk.wrote_write
  exact hwrote.stale_le hok hstale b

theorem formatDisk_stale (hok : env.WritesOk) (b : UInt32) : (formatDisk env d).stale b = false :=
  PlainDisk.write_stale hok (PlainDisk.write_stale hok
    (PlainDisk.write_stale hok (fun _ => rfl) _ _) _ _) _ _ b

/-- hexafs_format and hexafs_mount_disk leave the hint where it is. -/
theorem Allocator.HintOk.formatted {mem : Memory} (h : mem.allocator.HintOk) :
    mem.formatted.allocator.HintOk := h

theorem Allocator.HintOk.mountedOn {mem : Memory} (h : mem.allocator.HintOk)
    (sectors : UInt32 → Sector) : (mem.mountedOn sectors).allocator.HintOk := by
  rw [Memory.mountedOn]
  generalize diskBitmap sectors = bitmap
  exact h

namespace Machine.Allocates

/-- A run on the plain disk that keeps the hint keeps the machine ready. -/
theorem leaves {α : Type} (h : machine.Allocates) (hio : env.IoOk) {code : HexafsM α}
    (hcode : code.wp (plainDevice env) machine.mem machine.dev.plain fun _ mem d =>
      mem.allocator.HintOk ∧ ∀ b, d.stale b = false) : (machine.leaves env code).Allocates := by
  have ⟨_, machine', hrun, hcoherent, hhint, _⟩ :=
    Machine.run_spec hio.reads h.coherent hcode fun _ _ _ hpost => hpost.2
  rw [Machine.leaves, hrun]
  exact ⟨hcoherent, hhint⟩

/-- What an allocation leaves on the plain disk. -/
theorem wp_allocBlock (h : machine.Allocates) (hio : env.IoOk) :
    hexafsAllocBlock.wp (plainDevice env) machine.mem machine.dev.plain fun block mem d =>
      (mem.allocator.HintOk ∧ ∀ b, d.stale b = false) ∧
      ((block = 0 ∧ machine.mem.allocator.freeCount = 0 ∧
        mem.allocator = machine.mem.allocator.full) ∨
      (Grown machine.mem.allocator mem.allocator [block] ∧ d.sectors block = zeroSector)) := by
  refine hexafsAllocBlock_spec h.hint (fun hnone => ?_) fun b a' hgrown _ => ?_
  · exact ⟨⟨h.hint, fun _ => rfl⟩, .inl ⟨rfl, hnone, rfl⟩⟩
  · exact ⟨⟨hgrown.hint, PlainDisk.write_stale hio.writes (fun _ => rfl) _ _⟩,
      .inr ⟨hgrown, (PlainDisk.write_reaches _ _ (hio.writes.reaches _)).1⟩⟩

/-- An allocation keeps its promises. -/
theorem alloc_kept (h : machine.Allocates) (hio : env.IoOk) : BlockCall.alloc.Kept env machine := by
  have ⟨block, machine', hrun, hcoherent, _, hcases⟩ :=
    Machine.run_spec hio.reads h.coherent (h.wp_allocBlock hio) fun _ _ _ hpost => hpost.1.2
  refine ⟨block, machine', hrun, ?_⟩
  rcases hcases with ⟨rfl, hnone, hfull⟩ | ⟨hgrown, hzero⟩
  · have hempty := Finset.card_eq_zero.mp hnone
    refine ⟨iff_of_true rfl fun other hother => ?_, fun _ other => by rw [hfull]; rfl,
      fun hne => absurd rfl hne⟩
    by_contra hfree
    have hmem := machine.mem.allocator.mem_freeBlocks.mpr ⟨hother, hfree⟩
    rw [hempty] at hmem
    exact absurd hmem (Finset.notMem_empty _)
  · have ⟨hstore, hfree⟩ := hgrown.fresh block (List.mem_singleton_self block)
    have hne := hstore.ne_zero
    refine ⟨iff_of_false hne fun hall => hfree (hall block hstore), fun hzero => absurd hzero hne,
      fun _ => ⟨hstore, hfree, fun other => by rw [hgrown.used, List.mem_singleton], ?_⟩⟩
    have hread : (hexafsBlockRead block).wp (plainDevice env) machine'.mem machine'.dev.plain
        fun value _ d => value = some zeroSector ∧ ∀ b, d.stale b = false :=
      wp_hexafsBlockRead hstore.valid rfl ⟨congrArg some hzero, fun _ => rfl⟩
    have ⟨value, machine'', hrun', _, hvalue, _⟩ :=
      Machine.run_spec hio.reads hcoherent hread fun _ _ _ hpost => hpost.2
    exact ⟨machine'', by rw [hrun', hvalue]⟩

/-- What a release leaves on the plain disk. -/
theorem wp_freeBlock (h : machine.Allocates) (lba : UInt32) :
    (hexafsFreeBlock lba).wp (plainDevice env) machine.mem machine.dev.plain fun _ mem d =>
      (mem.allocator.HintOk ∧ ∀ b, d.stale b = false) ∧
      ∀ other, mem.allocator.Used other ↔
        machine.mem.allocator.Used other ∧ ¬(other = lba ∧ InStore lba) := by
  unfold hexafsFreeBlock
  split
  · rename_i hout
    have hnot : ¬InStore lba := fun hin =>
      hout.elim (Nat.not_lt.mpr hin.1) (Nat.not_le.mpr hin.2)
    rw [Code.wp_pure]
    exact ⟨⟨h.hint, fun _ => rfl⟩, fun other => (and_iff_left fun hboth => hnot hboth.2).symm⟩
  · rename_i hin
    have ⟨hlow, hhigh⟩ := not_or.mp hin
    have hstore : InStore lba := ⟨Nat.not_lt.mp hlow, Nat.not_le.mp hhigh⟩
    have hlt : lba.toNat < 4096 := hstore.2
    have ⟨hfirst, hlast⟩ := h.hint
    rw [wp_modifyAllocator]
    refine ⟨⟨⟨?_, ?_⟩, fun _ => rfl⟩, fun other => ?_⟩
    · dsimp only
      split
      · exact hstore.1
      · exact hfirst
    · dsimp only
      split
      · exact Nat.le_of_lt hstore.2
      · exact hlast
    · have htest := bitmapTest_bitmapClear machine.mem.allocator.bitmap
        (by omega : lba.toNat / 8 < 1024) other.toNat
      rw [Allocator.Used, htest, Bool.and_eq_true, Bool.not_eq_true', decide_eq_false_iff_not,
        UInt32.toNat_inj, and_comm]
      exact and_congr_right fun _ => not_congr (and_iff_left hstore).symm

/-- A release keeps its promises. -/
theorem free_kept (h : machine.Allocates) (hio : env.IoOk) (lba : UInt32) :
    (BlockCall.free lba).Kept env machine := by
  have ⟨_, machine', hrun, _, _, hused⟩ :=
    Machine.run_spec hio.reads h.coherent (h.wp_freeBlock lba) fun _ _ _ hpost => hpost.1.2
  exact ⟨machine', hrun, hused⟩

/-- The calls keep the machine ready. -/
theorem after (h : machine.Allocates) (hio : env.IoOk) (call : BlockCall) :
    (call.after env machine).Allocates := by
  cases call with
  | format =>
    refine h.leaves hio (hexafsFormat_spec hio.writes ?_)
    exact ⟨h.hint.formatted, formatDisk_stale hio.writes⟩
  | mount =>
    refine h.leaves hio ?_
    cases hvalid : superblockValid (superblockAt machine.dev.plain.sectors) with
    | true =>
      refine hexafsMountDisk_valid hvalid ?_
      exact ⟨h.hint.mountedOn machine.dev.plain.sectors, fun _ => rfl⟩
    | false => exact hexafsMountDisk_invalid hvalid ⟨h.hint, fun _ => rfl⟩
  | alloc => exact h.leaves hio (Code.wp_mono (h.wp_allocBlock hio) fun _ _ _ hpost => hpost.1)
  | free lba => exact h.leaves hio (Code.wp_mono (h.wp_freeBlock lba) fun _ _ _ hpost => hpost.1)

/-- All calls keep their promises. -/
theorem kept (h : machine.Allocates) (hio : env.IoOk) (call : BlockCall) :
    call.Kept env machine := by
  cases call with
  | format => trivial
  | mount => trivial
  | alloc => exact h.alloc_kept hio
  | free lba => exact h.free_kept hio lba

end Machine.Allocates

/-- From any disk, in any order of formats, mounts, allocations and releases, without a failing
transfer: every allocation and every release keeps its promises. -/
theorem blockCalls_kept (hio : env.IoOk) (sectors : UInt32 → Sector) (calls : List BlockCall) :
    EveryStep (BlockCall.after env) (BlockCall.Kept env) calls (Machine.boot sectors) :=
  everyStep_of_invariant (fun call _ h => Machine.Allocates.after h hio call)
    (fun call _ h => Machine.Allocates.kept h hio call) calls (allocates_boot sectors)

/-- On a blank disk: format, allocate, release, allocate. -/
theorem blockCalls_kept_blank :
    EveryStep (BlockCall.after .faultless) (BlockCall.Kept .faultless)
      [.format, .alloc, .free 109, .alloc] (Machine.boot fun _ => zeroSector) :=
  blockCalls_kept Environment.faultless_ioOk _ _

end HexaOS.Hexafs
