import HexaOS.HexafsObjectReads

/-!
# Calls on the device with its cache

The allocator and the block requests on the device that the kernel runs on. Any transfer may
fail here: a write that is refused leaves the new bytes in the cache and the old ones on the
disk, and hexafs_alloc_block does not look at how the clearing of the block ends.
-/

namespace HexaOS.Hexafs

open DevicePrograms PackedBytes StoreTyping

variable {env : Environment} {mem : Memory} {dev : Device}

/-- A block write, whatever it answers. -/
theorem wp_cacheWrite {lba : UInt32} {buf : Sector} {post : Bool → Memory → Device → Prop}
    (h : post (cacheWrite env lba buf dev).1 mem (cacheWrite env lba buf dev).2) :
    (hexafsBlockWrite lba buf).wp (cachedDevice env) mem dev post :=
  Code.wp_request rfl h

@[simp] theorem wp_modifyAllocator_cached (update : Allocator → Allocator)
    (post : Unit → Memory → Device → Prop) :
    (modifyAllocator update).wp (cachedDevice env) mem dev post ↔
      post () { mem with allocator := update mem.allocator } dev := Code.wp_modify _ _

/-- A write ends as the environment says. -/
theorem cacheWrite_returns (env : Environment) (lba : UInt32) (buf : Sector) (dev : Device) :
    (cacheWrite env lba buf dev).1 = (env.writeOutcome dev.disk.writeCount).returns := by
  rw [cacheWrite, ataWriteSector]
  dsimp only
  split <;> rfl

@[simp] theorem cacheWrite_writeCount (env : Environment) (lba : UInt32) (buf : Sector)
    (dev : Device) :
    (cacheWrite env lba buf dev).2.disk.writeCount = dev.disk.writeCount + 1 := by
  rw [cacheWrite, ataWriteSector]
  dsimp only
  split <;> rfl

/-- A read leaves the sectors and the count of the writes as they are. -/
theorem cacheRead_disk (env : Environment) (lba : UInt32) (dev : Device) :
    (cacheRead env lba dev).2.disk.sectors = dev.disk.sectors ∧
      (cacheRead env lba dev).2.disk.writeCount = dev.disk.writeCount := by
  rw [cacheRead]
  split
  · exact ⟨rfl, rfl⟩
  · rw [ataReadSector]
    split
    · rename_i hread
      have hdisk := (Prod.mk.inj hread).2
      rw [← hdisk]
      exact ⟨rfl, rfl⟩
    · rename_i hread
      have hdisk := (Prod.mk.inj hread).2
      rw [← hdisk]
      exact ⟨rfl, rfl⟩

/-- hexafs_alloc_block finds no free block, or takes one and clears it. -/
theorem hexafsAllocBlock_cached (hhint : mem.allocator.HintOk)
    {post : UInt32 → Memory → Device → Prop}
    (hnone : mem.allocator.freeCount = 0 →
      post 0 { mem with allocator := mem.allocator.full } dev)
    (hsome : ∀ b a', Grown mem.allocator a' [b] →
      post b { mem with allocator := a' } (cacheWrite env b zeroSector dev).2) :
    hexafsAllocBlock.wp (cachedDevice env) mem dev post := by
  simp only [hexafsAllocBlock, Code.wp_bind, Code.wp_memory]
  cases hchoose : mem.allocator.choose with
  | none =>
    simp only [Code.wp_bind, wp_modifyAllocator_cached, Code.wp_pure]
    apply hnone
    rw [Allocator.freeCount, Allocator.choose_none hchoose, Finset.card_empty]
  | some i =>
    have hgrown := Grown.take hhint hchoose
    simp only [takeBlock, Code.wp_bind, wp_modifyAllocator_cached, Code.wp_pure]
    exact wp_cacheWrite (hsome _ _ hgrown)

/-- hexafs_free_block of a block that was just allocated. -/
theorem hexafsFreeBlock_cached {a : Allocator} {blocks : List UInt32} {b : UInt32}
    (h : Grown a mem.allocator blocks) (hb : b ∈ blocks) {post : Unit → Memory → Device → Prop}
    (hpost : ∀ a', Grown a a' (blocks.erase b) → post () { mem with allocator := a' } dev) :
    (hexafsFreeBlock b).wp (cachedDevice env) mem dev post := by
  have hin := (h.fresh b hb).1
  rw [hexafsFreeBlock, if_neg fun hor => hor.elim (Nat.not_lt.mpr hin.1) (Nat.not_le.mpr hin.2)]
  rw [wp_modifyAllocator_cached]
  exact hpost _ (h.release hb)

section Machines

variable {machine machine' : Machine}

/-- A total run on the cached device is a run of the machine. -/
theorem Machine.run_of_faulty {α : Type} {code : HexafsM α} {post : α → Memory → Device → Prop}
    (h : code.wp (cachedDevice env) machine.mem machine.dev post) :
    ∃ value after, machine.run env code = .ok (value, after) ∧ post value after.mem after.dev := by
  obtain ⟨value, mem, dev, run, holds⟩ := h
  exact ⟨value, ⟨mem, dev⟩, by rw [Machine.run, run], holds⟩

/-- What a run returns satisfies what was shown on the cached device. -/
theorem Machine.faulty_elim {α : Type} {code : HexafsM α} {post : α → Memory → Device → Prop}
    {value : α} (h : code.wp (cachedDevice env) machine.mem machine.dev post)
    (run : machine.run env code = .ok (value, machine')) : post value machine'.mem machine'.dev := by
  obtain ⟨value', after, run', holds⟩ := Machine.run_of_faulty h
  rw [run] at run'
  cases run'
  exact holds

end Machines

end HexaOS.Hexafs
