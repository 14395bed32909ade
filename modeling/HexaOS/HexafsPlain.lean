import HexaOS.HexafsBoot

/-!
# The store on a disk without a cache

The plain disk answers block requests from the medium itself. It refuses
addresses outside the store, and reads of a sector whose last write never reached
the medium, since there the cache decides what a read returns. Every run on the
plain disk is a run of the cached device with the same results, the same
sectors and the same writes, so the rest of the development reasons about the
plain disk only.
-/

namespace HexaOS.Hexafs

open DevicePrograms PackedBytes

/-- A disk without a cache. -/
structure PlainDisk where
  /-- The sectors of the medium. -/
  sectors : UInt32 → Sector
  /-- The writes that reached the medium, oldest first. -/
  log : List (UInt32 × Sector)
  /-- Sectors whose last write was refused. -/
  stale : UInt32 → Bool
  /-- The writes so far. -/
  writeCount : ℕ
  /-- The calls of kmalloc so far. -/
  kmallocCount : ℕ

/-- The addresses of the store. -/
def ValidLba (lba : UInt32) : Prop := 0 < lba.toNat ∧ lba.toNat < hexafsDiskBlocks

instance (lba : UInt32) : Decidable (ValidLba lba) := inferInstanceAs (Decidable (_ ∧ _))

/-- The disk after the next write. -/
def PlainDisk.write (env : Environment) (lba : UInt32) (buf : Sector) (disk : PlainDisk) :
    PlainDisk :=
  if (env.writeOutcome disk.writeCount).reaches then
    { disk with
      sectors := Function.update disk.sectors lba buf
      log := disk.log ++ [(lba, buf)]
      stale := Function.update disk.stale lba false
      writeCount := disk.writeCount + 1 }
  else
    { disk with
      stale := Function.update disk.stale lba true
      writeCount := disk.writeCount + 1 }

/-- The plain disk as a device. -/
def plainDevice (env : Environment) : Handler BlockOp BlockReply PlainDisk
  | .read lba, disk =>
    if ValidLba lba ∧ disk.stale lba = false then .ok (some (disk.sectors lba), disk)
    else .error .fault
  | .write lba buf, disk =>
    if ValidLba lba then
      .ok ((env.writeOutcome disk.writeCount).returns, disk.write env lba buf)
    else .error .fault
  | .clearCache, disk => .ok ((), { disk with stale := fun _ => false })
  | .kmalloc size, disk =>
    .ok (env.heapBlock disk.kmallocCount size, { disk with kmallocCount := disk.kmallocCount + 1 })

/-- The driver's 28 bits are the whole address. -/
theorem ataAddress_of_valid {lba : UInt32} (h : ValidLba lba) : ataAddress lba = lba := by
  apply UInt32.toNat_inj.mp
  have hmask : (0x0FFFFFFF : UInt32).toNat = 2 ^ 28 - 1 := rfl
  have hlt : lba.toNat < 2 ^ 28 := h.2.trans (by decide)
  rw [ataAddress, UInt32.toNat_and, hmask, Nat.and_two_pow_sub_one_eq_mod, Nat.mod_eq_of_lt hlt]

/-- The slots of a cache hold what the disk holds, each block once. -/
structure CacheCoherent (cache : List CacheSlot) (sectors : UInt32 → Sector)
    (stale : UInt32 → Bool) : Prop where
  /-- There are 16 slots. -/
  length_eq : cache.length = 16
  /-- No block has two slots. -/
  unique : ∀ (i j : ℕ) (a b : CacheSlot), cache[i]? = some a → cache[j]? = some b →
    a.lba = b.lba → ValidLba a.lba → i = j
  /-- A slot agrees with a sector that is not stale. -/
  agrees : ∀ slot ∈ cache, ValidLba slot.lba → stale slot.lba = false →
    slot.data = sectors slot.lba

/-- The cached device stands for the plain disk. -/
structure Simulates (dev : Device) (disk : PlainDisk) : Prop where
  /-- The sectors are the same. -/
  sectors_eq : dev.disk.sectors = disk.sectors
  /-- The logs are the same. -/
  log_eq : dev.disk.log = disk.log
  /-- The writes are as many. -/
  writeCount_eq : dev.disk.writeCount = disk.writeCount
  /-- The calls of kmalloc are as many. -/
  kmallocCount_eq : dev.kmallocCount = disk.kmallocCount
  /-- The cache agrees with the sectors. -/
  coherent : CacheCoherent dev.blockCache disk.sectors disk.stale

/-- What cache_find finds is the only slot for its block. -/
theorem cacheFind_some {lba : UInt32} {cache : List CacheSlot} {idx : ℕ}
    (h : cacheFind lba cache = some idx) :
    ∃ slot, cache[idx]? = some slot ∧ slot.lba = lba := by
  rw [cacheFind, List.findIdx?_eq_some_iff_getElem] at h
  obtain ⟨hlt, heq, _⟩ := h
  exact ⟨cache[idx], List.getElem?_eq_getElem hlt, by simpa using heq⟩

/-- When cache_find fails no slot holds the block. -/
theorem cacheFind_none {lba : UInt32} {cache : List CacheSlot} (h : cacheFind lba cache = none) :
    ∀ slot ∈ cache, slot.lba ≠ lba := by
  rw [cacheFind, List.findIdx?_eq_none_iff] at h
  intro slot hslot
  simpa using h slot hslot

/-- The slots of the blocks in `tracked` hold what `Held` allows, each block once. -/
structure SlotsHold (tracked : UInt32 → Prop) (Held : UInt32 → Sector → Prop)
    (cache : List CacheSlot) : Prop where
  /-- There are 16 slots. -/
  length_eq : cache.length = 16
  /-- No tracked block has two slots. -/
  unique : ∀ (i j : ℕ) (a b : CacheSlot), cache[i]? = some a → cache[j]? = some b →
    a.lba = b.lba → tracked a.lba → i = j
  /-- A tracked slot holds what it may. -/
  holds : ∀ slot ∈ cache, tracked slot.lba → Held slot.lba slot.data

section Slots

variable {tracked : UInt32 → Prop} {Held Held' : UInt32 → Sector → Prop} {cache : List CacheSlot}

/-- A slot of a tracked block is the slot that the next access of the block uses. -/
theorem SlotsHold.only (h : SlotsHold tracked Held cache) {lba : UInt32} (htracked : tracked lba)
    {j : ℕ} {slot : CacheSlot} (hslot : cache[j]? = some slot) (hlba : slot.lba = lba) :
    j = (cacheFind lba cache).getD (cacheEvict cache) := by
  cases hfind : cacheFind lba cache with
  | some idx =>
    have ⟨found, hfound, hfoundLba⟩ := cacheFind_some hfind
    exact h.unique j idx slot found hslot hfound (hlba.trans hfoundLba.symm) (hlba ▸ htracked)
  | none => exact absurd hlba (cacheFind_none hfind slot (List.mem_of_getElem? hslot))

/-- Filling one slot keeps the slots, when no other slot holds the block. -/
theorem SlotsHold.set (h : SlotsHold tracked Held cache) {idx : ℕ} {slot : CacheSlot}
    (honly : ∀ (j : ℕ) (b : CacheSlot), cache[j]? = some b → b.lba = slot.lba → j = idx)
    (hnew : Held' slot.lba slot.data)
    (hother : ∀ lba data, lba ≠ slot.lba → Held lba data → Held' lba data) :
    SlotsHold tracked Held' (cache.set idx slot) where
  length_eq := by rw [List.length_set, h.length_eq]
  unique := by
    intro i j a b ha hb hab htracked
    rw [List.getElem?_set] at ha hb
    by_cases hi : idx = i
    · by_cases hj : idx = j
      · omega
      · rw [if_pos hi] at ha
        rw [if_neg hj] at hb
        split at ha
        · obtain rfl := Option.some.inj ha
          exact absurd (honly j b hb hab.symm).symm hj
        · cases ha
    · rw [if_neg hi] at ha
      by_cases hj : idx = j
      · rw [if_pos hj] at hb
        split at hb
        · obtain rfl := Option.some.inj hb
          exact absurd (honly i a ha hab).symm hi
        · cases hb
      · rw [if_neg hj] at hb
        exact h.unique i j a b ha hb hab htracked
  holds := by
    intro a ha htracked
    have ⟨i, hi⟩ := List.mem_iff_getElem?.mp ha
    rw [List.getElem?_set] at hi
    by_cases hidx : idx = i
    · rw [if_pos hidx] at hi
      split at hi
      · obtain rfl := Option.some.inj hi
        exact hnew
      · cases hi
    · rw [if_neg hidx] at hi
      have hlba : a.lba ≠ slot.lba := fun heq => hidx (honly i a hi heq).symm
      exact hother a.lba a.data hlba (h.holds a (List.mem_of_getElem? hi) htracked)

/-- The empty cache tracks no block but block 0. -/
theorem SlotsHold.empty (hzero : ¬tracked 0) : SlotsHold tracked Held emptyCache := by
  have hslots : ∀ slot ∈ emptyCache, ¬tracked slot.lba := by
    intro slot hslot
    rw [List.eq_of_mem_replicate hslot]
    exact hzero
  refine ⟨List.length_replicate, ?_, ?_⟩
  · intro i j a b ha _ _ htracked
    exact absurd htracked (hslots a (List.mem_of_getElem? ha))
  · intro slot hslot htracked
    exact absurd htracked (hslots slot hslot)

end Slots

/-- A coherent cache holds in every slot what a sector that is not stale holds. -/
theorem cacheCoherent_iff {cache : List CacheSlot} {sectors : UInt32 → Sector}
    {stale : UInt32 → Bool} : CacheCoherent cache sectors stale ↔
      SlotsHold ValidLba (fun lba data => stale lba = false → data = sectors lba) cache :=
  ⟨fun h => ⟨h.length_eq, h.unique, h.agrees⟩, fun h => ⟨h.length_eq, h.unique, h.holds⟩⟩

/-- Filling one slot keeps the cache coherent, when no other slot holds the block
and the slot agrees with the medium or the sector is stale. -/
theorem CacheCoherent.set {cache : List CacheSlot} {sectors sectors' : UInt32 → Sector}
    {stale stale' : UInt32 → Bool} (h : CacheCoherent cache sectors stale) {idx : ℕ}
    {slot : CacheSlot}
    (honly : ∀ (j : ℕ) (b : CacheSlot), cache[j]? = some b → b.lba = slot.lba → j = idx)
    (hnew : stale' slot.lba = false → slot.data = sectors' slot.lba)
    (hother : ∀ lba, lba ≠ slot.lba → stale' lba = stale lba ∧ sectors' lba = sectors lba) :
    CacheCoherent (cache.set idx slot) sectors' stale' := by
  rw [cacheCoherent_iff] at h ⊢
  refine h.set honly hnew fun lba data hne hheld hstale => ?_
  have ⟨hs, hd⟩ := hother lba hne
  rw [hd]
  exact hheld (hs ▸ hstale)

/-- The empty cache is coherent with every medium. -/
theorem CacheCoherent.empty (sectors : UInt32 → Sector) (stale : UInt32 → Bool) :
    CacheCoherent emptyCache sectors stale :=
  cacheCoherent_iff.mpr (SlotsHold.empty (by decide))

variable {env : Environment} {dev : Device} {disk : PlainDisk}

/-- A read of a valid sector that is not stale returns the sector. -/
theorem cacheRead_simulates (hreads : ∀ n, env.readOk n = true) (h : Simulates dev disk)
    {lba : UInt32} (hvalid : ValidLba lba) (hstale : disk.stale lba = false) :
    (cacheRead env lba dev).1 = some (disk.sectors lba) ∧
      Simulates (cacheRead env lba dev).2 disk := by
  unfold cacheRead
  cases hfind : cacheFind lba dev.blockCache with
  | some idx =>
    obtain ⟨slot, hslot, hlba⟩ := cacheFind_some hfind
    have hdata := h.coherent.agrees slot (List.mem_of_getElem? hslot) (hlba ▸ hvalid)
      (hlba ▸ hstale)
    refine ⟨?_, h⟩
    rw [hlba] at hdata
    simp only [hslot, Option.map_some, hdata]
  | none =>
    have hnone := cacheFind_none hfind
    simp only [ataReadSector, hreads, if_true, ataAddress_of_valid hvalid, h.sectors_eq]
    refine ⟨trivial, ?_, h.log_eq, h.writeCount_eq, h.kmallocCount_eq, ?_⟩
    · rfl
    · refine h.coherent.set ?_ (fun _ => rfl) fun _ _ => ⟨rfl, rfl⟩
      intro j b hb hblba
      exact absurd hblba (hnone b (List.mem_of_getElem? hb))

/-- A write of a valid sector leaves the cache with the new data. -/
theorem cacheWrite_simulates (env : Environment) (h : Simulates dev disk) {lba : UInt32} (hvalid : ValidLba lba)
    (buf : Sector) :
    (cacheWrite env lba buf dev).1 = (env.writeOutcome disk.writeCount).returns ∧
      Simulates (cacheWrite env lba buf dev).2 (disk.write env lba buf) := by
  have honly : ∀ (j : ℕ) (b : CacheSlot), dev.blockCache[j]? = some b → b.lba = lba →
      j = (cacheFind lba dev.blockCache).getD (cacheEvict dev.blockCache) :=
    fun j b hb hblba => (cacheCoherent_iff.mp h.coherent).only hvalid hb hblba
  unfold cacheWrite ataWriteSector PlainDisk.write
  simp only [ataAddress_of_valid hvalid, h.writeCount_eq, h.sectors_eq, h.log_eq]
  split
  · refine ⟨rfl, rfl, rfl, rfl, h.kmallocCount_eq, ?_⟩
    refine h.coherent.set honly (fun _ => ?_) fun other hne => ?_
    · exact (Function.update_self lba buf disk.sectors).symm
    · exact ⟨Function.update_of_ne hne _ _, Function.update_of_ne hne _ _⟩
  · refine ⟨rfl, rfl, rfl, rfl, h.kmallocCount_eq, ?_⟩
    refine h.coherent.set honly (fun hs => ?_) fun other hne => ?_
    · simp only [Function.update_self, Bool.true_eq_false] at hs
    · exact ⟨Function.update_of_ne hne _ _, rfl⟩

/-- With reads that succeed, the cached device simulates the plain disk step by step. -/
theorem cachedDevice_simulates (hreads : ∀ n, env.readOk n = true) :
    ∀ op dev disk reply disk', Simulates dev disk →
      plainDevice env op disk = .ok (reply, disk') →
      ∃ dev', cachedDevice env op dev = .ok (reply, dev') ∧ Simulates dev' disk' := by
  intro op dev disk reply disk' h hstep
  cases op with
  | read lba =>
    simp only [plainDevice] at hstep
    split at hstep
    · rename_i hok
      cases hstep
      obtain ⟨hvalue, hsim⟩ := cacheRead_simulates hreads h hok.1 hok.2
      exact ⟨_, by rw [← hvalue]; rfl, hsim⟩
    · cases hstep
  | write lba buf =>
    simp only [plainDevice] at hstep
    split at hstep
    · rename_i hok
      cases hstep
      obtain ⟨hvalue, hsim⟩ := cacheWrite_simulates env h hok buf
      exact ⟨_, by rw [← hvalue]; rfl, hsim⟩
    · cases hstep
  | clearCache =>
    cases hstep
    exact ⟨_, rfl, h.sectors_eq, h.log_eq, h.writeCount_eq, h.kmallocCount_eq,
      CacheCoherent.empty _ _⟩
  | kmalloc size =>
    cases hstep
    refine ⟨{ dev with kmallocCount := dev.kmallocCount + 1 }, ?_, h.sectors_eq, h.log_eq,
      h.writeCount_eq, congrArg (· + 1) h.kmallocCount_eq, h.coherent⟩
    rw [← h.kmallocCount_eq]
    rfl

/-- The plain disk that a device stands for when its cache agrees with the medium. -/
def Device.plain (dev : Device) : PlainDisk :=
  ⟨dev.disk.sectors, dev.disk.log, fun _ => false, dev.disk.writeCount, dev.kmallocCount⟩

/-- The cache agrees with the medium. -/
def Device.Coherent (dev : Device) : Prop :=
  CacheCoherent dev.blockCache dev.disk.sectors fun _ => false

theorem Device.Coherent.simulates (h : dev.Coherent) : Simulates dev dev.plain :=
  ⟨rfl, rfl, rfl, rfl, h⟩

/-- A total run on the plain disk is a run of the machine. -/
theorem Machine.run_of_wp {α : Type} (hreads : ∀ n, env.readOk n = true) {code : HexafsM α}
    {machine : Machine} (hcoh : machine.dev.Coherent) {post : α → Memory → PlainDisk → Prop}
    (h : code.wp (plainDevice env) machine.mem machine.dev.plain post) :
    ∃ value machine', machine.run env code = .ok (value, machine') ∧
      ∃ disk, Simulates machine'.dev disk ∧ post value machine'.mem disk := by
  obtain ⟨value, mem, dev, hrun, disk, hsim, hpost⟩ :=
    Code.wp_simulates (cachedDevice_simulates hreads) hcoh.simulates h
  refine ⟨value, ⟨mem, dev⟩, ?_, disk, hsim, hpost⟩
  rw [Machine.run, hrun]

end HexaOS.Hexafs
