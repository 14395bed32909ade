import Mathlib.Data.Finset.Card
import Mathlib.Order.Interval.Finset.Nat
import HexaOS.HexafsPlain
import HexaOS.StoreTyping

/-!
# The block allocator on the plain disk

The bitmap is a set of block numbers, allocation adds one that was free and
release takes one out. `Grown` says what a sequence of allocations did to the
allocator, `Wrote` what a sequence of writes did to the disk; both compose, and
every later specification is stated with them.
-/

namespace HexaOS.Hexafs

open DevicePrograms PackedBytes StoreTyping

/-- One byte of the bitmap, read bit by bit. -/
theorem byte_test (x : UInt8) (k : ℕ) (hk : k < 8) :
    ((x >>> UInt8.ofNat k) &&& 1 == 1) = x.toBitVec.getLsbD k := by
  have h : ((x >>> UInt8.ofNat k) &&& 1 == 1) = ((x.toBitVec >>> k) &&& 1#8 == 1#8) := by
    rw [Bool.eq_iff_iff, beq_iff_eq, beq_iff_eq, ← UInt8.toBitVec_inj]
    simp
    rw [Nat.mod_eq_of_lt hk]
  rw [h, BitVec.and_one_eq_setWidth_ofBool_getLsbD]
  simp
  cases x.toBitVec.getLsbD k <;> rfl

theorem byte_set (x : UInt8) (k j : ℕ) (hk : k < 8) (hj : j < 8) :
    (x ||| (1 <<< UInt8.ofNat k)).toBitVec.getLsbD j =
      (decide (j = k) || x.toBitVec.getLsbD j) := by
  simp
  rw [Nat.mod_eq_of_lt hk]
  grind

theorem byte_clear (x : UInt8) (k j : ℕ) (hk : k < 8) (hj : j < 8) :
    (x &&& ~~~(1 <<< UInt8.ofNat k)).toBitVec.getLsbD j =
      (!decide (j = k) && x.toBitVec.getLsbD j) := by
  simp
  rw [Nat.mod_eq_of_lt hk]
  grind

/-- The bit of a block inside the bitmap. -/
theorem bitmapTest_eq {bitmap : Vector UInt8 1024} {block : ℕ} (h : block / 8 < 1024) :
    bitmapTest bitmap block = bitmap[block / 8].toBitVec.getLsbD (block % 8) := by
  rw [bitmapTest, dif_pos h, byte_test _ _ (Nat.mod_lt _ (by decide))]

/-- Setting a bit changes that bit only. -/
theorem bitmapTest_bitmapSet (bitmap : Vector UInt8 1024) {block : ℕ} (hblock : block / 8 < 1024)
    (other : ℕ) :
    bitmapTest (bitmapSet bitmap block) other = (decide (other = block) || bitmapTest bitmap other) := by
  rw [bitmapSet, dif_pos hblock]
  by_cases hother : other / 8 < 1024
  · rw [bitmapTest_eq hother, bitmapTest_eq hother, Vector.getElem_set]
    by_cases hbyte : block / 8 = other / 8
    · simp only [hbyte, if_true]
      rw [byte_set _ _ _ (Nat.mod_lt _ (by decide)) (Nat.mod_lt _ (by decide))]
      congr 1
      rw [decide_eq_decide]
      omega
    · rw [if_neg hbyte]
      have hne : other ≠ block := by rintro rfl; exact hbyte rfl
      simp only [hne, decide_false, Bool.false_or]
  · simp only [bitmapTest, dif_neg hother, Bool.or_true]

/-- Clearing a bit changes that bit only. -/
theorem bitmapTest_bitmapClear (bitmap : Vector UInt8 1024) {block : ℕ} (hblock : block / 8 < 1024)
    (other : ℕ) :
    bitmapTest (bitmapClear bitmap block) other =
      (!decide (other = block) && bitmapTest bitmap other) := by
  rw [bitmapClear, dif_pos hblock]
  by_cases hother : other / 8 < 1024
  · rw [bitmapTest_eq hother, bitmapTest_eq hother, Vector.getElem_set]
    by_cases hbyte : block / 8 = other / 8
    · simp only [hbyte, if_true]
      rw [byte_clear _ _ _ (Nat.mod_lt _ (by decide)) (Nat.mod_lt _ (by decide))]
      congr 2
      rw [decide_eq_decide]
      omega
    · rw [if_neg hbyte]
      have hne : other ≠ block := by rintro rfl; exact hbyte rfl
      simp only [hne, decide_false, Bool.not_false, Bool.true_and]
  · have hne : other ≠ block := by rintro rfl; exact hother hblock
    simp only [bitmapTest, dif_neg hother, hne, decide_false, Bool.not_false, Bool.true_and]

/-- An empty bitmap has no bit set inside. -/
theorem bitmapTest_zero {block : ℕ} (h : block / 8 < 1024) :
    bitmapTest (Vector.replicate 1024 0) block = false := by
  rw [bitmapTest_eq h, Vector.getElem_replicate]
  simp

/-- A block number of the object area. -/
def InStore (block : UInt32) : Prop :=
  hexafsObjectLba ≤ block.toNat ∧ block.toNat < hexafsDiskBlocks

theorem InStore.valid {block : UInt32} (h : InStore block) : ValidLba block :=
  ⟨lt_of_lt_of_le (by decide) h.1, h.2⟩

theorem InStore.ne_zero {block : UInt32} (h : InStore block) : block ≠ 0 := by
  rintro rfl
  exact absurd h.1 (by decide)

/-- The bitmap bit of a block. -/
def Allocator.Used (a : Allocator) (block : UInt32) : Prop :=
  bitmapTest a.bitmap block.toNat = true

/-- The scan of hexafs_alloc_block starts inside the object area. -/
def Allocator.HintOk (a : Allocator) : Prop :=
  hexafsObjectLba ≤ a.nextHint ∧ a.nextHint ≤ hexafsDiskBlocks

/-- The numbers of the free blocks. -/
def Allocator.freeBlocks (a : Allocator) : Finset ℕ :=
  (Finset.Ico hexafsObjectLba hexafsDiskBlocks).filter fun i => bitmapTest a.bitmap i = false

/-- How many blocks can still be allocated. -/
def Allocator.freeCount (a : Allocator) : ℕ := a.freeBlocks.card

/-- A block that hexafs_alloc_block may take. -/
def Allocator.Fresh (a : Allocator) (block : UInt32) : Prop := InStore block ∧ ¬a.Used block

theorem Allocator.mem_freeBlocks (a : Allocator) {block : UInt32} :
    block.toNat ∈ a.freeBlocks ↔ a.Fresh block := by
  simp only [freeBlocks, Finset.mem_filter, Finset.mem_Ico, Fresh, InStore, Used,
    Bool.not_eq_true]

/-- What a sequence of allocations, some of them taken back, did: the blocks of
`blocks` are used now and were free before, everything else is as it was. -/
structure Grown (a a' : Allocator) (blocks : List UInt32) : Prop where
  /-- The blocks are different. -/
  nodup : blocks.Nodup
  /-- They were free. -/
  fresh : ∀ b ∈ blocks, a.Fresh b
  /-- They are what is used besides. -/
  used : ∀ b, a'.Used b ↔ a.Used b ∨ b ∈ blocks
  /-- The hint stays in range. -/
  hint : a'.HintOk
  /-- A disk that was full stays marked so. -/
  outOfBlocks : a.outOfBlocks = true → a'.outOfBlocks = true
  /-- A bitmap that need not be written is the old one. -/
  clean : a'.dirty = false → a.dirty = false ∧ a'.bitmap = a.bitmap

theorem Grown.refl {a : Allocator} (h : a.HintOk) : Grown a a [] :=
  ⟨List.nodup_nil, by simp, by simp, h, id, fun hd => ⟨hd, rfl⟩⟩

/-- The allocator after "out of disk blocks" was logged. -/
def Allocator.full (a : Allocator) : Allocator := { a with outOfBlocks := true }

@[simp] theorem Allocator.freeCount_full (a : Allocator) : a.full.freeCount = a.freeCount := rfl

/-- Finding no free block is logged and changes nothing else. -/
theorem Grown.full {a : Allocator} (h : a.HintOk) : Grown a a.full [] :=
  ⟨List.nodup_nil, by simp, by simp [Allocator.Used, Allocator.full], h, fun _ => rfl, fun hd => ⟨hd, rfl⟩⟩

theorem Grown.trans {a a' a'' : Allocator} {first second : List UInt32} (h : Grown a a' first)
    (h' : Grown a' a'' second) : Grown a a'' (first ++ second) where
  nodup := by
    refine List.Nodup.append h.nodup h'.nodup fun b hb hb' => ?_
    exact (h'.fresh b hb').2 ((h.used b).mpr (.inr hb))
  fresh := by
    intro b hb
    rcases List.mem_append.mp hb with hb | hb
    · exact h.fresh b hb
    · exact ⟨(h'.fresh b hb).1, fun hu => (h'.fresh b hb).2 ((h.used b).mpr (.inl hu))⟩
  used := by
    intro b
    rw [h'.used, h.used, List.mem_append, or_assoc]
  hint := h'.hint
  outOfBlocks := fun ho => h'.outOfBlocks (h.outOfBlocks ho)
  clean := fun hd => by
    obtain ⟨hd', heq'⟩ := h'.clean hd
    obtain ⟨hd, heq⟩ := h.clean hd'
    exact ⟨hd, heq'.trans heq⟩

/-- Blocks that were used stay used. -/
theorem Grown.used_mono {a a' : Allocator} {blocks : List UInt32} (h : Grown a a' blocks)
    {b : UInt32} (hb : a.Used b) : a'.Used b := (h.used b).mpr (.inl hb)

theorem Grown.used_of_mem {a a' : Allocator} {blocks : List UInt32} (h : Grown a a' blocks)
    {b : UInt32} (hb : b ∈ blocks) : a'.Used b := (h.used b).mpr (.inr hb)

/-- What is fresh later was fresh before. -/
theorem Grown.fresh_of_fresh {a a' : Allocator} {blocks : List UInt32} (h : Grown a a' blocks)
    {b : UInt32} (hb : a'.Fresh b) : a.Fresh b :=
  ⟨hb.1, fun hu => hb.2 (h.used_mono hu)⟩

/-- Allocated blocks are no longer fresh. -/
theorem Grown.not_fresh {a a' : Allocator} {blocks : List UInt32} (h : Grown a a' blocks)
    {b : UInt32} (hb : b ∈ blocks) : ¬a'.Fresh b := fun hf => hf.2 (h.used_of_mem hb)

/-- Only the number of allocated blocks matters for how many remain. -/
theorem Grown.freeCount_add {a a' : Allocator} {blocks : List UInt32} (h : Grown a a' blocks) :
    a'.freeCount + blocks.length = a.freeCount := by
  have hinj : (blocks.map UInt32.toNat).Nodup :=
    h.nodup.map fun _ _ => UInt32.toNat_inj.mp
  have hcard : (blocks.map UInt32.toNat).toFinset.card = blocks.length := by
    rw [List.toFinset_card_of_nodup hinj, List.length_map]
  have hsub : (blocks.map UInt32.toNat).toFinset ⊆ a.freeBlocks := by
    intro i hi
    obtain ⟨b, hb, rfl⟩ := List.mem_map.mp (List.mem_toFinset.mp hi)
    exact a.mem_freeBlocks.mpr (h.fresh b hb)
  have heq : a'.freeBlocks = a.freeBlocks \ (blocks.map UInt32.toNat).toFinset := by
    ext i
    rw [Finset.mem_sdiff, List.mem_toFinset]
    by_cases hi : i < hexafsDiskBlocks
    · have hmod : i % 2 ^ 32 = i := Nat.mod_eq_of_lt (hi.trans (by decide))
      have hof : (UInt32.ofNat i).toNat = i := by rw [UInt32.toNat_ofNat', hmod]
      have hmem : i ∈ blocks.map UInt32.toNat ↔ UInt32.ofNat i ∈ blocks := by
        rw [List.mem_map]
        constructor
        · rintro ⟨b, hb, rfl⟩
          rwa [UInt32.ofNat_toNat]
        · intro hb
          exact ⟨_, hb, hof⟩
      have hfree : ∀ x : Allocator, i ∈ x.freeBlocks ↔ x.Fresh (UInt32.ofNat i) := by
        intro x
        rw [← x.mem_freeBlocks, hof]
      rw [hfree, hfree, hmem, Allocator.Fresh, Allocator.Fresh, h.used]
      tauto
    · have hout : ∀ x : Allocator, i ∉ x.freeBlocks := by
        intro x hx
        rw [Allocator.freeBlocks, Finset.mem_filter, Finset.mem_Ico] at hx
        exact hi hx.1.2
      exact ⟨fun hx => absurd hx (hout a'), fun hx => absurd hx.1 (hout a)⟩
  have hle := Finset.card_le_card hsub
  rw [Allocator.freeCount, Allocator.freeCount, heq, Finset.card_sdiff_of_subset hsub, hcard]
  omega

/-- The first free block of a range, when there is one. -/
theorem scanFree_some {bitmap : Vector UInt8 1024} {first stop i : ℕ}
    (h : scanFree bitmap first stop = some i) :
    first ≤ i ∧ i < stop ∧ bitmapTest bitmap i = false := by
  have hmem := List.mem_of_find?_eq_some h
  have htest := List.find?_some h
  rw [List.mem_range'_1] at hmem
  simp only [Bool.not_eq_true'] at htest
  exact ⟨hmem.1, by omega, htest⟩

theorem scanFree_none {bitmap : Vector UInt8 1024} {first stop : ℕ}
    (h : scanFree bitmap first stop = none) {i : ℕ} (hfirst : first ≤ i) (hstop : i < stop) :
    bitmapTest bitmap i = true := by
  have hall := List.find?_eq_none.mp h i (List.mem_range'_1.mpr ⟨hfirst, by omega⟩)
  simpa using hall

/-- hexafs_alloc_block takes a free block of the object area. -/
theorem Allocator.choose_some {a : Allocator} (hhint : a.HintOk) {i : ℕ}
    (h : a.choose = some i) :
    hexafsObjectLba ≤ i ∧ i < hexafsDiskBlocks ∧ bitmapTest a.bitmap i = false := by
  rw [choose, Option.or_eq_some_iff] at h
  rcases h with h | ⟨_, h⟩
  · obtain ⟨hlo, hhi, ht⟩ := scanFree_some h
    exact ⟨hhint.1.trans hlo, hhi, ht⟩
  · obtain ⟨hlo, hhi, ht⟩ := scanFree_some h
    exact ⟨hlo, lt_of_lt_of_le hhi hhint.2, ht⟩

/-- hexafs_alloc_block finds nothing only when no block is free. -/
theorem Allocator.choose_none {a : Allocator} (h : a.choose = none) : a.freeBlocks = ∅ := by
  rw [choose, Option.or_eq_none_iff] at h
  rw [freeBlocks, Finset.filter_eq_empty_iff]
  intro i hi hfree
  rw [Finset.mem_Ico] at hi
  have hused : bitmapTest a.bitmap i = true := by
    by_cases hlt : i < a.nextHint
    · exact scanFree_none h.2 hi.1 hlt
    · exact scanFree_none h.1 (Nat.le_of_not_lt hlt) hi.2
  rw [hused] at hfree
  cases hfree

/-- Every write reaches the medium and is confirmed. -/
def Environment.WritesOk (env : Environment) : Prop := ∀ n, env.writeOutcome n = .written

/-- What a sequence of writes inside the set `W` did to the disk. -/
structure Wrote (env : Environment) (W : UInt32 → Prop) (d d' : PlainDisk) : Prop where
  /-- The sectors are those of the log. -/
  log : ∃ writes, d'.log = d.log ++ writes ∧ d'.sectors = applyWrites writes d.sectors ∧
    ∀ write ∈ writes, W write.1
  /-- Other blocks are as stale as before. -/
  stale : ∀ b, ¬W b → d'.stale b = d.stale b
  /-- When no write fails, nothing gets stale. -/
  stale_le : env.WritesOk → (∀ b, d.stale b = false) → ∀ b, d'.stale b = false

namespace Wrote

variable {env : Environment} {W V : UInt32 → Prop} {d d' d'' : PlainDisk}

theorem refl : Wrote env W d d := ⟨⟨[], by simp⟩, fun _ _ => rfl, fun _ h => h⟩

theorem mono (h : Wrote env W d d') (hsub : ∀ b, W b → V b) : Wrote env V d d' := by
  obtain ⟨writes, hlog, hsec, hall⟩ := h.log
  exact ⟨⟨writes, hlog, hsec, fun w hw => hsub _ (hall w hw)⟩,
    fun b hb => h.stale b fun hw => hb (hsub b hw), h.stale_le⟩

theorem trans (h : Wrote env W d d') (h' : Wrote env W d' d'') : Wrote env W d d'' := by
  obtain ⟨writes, hlog, hsec, hall⟩ := h.log
  obtain ⟨writes', hlog', hsec', hall'⟩ := h'.log
  refine ⟨⟨writes ++ writes', ?_, ?_, ?_⟩, ?_, fun hw hs => h'.stale_le hw (h.stale_le hw hs)⟩
  · rw [hlog', hlog, List.append_assoc]
  · rw [hsec', hsec, applyWrites_append]
  · intro w hw
    rcases List.mem_append.mp hw with hw | hw
    · exact hall w hw
    · exact hall' w hw
  · intro b hb
    rw [h'.stale b hb, h.stale b hb]

/-- Sectors outside the set keep their content. -/
theorem sectors_eq (h : Wrote env W d d') {b : UInt32} (hb : ¬W b) :
    d'.sectors b = d.sectors b := by
  obtain ⟨writes, _, hsec, hall⟩ := h.log
  rw [hsec, applyWrites_of_notMem]
  intro w hw heq
  exact hb (heq ▸ hall w hw)

end Wrote

section Write

variable {env : Environment} {d : PlainDisk} {lba : UInt32} {buf : Sector}

/-- One write changes one sector at most. -/
theorem PlainDisk.wrote_write : Wrote env (· = lba) d (d.write env lba buf) := by
  unfold PlainDisk.write
  split
  · exact ⟨⟨[(lba, buf)], rfl, rfl, by simp⟩,
      fun b hb => Function.update_of_ne hb _ _, fun _ hs b => by
        show Function.update d.stale lba false b = false
        by_cases hb : b = lba
        · rw [hb, Function.update_self]
        · rw [Function.update_of_ne hb, hs]⟩
  · rename_i hreach
    refine ⟨⟨[], by simp⟩, fun b hb => Function.update_of_ne hb _ _, fun hok => ?_⟩
    rw [hok] at hreach
    exact absurd rfl hreach

/-- One more write inside the set. -/
theorem Wrote.write {W : UInt32 → Prop} {d' : PlainDisk} (h : Wrote env W d d') (hlba : W lba) :
    Wrote env W d (d'.write env lba buf) :=
  h.trans (PlainDisk.wrote_write.mono fun _ heq => heq ▸ hlba)

/-- A write that returns 1 is on the medium. -/
theorem WriteOutcome.reaches_of_returns {outcome : WriteOutcome} (h : outcome.returns = true) :
    outcome.reaches = true := by
  cases outcome with
  | written => rfl
  | refused => cases h
  | unconfirmed => rfl

theorem PlainDisk.write_reaches (lba : UInt32) (buf : Sector)
    (h : (env.writeOutcome d.writeCount).reaches = true) :
    (d.write env lba buf).sectors lba = buf ∧ (d.write env lba buf).stale lba = false := by
  rw [PlainDisk.write, if_pos h]
  exact ⟨Function.update_self lba buf d.sectors, Function.update_self lba false d.stale⟩

theorem Environment.WritesOk.returns (h : env.WritesOk) (n : ℕ) :
    (env.writeOutcome n).returns = true := by
  rw [h n]
  rfl

theorem Environment.WritesOk.reaches (h : env.WritesOk) (n : ℕ) :
    (env.writeOutcome n).reaches = true := by
  rw [h n]
  rfl

/-- A write that reaches the medium. -/
theorem PlainDisk.write_of_reaches (h : (env.writeOutcome d.writeCount).reaches = true) :
    d.write env lba buf =
      { d with
        sectors := Function.update d.sectors lba buf
        log := d.log ++ [(lba, buf)]
        stale := Function.update d.stale lba false
        writeCount := d.writeCount + 1 } := by
  rw [PlainDisk.write, if_pos h]

theorem PlainDisk.write_sectors_of_ne {b : UInt32} (h : b ≠ lba) :
    (d.write env lba buf).sectors b = d.sectors b :=
  PlainDisk.wrote_write.sectors_eq h

theorem PlainDisk.write_stale_of_ne {b : UInt32} (h : b ≠ lba) :
    (d.write env lba buf).stale b = d.stale b :=
  PlainDisk.wrote_write.stale b h

@[simp] theorem PlainDisk.write_writeCount :
    (d.write env lba buf).writeCount = d.writeCount + 1 := by
  unfold PlainDisk.write
  split <;> rfl

@[simp] theorem PlainDisk.write_kmallocCount :
    (d.write env lba buf).kmallocCount = d.kmallocCount := by
  unfold PlainDisk.write
  split <;> rfl

end Write

section Specs

variable {env : Environment} {mem : Memory} {d : PlainDisk}

@[simp] theorem wp_modifyAllocator (update : Allocator → Allocator)
    (post : Unit → Memory → PlainDisk → Prop) :
    (modifyAllocator update).wp (plainDevice env) mem d post ↔
      post () { mem with allocator := update mem.allocator } d := Code.wp_modify _ _

@[simp] theorem wp_modifyTx (update : HexafsTx → HexafsTx)
    (post : Unit → Memory → PlainDisk → Prop) :
    (modifyTx update).wp (plainDevice env) mem d post ↔
      post () { mem with currentTx := update mem.currentTx } d := Code.wp_modify _ _

/-- A read of a valid sector that is not stale. -/
theorem wp_hexafsBlockRead {lba : UInt32} {post : Option Sector → Memory → PlainDisk → Prop}
    (hvalid : ValidLba lba) (hstale : d.stale lba = false) (h : post (some (d.sectors lba)) mem d) :
    (hexafsBlockRead lba).wp (plainDevice env) mem d post :=
  Code.wp_request (if_pos ⟨hvalid, hstale⟩) h

/-- A write of a valid sector. -/
theorem wp_hexafsBlockWrite {lba : UInt32} {buf : Sector}
    {post : Bool → Memory → PlainDisk → Prop} (hvalid : ValidLba lba)
    (h : post (env.writeOutcome d.writeCount).returns mem (d.write env lba buf)) :
    (hexafsBlockWrite lba buf).wp (plainDevice env) mem d post :=
  Code.wp_request (if_pos hvalid) h

/-- The allocator after a block is taken. -/
theorem Grown.take {a : Allocator} (hhint : a.HintOk) {i : ℕ} (hchoose : a.choose = some i) :
    Grown a { a with bitmap := bitmapSet a.bitmap i, dirty := true, nextHint := i + 1 }
      [UInt32.ofNat i] := by
  obtain ⟨hlo, hhi, htest⟩ := Allocator.choose_some hhint hchoose
  have hof : (UInt32.ofNat i).toNat = i := by
    rw [UInt32.toNat_ofNat', Nat.mod_eq_of_lt (hhi.trans (by decide))]
  refine ⟨List.nodup_singleton _, ?_, ?_, ?_, id, nofun⟩
  · intro b hb
    rw [List.mem_singleton.mp hb]
    refine ⟨⟨hof.symm ▸ hlo, hof.symm ▸ hhi⟩, ?_⟩
    rw [Allocator.Used, hof, htest]
    exact Bool.false_ne_true
  · intro b
    have hdiv : i / 8 < 1024 := by
      have : i < 4096 := hhi
      omega
    rw [Allocator.Used, Allocator.Used, bitmapTest_bitmapSet _ hdiv, List.mem_singleton,
      Bool.or_eq_true, decide_eq_true_eq, or_comm]
    have heq : b.toNat = i ↔ b = UInt32.ofNat i := by
      rw [← UInt32.toNat_inj, hof]
    rw [heq]
  · exact ⟨hlo.trans (Nat.le_succ i), hhi⟩

/-- hexafs_alloc_block returns 0 and changes nothing but the log, or takes a free
block and clears its sector. -/
theorem hexafsAllocBlock_spec (hhint : mem.allocator.HintOk)
    {post : UInt32 → Memory → PlainDisk → Prop}
    (hnone : mem.allocator.freeCount = 0 →
      post 0 { mem with allocator := mem.allocator.full } d)
    (hsome : ∀ b a', Grown mem.allocator a' [b] → a'.outOfBlocks = mem.allocator.outOfBlocks →
      post b { mem with allocator := a' } (d.write env b zeroSector)) :
    hexafsAllocBlock.wp (plainDevice env) mem d post := by
  simp only [hexafsAllocBlock, Code.wp_bind, Code.wp_memory]
  cases hchoose : mem.allocator.choose with
  | none =>
    simp only [Code.wp_bind, wp_modifyAllocator, Code.wp_pure]
    apply hnone
    rw [Allocator.freeCount, Allocator.choose_none hchoose, Finset.card_empty]
  | some i =>
    have hgrown := Grown.take hhint hchoose
    have hfresh := hgrown.fresh _ (List.mem_singleton_self _)
    simp only [takeBlock, Code.wp_bind, wp_modifyAllocator, Code.wp_pure]
    exact wp_hexafsBlockWrite hfresh.1.valid (hsome _ _ hgrown rfl)

/-- Releasing a block that was just allocated. -/
theorem Grown.release {a a' : Allocator} {blocks : List UInt32} {b : UInt32}
    (h : Grown a a' blocks) (hb : b ∈ blocks) :
    Grown a { a' with
      bitmap := bitmapClear a'.bitmap b.toNat
      dirty := true
      nextHint := if b.toNat < a'.nextHint then b.toNat else a'.nextHint } (blocks.erase b) where
  nodup := h.nodup.erase b
  fresh := fun c hc => h.fresh c (List.mem_of_mem_erase hc)
  used := by
    intro c
    have hdiv : b.toNat / 8 < 1024 := by
      have : b.toNat < 4096 := (h.fresh b hb).1.2
      omega
    rw [Allocator.Used, bitmapTest_bitmapClear _ hdiv, Bool.and_eq_true, Bool.not_eq_true',
      decide_eq_false_iff_not, UInt32.toNat_inj, h.nodup.mem_erase_iff]
    have hc := h.used c
    rw [Allocator.Used] at hc
    rw [hc]
    constructor
    · rintro ⟨hne, hu | hm⟩
      · exact .inl hu
      · exact .inr ⟨hne, hm⟩
    · rintro (hu | ⟨hne, hm⟩)
      · exact ⟨fun heq => (h.fresh b hb).2 (heq ▸ hu), .inl hu⟩
      · exact ⟨hne, .inr hm⟩
  hint := by
    have hin := (h.fresh b hb).1
    have hh := h.hint
    dsimp only [Allocator.HintOk] at hh ⊢
    split
    · exact ⟨hin.1, hin.2.le⟩
    · exact hh
  outOfBlocks := h.outOfBlocks
  clean := nofun

/-- hexafs_free_block of a block that was just allocated. -/
theorem hexafsFreeBlock_spec {a : Allocator} {blocks : List UInt32} {b : UInt32}
    (h : Grown a mem.allocator blocks) (hb : b ∈ blocks) {post : Unit → Memory → PlainDisk → Prop}
    (hpost : ∀ a', Grown a a' (blocks.erase b) → a'.outOfBlocks = mem.allocator.outOfBlocks →
      post () { mem with allocator := a' } d) :
    (hexafsFreeBlock b).wp (plainDevice env) mem d post := by
  have hin := (h.fresh b hb).1
  rw [hexafsFreeBlock, if_neg fun hor => hor.elim (Nat.not_lt.mpr hin.1) (Nat.not_le.mpr hin.2)]
  rw [wp_modifyAllocator]
  exact hpost _ (h.release hb) rfl

end Specs

end HexaOS.Hexafs
