import HexaOS.HexafsCachedCalls
import HexaOS.HexafsRuns

/-!
# Capability grants

A grant is an object of the store whose content is a `cap_grant_t`; the blocks of the
grants made since boot are kept in a table. A check reads the objects of the table one
after the other and skips those it cannot read. The runs here are on the device with
its cache, and any read or write may fail.
-/

namespace HexaOS.Hexafs

open DevicePrograms PackedBytes

/-- HEXAFS_CAPABILITY -/
def hexafsCapability : UInt8 := 0x07

/-- cap_grant_t -/
structure CapGrant where
  /-- The type of the capability. -/
  capType : UInt32
  /-- The snapshot of the one that gets it. -/
  granteeSnap : UInt32
  /-- The snapshot of the one that gives it. -/
  grantorSnap : UInt32
  /-- The tick at which it ends. -/
  expiresTick : UInt32
  /-- May it be passed on? -/
  delegatable : UInt32
  /-- The hash of the block of the grant. -/
  grantBlockHash : UInt32
  deriving DecidableEq

instance : Packed CapGrant :=
  .ofEquiv (α := UInt32 × UInt32 × UInt32 × UInt32 × UInt32 × UInt32)
    { toFun := fun g => (g.capType, g.granteeSnap, g.grantorSnap, g.expiresTick, g.delegatable,
        g.grantBlockHash)
      invFun := fun (a, b, c, d, e, f) => ⟨a, b, c, d, e, f⟩
      left_inv := fun _ => rfl
      right_inv := fun _ => rfl }

/-- sizeof(cap_grant_t) -/
def capGrantSize : ℕ := 24

/-- The length of cap_grant_storage. -/
def capGrantMax : ℕ := 32

/-- The used part of cap_grant_storage: as many blocks as cap_grant_count says. -/
abbrev CapGrants : Type := List UInt32

/-- hexafs_snap_for_pid: the root snapshot, whatever the pid. -/
def hexafsSnapForPid (_pid : UInt32) : HexafsM UInt32 := do
  let mem ← Code.memory
  pure mem.sbCache.rootSnapBlock

/-- The record that hexafs_cap_grant stores. -/
def newGrant (capType granteeSnap grantorSnap expiresTick delegatable : UInt32) : CapGrant :=
  let grant : CapGrant :=
    ⟨capType, granteeSnap, grantorSnap, expiresTick, if delegatable ≠ 0 then 1 else 0, 0⟩
  { grant with grantBlockHash := hexafsContentHash (toBytes grant) }

/-- hexafs_cap_grant: the block that is returned, `none` for -1, and the table. -/
def hexafsCapGrant (grants : CapGrants) (granteePid capType expiresTick delegatable : UInt32) :
    HexafsM (Option UInt32 × CapGrants) := do
  if capGrantMax ≤ grants.length then pure (none, grants)
  else
    let mem ← Code.memory
    if mem.currentTx.active then
      let grantBlock ← hexafsObjectAlloc hexafsCapability
      if grantBlock = 0 then pure (none, grants)
      else
        let granteeSnap ← hexafsSnapForPid granteePid
        let mem ← Code.memory
        let grant := newGrant capType granteeSnap mem.sbCache.rootSnapBlock expiresTick delegatable
        let ok ← hexafsObjectWriteData grantBlock (toBytes grant)
        if ok then pure (some grantBlock, grants ++ [grantBlock])
        else
          hexafsFreeBlock grantBlock
          pure (none, grants)
    else pure (none, grants)

/-- The part of the loop of hexafs_cap_check that reads one grant; `none` is a
`continue`. The buffer has 128 bytes, and bytes that were never stored are not read. -/
def readGrant (block : UInt32) : HexafsM (Option CapGrant) := do
  if block = 0 then pure none
  else
    match ← hexafsBlockRead block with
    | none => pure none
    | some buf =>
      let obj := ofBlock HexafsObject buf
      if objMagicOk obj = false ∨ obj.type ≠ hexafsCapability then pure none
      else
        match ← hexafsObjectReadData block with
        | some ⟨true, _, dsz, bytes⟩ =>
          if dsz.toNat < capGrantSize then pure none
          else if 128 < bytes.length ∨ bytes.length < capGrantSize then Code.halt .fault
          else pure (some (ofBytes bytes))
        | _ => pure none

/-- The loop of hexafs_cap_check. -/
def capCheckFrom (systemTicks pid capType : UInt32) : CapGrants → HexafsM Bool
  | [] => pure false
  | block :: grants => do
    match ← readGrant block with
    | none => capCheckFrom systemTicks pid capType grants
    | some grant =>
      if grant.capType = capType ∨ capType = 0 then
        let pidSnap ← hexafsSnapForPid pid
        if pidSnap = 0 then pure true
        else if grant.expiresTick = 0 ∨ systemTicks < grant.expiresTick then pure true
        else capCheckFrom systemTicks pid capType grants
      else capCheckFrom systemTicks pid capType grants

/-- hexafs_cap_check -/
def hexafsCapCheck (grants : CapGrants) (systemTicks pid capType : UInt32) : HexafsM Bool :=
  if pid = 0 then pure true else capCheckFrom systemTicks pid capType grants

/-- The grants of a table that can be read, in order. -/
def readableGrants : CapGrants → HexafsM (List CapGrant)
  | [] => pure []
  | block :: grants => do
    let grant ← readGrant block
    let rest ← readableGrants grants
    pure (grant.toList ++ rest)

section Faulty

variable {env : Environment} {mem : Memory} {dev : Device} {disk : PlainDisk}

/-- A read of the cached device fails, which the disk has to allow, or returns the
sector that was last written. -/
theorem cacheRead_faulty (env : Environment) (sim : Simulates dev disk) {lba : UInt32} (valid : ValidLba lba)
    (kept : disk.stale lba = false) :
    ((cacheRead env lba dev).1 = none ∧ (¬∀ n, env.readOk n = true) ∨
      (cacheRead env lba dev).1 = some (disk.sectors lba)) ∧
      Simulates (cacheRead env lba dev).2 disk := by
  unfold cacheRead
  cases found : cacheFind lba dev.blockCache with
  | some idx =>
    obtain ⟨slot, hslot, same⟩ := cacheFind_some found
    have data := sim.coherent.agrees slot (List.mem_of_getElem? hslot) (same ▸ valid) (same ▸ kept)
    rw [same] at data
    simp only [hslot, Option.map_some, data]
    exact ⟨.inr trivial, sim⟩
  | none =>
    have missing := cacheFind_none found
    simp only [ataReadSector, ataAddress_of_valid valid, sim.sectors_eq]
    cases reply : env.readOk dev.disk.readCount with
    | false =>
      have fails : ¬∀ n, env.readOk n = true := fun all =>
        Bool.false_ne_true (reply.symm.trans (all _))
      exact ⟨.inl ⟨rfl, fails⟩, rfl, sim.log_eq, sim.writeCount_eq, sim.kmallocCount_eq, sim.coherent⟩
    | true =>
      refine ⟨.inr rfl, rfl, sim.log_eq, sim.writeCount_eq, sim.kmallocCount_eq, ?_⟩
      refine sim.coherent.set ?_ (fun _ => rfl) fun _ _ => ⟨rfl, rfl⟩
      intro j slot inCache same
      exact absurd same (missing slot (List.mem_of_getElem? inCache))

/-- A block read on the cached device. -/
theorem wp_blockRead {lba : UInt32} {post : Option Sector → Memory → Device → Prop}
    (sim : Simulates dev disk) (valid : ValidLba lba) (kept : disk.stale lba = false)
    (failed : (¬∀ n, env.readOk n = true) → ∀ dev', Simulates dev' disk → post none mem dev')
    (answered : ∀ dev', Simulates dev' disk → post (some (disk.sectors lba)) mem dev') :
    (hexafsBlockRead lba).wp (cachedDevice env) mem dev post := by
  have reply := cacheRead_faulty env sim valid kept
  have step : post (cacheRead env lba dev).1 mem (cacheRead env lba dev).2 := by
    rcases reply.1 with ⟨lost, fails⟩ | data
    · rw [lost]
      exact failed fails _ reply.2
    · rw [data]
      exact answered _ reply.2
  exact Code.wp_request rfl step

/-- A block write on the cached device. -/
theorem wp_blockWrite {lba : UInt32} {buf : Sector} {post : Bool → Memory → Device → Prop}
    (sim : Simulates dev disk) (valid : ValidLba lba)
    (answered : ∀ dev', Simulates dev' (disk.write env lba buf) →
      post (env.writeOutcome disk.writeCount).returns mem dev') :
    (hexafsBlockWrite lba buf).wp (cachedDevice env) mem dev post := by
  have reply := cacheWrite_simulates env sim valid buf
  have step : post (cacheWrite env lba buf dev).1 mem (cacheWrite env lba buf dev).2 := by
    rw [reply.1]
    exact answered _ reply.2
  exact Code.wp_request rfl step

/-- hexafs_alloc_block on the cached device. -/
theorem allocBlock_faulty {post : UInt32 → Memory → Device → Prop} (sim : Simulates dev disk)
    (hint : mem.allocator.HintOk)
    (full : mem.allocator.freeCount = 0 →
      post 0 { mem with allocator := mem.allocator.full } dev)
    (taken : ∀ block a' dev', Grown mem.allocator a' [block] →
      Simulates dev' (disk.write env block zeroSector) →
      post block { mem with allocator := a' } dev') :
    hexafsAllocBlock.wp (cachedDevice env) mem dev post := by
  simp only [hexafsAllocBlock, Code.wp_bind, Code.wp_memory]
  cases choice : mem.allocator.choose with
  | none =>
    simp only [Code.wp_bind, modifyAllocator, Code.wp_modify, Code.wp_pure]
    apply full
    rw [Allocator.freeCount, Allocator.choose_none choice, Finset.card_empty]
  | some i =>
    have grown := Grown.take hint choice
    have fresh := grown.fresh _ (List.mem_singleton_self _)
    simp only [takeBlock, Code.wp_bind, modifyAllocator, Code.wp_modify, Code.wp_pure]
    exact wp_blockWrite sim fresh.1.valid fun dev' sim' => taken _ _ dev' grown sim'

/-- hexafs_object_alloc on the cached device: without free blocks or with a failed
write it may return 0, and an object that it returns is on the disk. -/
theorem objectAlloc_faulty (sim : Simulates dev disk) (hint : mem.allocator.HintOk)
    (type : UInt8) :
    (hexafsObjectAlloc type).wp (cachedDevice env) mem dev fun block mem' dev' =>
      (block = 0 → mem.allocator.freeCount = 0 ∨ ¬env.WritesOk) ∧
      (block ≠ 0 → ∃ a' disk', Grown mem.allocator a' [block] ∧
        mem' = { mem with allocator := a' } ∧ Simulates dev' disk' ∧
        Wrote env (· = block) disk disk' ∧ disk'.stale block = false ∧
        disk'.sectors block = toBlock 512 (newObject type mem.sbCache.timestamp)) := by
  simp only [hexafsObjectAlloc, Code.wp_bind]
  refine allocBlock_faulty sim hint (fun none => ?_) fun block a' dev₁ grown sim₁ => ?_
  · rw [if_pos rfl, Code.wp_pure]
    exact ⟨fun _ => .inl none, fun nonzero => absurd rfl nonzero⟩
  · have fresh := grown.fresh block (List.mem_singleton_self block)
    simp only [if_neg fresh.1.ne_zero, Code.wp_bind, Code.wp_memory]
    refine wp_blockWrite sim₁ fresh.1.valid fun dev₂ sim₂ => ?_
    cases returned : (env.writeOutcome (disk.write env block zeroSector).writeCount).returns with
    | false =>
      have fails : ¬env.WritesOk := fun all =>
        Bool.false_ne_true (returned.symm.trans (all.returns _))
      rw [if_neg Bool.false_ne_true]
      simp only [hexafsFreeBlock]
      split
      · simp only [Code.wp_bind, Code.wp_pure]
        exact ⟨fun _ => .inr fails, fun nonzero => absurd rfl nonzero⟩
      · simp only [Code.wp_bind, modifyAllocator, Code.wp_modify, Code.wp_pure]
        exact ⟨fun _ => .inr fails, fun nonzero => absurd rfl nonzero⟩
    | true =>
      rw [if_pos rfl, Code.wp_pure]
      have reached := WriteOutcome.reaches_of_returns returned
      have onDisk := PlainDisk.write_reaches block
        (toBlock 512 (newObject type mem.sbCache.timestamp)) reached
      exact ⟨fun zero => absurd zero fresh.1.ne_zero, fun _ =>
        ⟨a', _, grown, rfl, sim₂, PlainDisk.wrote_write.write rfl, onDisk.2, onDisk.1⟩⟩

/-- Content of one block that hexafs_object_write_data writes to a new object. -/
theorem objectWriteData_faulty {block : UInt32} {obj : HexafsObject} {data : List UInt8}
    (sim : Simulates dev disk) (hint : mem.allocator.HintOk) (inStore : InStore block)
    (used : mem.allocator.Used block) (kept : disk.stale block = false)
    (stored : disk.sectors block = toBlock 512 obj) (magic : objMagicOk obj = true)
    (empty : obj.slots = [0, 0, 0, 0]) (one : contentBlockCount (UInt32.ofNat data.length) = 1) :
    (hexafsObjectWriteData block data).wp (cachedDevice env) mem dev fun ok mem' dev' =>
      (ok = false → mem.allocator.freeCount = 0 ∨ ¬env.WritesOk ∨ ¬∀ n, env.readOk n = true) ∧
      (ok = true → ∃ content a' disk', Grown mem.allocator a' [content] ∧
        mem' = { mem with allocator := a' } ∧ Simulates dev' disk' ∧
        Wrote env (fun b => b = block ∨ b = content) disk disk' ∧
        disk'.stale block = false ∧ disk'.stale content = false ∧
        disk'.sectors block = toBlock 512 (obj.withContent [content, 0, 0, 0] data) ∧
        disk'.sectors content = padBlock 512 data) := by
  simp only [hexafsObjectWriteData, Code.wp_bind]
  refine wp_blockRead sim inStore.valid kept (fun fails dev₁ _ => ?_) fun dev₁ sim₁ => ?_
  · rw [Code.wp_pure]
    exact ⟨fun _ => .inr (.inr fails), fun impossible => (by cases impossible)⟩
  · simp only [stored, ofBlock_toBlock, magic, if_true, one, empty, writeContent, Code.wp_bind]
    refine allocBlock_faulty sim₁ hint (fun none => ?_) fun content a' dev₂ grown sim₂ => ?_
    · rw [if_pos rfl]
      simp only [Code.wp_pure]
      exact ⟨fun _ => .inl none, fun impossible => (by cases impossible)⟩
    · have fresh := grown.fresh content (List.mem_singleton_self content)
      have other : block ≠ content := fun same => fresh.2 (same ▸ used)
      simp only [if_neg fresh.1.ne_zero, Code.wp_bind]
      refine wp_blockWrite sim₂ fresh.1.valid fun dev₃ sim₃ => ?_
      cases first : (env.writeOutcome (disk.write env content zeroSector).writeCount).returns with
      | false =>
        have fails : ¬env.WritesOk := fun all =>
          Bool.false_ne_true (first.symm.trans (all.returns _))
        simp only [Bool.false_eq_true, if_false, Nat.lt_irrefl, false_and, Code.wp_pure]
        exact ⟨fun _ => .inr (.inl fails), fun impossible => (by cases impossible)⟩
      | true =>
        simp only [if_true, Code.wp_bind, Code.wp_pure, List.map_cons, List.map_nil,
          Option.map_some]
        refine wp_blockWrite sim₃ inStore.valid fun dev₄ sim₄ => ⟨fun second => ?_, fun second => ?_⟩
        · exact .inr (.inl fun all => Bool.false_ne_true (second.symm.trans (all.returns _)))
        have contentStored := PlainDisk.write_reaches content (padBlock 512 data)
          (WriteOutcome.reaches_of_returns first)
        have headerStored := PlainDisk.write_reaches block
          (toBlock 512 (obj.withContent [content, 0, 0, 0] data))
          (WriteOutcome.reaches_of_returns second)
        refine ⟨content, a', _, grown, rfl, sim₄, ?_, headerStored.2, ?_, headerStored.1, ?_⟩
        · exact ((PlainDisk.wrote_write.mono fun _ same => .inr same).write (.inr rfl)).write
            (.inl rfl)
        · rw [PlainDisk.write_stale_of_ne other.symm]
          exact contentStored.2
        · rw [PlainDisk.write_sectors_of_ne other.symm]
          exact contentStored.1

end Faulty

section Grants

/-- What a call of hexafs_cap_grant asked for. -/
structure GrantCall where
  /-- `grantee_pid` -/
  granteePid : UInt32
  /-- `cap_type` -/
  capType : UInt32
  /-- `expires_tick` -/
  expiresTick : UInt32
  /-- `delegatable` -/
  delegatable : UInt32

/-- An expiry tick of 0 or after the current one. -/
def Unexpired (systemTicks expiresTick : UInt32) : Prop :=
  expiresTick = 0 ∨ systemTicks < expiresTick

instance (systemTicks expiresTick : UInt32) : Decidable (Unexpired systemTicks expiresTick) :=
  inferInstanceAs (Decidable (_ ∨ _))

/-- The object of a grant and its content block are used blocks of the store, and the
last write of each is on the disk. -/
structure GrantStored (a : Allocator) (disk : PlainDisk) (block content : UInt32)
    (grant : CapGrant) : Prop where
  /-- The object block. -/
  inStore : InStore block
  /-- The content block. -/
  contentInStore : InStore content
  /-- The object block is not given away again. -/
  used : a.Used block
  /-- Neither is the content block. -/
  contentUsed : a.Used content
  /-- The header is on the disk. -/
  kept : disk.stale block = false
  /-- The content is on the disk. -/
  contentKept : disk.stale content = false
  /-- The header is an object's. -/
  magic : objMagicOk (objectAt disk.sectors block) = true
  /-- It is a capability. -/
  type : (objectAt disk.sectors block).type = hexafsCapability
  /-- It has the size of a grant. -/
  size : (objectAt disk.sectors block).contentSize = 24
  /-- It names the content block. -/
  slots : (objectAt disk.sectors block).slots = [content, 0, 0, 0]
  /-- The content is the grant. -/
  stored : disk.sectors content = padBlock 512 (toBytes grant)

/-- Writes to other blocks keep a stored grant. -/
theorem GrantStored.frame {env : Environment} {a a' : Allocator} {disk disk' : PlainDisk}
    {block content : UInt32} {grant : CapGrant} {blocks : List UInt32} {W : UInt32 → Prop}
    (stored : GrantStored a disk block content grant) (grown : Grown a a' blocks)
    (wrote : Wrote env W disk disk') (apart : ∀ b, a.Used b → ¬W b) :
    GrantStored a' disk' block content grant := by
  have header := wrote.sectors_eq (apart block stored.used)
  have body := wrote.sectors_eq (apart content stored.contentUsed)
  have object : objectAt disk'.sectors block = objectAt disk.sectors block := by
    rw [objectAt, header, objectAt]
  refine ⟨stored.inStore, stored.contentInStore, grown.used_mono stored.used,
    grown.used_mono stored.contentUsed, ?_, ?_, ?_, ?_, ?_, ?_, ?_⟩
  · rw [wrote.stale block (apart block stored.used)]
    exact stored.kept
  · rw [wrote.stale content (apart content stored.contentUsed)]
    exact stored.contentKept
  · rw [object]
    exact stored.magic
  · rw [object]
    exact stored.type
  · rw [object]
    exact stored.size
  · rw [object]
    exact stored.slots
  · rw [body]
    exact stored.stored

variable {env : Environment} {mem : Memory} {dev : Device} {disk : PlainDisk}

/-- The content of an object with one content block is read, unless a read fails. -/
theorem readContent_faulty {content : UInt32} {size : ℕ} (sim : Simulates dev disk)
    (inStore : InStore content) (kept : disk.stale content = false) (positive : size ≠ 0)
    (small : size ≤ 512) :
    (readContent [content, 0, 0, 0] size).wp (cachedDevice env) mem dev fun result mem' dev' =>
      mem' = mem ∧ Simulates dev' disk ∧
        (result.1 = false ∧ (¬∀ n, env.readOk n = true) ∨
          result = (true, (disk.sectors content).bytes.take size)) := by
  have more : ¬(size = 0 ∨ content = 0) := fun either => either.elim positive inStore.ne_zero
  rw [readContent, if_neg more, Code.wp_bind]
  refine wp_blockRead sim inStore.valid kept (fun fails dev₁ sim₁ => ?_) fun dev₁ sim₁ => ?_
  · rw [Code.wp_pure]
    exact ⟨rfl, sim₁, .inl ⟨rfl, fails⟩⟩
  · dsimp only
    rw [readContent, if_pos (.inr rfl), Nat.min_eq_left small]
    simp only [Code.wp_bind, Code.wp_pure, List.append_nil]
    exact ⟨trivial, sim₁, .inr trivial⟩

/-- A stored grant is read back, unless a read fails. -/
theorem readGrant_faulty (env : Environment) {block content : UInt32} {grant : CapGrant} (sim : Simulates dev disk)
    (stored : GrantStored mem.allocator disk block content grant) :
    (readGrant block).wp (cachedDevice env) mem dev fun result mem' dev' =>
      mem' = mem ∧ Simulates dev' disk ∧
        (result = none ∧ (¬∀ n, env.readOk n = true) ∨ result = some grant) := by
  have length : (toBytes grant).length = 24 := Packed.length_toBytes grant
  have object : ofBlock HexafsObject (disk.sectors block) = objectAt disk.sectors block := rfl
  have size : (objectAt disk.sectors block).contentSize.toNat = 24 := by
    rw [stored.size]
    rfl
  have first : (objectAt disk.sectors block).contentBlock = content :=
    (List.cons.inj stored.slots).1
  have hasContent : (objectAt disk.sectors block).contentBlock ≠ 0 ∧
      0 < (objectAt disk.sectors block).contentSize.toNat := by
    rw [first, size]
    exact ⟨stored.contentInStore.ne_zero, by decide⟩
  have bytes : (disk.sectors content).bytes.take 24 = toBytes grant := by
    rw [stored.stored, take_padBlock _ (by omega) (by omega), List.take_of_length_le (by omega)]
  have isCapability : ¬(objMagicOk (objectAt disk.sectors block) = false ∨
      (objectAt disk.sectors block).type ≠ hexafsCapability) := by
    rw [stored.magic, stored.type]
    simp
  rw [readGrant, if_neg stored.inStore.ne_zero, Code.wp_bind]
  refine wp_blockRead sim stored.inStore.valid stored.kept (fun fails dev₁ sim₁ => ?_)
    fun dev₁ sim₁ => ?_
  · rw [Code.wp_pure]
    exact ⟨rfl, sim₁, .inl ⟨rfl, fails⟩⟩
  · dsimp only
    rw [object, if_neg isCapability, Code.wp_bind, hexafsObjectReadData, Code.wp_bind]
    refine wp_blockRead sim₁ stored.inStore.valid stored.kept (fun fails dev₂ sim₂ => ?_)
      fun dev₂ sim₂ => ?_
    · simp only [Code.wp_pure]
      exact ⟨trivial, sim₂, .inl ⟨trivial, fails⟩⟩
    · dsimp only
      rw [object, if_pos stored.magic, if_pos hasContent, size, stored.slots, Code.wp_bind]
      refine Code.wp_mono (readContent_faulty sim₂ stored.contentInStore stored.contentKept
        (by decide) (by decide)) fun result mem₃ dev₃ post => ?_
      obtain ⟨same, sim₃, reply⟩ := post
      rw [Code.wp_pure]
      rcases reply with ⟨failed, fails⟩ | read
      · simp only [failed, Code.wp_pure]
        exact ⟨same, sim₃, .inl ⟨trivial, fails⟩⟩
      · have enough : ¬(objectAt disk.sectors block).contentSize.toNat < capGrantSize := by
          rw [size]
          decide
        have fits : ¬(128 < (toBytes grant).length ∨ (toBytes grant).length < capGrantSize) := by
          rw [length]
          decide
        simp only [read, bytes, if_neg enough, if_neg fits, Code.wp_pure, Packed.ofBytes_toBytes]
        exact ⟨same, sim₃, .inr trivial⟩

/-- The test of hexafs_cap_check on a grant, on a store with this root snapshot. -/
def GrantPasses (rootSnap systemTicks capType : UInt32) (grant : CapGrant) : Prop :=
  grant.capType = capType ∧ (rootSnap = 0 ∨ Unexpired systemTicks grant.expiresTick)

instance (rootSnap systemTicks capType : UInt32) (grant : CapGrant) :
    Decidable (GrantPasses rootSnap systemTicks capType grant) :=
  inferInstanceAs (Decidable (_ ∧ _))

/-- A check of a table of stored grants returns, and says whether one of those that can
be read passes its test. -/
theorem capCheckFrom_faulty (env : Environment) (systemTicks pid : UInt32) {capType : UInt32}
    (positive : capType ≠ 0)
    {blocks : CapGrants} {grants : List CapGrant} (sim : Simulates dev disk)
    (stored : List.Forall₂ (fun block grant => ∃ content,
      GrantStored mem.allocator disk block content grant) blocks grants) :
    ∃ readable,
      (readableGrants blocks).wp (cachedDevice env) mem dev
        (fun result mem' dev' => result = readable ∧ mem' = mem ∧ Simulates dev' disk) ∧
      (capCheckFrom systemTicks pid capType blocks).wp (cachedDevice env) mem dev
        (fun result mem' dev' =>
          (result = true ↔ ∃ grant ∈ readable,
            GrantPasses mem.sbCache.rootSnapBlock systemTicks capType grant) ∧
          mem' = mem ∧ Simulates dev' disk) ∧
      readable.Sublist grants ∧ ((∀ n, env.readOk n = true) → readable = grants) := by
  induction stored generalizing dev with
  | nil =>
    refine ⟨[], ?_, ?_, List.Sublist.refl _, fun _ => rfl⟩
    · rw [readableGrants, Code.wp_pure]
      exact ⟨rfl, rfl, sim⟩
    · rw [capCheckFrom, Code.wp_pure]
      exact ⟨by simp, rfl, sim⟩
  | @cons block grant blocks grants here _ ih =>
    obtain ⟨content, storedHere⟩ := here
    obtain ⟨result, mem', dev₁, run, same, sim₁, reply⟩ :=
      readGrant_faulty env sim storedHere
    subst same
    obtain ⟨readable, reads, check, sub, all⟩ := ih sim₁
    have passOn : ∀ {more : Bool}, (more = true ↔ ∃ grant ∈ readable,
        GrantPasses mem'.sbCache.rootSnapBlock systemTicks capType grant) →
        ¬GrantPasses mem'.sbCache.rootSnapBlock systemTicks capType grant →
        (more = true ↔ ∃ other ∈ grant :: readable,
          GrantPasses mem'.sbCache.rootSnapBlock systemTicks capType other) := by
      intro more found fails
      rw [found]
      simp [fails]
    rcases reply with ⟨lost, fails⟩ | read
    · subst lost
      refine ⟨readable, ?_, ?_, sub.cons grant, fun ok => absurd ok fails⟩
      · rw [readableGrants, Code.wp_bind]
        refine ⟨none, mem', dev₁, run, (Code.wp_bind _ _ _).mpr ?_⟩
        refine Code.wp_mono reads fun rest mem₂ dev₂ post => ?_
        rw [Code.wp_pure]
        exact post
      · rw [capCheckFrom, Code.wp_bind]
        exact ⟨none, mem', dev₁, run, check⟩
    · subst read
      refine ⟨grant :: readable, ?_, ?_, sub.cons_cons grant, fun ok => by rw [all ok]⟩
      · rw [readableGrants, Code.wp_bind]
        refine ⟨some grant, mem', dev₁, run, (Code.wp_bind _ _ _).mpr ?_⟩
        refine Code.wp_mono reads fun rest mem₂ dev₂ post => ?_
        rw [Code.wp_pure]
        exact ⟨by rw [post.1]; rfl, post.2⟩
      · rw [capCheckFrom, Code.wp_bind]
        refine ⟨some grant, mem', dev₁, run, ?_⟩
        dsimp only
        by_cases type : grant.capType = capType
        · simp only [type, true_or, if_true, hexafsSnapForPid, Code.wp_bind, Code.wp_memory,
            Code.wp_pure]
          by_cases root : mem'.sbCache.rootSnapBlock = 0
          · rw [if_pos root, Code.wp_pure]
            exact ⟨⟨fun _ => ⟨grant, by simp, type, .inl root⟩, fun _ => rfl⟩, rfl, sim₁⟩
          · rw [if_neg root]
            by_cases unexpired : grant.expiresTick = 0 ∨ systemTicks < grant.expiresTick
            · rw [if_pos unexpired, Code.wp_pure]
              exact ⟨⟨fun _ => ⟨grant, by simp, type, .inr unexpired⟩, fun _ => rfl⟩, rfl, sim₁⟩
            · rw [if_neg unexpired]
              refine Code.wp_mono check fun more _ _ post => ⟨passOn post.1 ?_, post.2⟩
              exact fun passes => passes.2.elim root unexpired
        · rw [if_neg (fun either => either.elim type positive)]
          exact Code.wp_mono check fun more _ _ post =>
            ⟨passOn post.1 fun passes => type passes.1, post.2⟩

/-- The record that a call stores on a store with this root snapshot. -/
def GrantCall.record (call : GrantCall) (rootSnap : UInt32) : CapGrant :=
  newGrant call.capType rootSnap rootSnap call.expiresTick call.delegatable

/-- What a call of hexafs_cap_grant that returned a block did. -/
structure GrantMade (env : Environment) (mem : Memory) (disk : PlainDisk) (call : GrantCall)
    (block : UInt32) (mem' : Memory) (disk' : PlainDisk) : Prop where
  /-- Only the allocator changed in memory. -/
  memory : mem' = { mem with allocator := mem'.allocator }
  /-- Two blocks were taken. -/
  grown : ∃ blocks, Grown mem.allocator mem'.allocator blocks
  /-- Only blocks that were free are written. -/
  wrote : Wrote env (fun b => ¬mem.allocator.Used b) disk disk'
  /-- The grant is stored. -/
  stored : ∃ content, GrantStored mem'.allocator disk' block content
    (call.record mem.sbCache.rootSnapBlock)

/-- hexafs_cap_grant stores the grant when it returns a block, and it does when a
transaction is active, the table and the store have room and no transfer fails. -/
theorem capGrant_faulty (env : Environment) (grants : CapGrants) (sim : Simulates dev disk)
    (hint : mem.allocator.HintOk) (call : GrantCall) :
    (hexafsCapGrant grants call.granteePid call.capType call.expiresTick call.delegatable).wp
      (cachedDevice env) mem dev fun result mem' dev' =>
        (∀ block, result.1 = some block → result.2 = grants ++ [block] ∧
          ∃ disk', Simulates dev' disk' ∧ GrantMade env mem disk call block mem' disk') ∧
        (mem.currentTx.active = true → grants.length < capGrantMax →
          2 ≤ mem.allocator.freeCount → env.WritesOk → (∀ n, env.readOk n = true) →
          ∃ block, result.1 = some block) := by
  rw [hexafsCapGrant]
  by_cases room : capGrantMax ≤ grants.length
  · rw [if_pos room, Code.wp_pure]
    exact ⟨fun _ impossible => (by cases impossible), fun _ less => absurd room (by omega)⟩
  rw [if_neg room]
  simp only [Code.wp_bind, Code.wp_memory]
  cases active : mem.currentTx.active with
  | false =>
    rw [if_neg Bool.false_ne_true, Code.wp_pure]
    exact ⟨fun _ impossible => (by cases impossible), fun impossible => (by cases impossible)⟩
  | true =>
    rw [if_pos rfl]
    simp only [Code.wp_bind]
    refine Code.wp_mono (objectAlloc_faulty sim hint hexafsCapability)
      fun block mem₁ dev₁ post => ?_
    by_cases zero : block = 0
    · rw [if_pos zero, Code.wp_pure]
      refine ⟨fun _ impossible => (by cases impossible), fun _ _ enough writes _ => ?_⟩
      rcases post.1 zero with none | fails
      · omega
      · exact absurd writes fails
    obtain ⟨a₁, disk₁, grown, rfl, sim₁, wrote, kept, stored⟩ := post.2 zero
    have fresh := grown.fresh block (List.mem_singleton_self block)
    have used := grown.used_of_mem (List.mem_singleton_self block)
    have length : (toBytes (call.record mem.sbCache.rootSnapBlock)).length = 24 :=
      Packed.length_toBytes _
    have one : contentBlockCount (UInt32.ofNat
        (toBytes (call.record mem.sbCache.rootSnapBlock)).length) = 1 := by
      rw [length]
      decide
    rw [if_neg zero]
    simp only [Code.wp_bind, Code.wp_memory, hexafsSnapForPid, Code.wp_pure]
    refine Code.wp_mono (objectWriteData_faulty sim₁ grown.hint fresh.1 used kept stored
      (newObject_ok _ _).magic rfl one) fun ok mem₂ dev₂ post₂ => ?_
    have left := grown.freeCount_add
    cases ok with
    | false =>
      rw [if_neg Bool.false_ne_true]
      have failing : 2 ≤ mem.allocator.freeCount → env.WritesOk →
          (∀ n, env.readOk n = true) → False := by
        intro enough writes reads
        rcases post₂.1 rfl with none | fails | fails
        · have empty : a₁.freeCount = 0 := none
          simp only [List.length_singleton] at left
          omega
        · exact fails writes
        · exact fails reads
      simp only [hexafsFreeBlock]
      split
      · simp only [Code.wp_bind, Code.wp_pure]
        exact ⟨fun _ impossible => (by cases impossible),
          fun _ _ enough writes reads => (failing enough writes reads).elim⟩
      · simp only [Code.wp_bind, modifyAllocator, Code.wp_modify, Code.wp_pure]
        exact ⟨fun _ impossible => (by cases impossible),
          fun _ _ enough writes reads => (failing enough writes reads).elim⟩
    | true =>
      obtain ⟨content, a₂, disk₂, grown₂, rfl, sim₂, wrote₂, kept₂, keptContent, header, body⟩ :=
        post₂.2 rfl
      have freshContent := grown₂.fresh content (List.mem_singleton_self content)
      have object : objectAt disk₂.sectors block =
          (newObject hexafsCapability mem.sbCache.timestamp).withContent [content, 0, 0, 0]
            (toBytes (call.record mem.sbCache.rootSnapBlock)) := by
        rw [objectAt, header, ofBlock_toBlock]
        rfl
      rw [if_pos rfl, Code.wp_pure]
      refine ⟨fun other same => ?_, fun _ _ _ _ _ => ⟨block, rfl⟩⟩
      obtain rfl := Option.some.inj same
      refine ⟨rfl, disk₂, sim₂, rfl, ⟨_, grown.trans grown₂⟩, ?_, content, ?_⟩
      · refine (wrote.mono fun b same => ?_).trans (wrote₂.mono fun b same => ?_)
        · rw [same]
          exact fresh.2
        · rcases same with same | same
          · rw [same]
            exact fresh.2
          · rw [same]
            exact fun before => freshContent.2 (grown.used_mono before)
      · refine ⟨fresh.1, freshContent.1, grown₂.used_mono used,
          grown₂.used_of_mem (List.mem_singleton_self content), kept₂, keptContent, ?_, ?_, ?_, ?_,
          body⟩
        · rw [object]
          exact (newObject_ok hexafsCapability mem.sbCache.timestamp).magic
        · rw [object]
          rfl
        · rw [object]
          exact (congrArg UInt32.ofNat length)
        · rw [object]
          rfl

end Grants

section Runs

variable {env : Environment} {machine machine' : Machine}

/-- Successful calls of hexafs_cap_grant, one after the other, from a store whose cache
agrees with its disk and whose table of grants is empty. -/
inductive CapRun (env : Environment) : Machine → CapGrants → List GrantCall → Prop
  /-- No grant was made since boot. -/
  | start {machine : Machine} {disk : PlainDisk} (sim : Simulates machine.dev disk)
      (hint : machine.mem.allocator.HintOk) : CapRun env machine [] []
  /-- One more grant, by a call that returned a block. -/
  | grant {machine after : Machine} {grants grants' : CapGrants} {calls : List GrantCall}
      {block : UInt32} (call : GrantCall) (before : CapRun env machine grants calls)
      (granted : machine.run env (hexafsCapGrant grants call.granteePid call.capType
        call.expiresTick call.delegatable) = .ok ((some block, grants'), after)) :
      CapRun env after grants' (calls ++ [call])

/-- The grants of a run are all stored. -/
theorem CapRun.stored {grants : CapGrants} {calls : List GrantCall}
    (run : CapRun env machine grants calls) :
    ∃ disk, Simulates machine.dev disk ∧ machine.mem.allocator.HintOk ∧
      List.Forall₂ (fun block grant => ∃ content,
        GrantStored machine.mem.allocator disk block content grant) grants
        (calls.map fun call => call.record machine.mem.sbCache.rootSnapBlock) := by
  induction run with
  | start sim hint => exact ⟨_, sim, hint, List.Forall₂.nil⟩
  | @grant machine after grants grants' calls block call before granted ih =>
    obtain ⟨disk, sim, hint, stored⟩ := ih
    have post := Machine.faulty_elim (capGrant_faulty env grants sim hint call) granted
    obtain ⟨table, disk', sim', made⟩ := post.1 block rfl
    obtain ⟨blocks, grown⟩ := made.grown
    have root : after.mem.sbCache.rootSnapBlock = machine.mem.sbCache.rootSnapBlock := by
      rw [made.memory]
    refine ⟨disk', sim', grown.hint, ?_⟩
    dsimp only at table
    rw [table, root, List.map_append, List.map_singleton]
    refine List.rel_append (stored.imp fun other grant kept => ?_)
      (List.Forall₂.cons made.stored List.Forall₂.nil)
    obtain ⟨content, there⟩ := kept
    exact ⟨content, there.frame grown made.wrote fun b used unused => unused used⟩

/-- Some grant of the type to this pid is unexpired. -/
def CapHeld (calls : List GrantCall) (systemTicks pid capType : UInt32) : Prop :=
  ∃ call ∈ calls, call.granteePid = pid ∧ call.capType = capType ∧
    Unexpired systemTicks call.expiresTick

/-- After any successful grants, hexafs_cap_check agrees with them exactly when a grant
to the pid is held and some grant of the type to anyone, among those that can be read,
passes, or neither is so. A grant passes when it is unexpired or there is no root
snapshot; when no read fails, all grants can be read. -/
theorem hexafsCapCheck_exact_iff {grants : CapGrants} {calls : List GrantCall}
    (run : CapRun env machine grants calls) {pid capType : UInt32} (systemTicks : UInt32)
    (realPid : pid ≠ 0) (realType : capType ≠ 0) :
    ∃ readable result after after',
      machine.run env (readableGrants grants) = .ok (readable, after) ∧
      machine.run env (hexafsCapCheck grants systemTicks pid capType) = .ok (result, after') ∧
      ((∀ n, env.readOk n = true) →
        readable = calls.map fun call => call.record machine.mem.sbCache.rootSnapBlock) ∧
      ((result = true ↔ CapHeld calls systemTicks pid capType) ↔
        (CapHeld calls systemTicks pid capType ∧ ∃ grant ∈ readable,
          GrantPasses machine.mem.sbCache.rootSnapBlock systemTicks capType grant) ∨
        (¬CapHeld calls systemTicks pid capType ∧ ∀ grant ∈ readable,
          ¬GrantPasses machine.mem.sbCache.rootSnapBlock systemTicks capType grant)) := by
  obtain ⟨disk, sim, -, stored⟩ := run.stored
  obtain ⟨readable, reads, check, -, all⟩ :=
    capCheckFrom_faulty env systemTicks pid realType sim stored
  obtain ⟨readable', after, readRun, same, -⟩ := Machine.run_of_faulty reads
  obtain ⟨result, after', checkRun, answer, -⟩ := Machine.run_of_faulty check
  subst same
  refine ⟨readable', result, after, after', readRun, ?_, all, ?_⟩
  · rw [hexafsCapCheck, if_neg realPid]
    exact checkRun
  · rw [answer]
    have none : (∀ grant ∈ readable',
        ¬GrantPasses machine.mem.sbCache.rootSnapBlock systemTicks capType grant) ↔
        ¬∃ grant ∈ readable',
          GrantPasses machine.mem.sbCache.rootSnapBlock systemTicks capType grant := by
      simp
    rw [none]
    generalize (∃ grant ∈ readable',
      GrantPasses machine.mem.sbCache.rootSnapBlock systemTicks capType grant) = passes
    generalize CapHeld calls systemTicks pid capType = held
    tauto

/-- hexafs_tx_begin without a transaction changes the transaction record only. -/
theorem hexafsTxBegin_faulty (env : Environment) {mem : Memory} {dev : Device} (idle : mem.currentTx.active = false) :
    hexafsTxBegin.wp (cachedDevice env) mem dev fun ok mem' dev' => ok = true ∧ dev' = dev ∧
      mem'.currentTx.active = true ∧ mem'.allocator = mem.allocator ∧
      mem'.sbCache = mem.sbCache := by
  simp only [hexafsTxBegin, Code.wp_bind, Code.wp_memory]
  rw [if_neg (by rw [idle]; exact Bool.false_ne_true)]
  simp only [Code.wp_bind, Code.wp_modify, Code.wp_pure]
  exact ⟨trivial, trivial, trivial, trivial, trivial⟩

/-- On a freshly formatted store with a transaction begun, a grant succeeds. -/
theorem exists_granted (call : GrantCall) : ∃ machine grants,
    machine.mem.sbCache.rootSnapBlock ≠ 0 ∧ CapRun .faultless machine grants [call] := by
  obtain ⟨formatted, roles, -, fresh⟩ := exists_fresh
  obtain ⟨_, begun, -, -, dev, active, allocator, sbCache⟩ := Machine.run_of_faulty
    (hexafsTxBegin_faulty .faultless fresh.settled.mounted.store.active_eq)
  have sim : Simulates begun.dev formatted.dev.plain := by
    rw [dev]
    exact fresh.settled.mounted.coherent.simulates
  have hint : begun.mem.allocator.HintOk := by
    rw [allocator]
    exact fresh.settled.mounted.store.hint
  have start : CapRun .faultless begun [] [] := .start sim hint
  obtain ⟨⟨_, grants⟩, after, run, made, returns⟩ := Machine.run_of_faulty
    (capGrant_faulty .faultless [] sim hint call)
  obtain ⟨block, returned⟩ := returns active (by decide) (by rw [allocator, fresh.free]; decide)
    Environment.faultless_ioOk.writes Environment.faultless_ioOk.reads
  obtain ⟨-, disk', -, stored⟩ := made block returned
  dsimp only at returned
  subst returned
  refine ⟨after, grants, ?_, CapRun.grant call start run⟩
  rw [stored.memory, sbCache]
  exact fresh.root

/-- After a grant to pid 5, hexafs_cap_check answers 1 for pid 6. -/
theorem hexafsCapCheck_otherPid : ∃ machine grants, CapRun .faultless machine grants [⟨5, 2, 0, 1⟩] ∧
    ∃ result after, machine.run .faultless (hexafsCapCheck grants 100 6 2) = .ok (result, after) ∧
      ¬(result = true ↔ CapHeld [⟨5, 2, 0, 1⟩] 100 6 2) := by
  obtain ⟨machine, grants, -, run⟩ := exists_granted ⟨5, 2, 0, 1⟩
  obtain ⟨disk, sim, -, stored⟩ := run.stored
  obtain ⟨readable, -, check, -, all⟩ := capCheckFrom_faulty .faultless 100 6
    (show (2 : UInt32) ≠ 0 by decide) sim stored
  obtain ⟨result, after, checked, answer, -⟩ := Machine.run_of_faulty check
  refine ⟨machine, grants, run, result, after, ?_, ?_⟩
  · rw [hexafsCapCheck, if_neg (by decide)]
    exact checked
  · rw [answer, all Environment.faultless_ioOk.reads]
    intro agrees
    have passes : ∃ grant ∈ [(⟨5, 2, 0, 1⟩ : GrantCall)].map
        (fun call => call.record machine.mem.sbCache.rootSnapBlock),
        GrantPasses machine.mem.sbCache.rootSnapBlock 100 2 grant :=
      ⟨_, List.mem_singleton.mpr rfl, rfl, .inr (.inl rfl)⟩
    obtain ⟨call, member, pid, -⟩ := agrees.mp passes
    rw [List.mem_singleton.mp member] at pid
    cases pid

/-- The check agrees with a grant that is held by the pid it asks for. -/
theorem hexafsCapCheck_exact_iff_held : ∃ machine grants,
    CapRun .faultless machine grants [⟨5, 2, 0, 1⟩] ∧
    ∃ result after, machine.run .faultless (hexafsCapCheck grants 100 5 2) = .ok (result, after) ∧
      (result = true ↔ CapHeld [⟨5, 2, 0, 1⟩] 100 5 2) := by
  obtain ⟨machine, grants, -, run⟩ := exists_granted ⟨5, 2, 0, 1⟩
  obtain ⟨readable, result, after, after', -, checked, all, exact⟩ :=
    hexafsCapCheck_exact_iff run 100 (show (5 : UInt32) ≠ 0 by decide)
      (show (2 : UInt32) ≠ 0 by decide)
  refine ⟨machine, grants, run, result, after', checked, exact.mpr (.inl ⟨?_, ?_⟩)⟩
  · exact ⟨_, List.mem_singleton.mpr rfl, rfl, rfl, .inl rfl⟩
  · rw [all Environment.faultless_ioOk.reads]
    exact ⟨_, List.mem_singleton.mpr rfl, rfl, .inr (.inl rfl)⟩

end Runs

end HexaOS.Hexafs
