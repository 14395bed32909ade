import HexaOS.ChainWalks
import HexaOS.HexafsCachedCalls

/-!
# Walks over any disk

The abstractions are read along the addresses in their padding, the snapshots along their
parents. Nothing checks these addresses and counts, so the disk decides whether a walk ends and
which entries it indexes. A walk is described by what one block tells it: to end, to index an
entry behind the last one, or to follow an address.
-/

namespace HexaOS.Hexafs

open DevicePrograms PackedBytes StoreTyping ChainWalks

/-- The loop of hexafs_snap_find. An empty name matches no snapshot. -/
def snapFindLoop (name : CString) : ℕ → UInt32 → HexafsM UInt32
  | 0, _ => Code.halt .hang
  | fuel + 1, snapBlock => do
    if snapBlock = 0 then pure 0
    else
      match ← hexafsBlockRead snapBlock with
      | none => pure 0
      | some buf =>
        let snap := ofBlock HexafsSnap buf
        if snap.magic ≠ hexafsSnapMagic then pure 0
        else if name.chars ≠ [] ∧ nameMatches snap.name name = true then pure snapBlock
        else snapFindLoop name fuel snap.parentSnapBlock

/-- hexafs_snap_find -/
def hexafsSnapFind (name : CString) : HexafsM UInt32 := do
  let mem ← Code.memory
  snapFindLoop name chainFuel mem.sbCache.rootSnapBlock

/-- What one block tells a walk. -/
inductive LinkStep where
  /-- The walk ends here. -/
  | ends
  /-- The walk indexes an entry behind the last one. -/
  | overruns
  /-- The walk goes on at this address. -/
  | follows (block : UInt32)

/-- The step of hexafs_snap_find. -/
def snapStep (name : CString) (buf : Sector) : LinkStep :=
  let snap := ofBlock HexafsSnap buf
  if snap.magic ≠ hexafsSnapMagic then .ends
  else if name.chars ≠ [] ∧ nameMatches snap.name name = true then .ends
  else .follows snap.parentSnapBlock

/-- The step of hexafs_abstraction_find: the entries that the header counts are compared with
the name, up to the first match. -/
def findStep (name : CString) (buf : Sector) : LinkStep :=
  let hdr := ofBlock HexafsAbsHeader buf
  if hdr.magic ≠ hexafsAbstractMagic then .ends
  else if (hdr.entries.toList.take hdr.countInt).any (fun e => nameMatches e.name name) then .ends
  else if hexafsAbsMaxEntries < hdr.countInt then .overruns
  else .follows hdr.nextChain

/-- The step of hexafs_abstraction_list: all entries that the header counts are visited. -/
def listStep (buf : Sector) : LinkStep :=
  let hdr := ofBlock HexafsAbsHeader buf
  if hdr.magic ≠ hexafsAbstractMagic then .ends
  else if hexafsAbsMaxEntries < hdr.countInt then .overruns
  else .follows hdr.nextChain

/-- The step of hexafs_abstraction_remove_entry: an entry that is found is closed up by all
entries behind it that the header counts. -/
def removeStep (name : CString) (buf : Sector) : LinkStep :=
  let hdr := ofBlock HexafsAbsHeader buf
  if absChecksum hdr ≠ hdr.checksum then .ends
  else if hdr.magic ≠ hexafsAbstractMagic then .ends
  else if hexafsAbsMaxEntries < hdr.countInt then .overruns
  else if (hdr.entries.toList.take hdr.countInt).any (fun e => nameMatches e.name name) then .ends
  else .follows hdr.nextChain

/-- The step of hexafs_abstraction_add_entry: the walk is for a header that counts fewer than
eleven entries, or for the last one. -/
def addStep (buf : Sector) : LinkStep :=
  let hdr := ofBlock HexafsAbsHeader buf
  if absChecksum hdr ≠ hdr.checksum then .ends
  else if hdr.magic ≠ hexafsAbstractMagic then .ends
  else if hdr.entryCount.toNat < hexafsAbsMaxEntries then .ends
  else if hdr.nextChain = 0 then .ends
  else .follows hdr.nextChain

/-- The sector that the driver reads for a block. -/
def sectorFor (sectors : UInt32 → Sector) (block : UInt32) : Sector := sectors (ataAddress block)

/-- The next block of a walk over these sectors. Block 0 ends it. -/
def nextBlock (sectors : UInt32 → Sector) (step : Sector → LinkStep) (block : UInt32) :
    Option UInt32 :=
  if block = 0 then none
  else
    match step (sectorFor sectors block) with
    | .follows next => some next
    | _ => none

/-- A walk from a block meets no block that leads back to itself, and no block whose header
makes it index an entry behind the last one. -/
structure WalkSafe (sectors : UInt32 → Sector) (step : Sector → LinkStep) (block : UInt32) :
    Prop where
  /-- No block that is met leads back to itself. -/
  acyclic : ∀ other, Meets (nextBlock sectors step) block other →
    ¬LeadsBack (nextBlock sectors step) other
  /-- No block that is met counts too many entries. -/
  inBounds : ∀ other, Meets (nextBlock sectors step) block other → other ≠ 0 →
    step (sectorFor sectors other) ≠ .overruns

/-- The slots of the cache hold the bytes of their sectors. -/
def Device.Faithful (dev : Device) : Prop :=
  ∀ slot ∈ dev.blockCache, slot.lba ≠ 0 → slot.data = sectorFor dev.disk.sectors slot.lba

/-- The code terminates and leaves no array that it indexes. -/
def Terminates {α : Type} (env : Environment) (mem : Memory) (dev : Device) (code : HexafsM α) :
    Prop :=
  ∃ result, code.exec (cachedDevice env) mem dev = .ok result

section Requests

variable {env : Environment} {mem : Memory} {dev : Device} {α : Type} {code : HexafsM α}

/-- A read on a device that agrees with its disk answers the sector or nothing, and nothing only
where the drive fails. The device goes on to agree with the same disk. -/
theorem Device.Faithful.read (h : dev.Faithful) (env : Environment) {block : UInt32}
    (hblock : block ≠ 0) :
    (((cacheRead env block dev).1 = none ∧ ¬∀ n, env.readOk n = true) ∨
      (cacheRead env block dev).1 = some (sectorFor dev.disk.sectors block)) ∧
      (cacheRead env block dev).2.Faithful ∧
        (cacheRead env block dev).2.disk.sectors = dev.disk.sectors := by
  have hdisk := (cacheRead_disk env block dev).1
  cases hfind : cacheFind block dev.blockCache with
  | some idx =>
    have ⟨slot, hslot, hlba, hread⟩ := cacheRead_found env hfind
    have hdata : slot.data = sectorFor dev.disk.sectors slot.lba := h slot hslot (hlba ▸ hblock)
    rw [hread]
    exact ⟨.inr (by rw [hdata, hlba]), h, rfl⟩
  | none =>
    cases hok : env.readOk dev.disk.readCount with
    | true =>
      rw [cacheRead_missed hfind hok]
      refine ⟨.inr rfl, fun slot hslot hlba => ?_, rfl⟩
      rcases List.mem_or_eq_of_mem_set hslot with hold | hnew
      · exact h slot hold hlba
      · rw [hnew]
        rfl
    | false =>
      rw [cacheRead_failed hfind hok]
      refine ⟨.inl ⟨rfl, fun hall => ?_⟩, h, rfl⟩
      rw [hall] at hok
      exact nomatch hok

/-- A read, and what is done with the answer. -/
theorem terminates_read {block : UInt32} {rest : Option Sector → HexafsM α} :
    Terminates env mem dev (hexafsBlockRead block >>= rest) ↔
      Terminates env mem (cacheRead env block dev).2 (rest (cacheRead env block dev).1) := by
  rw [Terminates, Terminates, Code.exec_bind]
  exact Iff.rfl

/-- A write, and what is done with the answer. -/
theorem terminates_write {block : UInt32} {buf : Sector} {rest : Bool → HexafsM α} :
    Terminates env mem dev (hexafsBlockWrite block buf >>= rest) ↔
      Terminates env mem (cacheWrite env block buf dev).2
        (rest (cacheWrite env block buf dev).1) := by
  rw [Terminates, Terminates, Code.exec_bind]
  exact Iff.rfl

theorem terminates_pure (value : α) : Terminates env mem dev (pure value) := ⟨_, rfl⟩

theorem terminates_request (op : BlockOp) :
    Terminates env mem dev (Code.request op : HexafsM (BlockReply op)) := by
  cases op <;> exact ⟨_, rfl⟩

theorem not_terminates_halt (stop : Stop) :
    ¬Terminates env mem dev (Code.halt stop : HexafsM α) := by
  rintro ⟨result, hrun⟩
  exact nomatch hrun

/-- A sequence terminates when its first part does and its second part always does. -/
theorem Terminates.bind {β : Type} {rest : α → HexafsM β} (h : Terminates env mem dev code)
    (hrest : ∀ value mem' dev', Terminates env mem' dev' (rest value)) :
    Terminates env mem dev (code >>= rest) := by
  obtain ⟨result, hrun⟩ := h
  obtain ⟨last, hlast⟩ := hrest result.1.1 result.1.2 result.2
  refine ⟨last, ?_⟩
  rw [Code.exec_bind, hrun]
  exact hlast

/-- The first part of a sequence that terminates does. -/
theorem Terminates.of_bind {β : Type} {rest : α → HexafsM β}
    (h : Terminates env mem dev (code >>= rest)) : Terminates env mem dev code := by
  obtain ⟨last, hlast⟩ := h
  rw [Code.exec_bind] at hlast
  cases hrun : code.exec (cachedDevice env) mem dev with
  | error stop =>
    rw [hrun] at hlast
    exact nomatch hlast
  | ok result => exact ⟨result, hrun⟩

end Requests

section Walkers

/-- What follows a step. -/
def LinkStep.Allows (goesOn : UInt32 → Prop) : LinkStep → Prop
  | .ends => True
  | .overruns => False
  | .follows next => goesOn next

/-- A loop that walks by a step: with no fuel it does not end, at block 0 it ends, and at any
other block it does what the step says, or ends early when a read fails. -/
structure Walker {α : Type} (loop : ℕ → UInt32 → HexafsM α) (step : Sector → LinkStep) : Prop where
  /-- Without fuel it does not terminate. -/
  spent : ∀ env mem dev block, ¬Terminates env mem dev (loop 0 block)
  /-- At block 0 it terminates. -/
  stops : ∀ env mem dev fuel, Terminates env mem dev (loop (fuel + 1) 0)
  /-- It terminates when it does from the next block. -/
  goes : ∀ env mem dev fuel block, dev.Faithful → block ≠ 0 →
    (step (sectorFor dev.disk.sectors block)).Allows (fun next =>
      ∀ dev', dev'.Faithful → dev'.disk.sectors = dev.disk.sectors →
        Terminates env mem dev' (loop fuel next) ∧ Terminates env mem dev' (loop fuel 0)) →
    Terminates env mem dev (loop (fuel + 1) block)
  /-- When all reads succeed, it terminates only then. -/
  needs : ∀ env mem dev fuel block, (∀ n, env.readOk n = true) → dev.Faithful → block ≠ 0 →
    Terminates env mem dev (loop (fuel + 1) block) →
    (step (sectorFor dev.disk.sectors block)).Allows fun next =>
      ∃ dev', dev'.Faithful ∧ dev'.disk.sectors = dev.disk.sectors ∧
        Terminates env mem dev' (loop fuel next)

variable {α : Type} {loop : ℕ → UInt32 → HexafsM α} {step : Sector → LinkStep}
  {env : Environment} {mem : Memory} {dev : Device} {block : UInt32} {fuel : ℕ}

/-- The next block of a walk, by the step. -/
theorem nextBlock_eq_some_iff {sectors : UInt32 → Sector} {next : UInt32} (hblock : block ≠ 0) :
    nextBlock sectors step block = some next ↔
      step (sectorFor sectors block) = .follows next := by
  rw [nextBlock, if_neg hblock]
  cases step (sectorFor sectors block) with
  | ends => exact ⟨nofun, nofun⟩
  | overruns => exact ⟨nofun, nofun⟩
  | follows other =>
    rw [Option.some.injEq, LinkStep.follows.injEq]

/-- A walk that ends in time and stays in bounds terminates, whatever reads fail. -/
theorem Walker.terminates (h : Walker loop step) (hdev : dev.Faithful)
    (hends : follow (nextBlock dev.disk.sectors step) fuel block = none)
    (hbounds : ∀ other, Meets (nextBlock dev.disk.sectors step) block other → other ≠ 0 →
      step (sectorFor dev.disk.sectors other) ≠ .overruns) :
    Terminates env mem dev (loop fuel block) := by
  induction fuel generalizing block dev with
  | zero => exact nomatch hends
  | succ fuel ih =>
    by_cases hblock : block = 0
    · rw [hblock]
      exact h.stops env mem dev fuel
    · refine h.goes env mem dev fuel block hdev hblock ?_
      cases hstep : step (sectorFor dev.disk.sectors block) with
      | ends => exact trivial
      | overruns => exact absurd hstep (hbounds block (meets_self _ _) hblock)
      | follows next =>
        intro dev' hdev' hsectors
        have hnext := (nextBlock_eq_some_iff hblock).mpr hstep
        rw [follow, hnext] at hends
        have hrest : follow (nextBlock dev.disk.sectors step) fuel next = none := hends
        constructor
        · refine ih hdev' ?_ ?_
          · rw [hsectors]
            exact hrest
          · rw [hsectors]
            exact fun other hmeets => hbounds other (hmeets.step hnext)
        · cases fuel with
          | zero => exact nomatch hrest
          | succ fuel => exact h.stops env mem dev' fuel

/-- A walk that terminates when no read fails ends in time and stays in bounds. -/
theorem Walker.safe (h : Walker loop step) (hreads : ∀ n, env.readOk n = true)
    (hdev : dev.Faithful) (hrun : Terminates env mem dev (loop fuel block)) :
    follow (nextBlock dev.disk.sectors step) fuel block = none ∧
      ∀ other, Meets (nextBlock dev.disk.sectors step) block other → other ≠ 0 →
        step (sectorFor dev.disk.sectors other) ≠ .overruns := by
  induction fuel generalizing block dev with
  | zero => exact absurd hrun (h.spent env mem dev block)
  | succ fuel ih =>
    by_cases hblock : block = 0
    · have hnone : nextBlock dev.disk.sectors step block = none := if_pos hblock
      refine ⟨follow_succ_of_none hnone fuel, fun other hmeets hother => ?_⟩
      exact absurd ((hmeets.eq_of_none hnone).trans hblock) hother
    · have hneeds := h.needs env mem dev fuel block hreads hdev hblock hrun
      cases hstep : step (sectorFor dev.disk.sectors block) with
      | ends =>
        have hnone : nextBlock dev.disk.sectors step block = none := by
          rw [nextBlock, if_neg hblock, hstep]
        refine ⟨follow_succ_of_none hnone fuel, fun other hmeets _ => ?_⟩
        rw [hmeets.eq_of_none hnone, hstep]
        exact (by rintro ⟨⟩)
      | overruns =>
        rw [hstep] at hneeds
        exact hneeds.elim
      | follows next =>
        rw [hstep] at hneeds
        obtain ⟨dev', hdev', hsectors, hrun'⟩ := hneeds
        have hnext := (nextBlock_eq_some_iff hblock).mpr hstep
        obtain ⟨hends, hbounds⟩ := ih hdev' hrun'
        rw [hsectors] at hends hbounds
        constructor
        · rw [follow, hnext]
          exact hends
        · intro other hmeets hother
          rcases hmeets.eq_or_step with heq | ⟨middle, hmiddle, hrest⟩
          · rw [heq, hstep]
            exact (by rintro ⟨⟩)
          · rw [← Option.some.inj (hnext.symm.trans hmiddle)] at hrest
            exact hbounds other hrest hother

/-- With one more step than there are addresses, a walk terminates whatever reads fail exactly
if it meets no block that leads back to itself and stays in bounds. -/
theorem Walker.terminates_iff (h : Walker loop step) (hdev : dev.Faithful) :
    (∀ env, Terminates env mem dev (loop chainFuel block)) ↔
      WalkSafe dev.disk.sectors step block := by
  have hfuel : 2 ^ 32 ≤ chainFuel := Nat.le_succ _
  have hends : follow (nextBlock dev.disk.sectors step) chainFuel block = none ↔
      ∀ other, Meets (nextBlock dev.disk.sectors step) block other →
        ¬LeadsBack (nextBlock dev.disk.sectors step) other :=
    follow_eq_none_iff (fun a b => UInt32.toNat_inj.mp) UInt32.toNat_lt hfuel
  constructor
  · intro hall
    obtain ⟨hnone, hbounds⟩ := h.safe Environment.faultless_ioOk.reads hdev (hall .faultless)
    exact ⟨hends.mp hnone, hbounds⟩
  · intro hsafe env
    exact h.terminates hdev (hends.mpr hsafe.acyclic) hsafe.inBounds

end Walkers

section Scans

variable {wanted : HexafsAbsEntry → Bool} {count : ℕ} {entries : List HexafsAbsEntry}

/-- A scan that finds an entry among those it may index. -/
theorem scanEntries_found (h : (entries.take count).any wanted = true) :
    ∃ entry, scanEntries wanted count entries = .ok (some entry) := by
  induction count generalizing entries with
  | zero => exact nomatch h
  | succ count ih =>
    cases entries with
    | nil => exact nomatch h
    | cons entry rest =>
      rw [scanEntries]
      by_cases hwanted : wanted entry = true
      · exact ⟨entry, if_pos hwanted⟩
      · rw [if_neg hwanted]
        rw [List.take_succ_cons, List.any_cons, Bool.or_eq_true, or_iff_right hwanted] at h
        exact ih h

/-- A scan that finds none runs into the end of the array when it counts more entries. -/
theorem scanEntries_missed (h : (entries.take count).any wanted = false) :
    scanEntries wanted count entries =
      if entries.length < count then .error .fault else .ok none := by
  induction count generalizing entries with
  | zero =>
    rw [if_neg (Nat.not_lt_zero _)]
    cases entries <;> rfl
  | succ count ih =>
    cases entries with
    | nil => rfl
    | cons entry rest =>
      rw [List.take_succ_cons, List.any_cons, Bool.or_eq_false_iff] at h
      rw [scanEntries, h.1, if_neg Bool.false_ne_true, ih h.2, List.length_cons]
      exact if_congr Nat.succ_lt_succ_iff.symm rfl rfl

theorem scanPosition_found (h : (entries.take count).any wanted = true) :
    ∃ i, scanPosition wanted count entries = .ok (some i) := by
  induction count generalizing entries with
  | zero => exact nomatch h
  | succ count ih =>
    cases entries with
    | nil => exact nomatch h
    | cons entry rest =>
      rw [scanPosition]
      by_cases hwanted : wanted entry = true
      · exact ⟨0, if_pos hwanted⟩
      · rw [if_neg hwanted]
        rw [List.take_succ_cons, List.any_cons, Bool.or_eq_true, or_iff_right hwanted] at h
        obtain ⟨i, hi⟩ := ih h
        exact ⟨i + 1, by rw [hi]; rfl⟩

theorem scanPosition_missed (h : (entries.take count).any wanted = false) :
    scanPosition wanted count entries =
      if entries.length < count then .error .fault else .ok none := by
  induction count generalizing entries with
  | zero =>
    rw [if_neg (Nat.not_lt_zero _)]
    cases entries <;> rfl
  | succ count ih =>
    cases entries with
    | nil => rfl
    | cons entry rest =>
      rw [List.take_succ_cons, List.any_cons, Bool.or_eq_false_iff] at h
      rw [scanPosition, h.1, if_neg Bool.false_ne_true, ih h.2, List.length_cons,
        if_congr (@Nat.succ_lt_succ_iff rest.length count) rfl rfl]
      split <;> rfl

/-- A visit of more entries than there are runs into the end of the array. -/
theorem takeEntries_value : takeEntries count entries =
    if entries.length < count then .error .fault else .ok (entries.take count) := by
  induction count generalizing entries with
  | zero =>
    rw [if_neg (Nat.not_lt_zero _)]
    cases entries <;> rfl
  | succ count ih =>
    cases entries with
    | nil => rfl
    | cons entry rest =>
      rw [takeEntries, ih, List.length_cons,
        if_congr (@Nat.succ_lt_succ_iff rest.length count) rfl rfl]
      split <;> rfl

end Scans

section Loops

variable {env : Environment} {mem : Memory} {dev : Device} {block : UInt32} {α : Type}

/-- A loop goes on behind a read as it does on the sector, and may end when the read fails. -/
theorem Device.Faithful.goes_read (hdev : dev.Faithful) (hblock : block ≠ 0)
    {rest : Option Sector → HexafsM α}
    (hfails : ∀ dev', Terminates env mem dev' (rest none))
    (hreads : ∀ dev', dev'.Faithful → dev'.disk.sectors = dev.disk.sectors →
      Terminates env mem dev' (rest (some (sectorFor dev.disk.sectors block)))) :
    Terminates env mem dev (hexafsBlockRead block >>= rest) := by
  obtain ⟨hreply, hdev', hsectors⟩ := hdev.read env hblock
  rw [terminates_read]
  rcases hreply with ⟨hnone, -⟩ | hsome
  · rw [hnone]
    exact hfails _
  · rw [hsome]
    exact hreads _ hdev' hsectors

/-- Behind a read that cannot fail stands the sector. -/
theorem Device.Faithful.needs_read (hdev : dev.Faithful) (hblock : block ≠ 0)
    (hreads : ∀ n, env.readOk n = true) {rest : Option Sector → HexafsM α}
    (h : Terminates env mem dev (hexafsBlockRead block >>= rest)) :
    ∃ dev', dev'.Faithful ∧ dev'.disk.sectors = dev.disk.sectors ∧
      Terminates env mem dev' (rest (some (sectorFor dev.disk.sectors block))) := by
  obtain ⟨hreply, hdev', hsectors⟩ := hdev.read env hblock
  rw [terminates_read] at h
  rcases hreply with ⟨-, hnot⟩ | hsome
  · exact absurd hreads hnot
  · rw [hsome] at h
    exact ⟨_, hdev', hsectors, h⟩

/-- The loops go on at the address in the padding, or end when its second read fails. -/
theorem Device.Faithful.goes_nextChain (hdev : dev.Faithful) (hblock : block ≠ 0)
    {rest : UInt32 → HexafsM α}
    (hgoes : ∀ dev', dev'.Faithful → dev'.disk.sectors = dev.disk.sectors →
      Terminates env mem dev'
          (rest (ofBlock HexafsAbsHeader (sectorFor dev.disk.sectors block)).nextChain) ∧
        Terminates env mem dev' (rest 0)) :
    Terminates env mem dev (hexafsAbstractionNextChain block >>= rest) := by
  obtain ⟨hreply, hdev', hsectors⟩ := hdev.read env hblock
  obtain ⟨hchain, hzero⟩ := hgoes _ hdev' hsectors
  rw [hexafsAbstractionNextChain, bind_assoc, terminates_read]
  rcases hreply with ⟨hnone, -⟩ | hsome
  · rw [hnone]
    exact hzero
  · rw [hsome]
    exact hchain

theorem Device.Faithful.needs_nextChain (hdev : dev.Faithful) (hblock : block ≠ 0)
    (hreads : ∀ n, env.readOk n = true) {rest : UInt32 → HexafsM α}
    (h : Terminates env mem dev (hexafsAbstractionNextChain block >>= rest)) :
    ∃ dev', dev'.Faithful ∧ dev'.disk.sectors = dev.disk.sectors ∧ Terminates env mem dev'
      (rest (ofBlock HexafsAbsHeader (sectorFor dev.disk.sectors block)).nextChain) := by
  rw [hexafsAbstractionNextChain, bind_assoc] at h
  exact hdev.needs_read hblock hreads h

/-- hexafs_snap_find walks by its step. -/
theorem snapFindLoop_walker (name : CString) : Walker (snapFindLoop name) (snapStep name) where
  spent env mem dev block := not_terminates_halt _
  stops env mem dev fuel := by
    rw [snapFindLoop, if_pos rfl]
    exact terminates_pure 0
  goes env mem dev fuel block hdev hblock hstep := by
    rw [snapFindLoop, if_neg hblock]
    refine hdev.goes_read hblock (fun dev' => terminates_pure 0) fun dev' hdev' hsectors => ?_
    rw [snapStep] at hstep
    dsimp only at hstep ⊢
    split
    · exact terminates_pure 0
    · rename_i hmagic
      rw [if_neg hmagic] at hstep
      split
      · exact terminates_pure _
      · rename_i hmatch
        rw [if_neg hmatch] at hstep
        exact (hstep dev' hdev' hsectors).1
  needs env mem dev fuel block hreads hdev hblock hrun := by
    rw [snapFindLoop, if_neg hblock] at hrun
    obtain ⟨dev', hdev', hsectors, hrun'⟩ := hdev.needs_read hblock hreads hrun
    rw [snapStep]
    dsimp only at hrun' ⊢
    split
    · exact trivial
    · rename_i hmagic
      rw [if_neg hmagic] at hrun'
      split
      · exact trivial
      · rename_i hmatch
        rw [if_neg hmatch] at hrun'
        exact ⟨dev', hdev', hsectors, hrun'⟩

/-- hexafs_abstraction_find walks by its step. -/
theorem findLoop_walker (name : CString) : Walker (findLoop name) (findStep name) where
  spent env mem dev block := not_terminates_halt _
  stops env mem dev fuel := by
    rw [findLoop, if_pos rfl]
    exact terminates_pure none
  goes env mem dev fuel block hdev hblock hstep := by
    rw [findLoop, if_neg hblock]
    refine hdev.goes_read hblock (fun dev' => terminates_pure none) fun dev' hdev' hsectors => ?_
    rw [findStep] at hstep
    dsimp only at hstep ⊢
    split
    · exact terminates_pure none
    · rename_i hmagic
      rw [if_neg hmagic] at hstep
      split at hstep
      · rename_i hany
        obtain ⟨entry, hfound⟩ := scanEntries_found hany
        rw [hfound]
        exact terminates_pure (some entry)
      · rename_i hany
        rw [scanEntries_missed (Bool.eq_false_of_not_eq_true hany), Vector.length_toList]
        split at hstep
        · exact hstep.elim
        · rename_i hcount
          rw [if_neg hcount]
          refine hdev'.goes_nextChain hblock fun dev'' hdev'' hsectors' => ?_
          rw [hsectors]
          exact hstep dev'' hdev'' (hsectors'.trans hsectors)
  needs env mem dev fuel block hreads hdev hblock hrun := by
    rw [findLoop, if_neg hblock] at hrun
    obtain ⟨dev', hdev', hsectors, hrun'⟩ := hdev.needs_read hblock hreads hrun
    rw [findStep]
    dsimp only at hrun' ⊢
    split
    · exact trivial
    · rename_i hmagic
      rw [if_neg hmagic] at hrun'
      split
      · exact trivial
      · rename_i hany
        rw [scanEntries_missed (Bool.eq_false_of_not_eq_true hany), Vector.length_toList] at hrun'
        split
        · rename_i hcount
          rw [if_pos hcount] at hrun'
          exact not_terminates_halt _ hrun'.of_bind
        · rename_i hcount
          rw [if_neg hcount] at hrun'
          obtain ⟨dev'', hdev'', hsectors', hrun''⟩ := hdev'.needs_nextChain hblock hreads hrun'
          rw [hsectors] at hsectors' hrun''
          exact ⟨dev'', hdev'', hsectors', hrun''⟩

/-- hexafs_abstraction_list walks by its step. -/
theorem listLoop_walker : Walker listLoop listStep where
  spent env mem dev block := not_terminates_halt _
  stops env mem dev fuel := by
    rw [listLoop, if_pos rfl]
    exact terminates_pure []
  goes env mem dev fuel block hdev hblock hstep := by
    rw [listLoop, if_neg hblock]
    refine hdev.goes_read hblock (fun dev' => terminates_pure []) fun dev' hdev' hsectors => ?_
    rw [listStep] at hstep
    dsimp only at hstep ⊢
    split
    · exact terminates_pure []
    · rename_i hmagic
      rw [if_neg hmagic] at hstep
      rw [takeEntries_value, Vector.length_toList]
      split at hstep
      · exact hstep.elim
      · rename_i hcount
        rw [if_neg hcount, liftStop, pure_bind]
        refine hdev'.goes_nextChain hblock fun dev'' hdev'' hsectors' => ?_
        rw [hsectors]
        obtain ⟨hnext, hzero⟩ := hstep dev'' hdev'' (hsectors'.trans hsectors)
        exact ⟨hnext.bind fun _ _ _ => terminates_pure _, hzero.bind fun _ _ _ => terminates_pure _⟩
  needs env mem dev fuel block hreads hdev hblock hrun := by
    rw [listLoop, if_neg hblock] at hrun
    obtain ⟨dev', hdev', hsectors, hrun'⟩ := hdev.needs_read hblock hreads hrun
    rw [listStep]
    dsimp only at hrun' ⊢
    split
    · exact trivial
    · rename_i hmagic
      rw [if_neg hmagic, takeEntries_value, Vector.length_toList] at hrun'
      split
      · rename_i hcount
        rw [if_pos hcount] at hrun'
        exact not_terminates_halt _ hrun'.of_bind
      · rename_i hcount
        rw [if_neg hcount, liftStop, pure_bind] at hrun'
        obtain ⟨dev'', hdev'', hsectors', hrun''⟩ := hdev'.needs_nextChain hblock hreads hrun'
        rw [hsectors] at hsectors' hrun''
        exact ⟨dev'', hdev'', hsectors', hrun''.of_bind⟩

-- the linter would compute the checksum
set_option linter.constructorNameAsVariable false in
/-- hexafs_abstraction_remove_entry walks by its step. -/
theorem removeLoop_walker (name : CString) : Walker (removeLoop name) (removeStep name) where
  spent env mem dev block := not_terminates_halt _
  stops env mem dev fuel := by
    rw [removeLoop, if_pos rfl]
    exact terminates_pure false
  goes env mem dev fuel block hdev hblock hstep := by
    rw [removeLoop, if_neg hblock]
    refine hdev.goes_read hblock (fun dev' => terminates_pure false) fun dev' hdev' hsectors => ?_
    rw [removeStep] at hstep
    dsimp only at hstep ⊢
    generalize hheader : ofBlock HexafsAbsHeader (sectorFor dev.disk.sectors block) = hdr at hstep ⊢
    split
    · exact terminates_pure false
    · rename_i hsum
      rw [if_neg hsum] at hstep
      split
      · exact terminates_pure false
      · rename_i hmagic
        rw [if_neg hmagic] at hstep
        split at hstep
        · exact hstep.elim
        · rename_i hcount
          split at hstep
          · rename_i hany
            obtain ⟨i, hfound⟩ := scanPosition_found hany
            rw [hfound, liftStop, pure_bind]
            dsimp only
            rw [if_neg hcount]
            exact terminates_request _
          · rename_i hany
            rw [scanPosition_missed (Bool.eq_false_of_not_eq_true hany), Vector.length_toList,
              if_neg hcount]
            refine hdev'.goes_nextChain hblock fun dev'' hdev'' hsectors' => ?_
            rw [hsectors, hheader]
            exact hstep dev'' hdev'' (hsectors'.trans hsectors)
  needs env mem dev fuel block hreads hdev hblock hrun := by
    rw [removeLoop, if_neg hblock] at hrun
    generalize hstep : removeStep name (sectorFor dev.disk.sectors block) = step
    obtain ⟨dev', hdev', hsectors, hrun'⟩ := hdev.needs_read hblock hreads hrun
    rw [← hstep, removeStep]
    dsimp only at hrun' ⊢
    generalize hheader : ofBlock HexafsAbsHeader (sectorFor dev.disk.sectors block) = hdr at hrun' ⊢
    split
    · exact trivial
    · rename_i hsum
      rw [if_neg hsum] at hrun'
      split
      · exact trivial
      · rename_i hmagic
        rw [if_neg hmagic] at hrun'
        split
        · rename_i hcount
          by_cases hany : (hdr.entries.toList.take hdr.countInt).any
              (fun e => nameMatches e.name name) = true
          · obtain ⟨i, hfound⟩ := scanPosition_found hany
            rw [hfound, liftStop, pure_bind] at hrun'
            dsimp only at hrun'
            rw [if_pos hcount] at hrun'
            exact not_terminates_halt _ hrun'
          · rw [scanPosition_missed (Bool.eq_false_of_not_eq_true hany), Vector.length_toList,
              if_pos hcount] at hrun'
            exact not_terminates_halt _ hrun'.of_bind
        · rename_i hcount
          split
          · exact trivial
          · rename_i hany
            rw [scanPosition_missed (Bool.eq_false_of_not_eq_true hany), Vector.length_toList,
              if_neg hcount] at hrun'
            obtain ⟨dev'', hdev'', hsectors', hrun''⟩ := hdev'.needs_nextChain hblock hreads hrun'
            rw [hsectors] at hsectors' hrun''
            rw [hheader] at hrun''
            exact ⟨dev'', hdev'', hsectors', hrun''⟩

-- the linter would compute the checksum
set_option linter.constructorNameAsVariable false in
/-- The loop of hexafs_abstraction_add_entry walks by its step. -/
theorem addEntryLoop_walker (name : CString) (objBlock : UInt32) (type : UInt8) :
    Walker (addEntryLoop name objBlock type) addStep where
  spent env mem dev block := not_terminates_halt _
  stops env mem dev fuel := by
    rw [addEntryLoop, if_pos rfl]
    exact terminates_pure _
  goes env mem dev fuel block hdev hblock hstep := by
    rw [addEntryLoop, if_neg hblock]
    refine hdev.goes_read hblock (fun dev' => terminates_pure _) fun dev' hdev' hsectors => ?_
    rw [addStep] at hstep
    dsimp only at hstep ⊢
    generalize hheader : ofBlock HexafsAbsHeader (sectorFor dev.disk.sectors block) = hdr at hstep ⊢
    split
    · exact terminates_pure _
    · rename_i hsum
      rw [if_neg hsum] at hstep
      split
      · exact terminates_pure _
      · rename_i hmagic
        rw [if_neg hmagic] at hstep
        split
        · exact terminates_write.mpr (terminates_pure _)
        · rename_i hcount
          rw [if_neg hcount] at hstep
          refine hdev'.goes_nextChain hblock fun dev'' hdev'' hsectors' => ?_
          rw [hsectors, hheader]
          refine ⟨?_, terminates_pure _⟩
          split
          · exact terminates_pure _
          · rename_i hnext
            rw [if_neg hnext] at hstep
            exact (hstep dev'' hdev'' (hsectors'.trans hsectors)).1
  needs env mem dev fuel block hreads hdev hblock hrun := by
    rw [addEntryLoop, if_neg hblock] at hrun
    generalize hstep : addStep (sectorFor dev.disk.sectors block) = step
    obtain ⟨dev', hdev', hsectors, hrun'⟩ := hdev.needs_read hblock hreads hrun
    rw [← hstep, addStep]
    dsimp only at hrun' ⊢
    generalize hheader : ofBlock HexafsAbsHeader (sectorFor dev.disk.sectors block) = hdr at hrun' ⊢
    split
    · exact trivial
    · rename_i hsum
      rw [if_neg hsum] at hrun'
      split
      · exact trivial
      · rename_i hmagic
        rw [if_neg hmagic] at hrun'
        split
        · exact trivial
        · rename_i hcount
          rw [dif_neg hcount] at hrun'
          obtain ⟨dev'', hdev'', hsectors', hrun''⟩ := hdev'.needs_nextChain hblock hreads hrun'
          rw [hsectors] at hsectors' hrun''
          rw [hheader] at hrun''
          split
          · exact trivial
          · rename_i hnext
            rw [if_neg hnext] at hrun''
            exact ⟨dev'', hdev'', hsectors', hrun''⟩

/-- hexafs_alloc_block always returns. -/
theorem terminates_allocBlock : Terminates env mem dev hexafsAllocBlock := by
  rw [hexafsAllocBlock]
  refine Terminates.bind ⟨_, rfl⟩ fun found mem' dev' => ?_
  cases Allocator.choose found.allocator with
  | none => exact ⟨_, rfl⟩
  | some i => exact ⟨_, rfl⟩

/-- hexafs_free_block always returns. -/
theorem terminates_freeBlock (lba : UInt32) : Terminates env mem dev (hexafsFreeBlock lba) := by
  rw [hexafsFreeBlock]
  split
  · exact terminates_pure ()
  · exact ⟨_, rfl⟩

/-- hexafs_abstraction_create always returns. -/
theorem terminates_abstractionCreate : Terminates env mem dev hexafsAbstractionCreate := by
  rw [hexafsAbstractionCreate]
  refine terminates_allocBlock.bind fun newBlock mem' dev' => ?_
  split
  · exact terminates_pure 0
  · refine Terminates.bind (terminates_request _) fun ok mem₁ dev₁ => ?_
    split
    · exact terminates_pure newBlock
    · exact (terminates_freeBlock newBlock).bind fun _ _ _ => terminates_pure 0

/-- hexafs_abstraction_set_chain always returns. -/
theorem terminates_setChain (cur newBlock : UInt32) :
    Terminates env mem dev (hexafsAbstractionSetChain cur newBlock) := by
  rw [hexafsAbstractionSetChain]
  refine Terminates.bind (terminates_request _) fun reply mem' dev' => ?_
  cases reply with
  | none => exact terminates_pure ()
  | some buf => exact Terminates.bind (terminates_request _) fun _ _ _ => terminates_pure ()

/-- Behind its loop, hexafs_abstraction_add_entry always returns. -/
theorem terminates_addEntry_iff {absBlock objBlock : UInt32} {name : CString} {type : UInt8} :
    Terminates env mem dev (hexafsAbstractionAddEntry absBlock name objBlock type) ↔
      Terminates env mem dev (addEntryLoop name objBlock type chainFuel absBlock) := by
  constructor
  · exact fun h => h.of_bind
  · intro h
    refine h.bind fun walk mem' dev' => ?_
    cases walk with
    | returned value => exact terminates_pure value
    | fellOut cur =>
      refine terminates_abstractionCreate.bind fun newBlock mem₁ dev₁ => ?_
      split
      · exact terminates_pure false
      · refine (terminates_setChain cur newBlock).bind fun _ mem₂ dev₂ => ?_
        refine Terminates.bind (terminates_request _) fun reply mem₃ dev₃ => ?_
        cases reply with
        | none => exact terminates_pure false
        | some buf => exact terminates_request _

end Loops

section Walks

variable {mem : Memory} {dev : Device}

/-- On any content of the disk, from any block and for any name: the walks terminate and index
only the entries of a block, whatever reads fail, exactly if they are safe on these sectors. -/
theorem chainWalks_terminate_iff (mem : Memory) (dev : Device) (hdev : dev.Faithful)
    (block objBlock : UInt32) (name : CString) (type : UInt8) :
    ((∀ env, Terminates env mem dev (hexafsAbstractionFind block name)) ↔
      WalkSafe dev.disk.sectors (findStep name) block) ∧
    ((∀ env, Terminates env mem dev (hexafsAbstractionList block)) ↔
      WalkSafe dev.disk.sectors listStep block) ∧
    ((∀ env, Terminates env mem dev (hexafsAbstractionAddEntry block name objBlock type)) ↔
      WalkSafe dev.disk.sectors addStep block) ∧
    ((∀ env, Terminates env mem dev (hexafsAbstractionRemoveEntry block name)) ↔
      WalkSafe dev.disk.sectors (removeStep name) block) ∧
    ((∀ env, Terminates env mem dev (hexafsSnapFind name)) ↔
      WalkSafe dev.disk.sectors (snapStep name) mem.sbCache.rootSnapBlock) := by
  refine ⟨?_, ?_, ?_, ?_, ?_⟩
  · exact (findLoop_walker name).terminates_iff hdev
  · exact listLoop_walker.terminates_iff hdev
  · have hwalk : (∀ env, Terminates env mem dev (addEntryLoop name objBlock type chainFuel block)) ↔
        WalkSafe dev.disk.sectors addStep block :=
      (addEntryLoop_walker name objBlock type).terminates_iff hdev
    rw [← hwalk]
    exact forall_congr' fun env => terminates_addEntry_iff
  · exact (removeLoop_walker name).terminates_iff hdev
  · exact (snapFindLoop_walker name).terminates_iff hdev

/-- A device that was switched on agrees with its disk. -/
theorem faithful_boot (sectors : UInt32 → Sector) : (Machine.boot sectors).dev.Faithful := by
  intro slot hslot hlba
  exact absurd (congrArg CacheSlot.lba (List.eq_of_mem_replicate hslot)) hlba

/-- Block 0 is safe to start from. -/
theorem walkSafe_zero (sectors : UInt32 → Sector) (step : Sector → LinkStep) :
    WalkSafe sectors step 0 := by
  have hnone : nextBlock sectors step 0 = none := by rw [nextBlock, if_pos rfl]
  constructor
  · rintro other hmeets ⟨k, hpos, hback⟩
    rw [hmeets.eq_of_none hnone] at hback
    obtain ⟨k, rfl⟩ := Nat.exists_eq_succ_of_ne_zero (Nat.ne_of_gt hpos)
    cases (follow_succ_of_none hnone k).symm.trans hback
  · intro other hmeets hne
    exact absurd (hmeets.eq_of_none hnone) hne

/-- A block is safe to start from when the next one is and does not lead to it. -/
theorem WalkSafe.cons {sectors : UInt32 → Sector} {step : Sector → LinkStep}
    {block next : UInt32} (h : WalkSafe sectors step next)
    (hnext : nextBlock sectors step block = some next)
    (hfresh : ¬Meets (nextBlock sectors step) next block) : WalkSafe sectors step block := by
  constructor
  · intro other hmeets hback
    rcases hmeets.eq_or_step with rfl | ⟨middle, hmiddle, hrest⟩
    · obtain ⟨k, hpos, hfollow⟩ := hback
      obtain ⟨k, rfl⟩ := Nat.exists_eq_succ_of_ne_zero (Nat.ne_of_gt hpos)
      rw [follow, hnext] at hfollow
      exact hfresh ⟨k, hfollow⟩
    · rw [Option.some.inj (hmiddle.symm.trans hnext)] at hrest
      exact h.acyclic other hrest hback
  · intro other hmeets hne hstep
    rcases hmeets.eq_or_step with rfl | ⟨middle, hmiddle, hrest⟩
    · rw [nextBlock, if_neg hne, hstep] at hnext
      cases hnext
    · rw [Option.some.inj (hmiddle.symm.trans hnext)] at hrest
      exact h.inBounds other hrest hne hstep

/-- A name of one character. -/
def oneLetter : CString := ⟨[97], by decide⟩

/-- An abstraction whose padding names block 109. -/
def selfLinked : Sector := toBlock 512 (newAbstraction.withChain 109)

/-- An abstraction that counts twelve entries. -/
def overcounted : Sector := toBlock 512 { newAbstraction with entryCount := 12 }

/-- hexafs_abstraction_find does not terminate on a block whose padding names the block itself,
and hexafs_abstraction_list visits a twelfth entry where the header counts twelve. -/
theorem chainWalks_unsafe :
    (¬∀ env, Terminates env Memory.boot (Machine.boot fun _ => selfLinked).dev
      (hexafsAbstractionFind 109 oneLetter)) ∧
    ¬∀ env, Terminates env Memory.boot (Machine.boot fun _ => overcounted).dev
      (hexafsAbstractionList 109) := by
  constructor
  · intro hall
    have hsafe := ((findLoop_walker oneLetter).terminates_iff (faithful_boot _)).mp hall
    have hnext : nextBlock (fun _ => selfLinked) (findStep oneLetter) 109 = some 109 := by
      decide +kernel
    refine hsafe.acyclic 109 (meets_self _ _) ⟨1, Nat.one_pos, ?_⟩
    show follow (nextBlock (fun _ => selfLinked) (findStep oneLetter)) 1 109 = some 109
    rw [follow, hnext]
    rfl
  · intro hall
    have hsafe := (listLoop_walker.terminates_iff (faithful_boot _)).mp hall
    have hstep : listStep overcounted = .overruns := by
      rw [listStep, overcounted, ofBlock_toBlock]
      rfl
    exact hsafe.inBounds 109 (meets_self _ _) (by decide) hstep

/-- A disk with an abstraction at block 109 that goes on at block 110. -/
def linkedDisk : UInt32 → Sector := fun block =>
  toBlock 512 (if block = 109 then newAbstraction.withChain 110 else newAbstraction)

theorem nextBlock_linkedDisk {block : UInt32} (hzero : block ≠ 0)
    (haddress : ataAddress block = block) :
    nextBlock linkedDisk listStep block = some (if block = 109 then 110 else 0) := by
  have hstep : listStep (sectorFor linkedDisk block) =
      .follows (if block = 109 then 110 else 0) := by
    rw [sectorFor, haddress, listStep, linkedDisk, ofBlock_toBlock]
    split <;> rfl
  rw [nextBlock, if_neg hzero, hstep]

/-- The list walk follows the link of its first block and ends behind the second one. -/
theorem chainWalks_terminate_iff_linked : Terminates .faultless Memory.boot
    (Machine.boot linkedDisk).dev (hexafsAbstractionList 109) := by
  have hfirst : nextBlock linkedDisk listStep 109 = some 110 :=
    nextBlock_linkedDisk (by decide) (by decide)
  have hsecond : nextBlock linkedDisk listStep 110 = some 0 :=
    nextBlock_linkedDisk (by decide) (by decide)
  have hnone : nextBlock linkedDisk listStep 0 = none := by rw [nextBlock, if_pos rfl]
  have hlater : WalkSafe linkedDisk listStep 110 :=
    (walkSafe_zero _ _).cons hsecond fun hmeets => absurd (hmeets.eq_of_none hnone) (by decide)
  have hsafe : WalkSafe linkedDisk listStep 109 := by
    refine hlater.cons hfirst fun hmeets => ?_
    rcases hmeets.eq_or_step with heq | ⟨middle, hmiddle, hrest⟩
    · exact absurd heq (by decide)
    · rw [Option.some.inj (hmiddle.symm.trans hsecond)] at hrest
      exact absurd (hrest.eq_of_none hnone) (by decide)
  exact (chainWalks_terminate_iff Memory.boot (Machine.boot linkedDisk).dev
    (faithful_boot linkedDisk) 109 0 oneLetter 0).2.1.mpr hsafe .faultless

end Walks

end HexaOS.Hexafs
