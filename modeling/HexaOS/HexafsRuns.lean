import HexaOS.HexafsMachine

/-!
# Runs of a mounted machine

The remaining operations, boot_policy_execute and hexafs_mount, as steps of a
machine, and the runs that the operations of the store make up. One step keeps a
settled machine settled as long as no sector transfer fails and no allocation
runs out of blocks; so does every run.
-/

namespace HexaOS.Hexafs

open DevicePrograms PackedBytes StoreTyping

variable {env : Environment} {mem : Memory} {d : PlainDisk} {roles : UInt32 → Option Role}
  {machine machine' : Machine}

section BootPolicy

/-- The statics after boot_policy_init was called when it had to be. -/
def Memory.policied (mem : Memory) : Memory :=
  if mem.policyLoaded then mem else { mem with policyLoaded := true, policyStageCount := 4 }

/-- Every stage of the policy succeeds. -/
theorem runStages_spec {left i : ℕ} (h : i + left ≤ mem.policyStageCount)
    {post : Bool → Memory → PlainDisk → Prop} (hpost : post true mem d) :
    (runStages left i).wp (plainDevice env) mem d post := by
  induction left generalizing i with
  | zero =>
    rw [runStages, Code.wp_pure]
    exact hpost
  | succ left ih =>
    have hlt : i < mem.policyStageCount := by omega
    simp only [runStages, bootPolicyRunStage, Code.wp_bind, Code.wp_memory, Code.wp_pure,
      decide_eq_true hlt, if_true]
    exact ih (by omega)

theorem StoreAt.policied {active : Bool} (h : StoreAt active mem d roles) :
    StoreAt active mem.policied d roles := by
  rw [Memory.policied]
  split
  · exact h
  · exact ⟨h.heap, h.hint, h.root, h.mounted, h.active_eq, h.stale, h.clean⟩

@[simp] theorem Memory.policied_allocator (mem : Memory) : mem.policied.allocator = mem.allocator := by
  rw [policied]
  split <;> rfl

@[simp] theorem Memory.policied_sbCache (mem : Memory) : mem.policied.sbCache = mem.sbCache := by
  rw [policied]
  split <;> rfl

/-- boot_policy_execute behind the loading of the policy. -/
def runPolicy : HexafsM Bool := do
  let _ ← hexafsTxBegin
  let mem ← Code.memory
  let ok ← runStages mem.policyStageCount 0
  if ok then
    modifyTx fun tx => { tx with dirty := true }
    let _ ← hexafsSnapCreate bootOkName
    let _ ← hexafsTxCommit
    pure true
  else
    let _ ← hexafsTxAbort
    pure false

theorem bootPolicyExecute_eq : bootPolicyExecute = (do
    let mem ← Code.memory
    if mem.policyLoaded then runPolicy else bootPolicyInit >>= fun _ => runPolicy) := rfl

/-- boot_policy_execute up to its commit. Its snapshot names no abstraction. -/
theorem bootPolicyExecute_toCommit (hidle : mem.currentTx.active = false)
    {post : Bool → Memory → PlainDisk → Prop}
    (hcommit : (commitRoot 0 bootOkName).wp (plainDevice env) mem.policied.begun d
      fun _ => post true) :
    bootPolicyExecute.wp (plainDevice env) mem d post := by
  have hrun : ∀ {start : Memory}, start.currentTx.active = false →
      (commitRoot 0 bootOkName).wp (plainDevice env) start.begun d (fun _ => post true) →
      runPolicy.wp (plainDevice env) start d post := by
    intro start hstart hcommit
    simp only [commitRoot, Code.wp_bind, wp_modifyTx, Code.wp_pure] at hcommit
    rw [runPolicy, Code.wp_bind]
    refine hexafsTxBegin_spec hstart ?_
    simp only [Code.wp_bind, Code.wp_memory]
    refine runStages_spec (by omega) ?_
    rw [if_pos rfl]
    simp only [Code.wp_bind, wp_modifyTx, Code.wp_pure]
    exact hcommit
  rw [Memory.policied] at hcommit
  rw [bootPolicyExecute_eq, Code.wp_bind, Code.wp_memory]
  cases hloaded : mem.policyLoaded with
  | true =>
    rw [hloaded, if_pos rfl] at hcommit
    rw [if_pos rfl]
    exact hrun hidle hcommit
  | false =>
    rw [hloaded, if_neg Bool.false_ne_true] at hcommit
    rw [if_neg Bool.false_ne_true, Code.wp_bind, bootPolicyInit, Code.wp_modify]
    exact hrun hidle hcommit

/-- boot_policy_execute on a store, when every write succeeds. -/
theorem bootPolicyExecute_spec (hok : env.WritesOk) (h : Store mem d roles)
    {post : Bool → Memory → PlainDisk → Prop}
    (hpost : ∀ mem' d' roles', Extends roles roles' → Store mem' d' roles' →
      Committed mem' d'.sectors → RootCommitted env mem.policied.begun 0 bootOkName d mem' d' →
      (∀ b role, roles b = some role → d'.sectors b = d.sectors b) → post true mem' d') :
    bootPolicyExecute.wp (plainDevice env) mem d post :=
  bootPolicyExecute_toCommit h.active_eq
    (h.policied.begun.commitRoot hok (fun hne => absurd rfl hne) hpost)

end BootPolicy

section Steps

/-- hexafs_save_all returns on a mounted store. -/
theorem Machine.Mounted.saveAll_returns (h : machine.Mounted roles) (hio : env.IoOk) :
    ∃ machine', machine.run env hexafsSaveAll = .ok ((), machine') := by
  have hwp : hexafsSaveAll.wp (plainDevice env) machine.mem machine.dev.plain
      fun _ _ _ => True := hexafsSaveAll_spec hio.writes h.store fun _ _ _ => trivial
  obtain ⟨_, machine', hrun, _⟩ := Machine.run_of_wp hio.reads h.coherent hwp
  exact ⟨machine', hrun⟩

/-- hexafs_save_all as a run. -/
theorem Machine.Mounted.saveAll (h : machine.Mounted roles) (hio : env.IoOk)
    (hrun : machine.run env hexafsSaveAll = .ok ((), machine')) :
    machine'.dev.Coherent ∧
      SaveOutcome env machine.mem machine.dev.plain roles machine'.mem machine'.dev.plain := by
  have hwp : hexafsSaveAll.wp (plainDevice env) machine.mem machine.dev.plain
      fun _ mem' d' => SaveOutcome env machine.mem machine.dev.plain roles mem' d' :=
    hexafsSaveAll_spec hio.writes h.store fun _ _ hout => hout
  refine Machine.run_elim hio.reads h.coherent hwp (fun _ mem' d' hout => ?_) hrun
  cases hout with
  | refused hrefused hd =>
    rw [hd]
    exact fun _ => rfl
  | saved hsaved => exact hsaved.store.stale

/-- hexafs_users_save and pimp_save_rules as a run. -/
theorem Machine.Mounted.saveConfig (h : machine.Mounted roles) (hio : env.IoOk)
    {name snapName : CString} {data : List UInt8} (hdata : data.length ≤ 2048) {ok : Bool}
    (hrun : machine.run env (saveConfig name snapName data) = .ok (ok, machine')) :
    machine'.dev.Coherent ∧ ConfigOutcome env machine.mem machine.dev.plain roles name data ok
      machine'.mem machine'.dev.plain := by
  have hwp : (Hexafs.saveConfig name snapName data).wp (plainDevice env) machine.mem
      machine.dev.plain fun ok mem' d' =>
        ConfigOutcome env machine.mem machine.dev.plain roles name data ok mem' d' :=
    saveConfig_spec hio.writes h.store hdata fun _ _ _ hout => hout
  refine Machine.run_elim hio.reads h.coherent hwp (fun _ mem' d' hout => ?_) hrun
  obtain ⟨_, _, hstore⟩ := hout.store h.store
  exact hstore.stale

/-- What boot_policy_execute does to a store. -/
structure BootPolicyRan (env : Environment) (mem : Memory) (d : PlainDisk)
    (roles : UInt32 → Option Role) (mem' : Memory) (d' : PlainDisk)
    (roles' : UInt32 → Option Role) : Prop where
  /-- No block loses its role. -/
  extend : Extends roles roles'
  /-- The store is in order. -/
  store : Store mem' d' roles'
  /-- It is committed. -/
  committed : Committed mem' d'.sectors
  /-- The root is a snapshot without an abstraction. -/
  root : RootCommitted env mem.policied.begun 0 bootOkName d mem' d'
  /-- Blocks in use stay. -/
  same : ∀ b role, roles b = some role → d'.sectors b = d.sectors b

/-- boot_policy_execute as a run. -/
theorem Machine.Mounted.bootPolicy (h : machine.Mounted roles) (hio : env.IoOk) {ok : Bool}
    (hrun : machine.run env bootPolicyExecute = .ok (ok, machine')) :
    machine'.dev.Coherent ∧ ∃ roles', BootPolicyRan env machine.mem machine.dev.plain roles
      machine'.mem machine'.dev.plain roles' := by
  have hwp : bootPolicyExecute.wp (plainDevice env) machine.mem machine.dev.plain
      fun _ mem' d' => ∃ roles', BootPolicyRan env machine.mem machine.dev.plain roles mem' d'
        roles' :=
    bootPolicyExecute_spec hio.writes h.store fun mem' d' roles' hext hstore hcommitted hroot hsame =>
      ⟨roles', hext, hstore, hcommitted, hroot, hsame⟩
  refine Machine.run_elim hio.reads h.coherent hwp (fun _ mem' d' hout => ?_) hrun
  obtain ⟨_, hran⟩ := hout
  exact hran.store.stale

/-- hexafs_mount on a disk with a valid superblock. -/
theorem hexafsMount_valid (hvalid : superblockValid (superblockAt d.sectors) = true)
    {post : Bool → Memory → PlainDisk → Prop}
    (hpost : post true (mem.mountedOn d.sectors) d.cleared) :
    hexafsMount.wp (plainDevice env) mem d post := by
  rw [hexafsMount_eq, Code.wp_bind]
  refine hexafsMountDisk_valid hvalid ?_
  rw [if_pos rfl, Code.wp_pure]
  exact hpost

/-- hexafs_mount on a disk without a valid superblock. -/
theorem hexafsMount_invalid (hok : env.WritesOk)
    (hvalid : superblockValid (superblockAt d.sectors) = false) (hhint : mem.allocator.HintOk)
    (hidle : mem.currentTx.active = false) {post : Bool → Memory → PlainDisk → Prop}
    (hpost : ∀ mem' d', Formatted env mem d.cleared mem' d' → post true mem' d') :
    hexafsMount.wp (plainDevice env) mem d post := by
  rw [hexafsMount_eq, Code.wp_bind]
  refine hexafsMountDisk_invalid hvalid ?_
  rw [if_neg Bool.false_ne_true]
  exact formatStore_spec hok hhint hidle hpost

theorem Memory.outOfBlocks_mountedOn (mem : Memory) (sectors : UInt32 → Sector) :
    (mem.mountedOn sectors).allocator.outOfBlocks = mem.allocator.outOfBlocks := by
  rw [Memory.mountedOn, Memory.mountedAs]

/-- Mounting an image whose bitmap is its own settles the machine on it. -/
theorem Image.mount_run {a : Allocator} {sectors : UInt32 → Sector} (h : Image sectors roles a)
    (hbitmap : a.bitmap = diskBitmap sectors) (hsec : machine.sectors = sectors)
    (hhint : machine.mem.allocator.HintOk) (hidle : machine.mem.currentTx.active = false)
    (hcoh : machine.dev.Coherent) (hio : env.IoOk) {ok : Bool}
    (hrun : machine.run env hexafsMount = .ok (ok, machine')) :
    ok = true ∧ machine'.Settled roles ∧ machine'.sectors = sectors ∧
      machine'.mem.allocator.outOfBlocks = machine.mem.allocator.outOfBlocks := by
  have hplain : machine.dev.plain.sectors = sectors := hsec
  have hheap : Heap machine.dev.plain.sectors roles a := by
    rw [hplain]
    exact h.heap
  have hstore : Store (machine.mem.mountedOn machine.dev.plain.sectors) machine.dev.plain.cleared
      roles := by
    refine hheap.mountedAs hhint hidle ?_ ?_ rfl
    · rw [hplain]
      exact h.root
    · rw [hplain]
      exact hbitmap
  have hvalid : superblockValid (superblockAt machine.dev.plain.sectors) = true := by
    rw [hplain]
    exact h.valid
  have hcommitted : Committed (machine.mem.mountedOn machine.dev.plain.sectors)
      machine.dev.plain.sectors := committed_mountedAs rfl hvalid rfl
  have hwp : hexafsMount.wp (plainDevice env) machine.mem machine.dev.plain
      fun ok mem' d' => ok = true ∧ Store mem' d' roles ∧ Committed mem' d'.sectors ∧
        d'.sectors = machine.dev.plain.sectors ∧
          mem'.allocator.outOfBlocks = machine.mem.allocator.outOfBlocks :=
    hexafsMount_valid hvalid ⟨rfl, hstore, hcommitted, rfl, Memory.outOfBlocks_mountedOn _ _⟩
  obtain ⟨hcoh', hok, hstore', hcommitted', hsec', hout⟩ := Machine.run_elim hio.reads hcoh hwp
    (fun _ mem' d' hpost => hpost.2.1.stale) hrun
  exact ⟨hok, ⟨⟨hcoh', hstore'⟩, hcommitted'⟩, hsec'.trans hplain, hout⟩

/-- Mounting a disk without a valid superblock settles the machine on an empty store. -/
theorem Machine.format_run (hvalid : superblockValid (superblockAt machine.sectors) = false)
    (hhint : machine.mem.allocator.HintOk) (hidle : machine.mem.currentTx.active = false)
    (hcoh : machine.dev.Coherent) (hio : env.IoOk) {ok : Bool}
    (hrun : machine.run env hexafsMount = .ok (ok, machine')) :
    ok = true ∧ (∃ roles, machine'.Settled roles) ∧
      Formatted env machine.mem machine.dev.plain.cleared machine'.mem machine'.dev.plain := by
  have hvalid' : superblockValid (superblockAt machine.dev.plain.sectors) = false := hvalid
  have hwp : hexafsMount.wp (plainDevice env) machine.mem machine.dev.plain
      fun ok mem' d' => ok = true ∧
        Formatted env machine.mem machine.dev.plain.cleared mem' d' :=
    hexafsMount_invalid hio.writes hvalid' hhint hidle fun mem' d' hformatted => ⟨rfl, hformatted⟩
  obtain ⟨hcoh', hok, hformatted⟩ := Machine.run_elim hio.reads hcoh hwp
    (fun _ mem' d' hpost => hpost.2.store.choose_spec.stale) hrun
  obtain ⟨roles, hstore⟩ := hformatted.store
  exact ⟨hok, ⟨roles, ⟨hcoh', hstore⟩, hformatted.committed⟩, hformatted⟩

/-- The statics that the store lives in are the same. -/
structure Memory.SameStore (mem mem' : Memory) : Prop where
  /-- The allocator is the same. -/
  allocator : mem'.allocator = mem.allocator
  /-- The store is mounted as before. -/
  hexafsMounted : mem'.hexafsMounted = mem.hexafsMounted
  /-- The superblock is the same. -/
  sbCache : mem'.sbCache = mem.sbCache
  /-- The transaction is the same. -/
  currentTx : mem'.currentTx = mem.currentTx

theorem StoreAt.sameStore {active : Bool} {mem' : Memory} (h : StoreAt active mem d roles)
    (hsame : mem.SameStore mem') : StoreAt active mem' d roles := by
  obtain ⟨halloc, hmounted, hsb, htx⟩ := hsame
  constructor
  · rw [halloc]
    exact h.heap
  · rw [halloc]
    exact h.hint
  · rw [hsb]
    exact h.root
  · rw [hmounted]
    exact h.mounted
  · rw [htx]
    exact h.active_eq
  · exact h.stale
  · rw [halloc]
    exact h.clean

/-- One step of a run without failures of the drive. Between the operations of the
store the rest of the kernel may do what it likes with its tables. -/
inductive StoreStep : Machine → Machine → Prop where
  | saveAll {env : Environment} {machine machine' : Machine} (hio : env.IoOk)
    (hrun : machine.run env hexafsSaveAll = .ok ((), machine')) : StoreStep machine machine'
  | usersSave {env : Environment} {machine machine' : Machine} {data : List UInt8} {ok : Bool}
    (hio : env.IoOk) (hdata : data.length ≤ 2048)
    (hrun : machine.run env (hexafsUsersSave data) = .ok (ok, machine')) :
    StoreStep machine machine'
  | pimpSave {env : Environment} {machine machine' : Machine} {ok : Bool} (hio : env.IoOk)
    (hrules : machine.mem.pimpCount ≤ pimpRuleMax)
    (hrun : machine.run env pimpSaveRules = .ok (ok, machine')) : StoreStep machine machine'
  | bootPolicy {env : Environment} {machine machine' : Machine} {ok : Bool} (hio : env.IoOk)
    (hrun : machine.run env bootPolicyExecute = .ok (ok, machine')) : StoreStep machine machine'
  /-- hexafs_mount on the running machine. -/
  | remount {env : Environment} {machine machine' : Machine} {ok : Bool} (hio : env.IoOk)
    (hrun : machine.run env hexafsMount = .ok (ok, machine')) : StoreStep machine machine'
  /-- The machine is switched off and on. -/
  | reboot {env : Environment} {machine machine' : Machine} {ok : Bool} (hio : env.IoOk)
    (hrun : (Machine.boot machine.sectors).run env hexafsMount = .ok (ok, machine')) :
    StoreStep machine machine'
  | edit {machine : Machine} {mem' : Memory} (hsame : machine.mem.SameStore mem') :
    StoreStep machine ⟨mem', machine.dev⟩

/-- The allocator of a disk that is mounted at power-on. -/
def bootAllocator (sectors : UInt32 → Sector) : Allocator :=
  ⟨diskBitmap sectors, false, hexafsObjectLba, false⟩

/-- The first mount of a run: the disk holds no store yet, or a valid one. -/
inductive FirstMount : Machine → Prop where
  | format {env : Environment} {sectors : UInt32 → Sector} {machine : Machine} {ok : Bool}
    (hio : env.IoOk) (hvalid : superblockValid (superblockAt sectors) = false)
    (hrun : (Machine.boot sectors).run env hexafsMount = .ok (ok, machine)) : FirstMount machine
  | mount {env : Environment} {sectors : UInt32 → Sector} {machine : Machine} {ok : Bool}
    {roles : UInt32 → Option Role} (hio : env.IoOk)
    (himage : Image sectors roles (bootAllocator sectors))
    (hrun : (Machine.boot sectors).run env hexafsMount = .ok (ok, machine)) : FirstMount machine

/-- hexafs_alloc_block has not returned 0. -/
def Machine.NeverFull (machine : Machine) : Prop := machine.mem.allocator.outOfBlocks = false

/-- The states of a run in which no allocation runs out of blocks. -/
inductive StoreRun : Machine → Prop where
  | first {machine : Machine} (h : FirstMount machine) (hfull : machine.NeverFull) :
    StoreRun machine
  | step {machine machine' : Machine} (h : StoreRun machine) (hstep : StoreStep machine machine')
    (hfull : machine'.NeverFull) : StoreRun machine'

theorem Memory.boot_hintOk : Memory.boot.allocator.HintOk := ⟨Nat.le_refl _, by decide⟩

theorem Memory.boot_idle : Memory.boot.currentTx.active = false := rfl

theorem bootAllocator_bitmap (sectors : UInt32 → Sector) :
    (bootAllocator sectors).bitmap = diskBitmap sectors := by
  rw [bootAllocator]

theorem FirstMount.settled (h : FirstMount machine) : ∃ roles, machine.Settled roles := by
  cases h with
  | format hio hvalid hrun =>
    have hvalid' : superblockValid (superblockAt (Machine.boot _).sectors) = false := hvalid
    exact (Machine.format_run hvalid' Memory.boot_hintOk Memory.boot_idle
      (Machine.coherent_boot _) hio hrun).2.1
  | mount hio himage hrun =>
    obtain ⟨_, hsettled, _⟩ := himage.mount_run (bootAllocator_bitmap _) rfl Memory.boot_hintOk
      Memory.boot_idle (Machine.coherent_boot _) hio hrun
    exact ⟨_, hsettled⟩

/-- pimp_save_rules saves the bytes of the rule table. -/
theorem Machine.run_pimpSaveRules : machine.run env pimpSaveRules =
    machine.run env (Hexafs.saveConfig pimpName pimpUpdateName
      (machine.mem.rules.flatMap toBytes)) := by
  have hmem : machine.run env Code.memory = .ok (machine.mem, machine) := rfl
  rw [pimpSaveRules, Machine.run_bind, hmem]
  rfl

/-- The size of a rule table on the disk. -/
theorem Memory.length_rules (h : mem.pimpCount ≤ pimpRuleMax) :
    (mem.rules.flatMap toBytes).length ≤ 2048 := by
  have hlen := Packed.length_flatMap_toBytes mem.rules
  have hcount : mem.rules.length = mem.pimpCount := by
    rw [Memory.rules, List.length_map, List.length_range]
  have hmax : mem.pimpCount ≤ 32 := h
  have hsize : Packed.size PimpRule = 44 := rfl
  rw [hcount, hsize] at hlen
  omega

/-- A step that does not run out of blocks keeps the machine settled. -/
theorem Machine.Settled.step (h : machine.Settled roles) (hstep : StoreStep machine machine')
    (hfull : machine'.NeverFull) : ∃ roles', machine'.Settled roles' := by
  have hconfig : ∀ {env : Environment} {name snapName : CString} {data : List UInt8} {ok : Bool},
      env.IoOk → data.length ≤ 2048 →
      machine.run env (Hexafs.saveConfig name snapName data) = .ok (ok, machine') →
      ∃ roles', machine'.Settled roles' := by
    intro env name snapName data ok hio hdata hrun
    obtain ⟨hcoh, hout⟩ := h.mounted.saveConfig hio hdata hrun
    obtain ⟨roles', _, hstore⟩ := hout.store h.mounted.store
    exact ⟨roles', ⟨hcoh, hstore⟩, hout.committed h.committed hfull⟩
  cases hstep with
  | saveAll hio hrun =>
    obtain ⟨hcoh, hout⟩ := h.mounted.saveAll hio hrun
    have hkeep := hfull
    rw [Machine.NeverFull] at hkeep
    cases hout with
    | refused hrefused _ =>
      rw [hrefused.outOfBlocks] at hkeep
      cases hkeep
    | saved hsaved => exact ⟨_, ⟨hcoh, hsaved.store⟩, hsaved.committed⟩
  | usersSave hio hdata hrun => exact hconfig hio hdata hrun
  | pimpSave hio hrules hrun =>
    rw [Machine.run_pimpSaveRules] at hrun
    exact hconfig hio (Memory.length_rules hrules) hrun
  | bootPolicy hio hrun =>
    obtain ⟨hcoh, roles', hran⟩ := h.mounted.bootPolicy hio hrun
    exact ⟨roles', ⟨hcoh, hran.store⟩, hran.committed⟩
  | remount hio hrun =>
    obtain ⟨_, hsettled, _⟩ := h.image.mount_run h.committed.bitmap.symm rfl
      h.mounted.store.hint h.mounted.store.active_eq h.mounted.coherent hio hrun
    exact ⟨roles, hsettled⟩
  | reboot hio hrun =>
    have hsec : (Machine.boot machine.sectors).sectors = machine.sectors := rfl
    obtain ⟨_, hsettled, _⟩ := h.image.mount_run h.committed.bitmap.symm hsec Memory.boot_hintOk
      Memory.boot_idle (Machine.coherent_boot _) hio hrun
    exact ⟨roles, hsettled⟩
  | edit hsame =>
    refine ⟨roles, ⟨h.mounted.coherent, h.mounted.store.sameStore hsame⟩, ?_⟩
    have hc := h.committed
    exact ⟨hc.superblock.trans hsame.sbCache.symm, by rw [hsame.sbCache]; exact hc.valid,
      hc.bitmap.trans (congrArg Allocator.bitmap hsame.allocator).symm⟩

/-- Every state of a run is settled. -/
theorem StoreRun.settled (h : StoreRun machine) : ∃ roles, machine.Settled roles := by
  induction h with
  | first hfirst _ => exact hfirst.settled
  | step _ hstep hfull ih =>
    obtain ⟨roles, hsettled⟩ := ih
    exact hsettled.step hstep hfull

end Steps

theorem StoreRun.neverFull (h : StoreRun machine) : machine.NeverFull := by
  cases h with
  | first _ hfull => exact hfull
  | step _ _ hfull => exact hfull

section Blank

/-- A drive and a heap without failures. -/
def Environment.faultless : Environment :=
  ⟨fun _ => true, fun _ => .written, fun _ => true, fun _ _ => 0⟩

theorem Environment.faultless_ioOk : Environment.faultless.IoOk := ⟨fun _ => rfl, fun _ => rfl⟩

theorem Environment.faultless_kmallocOk : Environment.faultless.KmallocOk := fun _ => rfl

/-- A disk of zeros. -/
def blankDisk : UInt32 → Sector := fun _ => zeroSector

theorem superblockValid_blankDisk : superblockValid (superblockAt blankDisk) = false := by
  have hmagic : ((superblockAt blankDisk).magic == hexafsSuperMagic) = false := by decide
  rw [superblockValid, hmagic, Bool.false_and]

/-- A machine that has just formatted its disk. -/
structure Machine.Fresh (machine : Machine) (roles : UInt32 → Option Role) : Prop where
  /-- It was mounted first. -/
  first : FirstMount machine
  /-- The disk is not full. -/
  neverFull : machine.NeverFull
  /-- It is settled. -/
  settled : machine.Settled roles
  /-- The free blocks. -/
  free : machine.mem.allocator.freeCount = 3985
  /-- There is a root snapshot. -/
  root : machine.mem.sbCache.rootSnapBlock ≠ 0
  /-- It has an abstraction. -/
  rootAbs : rootAbsAt machine.sectors machine.mem.sbCache.rootSnapBlock ≠ 0
  /-- The abstraction is a new one. -/
  header : headerAt machine.sectors
    (rootAbsAt machine.sectors machine.mem.sbCache.rootSnapBlock) = newAbstraction
  /-- The tables are empty. -/
  tables : machine.mem.formCount = 0 ∧ machine.mem.pimpCount = 0 ∧ machine.mem.uCount = 0

theorem Machine.Fresh.entries {roles : UInt32 → Option Role} (h : machine.Fresh roles) :
    absEntries machine.sectors
      (rootAbsAt machine.sectors machine.mem.sbCache.rootSnapBlock) = [] := by
  rw [absEntries, h.header, newAbstraction_nextChain, if_pos rfl]
  rfl

/-- Switching on a machine with a blank disk. -/
theorem exists_fresh : ∃ machine roles,
    (Machine.boot blankDisk).run .faultless hexafsMount = .ok (true, machine) ∧
      machine.Fresh roles := by
  have hio := Environment.faultless_ioOk
  have hwp : hexafsMount.wp (plainDevice .faultless) (Machine.boot blankDisk).mem
      (Machine.boot blankDisk).dev.plain fun ok mem' d' => ok = true ∧
        Formatted .faultless (Machine.boot blankDisk).mem
          (Machine.boot blankDisk).dev.plain.cleared mem' d' :=
    hexafsMount_invalid hio.writes superblockValid_blankDisk Memory.boot_hintOk Memory.boot_idle
      fun mem' d' hformatted => ⟨rfl, hformatted⟩
  obtain ⟨ok, machine, hrun, hcoh, rfl, hformatted⟩ :=
    Machine.run_spec hio.reads (Machine.coherent_boot blankDisk) hwp
      fun _ mem' d' hpost => hpost.2.store.choose_spec.stale
  obtain ⟨roles, hstore⟩ := hformatted.store
  have hsettled : machine.Settled roles := ⟨⟨hcoh, hstore⟩, hformatted.committed⟩
  obtain ⟨hroot, habs, hheader⟩ := hformatted.root
  have hat : rootAbsAt machine.sectors machine.mem.sbCache.rootSnapBlock =
      (snapAt machine.sectors machine.mem.sbCache.rootSnapBlock).rootObjectBlock :=
    hstore.heap.rootAbsAt_eq (hstore.root hroot)
  refine ⟨machine, roles, hrun, .format hio superblockValid_blankDisk hrun, hformatted.quiet,
    hsettled, hformatted.free, hroot, ?_, ?_, ?_⟩
  · rw [hat]
    exact habs
  · rw [hat]
    exact hheader
  · rw [hformatted.statics]
    exact ⟨rfl, rfl, rfl⟩

/-- A machine with a new store and forms that are not saved yet. -/
structure Machine.Unsaved (machine : Machine) (roles : UInt32 → Option Role)
    (forms : List FormEntry) : Prop where
  /-- A run has led here. -/
  run : StoreRun machine
  /-- The store is mounted. -/
  mounted : machine.Mounted roles
  /-- The forms of the table. -/
  forms_eq : machine.mem.forms = forms
  /-- The free blocks. -/
  free : machine.mem.allocator.freeCount = 3985
  /-- The disk is not full. -/
  neverFull : machine.mem.allocator.outOfBlocks = false

/-- Every form table can stand over a new store. -/
theorem exists_unsaved (table : ℕ → FormEntry) (count : ℕ) :
    ∃ (machine : Machine) (roles : UInt32 → Option Role),
      machine.Unsaved roles ((List.range count).map table) := by
  obtain ⟨machine, roles, _, hfresh⟩ := exists_fresh
  have hsame : machine.mem.SameStore (machine.mem.withForms table count) := ⟨rfl, rfl, rfl, rfl⟩
  exact ⟨⟨machine.mem.withForms table count, machine.dev⟩, roles,
    .step (.first hfresh.first hfresh.neverFull) (.edit hsame) hfresh.neverFull,
    ⟨hfresh.settled.mounted.coherent, hfresh.settled.mounted.store.sameStore hsame⟩, rfl,
    hfresh.free, hfresh.neverFull⟩

/-- An empty form with the name "a". -/
def emptyForm : FormEntry :=
  ⟨CString.ofBytes [97], some [0], 0, 1, 0, 0x1A4, FormEntry.zero_le_one⟩

/-- A machine that has formatted its disk and saved one form. -/
structure Machine.SavedOne (machine : Machine) (roles : UInt32 → Option Role) : Prop where
  /-- A run has led here. -/
  run : StoreRun machine
  /-- It is settled. -/
  settled : machine.Settled roles
  /-- A block is free. -/
  free : machine.mem.allocator.freeCount ≠ 0
  /-- There is a root snapshot. -/
  root : machine.mem.sbCache.rootSnapBlock ≠ 0
  /-- It has an abstraction. -/
  rootAbs : rootAbsAt machine.sectors machine.mem.sbCache.rootSnapBlock ≠ 0
  /-- The form is on the disk. -/
  entries : List.Forall₂ (FormStored machine.sectors) (absEntries machine.sectors
    (rootAbsAt machine.sectors machine.mem.sbCache.rootSnapBlock)) [emptyForm]

/-- Switching on a machine with a blank disk and saving one form. -/
theorem exists_savedOne : ∃ (machine : Machine) (roles : UInt32 → Option Role),
    machine.SavedOne roles := by
  obtain ⟨machine, roles, hunsaved⟩ := exists_unsaved (fun _ => emptyForm) 1
  have hio := Environment.faultless_ioOk
  have hforms : machine.mem.forms = [emptyForm] := hunsaved.forms_eq
  have hmounted := hunsaved.mounted
  have hcost : formCost emptyForm.size = 2 := by decide
  have hfree := hunsaved.free
  have hrun := hunsaved.run
  have hnever := hunsaved.neverFull
  obtain ⟨mem, dev⟩ := machine
  dsimp only at hforms hfree hnever
  obtain ⟨machine', hsave⟩ := hmounted.saveAll_returns hio
  obtain ⟨hcoh, hout⟩ := hmounted.saveAll hio hsave
  generalize hmem : machine'.mem = mem' at hout
  generalize hplain : machine'.dev.plain = d' at hout
  cases hout with
  | refused hrefused _ =>
    have hzero : mem.allocator.freeCount = 0 := hrefused.free
    omega
  | @saved n saved free _ _ roles' h =>
    subst hmem hplain
    have hbudget := h.budget
    rw [servedForms_of_kmallocOk Environment.faultless_kmallocOk, formCosts, hforms, hfree] at hbudget
    simp only [List.map_cons, List.map_nil, List.foldl_cons, List.foldl_nil, hcost] at hbudget
    have hstep : SaveBudget.form ⟨0, 3985 - 1⟩ 2 = ⟨1, 3982⟩ := rfl
    rw [hstep] at hbudget
    simp only [SaveBudget.mk.injEq] at hbudget
    have hall : saved = mem.forms := h.sublist.eq_of_length (by rw [hforms, hbudget.1]; rfl)
    have hquiet := h.quiet hall (by omega)
    have hleft := h.left (by omega)
    rcases h.root with ⟨hzero, _⟩ | ⟨_, hrole, hnew, _, habs⟩
    · omega
    · refine ⟨machine', roles', .step hrun (.saveAll hio hsave) ?_, ⟨⟨hcoh, h.store⟩, h.committed⟩,
        by omega, hnew.1.ne_zero, ?_, ?_⟩
      · exact hquiet.trans hnever
      · show rootAbsAt machine'.dev.plain.sectors _ ≠ 0
        rw [habs]
        exact h.fresh.1.ne_zero
      · show List.Forall₂ _ (absEntries machine'.dev.plain.sectors
          (rootAbsAt machine'.dev.plain.sectors machine'.mem.sbCache.rootSnapBlock)) _
        rw [habs, ← hforms, ← hall]
        exact h.entries

theorem Machine.SavedOne.entries_ne_nil (h : machine.SavedOne roles) :
    absEntries machine.sectors
      (rootAbsAt machine.sectors machine.mem.sbCache.rootSnapBlock) ≠ [] := by
  intro hnil
  have hentries := h.entries
  rw [hnil] at hentries
  cases hentries

/-- An empty form whose name is one letter. -/
def letterForm (i : ℕ) : FormEntry :=
  ⟨CString.ofBytes [97 + UInt8.ofNat i], some [0], 0, 1, 0, 0x1A4, FormEntry.zero_le_one⟩

/-- The forms a, b, c and so on. -/
def letterForms (count : ℕ) : List FormEntry := (List.range count).map letterForm

end Blank

end HexaOS.Hexafs
