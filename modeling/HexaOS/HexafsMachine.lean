import HexaOS.HexafsConfigs

/-!
# Machines and reboots

The specifications of the earlier files speak about the plain disk. Here they
become statements about runs of the kernel's machine, with its cache: what an
operation does to a mounted machine, and what a machine that is switched on with
the same sectors mounts and loads.
-/

namespace HexaOS.Hexafs

open DevicePrograms PackedBytes StoreTyping

/-- No sector transfer fails. -/
structure Environment.IoOk (env : Environment) : Prop where
  /-- Every read succeeds. -/
  reads : ∀ n, env.readOk n = true
  /-- Every write succeeds. -/
  writes : env.WritesOk

variable {env : Environment} {machine machine' : Machine} {roles : UInt32 → Option Role}

/-- A machine whose store is mounted and whose cache agrees with the disk. -/
structure Machine.Mounted (machine : Machine) (roles : UInt32 → Option Role) : Prop where
  /-- The cache agrees with the disk. -/
  coherent : machine.dev.Coherent
  /-- The store is in order. -/
  store : Store machine.mem machine.dev.plain roles

/-- A mounted machine whose superblock and bitmap are on the disk. -/
structure Machine.Settled (machine : Machine) (roles : UInt32 → Option Role) : Prop where
  /-- The store is mounted. -/
  mounted : machine.Mounted roles
  /-- It is committed. -/
  committed : Committed machine.mem machine.sectors

/-- A disk without stale sectors is the plain disk of the device. -/
theorem Simulates.plain_eq {dev : Device} {d : PlainDisk} (h : Simulates dev d)
    (hstale : ∀ b, d.stale b = false) : dev.plain = d ∧ dev.Coherent := by
  have hfun : d.stale = fun _ => false := funext hstale
  obtain ⟨hsec, hlog, hcount, hkcount, hcoh⟩ := h
  constructor
  · rw [Device.plain, hsec, hlog, hcount, hkcount, ← hfun]
  · rw [Device.Coherent, hsec, ← hfun]
    exact hcoh

/-- A total run on the plain disk that leaves no stale sector is a run of the machine. -/
theorem Machine.run_spec {α : Type} (hreads : ∀ n, env.readOk n = true) {code : HexafsM α}
    (hcoh : machine.dev.Coherent) {post : α → Memory → PlainDisk → Prop}
    (h : code.wp (plainDevice env) machine.mem machine.dev.plain post)
    (hstale : ∀ value mem d, post value mem d → ∀ b, d.stale b = false) :
    ∃ value machine', machine.run env code = .ok (value, machine') ∧ machine'.dev.Coherent ∧
      post value machine'.mem machine'.dev.plain := by
  obtain ⟨value, machine', hrun, d, hsim, hpost⟩ := Machine.run_of_wp hreads hcoh h
  obtain ⟨hplain, hcoh'⟩ := hsim.plain_eq (hstale _ _ _ hpost)
  exact ⟨value, machine', hrun, hcoh', hplain ▸ hpost⟩

/-- What a run is known to return satisfies the specification. -/
theorem Machine.run_elim {α : Type} (hreads : ∀ n, env.readOk n = true) {code : HexafsM α}
    (hcoh : machine.dev.Coherent) {post : α → Memory → PlainDisk → Prop}
    (h : code.wp (plainDevice env) machine.mem machine.dev.plain post)
    (hstale : ∀ value mem d, post value mem d → ∀ b, d.stale b = false) {value : α}
    (hrun : machine.run env code = .ok (value, machine')) :
    machine'.dev.Coherent ∧ post value machine'.mem machine'.dev.plain := by
  obtain ⟨value₂, machine₂, hrun₂, hcoh₂, hpost⟩ := Machine.run_spec hreads hcoh h hstale
  rw [hrun] at hrun₂
  simp only [Except.ok.injEq, Prod.mk.injEq] at hrun₂
  obtain ⟨rfl, rfl⟩ := hrun₂
  exact ⟨hcoh₂, hpost⟩

/-- A sequence runs its second part from where the first one stopped. -/
theorem Machine.run_bind {α β : Type} (code : HexafsM α) (rest : α → HexafsM β) :
    machine.run env (code >>= rest) =
      (machine.run env code).bind fun result => result.2.run env (rest result.1) := by
  rw [Machine.run, Code.exec_bind, Machine.run]
  cases code.exec (cachedDevice env) machine.mem machine.dev with
  | error stop => rfl
  | ok result => rfl

section Reboot

variable {sectors : UInt32 → Sector} {a : Allocator}

/-- The image of a store: a valid superblock over a heap. -/
structure Image (sectors : UInt32 → Sector) (roles : UInt32 → Option Role) (a : Allocator) :
    Prop where
  /-- The superblock is valid. -/
  valid : superblockValid (superblockAt sectors) = true
  /-- The heap is sound. -/
  heap : Heap sectors roles a
  /-- The root is a snapshot. -/
  root : (superblockAt sectors).rootSnapBlock ≠ 0 →
    roles (superblockAt sectors).rootSnapBlock = some .snapshot

/-- The root snapshot that the superblock on the disk names. -/
def rootOn (sectors : UInt32 → Sector) : UInt32 := (superblockAt sectors).rootSnapBlock

/-- An image whose superblock and blocks are unchanged is an image of the same store. -/
theorem Image.frame {sectors' : UInt32 → Sector} (h : Image sectors roles a)
    (hsuper : sectors' hexafsSuperLba = sectors hexafsSuperLba)
    (hsame : ∀ b role, roles b = some role → sectors' b = sectors b) :
    Image sectors' roles a ∧ rootOn sectors' = rootOn sectors := by
  have hsb : superblockAt sectors' = superblockAt sectors :=
    congrArg (ofBlock HexafsSuperblock) hsuper
  refine ⟨⟨?_, h.heap.frame (fun _ => id) hsame, ?_⟩, ?_⟩
  · rw [hsb]
    exact h.valid
  · rw [hsb]
    exact h.root
  · rw [rootOn, rootOn, hsb]

/-- The disk of a settled machine is the image of its store. -/
theorem Machine.Settled.image (h : machine.Settled roles) :
    Image machine.sectors roles machine.mem.allocator where
  valid := by
    rw [h.committed.superblock]
    exact h.committed.valid
  heap := h.mounted.store.heap
  root := by
    rw [h.committed.superblock]
    exact h.mounted.store.root

theorem Machine.Settled.rootOn_eq (h : machine.Settled roles) :
    rootOn machine.sectors = machine.mem.sbCache.rootSnapBlock :=
  congrArg HexafsSuperblock.rootSnapBlock h.committed.superblock

theorem Machine.coherent_boot (sectors : UInt32 → Sector) : (Machine.boot sectors).dev.Coherent :=
  CacheCoherent.empty _ _

/-- Mount the disk of a machine that was switched on, then load something. -/
def mountAndLoad {α : Type} (loader : HexafsM α) : HexafsM (Bool × α) := do
  let mounted ← hexafsMountDisk
  let value ← loader
  pure (mounted, value)

/-- What a machine that is switched on with these sectors mounts and loads. -/
def reload {α : Type} (env : Environment) (sectors : UInt32 → Sector) (loader : HexafsM α) :
    Except Stop (Bool × α) :=
  ((Machine.boot sectors).run env (mountAndLoad loader)).map Prod.fst

/-- hexafs_load_all, with the forms that it leaves. -/
def loadForms : HexafsM (List FormEntry) := do
  hexafsLoadAll
  let mem ← Code.memory
  pure mem.forms

/-- pimp_load_rules, with the rules that it leaves. -/
def loadRules : HexafsM (Bool × List PimpRule) := do
  let ok ← pimpLoadRules
  let mem ← Code.memory
  pure (ok, mem.rules)

/-- The statics of a machine that has just mounted an image can be loaded from. -/
theorem Image.readable (h : Image sectors roles a) (mem : Memory) (d : PlainDisk)
    (hsec : d.sectors = sectors) : Readable (mem.mountedOn sectors) d.cleared roles a where
  heap := by
    show Heap d.sectors roles a
    rw [hsec]
    exact h.heap
  root := h.root
  stale := fun _ => rfl

/-- What a loader with a specification returns behind a mount. -/
theorem Image.mountAndLoad_spec {α : Type} {mem : Memory} {d : PlainDisk}
    (h : Image d.sectors roles a) {loader : HexafsM α} {value : α}
    (hload : Readable (mem.mountedOn d.sectors) d.cleared roles a →
      loader.wp (plainDevice env) (mem.mountedOn d.sectors) d.cleared fun v _ _ => v = value) :
    (mountAndLoad loader).wp (plainDevice env) mem d fun v _ _ => v = (true, value) := by
  simp only [mountAndLoad, Code.wp_bind, Code.wp_pure]
  refine hexafsMountDisk_valid h.valid ?_
  refine Code.wp_mono (hload (h.readable mem d rfl)) fun v _ _ hv => ?_
  rw [hv]

/-- The plain disk of a machine that is switched on. -/
def bootDisk (sectors : UInt32 → Sector) : PlainDisk := ⟨sectors, [], fun _ => false, 0, 0⟩

theorem Image.reload_spec {α : Type} (h : Image sectors roles a)
    (hreads : ∀ n, env.readOk n = true) {loader : HexafsM α} {value : α}
    (hload : Readable (Memory.boot.mountedOn sectors) (bootDisk sectors) roles a →
      loader.wp (plainDevice env) (Memory.boot.mountedOn sectors) (bootDisk sectors)
        fun v _ _ => v = value) :
    reload env sectors loader = .ok (true, value) := by
  have himage : Image (bootDisk sectors).sectors roles a := h
  have hwp : (mountAndLoad loader).wp (plainDevice env) Memory.boot (bootDisk sectors)
      fun v _ _ => v = (true, value) := himage.mountAndLoad_spec hload
  obtain ⟨v, machine', hrun, _, _, rfl⟩ :=
    Machine.run_of_wp hreads (Machine.coherent_boot sectors) hwp
  rw [reload, hrun]
  rfl

/-- The forms after hexafs_load_all. -/
theorem Memory.forms_loaded (mem : Memory) (sectors : UInt32 → Sector) (k : ℕ) :
    (mem.loaded env sectors k).1.forms =
      match formsAt sectors mem.sbCache.rootSnapBlock with
      | none => mem.forms
      | some reads => (List.range reads.length).map (loadedTable env reads 0 k mem.formTable).1 := by
  rw [loaded]
  cases formsAt sectors mem.sbCache.rootSnapBlock with
  | none => rfl
  | some reads => rfl

/-- The forms that hexafs_load_all leaves on a machine that was switched on. -/
def formsOf (env : Environment) (sectors : UInt32 → Sector) : List FormEntry :=
  match formsAt sectors (rootOn sectors) with
  | none => []
  | some reads =>
    (List.range reads.length).map (loadedTable env reads 0 0 fun _ => FormEntry.zero).1

theorem Memory.forms_mountedOn (mem : Memory) (sectors : UInt32 → Sector) :
    (mem.mountedOn sectors).forms = mem.forms := by
  rw [Memory.forms, Memory.forms, Memory.mountedOn, Memory.mountedAs]

theorem Memory.formTable_mountedOn (mem : Memory) (sectors : UInt32 → Sector) :
    (mem.mountedOn sectors).formTable = mem.formTable := by
  rw [Memory.mountedOn, Memory.mountedAs]

theorem Memory.root_mountedOn (mem : Memory) (sectors : UInt32 → Sector) :
    (mem.mountedOn sectors).sbCache.rootSnapBlock = rootOn sectors := rfl

theorem Image.reload_forms (h : Image sectors roles a) (hreads : ∀ n, env.readOk n = true) :
    reload env sectors loadForms = .ok (true, formsOf env sectors) := by
  refine h.reload_spec hreads fun hread => ?_
  simp only [loadForms, Code.wp_bind, Code.wp_memory, Code.wp_pure]
  refine hexafsLoadAll_spec hread ?_
  have hsec : (bootDisk sectors).sectors = sectors := rfl
  have hcount : (bootDisk sectors).kmallocCount = 0 := rfl
  have hforms : Memory.boot.forms = [] := rfl
  have htable : Memory.boot.formTable = fun _ => FormEntry.zero := rfl
  rw [Memory.forms_loaded, Memory.root_mountedOn, Memory.forms_mountedOn,
    Memory.formTable_mountedOn, hsec, hcount, hforms, htable, formsOf]

/-- What is loaded depends on the names and objects under the root only. -/
theorem formsOf_congr {sectors' : UInt32 → Sector}
    (h : formsAt sectors' (rootOn sectors') = formsAt sectors (rootOn sectors)) :
    formsOf env sectors' = formsOf env sectors := by
  rw [formsOf, formsOf, h]

theorem Image.reload_users (h : Image sectors roles a) (hreads : ∀ n, env.readOk n = true) :
    reload env sectors hexafsUsersLoad =
      .ok (true, usersOf (configAt sectors (rootOn sectors) usersName)) := by
  refine h.reload_spec hreads fun hread => hexafsUsersLoad_spec hread ?_
  rw [Memory.root_mountedOn]
  rfl

/-- The return value and the rules of pimp_load_rules. More bytes than the array
holds are a fault. -/
def rulesOf : Option ObjectRead → Except Stop (Bool × List PimpRule)
  | none => .ok (false, [])
  | some read =>
    if pimpRuleMax * pimpRuleSize < read.bytes.length then .error .fault
    else if read.ok then
      .ok (true, (List.range (min pimpRuleMax (read.size.toNat / pimpRuleSize))).map
        (rulesOfBytes read.bytes))
    else .ok (false, [])

/-- Stored rules are loaded again. -/
theorem rulesOf_flatMap {rules : List PimpRule} (h : rules.length ≤ pimpRuleMax) (type : UInt8) :
    rulesOf (some ⟨true, type, UInt32.ofNat (rules.flatMap toBytes).length,
      rules.flatMap toBytes⟩) = .ok (true, rules) := by
  have hmax : rules.length ≤ 32 := h
  have hlen : (rules.flatMap toBytes).length = rules.length * 44 :=
    Packed.length_flatMap_toBytes rules
  have hsize : pimpRuleMax * pimpRuleSize = 1408 := rfl
  have hcount : (UInt32.ofNat (rules.length * 44)).toNat / pimpRuleSize = rules.length := by
    rw [UInt32.toNat_ofNat', Nat.mod_eq_of_lt (by omega)]
    exact Nat.mul_div_cancel _ (by decide)
  have hmin : min pimpRuleMax rules.length = rules.length := Nat.min_eq_right h
  have hrules : (List.range rules.length).map (rulesOfBytes (rules.flatMap toBytes)) = rules := by
    have hlist := Packed.ofBytesList_flatMap_append rules
      (List.replicate (pimpRuleMax * pimpRuleSize - (rules.flatMap toBytes).length) 0)
    rw [Packed.ofBytesList_eq_map] at hlist
    exact hlist
  rw [rulesOf, hlen, if_neg (by omega), if_pos rfl, hcount, hmin, hrules]

/-- pimp_load_rules after its object was read. -/
def storeRules : Option ObjectRead → HexafsM Bool
  | none => pure false
  | some ⟨ok, _, dsize, bytes⟩ =>
    if pimpRuleMax * pimpRuleSize < bytes.length then Code.halt .fault
    else do
      Code.modify fun mem => { mem with pimpRules := rulesOfBytes bytes }
      if ok then
        Code.modify fun mem =>
          { mem with pimpCount := min pimpRuleMax (dsize.toNat / pimpRuleSize) }
        pure true
      else pure false

theorem pimpLoadRules_eq : pimpLoadRules = (do
    Code.modify fun mem => { mem with pimpCount := 0, pimpRules := fun _ => PimpRule.zero }
    let read ← loadConfig pimpName
    storeRules read) := rfl

/-- Storing the rules needs no device. -/
theorem Machine.run_storeRules (read : Option ObjectRead) (hzero : machine.mem.pimpCount = 0) :
    (machine.run env (do
      let ok ← storeRules read
      let mem ← Code.memory
      pure (true, ok, mem.rules))).map Prod.fst = (rulesOf read).map fun value => (true, value) := by
  have hnil : machine.mem.rules = [] := by
    rw [Memory.rules, hzero]
    rfl
  cases read with
  | none =>
    rw [rulesOf, ← hnil]
    rfl
  | some read =>
    obtain ⟨ok, type, dsize, bytes⟩ := read
    rw [rulesOf, storeRules]
    by_cases hlen : pimpRuleMax * pimpRuleSize < bytes.length
    · rw [if_pos hlen, if_pos hlen]
      rfl
    · rw [if_neg hlen, if_neg hlen]
      cases ok with
      | true => rfl
      | false =>
        have hnil' : { machine.mem with pimpRules := rulesOfBytes bytes }.rules = [] := by
          rw [Memory.rules]
          show (List.range machine.mem.pimpCount).map _ = []
          rw [hzero]
          rfl
        rw [if_neg Bool.false_ne_true, ← hnil']
        rfl

/-- The machine with pimp_rules cleared. -/
def Machine.withoutRules (machine : Machine) : Machine :=
  ⟨{ machine.mem with pimpCount := 0, pimpRules := fun _ => PimpRule.zero }, machine.dev⟩

/-- pimp_load_rules goes on from where its object was read. -/
theorem Machine.run_pimpLoadRules {read : Option ObjectRead}
    (hread : machine.withoutRules.run env (loadConfig pimpName) = .ok (read, machine')) :
    machine.run env pimpLoadRules = machine'.run env (storeRules read) := by
  have hmodify : machine.run env (Code.modify fun mem =>
      { mem with pimpCount := 0, pimpRules := fun _ => PimpRule.zero }) =
        .ok ((), machine.withoutRules) := rfl
  rw [pimpLoadRules_eq, Machine.run_bind, hmodify]
  show Machine.run env _ _ = _
  rw [Machine.run_bind, hread]
  rfl

/-- Behind a mount, pimp_load_rules stores the rules of its object. -/
theorem Machine.run_mountAndLoad_rules {mounted : Machine} {read : Option ObjectRead}
    (hmount : machine.run env hexafsMountDisk = .ok (true, mounted))
    (hread : mounted.withoutRules.run env (loadConfig pimpName) = .ok (read, machine'))
    (hzero : machine'.mem.pimpCount = 0) :
    (machine.run env (mountAndLoad loadRules)).map Prod.fst =
      (rulesOf read).map fun value => (true, value) := by
  rw [← Machine.run_storeRules read hzero, mountAndLoad, Machine.run_bind, hmount]
  show (mounted.run env _).map Prod.fst = _
  rw [loadRules, Machine.run_bind, Machine.run_bind, Machine.run_pimpLoadRules hread,
    Machine.run_bind]
  cases machine'.run env (storeRules read) with
  | error stop => rfl
  | ok result => rfl

theorem Image.reload_rules (h : Image sectors roles a) (hreads : ∀ n, env.readOk n = true) :
    reload env sectors loadRules =
      (rulesOf (configAt sectors (rootOn sectors) pimpName)).map fun value => (true, value) := by
  have himage : Image (bootDisk sectors).sectors roles a := h
  have hmount : hexafsMountDisk.wp (plainDevice env) Memory.boot (bootDisk sectors)
      fun v mem d => v = true ∧ mem = Memory.boot.mountedOn sectors ∧ d = bootDisk sectors :=
    hexafsMountDisk_valid himage.valid ⟨rfl, rfl, rfl⟩
  obtain ⟨v, mounted, hrun, d, hsim, hv, hmem, hd⟩ :=
    Machine.run_of_wp hreads (Machine.coherent_boot sectors) hmount
  subst hv hd
  obtain ⟨hplain, hcoh⟩ := hsim.plain_eq fun _ => rfl
  have hread : Readable mounted.withoutRules.mem (bootDisk sectors) roles a := by
    have hbase := h.readable Memory.boot (bootDisk sectors) rfl
    rw [← hmem] at hbase
    exact ⟨hbase.heap, hbase.root, hbase.stale⟩
  have hroot : mounted.mem.sbCache.rootSnapBlock = rootOn sectors := by
    rw [hmem, Memory.root_mountedOn]
  have hcoh' : mounted.withoutRules.dev.Coherent := hcoh
  have hplain' : mounted.withoutRules.dev.plain = bootDisk sectors := hplain
  have hload : (loadConfig pimpName).wp (plainDevice env) mounted.withoutRules.mem
      mounted.withoutRules.dev.plain
        fun v mem _ => v = configAt sectors (rootOn sectors) pimpName ∧ mem.pimpCount = 0 := by
    rw [hplain']
    refine loadConfig_spec hread ⟨?_, rfl⟩
    show configAt sectors mounted.mem.sbCache.rootSnapBlock pimpName = _
    rw [hroot]
  obtain ⟨read, machine', hconfig, _, _, hvalue, hzero⟩ := Machine.run_of_wp hreads hcoh' hload
  rw [← hvalue]
  exact Machine.run_mountAndLoad_rules hrun hconfig hzero

end Reboot

end HexaOS.Hexafs
