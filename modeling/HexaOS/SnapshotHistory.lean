import HexaOS.SnapshotChains

/-!
# What the snapshots keep

hexafs_save_all stores the forms under a new abstraction. hexafs_users_save and pimp_save_rules
write into the abstraction that the newest snapshots share. What a snapshot shows is therefore
fixed from its creation on, except for its two configurations: their objects are written in
place, and their entries may be added behind the others.
-/

namespace HexaOS.Hexafs

open DevicePrograms PackedBytes StoreTyping

section Views

/-- The entries that the two configuration writers look for. -/
def HexafsAbsEntry.Configures (entry : HexafsAbsEntry) : Prop :=
  nameMatches entry.name usersName = true ∨ nameMatches entry.name pimpName = true

/-- What later sectors keep of an abstraction: its entries stay in front, and only the
configurations read differently. -/
structure KeepsEntries (sectors sectors' : UInt32 → Sector) (block : UInt32) : Prop where
  /-- The entries stay in front of new ones for configurations. -/
  entries : ∃ added, absEntries sectors' block = absEntries sectors block ++ added ∧
    ∀ entry ∈ added, entry.Configures
  /-- The objects of the others read as before. -/
  objects : ∀ entry ∈ absEntries sectors block, ¬entry.Configures →
    readObject sectors' entry.objectBlock = readObject sectors entry.objectBlock

/-- What later sectors keep of a heap. -/
structure KeepsHistory (roles : UInt32 → Option Role) (sectors sectors' : UInt32 → Sector) :
    Prop where
  /-- The snapshots stay. -/
  snapshots : ∀ b, roles b = some .snapshot → sectors' b = sectors b
  /-- The abstractions keep their entries. -/
  abstractions : ∀ b, roles b = some .abstraction → KeepsEntries sectors sectors' b

/-- What later sectors keep of a snapshot. -/
structure KeepsSnapshot (sectors sectors' : UInt32 → Sector) (snap : Snapshot) : Prop where
  /-- The block of the snapshot stays. -/
  block : sectors' snap.block = sectors snap.block
  /-- Its abstraction keeps its entries. -/
  abstraction : rootAbsAt sectors snap.block ≠ 0 →
    KeepsEntries sectors sectors' (rootAbsAt sectors snap.block)

variable {sectors sectors' sectors'' : UInt32 → Sector} {roles roles' : UInt32 → Option Role}
  {a : Allocator} {block : UInt32}

theorem KeepsEntries.refl : KeepsEntries sectors sectors block :=
  ⟨⟨[], (List.append_nil _).symm, fun _ hmem => absurd hmem List.not_mem_nil⟩, fun _ _ _ => rfl⟩

theorem KeepsEntries.trans (h : KeepsEntries sectors sectors' block)
    (h' : KeepsEntries sectors' sectors'' block) : KeepsEntries sectors sectors'' block := by
  obtain ⟨added, hadded, hconfigs⟩ := h.entries
  obtain ⟨more, hmore, hconfigs'⟩ := h'.entries
  refine ⟨⟨added ++ more, ?_, fun entry hentry => ?_⟩, fun entry hentry hother => ?_⟩
  · rw [hmore, hadded, List.append_assoc]
  · rcases List.mem_append.mp hentry with hold | hnew
    · exact hconfigs entry hold
    · exact hconfigs' entry hnew
  · have hentry' : entry ∈ absEntries sectors' block := by
      rw [hadded]
      exact List.mem_append_left _ hentry
    exact (h'.objects entry hentry' hother).trans (h.objects entry hentry hother)

theorem KeepsHistory.refl : KeepsHistory roles sectors sectors :=
  ⟨fun _ _ => rfl, fun _ _ => .refl⟩

theorem KeepsHistory.trans (h : KeepsHistory roles sectors sectors') (hext : Extends roles roles')
    (h' : KeepsHistory roles' sectors' sectors'') : KeepsHistory roles sectors sectors'' :=
  ⟨fun b hb => (h'.snapshots b (hext _ _ hb)).trans (h.snapshots b hb),
    fun b hb => (h.abstractions b hb).trans (h'.abstractions b (hext _ _ hb))⟩

/-- Sectors that agree on the heap keep its history. -/
theorem Heap.keepsHistory (h : Heap sectors roles a)
    (hsame : ∀ b role, roles b = some role → sectors' b = sectors b) :
    KeepsHistory roles sectors sectors' := by
  refine ⟨fun b hb => hsame b _ hb, fun b hb => ⟨⟨[], ?_, ?_⟩, fun entry hentry _ => ?_⟩⟩
  · rw [List.append_nil]
    exact h.absEntries_eq hb hsame
  · exact fun _ hmem => absurd hmem List.not_mem_nil
  · exact h.readObject_same hb hsame hentry

/-- The snapshots of a heap keep what the heap keeps. -/
theorem KeepsHistory.snapshot (h : KeepsHistory roles sectors sectors')
    (hheap : Heap sectors roles a) {snap : Snapshot} (hrole : roles snap.block = some .snapshot) :
    KeepsSnapshot sectors sectors' snap :=
  ⟨h.snapshots _ hrole, fun hne => h.abstractions _ (hheap.rootAbsAt_role (fun _ => hrole) hne)⟩

end Views

section Calls

variable {env : Environment} {mem mem' : Memory} {d d' : PlainDisk}
  {roles roles' : UInt32 → Option Role} {a : Allocator} {name : CString} {data : List UInt8}
  {absBlock block : UInt32}

/-- A configuration save writes no other object of the heap. -/
theorem ConfigWritten.readObject_other
    (h : ConfigWritten env mem d roles absBlock block data mem' d' roles')
    (hheap : Heap d.sectors roles a) (howner : OwnedOrLeaked roles d.sectors block)
    {object head : UInt32} {i : ℕ} (hobject : roles object = some (.object head i))
    (hne : object ≠ block) :
    readObject d'.sectors object = readObject d.sectors object := by
  have hkept : ∀ {b : UInt32} {role : Role}, roles b = some role → b ≠ block →
      (∀ j, role ≠ .content block j) → d'.sectors b = d.sectors b := by
    intro b role hb hother hrole
    refine h.same b role hb hother fun hmem => ?_
    have hcontent := List.mem_of_mem_take hmem
    rcases howner with ⟨head', i', howned⟩ | ⟨_, hnil⟩
    · obtain ⟨j, hj⟩ := hheap.mem_contents howned hcontent
      rw [hb] at hj
      exact hrole j (Option.some.inj hj)
    · rw [hnil] at hcontent
      exact absurd hcontent List.not_mem_nil
  have hblock : ∀ b j, roles b = some (.content object j) → b ≠ block := by
    intro b j hb heq
    rcases howner with ⟨head', i', howned⟩ | ⟨hnone, _⟩
    · rw [← heq, hb] at howned
      cases howned
    · rw [← heq, hb] at hnone
      cases hnone
  refine hheap.readObject_eq hobject (hkept hobject hne fun j hj => ?_) fun b j hb => ?_
  · cases hj
  · refine hkept hb (hblock b j hb) fun k hk => ?_
    rw [Role.content.injEq] at hk
    exact hne hk.1

/-- A configuration save keeps the history, when what it writes is a configuration. -/
theorem ConfigWritten.keepsHistory
    (h : ConfigWritten env mem d roles absBlock block data mem' d' roles')
    (hheap : Heap d.sectors roles a) (howner : OwnedOrLeaked roles d.sectors block)
    (hconfig : ∀ b, roles b = some .abstraction → ∀ entry ∈ absEntries d.sectors b,
      entry.objectBlock = block → entry.Configures) :
    KeepsHistory roles d.sectors d'.sectors := by
  refine ⟨fun b hb => h.structural hheap howner hb trivial, fun b hb => ⟨⟨[], ?_, ?_⟩, ?_⟩⟩
  · rw [List.append_nil]
    exact absEntries_congr (h.structural hheap howner hb trivial) fun hne =>
      h.structural hheap howner (hheap.chain hb hne) trivial
  · exact fun _ hmem => absurd hmem List.not_mem_nil
  · intro entry hentry hother
    obtain ⟨i, hi⟩ := List.mem_iff_getElem?.mp hentry
    exact h.readObject_other hheap howner (hheap.entry hb hi) fun heq =>
      hother (hconfig b hb entry hentry heq)

/-- An object belongs to one entry only. -/
theorem Heap.entry_inj (h : Heap d.sectors roles a) {b b' : UInt32} {entry entry' : HexafsAbsEntry}
    (hb : roles b = some .abstraction) (hb' : roles b' = some .abstraction)
    (hentry : entry ∈ absEntries d.sectors b) (hentry' : entry' ∈ absEntries d.sectors b')
    (heq : entry.objectBlock = entry'.objectBlock) : entry = entry' := by
  obtain ⟨i, hi⟩ := List.mem_iff_getElem?.mp hentry
  obtain ⟨j, hj⟩ := List.mem_iff_getElem?.mp hentry'
  have hrole := h.entry hb hi
  rw [heq, h.entry hb' hj, Option.some.injEq, Role.object.injEq] at hrole
  obtain ⟨hhead, hindex⟩ := hrole
  rw [← hhead, ← hindex, hj] at hi
  exact (Option.some.inj hi).symm

/-- The new entry of a configuration comes behind the others. -/
theorem ConfigCreated.keepsHistory {a₁ : Allocator} {d₁ : PlainDisk} {entry : HexafsAbsEntry}
    (h : ConfigCreated env absBlock mem d block a₁ d₁) (hheap : Heap d.sectors roles mem.allocator)
    (habs : roles absBlock = some .abstraction) (hconfig : entry.Configures)
    (hlist : absEntries d₁.sectors absBlock = absEntries d.sectors absBlock ++ [entry]) :
    KeepsHistory roles d.sectors d₁.sectors := by
  have hsame : ∀ b role, roles b = some role → b ≠ absBlock → d₁.sectors b = d.sectors b := by
    intro b role hb hne
    refine h.wrote.sectors_eq fun hor => ?_
    rcases hor with heq | hfresh
    · exact hne heq
    · exact hheap.not_fresh hb hfresh
  have hother : ∀ {b : UInt32} {role : Role}, roles b = some role → role ≠ .abstraction →
      d₁.sectors b = d.sectors b := by
    intro b role hb hrole
    refine hsame b role hb fun heq => ?_
    rw [heq, habs] at hb
    exact hrole (Option.some.inj hb).symm
  refine ⟨fun b hb => hother hb Role.noConfusion, fun b hb => ⟨?_, fun old hold _ => ?_⟩⟩
  · by_cases heq : b = absBlock
    · rw [heq]
      refine ⟨[entry], hlist, fun new hnew => ?_⟩
      rw [List.mem_singleton.mp hnew]
      exact hconfig
    · refine ⟨[], ?_, fun _ hmem => absurd hmem List.not_mem_nil⟩
      rw [List.append_nil]
      exact absEntries_congr (hsame b _ hb heq) fun hne =>
        hother (hheap.chain hb hne) Role.noConfusion
  · obtain ⟨i, hi⟩ := List.mem_iff_getElem?.mp hold
    have hobject := hheap.entry hb hi
    exact hheap.readObject_eq hobject (hother hobject Role.noConfusion) fun c j hc =>
      hother hc Role.noConfusion

/-- An entry that stores the name of a configuration is found under it. -/
theorem EntryFor.configures {entry : HexafsAbsEntry} {object : UInt32} {type : UInt8}
    (h : EntryFor entry name object type) (hname : name = usersName ∨ name = pimpName) :
    entry.Configures := by
  rcases hname with rfl | rfl
  · exact .inl ((h.nameMatches_iff (by decide)).mpr (by decide))
  · exact .inr ((h.nameMatches_iff (by decide)).mpr (by decide))

/-- A configuration save that finds its blocks. -/
theorem ConfigOutcome.keepsHistory {ok : Bool}
    (h : ConfigOutcome env mem d roles name data ok mem' d') (hstore : Store mem d roles)
    (hname : name = usersName ∨ name = pimpName) (hquiet : mem'.allocator.outOfBlocks = false) :
    KeepsHistory roles d.sectors d'.sectors := by
  have hbad : ∀ {roles₁ : UInt32 → Option Role} {block : UInt32} {mem₁ : Memory} {d₁ : PlainDisk},
      ¬ConfigRefused env mem₁ d₁ roles₁ block data mem' d' := by
    intro roles₁ block mem₁ d₁ hrefused
    have htrue := hrefused.outOfBlocks
    rw [hquiet] at htrue
    cases htrue
  cases h with
  | empty hroot => exact .refl
  | foundRefused hroot hfind hrefused => exact absurd hrefused hbad
  | @foundWritten entry _ _ _ hroot hfind hwritten =>
    have habs := hstore.rootAbs_role hroot
    have hmem := List.mem_of_find?_eq_some hfind
    obtain ⟨i, hi⟩ := List.mem_iff_getElem?.mp hmem
    refine hwritten.keepsHistory hstore.heap (.inl ⟨_, _, hstore.heap.entry habs hi⟩)
      fun b hb other hother heq => ?_
    have hfound : nameMatches entry.name name = true :=
      (List.find?_eq_some_iff_append.mp hfind).1
    rw [hstore.heap.entry_inj hb habs hother hmem heq]
    rcases hname with rfl | rfl
    · exact .inl hfound
    · exact .inr hfound
  | full hroot hfind hfree hstore' => exact .refl
  | @leaked block _ _ _ _ _ hroot hfind hroom hcreated hwrote hnone hcases =>
    rcases hcases with ⟨_, hrefused⟩ | ⟨_, roles', hwritten⟩
    · exact absurd hrefused hbad
    · have hsame : ∀ c role, roles c = some role → _ := fun c role hc =>
        hwrote.sectors_eq (hstore.heap.not_fresh hc)
      have hheap := hstore.heap.frame (fun _ => id) hsame
      refine (hstore.heap.keepsHistory hsame).trans Extends.refl
        (hwritten.keepsHistory hheap (.inr ⟨hnone, hcreated.contents⟩)
          fun b hb entry hentry heq => ?_)
      obtain ⟨i, hi⟩ := List.mem_iff_getElem?.mp hentry
      have hrole := hheap.entry hb hi
      rw [heq, hnone] at hrole
      cases hrole
  | @added block a₁ d₁ roles₁ entry i _ _ _ hroot hfind hlink hroom hfree hcreated hquiet' hext
      hrole hstore' hentry hlist hcases =>
    rcases hcases with ⟨_, hrefused⟩ | ⟨_, roles', hwritten⟩
    · exact absurd hrefused hbad
    · have habs := hstore.rootAbs_role hroot
      have hconfig := hentry.configures hname
      have hbegun : Heap d.sectors roles mem.begun.allocator := hstore.begun.heap
      refine (hcreated.keepsHistory hbegun habs hconfig hlist).trans hext
        (hwritten.keepsHistory hstore'.heap (.inl ⟨_, _, hrole⟩) fun b hb other hother heq => ?_)
      have hmem : entry ∈
          absEntries d₁.sectors (rootAbsAt d.sectors mem.sbCache.rootSnapBlock) := by
        rw [hlist]
        exact List.mem_append_right _ (List.mem_singleton_self _)
      have hobject : entry.objectBlock = block := hentry.object
      rw [hstore'.heap.entry_inj hb (hext _ _ habs) hother hmem (heq.trans hobject.symm)]
      exact hconfig

/-- A call that finds its blocks keeps the history. -/
theorem StoreCall.keepsHistory (call : StoreCall) (hok : env.WritesOk) (h : Store mem d roles)
    (hfits : call.Fits mem) :
    call.code.wp (plainDevice env) mem d fun _ mem' d' =>
      mem'.allocator.outOfBlocks = false → KeepsHistory roles d.sectors d'.sectors := by
  cases call with
  | saveAll =>
    refine hexafsSaveAll_spec hok h fun mem' d' hout hquiet => ?_
    cases hout with
    | refused hrefused hd =>
      have htrue := hrefused.outOfBlocks
      rw [hquiet] at htrue
      cases htrue
    | saved hsaved => exact h.heap.keepsHistory hsaved.same
  | usersSave data =>
    rw [code, hexafsUsersSave]
    simp only [Code.wp_bind, Code.wp_pure]
    exact saveConfig_spec hok h hfits fun _ _ _ hout => hout.keepsHistory h (.inl rfl)
  | pimpSaveRules =>
    rw [code, HexaOS.Hexafs.pimpSaveRules]
    simp only [Code.wp_bind, Code.wp_memory, Code.wp_pure]
    exact saveConfig_spec hok h (Memory.length_rules hfits) fun _ _ _ hout =>
      hout.keepsHistory h (.inr rfl)
  | bootPolicyExecute =>
    rw [code]
    simp only [Code.wp_bind, Code.wp_pure]
    exact bootPolicyExecute_spec hok h fun mem' d' roles' _ _ _ _ hsame _ =>
      h.heap.keepsHistory hsame

end Calls

section Runs

variable {env : Environment} {roles : UInt32 → Option Role} {machine machine' : Machine}
  {log created : List Snapshot}

/-- Steps to a later machine, with the snapshots that were created on the way. -/
inductive SnapRuns (machine : Machine) : List Snapshot → Machine → Prop where
  | refl : SnapRuns machine [] machine
  | step {log created : List Snapshot} {middle machine' : Machine} (h : SnapRuns machine log middle)
    (hstep : SnapStep created middle machine') (hfull : machine'.NeverFull) :
    SnapRuns machine (created ++ log) machine'

/-- pimp_load_rules writes nothing. -/
theorem Chained.pimpLoadRules_sectors {ok : Bool} (h : Chained machine roles log) (hio : env.IoOk)
    (hrun : machine.run env HexaOS.Hexafs.pimpLoadRules = .ok (ok, machine')) :
    machine'.sectors = machine.sectors := by
  have hcleared : Chained machine.withoutRules roles log := h.reread
    h.settled.mounted.coherent ⟨rfl, rfl, rfl, rfl⟩ rfl
  have hload : (loadConfig pimpName).wp (plainDevice env) machine.withoutRules.mem
      machine.withoutRules.dev.plain fun _ _ d' => d' = machine.withoutRules.dev.plain :=
    loadConfig_spec hcleared.settled.mounted.store.readable rfl
  obtain ⟨read, middle, hread, _, hplain⟩ := Machine.run_spec hio.reads
    hcleared.settled.mounted.coherent hload fun _ _ d' hpost => by
      rw [hpost]
      exact fun _ => rfl
  rw [Machine.run_pimpLoadRules hread] at hrun
  obtain ⟨_, hdev⟩ := Machine.sameStore_storeRules hrun
  have hmiddle : middle.sectors = machine.withoutRules.sectors :=
    congrArg PlainDisk.sectors hplain
  rw [Machine.sectors, hdev]
  exact hmiddle

/-- A call that reads writes nothing. -/
theorem Chained.load_sectors {load : StoreLoad} (h : Chained machine roles log) (hio : env.IoOk)
    (hrun : machine.run env load.code = .ok ((), machine')) :
    machine'.sectors = machine.sectors := by
  have hstore := h.settled.mounted.store
  have hreads : load.code.wp (plainDevice env) machine.mem machine.dev.plain
      (fun _ _ d' => d'.sectors = machine.dev.plain.sectors ∧ ∀ b, d'.stale b = false) →
      machine'.sectors = machine.sectors := fun hwp =>
    (Machine.run_elim hio.reads h.settled.mounted.coherent hwp (fun _ _ _ hpost => hpost.2)
      hrun).2.1
  cases load with
  | loadAll =>
    refine hreads ?_
    exact hexafsLoadAll_spec hstore.readable ⟨rfl, fun _ => rfl⟩
  | usersLoad =>
    refine hreads ?_
    rw [StoreLoad.code]
    simp only [Code.wp_bind, Code.wp_pure]
    exact hexafsUsersLoad_spec hstore.readable ⟨rfl, fun _ => rfl⟩
  | pimpLoadRules =>
    rw [StoreLoad.code, Machine.run_bind] at hrun
    cases hload : machine.run env HexaOS.Hexafs.pimpLoadRules with
    | error stop =>
      rw [hload] at hrun
      cases hrun
    | ok result =>
      obtain ⟨ok, last⟩ := result
      rw [hload] at hrun
      have hend : ((), last) = ((), machine') := Except.ok.inj hrun
      rw [← (Prod.mk.inj hend).2]
      exact h.pimpLoadRules_sectors hio hload
  | snapFind name =>
    refine hreads ?_
    rw [StoreLoad.code]
    simp only [Code.wp_bind, Code.wp_pure]
    refine Code.wp_mono (h.snapFind name) fun _ mem' d' hpost => ?_
    obtain ⟨_, _, rfl⟩ := hpost
    exact ⟨rfl, fun _ => rfl⟩

/-- A mount of the sectors of a machine writes nothing. -/
theorem Chained.mount_sectors {other : Machine} {ok : Bool} (h : Chained machine roles log)
    (hio : env.IoOk) (hsec : other.sectors = machine.sectors)
    (hhint : other.mem.allocator.HintOk) (hidle : other.mem.currentTx.active = false)
    (hcoh : other.dev.Coherent) (hrun : other.run env hexafsMount = .ok (ok, machine')) :
    machine'.sectors = machine.sectors :=
  (h.settled.image.mount_run h.settled.committed.bitmap.symm hsec hhint hidle hcoh hio
    hrun).2.2.1

/-- One step keeps the history. -/
theorem Chained.keepsHistory (h : Chained machine roles log)
    (hstep : SnapStep created machine machine') (hfull : machine'.NeverFull) :
    ∃ roles', Chained machine' roles' (created ++ log) ∧ Extends roles roles' ∧
      KeepsHistory roles machine.sectors machine'.sectors := by
  cases hstep with
  | @call env _ _ call hio hfits hrun =>
    have hmounted := h.settled.mounted
    obtain ⟨hcoh, heffect, hkeeps⟩ := Machine.run_elim hio.reads hmounted.coherent
      (Code.wp_and (call.effect hio.writes hmounted.store hfits)
        (call.keepsHistory hio.writes hmounted.store hfits)) (fun _ mem' d' hpost => by
          obtain ⟨roles', _, hstore⟩ := hpost.1.store
          exact hstore.stale) hrun
    obtain ⟨roles', hext, hstore⟩ := heffect.store
    have hsettled : machine'.Settled roles' :=
      ⟨⟨hcoh, hstore⟩, heffect.committed hfull h.settled.committed⟩
    exact ⟨roles', h.cons hsettled hext rfl heffect.move call.snapName_short
      (heffect.snapshots hfull), hext, hkeeps hfull⟩
  | load hio hrun =>
    refine ⟨roles, h.load hio hrun, .refl, ?_⟩
    rw [h.load_sectors hio hrun]
    exact .refl
  | remount hio hrun =>
    have hstore := h.settled.mounted.store
    have hcoh := h.settled.mounted.coherent
    refine ⟨roles, h.mount hio rfl hstore.hint hstore.active_eq hcoh hrun, .refl, ?_⟩
    rw [h.mount_sectors hio rfl hstore.hint hstore.active_eq hcoh hrun]
    exact .refl
  | reboot hio hrun =>
    have hsec : (Machine.boot machine.sectors).sectors = machine.sectors := rfl
    have hcoh := Machine.coherent_boot machine.sectors
    refine ⟨roles, h.mount hio hsec Memory.boot_hintOk Memory.boot_idle hcoh hrun, .refl, ?_⟩
    rw [h.mount_sectors hio hsec Memory.boot_hintOk Memory.boot_idle hcoh hrun]
    exact .refl
  | edit hsame =>
    exact ⟨roles, h.reread h.settled.mounted.coherent hsame rfl, .refl, .refl⟩

/-- A run of any length keeps the history. -/
theorem SnapRuns.keepsHistory (h : SnapRuns machine created machine')
    (hchained : Chained machine roles log) :
    ∃ roles', Chained machine' roles' (created ++ log) ∧ Extends roles roles' ∧
      KeepsHistory roles machine.sectors machine'.sectors := by
  induction h with
  | refl => exact ⟨roles, hchained, .refl, .refl⟩
  | step _ hstep hfull ih =>
    obtain ⟨roles', hmiddle, hext, hkeeps⟩ := ih
    obtain ⟨roles'', hlast, hext', hkeeps'⟩ := hmiddle.keepsHistory hstep hfull
    rw [List.append_assoc]
    exact ⟨roles'', hlast, hext.trans hext', hkeeps.trans hext hkeeps'⟩

/-- In every run from a fresh format without failures, the snapshots that are on the chain at
one moment show the same ever after: their blocks stay, their entries stay in front of the list,
and every object but the configurations reads the same. -/
theorem snapRuns_keepSnapshots (h : SnapRun log machine)
    (hlater : SnapRuns machine created machine') :
    SnapChain machine'.sectors machine'.mem.sbCache.rootSnapBlock (created ++ log) ∧
      ∀ snap ∈ log, KeepsSnapshot machine.sectors machine'.sectors snap := by
  obtain ⟨roles, hchained⟩ := h.chained
  obtain ⟨_, hlast, _, hkeeps⟩ := hlater.keepsHistory hchained
  exact ⟨hlast.chain, fun snap hsnap =>
    hkeeps.snapshot hchained.settled.mounted.store.heap (hchained.roles snap hsnap)⟩

/-- Saving the accounts on a new store adds a snapshot. -/
theorem exists_usersRun : ∃ log created machine machine', SnapRun log machine ∧
    SnapRuns machine created machine' ∧ 1 ≤ log.length ∧ 1 ≤ created.length := by
  obtain ⟨first, roles, hmount, hfresh⟩ := exists_fresh
  have htest : testRun (fun _ start => testRun (fun _ last => !last.mem.allocator.outOfBlocks &&
      start.mem.txGen != 0 && start.mem.currentTx.snapBlock != 0 &&
      last.mem.txGen != start.mem.txGen && last.mem.currentTx.snapBlock != 0)
      (start.run .faultless (StoreCall.code (.usersSave [7]))))
      ((Machine.boot blankDisk).run .faultless hexafsMount) = true := by
    decide +kernel
  rw [hmount] at htest
  obtain ⟨_, start, hstart, husers⟩ := exists_of_testRun htest
  cases hstart
  obtain ⟨_, last, hrun, hlast⟩ := exists_of_testRun husers
  simp only [Bool.and_eq_true, Bool.not_eq_true', bne_iff_ne] at hlast
  obtain ⟨⟨⟨⟨hfull, hstart⟩, hfirst⟩, hgen⟩, hsnap⟩ := hlast
  have hio := Environment.faultless_ioOk
  have hformat : SnapRun (createdBetween bootOkName Memory.boot first.mem) first :=
    .format hio superblockValid_blankDisk hmount hfresh.neverFull
  have hfits : StoreCall.Fits first.mem (.usersSave [7]) :=
    (by decide : [(7 : UInt8)].length ≤ 2048)
  refine ⟨_, _, first, last, hformat, .step .refl (.call hio hfits hrun) hfull, ?_, ?_⟩
  · have hgen₁ : first.mem.txGen ≠ Memory.boot.txGen := hstart
    rw [createdBetween, if_neg (not_or.mpr ⟨hgen₁, hfirst⟩)]
    exact Nat.le_refl 1
  · rw [createdBetween, if_neg (not_or.mpr ⟨hgen, hsnap⟩)]
    exact Nat.le_refl 1

/-- The save of the accounts keeps the snapshot of the format. -/
theorem snapRuns_keepSnapshots_users :
    ∃ (log created : List Snapshot) (machine machine' : Machine), 1 ≤ log.length ∧
    1 ≤ created.length ∧
      SnapChain machine'.sectors machine'.mem.sbCache.rootSnapBlock (created ++ log) ∧
        ∀ snap ∈ log, KeepsSnapshot machine.sectors machine'.sectors snap := by
  obtain ⟨log, created, machine, machine', hrun, hlater, hlog, hcreated⟩ := exists_usersRun
  exact ⟨log, created, machine, machine', hlog, hcreated, snapRuns_keepSnapshots hrun hlater⟩

end Runs

end HexaOS.Hexafs
