import HexaOS.HexafsConfigCrash

/-!
# The boot policy and the next boot

boot_policy_execute commits a snapshot whose abstraction is block 0. What the three
loaders find at the next boot is then empty, unless there was no block for the
snapshot or there was nothing to load before.
-/

namespace HexaOS.Hexafs

open DevicePrograms PackedBytes StoreTyping

variable {env env' : Environment} {machine machine' : Machine} {roles : UInt32 → Option Role}
  {sectors : UInt32 → Sector} {root : UInt32} {name : CString}

section EmptyRoot

/-- Without a root abstraction there is no object to load. -/
theorem configAt_of_rootAbs_zero (h : rootAbsAt sectors root = 0) :
    configAt sectors root name = none := by
  rw [configAt, if_pos h]

/-- Without entries there is no object to load. -/
theorem configAt_of_entries_nil (h : absEntries sectors (rootAbsAt sectors root) = []) :
    configAt sectors root name = none := by
  rw [configAt, h]
  split <;> rfl

/-- As many forms are loaded as the first block of the root abstraction holds. -/
theorem Image.length_formsOf {a : Allocator} (h : Image sectors roles a) :
    (formsOf env sectors).length =
      if rootAbsAt sectors (rootOn sectors) = 0 then 0
      else min 11 (absEntries sectors (rootAbsAt sectors (rootOn sectors))).length := by
  by_cases hzero : rootAbsAt sectors (rootOn sectors) = 0
  · rw [formsOf, formsAt, if_pos hzero, if_pos hzero]
    rfl
  · have hsound : AbsSound sectors (rootAbsAt sectors (rootOn sectors)) :=
      h.heap.absSound (h.heap.rootAbsAt_role h.root hzero)
    rw [formsOf, formsAt, if_neg hzero, if_neg hzero, List.length_map, List.length_range,
      List.length_map, hsound.live_eq, List.length_take]

end EmptyRoot

/-- Everything that the three loaders find after a reboot. -/
def Machine.SameReload (env' : Environment) (machine machine' : Machine) : Prop :=
  reload env' machine'.sectors loadForms = reload env' machine.sectors loadForms ∧
    reload env' machine'.sectors hexafsUsersLoad = reload env' machine.sectors hexafsUsersLoad ∧
    reload env' machine'.sectors loadRules = reload env' machine.sectors loadRules

/-- The same forms and configuration objects under the roots make the same reload. -/
theorem Machine.Settled.sameReload {roles' : UInt32 → Option Role} (h : machine.Settled roles)
    (h' : machine'.Settled roles') (hreads : ∀ n, env'.readOk n = true)
    (hforms : formsOf env' machine'.sectors = formsOf env' machine.sectors)
    (hconfig : ∀ name, configAt machine'.sectors (rootOn machine'.sectors) name =
      configAt machine.sectors (rootOn machine.sectors) name) :
    machine.SameReload env' machine' := by
  refine ⟨?_, ?_, ?_⟩
  · rw [h.image.reload_forms hreads, h'.image.reload_forms hreads, hforms]
  · rw [h.image.reload_users hreads, h'.image.reload_users hreads, hconfig]
  · rw [h.image.reload_rules hreads, h'.image.reload_rules hreads, hconfig]

/-- The root after boot_policy_execute. -/
theorem BootPolicyRan.rootAbs {mem mem' : Memory} {d d' : PlainDisk}
    {roles' : UInt32 → Option Role} (h : BootPolicyRan env mem d roles mem' d' roles') :
    (mem.allocator.freeCount = 0 ∧ mem'.sbCache.rootSnapBlock = mem.sbCache.rootSnapBlock) ∨
      (0 < mem.allocator.freeCount ∧ rootAbsAt d'.sectors mem'.sbCache.rootSnapBlock = 0) := by
  have halloc : mem.policied.begun.allocator = mem.allocator := Memory.policied_allocator mem
  have hsb : mem.policied.begun.sbCache = mem.sbCache := Memory.policied_sbCache mem
  rcases h.root.outcome with ⟨hfree, _, hkept, _⟩ | ⟨s, hgrown, _, hs, hsnap⟩
  · rw [halloc] at hfree
    rw [hsb] at hkept
    exact .inl ⟨hfree, hkept⟩
  · have hcount := hgrown.freeCount_add
    rw [List.length_singleton, halloc] at hcount
    have hnew := hgrown.fresh s (List.mem_singleton_self s)
    have hat : snapAt d'.sectors s = newSnap (mem.policied.begun.marked 0) bootOkName := by
      rw [snapAt, hsnap, ofBlock_toBlock]
    refine .inr ⟨by omega, ?_⟩
    rw [h.store.heap.rootAbsAt_eq (h.store.root (by rw [hs]; exact hnew.1.ne_zero)), hs, hat]
    rfl

/-- boot_policy_execute returns on a mounted store. -/
theorem Machine.Mounted.bootPolicy_returns (h : machine.Mounted roles) (hio : env.IoOk) :
    ∃ ok machine', machine.run env bootPolicyExecute = .ok (ok, machine') := by
  have hwp : bootPolicyExecute.wp (plainDevice env) machine.mem machine.dev.plain
      fun _ _ _ => True :=
    bootPolicyExecute_spec hio.writes h.store fun _ _ _ _ _ _ _ _ => trivial
  obtain ⟨ok, machine', hrun, _⟩ := Machine.run_of_wp hio.reads h.coherent hwp
  exact ⟨ok, machine', hrun⟩

/-- What the loaders find after boot_policy_execute is what they found before it exactly
if there was no block for its snapshot or nothing to find. -/
theorem Machine.Settled.bootPolicy_sameReload_iff (h : machine.Settled roles) (hio : env.IoOk)
    (hreads : ∀ n, env'.readOk n = true) {ok : Bool}
    (hrun : machine.run env bootPolicyExecute = .ok (ok, machine')) :
    machine.SameReload env' machine' ↔
      machine.mem.allocator.freeCount = 0 ∨ rootAbsAt machine.sectors (rootOn machine.sectors) = 0 ∨
        absEntries machine.sectors (rootAbsAt machine.sectors (rootOn machine.sectors)) = [] := by
  obtain ⟨hcoh, roles', hran⟩ := h.mounted.bootPolicy hio hrun
  have h' : machine'.Settled roles' := ⟨⟨hcoh, hran.store⟩, hran.committed⟩
  have hheap := h.mounted.store.heap
  have hafter : (machine.mem.allocator.freeCount = 0 ∧
      rootOn machine'.sectors = rootOn machine.sectors) ∨
        (0 < machine.mem.allocator.freeCount ∧
          rootAbsAt machine'.sectors (rootOn machine'.sectors) = 0) := by
    rw [h'.rootOn_eq, h.rootOn_eq]
    exact hran.rootAbs
  constructor
  · intro hsame
    by_contra hcond
    simp only [not_or] at hcond
    obtain ⟨hfree, hne, hentries⟩ := hcond
    rcases hafter with ⟨hzero, _⟩ | ⟨_, habs⟩
    · exact hfree hzero
    · have hforms := hsame.1
      rw [h.image.reload_forms hreads, h'.image.reload_forms hreads] at hforms
      simp only [Except.ok.injEq, Prod.mk.injEq, true_and] at hforms
      have hlen := congrArg List.length hforms
      rw [h.image.length_formsOf, h'.image.length_formsOf, if_pos habs, if_neg hne] at hlen
      have hpos : 0 < (absEntries machine.sectors
          (rootAbsAt machine.sectors (rootOn machine.sectors))).length :=
        List.length_pos_of_ne_nil hentries
      omega
  · intro hcond
    rcases hafter with ⟨_, hroot⟩ | ⟨hpos, habs⟩
    · have hforms : formsOf env' machine'.sectors = formsOf env' machine.sectors := by
        refine formsOf_congr ?_
        rw [hroot]
        exact hheap.formsAt_eq h.image.root hran.same
      refine h.sameReload h' hreads hforms fun name => ?_
      rw [hroot]
      exact hheap.configAt_eq h.image.root hran.same
    · have hnone : ∀ name, configAt machine.sectors (rootOn machine.sectors) name = none := by
        intro name
        rcases hcond with hzero | hzero | hnil
        · omega
        · exact configAt_of_rootAbs_zero hzero
        · exact configAt_of_entries_nil hnil
      have hempty : (formsOf env' machine.sectors).length = 0 := by
        rw [h.image.length_formsOf]
        rcases hcond with hzero | hzero | hnil
        · omega
        · rw [if_pos hzero]
        · rw [hnil, List.length_nil, Nat.min_zero, ite_self]
      have hempty' : (formsOf env' machine'.sectors).length = 0 := by
        rw [h'.image.length_formsOf, if_pos habs]
      refine h.sameReload h' hreads ?_ fun name => ?_
      · rw [List.length_eq_zero_iff.mp hempty, List.length_eq_zero_iff.mp hempty']
      · rw [hnone, configAt_of_rootAbs_zero habs]

/-- On every committed store: a second boot finds the forms, accounts and rules of the
first exactly if boot_policy_execute had no block for its snapshot or the store held no
entry. -/
theorem bootPolicyExecute_sameReload_iff (h : machine.Settled roles) (hio : env.IoOk)
    (hreads : ∀ n, env'.readOk n = true) :
    ∃ ok machine', machine.run env bootPolicyExecute = .ok (ok, machine') ∧
      (machine.SameReload env' machine' ↔
        machine.mem.allocator.freeCount = 0 ∨
          rootAbsAt machine.sectors machine.mem.sbCache.rootSnapBlock = 0 ∨
            absEntries machine.sectors
              (rootAbsAt machine.sectors machine.mem.sbCache.rootSnapBlock) = []) := by
  obtain ⟨ok, machine', hrun⟩ := h.mounted.bootPolicy_returns hio
  have hiff := h.bootPolicy_sameReload_iff hio hreads hrun
  rw [h.rootOn_eq] at hiff
  exact ⟨ok, machine', hrun, hiff⟩

section Saved

/-- One saved form is gone at the boot after the next one. -/
theorem bootPolicy_notSameReload : ∃ machine machine' : Machine, ∃ ok, StoreRun machine ∧
    machine.mem.sbCache.rootSnapBlock ≠ 0 ∧
      machine.run .faultless bootPolicyExecute = .ok (ok, machine') ∧
        ¬machine.SameReload .faultless machine' := by
  obtain ⟨machine, roles, hsaved⟩ := exists_savedOne
  have hio := Environment.faultless_ioOk
  obtain ⟨ok, machine', hrun⟩ := hsaved.settled.mounted.bootPolicy_returns hio
  have hiff := hsaved.settled.bootPolicy_sameReload_iff hio hio.reads hrun
  refine ⟨machine, machine', ok, hsaved.run, hsaved.root, hrun, fun hsame => ?_⟩
  rcases hiff.mp hsame with hzero | hzero | hnil
  · exact hsaved.free hzero
  · rw [hsaved.settled.rootOn_eq] at hzero
    exact hsaved.rootAbs hzero
  · rw [hsaved.settled.rootOn_eq] at hnil
    exact hsaved.entries_ne_nil hnil

/-- The boot policy on a disk with one saved form. -/
theorem bootPolicyExecute_sameReload_iff_saved : ∃ machine : Machine, ∃ ok machine',
    machine.run .faultless bootPolicyExecute = .ok (ok, machine') ∧
      (machine.SameReload .faultless machine' ↔
        machine.mem.allocator.freeCount = 0 ∨
          rootAbsAt machine.sectors machine.mem.sbCache.rootSnapBlock = 0 ∨
            absEntries machine.sectors
              (rootAbsAt machine.sectors machine.mem.sbCache.rootSnapBlock) = []) := by
  obtain ⟨machine, roles, hsaved⟩ := exists_savedOne
  have hio := Environment.faultless_ioOk
  exact ⟨machine, bootPolicyExecute_sameReload_iff hsaved.settled hio hio.reads⟩

end Saved

end HexaOS.Hexafs
