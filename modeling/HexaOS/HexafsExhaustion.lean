import HexaOS.SnapshotHistory

/-!
# How long a store lasts

Nothing gives a block back that a writer has taken: what is used stays used over any run, and
every snapshot takes a block that was free. The free blocks of a store therefore bound the
snapshots that it can still take.
-/

namespace HexaOS.Hexafs

open DevicePrograms PackedBytes StoreTyping

section Allocators

/-- Every block that was used still is. -/
def Allocator.Retains (a a' : Allocator) : Prop := ∀ b, a.Used b → a'.Used b

variable {a a' a'' : Allocator} {blocks : List UInt32}

theorem Allocator.Retains.refl : a.Retains a := fun _ h => h

theorem Allocator.Retains.trans (h : a.Retains a') (h' : a'.Retains a'') : a.Retains a'' :=
  fun b hb => h' b (h b hb)

theorem Grown.retains (h : Grown a a' blocks) : a.Retains a' := fun b hb => (h.used b).mpr (.inl hb)

/-- A free block has been free all the time. -/
theorem Allocator.Retains.freeBlocks_subset (h : a.Retains a') : a'.freeBlocks ⊆ a.freeBlocks := by
  intro i hi
  rw [Allocator.freeBlocks, Finset.mem_filter, Finset.mem_Ico] at hi ⊢
  refine ⟨hi.1, Bool.eq_false_of_not_eq_true fun hused => ?_⟩
  have hsmall : i < 2 ^ 32 := hi.1.2.trans (by decide)
  have hof : (UInt32.ofNat i).toNat = i := by
    rw [UInt32.toNat_ofNat', Nat.mod_eq_of_lt hsmall]
  have hkept := h (UInt32.ofNat i)
  rw [Allocator.Used, Allocator.Used, hof] at hkept
  rw [hkept hused] at hi
  exact Bool.noConfusion hi.2

theorem Allocator.Retains.freeCount_le (h : a.Retains a') : a'.freeCount ≤ a.freeCount :=
  Finset.card_le_card h.freeBlocks_subset

/-- A block that is used now and was free before is missing now. -/
theorem Allocator.Retains.freeCount_lt (h : a.Retains a') {b : UInt32} (hfresh : a.Fresh b)
    (hused : a'.Used b) : a'.freeCount < a.freeCount := by
  refine Finset.card_lt_card ⟨h.freeBlocks_subset, fun hsub => ?_⟩
  exact (a'.mem_freeBlocks.mp (hsub (a.mem_freeBlocks.mpr hfresh))).2 hused

end Allocators

section Calls

variable {env : Environment} {start mem : Memory} {d : PlainDisk} {roles : UInt32 → Option Role}
  {name snapName : CString} {data : List UInt8}

/-- The last lines of a writer. -/
theorem commitRoot_retains (hok : env.WritesOk) (h : InCall start mem) (newRoot : UInt32) :
    (commitRoot newRoot name).wp (plainDevice env) mem d
      fun _ mem' _ => start.allocator.Retains mem'.allocator := by
  obtain ⟨before, hbefore⟩ := h.grown
  refine commitRoot_spec hok h.hint h.active (fun _ => hbefore.retains) fun b a' hgrown _ => ?_
  exact hbefore.retains.trans hgrown.retains

/-- The object write of a writer and the commit behind it. -/
theorem writeConfig_retains (hok : env.WritesOk) (h : InCall start mem) {absBlock block : UInt32}
    (hsafe : ObjectSafe mem.allocator d block) (hdata : data.length ≤ 2048) :
    (saveConfig.writeConfig snapName data absBlock block).wp (plainDevice env) mem d
      fun _ mem' _ => start.allocator.Retains mem'.allocator := by
  rw [saveConfig.writeConfig, Code.wp_bind]
  refine hexafsObjectWriteData_spec hsafe h.hint hdata (fun _ _ hbad => absurd hok hbad)
    (fun a₁ d₁ hcontent => ?_) fun fresh a₁ d₁ hcontent => ?_
  · obtain ⟨blocks, hgrown⟩ := hcontent.grown
    have hin := h.alloc hgrown
    obtain ⟨before, hbefore⟩ := hin.grown
    rw [if_neg Bool.false_ne_true]
    simp only [Code.wp_bind, Code.wp_pure]
    exact hexafsTxAbort_spec hin.active hbefore.retains
  · obtain ⟨blocks, hgrown⟩ := hcontent.grown
    rw [hok.returns, if_pos rfl]
    simp only [Code.wp_bind, Code.wp_pure]
    exact commitRoot_retains hok (h.alloc hgrown) absBlock

/-- hexafs_users_save and pimp_save_rules on a store. -/
theorem saveConfig_retains (hok : env.WritesOk) (h : Store mem d roles)
    (hdata : data.length ≤ 2048) :
    (saveConfig name snapName data).wp (plainDevice env) mem d
      fun _ mem' _ => mem.allocator.Retains mem'.allocator := by
  have hbegun : InCall mem mem.begun := ⟨h.hint, rfl, rfl, rfl, rfl, ⟨[], Grown.refl h.hint⟩⟩
  by_cases hroot : rootAbsAt d.sectors mem.sbCache.rootSnapBlock = 0
  · exact saveConfig_empty h hroot .refl
  · have habs := h.rootAbs_role hroot
    cases hfind : (absEntries d.sectors (rootAbsAt d.sectors mem.sbCache.rootSnapBlock)).find?
        fun e => nameMatches e.name name with
    | some entry =>
      obtain ⟨i, hi⟩ := List.mem_iff_getElem?.mp (List.mem_of_find?_eq_some hfind)
      exact saveConfig_found h hroot hfind (writeConfig_retains hok hbegun
        (h.heap.objectSafe h.stale (h.heap.entry habs hi)) hdata)
    | none =>
      refine saveConfig_new h hroot hfind (saveNewConfig_spec hok h.begun habs
        (fun _ _ => .refl) (fun block a₁ d₁ _ hcreated _ _ _ => ?_)
          fun block a₁ d₁ roles₁ entry i _ _ _ hcreated _ _ _ _ _ _ => ?_)
      · obtain ⟨blocks, hgrown, _⟩ := hcreated.grown
        exact writeConfig_retains hok (hbegun.alloc hgrown) hcreated.safe hdata
      · obtain ⟨blocks, hgrown, _⟩ := hcreated.grown
        exact writeConfig_retains hok (hbegun.alloc hgrown) hcreated.safe hdata

/-- No call of a writer gives a block back. -/
theorem StoreCall.retains (call : StoreCall) (hok : env.WritesOk) (h : Store mem d roles)
    (hfits : call.Fits mem) :
    call.code.wp (plainDevice env) mem d
      fun _ mem' _ => mem.allocator.Retains mem'.allocator := by
  cases call with
  | saveAll =>
    have hbegun : InCall mem mem.begun := ⟨h.hint, rfl, rfl, rfl, rfl, ⟨[], Grown.refl h.hint⟩⟩
    refine hexafsSaveAll_toCommit hok h (fun _ => .refl)
      fun n a₁ saved a₂ d₂ roles₂ _ _ hdone _ => ?_
    obtain ⟨blocks, hgrown⟩ := hdone.grown
    exact commitRoot_retains hok (hbegun.alloc hgrown) n
  | usersSave data =>
    rw [code, hexafsUsersSave]
    simp only [Code.wp_bind, Code.wp_pure]
    exact saveConfig_retains hok h hfits
  | pimpSaveRules =>
    rw [code, HexaOS.Hexafs.pimpSaveRules]
    simp only [Code.wp_bind, Code.wp_memory, Code.wp_pure]
    exact saveConfig_retains hok h (Memory.length_rules hfits)
  | bootPolicyExecute =>
    rw [code]
    simp only [Code.wp_bind, Code.wp_pure]
    have hpolicied : mem.policied.begun.allocator = mem.allocator := mem.policied_allocator
    have hbegun : InCall mem.policied mem.policied.begun :=
      ⟨h.policied.hint, rfl, rfl, rfl, rfl, ⟨[], Grown.refl h.policied.hint⟩⟩
    refine bootPolicyExecute_toCommit h.active_eq
      (Code.wp_mono (commitRoot_retains hok hbegun 0) fun _ mem' _ hretains => ?_)
    rw [mem.policied_allocator] at hretains
    exact hretains

end Calls

section Runs

variable {machine machine' : Machine} {roles : UInt32 → Option Role} {log created : List Snapshot}

/-- What a step does to the free blocks. -/
structure TakesBlocks (created : List Snapshot) (machine machine' : Machine) : Prop where
  /-- A used block stays used. -/
  retains : machine.mem.allocator.Retains machine'.mem.allocator
  /-- The free blocks bound what is created. -/
  bound : created.length + machine'.mem.allocator.freeCount ≤ machine.mem.allocator.freeCount

theorem TakesBlocks.of_bitmap (h : machine'.mem.allocator.bitmap = machine.mem.allocator.bitmap) :
    TakesBlocks [] machine machine' := by
  have hretains : machine.mem.allocator.Retains machine'.mem.allocator := by
    intro b hb
    rw [Allocator.Used, h]
    exact hb
  refine ⟨hretains, ?_⟩
  rw [List.length_nil, Nat.zero_add]
  exact hretains.freeCount_le

/-- A call that creates a snapshot takes a free block for it. -/
theorem RootMove.takesBlocks {name : CString} {d' : PlainDisk} {roles' : UInt32 → Option Role}
    (h : RootMove name machine.mem machine'.mem d')
    (hretains : machine.mem.allocator.Retains machine'.mem.allocator)
    (hstore : Store machine'.mem d' roles') :
    TakesBlocks (createdBetween name machine.mem machine'.mem) machine machine' := by
  refine ⟨hretains, ?_⟩
  cases h with
  | kept hroot hcreated =>
    rw [hcreated, List.length_nil, Nat.zero_add]
    exact hretains.freeCount_le
  | moved hfresh hcreated hmagic hname hparent =>
    have hrole := hstore.root hfresh.1.ne_zero
    have hlt := hretains.freeCount_lt hfresh (hstore.heap.covered _ _ hrole).2
    rw [hcreated, List.length_singleton]
    omega

/-- The bitmap of a settled machine is the one on its disk. -/
theorem Machine.Settled.bitmap_eq {roles' : UInt32 → Option Role} (h : machine.Settled roles)
    (h' : machine'.Settled roles') (hsec : machine'.sectors = machine.sectors) :
    machine'.mem.allocator.bitmap = machine.mem.allocator.bitmap := by
  rw [← h.committed.bitmap, ← h'.committed.bitmap, hsec]

/-- One step of a run. -/
theorem Chained.takesBlocks (h : Chained machine roles log)
    (hstep : SnapStep created machine machine') (hfull : machine'.NeverFull) :
    TakesBlocks created machine machine' := by
  obtain ⟨roles', hnext, _⟩ := h.keepsHistory hstep hfull
  cases hstep with
  | @call env _ _ call hio hfits hrun =>
    have hmounted := h.settled.mounted
    obtain ⟨_, heffect, hretains⟩ := Machine.run_elim hio.reads hmounted.coherent
      (Code.wp_and (call.effect hio.writes hmounted.store hfits)
        (call.retains hio.writes hmounted.store hfits)) (fun _ mem' d' hpost => by
          obtain ⟨roles', _, hstore⟩ := hpost.1.store
          exact hstore.stale) hrun
    obtain ⟨roles', _, hstore⟩ := heffect.store
    exact heffect.move.takesBlocks hretains hstore
  | load hio hrun => exact .of_bitmap (h.settled.bitmap_eq hnext.settled (h.load_sectors hio hrun))
  | remount hio hrun =>
    have hstore := h.settled.mounted.store
    exact .of_bitmap (h.settled.bitmap_eq hnext.settled
      (h.mount_sectors hio rfl hstore.hint hstore.active_eq h.settled.mounted.coherent hrun))
  | reboot hio hrun =>
    have hsec : (Machine.boot machine.sectors).sectors = machine.sectors := rfl
    exact .of_bitmap (h.settled.bitmap_eq hnext.settled
      (h.mount_sectors hio hsec Memory.boot_hintOk Memory.boot_idle
        (Machine.coherent_boot machine.sectors) hrun))
  | edit hsame => exact .of_bitmap (congrArg Allocator.bitmap hsame.allocator)

/-- The blocks of the snapshots are used blocks of the object area. -/
theorem Chained.length_add_freeCount (h : Chained machine roles log) :
    log.length + machine.mem.allocator.freeCount ≤ hexafsDiskBlocks - hexafsObjectLba := by
  have hblocks : ((log.map (·.block)).map UInt32.toNat).Nodup :=
    h.nodup.map fun _ _ => UInt32.toNat_inj.mp
  have hcard : ((log.map (·.block)).map UInt32.toNat).toFinset.card = log.length := by
    rw [List.toFinset_card_of_nodup hblocks, List.length_map, List.length_map]
  have hcovered : ∀ i ∈ ((log.map (·.block)).map UInt32.toNat).toFinset,
      i ∈ Finset.Ico hexafsObjectLba hexafsDiskBlocks ∧ i ∉ machine.mem.allocator.freeBlocks := by
    intro i hi
    obtain ⟨b, hb, rfl⟩ := List.mem_map.mp (List.mem_toFinset.mp hi)
    obtain ⟨snap, hsnap, rfl⟩ := List.mem_map.mp hb
    obtain ⟨hin, hused⟩ := h.settled.mounted.store.heap.covered _ _ (h.roles snap hsnap)
    exact ⟨Finset.mem_Ico.mpr hin, fun hfree =>
      (machine.mem.allocator.mem_freeBlocks.mp hfree).2 hused⟩
  have hdisjoint : Disjoint ((log.map (·.block)).map UInt32.toNat).toFinset
      machine.mem.allocator.freeBlocks :=
    Finset.disjoint_left.mpr fun i hi => (hcovered i hi).2
  have hsub : ((log.map (·.block)).map UInt32.toNat).toFinset ∪ machine.mem.allocator.freeBlocks ⊆
      Finset.Ico hexafsObjectLba hexafsDiskBlocks :=
    Finset.union_subset (fun i hi => (hcovered i hi).1) (Finset.filter_subset _ _)
  calc log.length + machine.mem.allocator.freeCount
      = (((log.map (·.block)).map UInt32.toNat).toFinset ∪
          machine.mem.allocator.freeBlocks).card := by
        rw [Finset.card_union_of_disjoint hdisjoint, hcard, Allocator.freeCount]
    _ ≤ (Finset.Ico hexafsObjectLba hexafsDiskBlocks).card := Finset.card_le_card hsub
    _ = hexafsDiskBlocks - hexafsObjectLba := Nat.card_Ico _ _

/-- A run of any length. -/
theorem SnapRuns.takesBlocks (h : SnapRuns machine created machine')
    (hchained : Chained machine roles log) : TakesBlocks created machine machine' := by
  induction h with
  | refl => exact .of_bitmap rfl
  | step hruns hstep hfull ih =>
    obtain ⟨_, hmiddle, _⟩ := hruns.keepsHistory hchained
    have hnext := hmiddle.takesBlocks hstep hfull
    refine ⟨ih.retains.trans hnext.retains, ?_⟩
    have hbefore := ih.bound
    have hafter := hnext.bound
    rw [List.length_append]
    omega

/-- In every run from a fresh format without failures, a used block stays used, the free blocks
at one moment bound the snapshots that are created from then on, and all snapshots together with
the free blocks fit the object area. -/
theorem snapRuns_takeBlocks (h : SnapRun log machine) (hlater : SnapRuns machine created machine') :
    TakesBlocks created machine machine' ∧
      created.length + log.length + machine'.mem.allocator.freeCount ≤
        hexafsDiskBlocks - hexafsObjectLba := by
  obtain ⟨roles, hchained⟩ := h.chained
  obtain ⟨roles', hlast, _⟩ := hlater.keepsHistory hchained
  refine ⟨hlater.takesBlocks hchained, ?_⟩
  rw [← List.length_append]
  exact hlast.length_add_freeCount

/-- The save of the accounts takes blocks of a new store. -/
theorem snapRuns_takeBlocks_users :
    ∃ (log created : List Snapshot) (machine machine' : Machine), 1 ≤ created.length ∧
    TakesBlocks created machine machine' ∧
      created.length + log.length + machine'.mem.allocator.freeCount ≤
        hexafsDiskBlocks - hexafsObjectLba := by
  obtain ⟨log, created, machine, machine', hrun, hlater, _, hcreated⟩ := exists_usersRun
  exact ⟨log, created, machine, machine', hcreated, snapRuns_takeBlocks hrun hlater⟩

end Runs

end HexaOS.Hexafs
