import HexaOS.HexafsLinkWalks
import HexaOS.HexafsTransactions
import Mathlib.Data.List.Find

/-!
# The chain of snapshots

hexafs_snap_create links a new snapshot to the root and makes it the root. From the root, the
parents therefore lead through everything that was created, newest first, and
hexafs_snap_find stops at the newest snapshot of a name. The invariant of a run says so about
the list of the snapshots that were created so far.
-/

namespace HexaOS.Hexafs

open DevicePrograms PackedBytes StoreTyping

section Chains

/-- A snapshot that was created. -/
structure Snapshot where
  /-- The name. -/
  name : CString
  /-- The block. -/
  block : UInt32

/-- From this block, the parents lead through these snapshots. -/
def SnapChain (sectors : UInt32 → Sector) : UInt32 → List Snapshot → Prop
  | block, [] => block = 0
  | block, snap :: older =>
    block = snap.block ∧ block ≠ 0 ∧ (snapAt sectors block).magic = hexafsSnapMagic ∧
      (snapAt sectors block).name = copyName (Vector.replicate 32 0) snap.name ∧
        SnapChain sectors (snapAt sectors block).parentSnapBlock older

/-- The block of the first snapshot that is wanted, 0 when there is none. -/
def firstBlock (wanted : Snapshot → Bool) (snaps : List Snapshot) : UInt32 :=
  match snaps.find? wanted with
  | some snap => snap.block
  | none => 0

/-- The block of the first snapshot with a name. -/
def newestNamed (name : CString) : List Snapshot → UInt32 := firstBlock fun snap => snap.name = name

/-- What the comparison of hexafs_snap_find accepts. -/
def Snapshot.Accepted (name : CString) (snap : Snapshot) : Bool :=
  name.chars ≠ [] && nameMatches (copyName (Vector.replicate 32 0) snap.name) name

variable {sectors sectors' : UInt32 → Sector} {block : UInt32} {snaps : List Snapshot}
  {name : CString}

theorem firstBlock_cons (wanted : Snapshot → Bool) (snap : Snapshot) :
    firstBlock wanted (snap :: snaps) =
      if wanted snap = true then snap.block else firstBlock wanted snaps := by
  rw [firstBlock, List.find?_cons]
  cases hwanted : wanted snap with
  | true => rfl
  | false => rfl

/-- Names that fit their field are compared as a whole. -/
theorem firstBlock_accepted (hshort : ∀ snap ∈ snaps, snap.name.chars.length ≤ 31)
    (hname : name.chars ≠ []) (hlen : name.chars.length ≤ 31) :
    firstBlock (Snapshot.Accepted name) snaps = newestNamed name snaps := by
  have hcongr : ∀ snap ∈ snaps, snap.Accepted name = decide (snap.name = name) := by
    intro snap hsnap
    have hmatch := nameMatches_copyName (Vector.replicate 32 0) snap.name
      (Nat.lt_succ_of_le hlen)
    rw [CString.truncate_of_le (hshort snap hsnap)] at hmatch
    rw [Snapshot.Accepted, decide_eq_true hname, Bool.true_and, Bool.eq_iff_iff, decide_eq_true_iff]
    exact hmatch
  rw [firstBlock, newestNamed, firstBlock, List.find?_congr hcongr]

/-- A chain depends on the sectors of its own blocks. -/
theorem SnapChain.congr (h : SnapChain sectors block snaps)
    (hsame : ∀ snap ∈ snaps, sectors' snap.block = sectors snap.block) :
    SnapChain sectors' block snaps := by
  induction snaps generalizing block with
  | nil => exact h
  | cons snap older ih =>
    obtain ⟨rfl, hne, hmagic, hname, hrest⟩ := h
    have hsnap : snapAt sectors' snap.block = snapAt sectors snap.block :=
      congrArg (ofBlock HexafsSnap) (hsame snap (List.mem_cons_self ..))
    refine ⟨rfl, hne, hsnap ▸ hmagic, hsnap ▸ hname, ?_⟩
    rw [hsnap]
    exact ih hrest fun other hother => hsame other (List.mem_cons_of_mem _ hother)

/-- The loop of hexafs_snap_find stops at the first snapshot on its chain that it accepts. -/
theorem snapFindLoop_spec {env : Environment} {mem : Memory} {d : PlainDisk} {fuel : ℕ}
    (h : SnapChain d.sectors block snaps)
    (hread : ∀ snap ∈ snaps, ValidLba snap.block ∧ d.stale snap.block = false)
    (hfuel : snaps.length < fuel) {post : UInt32 → Memory → PlainDisk → Prop}
    (hpost : post (firstBlock (Snapshot.Accepted name) snaps) mem d) :
    (snapFindLoop name fuel block).wp (plainDevice env) mem d post := by
  induction snaps generalizing block fuel with
  | nil =>
    obtain ⟨fuel, rfl⟩ := Nat.exists_eq_add_one_of_ne_zero (Nat.ne_of_gt hfuel)
    have hzero : block = 0 := h
    rw [snapFindLoop, if_pos hzero, Code.wp_pure]
    exact hpost
  | cons snap older ih =>
    obtain ⟨fuel, rfl⟩ := Nat.exists_eq_add_one_of_ne_zero (Nat.ne_of_gt (Nat.zero_lt_of_lt hfuel))
    obtain ⟨rfl, hne, hmagic, hstored, hrest⟩ := h
    have hthis : ofBlock HexafsSnap (d.sectors snap.block) = snapAt d.sectors snap.block := rfl
    obtain ⟨hvalid, hfresh⟩ := hread snap (List.mem_cons_self ..)
    have haccepted : (name.chars ≠ [] ∧ nameMatches (snapAt d.sectors snap.block).name name = true) ↔
        snap.Accepted name = true := by
      rw [hstored, Snapshot.Accepted, Bool.and_eq_true, decide_eq_true_iff]
    rw [snapFindLoop, if_neg hne, Code.wp_bind]
    refine wp_hexafsBlockRead hvalid hfresh ?_
    dsimp only
    rw [hthis, if_neg (not_not.mpr hmagic)]
    rw [firstBlock_cons] at hpost
    by_cases hfound : snap.Accepted name = true
    · rw [if_pos hfound] at hpost
      rw [if_pos (haccepted.mpr hfound), Code.wp_pure]
      exact hpost
    · rw [if_neg hfound] at hpost
      rw [if_neg fun hboth => hfound (haccepted.mp hboth)]
      exact ih hrest (fun other hother => hread other (List.mem_cons_of_mem _ hother))
        (Nat.lt_of_succ_lt_succ hfuel) hpost

/-- A list of snapshots without repetition has fewer entries than there are addresses. -/
theorem length_lt_chainFuel (h : (snaps.map (·.block)).Nodup) : snaps.length < chainFuel := by
  have hcard := List.Nodup.length_le_card (h.map fun a b => UInt32.toFin_inj.mp)
  rw [List.length_map, List.length_map, Fintype.card_fin] at hcard
  exact Nat.lt_succ_of_le hcard

end Chains

section Moves

/-- What was created between two states of the statics: hexafs_tx_begin counts tx_gen and
clears the snapshot of the transaction record, and hexafs_snap_create stores the block there
that it returns. -/
def createdBetween (name : CString) (mem mem' : Memory) : List Snapshot :=
  if mem'.txGen = mem.txGen ∨ mem'.currentTx.snapBlock = 0 then []
  else [⟨name, mem'.currentTx.snapBlock⟩]

/-- What a call does to the root: it keeps it and creates nothing, or it creates a snapshot
that becomes the root and has the old root as its parent. -/
inductive RootMove (name : CString) (mem mem' : Memory) (d' : PlainDisk) : Prop where
  | kept (hroot : mem'.sbCache.rootSnapBlock = mem.sbCache.rootSnapBlock)
    (hcreated : createdBetween name mem mem' = []) : RootMove name mem mem' d'
  | moved (hfresh : mem.allocator.Fresh mem'.sbCache.rootSnapBlock)
    (hcreated : createdBetween name mem mem' = [⟨name, mem'.sbCache.rootSnapBlock⟩])
    (hmagic : (snapAt d'.sectors mem'.sbCache.rootSnapBlock).magic = hexafsSnapMagic)
    (hname : (snapAt d'.sectors mem'.sbCache.rootSnapBlock).name =
      copyName (Vector.replicate 32 0) name)
    (hparent : (snapAt d'.sectors mem'.sbCache.rootSnapBlock).parentSnapBlock =
      mem.sbCache.rootSnapBlock) : RootMove name mem mem' d'

/-- The statics inside a call that started from `start` and has begun its transaction. -/
structure InCall (start mem : Memory) : Prop where
  /-- The hint is in range. -/
  hint : mem.allocator.HintOk
  /-- A transaction is open. -/
  active : mem.currentTx.active = true
  /-- It has made no snapshot. -/
  unsnapped : mem.currentTx.snapBlock = 0
  /-- It is the first one of the call. -/
  gen : mem.txGen = start.txGen + 1
  /-- The root is the one at the start. -/
  root : mem.sbCache.rootSnapBlock = start.sbCache.rootSnapBlock
  /-- What was taken was free. -/
  grown : ∃ blocks, Grown start.allocator mem.allocator blocks

variable {env : Environment} {start mem : Memory} {d : PlainDisk} {roles : UInt32 → Option Role}
  {name snapName : CString} {data : List UInt8}

theorem InCall.alloc (h : InCall start mem) {a : Allocator} {blocks : List UInt32}
    (hgrown : Grown mem.allocator a blocks) : InCall start { mem with allocator := a } := by
  obtain ⟨before, hbefore⟩ := h.grown
  exact ⟨hgrown.hint, h.active, h.unsnapped, h.gen, h.root, ⟨_, hbefore.trans hgrown⟩⟩

/-- A call that ends without a snapshot. -/
theorem InCall.kept (h : InCall start mem) {mem' : Memory} (d' : PlainDisk)
    (hroot : mem'.sbCache.rootSnapBlock = mem.sbCache.rootSnapBlock)
    (hsnap : mem'.currentTx.snapBlock = mem.currentTx.snapBlock) : RootMove name start mem' d' := by
  refine .kept (hroot.trans h.root) ?_
  rw [createdBetween, if_pos (.inr (hsnap.trans h.unsnapped))]

/-- The last lines of a writer. -/
theorem commitRoot_moves (hok : env.WritesOk) (h : InCall start mem) (newRoot : UInt32) :
    (commitRoot newRoot name).wp (plainDevice env) mem d
      fun _ mem' d' => RootMove name start mem' d' := by
  refine commitRoot_spec hok h.hint h.active (fun _ => h.kept _ rfl rfl) fun b a' hgrown _ => ?_
  have hfresh := hgrown.fresh b (List.mem_singleton_self b)
  obtain ⟨before, hbefore⟩ := h.grown
  have hsnap : snapAt (commitDisk env ((mem.marked newRoot).withSnap a' b)
      (snapDisk env (mem.marked newRoot) name b d)).sectors b = newSnap (mem.marked newRoot) name := by
    rw [snapAt, wrote_commitDisk.sectors_eq hfresh.1.not_commitSector, snapDisk,
      (PlainDisk.write_reaches _ _ (hok.reaches _)).1, ofBlock_toBlock]
  have hroot : ((mem.marked newRoot).withSnap a' b).committed.sbCache.rootSnapBlock = b := rfl
  refine .moved (hbefore.fresh_of_fresh hfresh) ?_ ?_ ?_ ?_
  · have hgen : ((mem.marked newRoot).withSnap a' b).committed.txGen = start.txGen + 1 := h.gen
    have hblock : ((mem.marked newRoot).withSnap a' b).committed.currentTx.snapBlock = b := rfl
    rw [createdBetween, hgen, hblock, hroot, if_neg]
    rintro (hsame | hzero)
    · omega
    · exact hfresh.1.ne_zero hzero
  · rw [hroot, hsnap]
    rfl
  · rw [hroot, hsnap]
    rfl
  · rw [hroot, hsnap]
    exact h.root

/-- hexafs_save_all on a store. -/
theorem hexafsSaveAll_moves (hok : env.WritesOk) (h : Store mem d roles) :
    hexafsSaveAll.wp (plainDevice env) mem d fun _ mem' d' => RootMove liveName mem mem' d' := by
  have hbegun : InCall mem mem.begun := ⟨h.hint, rfl, rfl, rfl, rfl, ⟨[], Grown.refl h.hint⟩⟩
  refine hexafsSaveAll_toCommit hok h (fun _ => hbegun.kept _ rfl rfl)
    fun n a₁ saved a₂ d₂ roles₂ _ _ hdone _ => ?_
  obtain ⟨blocks, hgrown⟩ := hdone.grown
  exact commitRoot_moves hok (hbegun.alloc hgrown) n

/-- The object write of a writer and the commit behind it. -/
theorem writeConfig_moves (hok : env.WritesOk) (h : InCall start mem) {absBlock block : UInt32}
    (hsafe : ObjectSafe mem.allocator d block) (hdata : data.length ≤ 2048) :
    (saveConfig.writeConfig snapName data absBlock block).wp (plainDevice env) mem d
      fun _ mem' d' => RootMove snapName start mem' d' := by
  rw [saveConfig.writeConfig, Code.wp_bind]
  refine hexafsObjectWriteData_spec hsafe h.hint hdata (fun _ _ hbad => absurd hok hbad)
    (fun a₁ d₁ hcontent => ?_) fun fresh a₁ d₁ hcontent => ?_
  · obtain ⟨blocks, hgrown⟩ := hcontent.grown
    have hin := h.alloc hgrown
    rw [if_neg Bool.false_ne_true]
    simp only [Code.wp_bind, Code.wp_pure]
    exact hexafsTxAbort_spec hin.active (hin.kept _ rfl rfl)
  · obtain ⟨blocks, hgrown⟩ := hcontent.grown
    rw [hok.returns, if_pos rfl]
    simp only [Code.wp_bind, Code.wp_pure]
    exact commitRoot_moves hok (h.alloc hgrown) absBlock

/-- hexafs_users_save and pimp_save_rules on a store. -/
theorem saveConfig_moves (hok : env.WritesOk) (h : Store mem d roles) (hdata : data.length ≤ 2048) :
    (saveConfig name snapName data).wp (plainDevice env) mem d
      fun _ mem' d' => RootMove snapName mem mem' d' := by
  have hbegun : InCall mem mem.begun := ⟨h.hint, rfl, rfl, rfl, rfl, ⟨[], Grown.refl h.hint⟩⟩
  by_cases hroot : rootAbsAt d.sectors mem.sbCache.rootSnapBlock = 0
  · exact saveConfig_empty h hroot (hbegun.kept _ rfl rfl)
  · have habs := h.rootAbs_role hroot
    cases hfind : (absEntries d.sectors (rootAbsAt d.sectors mem.sbCache.rootSnapBlock)).find?
        fun e => nameMatches e.name name with
    | some entry =>
      obtain ⟨i, hi⟩ := List.mem_iff_getElem?.mp (List.mem_of_find?_eq_some hfind)
      exact saveConfig_found h hroot hfind (writeConfig_moves hok hbegun
        (h.heap.objectSafe h.stale (h.heap.entry habs hi)) hdata)
    | none =>
      refine saveConfig_new h hroot hfind (saveNewConfig_spec hok h.begun habs
        (fun _ _ => hbegun.kept _ rfl rfl) (fun block a₁ d₁ _ hcreated _ _ _ => ?_)
          fun block a₁ d₁ roles₁ entry i _ _ _ hcreated _ _ _ _ _ _ => ?_)
      · obtain ⟨blocks, hgrown, _⟩ := hcreated.grown
        exact writeConfig_moves hok (hbegun.alloc hgrown) hcreated.safe hdata
      · obtain ⟨blocks, hgrown, _⟩ := hcreated.grown
        exact writeConfig_moves hok (hbegun.alloc hgrown) hcreated.safe hdata

/-- boot_policy_execute on a store. -/
theorem bootPolicyExecute_moves (hok : env.WritesOk) (h : Store mem d roles) :
    bootPolicyExecute.wp (plainDevice env) mem d
      fun _ mem' d' => RootMove bootOkName mem mem' d' := by
  have hgen : mem.policied.txGen = mem.txGen := by
    rw [Memory.policied]
    split <;> rfl
  have hbegun : InCall mem mem.policied.begun := by
    refine ⟨?_, rfl, rfl, ?_, ?_, ⟨[], ?_⟩⟩
    · exact h.policied.hint
    · exact congrArg (· + 1) hgen
    · exact congrArg HexafsSuperblock.rootSnapBlock mem.policied_sbCache
    · have hrefl := Grown.refl h.hint
      have halloc : mem.policied.begun.allocator = mem.allocator := mem.policied_allocator
      rw [halloc]
      exact hrefl
  exact bootPolicyExecute_toCommit h.active_eq (commitRoot_moves hok hbegun 0)

/-- Formatting: the first snapshot has no parent. -/
theorem formatStore_moves (hok : env.WritesOk) (hhint : mem.allocator.HintOk)
    (hidle : mem.currentTx.active = false) :
    formatStore.wp (plainDevice env) mem d
      fun _ mem' d' => RootMove bootOkName mem.formatted mem' d' := by
  refine formatStore_toCommit hok hhint hidle fun n a' d₁ hgrown _ _ _ hbegun => ?_
  have hin : InCall mem.formatted (Memory.begun { mem.formatted with allocator := a' }) :=
    ⟨hbegun.hint, rfl, rfl, rfl, rfl, ⟨[n], hgrown⟩⟩
  exact commitRoot_moves hok hin n

end Moves

section Calls

/-- The name of the snapshot that a call creates. -/
def StoreCall.snapName : StoreCall → CString
  | .saveAll => liveName
  | .usersSave _ => usersUpdateName
  | .pimpSaveRules => pimpUpdateName
  | .bootPolicyExecute => bootOkName

/-- The sizes that the callers of the writers keep to. -/
def StoreCall.Fits (mem : Memory) : StoreCall → Prop
  | .saveAll => True
  | .usersSave data => data.length ≤ 2048
  | .pimpSaveRules => mem.pimpCount ≤ pimpRuleMax
  | .bootPolicyExecute => True

variable {env : Environment} {mem : Memory} {d : PlainDisk} {roles : UInt32 → Option Role}
  {name : CString} {data : List UInt8} {machine machine' : Machine}

/-- What a call does to a store, when every write succeeds. -/
structure CallEffect (call : StoreCall) (mem : Memory) (d : PlainDisk)
    (roles : UInt32 → Option Role) (mem' : Memory) (d' : PlainDisk) : Prop where
  /-- The root moves on or stays. -/
  move : RootMove call.snapName mem mem' d'
  /-- The store is in order. -/
  store : ∃ roles', Extends roles roles' ∧ Store mem' d' roles'
  /-- Unless the disk is full, the snapshots stay. -/
  snapshots : mem'.allocator.outOfBlocks = false → ∀ b, roles b = some .snapshot →
    d'.sectors b = d.sectors b
  /-- Unless it is full, what was committed stays so. -/
  committed : mem'.allocator.outOfBlocks = false → Committed mem d.sectors →
    Committed mem' d'.sectors

/-- A configuration save that finds its blocks keeps the snapshots. -/
theorem ConfigOutcome.snapshots {ok : Bool} {mem' : Memory} {d' : PlainDisk}
    (h : ConfigOutcome env mem d roles name data ok mem' d') (hstore : Store mem d roles)
    (hquiet : mem'.allocator.outOfBlocks = false) {b : UInt32} (hb : roles b = some .snapshot) :
    d'.sectors b = d.sectors b := by
  have hbad : ∀ {roles₁ : UInt32 → Option Role} {block : UInt32} {mem₁ : Memory} {d₁ : PlainDisk},
      ¬ConfigRefused env mem₁ d₁ roles₁ block data mem' d' := by
    intro roles₁ block mem₁ d₁ hrefused
    have htrue := hrefused.outOfBlocks
    rw [hquiet] at htrue
    cases htrue
  cases h with
  | empty hroot => rfl
  | foundRefused hroot hfind hrefused => exact absurd hrefused hbad
  | foundWritten hroot hfind hwritten =>
    obtain ⟨i, hi⟩ := List.mem_iff_getElem?.mp (List.mem_of_find?_eq_some hfind)
    have hrole := hstore.heap.entry (hstore.rootAbs_role hroot) hi
    exact hwritten.structural hstore.heap (.inl ⟨_, _, hrole⟩) hb trivial
  | full hroot hfind hfree hstore' => rfl
  | leaked hroot hfind hroom hcreated hwrote hnone hcases =>
    rcases hcases with ⟨_, hrefused⟩ | ⟨_, roles', hwritten⟩
    · exact absurd hrefused hbad
    · have hsame : ∀ c role, roles c = some role → _ := fun c role hc =>
        hwrote.sectors_eq (hstore.heap.not_fresh hc)
      have hheap := hstore.heap.frame (fun _ => id) hsame
      rw [hwritten.structural hheap (.inr ⟨hnone, hcreated.contents⟩) hb trivial]
      exact hsame b _ hb
  | added hroot hfind hlink hroom hfree hcreated hquiet' hext hrole hstore' hentry hlist hcases =>
    rcases hcases with ⟨_, hrefused⟩ | ⟨_, roles', hwritten⟩
    · exact absurd hrefused hbad
    · rw [hwritten.structural hstore'.heap (.inl ⟨_, _, hrole⟩) (hext _ _ hb) trivial]
      refine hcreated.wrote.sectors_eq fun hor => ?_
      rcases hor with heq | hfresh
      · have habs := hstore.rootAbs_role hroot
        rw [← heq, hb] at habs
        cases habs
      · exact hstore.heap.not_fresh hb hfresh

/-- hexafs_users_save and pimp_save_rules on a store. -/
theorem saveConfig_effect (call : StoreCall) (hok : env.WritesOk) (h : Store mem d roles)
    (hdata : data.length ≤ 2048) :
    (saveConfig name call.snapName data).wp (plainDevice env) mem d
      fun _ mem' d' => CallEffect call mem d roles mem' d' := by
  have hout : (saveConfig name call.snapName data).wp (plainDevice env) mem d
      fun ok mem' d' => ConfigOutcome env mem d roles name data ok mem' d' :=
    saveConfig_spec hok h hdata fun _ _ _ hout => hout
  refine Code.wp_mono (Code.wp_and hout (saveConfig_moves hok h hdata)) fun ok mem' d' hboth => ?_
  obtain ⟨hout, hmove⟩ := hboth
  exact ⟨hmove, hout.store h, fun hquiet b hb => hout.snapshots h hquiet hb,
    fun hquiet hcommitted => hout.committed hcommitted hquiet⟩

/-- Every call of a writer on a store. -/
theorem StoreCall.effect (call : StoreCall) (hok : env.WritesOk) (h : Store mem d roles)
    (hfits : call.Fits mem) :
    call.code.wp (plainDevice env) mem d fun _ mem' d' => CallEffect call mem d roles mem' d' := by
  cases call with
  | saveAll =>
    have hout : hexafsSaveAll.wp (plainDevice env) mem d
        fun _ mem' d' => SaveOutcome env mem d roles mem' d' :=
      hexafsSaveAll_spec hok h fun _ _ hout => hout
    refine Code.wp_mono (Code.wp_and hout (hexafsSaveAll_moves hok h)) fun _ mem' d' hboth => ?_
    obtain ⟨hout, hmove⟩ := hboth
    cases hout with
    | refused hrefused hd =>
      have hbad : mem'.allocator.outOfBlocks ≠ false := by
        rw [hrefused.outOfBlocks]
        exact fun heq => Bool.false_ne_true heq.symm
      exact ⟨hmove, ⟨roles, Extends.refl, hd ▸ hrefused.store⟩, fun hquiet => absurd hquiet hbad,
        fun hquiet => absurd hquiet hbad⟩
    | saved hsaved =>
      exact ⟨hmove, ⟨_, hsaved.extend, hsaved.store⟩, fun _ b hb => hsaved.same b _ hb,
        fun _ _ => hsaved.committed⟩
  | usersSave data =>
    rw [code, hexafsUsersSave]
    simp only [Code.wp_bind, Code.wp_pure]
    exact saveConfig_effect (.usersSave data) hok h hfits
  | pimpSaveRules =>
    rw [code, HexaOS.Hexafs.pimpSaveRules]
    simp only [Code.wp_bind, Code.wp_memory, Code.wp_pure]
    exact saveConfig_effect .pimpSaveRules hok h (Memory.length_rules hfits)
  | bootPolicyExecute =>
    have hran : HexaOS.Hexafs.bootPolicyExecute.wp (plainDevice env) mem d
        fun _ mem' d' => ∃ roles', BootPolicyRan env mem d roles mem' d' roles' :=
      bootPolicyExecute_spec hok h fun mem' d' roles' hext hstore hcommitted hroot hsame =>
        ⟨roles', hext, hstore, hcommitted, hroot, hsame⟩
    rw [code]
    simp only [Code.wp_bind, Code.wp_pure]
    refine Code.wp_mono (Code.wp_and hran (bootPolicyExecute_moves hok h)) fun _ mem' d' hboth => ?_
    obtain ⟨⟨roles', hran⟩, hmove⟩ := hboth
    exact ⟨hmove, ⟨roles', hran.extend, hran.store⟩, fun _ b hb => hran.same b _ hb,
      fun _ _ => hran.committed⟩

end Calls

section Loads

/-- A call that reads the store. -/
inductive StoreLoad where
  | loadAll
  | usersLoad
  | pimpLoadRules
  | snapFind (name : CString)

/-- The code of a call, with its result dropped. -/
def StoreLoad.code : StoreLoad → HexafsM Unit
  | .loadAll => hexafsLoadAll
  | .usersLoad => do
    let _ ← hexafsUsersLoad
    pure ()
  | .pimpLoadRules => do
    let _ ← HexaOS.Hexafs.pimpLoadRules
    pure ()
  | .snapFind name => do
    let _ ← hexafsSnapFind name
    pure ()

end Loads

section Runs

variable {env : Environment} {roles : UInt32 → Option Role} {machine machine' : Machine}
  {log created : List Snapshot}

/-- One step of a run without failures, with the snapshots that it creates. -/
inductive SnapStep : List Snapshot → Machine → Machine → Prop where
  | call {env : Environment} {machine machine' : Machine} {call : StoreCall} (hio : env.IoOk)
    (hfits : call.Fits machine.mem) (hrun : machine.run env call.code = .ok ((), machine')) :
    SnapStep (createdBetween call.snapName machine.mem machine'.mem) machine machine'
  | load {env : Environment} {machine machine' : Machine} {load : StoreLoad} (hio : env.IoOk)
    (hrun : machine.run env load.code = .ok ((), machine')) : SnapStep [] machine machine'
  /-- hexafs_mount on the running machine. -/
  | remount {env : Environment} {machine machine' : Machine} {ok : Bool} (hio : env.IoOk)
    (hrun : machine.run env hexafsMount = .ok (ok, machine')) : SnapStep [] machine machine'
  /-- The machine is switched off and on. -/
  | reboot {env : Environment} {machine machine' : Machine} {ok : Bool} (hio : env.IoOk)
    (hrun : (Machine.boot machine.sectors).run env hexafsMount = .ok (ok, machine')) :
    SnapStep [] machine machine'
  | edit {machine : Machine} {mem' : Memory} (hsame : machine.mem.SameStore mem') :
    SnapStep [] machine ⟨mem', machine.dev⟩

/-- A run from a fresh format, with the snapshots that were created in it, newest first. -/
inductive SnapRun : List Snapshot → Machine → Prop where
  | format {env : Environment} {sectors : UInt32 → Sector} {machine : Machine} {ok : Bool}
    (hio : env.IoOk) (hvalid : superblockValid (superblockAt sectors) = false)
    (hrun : (Machine.boot sectors).run env hexafsMount = .ok (ok, machine))
    (hfull : machine.NeverFull) : SnapRun (createdBetween bootOkName Memory.boot machine.mem) machine
  | step {log created : List Snapshot} {machine machine' : Machine} (h : SnapRun log machine)
    (hstep : SnapStep created machine machine') (hfull : machine'.NeverFull) :
    SnapRun (created ++ log) machine'

/-- The invariant: the chain from the root is the list of what was created. -/
structure Chained (machine : Machine) (roles : UInt32 → Option Role) (log : List Snapshot) :
    Prop where
  /-- The machine is settled. -/
  settled : machine.Settled roles
  /-- The chain is the log. -/
  chain : SnapChain machine.sectors machine.mem.sbCache.rootSnapBlock log
  /-- The blocks of the log are snapshots. -/
  roles : ∀ snap ∈ log, roles snap.block = some .snapshot
  /-- They are different. -/
  nodup : (log.map (·.block)).Nodup
  /-- Their names fit. -/
  short : ∀ snap ∈ log, snap.name.chars.length ≤ 31

/-- A machine whose root and snapshots are unchanged. -/
theorem Chained.frame {roles' : UInt32 → Option Role} (h : Chained machine roles log)
    (hsettled : machine'.Settled roles') (hext : Extends roles roles')
    (hroot : machine'.mem.sbCache.rootSnapBlock = machine.mem.sbCache.rootSnapBlock)
    (hsame : ∀ b, roles b = some .snapshot → machine'.sectors b = machine.sectors b) :
    Chained machine' roles' log := by
  refine ⟨hsettled, ?_, fun snap hsnap => hext _ _ (h.roles snap hsnap), h.nodup, h.short⟩
  rw [hroot]
  exact h.chain.congr fun snap hsnap => hsame _ (h.roles snap hsnap)

/-- A new snapshot in front of the chain. -/
theorem Chained.cons {roles' : UInt32 → Option Role} {name : CString} {d' : PlainDisk}
    (h : Chained machine roles log) (hsettled : machine'.Settled roles')
    (hext : Extends roles roles') (hplain : machine'.dev.plain = d')
    (hmove : RootMove name machine.mem machine'.mem d') (hname : name.chars.length ≤ 31)
    (hsame : ∀ b, roles b = some .snapshot → machine'.sectors b = machine.sectors b) :
    Chained machine' roles' (createdBetween name machine.mem machine'.mem ++ log) := by
  cases hmove with
  | kept hroot hcreated =>
    rw [hcreated]
    exact h.frame hsettled hext hroot hsame
  | moved hfresh hcreated hmagic hstored hparent =>
    have hsec : machine'.sectors = d'.sectors := congrArg PlainDisk.sectors hplain
    rw [← hsec] at hmagic hstored hparent
    have hne := hfresh.1.ne_zero
    rw [hcreated, List.singleton_append]
    refine ⟨hsettled, ⟨rfl, hne, hmagic, hstored, ?_⟩, ?_, ?_, ?_⟩
    · rw [hparent]
      exact h.chain.congr fun snap hsnap => hsame _ (h.roles snap hsnap)
    · intro snap hsnap
      rcases List.mem_cons.mp hsnap with rfl | hold
      · exact hsettled.mounted.store.root hne
      · exact hext _ _ (h.roles snap hold)
    · rw [List.map_cons, List.nodup_cons]
      refine ⟨fun hmem => ?_, h.nodup⟩
      obtain ⟨old, hold, heq⟩ := List.mem_map.mp hmem
      have hrole := h.roles old hold
      rw [heq] at hrole
      exact h.settled.mounted.store.heap.not_fresh hrole hfresh
    · intro snap hsnap
      rcases List.mem_cons.mp hsnap with rfl | hold
      · exact hname
      · exact h.short snap hold

theorem StoreCall.snapName_short (call : StoreCall) : call.snapName.chars.length ≤ 31 := by
  cases call with
  | saveAll => exact (by decide : liveName.chars.length ≤ 31)
  | usersSave data => exact (by decide : usersUpdateName.chars.length ≤ 31)
  | pimpSaveRules => exact (by decide : pimpUpdateName.chars.length ≤ 31)
  | bootPolicyExecute => exact (by decide : bootOkName.chars.length ≤ 31)

/-- A call of a writer. -/
theorem Chained.call {call : StoreCall} (h : Chained machine roles log) (hio : env.IoOk)
    (hfits : call.Fits machine.mem) (hrun : machine.run env call.code = .ok ((), machine'))
    (hfull : machine'.NeverFull) : ∃ roles', Chained machine' roles'
      (createdBetween call.snapName machine.mem machine'.mem ++ log) := by
  have hmounted := h.settled.mounted
  obtain ⟨hcoh, heffect⟩ := Machine.run_elim hio.reads hmounted.coherent
    (call.effect hio.writes hmounted.store hfits) (fun _ mem' d' heffect => by
      obtain ⟨roles', _, hstore⟩ := heffect.store
      exact hstore.stale) hrun
  obtain ⟨roles', hext, hstore⟩ := heffect.store
  have hsettled : machine'.Settled roles' :=
    ⟨⟨hcoh, hstore⟩, heffect.committed hfull h.settled.committed⟩
  exact ⟨roles', h.cons hsettled hext rfl heffect.move call.snapName_short
    (heffect.snapshots hfull)⟩

/-- A mount of the sectors of a machine. -/
theorem Chained.mount {other : Machine} {ok : Bool} (h : Chained machine roles log)
    (hio : env.IoOk) (hsec : other.sectors = machine.sectors)
    (hhint : other.mem.allocator.HintOk) (hidle : other.mem.currentTx.active = false)
    (hcoh : other.dev.Coherent) (hrun : other.run env hexafsMount = .ok (ok, machine')) :
    Chained machine' roles log := by
  obtain ⟨_, hsettled, hsame, _⟩ := h.settled.image.mount_run h.settled.committed.bitmap.symm hsec
    hhint hidle hcoh hio hrun
  refine h.frame hsettled Extends.refl ?_ fun b _ => congrFun hsame b
  rw [← hsettled.rootOn_eq, ← h.settled.rootOn_eq, hsame]

/-- A machine whose store and sectors are unchanged. -/
theorem Chained.reread (h : Chained machine roles log) (hcoh : machine'.dev.Coherent)
    (hsame : machine.mem.SameStore machine'.mem) (hsec : machine'.sectors = machine.sectors) :
    Chained machine' roles log := by
  have hstore := h.settled.mounted.store.sameStore hsame
  have hcommitted := h.settled.committed
  have hplain : machine'.dev.plain.sectors = machine.dev.plain.sectors := hsec
  have hsettled : machine'.Settled roles := by
    refine ⟨⟨hcoh, ?_, hstore.hint, hstore.root, hstore.mounted, hstore.active_eq, fun _ => rfl, ?_⟩,
      ?_, ?_, ?_⟩
    · rw [hplain]
      exact hstore.heap
    · rw [hplain]
      exact hstore.clean
    · rw [hsec, hsame.sbCache]
      exact hcommitted.superblock
    · rw [hsame.sbCache]
      exact hcommitted.valid
    · rw [hsec, hsame.allocator]
      exact hcommitted.bitmap
  exact h.frame hsettled Extends.refl (congrArg HexafsSuperblock.rootSnapBlock hsame.sbCache)
    fun b _ => congrFun hsec b

theorem Memory.SameStore.refl (mem : Memory) : mem.SameStore mem := ⟨rfl, rfl, rfl, rfl⟩

theorem Memory.sameStore_loaded (mem : Memory) (sectors : UInt32 → Sector) (k : ℕ) :
    mem.SameStore (mem.loaded env sectors k).1 := by
  rw [Memory.loaded]
  cases formsAt sectors mem.sbCache.rootSnapBlock with
  | none => exact ⟨rfl, rfl, rfl, rfl⟩
  | some reads => exact ⟨rfl, rfl, rfl, rfl⟩

/-- Storing the rules needs no device. -/
theorem Machine.sameStore_storeRules {read : Option ObjectRead} {ok : Bool}
    (hrun : machine.run env (storeRules read) = .ok (ok, machine')) :
    machine.mem.SameStore machine'.mem ∧ machine'.dev = machine.dev := by
  cases read with
  | none =>
    have hend : (false, machine) = (ok, machine') := Except.ok.inj hrun
    rw [← (Prod.mk.inj hend).2]
    exact ⟨.refl _, rfl⟩
  | some read =>
    obtain ⟨readOk, type, dsize, bytes⟩ := read
    rw [storeRules] at hrun
    by_cases hlong : pimpRuleMax * pimpRuleSize < bytes.length
    · rw [if_pos hlong] at hrun
      cases hrun
    · rw [if_neg hlong] at hrun
      cases readOk with
      | true =>
        have hend := (Prod.mk.inj (Except.ok.inj hrun)).2
        rw [← hend]
        exact ⟨⟨rfl, rfl, rfl, rfl⟩, rfl⟩
      | false =>
        have hend := (Prod.mk.inj (Except.ok.inj hrun)).2
        rw [← hend]
        exact ⟨⟨rfl, rfl, rfl, rfl⟩, rfl⟩

/-- hexafs_snap_find on a machine with a known chain. -/
theorem Chained.snapFind (h : Chained machine roles log) (name : CString) :
    (hexafsSnapFind name).wp (plainDevice env) machine.mem machine.dev.plain
      fun block mem' d' => block = firstBlock (Snapshot.Accepted name) log ∧ mem' = machine.mem ∧
        d' = machine.dev.plain := by
  have hstore := h.settled.mounted.store
  have hchain : SnapChain machine.dev.plain.sectors machine.mem.sbCache.rootSnapBlock log := h.chain
  rw [hexafsSnapFind, Code.wp_bind, Code.wp_memory]
  refine snapFindLoop_spec hchain (fun snap hsnap => ?_) (length_lt_chainFuel h.nodup)
    ⟨rfl, rfl, rfl⟩
  exact ⟨hstore.heap.valid (h.roles snap hsnap), hstore.stale _⟩

/-- pimp_load_rules may find bytes that are no rules; what it changes are the rules. -/
theorem Chained.pimpLoadRules {ok : Bool} (h : Chained machine roles log) (hio : env.IoOk)
    (hrun : machine.run env pimpLoadRules = .ok (ok, machine')) : Chained machine' roles log := by
  have hcleared : Chained machine.withoutRules roles log := h.reread
    h.settled.mounted.coherent ⟨rfl, rfl, rfl, rfl⟩ rfl
  have hstore := hcleared.settled.mounted.store
  have hload : (loadConfig pimpName).wp (plainDevice env) machine.withoutRules.mem
      machine.withoutRules.dev.plain fun _ mem' d' => mem' = machine.withoutRules.mem ∧
        d' = machine.withoutRules.dev.plain :=
    loadConfig_spec hstore.readable ⟨rfl, rfl⟩
  obtain ⟨read, middle, hread, hcoh, hmem, hplain⟩ := Machine.run_spec hio.reads
    hcleared.settled.mounted.coherent hload fun _ _ d' hpost => by
      rw [hpost.2]
      exact fun _ => rfl
  rw [Machine.run_pimpLoadRules hread] at hrun
  obtain ⟨hsame, hdev⟩ := Machine.sameStore_storeRules hrun
  have hmiddle : Chained middle roles log := by
    refine hcleared.reread hcoh ?_ (congrArg PlainDisk.sectors hplain)
    rw [hmem]
    exact .refl _
  refine hmiddle.reread ?_ hsame ?_
  · rw [hdev]
    exact hcoh
  · rw [Machine.sectors, Machine.sectors, hdev]

/-- A call that reads. -/
theorem Chained.load {load : StoreLoad} (h : Chained machine roles log) (hio : env.IoOk)
    (hrun : machine.run env load.code = .ok ((), machine')) : Chained machine' roles log := by
  have hstore := h.settled.mounted.store
  have hcoh := h.settled.mounted.coherent
  have hreads : ∀ {code : HexafsM Unit}, code.wp (plainDevice env) machine.mem machine.dev.plain
      (fun _ mem' d' => machine.mem.SameStore mem' ∧ d'.sectors = machine.dev.plain.sectors ∧
        ∀ b, d'.stale b = false) →
      machine.run env code = .ok ((), machine') → Chained machine' roles log := by
    intro code hwp hcode
    obtain ⟨hcoh', hsame, hsec, _⟩ := Machine.run_elim hio.reads hcoh hwp
      (fun _ _ _ hpost => hpost.2.2) hcode
    exact h.reread hcoh' hsame hsec
  cases load with
  | loadAll =>
    refine hreads (hexafsLoadAll_spec hstore.readable ⟨?_, rfl, fun _ => rfl⟩) hrun
    exact machine.mem.sameStore_loaded _ _
  | usersLoad =>
    refine hreads ?_ hrun
    rw [StoreLoad.code]
    simp only [Code.wp_bind, Code.wp_pure]
    exact hexafsUsersLoad_spec hstore.readable ⟨.refl _, rfl, fun _ => rfl⟩
  | pimpLoadRules =>
    rw [StoreLoad.code, Machine.run_bind] at hrun
    cases hload : machine.run env HexaOS.Hexafs.pimpLoadRules with
    | error stop =>
      rw [hload] at hrun
      cases hrun
    | ok result =>
      obtain ⟨ok, last⟩ := result
      rw [hload] at hrun
      have hend : ((), last) = ((), machine') := Except.ok.inj hrun
      rw [← (Prod.mk.inj hend).2]
      exact h.pimpLoadRules hio hload
  | snapFind name =>
    refine hreads ?_ hrun
    rw [StoreLoad.code]
    simp only [Code.wp_bind, Code.wp_pure]
    refine Code.wp_mono (h.snapFind name) fun _ mem' d' hpost => ?_
    obtain ⟨_, rfl, rfl⟩ := hpost
    exact ⟨.refl _, rfl, fun _ => rfl⟩

/-- One step extends the chain by what it creates. -/
theorem Chained.step (h : Chained machine roles log) (hstep : SnapStep created machine machine')
    (hfull : machine'.NeverFull) : ∃ roles', Chained machine' roles' (created ++ log) := by
  cases hstep with
  | call hio hfits hrun => exact h.call hio hfits hrun hfull
  | load hio hrun => exact ⟨roles, h.load hio hrun⟩
  | remount hio hrun =>
    have hstore := h.settled.mounted.store
    exact ⟨roles, h.mount hio rfl hstore.hint hstore.active_eq h.settled.mounted.coherent hrun⟩
  | reboot hio hrun =>
    have hsec : (Machine.boot machine.sectors).sectors = machine.sectors := rfl
    exact ⟨roles, h.mount hio hsec Memory.boot_hintOk Memory.boot_idle (Machine.coherent_boot _)
      hrun⟩
  | edit hsame => exact ⟨roles, h.reread h.settled.mounted.coherent hsame rfl⟩

/-- Formatting starts the chain with its snapshot. -/
theorem chained_format {sectors : UInt32 → Sector} {ok : Bool} (hio : env.IoOk)
    (hvalid : superblockValid (superblockAt sectors) = false)
    (hrun : (Machine.boot sectors).run env hexafsMount = .ok (ok, machine)) :
    ∃ roles, Chained machine roles (createdBetween bootOkName Memory.boot machine.mem) := by
  have hvalid' : superblockValid (superblockAt (Machine.boot sectors).sectors) = false := hvalid
  obtain ⟨_, ⟨roles, hsettled⟩, hformatted⟩ := Machine.format_run hvalid' Memory.boot_hintOk
    Memory.boot_idle (Machine.coherent_boot _) hio hrun
  have hplainValid : superblockValid (superblockAt (Machine.boot sectors).dev.plain.sectors) =
      false := hvalid
  have hmoves : hexafsMount.wp (plainDevice env) Memory.boot (Machine.boot sectors).dev.plain
      fun _ mem' d' => RootMove bootOkName Memory.boot.formatted mem' d' ∧
        ∀ b, d'.stale b = false := by
    have hstale : formatStore.wp (plainDevice env) Memory.boot
        (Machine.boot sectors).dev.plain.cleared fun _ _ d' => ∀ b, d'.stale b = false :=
      formatStore_spec hio.writes Memory.boot_hintOk Memory.boot_idle
        fun _ _ hformatted => hformatted.store.choose_spec.stale
    rw [hexafsMount_eq, Code.wp_bind]
    refine hexafsMountDisk_invalid hplainValid ?_
    rw [if_neg Bool.false_ne_true]
    exact Code.wp_and (formatStore_moves hio.writes Memory.boot_hintOk Memory.boot_idle) hstale
  obtain ⟨_, hmove, _⟩ := Machine.run_elim hio.reads (Machine.coherent_boot sectors) hmoves
    (fun _ _ _ hpost => hpost.2) hrun
  have hroot := hformatted.root.1
  cases hmove with
  | kept hkept hcreated => exact absurd hkept hroot
  | moved hfresh hcreated hmagic hname hparent =>
    have hcreated' : createdBetween bootOkName Memory.boot machine.mem =
        [⟨bootOkName, machine.mem.sbCache.rootSnapBlock⟩] := hcreated
    rw [hcreated']
    refine ⟨roles, hsettled, ⟨rfl, hroot, hmagic, hname, hparent⟩, ?_, List.nodup_singleton _, ?_⟩
    · intro snap hsnap
      rw [List.mem_singleton.mp hsnap]
      exact hsettled.mounted.store.root hroot
    · intro snap hsnap
      rw [List.mem_singleton.mp hsnap]
      exact StoreCall.snapName_short .bootPolicyExecute

/-- Over every run from a fresh format, the chain is the list of what was created. -/
theorem SnapRun.chained (h : SnapRun log machine) : ∃ roles, Chained machine roles log := by
  induction h with
  | format hio hvalid hrun _ => exact chained_format hio hvalid hrun
  | step _ hstep hfull ih =>
    obtain ⟨roles, hchained⟩ := ih
    exact hchained.step hstep hfull

/-- In every run from a fresh format without failures, the parent chain lists the snapshots
that were created, newest first and without repetition, and hexafs_snap_find returns the block
of the newest one with the name, or 0. -/
theorem snapFind_newest (h : SnapRun log machine) :
    SnapChain machine.sectors machine.mem.sbCache.rootSnapBlock log ∧
      (log.map (·.block)).Nodup ∧
        ∀ (env : Environment) (name : CString), (∀ n, env.readOk n = true) → name.chars ≠ [] →
          name.chars.length ≤ 31 → ∃ machine',
            machine.run env (hexafsSnapFind name) = .ok (newestNamed name log, machine') := by
  obtain ⟨roles, hchained⟩ := h.chained
  refine ⟨hchained.chain, hchained.nodup, fun env name hreads hname hlen => ?_⟩
  have hfind : (hexafsSnapFind name).wp (plainDevice env) machine.mem machine.dev.plain _ :=
    hchained.snapFind name
  obtain ⟨block, machine', hrun, _, hblock, _⟩ := Machine.run_spec hreads
    hchained.settled.mounted.coherent hfind fun _ _ d' hpost => by
      rw [hpost.2.2]
      exact fun _ => rfl
  refine ⟨machine', ?_⟩
  rw [hrun, hblock, firstBlock_accepted hchained.short hname hlen]

/-- The snapshot of the boot policy on a new store is found under the name that the formatting
has used before. -/
theorem snapFind_newest_policy : ∃ log machine machine', SnapRun log machine ∧ 2 ≤ log.length ∧
    machine.run .faultless (hexafsSnapFind bootOkName) =
      .ok (machine.mem.sbCache.rootSnapBlock, machine') := by
  obtain ⟨first, roles, hmount, hfresh⟩ := exists_fresh
  have htest : testRun (fun _ start => testRun (fun _ last => !last.mem.allocator.outOfBlocks &&
      start.mem.txGen != 0 && start.mem.currentTx.snapBlock != 0 &&
      last.mem.txGen != start.mem.txGen && last.mem.currentTx.snapBlock != 0 &&
      last.mem.currentTx.snapBlock == last.mem.sbCache.rootSnapBlock)
      (start.run .faultless (StoreCall.code .bootPolicyExecute)))
      ((Machine.boot blankDisk).run .faultless hexafsMount) = true := by
    decide +kernel
  rw [hmount] at htest
  obtain ⟨_, start, hstart, hpolicy⟩ := exists_of_testRun htest
  cases hstart
  obtain ⟨_, last, hrun, hlast⟩ := exists_of_testRun hpolicy
  simp only [Bool.and_eq_true, Bool.not_eq_true', bne_iff_ne, beq_iff_eq] at hlast
  obtain ⟨⟨⟨⟨⟨hfull, hstart⟩, hfirst⟩, hgen⟩, hsnap⟩, hroot⟩ := hlast
  have hio := Environment.faultless_ioOk
  have hformat : SnapRun (createdBetween bootOkName Memory.boot first.mem) first :=
    .format hio superblockValid_blankDisk hmount hfresh.neverFull
  have hfits : StoreCall.Fits first.mem .bootPolicyExecute := trivial
  have hrun₂ := hformat.step (.call hio hfits hrun) hfull
  have hcreated : createdBetween (StoreCall.snapName .bootPolicyExecute) first.mem last.mem =
      [⟨bootOkName, last.mem.sbCache.rootSnapBlock⟩] := by
    rw [createdBetween, if_neg (not_or.mpr ⟨hgen, hsnap⟩), hroot]
    rfl
  have hcreated₁ : createdBetween bootOkName Memory.boot first.mem =
      [⟨bootOkName, first.mem.currentTx.snapBlock⟩] := by
    have hgen₁ : first.mem.txGen ≠ Memory.boot.txGen := hstart
    rw [createdBetween, if_neg (not_or.mpr ⟨hgen₁, hfirst⟩)]
  rw [hcreated, hcreated₁] at hrun₂
  obtain ⟨machine', hfind⟩ := (snapFind_newest hrun₂).2.2 .faultless bootOkName hio.reads
    (by decide) (by decide)
  refine ⟨_, last, machine', hrun₂, Nat.le_refl 2, hfind.trans ?_⟩
  rw [List.singleton_append, newestNamed, firstBlock_cons, if_pos (decide_eq_true rfl)]

end Runs

end HexaOS.Hexafs
