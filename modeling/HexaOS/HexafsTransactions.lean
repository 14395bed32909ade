import HexaOS.HexafsFrames
import HexaOS.HexafsRuns

/-!
# The transaction record over a run of writers

Every writer begins a transaction, changes the store and commits, and nobody looks at
what begin, snapshot and commit return. A commit that fails leaves its transaction
active. Here each writer is cut at its call of hexafs_tx_commit, and the cut decides,
over any sequence of calls, whether the next writer starts with a fresh record.
-/

namespace HexaOS.Hexafs

open DevicePrograms PackedBytes

section Kept

/-- Code that leaves hexafs_current_tx alone, whatever the device replies. -/
abbrev KeepsTx {α : Type} (code : HexafsM α) : Prop := code.Keeps Memory.currentTx

theorem runStages_keepsTx (left i : ℕ) : KeepsTx (runStages left i) := by
  induction left generalizing i with
  | zero => exact Code.keeps_pure _
  | succ left ih =>
    have hstage : KeepsTx (bootPolicyRunStage i) :=
      Code.keeps_memory.bind fun mem => Code.keeps_pure _
    exact hstage.bind fun ok => (ih _).ite (Code.keeps_pure _)

end Kept

section Calls

/-- A call of a function that commits a transaction. -/
inductive StoreCall where
  | saveAll
  | usersSave (data : List UInt8)
  | pimpSaveRules
  | bootPolicyExecute

/-- The code of a call, with its result dropped. -/
def StoreCall.code : StoreCall → HexafsM Unit
  | .saveAll => hexafsSaveAll
  | .usersSave data => do
    let _ ← hexafsUsersSave data
    pure ()
  | .pimpSaveRules => do
    let _ ← HexaOS.Hexafs.pimpSaveRules
    pure ()
  | .bootPolicyExecute => do
    let _ ← HexaOS.Hexafs.bootPolicyExecute
    pure ()

/-- Mark the transaction and create the snapshot. -/
def snapRoot (newRoot : UInt32) (name : CString) : HexafsM Bool := do
  modifyTx fun tx => { tx with newRootBlock := newRoot, dirty := true }
  let _ ← hexafsSnapCreate name
  pure true

/-- hexafs_tx_abort behind a failure. -/
def giveUp : HexafsM Bool := do
  let _ ← hexafsTxAbort
  pure false

/-- saveConfig up to its call of hexafs_tx_commit. -/
def saveConfigBody (name snapName : CString) (data : List UInt8) : HexafsM Bool := do
  let mem ← Code.memory
  if mem.hexafsMounted then
    let _ ← hexafsTxBegin
    let absBlock ← rootAbstraction
    if absBlock = 0 then giveUp
    else
      let found ← hexafsAbstractionFind absBlock name
      match found.map (·.objectBlock) with
      | some (block) =>
        if block = 0 then saveNewConfig absBlock else writeConfig absBlock block
      | none => saveNewConfig absBlock
  else pure false
where
  /-- Create the object and its entry, then write. -/
  saveNewConfig (absBlock : UInt32) : HexafsM Bool := do
    let block ← hexafsObjectAlloc hexafsConfig
    if block = 0 then giveUp
    else
      let _ ← hexafsAbstractionAddEntry absBlock name block hexafsConfig
      writeConfig absBlock block
  /-- Write the object and create the snapshot. -/
  writeConfig (absBlock block : UInt32) : HexafsM Bool := do
    let ok ← hexafsObjectWriteData block data
    if ok then snapRoot absBlock snapName else giveUp

/-- boot_policy_execute with a loaded policy, up to its call of hexafs_tx_commit. -/
def policyBody : HexafsM Bool := do
  let _ ← hexafsTxBegin
  let mem ← Code.memory
  let ok ← runStages mem.policyStageCount 0
  if ok then
    modifyTx fun tx => { tx with dirty := true }
    let _ ← hexafsSnapCreate bootOkName
    pure true
  else giveUp

/-- A call up to its call of hexafs_tx_commit, and whether it gets there. -/
def StoreCall.body : StoreCall → HexafsM Bool
  | .saveAll => do
    let mem ← Code.memory
    if mem.hexafsMounted then
      let _ ← hexafsTxBegin
      let newAbs ← hexafsAbstractionCreate
      if newAbs = 0 then giveUp
      else
        saveForms newAbs mem.formCount 0
        snapRoot newAbs liveName
    else pure false
  | .usersSave data => saveConfigBody usersName usersUpdateName data
  | .pimpSaveRules => do
    let mem ← Code.memory
    saveConfigBody pimpName pimpUpdateName (mem.rules.flatMap toBytes)
  | .bootPolicyExecute => do
    let mem ← Code.memory
    if mem.policyLoaded then policyBody
    else
      bootPolicyInit
      policyBody

/-- A call with the result of its hexafs_tx_commit, `none` when there is no commit. -/
def StoreCall.traced (call : StoreCall) : HexafsM (Option Bool) := do
  let reached ← call.body
  if reached then
    let committed ← hexafsTxCommit
    pure (some committed)
  else pure none

theorem saveConfig_eq_body (name snapName : CString) (data : List UInt8) :
    saveConfig name snapName data = (do
      let reached ← saveConfigBody name snapName data
      if reached then
        let _ ← hexafsTxCommit
        pure true
      else pure false) := by
  have hwrite : ∀ absBlock block, saveConfig.writeConfig snapName data absBlock block = (do
      let reached ← saveConfigBody.writeConfig snapName data absBlock block
      if reached then
        let _ ← hexafsTxCommit
        pure true
      else pure false) := by
    intro absBlock block
    simp only [saveConfig.writeConfig, saveConfigBody.writeConfig, commitRoot, snapRoot, giveUp,
      bind_assoc]
    refine bind_congr fun ok => ?_
    cases ok <;> simp
  have hnew : ∀ absBlock, saveConfig.saveNewConfig name snapName data absBlock = (do
      let reached ← saveConfigBody.saveNewConfig name snapName data absBlock
      if reached then
        let _ ← hexafsTxCommit
        pure true
      else pure false) := by
    intro absBlock
    simp only [saveConfig.saveNewConfig, saveConfigBody.saveNewConfig, hwrite, giveUp, bind_assoc]
    refine bind_congr fun block => ?_
    split <;> simp
  simp only [saveConfig, saveConfigBody, hnew, hwrite, giveUp, bind_assoc]
  refine bind_congr fun mem => ?_
  split
  · simp only [bind_assoc]
    refine bind_congr fun _ => bind_congr fun absBlock => ?_
    split
    · simp
    · simp only [bind_assoc]
      refine bind_congr fun found => ?_
      cases found.map (·.objectBlock) with
      | none => rfl
      | some block =>
        by_cases hzero : block = 0
        · simp only [if_pos hzero]
        · simp only [if_neg hzero]
  · simp

/-- The calls are their traced calls, with the result of the commit dropped. -/
theorem StoreCall.code_eq_traced (call : StoreCall) :
    call.code = (do
      let _ ← call.traced
      pure ()) := by
  cases call with
  | saveAll =>
    simp only [code, hexafsSaveAll, traced, body, commitRoot, snapRoot, giveUp, bind_assoc]
    refine bind_congr fun mem => ?_
    split
    · simp only [bind_assoc]
      refine bind_congr fun _ => bind_congr fun newAbs => ?_
      split <;> simp
    · simp
  | usersSave data =>
    simp only [code, hexafsUsersSave, saveConfig_eq_body, traced, body, bind_assoc]
    refine bind_congr fun reached => ?_
    cases reached <;> simp
  | pimpSaveRules =>
    simp only [code, HexaOS.Hexafs.pimpSaveRules, saveConfig_eq_body, traced, body, bind_assoc]
    refine bind_congr fun mem => bind_congr fun reached => ?_
    cases reached <;> simp
  | bootPolicyExecute =>
    simp only [code, HexaOS.Hexafs.bootPolicyExecute, traced, body, policyBody, giveUp, bind_assoc]
    refine bind_congr fun mem => ?_
    split
    · simp only [bind_assoc]
      refine bind_congr fun _ => bind_congr fun mem => bind_congr fun ok => ?_
      cases ok <;> simp
    · simp only [bind_assoc]
      refine bind_congr fun _ => bind_congr fun _ => bind_congr fun mem => bind_congr fun ok => ?_
      cases ok <;> simp

end Calls

section Bodies

variable {env : Environment} {machine machine' : Machine}

/-- What code ensures holds behind its runs. -/
theorem Machine.run_ensures {α : Type} {code : HexafsM α} {post : α → Memory → Prop}
    (h : code.Ensures machine.mem post) {value : α}
    (hrun : machine.run env code = .ok (value, machine')) : post value machine'.mem := by
  rw [Machine.run] at hrun
  cases hexec : code.exec (cachedDevice env) machine.mem machine.dev with
  | error stop => rw [hexec] at hrun; cases hrun
  | ok result =>
    rw [hexec] at hrun
    simp only [Except.ok.injEq, Prod.mk.injEq] at hrun
    have hpost : post result.1.1 result.1.2 := h.of_exec hexec
    obtain ⟨rfl, rfl⟩ := hrun
    exact hpost

theorem hexafsTxBegin_ensures {mem : Memory} (hidle : mem.currentTx.active = false) :
    hexafsTxBegin.Ensures mem fun ok mem' => ok = true ∧ mem' = mem.begun := by
  simp only [hexafsTxBegin, Code.ensures_bind, Code.ensures_memory, hidle, Bool.false_eq_true,
    if_false, Code.ensures_modify, Code.ensures_pure]
  exact ⟨trivial, rfl⟩

theorem giveUp_ensures (mem : Memory) :
    giveUp.Ensures mem fun reached mem' => reached = false ∧ mem'.currentTx.active = false := by
  simp only [giveUp, hexafsTxAbort, Code.ensures_bind, Code.ensures_memory, Code.ensures_pure]
  split
  · simp only [modifyTx, Code.ensures_bind, Code.ensures_modify, Code.ensures_pure]
    exact ⟨trivial, trivial⟩
  · rename_i hidle
    exact ⟨trivial, by simpa using hidle⟩

instance : IgnoresAllocator fun mem : Memory => (mem.currentTx.active, mem.currentTx.dirty) :=
  ⟨fun _ _ => rfl⟩

/-- hexafs_snap_create stores the snapshot block in the record and nothing else. -/
theorem hexafsSnapCreate_keepsTx (name : CString) :
    (hexafsSnapCreate name).Keeps fun mem => (mem.currentTx.active, mem.currentTx.dirty) := by
  refine Code.keeps_memory.bind fun mem => Code.Keeps.ite ?_ (Code.keeps_pure _)
  refine hexafsAllocBlock_keeps.bind fun block => (Code.keeps_pure _).ite ?_
  refine (Code.keeps_request _).bind fun ok => Code.Keeps.ite ?_ ?_
  · refine Code.Keeps.bind (Code.keeps_modify fun _ => rfl) fun _ => ?_
    exact Code.Keeps.bind (Code.keeps_modify fun _ => rfl) fun _ => Code.keeps_pure _
  · exact (hexafsFreeBlock_keeps block).bind fun _ => Code.keeps_pure _

/-- How a body ends: its transaction is active and dirty at the commit, and over when
there is no commit. -/
def BodyEnd (reached : Bool) (mem : Memory) : Prop :=
  mem.currentTx.active = reached ∧ (reached = true → mem.currentTx.dirty = true)

theorem giveUp_bodyEnd (mem : Memory) : giveUp.Ensures mem BodyEnd := by
  refine (giveUp_ensures mem).mono fun reached mem' hgiven => ?_
  obtain ⟨rfl, hidle⟩ := hgiven
  exact ⟨hidle, fun h => nomatch h⟩

/-- A snapshot of a dirty transaction leaves it to the commit. -/
theorem snapCreate_bodyEnd {mem : Memory} (name : CString) (hactive : mem.currentTx.active = true)
    (hdirty : mem.currentTx.dirty = true) :
    Code.Ensures (do
      let _ ← hexafsSnapCreate name
      pure true) mem BodyEnd := by
  refine (hexafsSnapCreate_keepsTx name).ensures_bind fun _ mem' hkept => ?_
  simp only [Prod.mk.injEq] at hkept
  exact ⟨hkept.1.trans hactive, fun _ => hkept.2.trans hdirty⟩

theorem snapRoot_bodyEnd {mem : Memory} (newRoot : UInt32) (name : CString)
    (hactive : mem.currentTx.active = true) : (snapRoot newRoot name).Ensures mem BodyEnd := by
  rw [snapRoot, Code.ensures_bind]
  exact snapCreate_bodyEnd name hactive rfl

theorem saveConfigBody_bodyEnd {mem : Memory} (name snapName : CString) (data : List UInt8)
    (hidle : mem.currentTx.active = false) :
    (saveConfigBody name snapName data).Ensures mem BodyEnd := by
  have hwrite : ∀ mem' absBlock block, mem'.currentTx.active = true →
      (saveConfigBody.writeConfig snapName data absBlock block).Ensures mem' BodyEnd := by
    intro mem' absBlock block hactive
    refine (hexafsObjectWriteData_keeps block data : KeepsTx _).ensures_bind fun ok mem₁ hkept => ?_
    split
    · exact snapRoot_bodyEnd absBlock snapName (by rw [hkept, hactive])
    · exact giveUp_bodyEnd mem₁
  have hnew : ∀ mem' absBlock, mem'.currentTx.active = true →
      (saveConfigBody.saveNewConfig name snapName data absBlock).Ensures mem' BodyEnd := by
    intro mem' absBlock hactive
    refine (hexafsObjectAlloc_keeps hexafsConfig : KeepsTx _).ensures_bind fun block mem₁ hkept => ?_
    split
    · exact giveUp_bodyEnd mem₁
    · refine (hexafsAbstractionAddEntry_keeps _ _ _ _ : KeepsTx _).ensures_bind fun _ mem₂ hkept₂ => ?_
      exact hwrite mem₂ absBlock block (by rw [hkept₂, hkept, hactive])
  rw [saveConfigBody, Code.ensures_bind, Code.ensures_memory]
  split
  · rw [Code.ensures_bind]
    refine (hexafsTxBegin_ensures hidle).mono fun _ mem₁ hbegun => ?_
    refine (rootAbstraction_keeps : KeepsTx _).ensures_bind fun absBlock mem₂ hkept => ?_
    have hactive : mem₂.currentTx.active = true := by rw [hkept, hbegun.2]; rfl
    split
    · exact giveUp_bodyEnd mem₂
    · have hfind : KeepsTx (hexafsAbstractionFind absBlock name) := findLoop_keeps _ _ _
      refine hfind.ensures_bind fun found mem₃ hkept₃ => ?_
      have hactive₃ : mem₃.currentTx.active = true := by rw [hkept₃, hactive]
      cases found.map (·.objectBlock) with
      | none => exact hnew mem₃ absBlock hactive₃
      | some block =>
        by_cases hzero : block = 0
        · simp only [if_pos hzero]
          exact hnew mem₃ absBlock hactive₃
        · simp only [if_neg hzero]
          exact hwrite mem₃ absBlock block hactive₃
  · exact ⟨hidle, fun h => nomatch h⟩

theorem policyBody_bodyEnd {mem : Memory} (hidle : mem.currentTx.active = false) :
    policyBody.Ensures mem BodyEnd := by
  rw [policyBody, Code.ensures_bind]
  refine (hexafsTxBegin_ensures hidle).mono fun _ mem₁ hbegun => ?_
  rw [Code.ensures_bind, Code.ensures_memory]
  refine (runStages_keepsTx _ _).ensures_bind fun ok mem₂ hkept => ?_
  have hactive : mem₂.currentTx.active = true := by rw [hkept, hbegun.2]; rfl
  split
  · rw [Code.ensures_bind]
    exact snapCreate_bodyEnd bootOkName hactive rfl
  · exact giveUp_bodyEnd mem₂

/-- A body that begins without a transaction. -/
theorem StoreCall.body_bodyEnd {mem : Memory} (call : StoreCall)
    (hidle : mem.currentTx.active = false) : call.body.Ensures mem BodyEnd := by
  cases call with
  | saveAll =>
    rw [body, Code.ensures_bind, Code.ensures_memory]
    split
    · rw [Code.ensures_bind]
      refine (hexafsTxBegin_ensures hidle).mono fun _ mem₁ hbegun => ?_
      refine (hexafsAbstractionCreate_keeps : KeepsTx _).ensures_bind fun newAbs mem₂ hkept => ?_
      have hactive : mem₂.currentTx.active = true := by rw [hkept, hbegun.2]; rfl
      split
      · exact giveUp_bodyEnd mem₂
      · refine (saveForms_keeps _ _ _ : KeepsTx _).ensures_bind fun _ mem₃ hkept₃ => ?_
        exact snapRoot_bodyEnd newAbs liveName (by rw [hkept₃, hactive])
    · exact ⟨hidle, fun h => nomatch h⟩
  | usersSave data => exact saveConfigBody_bodyEnd _ _ _ hidle
  | pimpSaveRules =>
    rw [body, Code.ensures_bind, Code.ensures_memory]
    exact saveConfigBody_bodyEnd _ _ _ hidle
  | bootPolicyExecute =>
    rw [body, Code.ensures_bind, Code.ensures_memory]
    split
    · exact policyBody_bodyEnd hidle
    · rw [Code.ensures_bind, bootPolicyInit, Code.ensures_modify]
      exact policyBody_bodyEnd hidle

end Bodies

section Commits

variable {env : Environment} {machine : Machine}

/-- The drive confirms the sector writes of a commit: the two bitmap sectors, when the
bitmap has changed, and the superblock. -/
def Machine.CommitAccepted (env : Environment) (machine : Machine) : Prop :=
  let first := machine.dev.disk.writeCount
  if machine.mem.allocator.dirty then
    (env.writeOutcome first).returns = true ∧ (env.writeOutcome (first + 1)).returns = true ∧
      (env.writeOutcome (first + 2)).returns = true
  else (env.writeOutcome first).returns = true

/-- A block write on the device with its cache, by the number of the sector write. -/
theorem wp_blockWrite_counted {mem : Memory} {dev : Device} {lba : UInt32} {buf : Sector}
    {post : Bool → Memory → Device → Prop}
    (answered : ∀ dev', dev'.disk.writeCount = dev.disk.writeCount + 1 →
      post (env.writeOutcome dev.disk.writeCount).returns mem dev') :
    (hexafsBlockWrite lba buf).wp (cachedDevice env) mem dev post := by
  have hcount : (cacheWrite env lba buf dev).2.disk.writeCount = dev.disk.writeCount + 1 := by
    rw [cacheWrite, ataWriteSector]
    split <;> rfl
  have hreturns : (cacheWrite env lba buf dev).1 = (env.writeOutcome dev.disk.writeCount).returns := by
    rw [cacheWrite, ataWriteSector]
    split <;> rfl
  have hpost := answered _ hcount
  rw [← hreturns] at hpost
  exact Code.wp_request rfl hpost

/-- hexafs_write_superblock succeeds when its sector write does. -/
theorem wp_writeSuperblock_counted {mem : Memory} {dev : Device}
    {post : Bool → Memory → Device → Prop}
    (answered : ∀ mem' dev', mem'.currentTx = mem.currentTx →
      post (env.writeOutcome dev.disk.writeCount).returns mem' dev') :
    hexafsWriteSuperblock.wp (cachedDevice env) mem dev post := by
  simp only [hexafsWriteSuperblock, Code.wp_bind, Code.wp_memory, Code.wp_modify]
  exact wp_blockWrite_counted fun dev' _ => answered _ dev' rfl

/-- hexafs_tx_commit of an active and dirty transaction returns 1 and ends it exactly if
its sector writes are confirmed. -/
theorem Machine.txCommit_wp (hactive : machine.mem.currentTx.active = true)
    (hdirty : machine.mem.currentTx.dirty = true) :
    hexafsTxCommit.wp (cachedDevice env) machine.mem machine.dev fun ok mem' _ =>
      (ok = true ↔ machine.CommitAccepted env) ∧ mem'.currentTx.active = !ok := by
  have hsuper : ∀ (mem : Memory) (dev : Device), mem.currentTx.active = true →
      Code.wp (cachedDevice env) (do
        let ok ← hexafsWriteSuperblock
        if ok then
          modifyTx fun tx => { tx with active := false }
          pure true
        else pure false) mem dev fun ok mem' _ =>
          (ok = true ↔ (env.writeOutcome dev.disk.writeCount).returns = true) ∧
            mem'.currentTx.active = !ok := by
    intro mem dev hmem
    rw [Code.wp_bind]
    refine wp_writeSuperblock_counted fun mem' dev' hkept => ?_
    cases (env.writeOutcome dev.disk.writeCount).returns with
    | false =>
      simp only [Bool.false_eq_true, if_false, Code.wp_pure, hkept, hmem, Bool.not_false]
      exact ⟨trivial, trivial⟩
    | true =>
      simp only [if_true, modifyTx, Code.wp_bind, Code.wp_modify, Code.wp_pure, Bool.not_true]
      exact ⟨trivial, trivial⟩
  simp only [hexafsTxCommit, Code.wp_bind, Code.wp_memory, hactive, hdirty, if_true,
    hexafsSaveBitmap, CommitAccepted]
  cases hbitmap : machine.mem.allocator.dirty with
  | false =>
    simp only [Bool.false_eq_true, if_false, Code.wp_pure, if_true]
    exact hsuper _ _ hactive
  | true =>
    simp only [if_true, hexafsAllocBlocks, saveBitmapFrom, Code.wp_bind, Code.wp_memory]
    refine wp_blockWrite_counted fun dev₁ hcount₁ => ?_
    cases hfirst : (env.writeOutcome machine.dev.disk.writeCount).returns with
    | false =>
      simp only [Bool.false_eq_true, if_false, Code.wp_pure, false_and, hactive, Bool.not_false]
      exact ⟨trivial, trivial⟩
    | true =>
      simp only [if_true, Code.wp_bind, Code.wp_memory]
      refine wp_blockWrite_counted fun dev₂ hcount₂ => ?_
      rw [hcount₁]
      cases hsecond : (env.writeOutcome (machine.dev.disk.writeCount + 1)).returns with
      | false =>
        simp only [Bool.false_eq_true, if_false, Code.wp_pure, false_and, and_false, hactive,
          Bool.not_false]
        exact ⟨trivial, trivial⟩
      | true =>
        simp only [if_true, modifyAllocator, Code.wp_bind, Code.wp_modify, Code.wp_pure, true_and]
        have hlast := hsuper { machine.mem with
          allocator := { machine.mem.allocator with dirty := false } } dev₂ hactive
        rw [hcount₂, hcount₁] at hlast
        simp only [Code.wp_bind] at hlast
        exact hlast

/-- The result of a commit decides about the transaction record. -/
theorem Machine.run_txCommit {machine' : Machine} {ok : Bool}
    (hactive : machine.mem.currentTx.active = true) (hdirty : machine.mem.currentTx.dirty = true)
    (hrun : machine.run env hexafsTxCommit = .ok (ok, machine')) :
    (ok = true ↔ machine.CommitAccepted env) ∧ machine'.mem.currentTx.active = !ok := by
  rw [Machine.run] at hrun
  cases hexec : hexafsTxCommit.exec (cachedDevice env) machine.mem machine.dev with
  | error stop => rw [hexec] at hrun; cases hrun
  | ok result =>
    rw [hexec] at hrun
    simp only [Except.ok.injEq, Prod.mk.injEq] at hrun
    have hpost := Code.wp_of_exec (Machine.txCommit_wp hactive hdirty) hexec
    obtain ⟨rfl, rfl⟩ := hrun
    exact hpost

end Commits

section Histories

/-- A call that returned. -/
structure TxStep where
  /-- The call. -/
  call : StoreCall
  /-- The machine before it. -/
  before : Machine
  /-- What its hexafs_tx_commit returned, `none` when it was not called. -/
  commit : Option Bool
  /-- The machine behind it. -/
  after : Machine

variable {env : Environment} {first last : Machine} {steps : List TxStep} {step : TxStep}

/-- The step is a run of its call. -/
def TxStep.Runs (env : Environment) (step : TxStep) : Prop :=
  step.before.run env step.call.traced = .ok (step.commit, step.after)

/-- Calls that follow each other. Between two calls the machine may change as it likes,
except for the transaction record. -/
inductive TxHistory (env : Environment) : Machine → List TxStep → Machine → Prop where
  | nil (machine : Machine) : TxHistory env machine [] machine
  | other {machine other last : Machine} {steps : List TxStep}
      (kept : other.mem.currentTx = machine.mem.currentTx) (rest : TxHistory env other steps last) :
      TxHistory env machine steps last
  | call {step : TxStep} {last : Machine} {steps : List TxStep} (runs : step.Runs env)
      (rest : TxHistory env step.after steps last) :
      TxHistory env step.before (step :: steps) last

/-- The call leaves no transaction active, and when its commit returned 0 the cached
root is the one recorded at its begin. -/
def TxStep.Clean (step : TxStep) : Prop :=
  step.after.mem.currentTx.active = false ∧
    (step.commit = some false →
      step.after.mem.sbCache.rootSnapBlock = step.after.mem.currentTx.parentSnapBlock)

/-- If the call gets to its commit, the drive confirms the sector writes of the commit. -/
def TxStep.Accepted (env : Environment) (step : TxStep) : Prop :=
  ∀ middle, step.before.run env step.call.body = .ok (true, middle) → middle.CommitAccepted env

/-- A traced call is its body, with the commit behind it when the body gets there. -/
theorem TxStep.Runs.cases (h : step.Runs env) : ∃ reached middle,
    step.before.run env step.call.body = .ok (reached, middle) ∧
      ((reached = false ∧ step.commit = none ∧ step.after = middle) ∨
        (reached = true ∧ ∃ ok, step.commit = some ok ∧
          middle.run env hexafsTxCommit = .ok (ok, step.after))) := by
  rw [Runs, StoreCall.traced, Machine.run_bind] at h
  cases hbody : step.before.run env step.call.body with
  | error stop => rw [hbody] at h; cases h
  | ok result =>
    obtain ⟨reached, middle⟩ := result
    rw [hbody] at h
    change middle.run env _ = _ at h
    refine ⟨reached, middle, rfl, ?_⟩
    cases reached with
    | false =>
      have hend : (none, middle) = (step.commit, step.after) := Except.ok.inj h
      simp only [Prod.mk.injEq] at hend
      exact .inl ⟨rfl, hend.1.symm, hend.2.symm⟩
    | true =>
      rw [if_pos rfl, Machine.run_bind] at h
      cases hcommit : middle.run env hexafsTxCommit with
      | error stop => rw [hcommit] at h; cases h
      | ok result =>
        obtain ⟨ok, after⟩ := result
        rw [hcommit] at h
        have hend : (some ok, after) = (step.commit, step.after) := Except.ok.inj h
        simp only [Prod.mk.injEq] at hend
        exact .inr ⟨rfl, ok, hend.1.symm, by rw [← hend.2]⟩

/-- One call that begins without a transaction is clean exactly if its commit, should it
get there, is accepted. -/
theorem TxStep.Runs.clean_iff (h : step.Runs env)
    (hidle : step.before.mem.currentTx.active = false) : step.Clean ↔ step.Accepted env := by
  obtain ⟨reached, middle, hbody, hend⟩ := h.cases
  have hmiddle : BodyEnd reached middle.mem :=
    Machine.run_ensures (step.call.body_bodyEnd hidle) hbody
  rcases hend with ⟨rfl, hcommit, hafter⟩ | ⟨rfl, ok, hcommit, hrun⟩
  · constructor
    · intro _ middle' hbody'
      rw [hbody] at hbody'
      cases hbody'
    · intro _
      refine ⟨by rw [hafter]; exact hmiddle.1, fun hfalse => ?_⟩
      rw [hcommit] at hfalse
      cases hfalse
  · obtain ⟨hok, hactive⟩ := Machine.run_txCommit hmiddle.1 (hmiddle.2 rfl) hrun
    constructor
    · intro hclean middle' hbody'
      rw [hbody] at hbody'
      cases hbody'
      have hnot : (!ok) = false := hactive.symm.trans hclean.1
      exact hok.mp (by simpa using hnot)
    · intro haccepted
      have htrue : ok = true := hok.mpr (haccepted middle hbody)
      refine ⟨by rw [hactive, htrue]; rfl, fun hfalse => ?_⟩
      rw [hcommit, htrue] at hfalse
      cases hfalse

/-- In every run of writers that begins without a transaction, whatever transfers fail:
every call is clean exactly if every commit that is called is accepted by the drive. -/
theorem txHistory_clean_iff (h : TxHistory env first steps last)
    (hidle : first.mem.currentTx.active = false) :
    (∀ step ∈ steps, step.Clean) ↔ ∀ step ∈ steps, step.Accepted env := by
  induction h with
  | nil machine => simp only [List.not_mem_nil, false_implies, implies_true]
  | other kept rest ih => exact ih (by rw [kept, hidle])
  | call runs rest ih =>
    have hstep := runs.clean_iff hidle
    simp only [List.forall_mem_cons]
    -- the calls behind this one begin without a transaction if this one is clean
    constructor
    · rintro ⟨hclean, hrest⟩
      exact ⟨hstep.mp hclean, (ih hclean.1).mp hrest⟩
    · rintro ⟨haccepted, hrest⟩
      have hclean := hstep.mpr haccepted
      exact ⟨hclean, (ih hclean.1).mpr hrest⟩

/-- Evaluate a test on the result of a run; a run that stops fails it. -/
def testRun {α : Type} (test : α → Machine → Bool) : Except Stop (α × Machine) → Bool
  | .ok (value, machine) => test value machine
  | .error _ => false

/-- A run that passes a test is a step. -/
theorem exists_step {call : StoreCall} {before : Machine} {test : Option Bool → Machine → Bool}
    (h : testRun test (before.run env call.traced) = true) : ∃ step : TxStep,
      step.Runs env ∧ step.before = before ∧ step.call = call ∧
        test step.commit step.after = true := by
  cases hrun : before.run env call.traced with
  | error stop =>
    rw [hrun] at h
    cases h
  | ok result =>
    obtain ⟨commit, after⟩ := result
    rw [hrun] at h
    exact ⟨⟨call, before, commit, after⟩, hrun, rfl, rfl, h⟩

/-- The drive refuses the third sector write. -/
def thirdWriteRefused : Environment :=
  { Environment.faultless with writeOutcome := fun n => if n = 2 then .refused else .written }

/-- The boot policy on a blank disk whose drive refuses the first bitmap sector: the
commit returns 0, the transaction stays active, and the root is the new snapshot. -/
theorem bootPolicyExecute_leavesTransaction : ∃ step : TxStep,
    TxHistory thirdWriteRefused (Machine.boot blankDisk) [step] step.after ∧
      step.commit = some false ∧ step.after.mem.currentTx.active = true ∧
        step.after.mem.sbCache.rootSnapBlock ≠ step.after.mem.currentTx.parentSnapBlock ∧
          ¬step.Clean := by
  have hrun : testRun (fun commit machine => commit == some false && machine.mem.currentTx.active &&
      machine.mem.sbCache.rootSnapBlock != machine.mem.currentTx.parentSnapBlock)
        ((Machine.boot blankDisk).run thirdWriteRefused
          (StoreCall.traced .bootPolicyExecute)) = true := by
    decide +kernel
  obtain ⟨step, hruns, hbefore, _, htest⟩ := exists_step hrun
  simp only [Bool.and_eq_true, beq_iff_eq, bne_iff_ne] at htest
  obtain ⟨⟨hcommit, hactive⟩, hroot⟩ := htest
  refine ⟨step, ?_, hcommit, hactive, hroot, fun hclean => ?_⟩
  · rw [← hbefore]
    exact .call hruns (.nil _)
  · have hidle := hclean.1
    rw [hactive] at hidle
    cases hidle

/-- The boot policy on a blank disk without failures. -/
theorem txHistory_clean_iff_bootPolicy : ∃ step : TxStep,
    step.commit = some true ∧
      ((∀ other ∈ [step], other.Clean) ↔ ∀ other ∈ [step], other.Accepted .faultless) := by
  have hrun : testRun (fun commit _ => commit == some true)
        ((Machine.boot blankDisk).run .faultless (StoreCall.traced .bootPolicyExecute)) = true := by
    decide +kernel
  obtain ⟨step, hruns, hbefore, _, htest⟩ := exists_step hrun
  have hidle : step.before.mem.currentTx.active = false := by
    rw [hbefore]
    rfl
  exact ⟨step, beq_iff_eq.mp htest, txHistory_clean_iff (.call hruns (.nil _)) hidle⟩

end Histories

end HexaOS.Hexafs
