import HexaOS.Hexafs

/-!
# Boot, the boot policy and the shell's save and load

The part of boot_policy.c and hexa.c that drives the store: the policy run at
every boot, load_data, save_data and the two ways the kernel comes up. A machine
is the statics together with the device; a reboot keeps the sectors only.
-/

namespace HexaOS.Hexafs

open DevicePrograms PackedBytes

/-- boot_policy_init -/
def bootPolicyInit : HexafsM Unit :=
  Code.modify fun mem => { mem with policyLoaded := true, policyStageCount := 4 }

/-- boot_policy_run_stage: every stage that exists succeeds. -/
def bootPolicyRunStage (stageIdx : ℕ) : HexafsM Bool := do
  let mem ← Code.memory
  pure (decide (stageIdx < mem.policyStageCount))

/-- The stage loop of boot_policy_execute, from stage `i` on. -/
def runStages : ℕ → ℕ → HexafsM Bool
  | 0, _ => pure true
  | left + 1, i => do
    let ok ← bootPolicyRunStage i
    if ok then runStages left (i + 1) else pure false

/-- boot_policy_execute. It commits whatever root block the transaction record
holds. -/
def bootPolicyExecute : HexafsM Bool := do
  let mem ← Code.memory
  if mem.policyLoaded then pure () else bootPolicyInit
  let _ ← hexafsTxBegin
  let mem ← Code.memory
  let ok ← runStages mem.policyStageCount 0
  if ok then
    modifyTx fun tx => { tx with dirty := true }
    let _ ← hexafsSnapCreate bootOkName
    let _ ← hexafsTxCommit
    pure true
  else
    let _ ← hexafsTxAbort
    pure false

/-- The bytes of one user in save_data. -/
def userBytes (user : UserEntry) : List UInt8 :=
  user.name.toList ++ user.passHash.toList ++ [user.isRoot.toUInt8, 0, 0, 0]

/-- The buffer `raw` of save_data. -/
def usersRaw (mem : Memory) : List UInt8 :=
  toBytes (UInt32.ofNat mem.uCount) ++
    ((List.range mem.uCount).map mem.uTable).flatMap userBytes

/-- save_data -/
def saveData : HexafsM Bool := do
  let mem ← Code.memory
  if mem.diskOk && mem.hexafsMounted then
    hexafsSaveAll
    let mem ← Code.memory
    -- raw has 832 bytes
    if 832 < (usersRaw mem).length then Code.halt .fault
    else
      let _ ← hexafsUsersSave (usersRaw mem)
      pure true
  else pure false

/-- One u_table entry out of the buffer of load_users. -/
def userOfBytes (bytes : List UInt8) : UserEntry :=
  ⟨ofBytes bytes, ofBytes (bytes.drop 32), (ofBytes (α := UInt8) (bytes.drop 64)).toUInt32⟩

/-- load_users -/
def loadUsers : HexafsM Unit := do
  match ← hexafsUsersLoad with
  | none => pure ()
  | some (size, bytes) =>
    if 832 < bytes.length then Code.halt .fault
    else if size.toNat < 4 then pure ()
    else
      let count := (ofBytes (α := UInt32) bytes).toNat
      if count < 1 ∨ 12 < count ∨ size.toNat < 4 + count * 68 then pure ()
      else
        Code.modify fun mem => { mem with
          uTable := fun i =>
            if i < count then userOfBytes (bytes.drop (4 + i * 68)) else mem.uTable i
          uCount := count
          uCur := 0 }

/-- load_data -/
def loadData : HexafsM Unit := do
  Code.modify fun mem => { mem with diskOk := true }
  hexafsLoadAll
  loadUsers
  let _ ← pimpLoadRules
  pure ()

/-- The store part of kernel_main on a machine whose disk answers: mount, load,
run the boot policy. -/
def bootStore : HexafsM Unit := do
  Code.modify fun mem => { mem with diskOk := true }
  let _ ← hexafsMount
  loadData
  let _ ← pimpLoadRules
  let _ ← bootPolicyExecute
  pure ()

/-- The kernel's statics and the device. -/
structure Machine where
  /-- The statics. -/
  mem : Memory
  /-- The drive, its cache and the heap. -/
  dev : Device

/-- Run code on a machine. -/
def Machine.run {α : Type} (env : Environment) (code : HexafsM α) (machine : Machine) :
    Except Stop (α × Machine) :=
  match code.exec (cachedDevice env) machine.mem machine.dev with
  | .error stop => .error stop
  | .ok ((value, mem), dev) => .ok (value, ⟨mem, dev⟩)

/-- The sectors on the disk. -/
def Machine.sectors (machine : Machine) : UInt32 → Sector := machine.dev.disk.sectors

/-- A machine that is switched on with these sectors on its disk. -/
def Machine.boot (sectors : UInt32 → Sector) : Machine :=
  ⟨Memory.boot, ⟨⟨sectors, [], 0, 0⟩, emptyCache, 0⟩⟩

end HexaOS.Hexafs
