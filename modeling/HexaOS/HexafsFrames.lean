import HexaOS.HexafsBoot

/-!
# What the store code leaves alone

Reading, allocating and writing blocks changes the allocator only, and the writers change
the superblock and the transaction record beside it. Everything that is seen of the
statics without these fields stays the same, whatever the device replies.
-/

namespace HexaOS.Hexafs

open DevicePrograms PackedBytes

/-- What is seen of the statics without the allocator. -/
class IgnoresAllocator {σ : Type} (view : Memory → σ) : Prop where
  /-- The allocator does not matter. -/
  allocator (mem : Memory) (allocator : Allocator) :
    view { mem with allocator := allocator } = view mem

/-- What is seen of the statics without the fields that a writer changes. -/
class IgnoresStore {σ : Type} (view : Memory → σ) : Prop extends IgnoresAllocator view where
  /-- The superblock does not matter. -/
  sbCache (mem : Memory) (sb : HexafsSuperblock) : view { mem with sbCache := sb } = view mem
  /-- The transaction does not matter. -/
  currentTx (mem : Memory) (tx : HexafsTx) : view { mem with currentTx := tx } = view mem
  /-- The counter of transactions does not matter. -/
  txGen (mem : Memory) (gen : ℕ) : view { mem with txGen := gen } = view mem

instance : IgnoresAllocator Memory.currentTx := ⟨fun _ _ => rfl⟩

section Reads

variable {σ : Type} {view : Memory → σ}

theorem liftStop_keeps {α : Type} (result : Except Stop α) : Code.Keeps view (liftStop result) := by
  cases result with
  | ok value => exact Code.keeps_pure value
  | error stop => exact Code.keeps_halt stop

theorem hexafsAbstractionNextChain_keeps (block : UInt32) :
    Code.Keeps view (hexafsAbstractionNextChain block) := by
  refine (Code.keeps_request _).bind fun reply => ?_
  cases reply with
  | none => exact Code.keeps_pure _
  | some buf => exact Code.keeps_pure _

theorem hexafsAbstractionSetChain_keeps (block next : UInt32) :
    Code.Keeps view (hexafsAbstractionSetChain block next) := by
  refine (Code.keeps_request _).bind fun reply => ?_
  cases reply with
  | none => exact Code.keeps_pure _
  | some buf => exact (Code.keeps_request _).bind fun _ => Code.keeps_pure _

theorem addEntryLoop_keeps (name : CString) (objBlock : UInt32) (type : UInt8) (fuel : ℕ)
    (cur : UInt32) : Code.Keeps view (addEntryLoop name objBlock type fuel cur) := by
  induction fuel generalizing cur with
  | zero => exact Code.keeps_halt _
  | succ fuel ih =>
    refine Code.Keeps.ite (Code.keeps_pure _) ((Code.keeps_request _).bind fun reply => ?_)
    cases reply with
    | none => exact Code.keeps_pure _
    | some buf =>
      dsimp only
      generalize ofBlock HexafsAbsHeader buf = hdr
      refine Code.Keeps.ite (Code.keeps_pure _) (Code.Keeps.ite (Code.keeps_pure _) ?_)
      split
      · exact (Code.keeps_request _).bind fun _ => Code.keeps_pure _
      · refine (hexafsAbstractionNextChain_keeps cur).bind fun next => ?_
        exact Code.Keeps.ite (Code.keeps_pure _) (ih next)

theorem saveBitmapFrom_keeps (left i : ℕ) : Code.Keeps view (saveBitmapFrom left i) := by
  induction left generalizing i with
  | zero => exact Code.keeps_pure _
  | succ left ih =>
    refine Code.keeps_memory.bind fun mem => (Code.keeps_request _).bind fun ok => ?_
    exact (ih _).ite (Code.keeps_pure _)

theorem findLoop_keeps (name : CString) (fuel : ℕ) (cur : UInt32) :
    Code.Keeps view (findLoop name fuel cur) := by
  induction fuel generalizing cur with
  | zero => exact Code.keeps_halt _
  | succ fuel ih =>
    refine Code.Keeps.ite (Code.keeps_pure _) ((Code.keeps_request _).bind fun reply => ?_)
    cases reply with
    | none => exact Code.keeps_pure _
    | some buf =>
      refine Code.Keeps.ite (Code.keeps_pure _) ((liftStop_keeps _).bind fun found => ?_)
      cases found with
      | some entry => exact Code.keeps_pure _
      | none => exact (hexafsAbstractionNextChain_keeps cur).bind ih

theorem rootAbstraction_keeps : Code.Keeps view rootAbstraction := by
  refine Code.keeps_memory.bind fun mem => (Code.keeps_pure _).ite ?_
  refine (Code.keeps_request _).bind fun reply => ?_
  cases reply with
  | none => exact Code.keeps_pure _
  | some buf => exact (Code.keeps_pure _).ite (Code.keeps_pure _)

end Reads

section Blocks

variable {σ : Type} {view : Memory → σ} [IgnoresAllocator view]

theorem modifyAllocator_keeps (update : Allocator → Allocator) :
    Code.Keeps view (modifyAllocator update) :=
  Code.keeps_modify fun mem => IgnoresAllocator.allocator mem _

theorem hexafsAllocBlock_keeps : Code.Keeps view hexafsAllocBlock := by
  refine Code.keeps_memory.bind fun mem => ?_
  cases mem.allocator.choose with
  | none => exact (modifyAllocator_keeps _).bind fun _ => Code.keeps_pure _
  | some i =>
    refine (modifyAllocator_keeps _).bind fun _ => (Code.keeps_request _).bind fun _ => ?_
    exact (modifyAllocator_keeps _).bind fun _ => Code.keeps_pure _

theorem hexafsFreeBlock_keeps (lba : UInt32) : Code.Keeps view (hexafsFreeBlock lba) :=
  (Code.keeps_pure ()).ite (modifyAllocator_keeps _)

/-- A block is allocated and written; a failed write gives the block back. -/
theorem allocateAndWrite_keeps (image : Memory → Sector) : Code.Keeps view (do
    let block ← hexafsAllocBlock
    if block = 0 then pure 0
    else
      let mem ← Code.memory
      let ok ← hexafsBlockWrite block (image mem)
      if ok then pure block
      else
        hexafsFreeBlock block
        pure 0) := by
  refine hexafsAllocBlock_keeps.bind fun block => (Code.keeps_pure _).ite ?_
  refine Code.keeps_memory.bind fun mem => (Code.keeps_request _).bind fun ok => ?_
  refine (Code.keeps_pure _).ite ?_
  exact (hexafsFreeBlock_keeps block).bind fun _ => Code.keeps_pure _

theorem hexafsObjectAlloc_keeps (type : UInt8) : Code.Keeps view (hexafsObjectAlloc type) :=
  allocateAndWrite_keeps fun mem => toBlock 512 (newObject type mem.sbCache.timestamp)

theorem hexafsAbstractionCreate_keeps : Code.Keeps view hexafsAbstractionCreate :=
  allocateAndWrite_keeps fun _ => toBlock 512 newAbstraction

theorem writeContent_keeps (left i : ℕ) (slots : List UInt32) (data : List UInt8) :
    Code.Keeps view (writeContent left i slots data) := by
  induction left generalizing i slots data with
  | zero => exact Code.keeps_pure _
  | succ left ih =>
    cases slots with
    | nil => exact Code.keeps_pure _
    | cons slot slots =>
      rw [writeContent]
      -- the rest of the iteration stands in both branches
      refine Code.Keeps.ite (hexafsAllocBlock_keeps.bind fun db => ?_)
        ((Code.keeps_pure slot).bind fun db => ?_)
      all_goals
        refine (Code.keeps_pure none).ite ((Code.keeps_request _).bind fun ok => ?_)
        refine Code.Keeps.ite ((ih _ _ _).bind fun _ => Code.keeps_pure _) ?_
        refine Code.Keeps.ite ?_ (Code.keeps_pure none)
        exact (hexafsFreeBlock_keeps db).bind fun _ => Code.keeps_pure none

theorem hexafsObjectWriteData_keeps (block : UInt32) (data : List UInt8) :
    Code.Keeps view (hexafsObjectWriteData block data) := by
  refine (Code.keeps_request _).bind fun reply => ?_
  cases reply with
  | none => exact Code.keeps_pure _
  | some buf =>
    refine Code.Keeps.ite ?_ (Code.keeps_pure _)
    refine (writeContent_keeps _ _ _ _).bind fun slots => ?_
    cases slots with
    | none => exact Code.keeps_pure _
    | some slots => exact Code.keeps_request _

theorem hexafsAbstractionAddEntry_keeps (absBlock : UInt32) (name : CString) (objBlock : UInt32)
    (type : UInt8) : Code.Keeps view (hexafsAbstractionAddEntry absBlock name objBlock type) := by
  rw [hexafsAbstractionAddEntry]
  generalize chainFuel = fuel
  refine (addEntryLoop_keeps name objBlock type fuel absBlock).bind fun walk => ?_
  cases walk with
  | returned value => exact Code.keeps_pure _
  | fellOut cur =>
    refine hexafsAbstractionCreate_keeps.bind fun block => (Code.keeps_pure _).ite ?_
    refine (hexafsAbstractionSetChain_keeps _ _).bind fun _ => ?_
    refine (Code.keeps_request _).bind fun reply => ?_
    cases reply with
    | none => exact Code.keeps_pure _
    | some buf => exact Code.keeps_request _

theorem formFromFentry_keeps (content : Option (List UInt8)) (size : ℕ) (owner : UInt32)
    (mode : UInt16) : Code.Keeps view (formFromFentry content size owner mode) := by
  refine (hexafsObjectAlloc_keeps _).bind fun block => (Code.keeps_pure _).ite ?_
  refine (Code.keeps_request _).bind fun fill => ?_
  cases fill with
  | none => exact (hexafsFreeBlock_keeps block).bind fun _ => Code.keeps_pure _
  | some fill =>
    refine (hexafsObjectWriteData_keeps _ _).bind fun ok => (Code.keeps_pure _).ite ?_
    exact (hexafsFreeBlock_keeps block).bind fun _ => Code.keeps_pure _

theorem saveForms_keeps (newAbs : UInt32) (left i : ℕ) : Code.Keeps view (saveForms newAbs left i) := by
  induction left generalizing i with
  | zero => exact Code.keeps_pure _
  | succ left ih =>
    refine Code.keeps_memory.bind fun mem => (formFromFentry_keeps _ _ _ _).bind fun fb => ?_
    refine Code.Keeps.ite (ih _) ?_
    exact (hexafsAbstractionAddEntry_keeps _ _ _ _).bind fun _ => ih _

end Blocks

section Writers

variable {σ : Type} {view : Memory → σ} [IgnoresStore view]

theorem modifyTx_keeps (update : HexafsTx → HexafsTx) : Code.Keeps view (modifyTx update) :=
  Code.keeps_modify fun mem => IgnoresStore.currentTx mem _

theorem hexafsTxBegin_keeps : Code.Keeps view hexafsTxBegin := by
  refine Code.keeps_memory.bind fun mem => (Code.keeps_pure _).ite ?_
  refine Code.Keeps.bind (Code.keeps_modify fun mem => ?_) fun _ => Code.keeps_pure _
  exact (IgnoresStore.currentTx { mem with txGen := mem.txGen + 1 } _).trans
    (IgnoresStore.txGen mem _)

theorem hexafsTxAbort_keeps : Code.Keeps view hexafsTxAbort := by
  refine Code.keeps_memory.bind fun mem => Code.Keeps.ite ?_ (Code.keeps_pure _)
  exact (modifyTx_keeps _).bind fun _ => Code.keeps_pure _

theorem hexafsSnapCreate_keeps (name : CString) : Code.Keeps view (hexafsSnapCreate name) := by
  refine Code.keeps_memory.bind fun mem => Code.Keeps.ite ?_ (Code.keeps_pure _)
  refine hexafsAllocBlock_keeps.bind fun block => (Code.keeps_pure _).ite ?_
  refine (Code.keeps_request _).bind fun ok => Code.Keeps.ite ?_ ?_
  · refine (modifyTx_keeps _).bind fun _ => ?_
    refine Code.Keeps.bind (Code.keeps_modify fun mem => ?_) fun _ => Code.keeps_pure _
    exact IgnoresStore.sbCache mem _
  · exact (hexafsFreeBlock_keeps block).bind fun _ => Code.keeps_pure _

theorem hexafsTxCommit_keeps : Code.Keeps view hexafsTxCommit := by
  have hbitmap : Code.Keeps view hexafsSaveBitmap := by
    refine Code.keeps_memory.bind fun mem => Code.Keeps.ite ?_ (Code.keeps_pure _)
    refine (saveBitmapFrom_keeps _ _).bind fun ok => Code.Keeps.ite ?_ (Code.keeps_pure _)
    exact (modifyAllocator_keeps _).bind fun _ => Code.keeps_pure _
  have hsuper : Code.Keeps view hexafsWriteSuperblock := by
    refine Code.keeps_memory.bind fun mem => ?_
    refine Code.Keeps.bind (Code.keeps_modify fun mem => ?_) fun _ => Code.keeps_request _
    exact IgnoresStore.sbCache mem _
  have hend : Code.Keeps view (do
      modifyTx fun tx => { tx with active := false }
      pure true) := (modifyTx_keeps _).bind fun _ => Code.keeps_pure _
  refine Code.keeps_memory.bind fun mem => Code.Keeps.ite ?_ (Code.keeps_pure _)
  refine Code.Keeps.ite ?_ hend
  refine hbitmap.bind fun ok => Code.Keeps.ite ?_ (Code.keeps_pure _)
  exact hsuper.bind fun ok => hend.ite (Code.keeps_pure _)

theorem commitRoot_keeps (newRoot : UInt32) (name : CString) :
    Code.Keeps view (commitRoot newRoot name) := by
  refine (modifyTx_keeps _).bind fun _ => (hexafsSnapCreate_keeps name).bind fun _ => ?_
  exact hexafsTxCommit_keeps.bind fun _ => Code.keeps_pure _

/-- hexafs_users_save and pimp_save_rules -/
theorem saveConfig_keeps (name snapName : CString) (data : List UInt8) :
    Code.Keeps view (saveConfig name snapName data) := by
  have habort : Code.Keeps view (do
      let _ ← hexafsTxAbort
      pure false) := hexafsTxAbort_keeps.bind fun _ => Code.keeps_pure _
  have hwrite : ∀ absBlock block,
      Code.Keeps view (saveConfig.writeConfig snapName data absBlock block) := by
    intro absBlock block
    refine (hexafsObjectWriteData_keeps block data).bind fun ok => Code.Keeps.ite ?_ habort
    exact (commitRoot_keeps _ _).bind fun _ => Code.keeps_pure _
  have hnew : ∀ absBlock, Code.Keeps view (saveConfig.saveNewConfig name snapName data absBlock) := by
    intro absBlock
    refine (hexafsObjectAlloc_keeps _).bind fun block => habort.ite ?_
    exact (hexafsAbstractionAddEntry_keeps _ _ _ _).bind fun _ => hwrite absBlock block
  refine Code.keeps_memory.bind fun mem => Code.Keeps.ite ?_ (Code.keeps_pure _)
  refine hexafsTxBegin_keeps.bind fun _ => rootAbstraction_keeps.bind fun absBlock => ?_
  refine habort.ite ?_
  have hfind : Code.Keeps view (hexafsAbstractionFind absBlock name) := findLoop_keeps _ _ _
  refine hfind.bind fun found => ?_
  cases found.map (·.objectBlock) with
  | none => exact hnew absBlock
  | some block => exact (hnew absBlock).ite (hwrite absBlock block)

theorem pimpSaveRules_keeps : Code.Keeps view pimpSaveRules :=
  Code.keeps_memory.bind fun _ => saveConfig_keeps _ _ _

theorem hexafsSaveAll_keeps : Code.Keeps view hexafsSaveAll := by
  refine Code.keeps_memory.bind fun mem => Code.Keeps.ite ?_ (Code.keeps_pure _)
  refine hexafsTxBegin_keeps.bind fun _ => hexafsAbstractionCreate_keeps.bind fun newAbs => ?_
  refine Code.Keeps.ite (hexafsTxAbort_keeps.bind fun _ => Code.keeps_pure _) ?_
  exact (saveForms_keeps _ _ _).bind fun _ => commitRoot_keeps _ _

/-- save_data -/
theorem saveData_keeps : Code.Keeps view saveData := by
  refine Code.keeps_memory.bind fun mem => Code.Keeps.ite ?_ (Code.keeps_pure _)
  refine hexafsSaveAll_keeps.bind fun _ => Code.keeps_memory.bind fun mem => ?_
  exact (Code.keeps_halt _).ite ((saveConfig_keeps _ _ _).bind fun _ => Code.keeps_pure _)

end Writers

end HexaOS.Hexafs
