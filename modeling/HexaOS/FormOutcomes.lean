import HexaOS.DeviceOutcomes
import HexaOS.KernelVfs

/-!
# Outcomes of the code on blocks

One rule for every function that allocates, frees, reads or stores: what its callers have
to know of the block, and the state that it leaves. The rules hold for any set of allowed
stops. Where an access outside a block is allowed to stop the run nothing has to be known
of the block; where it is not, the block has to be there.
-/

namespace HexaOS.Kernel

open DevicePrograms PackedBytes Hexafs

/-- The device behind one more call of kmalloc. -/
def nextKmalloc (dev : Device) : Device := { dev with kmallocCount := dev.kmallocCount + 1 }

/-- A block that kmalloc returns has the length that was asked for. -/
theorem length_heapBlock {env : Environment} {n size : ℕ} {fill : List UInt8}
    (h : env.heapBlock n size = some fill) : fill.length = size := by
  rw [Environment.heapBlock] at h
  split at h
  · rw [← Option.some.inj h, List.length_map, List.length_range]
  · cases h

/-- Bytes from an offset on that lie in an allocated block. -/
def FormStore.Within (forms : FormStore) (address : ℕ) (offset : Int) (count : ℕ) : Prop :=
  ∃ block, forms.block address = some block ∧ 0 ≤ offset ∧ offset + count ≤ block.length

/-- The forms behind stores into a block. -/
def FormStore.stored (forms : FormStore) (address : ℕ) (offset : Int) (bytes : List UInt8) :
    FormStore :=
  forms.setBlock address
    (some (overlay ((forms.block address).getD []) offset.toNat bytes))

/-- The forms behind a growth: the content lies in a new block, the old one is freed. -/
def FormStore.grown (forms : FormStore) (idx : ℕ) (fill : List UInt8) (newcap : ℕ) : FormStore :=
  let form := forms.slot idx
  let moved :=
    if form.content = 0 then forms.alloc fill
    else ((forms.alloc fill).stored forms.fresh 0 (forms.bytes idx)).setBlock form.content none
  moved.setSlot idx { form with content := forms.fresh, cap := newcap }

/-- The capacity that form_ensure_cap asks for. -/
def grownCap (needed : Int32) : ℕ := (needed + 1024).toUInt32.toNat

/-- A number that is not negative, as an unsigned one. -/
theorem toNat_toUInt32 {number : Int32} (h : 0 ≤ number.toInt) :
    (number.toUInt32.toNat : Int) = number.toInt := by
  have hlt : number.toBitVec.toNat < 2 ^ 32 := number.toBitVec.isLt
  have hnat : number.toUInt32.toNat = number.toBitVec.toNat := rfl
  have hint : number.toInt = number.toBitVec.toInt := rfl
  rw [hint, BitVec.toInt_eq_toNat_cond] at h ⊢
  rw [hnat]
  split at h
  · rename_i hlow
    rw [if_pos hlow]
  · omega

/-- The capacity of a new buffer. -/
theorem grownCap_eq {needed : ℕ} {asked : Int32} (hasked : asked.toInt = needed)
    (hmax : needed + 1024 < 2 ^ 31) : grownCap asked = needed + 1024 := by
  have hadd : (asked + 1024).toInt = needed + 1024 := by
    rw [Int32.toInt_add, hasked]
    show ((needed : Int) + 1024).bmod (2 ^ 32) = _
    exact Int.bmod_eq_of_le (by omega) (by omega)
  have hnat : ((asked + 1024).toUInt32.toNat : Int) = (asked + 1024).toInt :=
    toNat_toUInt32 (by omega)
  rw [grownCap]
  omega

/-- A kernel with other forms. -/
def KernelMemory.withForms (kernel : KernelMemory) (forms : FormStore) : KernelMemory :=
  { kernel with forms := forms }

@[simp] theorem forms_withForms (kernel : KernelMemory) (forms : FormStore) :
    (kernel.withForms forms).forms = forms := rfl

/-- A kernel with other forms and another form_count. -/
def KernelMemory.withTable (kernel : KernelMemory) (forms : FormStore) (count : ℕ) :
    KernelMemory :=
  { kernel with forms := forms, store := { kernel.store with formCount := count } }

@[simp] theorem forms_withTable (kernel : KernelMemory) (forms : FormStore) (count : ℕ) :
    (kernel.withTable forms count).forms = forms := rfl

@[simp] theorem formCount_withTable (kernel : KernelMemory) (forms : FormStore) (count : ℕ) :
    (kernel.withTable forms count).store.formCount = count := rfl

/-- The forms behind cmd_mkform: the slot has the name and an empty content of its own. -/
def FormStore.made (forms : FormStore) (idx : ℕ) (name : CString) (owner : UInt32)
    (fill : List UInt8) : FormStore :=
  let named := forms.setSlot idx { forms.slot idx with name := name }
  ((named.alloc fill).stored named.fresh 0 [0]).setSlot idx
    ⟨name, named.fresh, 0, 1, owner, permDefault⟩

/-- The forms behind a cmd_mkform that got no memory. -/
def FormStore.unmade (forms : FormStore) (idx : ℕ) (name : CString) : FormStore :=
  (forms.setSlot idx { forms.slot idx with name := name }).setSlot idx
    { forms.slot idx with name := name, content := 0 }

/-- cmd_mkform refuses the name: it is empty, or the table is full, or it has the name. -/
def KernelMemory.RefusesForm (kernel : KernelMemory) (name : CString) : Prop :=
  name.chars = [] ∨ maxForms ≤ kernel.store.formCount ∨ (findForm kernel name).isSome

section Outcomes

variable {env : Environment} {stops : Stop → Prop} {kernel : KernelMemory} {dev : Device}

/-- What is known of the results holds behind a run. -/
theorem outcome_of_run {α : Type} {code : KernelM α} {system system' : System} {value : α}
    {post : α → KernelMemory → Device → Prop}
    (h : code.outcome (cachedDevice env) stops system.kernel system.dev post)
    (hrun : system.run env code = .ok (value, system')) :
    post value system'.kernel system'.dev := by
  rw [System.run] at hrun
  cases hexec : code.exec (cachedDevice env) system.kernel system.dev with
  | error stop => rw [hexec] at hrun; cases hrun
  | ok result =>
    rw [hexec] at hrun
    simp only [Except.ok.injEq, Prod.mk.injEq] at hrun
    have hpost := Code.outcome_of_exec h hexec
    obtain ⟨rfl, rfl⟩ := hrun
    exact hpost

/-- A run that is stopped is stopped as it is allowed to be. -/
theorem stops_of_run {α : Type} {code : KernelM α} {system : System} {stop : Stop}
    {post : α → KernelMemory → Device → Prop}
    (h : code.outcome (cachedDevice env) stops system.kernel system.dev post)
    (hrun : system.run env code = .error stop) : stops stop := by
  rw [System.run] at hrun
  cases hexec : code.exec (cachedDevice env) system.kernel system.dev with
  | ok result => rw [hexec] at hrun; cases hrun
  | error other =>
    rw [hexec] at hrun
    obtain rfl : other = stop := Except.error.inj hrun
    exact Code.outcome_of_stop h hexec

/-- What is known of the results holds beside the run itself. -/
theorem outcome_run {α : Type} {code : KernelM α} {post : α → KernelMemory → Device → Prop}
    (h : code.outcome (cachedDevice env) stops kernel dev post) :
    code.outcome (cachedDevice env) stops kernel dev fun value kernel' dev' =>
      post value kernel' dev' ∧
        System.run env code ⟨kernel, dev⟩ = .ok (value, ⟨kernel', dev'⟩) := by
  rw [Code.outcome] at h ⊢
  rw [System.run]
  cases hexec : code.exec (cachedDevice env) kernel dev with
  | error stop =>
    rw [hexec] at h
    exact h
  | ok result =>
    rw [hexec] at h
    exact ⟨h, rfl⟩

/-- Code of the form store, run on the kernel. -/
theorem onStore_outcome {α : Type} {code : HexafsM α} {post : α → KernelMemory → Device → Prop} :
    (onStore code).outcome (cachedDevice env) stops kernel dev post ↔
      code.outcome (cachedDevice env) stops kernel.store dev fun value store dev' =>
        post value { kernel with store := store } dev' := by
  have hrun : (onStore code).exec (cachedDevice env) kernel dev =
      (code.exec (cachedDevice env) kernel.store dev).bind fun result =>
        .ok ((result.1.1, { kernel with store := result.1.2 }), result.2) :=
    Program.run_bind (cachedDevice env) (code kernel.store)
      (fun result : α × Memory => (.done (result.1, { kernel with store := result.2 }) :
        Program BlockOp BlockReply (α × KernelMemory))) dev
  rw [Code.outcome, Code.outcome, hrun]
  cases code.exec (cachedDevice env) kernel.store dev with
  | error stop => exact Iff.rfl
  | ok result => exact Iff.rfl

theorem allocBlock_outcome {size : ℕ} {post : Option ℕ → KernelMemory → Device → Prop}
    (hnone : env.heapBlock dev.kmallocCount size = none → post none kernel (nextKmalloc dev))
    (hsome : ∀ fill, env.heapBlock dev.kmallocCount size = some fill →
      post (some kernel.forms.fresh) (kernel.withForms (kernel.forms.alloc fill))
        (nextKmalloc dev)) :
    (allocBlock size).outcome (cachedDevice env) stops kernel dev post := by
  have hop : cachedDevice env (.kmalloc size) dev =
      .ok (env.heapBlock dev.kmallocCount size, nextKmalloc dev) := rfl
  rw [allocBlock, Code.outcome_bind, Code.outcome_request hop]
  cases hblock : env.heapBlock dev.kmallocCount size with
  | none => exact hnone hblock
  | some fill => exact hsome fill hblock

theorem storeBytes_outcome {address : ℕ} {offset : Int} {bytes : List UInt8}
    {post : Unit → KernelMemory → Device → Prop}
    (hsafe : stops .fault ∨ kernel.forms.Within address offset bytes.length)
    (hstored : kernel.forms.Within address offset bytes.length →
      post () (kernel.withForms (kernel.forms.stored address offset bytes)) dev) :
    (storeBytes address offset bytes).outcome (cachedDevice env) stops kernel dev post := by
  simp only [storeBytes, modifyForms, Code.outcome_bind, Code.outcome_memory]
  cases hblock : kernel.forms.block address with
  | none =>
    rcases hsafe with hstop | hwithin
    · exact hstop
    · obtain ⟨block, hsome, -, -⟩ := hwithin
      rw [hblock] at hsome
      cases hsome
  | some block =>
    dsimp only
    split
    · rename_i hfits
      have hpost := hstored ⟨block, hblock, hfits.1, hfits.2⟩
      rw [FormStore.stored, hblock, Option.getD_some] at hpost
      exact hpost
    · rename_i hfits
      rcases hsafe with hstop | hwithin
      · exact hstop
      · obtain ⟨block', hsome, h0, hle⟩ := hwithin
        rw [hblock] at hsome
        cases hsome
        exact absurd ⟨h0, hle⟩ hfits

theorem loadBytes_outcome {address offset count : ℕ}
    {post : List UInt8 → KernelMemory → Device → Prop}
    (hsafe : stops .fault ∨ kernel.forms.Within address offset count)
    (hloaded : kernel.forms.Within address offset count →
      post ((((kernel.forms.block address).getD []).drop offset).take count) kernel dev) :
    (loadBytes address offset count).outcome (cachedDevice env) stops kernel dev post := by
  simp only [loadBytes, Code.outcome_bind, Code.outcome_memory]
  cases hblock : kernel.forms.block address with
  | none =>
    rcases hsafe with hstop | hwithin
    · exact hstop
    · obtain ⟨block, hsome, -, -⟩ := hwithin
      rw [hblock] at hsome
      cases hsome
  | some block =>
    dsimp only
    split
    · rename_i hfits
      have hpost := hloaded ⟨block, hblock, by omega, by omega⟩
      rw [hblock, Option.getD_some] at hpost
      exact hpost
    · rename_i hfits
      rcases hsafe with hstop | hwithin
      · exact hstop
      · obtain ⟨block', hsome, h0, hle⟩ := hwithin
        rw [hblock] at hsome
        cases hsome
        omega

theorem freeBlock_outcome {address : ℕ} {post : Unit → KernelMemory → Device → Prop}
    (hsafe : stops .fault ∨ address = 0 ∨ (kernel.forms.block address).isSome)
    (hnull : address = 0 → post () kernel dev)
    (hfreed : address ≠ 0 → (kernel.forms.block address).isSome →
      post () (kernel.withForms (kernel.forms.setBlock address none)) dev) :
    (freeBlock address).outcome (cachedDevice env) stops kernel dev post := by
  rw [freeBlock]
  split
  · rename_i hzero
    exact hnull hzero
  · rename_i hzero
    simp only [modifyForms, Code.outcome_bind, Code.outcome_memory]
    cases hblock : kernel.forms.block address with
    | none =>
      rw [hblock] at hsafe
      rcases hsafe with hstop | hnull' | hsome
      · exact hstop
      · exact absurd hnull' hzero
      · cases hsome
    | some block => exact hfreed hzero (by rw [hblock]; rfl)

/-- The size of the form fits its block and the new one. -/
def FormStore.Movable (forms : FormStore) (idx newcap : ℕ) : Prop :=
  (forms.slot idx).content = 0 ∨
    forms.Within (forms.slot idx).content 0 (forms.slot idx).size ∧ (forms.slot idx).size ≤ newcap

/-- A block that was there before another one was allocated. -/
theorem FormStore.block_alloc (forms : FormStore) (bytes : List UInt8) {address : ℕ}
    (h : address ≠ forms.fresh) : (forms.alloc bytes).block address = forms.block address :=
  Function.update_of_ne h _ _

theorem FormStore.block_alloc_fresh (forms : FormStore) (bytes : List UInt8) :
    (forms.alloc bytes).block forms.fresh = some bytes :=
  Function.update_self ..

theorem FormStore.length_bytes {forms : FormStore} {idx : ℕ}
    (h : forms.Within (forms.slot idx).content 0 (forms.slot idx).size) :
    (forms.bytes idx).length = (forms.slot idx).size := by
  obtain ⟨block, hblock, -, hle⟩ := h
  rw [FormStore.bytes, hblock, Option.getD_some, List.length_take]
  omega

/-- form_ensure_cap: nothing to do, no memory, or a growth. -/
theorem formEnsureCap_outcome {idx : ℕ} {needed : Int32}
    {post : Bool → KernelMemory → Device → Prop}
    (hsafe : stops .fault ∨ kernel.forms.Movable idx (grownCap needed))
    (hfits : needed.toInt ≤ (kernel.forms.slot idx).cap → post true kernel dev)
    (hnone : ¬needed.toInt ≤ (kernel.forms.slot idx).cap →
      env.heapBlock dev.kmallocCount (grownCap needed) = none → post false kernel (nextKmalloc dev))
    (hgrown : ∀ fill, ¬needed.toInt ≤ (kernel.forms.slot idx).cap →
      env.heapBlock dev.kmallocCount (grownCap needed) = some fill →
        kernel.forms.Movable idx (grownCap needed) →
          post true (kernel.withForms (kernel.forms.grown idx fill (grownCap needed)))
            (nextKmalloc dev)) :
    (formEnsureCap idx needed).outcome (cachedDevice env) stops kernel dev post := by
  simp only [formEnsureCap, Code.outcome_bind, Code.outcome_memory]
  split
  · rename_i hle
    exact hfits hle
  rename_i hle
  rw [Code.outcome_bind]
  refine allocBlock_outcome (hnone hle) fun fill hfill => ?_
  have hlength : fill.length = grownCap needed := length_heapBlock hfill
  have hnew := hgrown fill hle hfill
  have hold : (kernel.forms.slot idx).content ≠ kernel.forms.fresh :=
    (kernel.forms.content_lt idx).ne
  simp only [moveContent, modifyForms, Code.outcome_bind]
  by_cases hzero : (kernel.forms.slot idx).content = 0
  · rw [if_pos hzero]
    have hpost := hnew (.inl hzero)
    rw [FormStore.grown] at hpost
    rw [if_pos hzero] at hpost
    exact hpost
  rw [if_neg hzero, Code.outcome_bind]
  -- the old block is where it was, behind the new one
  have hblock : ((kernel.withForms (kernel.forms.alloc fill)).forms).block
      (kernel.forms.slot idx).content = kernel.forms.block (kernel.forms.slot idx).content :=
    kernel.forms.block_alloc fill hold
  have hsafe' : stops .fault ∨
      (kernel.forms.Within (kernel.forms.slot idx).content 0 (kernel.forms.slot idx).size ∧
        (kernel.forms.slot idx).size ≤ grownCap needed) := by
    rcases hsafe with hstop | hnull | hmovable
    · exact .inl hstop
    · exact absurd hnull hzero
    · exact .inr hmovable
  refine loadBytes_outcome ?_ fun hwithin => ?_
  · rcases hsafe' with hstop | hmovable
    · exact .inl hstop
    · refine .inr ?_
      rw [FormStore.Within, hblock]
      exact hmovable.1
  rw [FormStore.Within, hblock] at hwithin
  rw [hblock, List.drop_zero, Code.outcome_bind]
  have hbytes : ((kernel.forms.block (kernel.forms.slot idx).content).getD []).take
      (kernel.forms.slot idx).size = kernel.forms.bytes idx := rfl
  have hsize := FormStore.length_bytes hwithin
  rw [hbytes]
  refine storeBytes_outcome ?_ fun hstored => ?_
  · rcases hsafe' with hstop | hmovable
    · exact .inl hstop
    · refine .inr ⟨fill, kernel.forms.block_alloc_fresh fill, Int.le_refl 0, ?_⟩
      have hle' := hmovable.2
      omega
  have hmovable : (kernel.forms.slot idx).size ≤ grownCap needed := by
    obtain ⟨block, hsome, -, hle'⟩ := hstored
    have hfresh : block = fill := by
      have halloc := kernel.forms.block_alloc_fresh fill
      rw [forms_withForms, halloc] at hsome
      exact (Option.some.inj hsome).symm
    rw [hfresh, hlength] at hle'
    omega
  have hkept : (((kernel.forms.alloc fill).stored kernel.forms.fresh 0
      (kernel.forms.bytes idx)).block
      (kernel.forms.slot idx).content).isSome := by
    obtain ⟨block, hsome, -, -⟩ := hwithin
    rw [FormStore.stored, FormStore.block_setBlock_of_ne _ hold, kernel.forms.block_alloc fill hold,
      hsome]
    rfl
  refine freeBlock_outcome (.inr (.inr hkept)) (fun hnull => absurd hnull hzero) fun _ _ => ?_
  have hpost := hnew (.inr ⟨hwithin, hmovable⟩)
  rw [FormStore.grown] at hpost
  rw [if_neg hzero] at hpost
  exact hpost

/-- cmd_mkform: a line about what is wrong, no memory, or a form in the next slot. -/
theorem cmdMkform_outcome {name : CString} {post : MkformLine → KernelMemory → Device → Prop}
    (hsafe : stops .fault ∨ name.chars.length < nameMax ∨ kernel.RefusesForm name)
    (hkept : ∀ line, line ≠ .created → kernel.RefusesForm name → post line kernel dev)
    (hnone : env.heapBlock dev.kmallocCount 1 = none →
      post .outOfMemory (kernel.withForms (kernel.forms.unmade kernel.store.formCount name))
        (nextKmalloc dev))
    (hmade : ∀ fill, env.heapBlock dev.kmallocCount 1 = some fill →
      kernel.store.formCount < maxForms → findForm kernel name = none →
        name.chars.length < nameMax → name.chars ≠ [] →
          post .created (kernel.withTable (kernel.forms.made kernel.store.formCount name
            (UInt32.ofNat kernel.store.uCur) fill) (kernel.store.formCount + 1))
            (nextKmalloc dev)) :
    (cmdMkform name).outcome (cachedDevice env) stops kernel dev post := by
  simp only [cmdMkform, Code.outcome_bind, Code.outcome_memory]
  split
  · rename_i hempty
    exact hkept .usage (by decide) (.inl hempty)
  rename_i hempty
  split
  · rename_i hfull
    exact hkept .storeFull (by decide) (.inr (.inl hfull))
  rename_i hroom
  split
  · rename_i hfound
    exact hkept .formExists (by decide) (.inr (.inr hfound))
  rename_i hnew
  split
  · rename_i hlong
    rcases hsafe with hstop | hshort | hrefuses
    · exact hstop
    · omega
    · rcases hrefuses with hnil | hfull | hfound
      · exact absurd hnil hempty
      · exact absurd hfull hroom
      · exact absurd hfound hnew
  rename_i hshort
  simp only [modifyForms, Code.outcome_bind, Code.outcome_modify]
  refine allocBlock_outcome (fun hblock => ?_) fun fill hfill => ?_
  · have hpost := hnone hblock
    rw [FormStore.unmade] at hpost
    simp only [Code.outcome_bind, Code.outcome_modify, Code.outcome_pure,
      FormStore.slot_setSlot_self]
    exact hpost
  · have hnone' : findForm kernel name = none := Option.not_isSome_iff_eq_none.mp hnew
    have hpost := hmade fill hfill (by omega) hnone' (by omega) hempty
    have hlength : fill.length = 1 := length_heapBlock hfill
    dsimp only
    rw [Code.outcome_bind]
    refine storeBytes_outcome (.inr ⟨fill, ?_, Int.le_refl 0, ?_⟩) fun _ => ?_
    · exact FormStore.block_alloc_fresh _ fill
    · rw [hlength]
      decide
    simp only [Code.outcome_bind, Code.outcome_modify, Code.outcome_pure, forms_withForms]
    have hslot : (((kernel.forms.setSlot kernel.store.formCount
        { kernel.forms.slot kernel.store.formCount with name := name }).alloc fill).stored
          (kernel.forms.setSlot kernel.store.formCount
            { kernel.forms.slot kernel.store.formCount with name := name }).fresh 0 [0]).slot
              kernel.store.formCount =
        { kernel.forms.slot kernel.store.formCount with name := name } :=
      FormStore.slot_setSlot_self ..
    rw [hslot]
    exact hpost

end Outcomes

section Growth

namespace FormStore

/-- A growth gives the form a new block. -/
theorem slot_grown_self (forms : FormStore) (idx : ℕ) (fill : List UInt8) (newcap : ℕ) :
    (forms.grown idx fill newcap).slot idx =
      { forms.slot idx with content := forms.fresh, cap := newcap } :=
  slot_setSlot_self ..

theorem slot_grown_of_ne (forms : FormStore) {idx j : ℕ} (h : j ≠ idx) (fill : List UInt8)
    (newcap : ℕ) : (forms.grown idx fill newcap).slot j = forms.slot j := by
  rw [grown, slot_setSlot_of_ne _ h]
  split <;> rfl

/-- The block of a grown form holds its bytes. -/
theorem block_grown_fresh (forms : FormStore) (idx : ℕ) (fill : List UInt8) (newcap : ℕ) :
    (forms.grown idx fill newcap).block forms.fresh =
      some (if (forms.slot idx).content = 0 then fill else overlay fill 0 (forms.bytes idx)) := by
  have hold : forms.fresh ≠ (forms.slot idx).content := (forms.content_lt idx).ne'
  rw [grown, block_setSlot]
  split
  · exact forms.block_alloc_fresh fill
  · rw [block_setBlock_of_ne _ hold, stored, block_setBlock_self, forms.block_alloc_fresh fill]
    rfl

/-- A growth frees the old block and leaves the others alone. -/
theorem block_grown_of_ne (forms : FormStore) (idx : ℕ) (fill : List UInt8) (newcap : ℕ)
    {address : ℕ} (hfresh : address ≠ forms.fresh) (hne : address ≠ (forms.slot idx).content) :
    (forms.grown idx fill newcap).block address = forms.block address := by
  rw [grown, block_setSlot]
  split
  · exact forms.block_alloc fill hfresh
  · rw [block_setBlock_of_ne _ hne, stored, block_setBlock_of_ne _ hfresh,
      forms.block_alloc fill hfresh]

/-- The slot of a form that was made. -/
theorem slot_made_self (forms : FormStore) (idx : ℕ) (name : CString) (owner : UInt32)
    (fill : List UInt8) :
    (forms.made idx name owner fill).slot idx = ⟨name, forms.fresh, 0, 1, owner, permDefault⟩ := by
  have hfresh : (forms.setSlot idx { forms.slot idx with name := name }).fresh = forms.fresh :=
    max_eq_left (forms.content_lt idx)
  rw [made, slot_setSlot_self, hfresh]

theorem slot_made_of_ne (forms : FormStore) {idx j : ℕ} (h : j ≠ idx) (name : CString)
    (owner : UInt32) (fill : List UInt8) :
    (forms.made idx name owner fill).slot j = forms.slot j := by
  rw [made, slot_setSlot_of_ne _ h]
  exact slot_setSlot_of_ne _ h _

/-- The block of a form that was made is new. -/
theorem block_made (forms : FormStore) (idx : ℕ) (name : CString) (owner : UInt32)
    (fill : List UInt8) : (forms.made idx name owner fill).block =
      Function.update forms.block forms.fresh (some (overlay fill 0 [0])) := by
  have hfresh : (forms.setSlot idx { forms.slot idx with name := name }).fresh = forms.fresh :=
    max_eq_left (forms.content_lt idx)
  have hblock : (forms.made idx name owner fill).block = Function.update
      (Function.update forms.block (forms.setSlot idx { forms.slot idx with name := name }).fresh
        (some fill)) (forms.setSlot idx { forms.slot idx with name := name }).fresh
          (some (overlay fill 0 [0])) := by
    rw [made, block_setSlot, stored, block_alloc_fresh]
    rfl
  rw [hblock, Function.update_idem, hfresh]

theorem slot_unmade_of_ne (forms : FormStore) {idx j : ℕ} (h : j ≠ idx) (name : CString) :
    (forms.unmade idx name).slot j = forms.slot j := by
  rw [unmade, slot_setSlot_of_ne _ h, slot_setSlot_of_ne _ h]

end FormStore

end Growth

end HexaOS.Kernel
