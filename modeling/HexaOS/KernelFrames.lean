import HexaOS.KernelIntents

/-!
# What the intent calls leave alone

The check of a capability only reads. Creating a form adds it behind the others, and
registering an intent fills one inactive entry. A fulfilment keeps names, owners and
modes, and only a production stores anything in a block.
-/

namespace HexaOS.Kernel

open DevicePrograms PackedBytes Hexafs

section Checks

theorem readContent_keeps (slots : List UInt32) (remaining : ℕ) :
    (readContent slots remaining).Keeps id := by
  induction slots generalizing remaining with
  | nil => exact Code.keeps_pure _
  | cons db rest ih =>
    refine Code.Keeps.ite (Code.keeps_pure _) ((Code.keeps_request _).bind fun reply => ?_)
    cases reply with
    | none => exact Code.keeps_pure _
    | some buf => exact (ih _).bind fun _ => Code.keeps_pure _

theorem hexafsObjectReadData_keeps (block : UInt32) : (hexafsObjectReadData block).Keeps id := by
  refine (Code.keeps_request _).bind fun reply => ?_
  cases reply with
  | none => exact Code.keeps_pure _
  | some buf =>
    refine Code.Keeps.ite (Code.Keeps.ite ?_ (Code.keeps_pure _)) (Code.keeps_pure _)
    exact (readContent_keeps _ _).bind fun _ => Code.keeps_pure _

theorem readGrant_keeps (block : UInt32) : (readGrant block).Keeps id := by
  refine Code.Keeps.ite (Code.keeps_pure _) ((Code.keeps_request _).bind fun reply => ?_)
  cases reply with
  | none => exact Code.keeps_pure _
  | some buf =>
    dsimp only
    split
    · exact Code.keeps_pure _
    · refine (hexafsObjectReadData_keeps block).bind fun read => ?_
      split
      · split
        · exact Code.keeps_pure _
        · split
          · exact Code.keeps_halt _
          · exact Code.keeps_pure _
      · exact Code.keeps_pure _

theorem capCheckFrom_keeps (systemTicks pid capType : UInt32) (grants : CapGrants) :
    (capCheckFrom systemTicks pid capType grants).Keeps id := by
  induction grants with
  | nil => exact Code.keeps_pure _
  | cons block grants ih =>
    have hsnap : (hexafsSnapForPid pid).Keeps id :=
      Code.keeps_memory.bind fun _ => Code.keeps_pure _
    refine (readGrant_keeps block).bind fun grant => ?_
    cases grant with
    | none => exact ih
    | some grant =>
      refine Code.Keeps.ite (hsnap.bind fun pidSnap => ?_) ih
      exact Code.Keeps.ite (Code.keeps_pure _) (Code.Keeps.ite (Code.keeps_pure _) ih)

theorem hexafsCapCheck_keeps (grants : CapGrants) (systemTicks pid capType : UInt32) :
    (hexafsCapCheck grants systemTicks pid capType).Keeps id :=
  (Code.keeps_pure _).ite (capCheckFrom_keeps _ _ _ _)

/-- Store code that only reads is kernel code that only reads. -/
theorem onStore_keeps {α : Type} {code : HexafsM α} (h : code.Keeps id) :
    (onStore code).Keeps id := by
  intro kernel
  have hleaves : (code kernel.store).Ensures fun result => result.2 = kernel.store := h kernel.store
  refine (Program.ensures_bind _ _).mpr (hleaves.mono fun result hkept => ?_)
  show ({ kernel with store := result.2 } : KernelMemory) = kernel
  rw [hkept]

theorem capCheck_keeps (pid capType : UInt32) : (capCheck pid capType).Keeps id :=
  Code.keeps_memory.bind fun _ => onStore_keeps (hexafsCapCheck_keeps _ _ _ _)

end Checks

section Forms

/-- Forms keep their place, name, owner and mode, and the user stays the same. -/
structure Preserves (kernel kernel' : KernelMemory) : Prop where
  /-- No form goes away. -/
  formCount : kernel.store.formCount ≤ kernel'.store.formCount
  /-- The user stays. -/
  uCur : kernel'.store.uCur = kernel.store.uCur
  /-- Names stay. -/
  name : ∀ i < kernel.store.formCount, (kernel'.forms.slot i).name = (kernel.forms.slot i).name
  /-- Owners stay. -/
  owner : ∀ i < kernel.store.formCount, (kernel'.forms.slot i).owner = (kernel.forms.slot i).owner
  /-- Modes stay. -/
  mode : ∀ i < kernel.store.formCount, (kernel'.forms.slot i).mode = (kernel.forms.slot i).mode

/-- The permissions on a form stay the same. -/
theorem Preserves.checkPerm {kernel kernel' : KernelMemory} (h : Preserves kernel kernel') {i : ℕ}
    (hi : i < kernel.store.formCount) (wantWrite : Bool) :
    checkPerm kernel' i wantWrite = checkPerm kernel i wantWrite := by
  have hi' : ¬kernel'.store.formCount ≤ i := by have := h.formCount; omega
  have hi'' : ¬kernel.store.formCount ≤ i := by omega
  rw [Kernel.checkPerm, Kernel.checkPerm, h.uCur, h.owner i hi, h.mode i hi, if_neg hi', if_neg hi'']

/-- The forms that were there show the bytes that they showed. -/
def SameContents (kernel kernel' : KernelMemory) : Prop :=
  ∀ i < kernel.store.formCount, kernel'.forms.bytes i = kernel.forms.bytes i

/-- The intents and the handle counter are the same. -/
def SameIntents (kernel kernel' : KernelMemory) : Prop :=
  kernel'.intentTable = kernel.intentTable ∧ kernel'.nextHandle = kernel.nextHandle

/-- A kernel with one more block. -/
def KernelMemory.withBlock (kernel : KernelMemory) (bytes : List UInt8) : KernelMemory :=
  { kernel with forms := kernel.forms.alloc bytes }

theorem allocBlock_ensures {kernel : KernelMemory} {size : ℕ}
    {post : Option ℕ → KernelMemory → Prop} (hnone : post none kernel)
    (hsome : ∀ fill, post (some kernel.forms.fresh) (kernel.withBlock fill)) :
    (allocBlock size).Ensures kernel post := by
  simp only [allocBlock, Code.ensures_bind, Code.ensures_request]
  intro reply
  cases reply with
  | none => exact hnone
  | some fill => exact hsome fill

theorem storeBytes_ensures {kernel : KernelMemory} {address : ℕ} {offset : Int}
    {bytes : List UInt8} {post : Unit → KernelMemory → Prop}
    (hstored : ∀ block, kernel.forms.block address = some block → 0 ≤ offset →
      offset + bytes.length ≤ block.length →
        post () { kernel with
          forms := kernel.forms.setBlock address (some (overlay block offset.toNat bytes)) }) :
    (storeBytes address offset bytes).Ensures kernel post := by
  simp only [storeBytes, Code.ensures_bind, Code.ensures_memory]
  cases hblock : kernel.forms.block address with
  | none => trivial
  | some block =>
    dsimp only
    split
    · rename_i hfits
      exact hstored block hblock hfits.1 hfits.2
    · trivial

/-- What cmd_mkform does: nothing to the forms that are there, and a form that it creates
has a block of its own, belongs to the user and has the default mode. -/
structure MadeForm (kernel kernel' : KernelMemory) : Prop where
  /-- The forms stay. -/
  preserves : Preserves kernel kernel'
  /-- Their bytes stay. -/
  contents : SameContents kernel kernel'
  /-- The descriptors stay. -/
  vfsFds : kernel'.vfsFds = kernel.vfsFds
  /-- At most one form comes in. -/
  formCount_le : kernel'.store.formCount ≤ kernel.store.formCount + 1
  /-- Buffers stay. -/
  content : ∀ i < kernel.store.formCount,
    (kernel'.forms.slot i).content = (kernel.forms.slot i).content
  /-- The new form is one of the user. -/
  created : kernel.store.formCount < kernel'.store.formCount →
    (kernel'.forms.slot kernel.store.formCount).owner = UInt32.ofNat kernel.store.uCur ∧
      (kernel'.forms.slot kernel.store.formCount).mode = permDefault ∧
        ∀ i < kernel.store.formCount, (kernel'.forms.slot i).content ≠
          (kernel'.forms.slot kernel.store.formCount).content

/-- A kernel that differs in the slots behind its forms only. -/
theorem MadeForm.of_slots {kernel kernel' : KernelMemory}
    (hstore : kernel'.store = kernel.store) (hfds : kernel'.vfsFds = kernel.vfsFds)
    (hslot : ∀ i < kernel.store.formCount, kernel'.forms.slot i = kernel.forms.slot i)
    (hbytes : SameContents kernel kernel') : MadeForm kernel kernel' where
  preserves :=
    ⟨by rw [hstore], by rw [hstore], fun i hi => by rw [hslot i hi], fun i hi => by rw [hslot i hi],
      fun i hi => by rw [hslot i hi]⟩
  contents := hbytes
  vfsFds := hfds
  formCount_le := by
    rw [hstore]
    exact Nat.le_succ _
  content i hi := by rw [hslot i hi]
  created hlt := by
    rw [hstore] at hlt
    omega

theorem MadeForm.refl (kernel : KernelMemory) : MadeForm kernel kernel :=
  .of_slots rfl rfl (fun _ _ => rfl) fun _ _ => rfl

/-- Only the forms and the descriptors matter. -/
theorem MadeForm.congr {kernel middle kernel' : KernelMemory} (h : MadeForm kernel middle)
    (hstore : kernel'.store = middle.store) (hforms : kernel'.forms = middle.forms)
    (hfds : kernel'.vfsFds = middle.vfsFds) : MadeForm kernel kernel' := by
  obtain ⟨⟨hcount, huser, hname, howner, hmode⟩, hcontents, hvfs, hle, hcontent, hcreated⟩ := h
  rw [← hstore] at hcount huser hle hcreated
  rw [← hforms] at hname howner hmode hcontent hcreated
  rw [SameContents, ← hforms] at hcontents
  exact ⟨⟨hcount, huser, hname, howner, hmode⟩, hcontents, hfds.trans hvfs, hle, hcontent, hcreated⟩

theorem cmdMkform_ensures (kernel : KernelMemory) (name : CString) :
    (cmdMkform name).Ensures kernel fun _ kernel' =>
      MadeForm kernel kernel' ∧ SameIntents kernel kernel' := by
  have hrefl : MadeForm kernel kernel ∧ SameIntents kernel kernel := ⟨.refl kernel, rfl, rfl⟩
  simp only [cmdMkform, Code.ensures_bind, Code.ensures_memory]
  split
  · exact hrefl
  split
  · exact hrefl
  split
  · exact hrefl
  split
  · trivial
  have hother : ∀ i < kernel.store.formCount, i ≠ kernel.store.formCount := fun i hi => by omega
  simp only [modifyForms, Code.ensures_bind, Code.ensures_modify]
  refine allocBlock_ensures ?_ fun fill => ?_
  · simp only [Code.ensures_bind, Code.ensures_modify, Code.ensures_pure]
    refine ⟨.of_slots rfl rfl (fun i hi => ?_) fun i hi => ?_, rfl, rfl⟩
    · dsimp only
      rw [FormStore.slot_setSlot_of_ne _ (hother i hi), FormStore.slot_setSlot_of_ne _ (hother i hi)]
    · dsimp only
      rw [FormStore.bytes_setSlot_of_ne _ (hother i hi),
        FormStore.bytes_setSlot_of_ne _ (hother i hi)]
  · -- the new block is behind every block that a slot holds
    dsimp only
    rw [Code.ensures_bind]
    refine storeBytes_ensures fun block hblock _ _ => ?_
    simp only [Code.ensures_bind, Code.ensures_modify, Code.ensures_pure, KernelMemory.withBlock]
    generalize hnamed : kernel.forms.setSlot kernel.store.formCount
      { kernel.forms.slot kernel.store.formCount with name := name } = named
    have hslot : ∀ i < kernel.store.formCount, named.slot i = kernel.forms.slot i := by
      intro i hi
      rw [← hnamed, FormStore.slot_setSlot_of_ne _ (hother i hi)]
    have hbytes : ∀ i < kernel.store.formCount, named.bytes i = kernel.forms.bytes i := by
      intro i hi
      rw [← hnamed, FormStore.bytes_setSlot_of_ne _ (hother i hi)]
    have hkept : ∀ i < kernel.store.formCount, ∀ slot : FormSlot, (((named.alloc fill).setBlock
        named.fresh (some (overlay block (0 : Int).toNat [0]))).setSlot kernel.store.formCount
          slot).slot i = kernel.forms.slot i := by
      intro i hi slot
      rw [FormStore.slot_setSlot_of_ne _ (hother i hi), FormStore.slot_setBlock,
        FormStore.slot_alloc, hslot i hi]
    refine ⟨⟨⟨Nat.le_succ _, rfl, fun i hi => ?_, fun i hi => ?_, fun i hi => ?_⟩, fun i hi => ?_, rfl,
      Nat.le_refl _, fun i hi => ?_, fun _ => ?_⟩, rfl, rfl⟩
    · rw [hkept i hi]
    · rw [hkept i hi]
    · rw [hkept i hi]
    · have hlt : ((named.alloc fill).slot i).content ≠ named.fresh := (named.content_lt i).ne
      dsimp only
      rw [FormStore.bytes_setSlot_of_ne _ (hother i hi), FormStore.bytes_setBlock_of_ne _ hlt,
        FormStore.bytes_alloc, hbytes i hi]
    · rw [hkept i hi]
    · dsimp only
      rw [FormStore.slot_setSlot_self]
      refine ⟨rfl, rfl, fun i hi => ?_⟩
      rw [hkept i hi, ← hslot i hi]
      exact (named.content_lt i).ne

end Forms

section Intents

/-- A kernel with an intent in an entry of its table. -/
def KernelMemory.registered (kernel : KernelMemory) (i : ℕ) (pid : UInt32)
    (intent : HexaosIntent) : KernelMemory :=
  { kernel with
    intentTable := Function.update kernel.intentTable i
      ⟨true, pid, intent, kernel.nextHandle, 0, 0⟩
    nextHandle := kernel.nextHandle + 1 }

theorem registerIntent_ensures {kernel : KernelMemory} {pid : UInt32} {intent : HexaosIntent}
    {post : Option UInt32 → KernelMemory → Prop} (hnone : post none kernel)
    (hsome : ∀ i, freeIntent kernel.intentTable = some i →
      post (some kernel.nextHandle) (kernel.registered i pid intent)) :
    (registerIntent pid intent).Ensures kernel post := by
  simp only [registerIntent, Code.ensures_bind, Code.ensures_memory]
  cases hfree : freeIntent kernel.intentTable with
  | none => exact hnone
  | some i => exact hsome i hfree

/-- The two ways in which registering an intent ends. -/
theorem registerIntent_cases (kernel : KernelMemory) (pid : UInt32) (intent : HexaosIntent) :
    (registerIntent pid intent).Ensures kernel fun created kernel' =>
      (created = none ∧ kernel' = kernel) ∨
        ∃ i, freeIntent kernel.intentTable = some i ∧ created = some kernel.nextHandle ∧
          kernel' = kernel.registered i pid intent :=
  registerIntent_ensures (.inl ⟨rfl, rfl⟩) fun i hfree => .inr ⟨i, hfree, rfl, rfl⟩

theorem intentCreate_ensures {kernel : KernelMemory} {pid : UInt32} {intent : HexaosIntent}
    {post : Option UInt32 → KernelMemory → Prop} (hnone : post none kernel)
    (hsome : ∀ i, freeIntent kernel.intentTable = some i →
      post (some kernel.nextHandle) (kernel.registered i pid intent)) :
    (intentCreate pid intent).Ensures kernel post := by
  rw [intentCreate]
  split
  · refine (capCheck_keeps pid capTypeIntent).ensures_bind fun ok kernel' hkept => ?_
    obtain rfl : kernel' = kernel := hkept
    split
    · exact hnone
    · exact registerIntent_ensures hnone hsome
  · exact registerIntent_ensures hnone hsome

/-- The form and the bytes that a fulfilment through an entry stores, when it stores. -/
def KernelMemory.production (kernel : KernelMemory) (entry : IntentEntry) (buffer : Buffer)
    (len : Int32) : Option (ℕ × List UInt8) :=
  if entry.intent.intentType = intentProduce ∨ entry.intent.intentType = intentTransform then
    match (if 0 < len then buffer else none), targetForm kernel entry.intent with
    | some (buf), some idx =>
      if schemaAccepts entry.intent buf len then some (idx, producedBytes buf len) else none
    | _, _ => none
  else none

/-- The form that a fulfilment through an entry copies from, when it copies from one. -/
def KernelMemory.consumption (kernel : KernelMemory) (entry : IntentEntry) (buffer : Buffer)
    (len : Int32) : Option ℕ :=
  if entry.intent.intentType = intentConsume ∨ entry.intent.intentType = intentObserve then
    if 0 < len ∧ buffer.isSome then targetForm kernel entry.intent else none
  else none

/-- The form store after bytes were stored at the front of a form's block. -/
def FormStore.produced (forms : FormStore) (idx : ℕ) (bytes : List UInt8) : FormStore :=
  let block := (forms.block (forms.slot idx).content).getD []
  (forms.setBlock (forms.slot idx).content (some (overlay block 0 (bytes ++ [0])))).setSlot idx
    { forms.slot idx with size := max (forms.slot idx).size bytes.length }

/-- What a table entry keeps while it is used. -/
def IntentEntry.identity (entry : IntentEntry) : Bool × UInt32 × HexaosIntent × UInt32 :=
  (entry.active, entry.pid, entry.intent, entry.handle)

/-- What a fulfilment does. -/
structure Fulfilment (kernel kernel' : KernelMemory) (handle : UInt32) (buffer : Buffer)
    (len : Int32) (out : List UInt8) : Prop where
  /-- The tables of the shell stay. -/
  store : kernel'.store = kernel.store
  /-- The entries keep what they name. -/
  entries : ∀ i, (kernel'.intentTable i).identity = (kernel.intentTable i).identity
  /-- The next handle stays. -/
  nextHandle : kernel'.nextHandle = kernel.nextHandle
  /-- The descriptors stay. -/
  vfsFds : kernel'.vfsFds = kernel.vfsFds
  /-- Only a production changes the form store. -/
  forms : kernel'.forms = match (findIntent kernel.intentTable handle).bind fun i =>
      kernel.production (kernel.intentTable i) buffer len with
    | none => kernel.forms
    | some (idx, bytes) => kernel.forms.produced idx bytes
  /-- A production fits the block of its form. -/
  fits : ∀ i idx bytes, findIntent kernel.intentTable handle = some i →
    kernel.production (kernel.intentTable i) buffer len = some (idx, bytes) →
      ∃ block, kernel.forms.block (kernel.forms.slot idx).content = some block ∧
        bytes.length < block.length
  /-- What is returned comes out of the form that is consumed. -/
  copied : ∀ i idx, findIntent kernel.intentTable handle = some i →
    kernel.consumption (kernel.intentTable i) buffer len = some idx →
      ∃ count, out = (kernel.forms.bytes idx).take count
  /-- Nothing else is returned, but for the buffer field of the entry itself. -/
  own : out = [] ∨ ∃ i, findIntent kernel.intentTable handle = some i ∧
    ((kernel.consumption (kernel.intentTable i) buffer len).isSome ∨
      ∃ count, out = (kernel.intentTable i).bufferField.take count)

variable {kernel : KernelMemory} {handle : UInt32} {buffer : Buffer} {len : Int32} {i : ℕ}

/-- A fulfilment that neither stores nor copies. -/
theorem Fulfilment.idle (hfound : findIntent kernel.intentTable handle = some i)
    (hproduction : kernel.production (kernel.intentTable i) buffer len = none)
    (hconsumption : kernel.consumption (kernel.intentTable i) buffer len = none)
    {out : List UInt8}
    (hout : out = [] ∨ ∃ count, out = (kernel.intentTable i).bufferField.take count) :
    Fulfilment kernel kernel handle buffer len out where
  store := rfl
  entries _ := rfl
  nextHandle := rfl
  vfsFds := rfl
  forms := by rw [hfound, Option.bind_some, hproduction]
  fits j idx bytes hj hbytes := by
    rw [hfound, Option.some.injEq] at hj
    rw [← hj, hproduction] at hbytes
    cases hbytes
  copied j idx hj hidx := by
    rw [hfound, Option.some.injEq] at hj
    rw [← hj, hconsumption] at hidx
    cases hidx
  own := hout.imp_right fun hfield => ⟨i, hfound, .inr hfield⟩

/-- The entry of a fulfilment may get another buffer field. -/
theorem Fulfilment.modifyEntry {kernel' : KernelMemory} {out : List UInt8}
    (h : Fulfilment kernel kernel' handle buffer len out) (j : ℕ) (update : IntentEntry → IntentEntry)
    (hupdate : ∀ entry, (update entry).identity = entry.identity) :
    Fulfilment kernel { kernel' with
      intentTable := Function.update kernel'.intentTable j (update (kernel'.intentTable j)) }
        handle buffer len out where
  store := h.store
  entries k := by
    dsimp only
    by_cases hk : k = j
    · rw [hk, Function.update_self, hupdate, h.entries]
    · rw [Function.update_of_ne hk, h.entries]
  nextHandle := h.nextHandle
  vfsFds := h.vfsFds
  forms := h.forms
  fits := h.fits
  copied := h.copied
  own := h.own

/-- The stores of a production. -/
theorem produce_ensures {idx : ℕ} {bytes : List UInt8}
    (hfound : findIntent kernel.intentTable handle = some i)
    (hproduction : kernel.production (kernel.intentTable i) buffer len = some (idx, bytes))
    (hconsumption : kernel.consumption (kernel.intentTable i) buffer len = none) :
    (produce i idx bytes).Ensures kernel fun result kernel' =>
      Fulfilment kernel kernel' handle buffer len result.out := by
  simp only [produce, Code.ensures_bind, Code.ensures_memory]
  refine storeBytes_ensures fun block hblock _ hfits => ?_
  have hshort : bytes.length < block.length := by
    rw [List.length_append, List.length_singleton] at hfits
    omega
  simp only [modifyForms, modifyIntent, Code.ensures_modify, Code.ensures_pure]
  have hstored : Fulfilment kernel { kernel with forms := kernel.forms.produced idx bytes }
      handle buffer len [] := by
    refine ⟨rfl, fun _ => rfl, rfl, rfl, ?_, fun j idx' bytes' hj hbytes => ?_, fun j idx' hj hidx => ?_,
      .inl rfl⟩
    · rw [hfound, Option.bind_some, hproduction]
    · rw [hfound, Option.some.injEq] at hj
      rw [← hj, hproduction, Option.some.injEq, Prod.mk.injEq] at hbytes
      obtain ⟨rfl, rfl⟩ := hbytes
      exact ⟨block, hblock, hshort⟩
    · rw [hfound, Option.some.injEq] at hj
      rw [← hj, hconsumption] at hidx
      cases hidx
  have hforms : kernel.forms.produced idx bytes =
      (kernel.forms.setBlock (kernel.forms.slot idx).content
        (some (overlay block (0 : Int).toNat (bytes ++ [0])))).setSlot idx
          { kernel.forms.slot idx with size := max (kernel.forms.slot idx).size bytes.length } := by
    rw [FormStore.produced, hblock]
    rfl
  rw [hforms] at hstored
  exact hstored.modifyEntry i (fun entry => { entry with bufferLen := Int32.ofNat bytes.length })
    fun _ => rfl

/-- The branches that store. -/
theorem fulfillStore_ensures {otherwise : KernelM Fulfilled}
    (hfound : findIntent kernel.intentTable handle = some i)
    (htype : (kernel.intentTable i).intent.intentType = intentProduce ∨
      (kernel.intentTable i).intent.intentType = intentTransform)
    (hotherwise : Fulfilment kernel kernel handle buffer len [] →
      otherwise.Ensures kernel fun result kernel' =>
        Fulfilment kernel kernel' handle buffer len result.out) :
    (fulfillStore i (kernel.intentTable i) buffer len otherwise).Ensures kernel
      fun result kernel' => Fulfilment kernel kernel' handle buffer len result.out := by
  have hconsumption : kernel.consumption (kernel.intentTable i) buffer len = none := by
    rw [KernelMemory.consumption, if_neg]
    rcases htype with htype | htype
    · rw [htype]
      decide
    · rw [htype]
      decide
  have hproduction : kernel.production (kernel.intentTable i) buffer len =
      match (if 0 < len then buffer else none), targetForm kernel (kernel.intentTable i).intent with
      | some (buf), some idx =>
        if schemaAccepts (kernel.intentTable i).intent buf len then some (idx, producedBytes buf len)
        else none
      | _, _ => none := by
    rw [KernelMemory.production, if_pos htype]
  rw [fulfillStore, Code.ensures_bind, Code.ensures_memory]
  cases hbuffer : (if 0 < len then buffer else none) with
  | none =>
    rw [hbuffer] at hproduction
    exact hotherwise (.idle hfound hproduction hconsumption (.inl rfl))
  | some buf =>
    cases htarget : targetForm kernel (kernel.intentTable i).intent with
    | none =>
      rw [hbuffer, htarget] at hproduction
      exact hotherwise (.idle hfound hproduction hconsumption (.inl rfl))
    | some idx =>
      rw [hbuffer, htarget] at hproduction
      dsimp only at hproduction ⊢
      split
      · rename_i haccepts
        rw [if_pos haccepts] at hproduction
        exact produce_ensures hfound hproduction hconsumption
      · rename_i hrejects
        rw [if_neg hrejects] at hproduction
        exact .idle hfound hproduction hconsumption (.inl rfl)

/-- Copying the front of a form. -/
theorem consume_ensures {idx : ℕ} (hfound : findIntent kernel.intentTable handle = some i)
    (hproduction : kernel.production (kernel.intentTable i) buffer len = none)
    (hconsumption : kernel.consumption (kernel.intentTable i) buffer len = some idx) :
    (consume idx len).Ensures kernel fun result kernel' =>
      Fulfilment kernel kernel' handle buffer len result.out := by
  simp only [consume, loadBytes, Code.ensures_bind, Code.ensures_memory]
  cases hblock : kernel.forms.block (kernel.forms.slot idx).content with
  | none => trivial
  | some block =>
    dsimp only
    split
    · refine ⟨rfl, fun _ => rfl, rfl, rfl, ?_, fun j idx' bytes' hj hbytes => ?_,
        fun j idx' hj hidx => ⟨min len.toNatClampNeg (kernel.forms.slot idx).size, ?_⟩,
        .inr ⟨i, hfound, .inl (by rw [hconsumption]; rfl)⟩⟩
      · rw [hfound, Option.bind_some, hproduction]
      · rw [hfound, Option.some.injEq] at hj
        rw [← hj, hproduction] at hbytes
        cases hbytes
      · rw [hfound, Option.some.injEq] at hj
        rw [← hj, hconsumption, Option.some.injEq] at hidx
        rw [← hidx, FormStore.bytes, hblock, Option.getD_some, List.drop_zero, List.take_take,
          Nat.min_assoc, Nat.min_self]
    · trivial

/-- `buffer && len > 0` -/
theorem sends {buf : ℕ → UInt8} (h : (if 0 < len then buffer else none) = some buf) :
    0 < len ∧ buffer.isSome = true := by
  split at h
  · rename_i hlen
    exact ⟨hlen, by rw [h]; rfl⟩
  · cases h

theorem not_sends (h : (if 0 < len then buffer else none) = none) :
    ¬(0 < len ∧ buffer.isSome = true) := by
  rintro ⟨hlen, hbuffer⟩
  rw [if_pos hlen] at h
  rw [h] at hbuffer
  cases hbuffer

/-- intent_fulfill -/
theorem intentFulfill_ensures (kernel : KernelMemory) (handle : UInt32) (buffer : Buffer)
    (len : Int32) :
    (intentFulfill handle buffer len).Ensures kernel fun result kernel' =>
      Fulfilment kernel kernel' handle buffer len result.out := by
  rw [intentFulfill, Code.ensures_bind, Code.ensures_memory]
  cases hfound : findIntent kernel.intentTable handle with
  | none =>
    refine ⟨rfl, fun _ => rfl, rfl, rfl, ?_, fun j idx bytes hj _ => ?_, fun j idx hj _ => ?_,
      .inl rfl⟩
    · rw [hfound]
      rfl
    · rw [hfound] at hj
      cases hj
    · rw [hfound] at hj
      cases hj
  | some i =>
    dsimp only
    split
    · rename_i htype
      refine fulfillStore_ensures hfound (.inl htype) fun hidle => ?_
      simp only [modifyIntent, Code.ensures_bind, Code.ensures_modify, Code.ensures_pure]
      exact hidle.modifyEntry i
        (fun entry => { entry with bufferBlock := 0, bufferLen := len }) fun _ => rfl
    rename_i hproduce
    split
    · rename_i htype
      have hproduction : kernel.production (kernel.intentTable i) buffer len = none := by
        rw [KernelMemory.production, if_neg]
        rw [htype]
        decide
      have hconsumption : kernel.consumption (kernel.intentTable i) buffer len =
          if 0 < len ∧ buffer.isSome then targetForm kernel (kernel.intentTable i).intent
          else none := by
        rw [KernelMemory.consumption, if_pos (.inl htype)]
      rw [fulfillConsume, Code.ensures_bind, Code.ensures_memory]
      dsimp only
      split
      · rename_i hbuffer
        refine .idle hfound hproduction ?_ (.inl rfl)
        rw [hconsumption, if_neg (not_sends hbuffer)]
      · rename_i hbuffer
        rw [if_pos (sends hbuffer)] at hconsumption
        split
        · rename_i idx htarget
          exact consume_ensures hfound hproduction (hconsumption.trans htarget)
        · rename_i htarget
          split
          · trivial
          · exact .idle hfound hproduction (hconsumption.trans htarget) (.inr ⟨_, rfl⟩)
    rename_i hconsume
    split
    · rename_i htype
      have hproduction : kernel.production (kernel.intentTable i) buffer len = none := by
        rw [KernelMemory.production, if_neg]
        rw [htype]
        decide
      have hconsumption : kernel.consumption (kernel.intentTable i) buffer len =
          if 0 < len ∧ buffer.isSome then targetForm kernel (kernel.intentTable i).intent
          else none := by
        rw [KernelMemory.consumption, if_pos (.inr htype)]
      rw [fulfillObserve, Code.ensures_bind, Code.ensures_memory]
      split
      · rename_i idx hbuffer htarget
        rw [if_pos (sends hbuffer)] at hconsumption
        exact consume_ensures hfound hproduction (hconsumption.trans htarget)
      · rename_i hother
        refine .idle hfound hproduction ?_ (.inl rfl)
        rw [hconsumption]
        split
        · rename_i hsends
          cases htarget : targetForm kernel (kernel.intentTable i).intent with
          | none => rfl
          | some idx =>
            obtain ⟨buf, rfl⟩ := Option.isSome_iff_exists.mp hsends.2
            exact (hother buf idx (if_pos hsends.1) htarget).elim
        · rfl
    rename_i hobserve
    split
    · rename_i htype
      exact fulfillStore_ensures hfound (.inr htype) fun hidle => hidle
    · rename_i htransform
      refine .idle hfound ?_ ?_ (.inl rfl)
      · rw [KernelMemory.production, if_neg (not_or.mpr ⟨hproduce, htransform⟩)]
      · rw [KernelMemory.consumption, if_neg (not_or.mpr ⟨hconsume, hobserve⟩)]

end Intents

end HexaOS.Kernel
