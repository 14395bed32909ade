import HexaOS.KernelFrames

/-!
# Who changes a form through intents

Runs of the four intent calls by any tasks, from an empty intent table. A handle is
created by one task, and its table entry keeps the pid of that task. Whether a form is
changed only by the task that created the handle, and only while it holds the
capability, is a condition on the calls that store through a handle.
-/

namespace HexaOS.Kernel

open DevicePrograms PackedBytes Hexafs

section Contents

/-- What a form shows after bytes were stored at the front of a form's block. -/
theorem FormStore.bytes_produced (forms : FormStore) (idx : ℕ) (bytes : List UInt8) (j : ℕ) :
    (forms.produced idx bytes).bytes j =
      if (forms.slot j).content = (forms.slot idx).content then
        (overlay ((forms.block (forms.slot idx).content).getD []) 0 (bytes ++ [0])).take
          (if j = idx then max (forms.slot idx).size bytes.length else (forms.slot j).size)
      else forms.bytes j := by
  rw [produced]
  by_cases hj : j = idx
  · subst hj
    rw [if_pos rfl, if_pos rfl, FormStore.bytes, slot_setSlot_self, block_setSlot]
    dsimp only
    rw [block_setBlock_self, Option.getD_some]
  · rw [bytes_setSlot_of_ne _ hj, if_neg hj]
    by_cases hshared : (forms.slot j).content = (forms.slot idx).content
    · rw [if_pos hshared, FormStore.bytes, slot_setBlock, hshared, block_setBlock_self,
        Option.getD_some]
    · rw [if_neg hshared, bytes_setBlock_of_ne _ hshared]

/-- Storing these bytes and their terminator at the front of the block of form `idx`
changes what some form with that block shows. -/
def KernelMemory.Alters (kernel : KernelMemory) (idx : ℕ) (bytes : List UInt8) : Prop :=
  ∃ j < kernel.store.formCount, (kernel.forms.slot j).content = (kernel.forms.slot idx).content ∧
    (overlay ((kernel.forms.block (kernel.forms.slot idx).content).getD []) 0 (bytes ++ [0])).take
      (if j = idx then max (kernel.forms.slot idx).size bytes.length
        else (kernel.forms.slot j).size) ≠ kernel.forms.bytes j

/-- A form is changed by a production exactly if the production alters its block. -/
theorem alters_iff {kernel : KernelMemory} {idx : ℕ} {bytes : List UInt8} :
    kernel.Alters idx bytes ↔
      ¬∀ j < kernel.store.formCount,
        (kernel.forms.produced idx bytes).bytes j = kernel.forms.bytes j := by
  simp only [not_forall]
  constructor
  · rintro ⟨j, hj, hshared, hne⟩
    refine ⟨j, hj, fun heq => hne ?_⟩
    rw [FormStore.bytes_produced, if_pos hshared] at heq
    exact heq
  · rintro ⟨j, hj, hne⟩
    rw [FormStore.bytes_produced] at hne
    by_cases hshared : (kernel.forms.slot j).content = (kernel.forms.slot idx).content
    · rw [if_pos hshared] at hne
      exact ⟨j, hj, hshared, hne⟩
    · rw [if_neg hshared] at hne
      exact (hne rfl).elim

end Contents

section Tables

/-- The handles of both tables are the same. -/
def SameTable (kernel kernel' : KernelMemory) : Prop :=
  (∀ i, (kernel'.intentTable i).identity = (kernel.intentTable i).identity) ∧
    kernel'.nextHandle = kernel.nextHandle

/-- One intent was registered for a task. -/
def Registers (pid : UInt32) (kernel kernel' : KernelMemory) : Prop :=
  ∃ i intent, freeIntent kernel.intentTable = some i ∧
    SameTable (kernel.registered i pid intent) kernel'

theorem SameTable.refl (kernel : KernelMemory) : SameTable kernel kernel := ⟨fun _ => rfl, rfl⟩

/-- A fulfilment keeps the handles. -/
theorem Fulfilment.sameTable {kernel kernel' : KernelMemory} {handle : UInt32} {buffer : Buffer}
    {len : Int32} {out : List UInt8} (h : Fulfilment kernel kernel' handle buffer len out) :
    SameTable kernel kernel' := ⟨h.entries, h.nextHandle⟩

/-- A kernel whose intents are the same. -/
theorem registered_intents {kernel kernel' : KernelMemory} {pid : UInt32}
    (hsame : SameIntents kernel kernel') {i : ℕ} {intent : HexaosIntent}
    (hfree : freeIntent kernel'.intentTable = some i) :
    Registers pid kernel (kernel'.registered i pid intent) := by
  obtain ⟨htable, hnext⟩ := hsame
  refine ⟨i, intent, by rw [← htable]; exact hfree, fun j => ?_, ?_⟩
  · rw [KernelMemory.registered, KernelMemory.registered, htable, hnext]
  · rw [KernelMemory.registered, KernelMemory.registered, hnext]

theorem SameIntents.sameTable {kernel kernel' : KernelMemory} (h : SameIntents kernel kernel') :
    SameTable kernel kernel' := ⟨fun i => by rw [h.1], h.2⟩

/-- What SYS_INTENT and SYS_OPEN do to the forms and handles that are there. -/
def Opens (pid : UInt32) (kernel kernel' : KernelMemory) : Prop :=
  MadeForm kernel kernel' ∧ (SameTable kernel kernel' ∨ Registers pid kernel kernel')

theorem Opens.refl (pid : UInt32) (kernel : KernelMemory) : Opens pid kernel kernel :=
  ⟨.refl kernel, .inl (.refl kernel)⟩

/-- Opening a form that was found, or just made. -/
theorem intentCreate_opens {kernel middle : KernelMemory} (pid : UInt32) (intent : HexaosIntent)
    (hmade : MadeForm kernel middle) (hsame : SameIntents kernel middle) :
    (intentCreate pid intent).Ensures middle fun _ kernel' => Opens pid kernel kernel' := by
  refine intentCreate_ensures ⟨hmade, .inl hsame.sameTable⟩ fun i hfree => ?_
  exact ⟨hmade.congr rfl rfl rfl, .inr (registered_intents hsame hfree)⟩

theorem sysIntent_opens (kernel : KernelMemory) (pid : UInt32) (intent : Option HexaosIntent)
    (handlePointer : Bool) :
    (sysIntent pid intent handlePointer).Ensures kernel fun _ kernel' => Opens pid kernel kernel' := by
  rw [sysIntent.eq_def]
  cases intent with
  | none => exact .refl pid kernel
  | some intent =>
    dsimp only
    split
    · refine (capCheck_keeps pid capTypeIntent).ensures_bind fun ok kernel' hkept => ?_
      obtain rfl : kernel' = kernel := hkept
      split
      · exact .refl pid _
      · rw [sysIntentCreate, Code.ensures_bind]
        refine (intentCreate_opens pid intent (.refl _) ⟨rfl, rfl⟩).mono fun handle kernel' hopens => ?_
        cases handle with
        | none => exact hopens
        | some handle => exact hopens
    · exact .refl pid kernel

theorem sysOpen_opens (kernel : KernelMemory) (pid : UInt32) (path : Option CString)
    (flags : UInt32) :
    (sysOpen pid path flags).Ensures kernel fun _ kernel' => Opens pid kernel kernel' := by
  rw [sysOpen]
  cases validPath path with
  | none => exact .refl pid kernel
  | some path =>
    have hopen : (intentCompatOpen pid path flags).Ensures kernel
        fun _ kernel' => Opens pid kernel kernel' := by
      rw [intentCompatOpen, Code.ensures_bind, Code.ensures_memory]
      cases findForm kernel path with
      | some idx => exact intentCreate_opens pid _ (.refl kernel) ⟨rfl, rfl⟩
      | none =>
        dsimp only
        split
        · exact .refl pid kernel
        · rw [Code.ensures_bind]
          refine (cmdMkform_ensures kernel path).mono fun _ middle hmade => ?_
          rw [Code.ensures_bind, Code.ensures_memory]
          cases findForm middle path with
          | none => exact ⟨hmade.1, .inl hmade.2.sameTable⟩
          | some idx => exact intentCreate_opens pid _ hmade.1 hmade.2
    dsimp only
    rw [Code.ensures_bind]
    refine hopen.mono fun handle kernel' hopens => ?_
    cases handle with
    | none => exact hopens
    | some handle => exact hopens

theorem intentCompatWrite_table (kernel : KernelMemory) (pid fd : UInt32) (nameAt : CString)
    (buffer : Buffer) (len : Int32) :
    (intentCompatWrite pid fd nameAt buffer len).Ensures kernel fun _ kernel' =>
      SameTable kernel kernel' ∨ Registers pid kernel kernel' := by
  rw [intentCompatWrite, Code.ensures_bind, Code.ensures_memory]
  cases findIntent kernel.intentTable fd with
  | none =>
    cases findForm kernel nameAt with
    | none => exact .inl (.refl kernel)
    | some idx =>
      dsimp only
      rw [Code.ensures_bind]
      refine intentCreate_ensures (.inl (.refl kernel)) fun i hfree => ?_
      refine (intentFulfill_ensures _ _ _ _).mono fun result kernel' hdone => ?_
      exact .inr ⟨i, writtenIntent idx, hfree, hdone.sameTable⟩
  | some i =>
    dsimp only
    split
    · exact .inl (.refl kernel)
    · exact (intentFulfill_ensures _ _ _ _).mono fun result kernel' hdone => .inl hdone.sameTable

/-- Every call registers at most one intent. -/
theorem IntentCall.code_table (kernel : KernelMemory) (pid : UInt32) (call : IntentCall) :
    (call.code pid).Ensures kernel fun _ kernel' =>
      SameTable kernel kernel' ∨ Registers pid kernel kernel' := by
  cases call with
  | intent record handlePointer =>
    exact (sysIntent_opens kernel pid record handlePointer).mono fun _ _ hopens => hopens.2
  | «open» path flags => exact (sysOpen_opens kernel pid path flags).mono fun _ _ hopens => hopens.2
  | write fd nameAt buffer len =>
    rw [code, sysWrite]
    split
    · rw [Code.ensures_bind]
      exact (intentCompatWrite_table kernel pid fd nameAt buffer len).mono fun _ _ htable => htable
    · exact .inl (.refl kernel)
  | fulfill handle buffer len =>
    rw [code, sysFulfill, Code.ensures_bind]
    exact (intentFulfill_ensures kernel handle buffer len).mono fun _ _ hdone =>
      .inl hdone.sameTable

/-- The handles of a table that was filled from its front: the i-th entry has handle i + 1. -/
structure Handles (kernel : KernelMemory) (count : ℕ) : Prop where
  /-- There are at most 64. -/
  le : count ≤ maxIntents
  /-- The first entries are active and have the handles in order. -/
  active : ∀ i < count, (kernel.intentTable i).active = true ∧
    (kernel.intentTable i).handle = UInt32.ofNat (i + 1)
  /-- The others are not. -/
  inactive : ∀ i, count ≤ i → i < maxIntents → (kernel.intentTable i).active = false
  /-- The next handle comes behind them. -/
  next : kernel.nextHandle = UInt32.ofNat (count + 1)

variable {kernel kernel' : KernelMemory} {count : ℕ}

theorem IntentEntry.active_of_identity {entry entry' : IntentEntry}
    (h : entry'.identity = entry.identity) : entry'.active = entry.active :=
  congrArg Prod.fst h

theorem IntentEntry.pid_of_identity {entry entry' : IntentEntry}
    (h : entry'.identity = entry.identity) : entry'.pid = entry.pid :=
  congrArg (fun fields => fields.2.1) h

theorem IntentEntry.handle_of_identity {entry entry' : IntentEntry}
    (h : entry'.identity = entry.identity) : entry'.handle = entry.handle :=
  congrArg (fun fields => fields.2.2.2) h

theorem Handles.sameTable (h : Handles kernel count) (hsame : SameTable kernel kernel') :
    Handles kernel' count where
  le := h.le
  active i hi := by
    rw [IntentEntry.active_of_identity (hsame.1 i), IntentEntry.handle_of_identity (hsame.1 i)]
    exact h.active i hi
  inactive i hi hi' := by
    rw [IntentEntry.active_of_identity (hsame.1 i)]
    exact h.inactive i hi hi'
  next := hsame.2.trans h.next

/-- The free entry is the one behind the last handle. -/
theorem Handles.freeIntent_eq (h : Handles kernel count) {i : ℕ}
    (hfree : freeIntent kernel.intentTable = some i) : i = count ∧ count < maxIntents := by
  obtain ⟨hnot, hmem, hbefore⟩ := List.find?_range_eq_some.mp hfree
  have hlt := List.mem_range.mp hmem
  have hle : count ≤ i := by
    by_contra hlt
    rw [(h.active i (by omega)).1] at hnot
    cases hnot
  have hge : i ≤ count := by
    by_contra hlt'
    have hactive := hbefore count (by omega)
    rw [h.inactive count (Nat.le_refl _) (by omega)] at hactive
    cases hactive
  exact ⟨by omega, by omega⟩

/-- A handle that is found is the one of its entry. -/
theorem Handles.findIntent_eq (h : Handles kernel count) {handle : UInt32} {i : ℕ}
    (hfound : findIntent kernel.intentTable handle = some i) :
    i < count ∧ handle = UInt32.ofNat (i + 1) := by
  have hmatches := List.find?_some hfound
  have hmem := List.mem_range.mp (List.mem_of_find?_eq_some hfound)
  simp only [Bool.and_eq_true, beq_iff_eq] at hmatches
  have hlt : i < count := by
    by_contra hge
    rw [h.inactive i (by omega) hmem] at hmatches
    cases hmatches.1
  exact ⟨hlt, by rw [← hmatches.2, (h.active i hlt).2]⟩

theorem Handles.registered (h : Handles kernel count) {i : ℕ} {pid : UInt32}
    {intent : HexaosIntent} (hfree : freeIntent kernel.intentTable = some i) :
    Handles (kernel.registered i pid intent) (count + 1) := by
  obtain ⟨rfl, hlt⟩ := h.freeIntent_eq hfree
  refine ⟨hlt, fun j hj => ?_, fun j hj hj' => ?_, ?_⟩
  · rw [KernelMemory.registered]
    by_cases hnew : j = i
    · rw [hnew]
      dsimp only
      rw [Function.update_self]
      exact ⟨rfl, h.next⟩
    · dsimp only
      rw [Function.update_of_ne hnew]
      exact h.active j (by omega)
  · rw [KernelMemory.registered]
    dsimp only
    rw [Function.update_of_ne (by omega)]
    exact h.inactive j (by omega) hj'
  · rw [KernelMemory.registered]
    dsimp only
    rw [h.next, UInt32.ofNat_add (i + 1) 1]
    rfl

end Tables

section Steps

variable {env : Environment}

/-- hexafs_cap_check(pid, CAP_TYPE_INTENT) holds in this state. -/
def CapHolds (env : Environment) (system : System) (pid : UInt32) : Prop :=
  ∃ after, system.run env (capCheck pid capTypeIntent) = .ok (true, after)

/-- A system call that returned. -/
structure IntentStep where
  /-- The pid of the calling task. -/
  pid : UInt32
  /-- The call. -/
  call : IntentCall
  /-- The system before it. -/
  before : System
  /-- What it returns. -/
  result : SysResult
  /-- The system behind it. -/
  after : System

namespace IntentStep

/-- The step is a run of its call. -/
def Runs (env : Environment) (step : IntentStep) : Prop :=
  step.before.run env (step.call.code step.pid) = .ok (step.result, step.after)

/-- Some form that was there shows other bytes. -/
def ChangesContent (step : IntentStep) : Prop :=
  ¬SameContents step.before.kernel step.after.kernel

/-- An inactive entry became active with this handle. -/
def Creates (step : IntentStep) (handle : UInt32) : Prop :=
  ∃ i < maxIntents, (step.before.kernel.intentTable i).active = false ∧
    (step.after.kernel.intentTable i).active = true ∧
      (step.after.kernel.intentTable i).handle = handle

/-- The table entry that the call uses, when it names an existing handle. -/
def entry (step : IntentStep) : Option ℕ :=
  match step.call with
  | .write fd _ _ _ => findIntent step.before.kernel.intentTable fd
  | .fulfill handle _ _ => findIntent step.before.kernel.intentTable handle
  | _ => none

/-- The handle that the call uses. A SYS_WRITE whose descriptor is no handle uses the one
that it creates itself. -/
def usedHandle (step : IntentStep) : Option UInt32 :=
  match step.call with
  | .write fd _ _ _ =>
    if (findIntent step.before.kernel.intentTable fd).isSome then some fd
    else some step.before.kernel.nextHandle
  | .fulfill handle _ _ => some handle
  | _ => none

/-- The form and the bytes that the call stores through an existing handle. -/
def production (step : IntentStep) : Option (ℕ × List UInt8) :=
  match step.call with
  | .write fd _ buffer len =>
    (findIntent step.before.kernel.intentTable fd).bind fun i =>
      if validBuf buffer len = true ∧
          (step.before.kernel.intentTable i).intent.intentType = intentProduce then
        step.before.kernel.production (step.before.kernel.intentTable i) buffer len
      else none
  | .fulfill handle buffer len =>
    (findIntent step.before.kernel.intentTable handle).bind fun i =>
      step.before.kernel.production (step.before.kernel.intentTable i) buffer len
  | _ => none

/-- A call that stores other bytes through an existing handle is made by the task that the
handle belongs to, while it holds the capability. -/
def Guarded (env : Environment) (step : IntentStep) : Prop :=
  ∀ i idx bytes, step.entry = some i → step.production = some (idx, bytes) →
    step.before.kernel.Alters idx bytes →
      (step.before.kernel.intentTable i).pid = step.pid ∧ CapHolds env step.before step.pid

variable {step : IntentStep}

/-- A fulfilment changes a form exactly if its production alters the block of one. -/
theorem not_sameContents_iff {kernel kernel' : KernelMemory} {handle : UInt32} {buffer : Buffer}
    {len : Int32} {out : List UInt8} (h : Fulfilment kernel kernel' handle buffer len out) :
    ¬SameContents kernel kernel' ↔ ∃ idx bytes,
      ((findIntent kernel.intentTable handle).bind fun i =>
        kernel.production (kernel.intentTable i) buffer len) = some (idx, bytes) ∧
          kernel.Alters idx bytes := by
  have hforms := h.forms
  rw [SameContents]
  cases hstores : (findIntent kernel.intentTable handle).bind fun i =>
      kernel.production (kernel.intentTable i) buffer len with
  | none =>
    rw [hstores] at hforms
    dsimp only at hforms
    rw [hforms]
    simp
  | some production =>
    obtain ⟨idx, bytes⟩ := production
    rw [hstores] at hforms
    dsimp only at hforms
    rw [hforms, ← alters_iff]
    constructor
    · exact fun halters => ⟨idx, bytes, rfl, halters⟩
    · rintro ⟨idx', bytes', hsame, halters⟩
      simp only [Option.some.injEq, Prod.mk.injEq] at hsame
      obtain ⟨rfl, rfl⟩ := hsame
      exact halters

/-- A call through an existing handle changes a form exactly if it stores bytes that alter
the block of one. -/
theorem Runs.changes_iff (h : step.Runs env) {i : ℕ} (hentry : step.entry = some i) :
    step.ChangesContent ↔ ∃ idx bytes, step.production = some (idx, bytes) ∧
      step.before.kernel.Alters idx bytes := by
  obtain ⟨pid, call, before, result, after⟩ := step
  have hrun : before.run env (call.code pid) = .ok (result, after) := h
  cases call with
  | intent record handlePointer => cases hentry
  | «open» path flags => cases hentry
  | write fd nameAt buffer len =>
    have hfound : findIntent before.kernel.intentTable fd = some i := hentry
    have hproduction : production ⟨pid, .write fd nameAt buffer len, before, result, after⟩ =
        if validBuf buffer len = true ∧
            (before.kernel.intentTable i).intent.intentType = intentProduce then
          before.kernel.production (before.kernel.intentTable i) buffer len
        else none := by
      rw [production]
      dsimp only
      rw [hfound, Option.bind_some]
    have hnone : ∀ kernel, ¬¬SameContents kernel kernel := fun kernel hnot => hnot fun _ _ => rfl
    rw [IntentCall.code, sysWrite] at hrun
    rw [hproduction, ChangesContent]
    by_cases hvalid : validBuf buffer len = true
    · rw [if_pos hvalid] at hrun
      obtain ⟨done, middle, hwrite, hend⟩ := System.run_bind_elim hrun
      obtain rfl : middle = after := congrArg Prod.snd (Except.ok.inj hend)
      rw [intentCompatWrite, System.run_memory, hfound] at hwrite
      dsimp only at hwrite
      by_cases htype : (before.kernel.intentTable i).intent.intentType = intentProduce
      · rw [if_neg (not_not_intro htype)] at hwrite
        have hdone := System.run_ensures (intentFulfill_ensures before.kernel fd buffer len) hwrite
        rw [not_sameContents_iff hdone, if_pos ⟨hvalid, htype⟩, hfound, Option.bind_some]
      · rw [if_pos htype] at hwrite
        obtain rfl : before = middle := congrArg Prod.snd (Except.ok.inj hwrite)
        rw [if_neg fun hboth => htype hboth.2]
        simp [hnone]
    · rw [if_neg hvalid] at hrun
      obtain rfl : before = after := congrArg Prod.snd (Except.ok.inj hrun)
      rw [if_neg fun hboth => hvalid hboth.1]
      simp [hnone]
  | fulfill handle buffer len =>
    have hfound : findIntent before.kernel.intentTable handle = some i := hentry
    rw [IntentCall.code, sysFulfill] at hrun
    obtain ⟨done, middle, hfulfill, hend⟩ := System.run_bind_elim hrun
    obtain rfl : middle = after := congrArg Prod.snd (Except.ok.inj hend)
    have hdone := System.run_ensures (intentFulfill_ensures before.kernel handle buffer len) hfulfill
    exact not_sameContents_iff hdone

/-- An intent to produce is registered only for a task that holds the capability. -/
theorem intentCreate_production {system opened : System} {pid : UInt32} (hpid : pid ≠ 0)
    {idx : ℕ} {created : Option UInt32}
    (hrun : system.run env (intentCreate pid (writtenIntent idx)) = .ok (created, opened)) :
    (created = none ∧ opened.kernel = system.kernel) ∨
      (CapHolds env system pid ∧ ∃ i, freeIntent system.kernel.intentTable = some i ∧
        created = some system.kernel.nextHandle ∧
          opened.kernel = system.kernel.registered i pid (writtenIntent idx)) := by
  rw [intentCreate, if_pos (.inl rfl)] at hrun
  obtain ⟨ok, checked, hcheck, hregister⟩ := System.run_bind_elim hrun
  have hkept : checked.kernel = system.kernel :=
    System.run_ensures (capCheck_keeps pid capTypeIntent system.kernel) hcheck
  cases ok with
  | false =>
    rw [if_pos ⟨rfl, hpid⟩] at hregister
    have hend : (none, checked) = (created, opened) := Except.ok.inj hregister
    simp only [Prod.mk.injEq] at hend
    exact .inl ⟨hend.1.symm, by rw [← hend.2, hkept]⟩
  | true =>
    rw [if_neg (fun hfalse => Bool.false_ne_true hfalse.1.symm)] at hregister
    have hopened := System.run_ensures
      (registerIntent_cases checked.kernel pid (writtenIntent idx)) hregister
    rw [hkept] at hopened
    rcases hopened with hfull | hregistered
    · exact .inl hfull
    · exact .inr ⟨⟨checked, hcheck⟩, hregistered⟩

/-- A call that names no existing handle changes a form only as a SYS_WRITE to a name, by
a task that holds the capability and through a handle that the call itself creates. -/
theorem Runs.unnamed (h : step.Runs env) (hpid : step.pid ≠ 0) (hentry : step.entry = none)
    (hchanges : step.ChangesContent) :
    CapHolds env step.before step.pid ∧
      step.usedHandle = some step.before.kernel.nextHandle ∧
        step.Creates step.before.kernel.nextHandle := by
  obtain ⟨pid, call, before, result, after⟩ := step
  have hrun : before.run env (call.code pid) = .ok (result, after) := h
  have hsame : ¬SameContents before.kernel after.kernel := hchanges
  cases call with
  | intent record handlePointer =>
    exact (hsame (System.run_ensures (sysIntent_opens before.kernel pid record handlePointer)
      hrun).1.contents).elim
  | «open» path flags =>
    exact (hsame (System.run_ensures (sysOpen_opens before.kernel pid path flags)
      hrun).1.contents).elim
  | write fd nameAt buffer len =>
    have hnone : findIntent before.kernel.intentTable fd = none := hentry
    rw [IntentCall.code, sysWrite] at hrun
    by_cases hvalid : validBuf buffer len = true
    · rw [if_pos hvalid] at hrun
      obtain ⟨done, middle, hwrite, hend⟩ := System.run_bind_elim hrun
      obtain rfl : middle = after := congrArg Prod.snd (Except.ok.inj hend)
      rw [intentCompatWrite, System.run_memory, hnone] at hwrite
      dsimp only at hwrite
      cases hform : findForm before.kernel nameAt with
      | none =>
        rw [hform] at hwrite
        obtain rfl : before = middle := congrArg Prod.snd (Except.ok.inj hwrite)
        exact (hsame fun _ _ => rfl).elim
      | some idx =>
        rw [hform] at hwrite
        dsimp only at hwrite
        obtain ⟨created, opened, hcreate, hrest⟩ := System.run_bind_elim hwrite
        rcases intentCreate_production hpid hcreate with ⟨rfl, hkept⟩ | ⟨hholds, i, hfree, rfl, hopened⟩
        · obtain rfl : opened = middle := congrArg Prod.snd (Except.ok.inj hrest)
          rw [hkept] at hsame
          exact (hsame fun _ _ => rfl).elim
        · have hdone := System.run_ensures (intentFulfill_ensures _ _ _ _) hrest
          have hidentity := hdone.entries i
          rw [hopened, KernelMemory.registered] at hidentity
          dsimp only at hidentity
          rw [Function.update_self] at hidentity
          obtain ⟨hinactive, hmem, _⟩ := List.find?_range_eq_some.mp hfree
          refine ⟨hholds, ?_, i, List.mem_range.mp hmem, ?_, ?_, ?_⟩
          · rw [usedHandle]
            dsimp only
            rw [hnone]
            rfl
          · simpa using hinactive
          · rw [IntentEntry.active_of_identity hidentity]
          · rw [IntentEntry.handle_of_identity hidentity]
    · rw [if_neg hvalid] at hrun
      obtain rfl : before = after := congrArg Prod.snd (Except.ok.inj hrun)
      exact (hsame fun _ _ => rfl).elim
  | fulfill handle buffer len =>
    have hnone : findIntent before.kernel.intentTable handle = none := hentry
    rw [IntentCall.code, sysFulfill] at hrun
    obtain ⟨done, middle, hfulfill, hend⟩ := System.run_bind_elim hrun
    obtain rfl : middle = after := congrArg Prod.snd (Except.ok.inj hend)
    have hdone := System.run_ensures (intentFulfill_ensures before.kernel handle buffer len) hfulfill
    have hchanged := (not_sameContents_iff hdone).mp hsame
    rw [hnone] at hchanged
    obtain ⟨idx, bytes, himpossible, _⟩ := hchanged
    cases himpossible

end IntentStep

end Steps

section Runs

variable {env : Environment} {first last : System} {steps : List IntentStep} {step : IntentStep}

/-- The forms, the intents and the handles are the same. -/
structure System.SameForms (system system' : System) : Prop where
  /-- The forms stay. -/
  forms : system'.kernel.forms = system.kernel.forms
  /-- Their number stays. -/
  formCount : system'.kernel.store.formCount = system.kernel.store.formCount
  /-- The intents stay. -/
  intentTable : system'.kernel.intentTable = system.kernel.intentTable
  /-- The next handle stays. -/
  nextHandle : system'.kernel.nextHandle = system.kernel.nextHandle

/-- Calls that follow each other. Between two calls anything may happen that leaves the
forms and the intents alone: ticks pass, grants are made, expire and are revoked. -/
inductive IntentRun (env : Environment) (first : System) : List IntentStep → System → Prop where
  | start : IntentRun env first [] first
  | other {steps : List IntentStep} {last other : System} (run : IntentRun env first steps last)
      (same : last.SameForms other) : IntentRun env first steps other
  | call {steps : List IntentStep} {step : IntentStep} (run : IntentRun env first steps step.before)
      (runs : step.Runs env) : IntentRun env first (steps ++ [step]) step.after

/-- intent_init has run, and no intent was created since. -/
structure KernelMemory.IntentInit (kernel : KernelMemory) : Prop where
  /-- No intent is active. -/
  intentTable : ∀ i < maxIntents, (kernel.intentTable i).active = false
  /-- The first handle is 1. -/
  nextHandle : kernel.nextHandle = 1

/-- If the step changes a form, its task holds the capability at that moment, and it
created the handle that it uses, in this step or an earlier one. -/
def IntentStep.Lawful (env : Environment) (earlier : List IntentStep) (step : IntentStep) : Prop :=
  step.ChangesContent →
    CapHolds env step.before step.pid ∧ ∃ handle, step.usedHandle = some handle ∧
      ∃ creator ∈ earlier ++ [step], creator.pid = step.pid ∧ creator.Creates handle

/-- Every entry was created by a step of the task it belongs to, and every created handle
belongs to the task that created it. -/
structure Provenance (steps : List IntentStep) (kernel : KernelMemory) (count : ℕ) : Prop where
  /-- The handles are given out in order. -/
  handles : Handles kernel count
  /-- Every entry was made by a call of its task. -/
  created : ∀ i < count, ∃ creator ∈ steps,
    creator.pid = (kernel.intentTable i).pid ∧ creator.Creates (UInt32.ofNat (i + 1))
  /-- Every call that made a handle has its entry. -/
  belongs : ∀ creator ∈ steps, ∀ handle, creator.Creates handle →
    ∃ i < count, handle = UInt32.ofNat (i + 1) ∧ (kernel.intentTable i).pid = creator.pid

/-- The handles of a table are distinct. -/
theorem handle_injective {i j : ℕ} (hi : i < maxIntents) (hj : j < maxIntents)
    (h : UInt32.ofNat (i + 1) = UInt32.ofNat (j + 1)) : i = j := by
  have hnat := congrArg UInt32.toNat h
  rw [maxIntents] at hi hj
  rw [UInt32.toNat_ofNat', UInt32.toNat_ofNat', Nat.mod_eq_of_lt (by omega),
    Nat.mod_eq_of_lt (by omega)] at hnat
  omega

variable {count : ℕ}

/-- A step that keeps the table creates no handle. -/
theorem IntentStep.not_creates (h : SameTable step.before.kernel step.after.kernel)
    (handle : UInt32) : ¬step.Creates handle := by
  rintro ⟨i, _, hinactive, hactive, _⟩
  rw [IntentEntry.active_of_identity (h.1 i), hinactive] at hactive
  cases hactive

/-- A step that registers an intent creates the next handle and no other. -/
theorem IntentStep.creates_iff (h : Handles step.before.kernel count)
    (hregisters : Registers step.pid step.before.kernel step.after.kernel) :
    Handles step.after.kernel (count + 1) ∧
      (∀ j ≠ count, (step.after.kernel.intentTable j).pid =
        (step.before.kernel.intentTable j).pid) ∧
      (step.after.kernel.intentTable count).pid = step.pid ∧
      ∀ handle, step.Creates handle ↔ handle = UInt32.ofNat (count + 1) := by
  obtain ⟨i, intent, hfree, hsame⟩ := hregisters
  obtain ⟨rfl, hlt⟩ := h.freeIntent_eq hfree
  have hother : ∀ j ≠ i, (step.after.kernel.intentTable j).identity =
      (step.before.kernel.intentTable j).identity := by
    intro j hj
    rw [hsame.1 j, KernelMemory.registered]
    dsimp only
    rw [Function.update_of_ne hj]
  have hnew : (step.after.kernel.intentTable i).identity =
      (true, step.pid, intent, step.before.kernel.nextHandle) := by
    rw [hsame.1 i, KernelMemory.registered]
    dsimp only
    rw [Function.update_self]
    rfl
  have hactive : (step.after.kernel.intentTable i).active = true := congrArg Prod.fst hnew
  have hhandle : (step.after.kernel.intentTable i).handle = UInt32.ofNat (i + 1) :=
    (congrArg (fun fields => fields.2.2.2) hnew).trans h.next
  refine ⟨(h.registered hfree).sameTable hsame,
    fun j hj => IntentEntry.pid_of_identity (hother j hj),
    congrArg (fun fields => fields.2.1) hnew, fun handle => ⟨?_, ?_⟩⟩
  · rintro ⟨j, _, hinactive, hactive', rfl⟩
    by_cases hj : j = i
    · rw [hj, hhandle]
    · rw [IntentEntry.active_of_identity (hother j hj), hinactive] at hactive'
      cases hactive'
  · rintro rfl
    exact ⟨i, hlt, h.inactive i (Nat.le_refl _) hlt, hactive, hhandle⟩

/-- One more step. -/
theorem Provenance.snoc (h : Provenance steps step.before.kernel count) (hruns : step.Runs env) :
    ∃ count', Provenance (steps ++ [step]) step.after.kernel count' := by
  have htable := System.run_ensures
    (IntentCall.code_table step.before.kernel step.pid step.call) hruns
  rcases htable with hsame | hregisters
  · refine ⟨count, h.handles.sameTable hsame, fun i hi => ?_, fun creator hmem handle hcreates => ?_⟩
    · obtain ⟨creator, hmem, hpid, hcreates⟩ := h.created i hi
      refine ⟨creator, List.mem_append_left _ hmem, ?_, hcreates⟩
      rw [hpid, IntentEntry.pid_of_identity (hsame.1 i)]
    · rcases List.mem_append.mp hmem with hmem | hmem
      · obtain ⟨i, hi, hhandle, hpid⟩ := h.belongs creator hmem handle hcreates
        exact ⟨i, hi, hhandle, by rw [IntentEntry.pid_of_identity (hsame.1 i), hpid]⟩
      · rw [List.mem_singleton.mp hmem] at hcreates
        exact (IntentStep.not_creates hsame handle hcreates).elim
  · obtain ⟨hhandles, hothers, hpid, hiff⟩ := IntentStep.creates_iff h.handles hregisters
    refine ⟨count + 1, hhandles, fun i hi => ?_, fun creator hmem handle hcreates => ?_⟩
    · by_cases hnew : i = count
      · refine ⟨step, List.mem_append_right _ (List.mem_singleton_self step), ?_, ?_⟩
        · rw [hnew, hpid]
        · rw [hnew]
          exact (hiff _).mpr rfl
      · obtain ⟨creator, hmem, hcreator, hcreates⟩ := h.created i (by omega)
        refine ⟨creator, List.mem_append_left _ hmem, ?_, hcreates⟩
        rw [hcreator, hothers i hnew]
    · rcases List.mem_append.mp hmem with hmem | hmem
      · obtain ⟨i, hi, hhandle, hbelongs⟩ := h.belongs creator hmem handle hcreates
        exact ⟨i, by omega, hhandle, by rw [hothers i (by omega), hbelongs]⟩
      · rw [List.mem_singleton.mp hmem] at hcreates ⊢
        exact ⟨count, by omega, (hiff handle).mp hcreates, hpid⟩

theorem IntentRun.provenance (h : IntentRun env first steps last)
    (hinit : first.kernel.IntentInit) : ∃ count, Provenance steps last.kernel count := by
  induction h with
  | start =>
    refine ⟨0, ⟨Nat.zero_le _, fun i hi => by omega, fun i _ hi => hinit.intentTable i hi,
      hinit.nextHandle⟩, fun i hi => by omega, fun creator hmem => by cases hmem⟩
  | @other steps last other run same ih =>
    obtain ⟨count, hprov⟩ := ih
    have hsame : SameTable last.kernel other.kernel :=
      ⟨fun i => by rw [same.intentTable], same.nextHandle⟩
    refine ⟨count, hprov.handles.sameTable hsame, ?_, ?_⟩
    · rw [same.intentTable]
      exact hprov.created
    · rw [same.intentTable]
      exact hprov.belongs
  | call run runs ih =>
    obtain ⟨count, hprov⟩ := ih
    exact hprov.snoc runs

/-- The call through an existing handle that belongs to a task was preceded by the step of
that task which created the handle, and by no step of another task that did. -/
theorem Provenance.creator_iff (h : Provenance steps step.before.kernel count)
    (hruns : step.Runs env) {i : ℕ} (hentry : step.entry = some i) :
    (∃ handle, step.usedHandle = some handle ∧ ∃ creator ∈ steps ++ [step],
      creator.pid = step.pid ∧ creator.Creates handle) ↔
        (step.before.kernel.intentTable i).pid = step.pid := by
  obtain ⟨handle, hused, hi, rfl⟩ : ∃ handle, step.usedHandle = some handle ∧ i < count ∧
      handle = UInt32.ofNat (i + 1) := by
    rw [IntentStep.entry] at hentry
    rw [IntentStep.usedHandle]
    cases hcall : step.call with
    | intent record handlePointer => rw [hcall] at hentry; cases hentry
    | «open» path flags => rw [hcall] at hentry; cases hentry
    | write fd nameAt buffer len =>
      rw [hcall] at hentry
      dsimp only at hentry ⊢
      rw [hentry]
      obtain ⟨hi, hhandle⟩ := h.handles.findIntent_eq hentry
      exact ⟨fd, rfl, hi, hhandle⟩
    | fulfill handle buffer len =>
      rw [hcall] at hentry
      obtain ⟨hi, hhandle⟩ := h.handles.findIntent_eq hentry
      exact ⟨handle, rfl, hi, hhandle⟩
  have hmax := h.handles.le
  constructor
  · rintro ⟨handle, hused', creator, hmem, hpid, hcreates⟩
    rw [hused, Option.some.injEq] at hused'
    subst hused'
    rcases List.mem_append.mp hmem with hmem | hmem
    · obtain ⟨j, hj, hhandle, hbelongs⟩ := h.belongs creator hmem _ hcreates
      have hij : i = j := handle_injective (by omega) (by omega) hhandle
      rw [hij, hbelongs, hpid]
    · -- a call that names a handle creates none, unless it is the next one
      rw [List.mem_singleton.mp hmem] at hcreates
      rcases System.run_ensures (IntentCall.code_table step.before.kernel step.pid step.call) hruns
        with hsame | hregisters
      · exact (IntentStep.not_creates hsame _ hcreates).elim
      · obtain ⟨_, _, _, hiff⟩ := IntentStep.creates_iff h.handles hregisters
        obtain ⟨_, _, hfree, _⟩ := hregisters
        have hnext := (hiff _).mp hcreates
        have hlt := (h.handles.freeIntent_eq hfree).2
        have heq : i = count := handle_injective (by omega) hlt hnext
        omega
  · intro hpid
    obtain ⟨creator, hmem, hcreator, hcreates⟩ := h.created i hi
    exact ⟨_, hused, creator, List.mem_append_left _ hmem, hcreator.trans hpid, hcreates⟩

/-- One step, after steps from an empty intent table. -/
theorem Provenance.lawful_iff (h : Provenance steps step.before.kernel count)
    (hruns : step.Runs env) (hpid : step.pid ≠ 0) :
    step.Lawful env steps ↔ step.Guarded env := by
  cases hentry : step.entry with
  | none =>
    constructor
    · intro _ i idx bytes hsome
      rw [hentry] at hsome
      cases hsome
    · intro _ hchanges
      obtain ⟨hholds, hused, hcreates⟩ := hruns.unnamed hpid hentry hchanges
      exact ⟨hholds, _, hused, step, List.mem_append_right _ (List.mem_singleton_self step), rfl,
        hcreates⟩
  | some i =>
    have hchanges := hruns.changes_iff hentry
    have hcreator := h.creator_iff hruns hentry
    constructor
    · intro hlawful j idx bytes hj hproduction halters
      rw [hentry, Option.some.injEq] at hj
      obtain ⟨hholds, hcreated⟩ := hlawful (hchanges.mpr ⟨idx, bytes, hproduction, halters⟩)
      rw [← hj]
      exact ⟨hcreator.mp hcreated, hholds⟩
    · intro hguarded hchanged
      obtain ⟨idx, bytes, hproduction, halters⟩ := hchanges.mp hchanged
      obtain ⟨hpid', hholds⟩ := hguarded i idx bytes hentry hproduction halters
      exact ⟨hholds, hcreator.mpr hpid'⟩

/-- In every run of the intent calls by tasks with non-zero pids, from an empty intent
table: forms change only in steps of a task that holds the capability and itself created
the handle, exactly if every call that stores other bytes through an existing handle is
made by the task the handle belongs to, while it holds the capability. -/
theorem intentRun_lawful_iff (h : IntentRun env first steps last)
    (hinit : first.kernel.IntentInit) (hpids : ∀ step ∈ steps, step.pid ≠ 0) :
    (∀ earlier step, earlier ++ [step] <+: steps → step.Lawful env earlier) ↔
      ∀ step ∈ steps, step.Guarded env := by
  induction h with
  | start => simp
  | other run same ih => exact ih hpids
  | @call steps step run runs ih =>
    obtain ⟨count, hprov⟩ := run.provenance hinit
    have hstep := hprov.lawful_iff runs (hpids step (by simp))
    have hrest := ih fun other hother => hpids other (List.mem_append_left _ hother)
    constructor
    · intro hlawful other hother
      rcases List.mem_append.mp hother with hother | hother
      · exact hrest.mp (fun earlier step' hfront =>
          hlawful earlier step' (hfront.trans (List.prefix_append _ _))) other hother
      · rw [List.mem_singleton.mp hother]
        exact hstep.mp (hlawful steps step (List.prefix_refl _))
    · intro hguarded earlier step' hfront
      rcases List.prefix_concat_iff.mp hfront with heq | hfront
      · obtain ⟨rfl, hlast⟩ := List.append_inj' heq rfl
        obtain rfl : step' = step := List.singleton_inj.mp hlast
        exact hstep.mpr (hguarded step' (by simp))
      · exact hrest.mpr (fun other hother => hguarded other (List.mem_append_left _ hother))
          earlier step' hfront

/-- Store code on a system is store code on its machine. -/
theorem System.run_onStore {α : Type} (code : HexafsM α) (system : System) :
    system.run env (onStore code) =
      ((Machine.mk system.kernel.store system.dev).run env code).map fun result =>
        (result.1, ⟨{ system.kernel with store := result.2.mem }, result.2.dev⟩) := by
  have hrun : (onStore code).exec (cachedDevice env) system.kernel system.dev =
      (code.exec (cachedDevice env) system.kernel.store system.dev).bind fun result =>
        .ok ((result.1.1, { system.kernel with store := result.1.2 }), result.2) :=
    Program.run_bind (cachedDevice env) (code system.kernel.store)
      (fun result : α × Memory =>
        .done (result.1, ({ system.kernel with store := result.2 } : KernelMemory))) system.dev
  rw [System.run, hrun, Machine.run]
  cases code.exec (cachedDevice env) system.kernel.store system.dev with
  | error stop => rfl
  | ok result => rfl

/-- The form "a" with the content "b". -/
def oneForm : FormStore where
  slot := fun _ => ⟨CString.ofBytes [97], 1, 1, 2, 0, permDefault⟩
  block := Function.update (fun _ => none) 1 (some [98, 0])
  fresh := 2
  content_lt _ := by decide

/-- A kernel on a store, with the form "a" and no intents. -/
def oneFormKernel (store : Memory) (grants : CapGrants) : KernelMemory where
  store := { store with formCount := 1 }
  forms := oneForm
  capGrants := grants
  systemTicks := 100
  intentTable := fun _ => .zero
  nextHandle := 1
  vfsFds := fun _ => .zero

/-- A task with a grant exists on some store. -/
theorem exists_capHolds : ∃ system : System, ∃ store grants,
    system.kernel = oneFormKernel store grants ∧ CapHolds .faultless system 5 := by
  obtain ⟨machine, grants, -, run⟩ := exists_granted ⟨5, 2, 0, 1⟩
  obtain ⟨disk, sim, -, stored⟩ := run.stored
  have hgrants : List.Forall₂ (fun block grant => ∃ content,
      GrantStored (oneFormKernel machine.mem grants).store.allocator disk block content grant) grants
        ([(⟨5, 2, 0, 1⟩ : GrantCall)].map fun call =>
          call.record machine.mem.sbCache.rootSnapBlock) := stored
  obtain ⟨readable, -, check, -, all⟩ := capCheckFrom_faulty .faultless 100 5
    (show capTypeIntent ≠ 0 by decide) sim hgrants
  have hwp : (capCheckFrom 100 5 capTypeIntent grants).wp (cachedDevice .faultless)
      (Machine.mk (oneFormKernel machine.mem grants).store machine.dev).mem
        (Machine.mk (oneFormKernel machine.mem grants).store machine.dev).dev _ := check
  obtain ⟨result, after, checked, answer, -⟩ := Machine.run_of_faulty hwp
  have hresult : result = true := by
    rw [answer, all Environment.faultless_ioOk.reads]
    exact ⟨_, List.mem_singleton.mpr rfl, rfl, .inr (.inl rfl)⟩
  refine ⟨⟨oneFormKernel machine.mem grants, machine.dev⟩, machine.mem, grants, rfl, ?_⟩
  refine ⟨⟨{ oneFormKernel machine.mem grants with store := after.mem }, after.dev⟩, ?_⟩
  rw [capCheck, System.run_memory, System.run_onStore, hexafsCapCheck, if_neg (by decide)]
  show Except.map _ (Machine.run .faultless (capCheckFrom 100 5 capTypeIntent grants)
    ⟨(oneFormKernel machine.mem grants).store, machine.dev⟩) = _
  rw [checked, hresult]
  rfl

/-- A task with a grant opens a form to write, and a task without one stores through the
handle. -/
theorem exists_borrowedHandle : ∃ first last : System, ∃ opened used : IntentStep,
    IntentRun .faultless first [opened, used] last ∧ first.kernel.IntentInit ∧
      opened.pid = 5 ∧ used.pid = 6 ∧ used.ChangesContent ∧ ∀ handle, ¬used.Creates handle := by
  obtain ⟨first, store, grants, hkernel, checked, hcheck⟩ := exists_capHolds
  have hkept : checked.kernel = first.kernel :=
    System.run_ensures (capCheck_keeps 5 capTypeIntent first.kernel) hcheck
  obtain ⟨kernel, dev⟩ := first
  obtain ⟨kernel', dev'⟩ := checked
  dsimp only at hkernel hkept
  subst hkept hkernel
  generalize hregistered :
    (oneFormKernel store grants).registered 0 5 (openedIntent 0 1) = registered
  have hcreate : System.run .faultless (intentCreate 5 (openedIntent 0 1))
      ⟨oneFormKernel store grants, dev⟩ = .ok (some 1, ⟨registered, dev'⟩) := by
    rw [intentCreate, if_pos (.inl rfl), System.run_bind, hcheck, ← hregistered]
    rfl
  have hopen : System.run .faultless (sysOpen 5 (some (CString.ofBytes [97])) 1)
      ⟨oneFormKernel store grants, dev⟩ = .ok (⟨1, [], none⟩, ⟨registered, dev'⟩) := by
    have hfind : findForm (oneFormKernel store grants) (CString.ofBytes [97]) = some 0 := rfl
    have hcompat : System.run .faultless (intentCompatOpen 5 (CString.ofBytes [97]) 1)
        ⟨oneFormKernel store grants, dev⟩ = .ok (some 1, ⟨registered, dev'⟩) := by
      rw [intentCompatOpen, System.run_memory]
      dsimp only
      rw [hfind]
      exact hcreate
    have hvalid : validPath (some (CString.ofBytes [97])) = some (CString.ofBytes [97]) := rfl
    rw [sysOpen, hvalid]
    dsimp only
    rw [System.run_bind, hcompat]
    rfl
  have hfulfill : ∃ last, System.run .faultless (sysFulfill 1 (some fun _ => 120) 1)
      ⟨registered, dev'⟩ = .ok (⟨1, [], none⟩, last) ∧ last.kernel.forms.bytes 0 = [120] := by
    rw [← hregistered]
    exact ⟨_, rfl, rfl⟩
  obtain ⟨last, hfulfill, hbytes⟩ := hfulfill
  have hshown : registered.forms.bytes 0 = [98] := by
    rw [← hregistered]
    rfl
  have hcount : registered.store.formCount = 1 := by
    rw [← hregistered]
    rfl
  let opened : IntentStep :=
    ⟨5, .open (some (CString.ofBytes [97])) 1, ⟨oneFormKernel store grants, dev⟩, ⟨1, [], none⟩,
      ⟨registered, dev'⟩⟩
  let used : IntentStep :=
    ⟨6, .fulfill 1 (some fun _ => 120) 1, ⟨registered, dev'⟩, ⟨1, [], none⟩, last⟩
  have hopened : opened.Runs .faultless := hopen
  have hused : used.Runs .faultless := hfulfill
  have hchanges : used.ChangesContent := by
    intro hsame
    have hzero : last.kernel.forms.bytes 0 = registered.forms.bytes 0 :=
      hsame 0 (by show 0 < registered.store.formCount; omega)
    rw [hbytes, hshown] at hzero
    cases hzero
  have hsame : SameTable registered last.kernel := by
    have hcall : System.run .faultless (intentFulfill 1 (some fun _ => 120) 1) ⟨registered, dev'⟩ =
        .ok (⟨1, []⟩, last) := by
      obtain ⟨done, middle, hdone, hend⟩ := System.run_bind_elim hfulfill
      have hpair : (SysResult.mk done.ret done.out none, middle) = (⟨1, [], none⟩, last) :=
        Except.ok.inj hend
      simp only [Prod.mk.injEq, SysResult.mk.injEq, and_true] at hpair
      obtain ⟨⟨hret, hout⟩, rfl⟩ := hpair
      rw [hdone, ← hret, ← hout]
    exact (System.run_ensures (intentFulfill_ensures registered 1 _ 1) hcall).sameTable
  exact ⟨_, last, opened, used, .call (.call .start hopened) hused, ⟨fun _ _ => rfl, rfl⟩, rfl, rfl,
    hchanges, fun handle => IntentStep.not_creates hsame handle⟩

/-- A task stores other bytes in a form through a handle that another task created. -/
theorem intentFulfill_foreignHandle : ∃ first last : System, ∃ opened used : IntentStep,
    IntentRun .faultless first [opened, used] last ∧ first.kernel.IntentInit ∧
      opened.pid = 5 ∧ used.pid = 6 ∧ used.ChangesContent ∧ ¬used.Lawful .faultless [opened] := by
  obtain ⟨first, last, opened, used, hrun, hinit, hfive, hsix, hchanges, hnone⟩ :=
    exists_borrowedHandle
  refine ⟨first, last, opened, used, hrun, hinit, hfive, hsix, hchanges, fun hlawful => ?_⟩
  obtain ⟨_, handle, _, creator, hmem, hpid, hcreates⟩ := hlawful hchanges
  rcases List.mem_append.mp hmem with hmem | hmem
  · rw [List.mem_singleton.mp hmem, hfive, hsix] at hpid
    exact absurd hpid (by decide)
  · rw [List.mem_singleton.mp hmem] at hcreates
    exact hnone handle hcreates

/-- The equivalence on a run of two calls by two tasks. -/
theorem intentRun_lawful_iff_two : ∃ first last : System, ∃ opened used : IntentStep,
    opened.pid = 5 ∧ used.pid = 6 ∧ IntentRun .faultless first [opened, used] last ∧
      ((∀ earlier step, earlier ++ [step] <+: [opened, used] → step.Lawful .faultless earlier) ↔
        ∀ step ∈ [opened, used], step.Guarded .faultless) := by
  obtain ⟨first, last, opened, used, hrun, hinit, hfive, hsix, _⟩ := exists_borrowedHandle
  refine ⟨first, last, opened, used, hfive, hsix, hrun,
    intentRun_lawful_iff hrun hinit fun step hstep => ?_⟩
  rcases List.mem_cons.mp hstep with rfl | hstep
  · rw [hfive]
    decide
  · rw [List.mem_singleton.mp hstep, hsix]
    decide

end Runs

end HexaOS.Kernel
