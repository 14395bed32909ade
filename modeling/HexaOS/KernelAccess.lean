import HexaOS.FileBounds
import HexaOS.KernelIntentRuns

/-!
# Permissions along the two open paths

Runs of the descriptor calls and of the intent calls by one user. A descriptor keeps
the access that was asked for when it was opened; whether later accesses respect the
permissions of the forms is a condition on what is done with descriptors and handles, and
on the stores: one that leaves the buffer it is meant for goes into that of another form.
-/

namespace HexaOS.Kernel

open DevicePrograms PackedBytes Hexafs Shell

/-- A call along one of the two open paths. -/
inductive FileCall where
  /-- vfs_open; `task` is current_task. -/
  | vfsOpen (task : ℕ) (path : CString) (flags : UInt32)
  | vfsRead (fd count : Int32)
  | vfsWrite (fd : Int32) (buffer : ℕ → UInt8) (count : Int32)
  /-- A system call of the task with this pid. -/
  | sys (pid : UInt32) (call : IntentCall)

/-- The code of a call. -/
def FileCall.code : FileCall → KernelM SysResult
  | .vfsOpen task path flags => do
    match ← Kernel.vfsOpen task path flags with
    | none => pure ⟨-1, [], none⟩
    | some fd => pure ⟨Int32.ofNat fd, [], none⟩
  | .vfsRead fd count => do
    let done ← Kernel.vfsRead fd count
    pure ⟨done.ret, done.out, none⟩
  | .vfsWrite fd buffer count => do
    let done ← Kernel.vfsWrite fd buffer count
    pure ⟨done.ret, done.out, none⟩
  | .sys pid call => call.code pid

/-- A fulfilment that a call ends in: the kernel at that moment, the entry, the buffer
and its length. -/
structure Use where
  /-- The kernel at the call. -/
  kernel : KernelMemory
  /-- The entry that the handle names. -/
  entry : ℕ
  /-- The buffer of the caller. -/
  buffer : Buffer
  /-- The length that is asked for. -/
  len : Int32

/-- The fulfilment that SYS_WRITE and SYS_FULFILL end in. -/
def IntentCall.use (pid : UInt32) (kernel : KernelMemory) : IntentCall → Option Use
  | .fulfill handle buffer len =>
    (findIntent kernel.intentTable handle).map fun i => ⟨kernel, i, buffer, len⟩
  | .write fd nameAt buffer len =>
    if validBuf buffer len then
      match findIntent kernel.intentTable fd with
      | some i =>
        if (kernel.intentTable i).intent.intentType = intentProduce then
          some ⟨kernel, i, buffer, len⟩
        else none
      | none =>
        match findForm kernel nameAt, freeIntent kernel.intentTable with
        | some idx, some i =>
          let registered := kernel.registered i pid (writtenIntent idx)
          (findIntent registered.intentTable kernel.nextHandle).map fun j =>
            ⟨registered, j, buffer, len⟩
        | _, _ => none
    else none
  | _ => none

/-- The form that a fulfilment copies from. -/
def Use.reads (use : Use) : Option ℕ :=
  use.kernel.consumption (use.kernel.intentTable use.entry) use.buffer use.len

/-- The form that a fulfilment stores into. -/
def Use.writes (use : Use) : Option ℕ :=
  (use.kernel.production (use.kernel.intentTable use.entry) use.buffer use.len).map Prod.fst

/-- The form that a call copies from. -/
def FileCall.reads (kernel : KernelMemory) : FileCall → Option ℕ
  | .vfsRead fd _ => fdForm kernel fd
  | .sys pid call => (call.use pid kernel).bind Use.reads
  | _ => none

/-- The form that a call stores into. -/
def FileCall.writes (kernel : KernelMemory) : FileCall → Option ℕ
  | .vfsWrite fd _ _ => fdForm kernel fd
  | .sys pid call => (call.use pid kernel).bind Use.writes
  | _ => none

/-- The existing form that a call opens, and whether it asks to write. -/
def FileCall.asks (kernel : KernelMemory) : FileCall → Option (ℕ × Bool)
  | .sys _ (.open path flags) =>
    ((validPath path).bind (findForm kernel)).map fun idx => (idx, flags &&& formWrite != 0)
  | .sys _ (.intent (some record) true) =>
    if record.intentType = intentProduce ∨ record.intentType = intentTransform then
      (targetForm kernel record).map fun idx => (idx, true)
    else if record.intentType = intentConsume ∨ record.intentType = intentObserve then
      (targetForm kernel record).map fun idx => (idx, false)
    else none
  | _ => none

/-- Every byte that a call reads or stores lies in the buffer it is meant for, and the name of a
form that it makes fits its entry. -/
def FileCall.Fits (kernel : KernelMemory) : FileCall → Prop
  | .vfsOpen _ path flags => NameFits kernel path flags
  | .vfsRead _ _ => True
  | .vfsWrite fd _ count => ∀ idx, fdForm kernel fd = some idx →
    WriteFits kernel.forms idx (kernel.vfsFds fd.toNatClampNeg).pos count
  | .sys _ (.open path flags) => ∀ name, validPath path = some name → NameFits kernel name flags
  | .sys pid call => ∀ use, call.use pid kernel = some use →
    FulfilFits use.kernel use.entry use.buffer use.len

/-- What the missing checks would have asked: vfs_read through a descriptor that was
opened to write is on a readable form, vfs_write through one that was not is on a
writable form, and the intent calls open, read and write what the user may. -/
def FileCall.Granted (kernel : KernelMemory) : FileCall → Prop
  | .vfsOpen _ _ _ => True
  | .vfsRead fd _ => ∀ idx, fdForm kernel fd = some idx →
    (kernel.vfsFds fd.toNatClampNeg).flags &&& formWrite ≠ 0 → checkPerm kernel idx false = false
  | .vfsWrite fd _ _ => ∀ idx, fdForm kernel fd = some idx →
    (kernel.vfsFds fd.toNatClampNeg).flags &&& formWrite = 0 → checkPerm kernel idx true = false
  | .sys pid call =>
    (∀ idx, (FileCall.sys pid call).reads kernel = some idx → checkPerm kernel idx false = false) ∧
    (∀ idx, (FileCall.sys pid call).writes kernel = some idx → checkPerm kernel idx true = false) ∧
    ∀ idx wantWrite, (FileCall.sys pid call).asks kernel = some (idx, wantWrite) →
      checkPerm kernel idx wantWrite = false

/-- A call that no missing check would have refused. -/
structure FileCall.Permitted (kernel : KernelMemory) (call : FileCall) : Prop where
  /-- The bounds that are not checked hold. -/
  fits : call.Fits kernel
  /-- The permissions that are not looked at grant the access. -/
  granted : call.Granted kernel

/-- A call that returned. -/
structure AccessStep where
  /-- The call. -/
  call : FileCall
  /-- The system that it was made on. -/
  before : System
  /-- What it returned. -/
  result : SysResult
  /-- The system that it left. -/
  after : System

namespace AccessStep

/-- The step is a run of its call. -/
def Runs (env : Environment) (step : AccessStep) : Prop :=
  step.before.run env step.call.code = .ok (step.result, step.after)

/-- The step keeps the content of forms that the user may not write, returns no bytes of a
form that the user may not read, and an intent on a form is refused when the access it
asks for is denied, as vfs_open does. -/
structure Respects (step : AccessStep) : Prop where
  /-- A form that may not be written keeps its bytes. -/
  contents : ∀ i < step.before.kernel.store.formCount,
    checkPerm step.before.kernel i true = true →
      step.after.kernel.forms.bytes i = step.before.kernel.forms.bytes i
  /-- What is returned comes from a form that may be read. -/
  reads : ∀ idx, step.call.reads step.before.kernel = some idx → step.result.out ≠ [] →
    checkPerm step.before.kernel idx false = false
  /-- Who asks for what is denied gets an error. -/
  asks : ∀ idx wantWrite, step.call.asks step.before.kernel = some (idx, wantWrite) →
    checkPerm step.before.kernel idx wantWrite = true → step.result.ret < 0

/-- The call was permitted when it was made. -/
def Permitted (step : AccessStep) : Prop := step.call.Permitted step.before.kernel

end AccessStep

/-- Different forms have different blocks. -/
def Distinct (kernel : KernelMemory) : Prop :=
  ∀ i < kernel.store.formCount, ∀ j < kernel.store.formCount, i ≠ j →
    (kernel.forms.slot i).content ≠ (kernel.forms.slot j).content

/-- Open descriptors are on forms that the user may access as it was asked. -/
structure OpenedChecked (kernel : KernelMemory) : Prop where
  /-- The user is not root. -/
  user : kernel.store.uCur ≠ 0
  /-- No two forms share a buffer. -/
  distinct : Distinct kernel
  /-- An open descriptor is on a form that its flags are granted for. -/
  opened : ∀ fd, (kernel.vfsFds fd).type = .form →
    (kernel.vfsFds fd).ref < kernel.store.formCount ∧
      checkPerm kernel (kernel.vfsFds fd).ref ((kernel.vfsFds fd).flags &&& formWrite != 0) = false

section Steps

variable {env : Environment} {kernel kernel' : KernelMemory} {step : AccessStep}

/-- Making a form keeps the blocks apart. -/
theorem MadeForm.distinct (h : MadeForm kernel kernel') (hdistinct : Distinct kernel) :
    Distinct kernel' := by
  intro i hi j hj hne
  have hle := h.formCount_le
  have hi' : i < kernel.store.formCount ∨ i = kernel.store.formCount := by omega
  have hj' : j < kernel.store.formCount ∨ j = kernel.store.formCount := by omega
  rcases hi' with hi' | rfl
  · rcases hj' with hj' | rfl
    · rw [h.content i hi', h.content j hj']
      exact hdistinct i hi' j hj' hne
    · exact (h.created hj).2.2 i hi'
  · rcases hj' with hj' | rfl
    · exact ((h.created hi).2.2 j hj').symm
    · exact (hne rfl).elim

/-- Touching one form keeps the blocks apart. -/
theorem TouchesOnly.distinct {idx : ℕ} (h : TouchesOnly idx kernel.forms kernel'.forms)
    (hstore : kernel'.store = kernel.store) (hidx : idx < kernel.store.formCount)
    (hdistinct : Distinct kernel) : Distinct kernel' := by
  intro i hi j hj hne
  rw [hstore] at hi hj
  by_cases hi' : i = idx
  · have hj' : j ≠ idx := fun hj' => hne (hi'.trans hj'.symm)
    rw [hi']
    exact (h.apart j hj' (hdistinct j hj idx hidx hj')).symm
  · by_cases hj' : j = idx
    · rw [hj']
      exact h.apart i hi' (hdistinct i hi idx hidx hi')
    · rw [h.other i hi', h.other j hj']
      exact hdistinct i hi j hj hne

/-- Touching one form keeps names, owners and modes. -/
theorem TouchesOnly.preserves {idx : ℕ} (h : TouchesOnly idx kernel.forms kernel'.forms)
    (hstore : kernel'.store = kernel.store) : Preserves kernel kernel' := by
  refine ⟨by rw [hstore], by rw [hstore], fun i _ => ?_, fun i _ => ?_, fun i _ => ?_⟩
  all_goals
    by_cases hi : i = idx
    · rw [hi]
      first
        | exact h.name
        | exact h.owner
        | exact h.mode
    · rw [h.other i hi]

/-- Touching a writable form keeps the content of the others that are denied. -/
theorem TouchesOnly.contents {idx : ℕ} (h : TouchesOnly idx kernel.forms kernel'.forms)
    (hdistinct : Distinct kernel) (hidx : idx < kernel.store.formCount)
    (hallowed : checkPerm kernel idx true = false) :
    ∀ i < kernel.store.formCount, checkPerm kernel i true = true →
      kernel'.forms.bytes i = kernel.forms.bytes i := by
  intro i hi hdenied
  have hne : i ≠ idx := by
    rintro rfl
    rw [hallowed] at hdenied
    cases hdenied
  exact h.bytes hne (hdistinct i hi idx hidx hne)

/-- Descriptors stay checked while forms keep their names, owners and modes. -/
theorem OpenedChecked.keep (h : OpenedChecked kernel) (hpreserves : Preserves kernel kernel')
    (hdistinct : Distinct kernel')
    (hfds : ∀ fd, (kernel'.vfsFds fd).opened = (kernel.vfsFds fd).opened) :
    OpenedChecked kernel' where
  user := by
    rw [hpreserves.uCur]
    exact h.user
  distinct := hdistinct
  opened fd hform := by
    have hopened := hfds fd
    simp only [VfsFd.opened, Prod.mk.injEq] at hopened
    obtain ⟨htype, href, hflags⟩ := hopened
    obtain ⟨hlt, hallowed⟩ := h.opened fd (htype ▸ hform)
    rw [href, hflags, hpreserves.checkPerm hlt]
    exact ⟨Nat.lt_of_lt_of_le hlt hpreserves.formCount, hallowed⟩

/-- Descriptors stay checked, and forms that the user may not write keep their content. -/
structure Kept (kernel kernel' : KernelMemory) : Prop where
  /-- Descriptors stay checked. -/
  checked : OpenedChecked kernel'
  /-- A form that may not be written keeps its bytes. -/
  contents : ∀ i < kernel.store.formCount, checkPerm kernel i true = true →
    kernel'.forms.bytes i = kernel.forms.bytes i

theorem MadeForm.kept (h : MadeForm kernel kernel') (hchecked : OpenedChecked kernel) :
    Kept kernel kernel' where
  checked := hchecked.keep h.preserves (h.distinct hchecked.distinct) fun fd => by rw [h.vfsFds]
  contents i hi _ := h.contents i hi

theorem TouchesOnly.kept {idx : ℕ} (h : TouchesOnly idx kernel.forms kernel'.forms)
    (hstore : kernel'.store = kernel.store)
    (hfds : ∀ fd, (kernel'.vfsFds fd).opened = (kernel.vfsFds fd).opened)
    (hchecked : OpenedChecked kernel) (hidx : idx < kernel.store.formCount)
    (hallowed : checkPerm kernel idx true = false) : Kept kernel kernel' where
  checked := hchecked.keep (h.preserves hstore) (h.distinct hstore hidx hchecked.distinct) hfds
  contents := h.contents hchecked.distinct hidx hallowed

/-- A descriptor is opened with the access that check_perm was asked for. -/
theorem vfsOpenForm_kept {middle : KernelMemory} (hmade : MadeForm kernel middle)
    (hchecked : OpenedChecked kernel) (task : ℕ) {idx : ℕ} (hidx : idx < middle.store.formCount)
    (flags : UInt32) :
    (vfsOpenForm task idx flags).Ensures middle fun _ kernel' => Kept kernel kernel' := by
  have hkept := hmade.kept hchecked
  simp only [vfsOpenForm, Code.ensures_bind, Code.ensures_memory]
  split
  · exact hkept
  · rename_i hallowed
    cases freeFd middle.vfsFds with
    | none => exact hkept
    | some fd =>
      simp only [modifyFd, Code.ensures_bind, Code.ensures_modify, Code.ensures_pure]
      refine ⟨⟨hkept.checked.user, hkept.checked.distinct, fun other hform => ?_⟩, hkept.contents⟩
      by_cases hother : other = fd
      · dsimp only
        rw [hother, Function.update_self]
        exact ⟨hidx, Bool.eq_false_of_not_eq_true hallowed⟩
      · dsimp only at hform ⊢
        rw [Function.update_of_ne hother] at hform ⊢
        exact hkept.checked.opened other hform

/-- vfs_open -/
theorem vfsOpen_kept (hchecked : OpenedChecked kernel) (task : ℕ) (path : CString)
    (flags : UInt32) :
    (vfsOpen task path flags).Ensures kernel fun _ kernel' => Kept kernel kernel' := by
  simp only [vfsOpen, Code.ensures_bind, Code.ensures_memory]
  cases hfound : findForm kernel path with
  | some idx => exact vfsOpenForm_kept (.refl kernel) hchecked task (findForm_lt hfound) flags
  | none =>
    dsimp only
    split
    · exact (MadeForm.refl kernel).kept hchecked
    · rw [Code.ensures_bind]
      refine (cmdMkform_ensures kernel path).mono fun _ middle hmade => ?_
      rw [Code.ensures_bind, Code.ensures_memory]
      cases hmiddle : findForm middle path with
      | none => exact hmade.1.kept hchecked
      | some idx => exact vfsOpenForm_kept hmade.1 hchecked task (findForm_lt hmiddle) flags

/-- vfs_read moves the position of its descriptor only. -/
theorem vfsRead_kept (hchecked : OpenedChecked kernel) (fd count : Int32) :
    (vfsRead fd count).Ensures kernel fun _ kernel' => Kept kernel kernel' := by
  have hrefl := (MadeForm.refl kernel).kept hchecked
  simp only [vfsRead, Code.ensures_bind, Code.ensures_memory]
  cases fdForm kernel fd with
  | none => exact hrefl
  | some idx =>
    dsimp only
    split
    · exact hrefl
    split
    · trivial
    rw [Code.ensures_bind]
    refine (loadBytes_keeps _ _ _ kernel).mono fun bytes kernel₁ hkept => ?_
    obtain rfl : kernel₁ = kernel := hkept
    simp only [modifyFd, Code.ensures_bind, Code.ensures_modify, Code.ensures_pure]
    refine ⟨hchecked.keep ⟨Nat.le_refl _, rfl, fun _ _ => rfl, fun _ _ => rfl, fun _ _ => rfl⟩
      hchecked.distinct fun i => ?_, fun _ _ _ => rfl⟩
    dsimp only
    by_cases hi : i = fd.toNatClampNeg
    · rw [hi, Function.update_self]
      rfl
    · rw [Function.update_of_ne hi]

/-- vfs_write on a form that the user may write. -/
theorem vfsWrite_kept (hchecked : OpenedChecked kernel) (fd : Int32) (buffer : ℕ → UInt8)
    (count : Int32)
    (hallowed : ∀ idx, fdForm kernel fd = some idx → checkPerm kernel idx true = false) :
    (vfsWrite fd buffer count).Ensures kernel fun _ kernel' => Kept kernel kernel' := by
  simp only [vfsWrite, Code.ensures_bind, Code.ensures_memory]
  cases hform : fdForm kernel fd with
  | none => exact (MadeForm.refl kernel).kept hchecked
  | some idx =>
    have hidx := (fdForm_eq hform).2.2
    dsimp only
    rw [Code.ensures_bind]
    refine (formEnsureCap_ensures kernel idx _).mono fun ok middle hgrown => ?_
    obtain ⟨hstore, hfds, htouches⟩ := hgrown
    cases ok with
    | false =>
      rw [if_neg Bool.false_ne_true]
      exact htouches.kept hstore (fun i => by rw [hfds]) hchecked hidx (hallowed idx hform)
    | true =>
      rw [if_pos rfl]
      refine (vfsStore_ensures middle fd idx buffer count).mono fun _ kernel' hstored => ?_
      obtain ⟨hstore', htouches', hfds'⟩ := hstored
      exact (htouches.trans htouches').kept (hstore'.trans hstore)
        (fun i => by rw [hfds', hfds]) hchecked hidx (hallowed idx hform)

/-- A fulfilment that stores, if it does, into a form that the user may write. -/
theorem Fulfilment.kept {handle : UInt32} {buffer : Buffer} {len : Int32} {out : List UInt8}
    (h : Fulfilment kernel kernel' handle buffer len out) (hchecked : OpenedChecked kernel)
    (hallowed : ∀ i idx, findIntent kernel.intentTable handle = some i →
      (Use.mk kernel i buffer len).writes = some idx → checkPerm kernel idx true = false) :
    Kept kernel kernel' := by
  have hforms := h.forms
  have hfds : ∀ fd, (kernel'.vfsFds fd).opened = (kernel.vfsFds fd).opened := fun fd => by
    rw [h.vfsFds]
  cases hfound : findIntent kernel.intentTable handle with
  | none =>
    rw [hfound] at hforms
    have hsame : kernel'.forms = kernel.forms := hforms
    exact (MadeForm.refl kernel).congr h.store hsame h.vfsFds |>.kept hchecked
  | some i =>
    rw [hfound, Option.bind_some] at hforms
    cases hproduction : kernel.production (kernel.intentTable i) buffer len with
    | none =>
      rw [hproduction] at hforms
      exact (MadeForm.refl kernel).congr h.store hforms h.vfsFds |>.kept hchecked
    | some production =>
      obtain ⟨idx, bytes⟩ := production
      rw [hproduction] at hforms
      have htouches : TouchesOnly idx kernel.forms kernel'.forms := by
        rw [hforms]
        exact .produced idx kernel.forms bytes
      refine htouches.kept h.store hfds hchecked (KernelMemory.production_lt hproduction)
        (hallowed i idx hfound ?_)
      rw [Use.writes, hproduction]
      rfl

/-- A call that uses an intent, of which the production is permitted. -/
theorem intentCompatWrite_kept (hchecked : OpenedChecked kernel) (pid fd : UInt32)
    (nameAt : CString) {buffer : Buffer} {len : Int32} (hvalid : validBuf buffer len = true)
    (hallowed : ∀ idx,
      ((IntentCall.write fd nameAt buffer len).use pid kernel).bind Use.writes = some idx →
        checkPerm kernel idx true = false) :
    (intentCompatWrite pid fd nameAt buffer len).Ensures kernel
      fun _ kernel' => Kept kernel kernel' := by
  have hrefl := (MadeForm.refl kernel).kept hchecked
  simp only [IntentCall.use, if_pos hvalid] at hallowed
  simp only [intentCompatWrite, Code.ensures_bind, Code.ensures_memory]
  cases hfound : findIntent kernel.intentTable fd with
  | some i =>
    dsimp only
    split
    · exact hrefl
    · rename_i htype
      simp only [hfound, if_pos (not_not.mp htype), Option.bind_some] at hallowed
      refine (intentFulfill_ensures kernel fd buffer len).mono fun _ kernel' hdone => ?_
      refine hdone.kept hchecked fun j idx hj hwrites => hallowed idx ?_
      rw [hfound, Option.some.injEq] at hj
      rw [hj]
      exact hwrites
  | none =>
    cases hform : findForm kernel nameAt with
    | none => exact hrefl
    | some idx =>
      dsimp only
      rw [Code.ensures_bind]
      refine intentCreate_ensures hrefl fun i hfree => ?_
      rw [hfound, hform, hfree] at hallowed
      refine (intentFulfill_ensures _ _ _ _).mono fun _ kernel' hdone => ?_
      have hregistered : OpenedChecked (kernel.registered i pid (writtenIntent idx)) :=
        ⟨hchecked.user, hchecked.distinct, hchecked.opened⟩
      have hkept := hdone.kept hregistered fun j written hj hwrites => hallowed written (by
        dsimp only
        rw [hj]
        exact hwrites)
      exact ⟨hkept.checked, hkept.contents⟩

/-- The calls that store, if they do, into forms that the user may write. -/
theorem FileCall.code_kept (hchecked : OpenedChecked kernel) (call : FileCall)
    (hallowed : ∀ idx, call.writes kernel = some idx → checkPerm kernel idx true = false) :
    call.code.Ensures kernel fun _ kernel' => Kept kernel kernel' := by
  have hrefl := (MadeForm.refl kernel).kept hchecked
  cases call with
  | vfsOpen task path flags =>
    rw [code, Code.ensures_bind]
    refine (vfsOpen_kept hchecked task path flags).mono fun fd kernel' hkept => ?_
    cases fd with
    | none => exact hkept
    | some fd => exact hkept
  | vfsRead fd count =>
    rw [code, Code.ensures_bind]
    exact (vfsRead_kept hchecked fd count).mono fun _ _ hkept => hkept
  | vfsWrite fd buffer count =>
    rw [code, Code.ensures_bind]
    exact (vfsWrite_kept hchecked fd buffer count hallowed).mono fun _ _ hkept => hkept
  | sys pid call =>
    rw [code]
    cases call with
    | intent record handlePointer =>
      exact (sysIntent_opens kernel pid record handlePointer).mono fun _ _ hopens =>
        hopens.1.kept hchecked
    | «open» path flags =>
      exact (sysOpen_opens kernel pid path flags).mono fun _ _ hopens => hopens.1.kept hchecked
    | write fd nameAt buffer len =>
      rw [IntentCall.code, sysWrite]
      split
      · rename_i hvalid
        rw [Code.ensures_bind]
        exact (intentCompatWrite_kept hchecked pid fd nameAt hvalid hallowed).mono
          fun _ _ hkept => hkept
      · exact hrefl
    | fulfill handle buffer len =>
      rw [IntentCall.code, sysFulfill, Code.ensures_bind]
      refine (intentFulfill_ensures kernel handle buffer len).mono fun _ kernel' hdone => ?_
      refine hdone.kept hchecked fun i idx hfound hwrites => hallowed idx ?_
      rw [FileCall.writes, IntentCall.use, hfound]
      exact hwrites

/-- A permitted step from checked descriptors respects the permissions, and leaves the
descriptors checked. -/
theorem AccessStep.Permitted.respects (hpermitted : step.Permitted) (hruns : step.Runs env)
    (hchecked : OpenedChecked step.before.kernel) :
    step.Respects ∧ OpenedChecked step.after.kernel := by
  obtain ⟨call, before, result, after⟩ := step
  have hwrites : ∀ idx, call.writes before.kernel = some idx →
      checkPerm before.kernel idx true = false := by
    intro idx hidx
    cases call with
    | vfsOpen task path flags => cases hidx
    | vfsRead fd count => cases hidx
    | vfsWrite fd buffer count =>
      by_cases hflag : (before.kernel.vfsFds fd.toNatClampNeg).flags &&& formWrite = 0
      · exact hpermitted.granted idx hidx hflag
      · obtain ⟨htype, href, _⟩ := fdForm_eq hidx
        have hopened := (hchecked.opened _ htype).2
        rw [href, bne_iff_ne.mpr hflag] at hopened
        exact hopened
    | sys pid call => exact hpermitted.granted.2.1 idx hidx
  have hkept : Kept before.kernel after.kernel :=
    System.run_ensures (call.code_kept hchecked hwrites) hruns
  refine ⟨⟨hkept.contents, fun idx hidx _ => ?_, fun idx wantWrite hasks hdenied => ?_⟩, hkept.checked⟩
  · have hreads : call.reads before.kernel = some idx := hidx
    cases call with
    | vfsOpen task path flags => cases hreads
    | vfsWrite fd buffer count => cases hreads
    | vfsRead fd count =>
      by_cases hflag : (before.kernel.vfsFds fd.toNatClampNeg).flags &&& formWrite = 0
      · obtain ⟨htype, href, _⟩ := fdForm_eq hreads
        have hopened := (hchecked.opened _ htype).2
        rw [href, hflag] at hopened
        exact hopened
      · exact hpermitted.granted idx hreads hflag
    | sys pid call => exact hpermitted.granted.1 idx hreads
  · have hallowed : checkPerm before.kernel idx wantWrite = false := by
      cases call with
      | sys pid call => exact hpermitted.granted.2.2 idx wantWrite hasks
      | vfsOpen task path flags => cases hasks
      | vfsRead fd count => cases hasks
      | vfsWrite fd buffer count => cases hasks
    have hdenied' : checkPerm before.kernel idx wantWrite = true := hdenied
    rw [hallowed] at hdenied'
    cases hdenied'

/-- SYS_WRITE through a handle, or through an intent that it creates for a form. -/
theorem sysWrite_filesHeld {dev : Device} (h : FilesHeld kernel) (pid fd : UInt32)
    (nameAt : CString) {buffer : Buffer} {len : Int32}
    (hfits : ∀ use, (IntentCall.write fd nameAt buffer len).use pid kernel = some use →
      FulfilFits use.kernel use.entry use.buffer use.len) :
    (sysWrite pid fd nameAt buffer len).outcome (cachedDevice env) (CheckStops env ⟨kernel, dev⟩)
      kernel dev fun _ kernel' _ => FilesHeld kernel' := by
  rw [sysWrite]
  split
  · rename_i hvalid
    simp only [IntentCall.use, if_pos hvalid] at hfits
    rw [Code.outcome_bind, intentCompatWrite, Code.outcome_bind, Code.outcome_memory]
    cases hfound : findIntent kernel.intentTable fd with
    | some i =>
      dsimp only
      split
      · exact h
      · rename_i htype
        simp only [hfound, if_pos (not_not.mp htype), Option.some.injEq] at hfits
        refine Code.outcome_imp (intentFulfill_filesHeld h fun j hj => ?_) fun _ _ _ hlast => hlast
        rw [hfound, Option.some.injEq] at hj
        rw [← hj]
        exact hfits _ rfl
    | none =>
      cases hform : findForm kernel nameAt with
      | none => exact h
      | some idx =>
        dsimp only
        rw [Code.outcome_bind]
        refine Code.outcome_imp (intentCreate_outcome .start pid _) fun created last dev' hlast => ?_
        obtain ⟨rfl, rfl⟩ | ⟨i, hfree, rfl, rfl⟩ := hlast
        · exact h
        · simp only [hfound, hform, hfree, Option.map_eq_some_iff] at hfits
          refine intentFulfill_filesHeld (h.registered i pid _) fun j hj => ?_
          exact hfits _ ⟨j, hj, rfl⟩
  · exact h

/-- A call that stays inside the buffers keeps the forms in them, and only the check of a
capability stops it. -/
theorem FileCall.code_filesHeld {dev : Device} (h : FilesHeld kernel) {call : FileCall}
    (hfits : call.Fits kernel) :
    call.code.outcome (cachedDevice env) (CheckStops env ⟨kernel, dev⟩) kernel dev
      fun _ kernel' _ => FilesHeld kernel' := by
  cases call with
  | vfsOpen task path flags =>
    rw [code, Code.outcome_bind]
    refine Code.outcome_imp (vfsOpen_filesHeld h task hfits) fun fd _ _ hlast => ?_
    cases fd with
    | none => exact hlast
    | some fd => exact hlast
  | vfsRead fd count =>
    rw [code, Code.outcome_bind]
    exact Code.outcome_imp (vfsRead_filesHeld h fd count) fun _ _ _ hlast => hlast
  | vfsWrite fd buffer count =>
    rw [code, Code.outcome_bind]
    exact Code.outcome_imp (vfsWrite_filesHeld h buffer hfits) fun _ _ _ hlast => hlast
  | sys pid call =>
    cases call with
    | intent record handlePointer => exact sysIntent_filesHeld h pid record handlePointer
    | «open» path flags => exact sysOpen_filesHeld h pid hfits
    | write fd nameAt buffer len => exact sysWrite_filesHeld h pid fd nameAt hfits
    | fulfill handle buffer len =>
      rw [code, IntentCall.code, sysFulfill, Code.outcome_bind]
      refine Code.outcome_imp (intentFulfill_filesHeld h fun i hfound => hfits ⟨kernel, i, buffer, len⟩ ?_)
        fun _ _ _ hlast => hlast
      rw [IntentCall.use, hfound]
      rfl

/-- Bytes of the block of a form. -/
def KernelMemory.Shows (kernel : KernelMemory) (idx : ℕ) (out : List UInt8) : Prop :=
  ∃ offset count,
    out = (((kernel.forms.block (kernel.forms.slot idx).content).getD []).drop offset).take count

/-- vfs_read returns bytes of the form behind its descriptor. -/
theorem vfsRead_shows (kernel : KernelMemory) (fd count : Int32) :
    (vfsRead fd count).Ensures kernel fun done _ =>
      done.out = [] ∨ ∃ idx, fdForm kernel fd = some idx ∧ kernel.Shows idx done.out := by
  simp only [vfsRead, Code.ensures_bind, Code.ensures_memory]
  cases fdForm kernel fd with
  | none => exact .inl rfl
  | some idx =>
    dsimp only
    split
    · exact .inl rfl
    split
    · trivial
    simp only [loadBytes, Code.ensures_bind, Code.ensures_memory]
    cases hblock : kernel.forms.block (kernel.forms.slot idx).content with
    | none => trivial
    | some block =>
      dsimp only
      split
      · simp only [modifyFd, Code.ensures_modify, Code.ensures_pure]
        refine .inr ⟨idx, rfl, (kernel.vfsFds fd.toNatClampNeg).pos.toNatClampNeg,
          readCount (kernel.forms.slot idx).size (kernel.vfsFds fd.toNatClampNeg).pos count, ?_⟩
        rw [hblock, Option.getD_some]
      · trivial

/-- A fulfilment returns bytes of the form that it copies from, or of its own entry. -/
theorem Fulfilment.shows {handle : UInt32} {buffer : Buffer} {len : Int32} {out : List UInt8}
    {reads : Option ℕ} (h : Fulfilment kernel kernel' handle buffer len out)
    (hreads : ∀ i, findIntent kernel.intentTable handle = some i →
      reads = (Use.mk kernel i buffer len).reads) :
    out = [] ∨ (∃ idx, reads = some idx ∧ kernel.Shows idx out) ∨
      ∃ entry count, out = (IntentEntry.bufferField entry).take count := by
  rcases h.own with hnone | ⟨i, hfound, hconsumed | ⟨count, hfield⟩⟩
  · exact .inl hnone
  · obtain ⟨idx, hidx⟩ := Option.isSome_iff_exists.mp hconsumed
    obtain ⟨count, hout⟩ := h.copied i idx hfound hidx
    refine .inr (.inl ⟨idx, (hreads i hfound).trans hidx, 0,
      min count (kernel.forms.slot idx).size, ?_⟩)
    rw [hout, FormStore.bytes, List.drop_zero, List.take_take]
  · exact .inr (.inr ⟨_, count, hfield⟩)

/-- What SYS_WRITE and SYS_FULFILL return. -/
theorem IntentCall.code_shows (kernel : KernelMemory) (pid : UInt32) (call : IntentCall) :
    (call.code pid).Ensures kernel fun result _ =>
      result.out = [] ∨
        (∃ idx, (FileCall.sys pid call).reads kernel = some idx ∧ kernel.Shows idx result.out) ∨
          ∃ entry count, result.out = (IntentEntry.bufferField entry).take count := by
  cases call with
  | intent record handlePointer =>
    rw [code, sysIntent.eq_def]
    split
    · exact .inl rfl
    · split
      · refine Code.ensures_bind_of_forall _ fun ok middle => ?_
        split
        · exact .inl rfl
        · refine Code.ensures_bind_of_forall _ fun handle middle => ?_
          split <;> exact .inl rfl
      · exact .inl rfl
  | «open» path flags =>
    rw [code, sysOpen]
    split
    · exact .inl rfl
    · refine Code.ensures_bind_of_forall _ fun handle middle => ?_
      split <;> exact .inl rfl
  | write fd nameAt buffer len =>
    rw [code, sysWrite]
    split
    · rename_i hvalid
      simp only [FileCall.reads, use, if_pos hvalid]
      simp only [intentCompatWrite, Code.ensures_bind, Code.ensures_memory]
      cases hfound : findIntent kernel.intentTable fd with
      | some i =>
        dsimp only
        split
        · exact .inl rfl
        · rename_i htype
          simp only [if_pos (not_not.mp htype), Option.bind_some]
          refine (intentFulfill_ensures kernel fd buffer len).mono fun done kernel' hdone =>
            hdone.shows fun j hj => ?_
          rw [hfound, Option.some.injEq] at hj
          rw [← hj]
      | none =>
        cases hform : findForm kernel nameAt with
        | none => exact .inl rfl
        | some idx =>
          dsimp only
          rw [Code.ensures_bind]
          refine intentCreate_ensures (.inl rfl) fun i hfree => ?_
          refine (intentFulfill_ensures _ _ _ _).mono fun done kernel' hdone =>
            hdone.shows fun j hj => ?_
          simp only [hfree]
          rw [hj]
          rfl
    · exact .inl rfl
  | fulfill handle buffer len =>
    rw [code, sysFulfill, Code.ensures_bind]
    refine (intentFulfill_ensures kernel handle buffer len).mono fun done kernel' hdone =>
      hdone.shows fun i hfound => ?_
    rw [FileCall.reads, use, hfound]
    rfl

theorem vfsWrite_returns (kernel : KernelMemory) (fd : Int32) (buffer : ℕ → UInt8) (count : Int32) :
    (vfsWrite fd buffer count).Ensures kernel fun done _ => done.out = [] := by
  simp only [vfsWrite, Code.ensures_bind, Code.ensures_memory]
  cases fdForm kernel fd with
  | none => rfl
  | some idx =>
    refine Code.ensures_bind_of_forall _ fun ok middle => ?_
    split
    · refine Code.ensures_bind_of_forall _ fun memory middle => ?_
      refine Code.ensures_bind_of_forall _ fun _ middle => ?_
      exact Code.ensures_bind_of_forall _ fun _ middle => rfl
    · rfl

/-- What a call returns is nothing, bytes of the form that it copies from, or the buffer
field of an intent. -/
theorem FileCall.code_shows (kernel : KernelMemory) (call : FileCall) :
    call.code.Ensures kernel fun result _ =>
      result.out = [] ∨ (∃ idx, call.reads kernel = some idx ∧ kernel.Shows idx result.out) ∨
        ∃ entry count, result.out = (IntentEntry.bufferField entry).take count := by
  cases call with
  | vfsOpen task path flags =>
    refine Code.ensures_bind_of_forall _ fun fd middle => ?_
    cases fd with
    | none => exact .inl rfl
    | some fd => exact .inl rfl
  | vfsRead fd count =>
    rw [code, Code.ensures_bind]
    refine (vfsRead_shows kernel fd count).mono fun done _ hout => ?_
    exact hout.imp_right Or.inl
  | vfsWrite fd buffer count =>
    rw [code, Code.ensures_bind]
    exact (vfsWrite_returns kernel fd buffer count).mono fun done _ hout => .inl hout
  | sys pid call => exact call.code_shows kernel pid

end Steps

section Runs

variable {env : Environment} {first last : System} {steps : List AccessStep} {step : AccessStep}

/-- The forms, the descriptors and the user are the same. -/
structure System.SameFiles (system system' : System) : Prop where
  /-- The forms stay. -/
  forms : system'.kernel.forms = system.kernel.forms
  /-- Their number stays. -/
  formCount : system'.kernel.store.formCount = system.kernel.store.formCount
  /-- The user stays. -/
  uCur : system'.kernel.store.uCur = system.kernel.store.uCur
  /-- The descriptors stay. -/
  vfsFds : system'.kernel.vfsFds = system.kernel.vfsFds

/-- Calls that follow each other. Between two calls anything may happen that leaves the
forms, the descriptors and the user alone. -/
inductive AccessRun (env : Environment) (first : System) : List AccessStep → System → Prop where
  | start : AccessRun env first [] first
  | other {steps : List AccessStep} {last other : System} (run : AccessRun env first steps last)
      (same : last.SameFiles other) : AccessRun env first steps other
  | call {steps : List AccessStep} {step : AccessStep} (run : AccessRun env first steps step.before)
      (runs : step.Runs env) : AccessRun env first (steps ++ [step]) step.after

/-- A user other than root, no open descriptor, and forms in buffers of their own. -/
structure KernelMemory.Fresh (kernel : KernelMemory) : Prop where
  /-- The user is not root. -/
  user : kernel.store.uCur ≠ 0
  /-- Nothing is open. -/
  vfsFds : ∀ fd, (kernel.vfsFds fd).type = .free
  /-- Every form has a buffer of its own that holds its content. -/
  held : FormsHeld kernel
  /-- The sizes are ints. -/
  size_lt : ∀ i < kernel.store.formCount, (kernel.forms.slot i).size < 2 ^ 31

theorem KernelMemory.Fresh.checked {kernel : KernelMemory} (h : kernel.Fresh) :
    OpenedChecked kernel where
  user := h.user
  distinct i hi j hj hne heq := hne (h.held.owned.eq_of_eq hi hj heq)
  opened fd hform := by
    rw [h.vfsFds fd] at hform
    cases hform

theorem KernelMemory.Fresh.files {kernel : KernelMemory} (h : kernel.Fresh) :
    FilesHeld kernel where
  forms := h.held
  size_lt := h.size_lt
  pos fd hform := by
    rw [h.vfsFds fd] at hform
    cases hform

theorem OpenedChecked.other {system system' : System} (h : OpenedChecked system.kernel)
    (hsame : system.SameFiles system') : OpenedChecked system'.kernel := by
  obtain ⟨huser, hdistinct, hopened⟩ := h
  rw [Distinct, ← hsame.forms, ← hsame.formCount] at hdistinct
  refine ⟨by rw [hsame.uCur]; exact huser, hdistinct, fun fd hform => ?_⟩
  rw [hsame.vfsFds] at hform ⊢
  have hchecked := hopened fd hform
  rw [checkPerm] at hchecked ⊢
  rw [hsame.forms, hsame.formCount, hsame.uCur]
  exact hchecked

/-- A run of permitted calls keeps the forms in their buffers. -/
theorem AccessRun.filesHeld (h : AccessRun env first steps last) (hfresh : first.kernel.Fresh)
    (hpermitted : ∀ step ∈ steps, step.Permitted) : FilesHeld last.kernel := by
  induction h with
  | start => exact hfresh.files
  | other run same ih => exact (ih hpermitted).congr same.forms same.formCount same.vfsFds
  | @call steps step run runs ih =>
    have hheld := ih fun other hother => hpermitted other (List.mem_append_left _ hother)
    exact outcome_of_run (FileCall.code_filesHeld hheld (hpermitted step (by simp)).fits) runs

/-- Every step of a run of permitted calls respects the permissions, and the descriptors stay
checked. -/
theorem AccessRun.checked (h : AccessRun env first steps last)
    (hfirst : OpenedChecked first.kernel) (hpermitted : ∀ step ∈ steps, step.Permitted) :
    (∀ step ∈ steps, step.Respects) ∧ OpenedChecked last.kernel := by
  induction h with
  | start => exact ⟨List.forall_mem_nil _, hfirst⟩
  | other run same ih =>
    obtain ⟨hrespects, hchecked⟩ := ih hpermitted
    exact ⟨hrespects, hchecked.other same⟩
  | @call steps step run runs ih =>
    obtain ⟨hrespects, hchecked⟩ := ih fun other hother =>
      hpermitted other (List.mem_append_left _ hother)
    have hstep := (hpermitted step (by simp)).respects runs hchecked
    refine ⟨fun other hother => ?_, hstep.2⟩
    rcases List.mem_append.mp hother with hother | hother
    · exact hrespects other hother
    · rw [List.mem_singleton.mp hother]
      exact hstep.1

/-- User 1 on a kernel with the form "a" of root in this mode. -/
def otherUserSystem (mode : UInt16) : System where
  kernel := { oneFormKernel { Memory.boot with uCur := 1 } [] with
    forms := oneForm.setSlot 0 { oneForm.slot 0 with mode := mode } }
  dev := (Machine.boot blankDisk).dev

theorem otherUserSystem_fresh (mode : UInt16) : (otherUserSystem mode).kernel.Fresh where
  user := Nat.one_ne_zero
  vfsFds _ := rfl
  held := by
    have hslot : (otherUserSystem mode).kernel.forms.slot 0 =
        ⟨CString.ofBytes [97], 1, 1, 2, 0, mode⟩ := rfl
    have hbuffer : HasBuffer (otherUserSystem mode).kernel.forms 0 2 :=
      ⟨Nat.one_ne_zero, ⟨[98, 0], rfl, rfl⟩, Nat.two_pos, Nat.le_refl 2, Nat.le_succ 2⟩
    have hone : ∀ i < (otherUserSystem mode).kernel.store.formCount, i = 0 := by
      intro i hi
      have hi' : i < 1 := hi
      omega
    refine ⟨?_, fun i hi => ?_⟩
    · refine ⟨fun i hi => ?_, fun i hi j hj _ => ?_⟩
      · rw [hone i hi]
        exact hbuffer.allocated
      · exact (hone i hi).trans (hone j hj).symm
    · rw [hone i hi]
      exact ⟨2, hbuffer, Nat.le_succ 1⟩
  size_lt i hi := by
    have hi' : i < 1 := hi
    obtain rfl : i = 0 := by omega
    exact Nat.one_lt_two_pow (by decide)

end Runs

end HexaOS.Kernel
