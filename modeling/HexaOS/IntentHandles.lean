import HexaOS.KernelIntentRuns

/-!
# Handles over long runs

Runs of intent_create, intent_fulfill, intent_close and intent_compat_open of any length. The
counter next_handle has 32 bits and entries may stay, so that a handle is given a second time
when the counter comes round to an entry that is still active, and a handle from 2^31 on is a
negative descriptor.
-/

namespace HexaOS.Kernel

open DevicePrograms PackedBytes Hexafs

/-- The calls of intent.c that create, use and close intents. -/
inductive HandleCall where
  /-- intent_create, `none` for a null intent, with the question whether `handle` is not null -/
  | create (pid : UInt32) (intent : Option HexaosIntent) (handlePointer : Bool)
  | fulfill (handle : UInt32) (buffer : Buffer) (len : Int32)
  | close (handle : UInt32)
  /-- intent_compat_open, for the task with a pid -/
  | compatOpen (pid : UInt32) (path : CString) (flags : UInt32)

/-- The code of a call and what it returns. -/
def HandleCall.code : HandleCall → KernelM Int32
  | create pid intent handlePointer => do
    match intent with
    | none => pure (-1)
    | some intent =>
      if handlePointer then
        match ← intentCreate pid intent with
        | none => pure (-1)
        | some _ => pure 0
      else pure (-1)
  | fulfill handle buffer len => do
    let done ← intentFulfill handle buffer len
    pure done.ret
  | close handle => intentClose handle
  | compatOpen pid path flags => do
    match ← intentCompatOpen pid path flags with
    | none => pure (-1)
    | some handle => pure handle.toInt32

/-- The form that intent_compat_open opens: the one that it finds, or has made. -/
def intentForm (path : CString) (flags : UInt32) : KernelM (Option ℕ) := do
  let kernel ← Code.memory
  match findForm kernel path with
  | some idx => pure (some idx)
  | none =>
    if flags &&& 4 = 0 then pure none
    else
      let _ ← cmdMkform path
      let kernel ← Code.memory
      pure (findForm kernel path)

/-- intent_compat_open creates an intent for the form that it opens. -/
theorem intentCompatOpen_eq (pid : UInt32) (path : CString) (flags : UInt32) :
    intentCompatOpen pid path flags = (do
      match ← intentForm path flags with
      | none => pure none
      | some idx => intentCreate pid (openedIntent idx flags)) := by
  rw [intentCompatOpen, intentForm, bind_assoc]
  congr 1
  funext kernel
  cases findForm kernel path with
  | some idx => rw [pure_bind]
  | none =>
    dsimp only
    by_cases hcreate : flags &&& 4 = 0
    · rw [if_pos hcreate, if_pos hcreate, pure_bind]
    · rw [if_neg hcreate, if_neg hcreate, bind_assoc]
      rfl

/-- A call that returned. -/
structure HandleStep where
  /-- The call. -/
  call : HandleCall
  /-- The system before it. -/
  before : System
  /-- What it returns. -/
  result : Int32
  /-- The system behind it. -/
  after : System

/-- hexafs_cap_check lets a task create an intent: those that store need the capability. -/
def Permits (env : Environment) (system : System) (pid : UInt32) (intent : HexaosIntent) : Prop :=
  intent.intentType = intentProduce ∨ intent.intentType = intentTransform →
    pid = 0 ∨ CapHolds env system pid

/-- Distinct active entries have distinct handles. -/
def KernelMemory.HandlesDistinct (kernel : KernelMemory) : Prop :=
  ∀ i < maxIntents, ∀ j < maxIntents, (kernel.intentTable i).active = true →
    (kernel.intentTable j).active = true →
      (kernel.intentTable i).handle = (kernel.intentTable j).handle → i = j

namespace HandleStep

/-- The step is a run of its call. -/
def Runs (env : Environment) (step : HandleStep) : Prop :=
  step.before.run env step.call.code = .ok (step.result, step.after)

/-- An inactive entry became active. -/
def Creates (step : HandleStep) : Prop :=
  ∃ i < maxIntents, (step.before.kernel.intentTable i).active = false ∧
    (step.after.kernel.intentTable i).active = true

/-- intent_compat_open returns a negative value exactly if it created no intent. -/
def TellsFailure (step : HandleStep) : Prop :=
  ∀ pid path flags, step.call = .compatOpen pid path flags → (step.result < 0 ↔ ¬step.Creates)

/-- The call passes its checks: the pointers are not null, the form is there or is made, the
capability is held, and the table has an inactive entry. -/
def Passes (env : Environment) (step : HandleStep) : Prop :=
  (freeIntent step.before.kernel.intentTable).isSome ∧
    match step.call with
    | .create pid intent handlePointer =>
      handlePointer = true ∧ ∃ record, intent = some record ∧ Permits env step.before pid record
    | .compatOpen pid path flags =>
      ∃ idx found, step.before.run env (intentForm path flags) = .ok (some idx, found) ∧
        Permits env found pid (openedIntent idx flags)
    | .fulfill .. | .close _ => False

/-- Where the call passes its checks, next_handle is the handle of no active entry, and below
2^31 if the call returns it as a descriptor. -/
def Fresh (env : Environment) (step : HandleStep) : Prop :=
  step.Passes env →
    (∀ i < maxIntents, (step.before.kernel.intentTable i).active = true →
      (step.before.kernel.intentTable i).handle ≠ step.before.kernel.nextHandle) ∧
    ∀ pid path flags, step.call = .compatOpen pid path flags →
      step.before.kernel.nextHandle < 0x80000000

end HandleStep

/-- Calls that follow each other. Between two calls anything may happen that leaves the intents
alone. -/
inductive HandleRun (env : Environment) (first : System) : List HandleStep → System → Prop where
  | start : HandleRun env first [] first
  | other {steps : List HandleStep} {last other : System} (run : HandleRun env first steps last)
      (same : SameIntents last.kernel other.kernel) : HandleRun env first steps other
  | call {steps : List HandleStep} {step : HandleStep}
      (run : HandleRun env first steps step.before) (runs : step.Runs env) :
      HandleRun env first (steps ++ [step]) step.after

section Creation

/-- The entry of a new intent. -/
theorem registered_intentTable_self (kernel : KernelMemory) (i : ℕ) (pid : UInt32)
    (intent : HexaosIntent) : (kernel.registered i pid intent).intentTable i =
      ⟨true, pid, intent, kernel.nextHandle, 0, 0⟩ := Function.update_self ..

/-- The other entries stay. -/
theorem registered_intentTable_of_ne (kernel : KernelMemory) {i j : ℕ} (h : j ≠ i) (pid : UInt32)
    (intent : HexaosIntent) :
    (kernel.registered i pid intent).intentTable j = kernel.intentTable j :=
  Function.update_of_ne h _ _

variable {env : Environment} {system after : System} {pid : UInt32}

/-- The two ways in which intent_create ends, and when each of them is taken. -/
theorem intentCreate_cases {intent : HexaosIntent} {created : Option UInt32}
    (hrun : system.run env (intentCreate pid intent) = .ok (created, after)) :
    (created = none ∧ after.kernel = system.kernel ∧
        ¬(Permits env system pid intent ∧ (freeIntent system.kernel.intentTable).isSome)) ∨
      ∃ i, freeIntent system.kernel.intentTable = some i ∧ Permits env system pid intent ∧
        created = some system.kernel.nextHandle ∧
          after.kernel = system.kernel.registered i pid intent := by
  have hregister : ∀ {checked : System}, checked.kernel = system.kernel →
      Permits env system pid intent →
      checked.run env (registerIntent pid intent) = .ok (created, after) →
      (created = none ∧ after.kernel = system.kernel ∧
        ¬(Permits env system pid intent ∧ (freeIntent system.kernel.intentTable).isSome)) ∨
      ∃ i, freeIntent system.kernel.intentTable = some i ∧ Permits env system pid intent ∧
        created = some system.kernel.nextHandle ∧
          after.kernel = system.kernel.registered i pid intent := by
    intro checked hkept hpermits hrun
    rw [← hkept]
    rw [registerIntent, System.run_memory] at hrun
    cases hfree : freeIntent checked.kernel.intentTable with
    | none =>
      rw [hfree] at hrun
      obtain ⟨rfl, rfl⟩ := Prod.mk.inj (Except.ok.inj hrun)
      exact .inl ⟨rfl, rfl, fun hboth => Bool.false_ne_true hboth.2⟩
    | some i =>
      rw [hfree] at hrun
      obtain ⟨rfl, rfl⟩ := Prod.mk.inj (Except.ok.inj hrun)
      exact .inr ⟨i, rfl, hpermits, rfl, rfl⟩
  rw [intentCreate] at hrun
  split at hrun
  · rename_i hstores
    obtain ⟨ok, checked, hcheck, hrest⟩ := System.run_bind_elim hrun
    have hkept : checked.kernel = system.kernel :=
      System.run_ensures (capCheck_keeps pid capTypeIntent system.kernel) hcheck
    split at hrest
    · rename_i hdenied
      obtain ⟨rfl, rfl⟩ := Prod.mk.inj (Except.ok.inj hrest)
      refine .inl ⟨rfl, hkept, fun hpasses => ?_⟩
      rcases hpasses.1 hstores with hzero | ⟨other, hholds⟩
      · exact hdenied.2 hzero
      · rw [hcheck, hdenied.1] at hholds
        cases hholds
    · rename_i hallowed
      refine hregister hkept (fun _ => ?_) hrest
      cases ok with
      | true => exact .inr ⟨checked, hcheck⟩
      | false => exact .inl (by_contra fun hne => hallowed ⟨rfl, hne⟩)
  · rename_i hreads
    exact hregister rfl (fun hstores => absurd hstores hreads) hrun

end Creation

namespace HandleStep

variable {env : Environment} {step : HandleStep}

/-- What a call does to the intents when it passes its checks, and when it does not. -/
structure Effect (env : Environment) (step : HandleStep) : Prop where
  /-- A call that passes its checks registers one intent. -/
  passes : step.Passes env → ∃ i pid intent, freeIntent step.before.kernel.intentTable = some i ∧
    SameTable (step.before.kernel.registered i pid intent) step.after.kernel
  /-- SYS_OPEN then returns the handle. -/
  result : step.Passes env → ∀ pid path flags, step.call = .compatOpen pid path flags →
    step.result = step.before.kernel.nextHandle.toInt32
  /-- An entry stays as it is, or is closed. -/
  fails : ¬step.Passes env → step.after.kernel.nextHandle = step.before.kernel.nextHandle ∧
    ∀ i, (step.after.kernel.intentTable i).identity = (step.before.kernel.intentTable i).identity ∨
      (step.after.kernel.intentTable i).active = false
  /-- A SYS_OPEN that is refused returns an error. -/
  refused : ¬step.Passes env → ∀ pid path flags, step.call = .compatOpen pid path flags →
    step.result = -1

/-- A call that leaves the handles. -/
theorem Effect.idle (hpasses : ¬step.Passes env)
    (hsame : SameTable step.before.kernel step.after.kernel)
    (hresult : ∀ pid path flags, step.call = .compatOpen pid path flags → step.result = -1) :
    step.Effect env where
  passes hpass := absurd hpass hpasses
  result hpass := absurd hpass hpasses
  fails _ := ⟨hsame.2, fun i => .inl (hsame.1 i)⟩
  refused _ := hresult

/-- A call that registers an intent. -/
theorem Effect.registered (hpasses : step.Passes env) {i : ℕ} (pid : UInt32)
    (intent : HexaosIntent) (hfree : freeIntent step.before.kernel.intentTable = some i)
    (hsame : SameTable (step.before.kernel.registered i pid intent) step.after.kernel)
    (hresult : ∀ pid path flags, step.call = .compatOpen pid path flags →
      step.result = step.before.kernel.nextHandle.toInt32) : step.Effect env where
  passes _ := ⟨i, pid, intent, hfree, hsame⟩
  result _ := hresult
  fails hfails := absurd hpasses hfails
  refused hfails := absurd hpasses hfails

variable {before after : System} {result : Int32}

theorem effect_create {pid : UInt32} {intent : Option HexaosIntent} {handlePointer : Bool}
    (h : Runs env ⟨.create pid intent handlePointer, before, result, after⟩) :
    Effect env ⟨.create pid intent handlePointer, before, result, after⟩ := by
  have hrun : before.run env (HandleCall.create pid intent handlePointer).code =
      .ok (result, after) := h
  rw [HandleCall.code.eq_def] at hrun
  cases intent with
  | none =>
    obtain ⟨rfl, rfl⟩ := Prod.mk.inj (Except.ok.inj hrun)
    refine .idle (fun hpass => ?_) (.refl _) fun _ _ _ hcall => by cases hcall
    obtain ⟨_, _, record, hsome, _⟩ := hpass
    cases hsome
  | some record =>
    dsimp only at hrun
    by_cases hpointer : handlePointer = true
    · rw [if_pos hpointer] at hrun
      obtain ⟨created, middle, hcreate, hend⟩ := System.run_bind_elim hrun
      have hafter : middle = after := by
        cases created with
        | none => exact congrArg Prod.snd (Except.ok.inj hend)
        | some handle => exact congrArg Prod.snd (Except.ok.inj hend)
      subst hafter
      rcases intentCreate_cases hcreate with ⟨_, hsame, hfails⟩ | ⟨i, hfree, hpermits, _, hregistered⟩
      · refine .idle (fun hpass => ?_) ⟨fun i => by rw [hsame], by rw [hsame]⟩
          fun _ _ _ hcall => by cases hcall
        obtain ⟨hroom, _, other, hsome, hpermits⟩ := hpass
        obtain rfl := Option.some.inj hsome
        exact hfails ⟨hpermits, hroom⟩
      · refine .registered ⟨?_, hpointer, record, rfl, hpermits⟩ pid record hfree ?_
          fun _ _ _ hcall => by cases hcall
        · rw [hfree]
          rfl
        · rw [hregistered]
          exact .refl _
    · rw [if_neg hpointer] at hrun
      obtain ⟨rfl, rfl⟩ := Prod.mk.inj (Except.ok.inj hrun)
      refine .idle (fun hpass => hpointer hpass.2.1) (.refl _) fun _ _ _ hcall => by cases hcall

theorem effect_close {handle : UInt32}
    (h : Runs env ⟨.close handle, before, result, after⟩) :
    Effect env ⟨.close handle, before, result, after⟩ := by
  have hrun : before.run env (intentClose handle) = .ok (result, after) := h
  have hfails : ¬Passes env ⟨.close handle, before, result, after⟩ := fun hpass => hpass.2
  rw [intentClose, System.run_memory] at hrun
  cases hfound : findIntent before.kernel.intentTable handle with
  | none =>
    rw [hfound] at hrun
    obtain ⟨rfl, rfl⟩ := Prod.mk.inj (Except.ok.inj hrun)
    exact .idle hfails (.refl _) fun _ _ _ hcall => by cases hcall
  | some i =>
    rw [hfound] at hrun
    obtain ⟨rfl, rfl⟩ := Prod.mk.inj (Except.ok.inj hrun)
    refine ⟨fun hpass => absurd hpass hfails, fun hpass => absurd hpass hfails,
      fun _ => ⟨rfl, fun j => ?_⟩, fun _ _ _ _ hcall => by cases hcall⟩
    by_cases hj : j = i
    · refine .inr ?_
      show (Function.update before.kernel.intentTable i _ j).active = false
      rw [hj, Function.update_self]
    · refine .inl ?_
      show (Function.update before.kernel.intentTable i _ j).identity = _
      rw [Function.update_of_ne hj]

/-- The form that is opened leaves the intents. -/
theorem intentForm_sameIntents (kernel : KernelMemory) (path : CString) (flags : UInt32) :
    (intentForm path flags).Ensures kernel fun _ kernel' => SameIntents kernel kernel' := by
  rw [intentForm, Code.ensures_bind, Code.ensures_memory]
  cases findForm kernel path with
  | some idx => exact ⟨rfl, rfl⟩
  | none =>
    dsimp only
    split
    · exact ⟨rfl, rfl⟩
    · rw [Code.ensures_bind]
      exact (cmdMkform_ensures kernel path).mono fun _ middle hmade => hmade.2

theorem effect_compatOpen {pid : UInt32} {path : CString} {flags : UInt32}
    (h : Runs env ⟨.compatOpen pid path flags, before, result, after⟩) :
    Effect env ⟨.compatOpen pid path flags, before, result, after⟩ := by
  have hrun : before.run env (HandleCall.compatOpen pid path flags).code =
      .ok (result, after) := h
  rw [HandleCall.code.eq_def] at hrun
  dsimp only at hrun
  obtain ⟨created, middle, hopen, hend⟩ := System.run_bind_elim hrun
  rw [intentCompatOpen_eq] at hopen
  obtain ⟨form, found, hform, hcreate⟩ := System.run_bind_elim hopen
  have hsame := System.run_ensures (intentForm_sameIntents before.kernel path flags) hform
  cases form with
  | none =>
    obtain ⟨rfl, rfl⟩ := Prod.mk.inj (Except.ok.inj hcreate)
    obtain ⟨rfl, rfl⟩ := Prod.mk.inj (Except.ok.inj hend)
    refine .idle (fun hpass => ?_) hsame.sameTable fun _ _ _ _ => rfl
    obtain ⟨_, idx, other, hother, _⟩ := hpass
    have hpair := Except.ok.inj (hform.symm.trans hother)
    exact absurd (congrArg Prod.fst hpair) (by simp)
  | some idx =>
    dsimp only at hcreate
    rcases intentCreate_cases hcreate with ⟨rfl, hkept, hfails⟩ |
      ⟨i, hfree, hpermits, rfl, hregistered⟩
    · obtain ⟨rfl, rfl⟩ := Prod.mk.inj (Except.ok.inj hend)
      refine .idle (fun hpass => ?_) ?_ fun _ _ _ _ => rfl
      · obtain ⟨hroom, idx', other, hother, hpermits⟩ := hpass
        have hpair := Except.ok.inj (hform.symm.trans hother)
        obtain ⟨hidx, rfl⟩ := Prod.mk.inj hpair
        obtain rfl := Option.some.inj hidx
        refine hfails ⟨hpermits, ?_⟩
        rw [hsame.1]
        exact hroom
      · rw [hkept]
        exact hsame.sameTable
    · obtain ⟨rfl, rfl⟩ := Prod.mk.inj (Except.ok.inj hend)
      rw [hsame.1] at hfree
      refine .registered ⟨?_, idx, found, hform, hpermits⟩ pid (openedIntent idx flags) hfree ?_
        fun _ _ _ _ => by rw [hsame.2]
      · show (freeIntent before.kernel.intentTable).isSome = true
        rw [hfree]
        rfl
      · rw [hregistered]
        refine ⟨fun j => ?_, ?_⟩
        · rw [KernelMemory.registered, KernelMemory.registered, hsame.1, hsame.2]
        · rw [KernelMemory.registered, KernelMemory.registered, hsame.2]

/-- The inversion of a step: each call does what its effect says. -/
theorem Runs.effect (h : step.Runs env) : step.Effect env := by
  obtain ⟨call, before, result, after⟩ := step
  cases call with
  | create pid intent handlePointer => exact effect_create h
  | fulfill handle buffer len =>
    have hrun : before.run env (HandleCall.fulfill handle buffer len).code =
        .ok (result, after) := h
    obtain ⟨done, middle, hfulfill, hend⟩ := System.run_bind_elim hrun
    obtain rfl : middle = after := congrArg Prod.snd (Except.ok.inj hend)
    have hdone := System.run_ensures (intentFulfill_ensures before.kernel handle buffer len) hfulfill
    exact .idle (fun hpass => hpass.2) hdone.sameTable fun _ _ _ hcall => by cases hcall
  | close handle => exact effect_close h
  | compatOpen pid path flags => exact effect_compatOpen h

end HandleStep

section Distinct

variable {env : Environment} {kernel kernel' : KernelMemory} {step : HandleStep}

/-- A word is negative as a signed number from 2^31 on. -/
theorem toInt32_lt_zero_iff (word : UInt32) : word.toInt32 < 0 ↔ ¬word < 0x80000000 := by
  have hlt := word.toNat_lt
  rw [Int32.lt_iff_toInt_lt, UInt32.lt_iff_toNat_lt]
  show word.toBitVec.toInt < 0 ↔ ¬word.toNat < 2147483648
  rw [BitVec.toInt_eq_toNat_bmod, UInt32.toNat_toBitVec, Int.bmod_def]
  omega

/-- The same entries have the same handles. -/
theorem SameTable.handlesDistinct (h : SameTable kernel kernel') :
    kernel'.HandlesDistinct ↔ kernel.HandlesDistinct := by
  have hactive := fun i => IntentEntry.active_of_identity (h.1 i)
  have hhandle := fun i => IntentEntry.handle_of_identity (h.1 i)
  simp only [KernelMemory.HandlesDistinct, hactive, hhandle]

/-- A new handle keeps them distinct unless an active entry has it. -/
theorem handlesDistinct_registered_iff (h : kernel.HandlesDistinct) {i : ℕ}
    (hfree : freeIntent kernel.intentTable = some i) (pid : UInt32) (intent : HexaosIntent) :
    (kernel.registered i pid intent).HandlesDistinct ↔ ∀ j < maxIntents,
      (kernel.intentTable j).active = true →
        (kernel.intentTable j).handle ≠ kernel.nextHandle := by
  obtain ⟨hinactive, hmem, _⟩ := List.find?_range_eq_some.mp hfree
  have hlt := List.mem_range.mp hmem
  have hself := registered_intentTable_self kernel i pid intent
  have hother : ∀ j ≠ i, (kernel.registered i pid intent).intentTable j = kernel.intentTable j :=
    fun j hj => registered_intentTable_of_ne kernel hj pid intent
  have hne : ∀ j, (kernel.intentTable j).active = true → j ≠ i := by
    intro j hactive heq
    rw [heq] at hactive
    rw [hactive] at hinactive
    cases hinactive
  constructor
  · intro hdistinct j hj hactive hequal
    have hji := hne j hactive
    refine hji (hdistinct j hj i hlt ?_ ?_ ?_)
    · rw [hother j hji]
      exact hactive
    · rw [hself]
    · rw [hother j hji, hself]
      exact hequal
  · intro hfresh j hj k hk hactive hactive' hequal
    by_cases hji : j = i
    · by_cases hki : k = i
      · rw [hji, hki]
      · rw [hother k hki] at hactive' hequal
        rw [hji, hself] at hequal
        exact absurd hequal.symm (hfresh k hk hactive')
    · rw [hother j hji] at hactive hequal
      by_cases hki : k = i
      · rw [hki, hself] at hequal
        exact absurd hequal (hfresh j hj hactive)
      · rw [hother k hki] at hactive' hequal
        exact h j hj k hk hactive hactive' hequal

/-- One step keeps the handles distinct and tells its failure exactly if it is fresh. -/
theorem HandleStep.Effect.fresh_iff (h : step.Effect env)
    (hdistinct : step.before.kernel.HandlesDistinct) :
    step.after.kernel.HandlesDistinct ∧ step.TellsFailure ↔ step.Fresh env := by
  by_cases hpasses : step.Passes env
  · obtain ⟨i, pid, intent, hfree, hsame⟩ := h.passes hpasses
    obtain ⟨hinactive, hmem, _⟩ := List.find?_range_eq_some.mp hfree
    have hcreates : step.Creates := by
      refine ⟨i, List.mem_range.mp hmem, by simpa using hinactive, ?_⟩
      rw [IntentEntry.active_of_identity (hsame.1 i), registered_intentTable_self]
    have htells : step.TellsFailure ↔ ∀ pid path flags, step.call = .compatOpen pid path flags →
        step.before.kernel.nextHandle < 0x80000000 := by
      refine forall_congr' fun pid => forall_congr' fun path => forall_congr' fun flags =>
        forall_congr' fun hcall => ?_
      rw [h.result hpasses pid path flags hcall, toInt32_lt_zero_iff]
      exact ⟨fun hiff => not_not.mp fun hlarge => hiff.mp hlarge hcreates,
        fun hsmall => iff_of_false (not_not_intro hsmall) (not_not_intro hcreates)⟩
    rw [hsame.handlesDistinct, handlesDistinct_registered_iff hdistinct hfree, htells, Fresh]
    exact ⟨fun hboth _ => hboth, fun hfresh => hfresh hpasses⟩
  · obtain ⟨_, hentries⟩ := h.fails hpasses
    have hactive : ∀ i, (step.after.kernel.intentTable i).active = true →
        (step.after.kernel.intentTable i).identity =
          (step.before.kernel.intentTable i).identity := by
      intro i hactive
      rcases hentries i with hsame | hclosed
      · exact hsame
      · rw [hactive] at hclosed
        cases hclosed
    have hcreates : ¬step.Creates := by
      rintro ⟨i, _, hinactive, hbecame⟩
      rw [IntentEntry.active_of_identity (hactive i hbecame), hinactive] at hbecame
      cases hbecame
    refine iff_of_true ⟨fun i hi j hj hi' hj' hequal => ?_, fun pid path flags hcall => ?_⟩
      fun hpass => absurd hpass hpasses
    · have hsame := hactive i hi'
      have hsame' := hactive j hj'
      rw [IntentEntry.handle_of_identity hsame, IntentEntry.handle_of_identity hsame'] at hequal
      rw [IntentEntry.active_of_identity hsame] at hi'
      rw [IntentEntry.active_of_identity hsame'] at hj'
      exact hdistinct i hi j hj hi' hj' hequal
    · rw [h.refused hpasses pid path flags hcall]
      exact iff_of_true (by decide) hcreates

end Distinct

section Cycles

variable {env : Environment} {first system : System} {steps : List HandleStep}

/-- An intent to consume the first form. -/
def consumingIntent : HexaosIntent := ⟨intentConsume, 0, 0, 0, intentStream⟩

/-- A kernel whose statics are the same, but for the counter and what an entry keeps when it
is not active. -/
structure SameBut (i : ℕ) (kernel kernel' : KernelMemory) : Prop where
  /-- The tables of the shell stay. -/
  store : kernel'.store = kernel.store
  /-- The forms stay. -/
  forms : kernel'.forms = kernel.forms
  /-- The other entries stay. -/
  others : ∀ j ≠ i, kernel'.intentTable j = kernel.intentTable j
  /-- The entry is active as before. -/
  active : (kernel'.intentTable i).active = (kernel.intentTable i).active

theorem SameBut.freeIntent {i : ℕ} {kernel kernel' : KernelMemory} (h : SameBut i kernel kernel') :
    freeIntent kernel'.intentTable = freeIntent kernel.intentTable := by
  have hactive : ∀ j, (kernel'.intentTable j).active = (kernel.intentTable j).active := by
    intro j
    by_cases hj : j = i
    · rw [hj, h.active]
    · rw [h.others j hj]
  simp only [Kernel.freeIntent, hactive]

/-- intent_create with an inactive entry. -/
theorem HandleRun.registers (h : HandleRun env first steps system) {i : ℕ} (pid : UInt32)
    (hfree : freeIntent system.kernel.intentTable = some i) :
    HandleRun env first (steps ++ [⟨.create pid (some consumingIntent) true, system, 0,
        ⟨system.kernel.registered i pid consumingIntent, system.dev⟩⟩])
      ⟨system.kernel.registered i pid consumingIntent, system.dev⟩ := by
  let created : HandleStep := ⟨.create pid (some consumingIntent) true, system, 0,
    ⟨system.kernel.registered i pid consumingIntent, system.dev⟩⟩
  have hcreate : created.Runs env := by
    show system.run env (HandleCall.create pid (some consumingIntent) true).code = _
    rw [HandleCall.code.eq_def]
    dsimp only
    rw [if_pos rfl, System.run_bind]
    have hregister : system.run env (intentCreate pid consumingIntent) =
        .ok (some system.kernel.nextHandle,
          ⟨system.kernel.registered i pid consumingIntent, system.dev⟩) := by
      rw [intentCreate, if_neg (by decide), registerIntent, System.run_memory, hfree]
      rfl
    rw [hregister]
    rfl
  exact .call h hcreate

/-- Creating an intent and closing it again takes a handle and nothing else. -/
theorem HandleRun.cycle (h : HandleRun env first steps system) {i : ℕ} (pid : UInt32)
    (hfree : freeIntent system.kernel.intentTable = some i)
    (hfresh : ∀ j < maxIntents, (system.kernel.intentTable j).active = true →
      (system.kernel.intentTable j).handle ≠ system.kernel.nextHandle) :
    ∃ steps' last, HandleRun env first steps' last ∧ SameBut i system.kernel last.kernel ∧
      last.kernel.nextHandle = system.kernel.nextHandle + 1 := by
  obtain ⟨hinactive, hmem, hbefore⟩ := List.find?_range_eq_some.mp hfree
  have hself := registered_intentTable_self system.kernel i pid consumingIntent
  have hother : ∀ j ≠ i, (system.kernel.registered i pid consumingIntent).intentTable j =
      system.kernel.intentTable j :=
    fun j hj => registered_intentTable_of_ne system.kernel hj pid consumingIntent
  have hfound : findIntent (system.kernel.registered i pid consumingIntent).intentTable
      system.kernel.nextHandle = some i := by
    refine List.find?_range_eq_some.mpr ⟨?_, hmem, fun j hj => ?_⟩
    · rw [hself]
      simp
    · have hlt := List.mem_range.mp hmem
      rw [hother j (by omega)]
      cases hactive : (system.kernel.intentTable j).active with
      | false => rfl
      | true => simpa using hfresh j (by omega) hactive
  have hcreate := h.registers pid hfree
  obtain ⟨last, hclose, hlast⟩ : ∃ last, System.run env
      (HandleCall.close system.kernel.nextHandle).code
      ⟨system.kernel.registered i pid consumingIntent, system.dev⟩ = .ok (0, last) ∧
      last.kernel = { system.kernel.registered i pid consumingIntent with
        intentTable := Function.update
          (system.kernel.registered i pid consumingIntent).intentTable i
            { (system.kernel.registered i pid consumingIntent).intentTable i with
              active := false } } := by
    refine ⟨⟨_, system.dev⟩, ?_, rfl⟩
    show System.run env (intentClose system.kernel.nextHandle) _ = _
    rw [intentClose, System.run_memory, hfound]
    rfl
  let closed : HandleStep := ⟨.close system.kernel.nextHandle,
    ⟨system.kernel.registered i pid consumingIntent, system.dev⟩, 0, last⟩
  have hclosed : closed.Runs env := hclose
  refine ⟨_, last, .call hcreate hclosed, ⟨?_, ?_, fun j hj => ?_, ?_⟩, ?_⟩
  · rw [hlast]
    rfl
  · rw [hlast]
    rfl
  · rw [hlast]
    dsimp only
    rw [Function.update_of_ne hj, hother j hj]
  · rw [hlast]
    dsimp only
    rw [Function.update_self]
    simpa using hinactive.symm
  · rw [hlast]
    rfl

/-- So do many of them, as long as the counter comes to no active handle. -/
theorem HandleRun.cycles (h : HandleRun env first steps system) {i : ℕ} (pid : UInt32)
    (hfree : freeIntent system.kernel.intentTable = some i) (count : ℕ)
    (hfresh : ∀ k < count, ∀ j < maxIntents, (system.kernel.intentTable j).active = true →
      (system.kernel.intentTable j).handle ≠ system.kernel.nextHandle + UInt32.ofNat k) :
    ∃ steps' last, HandleRun env first steps' last ∧ SameBut i system.kernel last.kernel ∧
      last.kernel.nextHandle = system.kernel.nextHandle + UInt32.ofNat count := by
  obtain ⟨hinactive, _⟩ := List.find?_range_eq_some.mp hfree
  induction count with
  | zero => exact ⟨steps, system, h, ⟨rfl, rfl, fun _ _ => rfl, rfl⟩, by simp⟩
  | succ count ih =>
    obtain ⟨steps', middle, hrun, hsame, hnext⟩ := ih fun k hk => hfresh k (by omega)
    obtain ⟨steps'', last, hlast, hsame', hnext'⟩ := hrun.cycle pid
      (hsame.freeIntent.trans hfree) fun j hj hactive => by
        have hne : j ≠ i := by
          intro heq
          rw [heq, hsame.active] at hactive
          rw [hactive] at hinactive
          cases hinactive
        rw [hsame.others j hne] at hactive ⊢
        rw [hnext]
        exact hfresh count (Nat.lt_succ_self _) j hj hactive
    refine ⟨steps'', last, hlast, ⟨hsame'.store.trans hsame.store, hsame'.forms.trans hsame.forms,
      fun j hj => (hsame'.others j hj).trans (hsame.others j hj),
      hsame'.active.trans hsame.active⟩, ?_⟩
    rw [hnext', hnext, UInt32.ofNat_add, UInt32.add_assoc]
    rfl

/-- The form "a" and no intents. -/
def oneFormSystem : System := ⟨oneFormKernel Memory.boot [], (Machine.boot blankDisk).dev⟩

theorem oneFormSystem_intentInit : oneFormSystem.kernel.IntentInit := ⟨fun _ _ => rfl, rfl⟩

/-- Opening the form through the first entry, while it is free. -/
theorem HandleRun.opens (h : HandleRun .faultless oneFormSystem steps system)
    (hsame : SameBut 0 oneFormSystem.kernel system.kernel) :
    ∃ step : HandleStep, HandleRun .faultless oneFormSystem (steps ++ [step]) step.after ∧
      step.call = .compatOpen 1 (CString.ofBytes [97]) 0 ∧
      step.result = system.kernel.nextHandle.toInt32 ∧ step.Creates := by
  have hfind : findForm system.kernel (CString.ofBytes [97]) = some 0 := by
    rw [findForm, hsame.store, hsame.forms]
    rfl
  have hfree : freeIntent system.kernel.intentTable = some 0 := hsame.freeIntent.trans rfl
  let step : HandleStep := ⟨.compatOpen 1 (CString.ofBytes [97]) 0, system,
    system.kernel.nextHandle.toInt32,
    ⟨system.kernel.registered 0 1 (openedIntent 0 0), system.dev⟩⟩
  have hopen : system.run .faultless (intentCompatOpen 1 (CString.ofBytes [97]) 0) =
      .ok (some system.kernel.nextHandle,
        ⟨system.kernel.registered 0 1 (openedIntent 0 0), system.dev⟩) := by
    rw [intentCompatOpen, System.run_memory, hfind]
    dsimp only
    rw [intentCreate, if_neg (by decide), registerIntent, System.run_memory, hfree]
    rfl
  have hruns : step.Runs .faultless := by
    show system.run .faultless (HandleCall.compatOpen 1 (CString.ofBytes [97]) 0).code = _
    rw [HandleCall.code.eq_def]
    dsimp only
    rw [System.run_bind, hopen]
    rfl
  have hentry : step.after.kernel.intentTable 0 =
      ⟨true, 1, openedIntent 0 0, system.kernel.nextHandle, 0, 0⟩ :=
    registered_intentTable_self system.kernel 0 1 (openedIntent 0 0)
  exact ⟨step, .call h hruns, rfl, rfl, 0, by decide, hsame.active, by rw [hentry]⟩

end Cycles

section Runs

variable {env : Environment} {first last : System} {steps : List HandleStep}

/-- No entry is active after intent_init. -/
theorem KernelMemory.IntentInit.handlesDistinct {kernel : KernelMemory} (h : kernel.IntentInit) :
    kernel.HandlesDistinct := by
  intro i hi j hj hactive
  rw [h.intentTable i hi] at hactive
  cases hactive

/-- Along a run whose steps keep the handles distinct they are distinct at its end. -/
theorem HandleRun.handlesDistinct (h : HandleRun env first steps last)
    (hinit : first.kernel.IntentInit)
    (hsteps : ∀ step ∈ steps, step.after.kernel.HandlesDistinct) :
    last.kernel.HandlesDistinct := by
  induction h with
  | start => exact hinit.handlesDistinct
  | other run same ih => exact same.sameTable.handlesDistinct.mpr (ih hsteps)
  | call run runs ih => exact hsteps _ (List.mem_append_right _ (List.mem_singleton_self _))

/-- In every run from intent_init: the handles of active entries are distinct in every state,
and intent_compat_open returns a negative value exactly when it created no intent, exactly if
every call that passes its checks finds next_handle unused by active entries and, where it
returns it as a descriptor, below 2^31. -/
theorem handleRun_fresh_iff (h : HandleRun env first steps last)
    (hinit : first.kernel.IntentInit) :
    (∀ step ∈ steps, step.after.kernel.HandlesDistinct ∧ step.TellsFailure) ↔
      ∀ step ∈ steps, step.Fresh env := by
  induction h with
  | start => simp
  | other run same ih => exact ih
  | @call steps step run runs ih =>
    rw [List.forall_mem_append, List.forall_mem_append, List.forall_mem_singleton,
      List.forall_mem_singleton, ← ih]
    refine and_congr_right fun hsteps => ?_
    have hbefore := run.handlesDistinct hinit fun step hstep => (hsteps step hstep).1
    exact runs.effect.fresh_iff hbefore

/-- The equivalence on a run that opens a form. -/
theorem handleRun_fresh_iff_open : ∃ step : HandleStep, ∃ last,
    HandleRun .faultless oneFormSystem [step] last ∧ step.Creates ∧
      ((∀ other ∈ [step], other.after.kernel.HandlesDistinct ∧ other.TellsFailure) ↔
        ∀ other ∈ [step], other.Fresh .faultless) := by
  have hstart : HandleRun .faultless oneFormSystem [] oneFormSystem := .start
  obtain ⟨step, hrun, _, _, hcreates⟩ := hstart.opens ⟨rfl, rfl, fun _ _ => rfl, rfl⟩
  exact ⟨step, _, hrun, hcreates, handleRun_fresh_iff hrun oneFormSystem_intentInit⟩

/-- After 2^31 - 1 handles intent_compat_open gives a negative descriptor for an intent that it
created, and after 2^32 - 1 further ones the handle of an intent that is still active is given
again. -/
theorem handleRun_wraps :
    (∃ steps last, HandleRun .faultless oneFormSystem steps last ∧
      ∃ step ∈ steps, ¬step.TellsFailure) ∧
    ∃ steps last, HandleRun .faultless oneFormSystem steps last ∧ ¬last.kernel.HandlesDistinct := by
  have hstart : HandleRun .faultless oneFormSystem [] oneFormSystem := .start
  constructor
  · obtain ⟨steps, middle, hrun, hsame, hnext⟩ := hstart.cycles (i := 0) 1 rfl (2 ^ 31 - 1)
      fun k hk j hj hactive => by cases hactive
    obtain ⟨step, hlast, hcall, hresult, hcreates⟩ := hrun.opens hsame
    refine ⟨_, _, hlast, step, by simp, fun htells => ?_⟩
    have hnot := (htells _ _ _ hcall).mp (by
      rw [hresult, hnext]
      decide)
    exact hnot hcreates
  · have hfirst := hstart.registers (i := 0) 1 rfl
    have hfresh : ∀ k < 2 ^ 32 - 1, ∀ j < maxIntents,
        ((oneFormSystem.kernel.registered 0 1 consumingIntent).intentTable j).active = true →
          ((oneFormSystem.kernel.registered 0 1 consumingIntent).intentTable j).handle ≠
            2 + UInt32.ofNat k := by
      intro k hk j _ hactive hequal
      by_cases hj : j = 0
      · rw [hj, registered_intentTable_self] at hequal
        have hone : (1 : UInt32) = 2 + UInt32.ofNat k := hequal
        have hnat := congrArg UInt32.toNat hone
        have htwo : (2 : UInt32).toNat = 2 := rfl
        have hone' : (1 : UInt32).toNat = 1 := rfl
        rw [UInt32.toNat_add, UInt32.toNat_ofNat', htwo, hone'] at hnat
        omega
      · rw [registered_intentTable_of_ne _ hj] at hactive
        cases hactive
    obtain ⟨steps, middle, hrun, hsame, hnext⟩ :=
      hfirst.cycles (i := 1) 1 rfl (2 ^ 32 - 1) hfresh
    have hlast := hrun.registers (i := 1) 1 (hsame.freeIntent.trans rfl)
    have hself := registered_intentTable_self middle.kernel 1 1 consumingIntent
    have hkept : (middle.kernel.registered 1 1 consumingIntent).intentTable 0 =
        ⟨true, 1, consumingIntent, 1, 0, 0⟩ := by
      rw [registered_intentTable_of_ne _ (by decide), hsame.others 0 (by decide)]
      exact registered_intentTable_self oneFormSystem.kernel 0 1 consumingIntent
    refine ⟨_, _, hlast, fun hdistinct => ?_⟩
    have hequal := hdistinct 0 (by decide) 1 (by decide) (by rw [hkept]) (by rw [hself])
      (by rw [hkept, hself, hnext]; decide)
    exact absurd hequal (by decide)

end Runs

end HexaOS.Kernel
