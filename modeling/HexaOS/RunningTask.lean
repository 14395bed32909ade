import HexaOS.ProcessCounts
import HexaOS.StepRuns
import HexaOS.TaskEvents

/-!
# The running task and the registers of the processor

The task that runs, the page directory that the processor uses and the stack that it would
load on an interrupt from user mode, over every order of calls from the boot on. The first is
always the current task and no other. The second follows the current task except where
proc_exit switches. The third never does, since schedule and proc_exit write the first dword
of `tss` and the processor reads the second.
-/

namespace HexaOS.Process

open HexaOS.StepRuns
open Hexafs (CString)

/-- The current task is the only running one, its page directory is in use, and its kernel stack
is the one that the processor would load. -/
structure InStep (procs : Processes) : Prop where
  /-- The current task alone is running. -/
  running : ∀ slot, (procs.tasks slot).state = .running ↔ slot = procs.currentTask
  /-- cr3 holds its directory. -/
  pageDir : procs.cr3 = procs.current.pageDir
  /-- The stack in the TSS is its own. -/
  kernelStack : procs.tss 1 = procs.current.kernelEsp

/-- A kernel stack is that of its slot. -/
def StackOwn (procs : Processes) (slot : Slot) (task : Task) : Prop :=
  task.kernelEsp = 0 ∨ task.kernelEsp = procs.stackOf slot + stackSize

/-- The second dword of `tss` is what proc_init wrote, and every kernel stack is that of its
slot, in a task table that does not run over the end of memory. -/
structure StackTops (procs : Processes) : Prop where
  /-- The stack of the TSS is 0x10. -/
  esp0 : procs.tss 1 = 0x10
  /-- Every task has the stack of its slot, or none. -/
  own : ∀ slot, StackOwn procs slot (procs.tasks slot)
  /-- The table does not wrap. -/
  fits : procs.tasksAddress.toNat + 16 * 8844 ≤ 2 ^ 32

/-- What a call leaves of `tss` and of the kernel stacks. -/
structure StacksKept (procs after : Processes) : Prop where
  /-- The stack in the TSS stays. -/
  esp0 : after.tss 1 = procs.tss 1
  /-- The table stays where it is. -/
  address : after.tasksAddress = procs.tasksAddress
  /-- A task keeps its stack or gets that of its slot. -/
  own : ∀ slot, (after.tasks slot).kernelEsp = (procs.tasks slot).kernelEsp ∨
    (after.tasks slot).kernelEsp = procs.stackOf slot + stackSize

section Stacks

variable {procs middle after : Processes} {slot : Slot}

/-- Nothing changes. -/
theorem StacksKept.refl (procs : Processes) : StacksKept procs procs :=
  ⟨rfl, rfl, fun _ => .inl rfl⟩

/-- One change after the other. -/
theorem StacksKept.trans (h : StacksKept procs middle) (h' : StacksKept middle after) :
    StacksKept procs after where
  esp0 := h'.esp0.trans h.esp0
  address := h'.address.trans h.address
  own slot := by
    rcases h'.own slot with hsame | hnew
    · rw [hsame]
      exact h.own slot
    · rw [hnew, Processes.stackOf, Processes.stackOf, h.address]
      exact .inr rfl

/-- A change of one task that keeps its kernel stack or gives it that of its slot. -/
theorem StacksKept.update {task : Task} (hesp0 : after.tss 1 = procs.tss 1)
    (haddress : after.tasksAddress = procs.tasksAddress)
    (htasks : after.tasks = Function.update procs.tasks slot task)
    (h : task.kernelEsp = (procs.tasks slot).kernelEsp ∨
      task.kernelEsp = procs.stackOf slot + stackSize) :
    StacksKept procs after := by
  refine ⟨hesp0, haddress, fun other => ?_⟩
  rw [htasks]
  by_cases hne : other = slot
  · rw [hne, Function.update_self]
    exact h
  · rw [Function.update_of_ne hne]
    exact .inl rfl

/-- proc_create gives a task the stack of its slot. -/
theorem procCreate_stacksKept (kernelPageDir entry : UInt32) (name : CString) (priority : ℤ)
    (procs : Processes) :
    StacksKept procs (procCreate kernelPageDir entry name priority procs).2 := by
  unfold procCreate allocPid
  split_ifs with hfull
  · exact StacksKept.refl procs
  · cases deadSlot procs with
    | none => exact StacksKept.refl procs
    | some slot =>
      have htaken : StacksKept procs (takeSlot slot procs) := .update rfl rfl rfl (.inl rfl)
      exact htaken.trans (.update rfl rfl rfl (.inr rfl))

/-- proc_create_user gives a task the stack of its slot. -/
theorem procCreateUser_stacksKept (userStack pageDir entry : UInt32) (name : CString)
    (procs : Processes) :
    StacksKept procs (procCreateUser userStack pageDir entry name procs).2 := by
  unfold procCreateUser allocPid
  by_cases hfull : procs.numTasks ≥ maxTasks
  · rw [if_pos hfull]
    exact StacksKept.refl procs
  · rw [if_neg hfull]
    cases deadSlot procs with
    | none => exact StacksKept.refl procs
    | some slot =>
      have htaken : StacksKept procs (takeSlot slot procs) := .update rfl rfl rfl (.inl rfl)
      dsimp only
      split_ifs with hstack
      · exact htaken.trans (.update rfl rfl rfl (.inl rfl))
      · exact htaken.trans (.update rfl rfl rfl (.inr rfl))

/-- proc_exit writes the first dword of `tss`. -/
theorem procExit_stacksKept (code : ℤ) (procs : Processes) :
    StacksKept procs (procExit code procs) := by
  have hended : StacksKept procs (exitTask code procs) := by
    rw [exitTask_eq]
    exact .update rfl rfl rfl (.inl rfl)
  unfold procExit
  cases exitNext (exitTask code procs) with
  | none => exact ⟨hended.esp0, hended.address, hended.own⟩
  | some next => exact hended.trans (.update rfl rfl rfl (.inl rfl))

/-- schedule writes the first dword of `tss`. -/
theorem schedule_stacksKept (regs : UInt32) (procs : Processes) :
    StacksKept procs (schedule regs procs).2 := by
  have hsaved : StacksKept procs (saveTask regs procs) := .update rfl rfl rfl (.inl rfl)
  unfold schedule
  by_cases hfew : procs.numTasks ≤ 1
  · rw [if_pos hfew]
    exact StacksKept.refl procs
  · rw [if_neg hfew]
    dsimp only
    split_ifs with hsame
    · exact hsaved
    · exact hsaved.trans (.update rfl rfl rfl (.inl rfl))

/-- No call writes the second dword of `tss`, and kernel stacks stay those of their slots. -/
theorem operation_stacksKept (op : Operation) (procs : Processes) :
    StacksKept procs (op.after procs) := by
  cases op with
  | create kernelPageDir entry name priority =>
    exact procCreate_stacksKept kernelPageDir entry name priority procs
  | createUser userStack pageDir entry name =>
    exact procCreateUser_stacksKept userStack pageDir entry name procs
  | exit code => exact procExit_stacksKept code procs
  | kill pid =>
    show StacksKept procs (procKill pid procs).2
    unfold procKill
    by_cases hpid : pid ≤ 0
    · rw [if_pos hpid]
      exact StacksKept.refl procs
    · rw [if_neg hpid]
      cases killTarget pid procs with
      | none => exact StacksKept.refl procs
      | some slot =>
        dsimp only
        split_ifs with hcurrent
        · exact procExit_stacksKept (-1) procs
        · exact .update rfl rfl rfl (.inl rfl)
  | wait =>
    show StacksKept procs (procWait procs).2.2
    unfold procWait
    cases waitTarget procs with
    | none => exact StacksKept.refl procs
    | some slot => exact .update rfl rfl rfl (.inl rfl)
  | reapZombies =>
    refine ⟨rfl, rfl, fun slot => .inl ?_⟩
    show ((procReapZombies procs).tasks slot).kernelEsp = _
    simp only [procReapZombies]
    split_ifs with hzombie
    · rfl
    · rfl
  | schedule regs => exact schedule_stacksKept regs procs

/-- The kernel stacks after a call. -/
theorem StackTops.kept (h : StackTops procs) (hkept : StacksKept procs after) :
    StackTops after where
  esp0 := hkept.esp0.trans h.esp0
  own slot := by
    rw [StackOwn, Processes.stackOf, hkept.address]
    rcases hkept.own slot with hsame | hnew
    · rw [hsame]
      exact h.own slot
    · exact .inr hnew
  fits := by
    rw [hkept.address]
    exact h.fits

/-- The second dword of `tss` is no kernel stack. -/
theorem StackTops.not_inStep (h : StackTops procs) : ¬InStep procs := by
  intro hstep
  have hstack := hstep.kernelStack
  have hfits := h.fits
  rw [h.esp0, Processes.current] at hstack
  rcases h.own procs.currentTask with hzero | htop
  · rw [hzero] at hstack
    exact absurd hstack (by decide)
  · have hslot : procs.currentTask.val < 16 := procs.currentTask.isLt
    rw [htop, Processes.stackOf, stackSize] at hstack
    have hnat := congrArg UInt32.toNat hstack
    simp only [UInt32.toNat_add, UInt32.toNat_mul, UInt32.toNat_ofNat'] at hnat
    simp at hnat
    have hlt : procs.tasksAddress.toNat + 8844 * procs.currentTask.val + 40 + 8192 <
        4294967296 := by omega
    rw [Nat.mod_eq_of_lt hlt] at hnat
    omega

/-- The kernel stacks after the boot, whose statics start as zero. -/
theorem bootTasks_stackTops (kernelPageDir userEntry shellEntry : UInt32)
    (hzero : ∀ slot, (procs.tasks slot).kernelEsp = 0)
    (hfits : procs.tasksAddress.toNat + 16 * 8844 ≤ 2 ^ 32) :
    StackTops (bootTasks kernelPageDir userEntry shellEntry procs) := by
  have hinit : StackTops (procInit procs) := ⟨rfl, fun slot => .inl (hzero slot), hfits⟩
  have hfirst := hinit.kept (procCreate_stacksKept kernelPageDir userEntry userTaskName 1 _)
  have hsecond := hfirst.kept (procCreate_stacksKept kernelPageDir shellEntry shellName 1 _)
  unfold bootTasks
  dsimp only
  split_ifs with hpid
  · exact hsecond.kept (.update rfl rfl rfl (.inl rfl))
  · exact hsecond

end Stacks

/-- The current task is the only one that runs, and none is blocked. -/
structure OnlyCurrent (procs : Processes) : Prop where
  /-- The current task alone is running. -/
  running : ∀ slot, (procs.tasks slot).state = .running ↔ slot = procs.currentTask
  /-- No task is blocked. -/
  awake : ∀ slot, (procs.tasks slot).state ≠ .blocked

/-- No task runs and none is blocked. -/
def NoneRuns (procs : Processes) : Prop :=
  ∀ slot, (procs.tasks slot).state ≠ .running ∧ (procs.tasks slot).state ≠ .blocked

/-- The current task is the only one that runs, and num_tasks is at most the number of live
tasks. -/
structure Running (procs : Processes) : Prop extends OnlyCurrent procs where
  /-- num_tasks counts no more than the live tasks. -/
  count : procs.numTasks ≤ procs.liveSlots.card

section Switching

variable {procs after : Processes} {slot : Slot} {task : Task}

/-- A change of another task that does not run. -/
theorem OnlyCurrent.update (h : OnlyCurrent procs) (hslot : slot ≠ procs.currentTask)
    (htasks : after.tasks = Function.update procs.tasks slot task)
    (hcurrent : after.currentTask = procs.currentTask)
    (htask : task.state ≠ .running ∧ task.state ≠ .blocked) : OnlyCurrent after := by
  refine ⟨fun other => ?_, fun other => ?_⟩
  · rw [htasks, hcurrent]
    by_cases hne : other = slot
    · rw [hne, Function.update_self]
      exact iff_of_false htask.1 hslot
    · rw [Function.update_of_ne hne]
      exact h.running other
  · rw [htasks]
    by_cases hne : other = slot
    · rw [hne, Function.update_self]
      exact htask.2
    · rw [Function.update_of_ne hne]
      exact h.awake other

/-- The task that is switched to runs alone. -/
theorem NoneRuns.switch (h : NoneRuns procs)
    (htasks : after.tasks = Function.update procs.tasks slot task)
    (hcurrent : after.currentTask = slot) (htask : task.state = .running) :
    OnlyCurrent after := by
  refine ⟨fun other => ?_, fun other => ?_⟩
  · rw [htasks, hcurrent]
    by_cases hne : other = slot
    · rw [hne, Function.update_self]
      exact iff_of_true htask rfl
    · rw [Function.update_of_ne hne]
      exact iff_of_false (h other).1 hne
  · rw [htasks]
    by_cases hne : other = slot
    · rw [hne, Function.update_self, htask]
      decide
    · rw [Function.update_of_ne hne]
      exact (h other).2

/-- A change of the current task after which it does not run. -/
theorem OnlyCurrent.leave (h : OnlyCurrent procs)
    (htasks : after.tasks = Function.update procs.tasks procs.currentTask task)
    (htask : task.state ≠ .running ∧ task.state ≠ .blocked) : NoneRuns after := by
  intro other
  rw [htasks]
  by_cases hne : other = procs.currentTask
  · rw [hne, Function.update_self]
    exact htask
  · rw [Function.update_of_ne hne]
    exact ⟨mt (h.running other).mp hne, h.awake other⟩

/-- A change of a task that does not run. -/
theorem NoneRuns.update (h : NoneRuns procs)
    (htasks : after.tasks = Function.update procs.tasks slot task)
    (htask : task.state ≠ .running ∧ task.state ≠ .blocked) : NoneRuns after := by
  intro other
  rw [htasks]
  by_cases hne : other = slot
  · rw [hne, Function.update_self]
    exact htask
  · rw [Function.update_of_ne hne]
    exact h other

/-- proc_create makes a task that does not run yet. -/
theorem NoneRuns.creates (h : NoneRuns procs) (kernelPageDir entry : UInt32) (name : CString)
    (priority : ℤ) : NoneRuns (procCreate kernelPageDir entry name priority procs).2 := by
  unfold procCreate allocPid
  split_ifs with hfull
  · exact h
  · cases deadSlot procs with
    | none => exact h
    | some slot =>
      have htaken : NoneRuns (takeSlot slot procs) := h.update rfl (h slot)
      exact htaken.update rfl ⟨TaskState.noConfusion, TaskState.noConfusion⟩

/-- The slot of alloc_pid is not that of the running task. -/
theorem OnlyCurrent.deadSlot_ne (h : OnlyCurrent procs) (hslot : deadSlot procs = some slot) :
    slot ≠ procs.currentTask := by
  intro heq
  have hdead := phase_free_iff.mp (deadSlot_phase hslot)
  have hrunning := (h.running slot).mpr heq
  rw [hdead] at hrunning
  exact absurd hrunning (by decide)

/-- proc_create makes a task that does not run yet. -/
theorem OnlyCurrent.creates (h : OnlyCurrent procs) (kernelPageDir entry : UInt32)
    (name : CString) (priority : ℤ) :
    OnlyCurrent (procCreate kernelPageDir entry name priority procs).2 := by
  unfold procCreate allocPid
  split_ifs with hfull
  · exact h
  · cases hslot : deadSlot procs with
    | none => exact h
    | some slot =>
      have hdead := phase_free_iff.mp (deadSlot_phase hslot)
      have hne := h.deadSlot_ne hslot
      have htaken : OnlyCurrent (takeSlot slot procs) := h.update hne rfl rfl (by
        show (procs.tasks slot).state ≠ .running ∧ (procs.tasks slot).state ≠ .blocked
        rw [hdead]
        decide)
      exact htaken.update hne rfl rfl ⟨TaskState.noConfusion, TaskState.noConfusion⟩

/-- proc_create_user makes a task that does not run yet. -/
theorem OnlyCurrent.createsUser (h : OnlyCurrent procs) (userStack pageDir entry : UInt32)
    (name : CString) : OnlyCurrent (procCreateUser userStack pageDir entry name procs).2 := by
  unfold procCreateUser allocPid
  by_cases hfull : procs.numTasks ≥ maxTasks
  · rw [if_pos hfull]
    exact h
  · rw [if_neg hfull]
    cases hslot : deadSlot procs with
    | none => exact h
    | some slot =>
      have hdead := phase_free_iff.mp (deadSlot_phase hslot)
      have hne := h.deadSlot_ne hslot
      have htaken : OnlyCurrent (takeSlot slot procs) := h.update hne rfl rfl (by
        show (procs.tasks slot).state ≠ .running ∧ (procs.tasks slot).state ≠ .blocked
        rw [hdead]
        decide)
      dsimp only
      split_ifs with hstack
      · exact htaken.update hne rfl rfl ⟨TaskState.noConfusion, TaskState.noConfusion⟩
      · exact htaken.update hne rfl rfl ⟨TaskState.noConfusion, TaskState.noConfusion⟩

/-- proc_exit goes on in another task or stops the processor. -/
theorem OnlyCurrent.exits (h : OnlyCurrent procs) (code : ℤ)
    (hgoing : (procExit code procs).halted = false) : OnlyCurrent (procExit code procs) := by
  have hnone : NoneRuns (exitTask code procs) := by
    rw [exitTask_eq]
    exact h.leave rfl ⟨TaskState.noConfusion, TaskState.noConfusion⟩
  unfold procExit at hgoing ⊢
  cases hnext : exitNext (exitTask code procs) with
  | none =>
    rw [hnext] at hgoing
    exact absurd hgoing Bool.noConfusion
  | some next => exact hnone.switch rfl rfl rfl

/-- Every slot but the current one is looked at by schedule. -/
theorem mem_candidates : ∀ cur slot : Slot, slot ∈ candidates cur ↔ slot ≠ cur := by
  decide +kernel

/-- schedule finds another task when there is one. -/
theorem pickNext_ne {tasks : Slot → Task} {cur : Slot} (hne : slot ≠ cur)
    (hrunnable : (tasks slot).state.runnable = true) : pickNext tasks cur ≠ cur := by
  unfold pickNext
  split_ifs with hfirst
  · exact hfirst
  · cases hfound : (candidates cur).find? fun slot => (tasks slot).state.runnable with
    | none =>
      have hnone := List.find?_eq_none.mp hfound slot ((mem_candidates cur slot).mpr hne)
      exact absurd hrunnable hnone
    | some found => exact (mem_candidates cur found).mp (List.mem_of_find?_eq_some hfound)

/-- With more than one task schedule finds another one. -/
theorem Running.pickNext_ne (h : Running procs) (regs : UInt32) (hmany : 1 < procs.numTasks) :
    pickNext (saveTask regs procs).tasks procs.currentTask ≠ procs.currentTask := by
  have hcount := h.count
  have hcard : 1 < procs.liveSlots.card := by omega
  have ⟨other, hmem, hne⟩ := Finset.exists_mem_ne hcard procs.currentTask
  have hlive := mem_liveSlots.mp hmem
  refine Process.pickNext_ne hne ?_
  rw [saveTask, setTask_tasks_of_ne hne]
  rw [Processes.live] at hlive
  cases hstate : (procs.tasks other).state with
  | ready | running => rfl
  | blocked => exact absurd hstate (h.awake other)
  | zombie | dead =>
    rw [hstate] at hlive
    exact absurd hlive Bool.noConfusion

/-- schedule goes on in the current task or in another one. -/
theorem Running.schedules (h : Running procs) (regs : UInt32) :
    OnlyCurrent (schedule regs procs).2 := by
  have hnone : NoneRuns (saveTask regs procs) := by
    refine h.leave rfl ?_
    have hrunning : procs.current.state = .running := (h.running procs.currentTask).mpr rfl
    show procs.current.state.preempted ≠ _ ∧ procs.current.state.preempted ≠ _
    rw [hrunning]
    decide
  unfold schedule
  by_cases hfew : procs.numTasks ≤ 1
  · rw [if_pos hfew]
    exact h.toOnlyCurrent
  · rw [if_neg hfew]
    dsimp only
    rw [if_neg (h.pickNext_ne regs (not_le.mp hfew))]
    exact hnone.switch rfl rfl rfl

/-- A call that keeps or frees tasks. -/
theorem SameLive.count (hsame : SameLive procs after)
    (h : procs.numTasks ≤ procs.liveSlots.card) : after.numTasks ≤ after.liveSlots.card := by
  have hslots : after.liveSlots = procs.liveSlots := by
    ext slot
    rw [mem_liveSlots, mem_liveSlots, hsame.live]
  rw [hslots, hsame.numTasks]
  exact h

/-- The end of a task. -/
theorem Ended.count (hended : Ended slot procs after)
    (h : procs.numTasks ≤ procs.liveSlots.card) : after.numTasks ≤ after.liveSlots.card := by
  have hcard := Finset.pred_card_le_card_erase (s := procs.liveSlots) (a := slot)
  rw [hended.liveSlots, hended.numTasks]
  omega

/-- A new task, counted or not. -/
theorem Adds.count {more : ℤ} (hadds : Adds slot more procs after) (hmore : more ≤ 1)
    (h : procs.numTasks ≤ procs.liveSlots.card) : after.numTasks ≤ after.liveSlots.card := by
  have hnew : slot ∉ procs.liveSlots := by
    rw [mem_liveSlots, live_eq, deadSlot_phase hadds.first]
    decide
  have hslots : insert slot procs.liveSlots ⊆ after.liveSlots := by
    intro other hother
    rw [mem_liveSlots, live_eq]
    rcases Finset.mem_insert.mp hother with heq | hold
    · rw [heq, hadds.phase]
      rfl
    · have hne : other ≠ slot := fun heq => hnew (heq ▸ hold)
      rw [mem_liveSlots, live_eq] at hold
      rw [Processes.phase, (hadds.kept other hne).phase]
      exact hold
  have hcard := Finset.card_le_card hslots
  rw [Finset.card_insert_of_notMem hnew] at hcard
  rw [hadds.numTasks]
  omega

/-- A call that does not stop the processor leaves the current task as the only one that runs. -/
theorem Running.call (h : Running procs) (op : Operation)
    (hgoing : (op.after procs).halted = false) : Running (op.after procs) := by
  cases op with
  | create kernelPageDir entry name priority =>
    refine ⟨h.creates kernelPageDir entry name priority, ?_⟩
    rcases procCreate_cases kernelPageDir entry name priority procs with hrefused | hadds
    · have hsame : (Operation.create kernelPageDir entry name priority).after procs = procs :=
        congrArg Prod.snd hrefused
      rw [hsame]
      exact h.count
    · have ⟨slot, _, hadds⟩ := hadds
      exact hadds.count (le_refl 1) h.count
  | createUser userStack pageDir entry name =>
    refine ⟨h.createsUser userStack pageDir entry name, ?_⟩
    rcases procCreateUser_cases userStack pageDir entry name procs with hrefused | hadds
    · have hsame : (Operation.createUser userStack pageDir entry name).after procs = procs :=
        congrArg Prod.snd hrefused.2
      rw [hsame]
      exact h.count
    · have ⟨slot, _, _, hcases⟩ := hadds
      rcases hcases with ⟨_, _, hadds⟩ | ⟨_, _, hadds⟩
      · exact hadds.count (by decide) h.count
      · exact hadds.count (le_refl 1) h.count
  | exit code =>
    exact ⟨h.exits code hgoing, (procExit_ends code procs).ended.count h.count⟩
  | kill pid =>
    by_cases hpid : 0 < pid
    · cases htarget : killTarget pid procs with
      | none =>
        have hsame : (Operation.kill pid).after procs = procs :=
          congrArg Prod.snd (procKill_none (.inr htarget))
        rw [hsame]
        exact h
      | some slot =>
        have ⟨_, hends, _⟩ := procKill_ends hpid htarget
        refine ⟨?_, hends.ended.count h.count⟩
        by_cases hcurrent : slot = procs.currentTask
        · have hexit : (Operation.kill pid).after procs = procExit (-1) procs := by
            show (procKill pid procs).2 = _
            rw [procKill, if_neg (not_le.mpr hpid), htarget]
            exact congrArg Prod.snd (if_pos hcurrent)
          rw [hexit] at hgoing ⊢
          exact h.exits (-1) hgoing
        · have hkill : (Operation.kill pid).after procs =
              { procs.setTask slot { procs.tasks slot with state := .zombie, exitCode := -1 }
                with numTasks := procs.numTasks - 1 } := by
            show (procKill pid procs).2 = _
            rw [procKill, if_neg (not_le.mpr hpid), htarget]
            exact congrArg Prod.snd (if_neg hcurrent)
          rw [hkill]
          exact h.update hcurrent rfl rfl ⟨TaskState.noConfusion, TaskState.noConfusion⟩
    · have hsame : (Operation.kill pid).after procs = procs :=
        congrArg Prod.snd (procKill_none (.inl (not_lt.mp hpid)))
      rw [hsame]
      exact h
  | wait =>
    refine ⟨?_, (procWait_sameLive procs).count h.count⟩
    show OnlyCurrent (procWait procs).2.2
    cases hfound : waitTarget procs with
    | none =>
      rw [procWait_none hfound]
      exact h.toOnlyCurrent
    | some slot =>
      have hended := (procWait_frees hfound).ended
      have hne : slot ≠ procs.currentTask := by
        intro heq
        have hrunning := (h.running slot).mpr heq
        rw [Processes.phase, hrunning] at hended
        exact absurd hended (by decide)
      rw [procWait, hfound]
      exact h.update hne rfl rfl ⟨TaskState.noConfusion, TaskState.noConfusion⟩
  | reapZombies =>
    refine ⟨⟨fun slot => ?_, fun slot => ?_⟩, (procReapZombies_sameLive procs).count h.count⟩
    · show ((procReapZombies procs).tasks slot).state = .running ↔ slot = procs.currentTask
      rw [← h.running slot]
      simp only [procReapZombies]
      split_ifs with hzombie
      · rw [hzombie]
        decide
      · exact Iff.rfl
    · show ((procReapZombies procs).tasks slot).state ≠ .blocked
      simp only [procReapZombies]
      split_ifs with hzombie
      · exact TaskState.noConfusion
      · exact h.awake slot
  | schedule regs => exact ⟨h.schedules regs, (schedule_keeps regs procs).sameLive.count h.count⟩

/-- The second task of the boot runs. -/
theorem bootTasks_running (kernelPageDir userEntry shellEntry : UInt32)
    (hboot : procs.nextPid = 1) :
    Running (bootTasks kernelPageDir userEntry shellEntry procs) := by
  have ⟨first, second, hfirstEq, hsecondEq, hfirst, hsecond, hspec⟩ :=
    bootTasks_spec kernelPageDir userEntry shellEntry hboot
  have hnone : NoneRuns (procInit procs) := fun _ =>
    ⟨TaskState.noConfusion, TaskState.noConfusion⟩
  have hboth : NoneRuns second := by
    rw [hsecondEq, hfirstEq]
    exact (hnone.creates kernelPageDir userEntry userTaskName 1).creates kernelPageDir
      shellEntry shellName 1
  have hcount : second.numTasks ≤ second.liveSlots.card := by
    refine hsecond.count (le_refl 1) (hfirst.count (le_refl 1) ?_)
    show (0 : ℤ) ≤ _
    omega
  have hkeeps : Keeps second (second.setTask 1 { second.tasks 1 with state := .running }) := by
    refine ⟨fun other => ?_, rfl, rfl, .inl rfl, rfl⟩
    by_cases hne : other = 1
    · rw [hne, setTask_tasks_self]
      exact ⟨rfl, rfl, rfl, hsecond.phase.symm⟩
    · exact setTask_kept hne
  rw [hspec]
  exact ⟨hboth.switch rfl rfl rfl, hkeeps.sameLive.count hcount⟩

end Switching

/-- The page directory in use is that of the current task. -/
def InDir (procs : Processes) : Prop := procs.cr3 = procs.current.pageDir

/-- A switch of proc_exit, which leaves the page directory, is to a task with the same one, and
one of schedule, which leaves it where the task has none, is to a task that has one. -/
def KeepsDir (op : Operation) (procs : Processes) : Prop :=
  match op with
  | .exit code => ∀ next, exitNext (exitTask code procs) = some next →
    procs.cr3 = ((exitTask code procs).tasks next).pageDir
  | .kill pid => 0 < pid → killTarget pid procs = some procs.currentTask →
    ∀ next, exitNext (exitTask (-1) procs) = some next →
      procs.cr3 = ((exitTask (-1) procs).tasks next).pageDir
  | .schedule regs => ∀ next, (schedule regs procs).1 = some next →
    (procs.tasks next).pageDir = 0 → procs.cr3 = 0
  | .create .. | .createUser .. | .wait | .reapZombies => True

/-- The page directory in use and that of the current task stay. -/
structure SameDir (procs after : Processes) : Prop where
  /-- cr3 stays. -/
  cr3 : after.cr3 = procs.cr3
  /-- The directory of the current task stays. -/
  pageDir : after.current.pageDir = procs.current.pageDir

section Directories

variable {procs middle after : Processes} {slot : Slot} {task : Task}

/-- One change after the other. -/
theorem SameDir.trans (h : SameDir procs middle) (h' : SameDir middle after) :
    SameDir procs after :=
  ⟨h'.cr3.trans h.cr3, h'.pageDir.trans h.pageDir⟩

/-- What stays says the same. -/
theorem SameDir.inDir (h : SameDir procs after) (hdir : InDir procs) : InDir after :=
  h.cr3.trans (hdir.trans h.pageDir.symm)

/-- A change of one task that keeps its page directory or is not the current one. -/
theorem SameDir.update (hcr3 : after.cr3 = procs.cr3)
    (hcurrent : after.currentTask = procs.currentTask)
    (htasks : after.tasks = Function.update procs.tasks slot task)
    (h : slot ≠ procs.currentTask ∨ task.pageDir = (procs.tasks slot).pageDir) :
    SameDir procs after := by
  refine ⟨hcr3, ?_⟩
  rw [Processes.current, hcurrent, htasks, Processes.current]
  by_cases hne : procs.currentTask = slot
  · rw [hne, Function.update_self]
    exact h.resolve_left fun hother => hother hne.symm
  · rw [Function.update_of_ne hne]

/-- A creation leaves the current task. -/
theorem OnlyCurrent.procCreate_sameDir (h : OnlyCurrent procs) (kernelPageDir entry : UInt32)
    (name : CString) (priority : ℤ) :
    SameDir procs (procCreate kernelPageDir entry name priority procs).2 := by
  unfold procCreate allocPid
  split_ifs with hfull
  · exact ⟨rfl, rfl⟩
  · cases hslot : deadSlot procs with
    | none => exact ⟨rfl, rfl⟩
    | some slot =>
      have hne := h.deadSlot_ne hslot
      have htaken : SameDir procs (takeSlot slot procs) := .update rfl rfl rfl (.inl hne)
      exact htaken.trans (.update rfl rfl rfl (.inl hne))

/-- A creation leaves the current task. -/
theorem OnlyCurrent.procCreateUser_sameDir (h : OnlyCurrent procs)
    (userStack pageDir entry : UInt32) (name : CString) :
    SameDir procs (procCreateUser userStack pageDir entry name procs).2 := by
  unfold procCreateUser allocPid
  by_cases hfull : procs.numTasks ≥ maxTasks
  · rw [if_pos hfull]
    exact ⟨rfl, rfl⟩
  · rw [if_neg hfull]
    cases hslot : deadSlot procs with
    | none => exact ⟨rfl, rfl⟩
    | some slot =>
      have hne := h.deadSlot_ne hslot
      have htaken : SameDir procs (takeSlot slot procs) := .update rfl rfl rfl (.inl hne)
      dsimp only
      split_ifs with hstack
      · exact htaken.trans (.update rfl rfl rfl (.inl hne))
      · exact htaken.trans (.update rfl rfl rfl (.inl hne))

/-- proc_exit that goes on in a task leaves the page directory in use. -/
theorem procExit_inDir_iff (code : ℤ) (hgoing : (procExit code procs).halted = false) :
    InDir (procExit code procs) ↔ ∀ next, exitNext (exitTask code procs) = some next →
      procs.cr3 = ((exitTask code procs).tasks next).pageDir := by
  unfold procExit at hgoing ⊢
  cases hnext : exitNext (exitTask code procs) with
  | none =>
    rw [hnext] at hgoing
    exact absurd hgoing Bool.noConfusion
  | some next =>
    have hself : ((exitTask code procs).setTask next { (exitTask code procs).tasks next with
        state := .running }).tasks next =
        { (exitTask code procs).tasks next with state := .running } := setTask_tasks_self
    have hdir := congrArg Task.pageDir hself
    constructor
    · intro hin other hother
      rw [← Option.some.inj hother]
      exact hin.trans hdir
    · intro hall
      exact (hall next rfl).trans hdir.symm

/-- schedule changes to the page directory of the task that it resumes, if the task has one. -/
theorem Running.schedule_inDir_iff (h : Running procs) (hdir : InDir procs) (regs : UInt32) :
    InDir (schedule regs procs).2 ↔ ∀ next, (schedule regs procs).1 = some next →
      (procs.tasks next).pageDir = 0 → procs.cr3 = 0 := by
  unfold schedule
  by_cases hfew : procs.numTasks ≤ 1
  · rw [if_pos hfew]
    exact iff_of_true hdir nofun
  · rw [if_neg hfew]
    dsimp only
    have hne := h.pickNext_ne regs (not_le.mp hfew)
    rw [if_neg hne]
    generalize pickNext (saveTask regs procs).tasks procs.currentTask = next at hne
    have hsaved : (saveTask regs procs).tasks next = procs.tasks next := setTask_tasks_of_ne hne
    have hself : (resumeTask next (saveTask regs procs)).current.pageDir =
        (procs.tasks next).pageDir := by
      show (((saveTask regs procs).setTask next _).tasks next).pageDir = _
      rw [setTask_tasks_self, hsaved]
    have hcr3 : (resumeTask next (saveTask regs procs)).cr3 =
        if (procs.tasks next).pageDir ≠ 0 then (procs.tasks next).pageDir else procs.cr3 := by
      rw [← hsaved]
      rfl
    rw [InDir, hself, hcr3]
    constructor
    · intro hin other hother hzero
      rw [← Option.some.inj hother] at hzero
      rw [if_neg (not_not_intro hzero)] at hin
      exact hin.trans hzero
    · intro hall
      by_cases hzero : (procs.tasks next).pageDir = 0
      · rw [if_neg (not_not_intro hzero), hzero]
        exact hall next rfl hzero
      · rw [if_pos hzero]

/-- After a call that does not stop the processor, the page directory in use is that of the
current task exactly when the call keeps to it. -/
theorem Running.inDir_iff (h : Running procs) (hdir : InDir procs) (op : Operation)
    (hgoing : (op.after procs).halted = false) : InDir (op.after procs) ↔ KeepsDir op procs := by
  cases op with
  | create kernelPageDir entry name priority =>
    exact iff_of_true ((h.procCreate_sameDir kernelPageDir entry name priority).inDir hdir) trivial
  | createUser userStack pageDir entry name =>
    exact iff_of_true ((h.procCreateUser_sameDir userStack pageDir entry name).inDir hdir) trivial
  | exit code => exact procExit_inDir_iff code hgoing
  | kill pid =>
    by_cases hpid : 0 < pid
    · cases htarget : killTarget pid procs with
      | none =>
        have hsame : (Operation.kill pid).after procs = procs :=
          congrArg Prod.snd (procKill_none (.inr htarget))
        rw [hsame]
        refine iff_of_true hdir fun _ hsome => ?_
        rw [htarget] at hsome
        exact absurd hsome nofun
      | some slot =>
        by_cases hcurrent : slot = procs.currentTask
        · have hexit : (Operation.kill pid).after procs = procExit (-1) procs := by
            show (procKill pid procs).2 = _
            rw [procKill, if_neg (not_le.mpr hpid), htarget]
            exact congrArg Prod.snd (if_pos hcurrent)
          rw [hexit] at hgoing ⊢
          rw [procExit_inDir_iff (-1) hgoing]
          have htargetIs : killTarget pid procs = some procs.currentTask := by
            rw [htarget, hcurrent]
          exact ⟨fun hall _ _ => hall, fun hall => hall hpid htargetIs⟩
        · have hkill : (Operation.kill pid).after procs =
              { procs.setTask slot { procs.tasks slot with state := .zombie, exitCode := -1 }
                with numTasks := procs.numTasks - 1 } := by
            show (procKill pid procs).2 = _
            rw [procKill, if_neg (not_le.mpr hpid), htarget]
            exact congrArg Prod.snd (if_neg hcurrent)
          have hsame : SameDir procs ((Operation.kill pid).after procs) := by
            rw [hkill]
            exact .update rfl rfl rfl (.inl hcurrent)
          refine iff_of_true (hsame.inDir hdir) fun _ hsome => ?_
          rw [htarget] at hsome
          exact absurd (Option.some.inj hsome) hcurrent
    · have hsame : (Operation.kill pid).after procs = procs :=
        congrArg Prod.snd (procKill_none (.inl (not_lt.mp hpid)))
      rw [hsame]
      exact iff_of_true hdir fun hpos => absurd hpos hpid
  | wait =>
    have hsame : SameDir procs (procWait procs).2.2 := by
      unfold procWait
      cases waitTarget procs with
      | none => exact ⟨rfl, rfl⟩
      | some slot => exact .update rfl rfl rfl (.inr rfl)
    exact iff_of_true (hsame.inDir hdir) trivial
  | reapZombies =>
    have hsame : SameDir procs (procReapZombies procs) := by
      refine ⟨rfl, ?_⟩
      simp only [Processes.current, procReapZombies]
      split_ifs with hzombie
      · rfl
      · rfl
    exact iff_of_true (hsame.inDir hdir) trivial
  | schedule regs => exact h.schedule_inDir_iff hdir regs

/-- While no call stops the processor, the current task is the only one that runs in every state
of a run, and its page directory is in use in every state exactly when no proc_exit switches to
a task with another one and no schedule to a task without one. -/
theorem Running.everyState_iff {ops : List Operation} (h : Running procs) (hdir : InDir procs)
    (hgoing : EveryStep Operation.after
      (fun op procs => (op.after procs).halted = false) ops procs) :
    EveryState Operation.after (fun procs => OnlyCurrent procs ∧ InDir procs) ops procs ↔
      EveryStep Operation.after KeepsDir ops procs := by
  induction ops generalizing procs with
  | nil => exact iff_of_true ⟨h.toOnlyCurrent, hdir⟩ trivial
  | cons op ops ih =>
    have hnext := h.call op hgoing.1
    have hiff := h.inDir_iff hdir op hgoing.1
    constructor
    · intro hstates
      have hin : InDir (op.after procs) := by
        cases ops with
        | nil => exact hstates.2.2
        | cons op' ops => exact hstates.2.1.2
      exact ⟨hiff.mp hin, (ih hnext hin hgoing.2).mp hstates.2⟩
    · intro hsteps
      have hin := hiff.mpr hsteps.1
      exact ⟨⟨h.toOnlyCurrent, hdir⟩, (ih hnext hin hgoing.2).mpr hsteps.2⟩

/-- proc_create gives a task the page directory of the kernel. -/
theorem procCreate_pageDir (hroom : procs.numTasks < maxTasks) (hslot : deadSlot procs = some slot)
    (kernelPageDir entry : UInt32) (name : CString) (priority : ℤ) :
    ((procCreate kernelPageDir entry name priority procs).2.tasks slot).pageDir =
      kernelPageDir := by
  unfold procCreate allocPid
  rw [if_neg (not_le.mpr hroom), hslot]
  show (((takeSlot slot procs).setTask slot _).tasks slot).pageDir = _
  rw [setTask_tasks_self]
  rfl

/-- A creation leaves the page directory in use. -/
theorem procCreate_cr3 (kernelPageDir entry : UInt32) (name : CString) (priority : ℤ)
    (procs : Processes) :
    (procCreate kernelPageDir entry name priority procs).2.cr3 = procs.cr3 := by
  unfold procCreate allocPid
  split_ifs with hfull
  · rfl
  · cases deadSlot procs with
    | none => rfl
    | some slot => rfl

/-- The boot runs in the page directory of the kernel. -/
theorem bootTasks_inDir (kernelPageDir userEntry shellEntry : UInt32)
    (hboot : procs.nextPid = 1) (hcr3 : procs.cr3 = kernelPageDir) :
    InDir (bootTasks kernelPageDir userEntry shellEntry procs) := by
  have ⟨first, second, hfirstEq, hsecondEq, hfirst, hsecond, hspec⟩ :=
    bootTasks_spec kernelPageDir userEntry shellEntry hboot
  have hzero : (procInit procs).numTasks = 0 := rfl
  have hroom : first.numTasks < maxTasks := by
    rw [hfirst.numTasks, hzero]
    decide
  have hdir := procCreate_pageDir hroom hsecond.first kernelPageDir shellEntry shellName 1
  have hinUse : second.cr3 = kernelPageDir := by
    rw [hsecondEq, procCreate_cr3, hfirstEq, procCreate_cr3]
    exact hcr3
  have hcurrent : ((second.setTask 1 { second.tasks 1 with state := .running }).tasks 1).pageDir =
      kernelPageDir := by
    rw [setTask_tasks_self, hsecondEq]
    exact hdir
  rw [hspec]
  exact hinUse.trans hcurrent.symm

/-- From the boot on and while no call stops the processor, the current task is the only one that
runs and its page directory is in use exactly when every switch keeps to it. -/
theorem runningTask_iff (kernelPageDir userEntry shellEntry : UInt32)
    (hboot : procs.nextPid = 1) (hcr3 : procs.cr3 = kernelPageDir) (ops : List Operation)
    (hgoing : EveryStep Operation.after (fun op procs => (op.after procs).halted = false) ops
      (bootTasks kernelPageDir userEntry shellEntry procs)) :
    EveryState Operation.after (fun procs => OnlyCurrent procs ∧ InDir procs) ops
        (bootTasks kernelPageDir userEntry shellEntry procs) ↔
      EveryStep Operation.after KeepsDir ops
        (bootTasks kernelPageDir userEntry shellEntry procs) :=
  (bootTasks_running kernelPageDir userEntry shellEntry hboot).everyState_iff
    (bootTasks_inDir kernelPageDir userEntry shellEntry hboot hcr3) hgoing

end Directories

/-- From the boot on, in no state of any run is the kernel stack that the processor would load
that of the current task. -/
theorem inStep_never (kernelPageDir userEntry shellEntry : UInt32) (boot : Processes)
    (hzero : ∀ slot, (boot.tasks slot).kernelEsp = 0)
    (hfits : boot.tasksAddress.toNat + 16 * 8844 ≤ 2 ^ 32) (ops : List Operation) :
    EveryState Operation.after (fun procs => ¬InStep procs) ops
      (bootTasks kernelPageDir userEntry shellEntry boot) :=
  (everyState_of_invariant (fun op procs (h : StackTops procs) =>
    h.kept (operation_stacksKept op procs)) ops
    (bootTasks_stackTops kernelPageDir userEntry shellEntry hzero hfits)).mono
    fun _ h => h.not_inStep

/-- The first switch of the test system. -/
theorem inStep_never_test :
    EveryState Operation.after (fun procs => ¬InStep procs) [.schedule 0x9000]
      (bootTasks 0x1000 0x11000 0x12000 zeroProcesses) :=
  inStep_never 0x1000 0x11000 0x12000 zeroProcesses (fun _ => rfl) (by decide) _

/-- After the boot the processor would load 0x10 as the kernel stack of the second task. After
proc_exit it is also in the page directory of the task that has ended. -/
theorem inStep_lost :
    ¬InStep (bootTasks 0x1000 0x11000 0x12000 zeroProcesses) ∧
    ¬InStep ((Operation.exit 0).after ((Operation.schedule 0x9000).after
      ((Operation.kill 1).after ((Operation.createUser 0x300000 0x301000 0x400000 taskName).after
        (bootTasks 0x1000 0x11000 0x12000 zeroProcesses))))) := by
  constructor
  · intro hstep
    exact absurd hstep.kernelStack (by decide +kernel)
  · intro hstep
    exact absurd hstep.pageDir (by decide +kernel)

end HexaOS.Process
