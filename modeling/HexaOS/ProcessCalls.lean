import HexaOS.Processes

/-!
# What the calls do to the task table

Each call of process.c keeps the table, adds a task, ends one or frees the slot of one that
has ended. The lemmas of this module say which, with the pid, the parent and the exit code of
every slot; the results about the task table use nothing else of the calls.
-/

namespace HexaOS.Process

open Hexafs (CString)

/-- The kinds of states of a task. -/
inductive Phase where
  | live
  | ended
  | free
  deriving DecidableEq

/-- The kind of a state. -/
def TaskState.phase : TaskState → Phase
  | ready | running | blocked => .live
  | zombie => .ended
  | dead => .free

namespace Processes

/-- The kind of state of the task in a slot. -/
def phase (procs : Processes) (slot : Slot) : Phase := (procs.tasks slot).state.phase

end Processes

/-- A task keeps its pid, its parent, its exit code and the kind of its state. -/
structure TaskKept (before after : Task) : Prop where
  /-- The pid stays. -/
  pid : after.pid = before.pid
  /-- The parent stays. -/
  parentPid : after.parentPid = before.parentPid
  /-- The exit code stays. -/
  exitCode : after.exitCode = before.exitCode
  /-- The phase stays. -/
  phase : after.state.phase = before.state.phase

/-- A call that keeps all tasks. -/
structure Keeps (procs after : Processes) : Prop where
  /-- Every task is kept. -/
  kept : ∀ slot, TaskKept (procs.tasks slot) (after.tasks slot)
  /-- num_tasks stays. -/
  numTasks : after.numTasks = procs.numTasks
  /-- next_pid stays. -/
  nextPid : after.nextPid = procs.nextPid
  /-- The current task stays, or is a live one. -/
  current : after.currentTask = procs.currentTask ∨ after.phase after.currentTask = .live
  /-- The processor goes on as before. -/
  halted : after.halted = procs.halted

/-- A call that makes a task in a slot and adds to the counter. -/
structure Adds (slot : Slot) (count : ℤ) (procs after : Processes) : Prop where
  /-- The first dead slot is taken. -/
  first : deadSlot procs = some slot
  /-- The other tasks are kept. -/
  kept : ∀ other, other ≠ slot → TaskKept (procs.tasks other) (after.tasks other)
  /-- The new task is live. -/
  phase : after.phase slot = .live
  /-- Its pid is the next one. -/
  pid : (after.tasks slot).pid = procs.nextPid
  /-- Its parent is the current task. -/
  parentPid : (after.tasks slot).parentPid =
    if slot = procs.currentTask then procs.nextPid else procs.current.pid
  /-- num_tasks counts on. -/
  numTasks : after.numTasks = procs.numTasks + count
  /-- next_pid counts on. -/
  nextPid : after.nextPid = procs.nextPid + 1
  /-- The current task stays. -/
  current : after.currentTask = procs.currentTask
  /-- The processor goes on as before. -/
  halted : after.halted = procs.halted

/-- A call that ends the task of a slot and leaves a pid and an exit code in it. -/
structure Ends (slot : Slot) (pid code : ℤ) (procs after : Processes) : Prop where
  /-- The other tasks are kept. -/
  kept : ∀ other, other ≠ slot → TaskKept (procs.tasks other) (after.tasks other)
  /-- The task has ended. -/
  phase : after.phase slot = .ended
  /-- Its pid is this one. -/
  pid : (after.tasks slot).pid = pid
  /-- Its parent stays. -/
  parentPid : (after.tasks slot).parentPid = (procs.tasks slot).parentPid
  /-- Its exit code is stored. -/
  exitCode : (after.tasks slot).exitCode = code
  /-- num_tasks counts down. -/
  numTasks : after.numTasks = procs.numTasks - 1
  /-- next_pid stays. -/
  nextPid : after.nextPid = procs.nextPid

/-- A call that frees the slot of a task that has ended. -/
structure Frees (slot : Slot) (procs after : Processes) : Prop where
  /-- The task had ended. -/
  ended : procs.phase slot = .ended
  /-- The other tasks are kept. -/
  kept : ∀ other, other ≠ slot → TaskKept (procs.tasks other) (after.tasks other)
  /-- The slot is free. -/
  phase : after.phase slot = .free
  /-- num_tasks stays. -/
  numTasks : after.numTasks = procs.numTasks
  /-- next_pid stays. -/
  nextPid : after.nextPid = procs.nextPid
  /-- The current task stays. -/
  current : after.currentTask = procs.currentTask
  /-- The processor goes on as before. -/
  halted : after.halted = procs.halted

section Tasks

variable {procs : Processes} {slot other : Slot} {task : Task}

/-- Nothing changes. -/
theorem TaskKept.refl (task : Task) : TaskKept task task := ⟨rfl, rfl, rfl, rfl⟩

/-- One change after the other. -/
theorem TaskKept.trans {first second third : Task} (h : TaskKept first second)
    (h' : TaskKept second third) : TaskKept first third :=
  ⟨h'.pid.trans h.pid, h'.parentPid.trans h.parentPid, h'.exitCode.trans h.exitCode,
    h'.phase.trans h.phase⟩

/-- Nothing changes. -/
theorem Keeps.refl (procs : Processes) : Keeps procs procs :=
  ⟨fun _ => TaskKept.refl _, rfl, rfl, .inl rfl, rfl⟩

/-- A change of one task keeps the others. -/
theorem setTask_kept (h : other ≠ slot) :
    TaskKept (procs.tasks other) ((procs.setTask slot task).tasks other) := by
  rw [setTask_tasks_of_ne h]
  exact TaskKept.refl _

/-- A task that can be picked is live. -/
theorem TaskState.phase_of_runnable {state : TaskState} (h : state.runnable = true) :
    state.phase = .live := by
  cases state with
  | ready | running => rfl
  | blocked | zombie | dead => exact absurd h (by decide)

/-- schedule does not end the current task. -/
@[simp] theorem TaskState.phase_preempted (state : TaskState) :
    state.preempted.phase = state.phase := by
  cases state with
  | _ => rfl

/-- A runnable task that starts to run is kept. -/
theorem running_kept (h : (procs.tasks slot).state.runnable = true) (other : Slot) :
    TaskKept (procs.tasks other)
      ((procs.setTask slot { procs.tasks slot with state := .running }).tasks other) := by
  by_cases hne : other = slot
  · subst hne
    rw [setTask_tasks_self]
    exact ⟨rfl, rfl, rfl, (TaskState.phase_of_runnable h).symm⟩
  · exact setTask_kept hne

/-- The free slots are those of dead tasks. -/
theorem phase_free_iff : procs.phase slot = .free ↔ (procs.tasks slot).state = .dead := by
  rw [Processes.phase]
  cases (procs.tasks slot).state with
  | dead => exact iff_of_true rfl rfl
  | ready | running | blocked | zombie => exact iff_of_false Phase.noConfusion TaskState.noConfusion

/-- The first slot is the one that alloc_pid takes when it is free. -/
theorem deadSlot_first (h : procs.phase 0 = .free) : deadSlot procs = some 0 := by
  have hdead := phase_free_iff.mp h
  have hslots : List.finRange maxTasks = 0 :: (List.finRange maxTasks).tail := rfl
  rw [deadSlot, firstSlot, hslots, List.find?_cons_of_pos]
  rw [hdead]
  rfl

/-- The second slot is the one that alloc_pid takes when it is the first free one. -/
theorem deadSlot_second (h : procs.phase 0 ≠ .free) (h' : procs.phase 1 = .free) :
    deadSlot procs = some 1 := by
  have htaken := mt phase_free_iff.mpr h
  have hdead := phase_free_iff.mp h'
  have hslots : List.finRange maxTasks = 0 :: 1 :: (List.finRange maxTasks).tail.tail := rfl
  rw [deadSlot, firstSlot, hslots, List.find?_cons_of_neg (by simp [htaken]),
    List.find?_cons_of_pos (by simp [hdead])]

/-- The slot of alloc_pid is free. -/
theorem deadSlot_phase (h : deadSlot procs = some slot) : procs.phase slot = .free := by
  have htest := firstSlot_test h
  exact phase_free_iff.mpr (by simpa using htest)

end Tasks

section Calls

variable {procs : Processes} {slot : Slot}

/-- The slot of alloc_pid has the next pid. -/
theorem begunTask_pid (name : CString) (slot : Slot) (procs : Processes) :
    (begunTask name slot (takeSlot slot procs)).pid = procs.nextPid := by
  simp [begunTask, takeSlot, Processes.setTask]

/-- The parent of a new task is the current one, or itself in the slot of the current one. -/
theorem begunTask_parentPid (name : CString) (slot : Slot) (procs : Processes) :
    (begunTask name slot (takeSlot slot procs)).parentPid =
      if slot = procs.currentTask then procs.nextPid else procs.current.pid := by
  by_cases hcurrent : slot = procs.currentTask
  · subst hcurrent
    simp [begunTask, takeSlot, Processes.setTask, Processes.current]
  · have hne : procs.currentTask ≠ slot := fun h => hcurrent h.symm
    simp [begunTask, takeSlot, Processes.setTask, Processes.current, hcurrent, hne]

/-- A task that is put into the slot of alloc_pid. -/
theorem setTask_adds {task : Task} (name : CString) (h : deadSlot procs = some slot)
    (hpid : task.pid = (begunTask name slot (takeSlot slot procs)).pid)
    (hparent : task.parentPid = (begunTask name slot (takeSlot slot procs)).parentPid)
    (hstate : task.state = .ready) :
    Adds slot 0 procs ((takeSlot slot procs).setTask slot task) := by
  refine ⟨h, fun other hne => ?_, ?_, ?_, ?_, (add_zero _).symm, rfl, rfl, rfl⟩
  · exact (setTask_kept hne).trans (setTask_kept hne)
  · rw [Processes.phase, setTask_tasks_self, hstate]
    rfl
  · rw [setTask_tasks_self, hpid, begunTask_pid]
  · rw [setTask_tasks_self, hparent, begunTask_parentPid]

/-- A task that is placed into the slot of alloc_pid. -/
theorem placeTask_adds {task : Task} (name : CString) (frame : List UInt32)
    (h : deadSlot procs = some slot)
    (hpid : task.pid = (begunTask name slot (takeSlot slot procs)).pid)
    (hparent : task.parentPid = (begunTask name slot (takeSlot slot procs)).parentPid)
    (hstate : task.state = .ready) :
    Adds slot 1 procs (placeTask slot task frame (takeSlot slot procs)).2 := by
  have hadds := setTask_adds name h hpid hparent hstate
  exact { hadds with numTasks := rfl }

/-- What proc_create does. -/
theorem procCreate_cases (kernelPageDir entry : UInt32) (name : CString) (priority : ℤ)
    (procs : Processes) :
    procCreate kernelPageDir entry name priority procs = (-1, procs) ∨
      ∃ slot, (procCreate kernelPageDir entry name priority procs).1 = procs.nextPid ∧
        Adds slot 1 procs (procCreate kernelPageDir entry name priority procs).2 := by
  unfold procCreate allocPid
  by_cases hfull : procs.numTasks ≥ maxTasks
  · rw [if_pos hfull]
    exact .inl rfl
  · rw [if_neg hfull]
    cases hslot : deadSlot procs with
    | none => exact .inl rfl
    | some slot =>
      exact .inr ⟨slot, begunTask_pid name slot procs, placeTask_adds name _ hslot rfl rfl rfl⟩

/-- What proc_create_user does. Without a page for the stack the task stays in its slot. -/
theorem procCreateUser_cases (userStack pageDir entry : UInt32) (name : CString)
    (procs : Processes) :
    ((procs.numTasks ≥ maxTasks ∨ deadSlot procs = none) ∧
      procCreateUser userStack pageDir entry name procs = (-1, procs)) ∨
    ∃ slot, deadSlot procs = some slot ∧ procs.numTasks < maxTasks ∧
      ((userStack = 0 ∧ (procCreateUser userStack pageDir entry name procs).1 = -1 ∧
        Adds slot 0 procs (procCreateUser userStack pageDir entry name procs).2) ∨
      (userStack ≠ 0 ∧ (procCreateUser userStack pageDir entry name procs).1 = procs.nextPid ∧
        Adds slot 1 procs (procCreateUser userStack pageDir entry name procs).2)) := by
  unfold procCreateUser allocPid
  by_cases hfull : procs.numTasks ≥ maxTasks
  · rw [if_pos hfull]
    exact .inl ⟨.inl hfull, rfl⟩
  · rw [if_neg hfull]
    cases hslot : deadSlot procs with
    | none => exact .inl ⟨.inr rfl, rfl⟩
    | some slot =>
      refine .inr ⟨slot, rfl, not_le.mp hfull, ?_⟩
      dsimp only
      by_cases hstack : userStack = 0
      · rw [if_pos hstack]
        exact .inl ⟨hstack, rfl, setTask_adds name hslot rfl rfl rfl⟩
      · rw [if_neg hstack]
        exact .inr ⟨hstack, begunTask_pid name slot procs,
          placeTask_adds name _ hslot rfl rfl rfl⟩

/-- The loop over the children comes after the pid is gone, and changes no parent. -/
theorem reparent_eq (h : procs.current.pid = -1) : reparent procs = procs := by
  have htasks : (reparent procs).tasks = procs.tasks := by
    funext slot
    simp only [reparent]
    split_ifs with hchild
    · have hparent : (procs.tasks slot).parentPid = -1 := by rw [hchild.2, h]
      rw [← hparent]
    · rfl
  cases procs with
  | mk => simp only [reparent] at htasks ⊢; rw [htasks]

/-- A task that is made a zombie and taken off the counter has ended. -/
theorem setTask_ends {task : Task} {pid code : ℤ} (hstate : task.state = .zombie)
    (hpid : task.pid = pid) (hparent : task.parentPid = (procs.tasks slot).parentPid)
    (hcode : task.exitCode = code) :
    Ends slot pid code procs
      { procs.setTask slot task with numTasks := procs.numTasks - 1 } := by
  have hself : (procs.setTask slot task).tasks slot = task := setTask_tasks_self
  refine ⟨fun other hne => setTask_kept hne, ?_, ?_, ?_, ?_, rfl, rfl⟩
  · exact (congrArg (fun task => task.state.phase) hself).trans (congrArg TaskState.phase hstate)
  · exact (congrArg Task.pid hself).trans hpid
  · exact (congrArg Task.parentPid hself).trans hparent
  · exact (congrArg Task.exitCode hself).trans hcode

/-- proc_exit before it switches. -/
theorem exitTask_eq (code : ℤ) (procs : Processes) :
    exitTask code procs = { procs.setTask procs.currentTask { procs.current with
      exitCode := code, state := .zombie, pid := -1 } with numTasks := procs.numTasks - 1 } := by
  have hself : (procs.setTask procs.currentTask { procs.current with
      exitCode := code, state := .zombie, pid := -1 }).tasks procs.currentTask =
      { procs.current with exitCode := code, state := .zombie, pid := -1 } := setTask_tasks_self
  exact reparent_eq (congrArg Task.pid hself)

/-- proc_exit ends the current task, whose pid is then -1, before it switches. -/
theorem exitTask_ends (code : ℤ) (procs : Processes) :
    Ends procs.currentTask (-1) code procs (exitTask code procs) := by
  rw [exitTask_eq]
  exact setTask_ends rfl rfl rfl rfl

/-- A task that has ended stays as it is while all tasks are kept. -/
theorem Ends.then {pid code : ℤ} {middle after : Processes} (h : Ends slot pid code procs middle)
    (hkept : ∀ other, TaskKept (middle.tasks other) (after.tasks other))
    (hnum : after.numTasks = middle.numTasks) (hnext : after.nextPid = middle.nextPid) :
    Ends slot pid code procs after where
  kept other hne := (h.kept other hne).trans (hkept other)
  phase := (hkept slot).phase.trans h.phase
  pid := (hkept slot).pid.trans h.pid
  parentPid := (hkept slot).parentPid.trans h.parentPid
  exitCode := (hkept slot).exitCode.trans h.exitCode
  numTasks := hnum.trans h.numTasks
  nextPid := hnext.trans h.nextPid

/-- proc_exit ends the current task, whose pid is then -1. -/
theorem procExit_ends (code : ℤ) (procs : Processes) :
    Ends procs.currentTask (-1) code procs (procExit code procs) := by
  have hends := exitTask_ends code procs
  unfold procExit
  cases hfound : exitNext (exitTask code procs) with
  | none => exact hends.then (fun _ => TaskKept.refl _) rfl rfl
  | some next =>
    have hrunnable := List.find?_some hfound
    exact hends.then (fun other => running_kept hrunnable other) rfl rfl

/-- After proc_exit a live task is the current one, or the processor has stopped. -/
theorem procExit_current (code : ℤ) (procs : Processes)
    (h : (procExit code procs).halted = false) :
    (procExit code procs).phase (procExit code procs).currentTask = .live := by
  unfold procExit at h ⊢
  cases hfound : exitNext (exitTask code procs) with
  | none =>
    rw [hfound] at h
    exact absurd h Bool.noConfusion
  | some next =>
    have hself : ((exitTask code procs).setTask next { (exitTask code procs).tasks next with
        state := .running }).tasks next = { (exitTask code procs).tasks next with
        state := .running } := setTask_tasks_self
    exact congrArg (fun task => task.state.phase) hself

/-- What proc_kill does to the task that it finds. -/
theorem procKill_ends {pid : ℤ} (hpid : 0 < pid) (h : killTarget pid procs = some slot) :
    ∃ left, Ends slot left (-1) procs (procKill pid procs).2 ∧
      (left = if slot = procs.currentTask then -1 else pid) := by
  have htest := firstSlot_test h
  simp only [Bool.and_eq_true, beq_iff_eq, bne_iff_ne, ne_eq] at htest
  unfold procKill
  rw [if_neg (not_le.mpr hpid), h]
  dsimp only
  by_cases hcurrent : slot = procs.currentTask
  · rw [if_pos hcurrent, if_pos hcurrent, hcurrent]
    exact ⟨-1, procExit_ends (-1) procs, rfl⟩
  · rw [if_neg hcurrent, if_neg hcurrent]
    exact ⟨pid, setTask_ends rfl htest.1 rfl rfl, rfl⟩

/-- proc_kill that finds no task changes nothing. -/
theorem procKill_none {pid : ℤ} (h : pid ≤ 0 ∨ killTarget pid procs = none) :
    procKill pid procs = (-1, procs) := by
  unfold procKill
  rcases h with hpid | hnone
  · rw [if_pos hpid]
  · rw [hnone]
    split_ifs with hpid
    · rfl
    · rfl

/-- proc_wait frees the slot of the child that it finds. -/
theorem procWait_frees (h : waitTarget procs = some slot) :
    Frees slot procs (procWait procs).2.2 := by
  have htest := firstSlot_test h
  simp only [Bool.and_eq_true, beq_iff_eq] at htest
  unfold procWait
  rw [h]
  refine ⟨?_, fun other hne => setTask_kept hne, ?_, rfl, rfl, rfl, rfl⟩
  · rw [Processes.phase, htest.2]
    rfl
  · have hself : (procs.setTask slot { procs.tasks slot with state := .dead }).tasks slot =
        { procs.tasks slot with state := .dead } := setTask_tasks_self
    exact congrArg (fun task => task.state.phase) hself

/-- proc_wait without an ended child changes nothing. -/
theorem procWait_none (h : waitTarget procs = none) : procWait procs = (-1, none, procs) := by
  rw [procWait, h]

/-- schedule keeps all tasks. -/
theorem saveTask_kept (regs : UInt32) (procs : Processes) (slot : Slot) :
    TaskKept (procs.tasks slot) ((saveTask regs procs).tasks slot) := by
  by_cases hne : slot = procs.currentTask
  · subst hne
    rw [saveTask, setTask_tasks_self]
    exact ⟨rfl, rfl, rfl, TaskState.phase_preempted _⟩
  · exact setTask_kept hne

/-- schedule keeps all tasks. -/
theorem schedule_keeps (regs : UInt32) (procs : Processes) :
    Keeps procs (schedule regs procs).2 := by
  have hsaved := saveTask_kept regs procs
  unfold schedule
  by_cases hfew : procs.numTasks ≤ 1
  · rw [if_pos hfew]
    exact Keeps.refl procs
  · rw [if_neg hfew]
    dsimp only
    by_cases hsame : pickNext (saveTask regs procs).tasks procs.currentTask = procs.currentTask
    · rw [if_pos hsame]
      exact ⟨hsaved, rfl, rfl, .inl rfl, rfl⟩
    · rw [if_neg hsame]
      have hrunnable := pickNext_runnable hsame
      refine ⟨fun slot => (hsaved slot).trans (running_kept hrunnable slot), rfl, rfl, .inr ?_,
        rfl⟩
      rw [resumeTask, Processes.phase, setTask_tasks_self]
      rfl

end Calls

end HexaOS.Process
