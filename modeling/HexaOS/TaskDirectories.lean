import HexaOS.ProcessCalls

/-!
# The page directories of the tasks

The calls of process.c only hand on addresses of page directories: a task has the one that it was
created with, and the directory register is loaded from a task.
-/

namespace HexaOS.Process

open Hexafs (CString)

/-- The directory register and the tasks hold directories of one kind, or a task holds none. -/
structure DirectoriesFrom (dirs : UInt32 → Prop) (procs : Processes) : Prop where
  /-- cr3 holds one of the directories. -/
  cr3 : dirs procs.cr3
  /-- A task has one of them or none. -/
  tasks : ∀ slot, (procs.tasks slot).pageDir ≠ 0 → dirs (procs.tasks slot).pageDir

/-- The directory that a call gives to a new task. -/
def Operation.newDir : Operation → Option UInt32
  | create kernelPageDir _ _ _ => some kernelPageDir
  | createUser _ pageDir _ _ => some pageDir
  | _ => none

namespace DirectoriesFrom

variable {dirs dirs' : UInt32 → Prop} {procs procs' : Processes}

theorem mono (h : DirectoriesFrom dirs procs) (hdirs : ∀ dir, dirs dir → dirs' dir) :
    DirectoriesFrom dirs' procs :=
  ⟨hdirs _ h.cr3, fun slot hne => hdirs _ (h.tasks slot hne)⟩

/-- A task keeps its directory, or gets one of the kind. -/
theorem update (h : DirectoriesFrom dirs procs) (slot : Slot) {task : Task}
    (htasks : procs'.tasks = Function.update procs.tasks slot task)
    (hcr3 : procs'.cr3 = procs.cr3)
    (htask : task.pageDir = (procs.tasks slot).pageDir ∨ dirs task.pageDir) :
    DirectoriesFrom dirs procs' := by
  refine ⟨hcr3.symm ▸ h.cr3, fun other hne => ?_⟩
  rw [htasks] at hne ⊢
  by_cases hother : other = slot
  · rw [hother, Function.update_self] at hne ⊢
    rcases htask with hsame | hnew
    · rw [hsame] at hne ⊢
      exact h.tasks slot hne
    · exact hnew
  · rw [Function.update_of_ne hother] at hne ⊢
    exact h.tasks other hne

theorem procCreate (h : DirectoriesFrom dirs procs) {kernelPageDir : UInt32}
    (hdir : dirs kernelPageDir) (entry : UInt32) (name : CString) (priority : ℤ) :
    DirectoriesFrom dirs (procCreate kernelPageDir entry name priority procs).2 := by
  unfold Process.procCreate allocPid
  by_cases hfull : procs.numTasks ≥ maxTasks
  · rw [if_pos hfull]
    exact h
  · rw [if_neg hfull]
    cases deadSlot procs with
    | none => exact h
    | some slot =>
      have htaken : DirectoriesFrom dirs (takeSlot slot procs) := h.update slot rfl rfl (.inl rfl)
      exact htaken.update slot rfl rfl (.inr hdir)

theorem procCreateUser (h : DirectoriesFrom dirs procs) {userStack pageDir : UInt32}
    (hdir : userStack ≠ 0 → dirs pageDir) (entry : UInt32) (name : CString) :
    DirectoriesFrom dirs (procCreateUser userStack pageDir entry name procs).2 := by
  unfold Process.procCreateUser allocPid
  by_cases hfull : procs.numTasks ≥ maxTasks
  · rw [if_pos hfull]
    exact h
  · rw [if_neg hfull]
    cases deadSlot procs with
    | none => exact h
    | some slot =>
      have htaken : DirectoriesFrom dirs (takeSlot slot procs) := h.update slot rfl rfl (.inl rfl)
      dsimp only
      by_cases hstack : userStack = 0
      · rw [if_pos hstack]
        exact htaken.update slot rfl rfl (.inl rfl)
      · rw [if_neg hstack]
        exact htaken.update slot rfl rfl (.inr (hdir hstack))

theorem procExit (h : DirectoriesFrom dirs procs) (code : ℤ) :
    DirectoriesFrom dirs (procExit code procs) := by
  have hended : DirectoriesFrom dirs (exitTask code procs) := by
    rw [exitTask_eq]
    exact h.update procs.currentTask rfl rfl (.inl rfl)
  unfold Process.procExit
  cases exitNext (exitTask code procs) with
  | none => exact ⟨hended.cr3, hended.tasks⟩
  | some next => exact hended.update next rfl rfl (.inl rfl)

theorem procKill (h : DirectoriesFrom dirs procs) (pid : ℤ) :
    DirectoriesFrom dirs (procKill pid procs).2 := by
  unfold Process.procKill
  by_cases hpid : pid ≤ 0
  · rw [if_pos hpid]
    exact h
  · rw [if_neg hpid]
    cases killTarget pid procs with
    | none => exact h
    | some slot =>
      dsimp only
      by_cases hcurrent : slot = procs.currentTask
      · rw [if_pos hcurrent]
        exact h.procExit (-1)
      · rw [if_neg hcurrent]
        exact h.update slot rfl rfl (.inl rfl)

theorem procWait (h : DirectoriesFrom dirs procs) : DirectoriesFrom dirs (procWait procs).2.2 := by
  unfold Process.procWait
  cases waitTarget procs with
  | none => exact h
  | some slot => exact h.update slot rfl rfl (.inl rfl)

theorem procReapZombies (h : DirectoriesFrom dirs procs) :
    DirectoriesFrom dirs (procReapZombies procs) := by
  refine ⟨h.cr3, fun slot hne => ?_⟩
  have hsame : ((Process.procReapZombies procs).tasks slot).pageDir =
      (procs.tasks slot).pageDir := by
    unfold Process.procReapZombies
    dsimp only
    split <;> rfl
  rw [hsame] at hne ⊢
  exact h.tasks slot hne

theorem schedule (h : DirectoriesFrom dirs procs) (regs : UInt32) :
    DirectoriesFrom dirs (schedule regs procs).2 := by
  have hsaved : DirectoriesFrom dirs (saveTask regs procs) :=
    h.update procs.currentTask rfl rfl (.inl rfl)
  unfold Process.schedule
  by_cases hfew : procs.numTasks ≤ 1
  · rw [if_pos hfew]
    exact h
  · rw [if_neg hfew]
    dsimp only
    generalize pickNext (saveTask regs procs).tasks procs.currentTask = next
    by_cases hsame : next = procs.currentTask
    · rw [if_pos hsame]
      exact hsaved
    · rw [if_neg hsame]
      have hresumed : DirectoriesFrom dirs
          { resumeTask next (saveTask regs procs) with cr3 := (saveTask regs procs).cr3 } :=
        hsaved.update next rfl rfl (.inl rfl)
      refine ⟨?_, hresumed.tasks⟩
      show dirs (if ((saveTask regs procs).tasks next).pageDir ≠ 0 then
        ((saveTask regs procs).tasks next).pageDir else (saveTask regs procs).cr3)
      split
      · rename_i hne
        exact hsaved.tasks next hne
      · exact hsaved.cr3

/-- A call that creates no task with another directory. -/
theorem after (h : DirectoriesFrom dirs procs) (op : Operation)
    (hnew : ∀ dir, op.newDir = some dir → dirs dir) : DirectoriesFrom dirs (op.after procs) := by
  cases op with
  | create kernelPageDir entry name priority => exact h.procCreate (hnew _ rfl) entry name priority
  | createUser userStack pageDir entry name =>
    exact h.procCreateUser (fun _ => hnew _ rfl) entry name
  | exit code => exact h.procExit code
  | kill pid => exact h.procKill pid
  | wait => exact h.procWait
  | reapZombies => exact h.procReapZombies
  | schedule regs => exact h.schedule regs

end DirectoriesFrom

/-- A new task has the directory that was made for it. -/
theorem procCreateUser_pageDir {userStack pageDir entry : UInt32} {name : CString}
    {procs : Processes} {slot : Slot} (hfull : procs.numTasks < maxTasks)
    (hslot : deadSlot procs = some slot) (hstack : userStack ≠ 0) :
    ((procCreateUser userStack pageDir entry name procs).2.tasks slot).pageDir = pageDir := by
  have hplace : procCreateUser userStack pageDir entry name procs =
      placeTask slot (userTask userStack pageDir name slot (takeSlot slot procs))
        (initialFrame 0x20 entry 0x18 0x202 (userStack + 4096)) (takeSlot slot procs) := by
    unfold procCreateUser allocPid
    rw [if_neg (not_le.mpr hfull), hslot]
    exact if_neg hstack
  rw [hplace]
  exact congrArg Task.pageDir setTask_tasks_self

end HexaOS.Process
