import HexaOS.Pipes

/-!
# The descriptors of a new pipe

pipe_create asks proc_alloc_fd for two descriptors of the calling task. It passes the slot of
that task where a pid is expected, and it does not look at the results, so that the descriptors
may go to another task, or be none at all.
-/

namespace HexaOS.Pipes

open HexaOS.Process

variable {table : PipeTable} {procs : Processes} {slot : Slot} {task : Task} {fd : Fin maxFds}
  {id : Fin maxPipes}

/-- The closed descriptors of a task, behind those of the console. -/
def closedFds (task : Task) : List (Fin maxFds) :=
  (List.finRange maxFds).filter fun fd => decide (3 ≤ fd.val) && (task.fds fd).type == 0

/-- A descriptor is an end of a pipe. -/
def IsEnd (entry : FdEntry) (ref : ℤ) : Prop := entry.type = 2 ∧ entry.ref = ref

/-- Two descriptors of the current task are the ends of a pipe that was allocated in between. -/
structure HasEnds (before after : PipeTable) (readFd writeFd : Fin maxFds) : Prop where
  /-- The first one is behind the standard descriptors. -/
  read_ge : 3 ≤ readFd.val
  /-- So is the second one. -/
  write_ge : 3 ≤ writeFd.val
  /-- They are different. -/
  distinct : readFd ≠ writeFd
  /-- They are the ends of a pipe that was free. -/
  ends : ∃ id : Fin maxPipes, before.allocated id = false ∧ after.allocated id = true ∧
    IsEnd (after.procs.current.fds readFd) id.val ∧
    IsEnd (after.procs.current.fds writeFd) (id.val + maxPipes)

/-- pipe_create gives the calling task both ends of a new pipe, or fails and changes nothing
where that task has not two closed descriptors. -/
def PipeCreates (table : PipeTable) : Prop :=
  ((pipeCreate table).1 = 0 → ∃ readFd writeFd : Fin maxFds,
      (pipeCreate table).2.1 = some ((readFd.val : ℤ), (writeFd.val : ℤ)) ∧
        HasEnds table (pipeCreate table).2.2 readFd writeFd) ∧
    ((closedFds table.procs.current).length < 2 →
      (pipeCreate table).1 = -1 ∧ (pipeCreate table).2.2 = table)

/-- The task whose pid is the slot of the current task has two closed descriptors, and it is the
current task itself, or the current task has the ends of the pipe there already. -/
def FindsOwn (table : PipeTable) (id : Fin maxPipes) : Prop :=
  ∃ slot readFd writeFd rest, pidSlot table.procs.currentTask.val table.procs = some slot ∧
    closedFds (table.procs.tasks slot) = readFd :: writeFd :: rest ∧
      (slot = table.procs.currentTask ∨ (IsEnd (table.procs.current.fds readFd) id.val ∧
        IsEnd (table.procs.current.fds writeFd) (id.val + maxPipes)))

section Descriptors

theorem mem_closedFds : fd ∈ closedFds task ↔ 3 ≤ fd.val ∧ (task.fds fd).type = 0 := by
  simp [closedFds]

theorem nodup_closedFds (task : Task) : (closedFds task).Nodup :=
  (List.nodup_finRange maxFds).filter _

@[simp] theorem setFd_fds_self (task : Task) (fd : Fin maxFds) (entry : FdEntry) :
    (task.setFd fd entry).fds fd = entry := Function.update_self _ _ _

theorem setFd_fds_of_ne {other : Fin maxFds} (h : other ≠ fd) (task : Task) (entry : FdEntry) :
    (task.setFd fd entry).fds other = task.fds other := Function.update_of_ne h _ _

/-- proc_alloc_fd takes the first closed descriptor. -/
theorem closedFd_eq_head (task : Task) : closedFd task = (closedFds task).head? := by
  rw [closedFd, closedFds, List.head?_filter]

/-- A descriptor that is taken is not closed any more. -/
theorem closedFds_setFd {rest : List (Fin maxFds)} (h : closedFds task = fd :: rest)
    {entry : FdEntry} (htype : entry.type ≠ 0) : closedFds (task.setFd fd entry) = rest := by
  have hnodup := nodup_closedFds task
  rw [h] at hnodup
  have hnot : fd ∉ rest := (List.nodup_cons.mp hnodup).1
  have hfilter : closedFds (task.setFd fd entry) = (closedFds task).filter (· ≠ fd) := by
    rw [closedFds, closedFds, List.filter_filter]
    refine List.filter_congr fun other _ => ?_
    by_cases hother : other = fd
    · rw [hother]
      simp [htype]
    · simp [setFd_fds_of_ne hother, hother]
  rw [hfilter, h, List.filter_cons]
  simp only [ne_eq, not_true_eq_false, decide_false, Bool.false_eq_true, if_false]
  exact List.filter_eq_self.mpr fun other hother => by
    simpa using fun heq : other = fd => hnot (heq ▸ hother)

/-- A task keeps its pid when its descriptors change. -/
theorem pidSlot_setFd (pid : ℤ) (slot : Slot) (fd : Fin maxFds) (entry : FdEntry) :
    pidSlot pid (procs.setTask slot ((procs.tasks slot).setFd fd entry)) = pidSlot pid procs := by
  refine congrArg firstSlot (funext fun other => ?_)
  by_cases hother : other = slot
  · rw [hother, setTask_tasks_self]
    rfl
  · rw [setTask_tasks_of_ne hother]

/-- proc_alloc_fd where the task has no closed descriptor, or there is no task. -/
theorem procAllocFd_none {pid type ref : ℤ}
    (h : ∀ slot, pidSlot pid procs = some slot → closedFds (procs.tasks slot) = []) :
    procAllocFd pid type ref procs = (-1, procs) := by
  unfold procAllocFd
  cases hslot : pidSlot pid procs with
  | none => rfl
  | some slot =>
    dsimp only
    rw [closedFd_eq_head, h slot hslot]
    rfl

/-- proc_alloc_fd where there is one. -/
theorem procAllocFd_some {pid type ref : ℤ} {rest : List (Fin maxFds)}
    (hslot : pidSlot pid procs = some slot) (hfd : closedFds (procs.tasks slot) = fd :: rest) :
    procAllocFd pid type ref procs =
      ((fd.val : ℤ), procs.setTask slot ((procs.tasks slot).setFd fd ⟨type, ref, 0, 0⟩)) := by
  unfold procAllocFd
  rw [hslot]
  dsimp only
  rw [closedFd_eq_head, hfd]
  rfl

end Descriptors

section Creation

/-- The pipe that pipe_create takes was free. -/
theorem freePipe_free (h : freePipe table = some id) : table.allocated id = false := by
  have htest := List.find?_some h
  simpa using htest

/-- The table with a new pipe and other tasks. -/
def PipeTable.withPipe (table : PipeTable) (id : Fin maxPipes) (procs : Processes) : PipeTable :=
  { table with
    allocated := Function.update table.allocated id true
    pipes := Function.update table.pipes id (openPipe (table.pipes id))
    procs := procs }

/-- pipe_create with a free pipe. -/
theorem pipeCreate_eq (h : freePipe table = some id) :
    pipeCreate table =
      (0, some ((procAllocFd table.procs.currentTask.val 2 id.val table.procs).1,
        (procAllocFd table.procs.currentTask.val 2 (id.val + maxPipes)
          (procAllocFd table.procs.currentTask.val 2 id.val table.procs).2).1),
        table.withPipe id (procAllocFd table.procs.currentTask.val 2 (id.val + maxPipes)
          (procAllocFd table.procs.currentTask.val 2 id.val table.procs).2).2) := by
  unfold pipeCreate
  rw [h]
  rfl

/-- The tasks once two descriptors of one of them are the ends of a pipe. -/
def withEnds (procs : Processes) (slot : Slot) (readFd writeFd : Fin maxFds)
    (id : Fin maxPipes) : Processes :=
  let first := procs.setTask slot ((procs.tasks slot).setFd readFd ⟨2, id.val, 0, 0⟩)
  first.setTask slot ((first.tasks slot).setFd writeFd ⟨2, id.val + maxPipes, 0, 0⟩)

/-- The two allocations in a task with two closed descriptors. -/
theorem allocations_some {pid : ℤ} {readFd writeFd : Fin maxFds} {rest : List (Fin maxFds)}
    (hslot : pidSlot pid procs = some slot)
    (hclosed : closedFds (procs.tasks slot) = readFd :: writeFd :: rest) (id : Fin maxPipes) :
    (procAllocFd pid 2 id.val procs).1 = readFd.val ∧
      procAllocFd pid 2 (id.val + maxPipes) (procAllocFd pid 2 id.val procs).2 =
        ((writeFd.val : ℤ), withEnds procs slot readFd writeFd id) := by
  have hfirst : procAllocFd pid 2 id.val procs = ((readFd.val : ℤ),
      procs.setTask slot ((procs.tasks slot).setFd readFd ⟨2, id.val, 0, 0⟩)) :=
    procAllocFd_some hslot hclosed
  have hslot' : pidSlot pid (procs.setTask slot
      ((procs.tasks slot).setFd readFd ⟨2, id.val, 0, 0⟩)) = some slot := by
    rw [pidSlot_setFd, hslot]
  have hclosed' : closedFds ((procs.setTask slot
      ((procs.tasks slot).setFd readFd ⟨2, id.val, 0, 0⟩)).tasks slot) = writeFd :: rest := by
    rw [setTask_tasks_self]
    exact closedFds_setFd hclosed (by decide : (2 : ℤ) ≠ 0)
  rw [hfirst]
  exact ⟨rfl, procAllocFd_some hslot' hclosed'⟩

/-- Without such a task the second one fails. -/
theorem allocations_none {pid : ℤ}
    (h : ∀ slot readFd writeFd rest, pidSlot pid procs = some slot →
      closedFds (procs.tasks slot) ≠ readFd :: writeFd :: rest) (id : Fin maxPipes) :
    (procAllocFd pid 2 (id.val + maxPipes) (procAllocFd pid 2 id.val procs).2).1 = -1 := by
  cases hslot : pidSlot pid procs with
  | none =>
    have hnone : ∀ ref, procAllocFd pid 2 ref procs = (-1, procs) :=
      fun ref => procAllocFd_none (by simp [hslot])
    rw [hnone, hnone]
  | some slot =>
    have honly : ∀ other, pidSlot pid procs = some other → other = slot :=
      fun other hother => Option.some.inj (hother.symm.trans hslot)
    cases hclosed : closedFds (procs.tasks slot) with
    | nil =>
      have hnone : ∀ ref, procAllocFd pid 2 ref procs = (-1, procs) := by
        refine fun ref => procAllocFd_none fun other hother => ?_
        rw [honly other hother, hclosed]
      rw [hnone, hnone]
    | cons readFd rest =>
      cases rest with
      | nil =>
        have hnone : ∀ ref, procAllocFd pid 2 ref (procs.setTask slot
            ((procs.tasks slot).setFd readFd ⟨2, id.val, 0, 0⟩)) = (-1, procs.setTask slot
              ((procs.tasks slot).setFd readFd ⟨2, id.val, 0, 0⟩)) := by
          refine fun ref => procAllocFd_none fun other hother => ?_
          rw [pidSlot_setFd] at hother
          rw [honly other hother, setTask_tasks_self]
          exact closedFds_setFd hclosed (by decide : (2 : ℤ) ≠ 0)
        rw [procAllocFd_some hslot hclosed]
        exact congrArg Prod.fst (hnone _)
      | cons writeFd rest => exact absurd hclosed (h slot readFd writeFd rest hslot)

/-- The descriptors of the task that got the ends of a pipe. -/
theorem withEnds_self {readFd writeFd : Fin maxFds} (hne : readFd ≠ writeFd) :
    IsEnd (((withEnds procs slot readFd writeFd id).tasks slot).fds readFd) id.val ∧
      IsEnd (((withEnds procs slot readFd writeFd id).tasks slot).fds writeFd)
        (id.val + maxPipes) := by
  rw [withEnds, setTask_tasks_self, setTask_tasks_self, setFd_fds_self, setFd_fds_of_ne hne,
    setFd_fds_self]
  exact ⟨⟨rfl, rfl⟩, rfl, rfl⟩

/-- The other tasks. -/
theorem withEnds_of_ne {other : Slot} (hne : other ≠ slot) (readFd writeFd : Fin maxFds) :
    (withEnds procs slot readFd writeFd id).tasks other = procs.tasks other := by
  rw [withEnds, setTask_tasks_of_ne hne, setTask_tasks_of_ne hne]

/-- The pipe that was allocated in between is the one that pipe_create took. -/
theorem eq_of_allocated {other : Fin maxPipes} (hbefore : table.allocated other = false)
    (hnow : (table.withPipe id procs).allocated other = true) : other = id := by
  by_contra hne
  have hkept : (table.withPipe id procs).allocated other = table.allocated other :=
    Function.update_of_ne hne _ _
  rw [hkept, hbefore] at hnow
  exact Bool.false_ne_true hnow

/-- pipe_create does what it should if and only if no pipe is free, or the current task has two
closed descriptors and the search for a pid that is its slot leads to it. -/
theorem pipeCreates_iff (table : PipeTable) :
    PipeCreates table ↔ ∀ id, freePipe table = some id →
      2 ≤ (closedFds table.procs.current).length ∧ FindsOwn table id := by
  cases hfree : freePipe table with
  | none =>
    have hresult : pipeCreate table = (-1, none, table) := by
      unfold pipeCreate
      rw [hfree]
    refine iff_of_true ⟨fun hzero => ?_, fun _ => ?_⟩ nofun
    · rw [hresult] at hzero
      exact absurd hzero (by decide : ¬((-1 : ℤ) = 0))
    · rw [hresult]
      exact ⟨rfl, rfl⟩
  | some id =>
    have hresult := pipeCreate_eq hfree
    unfold PipeCreates
    rw [hresult]
    constructor
    · rintro ⟨hserves, hfails⟩ other hother
      obtain rfl := Option.some.inj hother
      have henough : 2 ≤ (closedFds table.procs.current).length := by
        by_contra hfew
        exact absurd (hfails (not_le.mp hfew)).1 (by decide : ¬((0 : ℤ) = -1))
      refine ⟨henough, ?_⟩
      have ⟨readFd, writeFd, hfds, hends⟩ := hserves rfl
      have ⟨hread, hwrite⟩ := Prod.mk.inj (Option.some.inj hfds)
      by_contra hnot
      have hsome : ∃ slot readFd writeFd rest,
          pidSlot table.procs.currentTask.val table.procs = some slot ∧
            closedFds (table.procs.tasks slot) = readFd :: writeFd :: rest := by
        by_contra hnone
        rw [allocations_none fun slot readFd writeFd rest hslot hclosed =>
          hnone ⟨slot, readFd, writeFd, rest, hslot, hclosed⟩] at hwrite
        omega
      have ⟨slot, readFd', writeFd', rest, hslot, hclosed⟩ := hsome
      have ⟨hfirst, hsecond⟩ := allocations_some hslot hclosed id
      rw [hfirst] at hread
      rw [hsecond] at hwrite hends
      have hreadFd : readFd' = readFd := Fin.ext (by omega)
      have hwriteFd : writeFd' = writeFd := Fin.ext (Int.ofNat.inj hwrite)
      rw [hreadFd, hwriteFd] at hclosed hends
      refine hnot ⟨slot, readFd, writeFd, rest, hslot, hclosed, or_iff_not_imp_left.mpr fun hother => ?_⟩
      have ⟨other, hbefore, hnow, hreadEnd, hwriteEnd⟩ := hends.ends
      have hcurrent : (withEnds table.procs slot readFd writeFd id).current = table.procs.current :=
        withEnds_of_ne (fun heq => hother heq.symm) readFd writeFd
      rw [eq_of_allocated hbefore hnow] at hreadEnd hwriteEnd
      have hsame : (table.withPipe id (withEnds table.procs slot readFd writeFd id)).procs.current =
          table.procs.current := hcurrent
      rw [hsame] at hreadEnd hwriteEnd
      exact ⟨hreadEnd, hwriteEnd⟩
    · intro hcondition
      have ⟨henough, slot, readFd, writeFd, rest, hslot, hclosed, hown⟩ := hcondition id rfl
      have ⟨hfirst, hsecond⟩ := allocations_some hslot hclosed id
      refine ⟨fun _ => ⟨readFd, writeFd, ?_, ?_⟩, fun hfew => absurd henough (by omega)⟩
      · rw [hfirst, hsecond]
      · rw [hsecond]
        have hnodup := nodup_closedFds (table.procs.tasks slot)
        rw [hclosed] at hnodup
        have hne : readFd ≠ writeFd := fun heq =>
          (List.nodup_cons.mp hnodup).1 (heq ▸ List.mem_cons_self)
        have hmem : ∀ fd ∈ [readFd, writeFd], 3 ≤ fd.val := by
          intro fd hfd
          have hclosedFd : fd ∈ closedFds (table.procs.tasks slot) := by
            rw [hclosed]
            exact List.mem_append_left rest hfd
          exact (mem_closedFds.mp hclosedFd).1
        have hnow : (table.withPipe id (withEnds table.procs slot readFd writeFd id)).allocated id =
            true := Function.update_self _ _ _
        refine ⟨hmem _ List.mem_cons_self, hmem _ (List.mem_cons_of_mem _ List.mem_cons_self), hne,
          id, freePipe_free hfree, hnow, ?_⟩
        by_cases hcurrent : slot = table.procs.currentTask
        · have hends := @withEnds_self table.procs slot id readFd writeFd hne
          have hsame : (table.withPipe id
              (withEnds table.procs slot readFd writeFd id)).procs.current =
              (withEnds table.procs slot readFd writeFd id).tasks slot := by
            rw [hcurrent]
            rfl
          rw [hsame]
          exact hends
        · have hsame : (table.withPipe id
              (withEnds table.procs slot readFd writeFd id)).procs.current =
              table.procs.current :=
            withEnds_of_ne (fun heq => hcurrent heq.symm) readFd writeFd
          rw [hsame]
          exact hown.resolve_left hcurrent

/-- The pipes when the second task of the boot runs. -/
def bootPipes : PipeTable := zeroPipes (bootTasks 0x1000 0x11000 0x12000 zeroProcesses)

/-- That task lies in slot 1, and the descriptors of its first pipe go to the task with the
pid 1. -/
theorem pipeCreates_boot : ¬PipeCreates bootPipes := by
  intro ⟨hserves, _⟩
  have ⟨readFd, writeFd, hfds, hends⟩ := hserves (by decide +kernel)
  have hthree : (pipeCreate bootPipes).2.1 = some (3, 4) := by decide +kernel
  rw [hthree] at hfds
  have hread := (Prod.mk.inj (Option.some.inj hfds)).1
  have hreadFd : readFd = ⟨3, by decide⟩ := Fin.ext (Int.ofNat.inj hread.symm)
  have ⟨_, _, _, hend, _⟩ := hends.ends
  have htype : ((pipeCreate bootPipes).2.2.procs.current.fds ⟨3, by decide⟩).type = 0 := by
    decide +kernel
  rw [hreadFd] at hend
  have htwo := hend.1
  rw [htype] at htwo
  exact absurd htwo (by decide)

end Creation

end HexaOS.Pipes
