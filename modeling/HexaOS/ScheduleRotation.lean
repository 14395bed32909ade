import Mathlib.Data.List.GetD
import Mathlib.Data.List.Rotate
import HexaOS.Processes

/-!
# Taking turns

When all runnable tasks have the same priority, schedule picks the next one in the cyclic order
of the slots. One switch then moves the order by one place, so that as many switches as there
are runnable tasks resume each of them once.
-/

namespace HexaOS.Process

variable {procs : Processes} {tasks : Slot → Task} {cur next : Slot}

/-- All slots from the one after the current task on, up to the current one. -/
def turns (cur : Slot) : List Slot := candidates cur ++ [cur]

/-- The runnable tasks in the order of their slots from the one after the current task on. -/
def queue (tasks : Slot → Task) (cur : Slot) : List Slot :=
  (turns cur).filter fun slot => (tasks slot).state.runnable

/-- The tasks that are current after each of some calls of schedule. -/
def resumed : List UInt32 → Processes → List Slot
  | [], _ => []
  | regs :: rest, procs =>
    (schedule regs procs).2.currentTask :: resumed rest (schedule regs procs).2

/-- The state after some calls of schedule. -/
def afterCalls : List UInt32 → Processes → Processes
  | [], procs => procs
  | regs :: rest, procs => afterCalls rest (schedule regs procs).2

/-- All runnable tasks have one priority, and the current task is one of at least two. -/
structure Sharing (procs : Processes) : Prop where
  /-- The current task can run. -/
  current : procs.current.state.runnable = true
  /-- All that can run have its priority. -/
  priority : ∀ slot, (procs.tasks slot).state.runnable = true →
    (procs.tasks slot).priority = procs.current.priority
  /-- num_tasks counts two or more. -/
  tasks : 2 ≤ procs.numTasks
  /-- Two tasks can run. -/
  many : 2 ≤ (queue procs.tasks procs.currentTask).length

section Order

theorem turns_rotate : ∀ (cur : Slot) (i : Fin 16),
    turns ((turns cur).getD i cur) = (turns cur).rotate (i + 1) := by
  decide +kernel

theorem nodup_turns : ∀ cur : Slot, (turns cur).Nodup := by decide +kernel

theorem mem_turns : ∀ cur slot : Slot, slot ∈ turns cur := by decide +kernel

theorem length_turns : ∀ cur : Slot, (turns cur).length = 16 := by decide +kernel

/-- The order from another slot on. -/
theorem turns_of_split {before after : List Slot} (h : turns cur = before ++ next :: after) :
    turns next = after ++ (before ++ [next]) := by
  have hlength := length_turns cur
  rw [h, List.length_append, List.length_cons] at hlength
  have hlt : before.length < 16 := by omega
  have hrotate := turns_rotate cur ⟨before.length, hlt⟩
  have hnext : (turns cur).getD before.length cur = next := by
    rw [h, List.getD_append_right _ _ _ _ (Nat.le_refl _), Nat.sub_self]
    rfl
  have hsplit : turns cur = (before ++ [next]) ++ after := by
    rw [h, List.append_assoc]
    rfl
  have hplaces : before.length + 1 = (before ++ [next]).length := by
    rw [List.length_append, List.length_singleton]
  rw [show ((⟨before.length, hlt⟩ : Fin 16) : ℕ) = before.length from rfl, hnext] at hrotate
  rw [hrotate, hsplit, hplaces, List.rotate_append_length_eq]

/-- The runnable tasks from the first of them on: it moves to the end. -/
theorem queue_of_head {rest : List Slot} (h : queue tasks cur = next :: rest) :
    queue tasks next = rest ++ [next] := by
  have ⟨before, after, hsplit, hbefore, hnext, hafter⟩ := List.filter_eq_cons_iff.mp h
  have hnone : before.filter (fun slot => (tasks slot).state.runnable) = [] :=
    List.filter_eq_nil_iff.mpr hbefore
  rw [queue, turns_of_split hsplit, List.filter_append, List.filter_append, hnone, hafter,
    List.filter_singleton, hnext]
  rfl

/-- The order depends on which tasks are runnable. -/
theorem queue_congr {tasks' : Slot → Task}
    (h : ∀ slot, (tasks' slot).state.runnable = (tasks slot).state.runnable) (cur : Slot) :
    queue tasks' cur = queue tasks cur :=
  List.filter_congr fun slot _ => h slot

end Order

section Choice

/-- A choice stays when no other task has a higher priority. -/
theorem foldl_prefer_kept {slots : List Slot} (hne : next ≠ cur)
    (hpriority : ∀ slot, (tasks slot).state.runnable = true →
      (tasks slot).priority = (tasks next).priority) :
    slots.foldl (prefer tasks cur) next = next := by
  induction slots with
  | nil => rfl
  | cons slot slots ih =>
    have hkept : prefer tasks cur next slot = next := by
      unfold prefer
      split_ifs with hrunnable hlower hother
      · rfl
      · have hsame := hpriority slot hrunnable
        rcases hother with heq | hhigher
        · exact absurd heq hne
        · omega
      · rfl
      · rfl
    rw [List.foldl_cons, hkept, ih]

/-- The first pass takes the first runnable task. -/
theorem foldl_prefer_first {slots : List Slot} (hslots : cur ∉ slots)
    (hpriority : ∀ slot, (tasks slot).state.runnable = true →
      (tasks slot).priority = (tasks cur).priority) :
    slots.foldl (prefer tasks cur) cur =
      (slots.find? fun slot => (tasks slot).state.runnable).getD cur := by
  induction slots with
  | nil => rfl
  | cons slot slots ih =>
    have hrest : cur ∉ slots := fun hmem => hslots (List.mem_cons_of_mem _ hmem)
    have hne : slot ≠ cur := fun heq => hslots (heq ▸ List.mem_cons_self)
    rw [List.foldl_cons]
    by_cases hrunnable : (tasks slot).state.runnable = true
    · have hsame := hpriority slot hrunnable
      have htaken : prefer tasks cur cur slot = slot := by
        have hnotlower : ¬(tasks slot).priority < (tasks cur).priority := by omega
        rw [prefer, if_pos hrunnable, if_neg hnotlower, if_pos (.inl rfl)]
      have hall : ∀ other, (tasks other).state.runnable = true →
          (tasks other).priority = (tasks slot).priority :=
        fun other hother => (hpriority other hother).trans hsame.symm
      rw [htaken, foldl_prefer_kept hne hall, List.find?_cons, hrunnable]
      rfl
    · have hkept : prefer tasks cur cur slot = cur := by rw [prefer, if_neg hrunnable]
      rw [hkept, ih hrest, List.find?_cons, Bool.eq_false_iff.mpr hrunnable]

theorem not_mem_candidates : ∀ cur : Slot, cur ∉ candidates cur := by decide +kernel

/-- The first task of the queue is the first runnable one that schedule looks at. -/
theorem find_candidates (hcur : (tasks cur).state.runnable = true) {rest : List Slot}
    (hrest : rest ≠ []) (hqueue : queue tasks cur = next :: rest) :
    (candidates cur).find? (fun slot => (tasks slot).state.runnable) = some next := by
  rw [queue, turns, List.filter_append, List.filter_singleton, hcur] at hqueue
  rw [← List.head?_filter]
  cases hfilter : (candidates cur).filter fun slot => (tasks slot).state.runnable with
  | nil =>
    rw [hfilter] at hqueue
    exact absurd (List.cons.inj hqueue).2.symm hrest
  | cons slot slots =>
    rw [hfilter] at hqueue
    exact congrArg some (List.cons.inj hqueue).1

/-- With equal priorities schedule picks it. -/
theorem pickNext_eq_head (hpriority : ∀ slot, (tasks slot).state.runnable = true →
      (tasks slot).priority = (tasks cur).priority)
    (hfound : (candidates cur).find? (fun slot => (tasks slot).state.runnable) = some next) :
    pickNext tasks cur = next := by
  have hpass : firstPass tasks cur = next := by
    rw [firstPass, foldl_prefer_first (not_mem_candidates cur) hpriority, hfound]
    rfl
  rw [pickNext, hpass, hfound]
  split_ifs <;> rfl

end Choice

section Switches

/-- schedule saves the current task and resumes another one; both stay runnable, with their
priorities. -/
structure Switched (procs : Processes) (next : Slot) (after : Processes) : Prop where
  /-- The next task is the current one. -/
  current : after.currentTask = next
  /-- Who can run stays. -/
  runnable : ∀ slot, (after.tasks slot).state.runnable = (procs.tasks slot).state.runnable
  /-- Priorities stay. -/
  priority : ∀ slot, (after.tasks slot).priority = (procs.tasks slot).priority
  /-- num_tasks stays. -/
  numTasks : after.numTasks = procs.numTasks

theorem preempted_runnable (state : TaskState) : state.preempted.runnable = state.runnable := by
  cases state <;> rfl

/-- The tasks after the current one was saved. -/
theorem saveTask_spec (regs : UInt32) (procs : Processes) (slot : Slot) :
    ((saveTask regs procs).tasks slot).state.runnable = (procs.tasks slot).state.runnable ∧
      ((saveTask regs procs).tasks slot).priority = (procs.tasks slot).priority := by
  by_cases hslot : slot = procs.currentTask
  · rw [hslot, saveTask, setTask_tasks_self]
    exact ⟨preempted_runnable _, rfl⟩
  · rw [saveTask, setTask_tasks_of_ne hslot]
    exact ⟨rfl, rfl⟩

/-- A task that is resumed was runnable. -/
theorem resumeTask_switched (hnext : (procs.tasks next).state.runnable = true) :
    Switched procs next (resumeTask next procs) where
  current := rfl
  runnable slot := by
    by_cases hslot : slot = next
    · rw [hslot, hnext]
      show ((procs.setTask next _).tasks next).state.runnable = true
      rw [setTask_tasks_self]
      rfl
    · show ((procs.setTask next _).tasks slot).state.runnable = _
      rw [setTask_tasks_of_ne hslot]
  priority slot := by
    by_cases hslot : slot = next
    · rw [hslot]
      show ((procs.setTask next _).tasks next).priority = _
      rw [setTask_tasks_self]
    · show ((procs.setTask next _).tasks slot).priority = _
      rw [setTask_tasks_of_ne hslot]
  numTasks := rfl

/-- With equal priorities schedule resumes the first task of the queue. -/
theorem Sharing.schedule (h : Sharing procs) (regs : UInt32) {rest : List Slot}
    (hqueue : queue procs.tasks procs.currentTask = next :: rest) :
    Switched procs next (schedule regs procs).2 := by
  have hsaved := saveTask_spec regs procs
  have hrest : rest ≠ [] := by
    intro hnil
    have hmany := h.many
    rw [hqueue, hnil, List.length_singleton] at hmany
    omega
  have hcur : ((saveTask regs procs).tasks procs.currentTask).state.runnable = true :=
    (hsaved procs.currentTask).1.trans h.current
  rw [← queue_congr fun slot => (hsaved slot).1] at hqueue
  have hfound := find_candidates hcur hrest hqueue
  have hpick : pickNext (saveTask regs procs).tasks procs.currentTask = next := by
    refine pickNext_eq_head (fun slot hrunnable => ?_) hfound
    rw [(hsaved slot).1] at hrunnable
    rw [(hsaved slot).2, (hsaved procs.currentTask).2]
    exact h.priority slot hrunnable
  have hne : next ≠ procs.currentTask := by
    rintro rfl
    exact not_mem_candidates _ (List.mem_of_find?_eq_some hfound)
  have hfew : ¬procs.numTasks ≤ 1 := by
    have htasks := h.tasks
    omega
  have hrunnable := List.find?_some hfound
  have hresumed : Switched (saveTask regs procs) next (resumeTask next (saveTask regs procs)) :=
    resumeTask_switched hrunnable
  have hschedule : (Process.schedule regs procs).2 = resumeTask next (saveTask regs procs) := by
    rw [Process.schedule, if_neg hfew, hpick]
    dsimp only
    rw [if_neg hne]
  rw [hschedule]
  exact ⟨hresumed.current, fun slot => (hresumed.runnable slot).trans (hsaved slot).1,
    fun slot => (hresumed.priority slot).trans (hsaved slot).2, hresumed.numTasks⟩

/-- The tasks go on sharing, and the task that was resumed waits behind the others. -/
theorem Sharing.after (h : Sharing procs) (regs : UInt32) {rest : List Slot}
    (hqueue : queue procs.tasks procs.currentTask = next :: rest) :
    Sharing (Process.schedule regs procs).2 ∧
      queue (Process.schedule regs procs).2.tasks (Process.schedule regs procs).2.currentTask =
        rest ++ [next] := by
  have hswitched := h.schedule regs hqueue
  generalize (Process.schedule regs procs).2 = after at hswitched ⊢
  have hmem : next ∈ queue procs.tasks procs.currentTask := by
    rw [hqueue]
    exact List.mem_cons_self
  have hrunnable : (procs.tasks next).state.runnable = true := (List.mem_filter.mp hmem).2
  have hafter : queue after.tasks after.currentTask = rest ++ [next] := by
    rw [queue_congr hswitched.runnable, hswitched.current, queue_of_head hqueue]
  refine ⟨⟨?_, fun slot hslot => ?_, ?_, ?_⟩, hafter⟩
  · rw [Processes.current, hswitched.current, hswitched.runnable, hrunnable]
  · rw [hswitched.runnable] at hslot
    rw [Processes.current, hswitched.current, hswitched.priority, hswitched.priority,
      h.priority slot hslot, h.priority next hrunnable]
  · rw [hswitched.numTasks]
    exact h.tasks
  · have hmany := h.many
    rw [hqueue, List.length_cons] at hmany
    rw [hafter, List.length_append, List.length_singleton]
    exact hmany

end Switches

section Turns

/-- As long as there are fewer calls than runnable tasks, they are resumed in their order. -/
theorem Sharing.resumed (h : Sharing procs) {regs : List UInt32}
    (hlength : regs.length ≤ (queue procs.tasks procs.currentTask).length) :
    resumed regs procs = (queue procs.tasks procs.currentTask).take regs.length := by
  induction regs generalizing procs with
  | nil => rw [Process.resumed, List.length_nil, List.take_zero]
  | cons reg regs ih =>
    cases hqueue : queue procs.tasks procs.currentTask with
    | nil =>
      have hmany := h.many
      rw [hqueue, List.length_nil] at hmany
      omega
    | cons next rest =>
      have ⟨hsharing, hafter⟩ := h.after reg hqueue
      rw [hqueue, List.length_cons, List.length_cons] at hlength
      have hfits : regs.length ≤ rest.length := by omega
      have htake : (rest ++ [next]).take regs.length = rest.take regs.length :=
        List.take_append_of_le_length hfits
      rw [Process.resumed, ih hsharing (by rw [hafter, List.length_append]; omega), hafter, htake,
        (h.schedule reg hqueue).current, List.length_cons, List.take_succ_cons]

/-- The task that is current at the end. -/
theorem currentTask_afterCalls (regs : List UInt32) (procs : Processes) :
    (afterCalls regs procs).currentTask = (resumed regs procs).getLastD procs.currentTask := by
  induction regs generalizing procs with
  | nil => rfl
  | cons reg regs ih => rw [afterCalls, ih, resumed, List.getLastD_cons]

/-- The slots of the runnable tasks. -/
def runnableSlots (procs : Processes) : Finset Slot :=
  Finset.univ.filter fun slot => (procs.tasks slot).state.runnable = true

/-- Each runnable task stands in the queue once. -/
theorem length_queue (procs : Processes) (cur : Slot) :
    (queue procs.tasks cur).length = (runnableSlots procs).card := by
  have hnodup : (queue procs.tasks cur).Nodup := (nodup_turns cur).filter _
  have hset : (queue procs.tasks cur).toFinset = runnableSlots procs := by
    ext slot
    rw [List.mem_toFinset, queue, List.mem_filter, runnableSlots, Finset.mem_filter]
    exact and_congr_left fun _ => iff_of_true (mem_turns cur slot) (Finset.mem_univ slot)
  rw [← hset, List.toFinset_card_of_nodup hnodup]

/-- When the runnable tasks have one priority, as many calls of schedule as there are such tasks
make each of them current once, in the cyclic order of the slots, and end at the task that was
current at the start. -/
theorem schedule_rotates (hcurrent : procs.current.state.runnable = true)
    (hmany : 2 ≤ (runnableSlots procs).card) (htasks : 2 ≤ procs.numTasks)
    (hpriority : ∀ slot, (procs.tasks slot).state.runnable = true →
      (procs.tasks slot).priority = procs.current.priority) {regs : List UInt32}
    (hcalls : regs.length = (runnableSlots procs).card) :
    resumed regs procs = (turns procs.currentTask).filter
        (fun slot => (procs.tasks slot).state.runnable) ∧
      (∀ slot ∈ runnableSlots procs, (resumed regs procs).count slot = 1) ∧
      (afterCalls regs procs).currentTask = procs.currentTask := by
  have hlength := length_queue procs procs.currentTask
  have hsharing : Sharing procs := ⟨hcurrent, hpriority, htasks, by rw [hlength]; exact hmany⟩
  have hresumed := hsharing.resumed (by rw [hlength, hcalls] : regs.length ≤ _)
  rw [hcalls, ← hlength, List.take_length] at hresumed
  refine ⟨hresumed, fun slot hslot => ?_, ?_⟩
  · have hnodup : (queue procs.tasks procs.currentTask).Nodup := (nodup_turns _).filter _
    have hmem : slot ∈ queue procs.tasks procs.currentTask :=
      List.mem_filter.mpr ⟨mem_turns _ slot, (Finset.mem_filter.mp hslot).2⟩
    rw [hresumed, List.count_eq_one_of_mem hnodup hmem]
  · have hlast : queue procs.tasks procs.currentTask =
        (candidates procs.currentTask).filter (fun slot => (procs.tasks slot).state.runnable) ++
          [procs.currentTask] := by
      have hself : (procs.tasks procs.currentTask).state.runnable = true := hcurrent
      rw [queue, turns, List.filter_append, List.filter_singleton, hself]
      rfl
    rw [currentTask_afterCalls, hresumed, hlast, List.getLastD_concat]

/-- Tasks in every fifth slot. -/
def everyFifth : Processes :=
  { zeroProcesses with
    tasks := fun slot => { zeroProcesses.tasks slot with
      state := if slot.val % 5 = 0 then .ready else .dead }
    numTasks := 4 }

/-- Four calls resume the four tasks in their order. -/
theorem schedule_everyFifth : resumed [0, 0, 0, 0] everyFifth = [5, 10, 15, 0] := by
  have hpriority : ∀ slot, (everyFifth.tasks slot).state.runnable = true →
      (everyFifth.tasks slot).priority = everyFifth.current.priority := fun _ _ => rfl
  have hrotates := @schedule_rotates everyFifth (by decide) (by decide) (by decide)
    hpriority [0, 0, 0, 0] (by decide)
  rw [hrotates.1]
  decide

end Turns

end HexaOS.Process
