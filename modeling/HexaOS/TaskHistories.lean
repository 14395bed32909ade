import HexaOS.ProcessCounts
import HexaOS.StepRuns
import HexaOS.TaskEvents

/-!
# What a slot keeps from its earlier tasks

The history of a slot of the task table counts the events that were queued in it and not
polled, and collects the descriptors that were given and not freed. The queue and the
descriptors of the slot are what its history says, whichever tasks have lived in it, so that
a new task finds them as it should exactly when the history has come back to nothing.
-/

namespace HexaOS.Process

open HexaOS.RingBuffers HexaOS.StepRuns
open Hexafs (CString)

/-- What no operation on the task table touches in a slot. -/
def Task.belongings (task : Task) :
    (Fin maxFds → FdEntry) × (Fin eventQueueSize → Event) × ℕ × ℕ × Bool :=
  (task.fds, task.eventQueue, task.eventHead, task.eventTail, task.eventPending)

/-- The event queue of a task as a ring. -/
def Task.queue (task : Task) : Ring eventQueueSize Event where
  cells := task.eventQueue
  head := Fin.ofNat eventQueueSize task.eventHead
  tail := Fin.ofNat eventQueueSize task.eventTail

/-- The positions lie in the queue and the flag tells whether it holds an event. -/
structure QueueSound (task : Task) : Prop where
  /-- The head is a place of the queue. -/
  head_lt : task.eventHead < eventQueueSize
  /-- The tail is a place of the queue. -/
  tail_lt : task.eventTail < eventQueueSize
  /-- The flag tells whether an event waits. -/
  pending : task.eventPending = true ↔ ¬task.queue.Empty

section Queues

variable {task : Task}

/-- A queue is empty when its positions are equal. -/
theorem QueueSound.empty_iff (h : QueueSound task) :
    task.queue.Empty ↔ task.eventTail = task.eventHead := by
  have hhead := h.head_lt
  have htail := h.tail_lt
  simp only [Ring.Empty, Task.queue, Fin.ext_iff, Fin.val_ofNat, Nat.mod_eq_of_lt hhead,
    Nat.mod_eq_of_lt htail]
  exact eq_comm

/-- The successor of a position. -/
theorem ofNat_succ (position : ℕ) :
    Fin.ofNat eventQueueSize ((position + 1) % eventQueueSize) =
      Fin.ofNat eventQueueSize position + 1 := by
  apply Fin.ext
  rw [Fin.val_add, Fin.val_ofNat, Fin.val_ofNat, Fin.val_one', Nat.mod_mod, ← Nat.add_mod]

/-- A queue is full when the next position of the head is the tail. -/
theorem QueueSound.full_iff (h : QueueSound task) :
    task.queue.Full ↔ (task.eventHead + 1) % eventQueueSize = task.eventTail := by
  have htail := h.tail_lt
  have hnext : (task.eventHead + 1) % eventQueueSize < eventQueueSize := Nat.mod_lt _ (by decide)
  simp only [Ring.Full, Task.queue, ← ofNat_succ, Fin.ext_iff, Fin.val_ofNat,
    Nat.mod_eq_of_lt hnext, Nat.mod_eq_of_lt htail]

/-- The task after an event has come in. -/
def Task.receive (event : Event) (task : Task) : Task :=
  { task with
    eventQueue := Function.update task.eventQueue (Fin.ofNat eventQueueSize task.eventHead) event
    eventHead := (task.eventHead + 1) % eventQueueSize
    eventPending := true }

/-- The task after an event has gone out. -/
def Task.consume (task : Task) : Task :=
  { task with
    eventTail := (task.eventTail + 1) % eventQueueSize
    eventPending :=
      if (task.eventTail + 1) % eventQueueSize = task.eventHead then false else task.eventPending }

theorem queue_receive (event : Event) (task : Task) :
    (task.receive event).queue = task.queue.push event := by
  simp only [Task.queue, Task.receive, Ring.push, ofNat_succ]

theorem queue_consume (task : Task) : task.consume.queue = task.queue.pop := by
  simp only [Task.queue, Task.consume, Ring.pop, ofNat_succ]

/-- An event comes into a queue that has room. -/
theorem QueueSound.receive (h : QueueSound task) (event : Event) (hroom : ¬task.queue.Full) :
    QueueSound (task.receive event) where
  head_lt := Nat.mod_lt _ (by decide)
  tail_lt := h.tail_lt
  pending := by
    have hsize := Ring.size_push event hroom
    rw [← queue_receive] at hsize
    have hsome : ¬(task.receive event).queue.Empty := by
      rw [← Ring.size_eq_zero_iff]
      omega
    exact iff_of_true rfl hsome

/-- An event goes out of a queue that holds one. -/
theorem QueueSound.consume (h : QueueSound task) (hsome : ¬task.queue.Empty) :
    QueueSound task.consume := by
  have htail : (task.eventTail + 1) % eventQueueSize < eventQueueSize :=
    Nat.mod_lt _ (by decide)
  have hpending : task.eventPending = true := h.pending.mpr hsome
  refine ⟨h.head_lt, htail, ?_⟩
  have hempty : task.consume.queue.Empty ↔
      (task.eventTail + 1) % eventQueueSize = task.eventHead := by
    simp only [Ring.Empty, Task.queue, Task.consume, Fin.ext_iff, Fin.val_ofNat,
      Nat.mod_eq_of_lt h.head_lt, Nat.mod_eq_of_lt htail]
    exact eq_comm
  rw [hempty]
  simp only [Task.consume]
  split_ifs with hlast
  · exact iff_of_false not_false (not_not_intro hlast)
  · exact iff_of_true hpending hlast

end Queues

section Operations

variable {procs : Processes} {slot : Slot} {task : Task}

/-- A change of a task that leaves its belongings leaves those of all tasks. -/
theorem setTask_belongings (h : task.belongings = (procs.tasks slot).belongings) (other : Slot) :
    ((procs.setTask slot task).tasks other).belongings = (procs.tasks other).belongings := by
  by_cases hne : other = slot
  · rw [hne, setTask_tasks_self, h]
  · rw [setTask_tasks_of_ne hne]

/-- alloc_pid leaves the belongings. -/
theorem takeSlot_belongings (slot other : Slot) (procs : Processes) :
    ((takeSlot slot procs).tasks other).belongings = (procs.tasks other).belongings := by
  have htask : ({ procs.tasks slot with pid := procs.nextPid } : Task).belongings =
      (procs.tasks slot).belongings := rfl
  exact setTask_belongings htask other

/-- proc_create leaves the belongings. -/
theorem procCreate_belongings (kernelPageDir entry : UInt32) (name : CString) (priority : ℤ)
    (procs : Processes) (other : Slot) :
    ((procCreate kernelPageDir entry name priority procs).2.tasks other).belongings =
      (procs.tasks other).belongings := by
  unfold procCreate allocPid
  split_ifs with hfull
  · rfl
  · cases deadSlot procs with
    | none => rfl
    | some slot =>
      have hplaced : ((placeTask slot
          (kernelTask kernelPageDir name priority slot (takeSlot slot procs))
          (initialFrame 0x10 entry 0x08 0x202 ((takeSlot slot procs).stackOf slot + stackSize))
          (takeSlot slot procs)).2.tasks other).belongings =
          ((takeSlot slot procs).tasks other).belongings := setTask_belongings (by rfl) other
      exact hplaced.trans (takeSlot_belongings slot other procs)

/-- proc_create_user leaves the belongings. -/
theorem procCreateUser_belongings (userStack pageDir entry : UInt32) (name : CString)
    (procs : Processes) (other : Slot) :
    ((procCreateUser userStack pageDir entry name procs).2.tasks other).belongings =
      (procs.tasks other).belongings := by
  unfold procCreateUser allocPid
  by_cases hfull : procs.numTasks ≥ maxTasks
  · rw [if_pos hfull]
  · rw [if_neg hfull]
    cases deadSlot procs with
    | none => rfl
    | some slot =>
      have htaken := takeSlot_belongings slot other procs
      dsimp only
      split_ifs with hstack
      · exact (setTask_belongings (by rfl) other).trans htaken
      · have hplaced : ((placeTask slot (userTask userStack pageDir name slot (takeSlot slot procs))
            (initialFrame 0x20 entry 0x18 0x202 (userStack + 4096))
            (takeSlot slot procs)).2.tasks other).belongings =
            ((takeSlot slot procs).tasks other).belongings := setTask_belongings (by rfl) other
        exact hplaced.trans htaken

/-- proc_exit leaves the belongings. -/
theorem procExit_belongings (code : ℤ) (procs : Processes) (other : Slot) :
    ((procExit code procs).tasks other).belongings = (procs.tasks other).belongings := by
  have hended : ((exitTask code procs).tasks other).belongings =
      (procs.tasks other).belongings := by
    rw [exitTask_eq]
    exact setTask_belongings (by rfl) other
  unfold procExit
  cases exitNext (exitTask code procs) with
  | none => exact hended
  | some next =>
    have hresumed : (((exitTask code procs).setTask next { (exitTask code procs).tasks next with
        state := .running }).tasks other).belongings =
        ((exitTask code procs).tasks other).belongings := setTask_belongings (by rfl) other
    exact hresumed.trans hended

/-- schedule leaves the belongings. -/
theorem schedule_belongings (regs : UInt32) (procs : Processes) (other : Slot) :
    ((schedule regs procs).2.tasks other).belongings = (procs.tasks other).belongings := by
  have hsaved : ((saveTask regs procs).tasks other).belongings =
      (procs.tasks other).belongings := setTask_belongings (by rfl) other
  unfold schedule
  split_ifs with hfew
  · rfl
  · dsimp only
    split_ifs with hsame
    · exact hsaved
    · have hresumed : ((resumeTask (pickNext (saveTask regs procs).tasks procs.currentTask)
          (saveTask regs procs)).tasks other).belongings =
          ((saveTask regs procs).tasks other).belongings := setTask_belongings (by rfl) other
      exact hresumed.trans hsaved

/-- No operation on the task table touches the belongings of a slot. -/
theorem operation_belongings (op : Operation) (procs : Processes) (other : Slot) :
    ((op.after procs).tasks other).belongings = (procs.tasks other).belongings := by
  cases op with
  | create kernelPageDir entry name priority =>
    exact procCreate_belongings kernelPageDir entry name priority procs other
  | createUser userStack pageDir entry name =>
    exact procCreateUser_belongings userStack pageDir entry name procs other
  | exit code => exact procExit_belongings code procs other
  | kill pid =>
    show ((procKill pid procs).2.tasks other).belongings = _
    unfold procKill
    split_ifs with hpid
    · rfl
    · cases killTarget pid procs with
      | none => rfl
      | some slot =>
        dsimp only
        split_ifs with hcurrent
        · exact procExit_belongings (-1) procs other
        · exact setTask_belongings (by rfl) other
  | wait =>
    show ((procWait procs).2.2.tasks other).belongings = _
    unfold procWait
    cases waitTarget procs with
    | none => rfl
    | some slot => exact setTask_belongings (by rfl) other
  | reapZombies =>
    show ((procReapZombies procs).tasks other).belongings = _
    simp only [procReapZombies]
    split_ifs with hzombie
    · rfl
    · rfl
  | schedule regs => exact schedule_belongings regs procs other

end Operations

section Calls

variable {procs : Processes} {slot : Slot}

/-- process_event_send to a pid that no task has. -/
theorem processEventSend_none {target : ℤ} (h : killTarget target procs = none)
    (eventType payloadHash ticks : UInt32) :
    processEventSend target eventType payloadHash ticks procs = (-1, procs) := by
  rw [processEventSend, h]

/-- process_event_send to a full queue. -/
theorem processEventSend_full {target : ℤ} (h : killTarget target procs = some slot)
    (hsound : QueueSound (procs.tasks slot)) (hfull : (procs.tasks slot).queue.Full)
    (eventType payloadHash ticks : UInt32) :
    processEventSend target eventType payloadHash ticks procs = (-1, procs) := by
  rw [processEventSend, h]
  exact if_pos (hsound.full_iff.mp hfull)

/-- process_event_send to a queue that has room. -/
theorem processEventSend_room {target : ℤ} (h : killTarget target procs = some slot)
    (hsound : QueueSound (procs.tasks slot)) (hroom : ¬(procs.tasks slot).queue.Full)
    (eventType payloadHash ticks : UInt32) :
    processEventSend target eventType payloadHash ticks procs =
      (0, procs.setTask slot
        ((procs.tasks slot).receive (sentEvent eventType payloadHash ticks procs))) := by
  rw [processEventSend, h]
  exact if_neg fun hnext => hroom (hsound.full_iff.mpr hnext)

/-- A change of a task to itself. -/
theorem setTask_self {task : Task} (h : task = procs.tasks slot) :
    procs.setTask slot task = procs := by
  rw [h, Processes.setTask, Function.update_eq_self]

/-- process_event_poll of an empty queue. -/
theorem processEventPoll_empty (hsound : QueueSound procs.current)
    (hempty : procs.current.queue.Empty) (mask : UInt32) :
    processEventPoll mask procs = (-1, none, procs) := by
  have hpending : procs.current.eventPending = false := by
    cases hvalue : procs.current.eventPending with
    | false => rfl
    | true => exact absurd hempty (hsound.pending.mp hvalue)
  have htask : ({ procs.current with eventPending := false } : Task) =
      procs.tasks procs.currentTask := by
    rw [← hpending]
    rfl
  rw [processEventPoll]
  dsimp only
  rw [if_pos (hsound.empty_iff.mp hempty), setTask_self htask]

/-- process_event_poll with a mask that the oldest event does not meet. -/
theorem processEventPoll_masked {mask : UInt32} (hsound : QueueSound procs.current)
    (hsome : ¬procs.current.queue.Empty)
    (hmask : mask ≠ 0 ∧ procs.current.queue.front.eventType &&& mask = 0) :
    processEventPoll mask procs = (-1, none, procs) := by
  have hne := mt hsound.empty_iff.mpr hsome
  rw [processEventPoll]
  dsimp only
  rw [if_neg hne]
  exact if_pos hmask

/-- process_event_poll takes the oldest event. -/
theorem processEventPoll_takes {mask : UInt32} (hsound : QueueSound procs.current)
    (hsome : ¬procs.current.queue.Empty)
    (hmask : ¬(mask ≠ 0 ∧ procs.current.queue.front.eventType &&& mask = 0)) :
    processEventPoll mask procs = (procs.current.queue.front.eventType.toInt32.toInt,
      some procs.current.queue.front,
      procs.setTask procs.currentTask procs.current.consume) := by
  have hne := mt hsound.empty_iff.mpr hsome
  rw [processEventPoll]
  dsimp only
  rw [if_neg hne]
  exact if_neg hmask

end Calls

/-- What the tasks of a slot were given and have not given back. -/
structure SlotHistory where
  /-- The events that came in and have not been polled. -/
  unread : ℕ
  /-- The descriptors that proc_alloc_fd gave and proc_free_fd has not taken. -/
  given : Finset (Fin maxFds)
  /-- The descriptors of the console that proc_free_fd took. -/
  closed : Finset (Fin maxFds)
  deriving DecidableEq

/-- The history of a slot in which nothing is left. -/
def nothingLeft : SlotHistory := ⟨0, ∅, ∅⟩

/-- The task table and the history of every slot. -/
structure History where
  /-- The table of tasks. -/
  procs : Processes
  /-- What was done for each slot. -/
  slots : Slot → SlotHistory

/-- The history of a slot after a call. -/
def slotAfterCall (call : TaskCall) (procs : Processes) (slot : Slot) (record : SlotHistory) :
    SlotHistory :=
  match call with
  | .table _ => record
  | .send target eventType payloadHash ticks =>
    if killTarget target procs = some slot ∧
        (processEventSend target eventType payloadHash ticks procs).1 = 0
    then { record with unread := record.unread + 1 } else record
  | .poll mask =>
    if slot = procs.currentTask ∧ (processEventPoll mask procs).2.1.isSome
    then { record with unread := record.unread - 1 } else record
  | .allocFd pid type _ =>
    match closedFd (procs.tasks slot) with
    | some fd =>
      if pidSlot pid procs = some slot ∧ type ≠ 0
      then { record with given := insert fd record.given } else record
    | none => record
  | .freeFd pid fd =>
    match fdIndex fd with
    | some fd =>
      if pidSlot pid procs = some slot then
        if fd.val < 3 then { record with closed := insert fd record.closed }
        else { record with given := record.given.erase fd }
      else record
    | none => record

/-- The histories after a call. -/
def History.after (call : TaskCall) (history : History) : History where
  procs := call.after history.procs
  slots slot := slotAfterCall call history.procs slot (history.slots slot)

/-- A slot is as its history says. -/
structure Records (record : SlotHistory) (task : Task) : Prop where
  /-- The queue is in order. -/
  queue : QueueSound task
  /-- It holds as many events as are unread. -/
  unread : task.queue.size = record.unread
  /-- A standard descriptor that was not closed is on the console. -/
  console : ∀ fd : Fin maxFds, fd.val < 3 → fd ∉ record.closed →
    (task.fds fd).type = 3 ∧ (task.fds fd).ref = 0
  /-- One that was closed is free. -/
  closed : ∀ fd ∈ record.closed, fd.val < 3 ∧ (task.fds fd).type = 0
  /-- A descriptor that was given is open. -/
  given : ∀ fd ∈ record.given, 3 ≤ fd.val ∧ (task.fds fd).type ≠ 0
  /-- Other descriptors are free. -/
  others : ∀ fd : Fin maxFds, 3 ≤ fd.val → fd ∉ record.given → (task.fds fd).type = 0

section Recording

variable {record : SlotHistory} {task task' : Task}

/-- Only the belongings of a task count. -/
theorem Records.congr (h : Records record task) (hsame : task'.belongings = task.belongings) :
    Records record task' := by
  simp only [Task.belongings, Prod.mk.injEq] at hsame
  have ⟨hfds, hqueue, hhead, htail, hpending⟩ := hsame
  have hring : task'.queue = task.queue := by rw [Task.queue, Task.queue, hqueue, hhead, htail]
  refine ⟨⟨?_, ?_, ?_⟩, ?_, ?_, ?_, ?_, ?_⟩
  · rw [hhead]
    exact h.queue.head_lt
  · rw [htail]
    exact h.queue.tail_lt
  · rw [hpending, hring]
    exact h.queue.pending
  · rw [hring]
    exact h.unread
  · rw [hfds]
    exact h.console
  · rw [hfds]
    exact h.closed
  · rw [hfds]
    exact h.given
  · rw [hfds]
    exact h.others

/-- A change of the queue alone. -/
theorem Records.requeue {unread : ℕ} (h : Records record task) (hfds : task'.fds = task.fds)
    (hsound : QueueSound task') (hsize : task'.queue.size = unread) :
    Records { record with unread := unread } task' where
  queue := hsound
  unread := hsize
  console := by
    rw [hfds]
    exact h.console
  closed := by
    rw [hfds]
    exact h.closed
  given := by
    rw [hfds]
    exact h.given
  others := by
    rw [hfds]
    exact h.others

/-- A change of one descriptor alone. -/
theorem Records.refd {fd : Fin maxFds} {entry : FdEntry} {given closed : Finset (Fin maxFds)}
    (h : Records record task)
    (hgiven : ∀ other, other ≠ fd → (other ∈ given ↔ other ∈ record.given))
    (hclosed : ∀ other, other ≠ fd → (other ∈ closed ↔ other ∈ record.closed))
    (hfd : (fd.val < 3 ∧ fd ∈ closed ∧ fd ∉ given ∧ entry.type = 0) ∨
      (3 ≤ fd.val ∧ fd ∉ closed ∧ (fd ∈ given ↔ entry.type ≠ 0))) :
    Records { record with given := given, closed := closed } (task.setFd fd entry) := by
  have hself : (task.setFd fd entry).fds fd = entry := Function.update_self _ _ _
  have hother : ∀ other, other ≠ fd → (task.setFd fd entry).fds other = task.fds other :=
    fun other hne => Function.update_of_ne hne _ _
  refine ⟨⟨h.queue.head_lt, h.queue.tail_lt, h.queue.pending⟩, h.unread, ?_, ?_, ?_, ?_⟩
  · intro other hlt hnot
    by_cases hne : other = fd
    · rw [hne] at hlt hnot
      rcases hfd with ⟨_, hin, _⟩ | ⟨hge, _⟩
      · exact absurd hin hnot
      · omega
    · rw [hclosed other hne] at hnot
      rw [hother other hne]
      exact h.console other hlt hnot
  · intro other hin
    by_cases hne : other = fd
    · rw [hne] at hin ⊢
      rw [hself]
      rcases hfd with ⟨hlt, _, _, htype⟩ | ⟨_, hnot, _⟩
      · exact ⟨hlt, htype⟩
      · exact absurd hin hnot
    · rw [hclosed other hne] at hin
      rw [hother other hne]
      exact h.closed other hin
  · intro other hin
    by_cases hne : other = fd
    · rw [hne] at hin ⊢
      rw [hself]
      rcases hfd with ⟨_, _, hnot, _⟩ | ⟨hge, _, htype⟩
      · exact absurd hin hnot
      · exact ⟨hge, htype.mp hin⟩
    · rw [hgiven other hne] at hin
      rw [hother other hne]
      exact h.given other hin
  · intro other hge hnot
    by_cases hne : other = fd
    · rw [hne] at hge hnot ⊢
      rw [hself]
      rcases hfd with ⟨hlt, _⟩ | ⟨_, _, htype⟩
      · omega
      · exact not_not.mp (mt htype.mpr hnot)
    · rw [hgiven other hne] at hnot
      rw [hother other hne]
      exact h.others other hge hnot

/-- A new task has an empty queue and the descriptors of the console alone. -/
structure StartsClean (task : Task) : Prop where
  /-- No event waits. -/
  events : task.eventHead = task.eventTail
  /-- Nor does the flag say so. -/
  pending : task.eventPending = false
  /-- Only the standard descriptors are open. -/
  fds : ∀ fd : Fin maxFds, if fd.val < 3 then (task.fds fd).type = 3 ∧ (task.fds fd).ref = 0
    else (task.fds fd).type = 0

/-- A slot has an empty queue and the descriptors of the console alone exactly when its history
has come back to nothing. -/
theorem Records.startsClean_iff (h : Records record task) :
    StartsClean task ↔ record = nothingLeft := by
  constructor
  · intro hclean
    have hempty : task.queue.Empty := h.queue.empty_iff.mpr hclean.events.symm
    have hunread : record.unread = 0 := by rw [← h.unread, Ring.size_eq_zero_iff.mpr hempty]
    have hgiven : record.given = ∅ := by
      refine Finset.eq_empty_of_forall_notMem fun fd hin => ?_
      have ⟨hge, htype⟩ := h.given fd hin
      have hfd := hclean.fds fd
      rw [if_neg (by omega)] at hfd
      exact htype hfd
    have hclosed : record.closed = ∅ := by
      refine Finset.eq_empty_of_forall_notMem fun fd hin => ?_
      have ⟨hlt, htype⟩ := h.closed fd hin
      have hfd := hclean.fds fd
      rw [if_pos hlt, htype] at hfd
      exact absurd hfd.1 (by decide)
    cases record with
    | mk unread given closed =>
      simp only at hunread hgiven hclosed
      rw [hunread, hgiven, hclosed, nothingLeft]
  · intro hnothing
    rw [hnothing] at h
    have hempty : task.queue.Empty := Ring.size_eq_zero_iff.mp h.unread
    refine ⟨(h.queue.empty_iff.mp hempty).symm, ?_, fun fd => ?_⟩
    · cases hvalue : task.eventPending with
      | false => rfl
      | true => exact absurd hempty (h.queue.pending.mp hvalue)
    · split_ifs with hlt
      · exact h.console fd hlt (Finset.notMem_empty fd)
      · exact h.others fd (by omega) (Finset.notMem_empty fd)

end Recording

section Steps

variable {procs : Processes} {slots : Slot → SlotHistory}

/-- The index that proc_alloc_fd finds. -/
theorem closedFd_spec {task : Task} {fd : Fin maxFds} (h : closedFd task = some fd) :
    3 ≤ fd.val ∧ (task.fds fd).type = 0 := by
  have htest := List.find?_some h
  simpa using htest

/-- The other tasks after a change of one. -/
theorem records_setTask (slot : Slot) {task : Task} {record : SlotHistory}
    (h : ∀ other, Records (slots other) (procs.tasks other)) (hslot : Records record task) :
    ∀ other, Records (Function.update slots slot record other)
      ((procs.setTask slot task).tasks other) := by
  intro other
  by_cases hne : other = slot
  · rw [hne, setTask_tasks_self, Function.update_self]
    exact hslot
  · rw [setTask_tasks_of_ne hne, Function.update_of_ne hne]
    exact h other

/-- process_event_send keeps the histories. -/
theorem records_send (target : ℤ) (eventType payloadHash ticks : UInt32)
    (h : ∀ other, Records (slots other) (procs.tasks other)) (other : Slot) :
    Records (slotAfterCall (.send target eventType payloadHash ticks) procs other (slots other))
      ((processEventSend target eventType payloadHash ticks procs).2.tasks other) := by
  simp only [slotAfterCall]
  cases htarget : killTarget target procs with
  | none =>
    rw [processEventSend_none htarget, if_neg (by simp)]
    exact h other
  | some slot =>
    have hqueue := (h slot).queue
    by_cases hfull : (procs.tasks slot).queue.Full
    · rw [processEventSend_full htarget hqueue hfull, if_neg (by simp)]
      exact h other
    · have hsize := Ring.size_push (sentEvent eventType payloadHash ticks procs) hfull
      rw [← queue_receive, (h slot).unread] at hsize
      rw [processEventSend_room htarget hqueue hfull]
      have hslot : Records { slots slot with unread := (slots slot).unread + 1 }
          ((procs.tasks slot).receive (sentEvent eventType payloadHash ticks procs)) :=
        (h slot).requeue (by rfl) (hqueue.receive _ hfull) hsize
      have hall := records_setTask slot h hslot other
      by_cases hne : other = slot
      · rw [hne, Function.update_self] at hall
        rw [hne, if_pos ⟨rfl, rfl⟩]
        exact hall
      · rw [Function.update_of_ne hne] at hall
        rw [if_neg fun hsame => hne (Option.some.inj hsame.1).symm]
        exact hall

/-- process_event_poll keeps the histories. -/
theorem records_poll (mask : UInt32) (h : ∀ other, Records (slots other) (procs.tasks other))
    (other : Slot) :
    Records (slotAfterCall (.poll mask) procs other (slots other))
      ((processEventPoll mask procs).2.2.tasks other) := by
  simp only [slotAfterCall]
  have hqueue := (h procs.currentTask).queue
  by_cases hempty : procs.current.queue.Empty
  · rw [processEventPoll_empty hqueue hempty, if_neg (by simp)]
    exact h other
  · by_cases hmask : mask ≠ 0 ∧ procs.current.queue.front.eventType &&& mask = 0
    · rw [processEventPoll_masked hqueue hempty hmask, if_neg (by simp)]
      exact h other
    · have hsize := Ring.size_pop hempty
      have hunread : procs.current.queue.size = _ := (h procs.currentTask).unread
      rw [hunread, ← queue_consume] at hsize
      rw [processEventPoll_takes hqueue hempty hmask]
      have hslot : Records { slots procs.currentTask with
          unread := (slots procs.currentTask).unread - 1 } procs.current.consume :=
        (h procs.currentTask).requeue (by rfl) (hqueue.consume hempty)
          (Nat.eq_sub_of_add_eq hsize.symm)
      have hall : Records _ ((procs.setTask procs.currentTask procs.current.consume).tasks other) :=
        records_setTask _ h hslot other
      by_cases hne : other = procs.currentTask
      · rw [hne, Function.update_self] at hall
        rw [hne, if_pos ⟨rfl, rfl⟩]
        exact hall
      · rw [Function.update_of_ne hne] at hall
        rw [if_neg fun hsame => hne hsame.1]
        exact hall

/-- proc_alloc_fd keeps the histories. -/
theorem records_allocFd (pid type ref : ℤ)
    (h : ∀ other, Records (slots other) (procs.tasks other)) (other : Slot) :
    Records (slotAfterCall (.allocFd pid type ref) procs other (slots other))
      ((procAllocFd pid type ref procs).2.tasks other) := by
  simp only [slotAfterCall]
  unfold procAllocFd
  cases hpid : pidSlot pid procs with
  | none =>
    cases closedFd (procs.tasks other) with
    | none => exact h other
    | some fd =>
      dsimp only
      rw [if_neg (by simp)]
      exact h other
  | some slot =>
    by_cases hne : other = slot
    · subst hne
      dsimp only
      cases hfd : closedFd (procs.tasks other) with
      | none => exact h other
      | some fd =>
        have ⟨hge, htype⟩ := closedFd_spec hfd
        have hclosed : fd ∉ (slots other).closed := by
          intro hin
          have hlt := ((h other).closed fd hin).1
          omega
        dsimp only
        rw [setTask_tasks_self]
        split_ifs with hgiven
        · refine (h other).refd (fun fd' hne => ?_) (fun _ _ => Iff.rfl)
            (.inr ⟨hge, hclosed, iff_of_true (Finset.mem_insert_self _ _) hgiven.2⟩)
          rw [Finset.mem_insert, or_iff_right hne]
        · have hzero : type = 0 := by simpa using hgiven
          have hnot : fd ∉ (slots other).given := fun hin => ((h other).given fd hin).2 htype
          exact (h other).refd (fun _ _ => Iff.rfl) (fun _ _ => Iff.rfl)
            (.inr ⟨hge, hclosed, iff_of_false hnot (not_not_intro hzero)⟩)
    · have hpidNe : ¬(some slot = some other ∧ type ≠ 0) :=
        fun hsame => hne (Option.some.inj hsame.1).symm
      have hleft : (match closedFd (procs.tasks other) with
          | some fd => if some slot = some other ∧ type ≠ 0
            then { slots other with given := insert fd (slots other).given } else slots other
          | none => slots other) = slots other := by
        cases closedFd (procs.tasks other) with
        | none => rfl
        | some fd => exact if_neg hpidNe
      dsimp only
      rw [hleft]
      cases closedFd (procs.tasks slot) with
      | none => exact h other
      | some fd =>
        dsimp only
        rw [setTask_tasks_of_ne hne]
        exact h other

/-- proc_free_fd keeps the histories. -/
theorem records_freeFd (pid fd : ℤ) (h : ∀ other, Records (slots other) (procs.tasks other))
    (other : Slot) :
    Records (slotAfterCall (.freeFd pid fd) procs other (slots other))
      ((procFreeFd pid fd procs).tasks other) := by
  simp only [slotAfterCall]
  unfold procFreeFd
  cases fdIndex fd with
  | none =>
    cases pidSlot pid procs with
    | none => exact h other
    | some slot => exact h other
  | some fd =>
    cases hpid : pidSlot pid procs with
    | none =>
      dsimp only
      rw [if_neg (by simp)]
      exact h other
    | some slot =>
      dsimp only
      by_cases hne : other = slot
      · subst hne
        rw [if_pos rfl, setTask_tasks_self]
        split_ifs with hlt
        · have hnot : fd ∉ (slots other).given := by
            intro hin
            have hge := ((h other).given fd hin).1
            omega
          refine (h other).refd (fun _ _ => Iff.rfl) (fun fd' hne => ?_)
            (.inl ⟨hlt, Finset.mem_insert_self _ _, hnot, rfl⟩)
          rw [Finset.mem_insert, or_iff_right hne]
        · have hclosed : fd ∉ (slots other).closed :=
            fun hin => hlt ((h other).closed fd hin).1
          refine (h other).refd (fun fd' hne => ?_) (fun _ _ => Iff.rfl)
            (.inr ⟨by omega, hclosed,
              iff_of_false (Finset.notMem_erase _ _) (not_not_intro rfl)⟩)
          rw [Finset.mem_erase, and_iff_right hne]
      · rw [if_neg fun hsame => hne (Option.some.inj hsame).symm, setTask_tasks_of_ne hne]
        exact h other

/-- Every slot is as its history says. -/
def History.Kept (history : History) : Prop :=
  ∀ slot, Records (history.slots slot) (history.procs.tasks slot)

/-- Every call keeps the histories. -/
theorem History.Kept.after {history : History} (h : history.Kept) (call : TaskCall) :
    (history.after call).Kept := by
  intro slot
  cases call with
  | table op => exact (h slot).congr (operation_belongings op history.procs slot)
  | send target eventType payloadHash ticks =>
    exact records_send target eventType payloadHash ticks h slot
  | poll mask => exact records_poll mask h slot
  | allocFd pid type ref => exact records_allocFd pid type ref h slot
  | freeFd pid fd => exact records_freeFd pid fd h slot

end Steps

/-- The slot of the task that a call creates. -/
def newTask (call : TaskCall) (procs : Processes) : Option Slot :=
  match call with
  | .table op =>
    if op.isCreation ∧ (op.exec procs).1 ≠ -1 then deadSlot procs else none
  | .send .. | .poll _ | .allocFd .. | .freeFd .. => none

/-- A task that a call creates starts with an empty queue and the descriptors of the console. -/
def CreatedClean (call : TaskCall) (history : History) : Prop :=
  ∀ slot, newTask call history.procs = some slot →
    StartsClean ((history.after call).procs.tasks slot)

/-- The slot of a task that a call creates has nothing left of its earlier tasks: every event
that came in has been polled, every descriptor given has been freed, and no descriptor of the
console has been freed. -/
def CreatedWithNothingLeft (call : TaskCall) (history : History) : Prop :=
  ∀ slot, newTask call history.procs = some slot → history.slots slot = nothingLeft

/-- The histories when the kernel has booted. -/
def History.boot (kernelPageDir userEntry shellEntry : UInt32) (procs : Processes) : History where
  procs := bootTasks kernelPageDir userEntry shellEntry procs
  slots _ := nothingLeft

section Runs

/-- proc_init leaves an empty queue and the descriptors of the console in every slot. -/
theorem records_initTask (task : Task) : Records nothingLeft (initTask task) where
  queue := ⟨Nat.succ_pos 15, Nat.succ_pos 15, iff_of_false Bool.false_ne_true (not_not_intro rfl)⟩
  unread := Ring.size_eq_zero_iff.mpr rfl
  console fd hlt _ := by
    simp only [initTask, initFd, if_pos hlt, and_self]
  closed fd hin := absurd hin (Finset.notMem_empty fd)
  given fd hin := absurd hin (Finset.notMem_empty fd)
  others fd hge _ := by
    simp only [initTask, initFd, if_neg (Nat.not_lt.mpr hge)]

/-- The two tasks of the boot have what proc_init left in their slots. -/
theorem bootTasks_belongings (kernelPageDir userEntry shellEntry : UInt32) (procs : Processes)
    (slot : Slot) :
    ((bootTasks kernelPageDir userEntry shellEntry procs).tasks slot).belongings =
      (initTask (procs.tasks slot)).belongings := by
  have hboth : ((procCreate kernelPageDir shellEntry shellName 1
      (procCreate kernelPageDir userEntry userTaskName 1 (procInit procs)).2).2.tasks
        slot).belongings = (initTask (procs.tasks slot)).belongings :=
    (procCreate_belongings kernelPageDir shellEntry shellName 1 _ slot).trans
      (procCreate_belongings kernelPageDir userEntry userTaskName 1 (procInit procs) slot)
  unfold bootTasks
  dsimp only
  split_ifs with hpid
  · exact (setTask_belongings (by rfl) slot).trans hboth
  · exact hboth

/-- The histories fit the slots when the kernel has booted. -/
theorem History.boot_kept (kernelPageDir userEntry shellEntry : UInt32) (procs : Processes) :
    (History.boot kernelPageDir userEntry shellEntry procs).Kept := fun slot =>
  (records_initTask (procs.tasks slot)).congr
    (bootTasks_belongings kernelPageDir userEntry shellEntry procs slot)

/-- A creation leaves the belongings of its slot, so that the new task is clean exactly when
nothing was left in the slot. -/
theorem createdClean_iff (call : TaskCall) (history : History) (h : history.Kept) :
    CreatedClean call history ↔ CreatedWithNothingLeft call history := by
  refine forall_congr' fun slot => ?_
  constructor
  · intro hclean hnew
    cases call with
    | table op => exact ((h.after (.table op)) slot).startsClean_iff.mp (hclean hnew)
    | send | poll | allocFd | freeFd => exact absurd hnew (by simp [newTask])
  · intro hnothing hnew
    cases call with
    | table op => exact ((h.after (.table op)) slot).startsClean_iff.mpr (hnothing hnew)
    | send | poll | allocFd | freeFd => exact absurd hnew (by simp [newTask])

/-- From the boot on, every task that is created starts with an empty queue and the descriptors
of the console alone exactly when nothing is left in its slot: all events queued in it were
polled, all descriptors given in it were freed, and none of the console's was. -/
theorem taskCalls_createdClean_iff (kernelPageDir userEntry shellEntry : UInt32)
    (procs : Processes) (calls : List TaskCall) :
    EveryStep History.after CreatedClean calls
        (History.boot kernelPageDir userEntry shellEntry procs) ↔
      EveryStep History.after CreatedWithNothingLeft calls
        (History.boot kernelPageDir userEntry shellEntry procs) :=
  everyStep_congr (fun call history (h : history.Kept) => h.after call) createdClean_iff
    (History.boot_kept kernelPageDir userEntry shellEntry procs)

end Runs

/-- A task in the slot of one that was killed with an event in its queue starts with that event;
in the slot of one that had a pipe it starts with a descriptor of the pipe. -/
theorem createdClean_leftBehind :
    ¬EveryStep History.after CreatedClean
      [.send 1 1 0 0, .table (.kill 1), .table .reapZombies,
        .table (.create 0x1000 0x13000 taskName 1)]
      (History.boot 0x1000 0x11000 0x12000 zeroProcesses) ∧
    ¬EveryStep History.after CreatedClean
      [.allocFd 1 2 0, .table (.kill 1), .table .reapZombies,
        .table (.createUser 0x300000 0x301000 0x400000 taskName)]
      (History.boot 0x1000 0x11000 0x12000 zeroProcesses) := by
  constructor
  · intro hcalls
    have hclean := hcalls.2.2.2.1 0 (by decide +kernel)
    exact absurd hclean.events (by decide +kernel)
  · intro hcalls
    have hclean := hcalls.2.2.2.1 0 (by decide +kernel)
    exact absurd (hclean.fds ⟨3, by decide⟩) (by decide +kernel)

end HexaOS.Process
