import HexaOS.ProcessCalls
import HexaOS.RingBuffers
import Mathlib.Data.Finset.Card

/-!
# Events and descriptors of a task

The event queue and the descriptors that process.c keeps in each slot of the task table, and
the history of a slot: what its tasks were given and have not given back. The calls of
process.c give a new task neither a fresh queue nor fresh descriptors, so that the history
goes on over the tasks of a slot.
-/

namespace HexaOS.Process

open HexaOS.RingBuffers
open Hexafs (CString)

instance : NeZero eventQueueSize := ⟨by decide⟩

/-- The event that the current task sends, at a number of ticks. -/
def sentEvent (eventType payloadHash ticks : UInt32) (procs : Processes) : Event where
  eventType := eventType
  senderPid := procs.current.pid
  senderSnap := 0
  payloadHash := payloadHash
  timestamp := ticks

/-- process_event_send, at a number of ticks. It looks for its task as proc_kill does. -/
def processEventSend (target : ℤ) (eventType payloadHash ticks : UInt32) (procs : Processes) :
    ℤ × Processes :=
  match killTarget target procs with
  | some slot =>
    let task := procs.tasks slot
    let next := (task.eventHead + 1) % eventQueueSize
    if next = task.eventTail then (-1, procs)
    else
      (0, procs.setTask slot { task with
        eventQueue := Function.update task.eventQueue
          (Fin.ofNat eventQueueSize task.eventHead) (sentEvent eventType payloadHash ticks procs)
        eventHead := next
        eventPending := true })
  | none => (-1, procs)

/-- process_event_poll by the current task, with the event that it copies to the caller. -/
def processEventPoll (mask : UInt32) (procs : Processes) : ℤ × Option Event × Processes :=
  let task := procs.current
  if task.eventTail = task.eventHead then
    (-1, none, procs.setTask procs.currentTask { task with eventPending := false })
  else
    let event := task.eventQueue (Fin.ofNat eventQueueSize task.eventTail)
    if mask ≠ 0 ∧ event.eventType &&& mask = 0 then (-1, none, procs)
    else
      let next := (task.eventTail + 1) % eventQueueSize
      (event.eventType.toInt32.toInt, some event, procs.setTask procs.currentTask { task with
        eventTail := next
        eventPending := if next = task.eventHead then false else task.eventPending })

/-- The slot of a pid, whatever its state. -/
def pidSlot (pid : ℤ) (procs : Processes) : Option Slot :=
  firstSlot fun slot => (procs.tasks slot).pid == pid

/-- The first closed descriptor of a task, behind those of the console. -/
def closedFd (task : Task) : Option (Fin maxFds) :=
  (List.finRange maxFds).find? fun fd => decide (3 ≤ fd.val) && (task.fds fd).type == 0

/-- Change one descriptor. -/
def Task.setFd (task : Task) (fd : Fin maxFds) (entry : FdEntry) : Task :=
  { task with fds := Function.update task.fds fd entry }

/-- proc_alloc_fd -/
def procAllocFd (pid type ref : ℤ) (procs : Processes) : ℤ × Processes :=
  match pidSlot pid procs with
  | some slot =>
    match closedFd (procs.tasks slot) with
    | some fd => (fd.val, procs.setTask slot ((procs.tasks slot).setFd fd ⟨type, ref, 0, 0⟩))
    | none => (-1, procs)
  | none => (-1, procs)

/-- An index of `fds`. -/
def fdIndex (fd : ℤ) : Option (Fin maxFds) :=
  if h : 0 ≤ fd ∧ fd < maxFds then some ⟨fd.toNat, by omega⟩ else none

/-- proc_free_fd -/
def procFreeFd (pid fd : ℤ) (procs : Processes) : Processes :=
  match pidSlot pid procs, fdIndex fd with
  | some slot, some fd =>
    procs.setTask slot ((procs.tasks slot).setFd fd
      { (procs.tasks slot).fds fd with type := 0, ref := -1 })
  | _, _ => procs

/-- The calls that change the task table, its queues or its descriptors. -/
inductive TaskCall where
  /-- A call on the task table. -/
  | table (op : Operation)
  /-- process_event_send, and the ticks at the call -/
  | send (target : ℤ) (eventType payloadHash ticks : UInt32)
  | poll (mask : UInt32)
  | allocFd (pid type ref : ℤ)
  | freeFd (pid fd : ℤ)

/-- The result of a call, what it copies to the caller, and the state after it. -/
def TaskCall.exec (procs : Processes) : TaskCall → ℤ × Option Event × Processes
  | table op => ((op.exec procs).1, none, (op.exec procs).2)
  | send target eventType payloadHash ticks =>
    ((processEventSend target eventType payloadHash ticks procs).1, none,
      (processEventSend target eventType payloadHash ticks procs).2)
  | poll mask => processEventPoll mask procs
  | allocFd pid type ref =>
    ((procAllocFd pid type ref procs).1, none, (procAllocFd pid type ref procs).2)
  | freeFd pid fd => (0, none, procFreeFd pid fd procs)

/-- The state after a call. -/
def TaskCall.after (call : TaskCall) (procs : Processes) : Processes := (call.exec procs).2.2

/-- The name of the first task of the boot. -/
def userTaskName : CString :=
  ⟨[0x75, 0x73, 0x65, 0x72, 0x5F, 0x74, 0x61, 0x73, 0x6B], by decide⟩

/-- The name of the second task of the boot. -/
def shellName : CString := ⟨[0x73, 0x68, 0x65, 0x6C, 0x6C], by decide⟩

/-- The tasks of kernel_main: proc_init, the two tasks, and the boot code as the second. -/
def bootTasks (kernelPageDir userEntry shellEntry : UInt32) (procs : Processes) : Processes :=
  let (_, procs) := procCreate kernelPageDir userEntry userTaskName 1 (procInit procs)
  let (shellPid, procs) := procCreate kernelPageDir shellEntry shellName 1 procs
  if shellPid ≥ 0 then
    { procs.setTask 1 { procs.tasks 1 with state := .running } with currentTask := 1 }
  else procs

section Boot

variable {procs : Processes}

/-- proc_create while there is room. -/
theorem procCreate_room {slot : Slot} (hroom : procs.numTasks < maxTasks)
    (hslot : deadSlot procs = some slot) (kernelPageDir entry : UInt32) (name : CString)
    (priority : ℤ) :
    (procCreate kernelPageDir entry name priority procs).1 = procs.nextPid ∧
      Adds slot 1 procs (procCreate kernelPageDir entry name priority procs).2 := by
  unfold procCreate allocPid
  rw [if_neg (not_le.mpr hroom), hslot]
  exact ⟨begunTask_pid name slot procs, placeTask_adds name _ hslot rfl rfl rfl⟩

/-- The boot makes a task in each of the first two slots and goes on as the second. -/
theorem bootTasks_spec (kernelPageDir userEntry shellEntry : UInt32)
    (hboot : procs.nextPid = 1) :
    ∃ first second, first = (procCreate kernelPageDir userEntry userTaskName 1
        (procInit procs)).2 ∧
      second = (procCreate kernelPageDir shellEntry shellName 1 first).2 ∧
      Adds 0 1 (procInit procs) first ∧ Adds 1 1 first second ∧
      bootTasks kernelPageDir userEntry shellEntry procs =
        { second.setTask 1 { second.tasks 1 with state := .running } with currentTask := 1 } := by
  have hnext : (procInit procs).nextPid = 1 := hboot
  have hzero : (procInit procs).numTasks = 0 := rfl
  have hempty : (procInit procs).numTasks < maxTasks := by
    rw [hzero]
    decide
  have ⟨_, hfirst⟩ := procCreate_room hempty (deadSlot_first rfl) kernelPageDir userEntry
    userTaskName 1
  have hroom := hfirst.numTasks
  have hfree : (procInit procs).phase 1 = .free := rfl
  have hslot := deadSlot_second (by rw [hfirst.phase]; decide)
    ((hfirst.kept 1 (by decide)).phase.trans hfree)
  have ⟨hpid, hsecond⟩ := procCreate_room (by rw [hroom, hzero]; decide) hslot kernelPageDir
    shellEntry shellName 1
  refine ⟨_, _, rfl, rfl, hfirst, hsecond, ?_⟩
  have hpos : (procCreate kernelPageDir shellEntry shellName 1 (procCreate kernelPageDir userEntry
      userTaskName 1 (procInit procs)).2).1 ≥ 0 := by
    rw [hpid, hfirst.nextPid, hnext]
    decide
  exact if_pos hpos

end Boot

end HexaOS.Process
