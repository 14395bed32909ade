import HexaOS.HexafsFormat
import Mathlib.Data.Fin.Basic
import Mathlib.Data.List.FinRange
import Mathlib.Logic.Function.Basic

/-!
# The task table

The tasks of the kernel with their states, pids and parents, and the operations of
process.c on them: creation, exit, wait, kill, reaping and the choice of the next task.
Counters and pids are integers without a bound; what the page allocator returns is an
argument of the operations that ask it.
-/

namespace HexaOS.Process

open Hexafs (CString)

/-- MAX_TASKS -/
abbrev maxTasks : ℕ := 16

instance : NeZero maxTasks := ⟨by decide⟩

/-- An index of `tasks`. -/
abbrev Slot : Type := Fin maxTasks

/-- STACK_SIZE -/
def stackSize : UInt32 := 8192

/-- PROC_NAME_LEN -/
def procNameLen : ℕ := 24

/-- MAX_FDS -/
def maxFds : ℕ := 16

/-- EVENT_QUEUE_SIZE -/
def eventQueueSize : ℕ := 16

/-- The states of a task. -/
inductive TaskState where
  | ready
  | running
  | blocked
  | zombie
  | dead
  deriving DecidableEq

/-- The states of a task that has not ended. -/
def TaskState.live : TaskState → Bool
  | ready | running | blocked => true
  | zombie | dead => false

/-- The states from which the scheduler picks. -/
def TaskState.runnable : TaskState → Bool
  | ready | running => true
  | blocked | zombie | dead => false

/-- The state of the current task when schedule starts. -/
def TaskState.preempted : TaskState → TaskState
  | running => ready
  | state => state

/-- struct fd_entry -/
structure FdEntry where
  /-- The kind of the descriptor. -/
  type : ℤ
  /-- What it is open on. -/
  ref : ℤ
  /-- The position. -/
  pos : ℤ
  /-- The flags. -/
  flags : ℤ

/-- hexaos_event_t -/
structure Event where
  /-- The type. -/
  eventType : UInt32
  /-- The task that sent it. -/
  senderPid : ℤ
  /-- The snapshot of the sender. -/
  senderSnap : UInt32
  /-- The hash of what is sent. -/
  payloadHash : UInt32
  /-- The tick. -/
  timestamp : UInt32

/-- struct task, without its stack, which lies in memory. -/
structure Task where
  /-- The pid, or -1. -/
  pid : ℤ
  /-- The state. -/
  state : TaskState
  /-- The exit code. -/
  exitCode : ℤ
  /-- The pid of the parent. -/
  parentPid : ℤ
  /-- The priority. -/
  priority : ℤ
  /-- The saved stack pointer. -/
  esp : UInt32
  /-- The saved frame pointer. -/
  ebp : UInt32
  /-- The page directory. -/
  pageDir : UInt32
  /-- The end of the heap. -/
  heapBrk : UInt32
  /-- The stack in the kernel. -/
  kernelEsp : UInt32
  /-- The name. -/
  name : CString
  /-- The descriptors. -/
  fds : Fin maxFds → FdEntry
  /-- The queue of events. -/
  eventQueue : Fin eventQueueSize → Event
  /-- The place of the next event to send. -/
  eventHead : ℕ
  /-- The place of the next event to poll. -/
  eventTail : ℕ
  /-- Is an event waiting? -/
  eventPending : Bool

/-- The statics of process.c, the memory and the registers that they share. -/
structure Processes where
  /-- The table of tasks. -/
  tasks : Slot → Task
  /-- current_task -/
  currentTask : Slot
  /-- num_tasks -/
  numTasks : ℤ
  /-- next_pid -/
  nextPid : ℤ
  /-- tss -/
  tss : Fin 26 → UInt32
  /-- The register of the page directory. -/
  cr3 : UInt32
  /-- The address of `tasks`. -/
  tasksAddress : UInt32
  /-- The dword at each address. -/
  mem : UInt32 → UInt32
  /-- The processor is in `while (1) hlt()` with interrupts off. -/
  halted : Bool

instance tss_neZero : NeZero 26 := ⟨by decide⟩

namespace Processes

/-- Change one task. -/
def setTask (procs : Processes) (slot : Slot) (task : Task) : Processes :=
  { procs with tasks := Function.update procs.tasks slot task }

/-- `tasks[current_task]` -/
def current (procs : Processes) : Task := procs.tasks procs.currentTask

/-- The address of `tasks[slot].stack`. A struct task has 8844 bytes, 40 of them before the
stack. -/
def stackOf (procs : Processes) (slot : Slot) : UInt32 :=
  procs.tasksAddress + 8844 * UInt32.ofNat slot + 40

end Processes

/-- The first slot with a property. -/
def firstSlot (test : Slot → Bool) : Option Slot := (List.finRange maxTasks).find? test

/-- `(slot + i) % MAX_TASKS` -/
def slotAfter (slot : Slot) (i : ℕ) : Slot :=
  ⟨(slot + i) % maxTasks, Nat.mod_lt _ (by decide)⟩

/-- Store dwords from an address on. -/
def storeWords (mem : UInt32 → UInt32) (address : UInt32) : List UInt32 → UInt32 → UInt32
  | [] => mem
  | word :: words => storeWords (Function.update mem address word) (address + 4) words

/-- A closed descriptor, and the descriptors of the console. -/
def initFd (entry : FdEntry) (fd : Fin maxFds) : FdEntry :=
  if fd.val < 3 then { entry with type := 3, ref := 0 } else { entry with type := 0, ref := -1 }

/-- A task as proc_init leaves it. -/
def initTask (task : Task) : Task :=
  { task with
    pid := -1
    state := .dead
    esp := 0
    parentPid := -1
    priority := 1
    pageDir := 0
    heapBrk := 0
    name := ⟨[], Hexafs.CString.zero_notMem_nil⟩
    eventHead := 0
    eventTail := 0
    eventPending := false
    fds := fun fd => initFd (task.fds fd) fd
    eventQueue := fun i => { task.eventQueue i with
      eventType := 0, senderPid := 0, payloadHash := 0, timestamp := 0 } }

/-- proc_init. setup_tss and tss_flush only tell the processor where `tss` lies. -/
def procInit (procs : Processes) : Processes :=
  { procs with
    tasks := fun slot => initTask (procs.tasks slot)
    tss := fun i => if i = 1 then 0x10 else 0
    currentTask := 0
    numTasks := 0 }

/-- The slot that alloc_pid takes. -/
def deadSlot (procs : Processes) : Option Slot :=
  firstSlot fun slot => (procs.tasks slot).state == .dead

/-- The next pid goes to a slot. -/
def takeSlot (slot : Slot) (procs : Processes) : Processes :=
  { procs.setTask slot { procs.tasks slot with pid := procs.nextPid } with
    nextPid := procs.nextPid + 1 }

/-- alloc_pid -/
def allocPid (procs : Processes) : Option Slot × Processes :=
  match deadSlot procs with
  | some slot => (some slot, takeSlot slot procs)
  | none => (none, procs)

/-- The name as a task keeps it. -/
def procName (name : CString) : CString :=
  ⟨name.chars.take (procNameLen - 1), fun h => name.nonzero (List.mem_of_mem_take h)⟩

/-- The frame of a new task. -/
def initialFrame (selector entry cs eflags stackTop : UInt32) : List UInt32 :=
  [selector, selector, selector, selector, 0, 0, 0, 0, 0, 0, 0, 0, 0, 0, entry, cs, eflags,
    stackTop, selector]

/-- A task of proc_create_user before its stack is allocated. -/
def begunTask (name : CString) (slot : Slot) (procs : Processes) : Task :=
  let named := { procs.tasks slot with state := .ready, name := procName name }
  -- the parent is read after the pid and the state of the slot have changed
  { named with parentPid := ((procs.setTask slot named).current).pid, priority := 1 }

/-- The task that proc_create makes. -/
def kernelTask (kernelPageDir : UInt32) (name : CString) (priority : ℤ) (slot : Slot)
    (procs : Processes) : Task :=
  { begunTask name slot procs with
    priority := if priority > 0 then priority else 1
    pageDir := kernelPageDir
    esp := procs.stackOf slot + stackSize - 76
    ebp := 0
    kernelEsp := procs.stackOf slot + stackSize
    heapBrk := 0 }

/-- The task that proc_create_user makes on a page for its stack. -/
def userTask (userStack pageDir : UInt32) (name : CString) (slot : Slot) (procs : Processes) :
    Task :=
  { begunTask name slot procs with
    esp := userStack + 4096 - 76
    ebp := 0
    kernelEsp := procs.stackOf slot + stackSize
    pageDir := pageDir
    heapBrk := 0 }

/-- Put a new task with its frame into a slot and count it. -/
def placeTask (slot : Slot) (task : Task) (frame : List UInt32) (procs : Processes) :
    ℤ × Processes :=
  (task.pid, { procs.setTask slot task with
    mem := storeWords procs.mem task.esp frame
    numTasks := procs.numTasks + 1 })

/-- proc_create -/
def procCreate (kernelPageDir entry : UInt32) (name : CString) (priority : ℤ)
    (procs : Processes) : ℤ × Processes :=
  if procs.numTasks ≥ maxTasks then (-1, procs)
  else match allocPid procs with
    | (none, procs) => (-1, procs)
    | (some slot, procs) =>
      placeTask slot (kernelTask kernelPageDir name priority slot procs)
        (initialFrame 0x10 entry 0x08 0x202 (procs.stackOf slot + stackSize)) procs

/-- proc_create_user, with what pmm_alloc and create_user_page_dir return. -/
def procCreateUser (userStack pageDir entry : UInt32) (name : CString) (procs : Processes) :
    ℤ × Processes :=
  if procs.numTasks ≥ maxTasks then (-1, procs)
  else match allocPid procs with
    | (none, procs) => (-1, procs)
    | (some slot, procs) =>
      if userStack = 0 then (-1, procs.setTask slot (begunTask name slot procs))
      else placeTask slot (userTask userStack pageDir name slot procs)
        (initialFrame 0x20 entry 0x18 0x202 (userStack + 4096)) procs

/-- The loop of proc_exit over the children. -/
def reparent (procs : Processes) : Processes :=
  { procs with
    tasks := fun slot =>
      if (procs.tasks slot).state ≠ .dead ∧ (procs.tasks slot).parentPid = procs.current.pid
      then { procs.tasks slot with parentPid := -1 }
      else procs.tasks slot }

/-- proc_exit up to the search for another task. -/
def exitTask (code : ℤ) (procs : Processes) : Processes :=
  reparent { procs.setTask procs.currentTask { procs.current with
    exitCode := code, state := .zombie, pid := -1 } with numTasks := procs.numTasks - 1 }

/-- The task that proc_exit switches to. -/
def exitNext (procs : Processes) : Option Slot :=
  ((List.range (maxTasks * 2)).map fun i => slotAfter procs.currentTask (1 + i)).find?
    fun slot => (procs.tasks slot).state.runnable

/-- proc_exit. The task that it switches to goes on in its own frame. -/
def procExit (code : ℤ) (procs : Processes) : Processes :=
  match exitNext (exitTask code procs) with
  | some next =>
    { (exitTask code procs).setTask next { (exitTask code procs).tasks next with
        state := .running } with
      currentTask := next
      tss := Function.update (exitTask code procs).tss 0
        ((exitTask code procs).tasks next).kernelEsp }
  | none => { exitTask code procs with halted := true }

/-- The ended child that proc_wait finds. -/
def waitTarget (procs : Processes) : Option Slot :=
  firstSlot fun slot => (procs.tasks slot).parentPid == procs.current.pid &&
    (procs.tasks slot).state == .zombie

/-- proc_wait, with what it stores through `status`. -/
def procWait (procs : Processes) : ℤ × Option ℤ × Processes :=
  match waitTarget procs with
  | some slot =>
    ((procs.tasks slot).pid, some (procs.tasks slot).exitCode,
      procs.setTask slot { procs.tasks slot with state := .dead })
  | none => (-1, none, procs)

/-- The slot that proc_kill finds for a pid. -/
def killTarget (pid : ℤ) (procs : Processes) : Option Slot :=
  firstSlot fun slot => (procs.tasks slot).pid == pid && (procs.tasks slot).state != .dead

/-- proc_kill -/
def procKill (pid : ℤ) (procs : Processes) : ℤ × Processes :=
  if pid ≤ 0 then (-1, procs)
  else match killTarget pid procs with
    | some slot =>
      if slot = procs.currentTask then (0, procExit (-1) procs)
      else (0, { procs.setTask slot { procs.tasks slot with state := .zombie, exitCode := -1 }
        with numTasks := procs.numTasks - 1 })
    | none => (-1, procs)

/-- proc_reap_zombies -/
def procReapZombies (procs : Processes) : Processes :=
  { procs with
    tasks := fun slot =>
      if (procs.tasks slot).state = .zombie then { procs.tasks slot with state := .dead }
      else procs.tasks slot }

/-- The slots after the current one, in the order in which schedule looks at them. -/
def candidates (cur : Slot) : List Slot := (List.range (maxTasks - 1)).map fun i =>
  slotAfter cur (i + 1)

/-- A step of the first pass of schedule. -/
def prefer (tasks : Slot → Task) (cur next candidate : Slot) : Slot :=
  if (tasks candidate).state.runnable then
    if (tasks candidate).priority < (tasks next).priority then next
    else if next = cur ∨ (tasks candidate).priority > (tasks next).priority then candidate
    else next
  else next

/-- The first pass of schedule. -/
def firstPass (tasks : Slot → Task) (cur : Slot) : Slot :=
  (candidates cur).foldl (prefer tasks cur) cur

/-- The task that schedule picks. The second pass takes any runnable task. -/
def pickNext (tasks : Slot → Task) (cur : Slot) : Slot :=
  if firstPass tasks cur ≠ cur then firstPass tasks cur
  else ((candidates cur).find? fun slot => (tasks slot).state.runnable).getD cur

/-- schedule saves the address of the registers of the current task. -/
def saveTask (regs : UInt32) (procs : Processes) : Processes :=
  procs.setTask procs.currentTask { procs.current with
    esp := regs, state := procs.current.state.preempted }

/-- schedule makes another task the current one. -/
def resumeTask (next : Slot) (procs : Processes) : Processes :=
  { procs.setTask next { procs.tasks next with state := .running } with
    currentTask := next
    tss := Function.update procs.tss 0 (procs.tasks next).kernelEsp
    cr3 := if (procs.tasks next).pageDir ≠ 0 then (procs.tasks next).pageDir else procs.cr3 }

/-- schedule with the address of the saved registers, and the slot that it resumes, if it
does not return. -/
def schedule (regs : UInt32) (procs : Processes) : Option Slot × Processes :=
  if procs.numTasks ≤ 1 then (none, procs)
  else
    let next := pickNext (saveTask regs procs).tasks procs.currentTask
    if next = procs.currentTask then (none, saveTask regs procs)
    else (some next, resumeTask next (saveTask regs procs))

/-- The calls that change the task table. -/
inductive Operation where
  /-- proc_create, and the page directory of the kernel -/
  | create (kernelPageDir entry : UInt32) (name : CString) (priority : ℤ)
  /-- proc_create_user, and what the page allocator returns to it -/
  | createUser (userStack pageDir entry : UInt32) (name : CString)
  | exit (code : ℤ)
  | kill (pid : ℤ)
  | wait
  | reapZombies
  /-- schedule, with the address of the saved registers -/
  | schedule (regs : UInt32)

/-- The result of a call, 0 where it returns none, and the state after it. -/
def Operation.exec (procs : Processes) : Operation → ℤ × Processes
  | create kernelPageDir entry name priority => procCreate kernelPageDir entry name priority procs
  | createUser userStack pageDir entry name => procCreateUser userStack pageDir entry name procs
  | exit code => (0, procExit code procs)
  | kill pid => procKill pid procs
  | wait => ((procWait procs).1, (procWait procs).2.2)
  | reapZombies => (0, procReapZombies procs)
  | schedule regs => (0, (Process.schedule regs procs).2)

/-- The state after a call. -/
def Operation.after (op : Operation) (procs : Processes) : Processes := (op.exec procs).2

/-- A property of every call of a sequence, at the state in which the call is made. -/
def EveryCall {σ : Type} (next : Operation → σ → σ) (property : Operation → σ → Prop) :
    List Operation → σ → Prop
  | [], _ => True
  | op :: ops, state => property op state ∧ EveryCall next property ops (next op state)

/-- The statics of process.c before proc_init. -/
def zeroProcesses : Processes where
  tasks := fun _ => {
    pid := 0, state := .ready, exitCode := 0, parentPid := 0, priority := 0
    esp := 0, ebp := 0, pageDir := 0, heapBrk := 0, kernelEsp := 0
    name := ⟨[], Hexafs.CString.zero_notMem_nil⟩
    fds := fun _ => ⟨0, 0, 0, 0⟩
    eventQueue := fun _ => ⟨0, 0, 0, 0, 0⟩
    eventHead := 0, eventTail := 0, eventPending := false }
  currentTask := 0
  numTasks := 0
  nextPid := 1
  tss := fun _ => 0
  cr3 := 0x1000
  tasksAddress := 0x20000
  mem := fun _ => 0
  halted := false

/-- The name of a test task. -/
def taskName : CString := ⟨[0x74], by decide⟩

section Slots

variable {test : Slot → Bool} {slot other : Slot} {procs : Processes} {task : Task}

/-- The slot that a search finds has the property. -/
theorem firstSlot_test (h : firstSlot test = some slot) : test slot = true :=
  List.find?_some h

/-- A search fails when no slot has the property. -/
theorem firstSlot_eq_none : firstSlot test = none ↔ ∀ slot, test slot = false := by
  simp [firstSlot]

@[simp] theorem setTask_tasks_self : (procs.setTask slot task).tasks slot = task :=
  Function.update_self _ _ _

theorem setTask_tasks_of_ne (h : other ≠ slot) :
    (procs.setTask slot task).tasks other = procs.tasks other :=
  Function.update_of_ne h _ _

/-- A step of the first pass keeps its choice or takes a runnable task. -/
theorem prefer_runnable (tasks : Slot → Task) (cur next candidate : Slot) :
    prefer tasks cur next candidate = next ∨
      (tasks (prefer tasks cur next candidate)).state.runnable = true := by
  unfold prefer
  split_ifs with hrunnable
  · exact .inl rfl
  · exact .inr hrunnable
  · exact .inl rfl
  · exact .inl rfl

/-- The first pass over some slots ends where it began or at a runnable task. -/
theorem foldl_prefer_runnable (tasks : Slot → Task) (cur : Slot) (slots : List Slot)
    (next : Slot) (hnext : next = cur ∨ (tasks next).state.runnable = true) :
    slots.foldl (prefer tasks cur) next = cur ∨
      (tasks (slots.foldl (prefer tasks cur) next)).state.runnable = true := by
  induction slots generalizing next with
  | nil => exact hnext
  | cons candidate slots ih =>
    refine ih _ ?_
    rcases prefer_runnable tasks cur next candidate with hkept | htaken
    · rw [hkept]
      exact hnext
    · exact .inr htaken

/-- A task that schedule picks other than the current one is runnable. -/
theorem pickNext_runnable {tasks : Slot → Task} {cur : Slot} (h : pickNext tasks cur ≠ cur) :
    (tasks (pickNext tasks cur)).state.runnable = true := by
  have hfirst := foldl_prefer_runnable tasks cur (candidates cur) cur (.inl rfl)
  unfold pickNext at h ⊢
  split_ifs at h ⊢ with hpass
  · exact hfirst.resolve_left hpass
  · cases hfound : (candidates cur).find? fun slot => (tasks slot).state.runnable with
    | none =>
      rw [hfound] at h
      exact absurd rfl h
    | some slot =>
      have hrunnable := List.find?_some hfound
      exact hrunnable

end Slots

end HexaOS.Process
