import HexaOS.InterruptStubs
import HexaOS.Processes

/-!
# Task switches

The timer interrupt saves a task with the stub of irq0 and schedule resumes another one with
its own instructions. The registers of each task at its last preemption are kept beside the
machine and compared with those it has when it goes on.
-/

namespace HexaOS.Process

open X86
open Hexafs (CString)

/-- The processor with the task table, and the registers of each task that was preempted. -/
structure SwitchState where
  /-- The registers of the processor. -/
  cpu : Cpu
  /-- The table of tasks. -/
  procs : Processes
  /-- The registers of a task at its preemption, until it is resumed. -/
  saved : Slot → Option Cpu

namespace SwitchState

/-- The processor and the memory. -/
def machine (state : SwitchState) : Machine := ⟨state.cpu, state.procs.mem⟩

end SwitchState

/-- What the processor reads of the GDT and of `tss`. -/
def Processes.tables (procs : Processes) : Tables where
  dpl := gdtDpl
  esp0 := procs.tss 1
  ss0 := (procs.tss 2).toUInt16

/-- The instructions with which schedule resumes a task. -/
def resumeCode (esp : UInt32) : List Instr := [.movEsp esp, .addEsp 16, .popa, .addEsp 8]

/-- The machine at the call of irq_handler. -/
def irq0Call (irq0Eip : UInt32) (state : SwitchState) : Option Machine :=
  (interrupt state.procs.tables 0x08 irq0Eip state.machine).map (run (stubEntry 32))

/-- irq0 from the return of what irq_handler does before schedule. -/
def irq0Schedule (regs : UInt32) (handled : Machine) (state : SwitchState) :
    Option (Option Slot × SwitchState) :=
  let procs := (schedule regs { state.procs with mem := handled.mem }).2
  match (schedule regs { state.procs with mem := handled.mem }).1 with
  | none =>
    (iretd procs.tables (run irqReturn handled)).map fun back =>
      (none, { state with cpu := back.cpu, procs := procs })
  | some next =>
    (iretd procs.tables (run (resumeCode (procs.tasks next).esp) handled)).map fun back =>
      (some next, {
        cpu := back.cpu
        procs := procs
        saved := Function.update
          (Function.update state.saved state.procs.currentTask (some state.cpu)) next none })

/-- The words of a saved frame. -/
def frameWords : ℕ := 17

/-- A memory in which the frames of the preempted tasks are still there. -/
def FramesKept (state : SwitchState) (mem : UInt32 → UInt32) : Prop :=
  ∀ slot cpu, state.saved slot = some cpu →
    wordsAt mem (state.procs.tasks slot).esp frameWords =
      wordsAt state.procs.mem (state.procs.tasks slot).esp frameWords

/-- A timer interrupt with the task that schedule resumes. What irq_handler does before schedule
keeps the frame, the segments and the frames of the other tasks. -/
inductive TimerStep (state : SwitchState) : Option Slot → SwitchState → Prop where
  | interrupt {irq0Eip : UInt32} {call handled : Machine} {next : Option Slot}
      {after : SwitchState} (hcall : irq0Call irq0Eip state = some call)
      (hkeeps : KeepsFrame frameWords call handled)
      (hsegs : ∀ seg, handled.cpu.seg seg = call.cpu.seg seg)
      (hframes : FramesKept state handled.mem)
      (hafter : irq0Schedule call.top handled state = some (next, after)) :
      TimerStep state next after

/-- The registers saved for tasks that exist. -/
def SwitchState.savedTasks (state : SwitchState) (slot : Slot) : Option Cpu :=
  if (state.procs.tasks slot).state = .dead then none else state.saved slot

/-- A step of the system: a task runs, or makes another one, or the timer interrupts it. A task
does not write to the frames of the others. -/
inductive SwitchStep (state : SwitchState) : SwitchState → Prop where
  | work (cpu : Cpu) (mem : UInt32 → UInt32) (hcode : gdtDpl cpu.cs = rpl cpu.cs)
      (hframes : FramesKept state mem) :
      SwitchStep state { state with cpu := cpu, procs := { state.procs with mem := mem } }
  | create (cpu : Cpu) (kernelPageDir entry : UInt32) (name : CString) (priority : ℤ)
      (hcode : gdtDpl cpu.cs = rpl cpu.cs)
      (hframes : FramesKept state
        (procCreate kernelPageDir entry name priority state.procs).2.mem) :
      SwitchStep state {
        cpu := cpu
        procs := (procCreate kernelPageDir entry name priority state.procs).2
        saved := state.savedTasks }
  | createUser (cpu : Cpu) (userStack pageDir entry : UInt32) (name : CString)
      (hcode : gdtDpl cpu.cs = rpl cpu.cs)
      (hframes : FramesKept state
        (procCreateUser userStack pageDir entry name state.procs).2.mem) :
      SwitchStep state {
        cpu := cpu
        procs := (procCreateUser userStack pageDir entry name state.procs).2
        saved := state.savedTasks }
  | timer {next : Option Slot} {after : SwitchState} (h : TimerStep state next after) :
      SwitchStep state after

/-- The states that the system reaches from proc_init on. -/
inductive Reaches : SwitchState → Prop where
  | init (cpu : Cpu) (boot : Processes) (hcode : gdtDpl cpu.cs = rpl cpu.cs) :
      Reaches { cpu := cpu, procs := procInit boot, saved := fun _ => none }
  | step {state after : SwitchState} (h : Reaches state) (hstep : SwitchStep state after) :
      Reaches after

/-- A task that goes on with the registers of its preemption. -/
structure Resumed (before after : Cpu) : Prop where
  /-- EIP is as before. -/
  eip : after.eip = before.eip
  /-- CS is as before. -/
  cs : after.cs = before.cs
  /-- The flags are as before. -/
  eflags : after.eflags = before.eflags
  /-- EAX is as before. -/
  eax : after.eax = before.eax
  /-- EBX is as before. -/
  ebx : after.ebx = before.ebx
  /-- ECX is as before. -/
  ecx : after.ecx = before.ecx
  /-- EDX is as before. -/
  edx : after.edx = before.edx
  /-- ESI is as before. -/
  esi : after.esi = before.esi
  /-- EDI is as before. -/
  edi : after.edi = before.edi
  /-- EBP is as before. -/
  ebp : after.ebp = before.ebp
  /-- The data selectors are as before. -/
  segs : ∀ seg, after.seg seg = before.seg seg

/-- The frame of a task that was preempted in the kernel. -/
def savedFrame (cpu : Cpu) : List UInt32 :=
  (Regs.ofCpu { cpu with esp := cpu.esp - 12 } 32).words ++
    [cpu.eip, cpu.cs.toUInt32, cpu.eflags]

/-- The saved frames are those of the preempted tasks, which were in the kernel: without a stack
segment in `tss` no interrupt arrives from a lower privilege. -/
structure SwitchInv (state : SwitchState) : Prop where
  /-- The stack selector in the TSS is null. -/
  ss0 : state.procs.tss 2 = 0
  /-- The code segment has the level of its selector. -/
  code : gdtDpl state.cpu.cs = rpl state.cpu.cs
  /-- The current task is not suspended. -/
  current : state.saved state.procs.currentTask = none
  /-- The stack of a suspended task holds its frame. -/
  frame : ∀ slot cpu, state.saved slot = some cpu →
    Holds state.procs.mem (state.procs.tasks slot).esp (savedFrame cpu)
  /-- A suspended task runs in the kernel. -/
  level : ∀ slot cpu, state.saved slot = some cpu → rpl cpu.cs = 0 ∧ gdtDpl cpu.cs = 0

section Switches

variable {state after : SwitchState} {call handled : Machine} {irq0Eip : UInt32}

/-- The memory holds a frame that was kept. -/
theorem FramesKept.holds {mem : UInt32 → UInt32} (h : FramesKept state mem) {slot : Slot}
    {cpu : Cpu} (hsaved : state.saved slot = some cpu)
    (hframe : Holds state.procs.mem (state.procs.tasks slot).esp (savedFrame cpu)) :
    Holds mem (state.procs.tasks slot).esp (savedFrame cpu) := by
  rw [holds_iff_wordsAt] at hframe ⊢
  exact (h slot cpu hsaved).trans hframe

/-- irq_handler is called with the frame of the interrupted task, which was in the kernel. -/
theorem SwitchInv.irq0Call (h : SwitchInv state)
    (hcall : Process.irq0Call irq0Eip state = some call) :
    (rpl state.cpu.cs = 0 ∧ gdtDpl state.cpu.cs = 0) ∧ call.top = call.cpu.esp + 4 ∧
      call.cpu.cs = 0x08 ∧ (∀ seg, call.cpu.seg seg = 0x10) ∧
      Holds call.mem (call.cpu.esp + 4) (savedFrame state.cpu) := by
  have hlevel : rpl state.cpu.cs = rpl 0x08 := by
    by_contra hlevel
    have hnull : isNull state.procs.tables.ss0 = true := by
      show isNull (state.procs.tss 2).toUInt16 = true
      rw [h.ss0]
      decide
    have hnone : interrupt state.procs.tables 0x08 irq0Eip state.machine = none :=
      Machine.Shows.interrupt_none hlevel hnull
    rw [Process.irq0Call, hnone] at hcall
    exact nomatch hcall
  have ⟨entered, hentered, hrun⟩ := Option.map_eq_some_iff.mp hcall
  have hstack := Machine.Shows.interrupt_same hlevel hentered
  have hshows := stubEntry_shows hstack (by simp) 32
  rw [hrun] at hshows
  have hkernel : rpl 0x08 = 0 := by decide
  have hzero : rpl state.cpu.cs = 0 := by rw [hlevel, hkernel]
  have htop : call.top = state.cpu.esp - 12 - 56 := by
    rw [Machine.top, hshows.registers]
    exact hshows.stack.1
  have hesp : call.cpu.esp = state.cpu.esp - 12 - 60 := congrArg Cpu.esp hshows.registers
  refine ⟨⟨hzero, h.code.trans hzero⟩, ?_, ?_, fun seg => ?_, ?_⟩
  · rw [htop, hesp]
    grind
  · rw [hshows.registers]
    rfl
  · rw [hshows.registers]
    cases seg with | _ => rfl
  · rw [hshows.registers]
    exact hshows.stack.2

/-- What schedule changes besides the states of tasks. -/
theorem schedule_spec (regs : UInt32) (procs : Processes) :
    (schedule regs procs).2.mem = procs.mem ∧
    (schedule regs procs).2.tss 2 = procs.tss 2 ∧
    (∀ slot, slot ≠ procs.currentTask →
      ((schedule regs procs).2.tasks slot).esp = (procs.tasks slot).esp) ∧
    match (schedule regs procs).1 with
    | none => (schedule regs procs).2.currentTask = procs.currentTask
    | some next => next ≠ procs.currentTask ∧ (schedule regs procs).2.currentTask = next ∧
        ((schedule regs procs).2.tasks procs.currentTask).esp = regs := by
  have hsaved : ∀ slot, slot ≠ procs.currentTask →
      ((saveTask regs procs).tasks slot).esp = (procs.tasks slot).esp := by
    intro slot hne
    rw [saveTask, setTask_tasks_of_ne hne]
  unfold schedule
  by_cases hfew : procs.numTasks ≤ 1
  · rw [if_pos hfew]
    exact ⟨rfl, rfl, fun _ _ => rfl, rfl⟩
  · rw [if_neg hfew]
    dsimp only
    by_cases hsame : pickNext (saveTask regs procs).tasks procs.currentTask = procs.currentTask
    · rw [if_pos hsame]
      exact ⟨rfl, rfl, hsaved, rfl⟩
    · rw [if_neg hsame]
      have hresumed : ∀ slot, ((resumeTask (pickNext (saveTask regs procs).tasks procs.currentTask)
          (saveTask regs procs)).tasks slot).esp = ((saveTask regs procs).tasks slot).esp := by
        intro slot
        by_cases hnext : slot = pickNext (saveTask regs procs).tasks procs.currentTask
        · rw [resumeTask, hnext, setTask_tasks_self]
        · rw [resumeTask, setTask_tasks_of_ne hnext]
      refine ⟨rfl, ?_, fun slot hne => (hresumed slot).trans (hsaved slot hne), hsame, rfl, ?_⟩
      · rfl
      · rw [hresumed, saveTask, setTask_tasks_self]

/-- A task that is resumed has the registers of its frame and the segments of the handler. -/
theorem resumeCode_shows (tables : Tables) {esp : UInt32} {cpu : Cpu}
    (hframe : Holds handled.mem esp (savedFrame cpu)) (hcs : handled.cpu.cs = 0x08)
    (hlevel : rpl cpu.cs = 0) (hcode : tables.dpl cpu.cs = 0) :
    iretd tables (run (resumeCode esp) handled) = some { run (resumeCode esp) handled with
      cpu := { cpu with
        esp := esp + 16 + 32 + 8 + 12, ss := handled.cpu.ss
        ds := handled.cpu.ds, es := handled.cpu.es, fs := handled.cpu.fs
        gs := handled.cpu.gs } } := by
  have hstack := Machine.Shows.movEsp hframe
  have hpopped := hstack.addEsp_sixteen.popa.addEsp_eight
  have hkernel : rpl 0x08 = 0 := by decide
  have hback := hpopped.iretd_same (by rw [UInt16.toUInt16_toUInt32, hcs, hkernel, hlevel])
    (by rw [UInt16.toUInt16_toUInt32, hlevel, hcode])
  rw [UInt16.toUInt16_toUInt32] at hback
  exact hback

/-- The states after an interrupt from which the same task goes on. -/
theorem SwitchInv.goesOn {regs : UInt32} (h : SwitchInv state)
    (hframes : FramesKept state handled.mem)
    (hnone : (schedule regs { state.procs with mem := handled.mem }).1 = none) {cpu : Cpu}
    (hcode : gdtDpl cpu.cs = rpl cpu.cs) :
    SwitchInv { state with
      cpu := cpu, procs := (schedule regs { state.procs with mem := handled.mem }).2 } := by
  have ⟨hmem, htss, hesp, hcurrent⟩ := schedule_spec regs { state.procs with mem := handled.mem }
  rw [hnone] at hcurrent
  refine ⟨htss.trans h.ss0, hcode, ?_, fun slot saved hsaved => ?_, h.level⟩
  · exact (congrArg state.saved hcurrent).trans h.current
  · have hne : slot ≠ state.procs.currentTask := by
      intro heq
      rw [heq, h.current] at hsaved
      exact nomatch hsaved
    have hheld := hframes.holds hsaved (h.frame slot saved hsaved)
    show Holds (schedule regs { state.procs with mem := handled.mem }).2.mem
      ((schedule regs { state.procs with mem := handled.mem }).2.tasks slot).esp _
    rw [hmem, hesp slot hne]
    exact hheld

/-- The states after an interrupt from which another task goes on. -/
theorem SwitchInv.switches {regs : UInt32} {next : Slot} (h : SwitchInv state)
    (hframes : FramesKept state handled.mem) (hown : Holds handled.mem regs (savedFrame state.cpu))
    (hlevel : rpl state.cpu.cs = 0 ∧ gdtDpl state.cpu.cs = 0)
    (hnext : (schedule regs { state.procs with mem := handled.mem }).1 = some next) {cpu : Cpu}
    (hcode : gdtDpl cpu.cs = rpl cpu.cs) :
    SwitchInv {
      cpu := cpu
      procs := (schedule regs { state.procs with mem := handled.mem }).2
      saved := Function.update
        (Function.update state.saved state.procs.currentTask (some state.cpu)) next none } := by
  have ⟨hmem, htss, hesp, hspec⟩ := schedule_spec regs { state.procs with mem := handled.mem }
  rw [hnext] at hspec
  have ⟨hne, hcurrent, hregs⟩ := hspec
  have hsaved : ∀ slot saved, Function.update (Function.update state.saved
      state.procs.currentTask (some state.cpu)) next none slot = some saved →
      slot = state.procs.currentTask ∧ saved = state.cpu ∨
        slot ≠ state.procs.currentTask ∧ state.saved slot = some saved := by
    intro slot saved hsaved
    have hslot : slot ≠ next := by
      intro heq
      rw [heq, Function.update_self] at hsaved
      exact nomatch hsaved
    rw [Function.update_of_ne hslot] at hsaved
    by_cases hself : slot = state.procs.currentTask
    · rw [hself, Function.update_self] at hsaved
      exact .inl ⟨hself, (Option.some.inj hsaved).symm⟩
    · rw [Function.update_of_ne hself] at hsaved
      exact .inr ⟨hself, hsaved⟩
  refine ⟨htss.trans h.ss0, hcode, ?_, fun slot saved hslot => ?_, fun slot saved hslot => ?_⟩
  · dsimp only
    rw [hcurrent]
    exact Function.update_self _ _ _
  · show Holds (schedule regs { state.procs with mem := handled.mem }).2.mem
      ((schedule regs { state.procs with mem := handled.mem }).2.tasks slot).esp _
    rw [hmem]
    rcases hsaved slot saved hslot with ⟨hself, hcpu⟩ | ⟨hother, hold⟩
    · have hesp : ((schedule regs { state.procs with mem := handled.mem }).2.tasks slot).esp =
          regs := by
        rw [hself]
        exact hregs
      rw [hesp, hcpu]
      exact hown
    · rw [hesp slot hother]
      exact hframes.holds hold (h.frame slot saved hold)
  · rcases hsaved slot saved hslot with ⟨_, hcpu⟩ | ⟨_, hold⟩
    · rw [hcpu]
      exact hlevel
    · exact h.level slot saved hold

/-- A timer interrupt leaves the saved frames, and resumes a task that was preempted with its
registers exactly when its segments were those of the kernel. -/
theorem SwitchInv.timer {next : Option Slot} (h : SwitchInv state)
    (hstep : TimerStep state next after) :
    SwitchInv after ∧ ∀ slot cpu, next = some slot → state.saved slot = some cpu →
      (Resumed cpu after.cpu ↔ ∀ seg, cpu.seg seg = 0x10) := by
  cases hstep with
  | interrupt hcall hkeeps hsegs hframes hafter =>
    rename_i eip called handled
    have ⟨hlevel, htop, hcs, hkernel, hframe⟩ := h.irq0Call hcall
    have hown := hkeeps.words _ rfl hframe
    rw [← htop] at hown
    unfold irq0Schedule at hafter
    cases hfound : (schedule called.top { state.procs with mem := handled.mem }).1 with
    | none =>
      rw [hfound] at hafter
      have ⟨back, hback, hpair⟩ := Option.map_eq_some_iff.mp hafter
      have hnone : none = next := congrArg Prod.fst hpair
      have hstate : _ = after := congrArg Prod.snd hpair
      rw [← hnone, ← hstate]
      exact ⟨h.goesOn hframes hfound (iretd_code hback), fun slot cpu hslot => nomatch hslot⟩
    | some resumed =>
      rw [hfound] at hafter
      have ⟨back, hback, hpair⟩ := Option.map_eq_some_iff.mp hafter
      have hnext : some resumed = next := congrArg Prod.fst hpair
      have hstate : _ = after := congrArg Prod.snd hpair
      rw [← hnext, ← hstate]
      refine ⟨h.switches hframes hown hlevel hfound (iretd_code hback),
        fun slot cpu hslot hsaved => ?_⟩
      have hsame : resumed = slot := Option.some.inj hslot
      subst hsame
      have ⟨_, _, hesp, hspec⟩ := schedule_spec called.top { state.procs with mem := handled.mem }
      rw [hfound] at hspec
      have hsegments : ∀ seg, handled.cpu.seg seg = 0x10 :=
        fun seg => (hsegs seg).trans (hkernel seg)
      have hheld := hframes.holds hsaved (h.frame resumed cpu hsaved)
      have ⟨hcpuLevel, hcpuCode⟩ := h.level resumed cpu hsaved
      have hresumes := resumeCode_shows (schedule called.top
        { state.procs with mem := handled.mem }).2.tables hheld (hkeeps.cs.trans hcs) hcpuLevel
        hcpuCode
      have hespNext : ((schedule called.top { state.procs with mem := handled.mem }).2.tasks
          resumed).esp = (state.procs.tasks resumed).esp := hesp resumed hspec.1
      rw [hespNext] at hback
      have hregisters := Option.some.inj (hback.symm.trans hresumes)
      rw [hregisters]
      constructor
      · intro hrestored seg
        rw [← hrestored.segs seg, ← hsegments seg]
        cases seg with | _ => rfl
      · intro hdata
        refine ⟨rfl, rfl, rfl, rfl, rfl, rfl, rfl, rfl, rfl, rfl, fun seg => ?_⟩
        rw [hdata seg, ← hsegments seg]
        cases seg with | _ => rfl

/-- A creation keeps the tasks that exist, `tss` and the current slot. -/
theorem placeTask_others {procs : Processes} {slot other : Slot} (task : Task)
    (frame : List UInt32) (h : deadSlot procs = some slot)
    (hother : (procs.tasks other).state ≠ .dead) :
    (placeTask slot task frame (takeSlot slot procs)).2.tasks other = procs.tasks other := by
  have hne : other ≠ slot := by
    intro heq
    have htest := firstSlot_test h
    rw [heq] at hother
    exact hother (by simpa using htest)
  show ((takeSlot slot procs).setTask slot task).tasks other = procs.tasks other
  rw [setTask_tasks_of_ne hne, takeSlot, setTask_tasks_of_ne hne]

/-- proc_create keeps the tasks that exist, `tss` and the current slot. -/
theorem procCreate_others (kernelPageDir entry : UInt32) (name : CString) (priority : ℤ)
    (procs : Processes) :
    (procCreate kernelPageDir entry name priority procs).2.tss = procs.tss ∧
    (procCreate kernelPageDir entry name priority procs).2.currentTask = procs.currentTask ∧
    ∀ slot, (procs.tasks slot).state ≠ .dead →
      (procCreate kernelPageDir entry name priority procs).2.tasks slot = procs.tasks slot := by
  unfold procCreate allocPid
  by_cases hfull : procs.numTasks ≥ maxTasks
  · rw [if_pos hfull]
    exact ⟨rfl, rfl, fun _ _ => rfl⟩
  · rw [if_neg hfull]
    cases hslot : deadSlot procs with
    | none => exact ⟨rfl, rfl, fun _ _ => rfl⟩
    | some slot => exact ⟨rfl, rfl, fun other hother => placeTask_others _ _ hslot hother⟩

/-- proc_create_user keeps the tasks that exist, `tss` and the current slot. -/
theorem procCreateUser_others (userStack pageDir entry : UInt32) (name : CString)
    (procs : Processes) :
    (procCreateUser userStack pageDir entry name procs).2.tss = procs.tss ∧
    (procCreateUser userStack pageDir entry name procs).2.currentTask = procs.currentTask ∧
    ∀ slot, (procs.tasks slot).state ≠ .dead →
      (procCreateUser userStack pageDir entry name procs).2.tasks slot = procs.tasks slot := by
  unfold procCreateUser allocPid
  by_cases hfull : procs.numTasks ≥ maxTasks
  · rw [if_pos hfull]
    exact ⟨rfl, rfl, fun _ _ => rfl⟩
  · rw [if_neg hfull]
    cases hslot : deadSlot procs with
    | none => exact ⟨rfl, rfl, fun _ _ => rfl⟩
    | some slot =>
      dsimp only
      by_cases hstack : userStack = 0
      · rw [if_pos hstack]
        exact ⟨rfl, rfl, fun other hother => placeTask_others _ [] hslot hother⟩
      · rw [if_neg hstack]
        exact ⟨rfl, rfl, fun other hother => placeTask_others _ _ hslot hother⟩

/-- The states after a creation. -/
theorem SwitchInv.created {procs : Processes} {cpu : Cpu} (h : SwitchInv state)
    (hcode : gdtDpl cpu.cs = rpl cpu.cs) (hframes : FramesKept state procs.mem)
    (hothers : procs.tss = state.procs.tss ∧ procs.currentTask = state.procs.currentTask ∧
      ∀ slot, (state.procs.tasks slot).state ≠ .dead →
        procs.tasks slot = state.procs.tasks slot) :
    SwitchInv { cpu := cpu, procs := procs, saved := state.savedTasks } := by
  have ⟨htss, hcurrent, htasks⟩ := hothers
  have hsaved : ∀ slot saved, state.savedTasks slot = some saved →
      (state.procs.tasks slot).state ≠ .dead ∧ state.saved slot = some saved := by
    intro slot saved hslot
    rw [SwitchState.savedTasks] at hslot
    split_ifs at hslot with hdead
    exact ⟨hdead, hslot⟩
  refine ⟨(congrFun htss 2).trans h.ss0, hcode, ?_, fun slot saved hslot => ?_,
    fun slot saved hslot => h.level slot saved (hsaved slot saved hslot).2⟩
  · show state.savedTasks procs.currentTask = none
    rw [hcurrent, SwitchState.savedTasks, h.current, ite_self]
  · have ⟨hdead, hold⟩ := hsaved slot saved hslot
    show Holds procs.mem (procs.tasks slot).esp _
    rw [htasks slot hdead]
    exact hframes.holds hold (h.frame slot saved hold)

/-- Every step leaves the saved frames. -/
theorem SwitchInv.step (h : SwitchInv state) (hstep : SwitchStep state after) :
    SwitchInv after := by
  cases hstep with
  | work cpu mem hcode hframes =>
    exact ⟨h.ss0, hcode, h.current,
      fun slot saved hsaved => hframes.holds hsaved (h.frame slot saved hsaved), h.level⟩
  | create cpu kernelPageDir entry name priority hcode hframes =>
    exact h.created hcode hframes (procCreate_others kernelPageDir entry name priority state.procs)
  | createUser cpu userStack pageDir entry name hcode hframes =>
    exact h.created hcode hframes (procCreateUser_others userStack pageDir entry name state.procs)
  | timer htimer => exact (h.timer htimer).1

/-- The saved frames are there in every state. -/
theorem Reaches.inv (h : Reaches state) : SwitchInv state := by
  induction h with
  | init cpu boot hcode =>
    exact ⟨rfl, hcode, rfl, fun _ _ hsaved => (nomatch hsaved), fun _ _ hsaved => (nomatch hsaved)⟩
  | step _ hstep ih => exact ih.step hstep

/-- After any number of task creations and timer interrupts, schedule resumes a task that was
preempted with the registers of its preemption exactly when its segment registers held 0x10. -/
theorem timer_resumes_iff {next : Slot} {cpu : Cpu} (hreach : Reaches state)
    (hstep : TimerStep state (some next) after) (hsaved : state.saved next = some cpu) :
    Resumed cpu after.cpu ↔ ∀ seg, cpu.seg seg = 0x10 :=
  (hreach.inv.timer hstep).2 next cpu rfl hsaved

end Switches

/-- The kernel with two tasks that never ran, while the code in the first slot has a value in
gs. -/
def twoTasks (gs : UInt16) : SwitchState where
  cpu := { caller.cpu with gs := gs }
  procs := (procCreate 0x1000 0x12000 taskName 1
    (procCreate 0x1000 0x11000 taskName 1 (procInit zeroProcesses)).2).2
  saved := fun _ => none

/-- A timer interrupt whose handler does nothing but schedule. -/
def tick (state : SwitchState) : Option (Option Slot × SwitchState) :=
  (irq0Call 0x3000 state).bind fun call => irq0Schedule call.top call state

/-- Whether the stub leaves the frames of the preempted tasks. -/
def tickKeeps (state : SwitchState) : Bool :=
  (irq0Call 0x3000 state).all fun call => (List.finRange maxTasks).all fun slot =>
    (state.saved slot).isNone || decide (wordsAt call.mem (state.procs.tasks slot).esp frameWords =
      wordsAt state.procs.mem (state.procs.tasks slot).esp frameWords)

/-- A tick is a timer interrupt. -/
theorem tick_step {state after : SwitchState} {next : Option Slot} (hkeeps : tickKeeps state)
    (h : tick state = some (next, after)) : TimerStep state next after := by
  have ⟨call, hcall, hafter⟩ := Option.bind_eq_some_iff.mp h
  refine .interrupt hcall ⟨rfl, rfl, rfl, fun _ _ hwords => hwords⟩ (fun _ => rfl) ?_ hafter
  intro slot cpu hsaved
  rw [tickKeeps, hcall] at hkeeps
  have hslot := List.all_eq_true.mp hkeeps slot (List.mem_finRange slot)
  rw [hsaved] at hslot
  simpa using hslot

/-- The kernel reaches the state with two tasks. -/
theorem twoTasks_reaches (gs : UInt16) : Reaches (twoTasks gs) := by
  let cpu : Cpu := { caller.cpu with gs := gs }
  have hcode : gdtDpl cpu.cs = rpl cpu.cs := caller_selectorsValid.code
  have hinit : Reaches ⟨cpu, procInit zeroProcesses, fun _ => none⟩ := .init cpu _ hcode
  have hfirst := hinit.step (.create cpu 0x1000 0x11000 taskName 1 hcode
    fun _ _ hsaved => (nomatch hsaved))
  have hnone : SwitchState.savedTasks ⟨cpu, procInit zeroProcesses, fun _ => none⟩ =
      fun _ => none := funext fun _ => ite_self _
  rw [hnone] at hfirst
  have hsecond := hfirst.step (.create cpu 0x1000 0x12000 taskName 1 hcode
    fun _ _ hsaved => (nomatch hsaved))
  have hnone' : SwitchState.savedTasks ⟨cpu, (procCreate 0x1000 0x11000 taskName 1
      (procInit zeroProcesses)).2, fun _ => none⟩ = fun _ => none := funext fun _ => ite_self _
  rw [hnone'] at hsecond
  exact hsecond

/-- The state after the first tick. -/
def afterTick (gs : UInt16) : SwitchState := ((tick (twoTasks gs)).getD (none, twoTasks gs)).2

/-- A tick whose resumed slot is known. -/
theorem tick_some {state : SwitchState} {next : Option Slot}
    (h : (tick state).map Prod.fst = some next) :
    tick state = some (next, ((tick state).getD (none, state)).2) := by
  have ⟨pair, hpair, hnext⟩ := Option.map_eq_some_iff.mp h
  rw [hpair, ← hnext]
  rfl

/-- The first tick goes to the second task. -/
theorem afterTick_reaches {gs : UInt16} (hkeeps : tickKeeps (twoTasks gs))
    (h : (tick (twoTasks gs)).map Prod.fst = some (some 1)) : Reaches (afterTick gs) :=
  (twoTasks_reaches gs).step (.timer (tick_step hkeeps (tick_some h)))

/-- The code in the first slot is resumed by the second tick with 0x10 in gs, where it had 0. -/
theorem timer_segmentLost : ∃ state after cpu, Reaches state ∧
    TimerStep state (some 0) after ∧ state.saved 0 = some cpu ∧ cpu.gs = 0 ∧
    after.cpu.gs = 0x10 ∧ ¬Resumed cpu after.cpu := by
  have hreach : Reaches (afterTick 0) :=
    afterTick_reaches (by decide +kernel) (by decide +kernel)
  have hstep : TimerStep (afterTick 0) (some 0)
      ((tick (afterTick 0)).getD (none, afterTick 0)).2 :=
    tick_step (by decide +kernel) (tick_some (by decide +kernel))
  have hgs : ((tick (afterTick 0)).getD (none, afterTick 0)).2.cpu.gs = 0x10 := by decide +kernel
  refine ⟨_, _, (twoTasks 0).cpu, hreach, hstep, by decide +kernel, rfl, hgs, fun hresumed => ?_⟩
  have hlost := hresumed.segs .gs
  exact absurd (hgs.symm.trans hlost) (by decide +kernel)

/-- The criterion for the code in the first slot with the segments of the kernel. -/
theorem timer_resumes_iff_kernel : ∃ state after cpu, Reaches state ∧
    TimerStep state (some 0) after ∧ state.saved 0 = some cpu ∧
    (Resumed cpu after.cpu ↔ ∀ seg, cpu.seg seg = 0x10) := by
  have hreach : Reaches (afterTick 0x10) :=
    afterTick_reaches (by decide +kernel) (by decide +kernel)
  have hstep : TimerStep (afterTick 0x10) (some 0)
      ((tick (afterTick 0x10)).getD (none, afterTick 0x10)).2 :=
    tick_step (by decide +kernel) (tick_some (by decide +kernel))
  have hsaved : (afterTick 0x10).saved 0 = some (twoTasks 0x10).cpu := by decide +kernel
  exact ⟨_, _, _, hreach, hstep, hsaved, timer_resumes_iff hreach hstep hsaved⟩

end HexaOS.Process
