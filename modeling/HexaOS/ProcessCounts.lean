import HexaOS.ProcessCalls
import Mathlib.Data.Finset.Card
import Mathlib.Data.Fintype.Basic

/-!
# The count of live tasks

`num_tasks` against the slots whose task has not ended, and the pids of these slots, over
arbitrary sequences of calls. A call is described by what it does to the set of live slots.
-/

namespace HexaOS.Process

open Hexafs (CString)

/-- Whether the task of a slot has not ended. -/
def Processes.live (procs : Processes) (slot : Slot) : Bool := (procs.tasks slot).state.live

/-- The slots whose task has not ended. -/
def Processes.liveSlots (procs : Processes) : Finset Slot :=
  Finset.univ.filter fun slot => procs.live slot

/-- The counter and the pids fit the live tasks. -/
structure Accounts (procs : Processes) : Prop where
  /-- num_tasks counts the live tasks. -/
  count : procs.numTasks = procs.liveSlots.card
  /-- Their pids are positive. -/
  positive : ∀ slot, procs.live slot → 0 < (procs.tasks slot).pid
  /-- Their pids are different. -/
  distinct : ∀ a b, procs.live a → procs.live b →
    (procs.tasks a).pid = (procs.tasks b).pid → a = b

/-- The pids to come are fresh. -/
structure Accounted (procs : Processes) : Prop extends Accounts procs where
  /-- The next pid is positive. -/
  nextPos : 0 < procs.nextPid
  /-- It is new. -/
  fresh : ∀ slot, procs.live slot → (procs.tasks slot).pid < procs.nextPid

/-- A creation. -/
def Operation.isCreation : Operation → Bool
  | create .. | createUser .. => true
  | exit _ | kill _ | wait | reapZombies | schedule _ => false

/-- What the task table owes after a call: the counter and the pids fit, and a creation that
was refused has changed nothing. -/
structure CallAccounts (op : Operation) (procs : Processes) : Prop where
  /-- The counts are right afterwards. -/
  after : Accounts (op.exec procs).2
  /-- A creation that is refused changes nothing. -/
  refused : op.isCreation → (op.exec procs).1 = -1 →
    (op.exec procs).2.tasks = procs.tasks ∧ (op.exec procs).2.numTasks = procs.numTasks

/-- The calls that keep the accounts: a page for the stack of a new user task unless it is
refused before, an exit by a live task, and no kill of a task that has ended. -/
def CallSound (op : Operation) (procs : Processes) : Prop :=
  match op with
  | .createUser userStack _ _ _ =>
    (procs.numTasks ≥ maxTasks ∨ deadSlot procs = none) ∨ userStack ≠ 0
  | .exit _ => procs.live procs.currentTask
  | .kill pid => 0 < pid → ∀ slot, killTarget pid procs = some slot → procs.live slot
  | .create .. | .wait | .reapZombies | .schedule _ => True

/-- A call that leaves the live tasks as they were. -/
structure SameLive (procs after : Processes) : Prop where
  /-- The live tasks stay. -/
  live : ∀ slot, after.live slot = procs.live slot
  /-- Their pids stay. -/
  pid : ∀ slot, procs.live slot → (after.tasks slot).pid = (procs.tasks slot).pid
  /-- num_tasks stays. -/
  numTasks : after.numTasks = procs.numTasks
  /-- next_pid stays. -/
  nextPid : after.nextPid = procs.nextPid

/-- A call that ends the task of a slot. -/
structure Ended (slot : Slot) (procs after : Processes) : Prop where
  /-- One task is no longer live. -/
  live : ∀ other, after.live other = (procs.live other && other != slot)
  /-- Other pids stay. -/
  pid : ∀ other, other ≠ slot → (after.tasks other).pid = (procs.tasks other).pid
  /-- num_tasks counts down. -/
  numTasks : after.numTasks = procs.numTasks - 1
  /-- next_pid stays. -/
  nextPid : after.nextPid = procs.nextPid

/-- A call that makes a task in a slot. -/
structure Created (slot : Slot) (procs after : Processes) : Prop where
  /-- The slot was not live. -/
  free : procs.live slot = false
  /-- It is. -/
  live : ∀ other, after.live other = (procs.live other || other == slot)
  /-- The new pid is the next one. -/
  newPid : (after.tasks slot).pid = procs.nextPid
  /-- Other pids stay. -/
  pid : ∀ other, other ≠ slot → (after.tasks other).pid = (procs.tasks other).pid
  /-- num_tasks counts on. -/
  numTasks : after.numTasks = procs.numTasks + 1
  /-- next_pid counts on. -/
  nextPid : after.nextPid = procs.nextPid + 1

section Accounting

variable {procs after : Processes} {slot : Slot}

/-- Membership in the live slots. -/
@[simp] theorem mem_liveSlots : slot ∈ procs.liveSlots ↔ procs.live slot = true := by
  simp [Processes.liveSlots]

/-- The accounts survive a call that leaves the live tasks. -/
theorem SameLive.accounted (hsame : SameLive procs after) (h : Accounted procs) :
    Accounted after := by
  have hslots : after.liveSlots = procs.liveSlots := by
    ext slot
    rw [mem_liveSlots, mem_liveSlots, hsame.live]
  refine { count := ?_, positive := ?_, distinct := ?_, nextPos := ?_, fresh := ?_ }
  · rw [hsame.numTasks, hslots]
    exact h.count
  · intro slot hlive
    rw [hsame.live] at hlive
    rw [hsame.pid slot hlive]
    exact h.positive slot hlive
  · intro a b ha hb hpid
    rw [hsame.live] at ha hb
    rw [hsame.pid a ha, hsame.pid b hb] at hpid
    exact h.distinct a b ha hb hpid
  · rw [hsame.nextPid]
    exact h.nextPos
  · intro slot hlive
    rw [hsame.live] at hlive
    rw [hsame.pid slot hlive, hsame.nextPid]
    exact h.fresh slot hlive

/-- The live slots after the end of a task. -/
theorem Ended.liveSlots (hended : Ended slot procs after) :
    after.liveSlots = procs.liveSlots.erase slot := by
  ext other
  rw [mem_liveSlots, hended.live, Finset.mem_erase, mem_liveSlots]
  simp [and_comm]

/-- The accounts survive the end of a live task. -/
theorem Ended.accounted (hended : Ended slot procs after) (h : Accounted procs)
    (hlive : procs.live slot) : Accounted after := by
  have hbefore : ∀ other, after.live other → procs.live other ∧ other ≠ slot := by
    intro other hother
    rw [hended.live] at hother
    simpa using hother
  have hcard : (procs.liveSlots.erase slot).card + 1 = procs.liveSlots.card :=
    Finset.card_erase_add_one (mem_liveSlots.mpr hlive)
  refine { count := ?_, positive := ?_, distinct := ?_, nextPos := ?_, fresh := ?_ }
  · have hcount := h.count
    rw [hended.numTasks, hended.liveSlots]
    omega
  · intro other hother
    have ⟨hwas, hne⟩ := hbefore other hother
    rw [hended.pid other hne]
    exact h.positive other hwas
  · intro a b ha hb hpid
    have ⟨hwasA, hneA⟩ := hbefore a ha
    have ⟨hwasB, hneB⟩ := hbefore b hb
    rw [hended.pid a hneA, hended.pid b hneB] at hpid
    exact h.distinct a b hwasA hwasB hpid
  · rw [hended.nextPid]
    exact h.nextPos
  · intro other hother
    have ⟨hwas, hne⟩ := hbefore other hother
    rw [hended.pid other hne, hended.nextPid]
    exact h.fresh other hwas

/-- The end of a task that had ended before takes the counter below the live tasks. -/
theorem Ended.not_accounts (hended : Ended slot procs after) (h : Accounts procs)
    (hlive : procs.live slot = false) : ¬Accounts after := by
  intro hafter
  have hslots : after.liveSlots = procs.liveSlots := by
    rw [hended.liveSlots, Finset.erase_eq_of_notMem]
    rw [mem_liveSlots, hlive]
    decide
  have hcount := hafter.count
  rw [hended.numTasks, hslots, h.count] at hcount
  omega

/-- The accounts survive a creation. -/
theorem Created.accounted (hcreated : Created slot procs after) (h : Accounted procs) :
    Accounted after := by
  have hbefore : ∀ other, after.live other → other ≠ slot → procs.live other := by
    intro other hother hne
    rw [hcreated.live] at hother
    simpa [hne] using hother
  have hslots : after.liveSlots = insert slot procs.liveSlots := by
    ext other
    rw [mem_liveSlots, hcreated.live, Finset.mem_insert, mem_liveSlots]
    simp [or_comm]
  have hnew : slot ∉ procs.liveSlots := by
    rw [mem_liveSlots, hcreated.free]
    decide
  have hpid : ∀ other, after.live other → other ≠ slot →
      (after.tasks other).pid = (procs.tasks other).pid ∧
        0 < (procs.tasks other).pid ∧ (procs.tasks other).pid < procs.nextPid := by
    intro other hother hne
    have hwas := hbefore other hother hne
    exact ⟨hcreated.pid other hne, h.positive other hwas, h.fresh other hwas⟩
  have hnext := h.nextPos
  have hnewPid := hcreated.newPid
  refine { count := ?_, positive := ?_, distinct := ?_, nextPos := ?_, fresh := ?_ }
  · have hcount := h.count
    rw [hcreated.numTasks, hslots, Finset.card_insert_of_notMem hnew]
    push_cast
    omega
  · intro other hother
    by_cases hne : other = slot
    · rw [hne]
      omega
    · have ⟨hsame, hpos, _⟩ := hpid other hother hne
      omega
  · intro a b ha hb hequal
    by_cases hneA : a = slot
    · by_cases hneB : b = slot
      · rw [hneA, hneB]
      · have ⟨hsame, _, hlt⟩ := hpid b hb hneB
        rw [hneA] at hequal
        omega
    · have ⟨hsameA, _, hltA⟩ := hpid a ha hneA
      by_cases hneB : b = slot
      · rw [hneB] at hequal
        omega
      · have ⟨hsameB, _, _⟩ := hpid b hb hneB
        exact h.distinct a b (hbefore a ha hneA) (hbefore b hb hneB) (by omega)
  · have hnextPid := hcreated.nextPid
    omega
  · intro other hother
    have hnextPid := hcreated.nextPid
    by_cases hne : other = slot
    · rw [hne]
      omega
    · have ⟨hsame, _, hlt⟩ := hpid other hother hne
      omega

end Accounting

section Calls

variable {procs after : Processes} {slot : Slot}

/-- The live states are those of the live kind. -/
theorem TaskState.live_eq (state : TaskState) : state.live = (state.phase == .live) := by
  cases state with
  | _ => rfl

/-- The live slots are those of the live kind. -/
theorem live_eq (procs : Processes) (slot : Slot) :
    procs.live slot = (procs.phase slot == .live) := TaskState.live_eq _

/-- A task that is kept stays live or not. -/
theorem TaskKept.live {procs after : Processes}
    (h : TaskKept (procs.tasks slot) (after.tasks slot)) :
    after.live slot = procs.live slot := by
  rw [live_eq, live_eq, Processes.phase, h.phase, Processes.phase]

/-- A call that keeps all tasks leaves the live ones. -/
theorem Keeps.sameLive (h : Keeps procs after) : SameLive procs after where
  live slot := (h.kept slot).live
  pid slot _ := (h.kept slot).pid
  numTasks := h.numTasks
  nextPid := h.nextPid

/-- A call that frees the slot of an ended task leaves the live ones. -/
theorem Frees.sameLive (h : Frees slot procs after) : SameLive procs after := by
  have hended : procs.live slot = false := by
    rw [live_eq, h.ended]
    rfl
  refine ⟨fun other => ?_, fun other hlive => ?_, h.numTasks, h.nextPid⟩
  · by_cases hne : other = slot
    · rw [hne, hended, live_eq, h.phase]
      rfl
    · exact (h.kept other hne).live
  · by_cases hne : other = slot
    · rw [hne, hended] at hlive
      exact absurd hlive Bool.noConfusion
    · exact (h.kept other hne).pid

/-- A call that ends a task takes it from the live ones. -/
theorem Ends.ended {pid code : ℤ} (h : Ends slot pid code procs after) :
    Ended slot procs after := by
  refine ⟨fun other => ?_, fun other hne => (h.kept other hne).pid, h.numTasks, h.nextPid⟩
  by_cases hne : other = slot
  · rw [hne, live_eq, h.phase]
    simp
  · rw [(h.kept other hne).live]
    simp [hne]

/-- A call that makes a task and counts it adds to the live ones. -/
theorem Adds.created (h : Adds slot 1 procs after) : Created slot procs after := by
  have hfree : procs.live slot = false := by
    rw [live_eq, deadSlot_phase h.first]
    rfl
  refine ⟨hfree, fun other => ?_, h.pid, fun other hne => (h.kept other hne).pid, h.numTasks,
    h.nextPid⟩
  by_cases hne : other = slot
  · rw [hne, live_eq, h.phase]
    simp
  · rw [(h.kept other hne).live]
    simp [hne]

/-- A call that changes nothing leaves the live tasks. -/
theorem SameLive.refl (procs : Processes) : SameLive procs procs :=
  (Keeps.refl procs).sameLive

/-- proc_wait leaves the live tasks. -/
theorem procWait_sameLive (procs : Processes) : SameLive procs (procWait procs).2.2 := by
  cases hfound : waitTarget procs with
  | none =>
    rw [procWait_none hfound]
    exact SameLive.refl procs
  | some slot => exact (procWait_frees hfound).sameLive

/-- proc_reap_zombies leaves the live tasks. -/
theorem procReapZombies_sameLive (procs : Processes) :
    SameLive procs (procReapZombies procs) := by
  refine ⟨fun slot => ?_, fun slot _ => ?_, rfl, rfl⟩
  · simp only [Processes.live, procReapZombies]
    split_ifs with hzombie
    · rw [hzombie]
      rfl
    · rfl
  · simp only [procReapZombies]
    split_ifs with hzombie
    · rfl
    · rfl

end Calls

section CallSequences

variable {procs : Processes}

/-- The accounts after proc_init. -/
theorem procInit_accounted (hnext : 0 < procs.nextPid) : Accounted (procInit procs) := by
  have hdead : ∀ slot, (procInit procs).live slot = false := fun _ => rfl
  have hnone : (procInit procs).liveSlots = ∅ := by
    ext slot
    rw [mem_liveSlots, hdead]
    simp
  refine { count := ?_, positive := ?_, distinct := ?_, nextPos := hnext, fresh := ?_ }
  · rw [hnone]
    rfl
  · intro slot hlive
    exact absurd hlive (by rw [hdead]; decide)
  · intro a _ hlive
    exact absurd hlive (by rw [hdead]; decide)
  · intro slot hlive
    exact absurd hlive (by rw [hdead]; decide)

/-- A call that is not a creation owes only the accounts. -/
theorem CallAccounts.of_accounted {op : Operation} (hop : op.isCreation = false)
    (h : Accounted (op.exec procs).2) : Accounted (op.exec procs).2 ∧ CallAccounts op procs :=
  ⟨h, h.toAccounts, fun hcreation => absurd hcreation (by rw [hop]; decide)⟩

/-- A call that creates a task leaves accounts that fit. -/
theorem CallAccounts.of_created {op : Operation} {slot : Slot} (h : Accounted procs)
    (hresult : (op.exec procs).1 = procs.nextPid)
    (hcreated : Created slot procs (op.exec procs).2) :
    Accounted (op.exec procs).2 ∧ CallAccounts op procs := by
  have haccounted := hcreated.accounted h
  have hnext := h.nextPos
  refine ⟨haccounted, haccounted.toAccounts, fun _ hrefused => ?_⟩
  omega

/-- A call that is refused leaves accounts that fit. -/
theorem CallAccounts.of_refused {op : Operation} (h : Accounted procs)
    (hrefused : op.exec procs = (-1, procs)) :
    Accounted (op.exec procs).2 ∧ CallAccounts op procs := by
  have hafter : (op.exec procs).2 = procs := by rw [hrefused]
  refine ⟨by rw [hafter]; exact h, by rw [hafter]; exact h.toAccounts, fun _ _ => ?_⟩
  rw [hafter]
  exact ⟨rfl, rfl⟩

/-- A call that meets its condition keeps the accounts. -/
theorem CallSound.accounts {op : Operation} (hsound : CallSound op procs) (h : Accounted procs) :
    Accounted (op.exec procs).2 ∧ CallAccounts op procs := by
  cases op with
  | create kernelPageDir entry name priority =>
    rcases procCreate_cases kernelPageDir entry name priority procs with hrefused | hcreated
    · exact CallAccounts.of_refused h hrefused
    · have ⟨slot, hresult, hadds⟩ := hcreated
      exact CallAccounts.of_created h hresult hadds.created
  | createUser userStack pageDir entry name =>
    rcases procCreateUser_cases userStack pageDir entry name procs with hrefused | hadds
    · exact CallAccounts.of_refused h hrefused.2
    · have ⟨slot, hslot, hfew, hcases⟩ := hadds
      have hroom : ¬(procs.numTasks ≥ maxTasks ∨ deadSlot procs = none) := by
        rw [hslot]
        simpa using hfew
      rcases hcases with ⟨hstack, _⟩ | ⟨_, hresult, hadds⟩
      · exact absurd hstack (hsound.resolve_left hroom)
      · exact CallAccounts.of_created h hresult hadds.created
  | exit code =>
    exact CallAccounts.of_accounted rfl ((procExit_ends code procs).ended.accounted h hsound)
  | kill pid =>
    refine CallAccounts.of_accounted rfl ?_
    by_cases hpid : 0 < pid
    · cases htarget : killTarget pid procs with
      | none =>
        show Accounted (procKill pid procs).2
        rw [procKill_none (.inr htarget)]
        exact h
      | some slot =>
        have ⟨_, hends, _⟩ := procKill_ends hpid htarget
        exact hends.ended.accounted h (hsound hpid slot htarget)
    · show Accounted (procKill pid procs).2
      rw [procKill_none (.inl (not_lt.mp hpid))]
      exact h
  | wait => exact CallAccounts.of_accounted rfl ((procWait_sameLive procs).accounted h)
  | reapZombies =>
    exact CallAccounts.of_accounted rfl ((procReapZombies_sameLive procs).accounted h)
  | schedule regs =>
    exact CallAccounts.of_accounted rfl ((schedule_keeps regs procs).sameLive.accounted h)

/-- A call that does not meet its condition breaks the accounts. -/
theorem CallAccounts.sound {op : Operation} (hcall : CallAccounts op procs)
    (h : Accounts procs) : CallSound op procs := by
  cases op with
  | createUser userStack pageDir entry name =>
    rcases procCreateUser_cases userStack pageDir entry name procs with hrefused | hadds
    · exact .inl hrefused.1
    · have ⟨slot, hslot, _, hcases⟩ := hadds
      rcases hcases with ⟨_, hresult, hadds⟩ | ⟨hstack, _⟩
      · -- the slot was dead before the call and is ready after it
        have htasks := (hcall.refused rfl hresult).1
        have hsame : (procCreateUser userStack pageDir entry name procs).2.phase slot =
            procs.phase slot := congrArg (fun tasks => (tasks slot).state.phase) htasks
        rw [hadds.phase, deadSlot_phase hslot] at hsame
        exact absurd hsame Phase.noConfusion
      · exact .inr hstack
  | exit code =>
    by_contra hdead
    exact (procExit_ends code procs).ended.not_accounts h (by simpa [CallSound] using hdead)
      hcall.after
  | kill pid =>
    intro hpid slot htarget
    by_contra hdead
    have ⟨_, hends, _⟩ := procKill_ends hpid htarget
    exact hends.ended.not_accounts h (by simpa using hdead) hcall.after
  | create | wait | reapZombies | schedule => trivial

/-- Over a sequence of calls from accounts that fit, all calls leave accounts that fit exactly
when all meet their condition. -/
theorem Accounted.everyCall_iff {ops : List Operation} (h : Accounted procs) :
    EveryCall Operation.after CallAccounts ops procs ↔
      EveryCall Operation.after CallSound ops procs := by
  induction ops generalizing procs with
  | nil => exact Iff.rfl
  | cons op ops ih =>
    constructor
    · intro hcalls
      have hsound := hcalls.1.sound h.toAccounts
      have haccounts := hsound.accounts h
      exact ⟨hsound, (ih haccounts.1).mp hcalls.2⟩
    · intro hcalls
      have haccounts := hcalls.1.accounts h
      exact ⟨haccounts.2, (ih haccounts.1).mpr hcalls.2⟩

/-- From proc_init on, the counter and the pids fit the live tasks in every state and no
refused creation changes the table, exactly when every user task gets its page, every exit is by
a live task and no kill hits a task that has ended. -/
theorem calls_account_iff (boot : Processes) (hboot : boot.nextPid = 1) (ops : List Operation) :
    (Accounts (procInit boot) ∧ EveryCall Operation.after CallAccounts ops (procInit boot)) ↔
      EveryCall Operation.after CallSound ops (procInit boot) := by
  have hinit : Accounted (procInit boot) := procInit_accounted (by rw [hboot]; decide)
  rw [and_iff_right hinit.toAccounts]
  exact hinit.everyCall_iff

end CallSequences

/-- Without a page for its stack proc_create_user returns -1 and leaves a task that nothing
counts; a second kill of a task takes the counter below the live tasks; so does an exit of the
boot code, which has no task. -/
theorem calls_miscount :
    ¬EveryCall Operation.after CallAccounts [.createUser 0 0 0x400000 taskName]
      (procInit zeroProcesses) ∧
    ¬EveryCall Operation.after CallAccounts [.create 0x1000 0x11000 taskName 1,
      .create 0x1000 0x12000 taskName 1, .kill 2, .kill 2] (procInit zeroProcesses) ∧
    ¬EveryCall Operation.after CallAccounts [.exit 0] (procInit zeroProcesses) := by
  refine ⟨fun hcalls => ?_, fun hcalls => ?_, fun hcalls => ?_⟩
  · have hcount := hcalls.1.after.count
    exact absurd hcount (by decide +kernel)
  · have hcount := hcalls.2.2.2.1.after.count
    exact absurd hcount (by decide +kernel)
  · have hcount := hcalls.1.after.count
    exact absurd hcount (by decide +kernel)

/-- The criterion for two tasks of which one is killed and reaped. -/
theorem calls_account_iff_reaped :
    (Accounts (procInit zeroProcesses) ∧ EveryCall Operation.after CallAccounts
      [.create 0x1000 0x11000 taskName 1, .create 0x1000 0x12000 taskName 1, .kill 2, .wait,
        .reapZombies] (procInit zeroProcesses)) ↔
      EveryCall Operation.after CallSound [.create 0x1000 0x11000 taskName 1,
        .create 0x1000 0x12000 taskName 1, .kill 2, .wait, .reapZombies]
        (procInit zeroProcesses) :=
  calls_account_iff zeroProcesses rfl _

end HexaOS.Process
