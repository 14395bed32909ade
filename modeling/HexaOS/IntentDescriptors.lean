import HexaOS.IntentHandles
import HexaOS.KernelVfs
import HexaOS.StepRuns

/-!
# Opening and closing descriptors

SYS_OPEN gives a handle of the intent table, and SYS_CLOSE closes a descriptor of vfs.c. The
numbers of the two tables overlap, so that SYS_CLOSE releases no intent and may hit another
descriptor. SYS_WRITE to the address of a name takes an entry of the intent table as well.
-/

namespace HexaOS.Kernel

open DevicePrograms PackedBytes Hexafs StepRuns

/-- sys_close -/
def sysClose (fd : Int32) : KernelM Int32 := vfsClose fd

/-- The system calls on descriptors. -/
inductive DescriptorCall where
  /-- SYS_OPEN -/
  | open (path : Option CString) (flags : UInt32)
  /-- SYS_WRITE -/
  | write (fd : UInt32) (nameAt : CString) (buffer : Buffer) (len : Int32)
  /-- SYS_FULFILL -/
  | fulfill (handle : UInt32) (buffer : Buffer) (len : Int32)
  /-- SYS_CLOSE -/
  | close (fd : Int32)

/-- The code of a call and what it returns, for the task with this pid. -/
def DescriptorCall.code (pid : UInt32) : DescriptorCall → KernelM Int32
  | .open path flags => do
    let done ← sysOpen pid path flags
    pure done.ret
  | .write fd nameAt buffer len => do
    let done ← sysWrite pid fd nameAt buffer len
    pure done.ret
  | .fulfill handle buffer len => do
    let done ← sysFulfill handle buffer len
    pure done.ret
  | .close fd => sysClose fd

/-- A system call that returned. -/
structure DescriptorStep where
  /-- The pid of the calling task. -/
  pid : UInt32
  /-- The call. -/
  call : DescriptorCall
  /-- The system before it. -/
  before : System
  /-- What it returns. -/
  result : Int32
  /-- The system behind it. -/
  after : System

/-- The descriptors that SYS_OPEN returned, with those that were closed since. -/
structure Ledger where
  /-- The handles that were opened. -/
  opened : List Int32
  /-- Those that were closed. -/
  closed : List Int32

/-- No call was made yet. -/
def Ledger.empty : Ledger := ⟨[], []⟩

/-- The ledger after a call. -/
def Ledger.after (step : DescriptorStep) (ledger : Ledger) : Ledger :=
  match step.call with
  | .open .. =>
    if step.result < 0 then ledger
    else ⟨step.result :: ledger.opened, ledger.closed.filter (· ≠ step.result)⟩
  | .close fd =>
    if fd ∈ ledger.opened then ⟨ledger.opened.filter (· ≠ fd), fd :: ledger.closed⟩ else ledger
  | .write .. | .fulfill .. => ledger

/-- The entry with a handle became inactive, and nothing else changed. -/
def Releases (handle : UInt32) (kernel kernel' : KernelMemory) : Prop :=
  ∃ i, findIntent kernel.intentTable handle = some i ∧
    kernel' = { kernel with
      intentTable := Function.update kernel.intentTable i
        { kernel.intentTable i with active := false } }

namespace DescriptorStep

/-- The step is a run of its call. -/
def Runs (env : Environment) (step : DescriptorStep) : Prop :=
  step.before.run env (step.call.code step.pid) = .ok (step.result, step.after)

/-- What a call owes to the descriptors that are open and to those that were closed. -/
structure Honors (step : DescriptorStep) (ledger : Ledger) : Prop where
  /-- SYS_CLOSE of an open descriptor returns 0, releases its entry and nothing else. -/
  closes : ∀ fd, step.call = .close fd → fd ∈ ledger.opened →
    step.result = 0 ∧ Releases fd.toUInt32 step.before.kernel step.after.kernel
  /-- SYS_WRITE and SYS_FULFILL fail on a closed one. -/
  stale : ∀ handle : UInt32, handle.toInt32 ∈ ledger.closed →
    ((∃ nameAt buffer len, step.call = .write handle nameAt buffer len) ∨
      ∃ buffer len, step.call = .fulfill handle buffer len) → step.result < 0
  /-- SYS_OPEN of an existing form fails only when 64 descriptors are open. -/
  opens : ∀ path flags idx, step.call = .open (some path) flags →
    findForm step.before.kernel path = some idx → step.result < 0 →
      ledger.opened.length = maxIntents

/-- SYS_CLOSE names no descriptor that is open, and SYS_OPEN of an existing form, whose name is
shorter than 256 characters, finds an inactive entry, unless 64 descriptors are open. -/
def Avoids (step : DescriptorStep) (ledger : Ledger) : Prop :=
  (∀ fd, step.call = .close fd → fd ∉ ledger.opened) ∧
    ∀ path flags idx, step.call = .open (some path) flags →
      findForm step.before.kernel path = some idx →
        path.chars.length < 256 ∧ (freeIntent step.before.kernel.intentTable).isSome ∨
          ledger.opened.length = maxIntents

end DescriptorStep

/-- Calls that follow each other. Between two calls anything may happen that leaves the intents
alone. -/
inductive DescriptorRun (env : Environment) (first : System) :
    List DescriptorStep → System → Prop where
  | start : DescriptorRun env first [] first
  | other {steps : List DescriptorStep} {last other : System}
      (run : DescriptorRun env first steps last) (same : SameIntents last.kernel other.kernel) :
      DescriptorRun env first steps other
  | call {steps : List DescriptorStep} {step : DescriptorStep}
      (run : DescriptorRun env first steps step.before) (runs : step.Runs env) :
      DescriptorRun env first (steps ++ [step]) step.after

section Steps

variable {env : Environment} {step : DescriptorStep} {ledger : Ledger} {count : ℕ}

/-- SYS_CLOSE leaves the intents. -/
theorem vfsClose_sameIntents (kernel : KernelMemory) (fd : Int32) :
    (vfsClose fd).Ensures kernel fun _ kernel' => SameIntents kernel kernel' := by
  rw [vfsClose, Code.ensures_bind, Code.ensures_memory]
  cases usedFd kernel fd with
  | none => exact ⟨rfl, rfl⟩
  | some i => exact ⟨rfl, rfl⟩

/-- Every call registers at most one intent. -/
theorem DescriptorStep.Runs.table (h : step.Runs env) :
    SameTable step.before.kernel step.after.kernel ∨
      Registers step.pid step.before.kernel step.after.kernel := by
  obtain ⟨pid, call, before, result, after⟩ := step
  have hrun : before.run env (call.code pid) = .ok (result, after) := h
  have hcall : ∀ intentCall : IntentCall, call.code pid = (do
      let done ← intentCall.code pid
      pure done.ret) →
      SameTable before.kernel after.kernel ∨ Registers pid before.kernel after.kernel := by
    intro intentCall hcode
    rw [hcode] at hrun
    obtain ⟨done, middle, hdone, hend⟩ := System.run_bind_elim hrun
    obtain rfl : middle = after := congrArg Prod.snd (Except.ok.inj hend)
    exact System.run_ensures (IntentCall.code_table before.kernel pid intentCall) hdone
  cases call with
  | «open» path flags => exact hcall (.open path flags) rfl
  | write fd nameAt buffer len => exact hcall (.write fd nameAt buffer len) rfl
  | fulfill handle buffer len => exact hcall (.fulfill handle buffer len) rfl
  | close fd =>
    exact .inl (System.run_ensures (vfsClose_sameIntents before.kernel fd) hrun).sameTable

/-- The handles over one step. -/
theorem DescriptorStep.Runs.handles (h : step.Runs env)
    (hhandles : Handles step.before.kernel count) : ∃ count', Handles step.after.kernel count' := by
  rcases h.table with hsame | ⟨i, intent, hfree, hsame⟩
  · exact ⟨count, hhandles.sameTable hsame⟩
  · exact ⟨count + 1, (hhandles.registered hfree).sameTable hsame⟩

/-- SYS_OPEN of an existing form by a task that holds the capability fails exactly if the name is
too long or the table is full. -/
theorem sysOpen_fails_iff {system after : System} {pid : UInt32} {path : CString}
    {flags : UInt32} {idx : ℕ} {done : SysResult} (hhandles : Handles system.kernel count)
    (hholds : CapHolds env system pid) (hform : findForm system.kernel path = some idx)
    (hrun : system.run env (sysOpen pid (some path) flags) = .ok (done, after)) :
    done.ret < 0 ↔
      ¬(path.chars.length < 256 ∧ (freeIntent system.kernel.intentTable).isSome) := by
  rw [sysOpen, validPath] at hrun
  by_cases hshort : path.chars.length < 256
  · rw [if_pos hshort] at hrun
    dsimp only at hrun
    obtain ⟨created, opened, hopen, hend⟩ := System.run_bind_elim hrun
    rw [intentCompatOpen, System.run_memory, hform] at hopen
    rcases intentCreate_cases hopen with ⟨rfl, _, hfails⟩ | ⟨i, hfree, _, rfl, _⟩
    · obtain ⟨rfl, rfl⟩ := Prod.mk.inj (Except.ok.inj hend)
      refine iff_of_true (by decide) fun hboth => hfails ⟨fun _ => .inr hholds, hboth.2⟩
    · obtain ⟨rfl, rfl⟩ := Prod.mk.inj (Except.ok.inj hend)
      have hcount := (hhandles.freeIntent_eq hfree).2
      have hsmall : system.kernel.nextHandle < 0x80000000 := by
        rw [maxIntents] at hcount
        rw [hhandles.next, UInt32.lt_iff_toNat_lt, UInt32.toNat_ofNat']
        show (count + 1) % 2 ^ 32 < 2147483648
        omega
      rw [hfree]
      exact iff_of_false (mt (toInt32_lt_zero_iff _).mp (not_not_intro hsmall))
        (not_not_intro ⟨hshort, rfl⟩)
  · rw [if_neg hshort] at hrun
    obtain ⟨rfl, rfl⟩ := Prod.mk.inj (Except.ok.inj hrun)
    exact iff_of_true (by decide) fun hboth => hshort hboth.1

/-- SYS_CLOSE releases no intent. -/
theorem DescriptorStep.Runs.not_releases (h : step.Runs env) {fd : Int32}
    (hcall : step.call = .close fd) (handle : UInt32) :
    ¬Releases handle step.before.kernel step.after.kernel := by
  obtain ⟨pid, call, before, result, after⟩ := step
  obtain rfl : call = .close fd := hcall
  have hrun : before.run env (vfsClose fd) = .ok (result, after) := h
  have hsame := System.run_ensures (vfsClose_sameIntents before.kernel fd) hrun
  rintro ⟨i, hfound, hreleased⟩
  have hactive := List.find?_some hfound
  simp only [Bool.and_eq_true, beq_iff_eq] at hactive
  have htable : after.kernel.intentTable i = before.kernel.intentTable i := congrFun hsame.1 i
  rw [hreleased] at htable
  dsimp only at htable
  rw [Function.update_self] at htable
  rw [← htable] at hactive
  exact Bool.false_ne_true hactive.1

/-- While no descriptor counts as closed, a call honors the descriptors exactly if it avoids to
close one and to open without room. -/
theorem DescriptorStep.Runs.honors_iff (h : step.Runs env)
    (hhandles : Handles step.before.kernel count) (hholds : CapHolds env step.before step.pid)
    (hclosed : ledger.closed = []) : step.Honors ledger ↔ step.Avoids ledger := by
  have hfails : ∀ path flags idx, step.call = .open (some path) flags →
      findForm step.before.kernel path = some idx → (step.result < 0 ↔
        ¬(path.chars.length < 256 ∧ (freeIntent step.before.kernel.intentTable).isSome)) := by
    intro path flags idx hcall hform
    have hrun : step.before.run env (step.call.code step.pid) = .ok (step.result, step.after) := h
    rw [hcall] at hrun
    obtain ⟨done, middle, hdone, hend⟩ := System.run_bind_elim hrun
    obtain ⟨hret, _⟩ := Prod.mk.inj (Except.ok.inj hend)
    rw [← hret]
    exact sysOpen_fails_iff hhandles hholds hform hdone
  constructor
  · intro hhonors
    refine ⟨fun fd hcall hopen => ?_, fun path flags idx hcall hform => ?_⟩
    · exact h.not_releases hcall _ (hhonors.closes fd hcall hopen).2
    · have hopens := hhonors.opens path flags idx hcall hform
      rw [hfails path flags idx hcall hform] at hopens
      exact or_iff_not_imp_left.mpr hopens
  · intro havoids
    refine ⟨fun fd hcall hopen => absurd hopen (havoids.1 fd hcall), fun handle hin => ?_,
      fun path flags idx hcall hform hneg => ?_⟩
    · rw [hclosed] at hin
      exact absurd hin List.not_mem_nil
    · rw [hfails path flags idx hcall hform] at hneg
      exact (havoids.2 path flags idx hcall hform).resolve_left hneg

/-- A call that closes no open descriptor keeps the ledger without closed ones. -/
theorem DescriptorStep.Avoids.closed (h : step.Avoids ledger) (hclosed : ledger.closed = []) :
    (Ledger.after step ledger).closed = [] := by
  rw [Ledger.after]
  cases hcall : step.call with
  | «open» path flags =>
    dsimp only
    split
    · exact hclosed
    · dsimp only
      rw [hclosed, List.filter_nil]
  | write fd nameAt buffer len => exact hclosed
  | fulfill handle buffer len => exact hclosed
  | close fd =>
    dsimp only
    rw [if_neg (h.1 fd hcall)]
    exact hclosed

end Steps

section Runs

variable {env : Environment} {first last : System} {steps : List DescriptorStep}

/-- The handles along a run. -/
theorem DescriptorRun.handles (h : DescriptorRun env first steps last)
    (hinit : first.kernel.IntentInit) : ∃ count, Handles last.kernel count := by
  induction h with
  | start => exact ⟨0, Nat.zero_le _, fun i hi => by omega, fun i _ hi => hinit.intentTable i hi,
      hinit.nextHandle⟩
  | other run same ih =>
    have ⟨count, hhandles⟩ := ih
    exact ⟨count, hhandles.sameTable same.sameTable⟩
  | call run runs ih =>
    have ⟨count, hhandles⟩ := ih
    exact runs.handles hhandles

/-- In every run of SYS_OPEN, SYS_WRITE, SYS_FULFILL and SYS_CLOSE from an empty intent table, by
tasks that hold the capability: the calls honor the descriptors that are open and closed exactly
if no SYS_CLOSE names an open one and every SYS_OPEN of an existing form finds an inactive entry,
unless 64 are open. -/
theorem descriptorRun_honors_iff (h : DescriptorRun env first steps last)
    (hinit : first.kernel.IntentInit)
    (hholds : ∀ step ∈ steps, CapHolds env step.before step.pid) :
    EveryStep Ledger.after DescriptorStep.Honors steps .empty ↔
      EveryStep Ledger.after DescriptorStep.Avoids steps .empty := by
  induction h with
  | start => exact Iff.rfl
  | other run same ih => exact ih hholds
  | @call steps step run runs ih =>
    have ⟨count, hhandles⟩ := run.handles hinit
    rw [everyStep_append, everyStep_append, everyStep_singleton, everyStep_singleton,
      ih fun other hother => hholds other (List.mem_append_left _ hother)]
    refine and_congr_right fun havoids => ?_
    have hclosed : (runSteps Ledger.after steps .empty).closed = [] :=
      (havoids.everyState (fun step ledger hclosed havoid => havoid.closed hclosed) rfl).runSteps
    exact runs.honors_iff hhandles (hholds step (by simp)) hclosed

/-- The capability depends on the store, the grants and the ticks only. -/
theorem CapHolds.congr {system system' : System} {pid : UInt32} (h : CapHolds env system pid)
    (hstore : system'.kernel.store = system.kernel.store)
    (hgrants : system'.kernel.capGrants = system.kernel.capGrants)
    (hticks : system'.kernel.systemTicks = system.kernel.systemTicks)
    (hdev : system'.dev = system.dev) : CapHolds env system' pid := by
  obtain ⟨after, hrun⟩ := h
  rw [capCheck, System.run_memory, System.run_onStore] at hrun
  cases hmachine : Machine.run env (hexafsCapCheck system.kernel.capGrants
      system.kernel.systemTicks pid capTypeIntent) ⟨system.kernel.store, system.dev⟩ with
  | error stop =>
    rw [hmachine] at hrun
    cases hrun
  | ok result =>
    rw [hmachine] at hrun
    have hresult := (Prod.mk.inj (Except.ok.inj hrun)).1
    refine ⟨⟨{ system'.kernel with store := result.2.mem }, result.2.dev⟩, ?_⟩
    rw [capCheck, System.run_memory, System.run_onStore, hgrants, hticks, hstore, hdev, hmachine,
      ← hresult]
    rfl

/-- A task that holds the capability opens the form "a" and closes its descriptor again. -/
theorem exists_closedDescriptor : ∃ first last : System, ∃ opened closed : DescriptorStep,
    DescriptorRun .faultless first [opened, closed] last ∧ first.kernel.IntentInit ∧
      (∀ step ∈ [opened, closed], CapHolds .faultless step.before step.pid) ∧
      opened.call = .open (some (CString.ofBytes [97])) 0 ∧ opened.result = 1 ∧
      closed.call = .close 1 ∧ closed.result = -1 := by
  obtain ⟨first, store, grants, hkernel, hholds⟩ := exists_capHolds
  obtain ⟨kernel, dev⟩ := first
  dsimp only at hkernel
  subst hkernel
  have hopen : System.run .faultless (DescriptorCall.open (some (CString.ofBytes [97])) 0 |>.code 5)
      ⟨oneFormKernel store grants, dev⟩ =
        .ok (1, ⟨(oneFormKernel store grants).registered 0 5 (openedIntent 0 0), dev⟩) := by
    have hfind : findForm (oneFormKernel store grants) (CString.ofBytes [97]) = some 0 := rfl
    have hvalid : validPath (some (CString.ofBytes [97])) = some (CString.ofBytes [97]) := rfl
    have hcompat : System.run .faultless (intentCompatOpen 5 (CString.ofBytes [97]) 0)
        ⟨oneFormKernel store grants, dev⟩ =
          .ok (some 1, ⟨(oneFormKernel store grants).registered 0 5 (openedIntent 0 0), dev⟩) := by
      rw [intentCompatOpen, System.run_memory]
      dsimp only
      rw [hfind]
      rfl
    rw [DescriptorCall.code, System.run_bind, sysOpen, hvalid]
    dsimp only
    rw [System.run_bind, hcompat]
    rfl
  let opened : DescriptorStep := ⟨5, .open (some (CString.ofBytes [97])) 0,
    ⟨oneFormKernel store grants, dev⟩, 1,
    ⟨(oneFormKernel store grants).registered 0 5 (openedIntent 0 0), dev⟩⟩
  let closed : DescriptorStep := ⟨5, .close 1, opened.after, -1, opened.after⟩
  have hopened : opened.Runs .faultless := hopen
  have hclosed : closed.Runs .faultless := rfl
  refine ⟨_, _, opened, closed, .call (.call .start hopened) hclosed, ⟨fun _ _ => rfl, rfl⟩,
    fun step hstep => ?_, rfl, rfl, rfl, rfl⟩
  rcases List.mem_cons.mp hstep with rfl | hstep
  · exact hholds
  · rw [List.mem_singleton.mp hstep]
    exact hholds.congr rfl rfl rfl rfl

/-- The equivalence on a run that opens a descriptor and closes it. -/
theorem descriptorRun_honors_iff_closed : ∃ first last : System,
    ∃ opened closed : DescriptorStep,
      DescriptorRun .faultless first [opened, closed] last ∧ opened.result = 1 ∧
      closed.call = .close 1 ∧
      (EveryStep Ledger.after DescriptorStep.Honors [opened, closed] .empty ↔
        EveryStep Ledger.after DescriptorStep.Avoids [opened, closed] .empty) := by
  obtain ⟨first, last, opened, closed, hrun, hinit, hholds, _, hone, hcall, _⟩ :=
    exists_closedDescriptor
  exact ⟨first, last, opened, closed, hrun, hone, hcall,
    descriptorRun_honors_iff hrun hinit hholds⟩

/-- SYS_CLOSE of a descriptor that SYS_OPEN returned fails. -/
theorem sysClose_keepsIntent : ∃ first last : System, ∃ opened closed : DescriptorStep,
    DescriptorRun .faultless first [opened, closed] last ∧ first.kernel.IntentInit ∧
      (∀ step ∈ [opened, closed], CapHolds .faultless step.before step.pid) ∧
      ¬EveryStep Ledger.after DescriptorStep.Honors [opened, closed] .empty := by
  obtain ⟨first, last, opened, closed, hrun, hinit, hholds, hopen, hone, hcall, hfails⟩ :=
    exists_closedDescriptor
  refine ⟨first, last, opened, closed, hrun, hinit, hholds, fun hhonors => ?_⟩
  have hledger : (Ledger.after opened .empty).opened = [1] := by
    rw [Ledger.after, hopen, hone]
    rfl
  have hzero := (hhonors.2.1.closes 1 hcall (by rw [hledger]; exact List.mem_singleton_self 1)).1
  rw [hfails] at hzero
  exact absurd hzero (by decide)

end Runs

end HexaOS.Kernel
