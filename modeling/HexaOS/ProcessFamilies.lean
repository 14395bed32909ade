import HexaOS.ProcessCalls

/-!
# Parents and children

What proc_exit, proc_kill and proc_wait owe the parents of tasks that end: a report with the
pid and the exit code of each child, once, and no task whose parent has exited. The reports
that are owed and the pids that have exited are kept beside the task table.
-/

namespace HexaOS.Process

open Hexafs (CString)

/-- The report of a child that has ended. -/
structure Report where
  /-- The pid of the child. -/
  child : ℤ
  /-- The pid of the parent. -/
  parent : ℤ
  /-- The exit code. -/
  code : ℤ
  deriving DecidableEq

/-- The task table with what is owed to parents. -/
structure Family where
  /-- The table of tasks. -/
  procs : Processes
  /-- The report owed for the ended task of a slot. -/
  owed : Slot → Option Report
  /-- The pids of the tasks that have called proc_exit. -/
  exited : List ℤ

/-- The task of a slot ends with an exit code, unless it has ended before. -/
def Family.owe (family : Family) (slot : Slot) (code : ℤ) : Slot → Option Report :=
  if family.procs.phase slot = .live then
    Function.update family.owed slot (some {
      child := (family.procs.tasks slot).pid
      parent := (family.procs.tasks slot).parentPid
      code := code })
  else family.owed

/-- The slot whose task a call ends, and the code. -/
def Operation.ends (op : Operation) (procs : Processes) : Option (Slot × ℤ) :=
  match op with
  | exit code => some (procs.currentTask, code)
  | kill pid => if 0 < pid then (killTarget pid procs).map fun slot => (slot, -1) else none
  | create .. | createUser .. | wait | reapZombies | schedule _ => none

/-- The pid of a live task that exits in a call. -/
def Operation.exits (op : Operation) (procs : Processes) : Option ℤ :=
  match op.ends procs with
  | some (slot, _) =>
    if slot = procs.currentTask ∧ procs.phase slot = .live then some procs.current.pid else none
  | none => none

/-- What is owed after proc_wait has returned a pid to the current task. -/
def Family.settle (family : Family) (child : ℤ) (slot : Slot) : Option Report :=
  (family.owed slot).filter fun report =>
    !(report.child == child && report.parent == family.procs.current.pid)

/-- What is owed after a call. -/
def Family.owedAfter (op : Operation) (family : Family) : Slot → Option Report :=
  match op, op.ends family.procs with
  | _, some (slot, code) => family.owe slot code
  | .wait, none => family.settle (procWait family.procs).1
  | _, none => family.owed

/-- The task table and what is owed after a call. -/
def Family.after (op : Operation) (family : Family) : Family where
  procs := op.after family.procs
  owed := family.owedAfter op
  exited := (op.exits family.procs).toList ++ family.exited

/-- proc_wait returns the pid and stores the exit code of a child for which the current task
has no report yet, or -1 when there is none. -/
def ReportsChild (family : Family) : Prop :=
  (∃ slot report, family.owed slot = some report ∧ report.parent = family.procs.current.pid ∧
    (procWait family.procs).1 = report.child ∧
    (procWait family.procs).2.1 = some report.code) ∨
  (∀ slot report, family.owed slot = some report →
    report.parent ≠ family.procs.current.pid) ∧
    (procWait family.procs).1 = -1 ∧ (procWait family.procs).2.1 = none

/-- No remaining task has an exited task as its parent. -/
def Detached (family : Family) : Prop :=
  ∀ pid ∈ family.exited, ∀ slot, family.procs.phase slot ≠ .free →
    (family.procs.tasks slot).parentPid ≠ pid

/-- What a call owes the families. -/
structure FamilyCall (op : Operation) (family : Family) : Prop where
  /-- A wait reports the child as it should. -/
  reports : op = .wait → ReportsChild family
  /-- No live task has a parent that has exited. -/
  detached : Detached (family.after op)

/-- The condition under which a call does what it owes: a task that exits is not the parent of
a task in the table, and the ended child that proc_wait finds first was killed, so that its pid is
still in its slot. -/
structure FamilySound (op : Operation) (family : Family) : Prop where
  /-- Who exits has no child in the table. -/
  exits : ∀ pid, op.exits family.procs = some pid → ∀ slot, family.procs.phase slot ≠ .free →
    (family.procs.tasks slot).parentPid ≠ pid
  /-- Who is waited for still has a pid. -/
  waits : op = .wait → ∀ slot, waitTarget family.procs = some slot →
    (family.procs.tasks slot).pid ≠ -1

/-- The pid that the task of a slot has or had. -/
def Family.identity (family : Family) (slot : Slot) : ℤ :=
  match family.owed slot with
  | some report => report.child
  | none => (family.procs.tasks slot).pid

/-- A family as the calls leave it while they meet their condition. -/
structure FamilyInv (family : Family) : Prop where
  /-- A report is owed for each task that has ended. -/
  ended : ∀ slot, (family.owed slot).isSome ↔ family.procs.phase slot = .ended
  /-- It is that of the task. -/
  report : ∀ slot report, family.owed slot = some report →
    report.parent = (family.procs.tasks slot).parentPid ∧
    report.code = (family.procs.tasks slot).exitCode ∧
    ((family.procs.tasks slot).pid = -1 ∨
      ((family.procs.tasks slot).pid = report.child ∧ report.code = -1))
  /-- The next pid is positive. -/
  nextPos : 0 < family.procs.nextPid
  /-- Pids were given out. -/
  identity : ∀ slot, family.procs.phase slot ≠ .free →
    0 < family.identity slot ∧ family.identity slot < family.procs.nextPid
  /-- No two tasks share one. -/
  distinct : ∀ a b, family.procs.phase a ≠ .free → family.procs.phase b ≠ .free →
    family.identity a = family.identity b → a = b
  /-- Who has exited is not live. -/
  exited : ∀ pid ∈ family.exited, pid < family.procs.nextPid ∧
    ∀ slot, family.procs.phase slot = .live → (family.procs.tasks slot).pid ≠ pid
  /-- No live task has a parent that has exited. -/
  detached : Detached family
  /-- The current task is live, or there is none. -/
  current : family.procs.phase family.procs.currentTask = .live ∨
    (family.procs.currentTask = 0 ∧ family.exited = [] ∧
      ∀ slot, family.procs.phase slot = .free)

section Families

variable {family : Family} {op : Operation} {slot : Slot}

/-- A live task is owed no report. -/
theorem FamilyInv.owed_live (h : FamilyInv family) (hlive : family.procs.phase slot ≠ .ended) :
    family.owed slot = none := by
  have hended := h.ended slot
  cases howed : family.owed slot with
  | none => rfl
  | some report =>
    rw [howed] at hended
    exact absurd (hended.mp rfl) hlive

/-- The identity of a live task is its pid. -/
theorem FamilyInv.identity_live (h : FamilyInv family)
    (hlive : family.procs.phase slot ≠ .ended) :
    family.identity slot = (family.procs.tasks slot).pid := by
  rw [Family.identity, h.owed_live hlive]

/-- The report of an ended task. -/
theorem FamilyInv.owed_ended (h : FamilyInv family) (hended : family.procs.phase slot = .ended) :
    ∃ report, family.owed slot = some report ∧ 0 < report.child := by
  have hsome := (h.ended slot).mpr hended
  have ⟨report, howed⟩ := Option.isSome_iff_exists.mp hsome
  have hpos := (h.identity slot (by rw [hended]; decide)).1
  rw [Family.identity, howed] at hpos
  exact ⟨report, howed, hpos⟩

/-- proc_wait reports a child as it owes exactly when the child that it finds was killed. -/
theorem FamilyInv.reportsChild_iff (h : FamilyInv family) :
    ReportsChild family ↔
      ∀ slot, waitTarget family.procs = some slot → (family.procs.tasks slot).pid ≠ -1 := by
  cases hfound : waitTarget family.procs with
  | none =>
    have hnone := firstSlot_eq_none.mp hfound
    have howes : ∀ slot report, family.owed slot = some report →
        report.parent ≠ family.procs.current.pid := by
      intro slot report howed hparent
      have hended := (h.ended slot).mp (by rw [howed]; rfl)
      have hslot := hnone slot
      have hzombie : (family.procs.tasks slot).state = .zombie := by
        rw [Processes.phase] at hended
        cases hstate : (family.procs.tasks slot).state with
        | zombie => rfl
        | ready | running | blocked | dead =>
          rw [hstate] at hended
          exact absurd hended Phase.noConfusion
      rw [← (h.report slot report howed).1, hparent, hzombie] at hslot
      exact absurd hslot (by simp)
    have hreports : ReportsChild family := by
      refine .inr ⟨howes, ?_, ?_⟩
      · rw [procWait_none hfound]
      · rw [procWait_none hfound]
    exact iff_of_true hreports (fun slot hslot => by cases hslot)
  | some slot =>
    have htest := firstSlot_test hfound
    simp only [Bool.and_eq_true, beq_iff_eq] at htest
    have hended := (procWait_frees hfound).ended
    obtain ⟨report, howed, hpos⟩ := h.owed_ended hended
    obtain ⟨hparent, hcode, hpid⟩ := h.report slot report howed
    have hresult : (procWait family.procs).1 = (family.procs.tasks slot).pid := by
      rw [procWait, hfound]
    have hstatus : (procWait family.procs).2.1 = some (family.procs.tasks slot).exitCode := by
      rw [procWait, hfound]
    constructor
    · intro hreports other hother hgone
      have hsame : slot = other := Option.some.inj hother
      rw [← hsame] at hgone
      rcases hreports with ⟨which, right, howed', hparent', hchild, _⟩ | ⟨hnone, _⟩
      · have hended' := (h.ended which).mp (by rw [howed']; rfl)
        have hpos' := (h.identity which (by rw [hended']; decide)).1
        rw [Family.identity, howed'] at hpos'
        dsimp only at hpos'
        rw [hresult, hgone] at hchild
        omega
      · exact hnone slot report howed (hparent.trans htest.1)
    · intro hkilled
      have hchild := (hpid.resolve_left (hkilled slot rfl)).1
      refine .inl ⟨slot, report, howed, hparent.trans htest.1, ?_, ?_⟩
      · rw [hresult, hchild]
      · rw [hstatus, hcode]

/-- A table in which all tasks are kept. -/
theorem FamilyInv.keeps {after : Family} (h : FamilyInv family)
    (hkeeps : Keeps family.procs after.procs) (howed : after.owed = family.owed)
    (hexited : after.exited = family.exited) : FamilyInv after := by
  have hphase : ∀ slot, after.procs.phase slot = family.procs.phase slot :=
    fun slot => (hkeeps.kept slot).phase
  have hidentity : ∀ slot, after.identity slot = family.identity slot := by
    intro slot
    rw [Family.identity, Family.identity, howed, (hkeeps.kept slot).pid]
  refine { ended := ?_, report := ?_, nextPos := ?_, identity := ?_, distinct := ?_, exited := ?_,
           detached := ?_, current := ?_ }
  · intro slot
    rw [howed, hphase]
    exact h.ended slot
  · intro slot report hreport
    rw [howed] at hreport
    rw [(hkeeps.kept slot).pid, (hkeeps.kept slot).parentPid, (hkeeps.kept slot).exitCode]
    exact h.report slot report hreport
  · rw [hkeeps.nextPid]
    exact h.nextPos
  · intro slot hslot
    rw [hphase] at hslot
    rw [hidentity, hkeeps.nextPid]
    exact h.identity slot hslot
  · intro a b ha hb hsame
    rw [hphase] at ha hb
    rw [hidentity, hidentity] at hsame
    exact h.distinct a b ha hb hsame
  · intro pid hpid
    rw [hexited] at hpid
    have ⟨hlt, hlive⟩ := h.exited pid hpid
    refine ⟨by rw [hkeeps.nextPid]; exact hlt, fun slot hslot => ?_⟩
    rw [hphase] at hslot
    rw [(hkeeps.kept slot).pid]
    exact hlive slot hslot
  · intro pid hpid slot hslot
    rw [hexited] at hpid
    rw [hphase] at hslot
    rw [(hkeeps.kept slot).parentPid]
    exact h.detached pid hpid slot hslot
  · rcases hkeeps.current with hsame | hlive
    · rcases h.current with hlive | ⟨hzero, hnone, hfree⟩
      · exact .inl (by rw [hsame, hphase]; exact hlive)
      · exact .inr ⟨by rw [hsame]; exact hzero, by rw [hexited]; exact hnone,
          fun slot => by rw [hphase]; exact hfree slot⟩
    · exact .inl hlive

/-- A table to which a task is added. -/
theorem FamilyInv.adds {after : Family} {count : ℤ} (h : FamilyInv family)
    (hadds : Adds slot count family.procs after.procs) (howed : after.owed = family.owed)
    (hexited : after.exited = family.exited) : FamilyInv after := by
  have hfree := deadSlot_phase hadds.first
  have hphase : ∀ other, other ≠ slot → after.procs.phase other = family.procs.phase other :=
    fun other hne => (hadds.kept other hne).phase
  have hnone : family.owed slot = none := h.owed_live (by rw [hfree]; decide)
  have hself : after.identity slot = family.procs.nextPid := by
    rw [Family.identity, howed, hnone]
    exact hadds.pid
  have hidentity : ∀ other, other ≠ slot → after.identity other = family.identity other := by
    intro other hne
    rw [Family.identity, Family.identity, howed, (hadds.kept other hne).pid]
  have hnext := hadds.nextPid
  have hpos := h.nextPos
  refine { ended := ?_, report := ?_, nextPos := by omega, identity := ?_, distinct := ?_,
           exited := ?_, detached := ?_, current := ?_ }
  · intro other
    rw [howed]
    by_cases hne : other = slot
    · rw [hne, hnone, hadds.phase]
      simp
    · rw [hphase other hne]
      exact h.ended other
  · intro other report hreport
    rw [howed] at hreport
    have hne : other ≠ slot := by
      intro heq
      rw [heq, hnone] at hreport
      exact nomatch hreport
    have hkept := hadds.kept other hne
    rw [hkept.pid, hkept.parentPid, hkept.exitCode]
    exact h.report other report hreport
  · intro other hother
    by_cases hne : other = slot
    · rw [hne, hself]
      omega
    · rw [hphase other hne] at hother
      have hbounds := h.identity other hother
      rw [hidentity other hne]
      omega
  · intro a b ha hb hsame
    by_cases hneA : a = slot
    · by_cases hneB : b = slot
      · rw [hneA, hneB]
      · rw [hphase b hneB] at hb
        have hbounds := h.identity b hb
        rw [hneA, hself, hidentity b hneB] at hsame
        omega
    · rw [hphase a hneA] at ha
      by_cases hneB : b = slot
      · have hbounds := h.identity a ha
        rw [hneB, hself, hidentity a hneA] at hsame
        omega
      · rw [hphase b hneB] at hb
        rw [hidentity a hneA, hidentity b hneB] at hsame
        exact h.distinct a b ha hb hsame
  · intro pid hpid
    rw [hexited] at hpid
    have ⟨hlt, hlive⟩ := h.exited pid hpid
    refine ⟨by omega, fun other hother => ?_⟩
    by_cases hne : other = slot
    · rw [hne, hadds.pid]
      omega
    · rw [hphase other hne] at hother
      rw [(hadds.kept other hne).pid]
      exact hlive other hother
  · intro pid hpid other hother
    rw [hexited] at hpid
    have ⟨hlt, hlive⟩ := h.exited pid hpid
    by_cases hne : other = slot
    · rw [hne, hadds.parentPid]
      rcases h.current with hcurrent | ⟨_, hempty, _⟩
      · split_ifs with hself
        · omega
        · exact hlive _ hcurrent
      · rw [hempty] at hpid
        exact absurd hpid List.not_mem_nil
    · rw [hphase other hne] at hother
      rw [(hadds.kept other hne).parentPid]
      exact h.detached pid hpid other hother
  · rw [hadds.current]
    rcases h.current with hcurrent | ⟨hzero, _, hempty⟩
    · have hne : family.procs.currentTask ≠ slot := by
        intro heq
        rw [heq, hfree] at hcurrent
        exact absurd hcurrent Phase.noConfusion
      exact .inl (by rw [hphase _ hne]; exact hcurrent)
    · have hfirst := hadds.first
      rw [deadSlot_first (hempty 0)] at hfirst
      have hslot : 0 = slot := Option.some.inj hfirst
      exact .inl (by rw [hzero, hslot]; exact hadds.phase)

/-- The reports that are owed after the end of a task. -/
theorem owe_of_ne {code : ℤ} {other : Slot} (hne : other ≠ slot) :
    family.owe slot code other = family.owed other := by
  rw [Family.owe]
  split_ifs with hlive
  · exact Function.update_of_ne hne _ _
  · rfl

/-- The end of a live task is owed to its parent. -/
theorem owe_self {code : ℤ} (hlive : family.procs.phase slot = .live) :
    family.owe slot code slot = some {
      child := (family.procs.tasks slot).pid
      parent := (family.procs.tasks slot).parentPid
      code := code } := by
  rw [Family.owe, if_pos hlive]
  exact Function.update_self _ _ _

/-- A task that had ended before is owed what it was. -/
theorem owe_ended {code : ℤ} (hended : family.procs.phase slot ≠ .live) :
    family.owe slot code = family.owed := by
  rw [Family.owe, if_neg hended]

/-- A table in which a task has ended. A task that had ended before is one that was killed. -/
theorem FamilyInv.ends {after : Family} {left code : ℤ} (h : FamilyInv family)
    (hends : Ends slot left code family.procs after.procs)
    (hslot : family.procs.phase slot ≠ .free)
    (hleft : left = -1 ∨ (left = (family.procs.tasks slot).pid ∧ code = -1))
    (hagain : family.procs.phase slot = .ended →
      left = (family.procs.tasks slot).pid ∧ left ≠ -1 ∧ code = -1)
    (howed : after.owed = family.owe slot code)
    (hexited : ∀ pid ∈ after.exited,
      pid ∈ family.exited ∨ pid = (family.procs.tasks slot).pid ∧ family.procs.phase slot = .live)
    (hdetached : Detached after)
    (hcurrent : after.procs.phase after.procs.currentTask = .live) : FamilyInv after := by
  have hphase : ∀ other, other ≠ slot → after.procs.phase other = family.procs.phase other :=
    fun other hne => (hends.kept other hne).phase
  have hcases : family.procs.phase slot = .live ∨ family.procs.phase slot = .ended := by
    cases hkind : family.procs.phase slot with
    | live => exact .inl rfl
    | ended => exact .inr rfl
    | free => exact absurd hkind hslot
  have hidentity : ∀ other, after.identity other = family.identity other := by
    intro other
    by_cases hne : other = slot
    · rw [hne]
      rcases hcases with hlive | hended
      · rw [h.identity_live (by rw [hlive]; decide), Family.identity, howed, owe_self hlive]
      · have ⟨report, hreport, _⟩ := h.owed_ended hended
        rw [Family.identity, Family.identity, howed, owe_ended (by rw [hended]; decide), hreport]
    · rw [Family.identity, Family.identity, howed, owe_of_ne hne, (hends.kept other hne).pid]
  have hnotFree : ∀ other, after.procs.phase other ≠ .free → family.procs.phase other ≠ .free := by
    intro other hother
    by_cases hne : other = slot
    · rw [hne]
      exact hslot
    · rw [← hphase other hne]
      exact hother
  refine { ended := ?_, report := ?_, nextPos := ?_, identity := ?_, distinct := ?_,
           exited := ?_, detached := hdetached, current := .inl hcurrent }
  · intro other
    by_cases hne : other = slot
    · rw [hne, hends.phase, howed]
      rcases hcases with hlive | hended
      · simp [owe_self hlive]
      · rw [owe_ended (by rw [hended]; decide)]
        simpa [hended] using h.ended slot
    · rw [howed, owe_of_ne hne, hphase other hne]
      exact h.ended other
  · intro other report hreport
    by_cases hne : other = slot
    · rw [hne] at hreport ⊢
      rw [hends.pid, hends.parentPid, hends.exitCode]
      rcases hcases with hlive | hended
      · rw [howed, owe_self hlive] at hreport
        rw [← Option.some.inj hreport]
        exact ⟨rfl, rfl, hleft⟩
      · rw [howed, owe_ended (by rw [hended]; decide)] at hreport
        have ⟨hparent, _, hpid⟩ := h.report slot report hreport
        have ⟨hsame, hne, hcode⟩ := hagain hended
        have hkilled := hpid.resolve_left (by rw [← hsame]; exact hne)
        exact ⟨hparent, by rw [hkilled.2, hcode], .inr ⟨by rw [hsame, hkilled.1], hkilled.2⟩⟩
    · rw [howed, owe_of_ne hne] at hreport
      have hkept := hends.kept other hne
      rw [hkept.pid, hkept.parentPid, hkept.exitCode]
      exact h.report other report hreport
  · rw [hends.nextPid]
    exact h.nextPos
  · intro other hother
    rw [hidentity, hends.nextPid]
    exact h.identity other (hnotFree other hother)
  · intro a b ha hb hsame
    rw [hidentity, hidentity] at hsame
    exact h.distinct a b (hnotFree a ha) (hnotFree b hb) hsame
  · intro pid hpid
    rw [hends.nextPid]
    have hother : ∀ other, after.procs.phase other = .live →
        other ≠ slot ∧ family.procs.phase other = .live ∧
          (after.procs.tasks other).pid = (family.procs.tasks other).pid := by
      intro other hlive
      have hne : other ≠ slot := by
        intro heq
        rw [heq, hends.phase] at hlive
        exact absurd hlive Phase.noConfusion
      exact ⟨hne, by rw [← hphase other hne]; exact hlive, (hends.kept other hne).pid⟩
    rcases hexited pid hpid with hold | ⟨hnew, hlive⟩
    · have ⟨hlt, hnone⟩ := h.exited pid hold
      refine ⟨hlt, fun other hlive => ?_⟩
      have ⟨_, hwas, hpid⟩ := hother other hlive
      rw [hpid]
      exact hnone other hwas
    · have hidentitySlot : family.identity slot = (family.procs.tasks slot).pid :=
        h.identity_live (by rw [hlive]; decide)
      have hbounds := h.identity slot hslot
      refine ⟨by omega, fun other hotherLive heq => ?_⟩
      have ⟨hne, hwas, hpid⟩ := hother other hotherLive
      have hidentityOther : family.identity other = (family.procs.tasks other).pid :=
        h.identity_live (by rw [hwas]; decide)
      exact hne (h.distinct other slot (by rw [hwas]; decide) hslot (by omega))

/-- A table in which the slot of a killed task is freed by proc_wait. -/
theorem FamilyInv.frees {after : Family} (h : FamilyInv family)
    (hfrees : Frees slot family.procs after.procs)
    (hparent : (family.procs.tasks slot).parentPid = family.procs.current.pid)
    (hkilled : (family.procs.tasks slot).pid ≠ -1)
    (howed : after.owed = family.settle (family.procs.tasks slot).pid)
    (hexited : after.exited = family.exited) : FamilyInv after := by
  have ⟨report, hreport, _⟩ := h.owed_ended hfrees.ended
  have ⟨hreportParent, _, hpid⟩ := h.report slot report hreport
  have hchild := (hpid.resolve_left hkilled).1
  have hself : after.owed slot = none := by
    rw [howed, Family.settle, hreport]
    simp [hchild, hreportParent, hparent]
  have hother : ∀ other, other ≠ slot → after.owed other = family.owed other := by
    intro other hne
    rw [howed, Family.settle]
    cases howes : family.owed other with
    | none => rfl
    | some right =>
      have hended := (h.ended other).mp (by rw [howes]; rfl)
      have hdiffers : right.child ≠ (family.procs.tasks slot).pid := by
        intro heq
        refine hne (h.distinct other slot (by rw [hended]; decide)
          (by rw [hfrees.ended]; decide) ?_)
        rw [Family.identity, Family.identity, howes, hreport]
        exact heq.trans hchild
      simp [hdiffers]
  have hphase : ∀ other, other ≠ slot → after.procs.phase other = family.procs.phase other :=
    fun other hne => (hfrees.kept other hne).phase
  have hne : ∀ other, after.procs.phase other ≠ .free → other ≠ slot := by
    intro other hnotFree heq
    rw [heq] at hnotFree
    exact hnotFree hfrees.phase
  have hidentity : ∀ other, other ≠ slot → after.identity other = family.identity other := by
    intro other hdiffers
    rw [Family.identity, Family.identity, hother other hdiffers,
      (hfrees.kept other hdiffers).pid]
  refine { ended := ?_, report := ?_, nextPos := ?_, identity := ?_, distinct := ?_, exited := ?_,
           detached := ?_, current := ?_ }
  · intro other
    by_cases hsame : other = slot
    · rw [hsame, hself, hfrees.phase]
      simp
    · rw [hother other hsame, hphase other hsame]
      exact h.ended other
  · intro other right hright
    have hdiffers : other ≠ slot := by
      intro heq
      rw [heq, hself] at hright
      exact nomatch hright
    rw [hother other hdiffers] at hright
    have hkept := hfrees.kept other hdiffers
    rw [hkept.pid, hkept.parentPid, hkept.exitCode]
    exact h.report other right hright
  · rw [hfrees.nextPid]
    exact h.nextPos
  · intro other hnotFree
    have hdiffers := hne other hnotFree
    rw [hphase other hdiffers] at hnotFree
    rw [hidentity other hdiffers, hfrees.nextPid]
    exact h.identity other hnotFree
  · intro a b ha hb hsame
    have hdiffersA := hne a ha
    have hdiffersB := hne b hb
    rw [hphase a hdiffersA] at ha
    rw [hphase b hdiffersB] at hb
    rw [hidentity a hdiffersA, hidentity b hdiffersB] at hsame
    exact h.distinct a b ha hb hsame
  · intro pid hpid
    rw [hexited] at hpid
    have ⟨hlt, hlive⟩ := h.exited pid hpid
    refine ⟨by rw [hfrees.nextPid]; exact hlt, fun other hotherLive => ?_⟩
    have hdiffers := hne other (by rw [hotherLive]; decide)
    rw [hphase other hdiffers] at hotherLive
    rw [(hfrees.kept other hdiffers).pid]
    exact hlive other hotherLive
  · intro pid hpid other hnotFree
    rw [hexited] at hpid
    have hdiffers := hne other hnotFree
    rw [hphase other hdiffers] at hnotFree
    rw [(hfrees.kept other hdiffers).parentPid]
    exact h.detached pid hpid other hnotFree
  · rw [hfrees.current]
    rcases h.current with hlive | ⟨_, _, hempty⟩
    · have hdiffers : family.procs.currentTask ≠ slot := by
        intro heq
        rw [heq, hfrees.ended] at hlive
        exact absurd hlive Phase.noConfusion
      exact .inl (by rw [hphase _ hdiffers]; exact hlive)
    · exact absurd (hempty slot) (by rw [hfrees.ended]; decide)

/-- What the end of a task in a call does. -/
theorem ends_spec {procs : Processes} {code : ℤ} (h : op.ends procs = some (slot, code)) :
    ∃ left, Ends slot left code procs (op.after procs) ∧
      (left = if slot = procs.currentTask then -1 else (procs.tasks slot).pid) ∧
      ((op.after procs).halted = false → slot = procs.currentTask →
        (op.after procs).phase (op.after procs).currentTask = .live) ∧
      (slot ≠ procs.currentTask → (op.after procs).currentTask = procs.currentTask ∧
        code = -1 ∧ 0 < (procs.tasks slot).pid ∧ procs.phase slot ≠ .free) := by
  cases op with
  | exit exitCode =>
    have hsome := Option.some.inj h
    have hslot : procs.currentTask = slot := congrArg Prod.fst hsome
    have hcode : exitCode = code := congrArg Prod.snd hsome
    subst hslot hcode
    refine ⟨-1, procExit_ends exitCode procs, ?_, fun hhalted _ => procExit_current _ procs hhalted,
      fun hne => absurd rfl hne⟩
    rw [if_pos rfl]
  | kill pid =>
    simp only [Operation.ends] at h
    split_ifs at h with hpid
    have ⟨target, htarget, hpair⟩ := Option.map_eq_some_iff.mp h
    have hslot : target = slot := congrArg Prod.fst hpair
    have hcode : -1 = code := congrArg Prod.snd hpair
    subst hslot hcode
    have htest := firstSlot_test htarget
    simp only [Bool.and_eq_true, beq_iff_eq, bne_iff_ne, ne_eq] at htest
    have ⟨left, hends, hleft⟩ := procKill_ends hpid htarget
    refine ⟨left, hends, ?_, fun hhalted hcurrent => ?_, fun hne => ⟨?_, rfl, ?_, ?_⟩⟩
    · rw [hleft, htest.1]
    · have hexit : (Operation.kill pid).after procs = procExit (-1) procs := by
        show (procKill pid procs).2 = _
        rw [procKill, if_neg (not_le.mpr hpid), htarget]
        exact congrArg Prod.snd (if_pos hcurrent)
      rw [hexit] at hhalted ⊢
      exact procExit_current _ procs hhalted
    · show (procKill pid procs).2.currentTask = _
      rw [procKill, if_neg (not_le.mpr hpid), htarget]
      dsimp only
      rw [if_neg hne]
      rfl
    · rw [htest.1]
      exact hpid
    · intro hfree
      exact htest.2 (phase_free_iff.mp hfree)
  | create | createUser | wait | reapZombies | schedule => exact nomatch h

/-- What a call without an end of a task and without a report does. -/
theorem ends_none {procs : Processes} (h : op.ends procs = none) (hwait : op ≠ .wait)
    (hreap : op ≠ .reapZombies) :
    Keeps procs (op.after procs) ∨ ∃ slot count, Adds slot count procs (op.after procs) := by
  cases op with
  | create kernelPageDir entry name priority =>
    rcases procCreate_cases kernelPageDir entry name priority procs with hrefused | hadds
    · have hsame : (Operation.create kernelPageDir entry name priority).after procs = procs :=
        congrArg Prod.snd hrefused
      rw [hsame]
      exact .inl (Keeps.refl procs)
    · have ⟨slot, _, hadds⟩ := hadds
      exact .inr ⟨slot, 1, hadds⟩
  | createUser userStack pageDir entry name =>
    rcases procCreateUser_cases userStack pageDir entry name procs with hrefused | hadds
    · have hsame : (Operation.createUser userStack pageDir entry name).after procs = procs :=
        congrArg Prod.snd hrefused.2
      rw [hsame]
      exact .inl (Keeps.refl procs)
    · have ⟨slot, _, _, hcases⟩ := hadds
      rcases hcases with ⟨_, _, hadds⟩ | ⟨_, _, hadds⟩
      · exact .inr ⟨slot, 0, hadds⟩
      · exact .inr ⟨slot, 1, hadds⟩
  | schedule regs => exact .inl (schedule_keeps regs procs)
  | kill pid =>
    have hnone : pid ≤ 0 ∨ killTarget pid procs = none := by
      simp only [Operation.ends] at h
      split_ifs at h with hpid
      · exact .inr (Option.map_eq_none_iff.mp h)
      · exact .inl (not_lt.mp hpid)
    have hsame : (Operation.kill pid).after procs = procs := congrArg Prod.snd (procKill_none hnone)
    rw [hsame]
    exact .inl (Keeps.refl procs)
  | exit code => exact nomatch h
  | wait => exact absurd rfl hwait
  | reapZombies => exact absurd rfl hreap

/-- Without an exit no pid is added to the exited ones. -/
theorem exits_none {procs : Processes} (h : op.ends procs = none) : op.exits procs = none := by
  rw [Operation.exits, h]

/-- The pid of a task that exits. -/
theorem exits_some {procs : Processes} {code : ℤ} (h : op.ends procs = some (slot, code)) :
    op.exits procs = if slot = procs.currentTask ∧ procs.phase slot = .live
      then some procs.current.pid else none := by
  rw [Operation.exits, h]

/-- The families after proc_wait. -/
theorem FamilyInv.wait (h : FamilyInv family) :
    Detached (family.after .wait) ∧
      (FamilySound .wait family → FamilyInv (family.after .wait)) := by
  cases hfound : waitTarget family.procs with
  | none =>
    have hresult := procWait_none hfound
    have hkeeps : Keeps family.procs (family.after .wait).procs := by
      show Keeps family.procs (procWait family.procs).2.2
      rw [hresult]
      exact Keeps.refl _
    have howed : (family.after .wait).owed = family.owed := by
      funext slot
      show family.settle (procWait family.procs).1 slot = family.owed slot
      rw [hresult, Family.settle]
      cases howes : family.owed slot with
      | none => rfl
      | some report =>
        have hended := (h.ended slot).mp (by rw [howes]; rfl)
        have ⟨right, hright, hpos⟩ := h.owed_ended hended
        have hsame : report = right := Option.some.inj (howes.symm.trans hright)
        have hne : report.child ≠ -1 := by
          rw [hsame]
          omega
        simp [hne]
    have hinv := h.keeps hkeeps howed rfl
    exact ⟨hinv.detached, fun _ => hinv⟩
  | some slot =>
    have htest := firstSlot_test hfound
    simp only [Bool.and_eq_true, beq_iff_eq] at htest
    have hfrees := procWait_frees hfound
    have hresult : (procWait family.procs).1 = (family.procs.tasks slot).pid := by
      rw [procWait, hfound]
    constructor
    · intro pid hpid other hnotFree
      have hne : other ≠ slot := by
        intro heq
        rw [heq] at hnotFree
        exact hnotFree hfrees.phase
      have hkept := hfrees.kept other hne
      have hparent : ((family.after .wait).procs.tasks other).parentPid =
          (family.procs.tasks other).parentPid := hkept.parentPid
      rw [hparent]
      refine h.detached pid hpid other ?_
      rw [Processes.phase, ← hkept.phase]
      exact hnotFree
    · intro hsound
      have howed : (family.after .wait).owed = family.settle (family.procs.tasks slot).pid := by
        rw [← hresult]
        rfl
      exact h.frees hfrees htest.1 (hsound.waits rfl slot hfound) howed rfl

/-- The end of a task keeps the parents, and frees no slot. -/
theorem ends_parents {procs after : Processes} {left code : ℤ}
    (hends : Ends slot left code procs after) (hslot : procs.phase slot ≠ .free) (other : Slot) :
    (after.phase other ≠ .free ↔ procs.phase other ≠ .free) ∧
      (after.tasks other).parentPid = (procs.tasks other).parentPid := by
  by_cases hne : other = slot
  · rw [hne, hends.phase]
    exact ⟨iff_of_true (by decide) hslot, hends.parentPid⟩
  · have hkept := hends.kept other hne
    refine ⟨?_, hkept.parentPid⟩
    rw [Processes.phase, hkept.phase, Processes.phase]

/-- Whose exit is owed after a call that ends a task. -/
theorem exited_after {code : ℤ} (h : op.ends family.procs = some (slot, code)) {pid : ℤ} :
    pid ∈ (family.after op).exited ↔ pid ∈ family.exited ∨
      (slot = family.procs.currentTask ∧ family.procs.phase slot = .live ∧
        pid = family.procs.current.pid) := by
  have hexited : (family.after op).exited =
      (op.exits family.procs).toList ++ family.exited := rfl
  rw [hexited, exits_some h, List.mem_append]
  split_ifs with hexits
  · have hsame : slot = family.procs.currentTask ∧ family.procs.phase slot = .live ∧
        pid = family.procs.current.pid ↔ pid = family.procs.current.pid :=
      ⟨fun hright => hright.2.2, fun hpid => ⟨hexits.1, hexits.2, hpid⟩⟩
    rw [hsame, Option.toList_some, List.mem_singleton, or_comm]
  · simp only [Option.toList_none, List.not_mem_nil, false_or]
    constructor
    · exact .inl
    · intro hcases
      exact hcases.resolve_right fun hright => hexits ⟨hright.1, hright.2.1⟩

/-- The slot of a task that ends holds one, unless the code before the first task exits. -/
theorem FamilyInv.ends_slot {code : ℤ} (h : FamilyInv family)
    (hends : op.ends family.procs = some (slot, code)) :
    family.procs.phase slot ≠ .free ∨ family.exited = [] ∧ slot = family.procs.currentTask ∧
      family.procs.phase slot ≠ .live := by
  have ⟨_, _, _, _, hother⟩ := ends_spec hends
  by_cases hcurrent : slot = family.procs.currentTask
  · rcases h.current with hlive | ⟨_, hempty, hfree⟩
    · exact .inl (by rw [hcurrent, hlive]; decide)
    · exact .inr ⟨hempty, hcurrent, by rw [hfree slot]; decide⟩
  · exact .inl (hother hcurrent).2.2.2

/-- After the end of a task no remaining task has an exited one as its parent exactly when no task
had the one that exits. -/
theorem FamilyInv.detached_ends_iff {code : ℤ} (h : FamilyInv family)
    (hends : op.ends family.procs = some (slot, code)) :
    Detached (family.after op) ↔ ∀ pid, op.exits family.procs = some pid →
      ∀ other, family.procs.phase other ≠ .free →
        (family.procs.tasks other).parentPid ≠ pid := by
  have ⟨_, hspec, _, _, _⟩ := ends_spec hends
  rcases h.ends_slot hends with hslot | ⟨hempty, hcurrent, hdead⟩
  · have hparents := ends_parents hspec hslot
    constructor
    · intro hdetached pid hexits other hother
      rw [exits_some hends] at hexits
      split_ifs at hexits with hlive
      have hpid : pid ∈ (family.after op).exited :=
        (exited_after hends).mpr (.inr ⟨hlive.1, hlive.2, (Option.some.inj hexits).symm⟩)
      rw [← (hparents other).2]
      exact hdetached pid hpid other ((hparents other).1.mpr hother)
    · intro hnone pid hpid other hother
      have hwas := (hparents other).1.mp hother
      have hparent : ((family.after op).procs.tasks other).parentPid =
          (family.procs.tasks other).parentPid := (hparents other).2
      rw [hparent]
      rcases (exited_after hends).mp hpid with hold | ⟨hcurrent, hlive, hnew⟩
      · exact h.detached pid hold other hwas
      · refine hnone pid ?_ other hwas
        rw [exits_some hends, if_pos ⟨hcurrent, hlive⟩, hnew]
  · refine iff_of_true (fun pid hpid => ?_) (fun pid hexits => ?_)
    · rcases (exited_after hends).mp hpid with hold | ⟨_, hlive, _⟩
      · rw [hempty] at hold
        exact absurd hold List.not_mem_nil
      · exact absurd hlive hdead
    · rw [exits_some hends, if_neg fun hlive => hdead hlive.2] at hexits
      exact nomatch hexits

/-- The families after the end of a task. -/
theorem FamilyInv.endsCall {code : ℤ} (h : FamilyInv family)
    (hends : op.ends family.procs = some (slot, code)) (hdetached : Detached (family.after op))
    (hhalted : (family.after op).procs.halted = false) : FamilyInv (family.after op) := by
  obtain ⟨left, hspec, hleft, hcurrent, hother⟩ := ends_spec hends
  have howed : (family.after op).owed = family.owe slot code := by
    show family.owedAfter op = family.owe slot code
    unfold Family.owedAfter
    rw [hends]
  have hslot : family.procs.phase slot ≠ .free := by
    rcases h.current with hlive | ⟨_, _, hfree⟩
    · by_cases hsame : slot = family.procs.currentTask
      · rw [hsame, hlive]
        decide
      · exact (hother hsame).2.2.2
    · -- there is no task to go on with after an exit of the code before the first task
      intro hslotFree
      have hsame : slot = family.procs.currentTask := by
        by_contra hne
        exact (hother hne).2.2.2 hslotFree
      have hlive := hcurrent hhalted hsame
      by_cases hnext : (op.after family.procs).currentTask = slot
      · rw [hnext, hspec.phase] at hlive
        exact Phase.noConfusion hlive
      · rw [Processes.phase, (hspec.kept _ hnext).phase] at hlive
        have hgone := hfree (op.after family.procs).currentTask
        rw [Processes.phase, hlive] at hgone
        exact Phase.noConfusion hgone
  have hlive : family.procs.phase family.procs.currentTask = .live :=
    h.current.resolve_right fun hnone => hslot (hnone.2.2 slot)
  refine h.ends hspec hslot ?_ ?_ howed ?_ hdetached ?_
  · by_cases hsame : slot = family.procs.currentTask
    · exact .inl (by rw [hleft, if_pos hsame])
    · exact .inr ⟨by rw [hleft, if_neg hsame], (hother hsame).2.1⟩
  · intro hended
    have hsame : slot ≠ family.procs.currentTask := by
      intro heq
      rw [heq, hlive] at hended
      exact Phase.noConfusion hended
    obtain ⟨_, hcode, hpos, _⟩ := hother hsame
    rw [if_neg hsame] at hleft
    exact ⟨hleft, by omega, hcode⟩
  · intro pid hpid
    rcases (exited_after hends).mp hpid with hold | ⟨hsame, hwas, hnew⟩
    · exact .inl hold
    · exact .inr ⟨by rw [hnew, hsame]; rfl, hwas⟩
  · by_cases hsame : slot = family.procs.currentTask
    · exact hcurrent hhalted hsame
    · have hkept := hspec.kept family.procs.currentTask fun heq => hsame heq.symm
      show (op.after family.procs).phase (op.after family.procs).currentTask = .live
      rw [(hother hsame).1, Processes.phase, hkept.phase]
      exact hlive

/-- A call does what it owes exactly when it meets its condition, and the families go on as they
should. -/
theorem FamilyInv.call (h : FamilyInv family) (hreap : op ≠ .reapZombies) :
    (FamilyCall op family ↔ FamilySound op family) ∧
      (FamilySound op family → (family.after op).procs.halted = false →
        FamilyInv (family.after op)) := by
  by_cases hwait : op = .wait
  · subst hwait
    have ⟨hdetached, hinv⟩ := h.wait
    have hreports := h.reportsChild_iff
    refine ⟨⟨fun hcall => ?_, fun hsound => ?_⟩, fun hsound _ => hinv hsound⟩
    · exact ⟨fun pid hexits => (nomatch hexits), fun _ => hreports.mp (hcall.reports rfl)⟩
    · exact ⟨fun _ => hreports.mpr (hsound.waits rfl), hdetached⟩
  · have howes : ∀ {property : Prop}, op = .wait → property := fun heq => absurd heq hwait
    cases hends : op.ends family.procs with
    | none =>
      have hexited : (family.after op).exited = family.exited := by
        show (op.exits family.procs).toList ++ family.exited = family.exited
        rw [exits_none hends]
        rfl
      have howed : (family.after op).owed = family.owed := by
        show family.owedAfter op = family.owed
        unfold Family.owedAfter
        rw [hends]
        cases op with
        | wait => exact absurd rfl hwait
        | create | createUser | exit | kill | reapZombies | schedule => rfl
      have hinv : FamilyInv (family.after op) := by
        rcases ends_none hends hwait hreap with hkeeps | ⟨slot, count, hadds⟩
        · exact h.keeps hkeeps howed hexited
        · exact h.adds hadds howed hexited
      refine ⟨iff_of_true ⟨howes, hinv.detached⟩ ⟨fun pid hexits => ?_, howes⟩, fun _ _ => hinv⟩
      rw [exits_none hends] at hexits
      exact nomatch hexits
    | some ended =>
      have ⟨slot, code⟩ := ended
      have hdetached := h.detached_ends_iff hends
      refine ⟨⟨fun hcall => ?_, fun hsound => ?_⟩, fun hsound hhalted => ?_⟩
      · exact ⟨hdetached.mp hcall.detached, howes⟩
      · exact ⟨howes, hdetached.mpr hsound.exits⟩
      · exact h.endsCall hends (hdetached.mpr hsound.exits) hhalted

/-- Over a sequence of calls, all do what they owe exactly when all meet their condition. -/
theorem FamilyInv.everyCall_iff {ops : List Operation}
    (h : family.procs.halted = false → FamilyInv family) (hreap : .reapZombies ∉ ops)
    (hrun : EveryCall Family.after (fun _ family => family.procs.halted = false) ops family) :
    EveryCall Family.after FamilyCall ops family ↔
      EveryCall Family.after FamilySound ops family := by
  induction ops generalizing family with
  | nil => exact Iff.rfl
  | cons op ops ih =>
    have hop : op ≠ .reapZombies := fun heq => hreap (heq ▸ List.mem_cons_self)
    have hops : .reapZombies ∉ ops := fun hmem => hreap (List.mem_cons_of_mem _ hmem)
    have ⟨hcall, hinv⟩ := (h hrun.1).call hop
    constructor
    · intro hcalls
      have hsound := hcall.mp hcalls.1
      exact ⟨hsound, (ih (hinv hsound) hops hrun.2).mp hcalls.2⟩
    · intro hcalls
      exact ⟨hcall.mpr hcalls.1, (ih (hinv hcalls.1) hops hrun.2).mpr hcalls.2⟩

/-- The families after proc_init. -/
def Family.init (boot : Processes) : Family where
  procs := procInit boot
  owed := fun _ => none
  exited := []

/-- There is no task after proc_init. -/
theorem FamilyInv.init {boot : Processes} (hboot : boot.nextPid = 1) :
    FamilyInv (Family.init boot) where
  ended _ := iff_of_false Bool.noConfusion Phase.noConfusion
  report _ _ hreport := nomatch hreport
  nextPos := by
    show 0 < boot.nextPid
    omega
  identity _ hslot := absurd rfl hslot
  distinct _ _ ha := absurd rfl ha
  exited _ hpid := absurd hpid List.not_mem_nil
  detached _ hpid := absurd hpid List.not_mem_nil
  current := .inr ⟨rfl, rfl, fun _ => rfl⟩

end Families

/-- From proc_init on, every proc_wait reports a child that has ended as it should and no
remaining task keeps an exited one as its parent, exactly when no task exits that is the parent of
a task in the table and every ended child that proc_wait finds was killed. -/
theorem familyCalls_iff (boot : Processes) (hboot : boot.nextPid = 1) (ops : List Operation)
    (hreap : .reapZombies ∉ ops)
    (hrun : EveryCall Family.after (fun _ family => family.procs.halted = false) ops
      (Family.init boot)) :
    EveryCall Family.after FamilyCall ops (Family.init boot) ↔
      EveryCall Family.after FamilySound ops (Family.init boot) :=
  FamilyInv.everyCall_iff (fun _ => FamilyInv.init hboot) hreap hrun

/-- A parent that kills its child and waits for it twice. -/
def killedChild : List Operation :=
  [.create 0x1000 0x11000 taskName 1, .create 0x1000 0x12000 taskName 1, .kill 2, .wait, .wait]

/-- The criterion for a parent that kills its child and waits for it. -/
theorem familyCalls_iff_killedChild :
    EveryCall Family.after FamilyCall killedChild (Family.init zeroProcesses) ↔
      EveryCall Family.after FamilySound killedChild (Family.init zeroProcesses) :=
  familyCalls_iff zeroProcesses rfl killedChild (by simp [killedChild])
    ⟨rfl, rfl, rfl, rfl, rfl, trivial⟩

/-- A child that exits with code 5 while its parent goes on and waits. -/
def exitedChild : List Operation :=
  [.create 0x1000 0x11000 taskName 1, .create 0x1000 0x12000 taskName 1, .schedule 0x9000,
    .exit 5, .wait]

/-- A parent that exits before its child. -/
def exitedParent : List Operation :=
  [.create 0x1000 0x11000 taskName 1, .create 0x1000 0x12000 taskName 1, .exit 0]

/-- proc_wait stores the exit code of a child that has exited and returns -1 for its pid, and a
child of a task that has exited keeps it as its parent. -/
theorem familyCalls_lost :
    ¬EveryCall Family.after FamilyCall exitedChild (Family.init zeroProcesses) ∧
      ¬EveryCall Family.after FamilyCall exitedParent (Family.init zeroProcesses) := by
  constructor
  · intro hcalls
    have hrun : EveryCall Family.after (fun _ family => family.procs.halted = false) exitedChild
        (Family.init zeroProcesses) := ⟨rfl, rfl, rfl, rfl, rfl, trivial⟩
    have hsound := (FamilyInv.everyCall_iff (fun _ => FamilyInv.init rfl)
      (by simp [exitedChild]) hrun).mp hcalls
    exact hsound.2.2.2.2.1.waits rfl 1 (by decide +kernel) (by decide +kernel)
  · intro hcalls
    have hrun : EveryCall Family.after (fun _ family => family.procs.halted = false) exitedParent
        (Family.init zeroProcesses) := ⟨rfl, rfl, rfl, trivial⟩
    have hsound := (FamilyInv.everyCall_iff (fun _ => FamilyInv.init rfl)
      (by simp [exitedParent]) hrun).mp hcalls
    exact hsound.2.2.1.exits 1 (by decide +kernel) 1 (by decide +kernel) (by decide +kernel)

end HexaOS.Process
