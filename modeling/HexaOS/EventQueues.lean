import HexaOS.ProcessFamilies
import HexaOS.TaskHistories

/-!
# The event queue of a task

Events that are sent to a task against those that it polls, from its creation on and over any
order of calls. A send finds its task by the pid, so that the queue of a live task receives
what is sent to its pid and nothing else.
-/

namespace HexaOS.Process

open HexaOS.RingBuffers HexaOS.StepRuns

/-- The pid of a live task is its own. -/
structure PidsDistinct (procs : Processes) : Prop where
  /-- The next pid is positive. -/
  nextPos : 0 < procs.nextPid
  /-- Pids of live tasks are positive. -/
  positive : ∀ slot, procs.phase slot = .live → 0 < (procs.tasks slot).pid
  /-- Pids of the table were given out. -/
  fresh : ∀ slot, procs.phase slot ≠ .free → (procs.tasks slot).pid < procs.nextPid
  /-- A live task shares its pid with no other one. -/
  distinct : ∀ a b, procs.phase a = .live → procs.phase b ≠ .free →
    (procs.tasks a).pid = (procs.tasks b).pid → a = b

section Pids

variable {procs after : Processes} {slot : Slot}

/-- A call that makes no task. -/
theorem PidsDistinct.of_fewer (h : PidsDistinct procs) (hnext : after.nextPid = procs.nextPid)
    (hlive : ∀ other, after.phase other = .live → procs.phase other = .live ∧
      (after.tasks other).pid = (procs.tasks other).pid)
    (hheld : ∀ other, after.phase other ≠ .free → (procs.phase other ≠ .free ∧
      (after.tasks other).pid = (procs.tasks other).pid) ∨ (after.tasks other).pid = -1) :
    PidsDistinct after where
  nextPos := by
    rw [hnext]
    exact h.nextPos
  positive other hother := by
    have ⟨hwas, hpid⟩ := hlive other hother
    rw [hpid]
    exact h.positive other hwas
  fresh other hother := by
    have hpos := h.nextPos
    rw [hnext]
    rcases hheld other hother with ⟨hwas, hpid⟩ | hgone
    · rw [hpid]
      exact h.fresh other hwas
    · omega
  distinct a b ha hb hequal := by
    have ⟨hwas, hpid⟩ := hlive a ha
    have hpos := h.positive a hwas
    rw [hpid] at hequal
    rcases hheld b hb with ⟨hwasB, hpidB⟩ | hgone
    · rw [hpidB] at hequal
      exact h.distinct a b hwas hwasB hequal
    · omega

/-- A call that keeps all tasks. -/
theorem PidsDistinct.keeps (h : PidsDistinct procs) (hkeeps : Keeps procs after) :
    PidsDistinct after := by
  have hphase : ∀ other, after.phase other = procs.phase other := fun other =>
    (hkeeps.kept other).phase
  refine h.of_fewer hkeeps.nextPid (fun other hother => ?_) fun other hother => .inl ?_
  · rw [hphase] at hother
    exact ⟨hother, (hkeeps.kept other).pid⟩
  · rw [hphase] at hother
    exact ⟨hother, (hkeeps.kept other).pid⟩

/-- The end of a task. -/
theorem PidsDistinct.ends {left code : ℤ} (h : PidsDistinct procs)
    (hends : Ends slot left code procs after)
    (hleft : left = -1 ∨ (procs.phase slot ≠ .free ∧ left = (procs.tasks slot).pid)) :
    PidsDistinct after := by
  refine h.of_fewer hends.nextPid (fun other hother => ?_) fun other hother => ?_
  · have hne : other ≠ slot := by
      intro heq
      rw [heq, hends.phase] at hother
      exact absurd hother Phase.noConfusion
    have hkept := hends.kept other hne
    exact ⟨hkept.phase.symm.trans hother, hkept.pid⟩
  · by_cases hne : other = slot
    · rw [hne, hends.pid]
      rcases hleft with hgone | ⟨hwas, hsame⟩
      · exact .inr hgone
      · exact .inl ⟨hwas, hsame⟩
    · have hkept := hends.kept other hne
      exact .inl ⟨fun hfree => hother (hkept.phase.trans hfree), hkept.pid⟩

/-- A slot that is freed. -/
theorem PidsDistinct.frees (h : PidsDistinct procs) (hfrees : Frees slot procs after) :
    PidsDistinct after := by
  have hdiffers : ∀ other, after.phase other ≠ .free → other ≠ slot := by
    intro other hother heq
    rw [heq] at hother
    exact hother hfrees.phase
  refine h.of_fewer hfrees.nextPid (fun other hother => ?_) fun other hother => .inl ?_
  · have hkept := hfrees.kept other (hdiffers other (by rw [hother]; decide))
    exact ⟨hkept.phase.symm.trans hother, hkept.pid⟩
  · have hkept := hfrees.kept other (hdiffers other hother)
    exact ⟨fun hfree => hother (hkept.phase.trans hfree), hkept.pid⟩

/-- A new task. -/
theorem PidsDistinct.adds {count : ℤ} (h : PidsDistinct procs)
    (hadds : Adds slot count procs after) : PidsDistinct after := by
  have hnext := hadds.nextPid
  have hpos := h.nextPos
  have hpid := hadds.pid
  have hold : ∀ other, other ≠ slot → after.phase other ≠ .free →
      (after.tasks other).pid < procs.nextPid := by
    intro other hne hother
    have hkept := hadds.kept other hne
    rw [hkept.pid]
    exact h.fresh other fun hfree => hother (hkept.phase.trans hfree)
  refine ⟨by omega, fun other hother => ?_, fun other hother => ?_, fun a b ha hb hequal => ?_⟩
  · by_cases hne : other = slot
    · rw [hne]
      omega
    · have hkept := hadds.kept other hne
      rw [hkept.pid]
      exact h.positive other (hkept.phase.symm.trans hother)
  · by_cases hne : other = slot
    · rw [hne]
      omega
    · have hlt := hold other hne hother
      omega
  · have hlive : after.phase a ≠ .free := by rw [ha]; decide
    by_cases hneA : a = slot
    · by_cases hneB : b = slot
      · rw [hneA, hneB]
      · have hlt := hold b hneB hb
        rw [hneA] at hequal
        omega
    · have hltA := hold a hneA hlive
      by_cases hneB : b = slot
      · rw [hneB] at hequal
        omega
      · have hkeptA := hadds.kept a hneA
        have hkeptB := hadds.kept b hneB
        rw [hkeptA.pid, hkeptB.pid] at hequal
        exact h.distinct a b (hkeptA.phase.symm.trans ha)
          (fun hfree => hb (hkeptB.phase.trans hfree)) hequal

/-- Every operation on the task table keeps the pids distinct. -/
theorem PidsDistinct.operation (h : PidsDistinct procs) (op : Operation) :
    PidsDistinct (op.after procs) := by
  by_cases hwait : op = .wait
  · subst hwait
    show PidsDistinct (procWait procs).2.2
    cases hfound : waitTarget procs with
    | none =>
      rw [procWait_none hfound]
      exact h
    | some slot => exact h.frees (procWait_frees hfound)
  · by_cases hreap : op = .reapZombies
    · subst hreap
      have htask : ∀ other, ((procReapZombies procs).tasks other).pid = (procs.tasks other).pid ∧
          ((procReapZombies procs).phase other ≠ .free →
            (procReapZombies procs).phase other = procs.phase other) := by
        intro other
        simp only [Processes.phase, procReapZombies]
        split_ifs with hzombie
        · exact ⟨rfl, fun hnot => absurd rfl hnot⟩
        · exact ⟨rfl, fun _ => rfl⟩
      refine h.of_fewer rfl (fun other hother => ?_) fun other hother => .inl ?_
      · have hheld : (procReapZombies procs).phase other ≠ .free :=
          fun hfree => absurd (hfree.symm.trans hother) Phase.noConfusion
        have hphase := (htask other).2 hheld
        exact ⟨hphase.symm.trans hother, (htask other).1⟩
      · have hphase := (htask other).2 hother
        exact ⟨hphase ▸ hother, (htask other).1⟩
    · cases hends : op.ends procs with
      | none =>
        rcases ends_none hends hwait hreap with hkeeps | ⟨slot, count, hadds⟩
        · exact h.keeps hkeeps
        · exact h.adds hadds
      | some pair =>
        obtain ⟨left, hended, hleft, _, hother⟩ := ends_spec hends
        refine h.ends hended ?_
        by_cases hcurrent : pair.1 = procs.currentTask
        · rw [if_pos hcurrent] at hleft
          exact .inl hleft
        · rw [if_neg hcurrent] at hleft
          exact .inr ⟨(hother hcurrent).2.2.2, hleft⟩

/-- A pid finds the live task that has it. -/
theorem PidsDistinct.killTarget_live (h : PidsDistinct procs) (hlive : procs.phase slot = .live) :
    killTarget (procs.tasks slot).pid procs = some slot := by
  have htest : ∀ other, (((procs.tasks other).pid == (procs.tasks slot).pid) &&
      (procs.tasks other).state != .dead) = true → other = slot := by
    intro other hother
    simp only [Bool.and_eq_true, beq_iff_eq, bne_iff_ne, ne_eq] at hother
    have hheld : procs.phase other ≠ .free := mt phase_free_iff.mp hother.2
    exact (h.distinct slot other hlive hheld hother.1.symm).symm
  cases hfound : killTarget (procs.tasks slot).pid procs with
  | none =>
    have hnone := firstSlot_eq_none.mp hfound slot
    have hstate : (procs.tasks slot).state ≠ .dead :=
      mt phase_free_iff.mpr (by rw [hlive]; decide)
    simp [hstate] at hnone
  | some other => rw [htest other (firstSlot_test hfound)]

end Pids

/-- The histories with the events that were sent to a task and polled by it. -/
structure Watch where
  /-- The tables and the calls so far. -/
  history : History
  /-- What was sent and what was polled. -/
  traffic : Traffic Event

/-- The task of a slot, as a watch sees it. -/
def Watch.task (watch : Watch) (slot : Slot) : Task := watch.history.procs.tasks slot

/-- A watch that starts now. -/
def Watch.start (history : History) : Watch := ⟨history, ⟨[], []⟩⟩

/-- What a call adds to the events of the task of a slot: one that it was sent with success, or
one that it polled. -/
def trafficAfter (slot : Slot) (call : TaskCall) (procs : Processes) (traffic : Traffic Event) :
    Traffic Event :=
  match call with
  | .send target eventType payloadHash ticks =>
    if target = (procs.tasks slot).pid ∧ (call.exec procs).1 = 0
    then traffic.insert (sentEvent eventType payloadHash ticks procs) else traffic
  | .poll _ =>
    match (call.exec procs).2.1 with
    | some event => if procs.currentTask = slot then traffic.remove event else traffic
    | none => traffic
  | .table _ | .allocFd .. | .freeFd .. => traffic

/-- A watch after a call. -/
def Watch.after (slot : Slot) (call : TaskCall) (watch : Watch) : Watch where
  history := watch.history.after call
  traffic := trafficAfter slot call watch.history.procs watch.traffic

/-- A send to the task of a slot or a poll by it. -/
def Concerns (slot : Slot) (procs : Processes) : TaskCall → Prop
  | .send target _ _ _ => target = (procs.tasks slot).pid
  | .poll _ => procs.currentTask = slot
  | .table _ | .allocFd .. | .freeFd .. => False

/-- The events sent to a task have types below 2^31. -/
def TypesBelow (slot : Slot) (call : TaskCall) (watch : Watch) : Prop :=
  match call with
  | .send target eventType _ _ => target = (watch.task slot).pid → eventType < 0x80000000
  | .table _ | .poll _ | .allocFd .. | .freeFd .. => True

/-- What the queue of a task owes after a call. -/
structure QueueCall (slot : Slot) (call : TaskCall) (watch : Watch) : Prop where
  /-- What it was sent, it has polled in that order or still holds. -/
  fits : (watch.after slot call).traffic.Fits ((watch.after slot call).task slot).queue
  /-- It never holds more than 15 events. -/
  bounded : ((watch.after slot call).task slot).queue.contents.length ≤ 15
  /-- A call that returns -1 leaves what it holds. -/
  refused : Concerns slot watch.history.procs call → (call.exec watch.history.procs).1 = -1 →
    ((watch.after slot call).task slot).queue.contents = (watch.task slot).queue.contents
  /-- The flag tells whether it holds an event. -/
  pending : Concerns slot watch.history.procs call →
    (((watch.after slot call).task slot).eventPending = true ↔
      ((watch.after slot call).task slot).queue.contents ≠ [])

/-- The states in which the watch over the task of a slot starts: the boot for its two tasks,
and the return of the call that creates the task for every other one. -/
inductive Starts (boot : History) (slot : Slot) : History → Prop where
  | boot : slot = 0 ∨ slot = 1 → Starts boot slot boot
  | created (before : List TaskCall) (call : TaskCall) :
      newTask call (runSteps History.after before boot).procs = some slot →
        Starts boot slot (runSteps History.after (before ++ [call]) boot)

/-- What holds while the task of a slot is watched. -/
structure WatchInv (slot : Slot) (watch : Watch) : Prop where
  /-- The law of the slots. -/
  kept : watch.history.Kept
  /-- The law of the pids. -/
  pids : PidsDistinct watch.history.procs
  /-- The queue holds what was sent and not polled. -/
  fits : watch.traffic.Fits (watch.task slot).queue
  /-- The types of the events are not negative. -/
  types : ∀ event ∈ watch.traffic.inserted, event.eventType < 0x80000000

section OtherCalls

variable {procs : Processes} {slot : Slot}

/-- A task that is kept, in its slot. -/
theorem setTask_keeps {task : Task} (h : TaskKept (procs.tasks slot) task) :
    Keeps procs (procs.setTask slot task) := by
  refine ⟨fun other => ?_, rfl, rfl, .inl rfl, rfl⟩
  by_cases hne : other = slot
  · rw [hne, setTask_tasks_self]
    exact h
  · exact setTask_kept hne

/-- The calls on queues and descriptors keep all tasks. -/
theorem taskCall_keeps (call : TaskCall) (procs : Processes) :
    (∃ op, call = .table op) ∨ Keeps procs (call.after procs) := by
  cases call with
  | table op => exact .inl ⟨op, rfl⟩
  | send target eventType payloadHash ticks =>
    refine .inr ?_
    show Keeps procs (processEventSend target eventType payloadHash ticks procs).2
    unfold processEventSend
    cases killTarget target procs with
    | none => exact Keeps.refl procs
    | some slot =>
      dsimp only
      split_ifs with hfull
      · exact Keeps.refl procs
      · exact setTask_keeps ⟨rfl, rfl, rfl, rfl⟩
  | poll mask =>
    refine .inr ?_
    show Keeps procs (processEventPoll mask procs).2.2
    rw [processEventPoll]
    dsimp only
    by_cases hempty : procs.current.eventTail = procs.current.eventHead
    · rw [if_pos hempty]
      exact setTask_keeps ⟨rfl, rfl, rfl, rfl⟩
    · rw [if_neg hempty]
      split
      · exact Keeps.refl procs
      · exact setTask_keeps ⟨rfl, rfl, rfl, rfl⟩
  | allocFd pid type ref =>
    refine .inr ?_
    show Keeps procs (procAllocFd pid type ref procs).2
    unfold procAllocFd
    cases pidSlot pid procs with
    | none => exact Keeps.refl procs
    | some slot =>
      dsimp only
      cases closedFd (procs.tasks slot) with
      | none => exact Keeps.refl procs
      | some fd => exact setTask_keeps ⟨rfl, rfl, rfl, rfl⟩
  | freeFd pid fd =>
    refine .inr ?_
    show Keeps procs (procFreeFd pid fd procs)
    unfold procFreeFd
    cases pidSlot pid procs with
    | none => exact Keeps.refl procs
    | some slot =>
      cases fdIndex fd with
      | none => exact Keeps.refl procs
      | some fd => exact setTask_keeps ⟨rfl, rfl, rfl, rfl⟩

/-- Every call keeps the pids distinct. -/
theorem PidsDistinct.after (h : PidsDistinct procs) (call : TaskCall) :
    PidsDistinct (call.after procs) := by
  rcases taskCall_keeps call procs with ⟨op, hop⟩ | hkeeps
  · rw [hop]
    exact h.operation op
  · exact h.keeps hkeeps

/-- The queue is one of the belongings. -/
theorem queue_of_belongings {task task' : Task} (h : task'.belongings = task.belongings) :
    task'.queue = task.queue := by
  simp only [Task.belongings, Prod.mk.injEq] at h
  rw [Task.queue, Task.queue, h.2.1, h.2.2.1, h.2.2.2.1]

/-- A send to another task leaves the task of a slot. -/
theorem processEventSend_other {target : ℤ} (h : target ≠ (procs.tasks slot).pid)
    (eventType payloadHash ticks : UInt32) :
    (processEventSend target eventType payloadHash ticks procs).2.tasks slot =
      procs.tasks slot := by
  unfold processEventSend
  cases htarget : killTarget target procs with
  | none => rfl
  | some other =>
    have htest := firstSlot_test htarget
    simp only [Bool.and_eq_true, beq_iff_eq] at htest
    have hne : slot ≠ other := by
      intro heq
      rw [heq] at h
      exact h htest.1.symm
    dsimp only
    split_ifs with hfull
    · rfl
    · exact setTask_tasks_of_ne hne

/-- A poll by another task leaves the task of a slot. -/
theorem processEventPoll_other (h : procs.currentTask ≠ slot) (mask : UInt32) :
    (processEventPoll mask procs).2.2.tasks slot = procs.tasks slot := by
  rw [processEventPoll]
  dsimp only
  by_cases hempty : procs.current.eventTail = procs.current.eventHead
  · rw [if_pos hempty]
    exact setTask_tasks_of_ne h.symm
  · rw [if_neg hempty]
    split
    · rfl
    · exact setTask_tasks_of_ne h.symm

/-- The change of a descriptor leaves the queues. -/
theorem setFd_queue (task : Task) (other : Slot) (fd : Fin maxFds) (entry : FdEntry)
    (h : task = procs.tasks slot) :
    ((procs.setTask slot (task.setFd fd entry)).tasks other).queue =
      (procs.tasks other).queue := by
  by_cases hne : other = slot
  · rw [hne, setTask_tasks_self, h]
    rfl
  · rw [setTask_tasks_of_ne hne]

/-- proc_alloc_fd leaves the queues. -/
theorem procAllocFd_queue (pid type ref : ℤ) (other : Slot) :
    ((procAllocFd pid type ref procs).2.tasks other).queue = (procs.tasks other).queue := by
  unfold procAllocFd
  cases pidSlot pid procs with
  | none => rfl
  | some slot =>
    dsimp only
    cases closedFd (procs.tasks slot) with
    | none => rfl
    | some fd => exact setFd_queue _ other fd _ rfl

/-- proc_free_fd leaves the queues. -/
theorem procFreeFd_queue (pid fd : ℤ) (other : Slot) :
    ((procFreeFd pid fd procs).tasks other).queue = (procs.tasks other).queue := by
  unfold procFreeFd
  cases pidSlot pid procs with
  | none => rfl
  | some slot =>
    cases fdIndex fd with
    | none => rfl
    | some fd => exact setFd_queue _ other fd _ rfl

end OtherCalls

section Watching

variable {slot : Slot} {watch : Watch} {procs : Processes}

/-- An event type below 2^31 is no error. -/
theorem toInt32_ne {eventType : UInt32} (h : eventType < 0x80000000) :
    eventType.toInt32.toInt ≠ -1 := by
  have hlt : eventType.toNat < 2 ^ 31 := h
  have hint : eventType.toInt32.toInt = eventType.toNat := by
    show eventType.toBitVec.toInt = _
    rw [BitVec.toInt_eq_toNat_of_lt (by simpa using by omega)]
    rfl
  omega

/-- A call that leaves the queue of the task. -/
theorem WatchInv.queueCall {call : TaskCall} (h : WatchInv slot watch)
    (hqueue : ((watch.after slot call).task slot).queue = (watch.task slot).queue)
    (htraffic : (watch.after slot call).traffic = watch.traffic) :
    QueueCall slot call watch where
  fits := by
    rw [htraffic, hqueue]
    exact h.fits
  bounded := by
    have hlt := ((watch.after slot call).task slot).queue.size_lt
    rw [Ring.length_contents]
    exact Nat.le_of_lt_succ hlt
  refused _ _ := by rw [hqueue]
  pending _ := by
    have hpending := ((h.kept.after call) slot).queue.pending
    rw [ne_eq, Ring.contents_eq_nil_iff]
    exact hpending

/-- A call after which the watch has the traffic and the queue that it had. -/
theorem WatchInv.same {call : TaskCall} (h : WatchInv slot watch)
    (hqueue : ((watch.after slot call).task slot).queue = (watch.task slot).queue)
    (htraffic : (watch.after slot call).traffic = watch.traffic) :
    WatchInv slot (watch.after slot call) ∧ QueueCall slot call watch := by
  refine ⟨⟨h.kept.after call, h.pids.after call, ?_, ?_⟩, h.queueCall hqueue htraffic⟩
  · rw [htraffic, hqueue]
    exact h.fits
  · rw [htraffic]
    exact h.types

/-- A call after which what the task was sent has been polled or is still there. -/
theorem WatchInv.moved {call : TaskCall} (h : WatchInv slot watch)
    (hfits : (watch.after slot call).traffic.Fits ((watch.after slot call).task slot).queue)
    (htypes : ∀ event ∈ (watch.after slot call).traffic.inserted, event.eventType < 0x80000000)
    (hdone : (call.exec watch.history.procs).1 ≠ -1) :
    WatchInv slot (watch.after slot call) ∧ QueueCall slot call watch := by
  have hsound := ((h.kept.after call) slot).queue
  have hlt := ((watch.after slot call).task slot).queue.size_lt
  refine ⟨⟨h.kept.after call, h.pids.after call, hfits, htypes⟩, hfits, ?_,
    fun _ hrefused => absurd hrefused hdone, fun _ => ?_⟩
  · rw [Ring.length_contents]
    exact Nat.le_of_lt_succ hlt
  · rw [ne_eq, Ring.contents_eq_nil_iff]
    exact hsound.pending

/-- A send to a live task. -/
theorem WatchInv.send {target : ℤ} {eventType payloadHash ticks : UInt32}
    (h : WatchInv slot watch) (hlive : watch.history.procs.phase slot = .live)
    (htypes : TypesBelow slot (.send target eventType payloadHash ticks) watch) :
    WatchInv slot (watch.after slot (.send target eventType payloadHash ticks)) ∧
      QueueCall slot (.send target eventType payloadHash ticks) watch := by
  by_cases hself : target = (watch.history.procs.tasks slot).pid
  · have htarget : killTarget target watch.history.procs = some slot := by
      rw [hself]
      exact h.pids.killTarget_live hlive
    have hqueue := (h.kept slot).queue
    by_cases hfull : (watch.history.procs.tasks slot).queue.Full
    · have hresult := processEventSend_full htarget hqueue hfull eventType payloadHash ticks
      refine h.same ?_ (if_neg fun hboth => ?_)
      · show ((processEventSend target eventType payloadHash ticks _).2.tasks slot).queue = _
        rw [hresult]
        rfl
      · have hcode : (processEventSend target eventType payloadHash ticks _).1 = -1 :=
          congrArg Prod.fst hresult
        have hzero : (-1 : ℤ) = 0 := hcode.symm.trans hboth.2
        omega
    · have hresult := processEventSend_room htarget hqueue hfull eventType payloadHash ticks
      have htraffic : (watch.after slot (.send target eventType payloadHash ticks)).traffic =
          watch.traffic.insert
            (sentEvent eventType payloadHash ticks watch.history.procs) :=
        if_pos ⟨hself, congrArg Prod.fst hresult⟩
      have hpushed : ((watch.after slot (.send target eventType payloadHash ticks)).task slot).queue
          = (watch.task slot).queue.push
            (sentEvent eventType payloadHash ticks watch.history.procs) := by
        show ((processEventSend target eventType payloadHash ticks _).2.tasks slot).queue = _
        rw [hresult, setTask_tasks_self, queue_receive]
        rfl
      refine h.moved ?_ ?_ ?_
      · rw [htraffic, hpushed]
        exact h.fits.push _ hfull
      · rw [htraffic]
        intro event hin
        rcases List.mem_append.mp hin with hold | hnew
        · exact h.types event hold
        · rw [List.mem_singleton.mp hnew]
          exact htypes hself
      · show (processEventSend target eventType payloadHash ticks _).1 ≠ -1
        rw [hresult]
        show (0 : ℤ) ≠ -1
        decide
  · refine h.same ?_ (if_neg fun hboth => hself hboth.1)
    exact congrArg Task.queue (processEventSend_other hself eventType payloadHash ticks)

/-- A poll. -/
theorem WatchInv.poll {mask : UInt32} (h : WatchInv slot watch) :
    WatchInv slot (watch.after slot (.poll mask)) ∧ QueueCall slot (.poll mask) watch := by
  by_cases hself : watch.history.procs.currentTask = slot
  · have hqueue : QueueSound watch.history.procs.current := (h.kept _).queue
    have hsame : watch.history.procs.current = watch.task slot := congrArg _ hself
    have hrefused : processEventPoll mask watch.history.procs =
        (-1, none, watch.history.procs) →
        WatchInv slot (watch.after slot (.poll mask)) ∧ QueueCall slot (.poll mask) watch := by
      intro hresult
      refine h.same ?_ ?_
      · show ((processEventPoll mask _).2.2.tasks slot).queue = _
        rw [hresult]
        rfl
      · show (match (processEventPoll mask _).2.1 with | some event => _ | none => _) = _
        rw [hresult]
    by_cases hempty : watch.history.procs.current.queue.Empty
    · exact hrefused (processEventPoll_empty hqueue hempty mask)
    · by_cases hmask : mask ≠ 0 ∧ watch.history.procs.current.queue.front.eventType &&& mask = 0
      · exact hrefused (processEventPoll_masked hqueue hempty hmask)
      · have hresult := processEventPoll_takes hqueue hempty hmask
        have htraffic : (watch.after slot (.poll mask)).traffic =
            watch.traffic.remove (watch.task slot).queue.front := by
          show (match (processEventPoll mask _).2.1 with | some event => _ | none => _) = _
          rw [hresult]
          dsimp only
          rw [if_pos hself, hsame]
        have hpopped : ((watch.after slot (.poll mask)).task slot).queue =
            (watch.task slot).queue.pop := by
          show ((processEventPoll mask _).2.2.tasks slot).queue = _
          rw [hresult, hself, setTask_tasks_self, queue_consume, hsame]
        rw [hsame] at hempty
        have hfits := h.fits
        refine h.moved ?_ ?_ ?_
        · rw [htraffic, hpopped]
          exact hfits.pop hempty
        · rw [htraffic]
          exact h.types
        · have hfront : (watch.task slot).queue.front ∈ watch.traffic.inserted := by
            rw [← hfits, Ring.contents_pop hempty]
            simp
          show (processEventPoll mask _).1 ≠ -1
          rw [hresult, hsame]
          exact toInt32_ne (h.types _ hfront)
  · refine h.same (congrArg Task.queue (processEventPoll_other hself mask)) ?_
    show (match (processEventPoll mask _).2.1 with | some event => _ | none => _) = _
    cases (processEventPoll mask watch.history.procs).2.1 with
    | none => rfl
    | some event => exact if_neg hself

/-- Every call while the task is live. -/
theorem WatchInv.step {call : TaskCall} (h : WatchInv slot watch)
    (hlive : watch.history.procs.phase slot = .live) (htypes : TypesBelow slot call watch) :
    WatchInv slot (watch.after slot call) ∧ QueueCall slot call watch := by
  cases call with
  | table op => exact h.same (queue_of_belongings (operation_belongings op _ slot)) rfl
  | send target eventType payloadHash ticks => exact h.send hlive htypes
  | poll mask => exact h.poll
  | allocFd pid type ref => exact h.same (procAllocFd_queue pid type ref slot) rfl
  | freeFd pid fd => exact h.same (procFreeFd_queue pid fd slot) rfl

end Watching

/-- The slots are as their histories say and the pids are distinct. -/
def History.Sound (history : History) : Prop := history.Kept ∧ PidsDistinct history.procs

/-- Every call keeps both. -/
theorem History.Sound.after {history : History} (h : history.Sound) (call : TaskCall) :
    (history.after call).Sound :=
  ⟨h.1.after call, h.2.after call⟩

/-- A call while the task of a slot is live, with event types below 2^31. -/
def LiveCall (slot : Slot) (call : TaskCall) (watch : Watch) : Prop :=
  watch.history.procs.live slot = true ∧ TypesBelow slot call watch

/-- What the queue of a task owes from its creation on, over some calls. -/
def QueueExact (slot : Slot) (calls : List TaskCall) (watch : Watch) : Prop :=
  watch.traffic.Fits (watch.task slot).queue ∧
    EveryStep (Watch.after slot) (QueueCall slot) calls watch

section Lives

variable {procs : Processes} {slot : Slot} {history : History}

/-- No task has a pid after proc_init. -/
theorem procInit_pidsDistinct (hboot : procs.nextPid = 1) : PidsDistinct (procInit procs) where
  nextPos := by
    show 0 < procs.nextPid
    omega
  positive slot hlive := absurd hlive Phase.noConfusion
  fresh slot hheld := absurd rfl hheld
  distinct a _ ha := absurd ha Phase.noConfusion

/-- The two tasks of the boot have their own pids. -/
theorem bootTasks_pidsDistinct (kernelPageDir userEntry shellEntry : UInt32)
    (hboot : procs.nextPid = 1) :
    PidsDistinct (bootTasks kernelPageDir userEntry shellEntry procs) := by
  have ⟨first, second, _, _, hfirst, hsecond, hspec⟩ :=
    bootTasks_spec kernelPageDir userEntry shellEntry hboot
  have hpids := ((procInit_pidsDistinct hboot).adds hfirst).adds hsecond
  have hkeeps : Keeps second (second.setTask 1 { second.tasks 1 with state := .running }) :=
    setTask_keeps ⟨rfl, rfl, rfl, hsecond.phase.symm⟩
  have hrunning := hpids.keeps hkeeps
  rw [hspec]
  exact ⟨hrunning.nextPos, hrunning.positive, hrunning.fresh, hrunning.distinct⟩

/-- The state in which a watch starts is one of a run. -/
theorem Starts.sound {boot : History} (h : Starts boot slot history) (hboot : boot.Sound) :
    history.Sound := by
  cases h with
  | boot => exact hboot
  | created before call _ =>
    exact @invariant_runSteps TaskCall History History.after History.Sound
      (fun call _ hold => hold.after call) (before ++ [call]) boot hboot

/-- From the creation of a task on, while it is live and over any order of calls, the events that
it polls are those that it was sent with success, in that order and each once; its queue holds
at most 15, calls that return -1 leave it, and the flag tells whether it is empty. All of this
holds exactly when no event was left unread in the slot by its earlier tasks. -/
theorem queueExact_iff (kernelPageDir userEntry shellEntry : UInt32) (hboot : procs.nextPid = 1)
    (hstart : Starts (History.boot kernelPageDir userEntry shellEntry procs) slot history)
    (calls : List TaskCall)
    (hcalls : EveryStep (Watch.after slot) (LiveCall slot) calls (Watch.start history)) :
    QueueExact slot calls (Watch.start history) ↔ (history.slots slot).unread = 0 := by
  have ⟨hkept, hpids⟩ := hstart.sound
    ⟨History.boot_kept kernelPageDir userEntry shellEntry procs,
      bootTasks_pidsDistinct kernelPageDir userEntry shellEntry hboot⟩
  have hunread := (hkept slot).unread
  constructor
  · intro hexact
    have hnone : (history.procs.tasks slot).queue.contents = [] := hexact.1
    rw [← hunread, Ring.size_eq_zero_iff]
    exact Ring.contents_eq_nil_iff.mp hnone
  · intro hzero
    have hempty : (history.procs.tasks slot).queue.Empty :=
      Ring.size_eq_zero_iff.mp (hunread.trans hzero)
    have hfits : Traffic.Fits ⟨[], []⟩ (history.procs.tasks slot).queue :=
      Traffic.fits_start hempty
    have hinv : WatchInv slot (Watch.start history) :=
      ⟨hkept, hpids, hfits, fun _ hin => absurd hin List.not_mem_nil⟩
    have hphase : ∀ watch : Watch, watch.history.procs.live slot = true →
        watch.history.procs.phase slot = .live := by
      intro watch hlive
      rw [live_eq] at hlive
      simpa using hlive
    refine ⟨hfits, hcalls.imp_of_invariant (fun call watch hold hcall => ?_)
      (fun call watch hold hcall => ?_) hinv⟩
    · exact (hold.step (hphase watch hcall.1) hcall.2).1
    · exact (hold.step (hphase watch hcall.1) hcall.2).2

end Lives

/-- The boot of the test system. -/
def testBoot : History := History.boot 0x1000 0x11000 0x12000 zeroProcesses

/-- The first task of the boot is sent an event and polls it. -/
theorem queueExact_iff_bootTask :
    QueueExact 0 [.send 1 7 9 5, .table (.schedule 0x9000), .poll 0] (Watch.start testBoot) ↔
      (testBoot.slots 0).unread = 0 :=
  queueExact_iff 0x1000 0x11000 0x12000 rfl (.boot (.inl rfl)) _
    ⟨⟨by decide +kernel, fun _ => by decide⟩, ⟨by decide +kernel, trivial⟩,
      ⟨by decide +kernel, trivial⟩, trivial⟩

/-- A task in the slot of one that was killed with an event in its queue polls an event that it
was never sent. -/
theorem queueExact_stale : ∃ history calls, Starts testBoot 0 history ∧
    EveryStep (Watch.after 0) (LiveCall 0) calls (Watch.start history) ∧
    (runSteps (Watch.after 0) calls (Watch.start history)).traffic.inserted.length = 0 ∧
    (runSteps (Watch.after 0) calls (Watch.start history)).traffic.removed.length = 1 ∧
    ¬QueueExact 0 calls (Watch.start history) := by
  refine ⟨_, [.table (.schedule 0x9000), .poll 0],
    .created [.send 1 1 0 0, .table (.kill 1), .table .reapZombies]
      (.table (.create 0x1000 0x13000 taskName 1)) (by decide +kernel),
    ⟨⟨by decide +kernel, trivial⟩, ⟨by decide +kernel, trivial⟩, trivial⟩,
    by decide +kernel, by decide +kernel, fun hexact => ?_⟩
  have hlength := congrArg List.length hexact.2.2.1.fits
  exact absurd hlength (by decide +kernel)

end HexaOS.Process
