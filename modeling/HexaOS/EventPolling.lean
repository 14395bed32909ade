import HexaOS.EventQueues

/-!
# Waiting for an event

sys_event_poll of syscall.c. The call polls the queue of its task turn by turn, and other tasks
run in between. A turn looks at the oldest event only, and takes an event type from 2^31 on for
an error, so that the queue is served as it should be exactly when the oldest event is one that
the call waits for, or none is.
-/

namespace HexaOS.Process

open HexaOS.RingBuffers HexaOS.StepRuns

/-- EVENT_TERMINATE -/
def eventTerminate : UInt32 := 1

/-- How a turn of the loop of sys_event_poll ends. -/
inductive TurnEnd where
  /-- The loop goes on. -/
  | again
  /-- The call returns. -/
  | returns (ret : ℤ)
  /-- proc_exit has ended the task. -/
  | exits
  deriving DecidableEq

/-- What happens behind the poll of a turn. -/
structure Pause where
  /-- system_ticks, where the turn looks at it -/
  ticks : UInt32
  /-- What other tasks do until the next turn. -/
  calls : List TaskCall

/-- A turn of the loop of sys_event_poll, which began at a number of ticks. -/
def sysEventPollTurn (mask timeoutTicks start ticks : UInt32) (procs : Processes) :
    TurnEnd × Processes :=
  let (ret, event, polled) := processEventPoll mask procs
  if ret ≥ 0 then
    if event.map Event.eventType = some eventTerminate then (.exits, procExit 0 polled)
    else (.returns ret, polled)
  else if timeoutTicks > 0 ∧ ticks - start ≥ timeoutTicks then (.returns 0, polled)
  else (.again, polled)

/-- A property of the turns of a call of sys_event_poll, while the loop goes on. -/
def EveryTurn (mask timeoutTicks start : UInt32) (property : Pause → Processes → Prop) :
    List Pause → Processes → Prop
  | [], _ => True
  | pause :: pauses, procs =>
    let turn := sysEventPollTurn mask timeoutTicks start pause.ticks procs
    property pause procs ∧
      (turn.1 = .again → EveryTurn mask timeoutTicks start property pauses
        (runSteps TaskCall.after pause.calls turn.2))

/-- The events that wait for the task of a slot, oldest first. -/
def Processes.events (procs : Processes) (slot : Slot) : List Event :=
  (procs.tasks slot).queue.contents

/-- An event that a mask lets through. -/
def Matches (mask : UInt32) (event : Event) : Prop := mask = 0 ∨ event.eventType &&& mask ≠ 0

instance (mask : UInt32) (event : Event) : Decidable (Matches mask event) :=
  inferInstanceAs (Decidable (_ ∨ _))

/-- How a turn hands an event over to its task. -/
def handedOver (event : Event) : TurnEnd :=
  if event.eventType = eventTerminate then .exits else .returns event.eventType.toNat

/-- What a turn owes to the queue of its task. -/
structure Serves (mask timeoutTicks start : UInt32) (pause : Pause) (procs : Processes) :
    Prop where
  /-- The earliest event that matches is removed, and handed over. -/
  earliest : ∀ before event rest, procs.events procs.currentTask = before ++ event :: rest →
    (∀ earlier ∈ before, ¬Matches mask earlier) → Matches mask event →
      (sysEventPollTurn mask timeoutTicks start pause.ticks procs).2.events procs.currentTask =
          before ++ rest ∧
        (sysEventPollTurn mask timeoutTicks start pause.ticks procs).1 = handedOver event
  /-- An event that is removed is handed over. -/
  removed : (sysEventPollTurn mask timeoutTicks start pause.ticks procs).2.events
      procs.currentTask = procs.events procs.currentTask ∨
    ∃ before event rest, procs.events procs.currentTask = before ++ event :: rest ∧
      (sysEventPollTurn mask timeoutTicks start pause.ticks procs).2.events procs.currentTask =
          before ++ rest ∧
        (sysEventPollTurn mask timeoutTicks start pause.ticks procs).1 = handedOver event

/-- No event of the queue matches, or the oldest does and has a type below 2^31. -/
def Served (mask : UInt32) (procs : Processes) : Prop :=
  (∀ event ∈ procs.events procs.currentTask, ¬Matches mask event) ∨
    ∃ event rest, procs.events procs.currentTask = event :: rest ∧ Matches mask event ∧
      event.eventType < 0x80000000

section Turns

variable {mask : UInt32} {procs : Processes} {event : Event} {rest : List Event}

/-- A type below 2^31 is returned as it is. -/
theorem toInt32_toInt {word : UInt32} (h : word < 0x80000000) :
    word.toInt32.toInt = word.toNat := by
  have hlt : word.toNat < 2 ^ 31 := h
  show word.toBitVec.toInt = _
  rw [BitVec.toInt_eq_toNat_of_lt (by simpa using by omega)]
  rfl

/-- A type from 2^31 on is negative. -/
theorem toInt32_neg {word : UInt32} (h : ¬word < 0x80000000) : word.toInt32.toInt < 0 := by
  have hge : 2 ^ 31 ≤ word.toNat := Nat.le_of_not_lt h
  have hlt := word.toNat_lt
  show word.toBitVec.toInt < 0
  rw [BitVec.toInt_eq_toNat_bmod, UInt32.toNat_toBitVec, Int.bmod_def]
  omega

/-- A turn that finds no event, or an oldest one that does not match, removes nothing and
hands nothing over. -/
theorem sysEventPollTurn_waits (timeoutTicks start ticks : UInt32)
    (hpoll : processEventPoll mask procs = (-1, none, procs)) :
    (sysEventPollTurn mask timeoutTicks start ticks procs).2 = procs ∧
      ((sysEventPollTurn mask timeoutTicks start ticks procs).1 = .again ∨
        (sysEventPollTurn mask timeoutTicks start ticks procs).1 = .returns 0) := by
  rw [sysEventPollTurn, hpoll]
  dsimp only
  rw [if_neg (by decide)]
  split
  · exact ⟨rfl, .inr rfl⟩
  · exact ⟨rfl, .inl rfl⟩

/-- The mask lets an event through unless it shares no bit with it. -/
theorem not_matches_iff : ¬Matches mask event ↔ mask ≠ 0 ∧ event.eventType &&& mask = 0 := by
  rw [Matches, not_or, ne_eq, not_not]

/-- A turn that finds a matching event in front takes it. It is handed over if its type is
below 2^31, and lost otherwise. -/
theorem sysEventPollTurn_takes (timeoutTicks start ticks : UInt32)
    (hsound : QueueSound procs.current)
    (hevents : procs.events procs.currentTask = event :: rest) (hmatches : Matches mask event) :
    (sysEventPollTurn mask timeoutTicks start ticks procs).2.events procs.currentTask = rest ∧
      ((sysEventPollTurn mask timeoutTicks start ticks procs).1 = handedOver event ↔
        event.eventType < 0x80000000) := by
  have hsome : ¬procs.current.queue.Empty := by
    intro hempty
    have hnil : procs.events procs.currentTask = [] := Ring.contents_eq_nil_iff.mpr hempty
    rw [hnil] at hevents
    cases hevents
  have hcontents := Ring.contents_pop hsome
  have hlist : procs.current.queue.front :: procs.current.queue.pop.contents = event :: rest :=
    hcontents.symm.trans hevents
  have ⟨hfront, hpop⟩ := List.cons.inj hlist
  have hpoll := processEventPoll_takes hsound hsome
    (by rw [hfront, ← not_matches_iff]; exact not_not_intro hmatches)
  have hpolled : (procs.setTask procs.currentTask procs.current.consume).events
      procs.currentTask = rest := by
    rw [Processes.events, setTask_tasks_self, queue_consume, hpop]
  rw [hfront] at hpoll
  rw [sysEventPollTurn, hpoll]
  dsimp only
  by_cases hsmall : event.eventType < 0x80000000
  · have hint := toInt32_toInt hsmall
    rw [if_pos (by omega), handedOver]
    simp only [Option.map_some, Option.some.injEq]
    by_cases hterminate : event.eventType = eventTerminate
    · rw [if_pos hterminate, if_pos hterminate]
      refine ⟨?_, iff_of_true rfl hsmall⟩
      have hkept := queue_of_belongings (procExit_belongings 0
        (procs.setTask procs.currentTask procs.current.consume) procs.currentTask)
      rw [Processes.events, hkept]
      exact hpolled
    · rw [if_neg hterminate, if_neg hterminate, hint]
      exact ⟨hpolled, iff_of_true rfl hsmall⟩
  · -- the negative type is taken for an error, so that the event is neither returned nor kept
    have hneg := toInt32_neg hsmall
    have hlarge : 2 ^ 31 ≤ event.eventType.toNat := Nat.le_of_not_lt hsmall
    have hnot : event.eventType ≠ eventTerminate := by
      intro heq
      rw [heq] at hsmall
      exact hsmall (by decide)
    rw [if_neg (by omega), handedOver, if_neg hnot]
    split
    · refine ⟨hpolled, iff_of_false (fun heq => ?_) hsmall⟩
      have hzero := TurnEnd.returns.inj heq
      omega
    · exact ⟨hpolled, iff_of_false (fun heq => by cases heq) hsmall⟩

/-- An event that is handed over ends the call. -/
theorem handedOver_ne_again (event : Event) : handedOver event ≠ .again := by
  rw [handedOver]
  split_ifs
  · exact TurnEnd.noConfusion
  · exact TurnEnd.noConfusion

/-- A list with a matching event has an earliest one. -/
theorem exists_earliest {events : List Event} (hin : event ∈ events)
    (hmatches : Matches mask event) : ∃ before first rest, events = before ++ first :: rest ∧
      (∀ earlier ∈ before, ¬Matches mask earlier) ∧ Matches mask first := by
  induction events with
  | nil => exact absurd hin List.not_mem_nil
  | cons head tail ih =>
    by_cases hhead : Matches mask head
    · exact ⟨[], head, tail, rfl, fun _ hin => absurd hin List.not_mem_nil, hhead⟩
    · have htail : event ∈ tail := by
        rcases List.mem_cons.mp hin with heq | htail
        · exact absurd (heq ▸ hmatches) hhead
        · exact htail
      have ⟨before, first, rest, hlist, hbefore, hfirst⟩ := ih htail
      refine ⟨head :: before, first, rest, by rw [hlist, List.cons_append], ?_, hfirst⟩
      intro earlier hearlier
      rcases List.mem_cons.mp hearlier with heq | hold
      · rw [heq]
        exact hhead
      · exact hbefore earlier hold

/-- A turn serves the queue exactly if no event matches or the oldest does, with a type below
2^31. -/
theorem serves_iff (timeoutTicks start : UInt32) (hsound : QueueSound procs.current)
    (pause : Pause) :
    Serves mask timeoutTicks start pause procs ↔ Served mask procs := by
  cases hevents : procs.events procs.currentTask with
  | nil =>
    have hempty : procs.current.queue.Empty := Ring.contents_eq_nil_iff.mp hevents
    have hwaits := sysEventPollTurn_waits timeoutTicks start pause.ticks
      (processEventPoll_empty hsound hempty mask)
    refine iff_of_true ⟨fun before event rest hlist => ?_, .inl (by rw [hwaits.1])⟩ (.inl ?_)
    · rw [hevents] at hlist
      exact absurd hlist (by simp)
    · rw [hevents]
      exact fun event hin => absurd hin List.not_mem_nil
  | cons event rest =>
    by_cases hmatches : Matches mask event
    · have ⟨hafter, hover⟩ := sysEventPollTurn_takes timeoutTicks start pause.ticks hsound
        hevents hmatches
      constructor
      · intro hserves
        have hfirst := hserves.earliest [] event rest hevents
          (fun _ hin => absurd hin List.not_mem_nil) hmatches
        exact .inr ⟨event, rest, hevents, hmatches, hover.mp hfirst.2⟩
      · intro hserved
        have hsmall : event.eventType < 0x80000000 := by
          rcases hserved with hnone | ⟨first, others, hlist, _, hsmall⟩
          · rw [hevents] at hnone
            exact absurd hmatches (hnone event List.mem_cons_self)
          · rw [hevents] at hlist
            rwa [(List.cons.inj hlist).1]
        refine ⟨fun before found others hlist hbefore hfound => ?_,
          .inr ⟨[], event, rest, hevents, hafter, hover.mpr hsmall⟩⟩
        rw [hevents] at hlist
        cases before with
        | nil =>
          have ⟨hsame, hothers⟩ := List.cons.inj hlist
          rw [← hsame, ← hothers]
          exact ⟨hafter, hover.mpr hsmall⟩
        | cons earlier before =>
          have ⟨hsame, _⟩ := List.cons.inj hlist
          exact absurd (hsame ▸ hmatches) (hbefore earlier List.mem_cons_self)
    · have hsome : ¬procs.current.queue.Empty := by
        intro hempty
        have hnil : procs.events procs.currentTask = [] := Ring.contents_eq_nil_iff.mpr hempty
        rw [hnil] at hevents
        cases hevents
      have hfront : procs.current.queue.front = event := by
        have hlist := (Ring.contents_pop hsome).symm.trans hevents
        exact (List.cons.inj hlist).1
      have hwaits := sysEventPollTurn_waits timeoutTicks start pause.ticks
        (processEventPoll_masked hsound hsome (by rw [hfront, ← not_matches_iff]; exact hmatches))
      constructor
      · intro hserves
        refine .inl fun found hin hfound => ?_
        have ⟨before, first, others, hlist, hbefore, hfirst⟩ := exists_earliest hin hfound
        have hremoved := (hserves.earliest before first others hlist hbefore hfirst).1
        have hlength := congrArg List.length (hremoved.symm.trans (by rw [hwaits.1, hlist]))
        simp only [List.length_append, List.length_cons] at hlength
        omega
      · rintro (hnone | ⟨first, others, hlist, hfirst, _⟩)
        · refine ⟨fun before found others hlist _ hfound => ?_, .inl (by rw [hwaits.1])⟩
          have hin : found ∈ procs.events procs.currentTask := by
            rw [hlist]
            simp
          exact absurd hfound (hnone found hin)
        · rw [hevents] at hlist
          exact absurd ((List.cons.inj hlist).1 ▸ hfirst) hmatches

end Turns

section Calls

variable {mask timeoutTicks start : UInt32} {procs : Processes}

/-- The slots of the task table are as some histories of them say. -/
def Recorded (procs : Processes) : Prop := ∃ slots, (History.mk procs slots).Kept

/-- Every call keeps the record. -/
theorem Recorded.after (h : Recorded procs) (call : TaskCall) : Recorded (call.after procs) := by
  obtain ⟨slots, hkept⟩ := h
  exact ⟨_, hkept.after call⟩

/-- Calls keep the record. -/
theorem Recorded.runSteps (h : Recorded procs) (calls : List TaskCall) :
    Recorded (runSteps TaskCall.after calls procs) :=
  @invariant_runSteps TaskCall Processes TaskCall.after Recorded
    (fun call _ hold => Recorded.after hold call) calls procs h

/-- A turn keeps the record. -/
theorem Recorded.turn (h : Recorded procs) (ticks : UInt32) :
    Recorded (sysEventPollTurn mask timeoutTicks start ticks procs).2 := by
  have hpolled : Recorded (processEventPoll mask procs).2.2 := h.after (.poll mask)
  rw [sysEventPollTurn]
  dsimp only
  split
  · split
    · exact hpolled.after (.table (.exit 0))
    · exact hpolled
  · split
    · exact hpolled
    · exact hpolled

/-- Two properties of a turn that are the same in recorded states are the same over calls. -/
theorem everyTurn_congr {property property' : Pause → Processes → Prop}
    (hsame : ∀ pause procs, Recorded procs → (property pause procs ↔ property' pause procs))
    (pauses : List Pause) (h : Recorded procs) :
    EveryTurn mask timeoutTicks start property pauses procs ↔
      EveryTurn mask timeoutTicks start property' pauses procs := by
  induction pauses generalizing procs with
  | nil => exact Iff.rfl
  | cons pause pauses ih =>
    refine and_congr (hsame pause procs h) (forall_congr' fun _ => ?_)
    exact ih ((h.turn pause.ticks).runSteps pause.calls)

/-- In every state that calls of process.c reach from the boot, for every mask and whatever
other tasks do meanwhile: the turns of a call of sys_event_poll all serve its queue exactly if
in each of them no event of the queue matches, or the oldest does and has a type below 2^31. -/
theorem sysEventPoll_serves_iff (kernelPageDir userEntry shellEntry : UInt32)
    (boot : Processes) (calls : List TaskCall) (mask timeoutTicks start : UInt32)
    (pauses : List Pause) :
    EveryTurn mask timeoutTicks start (Serves mask timeoutTicks start) pauses
        (runSteps TaskCall.after calls (bootTasks kernelPageDir userEntry shellEntry boot)) ↔
      EveryTurn mask timeoutTicks start (fun _ procs => Served mask procs) pauses
        (runSteps TaskCall.after calls (bootTasks kernelPageDir userEntry shellEntry boot)) := by
  have hboot : Recorded (bootTasks kernelPageDir userEntry shellEntry boot) :=
    ⟨_, History.boot_kept kernelPageDir userEntry shellEntry boot⟩
  refine everyTurn_congr (fun pause procs hrecorded => ?_) pauses (hboot.runSteps calls)
  have ⟨slots, hkept⟩ := hrecorded
  exact serves_iff timeoutTicks start (hkept procs.currentTask).queue pause

/-- Behind an event of another type an event that the call waits for is not found, and an event
with a type from 2^31 on is lost. -/
theorem sysEventPoll_misses :
    ¬EveryTurn 2 0 0 (Serves 2 0 0) [⟨0, []⟩]
        (runSteps TaskCall.after [.send 2 4 0 0, .send 2 2 0 0] testBoot.procs) ∧
      ¬EveryTurn 0 0 0 (Serves 0 0 0) [⟨0, []⟩]
        (runSteps TaskCall.after [.send 2 0x80000000 0 0] testBoot.procs) := by
  constructor
  · intro hall
    have hevents : (runSteps TaskCall.after [.send 2 4 0 0, .send 2 2 0 0] testBoot.procs).events 1 =
        [⟨4, 2, 0, 0, 0⟩] ++ ⟨2, 2, 0, 0, 0⟩ :: [] := rfl
    have hremoved := (hall.1.earliest _ _ _ hevents (by decide) (by decide)).1
    have hlength := congrArg List.length hremoved
    exact absurd hlength (by decide +kernel)
  · intro hall
    have hagain : (sysEventPollTurn 0 0 0 0 (runSteps TaskCall.after [.send 2 0x80000000 0 0]
        testBoot.procs)).1 = .again := by decide +kernel
    rcases hall.1.removed with hkept | ⟨_, event, _, _, _, hover⟩
    · have hlength := congrArg List.length hkept
      exact absurd hlength (by decide +kernel)
    · exact absurd (hover.symm.trans hagain) (handedOver_ne_again event)

end Calls

end HexaOS.Process
