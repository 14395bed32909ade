import HexaOS.ScheduleRotation
import Mathlib.Data.Finset.Max

/-!
# Tasks of several priorities

proc_create takes a priority. The first pass of schedule looks for another task that is not
below the current one, the second pass takes any runnable task. Two tasks of the highest
priority therefore keep all others from the processor, while a single one gives way at every
second call, always to the same task.
-/

namespace HexaOS.Process

variable {procs : Processes} {tasks tasks' : Slot → Task} {cur next : Slot}

/-- No runnable task has a higher priority than this one. -/
def isTop (tasks : Slot → Task) (slot : Slot) : Bool :=
  (tasks slot).state.runnable && decide (∀ other, (tasks other).state.runnable = true →
    (tasks other).priority ≤ (tasks slot).priority)

/-- The tasks of the highest priority in the order of their slots from the one after the current
task on. -/
def topQueue (tasks : Slot → Task) (cur : Slot) : List Slot := (turns cur).filter (isTop tasks)

/-- The first runnable task behind another one. -/
def follower (tasks : Slot → Task) (slot : Slot) : Slot :=
  ((candidates slot).find? fun other => (tasks other).state.runnable).getD slot

/-- The tasks that schedule resumes again and again. -/
def turnOrder (tasks : Slot → Task) (cur : Slot) : List Slot :=
  match topQueue tasks cur with
  | [top] => if top = cur then [follower tasks top, top] else [top, follower tasks top]
  | order => order

section Tops

theorem isTop_iff {slot : Slot} : isTop tasks slot = true ↔ (tasks slot).state.runnable = true ∧
    ∀ other, (tasks other).state.runnable = true →
      (tasks other).priority ≤ (tasks slot).priority := by
  rw [isTop, Bool.and_eq_true, decide_eq_true_eq]

/-- A runnable task that is not of the highest priority is below it. -/
theorem priority_lt_top {slot top : Slot} (htop : isTop tasks top = true)
    (hrunnable : (tasks slot).state.runnable = true) (hnot : isTop tasks slot = false) :
    (tasks slot).priority < (tasks top).priority := by
  have hle := (isTop_iff.mp htop).2 slot hrunnable
  by_contra hge
  have hslot : isTop tasks slot = true := isTop_iff.mpr ⟨hrunnable, fun other hother => by
    have hother' := (isTop_iff.mp htop).2 other hother
    omega⟩
  rw [hslot] at hnot
  cases hnot

/-- Where a task is runnable, one has the highest priority. -/
theorem exists_top {slot : Slot} (h : (tasks slot).state.runnable = true) :
    ∃ top, isTop tasks top = true := by
  obtain ⟨top, htop, hmax⟩ := Finset.exists_max_image
    (Finset.univ.filter fun other => (tasks other).state.runnable = true)
    (fun other => (tasks other).priority) ⟨slot, Finset.mem_filter.mpr ⟨Finset.mem_univ _, h⟩⟩
  refine ⟨top, isTop_iff.mpr ⟨(Finset.mem_filter.mp htop).2, fun other hother => ?_⟩⟩
  exact hmax other (Finset.mem_filter.mpr ⟨Finset.mem_univ _, hother⟩)

theorem mem_topQueue {slot : Slot} : slot ∈ topQueue tasks cur ↔ isTop tasks slot = true := by
  rw [topQueue, List.mem_filter]
  exact and_iff_right (mem_turns cur slot)

/-- The tasks with a property from the first of them on: it moves to the end. -/
theorem filter_turns_of_head {p : Slot → Bool} {rest : List Slot}
    (h : (turns cur).filter p = next :: rest) : (turns next).filter p = rest ++ [next] := by
  obtain ⟨before, after, hsplit, hbefore, hnext, hafter⟩ := List.filter_eq_cons_iff.mp h
  have hnone : before.filter p = [] := List.filter_eq_nil_iff.mpr hbefore
  rw [turns_of_split hsplit, List.filter_append, List.filter_append, hnone, hafter,
    List.filter_singleton, hnext]
  rfl

/-- The order depends on the states and the priorities. -/
theorem isTop_congr (hrunnable : ∀ slot, (tasks' slot).state.runnable = (tasks slot).state.runnable)
    (hpriority : ∀ slot, (tasks' slot).priority = (tasks slot).priority) :
    isTop tasks' = isTop tasks := by
  funext slot
  simp only [isTop, hrunnable, hpriority]

theorem turnOrder_congr
    (hrunnable : ∀ slot, (tasks' slot).state.runnable = (tasks slot).state.runnable)
    (hpriority : ∀ slot, (tasks' slot).priority = (tasks slot).priority) (cur : Slot) :
    turnOrder tasks' cur = turnOrder tasks cur := by
  have hfollower : ∀ slot, follower tasks' slot = follower tasks slot := by
    intro slot
    simp only [follower, hrunnable]
  simp only [turnOrder, topQueue, isTop_congr hrunnable hpriority, hfollower]

end Tops

section Picks

/-- A choice of the highest priority stays. -/
theorem foldl_prefer_top {slots : List Slot} (hne : next ≠ cur) (htop : isTop tasks next = true) :
    slots.foldl (prefer tasks cur) next = next := by
  induction slots with
  | nil => rfl
  | cons slot slots ih =>
    have hkept : prefer tasks cur next slot = next := by
      unfold prefer
      split_ifs with hrunnable hlower hother
      · rfl
      · have hle := (isTop_iff.mp htop).2 slot hrunnable
        rcases hother with heq | hhigher
        · exact absurd heq hne
        · omega
      · rfl
      · rfl
    rw [List.foldl_cons, hkept, ih]

/-- The first pass goes to the first task of the highest priority, if there is another one than
the current task. The choice on the way is the current task or one of a lower priority. -/
theorem foldl_prefer_find {slots : List Slot} {top : Slot}
    (hcur : (tasks cur).state.runnable = true)
    (hslots : cur ∉ slots)
    (hnext : next = cur ∨ (tasks next).state.runnable = true ∧ isTop tasks next = false)
    (hfind : slots.find? (isTop tasks) = some top) :
    slots.foldl (prefer tasks cur) next = top := by
  induction slots generalizing next with
  | nil => cases hfind
  | cons slot slots ih =>
    have htop : isTop tasks top = true := List.find?_some hfind
    have hrest : cur ∉ slots := fun hmem => hslots (List.mem_cons_of_mem _ hmem)
    have hne : slot ≠ cur := fun heq => hslots (heq ▸ List.mem_cons_self)
    rw [List.foldl_cons]
    by_cases hslot : isTop tasks slot = true
    · rw [List.find?_cons, hslot] at hfind
      obtain rfl : slot = top := Option.some.inj hfind
      obtain ⟨hrunnable, hmax⟩ := isTop_iff.mp hslot
      have hrunnable' : (tasks next).state.runnable = true := by
        rcases hnext with heq | ⟨hnext, -⟩
        · rw [heq]
          exact hcur
        · exact hnext
      have hnotlower : ¬(tasks slot).priority < (tasks next).priority := by
        have hle := hmax next hrunnable'
        omega
      have hchosen : next = cur ∨ (tasks slot).priority > (tasks next).priority := by
        rcases hnext with heq | ⟨hnext, hnot⟩
        · exact .inl heq
        · exact .inr (priority_lt_top hslot hnext hnot)
      have htaken : prefer tasks cur next slot = slot := by
        rw [prefer, if_pos hrunnable, if_neg hnotlower, if_pos hchosen]
      rw [htaken, foldl_prefer_top hne hslot]
    · have hnot : isTop tasks slot = false := Bool.eq_false_iff.mpr hslot
      rw [List.find?_cons, hnot] at hfind
      refine ih hrest ?_ hfind
      unfold prefer
      split_ifs with hrunnable
      · exact hnext
      · exact .inr ⟨hrunnable, hnot⟩
      · exact hnext
      · exact hnext

/-- Where all others are below the current task, the first pass finds none. -/
theorem foldl_prefer_none {slots : List Slot}
    (hbelow : ∀ slot ∈ slots, (tasks slot).state.runnable = true →
      (tasks slot).priority < (tasks cur).priority) :
    slots.foldl (prefer tasks cur) cur = cur := by
  induction slots with
  | nil => rfl
  | cons slot slots ih =>
    have hkept : prefer tasks cur cur slot = cur := by
      unfold prefer
      split_ifs with hrunnable hlower
      · rfl
      · exact absurd (hbelow slot List.mem_cons_self hrunnable) hlower
      · rfl
      · rfl
    rw [List.foldl_cons, hkept]
    exact ih fun other hother => hbelow other (List.mem_cons_of_mem _ hother)

theorem mem_candidates_of_ne {slot : Slot} (hne : slot ≠ cur) : slot ∈ candidates cur := by
  have hmem := mem_turns cur slot
  rw [turns, List.mem_append, List.mem_singleton] at hmem
  exact hmem.resolve_right hne

/-- The first task of the order is the first one of the highest priority behind the current
task. -/
theorem find_candidates_top {rest : List Slot} (hne : next ≠ cur)
    (hqueue : topQueue tasks cur = next :: rest) :
    (candidates cur).find? (isTop tasks) = some next := by
  rw [topQueue, turns, List.filter_append] at hqueue
  rw [← List.head?_filter]
  cases hfilter : (candidates cur).filter (isTop tasks) with
  | nil =>
    have hmem : next ∈ [cur].filter (isTop tasks) := by
      rw [hfilter, List.nil_append] at hqueue
      rw [hqueue]
      exact List.mem_cons_self
    exact absurd (List.mem_singleton.mp (List.mem_filter.mp hmem).1) hne
  | cons slot slots =>
    rw [hfilter] at hqueue
    exact congrArg some (List.cons.inj hqueue).1

/-- schedule picks the first task of the order, if it is another one than the current task. -/
theorem pickNext_top {rest : List Slot} (hcur : (tasks cur).state.runnable = true)
    (hne : next ≠ cur) (hqueue : topQueue tasks cur = next :: rest) : pickNext tasks cur = next := by
  have hpass : firstPass tasks cur = next :=
    foldl_prefer_find hcur (not_mem_candidates cur) (.inl rfl) (find_candidates_top hne hqueue)
  rw [pickNext, hpass, if_pos hne]

/-- A single task of the highest priority gives way to the first runnable one behind it. -/
theorem pickNext_single (hqueue : topQueue tasks cur = [cur]) :
    pickNext tasks cur = follower tasks cur := by
  have htop : isTop tasks cur = true := mem_topQueue.mp (hqueue ▸ List.mem_singleton.mpr rfl)
  have hpass : firstPass tasks cur = cur := by
    refine foldl_prefer_none fun slot hslot hrunnable => priority_lt_top htop hrunnable ?_
    rw [Bool.eq_false_iff]
    intro hother
    have hmem : slot ∈ topQueue tasks cur := mem_topQueue.mpr hother
    rw [hqueue, List.mem_singleton] at hmem
    exact not_mem_candidates cur (hmem ▸ hslot)
  rw [pickNext, hpass, if_neg (not_not.mpr rfl), follower]

/-- The task behind another one is runnable and not that one, when two tasks are runnable. -/
theorem follower_spec {slot : Slot} (hother : ∃ other ≠ slot, (tasks other).state.runnable = true) :
    (tasks (follower tasks slot)).state.runnable = true ∧ follower tasks slot ≠ slot := by
  obtain ⟨other, hne, hrunnable⟩ := hother
  cases hfind : (candidates slot).find? fun other => (tasks other).state.runnable with
  | none =>
    have hnone := List.find?_eq_none.mp hfind other (mem_candidates_of_ne hne)
    exact absurd hrunnable hnone
  | some found =>
    have hfound : follower tasks slot = found := by
      rw [follower, hfind]
      rfl
    rw [hfound]
    have hsome := List.find?_some hfind
    refine ⟨hsome, ?_⟩
    rintro rfl
    exact not_mem_candidates _ (List.mem_of_find?_eq_some hfind)

end Picks

section Rounds

theorem nodup_topQueue (tasks : Slot → Task) (cur : Slot) : (topQueue tasks cur).Nodup :=
  (nodup_turns cur).filter _

/-- A single task of the highest priority is that from every slot on. -/
theorem topQueue_single {top : Slot} (h : topQueue tasks cur = [top]) (slot : Slot) :
    topQueue tasks slot = [top] := by
  have hperm : (topQueue tasks slot).Perm [top] := by
    refine (List.perm_ext_iff_of_nodup (nodup_topQueue tasks slot) (List.nodup_singleton top)).mpr
      fun other => ?_
    rw [← h, mem_topQueue, mem_topQueue]
  exact List.perm_singleton.mp hperm

/-- Of several tasks of the highest priority the current one comes last. -/
theorem topQueue_head_ne {second : Slot} {rest : List Slot}
    (h : topQueue tasks cur = next :: second :: rest) : next ≠ cur := by
  have hsplit : topQueue tasks cur =
      (candidates cur).filter (isTop tasks) ++ [cur].filter (isTop tasks) := by
    rw [topQueue, turns, List.filter_append]
  cases hfilter : (candidates cur).filter (isTop tasks) with
  | nil =>
    rw [hfilter, List.nil_append] at hsplit
    have hlength := List.length_filter_le (isTop tasks) [cur]
    rw [← hsplit, h, List.length_cons, List.length_cons, List.length_singleton] at hlength
    omega
  | cons first others =>
    have hmem : first ∈ (candidates cur).filter (isTop tasks) := hfilter ▸ List.mem_cons_self
    rw [hsplit, hfilter] at h
    rw [← (List.cons.inj h).1]
    rintro rfl
    exact not_mem_candidates _ (List.mem_filter.mp hmem).1

theorem turnOrder_of_many {second : Slot} {rest : List Slot}
    (h : topQueue tasks cur = next :: second :: rest) :
    turnOrder tasks cur = next :: second :: rest := by
  rw [turnOrder, h]

/-- The order of turns goes on where its first task is resumed. -/
theorem turnOrder_next (htwo : ∃ slot other, slot ≠ other ∧ (tasks slot).state.runnable = true ∧
      (tasks other).state.runnable = true) (hcur : (tasks cur).state.runnable = true) :
    ∃ rest, turnOrder tasks cur = pickNext tasks cur :: rest ∧
      turnOrder tasks (pickNext tasks cur) = rest ++ [pickNext tasks cur] ∧
      (tasks (pickNext tasks cur)).state.runnable = true ∧ pickNext tasks cur ≠ cur := by
  obtain ⟨top, htop⟩ := exists_top hcur
  have hother : ∀ slot, ∃ other ≠ slot, (tasks other).state.runnable = true := by
    intro slot
    obtain ⟨one, two, hne, hone, htwo'⟩ := htwo
    by_cases heq : one = slot
    · exact ⟨two, fun h => hne (heq.trans h.symm), htwo'⟩
    · exact ⟨one, heq, hone⟩
  cases hqueue : topQueue tasks cur with
  | nil =>
    have hmem : top ∈ topQueue tasks cur := mem_topQueue.mpr htop
    rw [hqueue] at hmem
    exact absurd hmem List.not_mem_nil
  | cons first rest =>
    have hfirst : isTop tasks first = true := mem_topQueue.mp (hqueue ▸ List.mem_cons_self)
    have hrunnable : (tasks first).state.runnable = true := (isTop_iff.mp hfirst).1
    have hafter : topQueue tasks first = rest ++ [first] := filter_turns_of_head hqueue
    cases rest with
    | nil =>
      obtain ⟨hfollows, hdistinct⟩ := follower_spec (hother first)
      have hsingle : topQueue tasks first = [first] := hafter
      have hbehind := topQueue_single hqueue (follower tasks first)
      by_cases hcurrent : first = cur
      · have hpick : pickNext tasks cur = follower tasks first := by
          rw [pickNext_single (hcurrent ▸ hsingle), hcurrent]
        rw [hpick]
        refine ⟨[first], ?_, ?_, hfollows, hcurrent ▸ hdistinct⟩
        · rw [turnOrder, hqueue]
          exact if_pos hcurrent
        · rw [turnOrder, hbehind]
          exact if_neg hdistinct.symm
      · have hpick := pickNext_top hcur hcurrent hqueue
        rw [hpick]
        refine ⟨[follower tasks first], ?_, ?_, hrunnable, hcurrent⟩
        · rw [turnOrder, hqueue]
          exact if_neg hcurrent
        · rw [turnOrder, hsingle]
          exact if_pos rfl
    | cons second rest =>
      have hne : first ≠ cur := topQueue_head_ne hqueue
      have hpick := pickNext_top hcur hne hqueue
      rw [hpick]
      refine ⟨second :: rest, turnOrder_of_many hqueue, ?_, hrunnable, hne⟩
      cases hend : rest ++ [first] with
      | nil => exact absurd hend (List.append_ne_nil_of_right_ne_nil _ (List.cons_ne_nil _ _))
      | cons third others =>
        rw [List.cons_append, hend] at hafter ⊢
        exact turnOrder_of_many hafter

/-- schedule resumes the task that it picks. -/
theorem schedule_switched (htasks : 2 ≤ procs.numTasks) (regs : UInt32)
    (hrunnable : (procs.tasks (pickNext (saveTask regs procs).tasks procs.currentTask)).state.runnable
      = true)
    (hne : pickNext (saveTask regs procs).tasks procs.currentTask ≠ procs.currentTask) :
    Switched procs (pickNext (saveTask regs procs).tasks procs.currentTask)
      (schedule regs procs).2 := by
  have hsaved := saveTask_spec regs procs
  have hschedule : (schedule regs procs).2 =
      resumeTask (pickNext (saveTask regs procs).tasks procs.currentTask) (saveTask regs procs) := by
    rw [schedule, if_neg (by omega)]
    dsimp only
    rw [if_neg hne]
  rw [hschedule]
  have hresumed := resumeTask_switched ((hsaved _).1.trans hrunnable)
  exact ⟨hresumed.current, fun slot => (hresumed.runnable slot).trans (hsaved slot).1,
    fun slot => (hresumed.priority slot).trans (hsaved slot).2, hresumed.numTasks⟩

/-- At least two tasks are runnable, and the current task is one of them. -/
structure Contended (procs : Processes) : Prop where
  /-- The current task can run. -/
  current : procs.current.state.runnable = true
  /-- Two tasks can run. -/
  many : ∃ slot other, slot ≠ other ∧ (procs.tasks slot).state.runnable = true ∧
    (procs.tasks other).state.runnable = true
  /-- num_tasks counts two or more. -/
  tasks : 2 ≤ procs.numTasks

/-- A call of schedule resumes the first task of the order, and the order goes on behind it. -/
theorem Contended.schedule (h : Contended procs) (regs : UInt32) :
    ∃ rest, turnOrder procs.tasks procs.currentTask =
        (schedule regs procs).2.currentTask :: rest ∧
      turnOrder (schedule regs procs).2.tasks (schedule regs procs).2.currentTask =
        rest ++ [(schedule regs procs).2.currentTask] ∧ Contended (schedule regs procs).2 := by
  have hsaved := saveTask_spec regs procs
  have hmany : ∃ slot other, slot ≠ other ∧
      ((saveTask regs procs).tasks slot).state.runnable = true ∧
      ((saveTask regs procs).tasks other).state.runnable = true := by
    obtain ⟨slot, other, hne, hslot, hother⟩ := h.many
    exact ⟨slot, other, hne, (hsaved slot).1.trans hslot, (hsaved other).1.trans hother⟩
  obtain ⟨rest, hfirst, hnext, hrunnable, hne⟩ :=
    turnOrder_next hmany ((hsaved procs.currentTask).1.trans h.current)
  rw [(hsaved _).1] at hrunnable
  have hswitched := schedule_switched h.tasks regs hrunnable hne
  have horder := turnOrder_congr (fun slot => (hsaved slot).1) fun slot => (hsaved slot).2
  rw [horder] at hfirst hnext
  generalize pickNext (saveTask regs procs).tasks procs.currentTask = next at *
  generalize (Process.schedule regs procs).2 = after at *
  have horder' := turnOrder_congr hswitched.runnable hswitched.priority
  refine ⟨rest, ?_, ?_, ?_, ?_, ?_⟩
  · rw [hswitched.current]
    exact hfirst
  · rw [horder', hswitched.current]
    exact hnext
  · rw [Processes.current, hswitched.current, hswitched.runnable]
    exact hrunnable
  · obtain ⟨slot, other, hdistinct, hslot, hother⟩ := h.many
    exact ⟨slot, other, hdistinct, (hswitched.runnable slot).trans hslot,
      (hswitched.runnable other).trans hother⟩
  · rw [hswitched.numTasks]
    exact h.tasks

/-- The first so many places of a list that is gone through again and again. -/
def cycled {α : Type} (order : List α) (count : ℕ) : List α :=
  (List.range count).filterMap fun i => order[i % order.length]?

theorem getElem?_rotated {α : Type} (first : α) (rest : List α) (i : ℕ) :
    (first :: rest)[(i + 1) % (rest.length + 1)]? =
      (rest ++ [first])[i % (rest.length + 1)]? := by
  have hlt : i % (rest.length + 1) < rest.length + 1 := Nat.mod_lt _ (Nat.succ_pos _)
  by_cases hlast : i % (rest.length + 1) = rest.length
  · have hzero : (i + 1) % (rest.length + 1) = 0 := by
      rw [Nat.add_mod, hlast]
      by_cases hone : rest.length = 0
      · simp [hone]
      · rw [Nat.mod_eq_of_lt (by omega : 1 < rest.length + 1), Nat.mod_self]
    rw [hzero, hlast, List.getElem?_concat_length]
    rfl
  · have hsucc : (i + 1) % (rest.length + 1) = i % (rest.length + 1) + 1 := by
      rw [Nat.add_mod, Nat.mod_eq_of_lt (by omega : 1 < rest.length + 1),
        Nat.mod_eq_of_lt (by omega)]
    rw [hsucc, List.getElem?_cons_succ, List.getElem?_append_left (by omega)]

theorem cycled_succ {α : Type} (first : α) (rest : List α) (count : ℕ) :
    cycled (first :: rest) (count + 1) = first :: cycled (rest ++ [first]) count := by
  rw [cycled, List.range_succ_eq_map, List.filterMap_cons, Nat.zero_mod, List.getElem?_cons_zero,
    List.filterMap_map, cycled]
  refine congrArg (first :: ·) (List.filterMap_congr fun i _ => ?_)
  have hlength : (rest ++ [first]).length = rest.length + 1 := by
    rw [List.length_append, List.length_singleton]
  rw [Function.comp_apply, List.length_cons, hlength]
  exact getElem?_rotated first rest i

/-- Any number of calls resume the tasks of the order again and again. -/
theorem Contended.resumed (h : Contended procs) (regs : List UInt32) :
    resumed regs procs = cycled (turnOrder procs.tasks procs.currentTask) regs.length := by
  induction regs generalizing procs with
  | nil => rfl
  | cons reg regs ih =>
    obtain ⟨rest, hfirst, hafter, hcontended⟩ := h.schedule reg
    rw [Process.resumed, ih hcontended, hafter, hfirst, List.length_cons, cycled_succ]

/-- The tasks that the order of turns holds: all tasks of the highest priority, and beside a
single one of them the first runnable task behind it. -/
theorem mem_turnOrder {slot : Slot} (h : slot ∈ turnOrder tasks cur) :
    isTop tasks slot = true ∨
      ∃ top, topQueue tasks cur = [top] ∧ slot = follower tasks top := by
  cases hqueue : topQueue tasks cur with
  | nil =>
    rw [turnOrder, hqueue] at h
    exact absurd h List.not_mem_nil
  | cons top rest =>
    cases rest with
    | nil =>
      have htop : isTop tasks top = true := mem_topQueue.mp (hqueue ▸ List.mem_singleton.mpr rfl)
      have hmem : slot = top ∨ slot = follower tasks top := by
        rw [turnOrder, hqueue] at h
        dsimp only at h
        split_ifs at h
        · rcases List.mem_cons.mp h with hslot | hslot
          · exact .inr hslot
          · exact .inl (List.mem_singleton.mp hslot)
        · rcases List.mem_cons.mp h with hslot | hslot
          · exact .inl hslot
          · exact .inr (List.mem_singleton.mp hslot)
      rcases hmem with rfl | hslot
      · exact .inl htop
      · exact .inr ⟨top, rfl, hslot⟩
    | cons second rest =>
      rw [turnOrder_of_many hqueue, ← hqueue] at h
      exact .inl (mem_topQueue.mp h)

/-- While no task changes its state or its priority, schedule resumes, call after call, the tasks
of the highest priority in the cyclic order of their slots, when there are two or more. A single
one takes turns with the first runnable task behind it. No other task is ever resumed. -/
theorem schedule_turns (hcontended : Contended procs) (regs : List UInt32) :
    resumed regs procs = cycled (turnOrder procs.tasks procs.currentTask) regs.length ∧
      (2 ≤ (topQueue procs.tasks procs.currentTask).length →
        turnOrder procs.tasks procs.currentTask = topQueue procs.tasks procs.currentTask) ∧
      (∀ top, topQueue procs.tasks procs.currentTask = [top] →
        (turnOrder procs.tasks procs.currentTask).Perm [top, follower procs.tasks top]) ∧
      ∀ slot ∈ resumed regs procs, isTop procs.tasks slot = true ∨
        ∃ top, topQueue procs.tasks procs.currentTask = [top] ∧
          slot = follower procs.tasks top := by
  have hresumed := hcontended.resumed regs
  refine ⟨hresumed, fun hmany => ?_, fun top hsingle => ?_, fun slot hslot => ?_⟩
  · cases hqueue : topQueue procs.tasks procs.currentTask with
    | nil =>
      rw [hqueue, List.length_nil] at hmany
      omega
    | cons first rest =>
      cases rest with
      | nil =>
        rw [hqueue, List.length_singleton] at hmany
        omega
      | cons second rest => exact turnOrder_of_many hqueue
  · rw [turnOrder, hsingle]
    dsimp only
    split_ifs
    · exact List.Perm.swap _ _ _
    · exact List.Perm.refl _
  · rw [hresumed, cycled] at hslot
    obtain ⟨i, -, hplace⟩ := List.mem_filterMap.mp hslot
    exact mem_turnOrder (List.mem_of_getElem? hplace)

/-- Tasks in every fifth slot, the one in slot 5 with a higher priority. -/
def fifthFirst : Processes :=
  { everyFifth with
    tasks := fun slot =>
      { everyFifth.tasks slot with priority := if slot.val = 5 then 2 else 1 } }

/-- The task with the higher priority takes turns with the next one; the others wait. -/
theorem schedule_turns_starving :
    resumed [0, 0, 0, 0, 0] fifthFirst = [5, 10, 5, 10, 5] := by
  have hcontended : Contended fifthFirst :=
    ⟨by decide, ⟨0, 5, by decide, by decide, by decide⟩, by decide⟩
  rw [(schedule_turns hcontended [0, 0, 0, 0, 0]).1]
  decide

end Rounds

end HexaOS.Process
