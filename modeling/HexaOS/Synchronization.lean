import HexaOS.StepRuns
import Mathlib.Data.List.Count
import Mathlib.Data.Int.Basic
import Mathlib.Logic.Function.Basic
import Mathlib.Tactic.NormNum
import Mathlib.Tactic.SplitIfs

/-!
# Mutexes and semaphores

Any number of threads call the functions of sync.c in any order, and between two accesses to the
mutex any other thread may run. The rounds of sem_wait and sem_signal stand between cli and sti
and are one step each. A mutex is taken by the test and set alone; its owner field is written
later and cleared before, and mutex_trylock does not write it.
-/

namespace HexaOS.Sync

open HexaOS.StepRuns

section Mutexes

/-- mutex_t -/
structure Mutex where
  /-- 1 while it is locked. -/
  locked : Int32
  /-- 1, or 0xFFFFFFFF when there is no owner. -/
  owner : UInt32
  deriving DecidableEq

/-- The owner field of a mutex that nobody has. -/
def noOwner : UInt32 := 0xFFFFFFFF

/-- mutex_init -/
def mutexInit : Mutex := ⟨0, noOwner⟩

/-- Where a thread is in the functions of the mutex. -/
inductive Point where
  /-- In none of them. -/
  | outside
  /-- Before the test and set of mutex_lock. -/
  | spinning
  /-- Before the store to the owner field in mutex_lock. -/
  | acquired
  /-- Before the release in mutex_unlock. -/
  | releasing
  deriving DecidableEq

/-- A thread, and whether mutex_lock or mutex_trylock gave it the mutex. -/
structure Thread where
  /-- Where the thread stands. -/
  point : Point
  /-- Does it have the mutex? -/
  holds : Bool
  deriving DecidableEq

/-- What a thread does next. -/
inductive MutexAct where
  /-- Call mutex_lock. -/
  | lock
  /-- Run mutex_trylock. -/
  | trylock
  /-- Call mutex_unlock and run its first store. -/
  | unlock
  /-- Run the next access of the function that it is in. -/
  | advance
  deriving DecidableEq

/-- A step of one thread. -/
structure MutexStep where
  /-- The thread that goes on. -/
  thread : ℕ
  /-- What it does. -/
  act : MutexAct
  deriving DecidableEq

/-- The mutex and the threads. -/
structure MutexState where
  /-- The mutex. -/
  mutex : Mutex
  /-- The threads. -/
  threads : ℕ → Thread

/-- The mutex initialized, and no thread at it. -/
def MutexState.init : MutexState := ⟨mutexInit, fun _ => ⟨.outside, false⟩⟩

/-- Store the thread and the mutex. -/
def MutexState.put (state : MutexState) (t : ℕ) (mutex : Mutex) (thread : Thread) : MutexState :=
  ⟨mutex, Function.update state.threads t thread⟩

/-- One step. The test and set stores 1 and tells what was there. A thread calls a function
when it is in none. -/
def mutexNext (step : MutexStep) (state : MutexState) : MutexState :=
  let t := step.thread
  let mutex := state.mutex
  let thread := state.threads t
  match step.act, thread.point with
  | .lock, .outside => state.put t mutex { thread with point := .spinning }
  | .trylock, .outside =>
    state.put t { mutex with locked := 1 }
      { thread with holds := thread.holds || decide (mutex.locked = 0) }
  | .unlock, .outside => state.put t { mutex with owner := noOwner } ⟨.releasing, false⟩
  | .advance, .spinning =>
    if mutex.locked ≠ 0 then state.put t { mutex with locked := 1 } thread
    else state.put t { mutex with locked := 1 } { thread with point := .acquired }
  | .advance, .acquired => state.put t { mutex with owner := 1 } ⟨.outside, true⟩
  | .advance, .releasing => state.put t { mutex with locked := 0 } { thread with point := .outside }
  | _, _ => state

/-- The test and set gave the mutex to the thread, and the thread has not released it. -/
def Thread.Owns (thread : Thread) : Prop :=
  thread.holds = true ∨ thread.point = .acquired ∨ thread.point = .releasing

/-- A thread calls mutex_unlock when it holds the mutex. -/
def Disciplined (step : MutexStep) (state : MutexState) : Prop :=
  step.act = .unlock → (state.threads step.thread).point = .outside →
    (state.threads step.thread).holds = true

/-- The mutex is locked just when one thread owns it. -/
structure MutexState.Exclusive (state : MutexState) : Prop where
  /-- One thread at most owns the mutex. -/
  one : ∀ t u, (state.threads t).Owns → (state.threads u).Owns → t = u
  /-- The mutex is locked just when a thread owns it. -/
  locked : state.mutex.locked ≠ 0 ↔ ∃ t, (state.threads t).Owns
  /-- Where the owner field is set, a thread holds the mutex. -/
  owner : state.mutex.owner ≠ noOwner → ∃ t, (state.threads t).holds = true
  /-- A thread that releases the mutex does not hold it. -/
  released : ∀ t, (state.threads t).point = .releasing → (state.threads t).holds = false

variable {step : MutexStep} {state : MutexState} {t : ℕ}

theorem Thread.not_owns {thread : Thread} (hholds : thread.holds = false)
    (hpoint : thread.point = .outside ∨ thread.point = .spinning) : ¬thread.Owns := by
  rintro (h | h | h)
  · rw [hholds] at h
    cases h
  · rcases hpoint with hp | hp <;> rw [hp] at h <;> cases h
  · rcases hpoint with hp | hp <;> rw [hp] at h <;> cases h

/-- A thread that is stored releases the mutex without it, as the others do. -/
theorem MutexState.Exclusive.released_put (h : state.Exclusive) {mutex : Mutex} {thread : Thread}
    (hnew : thread.point = .releasing → thread.holds = false) (u : ℕ) :
    ((state.put t mutex thread).threads u).point = .releasing →
      ((state.put t mutex thread).threads u).holds = false := by
  rw [MutexState.put]
  dsimp only
  by_cases heq : u = t
  · rw [heq, Function.update_self]
    exact hnew
  · rw [Function.update_of_ne heq]
    exact h.released u

theorem exclusive_init : MutexState.init.Exclusive := by
  have hnone : ∀ t, ¬(MutexState.init.threads t).Owns := fun t => Thread.not_owns rfl (.inl rfl)
  refine ⟨fun t u ht => absurd ht (hnone t), ?_, fun h => absurd rfl h, fun _ _ => rfl⟩
  exact iff_of_false (fun h => h rfl) fun h => h.elim hnone

/-- A step of a thread that owns the mutex before it just when it does behind it. -/
theorem MutexState.Exclusive.put_same (h : state.Exclusive) {mutex : Mutex} {thread : Thread}
    (howns : thread.Owns ↔ (state.threads t).Owns)
    (hlocked : mutex.locked ≠ 0 ↔ state.mutex.locked ≠ 0)
    (hreleased : thread.point = .releasing → thread.holds = false)
    (howner : mutex.owner ≠ noOwner → ∃ u, (Function.update state.threads t thread u).holds = true) :
    (state.put t mutex thread).Exclusive := by
  have hsame : ∀ u, (Function.update state.threads t thread u).Owns ↔ (state.threads u).Owns := by
    intro u
    by_cases hu : u = t
    · rw [hu, Function.update_self]
      exact howns
    · rw [Function.update_of_ne hu]
  refine ⟨fun u v hu hv => h.one u v ((hsame u).mp hu) ((hsame v).mp hv), ?_, howner,
    h.released_put hreleased⟩
  exact hlocked.trans (h.locked.trans (exists_congr fun u => (hsame u).symm))

/-- A thread takes a free mutex. -/
theorem MutexState.Exclusive.put_taken (h : state.Exclusive) {mutex : Mutex} {thread : Thread}
    (hfree : state.mutex.locked = 0) (howns : thread.Owns) (hlocked : mutex.locked ≠ 0)
    (hreleased : thread.point = .releasing → thread.holds = false)
    (howner : mutex.owner = state.mutex.owner) : (state.put t mutex thread).Exclusive := by
  have hnone : ∀ u, ¬(state.threads u).Owns := fun u hu => h.locked.mpr ⟨u, hu⟩ hfree
  have hself : ∀ u, (Function.update state.threads t thread u).Owns → u = t := by
    intro u hu
    by_contra hne
    rw [Function.update_of_ne hne] at hu
    exact hnone u hu
  have htaken : (Function.update state.threads t thread t).Owns := by
    rw [Function.update_self]
    exact howns
  refine ⟨fun u v hu hv => (hself u hu).trans (hself v hv).symm, ?_, fun hset => ?_,
    h.released_put hreleased⟩
  · exact iff_of_true hlocked ⟨t, htaken⟩
  · obtain ⟨u, hu⟩ := h.owner (howner ▸ hset)
    exact absurd (Or.inl hu) (hnone u)

/-- A thread releases the mutex. -/
theorem MutexState.Exclusive.put_released (h : state.Exclusive)
    (hpoint : (state.threads t).point = .releasing) {mutex : Mutex} (hlocked : mutex.locked = 0)
    (howner : mutex.owner = state.mutex.owner) :
    (state.put t mutex { state.threads t with point := .outside }).Exclusive := by
  have hgone : ¬Thread.Owns { state.threads t with point := .outside } :=
    Thread.not_owns (h.released t hpoint) (.inl rfl)
  have hnone : ∀ u, ¬(Function.update state.threads t
      { state.threads t with point := .outside } u).Owns := by
    intro u hu
    by_cases heq : u = t
    · rw [heq, Function.update_self] at hu
      exact hgone hu
    · rw [Function.update_of_ne heq] at hu
      exact heq (h.one u t hu (.inr (.inr hpoint)))
  refine ⟨fun u v hu => absurd hu (hnone u), ?_, fun hset => ?_, h.released_put ?_⟩
  · exact iff_of_false (fun hne => hne hlocked) fun hex => hex.elim hnone
  · -- a thread with the owner field set would hold the mutex, and be the one that releases it
    obtain ⟨u, hu⟩ := h.owner (howner ▸ hset)
    have heq : u = t := h.one u t (.inl hu) (.inr (.inr hpoint))
    rw [heq, h.released t hpoint] at hu
    cases hu
  · intro hreleasing
    cases hreleasing

/-- A thread that holds the mutex behind a step if it did before. -/
theorem MutexState.Exclusive.holder (h : state.Exclusive) {thread : Thread}
    (hkept : (state.threads t).holds = true → thread.holds = true)
    (hset : state.mutex.owner ≠ noOwner) :
    ∃ u, (Function.update state.threads t thread u).holds = true := by
  obtain ⟨u, hu⟩ := h.owner hset
  refine ⟨u, ?_⟩
  by_cases heq : u = t
  · rw [heq, Function.update_self]
    exact hkept (heq ▸ hu)
  · rw [Function.update_of_ne heq]
    exact hu

/-- A thread outside of mutex_unlock that has not just won the test and set owns the mutex when
it holds it. -/
theorem Thread.owns_iff {thread : Thread} (h : thread.point = .outside ∨ thread.point = .spinning) :
    thread.Owns ↔ thread.holds = true := by
  refine ⟨fun howns => ?_, fun hholds => .inl hholds⟩
  by_contra hne
  exact Thread.not_owns (Bool.eq_false_iff.mpr hne) h howns

theorem locked_one : (1 : Int32) ≠ 0 := by decide

/-- The calls of the functions. -/
theorem exclusive_call {act : MutexAct} (h : state.Exclusive)
    (hdisciplined : Disciplined ⟨t, act⟩ state) (hact : act ≠ .advance)
    (hpoint : (state.threads t).point = .outside) : (mutexNext ⟨t, act⟩ state).Exclusive := by
  have howns := Thread.owns_iff (.inl hpoint)
  simp only [mutexNext, hpoint]
  cases act with
  | lock =>
    refine h.put_same ?_ Iff.rfl (by rintro ⟨⟩) fun hset => h.holder (fun hholds => hholds) hset
    exact (Thread.owns_iff (.inr rfl)).trans howns.symm
  | trylock =>
    by_cases hfree : state.mutex.locked = 0
    · refine h.put_taken hfree (.inl ?_) locked_one (by rintro ⟨⟩) rfl
      rw [decide_eq_true hfree, Bool.or_true]
    · rw [decide_eq_false hfree, Bool.or_false]
      refine h.put_same ?_ (iff_of_true locked_one hfree) (by rintro ⟨⟩) fun hset => ?_
      · exact (Thread.owns_iff (.inl rfl)).trans howns.symm
      · exact h.holder (fun hholds => hholds) hset
  | unlock =>
    have howned : (state.threads t).Owns := .inl (hdisciplined rfl hpoint)
    exact h.put_same (iff_of_true (.inr (.inr rfl)) howned) Iff.rfl (fun _ => rfl) fun hset =>
      absurd rfl hset
  | advance => exact absurd rfl hact

/-- The accesses inside the functions. -/
theorem exclusive_advance (h : state.Exclusive) : (mutexNext ⟨t, .advance⟩ state).Exclusive := by
  simp only [mutexNext]
  cases hpoint : (state.threads t).point with
  | outside => exact h
  | spinning =>
    dsimp only
    split_ifs with hheld
    · refine h.put_same Iff.rfl (iff_of_true locked_one hheld) (h.released t) fun hset => ?_
      exact h.holder (fun hholds => hholds) hset
    · exact h.put_taken (not_not.mp hheld) (.inr (.inl rfl)) locked_one (by rintro ⟨⟩) rfl
  | acquired =>
    have howned : (state.threads t).Owns := .inr (.inl hpoint)
    refine h.put_same (iff_of_true (.inl rfl) howned) Iff.rfl (by rintro ⟨⟩) fun _ => ⟨t, ?_⟩
    rw [Function.update_self]
  | releasing => exact h.put_released hpoint rfl rfl

/-- A step of a thread that is in the functions takes no call. -/
theorem mutexNext_busy {act : MutexAct} (hact : act ≠ .advance)
    (hpoint : (state.threads t).point ≠ .outside) : mutexNext ⟨t, act⟩ state = state := by
  simp only [mutexNext]
  cases act with
  | advance => exact absurd rfl hact
  | lock => cases hp : (state.threads t).point <;> first | exact absurd hp hpoint | rfl
  | trylock => cases hp : (state.threads t).point <;> first | exact absurd hp hpoint | rfl
  | unlock => cases hp : (state.threads t).point <;> first | exact absurd hp hpoint | rfl

theorem exclusive_next (h : state.Exclusive) (hdisciplined : Disciplined step state) :
    (mutexNext step state).Exclusive := by
  obtain ⟨t, act⟩ := step
  by_cases hact : act = .advance
  · rw [hact]
    exact exclusive_advance h
  · by_cases hpoint : (state.threads t).point = .outside
    · exact exclusive_call h hdisciplined hact hpoint
    · rw [mutexNext_busy hact hpoint]
      exact h

/-- What the users of a mutex rely on. -/
structure MutexState.Guards (state : MutexState) : Prop where
  /-- No two threads hold the mutex. -/
  exclusion : ∀ t u, (state.threads t).holds = true → (state.threads u).holds = true → t = u
  /-- The owner field is set only while a thread holds the mutex. -/
  owner : state.mutex.owner ≠ noOwner → ∃ t, (state.threads t).holds = true
  /-- mutex_trylock gives the mutex to its caller just when no thread has it. -/
  trylock : ∀ t, (state.threads t).point = .outside → (state.threads t).holds = false →
    (((mutexNext ⟨t, .trylock⟩ state).threads t).holds = true ↔ ∀ u, ¬(state.threads u).Owns)
  /-- The loop of mutex_lock ends at its first test and set at which no thread has it. -/
  spinning : ∀ t, (state.threads t).point = .spinning →
    (((mutexNext ⟨t, .advance⟩ state).threads t).point = .acquired ↔ ∀ u, ¬(state.threads u).Owns)

theorem MutexState.Exclusive.free_iff (h : state.Exclusive) :
    state.mutex.locked = 0 ↔ ∀ u, ¬(state.threads u).Owns := by
  rw [← not_exists, ← h.locked, not_not]

theorem MutexState.Exclusive.guards (h : state.Exclusive) : state.Guards where
  exclusion t u ht hu := h.one t u (.inl ht) (.inl hu)
  owner := h.owner
  trylock t hpoint hholds := by
    rw [← h.free_iff]
    simp only [mutexNext, hpoint, MutexState.put, Function.update_self, hholds, Bool.false_or,
      decide_eq_true_eq]
  spinning t hpoint := by
    rw [← h.free_iff]
    simp only [mutexNext, hpoint]
    split_ifs with hheld
    · simp only [MutexState.put, Function.update_self, hpoint]
      exact iff_of_false (by rintro ⟨⟩) hheld
    · simp only [MutexState.put, Function.update_self]
      exact iff_of_true trivial (not_not.mp hheld)

/-- However the accesses of any number of threads to a mutex are interleaved, as long as only its
holder calls mutex_unlock: no two threads hold it, its owner field is set only while one does,
and mutex_trylock and the loop of mutex_lock succeed just where no thread has it. -/
theorem mutex_guards {steps : List MutexStep}
    (hdisciplined : EveryStep mutexNext Disciplined steps .init) :
    EveryState mutexNext MutexState.Guards steps .init :=
  (hdisciplined.everyState (fun _ _ h hstep => exclusive_next h hstep) exclusive_init).mono
    fun _ h => h.guards

/-- Thread 1 spins while thread 0 holds the mutex, and takes it behind its release. -/
def handover : List MutexStep :=
  [⟨0, .trylock⟩, ⟨1, .lock⟩, ⟨1, .advance⟩, ⟨0, .unlock⟩, ⟨1, .advance⟩, ⟨0, .advance⟩,
    ⟨1, .advance⟩, ⟨1, .advance⟩]

theorem mutex_guards_handover :
    EveryState mutexNext MutexState.Guards handover .init ∧
      ((runSteps mutexNext handover .init).threads 1).holds = true := by
  refine ⟨mutex_guards ?_, by decide⟩
  simp only [handover, EveryStep, Disciplined]
  decide

end Mutexes

section Semaphores

/-- semaphore_t -/
structure Semaphore where
  /-- The permits that are left. -/
  val : Int32
  /-- The threads in sem_wait. -/
  waiters : Int32

/-- sem_init -/
def semInit (val : Int32) : Semaphore := ⟨val, 0⟩

/-- A round of the loop of sem_wait: does it return? -/
def semWaitRound (sem : Semaphore) : Bool × Semaphore :=
  if 0 < sem.val then (true, { sem with val := sem.val - 1 })
  else (false, { sem with waiters := sem.waiters + 1 })

/-- sem_signal -/
def semSignal (sem : Semaphore) : Semaphore := ⟨sem.val + 1, 0⟩

/-- A step of one thread. -/
inductive SemStep where
  /-- Call sem_wait. -/
  | wait (t : ℕ)
  /-- A round of the loop. -/
  | round (t : ℕ)
  | signal (t : ℕ)
  deriving DecidableEq

/-- The semaphore, the threads in sem_wait, and how often it returned and sem_signal ran. -/
structure SemState where
  /-- The semaphore. -/
  sem : Semaphore
  /-- Which threads wait. -/
  waiting : ℕ → Bool
  /-- The calls of sem_wait that returned. -/
  taken : ℕ
  /-- The calls of sem_signal. -/
  signalled : ℕ

def SemState.init (val : Int32) : SemState := ⟨semInit val, fun _ => false, 0, 0⟩

/-- One step. A thread in sem_wait goes on with its loop only. -/
def semNext (step : SemStep) (state : SemState) : SemState :=
  match step with
  | .wait t => { state with waiting := Function.update state.waiting t true }
  | .round t =>
    if state.waiting t then
      let (returns, sem) := semWaitRound state.sem
      if returns then
        { state with
          sem := sem
          waiting := Function.update state.waiting t false
          taken := state.taken + 1 }
      else { state with sem := sem }
    else state
  | .signal t =>
    if state.waiting t then state
    else { state with sem := semSignal state.sem, signalled := state.signalled + 1 }

/-- Does the step run sem_signal? -/
def SemStep.signals : SemStep → Bool
  | .signal _ => true
  | _ => false

/-- How often sem_wait may have returned. -/
def SemState.permits (val : Int32) (state : SemState) : ℤ := val.toInt + state.signalled

/-- What the users of a semaphore rely on: val counts the permits that are left, and a round of
sem_wait goes on just when there is none. -/
structure SemState.Counts (val : Int32) (state : SemState) : Prop where
  /-- What is left is what was given less what was taken. -/
  left : state.sem.val.toInt = state.permits val - state.taken
  /-- No more is taken than was given. -/
  taken_le : (state.taken : ℤ) ≤ state.permits val
  /-- A waiting thread returns exactly when a permit is left. -/
  returns : ∀ t, state.waiting t = true →
    ((semNext (.round t) state).waiting t = false ↔ (state.taken : ℤ) < state.permits val)

variable {val : Int32} {state : SemState} {t : ℕ}

theorem toInt_add_one {n : Int32} (h : n.toInt + 1 < 2 ^ 31) : (n + 1).toInt = n.toInt + 1 := by
  have hge := Int32.le_toInt n
  have hone : (1 : Int32).toInt = 1 := rfl
  rw [Int32.toInt_add, hone]
  exact Int.bmod_eq_of_le (by norm_num at hge ⊢; omega) (by norm_num at h ⊢; omega)

theorem toInt_sub_one {n : Int32} (h : 0 < n.toInt) : (n - 1).toInt = n.toInt - 1 := by
  have hlt := Int32.toInt_lt n
  have hone : (1 : Int32).toInt = 1 := rfl
  rw [Int32.toInt_sub, hone]
  exact Int.bmod_eq_of_le (by norm_num; omega) (by norm_num at hlt ⊢; omega)

/-- A round that returns. -/
theorem semNext_round_taken (hwaiting : state.waiting t = true) (hval : 0 < state.sem.val) :
    semNext (.round t) state =
      { state with
        sem := { state.sem with val := state.sem.val - 1 }
        waiting := Function.update state.waiting t false
        taken := state.taken + 1 } := by
  rw [semNext, if_pos hwaiting, semWaitRound, if_pos hval]
  rfl

/-- A round that goes on. -/
theorem semNext_round_missed (hwaiting : state.waiting t = true) (hval : ¬0 < state.sem.val) :
    semNext (.round t) state =
      { state with sem := { state.sem with waiters := state.sem.waiters + 1 } } := by
  rw [semNext, if_pos hwaiting, semWaitRound, if_neg hval]
  rfl

/-- Where val counts the permits, a round returns just when one is left. -/
theorem round_returns (hleft : state.sem.val.toInt = state.permits val - state.taken)
    (hwaiting : state.waiting t = true) :
    (semNext (.round t) state).waiting t = false ↔ (state.taken : ℤ) < state.permits val := by
  have hpos : 0 < state.sem.val ↔ (state.taken : ℤ) < state.permits val := by
    have hzero : (0 : Int32).toInt = 0 := rfl
    rw [Int32.lt_iff_toInt_lt, hleft, hzero]
    omega
  rw [← hpos]
  by_cases hval : 0 < state.sem.val
  · rw [semNext_round_taken hwaiting hval]
    exact iff_of_true (Function.update_self ..) hval
  · rw [semNext_round_missed hwaiting hval]
    exact iff_of_false (by rw [hwaiting]; rintro ⟨⟩) hval

theorem counts_init (hval : 0 ≤ val.toInt) : (SemState.init val).Counts val := by
  have hleft : (SemState.init val).sem.val.toInt = (SemState.init val).permits val -
      (SemState.init val).taken := by
    simp [SemState.init, SemState.permits, semInit]
  refine ⟨hleft, ?_, fun _ hwaiting => round_returns hleft hwaiting⟩
  simpa [SemState.init, SemState.permits] using hval

/-- A step that changes neither val nor the counts. -/
theorem SemState.Counts.congr (h : state.Counts val) {state' : SemState}
    (hval : state'.sem.val = state.sem.val) (htaken : state'.taken = state.taken)
    (hsignalled : state'.signalled = state.signalled) : state'.Counts val := by
  have hpermits : state'.permits val = state.permits val := by
    rw [SemState.permits, SemState.permits, hsignalled]
  have hleft : state'.sem.val.toInt = state'.permits val - state'.taken := by
    rw [hval, hpermits, htaken]
    exact h.left
  refine ⟨hleft, ?_, fun _ hwaiting => round_returns hleft hwaiting⟩
  rw [htaken, hpermits]
  exact h.taken_le

theorem counts_round (h : state.Counts val) (t : ℕ) : (semNext (.round t) state).Counts val := by
  by_cases hwaiting : state.waiting t = true
  · by_cases hval : 0 < state.sem.val
    · rw [semNext_round_taken hwaiting hval]
      have hpos : 0 < state.sem.val.toInt := Int32.lt_iff_toInt_lt.mp hval
      have hpermits := h.left
      have hleft : (state.sem.val - 1).toInt = state.permits val - (state.taken + 1 : ℕ) := by
        rw [toInt_sub_one hpos, hpermits]
        omega
      refine ⟨hleft, ?_, fun _ hwaiting' => round_returns hleft hwaiting'⟩
      show ((state.taken + 1 : ℕ) : ℤ) ≤ state.permits val
      omega
    · rw [semNext_round_missed hwaiting hval]
      exact h.congr rfl rfl rfl
  · rw [semNext, if_neg hwaiting]
    exact h

theorem counts_signal (h : state.Counts val) (t : ℕ)
    (hroom : val.toInt + (state.signalled + 1 : ℕ) < 2 ^ 31) :
    (semNext (.signal t) state).Counts val := by
  by_cases hwaiting : state.waiting t = true
  · rw [semNext, if_pos hwaiting]
    exact h
  · rw [semNext, if_neg hwaiting]
    have hpermits := h.left
    have hbound := h.taken_le
    have hsum : (state.sem.val + 1).toInt =
        val.toInt + (state.signalled + 1 : ℕ) - (state.taken : ℤ) := by
      rw [SemState.permits] at hpermits
      rw [toInt_add_one (by omega), hpermits]
      omega
    refine ⟨hsum, ?_, fun _ hwaiting' => round_returns hsum hwaiting'⟩
    rw [SemState.permits] at hbound ⊢
    show (state.taken : ℤ) ≤ val.toInt + (state.signalled + 1 : ℕ)
    omega

/-- The number of signals that a step adds. -/
theorem signalled_le (step : SemStep) (state : SemState) :
    (semNext step state).signalled ≤ state.signalled + [step].countP SemStep.signals := by
  cases step with
  | wait t => exact Nat.le_refl _
  | round t =>
    simp only [semNext]
    split_ifs <;> exact Nat.le_refl _
  | signal t =>
    simp only [semNext]
    split_ifs
    · exact Nat.le_succ _
    · exact Nat.le_refl _

theorem counts_next (h : state.Counts val) {step : SemStep}
    (hroom : val.toInt + (state.signalled + [step].countP SemStep.signals : ℕ) < 2 ^ 31) :
    (semNext step state).Counts val := by
  cases step with
  | wait t => exact h.congr rfl rfl rfl
  | round t => exact counts_round h t
  | signal t => exact counts_signal h t hroom

theorem semRun_counts {steps : List SemStep} (h : state.Counts val)
    (hroom : val.toInt + (state.signalled + steps.countP SemStep.signals : ℕ) < 2 ^ 31) :
    EveryState semNext (SemState.Counts val) steps state := by
  induction steps generalizing state with
  | nil => exact h
  | cons step steps ih =>
    have hadded := signalled_le step state
    rw [← List.singleton_append, List.countP_append] at hroom
    exact ⟨h, ih (counts_next h (by omega)) (by omega)⟩

/-- However the calls of any number of threads on a semaphore are interleaved: val is what
sem_init stored, and a permit more for every sem_signal, less one for every sem_wait that has
returned; it never drops below 0; and a thread in sem_wait goes on waiting only while no permit
is left. No signal is lost, as long as val does not overflow. -/
theorem semaphore_counts {steps : List SemStep} (hval : 0 ≤ val.toInt)
    (hroom : val.toInt + (steps.countP SemStep.signals : ℕ) < 2 ^ 31) :
    EveryState semNext (SemState.Counts val) steps (.init val) := by
  refine semRun_counts (counts_init hval) ?_
  have hzero : (SemState.init val).signalled = 0 := rfl
  rw [hzero, Nat.zero_add]
  exact hroom

/-- Two threads wait at a semaphore with one permit, and one signal lets the second one in. -/
def twoWaiters : List SemStep :=
  [.wait 0, .wait 1, .round 0, .round 1, .signal 0, .round 1]

theorem semaphore_counts_two :
    EveryState semNext (SemState.Counts 1) twoWaiters (.init 1) ∧
      (runSteps semNext twoWaiters (.init 1)).taken = 2 :=
  ⟨semaphore_counts (by decide) (by decide), by decide⟩

end Semaphores

end HexaOS.Sync
