import HexaOS.Pipes
import HexaOS.StepRuns

/-!
# Runs of pipes

The bytes that calls put into each pipe and take out of it since its creation, over every order
of the steps of any number of calls. What a step of a call can do is said once; that nothing is
lost, doubled or reordered follows from the ring. A call that moved no byte looks at the other
end only after it has let others in.
-/

namespace HexaOS.Pipes

open HexaOS.RingBuffers HexaOS.StepRuns HexaOS.Process

/-- A pipe from which, or into which, a call can move nothing. -/
def Stuck (ring : Ring pipeBufSize UInt8) : Direction → Prop
  | .read => ring.Empty
  | .write => ring.Full

instance (ring : Ring pipeBufSize UInt8) : (direction : Direction) → Decidable (Stuck ring
  direction)
  | .read => inferInstanceAs (Decidable ring.Empty)
  | .write => inferInstanceAs (Decidable ring.Full)

/-- The number of bytes in a pipe in which a call is stuck. -/
def stuckSize : Direction → ℕ
  | .read => 0
  | .write => pipeBufSize - 1

/-- What a step of a call can do to its pipe and to the call. -/
inductive Moves (pipe : Pipe) (call : Transfer) : Pipe × Transfer → Prop where
  /-- A byte goes out of the pipe. -/
  | took :
      call.direction = .read → call.stage = .looping → ¬pipe.ring.Empty →
      Moves pipe call ({ pipe with tail := pipe.tail + 1 }, { call with
        buf := Function.update call.buf call.total (pipe.buf pipe.tail)
        total := call.total + 1
        stage := .looping })
  /-- A byte comes into the pipe. -/
  | gave :
      call.direction = .write → call.stage = .looping → ¬pipe.ring.Full →
      Moves pipe call ({ pipe with
        buf := Function.update pipe.buf pipe.head (call.buf call.total), head := pipe.head + 1 },
        { call with total := call.total + 1, stage := .looping })
  /-- No byte can be moved. -/
  | missed :
      call.stage = .looping → (call.total : ℤ) < call.len → Stuck pipe.ring call.direction →
      Moves pipe call (pipe, { call with stage := .testing })
  /-- All bytes have been moved. -/
  | finished :
      call.stage = .looping → ¬(call.total : ℤ) < call.len →
      Moves pipe call (pipe, { call with stage := .returned })
  /-- The other end is closed. -/
  | stopped :
      call.stage = .testing → pipe.others call.direction = 0 →
      Moves pipe call (pipe, { call with stage := .returned })
  /-- The other end is open. -/
  | again :
      call.stage = .testing → pipe.others call.direction ≠ 0 →
      Moves pipe call (pipe, { call with stage := .looping })
  /-- The call has returned. -/
  | rests : call.stage = .returned → Moves pipe call (pipe, call)

section Steps

variable (pipe : Pipe) (call : Transfer)

/-- A step of pipe_read. -/
theorem stepRead_moves (hread : call.direction = .read) :
    Moves pipe call (stepRead pipe call) := by
  unfold stepRead
  cases hstage : call.stage with
  | looping =>
    dsimp only
    split_ifs with hmore hsome
    · exact .took hread hstage hsome
    · exact .missed hstage hmore (hread ▸ not_not.mp hsome)
    · exact .finished hstage hmore
  | testing =>
    dsimp only
    split_ifs with hclosed
    · exact .stopped hstage (hread ▸ hclosed)
    · exact .again hstage (hread ▸ hclosed)
  | returned => exact .rests hstage

/-- A step of pipe_write. -/
theorem stepWrite_moves (hwrite : call.direction = .write) :
    Moves pipe call (stepWrite pipe call) := by
  unfold stepWrite
  cases hstage : call.stage with
  | looping =>
    dsimp only
    split_ifs with hmore hroom
    · exact .gave hwrite hstage hroom
    · exact .missed hstage hmore (hwrite ▸ not_not.mp hroom)
    · exact .finished hstage hmore
  | testing =>
    dsimp only
    split_ifs with hclosed
    · exact .stopped hstage (hwrite ▸ hclosed)
    · exact .again hstage (hwrite ▸ hclosed)
  | returned => exact .rests hstage

/-- A step of a call. -/
theorem stepTransfer_moves : Moves pipe call (stepTransfer pipe call) := by
  cases hdirection : call.direction with
  | read =>
    rw [stepTransfer, hdirection]
    exact stepRead_moves pipe call hdirection
  | write =>
    rw [stepTransfer, hdirection]
    exact stepWrite_moves pipe call hdirection

end Steps

/-- What the history knows of a call. -/
structure CallRecord where
  /-- The number of bytes that it has moved. -/
  moved : ℕ
  /-- The life of its pipe in which it was made. -/
  life : ℕ
  /-- The number of bytes that had come into the pipe when it last was stuck. -/
  cameIn : ℕ
  /-- The number of bytes that had gone out of the pipe when it last was stuck. -/
  wentOut : ℕ

/-- The pipes, what has gone through each since its creation, how often each was created, and the
calls. -/
structure PipeHistory where
  /-- The pipes and the calls on them. -/
  table : PipeTable
  /-- What went through each pipe. -/
  traffic : Fin maxPipes → Traffic UInt8
  /-- How often each pipe was made. -/
  lives : Fin maxPipes → ℕ
  /-- What each call has moved. -/
  records : ℕ → CallRecord

/-- What goes through a pipe in a step of a call: a byte out of the buffer of a writer, or into
that of a reader. -/
def trafficAfter (call call' : Transfer) (traffic : Traffic UInt8) : Traffic UInt8 :=
  if call'.total = call.total + 1 then
    match call.direction with
    | .read => traffic.remove (call'.buf call.total)
    | .write => traffic.insert (call.buf call.total)
  else traffic

/-- What the history knows of a call after its step. -/
def recordAfter (call call' : Transfer) (traffic : Traffic UInt8) (record : CallRecord) :
    CallRecord :=
  if call'.total = call.total + 1 then { record with moved := record.moved + 1 }
  else if call.stage = .looping ∧ call'.stage = .testing then
    { record with cameIn := traffic.inserted.length, wentOut := traffic.removed.length }
  else record

/-- The history after a step. -/
def PipeHistory.after (step : PipeStep) (history : PipeHistory) : PipeHistory :=
  match step with
  | .create =>
    match freePipe history.table with
    | none => { history with table := step.after history.table }
    | some id => { history with
      table := step.after history.table
      traffic := Function.update history.traffic id ⟨[], []⟩
      lives := Function.update history.lives id (history.lives id + 1) }
  | .start _ pipeId _ _ =>
    match pipeIndex pipeId with
    | none => { history with table := step.after history.table }
    | some id => { history with
      table := step.after history.table
      records := Function.update history.records history.table.made
        ⟨0, history.lives id, 0, 0⟩ }
  | .go number =>
    match history.table.calls number with
    | none => { history with table := step.after history.table }
    | some call =>
      let call' := (stepTransfer (history.table.pipes call.pipe) call).2
      { history with
        table := step.after history.table
        traffic := Function.update history.traffic call.pipe
          (trafficAfter call call' (history.traffic call.pipe))
        records := Function.update history.records number
          (recordAfter call call' (history.traffic call.pipe) (history.records number)) }
  | .close .. | .task _ => { history with table := step.after history.table }

/-- The history at the boot. -/
def PipeHistory.boot (procs : Processes) : PipeHistory where
  table := zeroPipes procs
  traffic _ := ⟨[], []⟩
  lives _ := 0
  records _ := ⟨0, 0, 0, 0⟩

/-- A call that belongs to the life of its pipe that goes on. -/
def PipeHistory.Current (history : PipeHistory) (number : ℕ) (call : Transfer) : Prop :=
  history.table.allocated call.pipe = true ∧
    (history.records number).life = history.lives call.pipe

/-- What the pipes owe after a step. -/
structure PipeLaw (step : PipeStep) (history : PipeHistory) : Prop where
  /-- The bytes that came into a pipe have gone out in that order or are still there. -/
  fits : ∀ id, ((history.after step).traffic id).Fits
    ((history.after step).table.pipes id).ring
  /-- At most 4095 bytes are stored. -/
  bounded : ∀ id, ((history.after step).table.pipes id).ring.contents.length ≤ 4095
  /-- The result of a call is the number of bytes that it has moved. -/
  counted : ∀ number call, (history.after step).table.calls number = some call →
    call.stage = .returned → call.total = ((history.after step).records number).moved
  /-- A call that returns before its last byte is stuck, and the other end is closed. -/
  short : ∀ number call call', step = .go number → history.table.calls number = some call →
    history.Current number call → call.stage ≠ .returned →
    (history.after step).table.calls number = some call' → call'.stage = .returned →
    (call'.total : ℤ) < call'.len →
    Stuck ((history.after step).table.pipes call.pipe).ring call.direction ∧
      ((history.after step).table.pipes call.pipe).others call.direction = 0

/-- When a call that was stuck finds the other end closed, as many bytes have come into the pipe
as have gone out of it since. -/
def Undisturbed (step : PipeStep) (history : PipeHistory) : Prop :=
  ∀ number call, step = .go number → history.table.calls number = some call →
    history.Current number call → call.stage = .testing →
    (history.table.pipes call.pipe).others call.direction = 0 →
    (history.traffic call.pipe).inserted.length + (history.records number).wentOut =
      (history.traffic call.pipe).removed.length + (history.records number).cameIn

/-- What holds of the history in every state. -/
structure PipeInv (history : PipeHistory) : Prop where
  /-- A ring holds what was written and not read. -/
  fits : ∀ id, (history.traffic id).Fits (history.table.pipes id).ring
  /-- A call has moved what it counts. -/
  counted : ∀ number call, history.table.calls number = some call →
    (history.records number).moved = call.total
  /-- A call belongs to a life of its pipe. -/
  lives : ∀ number call, history.table.calls number = some call →
    (history.records number).life ≤ history.lives call.pipe
  /-- A call that was stuck has bytes to move, and knows how many were in its pipe. -/
  stuck : ∀ number call, history.table.calls number = some call → call.stage = .testing →
    (history.records number).life = history.lives call.pipe →
    (call.total : ℤ) < call.len ∧ (history.records number).cameIn =
      (history.records number).wentOut + stuckSize call.direction

section Moving

variable {pipe pipe' : Pipe} {call call' : Transfer} {traffic : Traffic UInt8}
  {record : CallRecord}

/-- A call is stuck when its pipe holds a certain number of bytes. -/
theorem stuck_iff_size (ring : Ring pipeBufSize UInt8) (direction : Direction) :
    Stuck ring direction ↔ ring.size = stuckSize direction := by
  cases direction with
  | read => exact Ring.size_eq_zero_iff.symm
  | write =>
    have hfull : ring.Full ↔ ring.size + 1 = 4096 := Ring.full_iff_size ring
    show ring.Full ↔ ring.size = 4095
    rw [hfull]
    omega

/-- A call keeps its pipe, its direction and its length. -/
theorem Moves.same (h : Moves pipe call (pipe', call')) :
    call'.pipe = call.pipe ∧ call'.direction = call.direction ∧ call'.len = call.len := by
  cases h with
  | _ => exact ⟨rfl, rfl, rfl⟩

/-- The bytes after a step. -/
theorem Moves.fits (h : Moves pipe call (pipe', call')) (hfits : traffic.Fits pipe.ring) :
    (trafficAfter call call' traffic).Fits pipe'.ring := by
  have hstays : ∀ stage, trafficAfter call { call with stage := stage } traffic = traffic :=
    fun stage => if_neg (by simp)
  cases h with
  | took hread hstage hsome =>
    have htraffic : trafficAfter call { call with
        buf := Function.update call.buf call.total (pipe.buf pipe.tail)
        total := call.total + 1
        stage := .looping } traffic = traffic.remove pipe.ring.front := by
      rw [trafficAfter, if_pos rfl, hread]
      dsimp only
      rw [Function.update_self]
      rfl
    rw [htraffic]
    exact hfits.pop hsome
  | gave hwrite hstage hroom =>
    have htraffic : trafficAfter call { call with
        total := call.total + 1, stage := .looping } traffic =
        traffic.insert (call.buf call.total) := by
      rw [trafficAfter, if_pos rfl, hwrite]
    rw [htraffic]
    exact hfits.push _ hroom
  | missed | finished | stopped | again =>
    rw [hstays]
    exact hfits
  | rests =>
    have hsame : trafficAfter call call traffic = traffic := hstays call.stage
    rw [hsame]
    exact hfits

/-- The count after a step. -/
theorem Moves.counted (h : Moves pipe call (pipe', call')) (hcount : record.moved = call.total) :
    (recordAfter call call' traffic record).moved = call'.total := by
  unfold recordAfter
  cases h with
  | took | gave =>
    rw [if_pos rfl, hcount]
  | missed | finished | stopped | again | rests =>
    rw [if_neg (by simp)]
    split
    · exact hcount
    · exact hcount

/-- The life of a call. -/
theorem recordAfter_life (call call' : Transfer) (traffic : Traffic UInt8)
    (record : CallRecord) : (recordAfter call call' traffic record).life = record.life := by
  unfold recordAfter
  split_ifs with hmoved hmissed
  · rfl
  · rfl
  · rfl

/-- A call that is stuck after a step knows how many bytes were in its pipe. -/
theorem Moves.stuck (h : Moves pipe call (pipe', call')) (hfits : traffic.Fits pipe.ring)
    (hstage : call'.stage = .testing) :
    (call'.total : ℤ) < call'.len ∧ (recordAfter call call' traffic record).cameIn =
      (recordAfter call call' traffic record).wentOut + stuckSize call.direction := by
  cases h with
  | missed hlooping hmore hstuck =>
    have hsize := (stuck_iff_size pipe.ring call.direction).mp hstuck
    have hlength := hfits.length
    have hrecord : recordAfter call { call with stage := .testing } traffic record =
        { record with cameIn := traffic.inserted.length, wentOut := traffic.removed.length } := by
      rw [recordAfter, if_neg (by simp), if_pos ⟨hlooping, rfl⟩]
    rw [hrecord, ← hsize]
    exact ⟨hmore, hlength.symm⟩
  | rests hreturned =>
    rw [hreturned] at hstage
    exact absurd hstage Stage.noConfusion
  | took | gave | finished | stopped | again => exact absurd hstage Stage.noConfusion

/-- A call that returns before its last byte found the other end closed. -/
theorem Moves.short (h : Moves pipe call (pipe', call')) (hbefore : call.stage ≠ .returned)
    (hafter : call'.stage = .returned) (hless : (call'.total : ℤ) < call'.len) :
    call.stage = .testing ∧ pipe.others call.direction = 0 ∧ pipe' = pipe := by
  cases h with
  | stopped htesting hclosed => exact ⟨htesting, hclosed, rfl⟩
  | finished _ hall => exact absurd hless hall
  | rests hreturned => exact absurd hreturned hbefore
  | took | gave | missed | again => exact absurd hafter Stage.noConfusion

/-- A call that was stuck and finds the other end closed returns. -/
theorem Moves.stopped_of (h : Moves pipe call (pipe', call')) (htesting : call.stage = .testing)
    (hclosed : pipe.others call.direction = 0) :
    call' = { call with stage := .returned } ∧ pipe' = pipe := by
  cases h with
  | stopped => exact ⟨rfl, rfl⟩
  | again _ hopen => exact absurd hclosed hopen
  | rests hreturned =>
    rw [htesting] at hreturned
    exact absurd hreturned Stage.noConfusion
  | took _ hlooping | gave _ hlooping | missed hlooping | finished hlooping =>
    rw [htesting] at hlooping
    exact absurd hlooping Stage.noConfusion

end Moving

section Keeping

variable {history : PipeHistory}

/-- A step that leaves the rings, what has gone through them, and the calls. -/
theorem PipeInv.same {history' : PipeHistory} (h : PipeInv history)
    (hrings : ∀ id, (history'.table.pipes id).ring = (history.table.pipes id).ring)
    (htraffic : history'.traffic = history.traffic) (hlives : history'.lives = history.lives)
    (hcalls : history'.table.calls = history.table.calls)
    (hrecords : history'.records = history.records) : PipeInv history' where
  fits id := by
    rw [htraffic, hrings]
    exact h.fits id
  counted := by
    rw [hcalls, hrecords]
    exact h.counted
  lives := by
    rw [hcalls, hrecords, hlives]
    exact h.lives
  stuck := by
    rw [hcalls, hrecords, hlives]
    exact h.stuck

/-- pipe_close leaves the bytes of all pipes. -/
theorem pipeClose_ring (pipeId : ℤ) (isWriter : Bool) (table : PipeTable) (id : Fin maxPipes) :
    ((pipeClose pipeId isWriter table).pipes id).ring = (table.pipes id).ring := by
  unfold pipeClose
  cases pipeIndex pipeId with
  | none => rfl
  | some closed =>
    dsimp only
    by_cases hne : id = closed
    · rw [hne, Function.update_self]
      cases isWriter with
      | _ => rfl
    · rw [Function.update_of_ne hne]

/-- pipe_create opens an empty pipe. -/
theorem PipeInv.create (h : PipeInv history) : PipeInv (history.after .create) := by
  simp only [PipeHistory.after, PipeStep.after, pipeCreate]
  cases hfree : freePipe history.table with
  | none => exact h.same (fun _ => rfl) rfl rfl rfl rfl
  | some id =>
    have hlater : ∀ number call, history.table.calls number = some call →
        (history.records number).life ≤
          Function.update history.lives id (history.lives id + 1) call.pipe ∧
        ((history.records number).life =
          Function.update history.lives id (history.lives id + 1) call.pipe →
          (history.records number).life = history.lives call.pipe) := by
      intro number call hcall
      have hle := h.lives number call hcall
      by_cases hne : call.pipe = id
      · rw [hne] at hle ⊢
        rw [Function.update_self]
        omega
      · rw [Function.update_of_ne hne]
        exact ⟨hle, fun hlife => hlife⟩
    refine ⟨fun other => ?_, h.counted, fun number call hcall => (hlater number call hcall).1,
      fun number call hcall hstage hlife => h.stuck number call hcall hstage
        ((hlater number call hcall).2 hlife)⟩
    dsimp only
    by_cases hne : other = id
    · rw [hne, Function.update_self, Function.update_self]
      exact Traffic.fits_start rfl
    · rw [Function.update_of_ne hne, Function.update_of_ne hne]
      exact h.fits other

/-- A new call has moved nothing. -/
theorem PipeInv.start (h : PipeInv history) (direction : Direction) (pipeId : ℤ)
    (buf : ℕ → UInt8) (len : ℤ) :
    PipeInv (history.after (.start direction pipeId buf len)) := by
  simp only [PipeHistory.after, PipeStep.after]
  cases pipeIndex pipeId with
  | none => exact h.same (fun _ => rfl) rfl rfl rfl rfl
  | some id =>
    refine ⟨h.fits, fun number call hcall => ?_, fun number call hcall => ?_,
      fun number call hcall => ?_⟩
    all_goals
      dsimp only at hcall ⊢
      by_cases hne : number = history.table.made
    · rw [hne, Function.update_self] at hcall
      rw [hne, Function.update_self, ← Option.some.inj hcall]
    · rw [Function.update_of_ne hne] at hcall
      rw [Function.update_of_ne hne]
      exact h.counted number call hcall
    · rw [hne, Function.update_self] at hcall
      rw [hne, Function.update_self, ← Option.some.inj hcall]
    · rw [Function.update_of_ne hne] at hcall
      rw [Function.update_of_ne hne]
      exact h.lives number call hcall
    · rw [hne, Function.update_self] at hcall
      rw [← Option.some.inj hcall]
      exact fun hstage => absurd hstage Stage.noConfusion
    · rw [Function.update_of_ne hne] at hcall
      rw [Function.update_of_ne hne]
      exact h.stuck number call hcall

/-- A step of a call. -/
theorem PipeInv.go (h : PipeInv history) (number : ℕ) : PipeInv (history.after (.go number)) := by
  simp only [PipeHistory.after, PipeStep.after]
  cases hfound : history.table.calls number with
  | none => exact h.same (fun _ => rfl) rfl rfl rfl rfl
  | some call =>
    have hmoves := stepTransfer_moves (history.table.pipes call.pipe) call
    have hfits := h.fits call.pipe
    dsimp only
    generalize hpair : stepTransfer (history.table.pipes call.pipe) call = pair at hmoves
    obtain ⟨pipe', call'⟩ := pair
    obtain ⟨hpipe, hdirection, _⟩ := hmoves.same
    refine ⟨fun id => ?_, fun other found hother => ?_, fun other found hother => ?_,
      fun other found hother hstage hlife => ?_⟩
    · dsimp only
      by_cases hne : id = call.pipe
      · rw [hne, Function.update_self, Function.update_self]
        exact hmoves.fits hfits
      · rw [Function.update_of_ne hne, Function.update_of_ne hne]
        exact h.fits id
    all_goals
      dsimp only at *
      by_cases hne : other = number
    · rw [hne, Function.update_self] at hother
      rw [hne, Function.update_self, ← Option.some.inj hother]
      exact hmoves.counted (h.counted number call hfound)
    · rw [Function.update_of_ne hne] at hother
      rw [Function.update_of_ne hne]
      exact h.counted other found hother
    · rw [hne, Function.update_self] at hother
      rw [hne, Function.update_self, ← Option.some.inj hother, recordAfter_life, hpipe]
      exact h.lives number call hfound
    · rw [Function.update_of_ne hne] at hother
      rw [Function.update_of_ne hne]
      exact h.lives other found hother
    · rw [hne, Function.update_self] at hother
      rw [hne, Function.update_self, ← Option.some.inj hother, hdirection]
      rw [← Option.some.inj hother] at hstage
      exact hmoves.stuck hfits hstage
    · rw [Function.update_of_ne hne] at hother hlife
      rw [Function.update_of_ne hne]
      exact h.stuck other found hother hstage hlife

/-- Every step keeps what holds of the history. -/
theorem PipeInv.after (h : PipeInv history) (step : PipeStep) : PipeInv (history.after step) := by
  cases step with
  | create => exact h.create
  | close pipeId isWriter =>
    refine h.same (pipeClose_ring pipeId isWriter history.table) rfl rfl ?_ rfl
    show (pipeClose pipeId isWriter history.table).calls = _
    unfold pipeClose
    cases pipeIndex pipeId with
    | none => rfl
    | some id => rfl
  | start direction pipeId buf len => exact h.start direction pipeId buf len
  | go number => exact h.go number
  | task call => exact h.same (fun _ => rfl) rfl rfl rfl rfl

/-- A call after its step, and its pipe. -/
theorem go_after {number : ℕ} {call : Transfer} (h : history.table.calls number = some call) :
    ∃ pipe' call', Moves (history.table.pipes call.pipe) call (pipe', call') ∧
      (history.after (.go number)).table.calls number = some call' ∧
      (history.after (.go number)).table.pipes call.pipe = pipe' := by
  refine ⟨_, _, stepTransfer_moves (history.table.pipes call.pipe) call, ?_⟩
  simp only [PipeHistory.after, PipeStep.after, h]
  exact ⟨Function.update_self _ _ _, Function.update_self _ _ _⟩

/-- While a call is stuck, the bytes that have come in and gone out since say whether its pipe
is as it was. -/
theorem PipeInv.stuck_iff (h : PipeInv history) {number : ℕ} {call : Transfer}
    (hfound : history.table.calls number = some call) (hstage : call.stage = .testing)
    (hcurrent : history.Current number call) :
    Stuck (history.table.pipes call.pipe).ring call.direction ↔
      (history.traffic call.pipe).inserted.length + (history.records number).wentOut =
        (history.traffic call.pipe).removed.length + (history.records number).cameIn := by
  have hlength := (h.fits call.pipe).length
  have hseen := (h.stuck number call hfound hstage hcurrent.2).2
  rw [stuck_iff_size]
  omega

/-- A step keeps the law of the pipes exactly when no call is disturbed between being stuck and
finding the other end closed. -/
theorem PipeInv.law_iff (step : PipeStep) (history : PipeHistory) (h : PipeInv history) :
    PipeLaw step history ↔ Undisturbed step history := by
  have hinv := h.after step
  constructor
  · intro hlaw number call hstep hfound hcurrent hstage hclosed
    subst hstep
    have ⟨pipe', call', hmoves, hcalls, hpipes⟩ := go_after hfound
    have ⟨hreturned, hsame⟩ := hmoves.stopped_of hstage hclosed
    have hless := (h.stuck number call hfound hstage hcurrent.2).1
    rw [hreturned] at hcalls
    have hstuck := (hlaw.short number call _ rfl hfound hcurrent (by rw [hstage]; decide) hcalls rfl
      hless).1
    rw [hpipes, hsame] at hstuck
    exact (h.stuck_iff hfound hstage hcurrent).mp hstuck
  · intro hcalm
    refine ⟨hinv.fits, fun id => ?_, fun number call hcall _ => (hinv.counted number call
      hcall).symm,
      fun number call call' hstep hfound hcurrent hbefore hcall' hreturned hless => ?_⟩
    · have hlt := ((history.after step).table.pipes id).ring.size_lt
      rw [Ring.length_contents]
      exact Nat.le_of_lt_succ hlt
    · subst hstep
      have ⟨pipe', found, hmoves, hcalls, hpipes⟩ := go_after hfound
      have heq : found = call' := Option.some.inj (hcalls.symm.trans hcall')
      rw [← heq] at hreturned hless
      have ⟨hstage, hclosed, hsame⟩ := hmoves.short hbefore hreturned hless
      rw [hpipes, hsame]
      exact ⟨(h.stuck_iff hfound hstage hcurrent).mpr
        (hcalm number call rfl hfound hcurrent hstage hclosed), hclosed⟩

/-- The history at the boot. -/
theorem PipeInv.boot (procs : Processes) : PipeInv (PipeHistory.boot procs) where
  fits _ := Traffic.fits_start rfl
  counted _ _ hcall := nomatch hcall
  lives _ _ hcall := nomatch hcall
  stuck _ _ hcall := nomatch hcall

end Keeping

/-- Over every order of steps of any number of calls on any pipes, the bytes that come out of a
pipe are those that went in, in that order, at most 4095 are stored, and every call returns the
number of bytes that it moved. That a call returns before its last byte only while its pipe is
empty (full, for a writer) and the other end is closed holds exactly when, whenever a stuck call
finds the other end closed, as many bytes have come in as have gone out since it was stuck. -/
theorem pipeLaw_iff_undisturbed (procs : Processes) (steps : List PipeStep) :
    EveryStep PipeHistory.after PipeLaw steps (PipeHistory.boot procs) ↔
      EveryStep PipeHistory.after Undisturbed steps (PipeHistory.boot procs) :=
  everyStep_congr (fun step _ h => PipeInv.after h step) PipeInv.law_iff (PipeInv.boot procs)

/-- A call that is stuck goes on before anything else happens. -/
def Prompt (step : PipeStep) (history : PipeHistory) : Prop :=
  ∀ number call, history.table.calls number = some call → call.stage = .testing →
    step = .go number

/-- Nothing has gone through its pipe since a call was stuck. -/
def StuckNow (history : PipeHistory) : Prop :=
  ∀ number call, history.table.calls number = some call → call.stage = .testing →
    (history.records number).cameIn = (history.traffic call.pipe).inserted.length ∧
      (history.records number).wentOut = (history.traffic call.pipe).removed.length

section Prompt

variable {history : PipeHistory} {step : PipeStep}

/-- Without a stuck call before a step, there is none after it that did not go. -/
theorem StuckNow.of_none {history' : PipeHistory}
    (hnone : ∀ number call, history.table.calls number = some call → call.stage ≠ .testing)
    (hcalls : ∀ number call, history'.table.calls number = some call →
      history.table.calls number = some call ∨ call.stage = .looping) :
    StuckNow history' := by
  intro number call hcall hstage
  rcases hcalls number call hcall with hold | hlooping
  · exact absurd hstage (hnone number call hold)
  · rw [hstage] at hlooping
    exact absurd hlooping Stage.noConfusion

/-- What a call sees when it is stuck. -/
theorem Moves.stuckNow {pipe pipe' : Pipe} {call call' : Transfer}
    (h : Moves pipe call (pipe', call')) (hstage : call'.stage = .testing)
    (traffic : Traffic UInt8) (record : CallRecord) :
    trafficAfter call call' traffic = traffic ∧
    (recordAfter call call' traffic record).cameIn = traffic.inserted.length ∧
      (recordAfter call call' traffic record).wentOut = traffic.removed.length := by
  cases h with
  | missed hlooping =>
    refine ⟨if_neg (by simp), ?_⟩
    rw [recordAfter, if_neg (by simp), if_pos ⟨hlooping, rfl⟩]
    exact ⟨rfl, rfl⟩
  | rests hreturned =>
    rw [hreturned] at hstage
    exact absurd hstage Stage.noConfusion
  | took | gave | finished | stopped | again => exact absurd hstage Stage.noConfusion

/-- A prompt step leaves no time to a stuck call. -/
theorem Prompt.stuckNow (hprompt : Prompt step history) : StuckNow (history.after step) := by
  have hnone : (∀ number, step ≠ .go number) →
      ∀ number call, history.table.calls number = some call → call.stage ≠ .testing :=
    fun hother number call hcall hstage => hother number (hprompt number call hcall hstage)
  cases step with
  | create =>
    refine StuckNow.of_none (hnone (by rintro _ ⟨⟩)) fun number call hcall => .inl ?_
    simp only [PipeHistory.after, PipeStep.after, pipeCreate] at hcall
    cases hfree : freePipe history.table with
    | none =>
      rw [hfree] at hcall
      exact hcall
    | some id =>
      rw [hfree] at hcall
      exact hcall
  | close pipeId isWriter =>
    refine StuckNow.of_none (hnone (by rintro _ ⟨⟩)) fun number call hcall => .inl ?_
    simp only [PipeHistory.after, PipeStep.after, pipeClose] at hcall
    cases hindex : pipeIndex pipeId with
    | none =>
      rw [hindex] at hcall
      exact hcall
    | some id =>
      rw [hindex] at hcall
      exact hcall
  | start direction pipeId buf len =>
    refine StuckNow.of_none (hnone (by rintro _ ⟨⟩)) fun number call hcall => ?_
    simp only [PipeHistory.after, PipeStep.after] at hcall
    cases hindex : pipeIndex pipeId with
    | none =>
      rw [hindex] at hcall
      exact .inl hcall
    | some id =>
      rw [hindex] at hcall
      dsimp only at hcall
      by_cases hne : number = history.table.made
      · rw [hne, Function.update_self] at hcall
        rw [← Option.some.inj hcall]
        exact .inr rfl
      · rw [Function.update_of_ne hne] at hcall
        exact .inl hcall
  | task call =>
    exact StuckNow.of_none (hnone (by rintro _ ⟨⟩)) fun number call hcall => .inl hcall
  | go number =>
    intro other found hother hstage
    cases hfound : history.table.calls number with
    | none =>
      simp only [PipeHistory.after, PipeStep.after, hfound] at hother
      have hequal := hprompt other found hother hstage
      rw [← PipeStep.go.inj hequal, hfound] at hother
      cases hother
    | some call =>
      have hmoves := stepTransfer_moves (history.table.pipes call.pipe) call
      simp only [PipeHistory.after, PipeStep.after, hfound] at hother ⊢
      generalize stepTransfer (history.table.pipes call.pipe) call = pair at hmoves hother
      obtain ⟨pipe', call'⟩ := pair
      have hpipe := hmoves.same.1
      by_cases hne : other = number
      · rw [hne, Function.update_self] at hother
        rw [← Option.some.inj hother] at hstage ⊢
        obtain ⟨htraffic, hcame, hwent⟩ := hmoves.stuckNow hstage (history.traffic call.pipe)
          (history.records number)
        rw [hne, Function.update_self, hpipe, Function.update_self, htraffic]
        exact ⟨hcame, hwent⟩
      · rw [Function.update_of_ne hne] at hother
        have hequal := hprompt other found hother hstage
        exact absurd (PipeStep.go.inj hequal).symm hne

/-- While every stuck call goes on before anything else happens, the pipes keep their law. -/
theorem pipeLaw_of_prompt (procs : Processes) {steps : List PipeStep}
    (hsteps : EveryStep PipeHistory.after Prompt steps (PipeHistory.boot procs)) :
    EveryStep PipeHistory.after PipeLaw steps (PipeHistory.boot procs) := by
  have hboot : StuckNow (PipeHistory.boot procs) := fun _ _ hcall => nomatch hcall
  refine hsteps.imp_of_invariant (fun step history (h : PipeInv history ∧ StuckNow history)
    hprompt =>
    ⟨h.1.after step, hprompt.stuckNow⟩) (fun step history h hprompt => ?_)
    ⟨PipeInv.boot procs, hboot⟩
  refine (h.1.law_iff step history).mpr fun number call hstep hfound hcurrent hstage _ => ?_
  have ⟨hcame, hwent⟩ := h.2 number call hfound hstage
  rw [hcame, hwent]
  exact Nat.add_comm _ _

end Prompt

/-- A reader finds the pipe empty; a writer puts a byte into it and closes its end; the reader
finds that end closed and returns with the byte in the pipe. -/
theorem pipeLaw_disturbed : ¬EveryStep PipeHistory.after PipeLaw
    [.create, .start .read 0 (fun _ => 0) 1, .go 0, .start .write 0 (fun _ => 7) 1, .go 1,
      .close 0 true, .go 0] (PipeHistory.boot zeroProcesses) := by
  intro hsteps
  have hlaw := hsteps.2.2.2.2.2.2.1
  have hshort := hlaw.short 0 _ _ rfl rfl ⟨by decide +kernel, by decide +kernel⟩
    (by decide +kernel) rfl (by decide +kernel) (by decide +kernel)
  exact absurd hshort.1 (by decide +kernel)

end HexaOS.Pipes
