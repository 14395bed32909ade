import HexaOS.TaskEvents

/-!
# Pipes

The pipes of pipe.c and the calls on them that are in progress. A call goes on in steps that
others may come between: one pass through the section with interrupts off, in which it moves at
most one byte, and, after a pass that moved none, its look at the other end of the pipe.
-/

namespace HexaOS.Pipes

open HexaOS.RingBuffers HexaOS.Process

/-- MAX_PIPES -/
abbrev maxPipes : ℕ := 16

/-- PIPE_BUF_SIZE -/
abbrev pipeBufSize : ℕ := 4096

instance : NeZero pipeBufSize := ⟨by decide⟩

/-- pipe_t. Its positions are always reduced by the size of the buffer. -/
structure Pipe where
  /-- The bytes. -/
  buf : Fin pipeBufSize → UInt8
  /-- The place of the next byte to write. -/
  head : Fin pipeBufSize
  /-- The place of the next byte to read. -/
  tail : Fin pipeBufSize
  /-- The open ends to read from. -/
  readers : ℤ
  /-- The open ends to write to. -/
  writers : ℤ
  /-- Not 0 when it is closed. -/
  closed : ℤ

/-- The two directions of a call. -/
inductive Direction where
  | read
  | write
  deriving DecidableEq

/-- Where a call in progress stands. -/
inductive Stage where
  /-- At the test of its loop. -/
  | looping
  /-- Behind sti(), with no byte moved in the last pass. -/
  | testing
  /-- Returned, with `total` as its result. -/
  | returned
  deriving DecidableEq

/-- A call of pipe_read or pipe_write, with the buffer of its caller. -/
structure Transfer where
  /-- Reading or writing. -/
  direction : Direction
  /-- `pipe_id % MAX_PIPES` -/
  pipe : Fin maxPipes
  /-- The buffer of the caller. -/
  buf : ℕ → UInt8
  /-- The bytes that are asked for. -/
  len : ℤ
  /-- The bytes moved so far. -/
  total : ℕ
  /-- Where the call stands. -/
  stage : Stage

/-- The statics of pipe.c, the task table that pipe_create uses, and the calls in progress. -/
structure PipeTable where
  /-- The pipes. -/
  pipes : Fin maxPipes → Pipe
  /-- pipe_allocated -/
  allocated : Fin maxPipes → Bool
  /-- The tasks and their descriptors. -/
  procs : Processes
  /-- The calls by the order in which they were made. -/
  calls : ℕ → Option Transfer
  /-- The number of calls made. -/
  made : ℕ

/-- The pipe of a descriptor. A negative remainder is no index of `pipes`. -/
def pipeIndex (pipeId : ℤ) : Option (Fin maxPipes) :=
  if h : 0 ≤ pipeId.tmod maxPipes then
    some ⟨(pipeId.tmod maxPipes).toNat, by
      have hlt := Int.tmod_lt_of_pos pipeId (show (0 : ℤ) < maxPipes by decide)
      omega⟩
  else none

/-- The pipe that pipe_create takes. -/
def freePipe (table : PipeTable) : Option (Fin maxPipes) :=
  (List.finRange maxPipes).find? fun id => !table.allocated id

/-- A new pipe in a slot, whose buffer keeps its bytes. -/
def openPipe (pipe : Pipe) : Pipe :=
  { pipe with head := 0, tail := 0, readers := 1, writers := 1, closed := 0 }

/-- pipe_create, with the two descriptors that it stores. It passes the slot of the current task
where proc_alloc_fd expects a pid. -/
def pipeCreate (table : PipeTable) : ℤ × Option (ℤ × ℤ) × PipeTable :=
  match freePipe table with
  | none => (-1, none, table)
  | some id =>
    let slot : ℤ := table.procs.currentTask.val
    let (readFd, procs) := procAllocFd slot 2 id.val table.procs
    let (writeFd, procs) := procAllocFd slot 2 (id.val + maxPipes) procs
    (0, some (readFd, writeFd), { table with
      allocated := Function.update table.allocated id true
      pipes := Function.update table.pipes id (openPipe (table.pipes id))
      procs := procs })

/-- pipe_close -/
def pipeClose (pipeId : ℤ) (isWriter : Bool) (table : PipeTable) : PipeTable :=
  match pipeIndex pipeId with
  | none => table
  | some id =>
    let pipe := if isWriter then { table.pipes id with writers := (table.pipes id).writers - 1 }
      else { table.pipes id with readers := (table.pipes id).readers - 1 }
    { table with
      pipes := Function.update table.pipes id pipe
      allocated := if pipe.readers = 0 ∧ pipe.writers = 0
        then Function.update table.allocated id false else table.allocated }

/-- The next step of pipe_read. -/
def stepRead (pipe : Pipe) (call : Transfer) : Pipe × Transfer :=
  match call.stage with
  | .looping =>
    if call.total < call.len then
      if pipe.head ≠ pipe.tail then
        ({ pipe with tail := pipe.tail + 1 }, { call with
          buf := Function.update call.buf call.total (pipe.buf pipe.tail)
          total := call.total + 1 })
      else (pipe, { call with stage := .testing })
    else (pipe, { call with stage := .returned })
  | .testing =>
    if pipe.writers = 0 then (pipe, { call with stage := .returned })
    else (pipe, { call with stage := .looping })
  | .returned => (pipe, call)

/-- The next step of pipe_write. -/
def stepWrite (pipe : Pipe) (call : Transfer) : Pipe × Transfer :=
  match call.stage with
  | .looping =>
    if call.total < call.len then
      let next := pipe.head + 1
      if next ≠ pipe.tail then
        ({ pipe with
          buf := Function.update pipe.buf pipe.head (call.buf call.total)
          head := next }, { call with total := call.total + 1 })
      else (pipe, { call with stage := .testing })
    else (pipe, { call with stage := .returned })
  | .testing =>
    if pipe.readers = 0 then (pipe, { call with stage := .returned })
    else (pipe, { call with stage := .looping })
  | .returned => (pipe, call)

/-- The next step of a call. -/
def stepTransfer (pipe : Pipe) (call : Transfer) : Pipe × Transfer :=
  match call.direction with
  | .read => stepRead pipe call
  | .write => stepWrite pipe call

/-- What may happen next to the pipes. -/
inductive PipeStep where
  | create
  | close (pipeId : ℤ) (isWriter : Bool)
  /-- A call of pipe_read or pipe_write begins. -/
  | start (direction : Direction) (pipeId : ℤ) (buf : ℕ → UInt8) (len : ℤ)
  /-- A call takes its next step. -/
  | go (number : ℕ)
  /-- A call on the task table. -/
  | task (call : TaskCall)

/-- The pipes after a step. -/
def PipeStep.after (step : PipeStep) (table : PipeTable) : PipeTable :=
  match step with
  | create => (pipeCreate table).2.2
  | close pipeId isWriter => pipeClose pipeId isWriter table
  | start direction pipeId buf len =>
    match pipeIndex pipeId with
    | none => table
    | some id => { table with
      calls := Function.update table.calls table.made
        (some ⟨direction, id, buf, len, 0, .looping⟩)
      made := table.made + 1 }
  | go number =>
    match table.calls number with
    | none => table
    | some call =>
      let (pipe, call') := stepTransfer (table.pipes call.pipe) call
      { table with
        pipes := Function.update table.pipes call.pipe pipe
        calls := Function.update table.calls number (some call') }
  | task call => { table with procs := call.after table.procs }

/-- The number of open ends on the other side of a call. -/
def Pipe.others (pipe : Pipe) : Direction → ℤ
  | .read => pipe.writers
  | .write => pipe.readers

/-- The ring of a pipe. -/
def Pipe.ring (pipe : Pipe) : Ring pipeBufSize UInt8 := ⟨pipe.buf, pipe.head, pipe.tail⟩

/-- The statics of pipe.c at the boot. -/
def zeroPipes (procs : Processes) : PipeTable where
  pipes _ := ⟨fun _ => 0, 0, 0, 0, 0, 0⟩
  allocated _ := false
  procs := procs
  calls _ := none
  made := 0

end HexaOS.Pipes
