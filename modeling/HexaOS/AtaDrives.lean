import HexaOS.PackedBytes

/-!
# A disk drive behind its ports

A drive with programmed transfers takes a command in its register file. For some reads of the
status it is busy, and then it offers the words of a sector, asks for them or reports an error.
While it is busy or transfers, it takes no registers and no commands. How long it is busy and
which commands fail is up to the drive.
-/

namespace HexaOS.AtaDrives

open PackedBytes

section Drives

/-- The words of a sector. -/
abbrev Words : Type := Vector UInt16 256

/-- How a drive answers a command. -/
structure Answer where
  /-- The reads of the status for which it is busy before that. -/
  delay : ℕ
  /-- It reports an error. -/
  fails : Bool
  /-- The reads of the status for which it is busy behind a transfer to it. -/
  storing : ℕ

/-- What a drive is doing. -/
inductive Phase where
  /-- It waits for a command, with or without an error of the last one. -/
  | idle (failed : Bool)
  /-- It is busy for one read of the status and this many more. -/
  | busy (left : ℕ) (next : Phase)
  /-- The words that are still to be read. -/
  | offers (words : List UInt16)
  /-- The words that were written so far. -/
  | accepts (block : UInt32) (storing : ℕ) (words : List UInt16)

/-- Something happens behind some reads of the status. -/
def Phase.after : ℕ → Phase → Phase
  | 0, next => next
  | left + 1, next => .busy left next

/-- The phase of a transfer from the drive. -/
def Phase.offering : List UInt16 → Phase
  | [] => .idle false
  | words => .offers words

/-- The status and what a read of it leads to: busy, data request, ready and error are the bits
7, 3, 6 and 0. -/
def Phase.status : Phase → UInt8 × Phase
  | .idle failed => (if failed then 0x41 else 0x40, .idle failed)
  | .busy left next => (0x80, .after left next)
  | .offers words => (0x48, .offers words)
  | .accepts block storing words => (0x48, .accepts block storing words)

/-- The registers of a drive that hold values. -/
inductive Register where
  | sectorCount
  | lbaLow
  | lbaMid
  | lbaHigh
  | device
  deriving DecidableEq

/-- A drive. -/
structure Drive where
  /-- The words on the medium. -/
  medium : UInt32 → Words
  /-- What the host reads from the registers. -/
  registers : Register → UInt8
  /-- What the drive is doing. -/
  phase : Phase
  /-- How it answers the commands that it takes, by number. -/
  answers : ℕ → Answer
  /-- The number of commands that it has taken. -/
  commands : ℕ

namespace Drive

/-- The block that the registers name. The device register holds the upper four of 28 bits. -/
def block (drive : Drive) : UInt32 :=
  wordOfBytes (drive.registers .lbaLow) (drive.registers .lbaMid) (drive.registers .lbaHigh)
    (drive.registers .device &&& 0x0F)

/-- A read of the status. -/
def status (drive : Drive) : UInt8 × Drive :=
  (drive.phase.status.1, { drive with phase := drive.phase.status.2 })

/-- A write to a register. -/
def store (drive : Drive) (register : Register) (value : UInt8) : Drive :=
  match drive.phase with
  | .idle _ => { drive with registers := Function.update drive.registers register value }
  | _ => drive

/-- The registers select a single sector by its block address. -/
def selectsSector (drive : Drive) : Bool :=
  drive.registers .sectorCount == 1 && drive.registers .device &&& 0x40 != 0

/-- What a command of the drive starts: READ SECTORS, WRITE SECTORS and FLUSH CACHE. Transfers
of several sectors and addresses by cylinder are refused here. -/
def starts (drive : Drive) (answer : Answer) (command : UInt8) : Phase :=
  if command = 0xE7 then .after answer.delay (.idle answer.fails)
  else if answer.fails || !drive.selectsSector then .after answer.delay (.idle true)
  else if command = 0x20 then
    .after answer.delay (.offering (drive.medium drive.block).toList)
  else if command = 0x30 then .after answer.delay (.accepts drive.block answer.storing [])
  else .after answer.delay (.idle true)

/-- A write to the command register. -/
def command (drive : Drive) (value : UInt8) : Drive :=
  match drive.phase with
  | .idle _ => { drive with
      phase := drive.starts (drive.answers drive.commands) value
      commands := drive.commands + 1 }
  | _ => drive

/-- A read of a data word. -/
def readWord (drive : Drive) : UInt16 × Drive :=
  match drive.phase with
  | .offers (word :: words) => (word, { drive with phase := .offering words })
  | _ => (0, drive)

/-- A write of a data word. The last one of a sector stores it. -/
def writeWord (drive : Drive) (word : UInt16) : Drive :=
  match drive.phase with
  | .accepts block storing words =>
    if h : (words ++ [word]).length = 256 then { drive with
      medium := Function.update drive.medium block ⟨(words ++ [word]).toArray, h⟩
      phase := .after storing (.idle false) }
    else { drive with phase := .accepts block storing (words ++ [word]) }
  | _ => drive

end Drive

end Drives

section Waits

variable {phase next : Phase} {drive : Drive}

/-- A drive that needs nothing to get idle but reads of the status. -/
def Phase.Rests : Phase → Prop
  | .idle _ => True
  | .busy _ next => next.Rests
  | _ => False

/-- The reads of the status until a phase is no longer busy. -/
def Phase.wait : Phase → ℕ
  | .busy left next => left + 1 + next.wait
  | _ => 0

/-- What stands behind the busy time. -/
def Phase.last : Phase → Phase
  | .busy _ next => next.last
  | phase => phase

theorem Phase.wait_after (left : ℕ) : (Phase.after left next).wait = left + next.wait := by
  cases left with
  | zero => rw [after, Nat.zero_add]
  | succ left => rw [after, wait]

theorem Phase.last_after (left : ℕ) : (Phase.after left next).last = next.last := by
  cases left with
  | zero => rfl
  | succ left => rfl

theorem Phase.rests_after (left : ℕ) : (Phase.after left next).Rests ↔ next.Rests := by
  cases left with
  | zero => rfl
  | succ left => rfl

theorem Phase.offering_of_ne {words : List UInt16} (h : words ≠ []) :
    Phase.offering words = .offers words := by
  cases words with
  | nil => exact absurd rfl h
  | cons word words => rfl

/-- A rest ends idle. -/
theorem Phase.Rests.last (h : phase.Rests) : ∃ failed, phase.last = .idle failed := by
  induction phase with
  | idle failed => exact ⟨failed, rfl⟩
  | busy left next ih => exact ih h
  | offers words => exact h.elim
  | accepts block storing words => exact h.elim

/-- What is not busy is its own end. -/
theorem Phase.last_of_wait (h : phase.wait = 0) : phase.last = phase := by
  cases phase with
  | idle failed => rfl
  | busy left next => exact absurd h (by rw [wait]; omega)
  | offers words => rfl
  | accepts block storing words => rfl

/-- A read of the status of a busy drive. -/
theorem Phase.status_busy (h : phase.wait ≠ 0) : phase.status.1 = 0x80 ∧
    phase.status.2.wait + 1 = phase.wait ∧ phase.status.2.last = phase.last ∧
      (phase.Rests → phase.status.2.Rests) := by
  cases phase with
  | idle failed => exact absurd rfl h
  | busy left next =>
    have hrests : next.Rests → (Phase.after left next).Rests := (rests_after left).mpr
    refine ⟨rfl, ?_, last_after left, hrests⟩
    rw [status, wait_after, wait]
    omega
  | offers words => exact absurd rfl h
  | accepts block storing words => exact absurd rfl h

/-- A read of the status of a drive that is not busy changes nothing. -/
theorem Phase.status_ready (h : phase.wait = 0) : phase.status.2 = phase := by
  cases phase with
  | idle failed => rfl
  | busy left next => exact absurd h (by rw [wait]; omega)
  | offers words => rfl
  | accepts block storing words => rfl

/-- A phase in which data is transferred. -/
def Phase.Moves : Phase → Prop
  | .offers _ => True
  | .accepts _ _ _ => True
  | _ => False

/-- Busy shows in the status of a busy drive only. -/
theorem Phase.ready_status (h : phase.wait = 0) : phase.status.1 &&& 0x80 = 0 := by
  cases phase with
  | idle failed => cases failed <;> decide
  | busy left next => exact absurd h (by rw [wait]; omega)
  | offers words => exact (by decide : (0x48 : UInt8) &&& 0x80 = 0)
  | accepts block storing words => exact (by decide : (0x48 : UInt8) &&& 0x80 = 0)

/-- The data request shows in a transfer only. -/
theorem Phase.request_status : phase.status.1 &&& 0x08 ≠ 0 ↔ phase.Moves := by
  have hbusy : ¬(0x80 : UInt8) &&& 0x08 ≠ 0 := by decide
  have hrequest : (0x48 : UInt8) &&& 0x08 ≠ 0 := by decide
  cases phase with
  | idle failed => cases failed <;> exact iff_of_false (by decide) id
  | busy left next => exact iff_of_false hbusy id
  | offers words => exact iff_of_true hrequest trivial
  | accepts block storing words => exact iff_of_true hrequest trivial

end Waits

section Commands

variable {drive : Drive} {failed : Bool} {answer : Answer}

/-- A drive that waits takes a command. -/
theorem Drive.command_idle (h : drive.phase = .idle failed) (value : UInt8) :
    drive.command value = { drive with
      phase := drive.starts (drive.answers drive.commands) value
      commands := drive.commands + 1 } := by
  rw [command, h]

/-- A drive that transfers takes no registers. -/
theorem Drive.store_moves (h : drive.phase.Moves) (register : Register) (value : UInt8) :
    drive.store register value = drive := by
  rw [store]
  cases hphase : drive.phase with
  | idle failed => rw [hphase] at h; exact h.elim
  | busy left next => rfl
  | offers words => rfl
  | accepts block storing words => rfl

/-- A drive that transfers takes no commands. -/
theorem Drive.command_moves (h : drive.phase.Moves) (value : UInt8) :
    drive.command value = drive := by
  rw [command]
  cases hphase : drive.phase with
  | idle failed => rw [hphase] at h; exact h.elim
  | busy left next => rfl
  | offers words => rfl
  | accepts block storing words => rfl

/-- What READ SECTORS starts. -/
theorem Drive.starts_read (h : drive.selectsSector = true) : drive.starts answer 0x20 =
    .after answer.delay
      (if answer.fails then .idle true else .offering (drive.medium drive.block).toList) := by
  have hflush : (0x20 : UInt8) ≠ 0xE7 := by decide
  rw [starts, if_neg hflush, h, Bool.not_true, Bool.or_false, if_pos rfl]
  split <;> rfl

/-- What WRITE SECTORS starts. -/
theorem Drive.starts_write (h : drive.selectsSector = true) : drive.starts answer 0x30 =
    .after answer.delay
      (if answer.fails then .idle true else .accepts drive.block answer.storing []) := by
  have hflush : (0x30 : UInt8) ≠ 0xE7 := by decide
  have hread : (0x30 : UInt8) ≠ 0x20 := by decide
  rw [starts, if_neg hflush, h, Bool.not_true, Bool.or_false, if_neg hread, if_pos rfl]
  split <;> rfl

/-- What FLUSH CACHE starts. -/
theorem Drive.starts_flush : drive.starts answer 0xE7 =
    .after answer.delay (.idle answer.fails) := by
  rw [starts, if_pos rfl]

/-- FLUSH CACHE leaves a drive at rest, whether it takes the command or not. -/
theorem Drive.command_flush (h : drive.phase.Rests) : (drive.command 0xE7).medium = drive.medium ∧
    (drive.command 0xE7).answers = drive.answers ∧ (drive.command 0xE7).phase.Rests ∧
      ((drive.command 0xE7).phase.wait = drive.phase.wait ∨
        (drive.command 0xE7).phase.wait = (drive.answers drive.commands).delay) := by
  cases hphase : drive.phase with
  | idle failed =>
    rw [Drive.command_idle hphase, starts_flush]
    refine ⟨rfl, rfl, (Phase.rests_after _).mpr trivial, .inr ?_⟩
    exact (Phase.wait_after _).trans (Nat.add_zero _)
  | busy left next =>
    have hsame : drive.command 0xE7 = drive := by rw [command, hphase]
    rw [hsame]
    exact ⟨rfl, rfl, h, .inl (congrArg Phase.wait hphase)⟩
  | offers words => rw [hphase] at h; exact h.elim
  | accepts block storing words => rw [hphase] at h; exact h.elim

end Commands

end HexaOS.AtaDrives
