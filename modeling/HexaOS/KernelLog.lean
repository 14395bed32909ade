import HexaOS.HexafsState
import HexaOS.RingBuffers

/-!
# The kernel log

log.c keeps the characters of the log in a ring of 4096 cells, with a count beside the two
positions. The ring holds one character less than it has cells, but the count goes on to the
number of cells, so it is one too large once the ring is full.
-/

namespace HexaOS.KernelLog

open Hexafs RingBuffers

/-- LOG_RING_SIZE -/
def logRingSize : ℕ := 4096

instance : NeZero logRingSize := ⟨by decide⟩

/-- The statics of log.c. -/
structure LogMemory where
  /-- log_ring, with log_head and log_tail. -/
  ring : Ring logRingSize UInt8
  /-- log_count -/
  count : ℕ

/-- The part of the loop of log_write that stores one character. -/
def logPut (c : UInt8) (log : LogMemory) : LogMemory where
  ring := log.ring.overwrite c
  count := if log.count < logRingSize then log.count + 1 else log.count

/-- The characters that log_write stores: at most 120 of the message, and a newline. -/
def logged (msg : CString) : List UInt8 := msg.chars.take 120 ++ [10]

/-- log_write -/
def logWrite (msg : CString) (log : LogMemory) : LogMemory :=
  (logged msg).foldl (fun log c => logPut c log) log

/-- "Log system initialized" -/
def initMessage : CString :=
  CString.ofBytes ("Log system initialized".toList.map fun c => UInt8.ofNat c.toNat)

/-- log_init. The cells keep what they hold. -/
def logInit (log : LogMemory) : LogMemory :=
  logWrite initMessage ⟨{ log.ring with head := 0, tail := 0 }, 0⟩

/-- The characters that log_dump goes over. -/
def logDump (log : LogMemory) : List UInt8 := log.ring.readFrom logRingSize log.ring.tail

/-- log_get. Its buffer has 64 characters. -/
def logGet (log : LogMemory) : List UInt8 := log.ring.readFrom 63 log.ring.tail

/-- log_get_count -/
def logGetCount (log : LogMemory) : ℕ := log.count

/-- The memory after log_init and calls of log_write. -/
def logAll (msgs : List CString) (log : LogMemory) : LogMemory :=
  msgs.foldl (fun log msg => logWrite msg log) (logInit log)

/-- What log_init and calls of log_write were given, cut and ended. -/
def loggedAll (msgs : List CString) : List UInt8 := (initMessage :: msgs).flatMap logged

section Characters

variable {log : LogMemory} {msgs : List CString}

/-- Characters that are stored one after the other. -/
theorem foldl_logPut (chars : List UInt8) (log : LogMemory) (hcount : log.count ≤ logRingSize) :
    chars.foldl (fun log c => logPut c log) log =
      ⟨log.ring.overwriteAll chars, min (log.count + chars.length) logRingSize⟩ := by
  induction chars generalizing log with
  | nil =>
    rw [List.foldl_nil, List.length_nil, Nat.add_zero, Nat.min_eq_left hcount]
    rfl
  | cons c rest ih =>
    have hnext : (logPut c log).count = min (log.count + 1) logRingSize := by
      rw [logPut]
      dsimp only
      split
      · omega
      · omega
    have hle : (logPut c log).count ≤ logRingSize := by
      rw [hnext]
      exact Nat.min_le_right _ _
    rw [List.foldl_cons, ih _ hle, hnext, List.length_cons]
    have hsum : min (min (log.count + 1) logRingSize + rest.length) logRingSize =
        min (log.count + (rest.length + 1)) logRingSize := by omega
    rw [hsum]
    rfl

/-- A run of log_write stores the characters of all messages. -/
theorem logAll_eq (msgs : List CString) (log : LogMemory) :
    logAll msgs log =
      ⟨Ring.overwriteAll (loggedAll msgs) { log.ring with head := 0, tail := 0 },
        min (loggedAll msgs).length logRingSize⟩ := by
  have hfold : ∀ (msgs : List CString) (log : LogMemory),
      msgs.foldl (fun log msg => logWrite msg log) log =
        (msgs.flatMap logged).foldl (fun log c => logPut c log) log := by
    intro msgs
    induction msgs with
    | nil => exact fun _ => rfl
    | cons msg msgs ih =>
      intro log
      rw [List.foldl_cons, List.flatMap_cons, List.foldl_append, ih]
      rfl
  have hstart : logAll msgs log = (loggedAll msgs).foldl (fun log c => logPut c log)
      ⟨{ log.ring with head := 0, tail := 0 }, 0⟩ := by
    rw [loggedAll, List.flatMap_cons, List.foldl_append, logAll, hfold]
    rfl
  rw [hstart, foldl_logPut _ _ (Nat.zero_le _), Nat.zero_add]

/-- The ring holds the last characters of the log. -/
theorem contents_logAll (msgs : List CString) (log : LogMemory) :
    (logAll msgs log).ring.contents = (loggedAll msgs).rtake 4095 := by
  have hempty : ({ log.ring with head := 0, tail := 0 } : Ring logRingSize UInt8).contents = [] :=
    Ring.contents_eq_nil_iff.mpr rfl
  have hcells : logRingSize - 1 = 4095 := by decide
  have hring := congrArg LogMemory.ring (logAll_eq msgs log)
  rw [hring, Ring.contents_overwriteAll (by decide), hempty, hcells, List.nil_append]

end Characters

/-- The log shows what was written: from the tail to the head lie the last characters, as many
as there are up to 4095, the count is their number, and log_get gives the first 63 of them. -/
structure Shows (text : List UInt8) (log : LogMemory) : Prop where
  /-- The characters from the tail to the head. -/
  dump : logDump log = text.rtake 4095
  /-- Their number. -/
  count : logGetCount log = (logDump log).length
  /-- The first of them. -/
  get : logGet log = (logDump log).take 63

section Runs

variable (msgs : List CString) (log : LogMemory)

/-- Any run shows the last characters. -/
theorem logDump_logAll : logDump (logAll msgs log) = (loggedAll msgs).rtake 4095 := by
  have hlt := (logAll msgs log).ring.size_lt
  have hlength : (logAll msgs log).ring.contents.length ≤ logRingSize := by
    rw [Ring.length_contents]
    omega
  rw [logDump, Ring.readFrom_tail, List.take_of_length_le hlength, contents_logAll]

/-- log_get gives the first characters that the ring holds. -/
theorem logGet_logAll : logGet (logAll msgs log) = (logDump (logAll msgs log)).take 63 := by
  rw [logDump_logAll, logGet, Ring.readFrom_tail, contents_logAll]

/-- The number of characters that the ring holds, and the count. -/
theorem counts_logAll :
    (logDump (logAll msgs log)).length = min (loggedAll msgs).length 4095 ∧
      logGetCount (logAll msgs log) = min (loggedAll msgs).length 4096 := by
  constructor
  · rw [logDump_logAll, List.rtake, List.length_drop]
    omega
  · rw [logGetCount, logAll_eq]
    rfl

/-- After log_init and any calls of log_write, the ring and log_get show the last characters of
what was written, and the count is right as well exactly as long as the ring was never full. -/
theorem logAll_shows_iff :
    Shows (loggedAll msgs) (logAll msgs log) ↔ (loggedAll msgs).length ≤ 4095 := by
  obtain ⟨hdump, hcount⟩ := counts_logAll msgs log
  constructor
  · intro hshows
    have hequal := hshows.count
    rw [hdump, hcount] at hequal
    omega
  · intro hfew
    refine ⟨logDump_logAll msgs log, ?_, logGet_logAll msgs log⟩
    rw [hdump, hcount]
    omega

/-- A message of 120 characters. -/
def fullLine : CString := ⟨List.replicate 120 97, by decide⟩

/-- After 34 messages of 120 characters the count is 4096, and 4095 characters can be read. -/
theorem logAll_full (log : LogMemory) :
    logGetCount (logAll (List.replicate 34 fullLine) log) = 4096 ∧
      (logDump (logAll (List.replicate 34 fullLine) log)).length = 4095 := by
  have htotal : (loggedAll (List.replicate 34 fullLine)).length = 4137 := by decide +kernel
  obtain ⟨hdump, hcount⟩ := counts_logAll (List.replicate 34 fullLine) log
  rw [hdump, hcount, htotal]
  decide

/-- The statics of log.c at the start of the kernel. -/
def LogMemory.zero : LogMemory := ⟨⟨fun _ => 0, 0, 0⟩, 0⟩

/-- The count and the characters that can be read differ. -/
theorem logAll_miscounts : ¬Shows (loggedAll (List.replicate 34 fullLine))
    (logAll (List.replicate 34 fullLine) .zero) := by
  intro hshows
  obtain ⟨hcount, hdump⟩ := logAll_full .zero
  have hequal := hshows.count
  rw [hcount, hdump] at hequal
  exact absurd hequal (by decide)

end Runs

end HexaOS.KernelLog
