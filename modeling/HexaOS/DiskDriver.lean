import HexaOS.AtaDrives
import HexaOS.HexafsRuns
import Mathlib.Tactic.IntervalCases

/-!
# The driver of the disk

ata_read_sector and ata_write_sector move a sector word by word through the ports of the first
channel. The store above is stated for a disk whose transfers succeed or fail as a whole. The
driver brings this about with any drive that asks for its data in time: how long the drive is
busy and which commands it refuses only decide which transfers fail.
-/

namespace HexaOS.Ata

open DevicePrograms PackedBytes AtaDrives Hexafs

section Driver

/-- The instructions that reach a port. -/
inductive PortOp where
  | inb (port : UInt16)
  | outb (port : UInt16) (value : UInt8)
  | inw (port : UInt16)
  | outw (port : UInt16) (value : UInt16)

/-- What an instruction returns. -/
@[reducible] def PortReply : PortOp → Type
  | .inb _ => UInt8
  | .outb _ _ => Unit
  | .inw _ => UInt16
  | .outw _ _ => Unit

/-- Code over the ports. -/
abbrev PortM (α : Type) : Type := Code Unit PortOp PortReply α

/-- ATA_DATA -/
def ataData : UInt16 := 0x1F0

/-- ATA_SEC_CNT -/
def ataSecCnt : UInt16 := 0x1F2

/-- ATA_LBA_LO -/
def ataLbaLo : UInt16 := 0x1F3

/-- ATA_LBA_MI -/
def ataLbaMi : UInt16 := 0x1F4

/-- ATA_LBA_HI -/
def ataLbaHi : UInt16 := 0x1F5

/-- ATA_DRIVE -/
def ataDrive : UInt16 := 0x1F6

/-- ATA_CMD and ATA_STATUS -/
def ataCmd : UInt16 := 0x1F7

/-- inb -/
def inb (port : UInt16) : PortM UInt8 := Code.request (PortOp.inb port)

/-- outb -/
def outb (port : UInt16) (value : UInt8) : PortM Unit := Code.request (PortOp.outb port value)

/-- inw -/
def inw (port : UInt16) : PortM UInt16 := Code.request (PortOp.inw port)

/-- outw -/
def outw (port : UInt16) (value : UInt16) : PortM Unit := Code.request (PortOp.outw port value)

/-- ata_drv, for the first and the second drive. -/
def ataDrv (second : Bool) : UInt8 := if second then 0xF0 else 0xE0

/-- The loop of ata_poll. -/
def pollRounds : ℕ → PortM Bool
  | 0 => pure false
  | t + 1 => do
    let s ← inb ataCmd
    if s &&& 0x80 = 0 then pure true else pollRounds t

/-- ata_poll -/
def ataPoll : PortM Bool := pollRounds 50000

/-- The loop that waits for a data request. -/
def requestRounds : ℕ → PortM Bool
  | 0 => pure false
  | t + 1 => do
    let s ← inb ataCmd
    if s &&& 0x08 ≠ 0 then pure true
    else if s &&& 0x01 ≠ 0 then pure false
    else requestRounds t

/-- The stores with which both functions give a command for a sector. -/
def giveCommand (second : Bool) (lba : UInt32) (command : UInt8) : PortM Unit := do
  outb ataDrive (ataDrv second ||| (lba >>> 24 &&& 0x0F).toUInt8)
  outb ataSecCnt 1
  outb ataLbaLo lba.toUInt8
  outb ataLbaMi (lba >>> 8).toUInt8
  outb ataLbaHi (lba >>> 16).toUInt8
  outb ataCmd command

/-- The loop `buf[i] = inw(ATA_DATA)`. -/
def readWords : ℕ → PortM (List UInt16)
  | 0 => pure []
  | n + 1 => do
    let word ← inw ataData
    let words ← readWords n
    pure (word :: words)

/-- The loop `outw(ATA_DATA, buf[i])`. -/
def writeWords : List UInt16 → PortM Unit
  | [] => pure ()
  | word :: words => do
    outw ataData word
    writeWords words

/-- The words of a buffer. -/
def sectorWords (buf : Sector) : Words := ofBytes buf.bytes

/-- The buffer that holds these words. -/
def wordsSector (words : List UInt16) : Sector := padBlock 512 (words.flatMap toBytes)

/-- ata_read_sector -/
def ataReadSector (second : Bool) (lba : UInt32) : PortM (Option Sector) := do
  if ← ataPoll then
    giveCommand second lba 0x20
    if ← requestRounds 200000 then
      let words ← readWords 256
      pure (some (wordsSector words))
    else pure none
  else pure none

/-- ata_write_sector -/
def ataWriteSector (second : Bool) (lba : UInt32) (buf : Sector) : PortM Bool := do
  if ← ataPoll then
    giveCommand second lba 0x30
    if ← requestRounds 200000 then
      writeWords (sectorWords buf).toList
      outb ataCmd 0xE7
      ataPoll
    else pure false
  else pure false

/-- The ports of a channel with one drive. -/
def channel : Handler PortOp PortReply Drive
  | .inb port, drive => .ok (if port = ataCmd then drive.status else (0, drive))
  | .outb port value, drive => .ok ((),
      if port = ataSecCnt then drive.store .sectorCount value
      else if port = ataLbaLo then drive.store .lbaLow value
      else if port = ataLbaMi then drive.store .lbaMid value
      else if port = ataLbaHi then drive.store .lbaHigh value
      else if port = ataDrive then drive.store .device value
      else if port = ataCmd then drive.command value
      else drive)
  | .inw port, drive => .ok (if port = ataData then drive.readWord else (0, drive))
  | .outw port value, drive => .ok ((), if port = ataData then drive.writeWord value else drive)

end Driver

section Rounds

variable {drive : Drive} {t : ℕ} {post : Bool → Unit → Drive → Prop}

/-- A drive whose phase is another. -/
def atPhase (drive : Drive) (phase : Phase) : Drive := { drive with phase := phase }

theorem wp_inb_status {post : UInt8 → Unit → Drive → Prop}
    (h : post drive.phase.status.1 () (atPhase drive drive.phase.status.2)) :
    (inb ataCmd).wp channel () drive post :=
  Code.wp_request rfl h

/-- The polls end behind the busy time, or when it is too long. -/
theorem wp_pollRounds
    (hready : drive.phase.wait < t → post true () (atPhase drive drive.phase.last))
    (hlost : ∀ phase : Phase, t ≤ drive.phase.wait → phase.last = drive.phase.last →
      (drive.phase.Rests → phase.Rests) → post false () (atPhase drive phase)) :
    (pollRounds t).wp channel () drive post := by
  induction t generalizing drive with
  | zero =>
    rw [pollRounds, Code.wp_pure]
    exact hlost drive.phase (Nat.zero_le _) rfl id
  | succ t ih =>
    rw [pollRounds, Code.wp_bind]
    refine wp_inb_status ?_
    by_cases hwait : drive.phase.wait = 0
    · rw [if_pos (Phase.ready_status hwait), Code.wp_pure, Phase.status_ready hwait]
      have hpost := hready (by omega)
      rw [Phase.last_of_wait hwait] at hpost
      exact hpost
    · obtain ⟨hbusy, hleft, hlast, hrests⟩ := Phase.status_busy hwait
      rw [hbusy, if_neg (by decide)]
      have hnext : (atPhase drive drive.phase.status.2).phase = drive.phase.status.2 := rfl
      refine ih (fun hlt => ?_) fun phase hle hphase hkeep => ?_
      · rw [hnext] at hlt
        have hpost := hready (by omega)
        rw [← hlast] at hpost
        exact hpost
      · rw [hnext] at hle
        exact hlost phase (by omega) (hphase.trans hlast) fun h => hkeep (hrests h)

/-- The wait for a data request ends with it, or with an error, or when it took too long. -/
theorem wp_requestRounds
    (hready : drive.phase.wait < t → drive.phase.last.Moves →
      post true () (atPhase drive drive.phase.last))
    (hlost : ∀ phase : Phase, (drive.phase.last.Moves → t ≤ drive.phase.wait) →
      phase.last = drive.phase.last → (drive.phase.Rests → phase.Rests) →
        (t ≤ drive.phase.wait → phase.wait + t = drive.phase.wait) →
          post false () (atPhase drive phase)) :
    (requestRounds t).wp channel () drive post := by
  induction t generalizing drive with
  | zero =>
    rw [requestRounds, Code.wp_pure]
    exact hlost drive.phase (fun _ => Nat.zero_le _) rfl id fun _ => rfl
  | succ t ih =>
    have hnext : (atPhase drive drive.phase.status.2).phase = drive.phase.status.2 := rfl
    rw [requestRounds, Code.wp_bind]
    refine wp_inb_status ?_
    by_cases hwait : drive.phase.wait = 0
    · have hlast := Phase.last_of_wait hwait
      have hsame := Phase.status_ready hwait
      have hshort : ¬t + 1 ≤ drive.phase.wait := by omega
      by_cases hmoves : drive.phase.Moves
      · rw [if_pos (Phase.request_status.mpr hmoves), Code.wp_pure, hsame]
        have hpost := hready (by omega) (hlast.symm ▸ hmoves)
        rw [hlast] at hpost
        exact hpost
      · have hnever : ∀ phase : Phase, phase.last = drive.phase.last →
            (drive.phase.Rests → phase.Rests) → post false () (atPhase drive phase) :=
          fun phase hphase hkeep => hlost phase (fun h => absurd (hlast ▸ h) hmoves) hphase hkeep
            fun h => absurd h hshort
        rw [if_neg fun hbit => hmoves (Phase.request_status.mp hbit)]
        split
        · rw [Code.wp_pure, hsame]
          exact hnever drive.phase rfl id
        · -- an idle drive without an error is polled to the end
          refine ih (fun _ hmoves' => ?_) fun phase _ hphase hkeep _ => ?_
          · rw [hnext, hsame, hlast] at hmoves'
            exact absurd hmoves' hmoves
          · rw [hnext, hsame] at hphase hkeep
            exact hnever phase hphase hkeep
    · obtain ⟨hbusy, hleft, hlast, hrests⟩ := Phase.status_busy hwait
      rw [hbusy, if_neg (by decide), if_neg (by decide)]
      refine ih (fun hlt hmoves => ?_) fun phase hle hphase hkeep hrest => ?_
      · rw [hnext] at hlt hmoves
        have hpost := hready (by omega) (hlast ▸ hmoves)
        rw [← hlast] at hpost
        exact hpost
      · rw [hnext] at hle hphase hkeep hrest
        refine hlost phase (fun h => ?_) (hphase.trans hlast) (fun h => hkeep (hrests h))
          fun h => ?_
        · have hleast := hle (hlast.symm ▸ h)
          omega
        · have hsum := hrest (by omega)
          omega

end Rounds

section Transfers

variable {drive : Drive} {second failed : Bool} {lba : UInt32}

/-- The driver keeps 28 bits. -/
theorem getLsbD_ataAddress (lba : UInt32) (i : ℕ) :
    (ataAddress lba).toBitVec.getLsbD i = (decide (i < 28) && lba.toBitVec.getLsbD i) := by
  have hmask : (0x0FFFFFFF : UInt32).toBitVec.getLsbD i = decide (i < 28) :=
    Nat.testBit_two_pow_sub_one 28 i
  rw [ataAddress, UInt32.toBitVec_and, BitVec.getLsbD_and, hmask, Bool.and_comm]

theorem toUInt8_ataAddress (lba : UInt32) {k : UInt32} (hk : k.toNat % 32 ≤ 20) :
    (ataAddress lba >>> k).toUInt8 = (lba >>> k).toUInt8 := by
  apply UInt8.toBitVec_inj.mp
  ext i hi
  simp [getLsbD_ataAddress]
  omega

/-- The lower half of the device register is the upper part of the address. -/
theorem device_address (second : Bool) (lba : UInt32) :
    (ataDrv second ||| (lba >>> 24 &&& 0x0F).toUInt8) &&& (0x0F : UInt8) =
      (ataAddress lba >>> 24).toUInt8 := by
  apply UInt8.toBitVec_inj.mp
  cases second <;> ext i hi <;> simp [ataDrv, ataAddress] <;> interval_cases i <;> simp

/-- The device register selects block addresses. -/
theorem device_mode (second : Bool) (upper : UInt8) :
    (ataDrv second ||| upper) &&& (0x40 : UInt8) = 0x40 := by
  apply UInt8.toBitVec_inj.mp
  cases second <;> ext i hi <;> simp [ataDrv] <;> interval_cases i <;> simp

/-- The bytes that the driver stores name the block, up to the upper four bits. -/
theorem wordOfBytes_address (second : Bool) (lba : UInt32) :
    wordOfBytes lba.toUInt8 (lba >>> 8).toUInt8 (lba >>> 16).toUInt8
      ((ataDrv second ||| (lba >>> 24 &&& 0x0F).toUInt8) &&& 0x0F) = ataAddress lba := by
  have hlow : (ataAddress lba).toUInt8 = lba.toUInt8 := by
    have hzero := toUInt8_ataAddress lba (by decide : (0 : UInt32).toNat % 32 ≤ 20)
    rwa [UInt32.shiftRight_zero, UInt32.shiftRight_zero] at hzero
  rw [device_address, ← hlow, ← toUInt8_ataAddress lba (by decide : (8 : UInt32).toNat % 32 ≤ 20),
    ← toUInt8_ataAddress lba (by decide : (16 : UInt32).toNat % 32 ≤ 20)]
  exact wordOfBytes_bytes (ataAddress lba)

/-- The registers behind the stores of the driver. -/
def named (drive : Drive) (second : Bool) (lba : UInt32) : Drive :=
  ((((drive.store .device (ataDrv second ||| (lba >>> 24 &&& 0x0F).toUInt8)).store
    .sectorCount 1).store .lbaLow lba.toUInt8).store .lbaMid (lba >>> 8).toUInt8).store
      .lbaHigh (lba >>> 16).toUInt8

/-- What the driver gives a drive that waits for a command. -/
theorem named_spec (hidle : drive.phase = .idle failed) :
    (named drive second lba).block = ataAddress lba ∧
      (named drive second lba).selectsSector = true ∧
      (named drive second lba).medium = drive.medium ∧
      (named drive second lba).phase = .idle failed ∧
      (named drive second lba).answers = drive.answers ∧
      (named drive second lba).commands = drive.commands := by
  obtain ⟨medium, registers, phase, answers, commands⟩ := drive
  cases hidle
  refine ⟨wordOfBytes_address second lba, ?_, rfl, rfl, rfl, rfl⟩
  have hmode := device_mode second (lba >>> 24 &&& 0x0F).toUInt8
  have hselects :
      (named ⟨medium, registers, .idle failed, answers, commands⟩ second lba).selectsSector =
      ((1 : UInt8) == 1 &&
        (ataDrv second ||| (lba >>> 24 &&& 0x0F).toUInt8) &&& (0x40 : UInt8) != 0) := rfl
  rw [hselects, hmode]
  rfl

/-- The stores before a command, and the command. -/
theorem wp_giveCommand {command : UInt8} {post : Unit → Unit → Drive → Prop}
    (hpost : post () () ((named drive second lba).command command)) :
    (giveCommand second lba command).wp channel () drive post := by
  have hstep : ∀ {port : UInt16} {value : UInt8} {before after : Drive}
      {post : Unit → Unit → Drive → Prop},
      channel (.outb port value) before = .ok ((), after) → post () () after →
        (outb port value).wp channel () before post := fun hport hpost =>
    Code.wp_request hport hpost
  rw [giveCommand]
  simp only [Code.wp_bind]
  refine hstep rfl (hstep rfl (hstep rfl (hstep rfl (hstep rfl (hstep rfl ?_)))))
  exact hpost

/-- The words that a drive offers are read one by one. -/
theorem wp_readWords {n : ℕ} {words : List UInt16} {post : List UInt16 → Unit → Drive → Prop}
    (hlen : words.length = n) (hoffers : drive.phase = .offering words)
    (hpost : post words () (atPhase drive (.idle false))) :
    (readWords n).wp channel () drive post := by
  subst hlen
  induction words generalizing drive post with
  | nil =>
    have hsame : atPhase drive (.idle false) = drive := by
      obtain ⟨medium, registers, phase, answers, commands⟩ := drive
      cases hoffers
      rfl
    rw [List.length_nil, readWords, Code.wp_pure]
    rw [hsame] at hpost
    exact hpost
  | cons word words ih =>
    have hread : drive.readWord = (word, atPhase drive (.offering words)) := by
      have hphase : drive.phase = .offers (word :: words) := hoffers
      rw [Drive.readWord, hphase]
      rfl
    rw [List.length_cons, readWords, Code.wp_bind]
    refine Code.wp_request (congrArg Except.ok hread) ?_
    rw [Code.wp_bind]
    refine ih rfl ?_
    rw [Code.wp_pure]
    exact hpost

/-- The words that are written complete a sector. -/
theorem wp_writeWords {block : UInt32} {storing : ℕ} {done words : List UInt16}
    {post : Unit → Unit → Drive → Prop} (haccepts : drive.phase = .accepts block storing done)
    (hne : words ≠ []) (hlen : done.length + words.length = 256)
    (hpost : ∀ full : Words, full.toList = done ++ words → post () () { drive with
      medium := Function.update drive.medium block full
      phase := .after storing (.idle false) }) :
    (writeWords words).wp channel () drive post := by
  induction words generalizing drive done with
  | nil => exact absurd rfl hne
  | cons word words ih =>
    rw [List.length_cons] at hlen
    rw [writeWords, Code.wp_bind]
    by_cases hlast : words = []
    · subst hlast
      have hfull : (done ++ [word]).length = 256 := by
        rw [List.length_append]
        exact hlen
      have hwrite : drive.writeWord word = { drive with
          medium := Function.update drive.medium block ⟨(done ++ [word]).toArray, hfull⟩
          phase := .after storing (.idle false) } := by
        rw [Drive.writeWord, haccepts]
        exact dif_pos hfull
      refine Code.wp_request (congrArg (fun d => Except.ok ((), d)) hwrite) ?_
      rw [writeWords, Code.wp_pure]
      exact hpost _ rfl
    · have hshort : (done ++ [word]).length ≠ 256 := by
        have hpos := List.length_pos_of_ne_nil hlast
        rw [List.length_append, List.length_singleton]
        omega
      have hwrite : drive.writeWord word =
          atPhase drive (.accepts block storing (done ++ [word])) := by
        rw [Drive.writeWord, haccepts]
        exact dif_neg hshort
      refine Code.wp_request (congrArg (fun d => Except.ok ((), d)) hwrite) ?_
      refine ih rfl hlast ?_ fun full hsplit => ?_
      · rw [List.length_append, List.length_singleton]
        omega
      · rw [List.append_assoc, List.singleton_append] at hsplit
        exact hpost full hsplit

end Transfers

section Sectors

variable {drive : Drive} {second failed : Bool} {lba : UInt32} {buf : Sector}

instance fills_words : Fills Words 512 := ⟨rfl⟩

/-- A buffer holds the words that were taken from it. -/
theorem wordsSector_sectorWords (buf : Sector) : wordsSector (sectorWords buf).toList = buf := by
  have hbytes : (sectorWords buf).toList.flatMap toBytes = buf.bytes :=
    congrArg Block.bytes (toBlock_ofBlock (α := Words) buf)
  have hlen : 512 ≤ buf.bytes.length := Nat.le_of_eq buf.length_bytes.symm
  have htake : (padBlock 512 buf.bytes).bytes.take 512 = buf.bytes.take 512 :=
    take_padBlock buf.bytes hlen (Nat.le_refl 512)
  rw [List.take_of_length_le (Nat.le_of_eq (padBlock 512 buf.bytes).length_bytes),
    List.take_of_length_le (Nat.le_of_eq buf.length_bytes)] at htake
  rw [wordsSector, hbytes]
  exact Block.ext htake

/-- The drive asks for data, or reports an error, as long as the driver waits for it. -/
def Prompt (answers : ℕ → Answer) : Prop := ∀ n, (answers n).delay < 200000

/-- A drive that answers like this, holds the sectors of a disk and rests. -/
structure Holds (answers : ℕ → Answer) (sectors : UInt32 → Sector) (drive : Drive) : Prop where
  /-- The drive answers as it is prescribed. -/
  answers : drive.answers = answers
  /-- The medium holds these sectors. -/
  medium : ∀ block, drive.medium block = sectorWords (sectors block)
  /-- No command is under way. -/
  rests : drive.phase.Rests

variable {answers : ℕ → Answer} {sectors : UInt32 → Sector}

theorem Holds.atPhase (h : Holds answers sectors drive) {phase : Phase} (hrests : phase.Rests) :
    Holds answers sectors (atPhase drive phase) := ⟨h.answers, h.medium, hrests⟩

/-- The phase that a read of a sector starts. -/
def readPhase (sectors : UInt32 → Sector) (lba : UInt32) (answer : Answer) : Phase :=
  .after answer.delay (if answer.fails then .idle true
    else .offering (sectorWords (sectors (ataAddress lba))).toList)

/-- The phase that a write of a sector starts. -/
def writePhase (lba : UInt32) (answer : Answer) : Phase :=
  .after answer.delay (if answer.fails then .idle true
    else .accepts (ataAddress lba) answer.storing [])

/-- A drive that was given a command, and what it does. -/
structure Given (answers : ℕ → Answer) (sectors : UInt32 → Sector) (phase : Phase)
    (drive : Drive) : Prop where
  /-- The drive answers as it is prescribed. -/
  answers : drive.answers = answers
  /-- The medium holds these sectors. -/
  medium : ∀ block, drive.medium block = sectorWords (sectors block)
  /-- The drive is in this phase. -/
  phase : drive.phase = phase

/-- A drive that waits takes the command to read a sector. -/
theorem Holds.command_read (h : Holds answers sectors drive) (hidle : drive.phase = .idle failed) :
    Given answers sectors (readPhase sectors lba (answers drive.commands))
      ((named drive second lba).command 0x20) := by
  obtain ⟨hblock, hselects, hmedium, hphase, hanswers, hcommands⟩ :=
    @named_spec drive second failed lba hidle
  have hsame : ∀ block, (named drive second lba).medium block = sectorWords (sectors block) :=
    fun block => (congrFun hmedium block).trans (h.medium block)
  rw [Drive.command_idle hphase]
  refine ⟨hanswers.trans h.answers, hsame, ?_⟩
  rw [Drive.starts_read hselects, hblock, hsame, hanswers, h.answers, hcommands]
  rfl

/-- A drive that waits takes the command to write a sector. -/
theorem Holds.command_write (h : Holds answers sectors drive) (hidle : drive.phase = .idle failed) :
    Given answers sectors (writePhase lba (answers drive.commands))
      ((named drive second lba).command 0x30) := by
  obtain ⟨hblock, hselects, hmedium, hphase, hanswers, hcommands⟩ :=
    @named_spec drive second failed lba hidle
  rw [Drive.command_idle hphase]
  refine ⟨hanswers.trans h.answers,
    fun block => (congrFun hmedium block).trans (h.medium block), ?_⟩
  rw [Drive.starts_write hselects, hblock, hanswers, h.answers, hcommands]
  rfl

/-- The drive is quick, and no command fails. -/
structure Swift (answers : ℕ → Answer) : Prop where
  /-- No command is refused. -/
  works : ∀ n, (answers n).fails = false
  /-- The data is ready within the time of the driver. -/
  delay : ∀ n, (answers n).delay < 50000
  /-- The medium is written within that time. -/
  storing : ∀ n, (answers n).storing < 50000

/-- The wait for data of a drive that was given a command. It ends with the data unless the
command fails. -/
theorem Given.wp_requestRounds {answer : Answer} {transfer : Phase}
    (h : Given answers sectors
      (.after answer.delay (if answer.fails then .idle true else transfer)) drive)
    (hdelay : answer.delay < 200000) (hwait : transfer.wait = 0)
    (hmoves : transfer.Moves) {post : Bool → Unit → Drive → Prop}
    (hready : answer.fails = false → post true () (Ata.atPhase drive transfer))
    (hlost : answer.fails = true → ∀ drive', Holds answers sectors drive' → post false () drive') :
    (requestRounds 200000).wp channel () drive post := by
  obtain ⟨hanswers, hmedium, hphase⟩ := h
  cases hfails : answer.fails with
  | true =>
    rw [hfails, if_pos rfl] at hphase
    have hrests : drive.phase.Rests := by
      rw [hphase]
      exact (Phase.rests_after _).mpr trivial
    refine Ata.wp_requestRounds (fun _ hmoved => ?_) fun phase _ _ hkeep _ => ?_
    · obtain ⟨failed, hlast⟩ := hrests.last
      rw [hlast] at hmoved
      exact hmoved.elim
    · exact hlost hfails _ ⟨hanswers, hmedium, hkeep hrests⟩
  | false =>
    rw [hfails, if_neg Bool.false_ne_true] at hphase
    have hlast : drive.phase.last = transfer := by
      rw [hphase, Phase.last_after, Phase.last_of_wait hwait]
    have hprompt : drive.phase.wait < 200000 := by
      rw [hphase, Phase.wait_after, hwait]
      exact hdelay
    refine Ata.wp_requestRounds (fun _ _ => ?_) fun phase hlong _ _ _ => ?_
    · rw [hlast]
      exact hready hfails
    · rw [hlast] at hlong
      exact absurd (hlong hmoves) (Nat.not_le_of_lt hprompt)

/-- ata_read_sector returns the sector or fails, and leaves a drive at rest. On a quick drive
that waits it does not fail. -/
theorem wp_ataReadSector (hprompt : Prompt answers) (h : Holds answers sectors drive)
    {post : Option Sector → Unit → Drive → Prop}
    (hread : ∀ drive', Holds answers sectors drive' → drive'.phase.wait = 0 →
      post (some (sectors (ataAddress lba))) () drive')
    (hlost : (Swift answers → drive.phase.wait ≠ 0) → ∀ drive', Holds answers sectors drive' →
      post none () drive') :
    (ataReadSector second lba).wp channel () drive post := by
  rw [ataReadSector, Code.wp_bind, ataPoll]
  refine wp_pollRounds (fun _ => ?_) fun phase hlong _ hrests => ?_
  · obtain ⟨failed, hidle⟩ := h.rests.last
    have hready : Holds answers sectors (Ata.atPhase drive (.idle failed)) := h.atPhase trivial
    have hgiven := @Holds.command_read _ second failed lba _ _ hready rfl
    rw [if_pos rfl, Code.wp_bind, hidle]
    refine wp_giveCommand ?_
    generalize (named (Ata.atPhase drive (.idle failed)) second lba).command 0x20 = given at *
    have hwords : (sectorWords (sectors (ataAddress lba))).toList.length = 256 :=
      Vector.length_toList
    have hne : (sectorWords (sectors (ataAddress lba))).toList ≠ [] :=
      List.ne_nil_of_length_pos (by rw [hwords]; decide)
    rw [Code.wp_bind]
    refine hgiven.wp_requestRounds (hprompt _) ?_ ?_ (fun _ => ?_) fun hfails drive' hrest => ?_
    · rw [Phase.offering_of_ne hne]
      rfl
    · rw [Phase.offering_of_ne hne]
      trivial
    · rw [if_pos rfl, Code.wp_bind]
      refine wp_readWords hwords rfl ?_
      rw [Code.wp_pure, wordsSector_sectorWords]
      exact hread _ ⟨hgiven.answers, hgiven.medium, trivial⟩ rfl
    · rw [if_neg Bool.false_ne_true, Code.wp_pure]
      exact hlost (fun hswift => absurd hfails (by rw [hswift.works]; decide)) _ hrest
  · rw [if_neg Bool.false_ne_true, Code.wp_pure]
    exact hlost (fun _ hzero => absurd hlong (by rw [hzero]; decide)) _
      (h.atPhase (hrests h.rests))

/-- A drive that stored a sector holds the sectors with it. -/
theorem Given.stored {phase : Phase} (h : Given answers sectors phase drive) {full : Words}
    (hfull : full.toList = (sectorWords buf).toList) (storing : ℕ) :
    Holds answers (Function.update sectors (ataAddress lba) buf)
      { drive with
        medium := Function.update drive.medium (ataAddress lba) full
        phase := .after storing (.idle false) } := by
  obtain rfl : full = sectorWords buf := Vector.toList_inj.mp hfull
  refine ⟨h.answers, fun block => ?_, (Phase.rests_after storing).mpr trivial⟩
  by_cases hblock : block = ataAddress lba
  · subst hblock
    rw [Function.update_self]
    exact Function.update_self _ _ _
  · rw [Function.update_of_ne hblock]
    exact (Function.update_of_ne hblock _ _).trans (h.medium block)

/-- Behind the last word the driver gives FLUSH CACHE and polls. -/
theorem Holds.wp_flush (h : Holds answers sectors drive)
    (hquick : Swift answers → drive.phase.wait < 50000) {post : Bool → Unit → Drive → Prop}
    (hdone : ∀ drive', Holds answers sectors drive' → drive'.phase.wait = 0 → post true () drive')
    (hlost : ¬Swift answers → ∀ drive', Holds answers sectors drive' → post false () drive') :
    (do outb ataCmd 0xE7; ataPoll : PortM Bool).wp channel () drive post := by
  obtain ⟨hmedium, hanswers, hrests, hwait⟩ := Drive.command_flush h.rests
  have hflushed : Holds answers sectors (drive.command 0xE7) :=
    ⟨hanswers.trans h.answers, fun block => (congrFun hmedium block).trans (h.medium block), hrests⟩
  have hgiven : channel (.outb ataCmd 0xE7) drive = .ok ((), drive.command 0xE7) := rfl
  rw [Code.wp_bind]
  refine Code.wp_request hgiven ?_
  rw [ataPoll]
  refine wp_pollRounds (fun _ => ?_) fun phase hlong _ hkeep => ?_
  · obtain ⟨failed, hidle⟩ := hrests.last
    refine hdone _ (hflushed.atPhase ?_) ?_
    · rw [hidle]
      trivial
    · rw [hidle]
      rfl
  · refine hlost (fun hswift => absurd hlong (Nat.not_le_of_lt ?_)) _
      (hflushed.atPhase (hkeep hrests))
    rcases hwait with hsame | hdelay
    · rw [hsame]
      exact hquick hswift
    · rw [hdelay, h.answers]
      exact hswift.delay _

/-- ata_write_sector writes the sector or not, and leaves a drive at rest. On a quick drive
that waits it writes, and the drive waits again. -/
theorem wp_ataWriteSector (hprompt : Prompt answers) (h : Holds answers sectors drive)
    {post : Bool → Unit → Drive → Prop}
    (hpost : ∀ (outcome : WriteOutcome) (drive' : Drive), Holds answers
      (if outcome.reaches then Function.update sectors (ataAddress lba) buf else sectors) drive' →
      (Swift answers → drive.phase.wait = 0 → outcome = .written ∧ drive'.phase.wait = 0) →
        post outcome.returns () drive') :
    (ataWriteSector second lba buf).wp channel () drive post := by
  have hrefused : (Swift answers → drive.phase.wait ≠ 0) → ∀ drive',
      Holds answers sectors drive' → post false () drive' := fun hslow drive' hrest =>
    hpost .refused drive' hrest fun hswift hzero => absurd hzero (hslow hswift)
  rw [ataWriteSector, Code.wp_bind, ataPoll]
  refine wp_pollRounds (fun _ => ?_) fun phase hlong _ hrests => ?_
  · obtain ⟨failed, hidle⟩ := h.rests.last
    have hready : Holds answers sectors (Ata.atPhase drive (.idle failed)) := h.atPhase trivial
    have hgiven := @Holds.command_write _ second failed lba _ _ hready rfl
    rw [if_pos rfl, Code.wp_bind, hidle]
    refine wp_giveCommand ?_
    generalize (named (Ata.atPhase drive (.idle failed)) second lba).command 0x30 = given at *
    have hwords : (sectorWords buf).toList.length = 256 := Vector.length_toList
    have hne : (sectorWords buf).toList ≠ [] :=
      List.ne_nil_of_length_pos (by rw [hwords]; decide)
    rw [Code.wp_bind]
    refine hgiven.wp_requestRounds (hprompt _) rfl trivial (fun _ => ?_)
      fun hfails drive' hrest => ?_
    · rw [if_pos rfl, Code.wp_bind]
      refine wp_writeWords rfl hne (by rw [hwords]; rfl) fun full hfull => ?_
      have hstored : Holds answers (Function.update sectors (ataAddress lba) buf) _ :=
        hgiven.stored hfull (answers drive.commands).storing
      refine hstored.wp_flush (fun hswift => ?_) (fun drive' hrest hzero => ?_)
        fun hslow drive' hrest => ?_
      · have hwait : (Phase.after (answers drive.commands).storing (.idle false)).wait =
          (answers drive.commands).storing + 0 := Phase.wait_after _
        exact hwait.trans_lt (hswift.storing _)
      · exact hpost .written drive' hrest fun _ _ => ⟨rfl, hzero⟩
      · exact hpost .unconfirmed drive' hrest fun hswift => absurd hswift hslow
    · rw [if_neg Bool.false_ne_true, Code.wp_pure]
      exact hrefused (fun hswift => absurd hfails (by rw [hswift.works]; decide)) _ hrest
  · rw [if_neg Bool.false_ne_true, Code.wp_pure]
    exact hrefused (fun _ hzero => absurd hlong (by rw [hzero]; decide)) _
      (h.atPhase (hrests h.rests))

/-- A drive that still offers a sector gives it to the next read, of whatever block. -/
theorem wp_ataReadSector_offered (hwait : drive.phase.wait < 50000)
    (hoffers : drive.phase.last = .offers (sectorWords buf).toList) :
    (ataReadSector second lba).wp channel () drive fun result _ _ => result = some buf := by
  have hmoves : (Ata.atPhase drive drive.phase.last).phase.Moves := by
    have hphase : (Ata.atPhase drive drive.phase.last).phase =
        .offers (sectorWords buf).toList := hoffers
    rw [hphase]
    trivial
  have hwords : (sectorWords buf).toList.length = 256 := Vector.length_toList
  have hne : (sectorWords buf).toList ≠ [] := List.ne_nil_of_length_pos (by rw [hwords]; decide)
  rw [ataReadSector, Code.wp_bind, ataPoll]
  refine wp_pollRounds (fun _ => ?_) fun phase hlong _ _ => absurd hlong (Nat.not_le_of_lt hwait)
  rw [if_pos rfl, Code.wp_bind]
  refine wp_giveCommand ?_
  have hsame : (named (Ata.atPhase drive drive.phase.last) second lba).command 0x20 =
      Ata.atPhase drive drive.phase.last := by
    simp only [named, Drive.store_moves hmoves, Drive.command_moves hmoves]
  rw [hsame, hoffers, Code.wp_bind]
  refine Ata.wp_requestRounds (fun _ _ => ?_) fun phase hlong _ _ _ => ?_
  · rw [if_pos rfl, Code.wp_bind]
    refine wp_readWords hwords (Phase.offering_of_ne hne).symm ?_
    rw [Code.wp_pure, wordsSector_sectorWords]
  · have hnever : 200000 ≤ 0 := hlong trivial
    exact absurd hnever (by decide)

/-- When the drive answers a read later than the driver waits, the read fails. The next read
then returns the sector of that one as its own, whichever block it asks for. -/
theorem ataReadSector_late (hmedium : ∀ block, drive.medium block = sectorWords (sectors block))
    (hidle : drive.phase = .idle failed) (hworks : (drive.answers drive.commands).fails = false)
    (hlate : 200000 ≤ (drive.answers drive.commands).delay)
    (hsoon : (drive.answers drive.commands).delay < 250000) (other : UInt32) :
    (do
      let first ← ataReadSector second lba
      let next ← ataReadSector second other
      pure (first, next) : PortM (Option Sector × Option Sector)).wp channel () drive
        fun result _ _ => result = (none, some (sectors (ataAddress lba))) := by
  have hready : Holds drive.answers sectors (Ata.atPhase drive (.idle failed)) :=
    ⟨rfl, hmedium, trivial⟩
  have hgiven := @Holds.command_read _ second failed lba _ _ hready rfl
  have hlast : drive.phase.last = .idle failed := by
    rw [hidle]
    rfl
  have hwait : drive.phase.wait < 50000 := by
    rw [hidle]
    exact (by decide : 0 < 50000)
  have hwords : (sectorWords (sectors (ataAddress lba))).toList.length = 256 :=
    Vector.length_toList
  have hne : (sectorWords (sectors (ataAddress lba))).toList ≠ [] :=
    List.ne_nil_of_length_pos (by rw [hwords]; decide)
  rw [Code.wp_bind, ataReadSector, Code.wp_bind, ataPoll]
  refine wp_pollRounds (fun _ => ?_) fun phase hlong _ _ => absurd hlong (Nat.not_le_of_lt hwait)
  rw [if_pos rfl, Code.wp_bind, hlast]
  refine wp_giveCommand ?_
  generalize (named (Ata.atPhase drive (.idle failed)) second lba).command 0x20 = given at *
  have hphase : given.phase = .after (drive.answers drive.commands).delay
      (.offers (sectorWords (sectors (ataAddress lba))).toList) := by
    have hcommands : (Ata.atPhase drive (.idle failed)).commands = drive.commands := rfl
    rw [hgiven.phase, readPhase, hcommands, hworks, if_neg Bool.false_ne_true,
      Phase.offering_of_ne hne]
  have hdelay : given.phase.wait = (drive.answers drive.commands).delay := by
    rw [hphase, Phase.wait_after]
    rfl
  rw [Code.wp_bind]
  refine Ata.wp_requestRounds (fun hlt _ => ?_) fun phase _ hphase' _ hrest => ?_
  · rw [hdelay] at hlt
    exact absurd hlate (Nat.not_le_of_lt hlt)
  · have hleft := hrest (by rw [hdelay]; exact hlate)
    rw [if_neg Bool.false_ne_true, Code.wp_pure, Code.wp_bind]
    rw [hphase, Phase.last_after] at hphase'
    have hsoon' : (Ata.atPhase given phase).phase.wait < 50000 := by
      have hsame : (Ata.atPhase given phase).phase.wait = phase.wait := rfl
      omega
    have hnext := @wp_ataReadSector_offered _ second other _ hsoon' hphase'
    refine Code.wp_mono hnext fun next _ _ hread => ?_
    rw [Code.wp_pure, hread]

/-- A drive that is slow for its first command, with sectors of zeros except for block 7. -/
def slowStart : Drive where
  medium block := if block = 7 then sectorWords (padBlock 512 [1]) else sectorWords zeroSector
  registers _ := 0
  phase := .idle false
  answers n := if n = 0 then ⟨210000, false, 0⟩ else ⟨0, false, 0⟩
  commands := 0

/-- Sector 7 is read as that of block 8. -/
theorem ataReadSector_late_other :
    (do
      let first ← ataReadSector false 7
      let next ← ataReadSector false 8
      pure (first, next) : PortM (Option Sector × Option Sector)).wp channel () slowStart
        fun result _ _ => result = (none, some (padBlock 512 [1])) := by
  have hmedium : ∀ block, slowStart.medium block =
      sectorWords (if block = 7 then padBlock 512 [1] else zeroSector) := by
    intro block
    rw [apply_ite sectorWords]
    rfl
  have hlate : 200000 ≤ (slowStart.answers slowStart.commands).delay :=
    (by decide : 200000 ≤ 210000)
  have hsoon : (slowStart.answers slowStart.commands).delay < 250000 :=
    (by decide : 210000 < 250000)
  exact @ataReadSector_late slowStart false false 7 _ hmedium rfl rfl hlate hsoon 8

end Sectors

section Kernel

/-- The device of the kernel over the ports: the drive, block_cache and the number of kmalloc
calls. -/
structure PortDevice where
  /-- The drive behind the ports. -/
  drive : Drive
  /-- The cache of the driver. -/
  blockCache : List CacheSlot
  /-- The calls of kmalloc so far. -/
  kmallocCount : ℕ

/-- cache_read over the driver. -/
def portRead (second : Bool) (lba : UInt32) (dev : PortDevice) :
    Except Stop (Option Sector × PortDevice) :=
  match cacheFind lba dev.blockCache with
  | some idx => .ok (dev.blockCache[idx]?.map (·.data), dev)
  | none =>
    match (ataReadSector second lba).exec channel () dev.drive with
    | .error stop => .error stop
    | .ok ((none, _), drive) => .ok (none, { dev with drive := drive })
    | .ok ((some tmp, _), drive) => .ok (some tmp, { dev with
        drive := drive
        blockCache := dev.blockCache.set (cacheEvict dev.blockCache) ⟨lba, false, tmp⟩ })

/-- cache_write over the driver. -/
def portWrite (second : Bool) (lba : UInt32) (buf : Sector) (dev : PortDevice) :
    Except Stop (Bool × PortDevice) :=
  match (ataWriteSector second lba buf).exec channel () dev.drive with
  | .error stop => .error stop
  | .ok ((ok, _), drive) => .ok (ok, { dev with
      drive := drive
      blockCache := dev.blockCache.set
        ((cacheFind lba dev.blockCache).getD (cacheEvict dev.blockCache)) ⟨lba, true, buf⟩ })

/-- The device that the kernel runs on, over the ports. The heap is that of an environment. -/
def portDevice (second : Bool) (heap : Environment) : Handler BlockOp BlockReply PortDevice
  | .read lba, dev => portRead second lba dev
  | .write lba buf, dev => portWrite second lba buf dev
  | .clearCache, dev => .ok ((), { dev with blockCache := emptyCache })
  | .kmalloc size, dev =>
    .ok (heap.heapBlock dev.kmallocCount size, { dev with kmallocCount := dev.kmallocCount + 1 })

/-- Which transfers succeed. -/
structure Transfers where
  /-- Which reads the drive serves. -/
  readOk : ℕ → Bool
  /-- What becomes of each write. -/
  writeOutcome : ℕ → WriteOutcome

/-- The environment with these transfers and this heap. -/
def Transfers.environment (transfers : Transfers) (heap : Environment) : Environment :=
  { heap with readOk := transfers.readOk, writeOutcome := transfers.writeOutcome }

/-- No transfer fails. -/
def Transfers.faultless : Transfers := ⟨fun _ => true, fun _ => .written⟩

variable {second : Bool} {heap : Environment} {answers : ℕ → Answer} {α : Type}

/-- No operation counts transfers back. -/
theorem cachedDevice_counts {env : Environment} {op : BlockOp} {dev dev' : Device}
    {reply : BlockReply op} (h : cachedDevice env op dev = .ok (reply, dev')) :
    dev.disk.readCount ≤ dev'.disk.readCount ∧ dev.disk.writeCount ≤ dev'.disk.writeCount := by
  cases op with
  | read lba =>
    obtain rfl : (cacheRead env lba dev).2 = dev' := congrArg Prod.snd (Except.ok.inj h)
    unfold cacheRead Hexafs.ataReadSector
    cases cacheFind lba dev.blockCache with
    | some idx => exact ⟨Nat.le_refl _, Nat.le_refl _⟩
    | none =>
      cases env.readOk dev.disk.readCount with
      | true => exact ⟨Nat.le_succ _, Nat.le_refl _⟩
      | false => exact ⟨Nat.le_succ _, Nat.le_refl _⟩
  | write lba buf =>
    obtain rfl : (cacheWrite env lba buf dev).2 = dev' := congrArg Prod.snd (Except.ok.inj h)
    unfold cacheWrite Hexafs.ataWriteSector
    cases env.writeOutcome dev.disk.writeCount with
    | written => exact ⟨Nat.le_refl _, Nat.le_succ _⟩
    | refused => exact ⟨Nat.le_refl _, Nat.le_succ _⟩
    | unconfirmed => exact ⟨Nat.le_refl _, Nat.le_succ _⟩
  | clearCache =>
    obtain rfl : { dev with blockCache := emptyCache } = dev' :=
      congrArg Prod.snd (Except.ok.inj h)
    exact ⟨Nat.le_refl _, Nat.le_refl _⟩
  | kmalloc size =>
    obtain rfl : { dev with kmallocCount := dev.kmallocCount + 1 } = dev' :=
      congrArg Prod.snd (Except.ok.inj h)
    exact ⟨Nat.le_refl _, Nat.le_refl _⟩

/-- An operation looks at the next transfer of either kind only. -/
theorem cachedDevice_congr {transfers later : Transfers} (op : BlockOp) (dev : Device)
    (hread : transfers.readOk dev.disk.readCount = later.readOk dev.disk.readCount)
    (hwrite : transfers.writeOutcome dev.disk.writeCount =
      later.writeOutcome dev.disk.writeCount) :
    cachedDevice (transfers.environment heap) op dev =
      cachedDevice (later.environment heap) op dev := by
  cases op with
  | read lba =>
    have hsame : Hexafs.ataReadSector (transfers.environment heap) lba dev.disk =
        Hexafs.ataReadSector (later.environment heap) lba dev.disk := by
      have hok : (transfers.environment heap).readOk dev.disk.readCount =
          (later.environment heap).readOk dev.disk.readCount := hread
      rw [Hexafs.ataReadSector, Hexafs.ataReadSector, hok]
    rw [cachedDevice, cachedDevice, cacheRead, cacheRead, hsame]
  | write lba buf =>
    have hsame : Hexafs.ataWriteSector (transfers.environment heap) lba buf dev.disk =
        Hexafs.ataWriteSector (later.environment heap) lba buf dev.disk := by
      have houtcome : (transfers.environment heap).writeOutcome dev.disk.writeCount =
          (later.environment heap).writeOutcome dev.disk.writeCount := hwrite
      rw [Hexafs.ataWriteSector, Hexafs.ataWriteSector, houtcome]
    rw [cachedDevice, cachedDevice, cacheWrite, cacheWrite, hsame]
  | clearCache => rfl
  | kmalloc size => rfl

/-- Transfers that agree from now on decide the same. -/
theorem run_transfers_congr {transfers later : Transfers} {reads writes : ℕ}
    (hreads : ∀ n, reads ≤ n → transfers.readOk n = later.readOk n)
    (hwrites : ∀ n, writes ≤ n → transfers.writeOutcome n = later.writeOutcome n)
    (program : Program BlockOp BlockReply α) {dev : Device} (hread : reads ≤ dev.disk.readCount)
    (hwrite : writes ≤ dev.disk.writeCount) :
    program.run (cachedDevice (transfers.environment heap)) dev =
      program.run (cachedDevice (later.environment heap)) dev := by
  have hsame : ∀ op (dev : Device), reads ≤ dev.disk.readCount ∧ writes ≤ dev.disk.writeCount →
      cachedDevice (transfers.environment heap) op dev =
        cachedDevice (later.environment heap) op dev := fun op dev hcounts =>
    cachedDevice_congr op dev (hreads _ hcounts.1) (hwrites _ hcounts.2)
  refine program.run_congr_of_inv hsame (fun op dev reply dev' hcounts hop => ?_) ⟨hread, hwrite⟩
  obtain ⟨hread', hwrite'⟩ := cachedDevice_counts hop
  exact ⟨hcounts.1.trans hread', hcounts.2.trans hwrite'⟩

/-- The drive behind the ports and the disk of the abstract device. -/
structure Attached (answers : ℕ → Answer) (ports : PortDevice) (dev : Device) : Prop where
  /-- The drive holds the sectors of the disk. -/
  holds : Holds answers dev.disk.sectors ports.drive
  /-- The caches are the same. -/
  cache : ports.blockCache = dev.blockCache
  /-- The heaps were asked as often. -/
  count : ports.kmallocCount = dev.kmallocCount
  /-- A quick drive is ready at once. -/
  ready : Swift answers → ports.drive.phase.wait = 0

/-- A quick drive makes all transfers. -/
def Fair (answers : ℕ → Answer) (transfers : Transfers) : Prop :=
  Swift answers → transfers = .faultless

/-- The transfers with another result of one read. -/
def Transfers.withRead (transfers : Transfers) (n : ℕ) (ok : Bool) : Transfers :=
  { transfers with readOk := Function.update transfers.readOk n ok }

/-- The transfers with another outcome of one write. -/
def Transfers.withWrite (transfers : Transfers) (n : ℕ) (outcome : WriteOutcome) : Transfers :=
  { transfers with writeOutcome := Function.update transfers.writeOutcome n outcome }

variable {later : Transfers} {n : ℕ} {ok : Bool} {outcome : WriteOutcome} {dev : Device}
  {ports : PortDevice}

theorem Fair.withRead (h : Fair answers later) (hok : Swift answers → ok = true) :
    Fair answers (later.withRead n ok) := by
  intro hswift
  rw [h hswift, hok hswift]
  exact congrArg (fun reads => Transfers.mk reads fun _ => .written)
    (Function.update_eq_self n fun _ => true)

theorem Fair.withWrite (h : Fair answers later) (houtcome : Swift answers → outcome = .written) :
    Fair answers (later.withWrite n outcome) := by
  intro hswift
  have hsame : Function.update (fun _ => WriteOutcome.written) n .written = fun _ => .written :=
    Function.update_eq_self n fun _ => WriteOutcome.written
  rw [h hswift, houtcome hswift]
  exact congrArg (Transfers.mk fun _ => true) hsame

theorem run_withRead (program : Program BlockOp BlockReply α) (h : n < dev.disk.readCount) :
    program.run (cachedDevice ((later.withRead n ok).environment heap)) dev =
      program.run (cachedDevice (later.environment heap)) dev := by
  have hreads : ∀ k, n + 1 ≤ k → (later.withRead n ok).readOk k = later.readOk k :=
    fun _ hle => Function.update_of_ne (Nat.ne_of_gt hle) _ _
  exact run_transfers_congr hreads (fun _ _ => rfl) program h (Nat.zero_le _)

theorem run_withWrite (program : Program BlockOp BlockReply α) (h : n < dev.disk.writeCount) :
    program.run (cachedDevice ((later.withWrite n outcome).environment heap)) dev =
      program.run (cachedDevice (later.environment heap)) dev := by
  have hwrites : ∀ k, n + 1 ≤ k → (later.withWrite n outcome).writeOutcome k =
      later.writeOutcome k := fun _ hle => Function.update_of_ne (Nat.ne_of_gt hle) _ _
  have hreads : ∀ k, 0 ≤ k → (later.withWrite n outcome).readOk k = later.readOk k :=
    fun _ _ => rfl
  exact run_transfers_congr hreads hwrites program (Nat.zero_le _) h

/-- What a read that misses the cache leaves. -/
def filled (lba : UInt32) (dev : Device) : Option Sector → Device
  | none => { dev with disk := { dev.disk with readCount := dev.disk.readCount + 1 } }
  | some tmp => { dev with
      disk := { dev.disk with readCount := dev.disk.readCount + 1 }
      blockCache := dev.blockCache.set (cacheEvict dev.blockCache) ⟨lba, false, tmp⟩ }

/-- A read that misses the cache returns the sector or not. -/
theorem cachedDevice_read {lba : UInt32} (hfind : cacheFind lba dev.blockCache = none)
    {result : Option Sector}
    (hresult : result = if ok = true then some (dev.disk.sectors (ataAddress lba)) else none) :
    cachedDevice ((later.withRead dev.disk.readCount ok).environment heap) (.read lba) dev =
      .ok (result, filled lba dev result) := by
  have hok : ((later.withRead dev.disk.readCount ok).environment heap).readOk dev.disk.readCount =
      ok := Function.update_self _ _ _
  rw [cachedDevice, cacheRead, hfind, Hexafs.ataReadSector, hok]
  subst hresult
  cases ok with
  | true => rfl
  | false => rfl

/-- What a write leaves. -/
def written (lba : UInt32) (buf : Sector) (outcome : WriteOutcome) (dev : Device) : Device :=
  { dev with
    disk := if outcome.reaches then { dev.disk with
        sectors := Function.update dev.disk.sectors (ataAddress lba) buf
        log := dev.disk.log ++ [(ataAddress lba, buf)]
        writeCount := dev.disk.writeCount + 1 }
      else { dev.disk with writeCount := dev.disk.writeCount + 1 }
    blockCache := dev.blockCache.set
      ((cacheFind lba dev.blockCache).getD (cacheEvict dev.blockCache)) ⟨lba, true, buf⟩ }

/-- A write ends as the transfers say. -/
theorem cachedDevice_write {lba : UInt32} {buf : Sector} :
    cachedDevice ((later.withWrite dev.disk.writeCount outcome).environment heap)
        (.write lba buf) dev =
      .ok (outcome.returns, written lba buf outcome dev) := by
  have houtcome : ((later.withWrite dev.disk.writeCount outcome).environment heap).writeOutcome
      dev.disk.writeCount = outcome := Function.update_self _ _ _
  rw [cachedDevice, cacheWrite, Hexafs.ataWriteSector, houtcome]
  cases outcome with
  | written => rfl
  | refused => rfl
  | unconfirmed => rfl

/-- A step over the ports that the abstract device can make as well. -/
def Matched (second : Bool) (heap : Environment) (answers : ℕ → Answer) (α : Type) (op : BlockOp)
    (ports : PortDevice) (dev : Device) : Prop :=
  ∃ reply ports' dev', portDevice second heap op ports = .ok (reply, ports') ∧
    Attached answers ports' dev' ∧ ∀ later, Fair answers later → ∃ transfers,
      Fair answers transfers ∧
      cachedDevice (transfers.environment heap) op dev = .ok (reply, dev') ∧
      ∀ rest : Program BlockOp BlockReply α,
        rest.run (cachedDevice (transfers.environment heap)) dev' =
          rest.run (cachedDevice (later.environment heap)) dev'

/-- hexafs_block_read over the ports. -/
theorem Attached.read (h : Attached answers ports dev) (hprompt : Prompt answers) (lba : UInt32) :
    Matched second heap answers α (.read lba) ports dev := by
  cases hfind : cacheFind lba dev.blockCache with
  | some idx =>
    refine ⟨dev.blockCache[idx]?.map (·.data), ports, dev, ?_, h, fun later hlater =>
      ⟨later, hlater, ?_, fun _ => rfl⟩⟩
    · rw [portDevice, portRead, h.cache, hfind]
    · rw [cachedDevice, cacheRead, hfind]
  | none =>
    have hrun : (ataReadSector second lba).wp channel () ports.drive fun result _ drive' =>
        Holds answers dev.disk.sectors drive' ∧ (Swift answers → drive'.phase.wait = 0) ∧
          ∃ ok, (Swift answers → ok = true) ∧
            result = if ok = true then some (dev.disk.sectors (ataAddress lba)) else none := by
      refine wp_ataReadSector hprompt h.holds (fun drive' hholds hzero => ?_)
        fun hslow drive' hholds => ?_
      · exact ⟨hholds, fun _ => hzero, true, fun _ => rfl, rfl⟩
      · have hnever : ¬Swift answers := fun hswift => hslow hswift (h.ready hswift)
        exact ⟨hholds, fun hswift => absurd hswift hnever, false,
          fun hswift => absurd hswift hnever, rfl⟩
    obtain ⟨result, _, drive', hexec, hholds, hready, ok, hok, hresult⟩ := hrun
    have hmatched : ∃ ports', portRead second lba ports = .ok (result, ports') ∧
        Attached answers ports' (filled lba dev result) := by
      rw [portRead, h.cache, hfind, hexec]
      cases result with
      | none => exact ⟨_, rfl, hholds, rfl, h.count, hready⟩
      | some tmp => exact ⟨_, rfl, hholds, rfl, h.count, hready⟩
    obtain ⟨ports', hports, hattached⟩ := hmatched
    refine ⟨result, ports', _, hports, hattached, fun later hlater =>
      ⟨_, hlater.withRead hok, cachedDevice_read hfind hresult, fun rest => run_withRead rest ?_⟩⟩
    cases result with
    | none => exact Nat.lt_succ_self _
    | some tmp => exact Nat.lt_succ_self _

/-- hexafs_block_write over the ports. -/
theorem Attached.write (h : Attached answers ports dev) (hprompt : Prompt answers) (lba : UInt32)
    (buf : Sector) : Matched second heap answers α (.write lba buf) ports dev := by
  have hrun : (ataWriteSector second lba buf).wp channel () ports.drive fun ok _ drive' =>
      ∃ outcome : WriteOutcome, ok = outcome.returns ∧ Holds answers
        (if outcome.reaches then Function.update dev.disk.sectors (ataAddress lba) buf
          else dev.disk.sectors) drive' ∧
        (Swift answers → outcome = .written ∧ drive'.phase.wait = 0) :=
    wp_ataWriteSector hprompt h.holds fun outcome drive' hholds hswift =>
      ⟨outcome, rfl, hholds, fun hquick => hswift hquick (h.ready hquick)⟩
  obtain ⟨_, _, drive', hexec, outcome, rfl, hholds, hswift⟩ := hrun
  have hsectors : (written lba buf outcome dev).disk.sectors = if outcome.reaches then
      Function.update dev.disk.sectors (ataAddress lba) buf else dev.disk.sectors := by
    rw [written]
    split <;> rfl
  have hattached : Attached answers { ports with
      drive := drive'
      blockCache := ports.blockCache.set
        ((cacheFind lba ports.blockCache).getD (cacheEvict ports.blockCache)) ⟨lba, true, buf⟩ }
      (written lba buf outcome dev) :=
    ⟨hsectors ▸ hholds, by rw [h.cache]; rfl, h.count, fun hquick => (hswift hquick).2⟩
  refine ⟨outcome.returns, _, _, ?_, hattached, fun later hlater =>
    ⟨_, hlater.withWrite fun hquick => (hswift hquick).1, cachedDevice_write, fun rest =>
      run_withWrite rest ?_⟩⟩
  · rw [portDevice, portWrite, hexec]
  · rw [written]
    split <;> exact Nat.lt_succ_self _

/-- Every operation over the ports is one of the abstract device, for some result of the
transfer that it makes. -/
theorem Attached.matched (h : Attached answers ports dev) (hprompt : Prompt answers)
    (op : BlockOp) : Matched second heap answers α op ports dev := by
  cases op with
  | read lba => exact h.read hprompt lba
  | write lba buf => exact h.write hprompt lba buf
  | clearCache =>
    exact ⟨(), { ports with blockCache := emptyCache }, { dev with blockCache := emptyCache },
      rfl, ⟨h.holds, rfl, h.count, h.ready⟩, fun later hlater =>
        ⟨later, hlater, rfl, fun _ => rfl⟩⟩
  | kmalloc size =>
    refine ⟨heap.heapBlock dev.kmallocCount size, { ports with
      kmallocCount := ports.kmallocCount + 1 }, { dev with kmallocCount := dev.kmallocCount + 1 },
      ?_, ⟨h.holds, h.cache, by rw [h.count], h.ready⟩, fun later hlater =>
        ⟨later, hlater, rfl, fun _ => rfl⟩⟩
    rw [portDevice, h.count]

/-- The statics of the kernel and its device over the ports. -/
structure PortMachine where
  /-- The statics. -/
  mem : Memory
  /-- The device behind the ports. -/
  dev : PortDevice

/-- Run code of the store over the ports. -/
def PortMachine.run (second : Bool) (heap : Environment) (code : HexafsM α)
    (machine : PortMachine) : Except Stop (α × PortMachine) :=
  match code.exec (portDevice second heap) machine.mem machine.dev with
  | .error stop => .error stop
  | .ok ((value, mem), dev) => .ok (value, ⟨mem, dev⟩)

/-- The machine with its ports does what the abstract one does: the same result, or the same
stop. -/
def RunsAlike (second : Bool) (heap env : Environment) (answers : ℕ → Answer) (code : HexafsM α)
    (ports : PortMachine) (machine : Machine) : Prop :=
  (∃ value ports' machine', ports.run second heap code = .ok (value, ports') ∧
    machine.run env code = .ok (value, machine') ∧ ports'.mem = machine'.mem ∧
      Attached answers ports'.dev machine'.dev) ∨
  ∃ stop, ports.run second heap code = .error stop ∧ machine.run env code = .error stop

/-- Any code of the store, run through the ports of any drive that asks for its data in time,
does what the abstract machine does in some environment, and leaves the drive with the sectors
of that machine. If the drive is quick and never fails, no transfer of that environment does. -/
theorem portRun_refines (hprompt : Prompt answers) {ports : PortMachine} {machine : Machine}
    (hmem : ports.mem = machine.mem) (h : Attached answers ports.dev machine.dev)
    (code : HexafsM α) : ∃ env : Environment, env.kmallocOk = heap.kmallocOk ∧
      env.heapByte = heap.heapByte ∧ (Swift answers → env.IoOk) ∧
        RunsAlike second heap env answers code ports machine := by
  have hfair : Fair answers .faultless := fun _ => rfl
  have hstep : ∀ op (ports : PortDevice) (dev : Device), Attached answers ports dev →
      Matched second heap answers (α × Memory) op ports dev := fun op ports dev hattached =>
    hattached.matched hprompt op
  obtain ⟨transfers, hgood, hrun⟩ := Program.run_chooses hstep hfair (code machine.mem) h
  refine ⟨transfers.environment heap, rfl, rfl, fun hswift => ?_, ?_⟩
  · rw [hgood hswift]
    exact ⟨fun _ => rfl, fun _ => rfl⟩
  · rw [RunsAlike, PortMachine.run, Machine.run, Code.exec, Code.exec, hmem]
    rcases hrun with ⟨⟨value, mem⟩, ports', dev', hports, hdev, hattached⟩ | ⟨stop, hports, hdev⟩
    · rw [hports, hdev]
      exact .inl ⟨value, ⟨mem, ports'⟩, ⟨mem, dev'⟩, rfl, rfl, rfl, hattached⟩
    · rw [hports, hdev]
      exact .inr ⟨stop, rfl, rfl⟩

/-- A drive that is busy for three reads of the status before and two behind a transfer. -/
def steady : ℕ → Answer := fun _ => ⟨3, false, 2⟩

/-- The drive with some sectors. -/
def steadyDrive (sectors : UInt32 → Sector) : Drive where
  medium block := sectorWords (sectors block)
  registers _ := 0
  phase := .idle false
  answers := steady
  commands := 0

/-- A machine that is switched on with this drive. -/
def PortMachine.boot (drive : Drive) : PortMachine := ⟨Memory.boot, drive, emptyCache, 0⟩

/-- The kernel mounts a blank disk behind the ports as the abstract machine does. -/
theorem portRun_refines_steady : ∃ env : Environment, env.IoOk ∧
    RunsAlike false .faultless env steady hexafsMount (.boot (steadyDrive blankDisk))
      (Machine.boot blankDisk) := by
  have hprompt : Prompt steady := fun _ => (by decide : 3 < 200000)
  have hswift : Swift steady :=
    ⟨fun _ => rfl, fun _ => (by decide : 3 < 50000), fun _ => (by decide : 2 < 50000)⟩
  have hholds : Holds steady blankDisk (steadyDrive blankDisk) := ⟨rfl, fun _ => rfl, trivial⟩
  have hattached : Attached steady (PortMachine.boot (steadyDrive blankDisk)).dev
      (Machine.boot blankDisk).dev := ⟨hholds, rfl, rfl, fun _ => rfl⟩
  obtain ⟨env, _, _, hio, hrun⟩ := @portRun_refines false .faultless steady Bool hprompt
    (.boot (steadyDrive blankDisk)) (Machine.boot blankDisk) rfl hattached hexafsMount
  exact ⟨env, hio hswift, hrun⟩

end Kernel

end HexaOS.Ata
