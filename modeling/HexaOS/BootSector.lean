import HexaOS.PackedBytes
import Mathlib.Data.List.GetD

/-!
# The boot sector

The Makefile puts boot.bin and kernel.bin into one floppy image and the number of sectors into
an instruction of the boot sector. boot_entry.asm reads them one by one. It counts sectors,
heads and cylinders in three registers and the place in memory in two, and calls the BIOS with
them. The BIOS is not part of the repository: what it does is a parameter here, and the results
rest on what its function 2 is documented to do.
-/

namespace HexaOS.BootSector

open PackedBytes

section Images

/-- ksect: the sectors of kernel.bin, of which at most 510 are loaded. -/
def kernelSectors (size : ℕ) : ℕ := min (size / 512 + 1) 510

/-- os.img: the boot sector and the kernel, cut or filled up to the size of a floppy. -/
def osImage (boot : Block 512) (kernel : List UInt8) : List UInt8 :=
  let bytes := (boot.bytes ++ kernel).take 1474560
  bytes ++ List.replicate (1474560 - bytes.length) 0

/-- A sector of an image. -/
def imageSector (image : List UInt8) (lba : ℕ) : Block 512 := padBlock 512 (image.drop (512 * lba))

end Images

section Loader

/-- The registers that the loop uses. DS and SS stay 0. -/
structure Registers where
  /-- The function and the number of sectors, then what the BIOS returns. -/
  ax : UInt16
  /-- The lower bits of the cylinder. -/
  ch : UInt8
  /-- The sector, and the upper bits of the cylinder. -/
  cl : UInt8
  /-- The side. -/
  dh : UInt8
  /-- The drive. -/
  dl : UInt8
  /-- The offset of the place in memory. -/
  bx : UInt16
  /-- The segment of the place in memory. -/
  es : UInt16
  /-- The sectors that are left. -/
  si : UInt16
  /-- The stack pointer. -/
  sp : UInt16
  deriving DecidableEq

/-- The registers before the loop. The Makefile patches what goes into SI. -/
def Registers.start (sectors : UInt16) : Registers where
  ax := 0x1000
  ch := 0
  cl := 2
  dh := 0
  dl := 0
  bx := 0
  es := 0x1000
  si := sectors
  sp := 0x7C00

/-- A physical address behind a segment and an offset. -/
def Registers.address (regs : Registers) : ℕ := 16 * regs.es.toNat + regs.bx.toNat

/-- CH, DH and CL for the next sector: the sectors of a track, then the other side, then the
next cylinder. -/
def Registers.nextPlace (regs : Registers) : UInt8 × UInt8 × UInt8 :=
  if regs.cl + 1 ≠ 19 then (regs.ch, regs.dh, regs.cl + 1)
  else if regs.dh + 1 ≠ 2 then (regs.ch, regs.dh + 1, 1)
  else (regs.ch + 1, 0, 1)

/-- The registers and the memory. -/
structure Machine where
  /-- The registers. -/
  regs : Registers
  /-- The byte at a physical address. -/
  memory : ℕ → UInt8

/-- push: the lower byte comes first. -/
def Machine.push (machine : Machine) (word : UInt16) : Machine :=
  let sp := machine.regs.sp - 2
  { regs := { machine.regs with sp := sp }
    memory := fun a =>
      if a = sp.toNat then word.toUInt8
      else if a = (sp + 1).toNat then (word >>> 8).toUInt8 else machine.memory a }

/-- pop ax. -/
def Machine.popAx (machine : Machine) : Machine :=
  let sp := machine.regs.sp
  let low := (machine.memory sp.toNat).toUInt16
  let high := (machine.memory (sp + 1).toNat).toUInt16
  { machine with regs := { machine.regs with ax := low ||| high <<< 8, sp := sp + 2 } }

/-- The instructions behind cmp bx, 0: ES goes to the next bank of 64 KB, through AX. -/
def Machine.nextBank (machine : Machine) : Machine :=
  if machine.regs.bx ≠ 0 then machine
  else
    let pushed := machine.push machine.regs.ax
    let es := pushed.regs.es + 0x1000
    Machine.popAx { pushed with regs := { pushed.regs with ax := es, es := es } }

/-- The instructions behind the call of the BIOS, up to cmp bx, 0. -/
def Machine.count (machine : Machine) : Machine :=
  let place := machine.regs.nextPlace
  { machine with
    regs :=
      { machine.regs with
        bx := machine.regs.bx + 512
        ch := place.1
        dh := place.2.1
        cl := place.2.2 } }

/-- The instructions behind the call of the BIOS, up to dec si. -/
def Machine.advance (machine : Machine) : Machine :=
  let counted := machine.count.nextBank
  { counted with regs := { counted.regs with si := counted.regs.si - 1 } }

/-- What int 0x13 leaves. -/
structure BiosReply where
  /-- The carry flag. -/
  carry : Bool
  /-- The registers. -/
  regs : Registers
  /-- The memory. -/
  memory : ℕ → UInt8

/-- What the loop hands to the BIOS at a call. -/
structure Call where
  /-- The registers at int 0x13. -/
  request : Registers
  /-- The memory at int 0x13. -/
  memory : ℕ → UInt8

/-- How the boot sector ends, with the calls that it made. -/
inductive Outcome where
  /-- It jumps to 0x10000. -/
  | entered (calls : List Call) (memory : ℕ → UInt8)
  /-- It stays in disk_fail. -/
  | failed (calls : List Call) (memory : ℕ → UInt8)
  /-- The rounds of the model are used up. -/
  | looping

/-- mov ah, 0x02 and mov al, 1: function 2 for one sector. -/
def Registers.ask (regs : Registers) : Registers := { regs with ax := 0x0201 }

/-- read_loop. The interrupt, from the frame that the processor pushes to iret, is a function of
the number of the call, the registers and the memory. -/
def readLoop (bios : ℕ → Registers → (ℕ → UInt8) → BiosReply) :
    ℕ → List Call → Machine → Outcome
  | 0, _, _ => .looping
  | fuel + 1, calls, machine =>
    let request := machine.regs.ask
    let reply := bios calls.length request machine.memory
    let calls := calls ++ [⟨request, machine.memory⟩]
    if reply.carry then .failed calls reply.memory
    else
      let machine := Machine.advance ⟨reply.regs, reply.memory⟩
      if machine.regs.si ≠ 0 then readLoop bios fuel calls machine
      else .entered calls machine.memory

/-- The boot sector from its first instruction on. SI counts down within 65536 rounds. -/
def bootSector (bios : ℕ → Registers → (ℕ → UInt8) → BiosReply) (sectors : UInt16)
    (memory : ℕ → UInt8) : Outcome :=
  readLoop bios 65536 [] ⟨.start sectors, memory⟩

end Loader

section Bios

/-- The sector of a floppy with two sides and 18 sectors on a track that the registers name:
the upper bits of CL belong to the cylinder. -/
def Registers.sector? (regs : Registers) : Option ℕ :=
  let sector := (regs.cl &&& 0x3F).toNat
  let cylinder := regs.ch.toNat + 256 * (regs.cl >>> 6).toNat
  if 1 ≤ sector ∧ sector ≤ 18 ∧ regs.dh.toNat < 2 ∧ cylinder < 80 then
    some ((2 * cylinder + regs.dh.toNat) * 18 + sector - 1)
  else none

/-- A request that function 2 can serve: one sector that drive 0 has, into memory behind the boot
sector and within 64 KB, on the stack below the boot sector. -/
structure Request (regs : Registers) (lba : ℕ) : Prop where
  /-- Function 2 for one sector. -/
  function : regs.ax = 0x0201
  /-- The floppy. -/
  drive : regs.dl = 0
  /-- The place is that of a sector. -/
  sector : regs.sector? = some lba
  /-- DMA does not cross a border of 64 KB. -/
  border : regs.address % 65536 + 512 ≤ 65536
  /-- The buffer is between the boot sector and the BIOS. -/
  buffer : 0x7E00 ≤ regs.address ∧ regs.address + 512 ≤ 0x80000
  /-- The stack is as the boot sector set it. -/
  stack : regs.sp = 0x7C00

/-- Function 2 of int 0x13, as it is documented, for the requests that it can serve. Its frame
and its own data are below 0x7C00 and from 0x80000 on; after an error the buffer holds anything. -/
structure BiosReads (bios : ℕ → Registers → (ℕ → UInt8) → BiosReply) (floppy : ℕ → Block 512) :
    Prop where
  /-- It returns a status in AX and keeps the other registers. -/
  regs : ∀ n regs memory lba, Request regs lba →
    (bios n regs memory).regs = { regs with ax := (bios n regs memory).regs.ax }
  /-- It keeps the memory outside of the buffer. -/
  outside : ∀ n regs memory lba a, Request regs lba → 0x7C00 ≤ a → a < 0x80000 →
    a < regs.address ∨ regs.address + 512 ≤ a → (bios n regs memory).memory a = memory a
  /-- Without the carry flag, the buffer holds the sector. -/
  sector : ∀ n regs memory lba k, Request regs lba → (bios n regs memory).carry = false →
    k < 512 → (bios n regs memory).memory (regs.address + k) = (floppy lba).bytes.getD k 0

end Bios

section Rounds

variable {bios : ℕ → Registers → (ℕ → UInt8) → BiosReply} {floppy : ℕ → Block 512}
  {before memory : ℕ → UInt8} {calls : List Call} {count i : ℕ} {ax : UInt16}

/-- CH, DH and CL for a sector of the floppy. -/
def placeOf (lba : ℕ) : UInt8 × UInt8 × UInt8 :=
  (UInt8.ofNat (lba / 36), UInt8.ofNat (lba / 18 % 2), UInt8.ofNat (lba % 18 + 1))

/-- The registers behind some rounds. -/
def registersAt (count i : ℕ) (ax : UInt16) : Registers where
  ax := ax
  ch := (placeOf (i + 1)).1
  cl := (placeOf (i + 1)).2.2
  dh := (placeOf (i + 1)).2.1
  dl := 0
  bx := UInt16.ofNat (512 * i)
  es := UInt16.ofNat (4096 * (i / 128 + 1))
  si := UInt16.ofNat (count - i)
  sp := 0x7C00

/-- The place on the floppy counts on. -/
theorem nextPlace_registersAt : (registersAt count i ax).nextPlace = placeOf (i + 2) := by
  have hcl : (registersAt count i ax).cl + 1 = UInt8.ofNat ((i + 1) % 18 + 1 + 1) :=
    (UInt8.ofNat_add _ 1).symm
  have hdh : (registersAt count i ax).dh + 1 = UInt8.ofNat ((i + 1) / 18 % 2 + 1) :=
    (UInt8.ofNat_add _ 1).symm
  have hch : (registersAt count i ax).ch + 1 = UInt8.ofNat ((i + 1) / 36 + 1) :=
    (UInt8.ofNat_add _ 1).symm
  rw [Registers.nextPlace, placeOf]
  by_cases htrack : (i + 1) % 18 = 17
  · have hwrap : (registersAt count i ax).cl + 1 = 19 := by
      rw [hcl, htrack]
      rfl
    have hsector : (i + 2) % 18 = 0 := by omega
    rw [if_neg (not_not.mpr hwrap), hsector]
    by_cases hside : (i + 1) / 18 % 2 = 1
    · have hturn : (registersAt count i ax).dh + 1 = 2 := by
        rw [hdh, hside]
        rfl
      have hcylinder : (i + 2) / 36 = (i + 1) / 36 + 1 := by omega
      have hhead : (i + 2) / 18 % 2 = 0 := by omega
      rw [if_neg (not_not.mpr hturn), hch, hcylinder, hhead]
      rfl
    · have hzero : (i + 1) / 18 % 2 = 0 := by omega
      have hturn : (registersAt count i ax).dh + 1 = 1 := by
        rw [hdh, hzero]
        rfl
      have hcylinder : (i + 2) / 36 = (i + 1) / 36 := by omega
      have hhead : (i + 2) / 18 % 2 = 1 := by omega
      rw [hturn, if_pos (by decide), hcylinder, hhead]
      rfl
  · have hcarry : (registersAt count i ax).cl + 1 ≠ 19 := by
      rw [hcl]
      intro heq
      have hnat := congrArg UInt8.toNat heq
      rw [UInt8.toNat_ofNat'] at hnat
      have hlimit : (19 : UInt8).toNat = 19 := rfl
      omega
    have hcylinder : (i + 2) / 36 = (i + 1) / 36 := by omega
    have hhead : (i + 2) / 18 % 2 = (i + 1) / 18 % 2 := by omega
    have hsector : (i + 2) % 18 + 1 = (i + 1) % 18 + 1 + 1 := by omega
    rw [if_pos hcarry, hcl, hcylinder, hhead, hsector]
    rfl

/-- ES goes to the next bank of 64 KB where BX begins again. -/
theorem bank_registersAt :
    (if (registersAt count i ax).bx + 512 ≠ 0 then (registersAt count i ax).es
      else (registersAt count i ax).es + 0x1000) = UInt16.ofNat (4096 * ((i + 1) / 128 + 1)) := by
  have hbx : (registersAt count i ax).bx + 512 = UInt16.ofNat (512 * i + 512) :=
    (UInt16.ofNat_add _ 512).symm
  have hnat : (UInt16.ofNat (512 * i + 512)).toNat = (512 * i + 512) % 2 ^ 16 :=
    UInt16.toNat_ofNat'
  rw [hbx]
  by_cases hwrap : (i + 1) % 128 = 0
  · have hzero : UInt16.ofNat (512 * i + 512) = 0 := by
      apply UInt16.toNat_inj.mp
      rw [hnat, UInt16.toNat_zero]
      omega
    have hbank : 4096 * ((i + 1) / 128 + 1) = 4096 * (i / 128 + 1) + 4096 := by omega
    rw [if_neg (not_not.mpr hzero), hbank]
    exact (UInt16.ofNat_add _ 4096).symm
  · have hne : UInt16.ofNat (512 * i + 512) ≠ 0 := by
      intro hzero
      rw [hzero, UInt16.toNat_zero] at hnat
      omega
    have hbank : (i + 1) / 128 = i / 128 := by omega
    rw [if_pos hne, hbank]
    rfl

/-- The bank is switched in ES alone; what AX holds afterwards does not matter. -/
theorem nextBank_regs (machine : Machine) : ∃ ax, machine.nextBank.regs =
    { machine.regs with
      ax := ax
      es := if machine.regs.bx ≠ 0 then machine.regs.es else machine.regs.es + 0x1000 } := by
  by_cases hbx : machine.regs.bx ≠ 0
  · refine ⟨machine.regs.ax, ?_⟩
    rw [Machine.nextBank, if_pos hbx, if_pos hbx]
  · have hsp : machine.regs.sp - 2 + 2 = machine.regs.sp := sub_add_cancel _ _
    have hregs : ∃ ax, machine.nextBank.regs =
        { machine.regs with
          ax := ax
          es := machine.regs.es + 0x1000
          sp := machine.regs.sp - 2 + 2 } := by
      rw [Machine.nextBank, if_neg hbx]
      exact ⟨_, rfl⟩
    rwa [if_neg hbx, hsp] at *

/-- push ax stores below the boot sector. -/
theorem nextBank_memory {machine : Machine} (hsp : machine.regs.sp = 0x7C00) {a : ℕ}
    (ha : 0x7C00 ≤ a) : machine.nextBank.memory a = machine.memory a := by
  rw [Machine.nextBank]
  split
  · rfl
  · have hlow : a ≠ (machine.regs.sp - 2).toNat := by
      rw [hsp]
      exact Nat.ne_of_gt (Nat.lt_of_lt_of_le (by decide) ha)
    have hhigh : a ≠ (machine.regs.sp - 2 + 1).toNat := by
      rw [hsp]
      exact Nat.ne_of_gt (Nat.lt_of_lt_of_le (by decide) ha)
    exact (if_neg hlow).trans (if_neg hhigh)

/-- One round counts on. -/
theorem advance_registersAt (hcount : i < count) :
    ∃ ax', (Machine.advance ⟨registersAt count i ax, memory⟩).regs =
      registersAt count (i + 1) ax' := by
  have hbx : (registersAt count i ax).bx + 512 = UInt16.ofNat (512 * (i + 1)) :=
    (UInt16.ofNat_add (512 * i) 512).symm
  have hsi : (registersAt count i ax).si - 1 = UInt16.ofNat (count - (i + 1)) := by
    have hleft : (registersAt count i ax).si = UInt16.ofNat (count - (i + 1)) + 1 := by
      have hsum : count - i = count - (i + 1) + 1 := by omega
      rw [registersAt, hsum]
      exact UInt16.ofNat_add _ 1
    rw [hleft]
    exact add_sub_cancel_right _ _
  obtain ⟨ax', hbank⟩ := nextBank_regs (Machine.count ⟨registersAt count i ax, memory⟩)
  refine ⟨ax', ?_⟩
  rw [Machine.advance, hbank, Machine.count]
  dsimp only
  rw [hsi, bank_registersAt, nextPlace_registersAt, hbx]
  rfl

theorem advance_memory {machine : Machine} (hsp : machine.regs.sp = 0x7C00) {a : ℕ}
    (ha : 0x7C00 ≤ a) : machine.advance.memory a = machine.memory a := by
  have hcount : machine.count.regs.sp = 0x7C00 := hsp
  rw [Machine.advance]
  dsimp only
  rw [nextBank_memory hcount ha, Machine.count]

/-- A round asks for the sector of its registers. -/
theorem readLoop_round {fuel : ℕ} :
    readLoop bios (fuel + 1) calls ⟨registersAt count i ax, memory⟩ =
    let reply := bios calls.length (registersAt count i 0x0201) memory
    let calls := calls ++ [⟨registersAt count i 0x0201, memory⟩]
    if reply.carry then .failed calls reply.memory
    else
      let machine := Machine.advance ⟨reply.regs, reply.memory⟩
      if machine.regs.si ≠ 0 then readLoop bios fuel calls machine
      else .entered calls machine.memory := by
  have hask : (registersAt count i ax).ask = registersAt count i 0x0201 := rfl
  rw [readLoop, hask]

/-- The registers name the sectors one after the other. -/
theorem sector_registersAt (hi : i < 510) : (registersAt count i ax).sector? = some (i + 1) := by
  have hch : (registersAt count i ax).ch.toNat = (i + 1) / 36 % 2 ^ 8 := UInt8.toNat_ofNat'
  have hdh : (registersAt count i ax).dh.toNat = (i + 1) / 18 % 2 % 2 ^ 8 := UInt8.toNat_ofNat'
  have hcl : (registersAt count i ax).cl.toNat = ((i + 1) % 18 + 1) % 2 ^ 8 := UInt8.toNat_ofNat'
  have hsector : ((registersAt count i ax).cl &&& 0x3F).toNat =
      (registersAt count i ax).cl.toNat % 64 := by
    rw [UInt8.toNat_and]
    exact Nat.and_two_pow_sub_one_eq_mod _ 6
  have hupper : ((registersAt count i ax).cl >>> 6).toNat =
      (registersAt count i ax).cl.toNat / 64 := by
    rw [UInt8.toNat_shiftRight]
    exact Nat.shiftRight_eq_div_pow _ 6
  rw [Registers.sector?, if_pos (by omega)]
  congr 1
  omega

/-- The sectors follow one another in memory. -/
theorem address_registersAt (hi : i < 510) :
    (registersAt count i ax).address = 65536 + 512 * i := by
  have hes : (UInt16.ofNat (4096 * (i / 128 + 1))).toNat = 4096 * (i / 128 + 1) := by
    rw [UInt16.toNat_ofNat']
    omega
  have hbx : (UInt16.ofNat (512 * i)).toNat = 512 * i % 65536 := UInt16.toNat_ofNat'
  rw [Registers.address, registersAt, hes, hbx]
  omega

/-- The request of a round is one that the BIOS can serve. -/
theorem request_registersAt (hi : i < 510) : Request (registersAt count i 0x0201) (i + 1) where
  function := rfl
  drive := rfl
  sector := sector_registersAt hi
  border := by
    rw [address_registersAt hi]
    omega
  buffer := by
    rw [address_registersAt hi]
    omega
  stack := rfl

/-- The calls ask for the sectors from 1 on, for one place after the other, and the carry flag
is set by none but the call behind those that are served. -/
structure Log (bios : ℕ → Registers → (ℕ → UInt8) → BiosReply) (calls : List Call)
    (served : ℕ) : Prop where
  /-- Each request is one that the BIOS can serve. -/
  request : ∀ i (h : i < calls.length), Request calls[i].request (i + 1)
  /-- The places in memory follow one another. -/
  address : ∀ i (h : i < calls.length), calls[i].request.address = 0x10000 + 512 * i
  /-- The carry flag tells the call that is not served. -/
  carry : ∀ i (h : i < calls.length),
    (bios i calls[i].request calls[i].memory).carry = true ↔ i = served

/-- Part way through: the sectors that are read stand in memory, and the memory around those that
were asked for is as before. -/
structure Loading (floppy : ℕ → Block 512) (before memory : ℕ → UInt8) (served asked : ℕ) :
    Prop where
  /-- The sectors from 1 on. -/
  sectors : ∀ k < 512 * served,
    memory (0x10000 + k) = (floppy (k / 512 + 1)).bytes.getD (k % 512) 0
  /-- What is outside stays. -/
  outside : ∀ a, 0x7C00 ≤ a → a < 0x80000 → a < 0x10000 ∨ 0x10000 + 512 * asked ≤ a →
    memory a = before a

/-- Another call of the next round. -/
theorem Log.append {request : Registers} {served : ℕ} (log : Log bios calls calls.length)
    (hrequest : Request request (calls.length + 1))
    (haddress : request.address = 0x10000 + 512 * calls.length)
    (hcarry : (bios calls.length request memory).carry = true ↔ calls.length = served)
    (hserved : calls.length ≤ served) : Log bios (calls ++ [⟨request, memory⟩]) served := by
  have hcases : ∀ i, i < (calls ++ [Call.mk request memory]).length →
      i < calls.length ∨ i = calls.length := by
    intro i hi
    rw [List.length_append, List.length_singleton] at hi
    omega
  have hlast : ∀ h : calls.length < (calls ++ [Call.mk request memory]).length,
      (calls ++ [Call.mk request memory])[calls.length] = ⟨request, memory⟩ := fun _ =>
    List.getElem_concat_length rfl _
  refine ⟨fun i hi => ?_, fun i hi => ?_, fun i hi => ?_⟩
  · rcases hcases i hi with hold | rfl
    · rw [List.getElem_append_left hold]
      exact log.request i hold
    · rw [hlast hi]
      exact hrequest
  · rcases hcases i hi with hold | rfl
    · rw [List.getElem_append_left hold]
      exact log.address i hold
    · rw [hlast hi]
      exact haddress
  · rcases hcases i hi with hold | rfl
    · rw [List.getElem_append_left hold, log.carry i hold]
      omega
    · rw [hlast hi]
      exact hcarry

/-- After a call, the memory around its buffer is as before. -/
theorem Loading.asked (loading : Loading floppy before memory i i) {after : ℕ → UInt8}
    (hafter : ∀ a, 0x7C00 ≤ a → a < 0x80000 → a < 0x10000 + 512 * i ∨ 0x10000 + 512 * i + 512 ≤ a →
      after a = memory a) (hi : i ≤ 510) : Loading floppy before after i (i + 1) := by
  refine ⟨fun k hk => ?_, fun a hlow hhigh ha => ?_⟩
  · rw [hafter _ (by omega) (by omega) (by omega)]
    exact loading.sectors k hk
  · rw [hafter a hlow hhigh (by omega)]
    exact loading.outside a hlow hhigh (by omega)

/-- The sector that is read comes behind the others. -/
theorem Loading.served (loading : Loading floppy before memory i (i + 1))
    (hsector : ∀ k < 512, memory (0x10000 + 512 * i + k) = (floppy (i + 1)).bytes.getD k 0) :
    Loading floppy before memory (i + 1) (i + 1) := by
  refine ⟨fun k hk => ?_, loading.outside⟩
  by_cases hold : k < 512 * i
  · exact loading.sectors k hold
  · have hplace : k / 512 = i := by omega
    have hbyte : 0x10000 + k = 0x10000 + 512 * i + k % 512 := by omega
    rw [hplace, hbyte]
    exact hsector _ (Nat.mod_lt k (by decide))

/-- The memory from the boot sector on counts alone. -/
theorem Loading.congr (loading : Loading floppy before memory i i) {after : ℕ → UInt8}
    (hafter : ∀ a, 0x7C00 ≤ a → after a = memory a) : Loading floppy before after i i := by
  refine ⟨fun k hk => ?_, fun a hlow hhigh ha => ?_⟩
  · rw [hafter _ (by omega)]
    exact loading.sectors k hk
  · rw [hafter a hlow]
    exact loading.outside a hlow hhigh ha

/-- How the loop ends: behind the last sector, or at the first call that is not served. -/
def Ends (bios : ℕ → Registers → (ℕ → UInt8) → BiosReply) (floppy : ℕ → Block 512)
    (before : ℕ → UInt8) (count : ℕ) (outcome : Outcome) : Prop :=
  (∃ calls after, outcome = .entered calls after ∧ calls.length = count ∧
    Log bios calls count ∧ Loading floppy before after count count) ∨
  ∃ n < count, ∃ calls after, outcome = .failed calls after ∧ calls.length = n + 1 ∧
    Log bios calls n ∧ Loading floppy before after n (n + 1)

/-- The call of a round changes no memory but that of its sector. -/
theorem round_asked (reads : BiosReads bios floppy) (hi : i < 510) (n : ℕ)
    (loading : Loading floppy before memory i i) :
    Loading floppy before (bios n (registersAt count i 0x0201) memory).memory i (i + 1) := by
  have haddress := @address_registersAt count _ 0x0201 hi
  refine loading.asked (fun a hlow hhigh ha => ?_) (Nat.le_of_lt hi)
  refine reads.outside _ _ _ _ a (request_registersAt hi) hlow hhigh ?_
  rwa [haddress]

/-- A round without the carry flag adds its sector. -/
theorem round_served (reads : BiosReads bios floppy) (hi : i < 510) (hcount : i < count) (n : ℕ)
    (loading : Loading floppy before memory i i)
    (hclear : (bios n (registersAt count i 0x0201) memory).carry = false) :
    ∃ ax' after, Machine.advance ⟨(bios n (registersAt count i 0x0201) memory).regs,
        (bios n (registersAt count i 0x0201) memory).memory⟩ =
        ⟨registersAt count (i + 1) ax', after⟩ ∧
      Loading floppy before after (i + 1) (i + 1) := by
  have hrequest := @request_registersAt count _ hi
  have haddress := @address_registersAt count _ 0x0201 hi
  have hasked := @round_asked _ _ _ _ count _ reads hi n loading
  have hkept := reads.regs n _ memory _ hrequest
  generalize hreply : bios n (registersAt count i 0x0201) memory = reply at hclear hasked hkept ⊢
  have hregs : reply.regs = registersAt count i reply.regs.ax := hkept
  have hserved : Loading floppy before reply.memory (i + 1) (i + 1) := by
    refine hasked.served fun k hk => ?_
    have hcarry : (bios n (registersAt count i 0x0201) memory).carry = false := by
      rw [hreply, hclear]
    rw [← hreply, ← haddress]
    exact reads.sector _ _ _ _ k hrequest hcarry hk
  rw [hregs]
  obtain ⟨ax', hadvance⟩ := @advance_registersAt reply.memory count i reply.regs.ax hcount
  refine ⟨ax', (Machine.advance ⟨registersAt count i reply.regs.ax, reply.memory⟩).memory, ?_, ?_⟩
  · rw [← hadvance]
  · exact hserved.congr fun a ha => advance_memory rfl ha

/-- si counts the sectors that are left. -/
theorem si_registersAt_eq_zero_iff {ax : UInt16} (hi : i ≤ count) (hcount : count ≤ 510) :
    (registersAt count i ax).si = 0 ↔ i = count := by
  have hsi : (registersAt count i ax).si.toNat = (count - i) % 2 ^ 16 := UInt16.toNat_ofNat'
  rw [← UInt16.toNat_inj, hsi, UInt16.toNat_zero]
  omega

/-- The rounds that are left keep the sectors that are read and add the others. -/
theorem readLoop_ends (reads : BiosReads bios floppy) (hcount : count ≤ 510) {fuel left : ℕ}
    (hleft : calls.length + left = count) (hpos : 0 < left) (hfuel : left ≤ fuel)
    (log : Log bios calls calls.length)
    (loading : Loading floppy before memory calls.length calls.length) :
    Ends bios floppy before count
      (readLoop bios fuel calls ⟨registersAt count calls.length ax, memory⟩) := by
  induction left generalizing calls fuel memory ax with
  | zero => exact absurd hpos (Nat.lt_irrefl 0)
  | succ left ih =>
    obtain ⟨fuel, rfl⟩ := Nat.exists_eq_add_one_of_ne_zero (Nat.ne_of_gt (hpos.trans_le hfuel))
    have hi : calls.length < 510 := by omega
    have hrequest := @request_registersAt count _ hi
    have haddress := @address_registersAt count _ 0x0201 hi
    have hlength : (calls ++ [Call.mk (registersAt count calls.length 0x0201) memory]).length =
        calls.length + 1 := List.length_append
    rw [readLoop_round]
    dsimp only
    cases hcarry : (bios calls.length (registersAt count calls.length 0x0201) memory).carry with
    | true =>
      rw [if_pos rfl]
      refine .inr ⟨calls.length, by omega, _, _, rfl, hlength, ?_,
        round_asked reads hi _ loading⟩
      exact log.append hrequest haddress (iff_of_true hcarry rfl) (Nat.le_refl _)
    | false =>
      have hlog : Log bios (calls ++ [⟨registersAt count calls.length 0x0201, memory⟩])
          (calls.length + 1) := by
        refine log.append hrequest haddress (iff_of_false ?_ (by omega)) (Nat.le_succ _)
        rw [hcarry]
        exact Bool.false_ne_true
      obtain ⟨ax', after, hadvance, hserved⟩ :=
        round_served reads hi (by omega) calls.length loading hcarry
      have hsi : (registersAt count (calls.length + 1) ax').si = 0 ↔ calls.length + 1 = count :=
        si_registersAt_eq_zero_iff (by omega) hcount
      rw [if_neg Bool.false_ne_true, hadvance]
      by_cases hlast : calls.length + 1 = count
      · rw [if_neg (not_not.mpr (hsi.mpr hlast))]
        rw [hlast] at hlength hlog hserved
        exact .inl ⟨_, _, rfl, hlength, hlog, hserved⟩
      · rw [if_pos (hlast ∘ hsi.mp)]
        rw [← hlength] at hlog hserved ⊢
        exact ih (by omega) (by omega) (Nat.le_of_succ_le_succ hfuel) hlog hserved

/-- The boot sector loads the sectors from 1 on, up to the first call that fails. -/
theorem bootSector_ends (reads : BiosReads bios floppy) (before : ℕ → UInt8) (hpos : 0 < count)
    (hcount : count ≤ 510) :
    Ends bios floppy before count (bootSector bios (UInt16.ofNat count) before) := by
  have hstart : Registers.start (UInt16.ofNat count) = registersAt count 0 0x1000 := rfl
  have hlog : Log bios [] 0 := ⟨fun i hi => absurd hi (Nat.not_lt_zero i),
    fun i hi => absurd hi (Nat.not_lt_zero i), fun i hi => absurd hi (Nat.not_lt_zero i)⟩
  have hloading : Loading floppy before before 0 0 :=
    ⟨fun k hk => absurd hk (Nat.not_lt_zero k), fun _ _ _ _ => rfl⟩
  rw [bootSector, hstart]
  exact readLoop_ends reads hcount (Nat.zero_add count) hpos (by omega) hlog hloading

end Rounds

section Boots

variable {kernel : List UInt8} {boot : Block 512}

theorem getD_append_zeros (bytes : List UInt8) (n k : ℕ) :
    (bytes ++ List.replicate n 0).getD k 0 = bytes.getD k 0 := by
  by_cases hk : k < bytes.length
  · rw [List.getD_append _ _ _ _ hk]
  · rw [List.getD_append_right _ _ _ _ (Nat.le_of_not_lt hk), List.getD_eq_default _ _
      (Nat.le_of_not_lt hk), List.getD_eq_getElem?_getD, List.getElem?_replicate]
    split <;> rfl

theorem getD_take {bytes : List UInt8} {n k : ℕ} (hk : k < n) :
    (bytes.take n).getD k 0 = bytes.getD k 0 := by
  rw [List.getD_eq_getElem?_getD, List.getD_eq_getElem?_getD, List.getElem?_take_of_lt hk]

/-- A byte of a sector is one of the image. -/
theorem imageSector_getD (image : List UInt8) (lba : ℕ) {k : ℕ} (hk : k < 512) :
    (imageSector image lba).bytes.getD k 0 = image.getD (512 * lba + k) 0 := by
  have hbytes : (imageSector image lba).bytes = (image.drop (512 * lba)).take 512 ++
      List.replicate (512 - (image.drop (512 * lba)).length) 0 := rfl
  rw [hbytes, getD_append_zeros, getD_take hk, List.getD_eq_getElem?_getD,
    List.getD_eq_getElem?_getD, List.getElem?_drop]

/-- Behind the boot sector, the image holds the kernel. -/
theorem osImage_getD {k : ℕ} (hk : 512 + k < 1474560) :
    (osImage boot kernel).getD (512 + k) 0 = kernel.getD k 0 := by
  rw [osImage, getD_append_zeros, getD_take hk]
  have hlen : boot.bytes.length ≤ 512 + k := by
    rw [boot.length_bytes]
    exact Nat.le_add_right _ _
  rw [List.getD_append_right _ _ _ _ hlen, boot.length_bytes, Nat.add_sub_cancel_left]

/-- The kernel is in memory: the bytes of kernel.bin, zeros behind them up to the last sector that
is read, and no other byte changed between the boot sector and the BIOS but those asked for. -/
structure KernelIn (kernel : List UInt8) (before after : ℕ → UInt8) (served asked : ℕ) :
    Prop where
  /-- The kernel at 0x10000. -/
  kernel : ∀ k < 512 * served, after (0x10000 + k) = kernel.getD k 0
  /-- The boot sector and the memory behind the kernel stay. -/
  outside : ∀ a, 0x7C00 ≤ a → a < 0x80000 → a < 0x10000 ∨ 0x10000 + 512 * asked ≤ a →
    after a = before a

/-- The sectors of the image behind its first are the kernel. -/
theorem Loading.kernelIn {before after : ℕ → UInt8} {served asked : ℕ} (hserved : served ≤ 510)
    (loading : Loading (imageSector (osImage boot kernel)) before after served asked) :
    KernelIn kernel before after served asked := by
  refine ⟨fun k hk => ?_, loading.outside⟩
  have hbyte : 512 * (k / 512 + 1) + k % 512 = 512 + k := by omega
  rw [loading.sectors k hk, imageSector_getD _ _ (Nat.mod_lt k (by decide)), hbyte,
    osImage_getD (by omega)]

/-- Whatever the kernel, and whatever a BIOS does that reads sectors as documented: the boot sector
of the image asks for the sectors of the kernel in order, with requests that the BIOS can serve.
If it serves all, the boot sector jumps to 0x10000 with the kernel there, as a whole unless it has
510 sectors or more. Otherwise it stops at the first call that sets the carry flag, and never
jumps. -/
theorem bootSector_loads (boot : Block 512) (kernel : List UInt8)
    (bios : ℕ → Registers → (ℕ → UInt8) → BiosReply) (before : ℕ → UInt8)
    (reads : BiosReads bios (imageSector (osImage boot kernel))) :
    let sectors := kernelSectors kernel.length
    let outcome := bootSector bios (UInt16.ofNat sectors) before
    (kernel.length < 510 * 512 → kernel.length < 512 * sectors) ∧
      ((∃ calls after, outcome = .entered calls after ∧ calls.length = sectors ∧
          Log bios calls sectors ∧ KernelIn kernel before after sectors sectors) ∨
        ∃ n < sectors, ∃ calls after, outcome = .failed calls after ∧ calls.length = n + 1 ∧
          Log bios calls n ∧ KernelIn kernel before after n (n + 1)) := by
  intro sectors outcome
  have hsectors : sectors = min (kernel.length / 512 + 1) 510 := rfl
  have hends : Ends bios (imageSector (osImage boot kernel)) before sectors outcome :=
    bootSector_ends reads before (by omega) (by omega)
  refine ⟨by omega, ?_⟩
  rcases hends with ⟨calls, after, hentered, hlength, hlog, hloading⟩ |
    ⟨n, hn, calls, after, hfailed, hlength, hlog, hloading⟩
  · exact .inl ⟨calls, after, hentered, hlength, hlog, hloading.kernelIn (by omega)⟩
  · exact .inr ⟨n, hn, calls, after, hfailed, hlength, hlog, hloading.kernelIn (by omega)⟩

/-- A BIOS that leaves the frame of the interrupt below the stack pointer, and reads. -/
def floppyBios (floppy : ℕ → Block 512) (_ : ℕ) (regs : Registers) (memory : ℕ → UInt8) :
    BiosReply :=
  let framed : ℕ → UInt8 := fun a =>
    if a < regs.sp.toNat ∧ regs.sp.toNat ≤ a + 6 then 0xF0 else memory a
  match regs.sector? with
  | none => ⟨true, { regs with ax := 0x0100 }, framed⟩
  | some lba =>
    ⟨false, { regs with ax := 0x0001 }, fun a =>
      if regs.address ≤ a ∧ a < regs.address + 512 then
        (floppy lba).bytes.getD (a - regs.address) 0
      else framed a⟩

theorem floppyBios_request {floppy : ℕ → Block 512} {n : ℕ} {regs : Registers}
    {memory : ℕ → UInt8} {lba : ℕ} (request : Request regs lba) :
    floppyBios floppy n regs memory =
      ⟨false, { regs with ax := 0x0001 }, fun a =>
        if regs.address ≤ a ∧ a < regs.address + 512 then
          (floppy lba).bytes.getD (a - regs.address) 0
        else if a < 0x7C00 ∧ 0x7C00 ≤ a + 6 then 0xF0 else memory a⟩ := by
  have hsp : regs.sp.toNat = 0x7C00 := by
    rw [request.stack]
    rfl
  rw [floppyBios, request.sector, hsp]

theorem floppyBios_reads (floppy : ℕ → Block 512) : BiosReads (floppyBios floppy) floppy where
  regs n regs memory lba request := by rw [floppyBios_request request]
  outside n regs memory lba a request hlow _ ha := by
    rw [floppyBios_request request]
    dsimp only
    rw [if_neg (by omega), if_neg (by omega)]
  sector n regs memory lba k request _ hk := by
    rw [floppyBios_request request]
    dsimp only
    rw [if_pos (by omega), Nat.add_sub_cancel_left]

/-- A kernel of two banks. -/
theorem bootSector_loads_banks :
    let kernel : List UInt8 := List.replicate 70000 144
    let bios := floppyBios (imageSector (osImage (padBlock 512 []) kernel))
    ∃ calls after, bootSector bios (UInt16.ofNat 137) (fun _ => 0) = .entered calls after ∧
      calls.length = 137 ∧ KernelIn kernel (fun _ => 0) after 137 137 := by
  intro kernel bios
  have hlen : kernel.length = 70000 := List.length_replicate
  have hsectors : kernelSectors kernel.length = 137 := by
    rw [hlen]
    rfl
  obtain ⟨_, hends⟩ :=
    bootSector_loads (padBlock 512 []) kernel bios (fun _ => 0) (floppyBios_reads _)
  rw [hsectors] at hends
  rcases hends with ⟨calls, after, hentered, hlength, _, hkernel⟩ |
    ⟨n, _, calls, _, _, hlength, hlog, _⟩
  · exact ⟨calls, after, hentered, hlength, hkernel⟩
  · have hn : n < calls.length := by omega
    have hcarry := (hlog.carry n hn).mpr rfl
    have hclear : (bios n calls[n].request calls[n].memory).carry = false :=
      congrArg BiosReply.carry (floppyBios_request (hlog.request n hn))
    exact absurd (hclear.symm.trans hcarry) Bool.false_ne_true

end Boots

end HexaOS.BootSector
