import Mathlib.Data.UInt
import Mathlib.Logic.Function.Basic

/-!
# Interrupt stacks of the x86

The registers and the stack of a 32-bit x86 in protected mode, as far as interrupt stubs
use them: pushes and pops, `pusha` and `popa`, the entry into an interrupt handler and the
return from it. Memory is a map from addresses to dwords; a stack is read as the list of
the dwords from an address on.
-/

namespace X86

/-- The registers. -/
structure Cpu where
  /-- EAX. -/
  eax : UInt32
  /-- ECX. -/
  ecx : UInt32
  /-- EDX. -/
  edx : UInt32
  /-- EBX. -/
  ebx : UInt32
  /-- ESP. -/
  esp : UInt32
  /-- EBP. -/
  ebp : UInt32
  /-- ESI. -/
  esi : UInt32
  /-- EDI. -/
  edi : UInt32
  /-- EIP. -/
  eip : UInt32
  /-- EFLAGS. -/
  eflags : UInt32
  /-- CS. -/
  cs : UInt16
  /-- DS. -/
  ds : UInt16
  /-- ES. -/
  es : UInt16
  /-- FS. -/
  fs : UInt16
  /-- GS. -/
  gs : UInt16
  /-- SS. -/
  ss : UInt16
  deriving DecidableEq

/-- The registers and the memory. -/
structure Machine where
  /-- The registers. -/
  cpu : Cpu
  /-- The dword at each address. -/
  mem : UInt32 → UInt32

/-- The segment registers that can be pushed and popped. -/
inductive SegReg where
  | ds
  | es
  | fs
  | gs

/-- Read a segment register. -/
def Cpu.seg (cpu : Cpu) : SegReg → UInt16
  | .ds => cpu.ds
  | .es => cpu.es
  | .fs => cpu.fs
  | .gs => cpu.gs

/-- Load a segment register. -/
def Cpu.setSeg (cpu : Cpu) (selector : UInt16) : SegReg → Cpu
  | .ds => { cpu with ds := selector }
  | .es => { cpu with es := selector }
  | .fs => { cpu with fs := selector }
  | .gs => { cpu with gs := selector }

namespace Machine

/-- Push a dword. -/
def push (machine : Machine) (value : UInt32) : Machine where
  cpu := { machine.cpu with esp := machine.cpu.esp - 4 }
  mem := Function.update machine.mem (machine.cpu.esp - 4) value

/-- The dword on top of the stack. -/
def top (machine : Machine) : UInt32 := machine.mem machine.cpu.esp

/-- Move the stack pointer up. -/
def drop (machine : Machine) (bytes : UInt32) : Machine :=
  { machine with cpu := { machine.cpu with esp := machine.cpu.esp + bytes } }

end Machine

/-- The instructions of interrupt stubs. -/
inductive Instr where
  /-- push imm32 -/
  | pushImm (value : UInt32)
  /-- push of a segment register -/
  | pushSeg (seg : SegReg)
  /-- pop of a segment register -/
  | popSeg (seg : SegReg)
  /-- push esp -/
  | pushEsp
  | pusha
  | popa
  /-- mov ax, imm16 -/
  | movAx (value : UInt16)
  /-- mov of ax to a segment register -/
  | movSegAx (seg : SegReg)
  /-- mov [esp + offset], eax -/
  | storeEax (offset : UInt32)
  /-- add esp, imm -/
  | addEsp (bytes : UInt32)
  /-- mov of a value to esp -/
  | movEsp (value : UInt32)
  | cld

/-- pusha: eax at the highest address, edi at the lowest. -/
def pusha (machine : Machine) : Machine :=
  let cpu := machine.cpu
  (((((((machine.push cpu.eax).push cpu.ecx).push cpu.edx).push cpu.ebx).push cpu.esp).push
    cpu.ebp).push cpu.esi).push cpu.edi

/-- popa. The dword that pusha pushed for esp is skipped. -/
def popa (machine : Machine) : Machine :=
  let esp := machine.cpu.esp
  { machine with cpu := { machine.cpu with
      edi := machine.mem esp
      esi := machine.mem (esp + 4)
      ebp := machine.mem (esp + 8)
      ebx := machine.mem (esp + 16)
      edx := machine.mem (esp + 20)
      ecx := machine.mem (esp + 24)
      eax := machine.mem (esp + 28)
      esp := esp + 32 } }

/-- Execute an instruction. -/
def Instr.exec (machine : Machine) : Instr → Machine
  | pushImm value => machine.push value
  | pushSeg seg => machine.push (machine.cpu.seg seg).toUInt32
  | popSeg seg => { machine with cpu := machine.cpu.setSeg machine.top.toUInt16 seg }.drop 4
  | pushEsp => machine.push machine.cpu.esp
  | pusha => X86.pusha machine
  | popa => X86.popa machine
  | movAx value => { machine with cpu := { machine.cpu with
      eax := (machine.cpu.eax &&& 0xFFFF0000) ||| value.toUInt32 } }
  | movSegAx seg => { machine with cpu := machine.cpu.setSeg machine.cpu.eax.toUInt16 seg }
  | storeEax offset => { machine with
      mem := Function.update machine.mem (machine.cpu.esp + offset) machine.cpu.eax }
  | addEsp bytes => machine.drop bytes
  | movEsp value => { machine with cpu := { machine.cpu with esp := value } }
  | cld => { machine with cpu := { machine.cpu with eflags := machine.cpu.eflags &&& ~~~0x400 } }

/-- Execute instructions one after the other. -/
def run (code : List Instr) (machine : Machine) : Machine := code.foldl Instr.exec machine

/-- The privilege level that a selector asks for. -/
def rpl (selector : UInt16) : ℕ := (selector &&& 3).toNat

/-- What the processor reads of the descriptor tables and the task state segment. -/
structure Tables where
  /-- The privilege level of the descriptor behind a selector. -/
  dpl : UInt16 → ℕ
  /-- The stack pointer of the TSS. -/
  esp0 : UInt32
  /-- The stack selector of the TSS. -/
  ss0 : UInt16

/-- A null selector. -/
def isNull (selector : UInt16) : Bool := selector &&& 0xFFFC == 0

/-- The processor enters an interrupt gate. From a lower privilege it takes the stack of
the task state segment, which must not be null. -/
def interrupt (tables : Tables) (handlerCs : UInt16) (handlerEip : UInt32) (machine : Machine) :
    Option Machine :=
  let cpu := machine.cpu
  let enter (entered : Machine) : Machine :=
    let pushed := ((entered.push cpu.eflags).push cpu.cs.toUInt32).push cpu.eip
    { pushed with cpu := { pushed.cpu with
        eip := handlerEip, cs := handlerCs, eflags := cpu.eflags &&& ~~~0x200 } }
  if rpl cpu.cs = rpl handlerCs then some (enter machine)
  else if isNull tables.ss0 then none
  else
    let switched : Machine :=
      { machine with cpu := { cpu with esp := tables.esp0, ss := tables.ss0 } }
    some (enter ((switched.push cpu.ss.toUInt32).push cpu.esp))

/-- A data segment register after a return to a lower privilege. -/
def lowered (tables : Tables) (level : ℕ) (selector : UInt16) : UInt16 :=
  if isNull selector || level ≤ tables.dpl selector then selector else 0

/-- iretd. A return to a code segment of another privilege than its selector asks for, or
to a higher one, is a general protection fault. -/
def iretd (tables : Tables) (machine : Machine) : Option Machine :=
  let esp := machine.cpu.esp
  let cs := (machine.mem (esp + 4)).toUInt16
  if rpl cs < rpl machine.cpu.cs ∨ tables.dpl cs ≠ rpl cs then none
  else if rpl cs = rpl machine.cpu.cs then
    some { machine with cpu := { machine.cpu with
      eip := machine.mem esp, cs := cs, eflags := machine.mem (esp + 8), esp := esp + 12 } }
  else
    some { machine with cpu := { machine.cpu with
      eip := machine.mem esp
      cs := cs
      eflags := machine.mem (esp + 8)
      esp := machine.mem (esp + 12)
      ss := (machine.mem (esp + 16)).toUInt16
      ds := lowered tables (rpl cs) machine.cpu.ds
      es := lowered tables (rpl cs) machine.cpu.es
      fs := lowered tables (rpl cs) machine.cpu.fs
      gs := lowered tables (rpl cs) machine.cpu.gs } }

/-- After a return the code segment has the privilege that its selector asks for. -/
theorem iretd_code {tables : Tables} {machine back : Machine}
    (h : iretd tables machine = some back) : tables.dpl back.cpu.cs = rpl back.cpu.cs := by
  simp only [iretd] at h
  split_ifs at h with hfault hsame
  · have hcode := not_or.mp hfault
    rw [← Option.some.inj h]
    exact not_not.mp hcode.2
  · have hcode := not_or.mp hfault
    rw [← Option.some.inj h]
    exact not_not.mp hcode.2

/-- The dwords from an address on. -/
def Holds (mem : UInt32 → UInt32) (address : UInt32) : List UInt32 → Prop
  | [] => True
  | word :: words => mem address = word ∧ Holds mem (address + 4) words

/-- Read dwords from an address on. -/
def wordsAt (mem : UInt32 → UInt32) (address : UInt32) : ℕ → List UInt32
  | 0 => []
  | count + 1 => mem address :: wordsAt mem (address + 4) count

/-- The registers of a machine and its stack, from the top. -/
structure Machine.Shows (machine : Machine) (cpu : Cpu) (words : List UInt32) : Prop where
  /-- The registers are these. -/
  registers : machine.cpu = cpu
  /-- The stack holds the words. -/
  stack : Holds machine.mem cpu.esp words

section Stacks

variable {mem : UInt32 → UInt32} {target distance : UInt32} {words : List UInt32}

/-- A write below some dwords keeps them. -/
theorem holds_update (value : UInt32) (hpos : 0 < distance.toNat)
    (hroom : distance.toNat + 4 * words.length < 2 ^ 32)
    (h : Holds mem (target + distance) words) :
    Holds (Function.update mem target value) (target + distance) words := by
  induction words generalizing distance with
  | nil => trivial
  | cons first words ih =>
    have hlength : (first :: words).length = words.length + 1 := rfl
    have hne : target + distance ≠ target := by
      intro heq
      have hzero : distance = 0 := by simpa using heq
      rw [hzero] at hpos
      exact absurd hpos (by decide)
    have hnext : (distance + 4).toNat = distance.toNat + 4 := by
      rw [UInt32.toNat_add]
      have : (4 : UInt32).toNat = 4 := rfl
      omega
    have htail : Holds mem (target + (distance + 4)) words := by
      rw [← add_assoc]
      exact h.2
    have hkept := ih (by omega) (by omega) htail
    rw [← add_assoc] at hkept
    exact ⟨by rw [Function.update_of_ne hne]; exact h.1, hkept⟩

/-- Dwords are where reading finds them. -/
theorem holds_iff_wordsAt {address : UInt32} :
    Holds mem address words ↔ wordsAt mem address words.length = words := by
  induction words generalizing address with
  | nil => exact iff_of_true trivial rfl
  | cons first words ih => rw [Holds, ih, List.length_cons, wordsAt, List.cons.injEq]

end Stacks

namespace Machine.Shows

variable {machine : Machine} {cpu : Cpu} {word : UInt32} {words : List UInt32}

/-- A push puts a dword on top. -/
theorem push (h : machine.Shows cpu words) (value : UInt32) (hroom : words.length < 2 ^ 29) :
    (machine.push value).Shows { cpu with esp := cpu.esp - 4 } (value :: words) := by
  obtain ⟨rfl, hstack⟩ := h
  have hback : machine.cpu.esp - 4 + 4 = machine.cpu.esp := by grind
  have hbelow : Holds machine.mem (machine.cpu.esp - 4 + 4) words := by
    rw [hback]
    exact hstack
  have hfour : (4 : UInt32).toNat = 4 := rfl
  have hkept := holds_update value (by decide) (by omega) hbelow
  exact ⟨rfl, Function.update_self _ _ _, hkept⟩

/-- push imm32 -/
theorem pushImm (h : machine.Shows cpu words) (value : UInt32) (hroom : words.length < 2 ^ 29) :
    ((Instr.pushImm value).exec machine).Shows { cpu with esp := cpu.esp - 4 }
      (value :: words) := h.push value hroom

/-- push of a segment register -/
theorem pushSeg (h : machine.Shows cpu words) (seg : SegReg) (hroom : words.length < 2 ^ 29) :
    ((Instr.pushSeg seg).exec machine).Shows { cpu with esp := cpu.esp - 4 }
      ((cpu.seg seg).toUInt32 :: words) := by
  obtain ⟨rfl, hstack⟩ := h
  exact push ⟨rfl, hstack⟩ _ hroom

/-- push esp -/
theorem pushEsp (h : machine.Shows cpu words) (hroom : words.length < 2 ^ 29) :
    (Instr.pushEsp.exec machine).Shows { cpu with esp := cpu.esp - 4 } (cpu.esp :: words) := by
  obtain ⟨rfl, hstack⟩ := h
  exact push ⟨rfl, hstack⟩ _ hroom

/-- pusha puts the general registers on the stack. -/
theorem pusha (h : machine.Shows cpu words) (hroom : words.length < 2 ^ 28) :
    (Instr.pusha.exec machine).Shows { cpu with esp := cpu.esp - 32 }
      (cpu.edi :: cpu.esi :: cpu.ebp :: cpu.esp :: cpu.ebx :: cpu.edx :: cpu.ecx ::
        cpu.eax :: words) := by
  have hdown : cpu.esp - 4 - 4 - 4 - 4 - 4 - 4 - 4 - 4 = cpu.esp - 32 := by grind
  have heax := h.push cpu.eax (by omega)
  have hecx := heax.push cpu.ecx (by rw [List.length_cons]; omega)
  have hedx := hecx.push cpu.edx (by simp only [List.length_cons]; omega)
  have hebx := hedx.push cpu.ebx (by simp only [List.length_cons]; omega)
  have hesp := hebx.push cpu.esp (by simp only [List.length_cons]; omega)
  have hebp := hesp.push cpu.ebp (by simp only [List.length_cons]; omega)
  have hesi := hebp.push cpu.esi (by simp only [List.length_cons]; omega)
  have hedi := hesi.push cpu.edi (by simp only [List.length_cons]; omega)
  simp only [hdown] at hedi
  obtain ⟨rfl, -⟩ := h
  exact hedi

/-- Taking a dword off the stack. -/
theorem drop (h : machine.Shows cpu (word :: words)) :
    (machine.drop 4).Shows { cpu with esp := cpu.esp + 4 } words := by
  obtain ⟨rfl, hstack⟩ := h
  exact ⟨rfl, hstack.2⟩

/-- add esp, 4 -/
theorem addEsp (h : machine.Shows cpu (word :: words)) :
    ((Instr.addEsp 4).exec machine).Shows { cpu with esp := cpu.esp + 4 } words := h.drop

/-- add esp, 8 -/
theorem addEsp_eight {second : UInt32} (h : machine.Shows cpu (word :: second :: words)) :
    ((Instr.addEsp 8).exec machine).Shows { cpu with esp := cpu.esp + 8 } words := by
  obtain ⟨rfl, hstack⟩ := h
  simp only [Holds, UInt32.add_assoc, UInt32.reduceAdd] at hstack
  exact ⟨rfl, hstack.2.2⟩

/-- add esp, 16 -/
theorem addEsp_sixteen {second third fourth : UInt32}
    (h : machine.Shows cpu (word :: second :: third :: fourth :: words)) :
    ((Instr.addEsp 16).exec machine).Shows { cpu with esp := cpu.esp + 16 } words := by
  obtain ⟨rfl, hstack⟩ := h
  simp only [Holds, UInt32.add_assoc, UInt32.reduceAdd] at hstack
  exact ⟨rfl, hstack.2.2.2.2⟩

/-- mov of a value to esp -/
theorem movEsp {value : UInt32} (h : Holds machine.mem value words) :
    ((Instr.movEsp value).exec machine).Shows { machine.cpu with esp := value } words := ⟨rfl, h⟩

/-- pop of a segment register -/
theorem popSeg (h : machine.Shows cpu (word :: words)) (seg : SegReg) :
    ((Instr.popSeg seg).exec machine).Shows
      { cpu.setSeg word.toUInt16 seg with esp := cpu.esp + 4 } words := by
  obtain ⟨rfl, htop, hwords⟩ := h
  cases seg with
  | _ => exact ⟨by simp only [Instr.exec, Machine.drop, Machine.top, htop, Cpu.setSeg], hwords⟩

/-- mov of ax to a segment register -/
theorem movSegAx (h : machine.Shows cpu words) (seg : SegReg) :
    ((Instr.movSegAx seg).exec machine).Shows (cpu.setSeg cpu.eax.toUInt16 seg) words := by
  obtain ⟨rfl, hstack⟩ := h
  cases seg with
  | _ => exact ⟨rfl, hstack⟩

/-- mov ax, imm16 -/
theorem movAx (h : machine.Shows cpu words) (value : UInt16) :
    ((Instr.movAx value).exec machine).Shows
      { cpu with eax := (cpu.eax &&& 0xFFFF0000) ||| value.toUInt32 } words := by
  obtain ⟨rfl, hstack⟩ := h
  exact ⟨rfl, hstack⟩

/-- cld -/
theorem cld (h : machine.Shows cpu words) :
    (Instr.cld.exec machine).Shows { cpu with eflags := cpu.eflags &&& ~~~0x400 } words := by
  obtain ⟨rfl, hstack⟩ := h
  exact ⟨rfl, hstack⟩

/-- The dword on top is overwritten with eax. -/
theorem storeTop (h : machine.Shows cpu (word :: words)) (hroom : words.length < 2 ^ 29) :
    ((Instr.storeEax 0).exec machine).Shows cpu (cpu.eax :: words) := by
  obtain ⟨rfl, -, hwords⟩ := h
  have hfour : (4 : UInt32).toNat = 4 := rfl
  have hzero : machine.cpu.esp + 0 = machine.cpu.esp := by grind
  have hkept := holds_update machine.cpu.eax (by decide) (by omega) hwords
  refine ⟨rfl, ?_⟩
  show Holds (Function.update machine.mem (machine.cpu.esp + 0) machine.cpu.eax) _ _
  rw [hzero]
  exact ⟨Function.update_self _ _ _, hkept⟩

/-- popa loads the general registers from the stack. -/
theorem popa {edi esi ebp esp ebx edx ecx eax : UInt32}
    (h : machine.Shows cpu (edi :: esi :: ebp :: esp :: ebx :: edx :: ecx :: eax :: words)) :
    (Instr.popa.exec machine).Shows { cpu with
      edi := edi, esi := esi, ebp := ebp, ebx := ebx, edx := edx, ecx := ecx, eax := eax
      esp := cpu.esp + 32 } words := by
  obtain ⟨rfl, hstack⟩ := h
  simp only [Holds, UInt32.add_assoc, UInt32.reduceAdd] at hstack
  obtain ⟨hedi, hesi, hebp, -, hebx, hedx, hecx, heax, hwords⟩ := hstack
  refine ⟨?_, hwords⟩
  simp only [Instr.exec, X86.popa, hedi, hesi, hebp, hebx, hedx, hecx, heax]

/-- Without a stack for the handler nothing interrupts a lower privilege. -/
theorem interrupt_none {tables : Tables} {handlerCs : UInt16} {handlerEip : UInt32}
    (hlevel : rpl machine.cpu.cs ≠ rpl handlerCs) (hnull : isNull tables.ss0 = true) :
    interrupt tables handlerCs handlerEip machine = none := by
  simp only [interrupt]
  rw [if_neg hlevel, if_pos hnull]

/-- The stack at the entry from the same privilege. -/
theorem interrupt_same {tables : Tables} {handlerCs : UInt16} {handlerEip : UInt32}
    {entered : Machine} (hlevel : rpl machine.cpu.cs = rpl handlerCs)
    (h : interrupt tables handlerCs handlerEip machine = some entered) :
    entered.Shows { machine.cpu with
        esp := machine.cpu.esp - 12, eip := handlerEip, cs := handlerCs
        eflags := machine.cpu.eflags &&& ~~~0x200 }
      [machine.cpu.eip, machine.cpu.cs.toUInt32, machine.cpu.eflags] := by
  simp only [interrupt, if_pos hlevel, Option.some.injEq] at h
  have hempty : machine.Shows machine.cpu [] := ⟨rfl, trivial⟩
  have heflags := hempty.push machine.cpu.eflags (by simp)
  have hcs := heflags.push machine.cpu.cs.toUInt32 (by simp)
  have heip := hcs.push machine.cpu.eip (by simp)
  have hesp : machine.cpu.esp - 4 - 4 - 4 = machine.cpu.esp - 12 := by grind
  simp only [hesp] at heip
  rw [← h]
  exact ⟨by simp only [heip.registers], heip.stack⟩

/-- The stack at the entry from a lower privilege. -/
theorem interrupt_lower {tables : Tables} {handlerCs : UInt16} {handlerEip : UInt32}
    {entered : Machine} (hlevel : rpl machine.cpu.cs ≠ rpl handlerCs)
    (h : interrupt tables handlerCs handlerEip machine = some entered) :
    entered.Shows { machine.cpu with
        esp := tables.esp0 - 20, ss := tables.ss0, eip := handlerEip, cs := handlerCs
        eflags := machine.cpu.eflags &&& ~~~0x200 }
      [machine.cpu.eip, machine.cpu.cs.toUInt32, machine.cpu.eflags, machine.cpu.esp,
        machine.cpu.ss.toUInt32] := by
  simp only [interrupt, if_neg hlevel] at h
  split_ifs at h with hnull
  simp only [Option.some.injEq] at h
  let switched : Machine :=
    { machine with cpu := { machine.cpu with esp := tables.esp0, ss := tables.ss0 } }
  have hempty : switched.Shows switched.cpu [] := ⟨rfl, trivial⟩
  have hss := hempty.push machine.cpu.ss.toUInt32 (by simp)
  have hold := hss.push machine.cpu.esp (by simp)
  have heflags := hold.push machine.cpu.eflags (by simp)
  have hcs := heflags.push machine.cpu.cs.toUInt32 (by simp)
  have heip := hcs.push machine.cpu.eip (by simp)
  have hesp : tables.esp0 - 4 - 4 - 4 - 4 - 4 = tables.esp0 - 20 := by grind
  simp only [switched, hesp] at heip
  rw [← h]
  exact ⟨by simp only [heip.registers], heip.stack⟩

/-- A return to the same privilege. -/
theorem iretd_same {tables : Tables} {eip cs eflags : UInt32}
    (h : machine.Shows cpu (eip :: cs :: eflags :: words))
    (hlevel : rpl cs.toUInt16 = rpl cpu.cs) (hcode : tables.dpl cs.toUInt16 = rpl cs.toUInt16) :
    iretd tables machine = some { machine with cpu := { cpu with
      eip := eip, cs := cs.toUInt16, eflags := eflags, esp := cpu.esp + 12 } } := by
  obtain ⟨rfl, hstack⟩ := h
  simp only [Holds, UInt32.add_assoc, UInt32.reduceAdd] at hstack
  obtain ⟨heip, hcs, heflags, -⟩ := hstack
  have hallowed : ¬(rpl cs.toUInt16 < rpl machine.cpu.cs ∨
      tables.dpl cs.toUInt16 ≠ rpl cs.toUInt16) := by
    rw [hlevel, hcode, hlevel]
    simp
  simp only [iretd, heip, hcs, heflags]
  rw [if_neg hallowed, if_pos hlevel]

/-- A return to a lower privilege. -/
theorem iretd_lower {tables : Tables} {eip cs eflags esp ss : UInt32}
    (h : machine.Shows cpu (eip :: cs :: eflags :: esp :: ss :: words))
    (hlevel : rpl cpu.cs < rpl cs.toUInt16) (hcode : tables.dpl cs.toUInt16 = rpl cs.toUInt16) :
    iretd tables machine = some { machine with cpu := { cpu with
      eip := eip, cs := cs.toUInt16, eflags := eflags, esp := esp, ss := ss.toUInt16
      ds := lowered tables (rpl cs.toUInt16) cpu.ds
      es := lowered tables (rpl cs.toUInt16) cpu.es
      fs := lowered tables (rpl cs.toUInt16) cpu.fs
      gs := lowered tables (rpl cs.toUInt16) cpu.gs } } := by
  obtain ⟨rfl, hstack⟩ := h
  simp only [Holds, UInt32.add_assoc, UInt32.reduceAdd] at hstack
  obtain ⟨heip, hcs, heflags, hesp, hss, -⟩ := hstack
  have hallowed : ¬(rpl cs.toUInt16 < rpl machine.cpu.cs ∨
      tables.dpl cs.toUInt16 ≠ rpl cs.toUInt16) := by
    rw [hcode]
    omega
  simp only [iretd, heip, hcs, heflags, hesp, hss]
  rw [if_neg hallowed, if_neg (by omega)]

end Machine.Shows

end X86
