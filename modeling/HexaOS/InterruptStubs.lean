import HexaOS.X86Stack

/-!
# Interrupt stubs

The assembly stubs of kernel_entry.asm for the timer and for system calls. Both save the
registers as `struct regs`, call a handler and load the registers back; the system call
stub stores the handler's result on the stack in between.
-/

namespace HexaOS

open X86

/-- struct regs, as far as the stub pushes it. -/
structure Regs where
  /-- Selector GS. -/
  gs : UInt32
  /-- Selector FS. -/
  fs : UInt32
  /-- Selector ES. -/
  es : UInt32
  /-- Selector DS. -/
  ds : UInt32
  /-- EDI. -/
  edi : UInt32
  /-- ESI. -/
  esi : UInt32
  /-- EBP. -/
  ebp : UInt32
  /-- ESP before pushad. -/
  esp : UInt32
  /-- EBX. -/
  ebx : UInt32
  /-- EDX. -/
  edx : UInt32
  /-- ECX. -/
  ecx : UInt32
  /-- EAX. -/
  eax : UInt32
  /-- The number of the interrupt. -/
  intNo : UInt32
  /-- The error code. -/
  errCode : UInt32

/-- struct regs in memory. -/
def Regs.words (regs : Regs) : List UInt32 :=
  [regs.gs, regs.fs, regs.es, regs.ds, regs.edi, regs.esi, regs.ebp, regs.esp, regs.ebx,
    regs.edx, regs.ecx, regs.eax, regs.intNo, regs.errCode]

/-- The registers at the entry of a stub. -/
def Regs.ofCpu (cpu : Cpu) (intNo : UInt32) : Regs where
  gs := cpu.gs.toUInt32
  fs := cpu.fs.toUInt32
  es := cpu.es.toUInt32
  ds := cpu.ds.toUInt32
  edi := cpu.edi
  esi := cpu.esi
  ebp := cpu.ebp
  esp := cpu.esp - 8
  ebx := cpu.ebx
  edx := cpu.edx
  ecx := cpu.ecx
  eax := cpu.eax
  intNo := intNo
  errCode := 0

/-- A stub up to the call of its handler. -/
def stubEntry (intNo : UInt32) : List Instr :=
  [.pushImm 0, .pushImm intNo, .pusha, .pushSeg .ds, .pushSeg .es, .pushSeg .fs, .pushSeg .gs,
    .movAx 0x10, .movSegAx .ds, .movSegAx .es, .movSegAx .fs, .movSegAx .gs, .pushEsp, .cld]

/-- What follows the call in each stub. -/
def popSegments : List Instr :=
  [.addEsp 4, .popSeg .gs, .popSeg .fs, .popSeg .es, .popSeg .ds]

/-- irq_common after the call of irq_handler, up to iretd. -/
def irqReturn : List Instr := popSegments ++ [.popa, .addEsp 8]

/-- syscall_stub after the call of syscall_handler, up to iretd. -/
def syscallReturn : List Instr := popSegments ++ [.storeEax 0, .popa, .addEsp 8]

/-- syscall_stub with a handler that maps the machine at the call to the one after it. -/
def syscallStub (tables : Tables) (handler : Machine → Machine) (machine : Machine) :
    Option Machine :=
  iretd tables (run syscallReturn (handler (run (stubEntry 0x80) machine)))

/-- int 0x80. Gate 0x80 leads to syscall_stub in segment 0x08. -/
def int80 (tables : Tables) (syscallStubEip : UInt32) (handler : Machine → Machine)
    (machine : Machine) : Option Machine :=
  (interrupt tables 0x08 syscallStubEip machine).bind (syscallStub tables handler)

/-- The access bytes that setup_gdt and setup_tss write. -/
def gdtAccess : List UInt8 := [0, 0x9A, 0x92, 0xFA, 0xF2, 0x89]

/-- The privilege level of the descriptor behind a selector. -/
def gdtDpl (selector : UInt16) : ℕ :=
  ((gdtAccess.getD (selector >>> 3).toNat 0 >>> 5) &&& 3).toNat

/-- The selectors of running code: the code segment has the privilege that its selector asks
for, and no data segment is out of its reach. -/
structure SelectorsValid (tables : Tables) (cpu : Cpu) : Prop where
  /-- The code segment has the level of its selector. -/
  code : tables.dpl cpu.cs = rpl cpu.cs
  /-- A data selector is null or may be loaded at that level. -/
  data : ∀ seg, isNull (cpu.seg seg) ∨ rpl cpu.cs ≤ tables.dpl (cpu.seg seg)

/-- The registers after a stub has loaded `struct regs` back, before iretd. -/
def Regs.load (regs : Regs) (cpu : Cpu) : Cpu :=
  { cpu with
    gs := regs.gs.toUInt16
    fs := regs.fs.toUInt16
    es := regs.es.toUInt16
    ds := regs.ds.toUInt16
    edi := regs.edi
    esi := regs.esi
    ebp := regs.ebp
    ebx := regs.ebx
    edx := regs.edx
    ecx := regs.ecx
    eax := regs.eax
    esp := cpu.esp + 60 }

/-- What a C function keeps: the stack pointer, the segments and, as assumed of the handlers,
the saved frame with the given number of words above its argument. -/
structure KeepsFrame (frame : ℕ) (before after : Machine) : Prop where
  /-- The stack pointer is where it was. -/
  esp : after.cpu.esp = before.cpu.esp
  /-- The code selector stays. -/
  cs : after.cpu.cs = before.cpu.cs
  /-- The stack selector stays. -/
  ss : after.cpu.ss = before.cpu.ss
  /-- The words above stay. -/
  words : ∀ words : List UInt32, words.length = frame →
    Holds before.mem (before.cpu.esp + 4) words → Holds after.mem (before.cpu.esp + 4) words

/-- The number of words of the frame of an interrupt. -/
def frameLength (cpu : Cpu) : ℕ := if rpl cpu.cs = rpl 0x08 then 17 else 19

/-- The registers at the call of the handler. -/
def stubCpu (cpu : Cpu) : Cpu :=
  { cpu with
    eax := (cpu.eax &&& 0xFFFF0000) ||| 0x10
    esp := cpu.esp - 60
    eflags := cpu.eflags &&& ~~~0x400
    ds := 0x10
    es := 0x10
    fs := 0x10
    gs := 0x10 }

/-- The selector that the stubs load. -/
theorem movAx_low (eax : UInt32) :
    ((eax &&& 0xFFFF0000) ||| (0x10 : UInt16).toUInt32).toUInt16 = 0x10 := by
  rw [UInt32.toUInt16_or, UInt32.toUInt16_and]
  have hmask : (0xFFFF0000 : UInt32).toUInt16 = 0 := rfl
  rw [hmask, UInt16.and_zero, UInt16.zero_or]
  rfl

section Stubs

variable {machine : Machine} {cpu : Cpu} {words : List UInt32}

/-- At the call of the handler the stack holds the pointer to `struct regs` and the
registers. -/
theorem stubEntry_shows (h : machine.Shows cpu words) (hroom : words.length < 2 ^ 20)
    (intNo : UInt32) :
    (run (stubEntry intNo) machine).Shows (stubCpu cpu)
      ((cpu.esp - 56) :: ((Regs.ofCpu cpu intNo).words ++ words)) := by
  have herr := h.pushImm 0 (by omega)
  have hint := herr.pushImm intNo (by rw [List.length_cons]; omega)
  have hgeneral := hint.pusha (by simp only [List.length_cons]; omega)
  have hds := hgeneral.pushSeg .ds (by simp only [List.length_cons]; omega)
  have hes := hds.pushSeg .es (by simp only [List.length_cons]; omega)
  have hfs := hes.pushSeg .fs (by simp only [List.length_cons]; omega)
  have hgs := hfs.pushSeg .gs (by simp only [List.length_cons]; omega)
  have hkernel := (((((hgs.movAx 0x10).movSegAx .ds).movSegAx .es).movSegAx .fs).movSegAx .gs)
  have hcall := (hkernel.pushEsp (by simp only [List.length_cons]; omega)).cld
  have hregs : cpu.esp - 4 - 4 = cpu.esp - 8 := by grind
  have hpointer : cpu.esp - 8 - 32 - 4 - 4 - 4 - 4 = cpu.esp - 56 := by grind
  have hesp : cpu.esp - 56 - 4 = cpu.esp - 60 := by grind
  simp only [Cpu.setSeg, Cpu.seg, movAx_low, hregs, hpointer, hesp] at hcall
  exact hcall

/-- The segments are back before the general registers. -/
theorem popSegments_shows {pointer : UInt32} {regs : Regs}
    (h : machine.Shows cpu (pointer :: (regs.words ++ words))) :
    (run popSegments machine).Shows { cpu with
        gs := regs.gs.toUInt16, fs := regs.fs.toUInt16, es := regs.es.toUInt16
        ds := regs.ds.toUInt16, esp := cpu.esp + 20 }
      (regs.words.drop 4 ++ words) := by
  have hpopped := ((((h.addEsp).popSeg .gs).popSeg .fs).popSeg .es).popSeg .ds
  have hesp : cpu.esp + 4 + 4 + 4 + 4 + 4 = cpu.esp + 20 := by grind
  simp only [Cpu.setSeg, hesp] at hpopped
  exact hpopped

/-- syscall_stub loads back what it saved, with the handler's result for edi. -/
theorem syscallReturn_shows {pointer : UInt32} {regs : Regs}
    (h : machine.Shows cpu (pointer :: (regs.words ++ words))) (hroom : words.length < 2 ^ 20) :
    (run syscallReturn machine).Shows (Regs.load { regs with edi := cpu.eax } cpu) words := by
  have hsegments := popSegments_shows h
  have hstored := hsegments.storeTop (by
    show words.length + 9 < 2 ^ 29
    omega)
  have hloaded := (hstored.popa).addEsp_eight
  have hesp : cpu.esp + 20 + 32 + 8 = cpu.esp + 60 := by grind
  simp only [hesp] at hloaded
  exact hloaded

/-- The stack after a handler that keeps the frame. -/
theorem KeepsFrame.shows {after : Machine} {pointer : UInt32} {frame : ℕ}
    (hkeeps : KeepsFrame frame machine after) (hframe : words.length = frame)
    (h : machine.Shows cpu (pointer :: words)) :
    after.Shows after.cpu (after.mem after.cpu.esp :: words) := by
  obtain ⟨rfl, -, hwords⟩ := h
  have hkept := hkeeps.words words hframe hwords
  rw [← hkeeps.esp] at hkept
  exact ⟨rfl, rfl, hkept⟩

end Stubs

/-- What a caller of int 0x80 may expect: the result in eax and every other register as it
was. -/
structure ReturnsResult (result : UInt32) (before after : Cpu) : Prop where
  /-- EAX is the result. -/
  eax : after.eax = result
  /-- EBX stays. -/
  ebx : after.ebx = before.ebx
  /-- ECX stays. -/
  ecx : after.ecx = before.ecx
  /-- EDX stays. -/
  edx : after.edx = before.edx
  /-- ESI stays. -/
  esi : after.esi = before.esi
  /-- EDI stays. -/
  edi : after.edi = before.edi
  /-- EBP stays. -/
  ebp : after.ebp = before.ebp
  /-- ESP stays. -/
  esp : after.esp = before.esp
  /-- The data selectors stay. -/
  segs : ∀ seg, after.seg seg = before.seg seg
  /-- CS stays. -/
  cs : after.cs = before.cs
  /-- SS stays. -/
  ss : after.ss = before.ss

/-- A system call leaves the registers as they were but for edi, which has the result. -/
structure LeavesResultInEdi (result : UInt32) (before after : Cpu) : Prop where
  /-- EAX stays. -/
  eax : after.eax = before.eax
  /-- EBX stays. -/
  ebx : after.ebx = before.ebx
  /-- ECX stays. -/
  ecx : after.ecx = before.ecx
  /-- EDX stays. -/
  edx : after.edx = before.edx
  /-- ESI stays. -/
  esi : after.esi = before.esi
  /-- EDI is the result. -/
  edi : after.edi = result
  /-- EBP stays. -/
  ebp : after.ebp = before.ebp
  /-- ESP stays. -/
  esp : after.esp = before.esp
  /-- The data selectors stay. -/
  segs : ∀ seg, after.seg seg = before.seg seg
  /-- CS stays. -/
  cs : after.cs = before.cs
  /-- SS stays. -/
  ss : after.ss = before.ss

section SystemCalls

variable {tables : Tables} {stubEip : UInt32} {handler : Machine → Machine}
  {machine entered : Machine}

/-- A data segment in reach stays loaded. -/
theorem lowered_eq {level : ℕ} {selector : UInt16}
    (h : isNull selector ∨ level ≤ tables.dpl selector) :
    lowered tables level selector = selector := by
  rw [lowered, if_pos]
  rcases h with hnull | hlevel
  · rw [hnull, Bool.true_or]
  · rw [decide_eq_true hlevel, Bool.or_true]

/-- What syscall_stub has loaded before iretd. -/
theorem syscallReturn_leaves {cpu : Cpu} {words : List UInt32} {frame : ℕ}
    (hentered : entered.Shows cpu words) (hroom : words.length < 2 ^ 20)
    (hframe : words.length + 14 = frame)
    (hkeeps : KeepsFrame frame (run (stubEntry 0x80) entered)
      (handler (run (stubEntry 0x80) entered))) :
    ∃ loaded : Cpu,
      (run syscallReturn (handler (run (stubEntry 0x80) entered))).Shows loaded words ∧
      LeavesResultInEdi (handler (run (stubEntry 0x80) entered)).cpu.eax cpu loaded := by
  have hcall := stubEntry_shows hentered hroom 0x80
  have hlength : ((Regs.ofCpu cpu 0x80).words ++ words).length = frame := by
    rw [List.length_append, ← hframe, add_comm]
    rfl
  have hloaded := syscallReturn_shows (hkeeps.shows hlength hcall) hroom
  have hesp : cpu.esp - 60 + 60 = cpu.esp := by grind
  have hcalled := hcall.registers
  refine ⟨_, hloaded, rfl, rfl, rfl, rfl, rfl, rfl, rfl, ?_, fun seg => ?_, ?_, ?_⟩
  · show (handler (run (stubEntry 0x80) entered)).cpu.esp + 60 = cpu.esp
    rw [hkeeps.esp, hcalled]
    exact hesp
  · cases seg with
    | _ => exact UInt16.toUInt16_toUInt32 _
  · show (handler (run (stubEntry 0x80) entered)).cpu.cs = cpu.cs
    rw [hkeeps.cs, hcalled]
    rfl
  · show (handler (run (stubEntry 0x80) entered)).cpu.ss = cpu.ss
    rw [hkeeps.ss, hcalled]
    rfl

/-- A system call from the kernel. -/
theorem int80_same (hvalid : SelectorsValid tables machine.cpu)
    (hlevel : rpl machine.cpu.cs = rpl 0x08)
    (hinterrupt : interrupt tables 0x08 stubEip machine = some entered)
    (hkeeps : KeepsFrame 17 (run (stubEntry 0x80) entered)
      (handler (run (stubEntry 0x80) entered))) :
    ∃ after, int80 tables stubEip handler machine = some after ∧
      LeavesResultInEdi (handler (run (stubEntry 0x80) entered)).cpu.eax machine.cpu after.cpu := by
  have hentered := Machine.Shows.interrupt_same hlevel hinterrupt
  obtain ⟨loaded, hloaded, hleaves⟩ := syscallReturn_leaves hentered (by simp) rfl hkeeps
  have hesp : machine.cpu.esp - 12 + 12 = machine.cpu.esp := by grind
  have hcs : loaded.cs = 0x08 := hleaves.cs
  have hback := hloaded.iretd_same (by rw [UInt16.toUInt16_toUInt32, hcs, hlevel])
    (by rw [UInt16.toUInt16_toUInt32, hvalid.code])
  rw [UInt16.toUInt16_toUInt32] at hback
  have hsegs : ∀ seg, loaded.seg seg = machine.cpu.seg seg := by
    intro seg
    rw [hleaves.segs]
    cases seg with | _ => rfl
  refine ⟨_, by rw [int80, hinterrupt]; exact hback, ?_⟩
  exact { hleaves with
    esp := by rw [hleaves.esp]; exact hesp
    segs := fun seg => by
      rw [← hsegs]
      cases seg with | _ => rfl
    cs := rfl }

/-- A system call from a lower privilege. -/
theorem int80_lower (hvalid : SelectorsValid tables machine.cpu)
    (hlevel : rpl machine.cpu.cs ≠ rpl 0x08)
    (hinterrupt : interrupt tables 0x08 stubEip machine = some entered)
    (hkeeps : KeepsFrame 19 (run (stubEntry 0x80) entered)
      (handler (run (stubEntry 0x80) entered))) :
    ∃ after, int80 tables stubEip handler machine = some after ∧
      LeavesResultInEdi (handler (run (stubEntry 0x80) entered)).cpu.eax machine.cpu after.cpu := by
  have hentered := Machine.Shows.interrupt_lower hlevel hinterrupt
  obtain ⟨loaded, hloaded, hleaves⟩ := syscallReturn_leaves hentered (by simp) rfl hkeeps
  have hcs : loaded.cs = 0x08 := hleaves.cs
  have hkernel : rpl 0x08 = 0 := by decide
  have hback := hloaded.iretd_lower (by rw [UInt16.toUInt16_toUInt32, hcs]; omega)
    (by rw [UInt16.toUInt16_toUInt32, hvalid.code])
  simp only [UInt16.toUInt16_toUInt32] at hback
  have hsegs : ∀ seg, lowered tables (rpl machine.cpu.cs) (loaded.seg seg) =
      machine.cpu.seg seg := by
    intro seg
    have hsaved : loaded.seg seg = machine.cpu.seg seg := by
      rw [hleaves.segs]
      cases seg with | _ => rfl
    rw [hsaved]
    exact lowered_eq (hvalid.data seg)
  refine ⟨_, by rw [int80, hinterrupt]; exact hback, ?_⟩
  exact { hleaves with
    esp := rfl
    segs := fun seg => by
      rw [← hsegs]
      cases seg with | _ => rfl
    cs := rfl
    ss := rfl }

/-- The caller of int 0x80 finds the result in eax and its other registers as they were
exactly when eax and edi held the result before. -/
theorem int80_returnsResult_iff (hvalid : SelectorsValid tables machine.cpu)
    (hinterrupt : interrupt tables 0x08 stubEip machine = some entered)
    (hkeeps : KeepsFrame (frameLength machine.cpu) (run (stubEntry 0x80) entered)
      (handler (run (stubEntry 0x80) entered)))
    {result : UInt32} (hresult : (handler (run (stubEntry 0x80) entered)).cpu.eax = result) :
    ∃ after, int80 tables stubEip handler machine = some after ∧
      (ReturnsResult result machine.cpu after.cpu ↔
        machine.cpu.eax = result ∧ machine.cpu.edi = result) := by
  have hleaves : ∃ after, int80 tables stubEip handler machine = some after ∧
      LeavesResultInEdi result machine.cpu after.cpu := by
    rw [← hresult]
    by_cases hlevel : rpl machine.cpu.cs = rpl 0x08
    · rw [frameLength, if_pos hlevel] at hkeeps
      exact int80_same hvalid hlevel hinterrupt hkeeps
    · rw [frameLength, if_neg hlevel] at hkeeps
      exact int80_lower hvalid hlevel hinterrupt hkeeps
  obtain ⟨after, hafter, hleaves⟩ := hleaves
  refine ⟨after, hafter, ?_⟩
  constructor
  · intro hreturns
    have heax : machine.cpu.eax = result := by rw [← hleaves.eax, hreturns.eax]
    have hedi : machine.cpu.edi = result := by rw [← hreturns.edi, hleaves.edi]
    exact ⟨heax, hedi⟩
  · intro hequal
    obtain ⟨heax, hedi⟩ := hequal
    exact { hleaves with
      eax := by rw [hleaves.eax, heax]
      edi := by rw [hleaves.edi, hedi] }

/-- A handler that returns a result and touches nothing else. -/
def returning (result : UInt32) (machine : Machine) : Machine :=
  { machine with cpu := { machine.cpu with eax := result } }

/-- A handler that only returns keeps the frame. -/
theorem returning_keepsFrame (frame : ℕ) (result : UInt32) (machine : Machine) :
    KeepsFrame frame machine (returning result machine) :=
  ⟨rfl, rfl, rfl, fun _ _ h => h⟩

/-- The descriptor tables of the kernel. -/
def kernelTables : Tables where
  dpl := gdtDpl
  esp0 := 0x10
  ss0 := 0

/-- A kernel task that asks for system call 1 with 7 in edi. -/
def caller : Machine where
  cpu := {
    eax := 1, ecx := 2, edx := 3, ebx := 4, esp := 0x9000, ebp := 5, esi := 6, edi := 7
    eip := 0x1000, eflags := 0x202
    cs := 0x08, ds := 0x10, es := 0x10, fs := 0x10, gs := 0x10, ss := 0x10 }
  mem := fun _ => 0

/-- The selectors of the caller are those of kernel code. -/
theorem caller_selectorsValid : SelectorsValid kernelTables caller.cpu :=
  ⟨by decide, fun seg => by cases seg with | _ => decide⟩

end SystemCalls

/-- The stub puts the result 42 into edi and leaves eax with the number of the call. -/
theorem int80_resultInEdi : ∃ entered after,
    interrupt kernelTables 0x08 0x2000 caller = some entered ∧
    SelectorsValid kernelTables caller.cpu ∧
    KeepsFrame (frameLength caller.cpu) (run (stubEntry 0x80) entered)
      (returning 42 (run (stubEntry 0x80) entered)) ∧
    int80 kernelTables 0x2000 (returning 42) caller = some after ∧
    after.cpu.eax = 1 ∧ after.cpu.edi = 42 ∧ ¬ReturnsResult 42 caller.cpu after.cpu := by
  refine ⟨_, _, rfl, caller_selectorsValid, returning_keepsFrame _ _ _, rfl, by decide +kernel,
    by decide +kernel, ?_⟩
  intro hreturns
  exact absurd hreturns.eax (by decide +kernel)

/-- The criterion at a call that returns 1. -/
theorem int80_returnsResult_iff_caller : ∃ after,
    int80 kernelTables 0x2000 (returning 1) caller = some after ∧
      (ReturnsResult 1 caller.cpu after.cpu ↔ (1 : UInt32) = 1 ∧ (7 : UInt32) = 1) :=
  int80_returnsResult_iff caller_selectorsValid rfl (returning_keepsFrame _ _ _) rfl

end HexaOS
