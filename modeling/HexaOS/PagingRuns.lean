import HexaOS.PagingBoot
import HexaOS.StepRuns

/-!
# Runs of the calls that map pages

Any number of mappings, executions of programs and task operations after the start. As long as
the calls leave the pages of the kernel alone and the frames for tables and stacks come from below
8 MB, the kernel part of every address space stays what it was and every frame that is used
through its physical address can be.
-/

namespace HexaOS.Paging

open X86 Process Hexafs StoreTyping StepRuns

/-- The calls that change page tables, and those that change the tasks. -/
inductive PagingCall where
  /-- sys_mmap -/
  | mmap (addr len : UInt32)
  /-- sys_munmap -/
  | munmap (addr len : UInt32)
  /-- cmd_exec -/
  | exec (image : Elf.FormImage) (name : CString)
  /-- proc_create -/
  | create (entry : UInt32) (name : CString) (priority : ℤ)
  | exit (code : ℤ)
  | kill (pid : ℤ)
  | wait
  | reapZombies
  /-- schedule, with the address of the saved registers -/
  | schedule (regs : UInt32)

/-- A call of process.c that maps no page. -/
def taskCall (operation : UInt32 → Operation) : PagingM Unit :=
  modify fun state => { state with procs := (operation state.kernelPageDir).after state.procs }

/-- What a call does. -/
def PagingCall.code : PagingCall → PagingM Unit
  | mmap addr len => Functor.discard (sysMmap addr len)
  | munmap addr len => Functor.discard (sysMunmap addr len)
  | exec image name => Functor.discard (cmdExec image name)
  | create entry name priority => taskCall fun dir => .create dir entry name priority
  | exit code => taskCall fun _ => .exit code
  | kill pid => taskCall fun _ => .kill pid
  | wait => taskCall fun _ => .wait
  | reapZombies => taskCall fun _ => .reapZombies
  | schedule regs => taskCall fun _ => .schedule regs

/-- The state that a call leaves, also when it stops at a page that is not present. -/
def PagingCall.after (call : PagingCall) (state : PagingState) : PagingState :=
  (Paging.exec call.code state).2

/-- The state after the start. -/
@[irreducible] def booted (memory : Kheap.Memory) (procs : Processes) (kernelEnd : ℕ) : PagingState :=
  (exec boot (bootState memory procs kernelEnd)).2

/-- The pages that sys_mmap and sys_munmap go through. -/
def rangePages (addr len : UInt32) : List UInt32 :=
  Elf.pageAddresses addr (addr + roundedLen len)

/-- The calls that leave the pages of the kernel alone and find frames below 8 MB for tables; and
what holds of the allocator before a task is created for a program. -/
def PagingCall.Safe (start : Frames → Prop) (call : PagingCall) (state : PagingState) : Prop :=
  match call with
  | mmap addr len => len ≠ 0 → SafePages (fun _ _ => True) state.pmm.frames
      (state.tablesOf state.procs.cr3) (rangePages (mmapStart addr) len)
  | munmap addr len => ∀ v ∈ rangePages addr len, kernelTop ≤ v
  | exec image _ => SafeExec start image state
  | _ => True

variable {kernel : KernelLayout} {state : PagingState} {roles : ℕ → Option FrameRole}
  {stopped : PagingState → Prop}

section Steps

/-- The result of a call may be dropped. -/
theorem wp_discard {α : Type} {code : PagingM α} {post : PagingState → Prop}
    (h : wp code state (fun _ => post) stopped) :
    wp (Functor.discard code) state (fun _ => post) stopped := by
  have hbind : (Functor.discard code : PagingM Unit) = code >>= fun _ => pure () := by
    rw [Functor.discard, Functor.mapConst, bind_pure_comp]
    rfl
  rw [hbind, wp_bind]
  exact h

/-- What sys_mmap returns when it maps a range: it depends on whether the frames suffice. -/
structure MmapResult (state : PagingState) (addr len value : UInt32) : Prop where
  /-- Without frames it is SYS_ENOMEM. -/
  out : OutOfFrames state.pmm.frames (state.tablesOf state.procs.cr3)
    (rangePages (mmapStart addr) len) → value = sysEnomem
  /-- Otherwise it is the start of the range. -/
  mapped : ¬OutOfFrames state.pmm.frames (state.tablesOf state.procs.cr3)
    (rangePages (mmapStart addr) len) → value = mmapStart addr

/-- sys_mmap refuses an empty range, or goes through its pages. -/
theorem Sane.wp_sysMmap_pages (h : Sane kernel state roles) (hkernel : kernel.pages ≤ 2304)
    {addr len : UInt32} (hsafe : len ≠ 0 → SafePages (fun _ _ => True) state.pmm.frames
      (state.tablesOf state.procs.cr3) (rangePages (mmapStart addr) len))
    {post : UInt32 → PagingState → Prop} (hempty : len = 0 → post sysEinval state)
    (hpages : len ≠ 0 → ∀ ok now roles', PagesMapped kernel state roles state.procs.cr3
      (rangePages (mmapStart addr) len) ok now roles' →
        post (if ok then mmapStart addr else sysEnomem) now) :
    wp (sysMmap addr len) state post stopped := by
  rw [sysMmap]
  by_cases hlen : len = 0
  · exact wp_if_pos hlen (hempty hlen)
  · refine wp_if_neg hlen ?_
    rw [wp_bind]
    refine Sane.wp_mapPages hkernel (by decide : present 0x007 = true) (fun v phys now hnow => ?_) h h.dirs.cr3 rfl
      (hsafe hlen) fun ok now roles' hmapped _ => ?_
    · have hcr3 : now.procs.cr3 = state.procs.cr3 := congrArg Processes.cr3 hnow
      rw [← hcr3]
      rfl
    · have hpost := hpages hlen ok now roles' hmapped
      cases ok with
      | true => exact hpost
      | false => exact hpost

/-- sys_mmap keeps the rules. -/
theorem Sane.wp_sysMmap (h : Sane kernel state roles) (hkernel : kernel.pages ≤ 2304)
    {addr len : UInt32} (hsafe : len ≠ 0 → SafePages (fun _ _ => True) state.pmm.frames
      (state.tablesOf state.procs.cr3) (rangePages (mmapStart addr) len))
    {post : UInt32 → PagingState → Prop}
    (hpost : ∀ value now, (∃ roles', Sane kernel now roles') → now.procs = state.procs →
      (len ≠ 0 → MmapResult state addr len value) → post value now) :
    wp (sysMmap addr len) state post stopped := by
  refine h.wp_sysMmap_pages hkernel hsafe (fun hlen => ?_) fun _ ok now roles' hmapped => ?_
  · exact hpost _ _ ⟨roles, h⟩ rfl fun hne => absurd hlen hne
  · refine hpost _ _ ⟨roles', hmapped.sane⟩ hmapped.mapped.procs fun _ => ⟨fun hout => ?_, fun hnot => ?_⟩
    · rw [hmapped.out_iff.mpr hout]
      rfl
    · rw [if_pos (Bool.not_eq_false _ ▸ fun hfalse => hnot (hmapped.out_iff.mp hfalse))]

/-- A call of process.c keeps the rules. -/
theorem Sane.taskCall (h : Sane kernel state roles) (operation : UInt32 → Operation)
    (hnew : ∀ dir, (operation state.kernelPageDir).newDir = some dir →
      dir = state.kernelPageDir) :
    Sane kernel (Paging.exec (taskCall operation) state).2 roles := by
  refine h.withProcs (h.dirs.after _ fun dir hdir => ?_)
  rw [hnew dir hdir]
  exact h.kernelDir

/-- A safe call keeps the rules. -/
theorem Sane.after (h : Sane kernel state roles) (hkernel : kernel.pages ≤ 2304)
    (htables : kernel.tables ≤ 256) {start : Frames → Prop}
    (hstart : ∀ frames, start frames → 2 ≤ frames.low ∧
      ∀ p < lowPages, kernel.ok p (makeEntry (frameAddress p) 0x007))
    {call : PagingCall} (hsafe : call.Safe start state) :
    ∃ roles', Sane kernel (call.after state) roles' := by
  cases call with
  | mmap addr len =>
    exact wp_state (wp_discard (h.wp_sysMmap hkernel hsafe fun _ _ hnow _ _ => hnow))
  | munmap addr len =>
    have hunmap : wp (sysMunmap addr len) state
        (fun _ now => ∃ roles', Sane kernel now roles')
        (fun now => ∃ roles', Sane kernel now roles') := by
      rw [sysMunmap, wp_bind]
      exact h.wp_unmapPages hkernel hsafe fun now hnow => ⟨roles, hnow.sane⟩
    exact wp_state (wp_discard hunmap)
  | exec image name =>
    exact wp_state (wp_discard (h.wp_cmdExec hkernel htables hsafe hstart
      (fun userPd mapped pid now hstarted => hstarted.sane)
      (fun _ _ hnow _ => hnow) fun _ hnow => hnow))
  | create entry name priority =>
    exact ⟨roles, h.taskCall (fun dir => .create dir entry name priority) fun dir hdir =>
      (Option.some.inj hdir).symm⟩
  | exit code => exact ⟨roles, h.taskCall (fun _ => .exit code) nofun⟩
  | kill pid => exact ⟨roles, h.taskCall (fun _ => .kill pid) nofun⟩
  | wait => exact ⟨roles, h.taskCall (fun _ => .wait) nofun⟩
  | reapZombies => exact ⟨roles, h.taskCall (fun _ => .reapZombies) nofun⟩
  | schedule regs => exact ⟨roles, h.taskCall (fun _ => .schedule regs) nofun⟩

/-- Safe calls keep the rules, in every state of a run. -/
theorem Sane.everyState (h : Sane kernel state roles) (hkernel : kernel.pages ≤ 2304)
    (htables : kernel.tables ≤ 256) {start : Frames → Prop}
    (hstart : ∀ frames, start frames → 2 ≤ frames.low ∧
      ∀ p < lowPages, kernel.ok p (makeEntry (frameAddress p) 0x007))
    {calls : List PagingCall}
    (hsafe : EveryStep PagingCall.after (PagingCall.Safe start) calls state) :
    EveryState PagingCall.after (fun now => ∃ roles', Sane kernel now roles') calls state :=
  hsafe.everyState (fun _ _ ⟨_, hsane⟩ hcall => hsane.after hkernel htables hstart hcall) ⟨roles, h⟩

end Steps

section Laws

/-- The mapping of every address of the kernel, in the directory of the kernel and in those of the
tasks, is the one after the start. -/
def KernelKept (start state : PagingState) : Prop :=
  ∀ v, v < kernelTop → ∀ dir, (dir = state.kernelPageDir ∨
      ∃ slot, (state.procs.tasks slot).pageDir = dir ∧ dir ≠ 0) →
    mapping state.words dir v = mapping start.words start.kernelPageDir v

/-- Every frame that was used through its physical address is a granted frame below 8 MB. -/
def UsesLow (state : PagingState) : Prop :=
  ∀ frame ∈ state.uses, LowFrame state.granted frame

/-- The start ends in a state of the first tables. -/
theorem booted_spec (memory : Kheap.Memory) {procs : Processes} {kernelEnd : ℕ}
    (hprocs : ∀ slot, (procs.tasks slot).pageDir = 0)
    (hlow : 4 ≤ (pmmInit memSize kernelEnd).frames.low) :
    ∃ roles, Booted (booted memory procs kernelEnd) roles ∧
      (booted memory procs kernelEnd).procs = procInit { procs with
        cr3 := (booted memory procs kernelEnd).kernelPageDir } ∧
      TakenWithin 515 (pmmInit memSize kernelEnd).frames
        (booted memory procs kernelEnd).pmm.frames := by
  have hboot : wp boot (bootState memory procs kernelEnd)
      (fun _ now => ∃ roles, Booted now roles ∧
        now.procs = procInit { procs with cr3 := now.kernelPageDir } ∧
        TakenWithin 515 (pmmInit memSize kernelEnd).frames now.pmm.frames)
      (fun now => ∃ roles, Booted now roles ∧
        now.procs = procInit { procs with cr3 := now.kernelPageDir } ∧
        TakenWithin 515 (pmmInit memSize kernelEnd).frames now.pmm.frames) :=
    wp_boot hprocs hlow fun now roles hbooted hnow htaken => ⟨roles, hbooted, hnow, htaken⟩
  unfold booted
  exact wp_state hboot

/-- The kernel part with exactly the entries after the start. -/
def Booted.strict {start : PagingState} (h : Booted start roles) : KernelLayout :=
  h.layout (fun p entry => entry = start.kernelPage p) fun _ hp _ he => he ▸ h.identity hp

/-- The kernel part with the frames after the start, whoever may access them. -/
def Booted.weak {start : PagingState} (h : Booted start roles) : KernelLayout :=
  h.layout (fun p entry => p < lowPages → present entry = true ∧ frameOf entry = p)
    fun _ hp _ hok => hok hp

/-- Under the strict rules a walk from an address of the kernel finds the entries after the
start. -/
theorem Sane.walk_strict {start : PagingState} {roles' : ℕ → Option FrameRole}
    {hbooted : Booted start roles'} (h : Sane hbooted.strict state roles) {dir v : UInt32}
    (hdir : IsDirectory roles dir) (hv : v < kernelTop) :
    walk state.words dir v = if present (start.kernelPage (v.toNat / 4096)) then
      some (start.words (frameOf start.kernelPageDir) (directoryIndex v),
        start.kernelPage (v.toNat / 4096)) else none := by
  have htop : v.toNat < 9437184 := UInt32.lt_iff_toNat_lt.mp hv
  have hindices := indices_eq v
  have hn : directoryIndex v < 3 := by
    rw [directoryIndex_eq]
    omega
  have hpde : state.words (frameOf dir) (directoryIndex v) =
      start.words (frameOf start.kernelPageDir) (directoryIndex v) :=
    h.shared hdir.role hn (directoryIndex_lt v)
  have hpresent : present (start.words (frameOf start.kernelPageDir) (directoryIndex v)) = true :=
    (hbooted.tables _).trans (decide_eq_true hn)
  have hrole := Typed.table h.typed hdir.role (directoryIndex_lt v) (by rw [hpde, hpresent])
  rw [hpde] at hrole
  have hpte := Typed.fixed h.typed hrole (tableIndex_lt v)
    (if_pos (by rw [hindices]; show v.toNat / 4096 < 2304; omega))
  rw [hindices] at hpte
  have hword : state.words (frameOf (start.words (frameOf start.kernelPageDir)
      (directoryIndex v))) (tableIndex v) = start.kernelPage (v.toNat / 4096) := hpte
  simp only [walk, hpde, hpresent, hword, if_true]

/-- A kernel page is mapped for a start-up stack. -/
theorem Booted.weak_stack {start : PagingState} (h : Booted start roles) :
    ∀ p < lowPages, h.weak.ok p (makeEntry (frameAddress p) 0x007) := by
  intro p hp _
  rw [present_makeEntry, frameOf_makeEntry, frameOf_frameAddress (lt_trans hp (by decide))]
  exact ⟨rfl, rfl⟩

/-- With two frames below 8 MB a task can be created under the weak rules. -/
theorem Booted.weak_start {start : PagingState} (h : Booted start roles) {frames : Frames}
    (htwo : 2 ≤ frames.low) :
    2 ≤ frames.low ∧ ∀ p < lowPages, h.weak.ok p (makeEntry (frameAddress p) 0x007) :=
  ⟨htwo, h.weak_stack⟩

/-- In every run of calls that leave the pages of the kernel alone, take frames for tables from
below 8 MB and start no program, all kernel addresses stay mapped as they were. -/
theorem kernelKept_run {memory : Kheap.Memory} {procs : Processes} {kernelEnd : ℕ}
    (hprocs : ∀ slot, (procs.tasks slot).pageDir = 0)
    (hlow : 4 ≤ (pmmInit memSize kernelEnd).frames.low) {calls : List PagingCall}
    (hsafe : EveryStep PagingCall.after (PagingCall.Safe fun _ => False) calls
      (booted memory procs kernelEnd)) :
    EveryState PagingCall.after (KernelKept (booted memory procs kernelEnd)) calls
      (booted memory procs kernelEnd) := by
  have ⟨roles, hbooted, _⟩ := booted_spec memory hprocs hlow
  have hstart : Sane hbooted.strict (booted memory procs kernelEnd) roles :=
    hbooted.rebase _ fun _ _ => rfl
  have hrun := hstart.everyState (Nat.le_refl 2304) (by decide : 3 ≤ 256) (fun _ => False.elim) hsafe
  refine hrun.mono fun state ⟨roles', hsane⟩ v hv dir hdir => ?_
  have hisDir : IsDirectory roles' dir := by
    rcases hdir with rfl | ⟨slot, rfl, hne⟩
    · exact hsane.kernelDir
    · exact hsane.dirs.tasks slot hne
  rw [mapping, mapping, hsane.walk_strict hisDir hv, hstart.walk_strict hstart.kernelDir hv]

/-- A machine with a small kernel, before any task. -/
def smallStart : PagingState := booted (fun _ => 0) zeroProcesses 0x90000

/-- What its allocator has: the frames below the hole under 1 MB, and those above it. -/
theorem smallStart_frames : (pmmInit memSize 0x90000).frames = ⟨1808, 7952⟩ := by
  have hcount : ∀ last, 0x100 ≤ last → last ≤ 8192 →
      (pmmInit memSize 0x90000).freeIn 0x90 last = 16 + (last - 0x100) := by
    intro last hhole hlast
    have hused : ∀ page, 0x90 ≤ page → page < last →
        (pmmInit memSize 0x90000).used page = decide (0xA0 ≤ page ∧ page < 0x100) := by
      intro page hfirst hbound
      have hinside : ¬¬((0x90 : ℕ) ≤ page ∧ page < 8192) := not_not.mpr ⟨hfirst, by omega⟩
      have hzero : page ≠ 0 := by omega
      show decide (page = 0 ∨ (0xA0 ≤ page ∧ page < 0x100) ∨ ¬((0x90 : ℕ) ≤ page ∧ page < 8192)) = _
      simp only [hzero, hinside, false_or, or_false]
    have hbelow : (pmmInit memSize 0x90000).freeIn 0x90 0xA0 = 16 :=
      Pmm.freeIn_eq_sub fun page hfirst hbound => by
        rw [hused page hfirst (by omega)]
        exact decide_eq_false (by omega)
    have hinside : (pmmInit memSize 0x90000).freeIn 0xA0 0x100 = 0 :=
      Pmm.freeIn_eq_zero fun page hfirst hbound => by
        rw [hused page (by omega) (by omega)]
        exact decide_eq_true ⟨hfirst, hbound⟩
    have habove : (pmmInit memSize 0x90000).freeIn 0x100 last = last - 0x100 :=
      Pmm.freeIn_eq_sub fun page hfirst hbound => by
        rw [hused page (by omega) hbound]
        exact decide_eq_false (by omega)
    rw [Pmm.freeIn_add (by decide : 0x90 ≤ 0xA0) (by omega),
      Pmm.freeIn_add (by decide : 0xA0 ≤ 0x100) hhole, hbelow, hinside, habove]
    omega
  exact congrArg₂ Frames.mk (hcount lowPages (by decide) (by decide)) (hcount 8192 (by decide) (by decide))

theorem smallStart_spec : ∃ roles, Booted smallStart roles ∧
    smallStart.procs = procInit { zeroProcesses with cr3 := smallStart.kernelPageDir } ∧
    TakenWithin 515 ⟨1808, 7952⟩ smallStart.pmm.frames := by
  have hcount : (pmmInit memSize 0x90000).frames.low = 1808 := congrArg Frames.low smallStart_frames
  have hlow : 4 ≤ (pmmInit memSize 0x90000).frames.low := by omega
  have hprocs : ∀ slot, (zeroProcesses.tasks slot).pageDir = 0 := fun _ => rfl
  have ⟨roles, hbooted, hnow, htaken⟩ := booted_spec (fun _ => 0) hprocs hlow
  exact ⟨roles, hbooted, hnow, htaken.congr smallStart_frames⟩

theorem rangePages_first : rangePages (mmapStart 0x40000000) 4096 = [0x40000000] := by
  decide +kernel

theorem kernelTop_le_first : kernelTop ≤ 0x40000000 := by decide

/-- One page may be mapped with a new table. -/
theorem safe_page (start : Frames → Prop) {addr len v : UInt32}
    (hpages : rangePages (mmapStart addr) len = [v]) (hv : kernelTop ≤ v)
    (h : 2 ≤ state.pmm.frames.low) : PagingCall.Safe start (.mmap addr len) state := by
  intro _
  rw [hpages]
  refine fun _ => ⟨hv, ?_⟩
  by_cases hpresent : state.tablesOf state.procs.cr3 (directoryIndex v) = true
  · rw [if_pos hpresent]
    trivial
  · rw [if_neg hpresent]
    exact ⟨Nat.sub_pos_of_lt h, trivial⟩

theorem safe_mmapPage (start : Frames → Prop) (h : 2 ≤ state.pmm.frames.low) :
    PagingCall.Safe start (.mmap 0x40000000 4096) state :=
  safe_page start rangePages_first kernelTop_le_first h

/-- A page may be mapped at the start. -/
theorem smallStart_safePage (start : Frames → Prop) {addr len v : UInt32}
    (hpages : rangePages (mmapStart addr) len = [v]) (hv : kernelTop ≤ v) :
    PagingCall.Safe start (.mmap addr len) smallStart := by
  obtain ⟨_, _, _, htaken⟩ := smallStart_spec
  have hlow : 1808 ≤ smallStart.pmm.frames.low + 515 := htaken.low
  exact safe_page start hpages hv (by omega)

theorem smallStart_safe (start : Frames → Prop) :
    EveryStep PagingCall.after (PagingCall.Safe start) [.mmap 0x40000000 4096] smallStart :=
  everyStep_singleton.mpr (smallStart_safePage start rangePages_first kernelTop_le_first)

/-- The frames suffice for one page at the start. -/
theorem smallStart_notOut (tables : ℕ → Bool) (v : UInt32) :
    ¬OutOfFrames smallStart.pmm.frames tables [v] := by
  obtain ⟨_, hbooted, _, htaken⟩ := smallStart_spec
  obtain ⟨_, _, hsane⟩ := hbooted.sane
  have hleast : 1808 ≤ smallStart.pmm.frames.low + 515 := htaken.low
  have hfree : smallStart.pmm.frames.free ≠ 0 := by
    intro hnone
    have hlow := hsane.ordered.low_eq_zero hnone
    omega
  rw [OutOfFrames, OutOfFrames, or_false]
  exact hfree

theorem smallStart_low : 4 ≤ (pmmInit memSize 0x90000).frames.low := by
  have hcount : (pmmInit memSize 0x90000).frames.low = 1808 := congrArg Frames.low smallStart_frames
  omega

/-- A page is mapped for a program. -/
theorem kernelKept_onePage :
    EveryState PagingCall.after (KernelKept smallStart) [.mmap 0x40000000 4096] smallStart :=
  kernelKept_run (fun _ => rfl) smallStart_low (smallStart_safe _)

/-- An address whose entry in its table is not present is not mapped. -/
theorem Sane.mapping_removed (h : Sane kernel state roles) {v : UInt32} {f : ℕ}
    (hrole : roles f = some (.table (directoryIndex v)))
    (hframe : frameOf (state.words (frameOf state.kernelPageDir) (directoryIndex v)) = f) :
    mapping (state.storeEntry f (tableIndex v) 0x002).words state.kernelPageDir v = none := by
  have hne : frameOf state.kernelPageDir ≠ f := by
    intro heq
    have hdir := h.kernelDir.role
    rw [heq, hrole] at hdir
    exact nomatch hdir
  have hwords := state.storeEntry_words (tableIndex_lt v) 0x002 (f := f)
  have hpde : (state.storeEntry f (tableIndex v) 0x002).words (frameOf state.kernelPageDir)
      (directoryIndex v) = state.words (frameOf state.kernelPageDir) (directoryIndex v) := by
    rw [hwords, setEntry_of_ne (.inl hne)]
  have hpte : (state.storeEntry f (tableIndex v) 0x002).words f (tableIndex v) = 0x002 := by
    rw [hwords, setEntry_self]
  simp [mapping, walk, hpde, hframe, hpte, present_two]

/-- sys_munmap of a page of the kernel takes it away in the directory of the kernel. -/
theorem Booted.munmap_changes {start : PagingState} (h : Booted start roles) {procs : Processes}
    (hprocs : start.procs = procInit { procs with cr3 := start.kernelPageDir }) :
    ¬EveryState PagingCall.after (KernelKept start) [.munmap 0x00100000 4096] start := by
  have hcr3 : start.procs.cr3 = start.kernelPageDir := hprocs ▸ rfl
  have hsane : Sane h.strict start roles := h.rebase _ fun _ _ => rfl
  have hpages : rangePages 0x00100000 4096 = [0x00100000] := by decide +kernel
  have htable : start.tablesOf start.procs.cr3 (directoryIndex 0x00100000) = true := by
    rw [hcr3]
    exact (h.tables _).trans (by decide)
  have hgone : wp (sysMunmap 0x00100000 4096) start
      (fun _ now => mapping now.words now.kernelPageDir 0x00100000 = none)
      (fun now => mapping now.words now.kernelPageDir 0x00100000 = none) := by
    rw [sysMunmap, ← rangePages, hpages, wp_bind, unmapPages, wp_bind]
    obtain ⟨table, hframe⟩ : ∃ table, frameOf (start.words (frameOf start.procs.cr3)
        (directoryIndex 0x00100000)) = table := ⟨_, rfl⟩
    refine hsane.wp_unmapPage_present htable hframe fun hused hrole => ?_
    refine hused.mapping_removed hrole ?_
    rw [← hcr3]
    exact hframe
  intro hkept
  have hlost : mapping (PagingCall.after (.munmap 0x00100000 4096) start).words
      (PagingCall.after (.munmap 0x00100000 4096) start).kernelPageDir 0x00100000 = none :=
    wp_state (wp_discard hgone)
  have hsame := hkept.2 0x00100000 (by decide) _ (.inl rfl)
  rw [hlost, mapping, hsane.walk_strict hsane.kernelDir (by decide),
    if_pos (h.identity (by decide)).1] at hsame
  cases hsame

/-- sys_munmap of a page of the kernel, for all address spaces. -/
theorem kernelKept_lost :
    ¬EveryState PagingCall.after (KernelKept smallStart) [.munmap 0x00100000 4096] smallStart := by
  have ⟨_, hbooted, hprocs, _⟩ := smallStart_spec
  exact hbooted.munmap_changes hprocs

/-- In every run of calls that leave the pages of the kernel alone and find frames below 8 MB for
the tables, directories and stacks that they make, the frames that were used through their
physical addresses are granted frames below 8 MB. -/
theorem usesLow_run {memory : Kheap.Memory} {procs : Processes} {kernelEnd : ℕ}
    (hprocs : ∀ slot, (procs.tasks slot).pageDir = 0)
    (hlow : 4 ≤ (pmmInit memSize kernelEnd).frames.low) {calls : List PagingCall}
    (hsafe : EveryStep PagingCall.after (PagingCall.Safe fun frames => 2 ≤ frames.low) calls
      (booted memory procs kernelEnd)) :
    EveryState PagingCall.after UsesLow calls (booted memory procs kernelEnd) := by
  have ⟨roles, hbooted, _⟩ := booted_spec memory hprocs hlow
  have hstart : Sane hbooted.weak (booted memory procs kernelEnd) roles :=
    hbooted.rebase _ fun p _ hp => hbooted.identity hp
  have hrun := hstart.everyState (Nat.le_refl 2304) (by decide : 3 ≤ 256)
    (fun _ htwo => hbooted.weak_start htwo) hsafe
  exact hrun.mono fun state ⟨_, hsane⟩ => hsane.uses

end Laws

section Exhaustion

/-- A frame was used through its physical address that is zero or lies beyond 8 MB. -/
def HighUse (state : PagingState) : Prop :=
  ∃ frame ∈ state.uses, frame = 0 ∨ 0x00800000 ≤ frame.toNat

/-- Code that forgets no use of a frame. -/
def KeepsUses {α : Type} (code : PagingM α) : Prop :=
  ∀ state, HighUse state → wp code state (fun _ => HighUse) HighUse

theorem HighUse.not_usesLow (h : HighUse state) : ¬UsesLow state := by
  have ⟨frame, hmem, hframe⟩ := h
  intro hlow
  have ⟨hne, hlt, _⟩ := hlow frame hmem
  rcases hframe with hzero | hhigh
  · exact hne hzero
  · omega

variable {α β : Type}

theorem KeepsUses.bind {code : PagingM α} {rest : α → PagingM β} (h : KeepsUses code)
    (hrest : ∀ value, KeepsUses (rest value)) : KeepsUses (code >>= rest) := by
  intro state huse
  rw [wp_bind]
  exact wp_mono (h state huse) (fun value now hnow => hrest value now hnow) fun _ hnow => hnow

theorem keepsUses_pure (value : α) : KeepsUses (pure value : PagingM α) := fun _ huse => huse

theorem keepsUses_useFrame (frame : UInt32) : KeepsUses (useFrame frame) :=
  fun _ ⟨other, hmem, hother⟩ => ⟨other, List.mem_append_left _ hmem, hother⟩

theorem keepsUses_loadWord (v : UInt32) : KeepsUses (loadWord v) := by
  intro state huse
  rw [loadWord, wp_bind, wp_get]
  cases state.translate v with
  | some address => exact huse
  | none => exact huse

theorem keepsUses_storeWord (v word : UInt32) : KeepsUses (storeWord v word) := by
  intro state huse
  rw [storeWord, wp_bind, wp_get]
  cases state.translate v with
  | some address => exact huse
  | none => exact huse

theorem keepsUses_pmmAlloc : KeepsUses pmmAlloc := by
  intro state huse
  rw [pmmAlloc, wp_bind, wp_get]
  cases state.pmm.choose with
  | some page => exact huse
  | none => exact huse

theorem keepsUses_fillWords (base : UInt32) (word : ℕ → UInt32) (left i : ℕ) :
    KeepsUses (fillWords base word left i) := by
  induction left generalizing i with
  | zero => exact keepsUses_pure ()
  | succ left ih => exact (keepsUses_storeWord _ _).bind fun _ => ih (i + 1)

theorem keepsUses_ite {condition : Prop} [Decidable condition] {code code' : PagingM α}
    (h : KeepsUses code) (h' : KeepsUses code') :
    KeepsUses (if condition then code else code') := by
  split
  · exact h
  · exact h'

/-- A table is made in any frame. -/
theorem keepsUses_pageTable (dir v : UInt32) : KeepsUses (pageTable dir v) := by
  have hrest : ∀ entry, KeepsUses (loadWord entry >>= fun pde => do
      useFrame (pageOf pde)
      pure (pageOf pde)) := fun entry =>
    (keepsUses_loadWord entry).bind fun pde =>
      (keepsUses_useFrame _).bind fun _ => keepsUses_pure _
  refine (keepsUses_useFrame dir).bind fun _ => (keepsUses_loadWord _).bind fun pde =>
    keepsUses_ite ?_ (hrest _)
  exact keepsUses_pmmAlloc.bind fun pt => (keepsUses_useFrame pt).bind fun _ =>
    (keepsUses_fillWords _ _ _ _).bind fun _ => (keepsUses_storeWord _ _).bind fun _ => hrest _

theorem keepsUses_mapPages {map : UInt32 → UInt32 → PagingM Unit}
    (hmap : ∀ v phys, KeepsUses (map v phys)) (vs : List UInt32) :
    KeepsUses (mapPages map vs) := by
  induction vs with
  | nil => exact keepsUses_pure true
  | cons v rest ih =>
    exact keepsUses_pmmAlloc.bind fun phys =>
      keepsUses_ite (keepsUses_pure false) ((hmap v phys).bind fun _ => ih)

theorem keepsUses_mapPage (v phys flags : UInt32) : KeepsUses (mapPage v phys flags) := by
  refine KeepsUses.bind (fun state huse => huse) fun dir => ?_
  exact (keepsUses_pageTable dir v).bind fun _ => keepsUses_storeWord _ _

/-- Without a free frame below 8 MB, a new table is put where its address does not reach it. -/
theorem Sane.wp_pageTable_high (h : Sane kernel state roles) {dir v : UInt32}
    (hdir : IsDirectory roles dir) (habsent : state.tablesOf dir (directoryIndex v) = false)
    (hnone : state.pmm.frames.low = 0) :
    wp (pageTable dir v) state (fun _ => HighUse) HighUse := by
  have hmake : (!state.tablesOf dir (directoryIndex v)) = true := by simp [habsent]
  have hused := h.withUse (h.lowFrame hdir)
  have hrest : ∀ entry, KeepsUses (loadWord entry >>= fun pde => do
      useFrame (pageOf pde)
      pure (pageOf pde)) := fun entry =>
    (keepsUses_loadWord entry).bind fun pde =>
      (keepsUses_useFrame _).bind fun _ => keepsUses_pure _
  have hfill : ∀ pt : UInt32, pt = 0 ∨ 0x00800000 ≤ pt.toNat → ∀ now : PagingState,
      wp (useFrame pt >>= fun _ => do
        fillWords pt (fun _ => 0x002) 1024 0
        storeWord (dir + 4 * UInt32.ofNat (directoryIndex v)) (pt ||| 0x003)
        let pde ← loadWord (dir + 4 * UInt32.ofNat (directoryIndex v))
        useFrame (pageOf pde)
        pure (pageOf pde)) now (fun _ => HighUse) HighUse := by
    intro pt hpt now
    rw [wp_bind, wp_useFrame]
    refine ((keepsUses_fillWords _ _ _ _).bind fun _ => (keepsUses_storeWord _ _).bind fun _ =>
      hrest _) _ ⟨pt, List.mem_append_right _ (List.mem_singleton_self pt), hpt⟩
  simp only [pageTable]
  rw [wp_bind, wp_useFrame, wp_bind]
  refine hused.wp_loadEntry hdir.toNat_eq (h.directory_low hdir) (directoryIndex_lt v) rfl
    (wp_if_pos hmake ?_)
  rw [wp_bind]
  refine wp_pmmAlloc h.ordered (fun _ => hfill 0 (.inl rfl) _) fun page htakes =>
    hfill _ (.inr ?_) _
  have hhigh : 2048 ≤ page := htakes.high hnone
  rw [toNat_frameAddress htakes.lt]
  omega

/-- A page from 1 GB on. -/
def userPage (k : ℕ) : UInt32 := 0x40000000 + UInt32.ofNat (4096 * k)

theorem userPage_spec {k : ℕ} (hk : k < 3072) :
    kernelTop ≤ userPage k ∧ directoryIndex (userPage k) = 256 + k / 1024 := by
  have hvalue : (userPage k).toNat = 0x40000000 + 4096 * k := by
    rw [userPage, UInt32.toNat_add, UInt32.toNat_ofNat', Nat.mod_eq_of_lt (by omega : 4096 * k < _)]
    exact Nat.mod_eq_of_lt (by simp only [UInt32.reduceToNat]; omega)
  constructor
  · rw [UInt32.le_iff_toNat_le, hvalue]
    exact le_trans (by decide : kernelTop.toNat ≤ 0x40000000) (Nat.le_add_right _ _)
  · rw [directoryIndex_eq, hvalue]
    omega

/-- The pages of 12 MB, table by table. -/
theorem rangePages_large : rangePages 0x40000000 0x00C00000 =
    (userPage 0 :: (List.range' 1 1023).map userPage) ++
      (userPage 1024 :: (List.range' 1025 1023).map userPage) ++
      userPage 2048 :: (List.range' 2049 1023).map userPage := by
  have hcount : (0x40000000 : UInt32).toNat + 4096 * 3072 =
      (0x40000000 + roundedLen 0x00C00000 : UInt32).toNat := by decide
  have hsplit : List.range 3072 = (0 :: List.range' 1 1023) ++ (1024 :: List.range' 1025 1023) ++
      2048 :: List.range' 2049 1023 := by
    have hparts : List.range' 0 3072 =
        List.range' 0 1024 ++ List.range' 1024 1024 ++ List.range' 2048 1024 := by
      rw [List.range'_append_1, List.range'_append_1]
    have hfirst : ∀ first, List.range' first 1024 = first :: List.range' (first + 1) 1023 :=
      fun _ => List.range'_succ
    rw [List.range_eq_range', hparts, hfirst, hfirst, hfirst]
  rw [rangePages, Elf.pageAddresses, Elf.pageLoop_eq hcount (by decide), hsplit, List.map_append,
    List.map_append]
  rfl

/-- The pages of one table. -/
theorem userPages_spec {n first : ℕ} (hfirst : first = 1024 * n) (hn : n < 3) :
    ∀ w ∈ userPage first :: (List.range' (first + 1) 1023).map userPage,
      kernelTop ≤ w ∧ directoryIndex w = 256 + n := by
  intro w hw
  rcases List.mem_cons.mp hw with rfl | htail
  · have ⟨htop, hindex⟩ := userPage_spec (by omega : first < 3072)
    exact ⟨htop, by omega⟩
  · have ⟨k, hk, hwk⟩ := List.mem_map.mp htail
    have hrange := List.mem_range'_1.mp hk
    have ⟨htop, hindex⟩ := userPage_spec (by omega : k < 3072)
    rw [← hwk]
    exact ⟨htop, by omega⟩

/-- sys_mmap of more memory than there is below 8 MB: the third table is put too high. -/
theorem Booted.mmap_high {start : PagingState} (h : Booted start roles)
    (hcr3 : start.procs.cr3 = start.kernelPageDir)
    (htaken : TakenWithin 515 ⟨1808, 7952⟩ start.pmm.frames) :
    wp (sysMmap 0x40000000 0x00C00000) start (fun _ => HighUse) HighUse := by
  have hsane : Sane h.weak start roles := h.rebase _ fun p _ hp => h.identity hp
  obtain ⟨hfewer, hlow, hfree⟩ := htaken
  have hmore : start.pmm.frames.low ≤ 1808 := hfewer
  have hleast : 1808 ≤ start.pmm.frames.low + 515 := hlow
  have hmany : 7952 ≤ start.pmm.frames.free + 515 := hfree
  have htables : ∀ n, 3 ≤ n → start.tablesOf start.procs.cr3 n = false := by
    intro n hn
    rw [hcr3]
    exact (h.tables n).trans (decide_eq_false (by omega))
  -- the first two tables and their pages use up the frames below 8 MB
  have hsafe : SafePages (fun frames tables => frames.low = 0 ∧ tables 258 = false)
      start.pmm.frames (start.tablesOf start.procs.cr3)
      ((userPage 0 :: (List.range' 1 1023).map userPage) ++
        (userPage 1024 :: (List.range' 1025 1023).map userPage)) := by
    refine SafePages.newRegion (htables 256 (by decide)) (userPages_spec (n := 0) rfl (by decide))
      (by omega) ?_
    rw [List.length_map, List.length_range', ← List.append_nil (userPage 1024 :: _)]
    refine SafePages.newRegion ?_ (userPages_spec (n := 1) rfl (by decide)) ?_ ?_
    · rw [Function.update_of_ne (by decide)]
      exact htables 257 (by decide)
    · show 2 ≤ start.pmm.frames.low - 1025
      omega
    · rw [List.length_map, List.length_range']
      refine ⟨?_, ?_⟩
      · show start.pmm.frames.low - 1025 - 1025 = 0
        omega
      · rw [Function.update_of_ne (by decide), Function.update_of_ne (by decide)]
        exact htables 258 (by decide)
  have hmap : ∀ v phys now, now.procs = start.procs →
      exec (mapPage v phys 0x007) now = exec (mapPageInDir start.procs.cr3 v phys 0x007) now := by
    intro v phys now hnow
    rw [← hnow]
    rfl
  rw [sysMmap]
  refine wp_if_neg (by decide) ?_
  have hpages : Elf.pageAddresses (mmapStart 0x40000000)
      (mmapStart 0x40000000 + roundedLen 0x00C00000) = rangePages 0x40000000 0x00C00000 := rfl
  rw [wp_bind, hpages, rangePages_large]
  refine wp_mapPages_append (Sane.wp_mapPages (Nat.le_refl 2304) (by decide : present 0x007 = true)
    hmap hsane hsane.dirs.cr3 rfl hsafe fun ok now roles' hmapped hdone => ?_)
  have hlength := hmapped.taken
  rw [List.length_append, List.length_cons, List.length_cons, List.length_map, List.length_map,
    List.length_range', List.length_range'] at hlength
  cases ok with
  | false =>
    have hout := hmapped.out rfl
    omega
  | true =>
    obtain ⟨hnone, habsent⟩ := hdone rfl
    have hnow : now.procs = start.procs := hmapped.mapped.procs
    show wp (mapPages _ (userPage 2048 :: _)) now _ _
    rw [mapPages, wp_bind]
    refine wp_pmmAlloc hmapped.sane.ordered (fun hempty => absurd hempty (by omega))
      fun q htakes => wp_if_neg (frameAddress_ne_zero htakes.lt htakes.ne_zero) ?_
    obtain ⟨hgranted, _⟩ := hmapped.sane.grant htakes
    have hdir := hsane.dirs.cr3.mono hmapped.mapped.roles_mono
    have hless : (now.grant q).pmm.frames.low = 0 := by
      have hframes : (now.grant q).pmm.frames = now.pmm.frames.take := htakes.frames
      rw [hframes]
      show now.pmm.frames.low - 1 = 0
      omega
    have hindex := (userPage_spec (by decide : 2048 < 3072)).2
    have hstill :
        (now.grant q).tablesOf start.procs.cr3 (directoryIndex (userPage 2048)) = false := by
      rw [hindex]
      exact habsent
    rw [wp_bind]
    refine wp_congr (hmap _ _ _ hnow) ?_
    rw [mapPageInDir, wp_bind]
    refine wp_mono (hgranted.wp_pageTable_high hdir hstill hless) (fun pt low huse => ?_)
      fun _ huse => huse
    have hrest : KeepsUses (storeWord (pt + 4 * UInt32.ofNat (tableIndex (userPage 2048)))
        (makeEntry (frameAddress q) 0x007)) := keepsUses_storeWord _ _
    refine wp_mono (hrest low huse) (fun _ after huse' => ?_) fun _ huse' => huse'
    refine wp_mono (keepsUses_mapPages (fun v phys => keepsUses_mapPage v phys 0x007) _ after huse')
      (fun ok' last huse'' => ?_) fun _ huse'' => huse''
    cases ok' with
    | true => exact huse''
    | false => exact huse''

/-- The law fails in such a run. -/
theorem Booted.mmap_exhausts {start : PagingState} (h : Booted start roles) {procs : Processes}
    (hprocs : start.procs = procInit { procs with cr3 := start.kernelPageDir })
    (htaken : TakenWithin 515 ⟨1808, 7952⟩ start.pmm.frames) :
    ¬EveryState PagingCall.after UsesLow [.mmap 0x40000000 0x00C00000] start := by
  have hhigh : HighUse (PagingCall.after (.mmap 0x40000000 0x00C00000) start) :=
    wp_state (wp_discard (h.mmap_high (hprocs ▸ rfl) htaken))
  exact fun hlow => hhigh.not_usesLow hlow.2

/-- A page is mapped for a program. -/
theorem usesLow_onePage :
    EveryState PagingCall.after UsesLow [.mmap 0x40000000 4096] smallStart :=
  usesLow_run (fun _ => rfl) smallStart_low (smallStart_safe _)

/-- A mapping of 12 MB puts a table where its physical address does not reach it. -/
theorem usesLow_exhausted :
    ¬EveryState PagingCall.after UsesLow [.mmap 0x40000000 0x00C00000] smallStart := by
  have ⟨_, hbooted, hprocs, htaken⟩ := smallStart_spec
  exact hbooted.mmap_exhausts hprocs htaken

end Exhaustion

end HexaOS.Paging
