import HexaOS.PagingRuns

/-!
# What a started program sees

cmd_exec maps and fills the pages of a program in one directory, and proc_create_user gives the
task another one, with the first 256 entries of the directory of the kernel. So the task sees a
page exactly when the directory of the kernel has a table for it. There the last store to an
address counts.
-/

namespace HexaOS.Paging

open X86 Process Hexafs StoreTyping StepRuns

/-- The byte of a segment at an offset: the bytes of the file, then zeros. -/
def segmentByte (image : Elf.FormImage) (ph : Elf.ElfProgHeader) (j : ℕ) : UInt8 :=
  if j < ph.filesz.toNat then image.bytes (ph.offset + UInt32.ofNat j) else 0

/-- In a directory, all pages of the segments are mapped to the frames that elf_load filled, and
the bytes there are those of the segments. -/
def SeesSegments (image : Elf.FormImage) (mapped : PagingState) (userPd : UInt32)
    (final : PagingState) (pageDir : UInt32) : Prop :=
  ∀ ph ∈ image.segments, ∀ j < ph.memsz.toNat, ∃ address,
    X86.translate mapped.words userPd (ph.vaddr + UInt32.ofNat j) = some address ∧
    X86.translate final.words pageDir (ph.vaddr + UInt32.ofNat j) = some address ∧
    final.memory address = segmentByte image ph j

/-- The task that cmd_exec has started, from one state to another, sees its program. `mapped` is
the state in which elf_load begins, `userPd` the directory that it stores through. -/
def SeesProgram (image : Elf.FormImage) (state final : PagingState) : Prop :=
  ∀ userPd mapped slot, exec (buildSpace image) state = (.ok (userPd, true), mapped) →
    deadSlot state.procs = some slot →
    SeesSegments image mapped userPd final (final.procs.tasks slot).pageDir

/-- All pages lie under tables of the kernel, among the first 256, and no later store of elf_load
changes a byte of a segment. -/
def Visible (image : Elf.FormImage) (state : PagingState) : Prop :=
  ∀ ph ∈ image.segments, ∀ j < ph.memsz.toNat,
    state.spaceTables (directoryIndex (ph.vaddr + UInt32.ofNat j)) = true ∧
    lastByte image.stores (ph.vaddr + UInt32.ofNat j) = some (segmentByte image ph j)

variable {kernel : KernelLayout} {state mapped loaded now : PagingState}
  {roles roles' : ℕ → Option FrameRole} {image : Elf.FormImage} {name : CString} {userPd : UInt32}
  {stack dir : ℕ} {pid : ℤ}

/-- The directory of the new task. -/
theorem TaskMade.pageDir {entry : UInt32}
    (h : TaskMade kernel state roles entry name stack dir pid now) {slot : Slot}
    (hslot : deadSlot state.procs = some slot) :
    (now.procs.tasks slot).pageDir = frameAddress dir := by
  have hprocs : now.procs = (Process.procCreateUser (frameAddress stack) (frameAddress dir) entry
      name state.procs).2 := congrArg Prod.snd h.created
  rw [hprocs]
  exact procCreateUser_pageDir h.can.1 hslot h.stack_ne

/-- The address of a byte that elf_load stores. -/
theorem mem_stores {ph : Elf.ElfProgHeader} (hph : ph ∈ image.segments) {j : ℕ}
    (hj : j < ph.memsz.toNat) :
    (ph.vaddr + UInt32.ofNat j, segmentByte image ph j) ∈ image.stores := by
  refine List.mem_flatMap.mpr ⟨ph, hph, List.mem_append.mpr ?_⟩
  by_cases hfile : j < ph.filesz.toNat
  · refine .inl (List.mem_map.mpr ⟨j, List.mem_range.mpr hfile, ?_⟩)
    rw [segmentByte, if_pos hfile]
  · refine .inr (List.mem_map.mpr ⟨j, List.mem_range'_1.mpr (by omega), ?_⟩)
    rw [segmentByte, if_neg hfile]

/-- An address that is stored to has a last byte. -/
theorem lastByte_isSome {stores : List (UInt32 × UInt8)} {store : UInt32 × UInt8}
    (h : store ∈ stores) : ∃ byte, lastByte stores store.1 = some byte := by
  induction stores with
  | nil => exact absurd h List.not_mem_nil
  | cons first rest ih =>
    rw [lastByte]
    rcases hlast : lastByte rest store.1 with _ | byte
    · rcases List.mem_cons.mp h with rfl | htail
      · exact ⟨_, if_pos rfl⟩
      · obtain ⟨byte, hbyte⟩ := ih htail
        cases hlast.symm.trans hbyte
    · exact ⟨byte, rfl⟩

section Started

/-- Outside the kernel, the task finds what elf_load has stored through where the directory of the
kernel has a table, and nothing elsewhere. -/
theorem SpaceBuilt.walk_task (hbuilt : SpaceBuilt kernel state roles userPd mapped roles')
    (hload : Loaded roles' image userPd mapped loaded) {entry : UInt32}
    (hmade : TaskMade kernel loaded roles' entry name stack dir pid now) {v : UInt32}
    (hv : kernelTop ≤ v) :
    walk now.words (frameAddress dir) v =
      if state.spaceTables (directoryIndex v) then walk mapped.words userPd v else none := by
  have hdirLow := (hmade.sane.low dir _ (Function.update_self _ _ _) trivial).1
  have hframe := frameOf_frameAddress (lt_trans hdirLow (by decide : lowPages < 8192))
  have hn := directoryIndex_lt v
  have hindex : 2 ≤ directoryIndex v := by
    have hpage := div_le_of_kernelTop_le hv
    rw [directoryIndex_eq]
    omega
  -- the directory of the kernel has not changed
  have hkernelDir : loaded.kernelPageDir = state.kernelPageDir :=
    hload.kernelPageDir.trans hbuilt.kernelPageDir
  have hkernelRole : roles' (frameOf state.kernelPageDir) = some .directory := by
    have hrole := hbuilt.sane.kernelDir.role
    rwa [hbuilt.kernelPageDir] at hrole
  have hkernelWords : loaded.words (frameOf loaded.kernelPageDir) =
      state.words (frameOf state.kernelPageDir) := by
    rw [hkernelDir, hload.tables _ _ hkernelRole trivial, hbuilt.kernelWords]
  have hentry := hmade.words (directoryIndex v) hn
  rw [hkernelWords, ← hframe] at hentry
  by_cases htable : state.spaceTables (directoryIndex v) = true
  · have ⟨hlt, hpresent⟩ := Bool.and_eq_true_iff.mp htable
    have hless := of_decide_eq_true hlt
    rw [if_pos htable]
    rw [if_pos hless] at hentry
    have hshared := hbuilt.shared _ hless hpresent
    refine X86.walk_congr (hentry.trans hshared.symm) fun hset => ?_
    have hrole := Typed.table hbuilt.sane.typed hbuilt.dir.role hn hset
    have hkept : now.words (frameOf (mapped.words (frameOf userPd) (directoryIndex v))) =
        loaded.words (frameOf (mapped.words (frameOf userPd) (directoryIndex v))) :=
      frameWords_congr (hmade.kept _ _ hrole fun n hlow heq => by
        have hsame := FrameRole.table.inj heq
        omega)
    rw [hkept, hload.tables _ _ hrole trivial]
  · rw [if_neg htable]
    have habsent : present (now.words (frameOf (frameAddress dir)) (directoryIndex v)) = false := by
      rw [hentry]
      by_cases hlt : directoryIndex v < 256
      · rw [if_pos hlt]
        rw [PagingState.spaceTables, decide_eq_true hlt, Bool.true_and] at htable
        exact Bool.eq_false_iff.mpr htable
      · rw [if_neg hlt]
        exact present_two
    simp [walk, habsent]

/-- The bytes of a program are where they were stored. -/
theorem TaskMade.byte_kept (hkernel : kernel.pages ≤ 2304)
    (hbuilt : SpaceBuilt kernel state roles userPd mapped roles')
    (hload : Loaded roles' image userPd mapped loaded) {entry : UInt32}
    (hmade : TaskMade kernel loaded roles' entry name stack dir pid now) {v : UInt32}
    (hv : kernelTop ≤ v) {address : ℕ}
    (haddress : X86.translate mapped.words userPd v = some address) {byte : UInt8}
    (hbyte : lastByte image.stores v = some byte) : now.memory address = byte := by
  have ⟨hrole, _⟩ := hbuilt.sane.page_of_translate hkernel hbuilt.dir hv haddress
  rw [hmade.kept _ _ hrole (fun _ _ => nofun) address rfl, hload.bytes v address hv haddress, hbyte]
  rfl

/-- A started task sees its program exactly when all of it is visible. -/
theorem ProgramStarted.sees_iff (hkernel : kernel.pages ≤ 2304)
    (h : ProgramStarted kernel state roles image name userPd mapped pid now) :
    SeesProgram image state now ↔ Visible image state := by
  obtain ⟨roles', loaded, stack, dir, hbuilt, _, hload, hmade⟩ := h.parts
  have hprocs : loaded.procs = state.procs := hload.procs.trans hbuilt.procs
  obtain ⟨slot, hslot⟩ := Option.isSome_iff_exists.mp hmade.can.2
  have hdir := hmade.pageDir hslot
  rw [hprocs] at hslot
  constructor
  · intro hsees ph hph j hj
    obtain ⟨address, hthere, hhere, hbyte⟩ := hsees userPd mapped slot h.run hslot ph hph j hj
    have hmem := mem_stores hph hj
    have hv := h.stores _ hmem
    rw [hdir, X86.translate, hbuilt.walk_task hload hmade hv] at hhere
    have htable : state.spaceTables (directoryIndex (ph.vaddr + UInt32.ofNat j)) = true := by
      by_contra habsent
      rw [if_neg habsent] at hhere
      cases hhere
    obtain ⟨byte, hlast⟩ := lastByte_isSome hmem
    have hstored := hmade.byte_kept hkernel hbuilt hload hv hthere hlast
    exact ⟨htable, by rw [hlast, ← hstored, hbyte]⟩
  · intro hvisible userPd' mapped' slot' hrun hslot' ph hph j hj
    obtain ⟨hpair, hmapped⟩ := Prod.mk.inj (h.run.symm.trans hrun)
    have huserPd := (Prod.mk.inj (Except.ok.inj hpair)).1
    rw [← huserPd, ← hmapped, ← Option.some.inj (hslot.symm.trans hslot'), hdir]
    obtain ⟨htable, hlast⟩ := hvisible ph hph j hj
    have hmem := mem_stores hph hj
    have hv := h.stores _ hmem
    obtain ⟨address, haddress⟩ := Option.isSome_iff_exists.mp (hload.hits _ hmem)
    refine ⟨address, haddress, ?_, hmade.byte_kept hkernel hbuilt hload hv haddress hlast⟩
    rw [X86.translate, hbuilt.walk_task hload hmade hv, if_pos htable]
    exact haddress

/-- A walk sees the page of an address only. -/
theorem walk_pageOf (words : ℕ → ℕ → UInt32) (dir v : UInt32) :
    walk words dir (pageOf v) = walk words dir v := by
  have hpage := toNat_pageOf v
  have hdirectory : directoryIndex (pageOf v) = directoryIndex v := by
    rw [directoryIndex_eq, directoryIndex_eq]
    omega
  have htable : tableIndex (pageOf v) = tableIndex v := by
    have hindices := indices_eq v
    have hindices' := indices_eq (pageOf v)
    omega
  rw [walk, walk, hdirectory, htable]

/-- What cmd_exec needs for a program: a valid header, two frames for each page, one for the
directory and one for the stack, a place for the task, and stores to mapped pages only. -/
structure Startable (image : Elf.FormImage) (state : PagingState) : Prop where
  /-- The file has a header. -/
  size : Elf.elfHeaderSize ≤ image.size
  /-- The header is accepted. -/
  valid : Elf.elfValidate image.header = true
  /-- The frames below 8 MB suffice for pages, tables and directories. -/
  frames : 2 * (image.segments.flatMap (·.pages)).length + 2 ≤ state.pmm.frames.free
  /-- A task can be created. -/
  can : CanCreate state.procs
  /-- The next pid is not negative. -/
  nextPid : 0 ≤ state.procs.nextPid
  /-- What is stored lies on pages of the segments. -/
  covered : ∀ store ∈ image.stores, pageOf store.1 ∈ image.segments.flatMap (·.pages)

/-- The pid of a new task. -/
theorem TaskMade.pid_eq {entry : UInt32}
    (h : TaskMade kernel state roles entry name stack dir pid now) : pid = state.procs.nextPid := by
  have hpid : pid = (Process.procCreateUser (frameAddress stack) (frameAddress dir) entry name
      state.procs).1 := congrArg Prod.fst h.created
  rcases procCreateUser_cases (frameAddress stack) (frameAddress dir) entry name state.procs with
    ⟨hrefused, _⟩ | ⟨_, _, _, ⟨hzero, _⟩ | ⟨_, hnext, _⟩⟩
  · rcases hrefused with hfull | hslot
    · exact absurd h.can.1 (not_lt.mpr hfull)
    · have hsome := h.can.2
      rw [hslot] at hsome
      exact absurd hsome Bool.false_ne_true
  · exact absurd hzero h.stack_ne
  · rw [hpid, hnext]

/-- cmd_exec starts such a program. -/
theorem Sane.cmdExec_starts (h : Sane kernel state roles) (hkernel : kernel.pages ≤ 2304)
    (htables : kernel.tables ≤ 256) {start : Frames → Prop} (hsafe : SafeExec start image state)
    (hstart : ∀ frames, start frames → 2 ≤ frames.low ∧
      ∀ p < lowPages, kernel.ok p (makeEntry (frameAddress p) 0x007))
    (himage : Startable image state) :
    ∃ pid final, exec (cmdExec image name) state = (.ok (.started pid), final) := by
  obtain ⟨hlow, hpages⟩ := hsafe himage.size himage.valid
  have hstarts : wp (cmdExec image name) state (fun outcome _ => ∃ pid, outcome = .started pid)
      (fun _ => False) := by
    rw [cmdExec_eq]
    refine wp_if_neg (UInt32.not_lt.mpr himage.size) (wp_if_neg (by simp [himage.valid]) ?_)
    rw [wp_bind]
    refine h.wp_buildSpace hkernel htables hlow hpages
      fun made f ok now roles' hbuilt hframes hmapped hdone => ?_
    have hleft : 0 < now.pmm.frames.free := by
      have htaken := hmapped.taken
      have hneeded := himage.frames
      have hmade : made.pmm.frames.free = state.pmm.frames.free - 1 := congrArg Frames.free hframes
      omega
    refine wp_if_neg (hbuilt.sane.lowFrame hbuilt.dir).ne_zero ?_
    cases ok with
    | false =>
      have hout := hmapped.out rfl
      omega
    | true =>
      obtain ⟨hstores, hcreate⟩ := hdone rfl
      refine wp_if_neg Bool.false_ne_true ?_
      rw [startProgram, wp_bind]
      refine hbuilt.sane.wp_loadInto hkernel hbuilt.dir himage.valid hstores
        (fun loaded hloaded hload => ?_) fun _ _ hstopped => ?_
      · have hprocs : loaded.procs = state.procs := hload.procs.trans hbuilt.procs
        show wp (procCreateUser image.header.entry name >>= _) _ _ _
        rw [wp_bind]
        refine hloaded.wp_procCreateUser htables ?_ (fun stack dir pid _ hmade => ?_)
          fun _ _ hfailed => ?_
        · rw [hprocs, hload.pmm]
          exact fun hcan hfree => hstart _ (hcreate hcan hfree)
        · have hpid : ¬pid < 0 := by
            rw [hmade.pid_eq, hprocs]
            exact not_lt.mpr himage.nextPid
          exact wp_if_neg hpid ⟨pid, rfl⟩
        · rw [hprocs, hload.pmm] at hfailed
          rcases hfailed with hcannot | hnone
          · exact absurd himage.can hcannot
          · omega
      · -- all stores go to pages that were mapped
        obtain ⟨store, hstore, hnone⟩ := hstopped
        have hwalk := hmapped.walks rfl _ (himage.covered store hstore)
        rw [walk_pageOf] at hwalk
        rw [X86.translate, Option.map_eq_none_iff] at hnone
        rw [hnone] at hwalk
        exact Bool.false_ne_true hwalk
  rw [wp] at hstarts
  rcases hexec : exec (cmdExec image name) state with ⟨v | outcome, final⟩
  · rw [hexec] at hstarts
    exact hstarts.elim
  · rw [hexec] at hstarts
    obtain ⟨pid, hpid⟩ : ∃ pid, outcome = .started pid := hstarts
    exact ⟨pid, final, by rw [hpid]⟩

end Started

section Laws

/-- In a state that keeps the rules, a started task sees its program exactly when all of it is
visible. -/
theorem Sane.sees_iff (h : Sane kernel state roles) (hkernel : kernel.pages ≤ 2304)
    (htables : kernel.tables ≤ 256) {start : Frames → Prop} (hsafe : SafeExec start image state)
    (hstart : ∀ frames, start frames → 2 ≤ frames.low ∧
      ∀ p < lowPages, kernel.ok p (makeEntry (frameAddress p) 0x007))
    {final : PagingState} (hrun : exec (cmdExec image name) state = (.ok (.started pid), final)) :
    SeesProgram image state final ↔ Visible image state := by
  have hsees : wp (cmdExec image name) state
      (fun outcome now => (∃ pid, outcome = .started pid) →
        (SeesProgram image state now ↔ Visible image state)) (fun _ => True) :=
    h.wp_cmdExec hkernel htables hsafe hstart (fun _ _ _ _ hstarted _ => hstarted.sees_iff hkernel)
      (fun _ _ _ hnot ⟨pid, hpid⟩ => absurd hpid (hnot pid)) (fun _ _ => trivial)
  rw [wp, hrun] at hsees
  exact hsees ⟨pid, rfl⟩

/-- After any run of calls that leave the pages of the kernel alone and find frames below 8 MB, a
task that cmd_exec has started in this way sees its program exactly when all of it lies under
tables that the directory of the kernel has among its first 256, and no segment is stored over
another one. -/
theorem seesProgram_iff {memory : Kheap.Memory} {procs : Processes} {kernelEnd : ℕ}
    (hprocs : ∀ slot, (procs.tasks slot).pageDir = 0)
    (hlow : 4 ≤ (pmmInit memSize kernelEnd).frames.low) {calls : List PagingCall}
    (hsafe : EveryStep PagingCall.after (PagingCall.Safe fun frames => 2 ≤ frames.low) calls
      (booted memory procs kernelEnd))
    (hstate : runSteps PagingCall.after calls (booted memory procs kernelEnd) = state)
    (hexec : SafeExec (fun frames => 2 ≤ frames.low) image state) {final : PagingState}
    (hrun : exec (cmdExec image name) state = (.ok (.started pid), final)) :
    SeesProgram image state final ↔ Visible image state := by
  have ⟨roles, hbooted, _⟩ := booted_spec memory hprocs hlow
  have hstart : Sane hbooted.weak (booted memory procs kernelEnd) roles :=
    hbooted.rebase _ fun p _ hp => hbooted.identity hp
  have hstack : ∀ frames : Frames, 2 ≤ frames.low → 2 ≤ frames.low ∧
      ∀ p < lowPages, hbooted.weak.ok p (makeEntry (frameAddress p) 0x007) :=
    fun _ htwo => hbooted.weak_start htwo
  have hreached := (hstart.everyState (Nat.le_refl 2304) (by decide : 3 ≤ 256) hstack hsafe).runSteps
  rw [hstate] at hreached
  have ⟨_, hsane⟩ := hreached
  exact hsane.sees_iff (Nat.le_refl 2304) (by decide : 3 ≤ 256) hexec hstack hrun

/-- The size of the program is no negative int. -/
theorem programSize_lt : (88 : UInt32).toNat < 2 ^ 31 := by decide

/-- A program of one segment with four file bytes, at an address. -/
def programAt (vaddr : UInt32) : Elf.FormImage where
  bytes offset :=
    ([Elf.elfMagic, 1, 0, 0, 0x00030002, 1, vaddr, 52, 0, 0, 0x00200034, 1, 0, Elf.ptLoad, 84, vaddr,
      0, 4, 4, 5, 4096, 0x90909090].flatMap PackedBytes.bytesOfWord).getD offset.toNat 0
  size := 88
  size_lt := programSize_lt

/-- A program of one page outside the kernel may be started with few frames. -/
theorem safeExec_page {v : UInt32} (hv : kernelTop ≤ v)
    (hpages : image.segments.flatMap (·.pages) = [v])
    (hstores : ∀ store ∈ image.stores, kernelTop ≤ store.1) (hlow : 5 ≤ state.pmm.frames.low) :
    SafeExec (fun frames => 2 ≤ frames.low) image state := by
  refine fun _ _ => ⟨by omega, ?_⟩
  have hleft : state.pmm.frames.take.low = state.pmm.frames.low - 1 := rfl
  rw [hpages]
  refine fun _ => ⟨hv, ?_⟩
  by_cases hpresent : state.spaceTables (directoryIndex v) = true
  · rw [if_pos hpresent]
    refine ⟨hstores, fun _ _ => ?_⟩
    show 2 ≤ state.pmm.frames.low - 1 - 1
    omega
  · rw [if_neg hpresent]
    refine ⟨?_, hstores, fun _ _ => ?_⟩
    · show 0 < state.pmm.frames.low - 1 - 1
      omega
    · show 2 ≤ state.pmm.frames.low - 1 - 1 - 1
      omega

/-- A program under one table, with segments that do not overlap, is visible if the directory of
the kernel has the table. -/
theorem visible_iff_table {n : ℕ}
    (hsegments : ∀ ph ∈ image.segments, ∀ j < ph.memsz.toNat,
      directoryIndex (ph.vaddr + UInt32.ofNat j) = n ∧
      lastByte image.stores (ph.vaddr + UInt32.ofNat j) = some (segmentByte image ph j))
    (hsome : ∃ ph ∈ image.segments, 0 < ph.memsz.toNat) :
    Visible image state ↔ state.spaceTables n = true := by
  constructor
  · intro hvisible
    have ⟨ph, hph, hpositive⟩ := hsome
    have ⟨hindex, _⟩ := hsegments ph hph 0 hpositive
    rw [← hindex]
    exact (hvisible ph hph 0 hpositive).1
  · intro htable ph hph j hj
    have ⟨hindex, hlast⟩ := hsegments ph hph j hj
    exact ⟨by rw [hindex, htable], hlast⟩

/-- The tables of the kernel after the start. -/
theorem Booted.spaceTables {start : PagingState} (h : Booted start roles) (n : ℕ) :
    start.spaceTables n = decide (n < 3) := by
  rw [PagingState.spaceTables, h.tables, ← Bool.decide_and]
  exact decide_eq_decide.mpr (by omega)

/-- A program of one page may be started on the small machine. -/
theorem startable_page {start : PagingState}
    (hprocs : start.procs = procInit { zeroProcesses with cr3 := start.kernelPageDir })
    (htaken : TakenWithin 515 ⟨1808, 7952⟩ start.pmm.frames) {v : UInt32}
    (hsize : Elf.elfHeaderSize ≤ image.size) (hvalid : Elf.elfValidate image.header = true)
    (hpages : image.segments.flatMap (·.pages) = [v])
    (hcovered : ∀ store ∈ image.stores, pageOf store.1 = v) : Startable image start := by
  refine ⟨hsize, hvalid, ?_, ?_, ?_, fun store hstore => ?_⟩
  · have hfree : 7952 ≤ start.pmm.frames.free + 515 := htaken.free
    rw [hpages, List.length_singleton]
    omega
  · rw [hprocs]
    exact ⟨(by decide : (0 : ℤ) < maxTasks), rfl⟩
  · rw [hprocs]
    exact (by decide : (0 : ℤ) ≤ zeroProcesses.nextPid)
  · rw [hpages, hcovered store hstore]
    exact List.mem_singleton_self v

/-- On the small machine, cmd_exec starts a program of one page. -/
theorem smallStart_starts (image : Elf.FormImage) (name : CString) {v : UInt32} (hv : kernelTop ≤ v)
    (hsize : Elf.elfHeaderSize ≤ image.size) (hvalid : Elf.elfValidate image.header = true)
    (hpages : image.segments.flatMap (·.pages) = [v])
    (hcovered : image.stores.all (fun store => kernelTop ≤ store.1 ∧ pageOf store.1 = v) = true) :
    SafeExec (fun frames => 2 ≤ frames.low) image smallStart ∧
      ∃ pid final, exec (cmdExec image name) smallStart = (.ok (.started pid), final) := by
  have hstores : ∀ store ∈ image.stores, kernelTop ≤ store.1 ∧ pageOf store.1 = v :=
    fun store hstore => of_decide_eq_true (List.all_eq_true.mp hcovered store hstore)
  have ⟨roles, hbooted, hprocs, htaken⟩ := smallStart_spec
  have hlow : 1808 ≤ smallStart.pmm.frames.low + 515 := htaken.low
  have hsafe : SafeExec (fun frames => 2 ≤ frames.low) image smallStart :=
    safeExec_page hv hpages (fun store hstore => (hstores store hstore).1) (by omega)
  have hsane : Sane hbooted.weak smallStart roles :=
    hbooted.rebase _ fun p _ hp => hbooted.identity hp
  exact ⟨hsafe, hsane.cmdExec_starts (Nat.le_refl 2304) (by decide : 3 ≤ 256) hsafe
    (fun _ htwo => hbooted.weak_start htwo) (startable_page hprocs htaken hsize hvalid hpages
      fun store hstore => (hstores store hstore).2)⟩

/-- A program at 10 MB is seen: the table of the heap of the kernel covers its page. -/
theorem seesProgram_low : ∃ pid final,
    exec (cmdExec (programAt 0x00A00000) taskName) smallStart = (.ok (.started pid), final) ∧
      SeesProgram (programAt 0x00A00000) smallStart final := by
  have ⟨hsafe, pid, final, hrun⟩ := smallStart_starts (programAt 0x00A00000) taskName
    (v := 0x00A00000) (by decide) (by decide) (by decide +kernel) (by decide +kernel)
    (by decide +kernel)
  have ⟨_, hbooted, _⟩ := smallStart_spec
  have htable : smallStart.spaceTables 2 = true :=
    (hbooted.spaceTables 2).trans (decide_eq_true (by decide))
  have hvisible : Visible (programAt 0x00A00000) smallStart :=
    (visible_iff_table (by decide +kernel) (by decide +kernel)).mpr htable
  exact ⟨pid, final, hrun, (seesProgram_iff (fun _ => rfl) smallStart_low
    (everyStep_nil _ _ smallStart) (runSteps_nil _ smallStart) hsafe hrun).mpr hvisible⟩

/-- A program at 1 GB is started and not seen. -/
theorem seesProgram_lost : ∃ pid final,
    exec (cmdExec (programAt 0x40000000) taskName) smallStart = (.ok (.started pid), final) ∧
      ¬SeesProgram (programAt 0x40000000) smallStart final := by
  have ⟨hsafe, pid, final, hrun⟩ := smallStart_starts (programAt 0x40000000) taskName
    (v := 0x40000000) (by decide) (by decide) (by decide +kernel) (by decide +kernel)
    (by decide +kernel)
  have ⟨roles, hbooted, _⟩ := smallStart_spec
  have hsane : Sane hbooted.weak smallStart roles :=
    hbooted.rebase _ fun p _ hp => hbooted.identity hp
  refine ⟨pid, final, hrun, fun hsees => ?_⟩
  have hvisible := (hsane.sees_iff (Nat.le_refl 2304) (by decide : 3 ≤ 256) hsafe
    (fun _ htwo => hbooted.weak_start htwo) hrun).mp hsees
  have hthere : smallStart.spaceTables 256 = true :=
    (visible_iff_table (by decide +kernel) (by decide +kernel)).mp hvisible
  have habsent : smallStart.spaceTables 256 = false :=
    (hbooted.spaceTables 256).trans (decide_eq_false (by decide))
  exact Bool.false_ne_true (habsent.symm.trans hthere)

end Laws

end HexaOS.Paging
