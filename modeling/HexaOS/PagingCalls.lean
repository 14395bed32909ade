import HexaOS.PagingSteps

/-!
# The calls that map pages, load programs and start tasks

sys_munmap, elf_load, proc_create_user and cmd_exec, from a state that keeps the rules of the page
tables. A program is stored through its own directory, into frames that serve no other part of an
address space, so that the bytes stay where the stores have put them.
-/

namespace HexaOS.Paging

open X86 Process Hexafs StoreTyping

variable {kernel : KernelLayout} {state state' state'' : PagingState}
  {roles roles' : ℕ → Option FrameRole} {stopped : PagingState → Prop}

theorem Sane.withProcs (h : Sane kernel state roles) {procs : Processes}
    (hdirs : DirectoriesFrom (IsDirectory roles) procs) :
    Sane kernel { state with procs := procs } roles :=
  { h with dirs := hdirs }

section Unmapping

/-- unmap_page, for an address that has a table. -/
theorem Sane.wp_unmapPage_present (h : Sane kernel state roles) {v : UInt32} {f : ℕ}
    (hpresent : state.tablesOf state.procs.cr3 (directoryIndex v) = true)
    (hframe : frameOf (state.words (frameOf state.procs.cr3) (directoryIndex v)) = f)
    {post : Unit → PagingState → Prop}
    (hpost : Sane kernel
        { state with uses := state.uses ++ [state.procs.cr3] ++ [frameAddress f] } roles →
      roles f = some (.table (directoryIndex v)) →
      post () (PagingState.storeEntry
        { state with uses := state.uses ++ [state.procs.cr3] ++ [frameAddress f] }
        f (tableIndex v) 0x002)) :
    wp (unmapPage v) state post stopped := by
  have hdir := h.dirs.cr3
  have hused := h.withUse (h.lowFrame hdir)
  have hrole := Typed.table h.typed hdir.role (directoryIndex_lt v) hpresent
  rw [hframe] at hrole
  have ⟨hlow, huse⟩ := h.low _ _ hrole trivial
  have hboth := hused.withUse huse
  have ⟨pde, hpde⟩ : ∃ pde, state.words (frameOf state.procs.cr3) (directoryIndex v) = pde :=
    ⟨_, rfl⟩
  rw [PagingState.tablesOf, hpde] at hpresent
  rw [hpde] at hframe
  simp only [unmapPage, wp_bind, wp_getCr3, wp_useFrame]
  refine hused.wp_loadEntry hdir.toNat_eq (h.directory_low hdir) (directoryIndex_lt v) hpde
    (wp_if_pos hpresent ?_)
  simp only [wp_bind, wp_useFrame]
  rw [pageOf_eq_frameAddress hframe hlow]
  exact hboth.wp_storeEntry (toNat_frameAddress (lt_trans hlow (by decide))) hlow
    (tableIndex_lt v) (hpost hboth hrole)

/-- Pages were unmapped: no frame is given back, and no table. -/
structure Unmapped (kernel : KernelLayout) (state : PagingState) (roles : ℕ → Option FrameRole)
    (now : PagingState) : Prop where
  /-- The state stays sane. -/
  sane : Sane kernel now roles
  /-- No frame comes back. -/
  pmm : now.pmm = state.pmm
  /-- The tasks stay. -/
  procs : now.procs = state.procs
  /-- No table goes away. -/
  tables : now.tablesOf now.procs.cr3 = state.tablesOf state.procs.cr3

theorem Unmapped.trans (h : Unmapped kernel state roles state')
    (h' : Unmapped kernel state' roles state'') : Unmapped kernel state roles state'' :=
  ⟨h'.sane, h'.pmm.trans h.pmm, h'.procs.trans h.procs, h'.tables.trans h.tables⟩

/-- unmap_page, for a page outside the kernel. -/
theorem Sane.wp_unmapPage (h : Sane kernel state roles) {v : UInt32}
    (hv : kernel.pages ≤ v.toNat / 4096) {post : Unit → PagingState → Prop}
    (hpost : ∀ now, Unmapped kernel state roles now → post () now) :
    wp (unmapPage v) state post stopped := by
  by_cases hpresent : state.tablesOf state.procs.cr3 (directoryIndex v) = true
  · refine h.wp_unmapPage_present hpresent rfl fun hused hrole => hpost _ ⟨?_, rfl, rfl, ?_⟩
    · refine hused.setTable hrole (tableIndex_lt v) (fun hlt => ?_) fun _ hset => ?_
      · rw [indices_eq] at hlt
        omega
      · exact absurd hset (by decide)
    · have hne : frameOf state.procs.cr3 ≠
          frameOf (state.words (frameOf state.procs.cr3) (directoryIndex v)) := by
        intro heq
        have hdir := h.dirs.cr3.role
        rw [heq, hrole] at hdir
        exact nomatch hdir
      funext n
      rw [PagingState.tablesOf, PagingState.storeEntry_words _ (tableIndex_lt v)]
      exact congrArg present (setEntry_of_ne (.inl hne))
  · have hdir := h.dirs.cr3
    have hused := h.withUse (h.lowFrame hdir)
    simp only [unmapPage, wp_bind, wp_getCr3, wp_useFrame]
    exact hused.wp_loadEntry hdir.toNat_eq (h.directory_low hdir) (directoryIndex_lt v)
      rfl (wp_if_neg hpresent (hpost _ ⟨hused, rfl, rfl, rfl⟩))

/-- The loop of sys_munmap. -/
theorem Sane.wp_unmapPages (hkernel : kernel.pages ≤ 2304) {vs : List UInt32}
    {post : Unit → PagingState → Prop} (h : Sane kernel state roles)
    (hvs : ∀ v ∈ vs, kernelTop ≤ v)
    (hpost : ∀ now, Unmapped kernel state roles now → post () now) :
    wp (unmapPages vs) state post stopped := by
  induction vs generalizing state with
  | nil => exact hpost state ⟨h, rfl, rfl, rfl⟩
  | cons v rest ih =>
    have hv := le_trans hkernel (div_le_of_kernelTop_le (hvs v List.mem_cons_self))
    rw [unmapPages, wp_bind]
    exact h.wp_unmapPage hv fun now hunmapped =>
      ih hunmapped.sane (fun w hw => hvs w (List.mem_cons_of_mem _ hw))
        fun now' hrest => hpost now' (hunmapped.trans hrest)

end Unmapping

section Loading

/-- The last byte that is stored to an address. -/
def lastByte : List (UInt32 × UInt8) → UInt32 → Option UInt8
  | [], _ => none
  | (w, byte) :: rest, v => (lastByte rest v).or (if w = v then some byte else none)

/-- Outside the kernel, an address is mapped to a frame for its page. -/
theorem Sane.page_of_translate (h : Sane kernel state roles) (hkernel : kernel.pages ≤ 2304)
    {dir v : UInt32} (hdir : IsDirectory roles dir) (hv : kernelTop ≤ v) {address : ℕ}
    (haddress : X86.translate state.words dir v = some address) :
    roles (address / 4096) = some (.page (v.toNat / 4096)) ∧
      address % 4096 = v.toNat % 4096 := by
  have ⟨⟨pde, pte⟩, hwalk, heq⟩ := Option.map_eq_some_iff.mp haddress
  have hfree := kernel.fixed_eq_none.mpr (le_trans hkernel (div_le_of_kernelTop_le hv))
  have hpage := (Typed.walk h.typed hdir.role hwalk).2 hfree
  have hframe : address / 4096 = frameOf pte := by
    have hoffset : 4096 * frameOf pte + v.toNat % 4096 = address := heq
    omega
  have hoffset : 4096 * frameOf pte + v.toNat % 4096 = address := heq
  rw [hframe]
  exact ⟨hpage, by omega⟩

theorem Sane.translate_eq (h : Sane kernel state roles) (v : UInt32) :
    state.translate v = X86.translate state.words state.procs.cr3 v := if_pos h.enabled

/-- Outside the kernel, different addresses are mapped to different places. -/
theorem Sane.translate_inj (h : Sane kernel state roles) (hkernel : kernel.pages ≤ 2304)
    {v w : UInt32} (hv : kernelTop ≤ v) (hw : kernelTop ≤ w) {address : ℕ}
    (hto : state.translate v = some address) (hto' : state.translate w = some address) : v = w := by
  rw [h.translate_eq] at hto hto'
  have ⟨hrole, hoffset⟩ := h.page_of_translate hkernel h.dirs.cr3 hv hto
  have ⟨hrole', hoffset'⟩ := h.page_of_translate hkernel h.dirs.cr3 hw hto'
  have hpage : v.toNat / 4096 = w.toNat / 4096 :=
    FrameRole.page.inj (Option.some.inj (hrole.symm.trans hrole'))
  apply UInt32.toNat_inj.mp
  omega

/-- Bytes were stored to addresses outside the kernel. -/
structure Stored (roles : ℕ → Option FrameRole) (stores : List (UInt32 × UInt8))
    (state state' : PagingState) : Prop where
  /-- Only the memory changes. -/
  rest : state' = state.withMemory state'.memory
  /-- The tables stay. -/
  tables : ∀ f role, roles f = some role → IsTable role → state'.words f = state.words f
  /-- All the addresses were mapped. -/
  hits : ∀ store ∈ stores, (state.translate store.1).isSome = true
  /-- Each byte is the last one stored to it. -/
  bytes : ∀ v address, kernelTop ≤ v → state.translate v = some address →
    state'.memory address = (lastByte stores v).getD (state.memory address)

/-- A store to an address outside the kernel changes one page. -/
theorem Sane.changes_store (h : Sane kernel state roles) (hkernel : kernel.pages ≤ 2304)
    {v : UInt32} (hv : kernelTop ≤ v) {address : ℕ} (haddress : state.translate v = some address)
    (byte : UInt8) :
    roles (address / 4096) = some (.page (v.toNat / 4096)) ∧
      Changes (address / 4096) state (state.withMemory (state.memory.store address byte)) := by
  rw [h.translate_eq] at haddress
  refine ⟨(h.page_of_translate hkernel h.dirs.cr3 hv haddress).1, rfl, fun a ha => if_neg ?_⟩
  rintro rfl
  exact ha rfl

/-- The stores of elf_load. -/
theorem Sane.wp_storeBytes (hkernel : kernel.pages ≤ 2304) {stores : List (UInt32 × UInt8)}
    {post : Unit → PagingState → Prop} (h : Sane kernel state roles)
    (hstores : ∀ store ∈ stores, kernelTop ≤ store.1)
    (hpost : ∀ now, Sane kernel now roles → Stored roles stores state now → post () now)
    (hstopped : ∀ now, Sane kernel now roles →
      (∃ store ∈ stores, state.translate store.1 = none) → stopped now) :
    wp (storeBytes stores) state post stopped := by
  induction stores generalizing state with
  | nil =>
    exact hpost state h ⟨rfl, fun _ _ _ _ => rfl, fun _ hstore => absurd hstore List.not_mem_nil,
      fun _ _ _ _ => rfl⟩
  | cons store rest ih =>
    have hv := hstores store List.mem_cons_self
    rw [storeBytes, wp_bind, storeByte, wp_bind, wp_get]
    rcases haddress : state.translate store.1 with _ | address
    · exact hstopped state h ⟨store, List.mem_cons_self, haddress⟩
    · obtain ⟨hrole, hchanges⟩ := h.changes_store hkernel hv haddress store.2
      have hnotable : ∀ role, roles (address / 4096) = some role → ¬IsTable role := by
        intro role hother
        rw [← Option.some.inj (hrole.symm.trans hother)]
        exact id
      have htables : ∀ f role, roles f = some role → IsTable role →
          (state.withMemory (state.memory.store address store.2)).words f = state.words f := by
        intro f role hother htable
        refine hchanges.words ?_
        rintro rfl
        exact hnotable role hother htable
      have hnow := h.changes hnotable hchanges
      have htranslate : ∀ v,
          (state.withMemory (state.memory.store address store.2)).translate v =
            state.translate v := by
        intro v
        rw [hnow.translate_eq, h.translate_eq, X86.translate, X86.translate,
          h.walk_congr hnow.dirs.cr3 htables]
        rfl
      refine ih hnow (fun other hother => hstores other (List.mem_cons_of_mem _ hother))
        (fun now hsane hstored => hpost now hsane ?_) fun now hsane hfault => ?_
      on_goal 2 =>
        obtain ⟨other, hother, hnone⟩ := hfault
        exact hstopped now hsane
          ⟨other, List.mem_cons_of_mem _ hother, (htranslate _).symm.trans hnone⟩
      refine ⟨hstored.rest, fun f role hother htable => ?_, fun other hother => ?_,
        fun v other hbound hother => ?_⟩
      · exact (hstored.tables f role hother htable).trans (htables f role hother htable)
      · rcases List.mem_cons.mp hother with rfl | htail
        · rw [haddress]
          rfl
        · rw [← htranslate]
          exact hstored.hits other htail
      · refine (hstored.bytes v other hbound ((htranslate v).trans hother)).trans ?_
        rw [lastByte]
        rcases lastByte rest v with _ | last
        · -- no later store: the first one counts, if it is to this address
          by_cases hsame : store.1 = v
          · rw [hsame] at haddress
            have hplace : address = other := Option.some.inj (haddress.symm.trans hother)
            rw [if_pos hsame, ← hplace]
            exact if_pos rfl
          · rw [if_neg hsame]
            refine if_neg ?_
            rintro rfl
            exact hsame (h.translate_inj hkernel hv hbound haddress hother)
        · rfl

end Loading

section Creation

/-- The pushes onto a start-up stack change its frame. -/
theorem wp_pushWords {f : ℕ} (hdirect : Direct f f state) {words : List UInt32}
    {post : Unit → PagingState → Prop} (hpost : ∀ now, Changes f state now → post () now)
    {sp : UInt32} {k : ℕ} {now : PagingState} (hchanges : Changes f state now)
    (hsp : sp.toNat = 4096 * f + 4 * k) (hlength : words.length ≤ k) (hk : k ≤ 1024) :
    wp (pushWords sp words) now post stopped := by
  induction words generalizing sp k now with
  | nil => exact hpost now hchanges
  | cons word rest ih =>
    rw [List.length_cons] at hlength
    have hfour : (4 : UInt32).toNat = 4 := rfl
    have hle : (4 : UInt32) ≤ sp := by
      rw [UInt32.le_iff_toNat_le]
      omega
    have hnext : (sp - 4).toNat = 4096 * f + 4 * (k - 1) := by
      rw [UInt32.toNat_sub_of_le _ _ hle]
      omega
    rw [pushWords, wp_bind]
    refine wp_storeWord (hdirect now hchanges _ (by omega)) ?_
    rw [hnext]
    exact ih (hchanges.trans (changes_storeWord now (by omega) word)) hnext (by omega) (by omega)

/-- proc_create_user finds a place for the task. -/
def CanCreate (procs : Processes) : Prop :=
  procs.numTasks < maxTasks ∧ (deadSlot procs).isSome = true

/-- A task was made with a stack in one frame and a directory in another. -/
structure TaskMade (kernel : KernelLayout) (state : PagingState) (roles : ℕ → Option FrameRole)
    (entry : UInt32) (name : CString) (stack dir : ℕ) (pid : ℤ) (state' : PagingState) : Prop where
  /-- The state stays sane. -/
  sane : Sane kernel state' (Function.update roles dir (some .directory))
  /-- A slot was free. -/
  can : CanCreate state.procs
  /-- The directory is a new frame. -/
  fresh : roles dir = none
  /-- It is not frame 0. -/
  dir_ne : frameAddress dir ≠ 0
  /-- The task has its directory and its stack. -/
  created : (pid, state'.procs) =
    Process.procCreateUser (frameAddress stack) (frameAddress dir) entry name state.procs
  /-- The stack is not frame 0. -/
  stack_ne : frameAddress stack ≠ 0
  /-- The directory shares the first 256 entries with that of the kernel. -/
  words : ∀ n < 1024, state'.words dir n =
    if n < 256 then state.words (frameOf state.kernelPageDir) n else 0x002
  /-- The frames stay, but for the tables of the identity mapping. -/
  kept : ∀ f role, roles f = some role → (∀ n < 2, role ≠ .table n) →
    ∀ a, a / 4096 = f → state'.memory a = state.memory a

/-- The mapping of a start-up stack at its own address. -/
theorem Sane.wp_mapStack (h : Sane kernel state roles) {f : ℕ} (hf : f < lowPages)
    (hok : kernel.ok f (makeEntry (frameAddress f) 0x007)) {post : Unit → PagingState → Prop}
    (hpost : ∀ now, Sane kernel now roles → now.pmm = state.pmm → now.granted = state.granted →
      now.procs = state.procs → now.kernelPageDir = state.kernelPageDir →
      (∀ g role, roles g = some role → (∀ n < 2, role ≠ .table n) →
        ∀ a, a / 4096 = g → now.memory a = state.memory a) → post () now) :
    wp (mapPage (frameAddress f) (frameAddress f) 0x007) state post stopped := by
  have hsmall : f < 2048 := hf
  have haddress := toNat_frameAddress (lt_trans hf (by decide : lowPages < 8192))
  have hindices := indices_eq (frameAddress f)
  have hn : directoryIndex (frameAddress f) < 2 := by omega
  have hdir := h.dirs.cr3
  have hpresent : state.tablesOf state.procs.cr3 (directoryIndex (frameAddress f)) = true := by
    have hshared := lt_of_lt_of_le hn kernel.two_le_tables
    rw [PagingState.tablesOf, h.shared hdir.role hshared (directoryIndex_lt _)]
    exact kernel.present_entry _ hshared
  obtain ⟨table, htable⟩ : ∃ table, frameOf (state.words (frameOf state.procs.cr3)
      (directoryIndex (frameAddress f))) = table := ⟨_, rfl⟩
  have hrole := Typed.table h.typed hdir.role (directoryIndex_lt _) hpresent
  rw [htable] at hrole
  obtain ⟨hlow, hframe⟩ := h.low _ _ hrole trivial
  have hboth := (h.withUse (h.lowFrame hdir)).withUse hframe
  have hi := tableIndex_lt (frameAddress f)
  have hpage : 1024 * directoryIndex (frameAddress f) + tableIndex (frameAddress f) = f := by omega
  simp only [mapPage, mapPageInDir, wp_bind, wp_getCr3]
  refine h.wp_pageTable_present hdir hpresent htable ?_
  refine hboth.wp_storeEntry (toNat_frameAddress (lt_trans hlow (by decide))) hlow hi ?_
  refine hpost _ ?_ rfl rfl rfl rfl fun g role hg hkeep a ha => ?_
  · refine hboth.setTable hrole hi (fun _ => ?_) fun hle _ => ?_
    · rw [hpage]
      exact hok
    · have hpages := kernel.lowPages_le
      omega
  · refine (changes_storeWord state hi (makeEntry (frameAddress f) 0x007)).bytes a (f := table) ?_
    intro heq
    rw [ha] at heq
    rw [heq, hrole] at hg
    exact hkeep _ hn (Option.some.inj hg).symm

/-- proc_create_user. With a free slot and a frame for the stack, the stack and the directory have
to lie below 8 MB, and the rules must allow the stack to be mapped for the task. -/
theorem Sane.wp_procCreateUser (h : Sane kernel state roles) (htables : kernel.tables ≤ 256)
    {entry : UInt32} {name : CString}
    (hready : CanCreate state.procs → state.pmm.frames.free ≠ 0 → 2 ≤ state.pmm.frames.low ∧
      ∀ p < lowPages, kernel.ok p (makeEntry (frameAddress p) 0x007))
    {post : ℤ → PagingState → Prop}
    (hmade : ∀ stack dir pid now, TaskMade kernel state roles entry name stack dir pid now →
      post pid now)
    (hfailed : ∀ now, Sane kernel now roles →
      ¬CanCreate state.procs ∨ state.pmm.frames.free = 0 → post (-1) now) :
    wp (procCreateUser entry name) state post stopped := by
  rw [procCreateUser, wp_bind, wp_get]
  by_cases hrefused : state.procs.numTasks ≥ maxTasks ∨ (deadSlot state.procs).isNone = true
  · refine wp_if_pos hrefused (hfailed state h (.inl fun hcan => ?_))
    rcases hrefused with hfull | hslot
    · exact absurd hcan.1 (not_lt.mpr hfull)
    · rw [Option.isNone_iff_eq_none] at hslot
      have hsome := hcan.2
      rw [hslot] at hsome
      exact Bool.false_ne_true hsome
  · refine wp_if_neg hrefused ?_
    have hcan : CanCreate state.procs := by
      obtain ⟨hfull, hslot⟩ := not_or.mp hrefused
      exact ⟨not_le.mp hfull, by simpa [Option.isNone_iff_eq_none, Option.isSome_iff_ne_none]
        using hslot⟩
    have hdirs : DirectoriesFrom (IsDirectory roles)
        (Process.procCreateUser 0 0 entry name state.procs).2 :=
      h.dirs.procCreateUser (fun hne => absurd rfl hne) entry name
    have hbegun := h.withProcs hdirs
    rw [wp_bind, wp_set, wp_bind]
    refine wp_pmmAlloc hbegun.ordered
      (fun hnone => wp_if_pos rfl (hfailed _ hbegun (.inr hnone)))
      fun stack htakes => wp_if_neg (frameAddress_ne_zero htakes.lt htakes.ne_zero) ?_
    obtain ⟨hgranted, hfresh⟩ := hbegun.grant htakes
    obtain ⟨htwo, hok⟩ := hready hcan (Nat.ne_of_gt htakes.positive)
    have hlow : 0 < state.pmm.frames.low := by omega
    have hsmall : stack < 2048 := htakes.low hlow
    have hnotable : ∀ role, roles stack = some role → ¬IsTable role :=
      fun role hrole => by cases hfresh.symm.trans hrole
    rw [wp_bind]
    refine hgranted.wp_mapStack hsmall (hok stack hsmall)
      fun mapped hmapped hpmm hlist hprocs hdir hkept => ?_
    have hframe : LowFrame mapped.granted (frameAddress stack) := by
      rw [hlist]
      exact htakes.lowFrame hlow
    have hused := hmapped.withUse hframe
    have htop : (frameAddress stack + 4096).toNat = 4096 * stack + 4 * 1024 := by
      have hfour : (4096 : UInt32).toNat = 4096 := rfl
      have haddress := toNat_frameAddress htakes.lt
      rw [UInt32.toNat_add, haddress, hfour, Nat.mod_eq_of_lt (by omega)]
    simp only [wp_bind, wp_useFrame]
    refine wp_pushWords (hused.direct hnotable hsmall) (fun pushed hpushed => ?_)
      (Changes.refl stack _) htop (by simp [initialFrame]) (Nat.le_refl _)
    have hsane := hused.changes hnotable hpushed
    have hframes : pushed.pmm.frames = state.pmm.frames.take := by
      rw [hpushed.pmm]
      exact (congrArg Pmm.frames hpmm).trans htakes.frames
    have hleft : 0 < pushed.pmm.frames.low := by
      rw [hframes]
      exact Nat.sub_pos_of_lt htwo
    -- the frames that had a role have kept their bytes
    have hold : ∀ g role, roles g = some role → (∀ n < 2, role ≠ .table n) →
        ∀ a, a / 4096 = g → pushed.memory a = state.memory a := by
      intro g role hg hkeep a ha
      refine (hpushed.bytes a ?_).trans (hkept g role hg hkeep a ha)
      rintro rfl
      rw [ha, hg] at hfresh
      cases hfresh
    have hkernelDir : pushed.kernelPageDir = state.kernelPageDir :=
      hpushed.kernelPageDir.trans hdir
    have hkernelWords : pushed.words (frameOf pushed.kernelPageDir) =
        state.words (frameOf state.kernelPageDir) := by
      rw [hkernelDir]
      exact frameWords_congr (hold _ _ h.kernelDir.role fun n _ => (by rintro ⟨⟩))
    refine hsane.wp_createUserPageDir htables hleft fun dir made hdirMade => ?_
    have hisDir := hdirMade.isDirectory
    have hne := (hdirMade.sane.lowFrame hisDir).ne_zero
    refine hmade stack dir _ _ ⟨?_, hcan, hdirMade.fresh, hne, rfl,
      frameAddress_ne_zero htakes.lt htakes.ne_zero, fun n hn => ?_, fun g role hg hkeep a ha => ?_⟩
    · refine hdirMade.sane.withProcs ((h.dirs.mono fun _ hd =>
        hd.mono (extends_update hdirMade.fresh _)).procCreateUser (fun _ => hisDir) entry name)
    · rw [← hkernelWords]
      exact hdirMade.words n hn
    · refine (hdirMade.bytes a ?_).trans (hold g role hg hkeep a ha)
      intro heq
      rw [← ha, heq] at hg
      cases hdirMade.fresh.symm.trans hg

end Creation

section Programs

/-- The part of cmd_exec that builds the address space: the directory, and whether all pages were
mapped. -/
def buildSpace (image : Elf.FormImage) : PagingM (UInt32 × Bool) := do
  let userPd ← createUserPageDir
  if userPd = 0 then pure (userPd, false)
  else
    let ok ← mapPages (fun v phys => mapPageInDir userPd v phys 0x007)
      (image.segments.flatMap (·.pages))
    pure (userPd, ok)

/-- elf_load in another directory. -/
def loadInto (userPd : UInt32) (image : Elf.FormImage) : PagingM (Option UInt32) := do
  let savedPd ← getCr3
  switchPageDir userPd
  let entry ← elfLoad image
  switchPageDir savedPd
  pure entry

/-- The end of cmd_exec, with an address space. -/
def startProgram (userPd : UInt32) (image : Elf.FormImage) (name : CString) :
    PagingM ExecOutcome := do
  match ← loadInto userPd image with
  | none => pure .loadFailed
  | some entry =>
    let pid ← procCreateUser entry name
    if pid < 0 then pure .taskFailed else pure (.started pid)

/-- cmd_exec, in its parts. -/
theorem cmdExec_eq (image : Elf.FormImage) (name : CString) :
    cmdExec image name =
      if image.size < Elf.elfHeaderSize then pure .invalidElf
      else if !Elf.elfValidate image.header then pure .notElf
      else buildSpace image >>= fun space =>
        if space.1 = 0 then pure .noPageDir
        else if !space.2 then pure .outOfMemory
        else startProgram space.1 image name := by
  rw [cmdExec]
  refine if_congr Iff.rfl rfl (if_congr Iff.rfl rfl ?_)
  simp only [buildSpace, loadInto, startProgram, bind_assoc, pure_bind]
  refine congrArg _ (funext fun userPd => ?_)
  by_cases hzero : userPd = 0
  · rw [if_pos hzero, if_pos hzero, pure_bind]
    exact (if_pos hzero).symm
  · rw [if_neg hzero, if_neg hzero, bind_assoc]
    refine congrArg _ (funext fun ok => ?_)
    rw [pure_bind]
    exact (if_neg hzero).symm

/-- The tables that a new directory has. -/
def PagingState.spaceTables (state : PagingState) : ℕ → Bool :=
  fun n => decide (n < 256) && state.tablesOf state.kernelPageDir n

/-- The entry that is read behind the end of a frame is not present. -/
theorem tablesOf_of_le (state : PagingState) (dir : UInt32) {n : ℕ} (hn : 1024 ≤ n) :
    state.tablesOf dir n = false := by
  rw [PagingState.tablesOf, PagingState.words, frameWords, if_neg (Nat.not_lt.mpr hn)]
  rfl

/-- The tables of a new directory. -/
theorem DirectoryMade.tablesOf {f : ℕ} (h : DirectoryMade kernel state roles f state') :
    state'.tablesOf (frameAddress f) = state.spaceTables := by
  have hframe := frameOf_frameAddress (lt_trans h.small (by decide : lowPages < 8192))
  funext n
  by_cases hn : n < 1024
  · rw [PagingState.tablesOf, hframe, h.words n hn, PagingState.spaceTables]
    by_cases hlt : n < 256
    · rw [if_pos hlt, decide_eq_true hlt]
      rfl
    · rw [if_neg hlt, decide_eq_false hlt]
      rfl
  · have hbehind := Nat.le_of_not_lt hn
    rw [tablesOf_of_le state' _ hbehind, PagingState.spaceTables, tablesOf_of_le state _ hbehind,
      Bool.and_false]

/-- The address space of a program was built. -/
structure SpaceBuilt (kernel : KernelLayout) (state : PagingState)
    (roles : ℕ → Option FrameRole) (userPd : UInt32) (now : PagingState)
    (roles' : ℕ → Option FrameRole) : Prop where
  /-- The state stays sane. -/
  sane : Sane kernel now roles'
  /-- There is a directory. -/
  dir : IsDirectory roles' userPd
  /-- The tasks stay. -/
  procs : now.procs = state.procs
  /-- The directory of the kernel stays. -/
  kernelPageDir : now.kernelPageDir = state.kernelPageDir
  /-- The directory of the kernel has not changed. -/
  kernelWords : now.words (frameOf state.kernelPageDir) = state.words (frameOf state.kernelPageDir)
  /-- The new directory has the tables of the kernel. -/
  shared : ∀ n < 256, state.tablesOf state.kernelPageDir n = true →
    now.words (frameOf userPd) n = state.words (frameOf state.kernelPageDir) n

/-- A new directory and the pages that were mapped in it. -/
theorem DirectoryMade.spaceBuilt {f : ℕ} {made now : PagingState}
    (hmade : DirectoryMade kernel state roles f made)
    (hkernelDir : IsDirectory roles state.kernelPageDir)
    (hsane : Sane kernel now roles')
    (hmapped : Mapped (frameAddress f) made (Function.update roles f (some .directory)) now roles') :
    SpaceBuilt kernel state roles (frameAddress f) now roles' := by
  have hframe := frameOf_frameAddress (lt_trans hmade.small (by decide : lowPages < 8192))
  have hne : frameOf state.kernelPageDir ≠ f := by
    intro heq
    have hfresh := hmade.fresh
    rw [← heq, hkernelDir.role] at hfresh
    exact nomatch hfresh
  have hkernel : made.words (frameOf state.kernelPageDir) =
      state.words (frameOf state.kernelPageDir) :=
    frameWords_congr fun a ha => hmade.bytes a (ha ▸ hne)
  refine ⟨hsane, hmade.isDirectory.mono hmapped.roles_mono, hmapped.procs.trans hmade.procs,
    hmapped.kernelPageDir.trans hmade.kernelPageDir, ?_, fun n hn hpresent => ?_⟩
  · refine (hmapped.directories _ ?_ ?_).trans hkernel
    · exact extends_update hmade.fresh _ _ _ hkernelDir.role
    · rwa [hframe]
  · have htable : made.tablesOf (frameAddress f) n = true := by
      rw [hmade.tablesOf, PagingState.spaceTables, decide_eq_true hn, hpresent]
      rfl
    rw [hmapped.own n htable, hframe, hmade.words n (by omega), if_pos hn]

/-- The address space is built, with frames for its tables below 8 MB. -/
theorem Sane.wp_buildSpace (h : Sane kernel state roles) (hkernel : kernel.pages ≤ 2304)
    (htables : kernel.tables ≤ 256) {image : Elf.FormImage} (hlow : 0 < state.pmm.frames.low)
    {done : Frames → (ℕ → Bool) → Prop}
    (hsafe : SafePages done state.pmm.frames.take state.spaceTables
      (image.segments.flatMap (·.pages)))
    {post : UInt32 × Bool → PagingState → Prop}
    (hpost : ∀ made f ok now roles', SpaceBuilt kernel state roles (frameAddress f) now roles' →
      made.pmm.frames = state.pmm.frames.take →
      PagesMapped kernel made (Function.update roles f (some .directory)) (frameAddress f)
        (image.segments.flatMap (·.pages)) ok now roles' →
      (ok = true → done now.pmm.frames (now.tablesOf (frameAddress f))) →
      post (frameAddress f, ok) now) :
    wp (buildSpace image) state post stopped := by
  rw [buildSpace, wp_bind]
  refine h.wp_createUserPageDir htables hlow fun f made hmade => ?_
  have hdir := hmade.isDirectory
  refine wp_if_neg (hmade.sane.lowFrame hdir).ne_zero ?_
  rw [← hmade.frames, ← hmade.tablesOf] at hsafe
  rw [wp_bind]
  exact Sane.wp_mapPages hkernel (by decide) (fun _ _ _ _ => rfl) hmade.sane hdir rfl hsafe
    fun ok now roles' hrun hdone => hpost made f ok now roles'
      (hmade.spaceBuilt h.kernelDir hrun.sane hrun.mapped) hmade.frames hrun hdone

/-- A program was stored through its directory. -/
structure Loaded (roles : ℕ → Option FrameRole) (image : Elf.FormImage) (userPd : UInt32)
    (mapped loaded : PagingState) : Prop where
  /-- The tasks stay. -/
  procs : loaded.procs = mapped.procs
  /-- The directory of the kernel stays. -/
  kernelPageDir : loaded.kernelPageDir = mapped.kernelPageDir
  /-- The allocator stays. -/
  pmm : loaded.pmm = mapped.pmm
  /-- The tables stay. -/
  tables : ∀ f role, roles f = some role → IsTable role → loaded.words f = mapped.words f
  /-- What is stored is mapped. -/
  hits : ∀ store ∈ image.stores, (X86.translate mapped.words userPd store.1).isSome = true
  /-- Each byte is the last one stored to it. -/
  bytes : ∀ v address, kernelTop ≤ v → X86.translate mapped.words userPd v = some address →
    loaded.memory address = (lastByte image.stores v).getD (mapped.memory address)

/-- elf_load in another directory, when it stores outside the kernel. -/
theorem Sane.wp_loadInto (h : Sane kernel state roles) (hkernel : kernel.pages ≤ 2304)
    {userPd : UInt32} (hdir : IsDirectory roles userPd) {image : Elf.FormImage}
    (hvalid : Elf.elfValidate image.header = true)
    (hstores : ∀ store ∈ image.stores, kernelTop ≤ store.1)
    {post : Option UInt32 → PagingState → Prop}
    (hpost : ∀ loaded, Sane kernel loaded roles → Loaded roles image userPd state loaded →
      post (some image.header.entry) loaded)
    (hstopped : ∀ now, Sane kernel now roles →
      (∃ store ∈ image.stores, X86.translate state.words userPd store.1 = none) → stopped now) :
    wp (loadInto userPd image) state post stopped := by
  have hne := (h.lowFrame hdir).ne_zero
  have hsaved := (h.lowFrame h.dirs.cr3).ne_zero
  have hthere : Sane kernel { state with procs := { state.procs with cr3 := userPd } } roles :=
    h.withProcs ⟨hdir, h.dirs.tasks⟩
  simp only [loadInto, switchPageDir, if_pos hne, elfLoad, if_pos hvalid, wp_bind, wp_getCr3,
    wp_setCr3, wp_pure]
  refine Sane.wp_storeBytes hkernel hthere hstores (fun now hnow hstored => ?_)
    fun now hnow hfault => ?_
  on_goal 2 =>
    obtain ⟨store, hstore, hnone⟩ := hfault
    exact hstopped now hnow ⟨store, hstore, (hthere.translate_eq _).symm.trans hnone⟩
  simp only [if_pos hsaved, wp_setCr3]
  have hprocs : { now.procs with cr3 := state.procs.cr3 } = state.procs := by
    rw [hstored.rest]
    rfl
  rw [hprocs]
  refine hpost _ (hnow.withProcs h.dirs) ⟨rfl, ?_, ?_, hstored.tables, fun store hstore => ?_,
    fun v address hv haddress => ?_⟩
  · rw [hstored.rest]
    rfl
  · rw [hstored.rest]
    rfl
  · have hhit := hstored.hits store hstore
    rwa [hthere.translate_eq] at hhit
  · exact hstored.bytes v address hv ((hthere.translate_eq v).trans haddress)

/-- A program that cmd_exec refuses, or that it maps and stores outside the kernel with frames for
its tables below 8 MB; and what holds of the allocator before a task is created. -/
def SafeExec (start : Frames → Prop) (image : Elf.FormImage) (state : PagingState) : Prop :=
  Elf.elfHeaderSize ≤ image.size → Elf.elfValidate image.header = true →
    0 < state.pmm.frames.low ∧
    SafePages (fun frames _ => (∀ store ∈ image.stores, kernelTop ≤ store.1) ∧
        (CanCreate state.procs → frames.free ≠ 0 → start frames))
      state.pmm.frames.take state.spaceTables (image.segments.flatMap (·.pages))

/-- A task was started for a program. -/
structure ProgramStarted (kernel : KernelLayout) (state : PagingState)
    (roles : ℕ → Option FrameRole) (image : Elf.FormImage) (name : CString) (userPd : UInt32)
    (mapped : PagingState) (pid : ℤ) (now : PagingState) : Prop where
  /-- The directory was made and the pages mapped. -/
  run : exec (buildSpace image) state = (.ok (userPd, true), mapped)
  /-- What is stored lies behind the kernel. -/
  stores : ∀ store ∈ image.stores, kernelTop ≤ store.1
  /-- The bytes were stored, and a task was made. -/
  parts : ∃ roles' loaded stack dir, SpaceBuilt kernel state roles userPd mapped roles' ∧
    Sane kernel loaded roles' ∧ Loaded roles' image userPd mapped loaded ∧
    TaskMade kernel loaded roles' image.header.entry name stack dir pid now

theorem ProgramStarted.sane {image : Elf.FormImage} {name : CString} {userPd : UInt32}
    {mapped now : PagingState} {pid : ℤ}
    (h : ProgramStarted kernel state roles image name userPd mapped pid now) :
    ∃ roles', Sane kernel now roles' := by
  have ⟨_, _, _, _, _, _, _, hmade⟩ := h.parts
  exact ⟨_, hmade.sane⟩

/-- The end of cmd_exec. -/
theorem SpaceBuilt.wp_startProgram {userPd : UInt32} {mapped : PagingState}
    (h : SpaceBuilt kernel state roles userPd mapped roles') (hkernel : kernel.pages ≤ 2304)
    (htables : kernel.tables ≤ 256) {image : Elf.FormImage} {name : CString}
    (hvalid : Elf.elfValidate image.header = true)
    (hrun : exec (buildSpace image) state = (.ok (userPd, true), mapped))
    (hstores : ∀ store ∈ image.stores, kernelTop ≤ store.1)
    (hready : CanCreate state.procs → mapped.pmm.frames.free ≠ 0 → 2 ≤ mapped.pmm.frames.low ∧
      ∀ p < lowPages, kernel.ok p (makeEntry (frameAddress p) 0x007))
    {post : ExecOutcome → PagingState → Prop}
    (hstarted : ∀ pid now, ProgramStarted kernel state roles image name userPd mapped pid now →
      post (.started pid) now)
    (hfailed : ∀ now, (∃ roles', Sane kernel now roles') → post .taskFailed now)
    (hstopped : ∀ now, (∃ roles', Sane kernel now roles') → stopped now) :
    wp (startProgram userPd image name) mapped post stopped := by
  rw [startProgram, wp_bind]
  refine h.sane.wp_loadInto hkernel h.dir hvalid hstores (fun loaded hloaded hload => ?_)
    fun now hnow _ => hstopped now ⟨_, hnow⟩
  show wp (procCreateUser image.header.entry name >>= _) _ _ _
  rw [wp_bind]
  refine hloaded.wp_procCreateUser htables ?_ (fun stack dir pid now hmade => ?_) fun now hnow _ =>
    wp_if_pos (by decide) (hfailed now ⟨_, hnow⟩)
  · rw [hload.procs, h.procs, hload.pmm]
    exact hready
  · by_cases hpid : pid < 0
    · exact wp_if_pos hpid (hfailed now ⟨_, hmade.sane⟩)
    · exact wp_if_neg hpid
        (hstarted pid now ⟨hrun, hstores, _, loaded, stack, dir, h, hloaded, hload, hmade⟩)

/-- cmd_exec keeps the rules of the page tables. -/
theorem Sane.wp_cmdExec (h : Sane kernel state roles) (hkernel : kernel.pages ≤ 2304)
    (htables : kernel.tables ≤ 256) {image : Elf.FormImage} {name : CString} {start : Frames → Prop}
    (hsafe : SafeExec start image state)
    (hstart : ∀ frames, start frames → 2 ≤ frames.low ∧
      ∀ p < lowPages, kernel.ok p (makeEntry (frameAddress p) 0x007))
    {post : ExecOutcome → PagingState → Prop}
    (hstarted : ∀ userPd mapped pid now,
      ProgramStarted kernel state roles image name userPd mapped pid now → post (.started pid) now)
    (hrest : ∀ outcome now, (∃ roles', Sane kernel now roles') → (∀ pid, outcome ≠ .started pid) →
      post outcome now)
    (hstopped : ∀ now, (∃ roles', Sane kernel now roles') → stopped now) :
    wp (cmdExec image name) state post stopped := by
  rw [cmdExec_eq]
  by_cases hshort : image.size < Elf.elfHeaderSize
  · exact wp_if_pos hshort (hrest _ _ ⟨_, h⟩ nofun)
  · refine wp_if_neg hshort ?_
    by_cases hvalid : Elf.elfValidate image.header = true
    · refine wp_if_neg (by simp [hvalid]) ?_
      have ⟨hlow, hpages⟩ := hsafe (UInt32.not_lt.mp hshort) hvalid
      have hbuild : wp (buildSpace image) state (fun space now =>
          ∃ roles', SpaceBuilt kernel state roles space.1 now roles' ∧ (space.2 = true →
            (∀ store ∈ image.stores, kernelTop ≤ store.1) ∧
              (CanCreate state.procs → now.pmm.frames.free ≠ 0 → start now.pmm.frames)))
          stopped :=
        h.wp_buildSpace hkernel htables hlow hpages
          fun _ _ ok now roles' hbuilt _ _ hdone => ⟨roles', hbuilt, hdone⟩
      rw [wp_bind]
      refine wp_mono (wp_exec hbuild) (fun ⟨userPd, ok⟩ mapped ⟨hrun, roles', hbuilt, hdone⟩ => ?_)
        fun _ hstop => hstop
      refine wp_if_neg (hbuilt.sane.lowFrame hbuilt.dir).ne_zero ?_
      cases ok with
      | false => exact wp_if_pos rfl (hrest _ _ ⟨_, hbuilt.sane⟩ nofun)
      | true =>
        have ⟨hstores, hcreate⟩ := hdone rfl
        exact wp_if_neg Bool.false_ne_true (hbuilt.wp_startProgram hkernel htables hvalid hrun hstores
          (fun hcan hfree => hstart _ (hcreate hcan hfree)) (hstarted userPd mapped)
          (fun now hnow => hrest _ now hnow nofun) hstopped)
    · exact wp_if_pos (by simp [hvalid]) (hrest _ _ ⟨_, h⟩ nofun)

end Programs

end HexaOS.Paging
