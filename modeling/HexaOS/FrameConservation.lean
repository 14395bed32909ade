import HexaOS.FrameAllocation
import HexaOS.PageMapping

/-!
# The frames of mapped ranges

sys_mmap takes a frame for each page and one for each table that is missing; sys_munmap takes
the pages away and gives no frame back, and a sys_mmap that runs out of frames leaves the pages
that it has mapped. So the free frames come back, but for those of tables, only where no page
was mapped at all.
-/

namespace HexaOS.Paging

open X86 Process StepRuns

section Counting

variable {tables before after : ℕ → Bool}

/-- The number of tables of a directory. -/
def tableCount (tables : ℕ → Bool) : ℕ :=
  ((Finset.range 1024).filter fun n => tables n = true).card

/-- The number of tables that a directory did not have. -/
def newTables (before after : ℕ → Bool) : ℕ :=
  ((Finset.range 1024).filter fun n => after n = true ∧ before n = false).card

theorem newTables_self : newTables tables tables = 0 := by
  rw [newTables, Finset.card_eq_zero, Finset.filter_eq_empty_iff]
  intro n _ hboth
  rw [hboth.1] at hboth
  exact absurd hboth.2 (by decide)

/-- Where no table goes away, the new ones are the difference. -/
theorem tableCount_eq (h : ∀ n, before n = true → after n = true) :
    tableCount after = tableCount before + newTables before after := by
  have hdisjoint : Disjoint ((Finset.range 1024).filter fun n => before n = true)
      ((Finset.range 1024).filter fun n => after n = true ∧ before n = false) := by
    refine Finset.disjoint_filter.mpr fun n _ hold hnew => ?_
    rw [hold] at hnew
    exact absurd hnew.2 (by decide)
  rw [tableCount, tableCount, newTables, ← Finset.card_union_of_disjoint hdisjoint]
  refine congrArg Finset.card (Finset.ext fun n => ?_)
  simp only [Finset.mem_union, Finset.mem_filter, Finset.mem_range]
  cases hn : before n with
  | true => simp [h n hn]
  | false => simp

/-- One more table. -/
theorem tableCount_update {n : ℕ} (hn : n < 1024) (habsent : tables n = false) :
    tableCount (Function.update tables n true) = tableCount tables + 1 := by
  have hold : n ∉ (Finset.range 1024).filter fun n => tables n = true := by
    simp [habsent]
  rw [tableCount, tableCount, ← Finset.card_insert_of_notMem hold]
  refine congrArg Finset.card (Finset.ext fun m => ?_)
  simp only [Finset.mem_insert, Finset.mem_filter, Finset.mem_range]
  by_cases hm : m = n
  · rw [hm, Function.update_self]
    simp [hn]
  · rw [Function.update_of_ne hm]
    simp [hm]

/-- The frames that go are those of the pages and those of the new tables. -/
theorem framesAfter_conserves {done : Frames → (ℕ → Bool) → Prop} {vs : List UInt32}
    {frames : Frames} {tables : ℕ → Bool} (hle : frames.low ≤ frames.free)
    (hsafe : SafePages done frames tables vs) :
    ∃ pages, frames.free + tableCount tables = (framesAfter frames tables vs).1.free +
      tableCount (framesAfter frames tables vs).2 + pages ∧
        (pages = 0 ↔ vs = [] ∨ frames.free = 0) := by
  induction vs generalizing frames tables with
  | nil => exact ⟨0, (Nat.add_zero _).symm, iff_of_true rfl (.inl rfl)⟩
  | cons v rest ih =>
    by_cases hnone : frames.free = 0
    · refine ⟨0, ?_, iff_of_true rfl (.inr hnone)⟩
      rw [framesAfter, if_pos hnone]
      exact (Nat.add_zero _).symm
    obtain ⟨_, hlow, hrest⟩ := hsafe.step hnone
    have hlow' : tables (directoryIndex v) = false → 0 < frames.low - 1 := hlow
    obtain ⟨next, hnext⟩ : ∃ next,
        (if tables (directoryIndex v) then frames.take else frames.take.take) = next := ⟨_, rfl⟩
    rw [hnext] at hrest
    -- the page takes one frame, and a table that is missing another
    have hone : next.low ≤ next.free ∧ frames.free + tableCount tables =
        next.free + tableCount (Function.update tables (directoryIndex v) true) + 1 := by
      cases htable : tables (directoryIndex v) with
      | true =>
        have hsame : Function.update tables (directoryIndex v) true = tables := by
          rw [← htable, Function.update_eq_self]
        rw [if_pos htable] at hnext
        rw [← hnext, hsame]
        show frames.low - 1 ≤ frames.free - 1 ∧ _ = frames.free - 1 + _ + 1
        omega
      | false =>
        have htwo := hlow' htable
        rw [if_neg (by rw [htable]; exact Bool.false_ne_true)] at hnext
        rw [← hnext, tableCount_update (directoryIndex_lt v) htable]
        show frames.low - 1 - 1 ≤ frames.free - 1 - 1 ∧ _ = frames.free - 1 - 1 + _ + 1
        omega
    obtain ⟨pages, hpages, -⟩ := ih hone.1 hrest
    refine ⟨pages + 1, ?_, iff_of_false (Nat.succ_ne_zero pages) ?_⟩
    · rw [framesAfter, if_neg hnone, hnext]
      omega
    · rintro (hnil | hzero)
      · cases hnil
      · exact hnone hzero

/-- Where frames are taken upwards the free ones all lie behind the last one. -/
theorem Pmm.Ordered.countFree_eq {pmm : Pmm} (h : pmm.Ordered) :
    pmmCountFree pmm = pmm.frames.free := by
  show pmm.freeIn 1 pmm.maxPage = pmm.freeIn pmm.lastAlloc pmm.maxPage
  by_cases hfirst : 1 ≤ pmm.lastAlloc
  · by_cases hlast : pmm.lastAlloc ≤ pmm.maxPage
    · have hused : pmm.freeIn 1 pmm.lastAlloc = 0 :=
        Pmm.freeIn_eq_zero fun page _ hlt => h.taken page hlt
      rw [Pmm.freeIn_add hfirst hlast, hused, Nat.zero_add]
    · rw [Pmm.freeIn_eq_zero fun page _ hlt => h.taken page (by omega),
        Pmm.freeIn_eq_zero fun page hle hlt => h.beyond page (by omega)]
  · have hzero : pmm.lastAlloc = 0 := by omega
    have hnone : pmm.freeIn 0 1 = 0 := Pmm.freeIn_eq_zero fun page _ hlt => by
      rw [(by omega : page = 0)]
      exact h.zero
    rw [hzero]
    by_cases hmax : 1 ≤ pmm.maxPage
    · rw [Pmm.freeIn_add (Nat.zero_le 1) hmax, hnone, Nat.zero_add]
    · rw [(by omega : pmm.maxPage = 0)]
      rfl

end Counting

/-- The calls of a program that map and unmap pages. -/
inductive MapCall where
  /-- sys_mmap -/
  | mmap (addr len : UInt32)
  /-- sys_munmap -/
  | munmap (addr len : UInt32)

/-- The state between the calls, with what they did so far. -/
structure MapHistory where
  /-- The state behind the calls. -/
  state : PagingState
  /-- The pages of the ranges that were mapped and have not been unmapped since. -/
  live : List UInt32
  /-- Was a frame free at a call of sys_mmap for a range that is not empty? -/
  found : Bool

/-- Before the calls. -/
def MapHistory.start (state : PagingState) : MapHistory := ⟨state, [], false⟩

/-- The ranges that are mapped after a sys_mmap. -/
def liveAfter (live : List UInt32) (addr len : UInt32) : Except UInt32 UInt32 → List UInt32
  | .ok value =>
    if value = sysEinval ∨ value = sysEnomem then live
    else live ++ rangePages (mmapStart addr) len
  | .error _ => live

/-- What a call does. -/
def MapCall.after : MapCall → MapHistory → MapHistory
  | .mmap addr len, history =>
    { state := (exec (sysMmap addr len) history.state).2
      live := liveAfter history.live addr len (exec (sysMmap addr len) history.state).1
      found := history.found || decide (len ≠ 0 ∧ pmmCountFree history.state.pmm ≠ 0) }
  | .munmap addr len, history =>
    { history with
      state := (exec (sysMunmap addr len) history.state).2
      live := history.live.filter fun v => v ∉ rangePages addr len }

/-- A range of pages behind the kernel that ends within the address space. -/
structure UserRange (addr len : UInt32) : Prop where
  /-- The range begins at a page. -/
  aligned : addr.toNat % 4096 = 0
  /-- It lies behind the kernel. -/
  user : kernelTop ≤ addr
  /-- It does not wrap. -/
  inside : addr.toNat + (len.toNat + 4095) / 4096 * 4096 < 2 ^ 32

/-- The calls on such ranges, while the frames that map_page takes for tables lie below 8 MB. -/
def MapCall.Allowed (call : MapCall) (history : MapHistory) : Prop :=
  match call with
  | mmap addr len => UserRange (mmapStart addr) len ∧
      PagingCall.Safe (fun _ => False) (.mmap addr len) history.state
  | munmap addr len => UserRange addr len

/-- The tables of the directory in cr3. -/
def PagingState.ownTables (state : PagingState) : ℕ → Bool := state.tablesOf state.procs.cr3

/-- The free frames are as they were, but for those of new tables. -/
def FreeButTables (before after : PagingState) : Prop :=
  pmmCountFree before.pmm = pmmCountFree after.pmm + newTables before.ownTables after.ownTables

/-- The translations and the free frames are as they were, but for new tables. -/
structure SameButTables (before after : PagingState) : Prop where
  /-- Every walk finds the same. -/
  walks : ∀ dir v, walk after.words dir v = walk before.words dir v
  /-- The free frames are the same but for tables. -/
  free : FreeButTables before after

/-- A sys_mmap that fails changes nothing but tables, and when all ranges are unmapped the frames
are back but for those of tables. -/
structure MapCall.Conserves (start : PagingState) (call : MapCall) (history : MapHistory) :
    Prop where
  /-- A failed sys_mmap changes nothing but tables. -/
  failed : ∀ addr len after, call = .mmap addr len →
    exec (sysMmap addr len) history.state = (.ok sysEnomem, after) →
      SameButTables history.state after
  /-- When nothing is mapped, the frames are back. -/
  unmapped : (call.after history).live = [] → FreeButTables start (call.after history).state

/-- A sys_mmap whose frames do not suffice finds none at all, and when all ranges are unmapped
none was ever found. -/
structure MapCall.Harmless (call : MapCall) (history : MapHistory) : Prop where
  /-- A sys_mmap that fails finds no frame at all. -/
  whole : ∀ addr len, call = .mmap addr len → len ≠ 0 →
    OutOfFrames history.state.pmm.frames history.state.ownTables
      (rangePages (mmapStart addr) len) → pmmCountFree history.state.pmm = 0
  /-- When nothing is mapped, no frame was ever taken. -/
  unused : (call.after history).live = [] → (call.after history).found = false

section Ranges

variable {addr len : UInt32}

theorem UserRange.toNat_roundedLen (h : UserRange addr len) :
    (roundedLen len).toNat = (len.toNat + 4095) / 4096 * 4096 := by
  have hinside := h.inside
  have hsum : (len + 0xFFF).toNat = len.toNat + 4095 := by
    rw [UInt32.toNat_add]
    exact Nat.mod_eq_of_lt (by simp only [UInt32.reduceToNat]; omega)
  rw [roundedLen, toNat_pageOf, hsum]

/-- The last address of the range does not wrap. -/
theorem UserRange.toNat_end (h : UserRange addr len) :
    (addr + roundedLen len).toNat = addr.toNat + (len.toNat + 4095) / 4096 * 4096 := by
  rw [UInt32.toNat_add, h.toNat_roundedLen]
  exact Nat.mod_eq_of_lt h.inside

theorem UserRange.mem_rangePages (h : UserRange addr len) {v : UInt32} :
    v ∈ rangePages addr len ↔
      addr ≤ v ∧ v < addr + roundedLen len ∧ v.toNat % 4096 = addr.toNat % 4096 := by
  refine Elf.mem_pageAddresses ?_
  rw [h.toNat_end]
  omega

theorem UserRange.rangePages_ne_nil (h : UserRange addr len) (hlen : len ≠ 0) :
    rangePages addr len ≠ [] := by
  have hbyte : len.toNat ≠ 0 := fun hzero => hlen (UInt32.toNat_inj.mp hzero)
  have hmem : addr ∈ rangePages addr len := by
    refine h.mem_rangePages.mpr ⟨UInt32.le_refl _, ?_, rfl⟩
    rw [UInt32.lt_iff_toNat_lt, h.toNat_end]
    omega
  exact List.ne_nil_of_mem hmem

theorem UserRange.kernelTop_le (h : UserRange addr len) :
    ∀ v ∈ rangePages addr len, kernelTop ≤ v :=
  fun _ hv => UInt32.le_trans h.user (h.mem_rangePages.mp hv).1

end Ranges

section Calls

variable {kernel : KernelLayout} {state start : PagingState} {roles : ℕ → Option FrameRole}
  {history : MapHistory} {call : MapCall} {addr len : UInt32}

theorem SameButTables.refl (state : PagingState) : SameButTables state state := by
  refine ⟨fun _ _ => rfl, ?_⟩
  rw [FreeButTables, newTables_self, Nat.add_zero]

/-- What a sys_mmap for a range that is not empty does. -/
structure MmapDone (kernel : KernelLayout) (state : PagingState) (addr len : UInt32) (ok : Bool)
    (now : PagingState) : Prop where
  /-- The state stays sane. -/
  sane : ∃ roles', Sane kernel now roles'
  /-- The tasks stay. -/
  procs : now.procs = state.procs
  /-- The call returns its start or an error. -/
  result : exec (sysMmap addr len) state = (.ok (if ok then mmapStart addr else sysEnomem), now)
  /-- It fails exactly when the frames do not suffice. -/
  ok_iff : ok = false ↔ OutOfFrames state.pmm.frames state.ownTables (rangePages (mmapStart addr) len)
  /-- Without frames nothing changes. -/
  none : pmmCountFree state.pmm = 0 → now = state
  /-- No table goes away. -/
  tables : ∀ n, state.ownTables n = true → now.ownTables n = true
  /-- The frames of the pages are taken, and those of the new tables. -/
  pages : ∃ pages, pmmCountFree state.pmm + tableCount state.ownTables =
    pmmCountFree now.pmm + tableCount now.ownTables + pages ∧
      (pages = 0 ↔ pmmCountFree state.pmm = 0)

theorem Sane.mmapDone (h : Sane kernel state roles) (hkernel : kernel.pages ≤ 2304)
    (hrange : UserRange (mmapStart addr) len) (hlen : len ≠ 0)
    (hsafe : PagingCall.Safe (fun _ => False) (.mmap addr len) state) :
    ∃ ok now, MmapDone kernel state addr len ok now := by
  have hrun : wp (sysMmap addr len) state (fun value now => ∃ ok roles',
      value = (if ok then mmapStart addr else sysEnomem) ∧
        PagesMapped kernel state roles state.procs.cr3 (rangePages (mmapStart addr) len) ok now
          roles') fun _ => False :=
    h.wp_sysMmap_pages hkernel hsafe (fun hzero => absurd hzero hlen)
      fun _ ok now roles' hmapped => ⟨ok, roles', rfl, hmapped⟩
  have ⟨value, now, hexec, ok, roles', hvalue, hmapped⟩ := exists_of_wp hrun
  have hprocs : now.procs = state.procs := hmapped.mapped.procs
  have hown : now.ownTables = now.tablesOf state.procs.cr3 := by
    rw [PagingState.ownTables, hprocs]
  have hcount := h.ordered.countFree_eq
  have hcount' := hmapped.sane.ordered.countFree_eq
  have ⟨pages, hpages, hzero⟩ := framesAfter_conserves h.ordered.low_le (hsafe hlen)
  rw [← hmapped.after] at hpages
  refine ⟨ok, now, ⟨⟨roles', hmapped.sane⟩, hprocs, hvalue ▸ hexec, hmapped.out_iff, fun hnone => ?_,
    fun n hn => ?_, pages, ?_, ?_⟩⟩
  · exact hmapped.none (hcount ▸ hnone)
  · rw [hown]
    exact hmapped.mapped.tablesOf hn
  · rw [hcount, hcount', hown]
    exact hpages
  · rw [hcount]
    exact hzero.trans (or_iff_right (hrange.rangePages_ne_nil hlen))

/-- A sys_munmap of a user range takes and gives no frame. -/
theorem Sane.munmapDone (h : Sane kernel state roles) (hkernel : kernel.pages ≤ 2304)
    (hrange : UserRange addr len) :
    Unmapped kernel state roles (exec (sysMunmap addr len) state).2 := by
  have hrun : wp (sysMunmap addr len) state (fun _ now => Unmapped kernel state roles now)
      fun now => Unmapped kernel state roles now := by
    rw [sysMunmap, wp_bind]
    exact h.wp_unmapPages hkernel hrange.kernelTop_le fun now hnow => hnow
  exact wp_state hrun

/-- What holds between the calls: each frame that has gone from the free ones is one of a table
or one of a page. -/
structure MapHistory.Kept (kernel : KernelLayout) (start : PagingState) (history : MapHistory) :
    Prop where
  /-- The state is sane. -/
  sane : ∃ roles, Sane kernel history.state roles
  /-- The tasks stay. -/
  procs : history.state.procs = start.procs
  /-- No table goes away. -/
  tables : ∀ n, start.ownTables n = true → history.state.ownTables n = true
  /-- A frame that has gone is one of a table or one of a page. -/
  pages : ∃ pages, pmmCountFree start.pmm + tableCount start.ownTables =
    pmmCountFree history.state.pmm + tableCount history.state.ownTables + pages ∧
      (pages = 0 ↔ history.found = false)

theorem MapHistory.kept_start (h : Sane kernel start roles) :
    (MapHistory.start start).Kept kernel start :=
  ⟨⟨roles, h⟩, rfl, fun _ hn => hn, 0, (Nat.add_zero _).symm, iff_of_true rfl rfl⟩

/-- The call without a range. -/
theorem exec_sysMmap_zero (addr : UInt32) (state : PagingState) :
    exec (sysMmap addr 0) state = (.ok sysEinval, state) := by
  rw [sysMmap, if_pos rfl]
  rfl

theorem MapHistory.Kept.after (h : history.Kept kernel start) (hkernel : kernel.pages ≤ 2304)
    (hallowed : call.Allowed history) : (call.after history).Kept kernel start := by
  have ⟨roles, hsane⟩ := h.sane
  have ⟨before, hbefore, hzero⟩ := h.pages
  cases call with
  | munmap addr len =>
    have hdone := hsane.munmapDone hkernel hallowed
    refine ⟨⟨roles, hdone.sane⟩, hdone.procs.trans h.procs, fun n hn => ?_, before, ?_, hzero⟩
    · exact (congrFun hdone.tables n).trans (h.tables n hn)
    · show _ = pmmCountFree (exec (sysMunmap addr len) history.state).2.pmm +
        tableCount (exec (sysMunmap addr len) history.state).2.ownTables + before
      have htables : (exec (sysMunmap addr len) history.state).2.ownTables =
        history.state.ownTables := hdone.tables
      rw [hdone.pmm, htables]
      exact hbefore
  | mmap addr len =>
    by_cases hlen : len = 0
    · subst hlen
      have hexec := exec_sysMmap_zero addr history.state
      refine ⟨⟨roles, ?_⟩, ?_, fun n hn => ?_, before, ?_, ?_⟩
      · rw [MapCall.after, hexec]
        exact hsane
      · rw [MapCall.after, hexec]
        exact h.procs
      · rw [MapCall.after, hexec]
        exact h.tables n hn
      · rw [MapCall.after, hexec]
        exact hbefore
      · simp [MapCall.after, hzero]
    · have ⟨ok, now, hdone⟩ := hsane.mmapDone hkernel hallowed.1 hlen hallowed.2
      have hstate : (MapCall.after (.mmap addr len) history).state = now := by
        rw [MapCall.after, hdone.result]
      have ⟨more, hmore, hmoreZero⟩ := hdone.pages
      refine ⟨?_, ?_, fun n hn => ?_, before + more, ?_, ?_⟩
      · rw [hstate]
        exact hdone.sane
      · rw [hstate]
        exact hdone.procs.trans h.procs
      · rw [hstate]
        exact hdone.tables n (h.tables n hn)
      · rw [hstate]
        omega
      · rw [Nat.add_eq_zero_iff, hzero, hmoreZero]
        simp [MapCall.after, hlen]

/-- The frames are back but for those of tables when none was taken for a page. -/
theorem MapHistory.Kept.freeButTables_iff (h : history.Kept kernel start) :
    FreeButTables start history.state ↔ history.found = false := by
  have ⟨pages, hpages, hzero⟩ := h.pages
  have hcount := tableCount_eq h.tables
  rw [← hzero, FreeButTables]
  constructor
  · intro hsame
    omega
  · intro hnone
    omega

/-- A failed sys_mmap has changed nothing but tables exactly when no frame was free. -/
theorem Sane.mmapFailed_iff (h : Sane kernel state roles) (hkernel : kernel.pages ≤ 2304)
    (hrange : UserRange (mmapStart addr) len)
    (hsafe : PagingCall.Safe (fun _ => False) (.mmap addr len) state) :
    (∀ after, exec (sysMmap addr len) state = (.ok sysEnomem, after) → SameButTables state after) ↔
      (len ≠ 0 → OutOfFrames state.pmm.frames state.ownTables (rangePages (mmapStart addr) len) →
        pmmCountFree state.pmm = 0) := by
  by_cases hlen : len = 0
  · refine iff_of_true (fun after hexec => ?_) fun hne => absurd hlen hne
    rw [hlen, exec_sysMmap_zero] at hexec
    exact absurd (Except.ok.inj (Prod.mk.inj hexec).1) (by decide)
  have ⟨ok, now, hdone⟩ := h.mmapDone hkernel hrange hlen hsafe
  have ⟨pages, hpages, hzero⟩ := hdone.pages
  have hcount := tableCount_eq hdone.tables
  constructor
  · intro hfailed _ hout
    have hfalse : ok = false := hdone.ok_iff.mpr hout
    have hresult := hdone.result
    rw [hfalse] at hresult
    have hsame : FreeButTables state now := (hfailed now hresult).free
    rw [FreeButTables] at hsame
    exact hzero.mp (by omega)
  · intro hwhole after hexec
    rw [hdone.result] at hexec
    have hvalue : (if ok then mmapStart addr else sysEnomem) = sysEnomem :=
      Except.ok.inj (Prod.mk.inj hexec).1
    have hafter : now = after := (Prod.mk.inj hexec).2
    have hfalse : ok = false := by
      by_contra htrue
      rw [if_pos (Bool.not_eq_false _ ▸ htrue)] at hvalue
      have haligned := hrange.aligned
      rw [hvalue] at haligned
      exact absurd haligned (by decide)
    rw [← hafter, hdone.none (hwhole hlen (hdone.ok_iff.mp hfalse))]
    exact SameButTables.refl state

/-- A call does what it should exactly when it is harmless. -/
theorem MapHistory.Kept.conserves_iff (h : history.Kept kernel start) (hkernel : kernel.pages ≤ 2304)
    (hallowed : call.Allowed history) : call.Conserves start history ↔ call.Harmless history := by
  have ⟨roles, hsane⟩ := h.sane
  have hafter := (h.after hkernel hallowed).freeButTables_iff
  have hfailed : (∀ addr len after, call = .mmap addr len →
      exec (sysMmap addr len) history.state = (.ok sysEnomem, after) →
        SameButTables history.state after) ↔
      ∀ addr len, call = .mmap addr len → len ≠ 0 →
        OutOfFrames history.state.pmm.frames history.state.ownTables
          (rangePages (mmapStart addr) len) → pmmCountFree history.state.pmm = 0 := by
    cases call with
    | munmap addr len => exact iff_of_true (fun _ _ _ h => nomatch h) fun _ _ h => nomatch h
    | mmap addr len =>
      have hstep := hsane.mmapFailed_iff hkernel hallowed.1 hallowed.2
      constructor
      · intro hall addr' len' hcall
        cases hcall
        exact hstep.mp fun after => hall addr len after rfl
      · intro hall addr' len' after hcall
        cases hcall
        exact hstep.mpr (hall addr len rfl) after
  constructor
  · intro ⟨hfirst, hsecond⟩
    exact ⟨hfailed.mp hfirst, fun hlive => hafter.mp (hsecond hlive)⟩
  · intro ⟨hfirst, hsecond⟩
    exact ⟨hfailed.mpr hfirst, fun hlive => hafter.mpr (hsecond hlive)⟩

/-- A range that is mapped while a frame is free, and unmapped again, keeps its frames. -/
theorem Sane.leaks (h : Sane kernel start roles) (hkernel : kernel.pages ≤ 2304)
    (hrange : UserRange addr len) (hlen : len ≠ 0)
    (hallowed : MapCall.Allowed (.mmap addr len) (.start start)) (hfree : pmmCountFree start.pmm ≠ 0) :
    ¬EveryStep MapCall.after (MapCall.Conserves start) [.mmap addr len, .munmap addr len]
      (.start start) := by
  obtain ⟨mapped, hmapped⟩ :
      ∃ mapped, MapCall.after (.mmap addr len) (.start start) = mapped := ⟨_, rfl⟩
  have hkept : mapped.Kept kernel start :=
    hmapped ▸ (MapHistory.kept_start h).after hkernel hallowed
  have hfound : mapped.found = true := by
    rw [← hmapped]
    simp [MapCall.after, MapHistory.start, hlen, hfree]
  have hstart : mmapStart addr = addr := by
    have huser := UInt32.le_iff_toNat_le.mp hrange.user
    refine if_neg fun hzero => ?_
    rw [hzero] at huser
    exact absurd huser (by decide)
  have hlive : (MapCall.after (.munmap addr len) mapped).live = [] := by
    refine List.filter_eq_nil_iff.mpr fun v hv => ?_
    rw [← hmapped] at hv
    change v ∈ liveAfter [] addr len (exec (sysMmap addr len) start).1 at hv
    rw [decide_eq_true_eq, not_not]
    cases hresult : (exec (sysMmap addr len) start).1 with
    | error stop =>
      rw [hresult] at hv
      exact absurd hv List.not_mem_nil
    | ok value =>
      rw [hresult, liveAfter, hstart] at hv
      split at hv
      · exact absurd hv List.not_mem_nil
      · exact hv
  have hunmap : MapCall.Allowed (.munmap addr len) mapped := hrange
  intro hruns
  have hsecond := hruns.2.1
  rw [hmapped] at hsecond
  have hnever : mapped.found = false := ((hkept.conserves_iff hkernel hunmap).mp hsecond).unused hlive
  rw [hfound] at hnever
  exact Bool.false_ne_true hnever.symm

end Calls

section Runs

/-- After any calls that leave the pages of the kernel alone and find frames below 8 MB, in every
sequence of sys_mmap and sys_munmap on user ranges, while the frames for tables lie below 8 MB:
failed calls change nothing but tables and the frames come back but for those of tables exactly
when no sys_mmap runs out of frames behind its first page, and none has found a frame where all
ranges are unmapped. -/
theorem mapCalls_conserve_iff {memory : Kheap.Memory} {procs : Processes} {kernelEnd : ℕ}
    (hprocs : ∀ slot, (procs.tasks slot).pageDir = 0)
    (hlow : 4 ≤ (pmmInit memSize kernelEnd).frames.low) {earlier : List PagingCall}
    (hsafe : EveryStep PagingCall.after (PagingCall.Safe fun frames => 2 ≤ frames.low) earlier
      (booted memory procs kernelEnd)) :
    EveryState PagingCall.after (fun start => ∀ calls : List MapCall,
      EveryStep MapCall.after MapCall.Allowed calls (.start start) →
        (EveryStep MapCall.after (MapCall.Conserves start) calls (.start start) ↔
          EveryStep MapCall.after MapCall.Harmless calls (.start start)))
      earlier (booted memory procs kernelEnd) := by
  have ⟨roles, hbooted, _⟩ := booted_spec memory hprocs hlow
  have hstart : Sane hbooted.weak (booted memory procs kernelEnd) roles :=
    hbooted.rebase _ fun p _ hp => hbooted.identity hp
  have hrun := hstart.everyState (Nat.le_refl 2304) (by decide : 3 ≤ 256)
    (fun _ htwo => hbooted.weak_start htwo) hsafe
  refine hrun.mono fun start ⟨_, hsane⟩ calls hallowed => ?_
  exact hallowed.congr_of_invariant (fun _ _ hkept hcall _ => hkept.after (Nat.le_refl 2304) hcall)
    (fun _ _ hkept hcall => hkept.conserves_iff (Nat.le_refl 2304) hcall)
    (MapHistory.kept_start hsane)

theorem userRange_page : UserRange 0x40000000 4096 := ⟨by decide, by decide, by decide⟩

/-- One page may be mapped at the start. -/
theorem smallStart_allowed :
    MapCall.Allowed (.mmap 0x40000000 4096) (.start smallStart) := by
  have ⟨_, _, _, htaken⟩ := smallStart_spec
  have hlow : 1808 ≤ smallStart.pmm.frames.low + 515 := htaken.low
  exact ⟨userRange_page, safe_mmapPage _ (by show 2 ≤ smallStart.pmm.frames.low; omega)⟩

/-- A page that is mapped at the start and stays so is no loss. -/
theorem smallStart_harmless :
    MapCall.Harmless (.mmap 0x40000000 4096) (.start smallStart) := by
  obtain ⟨_, hbooted, _⟩ := smallStart_spec
  obtain ⟨kernel, hpages, hsane⟩ := hbooted.sane
  have hkernel : kernel.pages ≤ 2304 := by
    rw [hpages]
    decide
  obtain ⟨ok, now, hdone⟩ := hsane.mmapDone hkernel smallStart_allowed.1
    (by decide : (4096 : UInt32) ≠ 0) smallStart_allowed.2
  have hnot : ¬OutOfFrames smallStart.pmm.frames smallStart.ownTables
      (rangePages (mmapStart 0x40000000) 4096) := by
    rw [rangePages_first]
    exact smallStart_notOut _ _
  have hok : ok = true := by
    rw [← Bool.not_eq_false, hdone.ok_iff]
    exact hnot
  refine ⟨fun addr len hcall _ hout => ?_, fun hlive => ?_⟩
  · cases hcall
    exact absurd hout hnot
  · have hresult := hdone.result
    rw [hok, if_pos rfl] at hresult
    have hvalue : ¬(mmapStart 0x40000000 = sysEinval ∨ mmapStart 0x40000000 = sysEnomem) := by
      decide
    rw [MapCall.after, MapHistory.start] at hlive
    dsimp only at hlive
    rw [hresult, liveAfter, if_neg hvalue, rangePages_first] at hlive
    cases hlive

/-- The page stays mapped, so nothing is lost. -/
theorem mapCalls_conserve_iff_onePage :
    EveryStep MapCall.after (MapCall.Conserves smallStart) [.mmap 0x40000000 4096]
      (.start smallStart) := by
  have hlaw := (mapCalls_conserve_iff (fun _ => rfl) smallStart_low
    (smallStart_safe fun frames => 2 ≤ frames.low)).1
  exact (hlaw _ (everyStep_singleton.mpr smallStart_allowed)).mpr
    (everyStep_singleton.mpr smallStart_harmless)

/-- A page is mapped and unmapped at the start: its frame does not come back. -/
theorem mapCalls_leakFrame :
    ¬EveryStep MapCall.after (MapCall.Conserves smallStart)
      [.mmap 0x40000000 4096, .munmap 0x40000000 4096] (.start smallStart) := by
  have ⟨_, hbooted, _, htaken⟩ := smallStart_spec
  have ⟨kernel, hpages, hsane⟩ := hbooted.sane
  have hkernel : kernel.pages ≤ 2304 := by
    rw [hpages]
    decide
  have hfree : pmmCountFree smallStart.pmm ≠ 0 := by
    have hlow : 1808 ≤ smallStart.pmm.frames.low + 515 := htaken.low
    have hle := hsane.ordered.low_le
    rw [hsane.ordered.countFree_eq]
    omega
  exact hsane.leaks hkernel userRange_page (by decide) smallStart_allowed hfree

end Runs

end HexaOS.Paging
