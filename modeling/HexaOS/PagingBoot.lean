import HexaOS.PagingCalls

/-!
# The start of paging

paging_init runs while addresses are physical: it makes a directory with two tables that map
8 MB to themselves. kheap_init then maps the pages of the heap through these tables. From there
on the directory, its first three tables and the pages that they map are the kernel part of every
address space.
-/

namespace HexaOS.Paging

open X86 Process StoreTyping

/-- The first argument of pmm_init in kernel_main. -/
def memSize : ℕ := 32 * 1024 * 1024

/-- The state before paging_init. -/
def bootState (memory : Kheap.Memory) (procs : Processes) (kernelEnd : ℕ) : PagingState where
  pmm := pmmInit memSize kernelEnd
  memory := memory
  enabled := false
  kernelPageDir := 0
  procs := procs
  granted := []
  uses := []

/-- The calls of kernel_main that set up paging and the tasks. -/
def boot : PagingM Unit := do
  pagingInit
  kheapInit
  modify fun state => { state with procs := procInit state.procs }

variable {kernel kernel' : KernelLayout} {state state' : PagingState}
  {roles roles' : ℕ → Option FrameRole} {stopped : PagingState → Prop}

/-- The directory register is loaded and paging is enabled. -/
def PagingState.turnOn (state : PagingState) (dir : UInt32) : PagingState :=
  { state with procs := { state.procs with cr3 := dir }, enabled := true }

/-- At most so many frames were taken. -/
structure TakenWithin (count : ℕ) (frames frames' : Frames) : Prop where
  /-- No frame below 8 MB comes back. -/
  fewer : frames'.low ≤ frames.low
  /-- At most so many go below 8 MB. -/
  low : frames.low ≤ frames'.low + count
  /-- At most so many go in all. -/
  free : frames.free ≤ frames'.free + count

theorem TakenWithin.refl (frames : Frames) : TakenWithin 0 frames frames :=
  ⟨Nat.le_refl _, Nat.le_refl _, Nat.le_refl _⟩

theorem TakenWithin.trans {count count' : ℕ} {frames frames' frames'' : Frames}
    (h : TakenWithin count frames frames') (h' : TakenWithin count' frames' frames'') :
    TakenWithin (count + count') frames frames'' := by
  have ⟨hfewer, hlow, hfree⟩ := h
  have ⟨hfewer', hlow', hfree'⟩ := h'
  exact ⟨by omega, by omega, by omega⟩

theorem TakenWithin.mono {count count' : ℕ} {frames frames' : Frames}
    (h : TakenWithin count frames frames') (hle : count ≤ count') :
    TakenWithin count' frames frames' := by
  have ⟨hfewer, hlow, hfree⟩ := h
  exact ⟨hfewer, by omega, by omega⟩

theorem TakenWithin.congr {count : ℕ} {frames frames' start : Frames}
    (h : TakenWithin count frames frames') (hstart : frames = start) :
    TakenWithin count start frames' := hstart ▸ h

theorem takenWithin_take (frames : Frames) : TakenWithin 1 frames frames.take := by
  refine ⟨Nat.sub_le _ _, ?_, ?_⟩
  · show frames.low ≤ frames.low - 1 + 1
    omega
  · show frames.free ≤ frames.free - 1 + 1
    omega

section Unpaged

/-- An entry of the identity mapping. -/
def identityEntry (page : ℕ) : UInt32 := makeEntry (frameAddress page) 0x003

/-- The entries of the directory while its tables are made. -/
def entryOf (tables : List ℕ) (n : ℕ) : UInt32 :=
  match tables[n]? with
  | some f => makeEntry (frameAddress f) 0x003
  | none => 0x002

/-- paging_init has a directory and some of its tables. -/
structure Early (state : PagingState) (dir : ℕ) (tables : List ℕ) : Prop where
  /-- Paging is not on. -/
  disabled : state.enabled = false
  /-- The directory of the kernel. -/
  kernelPageDir : state.kernelPageDir = frameAddress dir
  /-- The allocator is in order. -/
  ordered : state.pmm.Ordered
  /-- The tables are different frames. -/
  nodup : (dir :: tables).Nodup
  /-- They are used frames below 8 MB. -/
  frames : ∀ f ∈ dir :: tables, f < lowPages ∧ state.pmm.used f = true ∧
    LowFrame state.granted (frameAddress f)
  /-- What was stored to was granted. -/
  uses : ∀ frame ∈ state.uses, LowFrame state.granted frame
  /-- The directory has these tables. -/
  entries : ∀ n < 1024, state.words dir n = entryOf tables n
  /-- The tables map each page to itself. -/
  pages : ∀ n f, tables[n]? = some f → ∀ i < 1024,
    state.words f i = identityEntry (1024 * n + i)

/-- While paging is off, addresses are physical. -/
theorem direct_of_disabled (h : state.enabled = false) (f g : ℕ) : Direct f g state := by
  intro now hchanges v _
  have hoff : now.enabled = false := by
    rw [hchanges.rest]
    exact h
  rw [PagingState.translate, hoff, if_neg Bool.false_ne_true]

/-- The entry that paging_init computes. -/
theorem identityEntry_eq {n i : ℕ} (hn : n < 2) (hi : i < 1024) :
    UInt32.ofNat (n * 0x400000 + i * 4096) ||| 0x003 = identityEntry (1024 * n + i) := by
  have haddress : n * 0x400000 + i * 4096 = 4096 * (1024 * n + i) := by omega
  rw [haddress]
  exact frameAddress_or_three (by omega)

namespace Early

variable {dir : ℕ} {tables : List ℕ}

theorem dir_low (h : Early state dir tables) : dir < lowPages :=
  (h.frames dir List.mem_cons_self).1

/-- The directory as a number. -/
theorem toNat_dir (h : Early state dir tables) : (frameAddress dir).toNat = 4096 * dir :=
  toNat_frameAddress (lt_trans h.dir_low (by decide))

/-- A frame that was taken is none of those in use. -/
theorem notMem (h : Early state dir tables) {f : ℕ} (htakes : state.pmm.Takes f) :
    f ∉ dir :: tables := by
  intro hmem
  have hused := (h.frames f hmem).2.1
  rw [htakes.free] at hused
  exact Bool.false_ne_true hused

/-- Another table: its frame was taken and filled, and its entry stored. -/
theorem snoc (h : Early state dir tables) (hlength : tables.length < 2)
    (hlow : 0 < state.pmm.frames.low) {f : ℕ} (htakes : state.pmm.Takes f) {filled : PagingState}
    (hchanges : Changes f { state.grant f with uses := state.uses ++ [frameAddress f] } filled)
    (hfilled : ∀ i < 1024, filled.words f i = identityEntry (1024 * tables.length + i)) :
    Early (filled.storeEntry dir tables.length (makeEntry (frameAddress f) 0x003)) dir
      (tables ++ [f]) := by
  have hfresh := h.notMem htakes
  have hne : dir ≠ f := fun heq => hfresh (heq ▸ List.mem_cons_self)
  have hn : tables.length < 1024 := by omega
  have hpmm : filled.pmm = state.pmm.taking f := hchanges.pmm
  have hgranted : filled.granted = (state.grant f).granted := hchanges.granted
  have huses : filled.uses = state.uses ++ [frameAddress f] := by
    rw [hchanges.rest]
    rfl
  have hmono : ∀ frame, LowFrame state.granted frame → LowFrame filled.granted frame := by
    intro frame hframe
    rw [hgranted]
    exact ⟨hframe.ne_zero, hframe.lt, List.mem_append_left _ hframe.mem⟩
  have hframe : LowFrame filled.granted (frameAddress f) := by
    rw [hgranted]
    exact htakes.lowFrame hlow
  have hwords := filled.storeEntry_words hn (makeEntry (frameAddress f) 0x003) (f := dir)
  have hold : ∀ g ∈ dir :: tables, filled.words g = state.words g := by
    intro g hg
    refine hchanges.words ?_
    rintro rfl
    exact hfresh hg
  refine ⟨?_, hchanges.kernelPageDir.trans h.kernelPageDir, ?_, ?_, ?_, ?_, ?_, ?_⟩
  · exact (congrArg PagingState.enabled hchanges.rest).trans h.disabled
  · exact hpmm ▸ htakes.ordered
  · rw [← List.cons_append]
    exact h.nodup.append (List.nodup_singleton f) (List.disjoint_singleton.mpr hfresh)
  · intro g hg
    rw [← List.cons_append] at hg
    rcases List.mem_append.mp hg with hbefore | hnew
    · have ⟨hlt, hused, hlowg⟩ := h.frames g hbefore
      exact ⟨hlt, hpmm ▸ Pmm.taking_used hused, hmono _ hlowg⟩
    · rw [List.mem_singleton.mp hnew]
      exact ⟨htakes.low hlow, hpmm ▸ Pmm.taking_used_self, hframe⟩
  · intro frame hused
    have hmem : frame ∈ state.uses ++ [frameAddress f] := huses ▸ hused
    rcases List.mem_append.mp hmem with hbefore | hnew
    · exact hmono _ (h.uses frame hbefore)
    · rw [List.mem_singleton.mp hnew]
      exact hframe
  · intro n hlt
    rw [hwords, entryOf]
    by_cases heq : n = tables.length
    · rw [heq, setEntry_self, List.getElem?_concat_length]
    · rw [setEntry_of_ne (.inr heq), hold dir List.mem_cons_self, h.entries n hlt, entryOf]
      by_cases hbefore : n < tables.length
      · rw [List.getElem?_append_left hbefore]
      · rw [List.getElem?_eq_none (by omega),
          List.getElem?_eq_none (by rw [List.length_append, List.length_singleton]; omega)]
  · intro n g hg i hi
    have hgdir : g ≠ dir := by
      rintro rfl
      rcases List.mem_append.mp (List.mem_of_getElem? hg) with hbefore | hnew
      · exact (List.nodup_cons.mp h.nodup).1 hbefore
      · exact hne (List.mem_singleton.mp hnew)
    rw [hwords, setEntry_of_ne (.inl hgdir)]
    by_cases hbefore : n < tables.length
    · rw [List.getElem?_append_left hbefore] at hg
      rw [hold g (List.mem_cons_of_mem _ (List.mem_of_getElem? hg))]
      exact h.pages n g hg i hi
    · have hlast : n = tables.length := by
        have hbound := (List.getElem?_eq_some_iff.mp hg).1
        rw [List.length_append, List.length_singleton] at hbound
        omega
      rw [hlast, List.getElem?_concat_length] at hg
      rw [← Option.some.inj hg, hlast]
      exact hfilled i hi

/-- The loop over the tables. -/
theorem wp_identityTables {left : ℕ} (hlength : tables.length + left = 2)
    (h : Early state dir tables) (hlow : left ≤ state.pmm.frames.low)
    {post : Unit → PagingState → Prop}
    (hpost : ∀ now tables', Early now dir tables' → tables'.length = 2 →
      now.procs = state.procs → TakenWithin left state.pmm.frames now.pmm.frames → post () now) :
    wp (identityTables left tables.length) state post stopped := by
  induction left generalizing state tables with
  | zero => exact hpost state tables h hlength rfl (.refl _)
  | succ left ih =>
    have hpositive : 0 < state.pmm.frames.low := by omega
    rw [identityTables, wp_bind]
    refine wp_pmmAlloc_low h.ordered hpositive fun f htakes => ?_
    simp only [wp_bind, wp_useFrame, wp_get]
    have hoff : ({ state.grant f with uses := state.uses ++ [frameAddress f] } :
      PagingState).enabled = false := h.disabled
    refine wp_fillWords (toNat_frameAddress htakes.lt) (direct_of_disabled hoff f f)
      fun filled hchanges hfilled => ?_
    have hdir : filled.kernelPageDir = frameAddress dir :=
      hchanges.kernelPageDir.trans h.kernelPageDir
    have hn : tables.length < 1024 := by omega
    have haddress := toNat_entryAddress h.toNat_dir hn
    have hframes : filled.pmm.frames = state.pmm.frames.take :=
      (congrArg Pmm.frames hchanges.pmm).trans htakes.frames
    rw [hdir]
    refine wp_storeWord (direct_of_disabled hoff f dir filled hchanges _ (by omega)) ?_
    rw [haddress, frameAddress_or_three htakes.lt]
    have hnext := h.snoc (by omega) hpositive htakes hchanges fun i hi =>
      (hfilled i hi).trans (identityEntry_eq (by omega) hi)
    have hlen : (tables ++ [f]).length = tables.length + 1 := List.length_append
    rw [← hlen]
    refine ih (by omega) hnext ?_ fun now tables' hearly hlength' hprocs htaken =>
      hpost now tables' hearly hlength' (hprocs.trans hchanges.procs) ?_
    · show left ≤ filled.pmm.frames.low
      rw [hframes]
      show left ≤ state.pmm.frames.low - 1
      omega
    · have htake := takenWithin_take state.pmm.frames
      rw [← hframes] at htake
      exact (htake.trans htaken).mono (by omega)

end Early

/-- The new directory, before it has a table. -/
theorem early_nil (hoff : state.enabled = false) (huses : state.uses = [])
    (hlow : 0 < state.pmm.frames.low) {dir : ℕ} (htakes : state.pmm.Takes dir)
    {filled : PagingState}
    (hchanges : Changes dir { state.grant dir with
      kernelPageDir := frameAddress dir, uses := state.uses ++ [frameAddress dir] } filled)
    (hfilled : ∀ i < 1024, filled.words dir i = 0x002) : Early filled dir [] := by
  have hpmm : filled.pmm = state.pmm.taking dir := hchanges.pmm
  have hframe : LowFrame filled.granted (frameAddress dir) := by
    rw [hchanges.granted]
    exact htakes.lowFrame hlow
  refine ⟨?_, hchanges.kernelPageDir, hpmm ▸ htakes.ordered, List.nodup_singleton dir,
    fun f hf => ?_, fun frame hused => ?_, hfilled, fun n f hf => ?_⟩
  · exact (congrArg PagingState.enabled hchanges.rest).trans hoff
  · rw [List.mem_singleton.mp hf]
    exact ⟨htakes.low hlow, hpmm ▸ Pmm.taking_used_self, hframe⟩
  · have hmem : frame ∈ state.uses ++ [frameAddress dir] := by
      rw [hchanges.rest] at hused
      exact hused
    rw [huses, List.nil_append, List.mem_singleton] at hmem
    rw [hmem]
    exact hframe
  · exact absurd hf (by simp)

/-- paging_init, from a state in which paging is off. -/
theorem wp_pagingInit (hoff : state.enabled = false) (huses : state.uses = [])
    (hordered : state.pmm.Ordered) (hlow : 3 ≤ state.pmm.frames.low)
    {post : Unit → PagingState → Prop}
    (hpost : ∀ early dir tables, Early early dir tables → tables.length = 2 →
      early.procs = state.procs → TakenWithin 3 state.pmm.frames early.pmm.frames →
      post () (early.turnOn (frameAddress dir))) :
    wp pagingInit state post stopped := by
  have hpositive : 0 < state.pmm.frames.low := by omega
  rw [pagingInit, wp_bind]
  refine wp_pmmAlloc_low hordered hpositive fun dir htakes => ?_
  simp only [wp_bind, wp_useFrame, wp_modify, wp_setCr3]
  have hoff' : ({ state.grant dir with
      kernelPageDir := frameAddress dir, uses := state.uses ++ [frameAddress dir] } :
    PagingState).enabled = false := hoff
  refine wp_fillWords (toNat_frameAddress htakes.lt) (direct_of_disabled hoff' dir dir)
    fun filled hchanges hfilled => ?_
  have hearly := early_nil hoff huses hpositive htakes hchanges hfilled
  have hframes : filled.pmm.frames = state.pmm.frames.take :=
    (congrArg Pmm.frames hchanges.pmm).trans htakes.frames
  refine Early.wp_identityTables rfl hearly ?_ fun now tables hnow hlength hprocs htaken => ?_
  · rw [hframes]
    show 2 ≤ state.pmm.frames.low - 1
    omega
  · have htake := takenWithin_take state.pmm.frames
    rw [← hframes] at htake
    exact hpost now dir tables hnow hlength (hprocs.trans hchanges.procs) (htake.trans htaken)

end Unpaged

section FirstTables

/-- The kernel part between paging_init and kheap_init. -/
def firstKernel (tables : List ℕ) (hlength : tables.length = 2) : KernelLayout where
  tables := 2
  pages := lowPages
  entry := entryOf tables
  ok p entry := entry = identityEntry p
  two_le_tables := Nat.le_refl 2
  lowPages_le := Nat.le_refl _
  pages_le := Nat.le_refl _
  present_entry n hn := by
    rw [entryOf, List.getElem?_eq_getElem (by omega)]
    exact present_makeEntry _ _
  identity p hp e he := by
    rw [he, identityEntry, present_makeEntry, frameOf_makeEntry,
      frameOf_frameAddress (lt_trans hp (by decide))]
    exact ⟨rfl, rfl⟩

/-- The roles of the directory and its tables. -/
def firstRoles (dir : ℕ) (tables : List ℕ) (f : ℕ) : Option FrameRole :=
  if f = dir then some .directory
  else if f ∈ tables then some (.table (tables.idxOf f)) else none

variable {dir : ℕ} {tables : List ℕ}

/-- A frame with a role is the directory or one of its tables. -/
theorem firstRoles_eq_some {f : ℕ} {role : FrameRole} (h : firstRoles dir tables f = some role) :
    (f = dir ∧ role = .directory) ∨
      ∃ n, tables[n]? = some f ∧ f ≠ dir ∧ role = .table n := by
  rw [firstRoles] at h
  by_cases hdir : f = dir
  · rw [if_pos hdir] at h
    exact .inl ⟨hdir, (Option.some.inj h).symm⟩
  · rw [if_neg hdir] at h
    by_cases hmem : f ∈ tables
    · rw [if_pos hmem] at h
      exact .inr ⟨tables.idxOf f, List.getElem?_idxOf hmem, hdir, (Option.some.inj h).symm⟩
    · rw [if_neg hmem] at h
      exact nomatch h

/-- The role of a table. -/
theorem firstRoles_table (hnodup : (dir :: tables).Nodup) {n f : ℕ} (hf : tables[n]? = some f) :
    firstRoles dir tables f = some (.table n) := by
  have ⟨hnotMem, htables⟩ := List.nodup_cons.mp hnodup
  have hmem := List.mem_of_getElem? hf
  have hdir : f ≠ dir := by
    rintro rfl
    exact hnotMem hmem
  have ⟨hn, hget⟩ := List.getElem?_eq_some_iff.mp hf
  rw [firstRoles, if_neg hdir, if_pos hmem, ← hget, htables.idxOf_getElem]

theorem userAccess_entryOf (tables : List ℕ) (n : ℕ) : userAccess (entryOf tables n) = false := by
  rw [entryOf]
  split
  · rw [userAccess_makeEntry]
    rfl
  · rfl

/-- The entries of the directory that are present name tables. -/
theorem present_entryOf {n : ℕ} (h : present (entryOf tables n) = true) (hsmall : ∀ f ∈ tables,
    f < 8192) : tables[n]? = some (frameOf (entryOf tables n)) := by
  rw [entryOf] at h ⊢
  rcases htable : tables[n]? with _ | f
  · rw [htable] at h
    exact absurd h (by decide)
  · have hlt := hsmall f (List.mem_of_getElem? htable)
    show some f = some (frameOf (makeEntry (frameAddress f) 0x003))
    rw [frameOf_makeEntry, frameOf_frameAddress hlt]

/-- paging_init establishes the rules. -/
theorem Early.sane (h : Early state dir tables) (hlength : tables.length = 2)
    (hprocs : ∀ slot, (state.procs.tasks slot).pageDir = 0) :
    Sane (firstKernel tables hlength) (state.turnOn (frameAddress dir))
      (firstRoles dir tables) := by
  have hsmall : ∀ f ∈ dir :: tables, f < 8192 :=
    fun f hf => lt_trans (h.frames f hf).1 (by decide)
  have hmem : ∀ f role, firstRoles dir tables f = some role → f ∈ dir :: tables := by
    intro f role hrole
    rcases firstRoles_eq_some hrole with ⟨rfl, -⟩ | ⟨n, hn, -⟩
    · exact List.mem_cons_self
    · exact List.mem_cons_of_mem _ (List.mem_of_getElem? hn)
  have hdir : IsDirectory (firstRoles dir tables) (frameAddress dir) := by
    refine ⟨?_, ?_⟩
    · rw [h.toNat_dir, Nat.mul_mod_right]
    · rw [frameOf_frameAddress (hsmall dir List.mem_cons_self)]
      exact if_pos rfl
  refine ⟨rfl, fun f role hrole => ?_, ?_, ⟨hdir, fun slot hne => absurd (hprocs slot) hne⟩,
    fun f role hrole => (h.frames f (hmem f role hrole)).2.1,
    fun f role hrole _ => ⟨(h.frames f (hmem f role hrole)).1, (h.frames f (hmem f role hrole)).2.2⟩,
    h.ordered, h.uses⟩
  · rcases firstRoles_eq_some hrole with ⟨rfl, rfl⟩ | ⟨n, hn, -, rfl⟩
    · refine locallyTyped_directory.mpr ⟨fun m hm entry hentry => ?_, fun m hm hpresent => ?_⟩
      · have heq := (Option.ite_none_right_eq_some.mp hentry).2
        exact (h.entries m hm).trans (Option.some.inj heq)
      · have hentry : state.words f m = entryOf tables m := h.entries m hm
        have hset : present (entryOf tables m) = true := hentry ▸ hpresent
        have htable := present_entryOf hset fun g hg => hsmall g (List.mem_cons_of_mem _ hg)
        show userAccess (state.words f m) = false ∧
          firstRoles f tables (frameOf (state.words f m)) = some (.table m)
        rw [hentry]
        exact ⟨userAccess_entryOf tables m, firstRoles_table h.nodup htable⟩
    · refine locallyTyped_table.mpr ⟨fun i hi ok hok => ?_, fun i hi _ hfree => ?_⟩
      · have heq := (Option.ite_none_right_eq_some.mp hok).2
        rw [← Option.some.inj heq]
        exact h.pages n f hn i hi
      · have hpages : lowPages ≤ 1024 * n + i := (KernelLayout.fixed_eq_none _).mp hfree
        have hbound := (List.getElem?_eq_some_iff.mp hn).1
        have hlow : lowPages = 2048 := rfl
        omega
  · show IsDirectory (firstRoles dir tables) state.kernelPageDir
    rw [h.kernelPageDir]
    exact hdir

end FirstTables

section Heap

/-- kheap_init has mapped pages with one table. -/
structure HeapMapped (kernel : KernelLayout) (state : PagingState)
    (roles : ℕ → Option FrameRole) (n count : ℕ) (now : PagingState)
    (roles' : ℕ → Option FrameRole) : Prop where
  /-- The state stays sane. -/
  sane : Sane kernel now roles'
  /-- Only the tree of cr3 grows. -/
  mapped : Mapped state.procs.cr3 state roles now roles'
  /-- It has the table of the heap. -/
  tables : now.tablesOf state.procs.cr3 = Function.update (state.tablesOf state.procs.cr3) n true
  /-- Each page takes two frames at most. -/
  taken : TakenWithin (2 * count) state.pmm.frames now.pmm.frames

theorem HeapMapped.trans {n count count' : ℕ} {now now' : PagingState}
    {roles'' : ℕ → Option FrameRole} (h : HeapMapped kernel state roles n count now roles')
    (h' : HeapMapped kernel now roles' n count' now' roles'') :
    HeapMapped kernel state roles n (count + count') now' roles'' := by
  have hcr3 : now.procs.cr3 = state.procs.cr3 := congrArg Processes.cr3 h.mapped.procs
  have hmapped := h'.mapped
  have htables := h'.tables
  rw [hcr3] at hmapped htables
  refine ⟨h'.sane, h.mapped.trans hmapped, ?_, (h.taken.trans h'.taken).mono (by omega)⟩
  rw [htables, h.tables, Function.update_idem]

/-- map_heap_page. -/
theorem Sane.wp_mapHeapPage (h : Sane kernel state roles) {v : UInt32}
    (hv : kernel.pages ≤ v.toNat / 4096)
    (hlow : state.tablesOf state.procs.cr3 (directoryIndex v) = false → 0 < state.pmm.frames.low)
    {post : Unit → PagingState → Prop}
    (hpost : ∀ now roles', HeapMapped kernel state roles (directoryIndex v) 1 now roles' →
      post () now) :
    wp (mapHeapPage v) state post stopped := by
  have hdir := h.dirs.cr3
  simp only [mapHeapPage, wp_bind, wp_getCr3]
  refine h.wp_pageTable hdir hlow fun f ready roles' hready => ?_
  have hf := (hready.sane.low f _ hready.role trivial).1
  have hbase := toNat_frameAddress (lt_trans hf (by decide))
  have hi := tableIndex_lt v
  have htaken : TakenWithin 1 state.pmm.frames ready.pmm.frames := by
    rw [hready.frames]
    split
    · exact (TakenWithin.refl _).mono (by decide)
    · exact takenWithin_take _
  have hskipped : HeapMapped kernel state roles (directoryIndex v) 1 ready roles' :=
    ⟨hready.sane, hready.mapped, hready.tables, htaken.mono (by decide)⟩
  refine hready.sane.wp_loadEntry hbase hf hi rfl ?_
  by_cases hpresent : present (ready.words f (tableIndex v)) = true
  · exact wp_if_neg (by simp [hpresent]) (hpost _ _ hskipped)
  · refine wp_if_pos (by simp [hpresent]) ?_
    rw [wp_bind]
    refine wp_pmmAlloc hready.sane.ordered (fun _ => wp_if_neg (by simp) (hpost _ _ hskipped))
      fun q htakes => wp_if_pos (frameAddress_ne_zero htakes.lt htakes.ne_zero) ?_
    obtain ⟨hgranted, hfresh⟩ := hready.sane.grant htakes
    have hdir' := hdir.mono hready.mapped.roles_mono
    have hset : (ready.grant q).tablesOf state.procs.cr3 (directoryIndex v) = true := by
      refine (congrFun hready.tables _).trans ?_
      rw [Function.update_self]
    have hagain := hgranted.tableReady_present hdir' (directoryIndex_lt v) hset
    have hsame : frameOf ((ready.grant q).words (frameOf state.procs.cr3) (directoryIndex v)) = f :=
      hready.frame
    rw [hsame] at hagain
    rw [frameAddress_or_three htakes.lt]
    have hentry : frameOf (makeEntry (frameAddress q) 0x003) = q := by
      rw [frameOf_makeEntry, frameOf_frameAddress htakes.lt]
    have hpage := hagain.pageMapped hdir' hv Pmm.taking_used_self hfresh hentry
      (present_makeEntry _ _)
    refine hgranted.wp_storeEntry hbase hf hi (hpost _ _ ⟨hpage.sane,
      hready.mapped.trans { hpage.mapped with }, ?_, ?_⟩)
    · refine hpage.tables.trans ?_
      have htables : (ready.grant q).tablesOf state.procs.cr3 = ready.tablesOf state.procs.cr3 := rfl
      rw [htables, hready.tables, Function.update_idem]
    · have hframes := hpage.frames
      rw [if_pos hset] at hframes
      rw [hframes]
      have hgrant : (ready.grant q).pmm.frames = ready.pmm.frames.take := htakes.frames
      rw [hgrant]
      exact htaken.trans (takenWithin_take _)

/-- The loop of kheap_init, over pages of one table. -/
theorem Sane.wp_mapHeapPages {n : ℕ} {vs : List UInt32} (hne : vs ≠ [])
    (h : Sane kernel state roles) (hvs : ∀ v ∈ vs, kernel.pages ≤ v.toNat / 4096 ∧
      directoryIndex v = n)
    (hlow : 0 < state.pmm.frames.low ∨ state.tablesOf state.procs.cr3 n = true)
    {post : Unit → PagingState → Prop}
    (hpost : ∀ now roles', HeapMapped kernel state roles n vs.length now roles' → post () now) :
    wp (mapHeapPages vs) state post stopped := by
  induction vs generalizing state roles with
  | nil => exact absurd rfl hne
  | cons v rest ih =>
    have ⟨hpage, hindex⟩ := hvs v List.mem_cons_self
    rw [mapHeapPages, wp_bind]
    refine h.wp_mapHeapPage hpage (fun habsent => ?_) fun now roles' hmapped => ?_
    · rw [hindex] at habsent
      exact hlow.resolve_right fun hset => Bool.false_ne_true (habsent.symm.trans hset)
    · rw [hindex] at hmapped
      by_cases hrest : rest = []
      · rw [hrest] at hpost ⊢
        exact hpost now roles' hmapped
      · have hcr3 : now.procs.cr3 = state.procs.cr3 := congrArg Processes.cr3 hmapped.mapped.procs
        refine ih hrest hmapped.sane (fun w hw => hvs w (List.mem_cons_of_mem _ hw)) (.inr ?_)
          fun now' roles'' hrun => hpost now' roles'' ?_
        · rw [hcr3, hmapped.tables, Function.update_self]
        · rw [List.length_cons, Nat.add_comm]
          exact hmapped.trans hrun

/-- The pages of the heap. -/
theorem mem_heapPages {v : UInt32}
    (hv : v ∈ Elf.pageAddresses Kheap.heapStart (Kheap.heapStart + Kheap.heapInitSize)) :
    lowPages ≤ v.toNat / 4096 ∧ directoryIndex v = 2 := by
  have ⟨hfirst, hlast, _⟩ := (Elf.mem_pageAddresses (by decide)).mp hv
  have hlower : (8388608 : ℕ) ≤ v.toNat := UInt32.le_iff_toNat_le.mp hfirst
  have hupper : v.toNat < 9437184 := UInt32.lt_iff_toNat_lt.mp hlast
  have hlow : lowPages = 2048 := rfl
  rw [directoryIndex_eq]
  omega

theorem length_heapPages :
    (Elf.pageAddresses Kheap.heapStart (Kheap.heapStart + Kheap.heapInitSize)).length = 256 := by
  have hcount : Kheap.heapStart.toNat + 4096 * 256 =
      (Kheap.heapStart + Kheap.heapInitSize).toNat := by decide
  rw [Elf.pageAddresses, Elf.pageLoop_eq hcount (by decide), List.length_map, List.length_range]

end Heap

section Booted

/-- The entry for a page of the kernel, in the directory of the kernel. -/
def PagingState.kernelPage (state : PagingState) (p : ℕ) : UInt32 :=
  state.words (frameOf (state.words (frameOf state.kernelPageDir) (p / 1024))) (p % 1024)

/-- The state after kheap_init: the directory of the kernel is the only one, and it has the first
three tables. -/
structure Booted (state : PagingState) (roles : ℕ → Option FrameRole) : Prop where
  /-- The state is sane. -/
  sane : ∃ kernel, kernel.pages = lowPages ∧ Sane kernel state roles
  /-- There is one directory. -/
  directory : ∀ f, roles f = some .directory → f = frameOf state.kernelPageDir
  /-- A frame of a table is the table of its number. -/
  table : ∀ f n, roles f = some (.table n) → state.tablesOf state.kernelPageDir n = true ∧
    frameOf (state.words (frameOf state.kernelPageDir) n) = f
  /-- There are three tables. -/
  tables : ∀ n, state.tablesOf state.kernelPageDir n = decide (n < 3)

namespace Booted

/-- The pages below 8 MB are mapped to themselves. -/
theorem identity (h : Booted state roles) {p : ℕ} (hp : p < lowPages) :
    present (state.kernelPage p) = true ∧ frameOf (state.kernelPage p) = p := by
  have ⟨kernel, hpages, hsane⟩ := h.sane
  have hlow : lowPages = 2048 := rfl
  have hn : p / 1024 < 2 := by omega
  have hset : state.tablesOf state.kernelPageDir (p / 1024) = true := by
    rw [h.tables]
    exact decide_eq_true (by omega)
  have hrole := Typed.table hsane.typed hsane.kernelDir.role (by omega) hset
  have hindex : 1024 * (p / 1024) + p % 1024 = p := Nat.div_add_mod p 1024
  have hfixed := Typed.fixed hsane.typed hrole (Nat.mod_lt p (by decide))
    (if_pos (by rw [hindex, hpages]; exact hp))
  rw [hindex] at hfixed
  exact kernel.identity p hp _ hfixed

/-- The kernel part of all address spaces from here on. -/
def layout (h : Booted state roles) (ok : ℕ → UInt32 → Prop)
    (hok : ∀ p < lowPages, ∀ e, ok p e → present e = true ∧ frameOf e = p) : KernelLayout where
  tables := 3
  pages := 2304
  entry := state.words (frameOf state.kernelPageDir)
  ok := ok
  two_le_tables := by decide
  lowPages_le := by decide
  pages_le := by decide
  present_entry n hn := (h.tables n).trans (decide_eq_true hn)
  identity := hok

/-- The rules for the new kernel part, with conditions that the entries of the kernel meet. -/
theorem rebase (h : Booted state roles) {ok : ℕ → UInt32 → Prop}
    (hok : ∀ p < lowPages, ∀ e, ok p e → present e = true ∧ frameOf e = p)
    (hpages : ∀ p < 2304, ok p (state.kernelPage p)) :
    Sane (h.layout ok hok) state roles := by
  have ⟨kernel, hlow, hsane⟩ := h.sane
  refine { hsane with typed := fun f role hrole => ?_ }
  cases role with
  | directory =>
    have hf := h.directory f hrole
    refine locallyTyped_directory.mpr ⟨fun n _ entry hentry => ?_, fun n hn hpresent =>
      ⟨Typed.tableEntry hsane.typed hrole hn hpresent, Typed.table hsane.typed hrole hn hpresent⟩⟩
    rw [hf]
    exact Option.some.inj (Option.ite_none_right_eq_some.mp hentry).2
  | table n =>
    have ⟨_, hframe⟩ := h.table f n hrole
    refine locallyTyped_table.mpr ⟨fun i hi condition hcondition => ?_, fun i hi hpresent hfree =>
      Typed.page hsane.typed hrole hi hpresent ?_⟩
    · have ⟨hlt, heq⟩ := Option.ite_none_right_eq_some.mp hcondition
      have hpage := hpages (1024 * n + i) hlt
      have hdiv : (1024 * n + i) / 1024 = n := by omega
      have hmod : (1024 * n + i) % 1024 = i := by omega
      rw [PagingState.kernelPage, hdiv, hmod, hframe] at hpage
      rw [← Option.some.inj heq]
      exact hpage
    · have hbeyond : 2304 ≤ 1024 * n + i := (KernelLayout.fixed_eq_none _).mp hfree
      have hbound : lowPages = 2048 := rfl
      exact kernel.fixed_eq_none.mpr (by omega)
  | page p => exact locallyTyped_page f p _

end Booted

/-- kheap_init, after paging_init. -/
theorem Early.wp_kheapInit {dir : ℕ} {tables : List ℕ} (h : Early state dir tables)
    (hlength : tables.length = 2) (hprocs : ∀ slot, (state.procs.tasks slot).pageDir = 0)
    (hlow : 0 < state.pmm.frames.low) {post : Unit → PagingState → Prop}
    (hpost : ∀ now roles, Booted now roles →
      now.procs = { state.procs with cr3 := now.kernelPageDir } →
      TakenWithin 512 state.pmm.frames now.pmm.frames → post () now) :
    wp kheapInit (state.turnOn (frameAddress dir)) post stopped := by
  have hsane := h.sane hlength hprocs
  have hsmall := lt_trans h.dir_low (by decide : lowPages < 8192)
  have hframe := frameOf_frameAddress hsmall
  have hnodup := h.nodup
  have hentries : ∀ n,
      (state.turnOn (frameAddress dir)).tablesOf (frameAddress dir) n = decide (n < 2) := by
    intro n
    by_cases hn : n < 1024
    · have hentry : state.words (frameOf (frameAddress dir)) n = entryOf tables n := by
        rw [hframe]
        exact h.entries n hn
      show present (state.words (frameOf (frameAddress dir)) n) = decide (n < 2)
      rw [hentry, entryOf]
      by_cases hlt : n < 2
      · rw [List.getElem?_eq_getElem (by omega), decide_eq_true hlt]
        exact present_makeEntry _ _
      · rw [List.getElem?_eq_none (by omega), decide_eq_false hlt]
        rfl
    · rw [tablesOf_of_le _ _ (Nat.le_of_not_lt hn), decide_eq_false (by omega)]
  rw [kheapInit, wp_bind]
  refine hsane.wp_mapHeapPages (by rw [← List.length_pos_iff, length_heapPages]; decide)
    (fun v hv => mem_heapPages hv) (.inl hlow) fun now roles' hmapped => ?_
  have hdir : now.kernelPageDir = frameAddress dir :=
    hmapped.mapped.kernelPageDir.trans h.kernelPageDir
  have htables : ∀ n, now.tablesOf (frameAddress dir) n = decide (n < 3) := by
    intro n
    have hnow : now.tablesOf (frameAddress dir) n = Function.update
        ((state.turnOn (frameAddress dir)).tablesOf (frameAddress dir)) 2 true n :=
      congrFun hmapped.tables n
    rw [hnow]
    by_cases hn : n = 2
    · rw [hn, Function.update_self]
      rfl
    · rw [Function.update_of_ne hn]
      exact (hentries n).trans (decide_eq_decide.mpr (by omega))
  have htaken := hmapped.taken
  rw [length_heapPages] at htaken
  simp only [wp_bind, wp_get, wp_setCr3]
  refine hpost _ roles' ⟨⟨_, rfl, hmapped.sane.withProcs ⟨hmapped.sane.kernelDir,
    hmapped.sane.dirs.tasks⟩⟩, fun f hf => ?_, fun f n hf => ?_, fun n => ?_⟩ ?_ htaken
  · show f = frameOf now.kernelPageDir
    rw [hdir, hframe]
    rcases firstRoles_eq_some (hmapped.mapped.newDirectories f hf) with ⟨hf', -⟩ | ⟨_, _, _, hrole⟩
    · exact hf'
    · cases hrole
  · show now.tablesOf now.kernelPageDir n = true ∧
      frameOf (now.words (frameOf now.kernelPageDir) n) = f
    rw [hdir]
    rcases hmapped.mapped.newTables f n hf with hold | hnew
    · rcases firstRoles_eq_some hold with ⟨_, hrole⟩ | ⟨m, hm, _, hrole⟩
      · cases hrole
      · rw [FrameRole.table.inj hrole]
        have hlt := (List.getElem?_eq_some_iff.mp hm).1
        have hset := (hentries m).trans (decide_eq_true (by omega))
        have hown : now.words (frameOf (frameAddress dir)) m =
            state.words (frameOf (frameAddress dir)) m := hmapped.mapped.own m hset
        refine ⟨(htables m).trans (decide_eq_true (by omega)), ?_⟩
        rw [hown, hframe, h.entries m (by omega), entryOf, hm]
        show frameOf (makeEntry (frameAddress f) 0x003) = f
        have hf' := h.frames f (List.mem_cons_of_mem _ (List.mem_of_getElem? hm))
        rw [frameOf_makeEntry, frameOf_frameAddress (lt_trans hf'.1 (by decide))]
    · exact hnew
  · show now.tablesOf now.kernelPageDir n = decide (n < 3)
    rw [hdir]
    exact htables n
  · rw [hmapped.mapped.procs]
    rfl

/-- The state after the start, when there are frames below 8 MB for the directory and the first
three tables. -/
theorem wp_boot {memory : Kheap.Memory} {procs : Processes} {kernelEnd : ℕ}
    (hprocs : ∀ slot, (procs.tasks slot).pageDir = 0)
    (hlow : 4 ≤ (pmmInit memSize kernelEnd).frames.low) {post : Unit → PagingState → Prop}
    (hpost : ∀ now roles, Booted now roles →
      now.procs = procInit { procs with cr3 := now.kernelPageDir } →
      TakenWithin 515 (pmmInit memSize kernelEnd).frames now.pmm.frames → post () now) :
    wp boot (bootState memory procs kernelEnd) post stopped := by
  have hordered := Pmm.ordered_pmmInit memSize kernelEnd
  have hstart : (bootState memory procs kernelEnd).pmm = pmmInit memSize kernelEnd := rfl
  rw [← hstart] at hordered hlow hpost
  rw [boot, wp_bind]
  refine wp_pagingInit rfl rfl hordered (by omega) fun early dir tables hearly hlength hprocs'
    htaken => ?_
  have hzero : ∀ slot, (early.procs.tasks slot).pageDir = 0 := by
    rw [hprocs']
    exact hprocs
  have ⟨hfewer, hleast, hfree⟩ := htaken
  rw [wp_bind]
  refine hearly.wp_kheapInit hlength hzero (by omega) fun now roles hbooted hnow hheap => ?_
  have hinit : procInit now.procs = procInit { procs with cr3 := now.kernelPageDir } := by
    rw [hnow, hprocs']
    rfl
  have ⟨kernel, hpages, hsane⟩ := hbooted.sane
  refine hpost { now with procs := procInit now.procs } roles
    ⟨⟨kernel, hpages, hsane.withProcs ⟨hsane.dirs.cr3, fun slot hne => absurd rfl hne⟩⟩,
      hbooted.directory, hbooted.table, hbooted.tables⟩ hinit ?_
  exact htaken.trans hheap

end Booted

end HexaOS.Paging
