import HexaOS.PagingInvariants

/-!
# What the paging calls do

One lemma for each function that works on the page tables: which frames it takes, which entries
it changes, and that the rules for the page tables are kept.
-/

namespace HexaOS.Paging

open X86 Process StoreTyping

variable {kernel : KernelLayout} {state state' state'' : PagingState}
  {roles roles' roles'' : ℕ → Option FrameRole} {stopped : PagingState → Prop}

/-- An entry that is not present. -/
theorem present_two : present 0x002 = false := by decide

section Directories

/-- A directory was made in a frame. -/
structure DirectoryMade (kernel : KernelLayout) (state : PagingState)
    (roles : ℕ → Option FrameRole) (f : ℕ) (state' : PagingState) : Prop where
  /-- The state stays sane. -/
  sane : Sane kernel state' (Function.update roles f (some .directory))
  /-- The directory is a new frame. -/
  fresh : roles f = none
  /-- It is below 8 MB. -/
  small : f < lowPages
  /-- The tasks stay. -/
  procs : state'.procs = state.procs
  /-- The directory of the kernel stays. -/
  kernelPageDir : state'.kernelPageDir = state.kernelPageDir
  /-- One frame less is free. -/
  frames : state'.pmm.frames = state.pmm.frames.take
  /-- It has the first 256 entries of the directory of the kernel. -/
  words : ∀ n < 1024, state'.words f n =
    if n < 256 then state.words (frameOf state.kernelPageDir) n else 0x002
  /-- Other frames stay. -/
  bytes : ∀ a, a / 4096 ≠ f → state'.memory a = state.memory a

/-- The address of the new directory. -/
theorem DirectoryMade.isDirectory {f : ℕ} (h : DirectoryMade kernel state roles f state') :
    IsDirectory (Function.update roles f (some .directory)) (frameAddress f) := by
  have hsmall := lt_trans h.small (by decide : lowPages < 8192)
  refine ⟨?_, ?_⟩
  · rw [toNat_frameAddress hsmall, Nat.mul_mod_right]
  · rw [frameOf_frameAddress hsmall, Function.update_self]

/-- The words of the new directory fit the rules. -/
theorem Sane.directory_typed (h : Sane kernel state roles) (htables : kernel.tables ≤ 256) {f : ℕ}
    (hf : roles f = none) {entries : ℕ → UInt32}
    (hentries : ∀ n < 1024, entries n =
      if n < 256 then state.words (frameOf state.kernelPageDir) n else 0x002) :
    LocallyTyped kernel.layout.shape (Function.update roles f (some .directory)) f .directory
      entries := by
  refine locallyTyped_directory.mpr ⟨fun n hn entry hentry => ?_, fun n hn hpresent => ?_⟩
  · have ⟨hlt, heq⟩ := Option.ite_none_right_eq_some.mp hentry
    rw [hentries n hn, if_pos (lt_of_lt_of_le hlt htables), h.shared h.kernelDir.role hlt hn]
    exact Option.some.inj heq
  · rw [hentries n hn] at hpresent ⊢
    by_cases hlt : n < 256
    · rw [if_pos hlt] at hpresent ⊢
      exact ⟨Typed.tableEntry h.typed h.kernelDir.role hn hpresent,
        extends_update hf _ _ _ (Typed.table h.typed h.kernelDir.role hn hpresent)⟩
    · rw [if_neg hlt, present_two] at hpresent
      exact absurd hpresent Bool.false_ne_true

/-- create_user_page_dir, when there is a free frame below 8 MB. -/
theorem Sane.wp_createUserPageDir (h : Sane kernel state roles) (htables : kernel.tables ≤ 256)
    (hlow : 0 < state.pmm.frames.low) {post : UInt32 → PagingState → Prop}
    (hpost : ∀ f state', DirectoryMade kernel state roles f state' →
      post (frameAddress f) state') :
    wp createUserPageDir state post stopped := by
  rw [createUserPageDir, wp_bind]
  refine wp_pmmAlloc_low h.ordered hlow fun f htakes => ?_
  obtain ⟨hgranted, hfresh⟩ := h.grant htakes
  have hsmall := htakes.low hlow
  have hused := hgranted.withUse (htakes.lowFrame hlow)
  have hnotable : ∀ role, roles f = some role → ¬IsTable role :=
    fun role hrole => by cases hfresh.symm.trans hrole
  have hbase := toNat_frameAddress htakes.lt
  simp only [wp_bind, wp_useFrame]
  refine wp_fillWords hbase (hused.direct hnotable hsmall) fun filled hchanges hfilled => ?_
  have hsane := hused.changes hnotable hchanges
  have hdirUsed := hsane.withUse (hsane.lowFrame hsane.kernelDir)
  have hne : frameOf filled.kernelPageDir ≠ f := by
    intro heq
    have hrole := hsane.kernelDir.role
    rw [heq] at hrole
    cases hfresh.symm.trans hrole
  simp only [wp_get, wp_pure]
  refine wp_copyWords hbase hsane.kernelDir.toNat_eq hne (hdirUsed.direct hnotable hsmall)
    (hdirUsed.direct hnotable (hsane.directory_low hsane.kernelDir))
    fun copied hcopied hwords => hpost f copied ?_
  have hcopiedSane := hdirUsed.changes hnotable hcopied
  have hbytes : ∀ a, a / 4096 ≠ f → copied.memory a = state.memory a :=
    fun a ha => (hcopied.bytes a ha).trans (hchanges.bytes a ha)
  have hdir : copied.kernelPageDir = state.kernelPageDir :=
    hcopied.kernelPageDir.trans hchanges.kernelPageDir
  have hpmm : copied.pmm = state.pmm.taking f := hcopied.pmm.trans hchanges.pmm
  have hgrant : copied.granted = (state.grant f).granted := hcopied.granted.trans hchanges.granted
  have hsource : filled.words (frameOf filled.kernelPageDir) =
      state.words (frameOf state.kernelPageDir) := by
    rw [hchanges.words hne, hchanges.kernelPageDir]
    rfl
  have hentries : ∀ n < 1024, copied.words f n =
      if n < 256 then state.words (frameOf state.kernelPageDir) n else 0x002 := by
    intro n hn
    refine (hwords n hn).trans ?_
    by_cases hlt : n < 256
    · rw [if_pos hlt, if_pos hlt]
      exact congrFun hsource n
    · rw [if_neg hlt, if_neg hlt]
      exact hfilled n hn
  refine ⟨?_, hfresh, hsmall, hcopied.procs.trans hchanges.procs, hdir, ?_, hentries, hbytes⟩
  · refine hcopiedSane.addRole hfresh ?_ (fun _ => ⟨hsmall, ?_⟩)
      (h.directory_typed htables hfresh hentries)
    · rw [hpmm, Pmm.taking_used_self]
    · rw [hgrant]
      exact htakes.lowFrame hlow
  · rw [hpmm, htakes.frames]

end Directories

section Tables

/-- The tables that a directory has. -/
def PagingState.tablesOf (state : PagingState) (dir : UInt32) : ℕ → Bool :=
  fun n => present (state.words (frameOf dir) n)

/-- Pages were mapped in a directory. -/
structure Mapped (dir : UInt32) (state : PagingState) (roles : ℕ → Option FrameRole)
    (state' : PagingState) (roles' : ℕ → Option FrameRole) : Prop where
  /-- No frame loses its role. -/
  roles_mono : Extends roles roles'
  /-- The tasks stay. -/
  procs : state'.procs = state.procs
  /-- The directory of the kernel stays. -/
  kernelPageDir : state'.kernelPageDir = state.kernelPageDir
  /-- The other directories keep their entries. -/
  directories : ∀ f, roles f = some .directory → f ≠ frameOf dir → state'.words f = state.words f
  /-- The directory keeps the tables that it had. -/
  own : ∀ n, state.tablesOf dir n = true →
    state'.words (frameOf dir) n = state.words (frameOf dir) n
  /-- New tables belong to the directory. -/
  newTables : ∀ f n, roles' f = some (.table n) → roles f = some (.table n) ∨
    (state'.tablesOf dir n = true ∧ frameOf (state'.words (frameOf dir) n) = f)
  /-- No directory comes in. -/
  newDirectories : ∀ f, roles' f = some .directory → roles f = some .directory
  /-- What was mapped in the directory is mapped. -/
  walks : ∀ v, (walk state.words dir v).isSome = true → (walk state'.words dir v).isSome = true

namespace Mapped

variable {dir : UInt32}

theorem refl : Mapped dir state roles state roles where
  roles_mono := Extends.refl
  procs := rfl
  kernelPageDir := rfl
  directories _ _ _ := rfl
  own _ _ := rfl
  newTables _ _ h := .inl h
  newDirectories _ h := h
  walks _ h := h

/-- A table that the directory had, it has. -/
theorem tablesOf (h : Mapped dir state roles state' roles') {n : ℕ}
    (hn : state.tablesOf dir n = true) : state'.tablesOf dir n = true := by
  rw [PagingState.tablesOf, h.own n hn]
  exact hn

theorem trans (h : Mapped dir state roles state' roles')
    (h' : Mapped dir state' roles' state'' roles'') : Mapped dir state roles state'' roles'' where
  roles_mono := h.roles_mono.trans h'.roles_mono
  procs := h'.procs.trans h.procs
  kernelPageDir := h'.kernelPageDir.trans h.kernelPageDir
  directories f hf hne :=
    (h'.directories f (h.roles_mono _ _ hf) hne).trans (h.directories f hf hne)
  own n hn := (h'.own n (h.tablesOf hn)).trans (h.own n hn)
  newTables f n hf := by
    rcases h'.newTables f n hf with hold | hnew
    · rcases h.newTables f n hold with holder | ⟨hpresent, hframe⟩
      · exact .inl holder
      · rw [← h'.own n hpresent] at hframe
        exact .inr ⟨h'.tablesOf hpresent, hframe⟩
    · exact .inr hnew
  newDirectories f hf := h.newDirectories f (h'.newDirectories f hf)
  walks v hv := h'.walks v (h.walks v hv)

end Mapped

/-- The directory has a table for an index, in a frame. -/
structure TableReady (kernel : KernelLayout) (state : PagingState)
    (roles : ℕ → Option FrameRole) (dir : UInt32) (n f : ℕ) (state' : PagingState)
    (roles' : ℕ → Option FrameRole) : Prop where
  /-- The state stays sane. -/
  sane : Sane kernel state' roles'
  /-- Only the tree of the directory grows. -/
  mapped : Mapped dir state roles state' roles'
  /-- The frame has the role of the table. -/
  role : roles' f = some (.table n)
  /-- The directory leads to it. -/
  frame : frameOf (state'.words (frameOf dir) n) = f
  /-- The directory has the table. -/
  tables : state'.tablesOf dir = Function.update (state.tablesOf dir) n true
  /-- A missing table took a frame. -/
  frames : state'.pmm.frames =
    if state.tablesOf dir n then state.pmm.frames else state.pmm.frames.take
  /-- Frames that wait for a role still wait. -/
  waiting : ∀ q, state.pmm.used q = true → roles q = none →
    state'.pmm.used q = true ∧ roles' q = none

/-- The frame of an entry for a low frame. -/
theorem pageOf_eq_frameAddress {entry : UInt32} {f : ℕ} (hframe : frameOf entry = f)
    (hf : f < lowPages) : pageOf entry = frameAddress f := by
  have hsmall : f < 8192 := lt_trans hf (by decide)
  apply UInt32.toNat_inj.mp
  rw [toNat_pageOf_eq, toNat_frameAddress hsmall, hframe]

/-- The entry for a new table. -/
theorem frameAddress_or_three {f : ℕ} (hf : f < 8192) :
    frameAddress f ||| 0x003 = makeEntry (frameAddress f) 0x003 := by
  refine or_eq_makeEntry ?_ (by decide)
  rw [toNat_frameAddress hf, Nat.mul_mod_right]

/-- The directory had the table already. -/
theorem Sane.tableReady_present (h : Sane kernel state roles) {dir : UInt32}
    (hdir : IsDirectory roles dir) {n : ℕ} (hn : n < 1024) (hpresent : state.tablesOf dir n = true) :
    TableReady kernel state roles dir n (frameOf (state.words (frameOf dir) n)) state roles where
  sane := h
  mapped := Mapped.refl
  role := Typed.table h.typed hdir.role hn hpresent
  frame := rfl
  tables := by rw [← hpresent, Function.update_eq_self]
  frames := by rw [hpresent, if_pos rfl]
  waiting _ hused hnone := ⟨hused, hnone⟩

/-- A directory without a table for an index does not share it. -/
theorem Sane.tables_le (h : Sane kernel state roles) {dir : UInt32} (hdir : IsDirectory roles dir)
    {n : ℕ} (hn : n < 1024) (habsent : state.tablesOf dir n = false) : kernel.tables ≤ n := by
  by_contra hlt
  have hshared := h.shared hdir.role (Nat.lt_of_not_le hlt) hn
  rw [PagingState.tablesOf, hshared, kernel.present_entry n (Nat.lt_of_not_le hlt)] at habsent
  exact Bool.false_ne_true habsent.symm

/-- A table without entries fits the rules, outside the tables of the kernel. -/
theorem KernelLayout.table_typed (kernel : KernelLayout) {n : ℕ} (htables : kernel.tables ≤ n)
    (roles : ℕ → Option FrameRole) (f : ℕ) {entries : ℕ → UInt32}
    (hentries : ∀ i < 1024, entries i = 0x002) :
    LocallyTyped kernel.layout.shape roles f (.table n) entries := by
  refine locallyTyped_table.mpr ⟨fun i hi ok hok => ?_, fun i hi hpresent => ?_⟩
  · have hlt := (Option.ite_none_right_eq_some.mp hok).1
    have hpages := kernel.pages_le
    have hmul : 1024 * kernel.tables ≤ 1024 * n := Nat.mul_le_mul_left _ htables
    omega
  · rw [hentries i hi, present_two] at hpresent
    exact absurd hpresent Bool.false_ne_true

/-- A frame was taken for a table, filled, and entered into the directory. -/
theorem Sane.tableReady_absent (h : Sane kernel state roles) {dir : UInt32}
    (hdir : IsDirectory roles dir) {n : ℕ} (hn : n < 1024)
    (habsent : state.tablesOf dir n = false) (hlow : 0 < state.pmm.frames.low) {f : ℕ}
    (htakes : state.pmm.Takes f) {uses : List UInt32}
    (huses : ∀ frame ∈ uses, LowFrame (state.grant f).granted frame) {filled : PagingState}
    (hchanges : Changes f { state.grant f with uses := uses } filled)
    (hfilled : ∀ i < 1024, filled.words f i = 0x002) :
    TableReady kernel state roles dir n f
      (filled.storeEntry (frameOf dir) n (makeEntry (frameAddress f) 0x003))
      (Function.update roles f (some (.table n))) := by
  have ⟨hgranted, hfresh⟩ := h.grant htakes
  have hused : Sane kernel { state.grant f with uses := uses } roles :=
    { hgranted with uses := huses }
  have htables := h.tables_le hdir hn habsent
  have hold : ∀ f' role, roles f' = some role → filled.words f' = state.words f' := by
    intro f' role hrole
    refine hchanges.words ?_
    rintro rfl
    exact nomatch hfresh.symm.trans hrole
  have hsane : Sane kernel filled (Function.update roles f (some (.table n))) := by
    refine (hused.changes (fun role hrole => nomatch hfresh.symm.trans hrole) hchanges).addRole
      hfresh ?_ (fun _ => ⟨htakes.low hlow, ?_⟩) (kernel.table_typed htables _ f hfilled)
    · rw [hchanges.pmm]
      exact Pmm.taking_used_self
    · rw [hchanges.granted]
      exact htakes.lowFrame hlow
  have hext := extends_update hfresh (FrameRole.table n)
  have hframe : frameOf (makeEntry (frameAddress f) 0x003) = f := by
    rw [frameOf_makeEntry, frameOf_frameAddress htakes.lt]
  have hwords := filled.storeEntry_words hn (makeEntry (frameAddress f) 0x003) (f := frameOf dir)
  have htablesOf : (filled.storeEntry (frameOf dir) n (makeEntry (frameAddress f) 0x003)).tablesOf
      dir = Function.update (state.tablesOf dir) n true := by
    funext m
    rw [PagingState.tablesOf, hwords]
    by_cases hm : m = n
    · rw [hm, setEntry_self, Function.update_self, present_makeEntry]
      rfl
    · rw [setEntry_of_ne (.inr hm), Function.update_of_ne hm, hold _ _ hdir.role]
      rfl
  have hentry : (filled.storeEntry (frameOf dir) n (makeEntry (frameAddress f) 0x003)).words
      (frameOf dir) n = makeEntry (frameAddress f) 0x003 := by
    rw [hwords, setEntry_self]
  refine ⟨?_, ⟨hext, hchanges.procs, hchanges.kernelPageDir, ?_, ?_, ?_, ?_, fun v hv => ?_⟩, ?_, ?_,
    htablesOf, ?_, ?_⟩
  · refine hsane.setDirectory (hdir.mono hext).role hn htables fun _ => ⟨?_, ?_⟩
    · rw [userAccess_makeEntry]
      rfl
    · rw [hframe, Function.update_self]
  · intro f' hf' hne
    rw [hwords]
    funext m
    rw [setEntry_of_ne (.inl hne), hold _ _ hf']
  · intro m hm
    have hne : m ≠ n := by
      rintro rfl
      exact Bool.false_ne_true (habsent.symm.trans hm)
    rw [hwords, setEntry_of_ne (.inr hne), hold _ _ hdir.role]
  · intro f' n' hf'
    by_cases heq : f' = f
    · rw [heq, Function.update_self] at hf'
      have hsame : n = n' := FrameRole.table.inj (Option.some.inj hf')
      rw [heq, ← hsame, htablesOf, hentry]
      exact .inr ⟨Function.update_self _ _ _, hframe⟩
    · rw [Function.update_of_ne heq] at hf'
      exact .inl hf'
  · intro f' hf'
    by_cases heq : f' = f
    · rw [heq, Function.update_self] at hf'
      exact nomatch hf'
    · rwa [Function.update_of_ne heq] at hf'
  · have hpresent : state.tablesOf dir (directoryIndex v) = true := by
      have ⟨_, hentries⟩ := Option.isSome_iff_exists.mp hv
      have ⟨hpde, hset, _⟩ := walk_eq_some hentries
      rw [PagingState.tablesOf, hpde]
      exact hset
    have hne : directoryIndex v ≠ n := by
      intro heq
      rw [heq] at hpresent
      exact Bool.false_ne_true (habsent.symm.trans hpresent)
    refine h.walk_kept hdir hv ?_ fun g hg hset => ?_
    · rw [hwords, setEntry_of_ne (.inr hne), hold _ _ hdir.role]
    · have hgd : g ≠ frameOf dir := by
        rintro rfl
        exact nomatch hg.symm.trans hdir.role
      rw [hwords, setEntry_of_ne (.inl hgd), hold _ _ hg]
      exact hset
  · exact Function.update_self _ _ _
  · rw [hentry, hframe]
  · rw [habsent, if_neg Bool.false_ne_true]
    exact (congrArg Pmm.frames hchanges.pmm).trans htakes.frames
  · intro q hq hnone
    have hne : q ≠ f := by
      rintro rfl
      exact Bool.false_ne_true (htakes.free.symm.trans hq)
    refine ⟨?_, by rw [Function.update_of_ne hne, hnone]⟩
    exact (congrArg (Pmm.used · q) hchanges.pmm).trans (Pmm.taking_used hq)

/-- More uses of frames do not matter. -/
theorem TableReady.withUse {dir : UInt32} {n f : ℕ}
    (h : TableReady kernel state roles dir n f state' roles') {frame : UInt32}
    (hframe : LowFrame state'.granted frame) :
    TableReady kernel state roles dir n f { state' with uses := state'.uses ++ [frame] } roles' where
  __ := h
  sane := h.sane.withUse hframe
  mapped := { h.mapped with }

/-- The second half of pageTable, when the directory has the table. -/
theorem Sane.wp_tableOf (h : Sane kernel state roles) {dir v : UInt32} (hdir : IsDirectory roles dir)
    {f : ℕ} (hrole : roles f = some (.table (directoryIndex v)))
    (hframe : frameOf (state.words (frameOf dir) (directoryIndex v)) = f)
    {post : UInt32 → PagingState → Prop}
    (hpost : post (frameAddress f) { state with uses := state.uses ++ [frameAddress f] }) :
    wp (loadWord (dir + 4 * UInt32.ofNat (directoryIndex v)) >>= fun pde => do
      useFrame (pageOf pde)
      pure (pageOf pde)) state post stopped := by
  rw [wp_bind]
  refine h.wp_loadEntry hdir.toNat_eq (h.directory_low hdir) (directoryIndex_lt v) rfl ?_
  have haddress := pageOf_eq_frameAddress hframe (h.low f _ hrole trivial).1
  simp only [wp_bind, wp_useFrame, wp_pure, haddress]
  exact hpost

/-- The table for an address that has one. -/
theorem Sane.wp_pageTable_present (h : Sane kernel state roles) {dir v : UInt32}
    (hdir : IsDirectory roles dir) (hpresent : state.tablesOf dir (directoryIndex v) = true)
    {f : ℕ} (hframe : frameOf (state.words (frameOf dir) (directoryIndex v)) = f)
    {post : UInt32 → PagingState → Prop}
    (hpost : post (frameAddress f)
      { state with uses := state.uses ++ [dir] ++ [frameAddress f] }) :
    wp (pageTable dir v) state post stopped := by
  have hn := directoryIndex_lt v
  have hused := h.withUse (h.lowFrame hdir)
  have hrole := Typed.table h.typed hdir.role hn hpresent
  rw [hframe] at hrole
  have hskip : ¬(!state.tablesOf dir (directoryIndex v)) = true := by simp [hpresent]
  simp only [pageTable, wp_bind, wp_useFrame]
  refine hused.wp_loadEntry hdir.toNat_eq (h.directory_low hdir) hn rfl (wp_if_neg hskip ?_)
  exact hused.wp_tableOf hdir hrole hframe hpost

/-- The table for an address. A new one takes a frame, which has to lie below 8 MB. -/
theorem Sane.wp_pageTable (h : Sane kernel state roles) {dir v : UInt32}
    (hdir : IsDirectory roles dir)
    (hlow : state.tablesOf dir (directoryIndex v) = false → 0 < state.pmm.frames.low)
    {post : UInt32 → PagingState → Prop}
    (hpost : ∀ f state' roles', TableReady kernel state roles dir (directoryIndex v) f state' roles' →
      post (frameAddress f) state') :
    wp (pageTable dir v) state post stopped := by
  have hn := directoryIndex_lt v
  by_cases hpresent : state.tablesOf dir (directoryIndex v) = true
  · have hready := h.tableReady_present hdir hn hpresent
    refine h.wp_pageTable_present hdir hpresent rfl (hpost _ _ _
      ((hready.withUse (h.lowFrame hdir)).withUse ?_))
    exact (h.low _ _ hready.role trivial).2
  · have habsent : state.tablesOf dir (directoryIndex v) = false := Bool.eq_false_iff.mpr hpresent
    have hmake : (!state.tablesOf dir (directoryIndex v)) = true := by simp [habsent]
    have hused := h.withUse (h.lowFrame hdir)
    simp only [pageTable, wp_bind, wp_useFrame]
    refine hused.wp_loadEntry hdir.toNat_eq (h.directory_low hdir) hn rfl
      (wp_if_pos hmake ?_)
    rw [wp_bind]
    refine wp_pmmAlloc_low h.ordered (hlow habsent) fun f htakes => ?_
    obtain ⟨hgranted, hfresh⟩ := hused.grant htakes
    have hboth := hgranted.withUse (htakes.lowFrame (hlow habsent))
    have hnotable : ∀ role, roles f = some role → ¬IsTable role :=
      fun role hrole => by cases hfresh.symm.trans hrole
    simp only [wp_bind, wp_useFrame]
    refine wp_fillWords (toNat_frameAddress htakes.lt)
      (hboth.direct hnotable (htakes.low (hlow habsent))) fun filled hchanges hfilled => ?_
    have hfilledSane := hboth.changes hnotable hchanges
    refine hfilledSane.wp_storeEntry hdir.toNat_eq (h.directory_low hdir) hn ?_
    rw [frameAddress_or_three htakes.lt]
    have hready := h.tableReady_absent hdir hn habsent (hlow habsent) htakes hboth.uses hchanges
      hfilled
    refine wp_bind.mp (hready.sane.wp_tableOf (hdir.mono hready.mapped.roles_mono) hready.role
      hready.frame ?_)
    exact hpost f _ _ (hready.withUse (hready.sane.low f _ hready.role trivial).2)

end Tables

section Pages

/-- A page was mapped in a directory. -/
structure PageMapped (kernel : KernelLayout) (state : PagingState) (roles : ℕ → Option FrameRole)
    (dir v : UInt32) (state' : PagingState) (roles' : ℕ → Option FrameRole) : Prop where
  /-- The state stays sane. -/
  sane : Sane kernel state' roles'
  /-- Only the tree of the directory grows. -/
  mapped : Mapped dir state roles state' roles'
  /-- The directory has the table. -/
  tables : state'.tablesOf dir = Function.update (state.tablesOf dir) (directoryIndex v) true
  /-- A missing table took a frame. -/
  frames : state'.pmm.frames =
    if state.tablesOf dir (directoryIndex v) then state.pmm.frames else state.pmm.frames.take
  /-- The address is mapped. -/
  walk : (walk state'.words dir v).isSome = true

/-- The entry for a page is put into its table. -/
theorem TableReady.pageMapped {dir v : UInt32} {f q : ℕ} {entry : UInt32}
    (h : TableReady kernel state roles dir (directoryIndex v) f state' roles')
    (hdir : IsDirectory roles dir) (hv : kernel.pages ≤ v.toNat / 4096)
    (hused : state'.pmm.used q = true) (hq : roles' q = none) (hentry : frameOf entry = q)
    (hpresent : present entry = true) :
    PageMapped kernel state roles dir v (state'.storeEntry f (tableIndex v) entry)
      (Function.update roles' q (some (.page (v.toNat / 4096)))) := by
  have hext := extends_update hq (FrameRole.page (v.toNat / 4096))
  have hdir' := hdir.mono h.mapped.roles_mono
  have hsane : Sane kernel state' (Function.update roles' q (some (.page (v.toNat / 4096)))) :=
    h.sane.addRole hq hused (fun htable => htable.elim) (locallyTyped_page q _ _)
  have hne : frameOf dir ≠ f := by
    intro heq
    have hrole := hdir'.role
    rw [heq, h.role] at hrole
    exact nomatch hrole
  have hwords := state'.storeEntry_words (tableIndex_lt v) entry (f := f)
  have hown : (state'.storeEntry f (tableIndex v) entry).words (frameOf dir) =
      state'.words (frameOf dir) := by
    funext n
    rw [hwords, setEntry_of_ne (.inl hne)]
  have htables : (state'.storeEntry f (tableIndex v) entry).tablesOf dir = state'.tablesOf dir := by
    funext n
    rw [PagingState.tablesOf, hown]
    rfl
  have hwalks : ∀ w, (walk state'.words dir w).isSome = true →
      (walk (state'.storeEntry f (tableIndex v) entry).words dir w).isSome = true := by
    intro w hw
    refine h.sane.walk_kept hdir' hw (congrFun hown _) fun g hg hset => ?_
    rw [hwords]
    by_cases hsame : g = f ∧ tableIndex w = tableIndex v
    · rw [hsame.1, hsame.2, setEntry_self]
      exact hpresent
    · rw [setEntry_of_ne (not_and_or.mp hsame)]
      exact hset
  have hwalk : (walk (state'.storeEntry f (tableIndex v) entry).words dir v).isSome = true := by
    have hset : (state'.storeEntry f (tableIndex v) entry).tablesOf dir (directoryIndex v) =
        true := by
      rw [htables, h.tables, Function.update_self]
    have hpte : (state'.storeEntry f (tableIndex v) entry).words f (tableIndex v) = entry := by
      rw [hwords, setEntry_self]
    rw [walk_eq (congrFun hown _) (by rwa [PagingState.tablesOf, hown] at hset) (h.frame ▸ hpte)
      hpresent]
    rfl
  refine ⟨?_, h.mapped.trans ⟨hext, rfl, rfl, ?_, ?_, ?_, ?_, hwalks⟩, htables.trans h.tables,
    h.frames, hwalk⟩
  · refine hsane.setTable (hext _ _ h.role) (tableIndex_lt v) (fun hlt => ?_) fun _ _ => ?_
    · rw [indices_eq] at hlt
      omega
    · rw [hentry, indices_eq, Function.update_self]
  · intro d hd _
    have hdf : d ≠ f := by
      rintro rfl
      exact nomatch hd.symm.trans h.role
    rw [hwords]
    funext n
    rw [setEntry_of_ne (.inl hdf)]
  · intro n _
    rw [hown]
  · intro d n hd
    by_cases heq : d = q
    · rw [heq, Function.update_self] at hd
      exact nomatch hd
    · rw [Function.update_of_ne heq] at hd
      exact .inl hd
  · intro d hd
    by_cases heq : d = q
    · rw [heq, Function.update_self] at hd
      exact nomatch hd
    · rwa [Function.update_of_ne heq] at hd

/-- map_page_in_dir, for a page outside the kernel and a frame that was taken for it. -/
theorem Sane.wp_mapPageInDir (h : Sane kernel state roles) {dir v : UInt32}
    (hdir : IsDirectory roles dir) (hv : kernel.pages ≤ v.toNat / 4096) {q : ℕ} (hsmall : q < 8192)
    (hused : state.pmm.used q = true) (hq : roles q = none)
    (hlow : state.tablesOf dir (directoryIndex v) = false → 0 < state.pmm.frames.low)
    {flags : UInt32} (hflags : present flags = true) {post : Unit → PagingState → Prop}
    (hpost : ∀ state' roles', PageMapped kernel state roles dir v state' roles' → post () state') :
    wp (mapPageInDir dir v (frameAddress q) flags) state post stopped := by
  rw [mapPageInDir, wp_bind]
  refine h.wp_pageTable hdir hlow fun f now roles' hready => ?_
  have ⟨hused', hq'⟩ := hready.waiting q hused hq
  have hf := (hready.sane.low f _ hready.role trivial).1
  refine hready.sane.wp_storeEntry (toNat_frameAddress (lt_trans hf (by decide))) hf
    (tableIndex_lt v) ?_
  refine hpost _ _ (hready.pageMapped hdir hv hused' hq' ?_ ?_)
  · rw [frameOf_makeEntry, frameOf_frameAddress hsmall]
  · rw [present_makeEntry, hflags]

/-- The end of the memory of the kernel: 8 MB and the heap. -/
def kernelTop : UInt32 := 0x00900000

/-- Pages that can be mapped one after the other, with frames for all tables below 8 MB, as long
as there are frames at all, and what holds of the allocator and the directory afterwards. -/
def SafePages (done : Frames → (ℕ → Bool) → Prop) : Frames → (ℕ → Bool) → List UInt32 → Prop
  | frames, tables, [] => done frames tables
  | frames, tables, v :: rest => frames.free ≠ 0 → kernelTop ≤ v ∧
    if tables (directoryIndex v) then SafePages done frames.take tables rest
    else 0 < frames.take.low ∧
      SafePages done frames.take.take (Function.update tables (directoryIndex v) true) rest

/-- The first of the pages. -/
theorem SafePages.step {done : Frames → (ℕ → Bool) → Prop} {frames : Frames} {tables : ℕ → Bool}
    {v : UInt32} {rest : List UInt32} (h : SafePages done frames tables (v :: rest))
    (hfree : frames.free ≠ 0) :
    kernelTop ≤ v ∧ (tables (directoryIndex v) = false → 0 < frames.take.low) ∧
      SafePages done (if tables (directoryIndex v) then frames.take else frames.take.take)
        (Function.update tables (directoryIndex v) true) rest := by
  have ⟨hv, hrest⟩ := h hfree
  refine ⟨hv, ?_⟩
  by_cases hpresent : tables (directoryIndex v) = true
  · have hsame : Function.update tables (directoryIndex v) true = tables := by
      rw [← hpresent, Function.update_eq_self]
    rw [if_pos hpresent] at hrest ⊢
    rw [hsame]
    exact ⟨fun habsent => absurd (hpresent.symm.trans habsent) (by decide), hrest⟩
  · rw [if_neg hpresent] at hrest ⊢
    exact ⟨fun _ => hrest.1, hrest.2⟩

/-- Pages under a table that the directory has. -/
theorem SafePages.region {done : Frames → (ℕ → Bool) → Prop} {tables : ℕ → Bool} {n : ℕ}
    (htable : tables n = true) {vs rest : List UInt32}
    (hvs : ∀ v ∈ vs, kernelTop ≤ v ∧ directoryIndex v = n) {frames : Frames}
    (h : SafePages done ⟨frames.low - vs.length, frames.free - vs.length⟩ tables rest) :
    SafePages done frames tables (vs ++ rest) := by
  induction vs generalizing frames with
  | nil => exact h
  | cons v vs ih =>
    have ⟨hv, hindex⟩ := hvs v List.mem_cons_self
    refine fun _ => ⟨hv, ?_⟩
    rw [hindex, if_pos htable]
    refine ih (fun w hw => hvs w (List.mem_cons_of_mem _ hw)) ?_
    have hlow : frames.low - 1 - vs.length = frames.low - (vs.length + 1) := by omega
    have hfree : frames.free - 1 - vs.length = frames.free - (vs.length + 1) := by omega
    show SafePages done ⟨frames.low - 1 - vs.length, frames.free - 1 - vs.length⟩ tables rest
    rw [hlow, hfree]
    exact h

/-- Pages under a new table. -/
theorem SafePages.newRegion {done : Frames → (ℕ → Bool) → Prop} {tables : ℕ → Bool} {n : ℕ}
    (htable : tables n = false) {v : UInt32} {vs rest : List UInt32}
    (hvs : ∀ w ∈ v :: vs, kernelTop ≤ w ∧ directoryIndex w = n) {frames : Frames}
    (hlow : 2 ≤ frames.low)
    (h : SafePages done ⟨frames.low - (vs.length + 2), frames.free - (vs.length + 2)⟩
      (Function.update tables n true) rest) :
    SafePages done frames tables (v :: vs ++ rest) := by
  have ⟨hv, hindex⟩ := hvs v List.mem_cons_self
  refine fun _ => ⟨hv, ?_⟩
  rw [hindex, if_neg (by rw [htable]; exact Bool.false_ne_true)]
  refine ⟨Nat.sub_pos_of_lt hlow, SafePages.region (Function.update_self n true tables)
    (fun w hw => hvs w (List.mem_cons_of_mem _ hw)) ?_⟩
  have hless : frames.low - 1 - 1 - vs.length = frames.low - (vs.length + 2) := by omega
  have hfree : frames.free - 1 - 1 - vs.length = frames.free - (vs.length + 2) := by omega
  show SafePages done ⟨frames.low - 1 - 1 - vs.length, frames.free - 1 - 1 - vs.length⟩ _ rest
  rw [hless, hfree]
  exact h

theorem div_le_of_kernelTop_le {v : UInt32} (h : kernelTop ≤ v) : 2304 ≤ v.toNat / 4096 := by
  have hle : (0x00900000 : UInt32).toNat ≤ v.toNat := UInt32.le_iff_toNat_le.mp h
  simp only [UInt32.reduceToNat] at hle
  omega

/-- A loop over two lists of pages. -/
theorem wp_mapPages_append {map : UInt32 → UInt32 → PagingM Unit} {vs ws : List UInt32}
    {post : Bool → PagingState → Prop}
    (h : wp (mapPages map vs) state (fun ok now =>
      if ok then wp (mapPages map ws) now post stopped else post false now) stopped) :
    wp (mapPages map (vs ++ ws)) state post stopped := by
  induction vs generalizing state with
  | nil => exact h
  | cons v rest ih =>
    rw [mapPages, wp_bind] at h
    rw [List.cons_append, mapPages, wp_bind]
    refine wp_mono h (fun phys now hnow => ?_) fun _ hstop => hstop
    by_cases hphys : phys = 0
    · rw [if_pos hphys] at hnow ⊢
      exact hnow
    · rw [if_neg hphys, wp_bind] at hnow
      rw [if_neg hphys, wp_bind]
      exact wp_mono hnow (fun _ now' hnow' => ih hnow') fun _ hstop => hstop

/-- At one of the pages no frame is left, when each takes one and each missing table another. -/
def OutOfFrames : Frames → (ℕ → Bool) → List UInt32 → Prop
  | _, _, [] => False
  | frames, tables, v :: rest => frames.free = 0 ∨
    OutOfFrames (if tables (directoryIndex v) then frames.take else frames.take.take)
      (Function.update tables (directoryIndex v) true) rest

/-- The frames that are left and the tables of the directory, when the pages are mapped as far as
the frames suffice. -/
def framesAfter : Frames → (ℕ → Bool) → List UInt32 → Frames × (ℕ → Bool)
  | frames, tables, [] => (frames, tables)
  | frames, tables, v :: rest =>
    if frames.free = 0 then (frames, tables)
    else framesAfter (if tables (directoryIndex v) then frames.take else frames.take.take)
      (Function.update tables (directoryIndex v) true) rest

/-- A loop has mapped its pages, or it has stopped without a free frame. -/
structure PagesMapped (kernel : KernelLayout) (state : PagingState) (roles : ℕ → Option FrameRole)
    (dir : UInt32) (vs : List UInt32) (ok : Bool) (now : PagingState)
    (roles' : ℕ → Option FrameRole) : Prop where
  /-- The state stays sane. -/
  sane : Sane kernel now roles'
  /-- Only the tree of the directory grows. -/
  mapped : Mapped dir state roles now roles'
  /-- A page takes a frame for itself, and one for its table. -/
  taken : state.pmm.frames.free ≤ now.pmm.frames.free + 2 * vs.length
  /-- When all goes well, the pages are mapped. -/
  walks : ok = true → ∀ v ∈ vs, (walk now.words dir v).isSome = true
  /-- Otherwise no frame is left. -/
  out : ok = false → now.pmm.frames.free = 0
  /-- It fails exactly when the frames do not suffice. -/
  out_iff : ok = false ↔ OutOfFrames state.pmm.frames (state.tablesOf dir) vs
  /-- The frames and tables that are left. -/
  after : (now.pmm.frames, now.tablesOf dir) =
    framesAfter state.pmm.frames (state.tablesOf dir) vs
  /-- Without a free frame nothing happens. -/
  none : state.pmm.frames.free = 0 → now = state

/-- The first page and the others. -/
theorem PagesMapped.cons {dir v : UInt32} {rest : List UInt32} {ok : Bool}
    {granted : PagingState} (hpage : PageMapped kernel granted roles dir v state' roles')
    (hmoved : Mapped dir state roles state' roles') (hfree : 0 < state.pmm.frames.free)
    (hframes : granted.pmm.frames = state.pmm.frames.take)
    (htables : granted.tablesOf dir = state.tablesOf dir)
    (h : PagesMapped kernel state' roles' dir rest ok state'' roles'') :
    PagesMapped kernel state roles dir (v :: rest) ok state'' roles'' where
  sane := h.sane
  mapped := hmoved.trans h.mapped
  taken := by
    have htaken := h.taken
    have hnow := hpage.frames
    rw [hframes] at hnow
    have hleast : state.pmm.frames.free - 2 ≤ state'.pmm.frames.free := by
      rw [hnow]
      split
      · exact Nat.sub_le_sub_left (by decide) _
      · exact Nat.le_refl _
    rw [List.length_cons]
    omega
  walks hok w hw := by
    rcases List.mem_cons.mp hw with rfl | htail
    · exact h.mapped.walks w hpage.walk
    · exact h.walks hok w htail
  out := h.out
  out_iff := by
    have hrest := h.out_iff
    rw [hpage.frames, hpage.tables, hframes, htables] at hrest
    rw [hrest, OutOfFrames, or_iff_right (Nat.ne_of_gt hfree)]
  after := by
    have hrest := h.after
    rw [hpage.frames, hpage.tables, hframes, htables] at hrest
    rw [hrest, framesAfter, if_neg (Nat.ne_of_gt hfree)]
  none hnone := absurd hnone (Nat.ne_of_gt hfree)

/-- The loops that map pages. `map` stands for map_page_in_dir, or for map_page in the directory
of the current task. -/
theorem Sane.wp_mapPages (hkernel : kernel.pages ≤ 2304) {dir flags : UInt32}
    (hflags : present flags = true) {map : UInt32 → UInt32 → PagingM Unit} {procs : Processes}
    (hmap : ∀ v phys now, now.procs = procs →
      exec (map v phys) now = exec (mapPageInDir dir v phys flags) now)
    {done : Frames → (ℕ → Bool) → Prop} {post : Bool → PagingState → Prop} {vs : List UInt32}
    (h : Sane kernel state roles) (hdir : IsDirectory roles dir) (hprocs : state.procs = procs)
    (hsafe : SafePages done state.pmm.frames (state.tablesOf dir) vs)
    (hpost : ∀ ok now roles', PagesMapped kernel state roles dir vs ok now roles' →
      (ok = true → done now.pmm.frames (now.tablesOf dir)) → post ok now) :
    wp (mapPages map vs) state post stopped := by
  induction vs generalizing state roles with
  | nil =>
    refine hpost true state roles ⟨h, Mapped.refl, Nat.le_refl _, fun _ v hv => ?_, nofun,
      ⟨nofun, False.elim⟩, rfl, fun _ => rfl⟩ fun _ => hsafe
    exact absurd hv List.not_mem_nil
  | cons v rest ih =>
    rw [mapPages, wp_bind]
    refine wp_pmmAlloc h.ordered (fun hnone => wp_if_pos rfl ?_)
      fun q htakes => wp_if_neg (frameAddress_ne_zero htakes.lt htakes.ne_zero) ?_
    · refine hpost false state roles
        ⟨h, Mapped.refl, Nat.le_add_right _ _, nofun, fun _ => hnone,
          iff_of_true rfl (.inl hnone), ?_, fun _ => rfl⟩ nofun
      rw [framesAfter, if_pos hnone]
    · have ⟨hgranted, hfresh⟩ := h.grant htakes
      have ⟨hv, hlow, hrest⟩ := hsafe.step (Nat.ne_of_gt htakes.positive)
      have hpage := le_trans hkernel (div_le_of_kernelTop_le hv)
      have hframes : (state.grant q).pmm.frames = state.pmm.frames.take := htakes.frames
      rw [← hframes] at hlow hrest
      rw [wp_bind]
      refine wp_congr (hmap v _ _ hprocs) ?_
      refine hgranted.wp_mapPageInDir hdir hpage htakes.lt Pmm.taking_used_self hfresh hlow hflags
        fun now roles' hmapped => ?_
      have hmoved : Mapped dir state roles now roles' := { hmapped.mapped with }
      refine ih hmapped.sane (hdir.mono hmoved.roles_mono) (hmoved.procs.trans hprocs) ?_
        fun ok now' roles'' hrun hdone => hpost ok now' roles'' (.cons hmapped hmoved
          htakes.positive hframes rfl hrun) hdone
      rw [hmapped.tables, hmapped.frames]
      exact hrest

end Pages

end HexaOS.Paging
