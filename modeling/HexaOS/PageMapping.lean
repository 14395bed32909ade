import HexaOS.PageTrees
import HexaOS.PagingRuns

/-!
# Mapping a page

map_page, unmap_page and map_page_in_dir on any directory whose frames are distinct and mapped
to themselves. What they leave in memory is given by the words: a table for the address, and
its entry. That does not depend on the directory in cr3, so the two copies of the code agree.
-/

namespace HexaOS.Paging

open X86 Process

variable {state state' : PagingState} {dir v w phys flags entry : UInt32} {f g i page : ℕ}
  {stopped : PagingState → Prop}

/-- Accesses to a frame by its physical address reach it. -/
def IdentityMapped (state : PagingState) (f : ℕ) : Prop :=
  ∀ v : UInt32, v.toNat / 4096 = f → state.translate v = some v.toNat

/-- A directory whose frames are distinct and mapped to themselves. -/
structure Workable (state : PagingState) (dir : UInt32) : Prop where
  /-- The directory begins at a page. -/
  aligned : dir.toNat % 4096 = 0
  /-- Its tables are separate frames. -/
  separated : Separated state.words dir
  /-- The frames of the tree are mapped to themselves. -/
  identity : ∀ f, InTree state.words dir f → IdentityMapped state f

/-- pmm_alloc returns a frame that is not 0 and holds no directory or table, to which the
kernel has access as to the other tables. -/
structure GetsFresh (state : PagingState) (dir : UInt32) (page : ℕ) : Prop where
  /-- The allocator takes this frame. -/
  choose : state.pmm.choose = some page
  /-- It is not frame 0. -/
  ne_zero : frameAddress page ≠ 0
  /-- It is not in the tree. -/
  fresh : ¬InTree state.words dir (frameOf (frameAddress page))
  /-- It is not in the tree of cr3. -/
  fresh_current : ¬InTree state.words state.procs.cr3 (frameOf (frameAddress page))
  /-- It is mapped to itself. -/
  identity : IdentityMapped state (frameOf (frameAddress page))

/-- A directory is missing a table for an address. -/
def NeedsTable (state : PagingState) (dir v : UInt32) : Prop :=
  present (tableEntry state.words dir v) = false

/-- The state with another directory in cr3. -/
def PagingState.withCr3 (state : PagingState) (dir : UInt32) : PagingState :=
  { state with procs := { state.procs with cr3 := dir } }

theorem PagingState.withCr3_self (state : PagingState) :
    state.withCr3 state.procs.cr3 = state := rfl

/-- The entry for the table that a directory gets. -/
def newTable (state : PagingState) : UInt32 :=
  match state.pmm.choose with
  | some page => makeEntry (frameAddress page) 0x003
  | none => 0x003

/-- The allocator once a directory has a table for an address. -/
def pmmWithTable (state : PagingState) (dir v : UInt32) : Pmm :=
  if present (tableEntry state.words dir v) then state.pmm
  else match state.pmm.choose with
    | some page => state.pmm.taking page
    | none => state.pmm

/-- The address of a frame is that of a page. -/
theorem toNat_frameAddress_eq (page : ℕ) :
    (frameAddress page).toNat = 4096 * frameOf (frameAddress page) := by
  have hmod : (frameAddress page).toNat = 4096 * page % 4294967296 := UInt32.toNat_ofNat'
  rw [frameOf]
  omega

/-- The entry for a new table. -/
theorem frameAddress_or (page : ℕ) :
    frameAddress page ||| 0x003 = makeEntry (frameAddress page) 0x003 := by
  have haddress := toNat_frameAddress_eq page
  exact or_eq_makeEntry (by omega) (by decide)

section Access

/-- The accesses depend on the memory, on cr0 and on cr3. -/
theorem IdentityMapped.of_same (h : IdentityMapped state g) (hmemory : state'.memory = state.memory)
    (henabled : state'.enabled = state.enabled) (hprocs : state'.procs = state.procs) :
    IdentityMapped state' g := by
  intro v hv
  rw [← h v hv, PagingState.translate, PagingState.translate, PagingState.words, PagingState.words,
    hmemory, henabled, hprocs]

/-- While a frame outside the current tree changes, the accesses stay direct. -/
theorem IdentityMapped.direct (h : IdentityMapped state g)
    (hf : ¬InTree state.words state.procs.cr3 f) : Direct f g state := by
  intro state' hchanges v hv
  have hwalk : walk state'.words state.procs.cr3 v = walk state.words state.procs.cr3 v :=
    walk_eq_of_tree (fun f' hf' => hchanges.words fun heq => hf (heq ▸ hf')) v
  have hsame : state'.translate v = state.translate v := by
    rw [PagingState.translate, PagingState.translate, X86.translate, X86.translate,
      hchanges.procs, hwalk, hchanges.rest]
    rfl
  rw [hsame, h v hv]

/-- An entry that was not present may be stored without an access being lost. -/
theorem IdentityMapped.storeEntry (h : IdentityMapped state g) (hi : i < 1024)
    (habsent : present (state.words f i) = false) :
    IdentityMapped (state.storeEntry f i entry) g := by
  intro v hv
  have hbefore := h v hv
  rw [PagingState.translate] at hbefore ⊢
  by_cases henabled : state.enabled = true
  · rw [if_pos henabled, X86.translate, Option.map_eq_some_iff] at hbefore
    obtain ⟨found, hwalk, haddress⟩ := hbefore
    have hkept : walk (setEntry state.words f i entry) state.procs.cr3 v = some found :=
      walk_setEntry habsent hwalk
    have henabled' : (state.storeEntry f i entry).enabled = true := henabled
    have hcr3 : (state.storeEntry f i entry).procs.cr3 = state.procs.cr3 := rfl
    rw [if_pos henabled', X86.translate, state.storeEntry_words hi, hcr3, hkept, Option.map_some,
      haddress]
  · have hdisabled : ¬(state.storeEntry f i entry).enabled = true := henabled
    exact if_neg hdisabled

/-- A load from a frame that is mapped to itself. -/
theorem IdentityMapped.wp_load {base word : UInt32} (h : IdentityMapped state f)
    (hbase : base.toNat = 4096 * f) (hi : i < 1024) (hword : state.words f i = word)
    {post : UInt32 → PagingState → Prop} (hpost : post word state) :
    wp (loadWord (base + 4 * UInt32.ofNat i)) state post stopped := by
  have haddress := toNat_entryAddress hbase hi
  refine wp_loadWord (h _ (by omega)) ?_
  rw [haddress, word_eq_words state hi, hword]
  exact hpost

/-- A store to a frame that is mapped to itself. -/
theorem IdentityMapped.wp_store {base word : UInt32} (h : IdentityMapped state f)
    (hbase : base.toNat = 4096 * f) (hi : i < 1024) {post : Unit → PagingState → Prop}
    (hpost : post () (state.storeEntry f i word)) :
    wp (storeWord (base + 4 * UInt32.ofNat i) word) state post stopped := by
  have haddress := toNat_entryAddress hbase hi
  refine wp_storeWord (h _ (by omega)) ?_
  rw [haddress]
  exact hpost

end Access

section Calls

/-- What pageTable leaves: the directory has a table for the address. -/
structure TableMade (state : PagingState) (dir v : UInt32) (state' : PagingState) : Prop where
  /-- The words are those with the table. -/
  words : state'.words = withTable state.words dir v (newTable state)
  /-- The tasks stay. -/
  procs : state'.procs = state.procs
  /-- The allocator has given its frames. -/
  pmm : state'.pmm = pmmWithTable state dir v
  /-- The table can be used through its address. -/
  identity : IdentityMapped state' (frameOf (tableEntry state'.words dir v))

/-- A frame whose words are all those of a blank table. -/
theorem Changes.words_blank (h : Changes f state state')
    (hfilled : ∀ i < 1024, state'.words f i = 0x002) :
    state'.words = Function.update state.words f blankTable := by
  funext g i
  by_cases hg : g = f
  · rw [hg, Function.update_self, blankTable]
    split_ifs with hi
    · exact hfilled i hi
    · exact if_neg hi
  · rw [Function.update_of_ne hg, h.words hg]

/-- A frame that is taken. -/
theorem wp_pmmAlloc_some (hchoose : state.pmm.choose = some page)
    {post : UInt32 → PagingState → Prop} (hpost : post (frameAddress page) (state.grant page)) :
    wp pmmAlloc state post stopped := by
  rw [pmmAlloc, wp_bind, wp_get, hchoose]
  exact hpost

/-- A directory is the address of its frame. -/
theorem Workable.toNat_eq (h : Workable state dir) : dir.toNat = 4096 * frameOf dir := by
  have haligned := h.aligned
  rw [frameOf]
  omega

/-- The fresh frame is cleared and becomes a table of the directory. -/
theorem GetsFresh.wp_fillTable (hpage : GetsFresh state dir page) (h : Workable state dir)
    (hneeds : NeedsTable state dir v) {now : PagingState} (hmemory : now.memory = state.memory)
    (henabled : now.enabled = state.enabled) (hprocs : now.procs = state.procs)
    (hpmm : now.pmm = state.pmm.taking page) {rest : PagingM UInt32}
    {post : UInt32 → PagingState → Prop}
    (hpost : ∀ state', TableMade state dir v state' → IdentityMapped state' (frameOf dir) →
      wp rest state' post stopped) :
    wp (fillWords (frameAddress page) (fun _ => 0x002) 1024 0) now (fun _ filled =>
      wp (storeWord (dir + 4 * UInt32.ofNat (directoryIndex v)) (frameAddress page ||| 0x003) >>=
        fun _ => rest) filled post stopped) stopped := by
  have hn := directoryIndex_lt v
  have hwordsNow : now.words = state.words := by rw [PagingState.words, hmemory]; rfl
  have hset : ¬present (tableEntry state.words dir v) = true := Bool.eq_false_iff.mp hneeds
  have hcurrent : ¬InTree now.words now.procs.cr3 (frameOf (frameAddress page)) := by
    rw [hwordsNow, hprocs]
    exact hpage.fresh_current
  have htable : newTable state = makeEntry (frameAddress page) 0x003 := by
    rw [newTable, hpage.choose]
  have hframe : frameOf (newTable state) = frameOf (frameAddress page) := by
    rw [htable, frameOf_makeEntry]
  have hdirect : ∀ g, IdentityMapped state g → Direct (frameOf (frameAddress page)) g now :=
    fun g hg => (hg.of_same hmemory henabled hprocs).direct hcurrent
  refine wp_fillWords (toNat_frameAddress_eq page) (hdirect _ hpage.identity)
    fun filled hchanges hfilled => ?_
  have hkept : ∀ g, IdentityMapped state g → IdentityMapped filled g :=
    fun g hg => hdirect g hg filled hchanges
  have hwords : filled.words =
      Function.update state.words (frameOf (newTable state)) blankTable := by
    rw [hframe, ← hwordsNow]
    exact hchanges.words_blank hfilled
  have hold : present (filled.words (frameOf dir) (directoryIndex v)) = false := by
    have hne : frameOf dir ≠ frameOf (frameAddress page) := fun heq => hpage.fresh (.inl heq.symm)
    rw [hwords, hframe, Function.update_of_ne hne]
    exact hneeds
  rw [wp_bind]
  refine (hkept _ (h.identity _ (.inl rfl))).wp_store h.toNat_eq hn ?_
  have hstored : (filled.storeEntry (frameOf dir) (directoryIndex v)
      (frameAddress page ||| 0x003)).words = withTable state.words dir v (newTable state) := by
    rw [filled.storeEntry_words hn, withTable, if_neg hset, hwords, frameAddress_or, ← htable]
  have hidentity : ∀ g, IdentityMapped state g → IdentityMapped
      (filled.storeEntry (frameOf dir) (directoryIndex v) (frameAddress page ||| 0x003)) g :=
    fun g hg => (hkept g hg).storeEntry hn hold
  refine hpost _ ⟨hstored, hchanges.procs.trans hprocs, ?_, ?_⟩
    (hidentity _ (h.identity _ (.inl rfl)))
  · rw [pmmWithTable, if_neg hset, hpage.choose]
    exact hchanges.pmm.trans hpmm
  · have hentry : tableEntry (withTable state.words dir v (newTable state)) dir v =
        newTable state := by
      rw [tableEntry_withTable_self, if_neg hset]
    rw [hstored, hentry, hframe]
    exact hidentity _ hpage.identity

/-- The entry of the directory is read. -/
theorem wp_tableOf (hbase : dir.toNat = 4096 * frameOf dir)
    (hdir : IdentityMapped state (frameOf dir)) {post : UInt32 → PagingState → Prop}
    (hpost : post (pageOf (tableEntry state.words dir v))
      { state with uses := state.uses ++ [pageOf (tableEntry state.words dir v)] }) :
    wp (loadWord (dir + 4 * UInt32.ofNat (directoryIndex v)) >>= fun pde => do
      useFrame (pageOf pde)
      pure (pageOf pde)) state post stopped := by
  rw [wp_bind]
  refine hdir.wp_load hbase (directoryIndex_lt v) rfl ?_
  simp only [wp_bind, wp_useFrame, wp_pure]
  exact hpost

/-- A frame is noted as used. -/
theorem TableMade.withUses (h : TableMade state dir v state') (uses : List UInt32) :
    TableMade state dir v { state' with uses := uses } :=
  { h with identity := h.identity.of_same rfl rfl rfl }

/-- pageTable, for a directory whose frames are mapped to themselves. -/
theorem Workable.wp_pageTable (h : Workable state dir)
    (hfresh : NeedsTable state dir v → ∃ page, GetsFresh state dir page)
    {post : UInt32 → PagingState → Prop}
    (hpost : ∀ state', TableMade state dir v state' →
      post (pageOf (tableEntry state'.words dir v)) state') :
    wp (pageTable dir v) state post stopped := by
  have hdir := h.identity _ (.inl rfl)
  have hused : IdentityMapped { state with uses := state.uses ++ [dir] } (frameOf dir) :=
    hdir.of_same rfl rfl rfl
  simp only [pageTable, wp_bind, wp_useFrame]
  refine hused.wp_load h.toNat_eq (directoryIndex_lt v) rfl ?_
  by_cases hset : present (tableEntry state.words dir v) = true
  · have hskip : ¬(!present (tableEntry state.words dir v)) = true := by simp [hset]
    have hmade : TableMade state dir v state := by
      refine ⟨?_, rfl, ?_, h.identity _ (.inr ⟨v, hset, rfl⟩)⟩
      · rw [withTable, if_pos hset]
      · rw [pmmWithTable, if_pos hset]
    exact wp_if_neg hskip (wp_tableOf h.toNat_eq hused
      (hpost _ (hmade.withUses (state.uses ++ [dir] ++ [pageOf (tableEntry state.words dir v)]))))
  · have hneeds : NeedsTable state dir v := Bool.eq_false_iff.mpr hset
    have hmake : (!present (tableEntry state.words dir v)) = true := by simp [hset]
    have ⟨page, hpage⟩ := hfresh hneeds
    have hchoose : PagingState.pmm { state with uses := state.uses ++ [dir] } =
        state.pmm := rfl
    refine wp_if_pos hmake ?_
    rw [wp_bind]
    refine wp_pmmAlloc_some (hchoose ▸ hpage.choose) ?_
    rw [wp_bind, wp_useFrame, wp_bind]
    refine hpage.wp_fillTable h hneeds (by rfl) (by rfl) (by rfl) (by rfl)
      fun made hmade hreach => ?_
    exact wp_tableOf h.toNat_eq hreach
      (hpost _ (hmade.withUses (made.uses ++ [pageOf (tableEntry made.words dir v)])))

/-- What a mapping leaves: the page has an entry in the table for its address. -/
structure PageEntered (state : PagingState) (dir v entry : UInt32) (state' : PagingState) :
    Prop where
  /-- The words are those with the table and the entry. -/
  words : state'.words = withPage (withTable state.words dir v (newTable state)) dir v entry
  /-- The allocator has given the frame of the table. -/
  pmm : state'.pmm = pmmWithTable state dir v

/-- map_page_in_dir, for a directory whose frames are mapped to themselves. -/
theorem Workable.wp_mapPageInDir (h : Workable state dir)
    (hfresh : NeedsTable state dir v → ∃ page, GetsFresh state dir page)
    {post : Unit → PagingState → Prop}
    (hpost : ∀ state', PageEntered state dir v (makeEntry phys flags) state' → post () state') :
    wp (mapPageInDir dir v phys flags) state post stopped := by
  rw [mapPageInDir, wp_bind]
  refine h.wp_pageTable hfresh fun made hmade => ?_
  refine hmade.identity.wp_store (toNat_pageOf_eq _) (tableIndex_lt v) (hpost _ ⟨?_, hmade.pmm⟩)
  rw [made.storeEntry_words (tableIndex_lt v), ← hmade.words]
  rfl

/-- map_page works in the directory in cr3. -/
theorem Workable.wp_mapPage (h : Workable state state.procs.cr3)
    (hfresh : NeedsTable state state.procs.cr3 v → ∃ page, GetsFresh state state.procs.cr3 page)
    {post : Unit → PagingState → Prop}
    (hpost : ∀ state', PageEntered state state.procs.cr3 v (makeEntry phys flags) state' →
      post () state') :
    wp (mapPage v phys flags) state post stopped := by
  rw [mapPage, wp_bind, wp_getCr3]
  exact h.wp_mapPageInDir hfresh hpost

/-- unmap_page, for a directory whose frames are mapped to themselves. -/
theorem Workable.wp_unmapPage (h : Workable state state.procs.cr3)
    {post : Unit → PagingState → Prop}
    (hpost : ∀ state', state'.words =
      (if present (tableEntry state.words state.procs.cr3 v) then
        withPage state.words state.procs.cr3 v 0x002 else state.words) → post () state') :
    wp (unmapPage v) state post stopped := by
  have hdir := h.identity _ (.inl rfl)
  have hused : IdentityMapped { state with uses := state.uses ++ [state.procs.cr3] }
      (frameOf state.procs.cr3) := hdir.of_same rfl rfl rfl
  simp only [unmapPage, wp_bind, wp_getCr3, wp_useFrame]
  refine hused.wp_load h.toNat_eq (directoryIndex_lt v) rfl ?_
  by_cases hset : present (tableEntry state.words state.procs.cr3 v) = true
  · have htable := h.identity _ (.inr ⟨v, hset, rfl⟩)
    refine wp_if_pos hset ?_
    rw [wp_bind, wp_useFrame]
    have htable' : IdentityMapped { state with uses := state.uses ++ [state.procs.cr3] ++
        [pageOf (tableEntry state.words state.procs.cr3 v)] }
        (frameOf (tableEntry state.words state.procs.cr3 v)) := htable.of_same rfl rfl rfl
    refine htable'.wp_store (toNat_pageOf_eq _) (tableIndex_lt v) (hpost _ ?_)
    rw [PagingState.storeEntry_words _ (tableIndex_lt v), if_pos hset]
    rfl
  · refine wp_if_neg hset (hpost _ ?_)
    rw [if_neg hset]
    rfl

/-- A call that does not stop ends with a result. -/
theorem exists_of_wp {α : Type} {code : PagingM α} {post : α → PagingState → Prop}
    (h : wp code state post fun _ => False) :
    ∃ value state', exec code state = (.ok value, state') ∧ post value state' := by
  rw [wp] at h
  rcases hexec : exec code state with ⟨value | value, state'⟩
  · rw [hexec] at h
    exact h.elim
  · rw [hexec] at h
    exact ⟨value, state', rfl, h⟩

end Calls

section Directories

/-- The frame that pmm_alloc returns has no part in a directory. -/
theorem GetsFresh.newTable (h : GetsFresh state dir page) :
    present (newTable state) = true ∧ frameOf (newTable state) = frameOf (frameAddress page) := by
  rw [Paging.newTable, h.choose]
  exact ⟨present_makeEntry _ _, frameOf_makeEntry _ _⟩

/-- The entry of the page, and the walks from the others. -/
theorem PageEntered.spec (h : PageEntered state dir v entry state')
    (hseparated : Separated state.words dir)
    (hfresh : NeedsTable state dir v → ∃ page, GetsFresh state dir page) :
    present (tableEntry state'.words dir v) = true ∧
      state'.words (frameOf (tableEntry state'.words dir v)) (tableIndex v) = entry ∧
      ∀ w : UInt32, w.toNat / 4096 ≠ v.toNat / 4096 →
        walk state'.words dir w = walk state.words dir w := by
  have houtside : present (tableEntry state.words dir v) = false →
      ¬InTree state.words dir (frameOf (Paging.newTable state)) := by
    intro hneeds
    have ⟨page, hpage⟩ := hfresh hneeds
    rw [hpage.newTable.2]
    exact hpage.fresh
  have hmade := hseparated.withTable houtside
  have hpresent : present (tableEntry (withTable state.words dir v (Paging.newTable state)) dir v) =
      true := by
    rw [tableEntry_withTable_self]
    split_ifs with hset
    · exact hset
    · have ⟨page, hpage⟩ := hfresh (Bool.eq_false_iff.mpr hset)
      exact hpage.newTable.1
  rw [h.words]
  refine ⟨?_, withPage_self hmade hpresent, fun w hw => ?_⟩
  · rw [tableEntry_withPage hmade hpresent, hpresent]
  · rw [walk_withPage hmade hpresent hw, walk_withTable hseparated houtside]

/-- The page is not mapped any more, and the walks from the others stay. -/
theorem walk_unmapped {words words' : ℕ → ℕ → UInt32} (hseparated : Separated words dir)
    (hwords : words' = if present (tableEntry words dir v) then withPage words dir v 0x002
      else words) :
    walk words' dir v = none ∧
      ∀ w : UInt32, w.toNat / 4096 ≠ v.toNat / 4096 → walk words' dir w = walk words dir w := by
  rw [hwords]
  by_cases hset : present (tableEntry words dir v) = true
  · rw [if_pos hset]
    refine ⟨walk_notPresent ?_, fun w hw => walk_withPage hseparated hset hw⟩
    rw [withPage_self hseparated hset]
    exact present_two
  · rw [if_neg hset]
    exact ⟨walk_absent (Bool.eq_false_iff.mpr hset), fun _ _ => rfl⟩

/-- On a directory whose frames are distinct and mapped to themselves, map_page enters the frame
with the flags and changes no other walk, unmap_page removes the page and changes no other walk,
and map_page_in_dir leaves the same words and the same frames as map_page with the directory in
cr3. -/
theorem pageMapping_spec (h : Workable state dir) (hcr3 : Workable (state.withCr3 dir) dir)
    (hfresh : NeedsTable state dir v → ∃ page, GetsFresh state dir page)
    (hfreshCr3 : NeedsTable state dir v → ∃ page, GetsFresh (state.withCr3 dir) dir page) :
    (∃ mapped, exec (mapPage v phys flags) (state.withCr3 dir) = (.ok (), mapped) ∧
      present (tableEntry mapped.words dir v) = true ∧
      (let entry := mapped.words (frameOf (tableEntry mapped.words dir v)) (tableIndex v)
       frameOf entry = frameOf phys ∧ entry &&& 0xFFF = flags &&& 0xFFF) ∧
      (∀ w : UInt32, w.toNat / 4096 ≠ v.toNat / 4096 →
        walk mapped.words dir w = walk state.words dir w) ∧
      ∃ same, exec (mapPageInDir dir v phys flags) state = (.ok (), same) ∧
        same.words = mapped.words ∧ same.pmm = mapped.pmm) ∧
    ∃ unmapped, exec (unmapPage v) (state.withCr3 dir) = (.ok (), unmapped) ∧
      walk unmapped.words dir v = none ∧
      ∀ w : UInt32, w.toNat / 4096 ≠ v.toNat / 4096 →
        walk unmapped.words dir w = walk state.words dir w := by
  have hmap : wp (mapPage v phys flags) (state.withCr3 dir)
      (fun _ => PageEntered (state.withCr3 dir) dir v (makeEntry phys flags)) fun _ => False :=
    hcr3.wp_mapPage hfreshCr3 fun _ hentered => hentered
  have hmapInDir : wp (mapPageInDir dir v phys flags) state
      (fun _ => PageEntered state dir v (makeEntry phys flags)) fun _ => False :=
    h.wp_mapPageInDir hfresh fun _ hentered => hentered
  have hunmap : wp (unmapPage v) (state.withCr3 dir) (fun _ unmapped => unmapped.words =
      if present (tableEntry state.words dir v) then withPage state.words dir v 0x002
      else state.words) fun _ => False :=
    hcr3.wp_unmapPage fun _ hremoved => hremoved
  have ⟨_, mapped, hmapped, hentered⟩ := exists_of_wp hmap
  have ⟨_, same, hsame, hentered'⟩ := exists_of_wp hmapInDir
  have ⟨_, unmapped, hunmapped, hremoved⟩ := exists_of_wp hunmap
  have hspec := hentered.spec hcr3.separated hfreshCr3
  have hflags : makeEntry phys flags &&& 0xFFF = flags &&& 0xFFF :=
    makeEntry_and phys flags (by decide)
  refine ⟨⟨mapped, hmapped, hspec.1, ⟨?_, ?_⟩, hspec.2.2, same, hsame, ?_, ?_⟩, unmapped, hunmapped,
    walk_unmapped hcr3.separated hremoved⟩
  · exact (congrArg frameOf hspec.2.1).trans (frameOf_makeEntry phys flags)
  · exact (congrArg (· &&& 0xFFF) hspec.2.1).trans hflags
  · exact hentered'.words.trans hentered.words.symm
  · exact hentered'.pmm.trans hentered.pmm.symm

end Directories

section Kernel

variable {kernel : KernelLayout} {roles : ℕ → Option FrameRole}

/-- Under the rules for the page tables, the frames of a directory have a role. -/
theorem Sane.inTree (h : Sane kernel state roles) (hdir : IsDirectory roles dir)
    (hf : InTree state.words dir f) : ∃ role, roles f = some role ∧ IsTable role := by
  rcases hf with rfl | ⟨v, hset, rfl⟩
  · exact ⟨_, hdir.role, trivial⟩
  · exact ⟨_, Typed.table h.typed hdir.role (directoryIndex_lt v) hset, trivial⟩

/-- Under these rules every directory can be worked on. -/
theorem Sane.workable (h : Sane kernel state roles) (hdir : IsDirectory roles dir) :
    Workable state dir := by
  have htable : ∀ v, present (tableEntry state.words dir v) = true →
      roles (frameOf (tableEntry state.words dir v)) = some (.table (directoryIndex v)) :=
    fun v hset => Typed.table h.typed hdir.role (directoryIndex_lt v) hset
  refine ⟨hdir.aligned, ⟨fun v hset heq => ?_, fun v w hset hset' heq => ?_⟩, fun f hf => ?_⟩
  · have hrole := htable v hset
    rw [heq, hdir.role] at hrole
    exact nomatch hrole
  · have hrole := htable v hset
    rw [heq, htable w hset'] at hrole
    exact (FrameRole.table.inj (Option.some.inj hrole)).symm
  · have ⟨role, hrole, hisTable⟩ := h.inTree hdir hf
    intro v hv
    exact h.translate_low (by rw [hv]; exact (h.low f role hrole hisTable).1)

/-- With a free frame below 8 MB the next table lies in a fresh frame. -/
theorem Sane.getsFresh (h : Sane kernel state roles) (hdir : IsDirectory roles dir)
    (hlow : 0 < state.pmm.frames.low) : ∃ page, GetsFresh state dir page := by
  cases hchoose : state.pmm.choose with
  | none =>
    have hnone := h.ordered.low_eq_zero (h.ordered.choose_eq_none hchoose)
    omega
  | some page =>
    have htakes := h.ordered.takes hchoose
    have hsmall := htakes.low hlow
    have hframe := frameOf_frameAddress htakes.lt
    have hfresh := (h.grant htakes).2
    have hout : ∀ dir, IsDirectory roles dir →
        ¬InTree state.words dir (frameOf (frameAddress page)) := by
      intro dir hdir htree
      have ⟨role, hrole, _⟩ := h.inTree hdir htree
      rw [hframe, hfresh] at hrole
      exact nomatch hrole
    refine ⟨page, hchoose, frameAddress_ne_zero htakes.lt htakes.ne_zero, hout dir hdir,
      hout _ h.dirs.cr3, fun v hv => h.translate_low ?_⟩
    rw [hv, hframe]
    exact hsmall

/-- A page is mapped and unmapped in the directory of the kernel, at the start. -/
theorem pageMapping_smallStart :
    ∃ mapped, exec (mapPage 0x40000000 0x00500000 0x007) smallStart = (.ok (), mapped) ∧
      walk mapped.words smallStart.procs.cr3 0x00100000 =
        walk smallStart.words smallStart.procs.cr3 0x00100000 := by
  have ⟨roles, hbooted, _, htaken⟩ := smallStart_spec
  have ⟨kernel, _, hsane⟩ := hbooted.sane
  have hlow : 0 < smallStart.pmm.frames.low := by
    have hleast : 1808 ≤ smallStart.pmm.frames.low + 515 := htaken.low
    omega
  have hdir := hsane.dirs.cr3
  have hsame := smallStart.withCr3_self
  have hwork := hsane.workable hdir
  have hfresh := hsane.getsFresh hdir hlow
  have hworkCr3 : Workable (smallStart.withCr3 smallStart.procs.cr3) smallStart.procs.cr3 := by
    rw [hsame]
    exact hwork
  have hfreshCr3 : ∃ page, GetsFresh (smallStart.withCr3 smallStart.procs.cr3)
      smallStart.procs.cr3 page := by
    rw [hsame]
    exact hfresh
  have ⟨⟨mapped, hmapped, _, _, hothers, _⟩, _⟩ := @pageMapping_spec smallStart
    smallStart.procs.cr3 0x40000000 0x00500000 0x007 hwork hworkCr3 (fun _ => hfresh)
    (fun _ => hfreshCr3)
  rw [hsame] at hmapped
  exact ⟨mapped, hmapped, hothers 0x00100000 (by decide)⟩

end Kernel

end HexaOS.Paging
