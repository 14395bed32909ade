import HexaOS.PageFrames
import HexaOS.TaskDirectories

/-!
# The invariant of the page tables

Every address space begins with the pages of the kernel, whose tables all directories share.
The frames of directories and tables lie below 8 MB, where the kernel reaches them through their
physical addresses, and each frame serves one part of the address spaces. One lemma for each kind
of step on the state says that these rules are kept.
-/

namespace HexaOS.Paging

open X86 Process StoreTyping

/-- The kernel part of all address spaces. -/
structure KernelLayout where
  /-- The number of tables at the front of every directory. -/
  tables : ℕ
  /-- The number of pages of the kernel. -/
  pages : ℕ
  /-- The entries for these tables. -/
  entry : ℕ → UInt32
  /-- The condition on the entry for a page of the kernel. -/
  ok : ℕ → UInt32 → Prop
  /-- There are two tables or more. -/
  two_le_tables : 2 ≤ tables
  /-- The first 8 MB are among the pages. -/
  lowPages_le : lowPages ≤ pages
  /-- The tables cover the pages. -/
  pages_le : pages ≤ 1024 * tables
  /-- The entries of the directory are present. -/
  present_entry : ∀ n < tables, present (entry n) = true
  /-- The pages below 8 MB are mapped to themselves. -/
  identity : ∀ p < lowPages, ∀ e, ok p e → present e = true ∧ frameOf e = p

/-- The kernel part as a layout. -/
def KernelLayout.layout (kernel : KernelLayout) : Layout where
  shared n := if n < kernel.tables then some (kernel.entry n) else none
  -- map_page, map_page_in_dir and paging_init make the entries for tables with the flags 0x003.
  tableEntry entry := userAccess entry = false
  fixed p := if p < kernel.pages then some (kernel.ok p) else none

theorem KernelLayout.fixed_eq_none (kernel : KernelLayout) {p : ℕ} :
    kernel.layout.fixed p = none ↔ kernel.pages ≤ p := by
  simp [KernelLayout.layout]

/-- A frame that can be used through its physical address, of those that were granted. -/
structure LowFrame (granted : List UInt32) (frame : UInt32) : Prop where
  /-- It is not frame 0. -/
  ne_zero : frame ≠ 0
  /-- It is below 8 MB. -/
  lt : frame.toNat < 0x00800000
  /-- The allocator granted it. -/
  mem : frame ∈ granted

/-- The address of a directory. -/
structure IsDirectory (roles : ℕ → Option FrameRole) (dir : UInt32) : Prop where
  /-- It begins at a page. -/
  aligned : dir.toNat % 4096 = 0
  /-- It has the role of a directory. -/
  role : roles (frameOf dir) = some .directory

/-- A role in which the kernel uses a frame through its physical address. -/
def IsTable : FrameRole → Prop
  | .directory | .table _ => True
  | .page _ => False

/-- The rules for the page tables, under an assignment of roles to the frames. -/
structure Sane (kernel : KernelLayout) (state : PagingState) (roles : ℕ → Option FrameRole) :
    Prop where
  /-- Paging is on. -/
  enabled : state.enabled = true
  /-- Directories lead to tables. -/
  typed : Typed kernel.layout.shape state.words roles
  /-- The kernel has a directory. -/
  kernelDir : IsDirectory roles state.kernelPageDir
  /-- So have the tasks. -/
  dirs : DirectoriesFrom (IsDirectory roles) state.procs
  /-- A frame with a role is used. -/
  used : ∀ f role, roles f = some role → state.pmm.used f = true
  /-- Directories and tables are below 8 MB. -/
  low : ∀ f role, roles f = some role → IsTable role →
    f < lowPages ∧ LowFrame state.granted (frameAddress f)
  /-- The allocator is in order. -/
  ordered : state.pmm.Ordered
  /-- What was stored to was granted. -/
  uses : ∀ frame ∈ state.uses, LowFrame state.granted frame

/-- The state after an entry of a frame was stored. -/
def PagingState.storeEntry (state : PagingState) (f i : ℕ) (entry : UInt32) : PagingState :=
  state.withMemory (state.memory.storeWord (4096 * f + 4 * i) entry)

theorem PagingState.storeEntry_words (state : PagingState) {f i : ℕ} (hi : i < 1024)
    (entry : UInt32) : (state.storeEntry f i entry).words = setEntry state.words f i entry :=
  frameWords_storeWord state.memory hi entry

variable {kernel : KernelLayout} {state : PagingState} {roles roles' : ℕ → Option FrameRole}

theorem IsDirectory.mono {dir : UInt32} (h : IsDirectory roles dir) (hext : Extends roles roles') :
    IsDirectory roles' dir :=
  ⟨h.aligned, hext _ _ h.role⟩

/-- A directory is the address of its frame. -/
theorem IsDirectory.toNat_eq {dir : UInt32} (h : IsDirectory roles dir) :
    dir.toNat = 4096 * frameOf dir := by
  have haligned := h.aligned
  rw [frameOf]
  omega

/-- A frame that was taken may be used through its address if it lies low. -/
theorem Pmm.Takes.lowFrame {page : ℕ} (htakes : state.pmm.Takes page)
    (hlow : 0 < state.pmm.frames.low) :
    LowFrame (state.grant page).granted (frameAddress page) := by
  have hlt : page < 2048 := htakes.low hlow
  refine ⟨frameAddress_ne_zero htakes.lt htakes.ne_zero, ?_,
    List.mem_append_right _ (List.mem_singleton_self _)⟩
  rw [toNat_frameAddress htakes.lt]
  omega

namespace Sane

/-- The frame of a directory lies low. -/
theorem directory_low (h : Sane kernel state roles) {dir : UInt32} (hdir : IsDirectory roles dir) :
    frameOf dir < lowPages :=
  (h.low _ _ hdir.role trivial).1

/-- A directory may be used through its address. -/
theorem lowFrame (h : Sane kernel state roles) {dir : UInt32} (hdir : IsDirectory roles dir) :
    LowFrame state.granted dir := by
  have hlow := h.low _ _ hdir.role trivial
  have haddress : frameAddress (frameOf dir) = dir := by
    apply UInt32.toNat_inj.mp
    rw [toNat_frameAddress (lt_trans hlow.1 (by decide)), hdir.toNat_eq]
  rw [← haddress]
  exact hlow.2

/-- The entries of the kernel in a directory. -/
theorem shared (h : Sane kernel state roles) {f n : ℕ} (hf : roles f = some .directory)
    (hn : n < kernel.tables) (hlt : n < 1024) : state.words f n = kernel.entry n :=
  Typed.shared h.typed hf hlt (if_pos hn)

/-- No entry of a directory allows accesses from user mode. -/
theorem userAccess_tableEntry (h : Sane kernel state roles) {dir v pde pte : UInt32}
    (hdir : IsDirectory roles dir) (hwalk : walk state.words dir v = some (pde, pte)) :
    userAccess pde = false := by
  have ⟨hpde, hpresent, _⟩ := walk_eq_some hwalk
  rw [← hpde] at hpresent
  have hentry := Typed.tableEntry h.typed hdir.role (directoryIndex_lt v) hpresent
  rwa [hpde] at hentry

/-- In every address space, an address below 8 MB is mapped to itself. -/
theorem walk_low (h : Sane kernel state roles) {dir v : UInt32} (hdir : IsDirectory roles dir)
    (hv : v.toNat / 4096 < lowPages) :
    ∃ pde pte, walk state.words dir v = some (pde, pte) ∧ frameOf pte = v.toNat / 4096 := by
  have hn : directoryIndex v < kernel.tables := by
    have hindices := indices_eq v
    have htables := kernel.two_le_tables
    have hlow : v.toNat / 4096 < 2048 := hv
    omega
  have hpde := h.shared hdir.role hn (directoryIndex_lt v)
  have hpresent := kernel.present_entry _ hn
  have htable := Typed.table h.typed hdir.role (directoryIndex_lt v) (by rw [hpde, hpresent])
  rw [hpde] at htable
  have hp : 1024 * directoryIndex v + tableIndex v < kernel.pages := by
    rw [indices_eq]
    exact lt_of_lt_of_le hv kernel.lowPages_le
  have hok := Typed.fixed h.typed htable (tableIndex_lt v) (if_pos hp)
  rw [indices_eq] at hok
  have ⟨hpresent', hframe⟩ := kernel.identity _ hv _ hok
  exact ⟨_, _, walk_eq hpde hpresent rfl hpresent', hframe⟩

/-- A walk finds the same, where the entries that it found have not changed. -/
theorem walk_kept (h : Sane kernel state roles) {dir v : UInt32} (hdir : IsDirectory roles dir)
    {words' : ℕ → ℕ → UInt32} (hwalk : (walk state.words dir v).isSome = true)
    (hpde : words' (frameOf dir) (directoryIndex v) =
      state.words (frameOf dir) (directoryIndex v))
    (hpte : ∀ f, roles f = some (.table (directoryIndex v)) →
      present (state.words f (tableIndex v)) = true →
      present (words' f (tableIndex v)) = true) :
    (walk words' dir v).isSome = true := by
  have ⟨⟨pde, pte⟩, hentries⟩ := Option.isSome_iff_exists.mp hwalk
  have ⟨hfirst, hpresent, hsecond, hpresent'⟩ := walk_eq_some hentries
  have hrole := (Typed.walk h.typed hdir.role hentries).1
  rw [← hsecond] at hpresent'
  rw [walk_eq (hpde.trans hfirst) hpresent rfl (hpte _ hrole hpresent')]
  rfl

/-- The walks depend on the directories and the tables. -/
theorem walk_congr (h : Sane kernel state roles) {dir v : UInt32}
    (hdir : IsDirectory roles dir) {words' : ℕ → ℕ → UInt32}
    (hsame : ∀ f role, roles f = some role → IsTable role → words' f = state.words f) :
    walk words' dir v = walk state.words dir v := by
  refine X86.walk_congr ?_ fun hpresent => ?_
  · rw [hsame _ _ hdir.role trivial]
  · rw [hsame _ _ (Typed.table h.typed hdir.role (directoryIndex_lt v) hpresent) trivial]

theorem translate_low (h : Sane kernel state roles) {v : UInt32}
    (hv : v.toNat / 4096 < lowPages) : state.translate v = some v.toNat := by
  have ⟨pde, pte, hwalk, hframe⟩ := h.walk_low h.dirs.cr3 hv
  rw [PagingState.translate, if_pos h.enabled, X86.translate, hwalk, Option.map_some, hframe]
  exact congrArg some (Nat.div_add_mod _ _)

/-- Another memory with the same directories and tables. -/
theorem withMemory (h : Sane kernel state roles) {memory : Kheap.Memory}
    (htyped : Typed kernel.layout.shape (frameWords memory) roles) :
    Sane kernel (state.withMemory memory) roles :=
  { h with typed := htyped }

/-- Frames that hold no tables may change. -/
theorem changes (h : Sane kernel state roles) {f : ℕ} {state' : PagingState}
    (hf : ∀ role, roles f = some role → ¬IsTable role) (hchanges : Changes f state state') :
    Sane kernel state' roles := by
  rw [hchanges.rest]
  refine h.withMemory (Typed.setPages h.typed fun f' hf' => hchanges.words ?_)
  rintro rfl
  rcases hf' with hdir | ⟨n, htable⟩
  · exact hf _ hdir trivial
  · exact hf _ htable trivial

/-- While such a frame changes, accesses below 8 MB stay direct. -/
theorem direct (h : Sane kernel state roles) {f g : ℕ}
    (hf : ∀ role, roles f = some role → ¬IsTable role) (hg : g < lowPages) :
    Direct f g state := by
  rintro state' hchanges v rfl
  exact (h.changes hf hchanges).translate_low hg

/-- A frame is used through its address. -/
theorem withUse (h : Sane kernel state roles) {frame : UInt32}
    (hframe : LowFrame state.granted frame) :
    Sane kernel { state with uses := state.uses ++ [frame] } roles where
  __ := h
  uses other hother := by
    rcases List.mem_append.mp hother with hold | hnew
    · exact h.uses other hold
    · rw [List.mem_singleton.mp hnew]
      exact hframe

/-- A frame is taken; it has no role yet. -/
theorem grant (h : Sane kernel state roles) {page : ℕ} (htakes : state.pmm.Takes page) :
    Sane kernel (state.grant page) roles ∧ roles page = none := by
  have hmono : ∀ frame, LowFrame state.granted frame → LowFrame (state.grant page).granted frame :=
    fun frame hframe => ⟨hframe.ne_zero, hframe.lt, List.mem_append_left _ hframe.mem⟩
  constructor
  · exact { h with
      used := fun f role hrole => Pmm.taking_used (h.used f role hrole)
      low := fun f role hrole htable =>
        ⟨(h.low f role hrole htable).1, hmono _ (h.low f role hrole htable).2⟩
      ordered := htakes.ordered
      uses := fun frame hframe => hmono _ (h.uses frame hframe) }
  · by_contra hne
    have ⟨role, hrole⟩ := Option.ne_none_iff_exists'.mp hne
    have hused := h.used page role hrole
    rw [htakes.free] at hused
    exact Bool.false_ne_true hused

/-- A frame takes a role. -/
theorem addRole (h : Sane kernel state roles) {f : ℕ} {role : FrameRole} (hf : roles f = none)
    (hused : state.pmm.used f = true)
    (hlow : IsTable role → f < lowPages ∧ LowFrame state.granted (frameAddress f))
    (hlocal : LocallyTyped kernel.layout.shape (Function.update roles f (some role)) f role
      (state.words f)) :
    Sane kernel state (Function.update roles f (some role)) := by
  have hext := extends_update hf role
  have hroles : ∀ f' role', Function.update roles f (some role) f' = some role' →
      (f' = f ∧ role' = role) ∨ roles f' = some role' := by
    intro f' role' hrole'
    by_cases hf' : f' = f
    · rw [hf', Function.update_self] at hrole'
      exact .inl ⟨hf', (Option.some.inj hrole').symm⟩
    · rw [Function.update_of_ne hf'] at hrole'
      exact .inr hrole'
  refine { h with
    typed := Typed.addRole h.typed hf hlocal
    kernelDir := h.kernelDir.mono hext
    dirs := h.dirs.mono fun _ hdir => hdir.mono hext
    used := fun f' role' hrole' => ?_
    low := fun f' role' hrole' htable => ?_ }
  · rcases hroles f' role' hrole' with ⟨rfl, -⟩ | hold
    · exact hused
    · exact h.used f' role' hold
  · rcases hroles f' role' hrole' with ⟨rfl, rfl⟩ | hold
    · exact hlow htable
    · exact h.low f' role' hold htable

/-- A new entry in a table. -/
theorem setTable (h : Sane kernel state roles) {f n i : ℕ} {entry : UInt32}
    (hf : roles f = some (.table n)) (hi : i < 1024)
    (hkernel : 1024 * n + i < kernel.pages → kernel.ok (1024 * n + i) entry)
    (hentry : kernel.pages ≤ 1024 * n + i → present entry = true →
      roles (frameOf entry) = some (.page (1024 * n + i))) :
    Sane kernel (state.storeEntry f i entry) roles := by
  refine h.withMemory ?_
  rw [frameWords_storeWord _ hi]
  refine Typed.setTable h.typed hf (fun ok hok => ?_) fun hfree => hentry ?_
  · have ⟨hlt, heq⟩ := Option.ite_none_right_eq_some.mp hok
    rw [← Option.some.inj heq]
    exact hkernel hlt
  · exact kernel.fixed_eq_none.mp hfree

/-- A new entry in a directory. -/
theorem setDirectory (h : Sane kernel state roles) {f n : ℕ} {entry : UInt32}
    (hf : roles f = some .directory) (hn : n < 1024) (htables : kernel.tables ≤ n)
    (hentry : present entry = true →
      userAccess entry = false ∧ roles (frameOf entry) = some (.table n)) :
    Sane kernel (state.storeEntry f n entry) roles := by
  refine h.withMemory ?_
  rw [frameWords_storeWord _ hn]
  exact Typed.setDirectory h.typed hf (if_neg (Nat.not_lt.mpr htables)) hentry

section LowAccesses

variable {base : UInt32} {f i : ℕ} {stopped : PagingState → Prop}

/-- A load from a frame below 8 MB. -/
theorem wp_loadEntry (h : Sane kernel state roles) (hbase : base.toNat = 4096 * f)
    (hf : f < lowPages) (hi : i < 1024) {word : UInt32} (hword : state.words f i = word)
    {post : UInt32 → PagingState → Prop} (hpost : post word state) :
    wp (loadWord (base + 4 * UInt32.ofNat i)) state post stopped := by
  have haddress := toNat_entryAddress hbase hi
  refine wp_loadWord (h.translate_low (by omega)) ?_
  rw [haddress, word_eq_words state hi, hword]
  exact hpost

/-- A store to a frame below 8 MB. -/
theorem wp_storeEntry (h : Sane kernel state roles) (hbase : base.toNat = 4096 * f)
    (hf : f < lowPages) (hi : i < 1024) {word : UInt32} {post : Unit → PagingState → Prop}
    (hpost : post () (state.storeEntry f i word)) :
    wp (storeWord (base + 4 * UInt32.ofNat i) word) state post stopped := by
  have haddress := toNat_entryAddress hbase hi
  refine wp_storeWord (h.translate_low (by omega)) ?_
  rw [haddress]
  exact hpost

end LowAccesses

end Sane

end HexaOS.Paging
