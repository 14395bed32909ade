import Mathlib.Data.UInt
import Mathlib.Data.Nat.Bitwise
import HexaOS.StoreTyping

/-!
# Two-level page tables of the x86

A page directory and its page tables are frames of 1024 entries; an entry names a frame in its
upper twenty bits and has flags in the lower twelve. The walk from an address over the
directory and a table is a function of the words in the frames. A typing of the frames by the
part of the address space that they serve says which frames hold tables and which hold pages,
so that a store to a page changes no walk.
-/

namespace X86

open HexaOS.StoreTyping

/-- `x & ~0xFFF` -/
def pageOf (x : UInt32) : UInt32 := x &&& ~~~(0xFFF : UInt32)

/-- The frame that an entry, or the directory register, names. -/
def frameOf (entry : UInt32) : ℕ := entry.toNat / 4096

/-- An entry for a page with flags. -/
def makeEntry (page flags : UInt32) : UInt32 := pageOf page ||| (flags &&& 0xFFF)

/-- The present bit. -/
def present (entry : UInt32) : Bool := entry &&& 1 != 0

/-- The bit that allows writes. -/
def writable (entry : UInt32) : Bool := entry &&& 2 != 0

/-- The bit that allows accesses from user mode. -/
def userAccess (entry : UInt32) : Bool := entry &&& 4 != 0

/-- The index of an address in a directory. -/
def directoryIndex (v : UInt32) : ℕ := (v >>> 22).toNat

/-- The index of an address in a table. -/
def tableIndex (v : UInt32) : ℕ := (v >>> 12 &&& 0x3FF).toNat

section Entries

theorem toNat_div_page_and (x y : UInt32) :
    (x &&& y).toNat / 4096 = x.toNat / 4096 &&& y.toNat / 4096 := by
  have hshift : ∀ n : ℕ, n / 4096 = n >>> 12 := fun n => (Nat.shiftRight_eq_div_pow n 12).symm
  rw [UInt32.toNat_and, hshift, hshift, hshift, Nat.shiftRight_and_distrib]

/-- Clearing the low bits rounds down to a page. -/
theorem toNat_pageOf (x : UInt32) : (pageOf x).toNat = x.toNat / 4096 * 4096 := by
  have hmask : (pageOf x).toNat = x.toNat &&& (2 ^ 20 - 1) <<< 12 := by
    rw [pageOf, UInt32.toNat_and]
    rfl
  have hround : x.toNat / 4096 * 4096 = (x.toNat >>> 12) <<< 12 := by
    rw [Nat.shiftLeft_eq, Nat.shiftRight_eq_div_pow]
  rw [hmask, hround]
  apply Nat.eq_of_testBit_eq
  intro i
  rw [Nat.testBit_and, Nat.testBit_shiftLeft, Nat.testBit_shiftLeft, Nat.testBit_shiftRight,
    Nat.testBit_two_pow_sub_one]
  by_cases hi : 12 ≤ i
  · have hsum : 12 + (i - 12) = i := by omega
    rw [hsum]
    by_cases hbit : i - 12 < 20
    · simp [hi, hbit]
    · have hword : x.toNat < 2 ^ i :=
        lt_of_lt_of_le x.toNat_lt (Nat.pow_le_pow_right (by decide) (by omega))
      simp [Nat.testBit_lt_two_pow hword]
  · simp [hi]

theorem toNat_pageOf_eq (x : UInt32) : (pageOf x).toNat = 4096 * frameOf x := by
  rw [toNat_pageOf, frameOf, Nat.mul_comm]

@[simp] theorem frameOf_pageOf (x : UInt32) : frameOf (pageOf x) = frameOf x := by
  rw [frameOf, frameOf, toNat_pageOf, Nat.mul_div_cancel _ (by decide)]

/-- An entry names the frame of its page. -/
@[simp] theorem frameOf_makeEntry (page flags : UInt32) :
    frameOf (makeEntry page flags) = frameOf page := by
  have hflags : (flags &&& 0xFFF).toNat / 4096 = 0 := by
    rw [toNat_div_page_and]
    exact Nat.and_zero _
  have hshift : ∀ n : ℕ, n / 4096 = n >>> 12 := fun n => (Nat.shiftRight_eq_div_pow n 12).symm
  rw [frameOf, makeEntry, UInt32.toNat_or, hshift, Nat.shiftRight_or_distrib, ← hshift, ← hshift,
    hflags, Nat.or_zero]
  exact frameOf_pageOf page

/-- The flags of an entry are those it was made with. -/
theorem makeEntry_and (page flags : UInt32) {bit : UInt32}
    (hbit : bit &&& ~~~(0xFFF : UInt32) = 0) : makeEntry page flags &&& bit = flags &&& bit := by
  apply UInt32.toBitVec_inj.mp
  ext i hi
  have hlow : (bit &&& ~~~(0xFFF : UInt32)).toBitVec[i] = (0 : UInt32).toBitVec[i] := by rw [hbit]
  have hzero : (0 : UInt32).toBitVec[i] = false := by simp
  rw [hzero] at hlow
  simp only [makeEntry, pageOf, UInt32.toBitVec_and, UInt32.toBitVec_or, UInt32.toBitVec_not,
    BitVec.getElem_and, BitVec.getElem_or, BitVec.getElem_not] at hlow ⊢
  generalize bit.toBitVec[i] = b, (0xFFF : UInt32).toBitVec[i] = m, page.toBitVec[i] = p,
    flags.toBitVec[i] = f at *
  revert hlow b m p f
  decide

@[simp] theorem present_makeEntry (page flags : UInt32) :
    present (makeEntry page flags) = present flags := by
  rw [present, present, makeEntry_and page flags (by decide)]

@[simp] theorem writable_makeEntry (page flags : UInt32) :
    writable (makeEntry page flags) = writable flags := by
  rw [writable, writable, makeEntry_and page flags (by decide)]

@[simp] theorem userAccess_makeEntry (page flags : UInt32) :
    userAccess (makeEntry page flags) = userAccess flags := by
  rw [userAccess, userAccess, makeEntry_and page flags (by decide)]

/-- A page address with flags is an entry for the page. -/
theorem or_eq_makeEntry {page flags : UInt32} (hpage : page.toNat % 4096 = 0)
    (hflags : flags &&& 0xFFF = flags) : page ||| flags = makeEntry page flags := by
  have hround : pageOf page = page := by
    apply UInt32.toNat_inj.mp
    rw [toNat_pageOf]
    omega
  rw [makeEntry, hround, hflags]

theorem directoryIndex_eq (v : UInt32) : directoryIndex v = v.toNat / 4194304 := by
  rw [directoryIndex, UInt32.toNat_shiftRight, Nat.shiftRight_eq_div_pow]
  rfl

theorem tableIndex_eq (v : UInt32) : tableIndex v = v.toNat / 4096 % 1024 := by
  rw [tableIndex, UInt32.toNat_and, UInt32.toNat_shiftRight, Nat.shiftRight_eq_div_pow]
  exact Nat.and_two_pow_sub_one_eq_mod _ 10

theorem directoryIndex_lt (v : UInt32) : directoryIndex v < 1024 := by
  have hv := v.toNat_lt
  rw [directoryIndex_eq]
  omega

theorem tableIndex_lt (v : UInt32) : tableIndex v < 1024 := by
  rw [tableIndex_eq]
  exact Nat.mod_lt _ (by decide)

/-- The two indices make up the number of the page. -/
theorem indices_eq (v : UInt32) : 1024 * directoryIndex v + tableIndex v = v.toNat / 4096 := by
  rw [directoryIndex_eq, tableIndex_eq]
  omega

end Entries

section Walks

/-- The entries that the walk from an address finds in the frames, when both are present. -/
def walk (words : ℕ → ℕ → UInt32) (dir v : UInt32) : Option (UInt32 × UInt32) :=
  let pde := words (frameOf dir) (directoryIndex v)
  if present pde then
    let pte := words (frameOf pde) (tableIndex v)
    if present pte then some (pde, pte) else none
  else none

/-- The physical address of an address. -/
def translate (words : ℕ → ℕ → UInt32) (dir v : UInt32) : Option ℕ :=
  (walk words dir v).map fun entries => 4096 * frameOf entries.2 + v.toNat % 4096

/-- What an address is mapped to, and who may access it. -/
structure Mapping where
  /-- The frame. -/
  frame : ℕ
  /-- May it be written? -/
  writable : Bool
  /-- May it be used from user mode? -/
  user : Bool
  deriving DecidableEq

/-- The mapping of an address: both entries must allow an access. -/
def mapping (words : ℕ → ℕ → UInt32) (dir v : UInt32) : Option Mapping :=
  (walk words dir v).map fun entries =>
    ⟨frameOf entries.2, writable entries.1 && writable entries.2,
      userAccess entries.1 && userAccess entries.2⟩

variable {words words' : ℕ → ℕ → UInt32} {dir dir' v : UInt32}

/-- The walk over present entries. -/
theorem walk_eq {pde pte : UInt32} (hpde : words (frameOf dir) (directoryIndex v) = pde)
    (hpresent : present pde = true) (hpte : words (frameOf pde) (tableIndex v) = pte)
    (hpresent' : present pte = true) : walk words dir v = some (pde, pte) := by
  simp only [walk, hpde, hpresent, hpte, hpresent', if_true]

/-- What a walk has found. -/
theorem walk_eq_some {pde pte : UInt32} (h : walk words dir v = some (pde, pte)) :
    words (frameOf dir) (directoryIndex v) = pde ∧ present pde = true ∧
      words (frameOf pde) (tableIndex v) = pte ∧ present pte = true := by
  unfold walk at h
  dsimp only at h
  split_ifs at h with hpde hpte
  have hpair := Prod.mk.inj (Option.some.inj h)
  rw [hpair.1] at hpde hpte
  have htable := hpair.2
  rw [hpair.1] at htable
  rw [htable] at hpte
  exact ⟨hpair.1, hpde, htable, hpte⟩

/-- The walk depends on one entry of the directory and one of the table. -/
theorem walk_congr
    (hpde : words' (frameOf dir') (directoryIndex v) = words (frameOf dir) (directoryIndex v))
    (hpte : present (words (frameOf dir) (directoryIndex v)) = true →
      words' (frameOf (words (frameOf dir) (directoryIndex v))) (tableIndex v) =
        words (frameOf (words (frameOf dir) (directoryIndex v))) (tableIndex v)) :
    walk words' dir' v = walk words dir v := by
  unfold walk
  dsimp only
  rw [hpde]
  by_cases hpresent : present (words (frameOf dir) (directoryIndex v)) = true
  · rw [if_pos hpresent, if_pos hpresent, hpte hpresent]
  · rw [if_neg hpresent, if_neg hpresent]

end Walks

section Typing

/-- What a frame is used for: the tables by their index in the directory, the pages by the
number of the page that they are mapped at. -/
inductive FrameRole where
  | directory
  | table (n : ℕ)
  | page (p : ℕ)
  deriving DecidableEq

/-- What all address spaces have in common. -/
structure Layout where
  /-- The entries that every directory has. -/
  shared : ℕ → Option UInt32
  /-- The condition on the entries of directories for tables. -/
  tableEntry : UInt32 → Prop
  /-- The pages with a condition on their entry. -/
  fixed : ℕ → Option (UInt32 → Prop)

/-- The tables that a directory refers to. -/
def directoryRefs (words : ℕ → UInt32) : List (ℕ × FrameRole) :=
  (List.range 1024).filterMap fun n =>
    if present (words n) then some (frameOf (words n), .table n) else none

/-- The pages that a table refers to, but for those with a condition. -/
def Layout.tableRefs (layout : Layout) (n : ℕ) (words : ℕ → UInt32) : List (ℕ × FrameRole) :=
  (List.range 1024).filterMap fun i =>
    if present (words i) ∧ (layout.fixed (1024 * n + i)).isNone then
      some (frameOf (words i), .page (1024 * n + i))
    else none

/-- The rules of a layout. -/
def Layout.shape (layout : Layout) : Shape ℕ (ℕ → UInt32) FrameRole where
  ok _ role words :=
    match role with
    | .directory => (∀ n < 1024, ∀ entry, layout.shared n = some entry → words n = entry) ∧
        ∀ n < 1024, present (words n) = true → layout.tableEntry (words n)
    | .table n => ∀ i < 1024, ∀ ok, layout.fixed (1024 * n + i) = some ok → ok (words i)
    | .page _ => True
  refs _ role words :=
    match role with
    | .directory => directoryRefs words
    | .table n => layout.tableRefs n words
    | .page _ => []

variable {layout : Layout} {words words' : ℕ → ℕ → UInt32} {roles roles' : ℕ → Option FrameRole}

theorem mem_directoryRefs {entries : ℕ → UInt32} {ref : ℕ × FrameRole} :
    ref ∈ directoryRefs entries ↔
      ∃ n < 1024, present (entries n) = true ∧ ref = (frameOf (entries n), .table n) := by
  simp only [directoryRefs, List.mem_filterMap, List.mem_range, Option.ite_none_right_eq_some,
    Option.some.injEq]
  exact exists_congr fun n => and_congr_right fun _ => and_congr_right fun _ => eq_comm

theorem mem_tableRefs {n : ℕ} {entries : ℕ → UInt32} {ref : ℕ × FrameRole} :
    ref ∈ layout.tableRefs n entries ↔
      ∃ i < 1024, present (entries i) = true ∧ layout.fixed (1024 * n + i) = none ∧
        ref = (frameOf (entries i), .page (1024 * n + i)) := by
  simp only [Layout.tableRefs, List.mem_filterMap, List.mem_range, Option.ite_none_right_eq_some,
    Option.some.injEq, Option.isNone_iff_eq_none, and_assoc]
  exact exists_congr fun i => and_congr_right fun _ => and_congr_right fun _ =>
    and_congr_right fun _ => eq_comm

/-- A directory under a layout. -/
theorem locallyTyped_directory {f : ℕ} {entries : ℕ → UInt32} :
    LocallyTyped layout.shape roles f .directory entries ↔
      (∀ n < 1024, ∀ entry, layout.shared n = some entry → entries n = entry) ∧
        ∀ n < 1024, present (entries n) = true →
          layout.tableEntry (entries n) ∧ roles (frameOf (entries n)) = some (.table n) := by
  unfold LocallyTyped Layout.shape
  dsimp only
  constructor
  · intro ⟨⟨hshared, hentry⟩, hrefs⟩
    refine ⟨hshared, fun n hn hpresent => ⟨hentry n hn hpresent, ?_⟩⟩
    exact hrefs _ (mem_directoryRefs.mpr ⟨n, hn, hpresent, rfl⟩)
  · intro ⟨hshared, hentry⟩
    refine ⟨⟨hshared, fun n hn hpresent => (hentry n hn hpresent).1⟩, fun ref href => ?_⟩
    have ⟨n, hn, hpresent, href'⟩ := mem_directoryRefs.mp href
    rw [href']
    exact (hentry n hn hpresent).2

/-- A table under a layout. -/
theorem locallyTyped_table {f n : ℕ} {entries : ℕ → UInt32} :
    LocallyTyped layout.shape roles f (.table n) entries ↔
      (∀ i < 1024, ∀ ok, layout.fixed (1024 * n + i) = some ok → ok (entries i)) ∧
        ∀ i < 1024, present (entries i) = true → layout.fixed (1024 * n + i) = none →
          roles (frameOf (entries i)) = some (.page (1024 * n + i)) := by
  unfold LocallyTyped Layout.shape
  dsimp only
  refine and_congr_right fun _ => ⟨fun h i hi hpresent hfree => ?_, fun h ref href => ?_⟩
  · exact h _ (mem_tableRefs.mpr ⟨i, hi, hpresent, hfree, rfl⟩)
  · obtain ⟨i, hi, hpresent, hfree, rfl⟩ := mem_tableRefs.mp href
    exact h i hi hpresent hfree

/-- A page under a layout. -/
theorem locallyTyped_page (f p : ℕ) (entries : ℕ → UInt32) :
    LocallyTyped layout.shape roles f (.page p) entries := by
  unfold LocallyTyped Layout.shape
  exact ⟨trivial, fun _ href => nomatch href⟩

/-- The tables of a directory. -/
theorem Typed.table (h : Typed layout.shape words roles) {f n : ℕ}
    (hf : roles f = some .directory) (hn : n < 1024) (hpresent : present (words f n) = true) :
    roles (frameOf (words f n)) = some (.table n) :=
  ((locallyTyped_directory.mp (h f .directory hf)).2 n hn hpresent).2

/-- The entries for the tables of a directory. -/
theorem Typed.tableEntry (h : Typed layout.shape words roles) {f n : ℕ}
    (hf : roles f = some .directory) (hn : n < 1024) (hpresent : present (words f n) = true) :
    layout.tableEntry (words f n) :=
  ((locallyTyped_directory.mp (h f .directory hf)).2 n hn hpresent).1

/-- The pages of a table. -/
theorem Typed.page (h : Typed layout.shape words roles) {f n i : ℕ}
    (hf : roles f = some (.table n)) (hi : i < 1024) (hpresent : present (words f i) = true)
    (hfree : layout.fixed (1024 * n + i) = none) :
    roles (frameOf (words f i)) = some (.page (1024 * n + i)) :=
  (locallyTyped_table.mp (h f (.table n) hf)).2 i hi hpresent hfree

/-- The entries that all directories have. -/
theorem Typed.shared (h : Typed layout.shape words roles) {f n : ℕ} {entry : UInt32}
    (hf : roles f = some .directory) (hn : n < 1024) (hentry : layout.shared n = some entry) :
    words f n = entry :=
  (locallyTyped_directory.mp (h f .directory hf)).1 n hn entry hentry

/-- The entries with a condition. -/
theorem Typed.fixed (h : Typed layout.shape words roles) {f n i : ℕ} {ok : UInt32 → Prop}
    (hf : roles f = some (.table n)) (hi : i < 1024)
    (hok : layout.fixed (1024 * n + i) = some ok) : ok (words f i) :=
  (locallyTyped_table.mp (h f (.table n) hf)).1 i hi ok hok

/-- Replace one entry. -/
def setEntry (words : ℕ → ℕ → UInt32) (f i : ℕ) (entry : UInt32) : ℕ → ℕ → UInt32 :=
  Function.update words f (Function.update (words f) i entry)

@[simp] theorem setEntry_self (f i : ℕ) (entry : UInt32) : setEntry words f i entry f i = entry := by
  simp [setEntry]

theorem setEntry_of_ne {f f' i i' : ℕ} {entry : UInt32} (h : f' ≠ f ∨ i' ≠ i) :
    setEntry words f i entry f' i' = words f' i' := by
  by_cases hf : f' = f
  · rw [hf, setEntry, Function.update_self, Function.update_of_ne (h.resolve_left fun hne => hne hf)]
  · rw [setEntry, Function.update_of_ne hf]

/-- A new entry in a directory, outside the part that all directories share. -/
theorem Typed.setDirectory (h : Typed layout.shape words roles) {f n : ℕ} {entry : UInt32}
    (hf : roles f = some .directory) (hshared : layout.shared n = none)
    (hentry : present entry = true →
      layout.tableEntry entry ∧ roles (frameOf entry) = some (.table n)) :
    Typed layout.shape (setEntry words f n entry) roles := by
  refine h.update Extends.refl fun a role hrole => ?_
  by_cases ha : a = f
  · rw [ha] at hrole ⊢
    obtain rfl := Option.some.inj (hrole.symm.trans hf)
    refine .inr (locallyTyped_directory.mpr ⟨fun m hm e he => ?_, fun m hm hpresent => ?_⟩)
    · have hne : m ≠ n := by
        rintro rfl
        exact nomatch hshared.symm.trans he
      rw [setEntry_of_ne (.inr hne)]
      exact Typed.shared h hf hm he
    · by_cases hmn : m = n
      · rw [hmn, setEntry_self] at hpresent ⊢
        exact hentry hpresent
      · rw [setEntry_of_ne (.inr hmn)] at hpresent ⊢
        exact ⟨Typed.tableEntry h hf hm hpresent, Typed.table h hf hm hpresent⟩
  · exact .inl ⟨hrole, Function.update_of_ne ha _ _⟩

/-- A new entry in a table. -/
theorem Typed.setTable (h : Typed layout.shape words roles) {f n i : ℕ} {entry : UInt32}
    (hf : roles f = some (.table n))
    (hfixed : ∀ ok, layout.fixed (1024 * n + i) = some ok → ok entry)
    (hentry : layout.fixed (1024 * n + i) = none → present entry = true →
      roles (frameOf entry) = some (.page (1024 * n + i))) :
    Typed layout.shape (setEntry words f i entry) roles := by
  refine h.update Extends.refl fun a role hrole => ?_
  by_cases ha : a = f
  · rw [ha] at hrole ⊢
    obtain rfl := Option.some.inj (hrole.symm.trans hf)
    refine .inr (locallyTyped_table.mpr ⟨fun j hj ok hok => ?_, fun j hj hpresent hfree => ?_⟩)
    · by_cases hji : j = i
      · rw [hji, setEntry_self]
        exact hfixed ok (hji ▸ hok)
      · rw [setEntry_of_ne (.inr hji)]
        exact Typed.fixed h hf hj hok
    · by_cases hji : j = i
      · rw [hji, setEntry_self] at hpresent ⊢
        exact hentry (hji ▸ hfree) hpresent
      · rw [setEntry_of_ne (.inr hji)] at hpresent ⊢
        exact Typed.page h hf hj hpresent hfree
  · exact .inl ⟨hrole, Function.update_of_ne ha _ _⟩

/-- Frames without tables may change. -/
theorem Typed.setPages (h : Typed layout.shape words roles)
    (hsame : ∀ f, (roles f = some .directory ∨ ∃ n, roles f = some (.table n)) →
      words' f = words f) :
    Typed layout.shape words' roles := by
  refine h.update Extends.refl fun a role hrole => ?_
  cases role with
  | directory => exact .inl ⟨hrole, hsame a (.inl hrole)⟩
  | table n => exact .inl ⟨hrole, hsame a (.inr ⟨n, hrole⟩)⟩
  | page p => exact .inr (locallyTyped_page a p _)

/-- A frame without a role takes one. -/
theorem Typed.addRole (h : Typed layout.shape words roles) {f : ℕ} {role : FrameRole}
    (hf : roles f = none)
    (hlocal : LocallyTyped layout.shape (Function.update roles f (some role)) f role (words f)) :
    Typed layout.shape words (Function.update roles f (some role)) := by
  refine h.update (extends_update hf role) fun a other hother => ?_
  by_cases ha : a = f
  · rw [ha, Function.update_self] at hother
    rw [ha, ← Option.some.inj hother]
    exact .inr hlocal
  · rw [Function.update_of_ne ha] at hother
    exact .inl ⟨hother, rfl⟩

/-- A walk from a typed directory finds a table for its part of the address space, and the page
unless its entry has a condition. -/
theorem Typed.walk (h : Typed layout.shape words roles) {dir v pde pte : UInt32}
    (hdir : roles (frameOf dir) = some .directory) (hwalk : walk words dir v = some (pde, pte)) :
    roles (frameOf pde) = some (.table (directoryIndex v)) ∧
      (layout.fixed (v.toNat / 4096) = none →
        roles (frameOf pte) = some (.page (v.toNat / 4096))) := by
  have ⟨hpde, hpresent, hpte, hpresent'⟩ := walk_eq_some hwalk
  rw [← hpde] at hpresent
  have htable := Typed.table h hdir (directoryIndex_lt v) hpresent
  rw [hpde] at htable
  refine ⟨htable, fun hfree => ?_⟩
  rw [← hpte] at hpresent'
  have hpage := Typed.page h htable (tableIndex_lt v) hpresent' (by rw [indices_eq]; exact hfree)
  rwa [hpte, indices_eq] at hpage

end Typing

end X86
