import HexaOS.PagingRules

/-!
# The frame allocator

Nothing in the kernel gives a frame back, so the frames before the last one that was taken are
all in use and the allocator moves upwards. What it still has is then described by two numbers:
the free frames below 8 MB, which are reached through their physical addresses, and all free
frames.
-/

namespace HexaOS.Paging

open X86 Process

/-- The number of frames below 8 MB. -/
abbrev lowPages : ℕ := 2048

/-- What the frame allocator still has. -/
structure Frames where
  /-- The free frames below 8 MB. -/
  low : ℕ
  /-- All free frames. -/
  free : ℕ
  deriving DecidableEq

/-- The frames that are left when the first of them is taken. -/
def Frames.take (frames : Frames) : Frames := ⟨frames.low - 1, frames.free - 1⟩

/-- The address of a frame. -/
def frameAddress (page : ℕ) : UInt32 := UInt32.ofNat (4096 * page)

theorem toNat_frameAddress {page : ℕ} (h : page < 8192) :
    (frameAddress page).toNat = 4096 * page := by
  rw [frameAddress, UInt32.toNat_ofNat', Nat.mod_eq_of_lt (by omega)]

@[simp] theorem frameOf_frameAddress {page : ℕ} (h : page < 8192) :
    frameOf (frameAddress page) = page := by
  rw [frameOf, toNat_frameAddress h, Nat.mul_div_cancel_left _ (by decide)]

theorem frameAddress_ne_zero {page : ℕ} (h : page < 8192) (hne : page ≠ 0) :
    frameAddress page ≠ 0 := by
  intro hzero
  have haddress := toNat_frameAddress h
  rw [hzero, UInt32.toNat_zero] at haddress
  omega

namespace Pmm

variable {pmm : Pmm} {page first last : ℕ}

/-- The number of free frames between two bounds. -/
def freeIn (pmm : Pmm) (first last : ℕ) : ℕ :=
  (List.range' first (last - first)).countP fun page => !pmm.used page

/-- What the allocator still has from the last frame on. -/
def frames (pmm : Pmm) : Frames :=
  ⟨pmm.freeIn pmm.lastAlloc lowPages, pmm.freeIn pmm.lastAlloc pmm.maxPage⟩

/-- The allocator after it has taken a frame. -/
def taking (pmm : Pmm) (page : ℕ) : Pmm :=
  { pmm with used := Function.update pmm.used page true, lastAlloc := page + 1 }

@[simp] theorem taking_used_self : (pmm.taking page).used page = true := Function.update_self _ _ _

theorem taking_used_of_ne {other : ℕ} (h : other ≠ page) :
    (pmm.taking page).used other = pmm.used other := Function.update_of_ne h _ _

/-- A frame that was in use stays so. -/
theorem taking_used {other : ℕ} (h : pmm.used other = true) :
    (pmm.taking page).used other = true := by
  by_cases hpage : other = page
  · rw [hpage, taking_used_self]
  · rw [taking_used_of_ne hpage, h]

/-- Frames are taken upwards. -/
structure Ordered (pmm : Pmm) : Prop where
  /-- The frames before the last one are in use. -/
  taken : ∀ page < pmm.lastAlloc, pmm.used page = true
  /-- Frame 0 is used. -/
  zero : pmm.used 0 = true
  /-- What is behind the map counts as used. -/
  beyond : ∀ page, pmm.maxPage ≤ page → pmm.used page = true
  /-- The map has at most 8192 frames. -/
  maxPage_le : pmm.maxPage ≤ 8192

theorem find_eq_some (h : pmm.find first last = some page) :
    first ≤ page ∧ page < last ∧ pmm.used page = false ∧
      ∀ other, first ≤ other → other < page → pmm.used other = true := by
  have ⟨hfree, before, after, hsplit, hbefore⟩ := List.find?_eq_some_iff_append.mp h
  have hmem : page ∈ List.range' first (last - first) := by
    rw [hsplit]
    exact List.mem_append_right _ List.mem_cons_self
  have hrange := List.mem_range'_1.mp hmem
  refine ⟨hrange.1, by omega, by simpa using hfree, fun other hfirst hlt => ?_⟩
  have hother : other ∈ before ++ page :: after := by
    rw [← hsplit]
    exact List.mem_range'_1.mpr ⟨hfirst, by omega⟩
  have hsorted : (before ++ page :: after).Pairwise (· < ·) := by
    rw [← hsplit]
    exact List.pairwise_lt_range'
  rcases List.mem_append.mp hother with hbef | haft
  · simpa using hbefore other hbef
  · have hle : page ≤ other := by
      rcases List.mem_cons.mp haft with rfl | htail
      · exact Nat.le_refl _
      · exact Nat.le_of_lt ((List.pairwise_cons.mp (List.pairwise_append.mp hsorted).2.1).1 _ htail)
    omega

/-- Frames that are all in use. -/
theorem freeIn_eq_zero (h : ∀ page, first ≤ page → page < last → pmm.used page = true) :
    pmm.freeIn first last = 0 := by
  rw [freeIn, List.countP_eq_zero]
  intro page hpage
  have hrange := List.mem_range'_1.mp hpage
  rw [h page hrange.1 (by omega)]
  exact Bool.false_ne_true

/-- Frames that are all free. -/
theorem freeIn_eq_sub (h : ∀ page, first ≤ page → page < last → pmm.used page = false) :
    pmm.freeIn first last = last - first := by
  have hall : pmm.freeIn first last = (List.range' first (last - first)).length := by
    refine List.countP_eq_length.mpr fun page hpage => ?_
    have hrange := List.mem_range'_1.mp hpage
    rw [h page hrange.1 (by omega)]
    rfl
  rw [hall, List.length_range']

/-- The frames before a third bound, and those from it on. -/
theorem freeIn_add {middle : ℕ} (hfirst : first ≤ middle) (hlast : middle ≤ last) :
    pmm.freeIn first last = pmm.freeIn first middle + pmm.freeIn middle last := by
  have hlength : last - first = (middle - first) + (last - middle) := by omega
  have hmiddle : first + (middle - first) = middle := by omega
  rw [freeIn, hlength, ← List.range'_append_1, List.countP_append, hmiddle]
  rfl

/-- The frames between two bounds, when the first free one of them is taken. -/
theorem freeIn_taking (hfree : pmm.used page = false) (hfirst : first ≤ page)
    (hbefore : ∀ other, first ≤ other → other < page → pmm.used other = true) :
    (pmm.taking page).freeIn (page + 1) last = pmm.freeIn first last - 1 := by
  by_cases hlt : page < last
  · have hsplit : List.range' first (last - first) =
        List.range' first (page - first) ++ page :: List.range' (page + 1) (last - (page + 1)) := by
      have hlength : last - first = (page - first) + (last - page) := by omega
      have hrest : last - page = (last - (page + 1)) + 1 := by omega
      have hmid : first + (page - first) = page := by omega
      rw [hlength, ← List.range'_append_1, hmid, hrest, List.range'_succ]
    have hnone : (List.range' first (page - first)).countP (fun page => !pmm.used page) = 0 :=
      freeIn_eq_zero hbefore
    have hsame : (pmm.taking page).freeIn (page + 1) last =
        (List.range' (page + 1) (last - (page + 1))).countP fun page => !pmm.used page := by
      refine List.countP_congr fun other hother => ?_
      have hne : other ≠ page := by
        have hrange := List.mem_range'_1.mp hother
        omega
      rw [taking_used_of_ne hne]
    rw [hsame, freeIn, hsplit, List.countP_append, hnone, List.countP_cons, hfree]
    simp
  · have hnone : pmm.freeIn first last = 0 :=
      freeIn_eq_zero fun other hother hbound => hbefore other hother (by omega)
    have hempty : last - (page + 1) = 0 := by omega
    rw [hnone, freeIn, hempty]
    rfl

/-- The frame that is taken next. -/
structure Takes (pmm : Pmm) (page : ℕ) : Prop where
  /-- The frame was free. -/
  free : pmm.used page = false
  /-- It is not frame 0. -/
  ne_zero : page ≠ 0
  /-- It is one of the map. -/
  lt : page < 8192
  /-- It lies below 8 MB as long as there is such a frame. -/
  low : 0 < pmm.frames.low → page < lowPages
  /-- It is above 8 MB only when none is free below. -/
  high : pmm.frames.low = 0 → lowPages ≤ page
  /-- A frame was free. -/
  positive : 0 < pmm.frames.free
  /-- One frame less is free. -/
  frames : (pmm.taking page).frames = pmm.frames.take
  /-- The allocator stays in order. -/
  ordered : (pmm.taking page).Ordered

/-- The search from the start finds nothing. -/
theorem Ordered.choose (h : pmm.Ordered) : pmm.choose = pmm.find pmm.lastAlloc pmm.maxPage := by
  have hsecond : pmm.find 1 pmm.lastAlloc = none := by
    refine List.find?_eq_none.mpr fun page hpage => ?_
    have hrange := List.mem_range'_1.mp hpage
    rw [h.taken page (by omega)]
    exact Bool.false_ne_true
  rw [Pmm.choose, hsecond, Option.or_none]

/-- No frame is left. -/
theorem Ordered.choose_eq_none (h : pmm.Ordered) (hnone : pmm.choose = none) :
    pmm.frames.free = 0 := by
  rw [h.choose] at hnone
  refine freeIn_eq_zero fun page hfirst hlast => ?_
  have hused := List.find?_eq_none.mp hnone page (List.mem_range'_1.mpr ⟨hfirst, by omega⟩)
  simpa using hused

theorem Ordered.low_eq_zero (h : pmm.Ordered) (hnone : pmm.frames.free = 0) :
    pmm.frames.low = 0 := by
  refine freeIn_eq_zero fun page hfirst _ => ?_
  by_cases hlast : page < pmm.maxPage
  · have hused := List.countP_eq_zero.mp hnone page (List.mem_range'_1.mpr ⟨hfirst, by omega⟩)
    simpa using hused
  · exact h.beyond page (Nat.le_of_not_lt hlast)

/-- The free frames below 8 MB are free frames. -/
theorem Ordered.low_le (h : pmm.Ordered) : pmm.frames.low ≤ pmm.frames.free := by
  by_cases hlast : pmm.lastAlloc ≤ min lowPages pmm.maxPage
  · have hlow : pmm.freeIn pmm.lastAlloc lowPages =
        pmm.freeIn pmm.lastAlloc (min lowPages pmm.maxPage) +
          pmm.freeIn (min lowPages pmm.maxPage) lowPages := freeIn_add hlast (Nat.min_le_left _ _)
    have hfree : pmm.freeIn pmm.lastAlloc pmm.maxPage =
        pmm.freeIn pmm.lastAlloc (min lowPages pmm.maxPage) +
          pmm.freeIn (min lowPages pmm.maxPage) pmm.maxPage := freeIn_add hlast (Nat.min_le_right _ _)
    have hrest : pmm.freeIn (min lowPages pmm.maxPage) lowPages = 0 :=
      freeIn_eq_zero fun page hfirst hlt => h.beyond page (by omega)
    show pmm.freeIn pmm.lastAlloc lowPages ≤ pmm.freeIn pmm.lastAlloc pmm.maxPage
    omega
  · have hnone : pmm.frames.low = 0 :=
      freeIn_eq_zero fun page hfirst hlt => h.beyond page (by omega)
    omega

theorem Ordered.takes (h : pmm.Ordered) (hsome : pmm.choose = some page) : pmm.Takes page := by
  rw [h.choose] at hsome
  have ⟨hfirst, hlast, hfree, hbefore⟩ := find_eq_some hsome
  have hlt : page < 8192 := lt_of_lt_of_le hlast h.maxPage_le
  refine ⟨hfree, ?_, hlt, fun hlow => ?_, fun hnone => ?_, ?_, ?_, ?_⟩
  · rintro rfl
    exact absurd h.zero (by rw [hfree]; exact Bool.false_ne_true)
  · by_contra hhigh
    have hzero : pmm.frames.low = 0 :=
      freeIn_eq_zero fun other hother hbound => hbefore other hother (by omega)
    omega
  · by_contra hlow
    have hused := List.countP_eq_zero.mp hnone page (List.mem_range'_1.mpr ⟨hfirst, by omega⟩)
    rw [hfree] at hused
    exact hused rfl
  · exact List.countP_pos_iff.mpr
      ⟨page, List.mem_range'_1.mpr ⟨hfirst, by omega⟩, by rw [hfree]; rfl⟩
  · exact congrArg₂ Frames.mk (freeIn_taking hfree hfirst hbefore)
      (freeIn_taking hfree hfirst hbefore)
  · refine ⟨fun other hother => ?_, taking_used h.zero,
      fun other hother => taking_used (h.beyond other hother), h.maxPage_le⟩
    by_cases hpage : other = page
    · rw [hpage, taking_used_self]
    · refine taking_used ?_
      have hbound : other < page + 1 := hother
      by_cases hold : other < pmm.lastAlloc
      · exact h.taken other hold
      · exact hbefore other (by omega) (by omega)

/-- The allocator at the start. -/
theorem ordered_pmmInit (memSize kernelEnd : ℕ) : (pmmInit memSize kernelEnd).Ordered := by
  refine ⟨fun page hpage => ?_, ?_, fun page hpage => ?_, ?_⟩
  · have hlt : page < min ((kernelEnd + 4095) / 4096) (pmmInit memSize kernelEnd).maxPage := hpage
    have hnot : ¬(min ((kernelEnd + 4095) / 4096) (pmmInit memSize kernelEnd).maxPage ≤ page ∧
        page < (pmmInit memSize kernelEnd).maxPage) := by omega
    exact decide_eq_true (.inr (.inr hnot))
  · simp [pmmInit]
  · have hnot : ¬(min ((kernelEnd + 4095) / 4096) (pmmInit memSize kernelEnd).maxPage ≤ page ∧
        page < (pmmInit memSize kernelEnd).maxPage) := by omega
    exact decide_eq_true (.inr (.inr hnot))
  · have hmem : (if memSize > pmmMaxMem then pmmMaxMem else memSize) ≤ pmmMaxMem := by
      split <;> omega
    exact Nat.div_le_of_le_mul hmem

end Pmm

/-- The state after a frame was taken. -/
def PagingState.grant (state : PagingState) (page : ℕ) : PagingState :=
  { state with pmm := state.pmm.taking page, granted := state.granted ++ [frameAddress page] }

/-- The two ways of an allocation. -/
theorem wp_pmmAlloc {state : PagingState} {post : UInt32 → PagingState → Prop}
    {stopped : PagingState → Prop} (hordered : state.pmm.Ordered)
    (hnone : state.pmm.frames.free = 0 → post 0 state)
    (hsome : ∀ page, state.pmm.Takes page → post (frameAddress page) (state.grant page)) :
    wp pmmAlloc state post stopped := by
  rw [pmmAlloc, wp_bind, wp_get]
  rcases hchoose : state.pmm.choose with _ | page
  · exact hnone (hordered.choose_eq_none hchoose)
  · exact hsome page (hordered.takes hchoose)

/-- An allocation while there is a free frame below 8 MB. -/
theorem wp_pmmAlloc_low {state : PagingState} {post : UInt32 → PagingState → Prop}
    {stopped : PagingState → Prop} (hordered : state.pmm.Ordered) (hlow : 0 < state.pmm.frames.low)
    (hsome : ∀ page, state.pmm.Takes page → post (frameAddress page) (state.grant page)) :
    wp pmmAlloc state post stopped := by
  refine wp_pmmAlloc hordered (fun hnone => ?_) hsome
  have hzero := hordered.low_eq_zero hnone
  omega

end HexaOS.Paging
