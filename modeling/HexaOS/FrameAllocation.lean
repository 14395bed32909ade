import HexaOS.PageFrames
import HexaOS.StepRuns

/-!
# Frames that are given back

pmm_free clears the bit of a frame and lets the next search begin there, so the frames before the
start of a search may be free again. The second loop of pmm_alloc covers them: a search fails only
when no frame is free at all. Over any sequence of calls the free frames are always among those
that were free at the start, and the frames that are out are different ones.
-/

namespace HexaOS.Paging

open X86 StepRuns

/-- pmm_alloc, on the statics of the allocator. -/
def Pmm.alloc (pmm : Pmm) : UInt32 × Pmm :=
  match pmm.choose with
  | some page => (frameAddress page, pmm.taking page)
  | none => (0, pmm)

/-- pmm_free -/
def pmmFree (addr : UInt32) (pmm : Pmm) : Pmm :=
  if addr.toNat / 4096 < pmm.maxPage then
    { pmm with
      used := Function.update pmm.used (addr.toNat / 4096) false
      lastAlloc := if addr.toNat / 4096 < pmm.lastAlloc then addr.toNat / 4096 else pmm.lastAlloc }
  else pmm

/-- pmm_count_free -/
def pmmCountFree (pmm : Pmm) : ℕ := pmm.freeIn 1 pmm.maxPage

/-- pmm_alloc of the paging code is this one. -/
theorem exec_pmmAlloc (state : PagingState) : ∃ granted, exec pmmAlloc state =
    (.ok state.pmm.alloc.1, { state with pmm := state.pmm.alloc.2, granted := granted }) := by
  have hrun : wp pmmAlloc state (fun addr now => addr = state.pmm.alloc.1 ∧
      ∃ granted, now = { state with pmm := state.pmm.alloc.2, granted := granted })
      (fun _ => False) := by
    rw [pmmAlloc, wp_bind, wp_get, Pmm.alloc]
    cases state.pmm.choose with
    | some page => exact ⟨rfl, _, rfl⟩
    | none => exact ⟨rfl, state.granted, rfl⟩
  rw [wp] at hrun
  rcases hexec : exec pmmAlloc state with ⟨v | addr, now⟩
  · rw [hexec] at hrun
    exact hrun.elim
  · rw [hexec] at hrun
    obtain ⟨haddr, granted, hnow⟩ := hrun
    exact ⟨granted, by rw [haddr, hnow]⟩

namespace Pmm

variable {pmm pmm' : Pmm} {page first last : ℕ}

/-- The count depends on the bits between the bounds. -/
theorem freeIn_congr (h : ∀ other, first ≤ other → other < last →
    pmm'.used other = pmm.used other) : pmm'.freeIn first last = pmm.freeIn first last := by
  refine List.countP_congr fun other hother => ?_
  have hrange := List.mem_range'_1.mp hother
  rw [h other hrange.1 (by omega)]

/-- A frame that is taken or given back counts one. -/
theorem freeIn_of_flip (hfirst : first ≤ page) (hlast : page < last)
    (hfree : pmm.used page = false) (hused : pmm'.used page = true)
    (hrest : ∀ other, other ≠ page → pmm'.used other = pmm.used other) :
    pmm'.freeIn first last + 1 = pmm.freeIn first last := by
  have hsplit : ∀ pmm : Pmm, pmm.freeIn first last =
      pmm.freeIn first page + (pmm.freeIn page (page + 1) + pmm.freeIn (page + 1) last) := by
    intro pmm
    rw [freeIn_add hfirst (Nat.le_of_lt hlast), freeIn_add (Nat.le_succ page) hlast]
  have hone : pmm.freeIn page (page + 1) = page + 1 - page :=
    freeIn_eq_sub fun other hle hlt => by rw [(by omega : other = page), hfree]
  have hzero : pmm'.freeIn page (page + 1) = 0 := freeIn_eq_zero fun other hle hlt => by
    rw [(by omega : other = page), hused]
  have hbefore := freeIn_congr fun other (_ : first ≤ other) (hlt : other < page) =>
    hrest other (by omega)
  have hbehind := freeIn_congr fun other (hle : page + 1 ≤ other) (_ : other < last) =>
    hrest other (by omega)
  rw [hsplit pmm, hsplit pmm', hone, hzero, hbefore, hbehind]
  omega

/-- The start of the search is not behind its end, and nobody gets the frame 0. -/
structure Searchable (pmm : Pmm) : Prop where
  /-- The search begins within the map. -/
  last : pmm.lastAlloc ≤ pmm.maxPage
  /-- Frame 0 is used. -/
  zero : pmm.used 0 = true

/-- A search finds a free frame between the bounds of the memory. -/
theorem Searchable.choose_eq_some (h : pmm.Searchable) (hsome : pmm.choose = some page) :
    1 ≤ page ∧ page < pmm.maxPage ∧ pmm.used page = false := by
  have hbounds : page < pmm.maxPage ∧ pmm.used page = false := by
    rcases Option.or_eq_some_iff.mp hsome with hfirst | ⟨_, hsecond⟩
    · have ⟨_, hlt, hfree, _⟩ := find_eq_some hfirst
      exact ⟨hlt, hfree⟩
    · have ⟨_, hlt, hfree, _⟩ := find_eq_some hsecond
      exact ⟨lt_of_lt_of_le hlt h.last, hfree⟩
  refine ⟨Nat.one_le_iff_ne_zero.mpr fun hzero => ?_, hbounds⟩
  have hused := h.zero
  rw [← hzero, hbounds.2] at hused
  exact Bool.false_ne_true hused

/-- The two loops together go through all frames. -/
theorem choose_eq_none_iff (h : pmm.Searchable) : pmm.choose = none ↔ pmmCountFree pmm = 0 := by
  have hfind : ∀ first last, pmm.find first last = none ↔
      ∀ page, first ≤ page → page < last → pmm.used page = true := by
    intro first last
    rw [find, List.find?_eq_none]
    constructor
    · intro hall page hfirst hlast
      simpa using hall page (List.mem_range'_1.mpr ⟨hfirst, by omega⟩)
    · intro hall page hpage
      have hrange := List.mem_range'_1.mp hpage
      rw [hall page hrange.1 (by omega)]
      exact Bool.false_ne_true
  rw [choose, Option.or_eq_none_iff, hfind, hfind]
  constructor
  · rintro ⟨hbehind, hbefore⟩
    refine freeIn_eq_zero fun page hfirst hlast => ?_
    by_cases hlt : page < pmm.lastAlloc
    · exact hbefore page hfirst hlt
    · exact hbehind page (Nat.le_of_not_lt hlt) hlast
  · intro hnone
    have hall : ∀ page, 1 ≤ page → page < pmm.maxPage → pmm.used page = true := by
      intro page hfirst hlast
      have hused := List.countP_eq_zero.mp hnone page (List.mem_range'_1.mpr ⟨hfirst, by omega⟩)
      simpa using hused
    refine ⟨fun page _ hlast => ?_, fun page hfirst hlast => ?_⟩
    · by_cases hzero : page = 0
      · rw [hzero, h.zero]
      · exact hall page (Nat.one_le_iff_ne_zero.mpr hzero) hlast
    · exact hall page hfirst (lt_of_lt_of_le hlast h.last)

end Pmm

/-- The calls of the users of the allocator. -/
inductive FrameCall where
  | alloc
  | free (addr : UInt32)

/-- The statics, and the frames that are out. -/
structure FrameHistory where
  /-- The allocator. -/
  pmm : Pmm
  /-- The addresses that pmm_alloc has returned and that are not yet given back. -/
  live : List UInt32

/-- What a call leaves. -/
def FrameCall.after : FrameCall → FrameHistory → FrameHistory
  | alloc, history =>
    { pmm := history.pmm.alloc.2
      live := if history.pmm.alloc.1 = 0 then history.live
        else history.pmm.alloc.1 :: history.live }
  | free addr, history => ⟨pmmFree addr history.pmm, history.live.erase addr⟩

/-- Only a frame that is out is given back. -/
def FrameCall.Allowed : FrameCall → FrameHistory → Prop
  | alloc, _ => True
  | free addr, history => addr ∈ history.live

/-- A frame that may be handed out. -/
structure Grantable (memSize kernelEnd : ℕ) (history : FrameHistory) (addr : UInt32) : Prop where
  /-- No live frame is granted again. -/
  notLive : ∀ other ∈ history.live, frameOf other ≠ frameOf addr
  /-- The kernel is kept out. -/
  aboveKernel : kernelEnd ≤ addr.toNat
  /-- The hole below 1 MB is kept out. -/
  notHole : ¬(0xA0000 ≤ addr.toNat ∧ addr.toNat ≤ 0xFFFFF)
  /-- The frame is one of the memory. -/
  inMemory : addr.toNat < min memSize pmmMaxMem

/-- What pmm_alloc and pmm_free promise. -/
def FrameCall.Kept (memSize kernelEnd : ℕ) : FrameCall → FrameHistory → Prop
  | alloc, history =>
    (history.pmm.alloc.1 = 0 ↔ pmmCountFree history.pmm = 0) ∧
      (history.pmm.alloc.1 ≠ 0 → Grantable memSize kernelEnd history history.pmm.alloc.1 ∧
        pmmCountFree history.pmm.alloc.2 + 1 = pmmCountFree history.pmm)
  | free addr, history => pmmCountFree (pmmFree addr history.pmm) = pmmCountFree history.pmm + 1

/-- Before the first call. -/
def FrameHistory.start (memSize kernelEnd : ℕ) : FrameHistory := ⟨pmmInit memSize kernelEnd, []⟩

/-- The frames that are free were free at the start, and so were those that are out. -/
structure FramesOut (memSize kernelEnd : ℕ) (history : FrameHistory) : Prop where
  /-- The number of frames stays. -/
  maxPage : history.pmm.maxPage = (pmmInit memSize kernelEnd).maxPage
  /-- The search begins within the map. -/
  last : history.pmm.lastAlloc ≤ history.pmm.maxPage
  /-- What is free was free at the start. -/
  free : ∀ page, history.pmm.used page = false → (pmmInit memSize kernelEnd).used page = false
  /-- A live frame is used and was free at the start. -/
  live : ∀ addr ∈ history.live, ∃ page, addr = frameAddress page ∧
    (pmmInit memSize kernelEnd).used page = false ∧ history.pmm.used page = true
  /-- No frame is live twice. -/
  nodup : history.live.Nodup

variable {memSize kernelEnd : ℕ} {history : FrameHistory}

/-- The frames that are free at the start. -/
theorem pmmInit_free {page : ℕ} (h : (pmmInit memSize kernelEnd).used page = false) :
    page ≠ 0 ∧ ¬(0xA0 ≤ page ∧ page < 0x100) ∧ page < 8192 ∧
      page < (pmmInit memSize kernelEnd).maxPage ∧ kernelEnd ≤ 4096 * page ∧
      4096 * page < min memSize pmmMaxMem := by
  have hall := not_or.mp (of_decide_eq_false h)
  have ⟨hhole, hinside⟩ := not_or.mp hall.2
  have ⟨hkernel, hmax⟩ := not_not.mp hinside
  have htop : (if memSize > pmmMaxMem then pmmMaxMem else memSize) = min memSize pmmMaxMem := by
    split <;> omega
  have hmem : pmmMaxMem = 33554432 := rfl
  rw [htop] at hkernel hmax
  refine ⟨hall.1, hhole, by omega, ?_, by omega, by omega⟩
  show page < (if memSize > pmmMaxMem then pmmMaxMem else memSize) / 4096
  rw [htop]
  exact hmax

theorem framesOut_start (memSize kernelEnd : ℕ) :
    FramesOut memSize kernelEnd (.start memSize kernelEnd) where
  maxPage := rfl
  last := Nat.min_le_right _ _
  free _ h := h
  live _ h := absurd h List.not_mem_nil
  nodup := List.nodup_nil

namespace FramesOut

theorem searchable (h : FramesOut memSize kernelEnd history) : history.pmm.Searchable := by
  refine ⟨h.last, ?_⟩
  by_contra hzero
  exact (pmmInit_free (h.free 0 (Bool.eq_false_iff.mpr hzero))).1 rfl

/-- What pmm_alloc does, with a free frame or without. -/
theorem alloc_cases (h : FramesOut memSize kernelEnd history) :
    (pmmCountFree history.pmm = 0 ∧ history.pmm.alloc = (0, history.pmm)) ∨
    ∃ page, history.pmm.used page = false ∧ history.pmm.alloc.1 = frameAddress page ∧
      history.pmm.alloc.2 = history.pmm.taking page ∧ history.pmm.alloc.1 ≠ 0 := by
  rcases hchoose : history.pmm.choose with _ | page
  · exact .inl ⟨(Pmm.choose_eq_none_iff h.searchable).mp hchoose, by rw [Pmm.alloc, hchoose]⟩
  · have ⟨_, _, hfree⟩ := h.searchable.choose_eq_some hchoose
    have hinit := pmmInit_free (h.free page hfree)
    have halloc : history.pmm.alloc = (frameAddress page, history.pmm.taking page) := by
      rw [Pmm.alloc, hchoose]
    refine .inr ⟨page, hfree, by rw [halloc], by rw [halloc], ?_⟩
    rw [halloc]
    exact frameAddress_ne_zero hinit.2.2.1 hinit.1

/-- A frame that is out has its bit set. -/
theorem frame_of_live (h : FramesOut memSize kernelEnd history) {addr : UInt32}
    (haddr : addr ∈ history.live) : addr = frameAddress (frameOf addr) ∧
      (pmmInit memSize kernelEnd).used (frameOf addr) = false ∧
      history.pmm.used (frameOf addr) = true := by
  have ⟨page, heq, hinit, hused⟩ := h.live addr haddr
  have hframe : frameOf addr = page := by
    rw [heq, frameOf_frameAddress (pmmInit_free hinit).2.2.1]
  rw [hframe]
  exact ⟨heq, hinit, hused⟩

/-- The promises hold of a call. -/
theorem kept (h : FramesOut memSize kernelEnd history) {call : FrameCall}
    (hallowed : call.Allowed history) : call.Kept memSize kernelEnd history := by
  cases call with
  | alloc =>
    rcases h.alloc_cases with ⟨hnone, halloc⟩ | ⟨page, hfree, haddr, hpmm, hne⟩
    · have hzero : history.pmm.alloc.1 = 0 := congrArg Prod.fst halloc
      exact ⟨iff_of_true hzero hnone, fun hne => absurd hzero hne⟩
    · have ⟨hzero, hhole, hlt, hmax, hkernel, hmem⟩ := pmmInit_free (h.free page hfree)
      have hvalue := toNat_frameAddress hlt
      have hcount : pmmCountFree (history.pmm.taking page) + 1 = pmmCountFree history.pmm :=
        Pmm.freeIn_of_flip (Nat.one_le_iff_ne_zero.mpr hzero) (h.maxPage ▸ hmax) hfree
          Pmm.taking_used_self fun other hother => Pmm.taking_used_of_ne hother
      refine ⟨iff_of_false hne (by omega), fun _ => ⟨?_, by rw [hpmm]; exact hcount⟩⟩
      rw [haddr]
      refine ⟨fun other hother hsame => ?_, by rw [hvalue]; exact hkernel, by rw [hvalue]; omega,
        by rw [hvalue]; exact hmem⟩
      have ⟨_, _, hused⟩ := h.frame_of_live hother
      rw [hsame, frameOf_frameAddress hlt, hfree] at hused
      exact Bool.false_ne_true hused
  | free addr =>
    have ⟨_, hinit, hused⟩ := h.frame_of_live hallowed
    have ⟨hzero, _, _, hmax, _⟩ := pmmInit_free hinit
    have hlt : addr.toNat / 4096 < history.pmm.maxPage := h.maxPage ▸ hmax
    have hfreed : pmmFree addr history.pmm = _ := if_pos hlt
    have hcount : pmmCountFree history.pmm + 1 = (pmmFree addr history.pmm).freeIn 1
        history.pmm.maxPage := by
      rw [hfreed]
      exact Pmm.freeIn_of_flip (Nat.one_le_iff_ne_zero.mpr hzero) hlt (Function.update_self _ _ _)
        hused fun other hother => (Function.update_of_ne hother _ _).symm
    rw [FrameCall.Kept, hcount, pmmCountFree, hfreed]

/-- The calls keep the frames apart. -/
theorem after (h : FramesOut memSize kernelEnd history) {call : FrameCall}
    (hallowed : call.Allowed history) : FramesOut memSize kernelEnd (call.after history) := by
  cases call with
  | alloc =>
    rcases h.alloc_cases with ⟨_, halloc⟩ | ⟨page, hfree, haddr, hpmm, hne⟩
    · have hsame : FrameCall.alloc.after history = history := by
        rw [FrameCall.after, halloc]
        rfl
      rw [hsame]
      exact h
    · have ⟨_, _, hlt, hmax, _⟩ := pmmInit_free (h.free page hfree)
      have hnow : FrameCall.alloc.after history =
          ⟨history.pmm.taking page, frameAddress page :: history.live⟩ := by
        rw [FrameCall.after, if_neg hne, hpmm, haddr]
      rw [hnow]
      refine ⟨h.maxPage, ?_, fun other hother => ?_, fun addr hmem => ?_, ?_⟩
      · show page + 1 ≤ history.pmm.maxPage
        rw [h.maxPage]
        exact hmax
      · by_cases heq : other = page
        · rw [heq, Pmm.taking_used_self] at hother
          exact absurd hother.symm Bool.false_ne_true
        · rw [Pmm.taking_used_of_ne heq] at hother
          exact h.free other hother
      · rcases List.mem_cons.mp hmem with rfl | hold
        · exact ⟨page, rfl, h.free page hfree, Pmm.taking_used_self⟩
        · have ⟨other, heq, hinit, hused⟩ := h.live addr hold
          exact ⟨other, heq, hinit, Pmm.taking_used hused⟩
      · refine List.nodup_cons.mpr ⟨fun hmem => ?_, h.nodup⟩
        have hused := (h.frame_of_live hmem).2.2
        rw [frameOf_frameAddress hlt, hfree] at hused
        exact Bool.false_ne_true hused
  | free addr =>
    have ⟨haddr, hinit, _⟩ := h.frame_of_live hallowed
    have ⟨_, _, _, hmax, _⟩ := pmmInit_free hinit
    have hlt : addr.toNat / 4096 < history.pmm.maxPage := h.maxPage ▸ hmax
    have hfreed : pmmFree addr history.pmm = _ := if_pos hlt
    rw [FrameCall.after, hfreed]
    refine ⟨h.maxPage, ?_, fun page hpage => ?_, fun other hother => ?_, h.nodup.erase addr⟩
    · show (if _ then _ else _) ≤ history.pmm.maxPage
      split
      · exact Nat.le_of_lt hlt
      · exact h.last
    · by_cases heq : page = frameOf addr
      · rw [heq, hinit]
      · exact h.free page ((Function.update_of_ne heq _ _).symm.trans hpage)
    · have ⟨hne, hmem⟩ := (List.Nodup.mem_erase_iff h.nodup).mp hother
      have ⟨heq, hinit', hused⟩ := h.frame_of_live hmem
      refine ⟨frameOf other, heq, hinit', (Function.update_of_ne (fun hsame => hne ?_) _ _).trans hused⟩
      rw [heq, haddr]
      exact congrArg frameAddress hsame

end FramesOut

/-- After pmm_init, in every sequence of calls that gives back only frames that are out: pmm_alloc
returns frames of the free memory that are not out, fails exactly when pmm_count_free is 0, and
each successful call changes the count by one. -/
theorem frameCalls_kept (memSize kernelEnd : UInt32) {calls : List FrameCall}
    (hallowed : EveryStep FrameCall.after FrameCall.Allowed calls
      (.start memSize.toNat kernelEnd.toNat)) :
    EveryStep FrameCall.after (FrameCall.Kept memSize.toNat kernelEnd.toNat) calls
      (.start memSize.toNat kernelEnd.toNat) :=
  hallowed.imp_of_invariant (fun _ _ h hcall => FramesOut.after h hcall)
    (fun _ _ h hcall => FramesOut.kept h hcall) (framesOut_start _ _)

/-- One frame is taken, given back and taken again. -/
theorem frameCalls_kept_reuse :
    EveryStep FrameCall.after (FrameCall.Kept 0x100000 0x90000)
      [.alloc, .free 0x90000, .alloc] (.start 0x100000 0x90000) := by
  have hlive : (0x90000 : UInt32) ∈ (FrameCall.alloc.after (.start 0x100000 0x90000)).live := by
    decide +kernel
  have hallowed : EveryStep FrameCall.after FrameCall.Allowed [.alloc, .free 0x90000, .alloc]
      (.start 0x100000 0x90000) := ⟨trivial, hlive, trivial, trivial⟩
  exact frameCalls_kept 0x100000 0x90000 hallowed

end HexaOS.Paging
