import HexaOS.PageMapping

/-!
# Mappings for user mode

sys_mmap enters its pages with the flags for user mode, but a new table is entered into the
directory without them, and an access from user mode needs both. So a page is never accessible
from user mode, in whatever order the calls come.
-/

namespace HexaOS.Paging

open X86 Process StepRuns

variable {kernel : KernelLayout} {state : PagingState} {roles : ℕ → Option FrameRole}

/-- The page of an address can be used from user mode, on a frame of its own that was taken
between two states. -/
structure ServesUser (before after : PagingState) (v pde pte : UInt32) : Prop where
  /-- The address is mapped. -/
  found : walk after.words after.procs.cr3 v = some (pde, pte)
  /-- The directory lets user mode through. -/
  directory : userAccess pde = true
  /-- So does the table. -/
  table : userAccess pte = true
  /-- The frame was taken by the call. -/
  allocated : ∃ taken, after.granted = before.granted ++ taken ∧ frameAddress (frameOf pte) ∈ taken
  /-- No other page has it. -/
  own : ∀ w pde' pte', w.toNat / 4096 ≠ v.toNat / 4096 →
    walk after.words after.procs.cr3 w = some (pde', pte') → frameOf pte' ≠ frameOf pte

/-- A successful sys_mmap serves every page that overlaps the bytes that were asked for. -/
def MmapServes (state : PagingState) (addr len : UInt32) : Prop :=
  ∀ value after, exec (sysMmap addr len) state = (.ok value, after) →
    value ≠ sysEinval → value ≠ sysEnomem →
      ∀ v : UInt32, (mmapStart addr).toNat / 4096 ≤ v.toNat / 4096 →
        v.toNat / 4096 ≤ ((mmapStart addr).toNat + len.toNat - 1) / 4096 →
          ∃ pde pte, ServesUser state after v pde pte

/-- Under the rules for the page tables, sys_mmap does what it should only where it does not
succeed: the frames do not suffice, or the address is the value of an error. -/
theorem Sane.mmapServes_iff (h : Sane kernel state roles) (hkernel : kernel.pages ≤ 2304)
    {start : Frames → Prop} {addr len : UInt32} (hlen : len ≠ 0)
    (hsafe : PagingCall.Safe start (.mmap addr len) state) :
    MmapServes state addr len ↔ OutOfFrames state.pmm.frames (state.tablesOf state.procs.cr3)
      (rangePages (mmapStart addr) len) ∨ addr = sysEinval ∨ addr = sysEnomem := by
  have hrun : wp (sysMmap addr len) state (fun value after => (∃ roles', Sane kernel after roles') ∧
      MmapResult state addr len value) fun _ => False :=
    h.wp_sysMmap hkernel hsafe fun value after hsane _ hresult => ⟨hsane, hresult hlen⟩
  have ⟨value, after, hexec, ⟨_, hsane⟩, hresult⟩ := exists_of_wp hrun
  constructor
  · intro hserves
    by_contra hnot
    have ⟨henough, heinval, henomem⟩ : ¬OutOfFrames _ _ _ ∧ addr ≠ sysEinval ∧ addr ≠ sysEnomem :=
      ⟨fun hout => hnot (.inl hout), fun heq => hnot (.inr (.inl heq)),
        fun heq => hnot (.inr (.inr heq))⟩
    have hvalue := hresult.mapped henough
    have herror : ∀ code : UInt32, addr ≠ code → code ≠ 0x40000000 → value ≠ code := by
      intro code hne hstart
      rw [hvalue, mmapStart]
      split
      · exact hstart.symm
      · exact hne
    have hbyte : 0 < len.toNat := by
      have hne : len.toNat ≠ 0 := fun hzero => hlen (UInt32.toNat_inj.mp hzero)
      omega
    have ⟨pde, pte, hserved⟩ := hserves value after hexec (herror _ heinval (by decide))
      (herror _ henomem (by decide)) (mmapStart addr) (Nat.le_refl _)
      (Nat.div_le_div_right (by omega))
    have hnone := hsane.userAccess_tableEntry hsane.dirs.cr3 hserved.found
    rw [hserved.directory] at hnone
    exact Bool.false_ne_true hnone.symm
  · intro hfails value' after' hexec' heinval henomem
    rw [hexec] at hexec'
    have hvalue : value = value' := Except.ok.inj (Prod.mk.inj hexec').1
    rw [← hvalue] at heinval henomem
    by_cases hout : OutOfFrames state.pmm.frames (state.tablesOf state.procs.cr3)
        (rangePages (mmapStart addr) len)
    · exact absurd (hresult.out hout) henomem
    · rcases hfails with hout' | rfl | rfl
      · exact absurd hout' hout
      · exact absurd (hresult.mapped hout) heinval
      · exact absurd (hresult.mapped hout) henomem

/-- In every run of calls that leave the pages of the kernel alone and find frames below 8 MB,
a sys_mmap of that kind does what it should only where it does not succeed. -/
theorem mmapServes_run {memory : Kheap.Memory} {procs : Processes} {kernelEnd : ℕ}
    (hprocs : ∀ slot, (procs.tasks slot).pageDir = 0)
    (hlow : 4 ≤ (pmmInit memSize kernelEnd).frames.low) {calls : List PagingCall}
    (hsafe : EveryStep PagingCall.after (PagingCall.Safe fun frames => 2 ≤ frames.low) calls
      (booted memory procs kernelEnd)) :
    EveryState PagingCall.after (fun state => ∀ addr len, len ≠ 0 →
      PagingCall.Safe (fun frames => 2 ≤ frames.low) (.mmap addr len) state →
        (MmapServes state addr len ↔
          OutOfFrames state.pmm.frames (state.tablesOf state.procs.cr3)
            (rangePages (mmapStart addr) len) ∨ addr = sysEinval ∨ addr = sysEnomem))
      calls (booted memory procs kernelEnd) := by
  have ⟨roles, hbooted, _⟩ := booted_spec memory hprocs hlow
  have hstart : Sane hbooted.weak (booted memory procs kernelEnd) roles :=
    hbooted.rebase _ fun p _ hp => hbooted.identity hp
  have hrun := hstart.everyState (Nat.le_refl 2304) (by decide : 3 ≤ 256)
    (fun _ htwo => hbooted.weak_start htwo) hsafe
  refine hrun.mono fun state ⟨_, hsane⟩ addr len hlen hcall => ?_
  exact hsane.mmapServes_iff (Nat.le_refl 2304) hlen hcall

/-- After the start a page is not served, and an empty range at an address that reads as an error
is. -/
theorem mmapServes_smallStart :
    ¬MmapServes smallStart 0x40001000 4096 ∧ MmapServes smallStart sysEinval 1 := by
  have hlaw := (mmapServes_run (fun _ => rfl) smallStart_low
    (smallStart_safe fun frames => 2 ≤ frames.low)).1
  have hpage : rangePages (mmapStart 0x40001000) 4096 = [0x40001000] := by decide +kernel
  have hempty : rangePages (mmapStart sysEinval) 1 = [] := by decide +kernel
  refine ⟨fun hserves => ?_, ?_⟩
  · rcases (hlaw _ _ (by decide) (smallStart_safePage _ hpage (by decide))).mp hserves with
      hout | hvalue | hvalue
    · rw [hpage] at hout
      exact smallStart_notOut _ _ hout
    · exact absurd hvalue (by decide)
    · exact absurd hvalue (by decide)
  · refine (hlaw _ _ (by decide) fun _ => ?_).mpr (.inr (.inl rfl))
    rw [hempty]
    trivial

/-- The first page that a program asks for is not accessible to it. -/
theorem mmapServes_lost : ¬MmapServes smallStart 0x40000000 4096 := by
  have ⟨_, hbooted, _, htaken⟩ := smallStart_spec
  have ⟨_, hpages, hsane⟩ := hbooted.sane
  have hlow : 1808 ≤ smallStart.pmm.frames.low + 515 := htaken.low
  have hkernel : lowPages ≤ 2304 := by decide
  have hsafe : PagingCall.Safe (fun frames => 2 ≤ frames.low) (.mmap 0x40000000 4096) smallStart :=
    safe_mmapPage _ (by omega)
  have hnot := smallStart_notOut (smallStart.tablesOf smallStart.procs.cr3) 0x40000000
  rw [hsane.mmapServes_iff (hpages ▸ hkernel) (by decide) hsafe, rangePages_first]
  rintro (hout | hvalue | hvalue)
  · exact hnot hout
  · exact absurd hvalue (by decide)
  · exact absurd hvalue (by decide)

end HexaOS.Paging
