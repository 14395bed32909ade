import Mathlib.Data.List.Find
import HexaOS.FormBuffers
import HexaOS.StepRuns

/-!
# Descriptors against byte lists

The calls of vfs.c on forms beside requests to a store of byte lists, for users that are
permitted and while memory is granted and the forms are small. Both have the same forms and
the same descriptors, but for those that were opened to append: vfs_open leaves them at
0x7FFFFFFF. A call answers as the store does exactly when it stays away from that position,
finds zeros where the store has them and seeks from the end no further than the start.
-/

namespace HexaOS.Kernel

open DevicePrograms PackedBytes Hexafs Shell ByteForms StepRuns

/-- A call of vfs.c. -/
inductive VfsCall where
  /-- vfs_open by a task. -/
  | open (task : ℕ) (path : CString) (flags : UInt32)
  | read (fd count : Int32)
  | write (fd : Int32) (buffer : ℕ → UInt8) (count : Int32)
  | lseek (fd offset : Int32) (whence : Whence)
  | dup (fd : Int32)
  | close (fd : Int32)

/-- The `whence` of vfs_lseek. -/
def whenceCode : Whence → Int32
  | .start => seekSet
  | .position => seekCur
  | .size => seekEnd

/-- The answer with a descriptor. -/
def fdAnswer : Option ℕ → Answer
  | none => .refused
  | some fd => ⟨fd, []⟩

/-- The code of a call and its answer. -/
def VfsCall.code : VfsCall → KernelM Answer
  | .open task path flags => do
    let fd ← vfsOpen task path flags
    pure (fdAnswer fd)
  | .read fd count => do
    let done ← vfsRead fd count
    pure ⟨done.ret.toInt, done.out⟩
  | .write fd buffer count => do
    let done ← vfsWrite fd buffer count
    pure ⟨done.ret.toInt, done.out⟩
  | .lseek fd offset whence => do
    let pos ← vfsLseek fd offset (whenceCode whence)
    pure ⟨pos.toInt, []⟩
  | .dup fd => do
    let new ← vfsDup fd
    pure (fdAnswer new)
  | .close fd => do
    let ret ← vfsClose fd
    pure ⟨ret.toInt, []⟩

/-- The request that a call stands for. -/
def VfsCall.request : VfsCall → Request CString
  | .open _ path flags => .open path (flags &&& formCreat != 0) (flags &&& formAppend != 0)
  | .read fd count => .read fd.toInt count.toNatClampNeg
  | .write fd buffer count => .write fd.toInt (bufferBytes buffer count.toNatClampNeg)
  | .lseek fd offset whence => .seek fd.toInt offset.toInt whence
  | .dup fd => .dup fd.toInt
  | .close fd => .close fd.toInt

/-- A form needs a name, and vfs_fd_alloc gives out the descriptors from 3 on. -/
def vfsLimits : Limits CString := ⟨fun name => name.chars ≠ [], maxForms, 3, vfsMaxFds⟩

/-- The names and the contents of the forms. -/
def shownForms (kernel : KernelMemory) : List (CString × List UInt8) :=
  (List.range kernel.store.formCount).map fun i =>
    ((kernel.forms.slot i).name, kernel.forms.bytes i)

/-- The position at which vfs_open leaves a descriptor that was opened to append. -/
def appendPos : Int32 := 0x7FFFFFFF

/-- All forms are smaller than 65528 bytes. -/
def SmallForms (store : Store CString) : Prop := ∀ form ∈ store.forms, form.2.length < 65528

/-- A descriptor that was opened to append and was not moved since. -/
structure AtAppend (entry : VfsFd) (descriptor : Descriptor) : Prop where
  /-- The position is that of vfs_open. -/
  entry : entry.pos = appendPos
  /-- The end of the form is in front of it. -/
  store : descriptor.pos < 65528

/-- An open descriptor of both. -/
structure ShowsOpen (entry : VfsFd) (descriptor : Descriptor) : Prop where
  /-- The descriptor is on a form. -/
  type : entry.type = .form
  /-- It is the same form. -/
  ref : entry.ref = descriptor.form
  /-- The position is not negative. -/
  nonneg : 0 ≤ entry.pos.toInt
  /-- It is the same position, or that of an append. -/
  pos : entry.pos.toInt = descriptor.pos ∨ AtAppend entry descriptor

/-- A descriptor of both is open or free. -/
def ShowsFd (entry : VfsFd) : Option Descriptor → Prop
  | none => entry.type = .free
  | some descriptor => ShowsOpen entry descriptor

/-- The kernel and the store have the same forms and the same descriptors. -/
structure Shows (store : Store CString) (kernel : KernelMemory) : Prop where
  /-- The forms have their buffers. -/
  held : HeldTable kernel.forms kernel.store.formCount
  /-- The forms are the same. -/
  forms : store.forms = shownForms kernel
  /-- The descriptors are the same. -/
  fds : ∀ fd < vfsMaxFds, ShowsFd (kernel.vfsFds fd) (store.descriptors fd)
  /-- The store is valid. -/
  valid : store.Valid vfsLimits
  /-- The forms are small. -/
  small : SmallForms store

/-- A kernel and the store beside it. -/
structure VfsState where
  /-- The system. -/
  system : System
  /-- The store beside it. -/
  store : Store CString

/-- The state behind a call. A call that does not return leaves the kernel alone. -/
def VfsState.after (env : Environment) (call : VfsCall) (state : VfsState) : VfsState where
  system :=
    match state.system.run env call.code with
    | .ok (_, system) => system
    | .error _ => state.system
  store := (state.store.respond vfsLimits call.request).2

/-- The call returns, with the answer of the store, and leaves its forms. -/
def VfsCall.Answers (env : Environment) (call : VfsCall) (state : VfsState) : Prop :=
  ∃ system, state.system.run env call.code =
      .ok ((state.store.respond vfsLimits call.request).1, system) ∧
    shownForms system.kernel = (state.store.respond vfsLimits call.request).2.forms

/-- The user may open the form, and no form gets too large. -/
structure VfsCall.Allowed (call : VfsCall) (state : VfsState) : Prop where
  /-- The user may open the form. -/
  permitted : ∀ task path flags, call = .open task path flags →
    ∀ idx, findForm state.system.kernel path = some idx →
      checkPerm state.system.kernel idx (flags &&& formWrite != 0) = false
  /-- No form gets too large. -/
  small : SmallForms (state.store.respond vfsLimits call.request).2

/-- When a call answers as the store does, by the state before it. -/
def VfsCall.Meets (env : Environment) (call : VfsCall) (state : VfsState) : Prop :=
  let kernel := state.system.kernel
  match call with
  | .open _ path flags =>
    -- the name of a form that is created fits its entry
    findForm kernel path = none → flags &&& formCreat ≠ 0 → kernel.store.formCount < maxForms →
      path.chars.length < nameMax
  | .read fd count =>
    -- a descriptor at the end has nothing to read
    ∀ descriptor, state.store.lookup fd.toInt = some descriptor →
      AtAppend (entryOf kernel fd) descriptor → 0 < count →
        (kernel.forms.slot descriptor.form).size ≤ descriptor.pos
  | .write fd _ count =>
    ∀ descriptor, state.store.lookup fd.toInt = some descriptor →
      (entryOf kernel fd).pos.toInt + count.toNatClampNeg < 65528 ∧
        (count ≤ 0 → (entryOf kernel fd).pos.toInt ≤ (kernel.forms.slot descriptor.form).size) ∧
          FitsZeros env state.system.dev kernel.forms descriptor.form
            (entryOf kernel fd).pos.toNatClampNeg count.toNatClampNeg
  | .lseek _ _ .start => True
  | .lseek fd offset .position =>
    ∀ descriptor, state.store.lookup fd.toInt = some descriptor →
      (entryOf kernel fd).pos.toInt + offset.toInt < 2 ^ 31 ∧
        (AtAppend (entryOf kernel fd) descriptor →
          (entryOf kernel fd).pos.toInt + offset.toInt ≤ 0)
  | .lseek fd offset .size =>
    ∀ descriptor, state.store.lookup fd.toInt = some descriptor →
      (kernel.forms.slot descriptor.form).size + offset.toInt ≤ 0
  | .dup _ => True
  | .close _ => True

section Relation

variable {env : Environment} {kernel : KernelMemory} {store : Store CString} {fd : Int32}
  {descriptor : Descriptor} {idx : ℕ}

theorem length_shownForms (kernel : KernelMemory) :
    (shownForms kernel).length = kernel.store.formCount := by
  rw [shownForms, List.length_map, List.length_range]

/-- A form that is shown. -/
theorem getElem?_shownForms (kernel : KernelMemory) (i : ℕ) :
    (shownForms kernel)[i]? =
      if i < kernel.store.formCount then
        some ((kernel.forms.slot i).name, kernel.forms.bytes i)
      else none := by
  rw [shownForms, List.getElem?_map]
  split
  · rename_i hlt
    rw [List.getElem?_range hlt]
    rfl
  · rename_i hge
    rw [List.getElem?_eq_none (by rw [List.length_range]; omega)]
    rfl

theorem Shows.bytes_eq (h : Shows store kernel) (hlt : idx < kernel.store.formCount) :
    store.bytes idx = kernel.forms.bytes idx := by
  rw [Store.bytes, h.forms, getElem?_shownForms, if_pos hlt]
  rfl

theorem Shows.length_bytes (h : Shows store kernel) (hlt : idx < kernel.store.formCount) :
    (kernel.forms.bytes idx).length = (kernel.forms.slot idx).size ∧
      (kernel.forms.slot idx).size < 65528 := by
  have hlength := (h.held.held idx hlt).length_bytes
  have hform := getElem?_shownForms kernel idx
  rw [if_pos hlt, ← h.forms] at hform
  have hsmall := h.small _ (List.mem_of_getElem? hform)
  exact ⟨hlength, hlength ▸ hsmall⟩

/-- A number below zero is no descriptor. -/
theorem toNat_toInt_fd (fd : Int32) : fd.toInt.toNat = fd.toNatClampNeg := Int32.toNat_toInt fd

/-- A descriptor of the store is one of the kernel. -/
theorem Shows.lookup_some (h : Shows store kernel)
    (hlookup : store.lookup fd.toInt = some descriptor) :
    ShowsOpen (entryOf kernel fd) descriptor ∧ fdForm kernel fd = some descriptor.form ∧
      usedFd kernel fd = some fd.toNatClampNeg := by
  have ⟨hnonneg, hfd⟩ := Store.lookup_eq_some hlookup
  have ⟨hlt, hform⟩ := h.valid _ _ hfd
  rw [toNat_toInt_fd] at hfd hlt
  have hshows := h.fds _ hlt
  rw [hfd] at hshows
  have hopen : ShowsOpen (entryOf kernel fd) descriptor := hshows
  rw [h.forms, length_shownForms] at hform
  have htype : (kernel.vfsFds fd.toNatClampNeg).type = .form := hopen.type
  have href : (kernel.vfsFds fd.toNatClampNeg).ref = descriptor.form := hopen.ref
  have hzero : (0 : Int32) ≤ fd := Int32.le_iff_toInt_le.mpr hnonneg
  refine ⟨hopen, ?_, ?_⟩
  · rw [fdForm, if_pos ⟨hzero, hlt, htype, href ▸ hform⟩, href]
  · rw [usedFd, if_pos ⟨hzero, hlt, by rw [htype]; decide⟩]

/-- What is no descriptor of the store is none of the kernel. -/
theorem Shows.lookup_none (h : Shows store kernel) (hlookup : store.lookup fd.toInt = none) :
    fdForm kernel fd = none ∧ usedFd kernel fd = none := by
  have hfree : 0 ≤ fd → fd.toNatClampNeg < vfsMaxFds →
      (kernel.vfsFds fd.toNatClampNeg).type = .free := by
    intro hnonneg hlt
    have hzero : 0 ≤ fd.toInt := Int32.le_iff_toInt_le.mp hnonneg
    rw [Store.lookup, if_pos hzero, toNat_toInt_fd] at hlookup
    have hshows := h.fds _ hlt
    rw [hlookup] at hshows
    exact hshows
  constructor
  · rw [fdForm, if_neg]
    rintro ⟨hnonneg, hlt, htype, _⟩
    rw [hfree hnonneg hlt] at htype
    cases htype
  · rw [usedFd, if_neg]
    rintro ⟨hnonneg, hlt, htype⟩
    exact htype (hfree hnonneg hlt)

/-- Another descriptor of both. -/
theorem Shows.withFd (h : Shows store kernel) {number : ℕ} {entry : VfsFd}
    {given : Option Descriptor} (hentry : ShowsFd entry given)
    (hvalid : (store.setDescriptor number given).Valid vfsLimits) :
    Shows (store.setDescriptor number given) (kernel.withFd number entry) where
  held := h.held
  forms := h.forms
  fds other hother := by
    by_cases heq : other = number
    · rw [heq, Store.setDescriptor_self, kernel.vfsFds_withFd_self]
      exact hentry
    · rw [Store.setDescriptor_of_ne store heq, kernel.vfsFds_withFd_of_ne heq]
      exact h.fds other hother
  valid := hvalid
  small := h.small

/-- A descriptor of both that moves. -/
theorem Shows.move (h : Shows store kernel) (hlookup : store.lookup fd.toInt = some descriptor)
    {pos : Int32} {start : ℕ} (hnonneg : 0 ≤ pos.toInt)
    (hpos : pos.toInt = start ∨ pos = appendPos ∧ start < 65528) :
    Shows (store.setDescriptor fd.toInt.toNat (some ⟨descriptor.form, start⟩))
      (kernel.withFd fd.toNatClampNeg { entryOf kernel fd with pos := pos }) := by
  have hopen := (h.lookup_some hlookup).1
  have hentry : ShowsFd { entryOf kernel fd with pos := pos } (some ⟨descriptor.form, start⟩) := by
    refine ⟨hopen.type, hopen.ref, hnonneg, ?_⟩
    rcases hpos with hpos | ⟨hpos, hstart⟩
    · exact .inl hpos
    · exact .inr ⟨hpos, hstart⟩
  have hvalid := h.valid.move hlookup start
  rw [toNat_toInt_fd] at hvalid ⊢
  exact h.withFd hentry hvalid

end Relation

section Calls

variable {env : Environment} {state : VfsState} {call : VfsCall} {fd : Int32}

/-- A call answers as the store does exactly when it meets its condition, and then it leaves
the kernel and the store alike. -/
structure VfsCall.Refines (env : Environment) (call : VfsCall) (state : VfsState) : Prop where
  /-- The call answers as the store exactly when it meets its condition. -/
  answers_iff : call.Answers env state ↔ call.Meets env state
  /-- Then kernel and store go on alike. -/
  shows : call.Answers env state →
    Shows (state.after env call).store (state.after env call).system.kernel

/-- A call that always returns. -/
theorem VfsCall.refines_of_returns {post : Answer → KernelMemory → Device → Prop}
    (hcode : call.code.outcome (cachedDevice env) (fun _ => False) state.system.kernel
      state.system.dev post)
    (hpost : ∀ answer kernel' dev', post answer kernel' dev' →
      (answer = (state.store.respond vfsLimits call.request).1 ∧
          shownForms kernel' = (state.store.respond vfsLimits call.request).2.forms ↔
        call.Meets env state) ∧
      (call.Meets env state → Shows (state.store.respond vfsLimits call.request).2 kernel')) :
    call.Refines env state := by
  cases hrun : state.system.run env call.code with
  | error stop =>
    rw [Code.outcome] at hcode
    rw [System.run] at hrun
    split at hrun
    · rename_i hexec
      rw [hexec] at hcode
      exact hcode.elim
    · cases hrun
  | ok result =>
    obtain ⟨answer, system⟩ := result
    obtain ⟨hiff, hshows⟩ := hpost answer system.kernel system.dev (outcome_of_run hcode hrun)
    have hanswers : call.Answers env state ↔ call.Meets env state := by
      refine Iff.trans ?_ hiff
      constructor
      · rintro ⟨system', hrun', hforms⟩
        obtain ⟨hanswer, hsystem⟩ := Prod.mk.inj (Except.ok.inj (hrun.symm.trans hrun'))
        exact ⟨hanswer, hsystem ▸ hforms⟩
      · rintro ⟨hanswer, hforms⟩
        exact ⟨system, by rw [hrun, hanswer], hforms⟩
    refine ⟨hanswers, fun h => ?_⟩
    have hmeets := hshows (hanswers.mp h)
    rw [VfsState.after, hrun]
    exact hmeets

/-- A call that, if it returns, does not answer as the store does. -/
theorem VfsCall.refines_of_differs {post : Answer → KernelMemory → Device → Prop}
    (hcode : call.code.outcome (cachedDevice env) (fun _ => True) state.system.kernel
      state.system.dev post)
    (hpost : ∀ answer kernel' dev', post answer kernel' dev' →
      answer = (state.store.respond vfsLimits call.request).1 →
        shownForms kernel' ≠ (state.store.respond vfsLimits call.request).2.forms)
    (hmeets : ¬call.Meets env state) : call.Refines env state := by
  have hnot : ¬call.Answers env state := fun ⟨system, hrun, hforms⟩ =>
    hpost _ _ _ (outcome_of_run hcode hrun) rfl hforms
  exact ⟨⟨fun h => absurd h hnot, fun h => absurd h hmeets⟩, fun h => absurd h hnot⟩

/-- The number that a call returns. -/
theorem toInt_ofNat_small {n : ℕ} (h : n < 65528) : (Int32.ofNat n).toInt = n :=
  Int32.toInt_ofNat_of_lt (by omega)

/-- A position after a step that stays in a small form, or no step. -/
theorem toInt_moved {pos : Int32} {start n : ℕ} (hpos : pos.toInt = start)
    (hmax : n ≠ 0 → start + n < 65528) : (pos + Int32.ofNat n).toInt = (start + n : ℕ) := by
  by_cases hzero : n = 0
  · have hadd : pos + Int32.ofNat 0 = pos := Int32.add_zero pos
    rw [hzero, hadd, hpos]
    rfl
  · have hlt := hmax hzero
    have hn := toInt_ofNat_small (by omega : n < 65528)
    rw [toInt_add_of_lt (by omega) (by omega), hpos, hn]
    rfl

/-- A call that both refuse. -/
theorem VfsCall.refines_of_refused (h : Shows state.store state.system.kernel)
    (hcode : call.code.outcome (cachedDevice env) (fun _ => False) state.system.kernel
      state.system.dev fun answer kernel' _ => answer = .refused ∧ kernel' = state.system.kernel)
    (hstore : state.store.respond vfsLimits call.request = (.refused, state.store))
    (hmeets : call.Meets env state) : call.Refines env state := by
  refine refines_of_returns hcode fun answer kernel' dev' hpost => ?_
  obtain ⟨rfl, rfl⟩ := hpost
  rw [hstore]
  exact ⟨iff_of_true ⟨rfl, h.forms.symm⟩ hmeets, fun _ => h⟩

/-- A descriptor that was opened to append is behind every small form. -/
theorem AtAppend.toInt_pos {entry : VfsFd} {descriptor : Descriptor}
    (h : AtAppend entry descriptor) : entry.pos.toInt = (0x7FFFFFFF : ℕ) := by
  rw [h.entry]
  decide

theorem AtAppend.ne {entry : VfsFd} {descriptor : Descriptor} (h : AtAppend entry descriptor) :
    entry.pos.toInt ≠ descriptor.pos := by
  have hentry := h.toInt_pos
  have hstore := h.store
  omega

/-- What vfs_read answers. -/
theorem VfsCall.read_outcome (h : Shows state.store state.system.kernel) {idx pos : ℕ}
    (hform : fdForm state.system.kernel fd = some idx)
    (hpos : (entryOf state.system.kernel fd).pos.toInt = pos) {count : Int32} {bytes : List UInt8}
    (hbytes : readAt (state.system.kernel.forms.bytes idx) pos count.toNatClampNeg = bytes) :
    (VfsCall.read fd count).code.outcome (cachedDevice env) (fun _ => False) state.system.kernel
      state.system.dev fun answer kernel' _ => answer = ⟨bytes.length, bytes⟩ ∧
        kernel' = state.system.kernel.withFd fd.toNatClampNeg
          { entryOf state.system.kernel fd with
            pos := (entryOf state.system.kernel fd).pos + Int32.ofNat bytes.length } := by
  have ⟨hlength, hsmall⟩ := h.length_bytes (fdForm_lt hform)
  have hcount := length_readAt (state.system.kernel.forms.bytes idx) pos count.toNatClampNeg
  rw [hbytes] at hcount
  rw [code, Code.outcome_bind]
  refine Code.outcome_imp (vfsRead_outcome h.held hform hpos count) fun done kernel' _ hdone => ?_
  have ⟨hret, hkernel⟩ := hdone bytes hbytes.symm
  rw [hret, toInt_ofNat_small (by omega)]
  exact ⟨rfl, hkernel⟩

/-- vfs_read -/
theorem VfsCall.read_refines (h : Shows state.store state.system.kernel) (fd count : Int32) :
    (VfsCall.read fd count).Refines env state := by
  cases hlookup : state.store.lookup fd.toInt with
  | none =>
    refine refines_of_refused h ?_ (by rw [request, Store.respond, hlookup]) fun descriptor heq => ?_
    · simp only [code, vfsRead, Code.outcome_bind, Code.outcome_memory,
        (h.lookup_none hlookup).1]
      exact ⟨rfl, rfl⟩
    · rw [hlookup] at heq
      cases heq
  | some descriptor =>
    obtain ⟨hopen, hform, _⟩ := h.lookup_some hlookup
    have hidx := fdForm_lt hform
    obtain ⟨hlength, hsmall⟩ := h.length_bytes hidx
    have hnat := Int32.toNat_toInt count
    have hpositive : 0 < count ↔ 0 < count.toNatClampNeg := by
      rw [Int32.lt_iff_toInt_lt]
      show 0 < count.toInt ↔ _
      omega
    generalize hread : readAt (state.store.bytes descriptor.form) descriptor.pos
      count.toNatClampNeg = bytes
    have hcount := length_readAt (state.store.bytes descriptor.form) descriptor.pos
      count.toNatClampNeg
    rw [hread] at hcount
    have hstore : state.store.respond vfsLimits (VfsCall.read fd count).request =
        (⟨bytes.length, bytes⟩, state.store.setDescriptor fd.toInt.toNat
          (some ⟨descriptor.form, descriptor.pos + bytes.length⟩)) :=
      Store.respond_read hlookup count.toNatClampNeg hread
    rw [h.bytes_eq hidx] at hread hcount
    rcases hopen.pos with hpos | happend
    · refine refines_of_returns (read_outcome h hform hpos hread) fun answer kernel' _ hpost => ?_
      obtain ⟨rfl, rfl⟩ := hpost
      rw [hstore]
      refine ⟨iff_of_true ⟨rfl, h.forms.symm⟩ fun other hother hend => ?_, fun _ => ?_⟩
      · rw [hlookup] at hother
        exact absurd (Option.some.inj hother ▸ hpos) hend.ne
      · have hmoved := toInt_moved hpos (by omega : bytes.length ≠ 0 → _)
        exact h.move hlookup (by omega) (.inl hmoved)
    · have hnone : readAt (state.system.kernel.forms.bytes descriptor.form) 0x7FFFFFFF
          count.toNatClampNeg = [] := by
        rw [readAt, List.drop_eq_nil_of_le (by omega), List.take_nil]
      refine refines_of_returns (read_outcome h hform happend.toInt_pos hnone)
        fun answer kernel' _ hpost => ?_
      obtain ⟨rfl, rfl⟩ := hpost
      rw [hstore]
      have hadd : (entryOf state.system.kernel fd).pos + Int32.ofNat ([] : List UInt8).length =
          appendPos := by
        rw [happend.entry]
        rfl
      have hmeets : (VfsCall.read fd count).Meets env state ↔ bytes = [] := by
        rw [← List.length_eq_zero_iff, hcount, hlength]
        constructor
        · intro hmeets
          have hend := hmeets descriptor hlookup happend
          rw [hpositive] at hend
          omega
        · intro hzero other hother _ hcount'
          rw [← Option.some.inj (hlookup.symm.trans hother)]
          rw [hpositive] at hcount'
          omega
      rw [hmeets]
      refine ⟨⟨fun hsame => ?_, fun hempty => ?_⟩, fun hempty => ?_⟩
      · exact (congrArg Answer.bytes hsame.1).symm
      · rw [hempty]
        exact ⟨rfl, h.forms.symm⟩
      · rw [hempty, hadd]
        exact h.move hlookup (by decide) (.inr ⟨rfl, happend.store⟩)

/-- A write shows as it should exactly when its form does. -/
theorem shownForms_written {dev : Device} {kernel : KernelMemory} {forms' : FormStore}
    {idx pos : ℕ} {data : List UInt8} (h : HeldTable kernel.forms kernel.store.formCount)
    (hidx : idx < kernel.store.formCount)
    (hwritten : WrittenForm env dev kernel.forms forms' idx kernel.store.formCount pos data) :
    shownForms (kernel.withForms forms') =
        (shownForms kernel).modify idx (fun old => (old.1, writeAt old.2 pos data)) ↔
      forms'.bytes idx = writeAt (kernel.forms.bytes idx) pos data := by
  have hcount : (kernel.withForms forms').store.formCount = kernel.store.formCount := rfl
  constructor
  · intro hsame
    have hform := congrArg (·[idx]?) hsame
    simp only [List.getElem?_modify_eq, getElem?_shownForms, hcount, if_pos hidx] at hform
    exact congrArg Prod.snd (Option.some.inj hform)
  · intro hsame
    refine List.ext_getElem? fun i => ?_
    rw [List.getElem?_modify, getElem?_shownForms, getElem?_shownForms, hcount]
    split
    · rename_i hlt
      by_cases hself : idx = i
      · subst hself
        simp [hsame, hwritten.name]
      · have hother := h.bytes_other hwritten.touches hidx hlt (Ne.symm hself)
        have hslot := hwritten.touches.other i (Ne.symm hself)
        simp [hself, hother, hslot]
    · rfl

end Calls

section Writing

variable {env : Environment} {state : VfsState} {fd : Int32} {buffer : ℕ → UInt8} {count : Int32}
  {descriptor : Descriptor}

theorem nonpos_iff (count : Int32) : count ≤ 0 ↔ count.toNatClampNeg = 0 := by
  have hnat := Int32.toNat_toInt count
  rw [Int32.le_iff_toInt_le]
  show count.toInt ≤ 0 ↔ _
  omega

/-- What the store does with a write. -/
theorem VfsCall.respond_write (hlookup : state.store.lookup fd.toInt = some descriptor) :
    state.store.respond vfsLimits (VfsCall.write fd buffer count).request =
      (⟨count.toNatClampNeg, []⟩, (state.store.write descriptor.form descriptor.pos
        (bufferBytes buffer count.toNatClampNeg)).setDescriptor fd.toInt.toNat
          (some ⟨descriptor.form, descriptor.pos + count.toNatClampNeg⟩)) := by
  rw [request, Store.respond_write hlookup, length_bufferBytes]

/-- A form stays small when something is written to it, as far as it is written. -/
theorem Shows.write_lt (h : Shows state.store state.system.kernel)
    (hlookup : state.store.lookup fd.toInt = some descriptor)
    (hsmall : SmallForms
      (state.store.respond vfsLimits (VfsCall.write fd buffer count).request).2)
    (hsome : count.toNatClampNeg ≠ 0) : descriptor.pos + count.toNatClampNeg < 65528 := by
  have hidx := fdForm_lt (h.lookup_some hlookup).2.1
  have hdata := length_bufferBytes buffer count.toNatClampNeg
  have hne : bufferBytes buffer count.toNatClampNeg ≠ [] :=
    fun hnil => hsome (by rw [← hdata, hnil]; rfl)
  have hform : (state.store.write descriptor.form descriptor.pos
      (bufferBytes buffer count.toNatClampNeg)).forms[descriptor.form]? = some
        ((state.system.kernel.forms.slot descriptor.form).name,
          writeAt (state.system.kernel.forms.bytes descriptor.form) descriptor.pos
            (bufferBytes buffer count.toNatClampNeg)) := by
    rw [Store.write, List.getElem?_modify_eq, h.forms, getElem?_shownForms, if_pos hidx]
    rfl
  rw [VfsCall.respond_write hlookup] at hsmall
  have hlt := hsmall _ (List.mem_of_getElem? hform)
  rw [length_writeAt hne, hdata] at hlt
  omega

theorem VfsCall.write_meets_iff (hlookup : state.store.lookup fd.toInt = some descriptor) :
    (VfsCall.write fd buffer count).Meets env state ↔
      (entryOf state.system.kernel fd).pos.toInt + count.toNatClampNeg < 65528 ∧
        (count.toNatClampNeg = 0 → (entryOf state.system.kernel fd).pos.toInt ≤
          (state.system.kernel.forms.slot descriptor.form).size) ∧
        FitsZeros env state.system.dev state.system.kernel.forms descriptor.form
          (entryOf state.system.kernel fd).pos.toNatClampNeg count.toNatClampNeg := by
  rw [← nonpos_iff]
  exact ⟨fun hmeets => hmeets descriptor hlookup, fun hmeets other hother =>
    Option.some.inj (hlookup.symm.trans hother) ▸ hmeets⟩

/-- A write at the position of the store, with room below 65528 and, if it stores nothing, not
behind the end. -/
theorem VfsCall.write_refines_regular (hkm : env.KmallocOk)
    (h : Shows state.store state.system.kernel)
    (hsmall : SmallForms
      (state.store.respond vfsLimits (VfsCall.write fd buffer count).request).2)
    (hlookup : state.store.lookup fd.toInt = some descriptor)
    (hpos : (entryOf state.system.kernel fd).pos.toInt = descriptor.pos)
    (hlt : descriptor.pos + count.toNatClampNeg < 65528)
    (hempty : count.toNatClampNeg = 0 →
      descriptor.pos ≤ (state.system.kernel.forms.slot descriptor.form).size) :
    (VfsCall.write fd buffer count).Refines env state := by
  have hform := (h.lookup_some hlookup).2.1
  have hidx := fdForm_lt hform
  have hpos' : (entryOf state.system.kernel fd).pos.toNatClampNeg = descriptor.pos := by
    rw [← Int32.toNat_toInt, hpos, Int.toNat_natCast]
  have hcode : (VfsCall.write fd buffer count).code.outcome (cachedDevice env) (fun _ => False)
      state.system.kernel state.system.dev fun answer kernel' _ =>
        answer = ⟨count.toNatClampNeg, []⟩ ∧ ∃ forms',
          WrittenForm env state.system.dev state.system.kernel.forms forms' descriptor.form
            state.system.kernel.store.formCount descriptor.pos
              (bufferBytes buffer count.toNatClampNeg) ∧
          kernel' = (state.system.kernel.withForms forms').withFd fd.toNatClampNeg
            { entryOf state.system.kernel fd with pos :=
              (entryOf state.system.kernel fd).pos + Int32.ofNat count.toNatClampNeg } := by
    rw [code, Code.outcome_bind]
    refine Code.outcome_imp (vfsWrite_outcome hkm h.held hform hpos buffer rfl hlt hempty)
      fun done kernel' _ hdone => ?_
    rw [hdone.1, toInt_ofNat_small (by omega)]
    exact ⟨rfl, hdone.2⟩
  refine refines_of_returns hcode fun answer kernel' _ hpost => ?_
  obtain ⟨rfl, forms', hwritten, rfl⟩ := hpost
  have hshown := (shownForms_written h.held hidx hwritten).trans hwritten.bytes
  rw [← h.forms, length_bufferBytes] at hshown
  rw [respond_write hlookup] at hsmall ⊢
  rw [write_meets_iff hlookup, hpos, hpos']
  refine ⟨⟨fun hsame => ⟨by omega, fun hzero => ?_, hshown.mp hsame.2⟩, fun hmeets => ?_⟩,
    fun hmeets => ?_⟩
  · have hle := hempty hzero
    omega
  · exact ⟨rfl, hshown.mpr hmeets.2.2⟩
  · have hwrote : Shows (state.store.write descriptor.form descriptor.pos
        (bufferBytes buffer count.toNatClampNeg)) (state.system.kernel.withForms forms') :=
      { held := hwritten.held
        forms := (hshown.mpr hmeets.2.2).symm
        fds := h.fds
        valid := h.valid.write _ _ _
        small := hsmall }
    have hmoved := toInt_moved hpos fun _ => hlt
    exact hwrote.move hlookup (by omega) (.inl hmoved)

/-- Any other write fails, or it makes the form longer than the store does. -/
theorem VfsCall.write_refines_irregular (h : Shows state.store state.system.kernel)
    (hsmall : SmallForms
      (state.store.respond vfsLimits (VfsCall.write fd buffer count).request).2)
    (hlookup : state.store.lookup fd.toInt = some descriptor)
    (hirregular : ¬((entryOf state.system.kernel fd).pos.toInt = descriptor.pos ∧
      descriptor.pos + count.toNatClampNeg < 65528 ∧ (count.toNatClampNeg = 0 →
        descriptor.pos ≤ (state.system.kernel.forms.slot descriptor.form).size))) :
    (VfsCall.write fd buffer count).Refines env state := by
  obtain ⟨hopen, hform, _⟩ := h.lookup_some hlookup
  have hidx := fdForm_lt hform
  obtain ⟨hlength, hsize⟩ := h.length_bytes hidx
  have hnat := Int32.toNat_toInt count
  have hwrites := h.write_lt hlookup hsmall
  obtain ⟨pos, hpos⟩ := Int.eq_ofNat_of_zero_le hopen.nonneg
  have hopened := hopen.pos
  -- nothing is stored, behind the end
  have hbehind : writeCount (entryOf state.system.kernel fd).pos count = 0 ∧
      (state.system.kernel.forms.slot descriptor.form).size < pos := by
    rw [writeCount]
    rcases hopened with hsame | happend
    · omega
    · have hend := happend.toInt_pos
      omega
  have hcode : (VfsCall.write fd buffer count).code.outcome (cachedDevice env) (fun _ => True)
      state.system.kernel state.system.dev fun answer kernel' _ => answer.result = -1 ∨
        answer.result = 0 ∧ (kernel'.forms.bytes descriptor.form).length = pos := by
    rw [code, Code.outcome_bind]
    refine Code.outcome_imp (vfsWrite_behind hform hpos hbehind.1 hbehind.2 buffer)
      fun done kernel' _ hdone => ?_
    rcases hdone with hret | ⟨hret, hbytes⟩
    · left
      show done.ret.toInt = -1
      rw [hret]
      decide
    · right
      refine ⟨?_, hbytes⟩
      show done.ret.toInt = 0
      rw [hret]
      decide
  have hmeets : ¬(VfsCall.write fd buffer count).Meets env state := by
    rw [write_meets_iff hlookup]
    rintro ⟨hlt, hempty, _⟩
    rcases hopened with hsame | happend
    · exact hirregular ⟨hsame, by omega, fun hzero => by have hle := hempty hzero; omega⟩
    · have hend := happend.toInt_pos
      omega
  refine refines_of_differs hcode (fun answer kernel' _ hpost hanswer hforms => ?_) hmeets
  rw [respond_write hlookup] at hanswer hforms
  rw [hanswer] at hpost
  have hpost' : (count.toNatClampNeg : Int) = -1 ∨ (count.toNatClampNeg : Int) = 0 ∧
      (kernel'.forms.bytes descriptor.form).length = pos := hpost
  rcases hpost' with hret | ⟨hret, hbytes⟩
  · omega
  · -- the store leaves the form as it is
    have hzero : count.toNatClampNeg = 0 := by omega
    have hempty : bufferBytes buffer count.toNatClampNeg = [] := by rw [hzero]; rfl
    have hkept : (state.store.write descriptor.form descriptor.pos
        (bufferBytes buffer count.toNatClampNeg)).forms[descriptor.form]? = some
          ((state.system.kernel.forms.slot descriptor.form).name,
            state.system.kernel.forms.bytes descriptor.form) := by
      rw [Store.write, List.getElem?_modify_eq, h.forms, getElem?_shownForms, if_pos hidx, hempty]
      rfl
    have hshown := (congrArg (·[descriptor.form]?) hforms).trans hkept
    simp only [getElem?_shownForms] at hshown
    split at hshown
    · have hsame : kernel'.forms.bytes descriptor.form =
          state.system.kernel.forms.bytes descriptor.form :=
        congrArg Prod.snd (Option.some.inj hshown)
      rw [hsame] at hbytes
      omega
    · cases hshown

/-- vfs_write -/
theorem VfsCall.write_refines (hkm : env.KmallocOk) (h : Shows state.store state.system.kernel)
    (hsmall : SmallForms
      (state.store.respond vfsLimits (VfsCall.write fd buffer count).request).2) :
    (VfsCall.write fd buffer count).Refines env state := by
  cases hlookup : state.store.lookup fd.toInt with
  | none =>
    refine refines_of_refused h ?_ (by rw [request, Store.respond, hlookup]) fun descriptor heq => ?_
    · simp only [code, vfsWrite, Code.outcome_bind, Code.outcome_memory,
        (h.lookup_none hlookup).1]
      exact ⟨rfl, rfl⟩
    · rw [hlookup] at heq
      cases heq
  | some descriptor =>
    by_cases hregular : (entryOf state.system.kernel fd).pos.toInt = descriptor.pos ∧
        descriptor.pos + count.toNatClampNeg < 65528 ∧ (count.toNatClampNeg = 0 →
          descriptor.pos ≤ (state.system.kernel.forms.slot descriptor.form).size)
    · exact write_refines_regular hkm h hsmall hlookup hregular.1 hregular.2.1 hregular.2.2
    · exact write_refines_irregular h hsmall hlookup hregular

end Writing

section Seeking

variable {env : Environment} {state : VfsState} {fd offset : Int32} {whence : Whence}
  {descriptor : Descriptor}

/-- The position that vfs_lseek leaves. -/
def leftPos (pos offset whence : Int32) : Int32 :=
  if soughtPos pos offset whence < 0 then 0 else soughtPos pos offset whence

/-- A position below the start is the start. -/
theorem toInt_leftPos (pos offset whence : Int32) :
    (leftPos pos offset whence).toInt = max 0 (soughtPos pos offset whence).toInt := by
  have hzero : (0 : Int32).toInt = 0 := by decide
  rw [leftPos]
  split
  · rename_i hneg
    rw [Int32.lt_iff_toInt_lt] at hneg
    omega
  · rename_i hnonneg
    rw [Int32.lt_iff_toInt_lt] at hnonneg
    omega

/-- A sum that overflows comes out below zero. -/
theorem toInt_add_of_ge {number other : Int32} (hge : 2 ^ 31 ≤ number.toInt + other.toInt) :
    (number + other).toInt < 0 := by
  have hnumber := Int32.toInt_le number
  have hother := Int32.toInt_le other
  have hmax : Int32.maxValue.toInt = 2 ^ 31 - 1 := by decide
  rw [Int32.toInt_add, Int.bmod_def]
  omega

/-- vfs_lseek goes where the store does exactly when it meets its condition. -/
theorem Shows.leftPos_eq_iff (h : Shows state.store state.system.kernel)
    (hlookup : state.store.lookup fd.toInt = some descriptor) :
    (leftPos (entryOf state.system.kernel fd).pos offset (whenceCode whence)).toInt =
        (state.store.base descriptor whence + offset.toInt).toNat ↔
      (VfsCall.lseek fd offset whence).Meets env state := by
  have ⟨hopen, hform, _⟩ := h.lookup_some hlookup
  have hidx := fdForm_lt hform
  have hnonneg := hopen.nonneg
  have hmin := Int32.minValue_le_toInt offset
  have hlow : Int32.minValue.toInt = -2 ^ 31 := by decide
  rw [toInt_leftPos]
  cases whence with
  | start =>
    show max 0 offset.toInt = ((0 : ℕ) + offset.toInt).toNat ↔ True
    rw [iff_true]
    omega
  | position =>
    show max 0 ((entryOf state.system.kernel fd).pos + offset).toInt =
      (descriptor.pos + offset.toInt).toNat ↔ _
    have hmeets : (VfsCall.lseek fd offset .position).Meets env state ↔
        (entryOf state.system.kernel fd).pos.toInt + offset.toInt < 2 ^ 31 ∧
          (AtAppend (entryOf state.system.kernel fd) descriptor →
            (entryOf state.system.kernel fd).pos.toInt + offset.toInt ≤ 0) :=
      ⟨fun hmeets => hmeets descriptor hlookup, fun hmeets other hother =>
        Option.some.inj (hlookup.symm.trans hother) ▸ hmeets⟩
    rw [hmeets]
    by_cases hlt : (entryOf state.system.kernel fd).pos.toInt + offset.toInt < 2 ^ 31
    · rw [toInt_add_of_lt (by omega) hlt]
      rcases hopen.pos with hsame | happend
      · have hnot : ¬AtAppend (entryOf state.system.kernel fd) descriptor := fun h => h.ne hsame
        simp only [hlt, hnot, false_implies, and_true, iff_true]
        omega
      · have hend := happend.toInt_pos
        have hsmall := happend.store
        simp only [hlt, happend, true_implies, true_and]
        omega
    · have hneg := toInt_add_of_ge (Int.not_lt.mp hlt)
      have hmax := Int32.toInt_le (entryOf state.system.kernel fd).pos
      have hhigh : Int32.maxValue.toInt = 2 ^ 31 - 1 := by decide
      refine iff_of_false ?_ fun hmeets => hlt hmeets.1
      omega
  | size =>
    show max 0 (0 : Int32).toInt =
      ((state.store.bytes descriptor.form).length + offset.toInt).toNat ↔ _
    have hmeets : (VfsCall.lseek fd offset .size).Meets env state ↔
        (state.system.kernel.forms.slot descriptor.form).size + offset.toInt ≤ 0 :=
      ⟨fun hmeets => hmeets descriptor hlookup, fun hmeets other hother =>
        Option.some.inj (hlookup.symm.trans hother) ▸ hmeets⟩
    have hzero : (0 : Int32).toInt = 0 := by decide
    rw [hmeets, h.bytes_eq hidx, (h.length_bytes hidx).1, hzero]
    omega

/-- vfs_lseek -/
theorem VfsCall.lseek_refines (h : Shows state.store state.system.kernel) :
    (VfsCall.lseek fd offset whence).Refines env state := by
  cases hlookup : state.store.lookup fd.toInt with
  | none =>
    refine refines_of_refused h ?_ (by rw [request, Store.respond, hlookup]) ?_
    · simp only [code, vfsLseek, Code.outcome_bind, Code.outcome_memory,
        (h.lookup_none hlookup).2]
      exact ⟨rfl, rfl⟩
    · cases whence with
      | start => trivial
      | position => exact fun descriptor heq => by cases hlookup.symm.trans heq
      | size => exact fun descriptor heq => by cases hlookup.symm.trans heq
  | some descriptor =>
    have hused := (h.lookup_some hlookup).2.2
    have hcode : (VfsCall.lseek fd offset whence).code.outcome (cachedDevice env) (fun _ => False)
        state.system.kernel state.system.dev fun answer kernel' _ =>
          answer = ⟨(leftPos (entryOf state.system.kernel fd).pos offset (whenceCode whence)).toInt,
            []⟩ ∧
          kernel' = state.system.kernel.withFd fd.toNatClampNeg
            { entryOf state.system.kernel fd with
              pos := leftPos (entryOf state.system.kernel fd).pos offset (whenceCode whence) } := by
      simp only [code, vfsLseek, Code.outcome_bind, Code.outcome_memory, hused]
      exact ⟨rfl, rfl⟩
    refine refines_of_returns hcode fun answer kernel' _ hpost => ?_
    obtain ⟨rfl, rfl⟩ := hpost
    have hiff : _ ↔ (VfsCall.lseek fd offset whence).Meets env state :=
      h.leftPos_eq_iff hlookup
    rw [request, Store.respond_seek hlookup rfl, ← hiff]
    refine ⟨⟨fun hsame => congrArg Answer.result hsame.1, fun hsame => ⟨?_, h.forms.symm⟩⟩,
      fun hsame => ?_⟩
    · rw [hsame]
    · exact h.move hlookup (by omega) (.inl hsame)

end Seeking

section Opening

variable {env : Environment} {state : VfsState} {kernel : KernelMemory} {store : Store CString}
  {fd : Int32} {descriptor : Descriptor}

/-- The kernel with an entry for the first free descriptor. -/
def KernelMemory.given (kernel : KernelMemory) (entry : VfsFd) : KernelMemory :=
  match freeFd kernel.vfsFds with
  | none => kernel
  | some fd => kernel.withFd fd entry

theorem KernelMemory.given_none (h : freeFd kernel.vfsFds = none) (entry : VfsFd) :
    kernel.given entry = kernel := by
  rw [given, h]

theorem KernelMemory.given_some {number : ℕ} (h : freeFd kernel.vfsFds = some number)
    (entry : VfsFd) : kernel.given entry = kernel.withFd number entry := by
  rw [given, h]

theorem KernelMemory.shownForms_given (kernel : KernelMemory) (entry : VfsFd) :
    shownForms (kernel.given entry) = shownForms kernel := by
  rw [given]
  split
  · rfl
  · rfl

/-- Both give out the same descriptors. -/
theorem Shows.freeFd_eq (h : Shows store kernel) :
    freeFd kernel.vfsFds = store.unused vfsLimits := by
  refine List.find?_congr fun fd hmem => ?_
  have hlt := List.mem_range'_1.mp hmem
  have hshows := h.fds fd (by show fd < 128; rw [vfsMaxFds] at hlt; omega)
  cases hfd : store.descriptors fd with
  | none =>
    rw [hfd] at hshows
    have hfree : (kernel.vfsFds fd).type = .free := hshows
    rw [hfree]
    rfl
  | some descriptor =>
    rw [hfd] at hshows
    have hopen : (kernel.vfsFds fd).type = .form := hshows.type
    rw [hopen]
    rfl

/-- Both give out a descriptor, or refuse to. -/
theorem Shows.give (h : Shows store kernel) {entry : VfsFd} (hentry : ShowsOpen entry descriptor)
    (hform : descriptor.form < store.forms.length) :
    (store.give vfsLimits descriptor).1 = fdAnswer (freeFd kernel.vfsFds) ∧
      (store.give vfsLimits descriptor).2.forms = store.forms ∧
        Shows (store.give vfsLimits descriptor).2 (kernel.given entry) := by
  have hvalid := h.valid.give hform
  rw [Store.give, ← h.freeFd_eq] at hvalid ⊢
  rw [KernelMemory.given]
  cases hfree : freeFd kernel.vfsFds with
  | none => exact ⟨rfl, rfl, h⟩
  | some fd =>
    rw [hfree] at hvalid
    exact ⟨rfl, rfl, h.withFd hentry hvalid⟩

/-- Both find the same form. -/
theorem Shows.findForm_eq (h : Shows store kernel) (path : CString) :
    findForm kernel path = store.find path := by
  rw [Store.find, h.forms, shownForms, List.findIdx?_map, findForm]
  cases hfound : (List.range kernel.store.formCount).find?
      fun i => (kernel.forms.slot i).name == path with
  | none =>
    rw [List.find?_eq_none] at hfound
    refine (List.findIdx?_eq_none_iff.mpr fun i hi => ?_).symm
    have hne := hfound i hi
    rw [beq_iff_eq] at hne
    exact decide_eq_false hne
  | some idx =>
    rw [List.find?_range_eq_some] at hfound
    obtain ⟨hname, hlt, hbefore⟩ := hfound
    rw [beq_iff_eq] at hname
    refine (List.findIdx?_eq_some_iff_getElem.mpr ⟨?_, ?_, fun j hj => ?_⟩).symm
    · exact List.mem_range.mp hlt |>.trans_eq List.length_range.symm
    · rw [List.getElem_range]
      exact decide_eq_true hname
    · have hne := hbefore j hj
      rw [Bool.not_eq_true', beq_eq_false_iff_ne] at hne
      rw [List.getElem_range]
      exact fun hsame => hne (of_decide_eq_true hsame)

/-- vfs_dup -/
theorem VfsCall.dup_refines (h : Shows state.store state.system.kernel) :
    (VfsCall.dup fd).Refines env state := by
  cases hlookup : state.store.lookup fd.toInt with
  | none =>
    refine refines_of_refused h ?_ (by rw [request, Store.respond, hlookup]) trivial
    simp only [code, vfsDup, Code.outcome_bind, Code.outcome_memory, (h.lookup_none hlookup).2]
    exact ⟨rfl, rfl⟩
  | some descriptor =>
    obtain ⟨hopen, _, hused⟩ := h.lookup_some hlookup
    have hform := (h.valid _ _ (Store.lookup_eq_some hlookup).2).2
    have hcode : (VfsCall.dup fd).code.outcome (cachedDevice env) (fun _ => False)
        state.system.kernel state.system.dev fun answer kernel' _ =>
          answer = fdAnswer (freeFd state.system.kernel.vfsFds) ∧
            kernel' = state.system.kernel.given (entryOf state.system.kernel fd) := by
      cases hfree : freeFd state.system.kernel.vfsFds with
      | none =>
        simp only [code, vfsDup, Code.outcome_bind, Code.outcome_memory, hused, hfree,
          KernelMemory.given_none hfree]
        exact ⟨rfl, rfl⟩
      | some new =>
        simp only [code, vfsDup, Code.outcome_bind, Code.outcome_memory, hused, hfree,
          KernelMemory.given_some hfree]
        exact ⟨rfl, rfl⟩
    obtain ⟨hanswer, hforms, hshows⟩ := h.give hopen hform
    refine refines_of_returns hcode fun answer kernel' _ hpost => ?_
    obtain ⟨rfl, rfl⟩ := hpost
    rw [request, Store.respond_dup hlookup, hanswer, hforms, KernelMemory.shownForms_given]
    exact ⟨iff_of_true ⟨rfl, h.forms.symm⟩ trivial, fun _ => hshows⟩

/-- vfs_close -/
theorem VfsCall.close_refines (h : Shows state.store state.system.kernel) :
    (VfsCall.close fd).Refines env state := by
  cases hlookup : state.store.lookup fd.toInt with
  | none =>
    refine refines_of_refused h ?_ (by rw [request, Store.respond, hlookup]) trivial
    simp only [code, vfsClose, Code.outcome_bind, Code.outcome_memory, (h.lookup_none hlookup).2]
    exact ⟨rfl, rfl⟩
  | some descriptor =>
    have hused := (h.lookup_some hlookup).2.2
    have hcode : (VfsCall.close fd).code.outcome (cachedDevice env) (fun _ => False)
        state.system.kernel state.system.dev fun answer kernel' _ => answer = ⟨0, []⟩ ∧
          kernel' = state.system.kernel.withFd fd.toNatClampNeg
            { entryOf state.system.kernel fd with type := .free } := by
      simp only [code, vfsClose, Code.outcome_bind, Code.outcome_memory, hused]
      exact ⟨rfl, rfl⟩
    have hvalid : (state.store.setDescriptor fd.toNatClampNeg none).Valid vfsLimits :=
      h.valid.setDescriptor fun _ heq => by cases heq
    refine refines_of_returns hcode fun answer kernel' _ hpost => ?_
    obtain ⟨rfl, rfl⟩ := hpost
    rw [request, Store.respond_close hlookup, toNat_toInt_fd]
    exact ⟨iff_of_true ⟨rfl, h.forms.symm⟩ trivial, fun _ => h.withFd rfl hvalid⟩

/-- A form that the user may open gets a descriptor, as far as there are free ones. -/
theorem vfsOpenForm_outcome {dev : Device} {idx : ℕ} {flags : UInt32} (task : ℕ)
    (hpermitted : checkPerm kernel idx (flags &&& formWrite != 0) = false) :
    (vfsOpenForm task idx flags).outcome (cachedDevice env) (fun _ => False) kernel dev
      fun fd kernel' _ => fd = freeFd kernel.vfsFds ∧
        kernel' = kernel.given (openedFd task idx flags) := by
  simp only [vfsOpenForm, Code.outcome_bind, Code.outcome_memory, hpermitted]
  rw [if_neg (by decide)]
  cases hfree : freeFd kernel.vfsFds with
  | none =>
    rw [KernelMemory.given_none hfree]
    exact ⟨rfl, rfl⟩
  | some number =>
    rw [KernelMemory.given_some hfree]
    exact ⟨rfl, rfl⟩

/-- The descriptor that vfs_open fills stands where the store's does, or at the end. -/
theorem showsOpen_openedFd (task idx : ℕ) (flags : UInt32) {pos : ℕ}
    (hstart : flags &&& formAppend = 0 → pos = 0) (hsmall : pos < 65528) :
    ShowsOpen (openedFd task idx flags) ⟨idx, pos⟩ := by
  have hzero : (0 : Int32).toInt = 0 := by decide
  by_cases happend : flags &&& formAppend = 0
  · have hpos : (openedFd task idx flags).pos = 0 := if_neg (fun hne => hne happend)
    refine ⟨rfl, rfl, ?_, .inl ?_⟩
    · rw [hpos]
      decide
    · rw [hpos, hstart happend]
      rfl
  · have hpos : (openedFd task idx flags).pos = appendPos := if_pos happend
    refine ⟨rfl, rfl, ?_, .inr ⟨hpos, hsmall⟩⟩
    rw [hpos]
    decide

/-- A form that is made in both. -/
theorem Shows.create (h : Shows store kernel) (name : CString) {fill : List UInt8}
    (hfill : fill.length = 1) :
    Shows (store.create name) (kernel.withTable (kernel.forms.made kernel.store.formCount name
      (UInt32.ofNat kernel.store.uCur) fill) (kernel.store.formCount + 1)) where
  held := h.held.made name _ hfill
  forms := by
    refine List.ext_getElem? fun i => ?_
    rw [Store.create, h.forms, getElem?_shownForms, formCount_withTable, forms_withTable]
    rcases Nat.lt_trichotomy i kernel.store.formCount with hlt | heq | hgt
    · have hslot := kernel.forms.slot_made_of_ne hlt.ne name (UInt32.ofNat kernel.store.uCur) fill
      have hblock : (kernel.forms.made kernel.store.formCount name
          (UInt32.ofNat kernel.store.uCur) fill).block (kernel.forms.slot i).content =
            kernel.forms.block (kernel.forms.slot i).content := by
        rw [FormStore.block_made]
        exact Function.update_of_ne (contents_ne_fresh kernel.forms i) _ _
      rw [List.getElem?_append_left (by rw [length_shownForms]; exact hlt), getElem?_shownForms,
        if_pos hlt, if_pos (by omega), FormStore.bytes, FormStore.bytes, hslot, hblock]
    · rw [heq, List.getElem?_append_right (by rw [length_shownForms]), length_shownForms,
        Nat.sub_self, if_pos (by omega), FormStore.bytes, FormStore.slot_made_self]
      rfl
    · rw [List.getElem?_eq_none (by
        rw [List.length_append, length_shownForms, List.length_singleton]
        omega), if_neg (by omega)]
  fds := h.fds
  valid := h.valid.create name
  small form hform := by
    rcases List.mem_append.mp hform with hold | hnew
    · exact h.small form hold
    · rw [List.mem_singleton.mp hnew]
      exact Nat.succ_pos 65527

/-- The user may open a form that cmd_mkform made. -/
theorem checkPerm_made (kernel : KernelMemory) (name : CString) (fill : List UInt8)
    (wantWrite : Bool) :
    checkPerm (kernel.withTable (kernel.forms.made kernel.store.formCount name
      (UInt32.ofNat kernel.store.uCur) fill) (kernel.store.formCount + 1))
        kernel.store.formCount wantWrite = false := by
  have huser : (kernel.withTable (kernel.forms.made kernel.store.formCount name
      (UInt32.ofNat kernel.store.uCur) fill) (kernel.store.formCount + 1)).store.uCur =
        kernel.store.uCur := rfl
  rw [checkPerm]
  simp only [formCount_withTable, forms_withTable, FormStore.slot_made_self, huser]
  rw [if_neg (by omega)]
  split
  · rfl
  · rw [if_pos trivial]
    cases wantWrite with
    | false => decide
    | true => decide

/-- vfs_open of a form that is there. -/
theorem VfsCall.open_refines_found {task : ℕ} {path : CString} {flags : UInt32} {idx : ℕ}
    (h : Shows state.store state.system.kernel)
    (hfound : findForm state.system.kernel path = some idx)
    (hpermitted : checkPerm state.system.kernel idx (flags &&& formWrite != 0) = false) :
    (VfsCall.open task path flags).Refines env state := by
  have hcode : (VfsCall.open task path flags).code.outcome (cachedDevice env) (fun _ => False)
      state.system.kernel state.system.dev fun answer kernel' _ =>
        answer = fdAnswer (freeFd state.system.kernel.vfsFds) ∧
          kernel' = state.system.kernel.given (openedFd task idx flags) := by
    simp only [code, vfsOpen, Code.outcome_bind, Code.outcome_memory, hfound]
    refine Code.outcome_imp (vfsOpenForm_outcome task hpermitted) fun fd kernel' _ hfd => ?_
    exact ⟨congrArg fdAnswer hfd.1, hfd.2⟩
  have hidx := findForm_lt hfound
  have hsmall := (h.length_bytes hidx)
  have hopen : ShowsOpen (openedFd task idx flags)
      (state.store.opened idx (flags &&& formAppend != 0)) := by
    refine showsOpen_openedFd task idx flags (fun hzero => ?_) ?_
    · rw [hzero]
      rfl
    · rw [h.bytes_eq hidx]
      split
      · omega
      · decide
  have hlt : idx < state.store.forms.length := by
    rw [h.forms, length_shownForms]
    exact hidx
  obtain ⟨hanswer, hforms, hshows⟩ := h.give hopen hlt
  rw [h.findForm_eq] at hfound
  refine refines_of_returns hcode fun answer kernel' _ hpost => ?_
  obtain ⟨rfl, rfl⟩ := hpost
  rw [request, Store.respond_found hfound, hanswer, hforms, KernelMemory.shownForms_given]
  refine ⟨iff_of_true ⟨rfl, h.forms.symm⟩ fun hnone => ?_, fun _ => hshows⟩
  rw [h.findForm_eq, hfound] at hnone
  cases hnone

/-- vfs_open of a form that is not there, where none is created. -/
theorem VfsCall.open_refines_refused (hkm : env.KmallocOk) {task : ℕ} {path : CString} {flags : UInt32}
    (h : Shows state.store state.system.kernel)
    (hnone : findForm state.system.kernel path = none)
    (hrefuses : flags &&& formCreat = 0 ∨ state.system.kernel.RefusesForm path) :
    (VfsCall.open task path flags).Refines env state := by
  have hfind := hnone
  rw [h.findForm_eq] at hfind
  have hcount : state.store.forms.length = state.system.kernel.store.formCount := by
    rw [h.forms, length_shownForms]
  refine refines_of_refused h ?_ ?_ fun _ hcreat hroom => ?_
  · simp only [code, vfsOpen, Code.outcome_bind, Code.outcome_memory, hnone]
    by_cases hcreat : flags &&& formCreat = 0
    · rw [if_pos hcreat]
      exact ⟨rfl, rfl⟩
    · have hrefuses' := hrefuses.resolve_left hcreat
      rw [if_neg hcreat, Code.outcome_bind]
      refine cmdMkform_outcome (.inr (.inr hrefuses')) (fun line _ _ => ?_) (fun hblock => ?_)
        fun fill _ hroom _ _ hname => ?_
      · simp only [Code.outcome_bind, Code.outcome_memory, hnone]
        exact ⟨rfl, rfl⟩
      · rw [hkm.heapBlock] at hblock
        cases hblock
      · rcases hrefuses' with hempty | hfull | hfound
        · exact absurd hempty hname
        · omega
        · rw [hnone] at hfound
          cases hfound
  · refine Store.respond_refused hfind _ fun hcreates => ?_
    obtain ⟨hcreat, hname, hroom⟩ := hcreates
    rcases hrefuses with hzero | hempty | hfull | hfound
    · rw [hzero] at hcreat
      cases hcreat
    · exact of_decide_eq_true hname hempty
    · have hlt : state.store.forms.length < maxForms := hroom
      omega
    · rw [hnone] at hfound
      cases hfound
  · rcases hrefuses with hzero | hempty | hfull | hfound
    · exact absurd hzero hcreat
    · rw [hempty]
      decide
    · omega
    · rw [hnone] at hfound
      cases hfound

/-- vfs_open of a form that is not there and does not fit its entry. -/
theorem VfsCall.open_refines_long (hkm : env.KmallocOk) {task : ℕ} {path : CString}
    {flags : UInt32} (hnone : findForm state.system.kernel path = none) (hcreat : flags &&& formCreat ≠ 0)
    (haccepts : ¬state.system.kernel.RefusesForm path) (hlong : nameMax ≤ path.chars.length) :
    (VfsCall.open task path flags).Refines env state := by
  have hcode : (VfsCall.open task path flags).code.outcome (cachedDevice env) (fun _ => True)
      state.system.kernel state.system.dev fun _ _ _ => False := by
    simp only [code, vfsOpen, Code.outcome_bind, Code.outcome_memory, hnone]
    rw [if_neg hcreat, Code.outcome_bind]
    refine cmdMkform_outcome (.inl trivial) (fun line _ hrefuses => absurd hrefuses haccepts)
      (fun hblock => ?_) fun fill _ _ _ hshort _ => ?_
    · rw [hkm.heapBlock] at hblock
      cases hblock
    · omega
  refine refines_of_differs hcode (fun _ _ _ hfalse => hfalse.elim) fun hmeets => ?_
  have hroom : state.system.kernel.store.formCount < maxForms := by
    have hnot : ¬maxForms ≤ state.system.kernel.store.formCount :=
      fun hfull => haccepts (.inr (.inl hfull))
    omega
  have hshort := hmeets hnone hcreat hroom
  omega

/-- vfs_open of a form that is created. -/
theorem VfsCall.open_refines_created (hkm : env.KmallocOk) {task : ℕ} {path : CString}
    {flags : UInt32} (h : Shows state.store state.system.kernel)
    (hnone : findForm state.system.kernel path = none) (hcreat : flags &&& formCreat ≠ 0)
    (haccepts : ¬state.system.kernel.RefusesForm path) (hshort : path.chars.length < nameMax) :
    (VfsCall.open task path flags).Refines env state := by
  have hcount : state.store.forms.length = state.system.kernel.store.formCount := by
    rw [h.forms, length_shownForms]
  have hcode : (VfsCall.open task path flags).code.outcome (cachedDevice env) (fun _ => False)
      state.system.kernel state.system.dev fun answer kernel' _ =>
        answer = fdAnswer (freeFd state.system.kernel.vfsFds) ∧ ∃ fill : List UInt8,
          fill.length = 1 ∧ kernel' = (state.system.kernel.withTable
            (state.system.kernel.forms.made state.system.kernel.store.formCount path
              (UInt32.ofNat state.system.kernel.store.uCur) fill)
            (state.system.kernel.store.formCount + 1)).given
              (openedFd task state.store.forms.length flags) := by
    simp only [code, vfsOpen, Code.outcome_bind, Code.outcome_memory, hnone]
    rw [if_neg hcreat, Code.outcome_bind]
    refine cmdMkform_outcome (.inr (.inl hshort)) (fun line _ hrefuses => absurd hrefuses haccepts)
      (fun hblock => ?_) fun fill hfill _ _ _ _ => ?_
    · rw [hkm.heapBlock] at hblock
      cases hblock
    have hlength := length_heapBlock hfill
    have hfind := (h.create path hlength).findForm_eq path
    rw [h.findForm_eq] at hnone
    rw [Store.find_create hnone, hcount] at hfind
    simp only [Code.outcome_bind, Code.outcome_memory, hfind]
    refine Code.outcome_imp (vfsOpenForm_outcome task (checkPerm_made _ path fill _))
      fun fd kernel' _ hfd => ?_
    rw [hcount]
    exact ⟨congrArg fdAnswer hfd.1, fill, hlength, hfd.2⟩
  have hcreates : state.store.Creates vfsLimits path (flags &&& formCreat != 0) := by
    refine ⟨bne_iff_ne.mpr hcreat, decide_eq_true fun hempty => haccepts (.inl hempty), ?_⟩
    have hnot : ¬maxForms ≤ state.system.kernel.store.formCount :=
      fun hfull => haccepts (.inr (.inl hfull))
    show state.store.forms.length < maxForms
    omega
  have hfind := hnone
  rw [h.findForm_eq] at hfind
  refine refines_of_returns hcode fun answer kernel' _ hpost => ?_
  obtain ⟨rfl, fill, hfill, rfl⟩ := hpost
  have hopen : ShowsOpen (openedFd task state.store.forms.length flags)
      ⟨state.store.forms.length, 0⟩ :=
    showsOpen_openedFd task _ flags (fun _ => rfl) (by decide)
  have hcreated := h.create path hfill
  have hlt : state.store.forms.length < (state.store.create path).forms.length := by
    rw [Store.create, List.length_append]
    exact Nat.lt_succ_self _
  obtain ⟨hanswer, hforms, hshows⟩ := hcreated.give hopen hlt
  rw [request, Store.respond_created hfind _ hcreates, hanswer, hforms,
    KernelMemory.shownForms_given]
  exact ⟨iff_of_true ⟨rfl, hcreated.forms.symm⟩ fun _ _ _ => hshort, fun _ => hshows⟩

/-- vfs_open -/
theorem VfsCall.open_refines (hkm : env.KmallocOk) {task : ℕ} {path : CString} {flags : UInt32}
    (h : Shows state.store state.system.kernel)
    (hpermitted : ∀ idx, findForm state.system.kernel path = some idx →
      checkPerm state.system.kernel idx (flags &&& formWrite != 0) = false) :
    (VfsCall.open task path flags).Refines env state := by
  cases hfound : findForm state.system.kernel path with
  | some idx => exact open_refines_found h hfound (hpermitted idx hfound)
  | none =>
    by_cases hrefuses : flags &&& formCreat = 0 ∨ state.system.kernel.RefusesForm path
    · exact open_refines_refused hkm h hfound hrefuses
    rw [not_or] at hrefuses
    by_cases hshort : path.chars.length < nameMax
    · exact open_refines_created hkm h hfound hrefuses.1 hrefuses.2 hshort
    · exact open_refines_long hkm hfound hrefuses.1 hrefuses.2 (by omega)

end Opening

section Runs

variable {env : Environment} {state : VfsState} {system : System}

/-- One step: every call refines the request that it stands for. -/
theorem VfsCall.refines (hkm : env.KmallocOk) {call : VfsCall} (hallowed : call.Allowed state)
    (h : Shows state.store state.system.kernel) : call.Refines env state := by
  cases call with
  | «open» task path flags =>
    exact open_refines hkm h fun idx hfound => hallowed.permitted task path flags rfl idx hfound
  | read fd count => exact read_refines h fd count
  | write fd buffer count => exact write_refines hkm h hallowed.small
  | lseek fd offset whence => exact lseek_refines h
  | dup fd => exact dup_refines h
  | close fd => exact close_refines h

/-- Calls on a kernel and a store that are alike. -/
theorem Shows.everyStep_iff (hkm : env.KmallocOk) (h : Shows state.store state.system.kernel)
    {calls : List VfsCall}
    (hallowed : EveryStep (VfsState.after env) VfsCall.Allowed calls state) :
    EveryStep (VfsState.after env) (VfsCall.Answers env) calls state ↔
      EveryStep (VfsState.after env) (VfsCall.Meets env) calls state := by
  refine hallowed.congr_of_invariant (fun call (state : VfsState)
    (hshows : Shows state.store state.system.kernel) hcall hanswers => ?_)
    (fun call state hshows hcall => ?_) h
  · exact (VfsCall.refines hkm hcall hshows).shows hanswers
  · exact (VfsCall.refines hkm hcall hshows).answers_iff

/-- The kernel with the store that has its forms and no descriptors. -/
def VfsState.start (system : System) : VfsState := ⟨system, ⟨shownForms system.kernel, fun _ => none⟩⟩

/-- A kernel without open descriptors is like its store. -/
theorem VfsState.start_shows (hheld : HeldTable system.kernel.forms system.kernel.store.formCount)
    (hsmall : ∀ form ∈ shownForms system.kernel, form.2.length < 65528)
    (hfree : ∀ fd < vfsMaxFds, (system.kernel.vfsFds fd).type = .free) :
    Shows (VfsState.start system).store (VfsState.start system).system.kernel where
  held := hheld
  forms := rfl
  fds := hfree
  valid _ _ heq := nomatch heq
  small := hsmall

/-- In every run of permitted calls on small forms from a table without open descriptors, with
every allocation granted, the answers and the contents are those of the store of byte lists
exactly when every call meets its condition. -/
theorem vfsRun_answers_iff (hkm : env.KmallocOk)
    (hheld : HeldTable system.kernel.forms system.kernel.store.formCount)
    (hsmall : ∀ form ∈ shownForms system.kernel, form.2.length < 65528)
    (hfree : ∀ fd < vfsMaxFds, (system.kernel.vfsFds fd).type = .free) (calls : List VfsCall)
    (hallowed : EveryStep (VfsState.after env) VfsCall.Allowed calls (.start system)) :
    EveryStep (VfsState.after env) (VfsCall.Answers env) calls (.start system) ↔
      EveryStep (VfsState.after env) (VfsCall.Meets env) calls (.start system) :=
  (VfsState.start_shows hheld hsmall hfree).everyStep_iff hkm hallowed

/-- A form is made, three bytes are written and the first of them is written again. -/
def rewriteCalls : List VfsCall :=
  [.open 0 (literal ['a']) (formCreat ||| formWrite), .write 3 (fun i => 97 + UInt8.ofNat i) 3,
    .lseek 3 0 .start, .write 3 (fun _ => 120) 1]

theorem bootSystem_held :
    HeldTable bootSystem.kernel.forms bootSystem.kernel.store.formCount :=
  ⟨.zero _ _, fun i hi => absurd hi (Nat.not_lt_zero i)⟩

theorem rewriteCalls_allowed (env : Environment) :
    EveryStep (VfsState.after env) VfsCall.Allowed rewriteCalls (.start bootSystem) := by
  have hone (form : CString × List UInt8) {store : Store CString} (hforms : store.forms = [form])
      (hlt : form.2.length < 65528) : SmallForms store := by
    rw [SmallForms, hforms, List.forall_mem_singleton]
    exact hlt
  refine ⟨⟨fun _ _ _ _ idx hfound => ?_, ?_⟩, ⟨fun _ _ _ heq => (nomatch heq), ?_⟩,
    ⟨fun _ _ _ heq => (nomatch heq), ?_⟩, ⟨fun _ _ _ heq => (nomatch heq), ?_⟩, trivial⟩
  · have hlt := findForm_lt hfound
    exact absurd hlt (Nat.not_lt_zero idx)
  · exact hone (literal ['a'], []) rfl (by decide)
  · exact hone (literal ['a'], [97, 98, 99]) rfl (by decide)
  · exact hone (literal ['a'], [97, 98, 99]) rfl (by decide)
  · exact hone (literal ['a'], [120, 98, 99]) rfl (by decide)

/-- The second write takes the byte behind it, which the store keeps. -/
theorem vfsWrite_takesNextByte :
    ¬∀ (env : Environment) (system : System) (calls : List VfsCall), env.KmallocOk →
      HeldTable system.kernel.forms system.kernel.store.formCount →
      (∀ form ∈ shownForms system.kernel, form.2.length < 65528) →
      (∀ fd < vfsMaxFds, (system.kernel.vfsFds fd).type = .free) →
      EveryStep (VfsState.after env) VfsCall.Allowed calls (.start system) →
        EveryStep (VfsState.after env) (VfsCall.Answers env) calls (.start system) := by
  intro hall
  have hkm := Environment.faultless_kmallocOk
  have hempty : ∀ form ∈ shownForms bootSystem.kernel, form.2.length < 65528 :=
    fun form hform => nomatch hform
  have hanswers := hall .faultless bootSystem rewriteCalls hkm bootSystem_held hempty
    (fun _ _ => rfl) (rewriteCalls_allowed .faultless)
  have hallowed := rewriteCalls_allowed .faultless
  have hstart := VfsState.start_shows bootSystem_held hempty fun _ _ => rfl
  have hmeets := (hstart.everyStep_iff hkm hallowed).mp hanswers
  have hnext (call : VfsCall) (state : VfsState) (hshows : Shows state.store state.system.kernel)
      (hcall : call.Allowed state) (hanswer : call.Answers .faultless state) :
      Shows (state.after .faultless call).store (state.after .faultless call).system.kernel :=
    (VfsCall.refines hkm hcall hshows).shows hanswer
  -- the form and the descriptor before the last write
  have hopened := hnext _ _ hstart hallowed.1 hanswers.1
  have hwritten := hnext _ _ hopened hallowed.2.1 hanswers.2.1
  have hsought := hnext _ _ hwritten hallowed.2.2.1 hanswers.2.2.1
  have hlast := hmeets.2.2.2.1
  generalize hstate : VfsState.after .faultless (.lseek 3 0 .start) _ = state at hsought hlast
  have hlookup : state.store.lookup (3 : Int32).toInt = some ⟨0, 0⟩ := by
    rw [← hstate]
    rfl
  have hbytes : state.store.bytes 0 = [97, 98, 99] := by
    rw [← hstate]
    rfl
  have ⟨hopen, hform, _⟩ := hsought.lookup_some hlookup
  have hidx := fdForm_lt hform
  have hlength := (hsought.length_bytes hidx).1
  rw [← hsought.bytes_eq hidx, hbytes] at hlength
  have ⟨hlt, _, hfits⟩ := hlast ⟨0, 0⟩ hlookup
  have hpos : (entryOf state.system.kernel 3).pos.toNatClampNeg = 0 := by
    have hnat := Int32.toNat_toInt (entryOf state.system.kernel 3).pos
    rcases hopen.pos with hsame | happend
    · have hsame' : (entryOf state.system.kernel 3).pos.toInt = (0 : ℕ) := hsame
      omega
    · have hend := happend.toInt_pos
      omega
  have hbehind := hfits.behind
  rw [hpos, ← hsought.bytes_eq hidx, hbytes, ← hlength] at hbehind
  have hzero := hbehind (by decide)
  exact absurd hzero (by decide)

/-- A form is made, three bytes are written and read. -/
def readBackCalls : List VfsCall :=
  [.open 0 (literal ['a']) (formCreat ||| formWrite), .write 3 (fun i => 97 + UInt8.ofNat i) 3,
    .lseek 3 0 .start, .read 3 8]

/-- The first write fits behind the end, and the read does not stand where an append would. -/
theorem readBackCalls_meets : EveryStep (VfsState.after .faultless) (VfsCall.Meets .faultless)
    readBackCalls (.start bootSystem) := by
  refine ⟨fun _ _ _ => by decide, fun descriptor hlookup => ?_, trivial,
    fun descriptor _ happend _ => ?_, trivial⟩
  · have hform : descriptor = ⟨0, 0⟩ := (Option.some.inj hlookup).symm
    have hpos : (entryOf (VfsState.after .faultless (.open 0 (literal ['a'])
        (formCreat ||| formWrite)) (.start bootSystem)).system.kernel 3).pos = 0 := by decide +kernel
    have hsize : ((VfsState.after .faultless (.open 0 (literal ['a'])
        (formCreat ||| formWrite)) (.start bootSystem)).system.kernel.forms.slot 0).size = 0 := by
      decide +kernel
    rw [hpos, hform, hsize]
    refine ⟨by decide, fun hcount => absurd hcount (by decide), fun i _ hlt => ?_, fun hlt => ?_⟩
    · exact absurd hlt (Nat.not_lt_zero i)
    · rw [hsize] at hlt
      exact absurd hlt (Nat.not_lt_zero _)
  · exact absurd happend.entry (by decide +kernel)

/-- What was written is read as the store of byte lists has it. -/
theorem vfsRun_answers_readBack :
    EveryStep (VfsState.after .faultless) (VfsCall.Answers .faultless) readBackCalls
      (.start bootSystem) := by
  have hsmall : ∀ form ∈ shownForms bootSystem.kernel, form.2.length < 65528 :=
    fun form hform => absurd hform List.not_mem_nil
  obtain ⟨hopening, hwriting, hseeking, -⟩ := rewriteCalls_allowed .faultless
  have hallowed : EveryStep (VfsState.after .faultless) VfsCall.Allowed readBackCalls
      (.start bootSystem) :=
    ⟨hopening, hwriting, hseeking, ⟨fun _ _ _ heq => (by cases heq), hseeking.small⟩, trivial⟩
  exact (vfsRun_answers_iff Environment.faultless_kmallocOk bootSystem_held hsmall (fun _ _ => rfl) _
    hallowed).mpr readBackCalls_meets

end Runs

end HexaOS.Kernel
