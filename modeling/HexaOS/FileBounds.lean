import HexaOS.FormBuffers
import HexaOS.FormTableRuns

/-!
# Calls that stay inside the buffers

What the descriptor calls and the intent calls need so that every byte they read or store lies
in a block: forms that lie in buffers of their own, positions that are not negative, and stores
that fit the buffer they go to. Nothing but the check of a capability stops such a call.
-/

namespace HexaOS.Kernel

open DevicePrograms PackedBytes Hexafs Shell

/-- The forms lie in buffers of their own, and open descriptors have positions. -/
structure FilesHeld (kernel : KernelMemory) : Prop where
  /-- Every form has a buffer of its own that holds its content. -/
  forms : FormsHeld kernel
  /-- A size is a number that vfs_read can compare with a position. -/
  size_lt : ∀ i < kernel.store.formCount, (kernel.forms.slot i).size < 2 ^ 31
  /-- No open descriptor stands before the start of its form. -/
  pos : ∀ fd, (kernel.vfsFds fd).type = .form → 0 ≤ (kernel.vfsFds fd).pos.toInt

/-- A form is made under a name that fits its entry. -/
def NameFits (kernel : KernelMemory) (path : CString) (flags : UInt32) : Prop :=
  flags &&& formCreat = 0 ∨ path.chars.length < nameMax ∨ kernel.RefusesForm path

/-- The length of the buffer that vfs_write stores into: that of the form, or the one that
form_ensure_cap allocates. -/
def writeRoom (forms : FormStore) (idx : ℕ) (needed : Int) : Int :=
  if needed ≤ (forms.slot idx).cap then ((forms.block (contents forms idx)).getD []).length
  else needed + 1024

/-- The bytes of a vfs_write and the zero behind them fit the buffer, and what it asks
form_ensure_cap for does not overflow. -/
structure WriteFits (forms : FormStore) (idx : ℕ) (pos count : Int32) : Prop where
  /-- The sums of vfs_write and form_ensure_cap are ints. -/
  needed_lt : pos.toInt + count.toInt + 1 + 1024 < 2 ^ 31
  /-- The last byte is stored inside. -/
  room : pos.toInt + writeCount pos count + 1 ≤
    writeRoom forms idx (pos.toInt + count.toInt + 1)

/-- The bytes of a production and the zero behind them fit the buffer of the form, and without a
form no more is copied than the buffer field of the entry. -/
structure FulfilFits (kernel : KernelMemory) (i : ℕ) (buffer : Buffer) (len : Int32) : Prop where
  /-- The production stays inside the buffer of its form. -/
  production : ∀ idx bytes,
    kernel.production (kernel.intentTable i) buffer len = some (idx, bytes) →
      kernel.forms.Within (contents kernel.forms idx) 0 (bytes.length + 1)
  /-- A consumption without a form stays inside buffer_block and buffer_len. -/
  field : (kernel.intentTable i).intent.intentType = intentConsume →
    targetForm kernel (kernel.intentTable i).intent = none →
      (min len (kernel.intentTable i).bufferLen).toNatClampNeg ≤
        (kernel.intentTable i).bufferField.length

/-- The systems on which a call may look at the capabilities: the one it starts from, and those
behind cmd_mkform and behind another check. -/
inductive ChecksFrom (env : Environment) (first : System) : System → Prop where
  | start : ChecksFrom env first first
  | mkform {middle last : System} {name : CString} {line : MkformLine}
      (h : ChecksFrom env first middle) (run : middle.run env (cmdMkform name) = .ok (line, last)) :
      ChecksFrom env first last
  | checked {middle last : System} {pid : UInt32} {ok : Bool} (h : ChecksFrom env first middle)
      (run : middle.run env (capCheck pid capTypeIntent) = .ok (ok, last)) : ChecksFrom env first last

/-- The stops of the checks of a capability. -/
def CheckStops (env : Environment) (first : System) (stop : Stop) : Prop :=
  ∃ pid system, ChecksFrom env first system ∧
    system.run env (capCheck pid capTypeIntent) = .error stop

section Buffers

variable {env : Environment} {stops : Stop → Prop} {kernel kernel' : KernelMemory} {dev : Device}
  {idx room : ℕ}

/-- Only the forms and the descriptors matter. -/
theorem FilesHeld.congr (h : FilesHeld kernel) (hforms : kernel'.forms = kernel.forms)
    (hcount : kernel'.store.formCount = kernel.store.formCount)
    (hfds : kernel'.vfsFds = kernel.vfsFds) : FilesHeld kernel' where
  forms := by
    rw [FormsHeld, hforms, hcount]
    exact h.forms
  size_lt := by
    rw [hforms, hcount]
    exact h.size_lt
  pos := by
    rw [hfds]
    exact h.pos

/-- Code on one form leaves it in its buffer with a size of this kind. -/
theorem FilesHeld.refilled (h : FilesHeld kernel) (hrefilled : Refilled idx kernel kernel')
    (hidx : idx < kernel.store.formCount) (hsize : (kernel'.forms.slot idx).size < 2 ^ 31)
    (hfds : kernel'.vfsFds = kernel.vfsFds) : FilesHeld kernel' where
  forms := hrefilled.held h.forms hidx
  size_lt i hi := by
    rw [hrefilled.touches.formCount] at hi
    by_cases hi' : i = idx
    · rw [hi']
      exact hsize
    · rw [hrefilled.touches.forms.other i hi']
      exact h.size_lt i hi
  pos := by
    rw [hfds]
    exact h.pos

/-- Bytes are stored into the buffer of a form, and its size is at least their end. -/
theorem storeMax_held (h : FilesHeld kernel) (hidx : idx < kernel.store.formCount) {offset n : ℕ}
    {bytes : List UInt8} (hroom : HasBuffer kernel.forms idx room)
    (hsize : (kernel.forms.slot idx).size ≤ room) (hle : offset + bytes.length ≤ room)
    (hn : n ≤ offset + bytes.length) (hmax : n < 2 ^ 31) :
    (do
      storeBytes (contents kernel.forms idx) offset bytes
      modifyForm idx fun form => { form with size := max form.size n }).outcome (cachedDevice env)
        stops kernel dev fun _ kernel' _ => FilesHeld kernel' ∧ kernel'.vfsFds = kernel.vfsFds := by
  rw [Code.outcome_bind]
  refine storeBytes_outcome (.inr (hroom.within (Int.natCast_nonneg _) (by omega))) fun _ => ?_
  rw [modifyForm_outcome]
  have hlt := h.size_lt idx hidx
  have hslot : (kernel.forms.stored (contents kernel.forms idx) offset bytes).slot idx =
      kernel.forms.slot idx := rfl
  refine ⟨h.refilled ⟨⟨rfl, ?_⟩, room, ?_, ?_⟩ hidx ?_ rfl, rfl⟩
  · exact (Touches.stored idx kernel.forms offset bytes).trans (.setSlot _ rfl)
  · exact (hroom.stored hle).setSlot rfl rfl
  · rw [forms_withForms, forms_withForms, FormStore.slot_setSlot_self, hslot]
    exact Nat.max_le.mpr ⟨hsize, by omega⟩
  · rw [forms_withForms, forms_withForms, FormStore.slot_setSlot_self, hslot]
    exact Nat.max_lt.mpr ⟨hlt, hmax⟩

/-- cmd_mkform keeps the forms in their buffers. -/
theorem cmdMkform_filesHeld (h : FilesHeld kernel) {name : CString}
    (hname : name.chars.length < nameMax ∨ kernel.RefusesForm name) :
    (cmdMkform name).outcome (cachedDevice env) stops kernel dev fun _ kernel' _ =>
      FilesHeld kernel' := by
  refine cmdMkform_outcome (.inr hname) (fun _ _ _ => h) (fun _ => ?_) fun fill hfill _ _ _ _ => ?_
  · refine ⟨BufferedTable.unmade h.forms name, fun i hi => ?_, h.pos⟩
    have hi' : i < kernel.store.formCount := hi
    rw [forms_withForms, FormStore.slot_unmade_of_ne _ hi'.ne]
    exact h.size_lt i hi'
  · refine ⟨BufferedTable.made h.forms name _ (length_heapBlock hfill), fun i hi => ?_, h.pos⟩
    have hi' : i < kernel.store.formCount + 1 := hi
    rw [forms_withTable]
    by_cases hlast : i = kernel.store.formCount
    · rw [hlast, FormStore.slot_made_self]
      exact Nat.two_pow_pos 31
    · rw [FormStore.slot_made_of_ne _ hlast]
      exact h.size_lt i (by omega)

/-- form_ensure_cap keeps the buffer, or leaves one of the size it asked for. -/
theorem formEnsureCap_filesHeld (h : FilesHeld kernel) (hidx : idx < kernel.store.formCount)
    {needed : Int32} (hmax : needed.toInt + 1024 < 2 ^ 31) :
    (formEnsureCap idx needed).outcome (cachedDevice env) stops kernel dev fun ok kernel' _ =>
      FilesHeld kernel' ∧ kernel'.store = kernel.store ∧ kernel'.vfsFds = kernel.vfsFds ∧
        (ok = true → ∃ room, HasBuffer kernel'.forms idx room ∧
          (kernel'.forms.slot idx).size ≤ room ∧ writeRoom kernel.forms idx needed.toInt = room) := by
  obtain ⟨room, hroom, hsize⟩ := h.forms.buffered idx hidx
  have hcap := hroom.le_cap
  have hgrownCap (hlt : ¬needed.toInt ≤ (kernel.forms.slot idx).cap) :
      (grownCap needed : Int) = needed.toInt + 1024 := by
    have hnat : needed.toInt = (needed.toInt.toNat : Int) := by omega
    rw [grownCap_eq hnat (by omega)]
    omega
  have hmovable (hlt : ¬needed.toInt ≤ (kernel.forms.slot idx).cap) :
      (kernel.forms.slot idx).size ≤ grownCap needed := by
    have hnew := hgrownCap hlt
    omega
  have hwithin : kernel.forms.Within (contents kernel.forms idx) 0 (kernel.forms.slot idx).size :=
    hroom.within (Int.le_refl 0) (by omega)
  by_cases hle : needed.toInt ≤ (kernel.forms.slot idx).cap
  · simp only [formEnsureCap, Code.outcome_bind, Code.outcome_memory]
    rw [if_pos hle, Code.outcome_pure]
    refine ⟨h, rfl, rfl, fun _ => ⟨room, hroom, hsize, ?_⟩⟩
    obtain ⟨block, hblock, hlength⟩ := hroom.block
    rw [writeRoom, if_pos hle, hblock, Option.getD_some, hlength]
  · refine formEnsureCap_outcome (.inr (.inr ⟨hwithin, hmovable hle⟩)) (fun hfits => absurd hfits hle)
      (fun _ _ => ⟨h, rfl, rfl, fun hfalse => by cases hfalse⟩) fun fill _ hfill hmoves => ?_
    have hbuffer : HasBuffer (kernel.forms.grown idx fill (grownCap needed)) idx
        (grownCap needed) :=
      .grown (length_heapBlock hfill) (by have hnew := hgrownCap hle; omega) hmoves
    have hsize' : ((kernel.forms.grown idx fill (grownCap needed)).slot idx).size =
        (kernel.forms.slot idx).size := by
      rw [FormStore.slot_grown_self]
    have hgrown : ((kernel.forms.grown idx fill (grownCap needed)).slot idx).size ≤
        grownCap needed := by
      rw [hsize']
      exact hmovable hle
    refine ⟨h.refilled ⟨⟨rfl, ?_⟩, _, hbuffer, hgrown⟩ hidx ?_ rfl, rfl, rfl,
      fun _ => ⟨_, hbuffer, hgrown, ?_⟩⟩
    · exact .grown idx kernel.forms fill (grownCap needed)
    · rw [forms_withForms, hsize']
      exact h.size_lt idx hidx
    · rw [writeRoom, if_neg hle, hgrownCap hle]

end Buffers

section Descriptors

variable {env : Environment} {stops : Stop → Prop} {kernel : KernelMemory} {dev : Device}
  {idx : ℕ}

theorem fdForm_eq {fd : Int32} {idx : ℕ} (h : fdForm kernel fd = some idx) :
    (kernel.vfsFds fd.toNatClampNeg).type = .form ∧
      (kernel.vfsFds fd.toNatClampNeg).ref = idx ∧ idx < kernel.store.formCount := by
  rw [fdForm] at h
  split at h
  · rename_i hchecks
    rw [Option.some.injEq] at h
    rw [← h]
    exact ⟨hchecks.2.2.1, rfl, hchecks.2.2.2⟩
  · cases h

/-- Another descriptor, with a position. -/
theorem modifyFd_filesHeld (h : FilesHeld kernel) (fd : ℕ) {update : VfsFd → VfsFd}
    (hpos : (update (kernel.vfsFds fd)).type = .form →
      0 ≤ (update (kernel.vfsFds fd)).pos.toInt) :
    (modifyFd fd update).outcome (cachedDevice env) stops kernel dev fun _ kernel' _ =>
      FilesHeld kernel' := by
  rw [modifyFd, Code.outcome_modify]
  refine ⟨h.forms, h.size_lt, fun other => ?_⟩
  by_cases hother : other = fd
  · rw [hother]
    dsimp only
    rw [Function.update_self]
    exact hpos
  · dsimp only
    rw [Function.update_of_ne hother]
    exact h.pos other

theorem vfsOpenForm_filesHeld (h : FilesHeld kernel) (task idx : ℕ) (flags : UInt32) :
    (vfsOpenForm task idx flags).outcome (cachedDevice env) stops kernel dev fun _ kernel' _ =>
      FilesHeld kernel' := by
  rw [vfsOpenForm, Code.outcome_bind, Code.outcome_memory]
  split
  · exact h
  cases freeFd kernel.vfsFds with
  | none => exact h
  | some fd =>
    dsimp only
    rw [Code.outcome_bind]
    refine Code.outcome_imp (modifyFd_filesHeld h fd fun _ => ?_) fun _ _ _ hheld => hheld
    show 0 ≤ (if flags &&& formAppend ≠ 0 then 0x7FFFFFFF else 0 : Int32).toInt
    split
    · decide
    · decide

/-- vfs_open -/
theorem vfsOpen_filesHeld (h : FilesHeld kernel) (task : ℕ) {path : CString} {flags : UInt32}
    (hname : NameFits kernel path flags) :
    (vfsOpen task path flags).outcome (cachedDevice env) stops kernel dev fun _ kernel' _ =>
      FilesHeld kernel' := by
  rw [vfsOpen, Code.outcome_bind, Code.outcome_memory]
  cases findForm kernel path with
  | some idx => exact vfsOpenForm_filesHeld h task idx flags
  | none =>
    dsimp only
    split
    · exact h
    rename_i hcreat
    rw [Code.outcome_bind]
    refine Code.outcome_imp (cmdMkform_filesHeld h (hname.resolve_left hcreat))
      fun _ middle _ hmiddle => ?_
    rw [Code.outcome_bind, Code.outcome_memory]
    cases findForm middle path with
    | none => exact hmiddle
    | some idx => exact vfsOpenForm_filesHeld hmiddle task idx flags

/-- vfs_read copies from its position up to the size of the form at most. -/
theorem vfsRead_filesHeld (h : FilesHeld kernel) (fd count : Int32) :
    (vfsRead fd count).outcome (cachedDevice env) stops kernel dev fun _ kernel' _ =>
      FilesHeld kernel' := by
  rw [vfsRead, Code.outcome_bind, Code.outcome_memory]
  cases hform : fdForm kernel fd with
  | none => exact h
  | some idx =>
    obtain ⟨htype, -, hidx⟩ := fdForm_eq hform
    have hpos := h.pos _ htype
    have hlt := h.size_lt idx hidx
    obtain ⟨room, hroom, hsize⟩ := h.forms.buffered idx hidx
    have hcast := Int32.cast_toNatClampNeg _ (Int32.le_iff_toInt_le.mpr hpos)
    dsimp only
    split
    · exact h
    rename_i hsome
    rw [readCount] at hsome ⊢
    rw [if_neg (by rw [Int32.lt_iff_toInt_lt]; exact Int.not_lt.mpr hpos), Code.outcome_bind]
    refine loadBytes_outcome (.inr (hroom.within (Int.natCast_nonneg _) ?_)) fun _ => ?_
    · omega
    rw [Code.outcome_bind]
    refine Code.outcome_imp (modifyFd_filesHeld h _ fun _ => ?_) fun _ _ _ hheld => hheld
    -- the position behind the bytes is at most the size
    have hcopied := Int32.toInt_ofNat_of_lt (by omega :
      (min count.toInt ((kernel.forms.slot idx).size -
        (kernel.vfsFds fd.toNatClampNeg).pos.toInt)).toNat < 2 ^ 31)
    show 0 ≤ ((kernel.vfsFds fd.toNatClampNeg).pos + Int32.ofNat (min count.toInt
      ((kernel.forms.slot idx).size - (kernel.vfsFds fd.toNatClampNeg).pos.toInt)).toNat).toInt
    rw [toInt_add_of_lt (by omega) (by omega)]
    omega

/-- vfs_write stores into a buffer with the room. -/
theorem vfsWrite_filesHeld (h : FilesHeld kernel) {fd count : Int32} (buffer : ℕ → UInt8)
    (hfits : ∀ idx, fdForm kernel fd = some idx →
      WriteFits kernel.forms idx (kernel.vfsFds fd.toNatClampNeg).pos count) :
    (vfsWrite fd buffer count).outcome (cachedDevice env) stops kernel dev fun _ kernel' _ =>
      FilesHeld kernel' := by
  rw [vfsWrite, Code.outcome_bind, Code.outcome_memory]
  cases hform : fdForm kernel fd with
  | none => exact h
  | some idx =>
    obtain ⟨htype, -, hidx⟩ := fdForm_eq hform
    have hpos := h.pos _ htype
    have hend := (kernel.vfsFds fd.toNatClampNeg).pos.toInt_lt
    have hfit := hfits idx hform
    have hmax := hfit.needed_lt
    have hlow := count.le_toInt
    have hasked : ((kernel.vfsFds fd.toNatClampNeg).pos + count + 1).toInt =
        (kernel.vfsFds fd.toNatClampNeg).pos.toInt + count.toInt + 1 := by
      have hone : (1 : Int32).toInt = 1 := rfl
      have hsum : ((kernel.vfsFds fd.toNatClampNeg).pos + count).toInt =
          (kernel.vfsFds fd.toNatClampNeg).pos.toInt + count.toInt :=
        toInt_add_of_lt (by omega) (by omega)
      rw [toInt_add_of_lt (by omega) (by omega), hsum, hone]
    have hroom := hfit.room
    rw [← hasked] at hmax hroom
    dsimp only
    rw [Code.outcome_bind]
    refine Code.outcome_imp (formEnsureCap_filesHeld h hidx (by omega)) fun ok middle _ hmiddle => ?_
    obtain ⟨hheld, hstore, hfds, hbuffer⟩ := hmiddle
    cases ok with
    | false => exact hheld
    | true =>
      obtain ⟨room, hhas, hsize, heq⟩ := hbuffer rfl
      rw [heq] at hroom
      have hcast := Int32.cast_toNatClampNeg _ (Int32.le_iff_toInt_le.mpr hpos)
      have hlength : (bufferBytes buffer (writeCount (kernel.vfsFds fd.toNatClampNeg).pos count) ++
          [0]).length = writeCount (kernel.vfsFds fd.toNatClampNeg).pos count + 1 := by
        rw [List.length_append, length_bufferBytes, List.length_singleton]
      have hcount : writeCount (kernel.vfsFds fd.toNatClampNeg).pos count ≤
          (65528 - (kernel.vfsFds fd.toNatClampNeg).pos.toInt).toNat ∧
            writeCount (kernel.vfsFds fd.toNatClampNeg).pos count < 2 ^ 31 := by
        rw [writeCount]
        omega
      rw [if_pos rfl, vfsStore, Code.outcome_bind, Code.outcome_memory, hfds]
      dsimp only
      rw [← bind_assoc, Code.outcome_bind, ← hcast]
      refine Code.outcome_imp (storeMax_held hheld (hstore ▸ hidx) hhas hsize (by omega) (by omega)
        (by omega)) fun _ last _ hlast => ?_
      obtain ⟨hheld', hfds'⟩ := hlast
      rw [Code.outcome_bind]
      refine Code.outcome_imp (modifyFd_filesHeld hheld' _ fun _ => ?_) fun _ _ _ hmoved => hmoved
      rw [hfds', hfds]
      have hstored := Int32.toInt_ofNat_of_lt hcount.2
      show 0 ≤ ((kernel.vfsFds fd.toNatClampNeg).pos +
        Int32.ofNat (writeCount (kernel.vfsFds fd.toNatClampNeg).pos count)).toInt
      rw [toInt_add_of_lt (by omega) (by omega)]
      omega

end Descriptors

section Intents

variable {env : Environment} {stops : Stop → Prop} {kernel : KernelMemory} {dev : Device}
  {idx : ℕ}

theorem targetForm_lt {intent : HexaosIntent} {idx : ℕ} (h : targetForm kernel intent = some idx) :
    idx < kernel.store.formCount := by
  rw [targetForm] at h
  split at h
  · rename_i htarget
    rw [Option.some.injEq] at h
    rw [← h]
    exact htarget.2
  · cases h

theorem KernelMemory.production_lt {entry : IntentEntry} {buffer : Buffer} {len : Int32} {idx : ℕ}
    {bytes : List UInt8} (h : kernel.production entry buffer len = some (idx, bytes)) :
    idx < kernel.store.formCount := by
  rw [KernelMemory.production] at h
  split at h
  · split at h
    · rename_i hbuffer htarget
      split at h
      · rw [Option.some.injEq, Prod.mk.injEq] at h
        rw [← h.1]
        exact targetForm_lt htarget
      · cases h
    · cases h
  · cases h

/-- The check of a capability leaves the kernel alone. -/
theorem capCheck_outcome {first : System} (hfrom : ChecksFrom env first ⟨kernel, dev⟩)
    (pid : UInt32) :
    (capCheck pid capTypeIntent).outcome (cachedDevice env) (CheckStops env first) kernel dev
      fun _ kernel' dev' => kernel' = kernel ∧ ChecksFrom env first ⟨kernel', dev'⟩ := by
  have hkept : (capCheck pid capTypeIntent).outcome (cachedDevice env) (CheckStops env first) kernel
      dev fun _ kernel' _ => kernel' = kernel := by
    rw [Code.outcome]
    cases hexec : (capCheck pid capTypeIntent).exec (cachedDevice env) kernel dev with
    | error stop =>
      refine ⟨pid, ⟨kernel, dev⟩, hfrom, ?_⟩
      rw [System.run, hexec]
    | ok result => exact (capCheck_keeps pid capTypeIntent kernel).of_exec hexec
  exact Code.outcome_imp (outcome_run hkept) fun _ _ _ hrun => ⟨hrun.1, .checked hfrom hrun.2⟩

/-- intent_create does nothing or fills an entry of the intent table. -/
theorem intentCreate_outcome {first : System} (hfrom : ChecksFrom env first ⟨kernel, dev⟩)
    (pid : UInt32) (intent : HexaosIntent) :
    (intentCreate pid intent).outcome (cachedDevice env) (CheckStops env first) kernel dev
      fun created kernel' _ => (created = none ∧ kernel' = kernel) ∨
        ∃ i, freeIntent kernel.intentTable = some i ∧ created = some kernel.nextHandle ∧
          kernel' = kernel.registered i pid intent := by
  have hregister (dev' : Device) : (registerIntent pid intent).outcome (cachedDevice env)
      (CheckStops env first) kernel dev' fun created kernel' _ =>
        (created = none ∧ kernel' = kernel) ∨
          ∃ i, freeIntent kernel.intentTable = some i ∧ created = some kernel.nextHandle ∧
            kernel' = kernel.registered i pid intent := by
    rw [registerIntent, Code.outcome_bind, Code.outcome_memory]
    cases hfree : freeIntent kernel.intentTable with
    | none => exact .inl ⟨rfl, rfl⟩
    | some i => exact .inr ⟨i, rfl, rfl, rfl⟩
  rw [intentCreate]
  split
  · rw [Code.outcome_bind]
    refine Code.outcome_imp (capCheck_outcome hfrom pid) fun ok kernel' dev' hcheck => ?_
    obtain ⟨rfl, -⟩ := hcheck
    split
    · exact .inl ⟨rfl, rfl⟩
    · exact hregister dev'
  · exact hregister dev

/-- A registered intent leaves the forms and the descriptors alone. -/
theorem FilesHeld.registered (h : FilesHeld kernel) (i : ℕ) (pid : UInt32)
    (intent : HexaosIntent) : FilesHeld (kernel.registered i pid intent) :=
  h.congr rfl rfl rfl

theorem intentCreate_filesHeld {first : System} (h : FilesHeld kernel)
    (hfrom : ChecksFrom env first ⟨kernel, dev⟩) (pid : UInt32) (intent : HexaosIntent) :
    (intentCreate pid intent).outcome (cachedDevice env) (CheckStops env first) kernel dev
      fun _ kernel' _ => FilesHeld kernel' := by
  refine Code.outcome_imp (intentCreate_outcome hfrom pid intent) fun created last _ hlast => ?_
  obtain ⟨-, rfl⟩ | ⟨i, -, -, rfl⟩ := hlast
  · exact h
  · exact h.registered i pid intent

theorem sysIntent_filesHeld (h : FilesHeld kernel) (pid : UInt32) (intent : Option HexaosIntent)
    (handlePointer : Bool) :
    (sysIntent pid intent handlePointer).outcome (cachedDevice env) (CheckStops env ⟨kernel, dev⟩)
      kernel dev fun _ kernel' _ => FilesHeld kernel' := by
  rw [sysIntent.eq_def]
  cases intent with
  | none => exact h
  | some intent =>
    dsimp only
    split
    · rw [Code.outcome_bind]
      refine Code.outcome_imp (capCheck_outcome .start pid) fun ok kernel' dev' hcheck => ?_
      obtain ⟨rfl, hfrom⟩ := hcheck
      split
      · exact h
      · rw [sysIntentCreate, Code.outcome_bind]
        refine Code.outcome_imp (intentCreate_filesHeld h hfrom pid intent)
          fun created last _ hlast => ?_
        cases created with
        | none => exact hlast
        | some handle => exact hlast
    · exact h

/-- SYS_OPEN -/
theorem sysOpen_filesHeld (h : FilesHeld kernel) (pid : UInt32) {path : Option CString}
    {flags : UInt32} (hname : ∀ name, validPath path = some name → NameFits kernel name flags) :
    (sysOpen pid path flags).outcome (cachedDevice env) (CheckStops env ⟨kernel, dev⟩) kernel dev
      fun _ kernel' _ => FilesHeld kernel' := by
  rw [sysOpen]
  cases hvalid : validPath path with
  | none => exact h
  | some name =>
    have hopen : (intentCompatOpen pid name flags).outcome (cachedDevice env)
        (CheckStops env ⟨kernel, dev⟩) kernel dev fun _ kernel' _ => FilesHeld kernel' := by
      rw [intentCompatOpen, Code.outcome_bind, Code.outcome_memory]
      cases findForm kernel name with
      | some idx => exact intentCreate_filesHeld h .start pid _
      | none =>
        dsimp only
        split
        · exact h
        rename_i hcreat
        rw [Code.outcome_bind]
        refine Code.outcome_imp
          (outcome_run (cmdMkform_filesHeld h ((hname name hvalid).resolve_left hcreat)))
            fun _ middle dev' hmiddle => ?_
        rw [Code.outcome_bind, Code.outcome_memory]
        cases findForm middle name with
        | none => exact hmiddle.1
        | some idx => exact intentCreate_filesHeld hmiddle.1 (.mkform .start hmiddle.2) pid _
    dsimp only
    rw [Code.outcome_bind]
    refine Code.outcome_imp hopen fun created last _ hlast => ?_
    cases created with
    | none => exact hlast
    | some handle => exact hlast

/-- The stores of a production that fits. -/
theorem produce_filesHeld (h : FilesHeld kernel) (i : ℕ) (hidx : idx < kernel.store.formCount)
    {bytes : List UInt8} (hlength : bytes.length < 2 ^ 31)
    (hfits : kernel.forms.Within (contents kernel.forms idx) 0 (bytes.length + 1)) :
    (produce i idx bytes).outcome (cachedDevice env) stops kernel dev fun _ kernel' _ =>
      FilesHeld kernel' := by
  obtain ⟨room, hroom, hsize⟩ := h.forms.buffered idx hidx
  have hle := hroom.room_le hfits
  have hstore : 0 + (bytes ++ [0]).length ≤ room := by
    rw [List.length_append, List.length_singleton]
    omega
  rw [produce, Code.outcome_bind, Code.outcome_memory]
  dsimp only
  rw [← bind_assoc, Code.outcome_bind]
  have hend : bytes.length ≤ 0 + (bytes ++ [0]).length := by
    rw [List.length_append]
    omega
  refine Code.outcome_imp (storeMax_held h hidx hroom hsize hstore hend hlength)
    fun _ last _ hlast => ?_
  exact hlast.1.congr rfl rfl rfl

/-- Copying the front of a form. -/
theorem consume_filesHeld (h : FilesHeld kernel) (hidx : idx < kernel.store.formCount)
    (len : Int32) :
    (consume idx len).outcome (cachedDevice env) stops kernel dev fun _ kernel' _ =>
      FilesHeld kernel' := by
  obtain ⟨room, hroom, hsize⟩ := h.forms.buffered idx hidx
  rw [consume, Code.outcome_bind, Code.outcome_memory]
  dsimp only
  rw [Code.outcome_bind]
  have hcopy : min len.toNatClampNeg (kernel.forms.slot idx).size ≤ room := by omega
  exact loadBytes_outcome (.inr (hroom.within (Int.natCast_nonneg _) (by omega))) fun _ => h

/-- The branches of intent_fulfill that store. -/
theorem fulfillStore_filesHeld (h : FilesHeld kernel) {i : ℕ} {buffer : Buffer} {len : Int32}
    {otherwise : KernelM Fulfilled} (hfits : FulfilFits kernel i buffer len)
    (htype : (kernel.intentTable i).intent.intentType = intentProduce ∨
      (kernel.intentTable i).intent.intentType = intentTransform)
    (hotherwise : otherwise.outcome (cachedDevice env) stops kernel dev fun _ kernel' _ =>
      FilesHeld kernel') :
    (fulfillStore i (kernel.intentTable i) buffer len otherwise).outcome (cachedDevice env) stops
      kernel dev fun _ kernel' _ => FilesHeld kernel' := by
  rw [fulfillStore, Code.outcome_bind, Code.outcome_memory]
  split
  · rename_i buf idx hbuffer htarget
    split
    · rename_i haccepts
      refine produce_filesHeld h i (targetForm_lt htarget) ?_ (hfits.production _ _ ?_)
      · rw [producedBytes, length_bufferBytes]
        omega
      · rw [KernelMemory.production, if_pos htype, hbuffer, htarget]
        dsimp only
        rw [if_pos haccepts]
    · exact h
  · exact hotherwise

/-- intent_fulfill -/
theorem intentFulfill_filesHeld (h : FilesHeld kernel) {handle : UInt32} {buffer : Buffer}
    {len : Int32} (hfits : ∀ i, findIntent kernel.intentTable handle = some i →
      FulfilFits kernel i buffer len) :
    (intentFulfill handle buffer len).outcome (cachedDevice env) stops kernel dev
      fun _ kernel' _ => FilesHeld kernel' := by
  rw [intentFulfill, Code.outcome_bind, Code.outcome_memory]
  cases hfound : findIntent kernel.intentTable handle with
  | none => exact h
  | some i =>
    have hfit := hfits i hfound
    dsimp only
    split
    · rename_i htype
      exact fulfillStore_filesHeld h hfit (.inl htype) (h.congr rfl rfl rfl)
    split
    · rename_i htype
      rw [fulfillConsume, Code.outcome_bind, Code.outcome_memory]
      split
      · exact h
      · split
        · rename_i idx htarget
          exact consume_filesHeld h (targetForm_lt htarget) len
        · rename_i htarget
          dsimp only
          rw [if_neg (Nat.not_lt.mpr (hfit.field htype htarget))]
          exact h
    split
    · rw [fulfillObserve, Code.outcome_bind, Code.outcome_memory]
      split
      · rename_i idx _ htarget
        exact consume_filesHeld h (targetForm_lt htarget) len
      · exact h
    split
    · rename_i htype
      exact fulfillStore_filesHeld h hfit (.inr htype) h
    · exact h

end Intents

end HexaOS.Kernel
