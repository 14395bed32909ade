import HexaOS.FormOwnership

/-!
# Forms that lie in their buffers

What the code on one form needs of its buffer. form_ensure_cap leaves a buffer with room for
what it was asked for, and the stores behind it stay inside, so that such code is never stopped
by an access outside a block. A slot behind the last form becomes a form with a buffer when it
is usable, and a table of forms with buffers of their own stays one.
-/

namespace HexaOS.Shell

open DevicePrograms PackedBytes Hexafs Kernel OwnedPointers

section Buffers

variable {forms forms' : FormStore} {i idx room : ℕ}

/-- Bytes that lie in the buffer. -/
theorem HasBuffer.within (h : HasBuffer forms i room) {offset : Int} {count : ℕ}
    (hoffset : 0 ≤ offset) (hle : offset + count ≤ room) :
    forms.Within (contents forms i) offset count := by
  obtain ⟨block, hblock, hlength⟩ := h.block
  exact ⟨block, hblock, hoffset, by omega⟩

/-- A buffer that these bytes lie in has the room for them. -/
theorem HasBuffer.room_le (h : HasBuffer forms i room) {offset : Int} {count : ℕ}
    (hwithin : forms.Within (contents forms i) offset count) :
    offset + count ≤ room := by
  obtain ⟨block, hblock, hlength⟩ := h.block
  obtain ⟨block', hblock', -, hle⟩ := hwithin
  rw [hblock, Option.some.injEq] at hblock'
  rw [← hblock'] at hle
  omega

/-- A store into the buffer leaves a buffer of the same length. -/
theorem HasBuffer.stored (h : HasBuffer forms i room) {offset : ℕ} {bytes : List UInt8}
    (hle : offset + bytes.length ≤ room) :
    HasBuffer (forms.stored (contents forms i) offset bytes) i room where
  ne_zero := h.ne_zero
  block := by
    obtain ⟨block, hblock, hlength⟩ := h.block
    refine ⟨overlay block offset bytes, ?_, ?_⟩
    · have hcontent : contents (forms.stored (contents forms i) offset bytes) i =
          contents forms i := rfl
      rw [hcontent, FormStore.stored, FormStore.block_setBlock_self, hblock]
      rfl
    · rw [length_overlay (by omega), hlength]
  pos := h.pos
  cap_le := h.cap_le
  le_cap := h.le_cap

/-- Other fields of the slot do not matter to its buffer. -/
theorem HasBuffer.setSlot (h : HasBuffer forms i room) {slot : FormSlot}
    (hcontent : slot.content = contents forms i) (hcap : slot.cap = (forms.slot i).cap) :
    HasBuffer (forms.setSlot i slot) i room := by
  refine h.congr ?_ ?_ ?_
  · rw [contents, FormStore.slot_setSlot_self, hcontent]
  · rw [FormStore.slot_setSlot_self, hcap]
  · rw [FormStore.block_setSlot]

/-- A buffer that form_ensure_cap made. -/
theorem HasBuffer.grown {fill : List UInt8} {newcap : ℕ} (hfill : fill.length = newcap)
    (hpos : 0 < newcap) (hmovable : forms.Movable idx newcap) :
    HasBuffer (forms.grown idx fill newcap) idx newcap := by
  have hself : contents (forms.grown idx fill newcap) idx = forms.fresh := by
    rw [contents, FormStore.slot_grown_self]
  have hlength : (if (forms.slot idx).content = 0 then fill
      else overlay fill 0 (forms.bytes idx)).length = newcap := by
    split
    · exact hfill
    · rename_i hcontent
      rcases hmovable with hnull | ⟨hwithin, hle⟩
      · exact absurd hnull hcontent
      · have hbytes := FormStore.length_bytes hwithin
        rw [length_overlay (by omega), hfill]
  refine ⟨?_, ⟨_, ?_, hlength⟩, hpos, ?_, ?_⟩
  · rw [hself]
    exact fresh_pos forms
  · rw [hself]
    exact forms.block_grown_fresh idx fill newcap
  · rw [FormStore.slot_grown_self]
  · rw [FormStore.slot_grown_self]
    exact Nat.le_succ _

/-- A slot that form_ensure_cap gives room: it has a buffer, or none and too small a capacity. -/
def Growable (forms : FormStore) (idx : ℕ) (needed : Int32) : Prop :=
  contents forms idx = 0 ∧ ((forms.slot idx).cap : Int) < needed.toInt ∨ Buffered forms idx

theorem UsableSlot.growable {needed : Int32} (h : UsableSlot forms idx needed) :
    Growable forms idx needed :=
  h.imp_right And.left

/-- The slot behind form_ensure_cap: a buffer with the room, and the size that was there. -/
structure Enlarged (forms forms' : FormStore) (idx : ℕ) (needed : Int32) (room : ℕ) : Prop where
  /-- The form has a buffer. -/
  buffer : HasBuffer forms' idx room
  /-- The buffer is large enough. -/
  room : needed.toInt ≤ room
  /-- The size stays. -/
  size : (forms'.slot idx).size = (forms.slot idx).size
  /-- A buffer that holds its form goes on to hold it. -/
  buffered : Buffered forms idx → Buffered forms' idx

end Buffers

section Rooms

variable {env : Environment} {stops : Stop → Prop} {kernel : KernelMemory} {dev : Device}
  {idx room : ℕ}

/-- form_ensure_cap leaves the slot with room, or without memory as it was. -/
theorem formEnsureCap_enlarges {needed : Int32} (hgrowable : Growable kernel.forms idx needed)
    (hmax : needed.toInt + 1024 < 2 ^ 31) :
    (formEnsureCap idx needed).outcome (cachedDevice env) stops kernel dev fun ok kernel' _ =>
      if ok then ∃ room, Enlarged kernel.forms kernel'.forms idx needed room
      else kernel' = kernel ∧ ∃ n size, env.heapBlock n size = none := by
  have hnewcap (hshort : ¬needed.toInt ≤ (kernel.forms.slot idx).cap) :
      (grownCap needed : Int) = needed.toInt + 1024 := by
    have hnat : needed.toInt = (needed.toInt.toNat : Int) := by omega
    rw [grownCap_eq hnat (by omega)]
    omega
  have hsize (hbuffered : Buffered kernel.forms idx)
      (hshort : ¬needed.toInt ≤ (kernel.forms.slot idx).cap) :
      (kernel.forms.slot idx).size ≤ grownCap needed := by
    obtain ⟨room, hroom, hle⟩ := hbuffered
    have hcap := hnewcap hshort
    have hlast := hroom.le_cap
    omega
  by_cases hle : needed.toInt ≤ (kernel.forms.slot idx).cap
  · simp only [formEnsureCap, Code.outcome_bind, Code.outcome_memory]
    rw [if_pos hle, Code.outcome_pure, if_pos rfl]
    rcases hgrowable with ⟨-, hlt⟩ | hbuffered
    · exact absurd hle (by omega)
    obtain ⟨room, hroom, hsize'⟩ := hbuffered
    have hcap := hroom.cap_le
    exact ⟨room, hroom, by omega, rfl, fun _ => ⟨room, hroom, hsize'⟩⟩
  · refine formEnsureCap_outcome (.inr ?_) (fun hfits => absurd hfits hle)
      (fun _ hnone => ⟨rfl, _, _, hnone⟩) fun fill _ hfill hmovable => ?_
    · rcases hgrowable with ⟨hnull, -⟩ | hbuffered
      · exact .inl hnull
      · obtain ⟨room, hroom, hsize'⟩ := hbuffered
        exact .inr ⟨hroom.within (Int.le_refl 0) (by omega), hsize ⟨room, hroom, hsize'⟩ hle⟩
    · have hcap := hnewcap hle
      have hbuffer : HasBuffer (kernel.forms.grown idx fill (grownCap needed)) idx
          (grownCap needed) :=
        .grown (length_heapBlock hfill) (by omega) hmovable
      rw [if_pos rfl]
      refine ⟨grownCap needed, hbuffer, by omega, ?_, fun hbuffered => ⟨_, hbuffer, ?_⟩⟩
      · rw [forms_withForms, FormStore.slot_grown_self]
      · rw [forms_withForms, FormStore.slot_grown_self]
        exact hsize hbuffered hle

/-- form_ensure_cap makes room when memory is granted. -/
theorem formEnsureCap_room (hkm : env.KmallocOk) {needed : Int32}
    (hgrowable : Growable kernel.forms idx needed) (hmax : needed.toInt + 1024 < 2 ^ 31) :
    (formEnsureCap idx needed).outcome (cachedDevice env) stops kernel dev fun ok kernel' _ =>
      ok = true ∧ TouchesForm idx kernel kernel' ∧
        ∃ room, Enlarged kernel.forms kernel'.forms idx needed room := by
  refine Code.outcome_imp (Code.outcome_and (formEnsureCap_touches idx needed env kernel dev)
    (formEnsureCap_enlarges hgrowable hmax)) fun ok kernel' _ hpost => ?_
  obtain ⟨htouched, henlarged⟩ := hpost
  cases ok with
  | true => exact ⟨rfl, htouched, henlarged⟩
  | false =>
    obtain ⟨-, n, size, hnone⟩ := henlarged
    rw [hkm.heapBlock] at hnone
    cases hnone

/-- What code on a form leaves: it touched no other form, and the form lies in its buffer. -/
structure Refilled (idx : ℕ) (kernel kernel' : KernelMemory) : Prop where
  /-- Only the form and its buffer change. -/
  touches : TouchesForm idx kernel kernel'
  /-- The buffer holds the form. -/
  buffered : Buffered kernel'.forms idx

theorem Refilled.after {middle kernel' : KernelMemory} (h : TouchesForm idx kernel middle)
    (h' : Refilled idx middle kernel') : Refilled idx kernel kernel' :=
  ⟨h.trans h'.touches, h'.buffered⟩

/-- A store into the buffer of a form, and the size that goes with it. -/
theorem storeThen_room (h : HasBuffer kernel.forms idx room) {offset : ℕ} {bytes : List UInt8}
    {update : FormSlot → FormSlot} (hle : offset + bytes.length ≤ room)
    (hcontent : ∀ form, (update form).content = form.content)
    (hcap : ∀ form, (update form).cap = form.cap)
    (hsize : (update (kernel.forms.slot idx)).size ≤ room) :
    (do
      storeBytes (contents kernel.forms idx) offset bytes
      modifyForm idx update).outcome (cachedDevice env) stops kernel dev fun _ kernel' _ =>
        TouchesForm idx kernel kernel' ∧ HasBuffer kernel'.forms idx room ∧
          (kernel'.forms.slot idx).size ≤ room := by
  rw [Code.outcome_bind]
  refine storeBytes_outcome (.inr (h.within (Int.natCast_nonneg _) (by omega))) fun _ => ?_
  rw [modifyForm_outcome]
  refine ⟨⟨rfl, (Touches.stored idx kernel.forms offset bytes).trans (.setSlot _ (hcontent _))⟩,
    (h.stored hle).setSlot (hcontent _) (hcap _), ?_⟩
  rw [forms_withForms, FormStore.slot_setSlot_self]
  exact hsize

/-- strcpy of a text, and its length. -/
theorem writeText_room (h : HasBuffer kernel.forms idx room) {content : CString}
    (hle : content.chars.length + 1 ≤ room) :
    (writeText idx content).outcome (cachedDevice env) stops kernel dev fun _ kernel' _ =>
      Refilled idx kernel kernel' := by
  rw [writeText, copyText, Code.outcome_bind, Code.outcome_bind, Code.outcome_memory,
    ← Code.outcome_bind]
  have hlength : (content.chars ++ [0]).length = content.chars.length + 1 := List.length_append
  have hfits : 0 + (content.chars ++ [0]).length ≤ room := by omega
  exact Code.outcome_imp (storeThen_room h hfits (by intro _; rfl) (by intro _; rfl)
    (Nat.le_of_succ_le hle)) fun _ _ _ hpost => ⟨hpost.1, room, hpost.2⟩

end Rooms

section OneForm

variable {env : Environment} {stops : Stop → Prop} {kernel : KernelMemory} {dev : Device}
  {idx room : ℕ}

/-- What form_ensure_cap is asked for a text with its terminator. -/
theorem toInt_textRoom {n : ℕ} (h : n + 1 < 2 ^ 31) : (Int32.ofNat n + 1).toInt = n + 1 := by
  have hnumber : Int32.ofNat n + 1 = Int32.ofNat (n + 1) := by
    rw [Int32.ofNat_add]
    rfl
  rw [hnumber, Int32.toInt_ofNat_of_lt h, Nat.cast_add, Nat.cast_one]

/-- The stores of cmd_write and `ayo update` behind form_ensure_cap. -/
theorem rewriteForm_refilled (hkm : env.KmallocOk) (h : Buffered kernel.forms idx)
    {content : CString} (hmax : content.chars.length + 1025 < 2 ^ 31) :
    (rewriteForm idx content).outcome (cachedDevice env) stops kernel dev fun _ kernel' _ =>
      Refilled idx kernel kernel' := by
  have hasked := toInt_textRoom (by omega : content.chars.length + 1 < 2 ^ 31)
  rw [rewriteForm, Code.outcome_bind]
  refine Code.outcome_imp (formEnsureCap_room hkm (.inr h) (by omega)) fun _ middle dev' hpost => ?_
  obtain ⟨-, htouched, room, henlarged⟩ := hpost
  have hroom := henlarged.room
  exact Code.outcome_imp (writeText_room henlarged.buffer (by omega)) fun _ _ _ hlast =>
    hlast.after htouched

theorem writeForm_refilled (hkm : env.KmallocOk) (h : Buffered kernel.forms idx)
    {content : CString} (hmax : content.chars.length + 1025 < 2 ^ 31) :
    (writeForm idx content).outcome (cachedDevice env) stops kernel dev fun _ kernel' _ =>
      Refilled idx kernel kernel' := by
  have hasked := toInt_textRoom (by omega : content.chars.length + 1 < 2 ^ 31)
  rw [writeForm, Code.outcome_bind]
  refine Code.outcome_imp (formEnsureCap_room hkm (.inr h) (by omega)) fun _ middle dev' hpost => ?_
  obtain ⟨rfl, htouched, room, henlarged⟩ := hpost
  have hroom := henlarged.room
  rw [if_pos rfl, Code.outcome_bind]
  exact Code.outcome_imp (writeText_room henlarged.buffer (by omega)) fun _ _ _ hlast =>
    hlast.after htouched

/-- cmd_append stores behind the content that is there. -/
theorem appendForm_refilled (hkm : env.KmallocOk) (h : Buffered kernel.forms idx)
    {content : CString}
    (hmax : (kernel.forms.slot idx).size + content.chars.length + 1025 < 2 ^ 31) :
    (appendForm idx content).outcome (cachedDevice env) stops kernel dev fun _ kernel' _ =>
      Refilled idx kernel kernel' := by
  have hasked : (Int32.ofNat (kernel.forms.slot idx).size + Int32.ofNat content.chars.length +
      1).toInt = (kernel.forms.slot idx).size + content.chars.length + 1 := by
    have hasked' := toInt_textRoom
      (by omega : (kernel.forms.slot idx).size + content.chars.length + 1 < 2 ^ 31)
    rw [Int32.ofNat_add] at hasked'
    rw [hasked', Nat.cast_add]
  rw [appendForm, Code.outcome_bind, Code.outcome_memory, Code.outcome_bind]
  refine Code.outcome_imp (formEnsureCap_room hkm (.inr h) (by omega)) fun _ middle dev' hpost => ?_
  obtain ⟨rfl, htouched, room, henlarged⟩ := hpost
  have hroom := henlarged.room
  have hsize := henlarged.size
  have hlength : (content.chars ++ [0]).length = content.chars.length + 1 := List.length_append
  rw [if_pos rfl, Code.outcome_bind, appendText, Code.outcome_bind, Code.outcome_memory]
  have hfits : (middle.forms.slot idx).size + (content.chars ++ [0]).length ≤ room := by omega
  refine Code.outcome_imp (storeThen_room henlarged.buffer hfits (by intro _; rfl)
    (by intro _; rfl) ?_) fun _ _ _ hlast => ⟨htouched.trans hlast.1, room, hlast.2⟩
  show (middle.forms.slot idx).size + content.chars.length ≤ room
  omega

/-- The lines that are typed into a buffer of `room` bytes, each with its newline, fit it: up to
".done", or to the line that is refused because the form is full. -/
def LinesFit (room : ℕ) : List CString → ℕ → Prop
  | [], _ => True
  | typed :: rest, total =>
    let line := takeChars 127 typed
    line = literal ['.', 'd', 'o', 'n', 'e'] ∨ contentMax ≤ total + line.chars.length + 2 ∨
      total + line.chars.length + 1 ≤ room ∧ LinesFit room rest (total + line.chars.length + 1)

/-- The loop of cmd_edit waits where no more lines are typed. -/
theorem editLoop_refilled (hhang : stops .hang) (typed : List CString) {total : ℕ}
    {kernel : KernelMemory} {dev : Device} (h : HasBuffer kernel.forms idx room)
    (hsize : (kernel.forms.slot idx).size ≤ room) (hfits : LinesFit room typed total) :
    (editLoop idx typed total).outcome (cachedDevice env) stops kernel dev fun _ kernel' _ =>
      Refilled idx kernel kernel' := by
  induction typed generalizing total kernel dev with
  | nil => exact hhang
  | cons line rest ih =>
    rw [LinesFit] at hfits
    rw [editLoop]
    split
    · exact ⟨.refl idx kernel, room, h, hsize⟩
    rename_i hdone
    split
    · exact ⟨.refl idx kernel, room, h, hsize⟩
    rename_i hfull
    obtain hdone' | hfull' | ⟨hline, hrest⟩ := hfits
    · exact absurd hdone' hdone
    · exact absurd hfull' hfull
    have hlength : ((takeChars 127 line).chars ++ [10]).length =
        (takeChars 127 line).chars.length + 1 := List.length_append
    have hstore : total + ((takeChars 127 line).chars ++ [10]).length ≤ room := by omega
    rw [Code.outcome_bind, storeLine, Code.outcome_bind, Code.outcome_memory]
    refine Code.outcome_imp (storeThen_room h hstore (by intro _; rfl) (by intro _; rfl) hline)
      fun _ middle dev' hmiddle => ?_
    rw [Code.outcome_bind]
    exact Code.outcome_imp (ih hmiddle.2.1 hmiddle.2.2 hrest) fun _ _ _ hlast =>
      hlast.after hmiddle.1

/-- The content of a form that is not empty ends inside its buffer. -/
def Terminated (forms : FormStore) (idx : ℕ) : Prop :=
  0 < (forms.slot idx).size → ∃ block, forms.block (contents forms idx) = some block ∧ 0 ∈ block

/-- The content is printed up to its end. -/
theorem showCurrent_stays (h : Terminated kernel.forms idx) :
    (showCurrent idx).outcome (cachedDevice env) stops kernel dev fun _ kernel' _ =>
      kernel' = kernel := by
  rw [showCurrent, Code.outcome_bind, Code.outcome_memory]
  split
  · rename_i hsize
    obtain ⟨block, hblock, hmem⟩ := h hsize
    have hblock' : kernel.forms.block (kernel.forms.slot idx).content = some block := hblock
    rw [Code.outcome_bind, showContent, Code.outcome_bind, Code.outcome_memory, hblock']
    dsimp only
    rw [if_pos hmem]
    rfl
  · rfl

/-- cmd_edit stores the lines where the content was. -/
theorem editForm_refilled (hhang : stops .hang) {name : CString} {typed : List CString}
    (h : HasBuffer kernel.forms idx room) (hend : Terminated kernel.forms idx)
    (hfits : LinesFit room typed 0) :
    (editForm idx name typed).outcome (cachedDevice env) stops kernel dev fun _ kernel' _ =>
      Refilled idx kernel kernel' := by
  rw [editForm, Code.outcome_bind]
  refine Code.outcome_imp (showCurrent_stays hend) fun current kernel₁ dev₁ hkept => ?_
  obtain rfl : kernel₁ = kernel := hkept
  have hstore : 0 + ([] ++ [0] : List UInt8).length ≤ room := h.pos
  rw [← bind_assoc, copyText, Code.outcome_bind, Code.outcome_bind, Code.outcome_bind,
    Code.outcome_memory, ← Code.outcome_bind]
  refine Code.outcome_imp (storeThen_room h hstore (by intro _; rfl) (by intro _; rfl)
    (Nat.zero_le _)) fun _ middle dev' hmiddle => ?_
  rw [Code.outcome_bind]
  exact Code.outcome_imp (editLoop_refilled hhang typed hmiddle.2.1 hmiddle.2.2 hfits)
    fun _ _ _ hlast => hlast.after hmiddle.1

end OneForm

section Tables

variable {forms forms' : FormStore} {idx n : ℕ} {needed : Int32}

/-- The first forms own their contents, and these lie in their buffers. -/
structure BufferedTable (forms : FormStore) (count : ℕ) : Prop where
  /-- Every form has a buffer of its own. -/
  owned : OwnsFirst forms count
  /-- Every buffer holds its form. -/
  buffered : ∀ i < count, Buffered forms i

/-- The forms of the table own their contents, and these lie in their buffers. -/
def FormsHeld (kernel : KernelMemory) : Prop :=
  BufferedTable kernel.forms kernel.store.formCount

/-- What touches one form and leaves it in its buffer. -/
theorem BufferedTable.touched (h : BufferedTable forms n) (ht : Touches idx forms forms')
    (hidx : idx < n) (hself : Buffered forms' idx) : BufferedTable forms' n where
  owned := h.owned.touched ht hidx
  buffered i hi := by
    by_cases hne : i = idx
    · rw [hne]
      exact hself
    · have hapart : contents forms i ≠ contents forms idx := fun heq =>
        hne (h.owned.eq_of_eq hi hidx heq)
      exact (h.buffered i hi).congr (ht.other i hne) (ht.block i hne hapart)

theorem Refilled.held {kernel kernel' : KernelMemory} (h : Refilled idx kernel kernel')
    (hheld : FormsHeld kernel) (hidx : idx < kernel.store.formCount) : FormsHeld kernel' := by
  rw [FormsHeld, h.touches.formCount]
  exact BufferedTable.touched hheld h.touches.forms hidx h.buffered

/-- No form has the content of a usable slot. -/
theorem UsableSlot.apart (hu : UsableSlot forms n needed) (h : OwnsFirst forms n) {i : ℕ}
    (hi : i < n) : contents forms i ≠ contents forms n := by
  rcases hu with ⟨hzero, -⟩ | ⟨-, hapart⟩
  · rw [hzero]
    exact (h.live i hi).1
  · exact hapart i hi

/-- Another name for a usable slot. -/
theorem UsableSlot.rename (hu : UsableSlot forms n needed) (name : CString) :
    UsableSlot (forms.setSlot n { forms.slot n with name := name }) n needed := by
  have hother : ∀ i < n, contents (forms.setSlot n { forms.slot n with name := name }) i =
      contents forms i := fun i hi => by
    rw [contents, contents, FormStore.slot_setSlot_of_ne _ (by omega)]
  have hself : contents (forms.setSlot n { forms.slot n with name := name }) n =
      contents forms n := by
    rw [contents, FormStore.slot_setSlot_self]
    rfl
  rcases hu with ⟨hzero, hlt⟩ | ⟨⟨room, hroom, hsize⟩, hapart⟩
  · refine .inl ⟨hself.trans hzero, ?_⟩
    rw [FormStore.slot_setSlot_self]
    exact hlt
  · refine .inr ⟨⟨room, hroom.setSlot rfl rfl, ?_⟩, fun i hi => ?_⟩
    · rw [FormStore.slot_setSlot_self]
      exact hsize
    · rw [hother i hi, hself]
      exact hapart i hi

end Tables

section Creation

variable {env : Environment} {stops : Stop → Prop} {needed : Int32}
  {kernel kernel' middle : KernelMemory} {dev : Device}

/-- A form more, in the next slot, with a content in its buffer. -/
structure Created (kernel kernel' : KernelMemory) : Prop where
  /-- The table has one more form. -/
  formCount : kernel'.store.formCount = kernel.store.formCount + 1
  /-- Only the new slot and its buffer change. -/
  touches : Touches kernel.store.formCount kernel.forms kernel'.forms
  /-- The buffer holds the new form. -/
  buffered : Buffered kernel'.forms kernel.store.formCount

/-- A form in a usable slot comes behind forms that are held. -/
theorem Created.held (h : Created kernel kernel')
    (hu : UsableSlot kernel.forms kernel.store.formCount needed) (hheld : FormsHeld kernel) :
    FormsHeld kernel' := by
  have hapart : ∀ i < kernel.store.formCount,
      contents kernel.forms i ≠ contents kernel.forms kernel.store.formCount :=
    fun i hi => hu.apart hheld.owned hi
  have hbefore : OwnsFirst kernel'.forms kernel.store.formCount :=
    hheld.owned.touched_behind h.touches (Nat.le_refl _) hapart
  rw [FormsHeld, h.formCount]
  refine ⟨Owned.succ hbefore h.buffered.allocated fun i hi => ?_, fun i hi => ?_⟩
  · exact h.touches.apart i hi.ne (hapart i hi)
  · by_cases hlast : i = kernel.store.formCount
    · rw [hlast]
      exact h.buffered
    · have hlt : i < kernel.store.formCount := by omega
      exact (hheld.buffered i hlt).congr (h.touches.other i hlast)
        (h.touches.block i hlast (hapart i hlt))

/-- The slots behind it stay usable. -/
theorem Created.usable (h : Created kernel kernel') {rest : List Int32}
    (hu : UsableSlots kernel.forms (kernel.store.formCount + 1) rest) :
    UsableSlots kernel'.forms kernel'.store.formCount rest := by
  rw [h.formCount]
  exact hu.touched h.touches (Nat.lt_succ_self _)

/-- The next slot is filled and then counted. -/
theorem Refilled.created (h : Refilled kernel.store.formCount kernel middle) :
    (setFormCount (· + 1)).outcome (cachedDevice env) stops middle dev
      fun _ kernel' _ => Created kernel kernel' :=
  ⟨congrArg (· + 1) h.touches.formCount, h.touches.forms, h.buffered⟩

theorem createForm_created (hkm : env.KmallocOk) {name content : CString}
    (hu : UsableSlot kernel.forms kernel.store.formCount (Int32.ofNat content.chars.length + 1))
    (hmax : content.chars.length + 1025 < 2 ^ 31) :
    (createForm name content).outcome (cachedDevice env) stops kernel dev
      fun _ kernel' _ => Created kernel kernel' := by
  have hasked := toInt_textRoom (by omega : content.chars.length + 1 < 2 ^ 31)
  rw [createForm, Code.outcome_bind, Code.outcome_memory]
  dsimp only
  rw [Code.outcome_bind, modifyForm_outcome, Code.outcome_bind]
  refine Code.outcome_imp (formEnsureCap_room hkm (hu.rename name).growable (by omega))
    fun _ middle dev' hmiddle => ?_
  obtain ⟨-, htouched, room, henlarged⟩ := hmiddle
  have hroom := henlarged.room
  have hnamed : TouchesForm kernel.store.formCount kernel middle :=
    (TouchesForm.setSlot kernel (by rfl)).trans htouched
  have hlength : (content.chars ++ [0]).length = content.chars.length + 1 := List.length_append
  have hfits : 0 + (content.chars ++ [0]).length ≤ room := by omega
  rw [← bind_assoc, copyText, Code.outcome_bind, Code.outcome_bind, Code.outcome_bind,
    Code.outcome_memory, ← Code.outcome_bind]
  refine Code.outcome_imp (storeThen_room henlarged.buffer hfits (by intro _; rfl)
    (by intro _; rfl) ?_) fun _ last dev'' hlast => ?_
  · show content.chars.length ≤ room
    omega
  · exact Refilled.created ⟨hnamed.trans hlast.1, room, hlast.2⟩

/-- makedim needs the buffer that the slot has. -/
theorem makeDim_created {name : CString}
    (hu : UsableSlot kernel.forms kernel.store.formCount 0) :
    (makeDim name).outcome (cachedDevice env) stops kernel dev
      fun _ kernel' _ => Created kernel kernel' := by
  have hnamed := hu.rename name
  rcases hnamed with ⟨-, hlt⟩ | ⟨⟨room, hroom, -⟩, -⟩
  · have hzero : (0 : Int32).toInt = 0 := rfl
    omega
  have hfits : 0 + ([] ++ [0] : List UInt8).length ≤ room := hroom.pos
  rw [makeDim, Code.outcome_bind, Code.outcome_memory]
  dsimp only
  rw [Code.outcome_bind, modifyForm_outcome, ← bind_assoc, copyText, Code.outcome_bind,
    Code.outcome_bind, Code.outcome_bind, Code.outcome_memory, ← Code.outcome_bind]
  refine Code.outcome_imp (storeThen_room hroom hfits (by intro _; rfl) (by intro _; rfl)
    (Nat.zero_le _)) fun _ last dev' hlast => ?_
  exact Refilled.created ⟨(TouchesForm.setSlot kernel (by rfl)).trans hlast.1, room, hlast.2⟩

/-- memcpy from the buffer of a form to the one of another slot. -/
theorem copyContent_room {dst src size room room' : ℕ} (hsrc : HasBuffer kernel.forms src room)
    (hdst : HasBuffer kernel.forms dst room') (hle : size ≤ room) (hfits : size ≤ room') :
    (copyContent dst src size).outcome (cachedDevice env) stops kernel dev fun _ kernel' _ =>
      TouchesForm dst kernel kernel' ∧ HasBuffer kernel'.forms dst room' := by
  rw [copyContent]
  split
  · exact ⟨.refl dst kernel, hdst⟩
  rw [Code.outcome_bind, Code.outcome_memory, Code.outcome_bind]
  have hread : kernel.forms.Within (kernel.forms.slot src).content 0 size :=
    hsrc.within (Int.le_refl 0) (by omega)
  have hlength : ((((kernel.forms.block (kernel.forms.slot src).content).getD []).drop 0).take
      size).length = size := by
    obtain ⟨block, hblock, -, hsize⟩ := hread
    rw [hblock, Option.getD_some, List.length_take, List.length_drop]
    omega
  refine loadBytes_outcome (.inr hread) fun _ => ?_
  generalize (((kernel.forms.block (kernel.forms.slot src).content).getD []).drop 0).take size =
    bytes at hlength ⊢
  have hstored : 0 + bytes.length ≤ room' := by omega
  refine storeBytes_outcome (.inr (hdst.within (Int.le_refl 0) (by omega))) fun _ => ?_
  exact ⟨⟨rfl, Touches.stored dst kernel.forms 0 bytes⟩, hdst.stored hstored⟩

/-- copy makes a form with the bytes of another one. -/
theorem copyForm_created (hkm : env.KmallocOk) (hheld : FormsHeld kernel) {si : ℕ} {dst : CString}
    (hsi : si < kernel.store.formCount)
    (hu : UsableSlot kernel.forms kernel.store.formCount
      (Int32.ofNat (kernel.forms.slot si).size))
    (hmax : (kernel.forms.slot si).size + 1024 < 2 ^ 31) :
    (copyForm si dst).outcome (cachedDevice env) stops kernel dev
      fun _ kernel' _ => Created kernel kernel' := by
  have hasked := Int32.toInt_ofNat_of_lt
    (by omega : (kernel.forms.slot si).size < 2 ^ 31)
  obtain ⟨source, hsource, hsize⟩ := hheld.buffered si hsi
  have hapart := hu.apart hheld.owned hsi
  rw [copyForm, Code.outcome_bind, Code.outcome_memory]
  dsimp only
  rw [Code.outcome_bind]
  refine Code.outcome_imp (formEnsureCap_room hkm hu.growable (by omega))
    fun _ middle dev' hmiddle => ?_
  obtain ⟨-, htouched, room, henlarged⟩ := hmiddle
  have hroom := henlarged.room
  rw [Code.outcome_bind, modifyForm_outcome, Code.outcome_bind]
  -- the source is where it was
  have hnamed : TouchesForm kernel.store.formCount kernel (middle.withForms (middle.forms.setSlot
      kernel.store.formCount { middle.forms.slot kernel.store.formCount with name := dst })) :=
    htouched.trans (.setSlot middle (by rfl))
  have hslot := hnamed.forms.other si hsi.ne
  have hcontent := hnamed.forms.content_other hsi.ne
  have hsource' := hsource.congr hcontent (by rw [hslot])
    (hnamed.forms.block si hsi.ne hapart)
  refine Code.outcome_imp (copyContent_room hsource' (henlarged.buffer.setSlot rfl rfl) hsize
    (by omega)) fun _ last dev'' hlast => ?_
  have htouched' := hnamed.trans hlast.1
  rw [fillCopy, Code.outcome_bind, Code.outcome_bind, Code.outcome_memory, modifyForm_outcome]
  refine Refilled.created ⟨htouched'.trans (.setSlot last (by rfl)), room,
    hlast.2.setSlot (by rfl) (by rfl), ?_⟩
  rw [forms_withForms, FormStore.slot_setSlot_self]
  show (last.forms.slot si).size ≤ room
  rw [htouched'.forms.other si hsi.ne]
  omega

end Creation

end HexaOS.Shell
