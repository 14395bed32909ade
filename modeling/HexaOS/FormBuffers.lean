import HexaOS.ByteForms
import HexaOS.FormContents
import HexaOS.IntentProductions

/-!
# Reads and writes in the buffers of forms

Every form has a buffer of its own that is longer than its size. A descriptor reads from
that buffer, and writes into it once form_ensure_cap has made room. A buffer that grows
keeps the bytes of the form and no others, and a write ends with a zero byte.
-/

namespace HexaOS.Kernel

open DevicePrograms PackedBytes Hexafs Shell OwnedPointers ByteForms

/-- The buffer of a form is as long as its capacity says, and the size lies below. -/
def HeldForm (forms : FormStore) (i : ℕ) : Prop :=
  ∃ block, forms.block (contents forms i) = some block ∧ block.length = (forms.slot i).cap ∧
    (forms.slot i).size < (forms.slot i).cap

/-- The first forms own their buffers, and the buffers are long enough. -/
structure HeldTable (forms : FormStore) (count : ℕ) : Prop where
  /-- Every form has a buffer of its own. -/
  owned : OwnsFirst forms count
  /-- Every buffer holds its form. -/
  held : ∀ i < count, HeldForm forms i

/-- A kernel with another descriptor. -/
def KernelMemory.withFd (kernel : KernelMemory) (fd : ℕ) (entry : VfsFd) : KernelMemory :=
  { kernel with vfsFds := Function.update kernel.vfsFds fd entry }

/-- What the place `i` of the buffer holds once there is room: what it held before, or what
the new buffer came with. -/
def roomByte (env : Environment) (dev : Device) (forms : FormStore) (idx needed i : ℕ) : UInt8 :=
  if needed ≤ (forms.slot idx).cap then ((forms.block (contents forms idx)).getD []).getD i 0
  else env.heapByte dev.kmallocCount i

/-- The descriptor that is there. -/
theorem KernelMemory.withFd_self (kernel : KernelMemory) (fd : ℕ) :
    kernel.withFd fd (kernel.vfsFds fd) = kernel := by
  rw [withFd, Function.update_eq_self]

@[simp] theorem KernelMemory.vfsFds_withFd_self (kernel : KernelMemory) (fd : ℕ) (entry : VfsFd) :
    (kernel.withFd fd entry).vfsFds fd = entry :=
  Function.update_self ..

theorem KernelMemory.vfsFds_withFd_of_ne (kernel : KernelMemory) {fd other : ℕ} (h : other ≠ fd)
    (entry : VfsFd) : (kernel.withFd fd entry).vfsFds other = kernel.vfsFds other :=
  Function.update_of_ne h _ _

section Tables

variable {forms forms' : FormStore} {idx count : ℕ}

/-- A form is held by its slot and its buffer. -/
theorem HeldForm.congr (h : HeldForm forms idx) (hslot : forms'.slot idx = forms.slot idx)
    (hblock : forms'.block (contents forms idx) = forms.block (contents forms idx)) :
    HeldForm forms' idx := by
  rw [HeldForm, contents, hslot]
  rw [HeldForm, ← hblock] at h
  exact h

/-- Two forms that are held have different buffers. -/
theorem HeldTable.apart (h : HeldTable forms count) (hidx : idx < count) {j : ℕ} (hj : j < count)
    (hne : j ≠ idx) : contents forms j ≠ contents forms idx :=
  fun heq => hne (h.owned.eq_of_eq hj hidx heq)

/-- The bytes of a form that is held. -/
theorem HeldForm.length_bytes (h : HeldForm forms idx) :
    (forms.bytes idx).length = (forms.slot idx).size := by
  have ⟨block, hblock, hlength, hlt⟩ := h
  exact FormStore.length_bytes ⟨block, hblock, Int.le_refl 0, by omega⟩

/-- What touches one form leaves the others held. -/
theorem HeldTable.touched (h : HeldTable forms count) (ht : Touches idx forms forms')
    (hidx : idx < count) (hself : HeldForm forms' idx) : HeldTable forms' count where
  owned := h.owned.touched ht hidx
  held j hj := by
    by_cases hne : j = idx
    · rw [hne]
      exact hself
    · exact (h.held j hj).congr (ht.other j hne) (ht.block j hne (h.apart hidx hj hne))

/-- What touches one form leaves the bytes of the others. -/
theorem HeldTable.bytes_other (h : HeldTable forms count) (ht : Touches idx forms forms')
    (hidx : idx < count) {j : ℕ} (hj : j < count) (hne : j ≠ idx) :
    forms'.bytes j = forms.bytes j := by
  have hblock := ht.block j hne (h.apart hidx hj hne)
  rw [contents] at hblock
  rw [FormStore.bytes, FormStore.bytes, ht.other j hne, hblock]

/-- A form that is made is held, and it is empty. -/
theorem HeldTable.made (h : HeldTable forms count) (name : CString) (owner : UInt32)
    {fill : List UInt8} (hfill : fill.length = 1) :
    HeldTable (forms.made count name owner fill) (count + 1) := by
  refine ⟨h.owned.made name owner fill, fun j hj => ?_⟩
  by_cases hlast : j = count
  · rw [hlast, HeldForm, contents_made_self, FormStore.slot_made_self, FormStore.block_made,
      Function.update_self]
    have hlength : (overlay fill 0 [0]).length = fill.length :=
      length_overlay (by rw [hfill]; exact Nat.le_refl 1)
    exact ⟨_, rfl, hlength.trans hfill, Nat.one_pos⟩
  · refine (h.held j (by omega)).congr (forms.slot_made_of_ne hlast name owner fill) ?_
    rw [FormStore.block_made, Function.update_of_ne (contents_ne_fresh forms j)]

end Tables

section Growth

variable {env : Environment} {kernel : KernelMemory} {dev : Device} {forms forms' : FormStore}
  {idx count needed : ℕ}

/-- What form_ensure_cap leaves when it made room for a form: the same bytes, in a buffer
that is long enough. -/
structure Roomy (env : Environment) (dev : Device) (forms forms' : FormStore)
    (idx count needed : ℕ) : Prop where
  /-- The table stays held. -/
  held : HeldTable forms' count
  /-- Only the form and its buffer change. -/
  touches : Touches idx forms forms'
  /-- The name stays. -/
  name : (forms'.slot idx).name = (forms.slot idx).name
  /-- The size stays. -/
  size : (forms'.slot idx).size = (forms.slot idx).size
  /-- The capacity suffices. -/
  fits : needed ≤ (forms'.slot idx).cap
  /-- The bytes stay. -/
  bytes : forms'.bytes idx = forms.bytes idx
  /-- What stands behind the bytes is known. -/
  room : ∀ i, (forms.slot idx).size ≤ i → i < needed →
    ((forms'.block (contents forms' idx)).getD [])[i]? = some (roomByte env dev forms idx needed i)

/-- A buffer that is large enough. -/
theorem HeldTable.roomy (h : HeldTable forms count) (hidx : idx < count)
    (hfits : needed ≤ (forms.slot idx).cap) : Roomy env dev forms forms idx count needed where
  held := h
  touches := .refl idx forms
  name := rfl
  size := rfl
  fits := hfits
  bytes := rfl
  room i _ hi := by
    have ⟨block, hblock, hlength, _⟩ := h.held idx hidx
    have hlt : i < block.length := by omega
    rw [roomByte, if_pos hfits, hblock, Option.getD_some, List.getD_eq_getElem?_getD,
      List.getElem?_eq_getElem hlt, Option.getD_some]

/-- A new buffer. -/
theorem HeldTable.grown (h : HeldTable forms count) (hidx : idx < count) {fill : List UInt8}
    {newcap : ℕ} (hshort : ¬needed ≤ (forms.slot idx).cap) (hroom : needed ≤ newcap)
    (hfill : fill = (List.range newcap).map (env.heapByte dev.kmallocCount)) :
    Roomy env dev forms (forms.grown idx fill newcap) idx count needed := by
  have hheld := h.held idx hidx
  have hbytes := hheld.length_bytes
  have ⟨_, _, _, hlt⟩ := hheld
  have hlength : fill.length = newcap := by rw [hfill, List.length_map, List.length_range]
  have hcontent : (forms.slot idx).content ≠ 0 := (h.owned.live idx hidx).1
  have hblock := forms.block_grown_fresh idx fill newcap
  rw [if_neg hcontent] at hblock
  have hself : contents (forms.grown idx fill newcap) idx = forms.fresh := by
    rw [contents, FormStore.slot_grown_self]
  have hover : (overlay fill 0 (forms.bytes idx)).length = newcap := by
    rw [length_overlay (by omega), hlength]
  refine ⟨h.touched (.grown idx forms fill newcap) hidx ⟨_, hself ▸ hblock, ?_, ?_⟩,
    .grown idx forms fill newcap, ?_, ?_, ?_, ?_, fun i hi hlt' => ?_⟩
  · rw [hover, FormStore.slot_grown_self]
  · rw [FormStore.slot_grown_self]
    show (forms.slot idx).size < newcap
    omega
  · rw [FormStore.slot_grown_self]
  · rw [FormStore.slot_grown_self]
  · rw [FormStore.slot_grown_self]
    exact hroom
  · rw [FormStore.bytes, FormStore.slot_grown_self, hblock, Option.getD_some,
      take_overlay_zero _ _ (Nat.le_of_eq hbytes.symm), List.take_of_length_le (by omega)]
  · rw [hself, hblock, Option.getD_some, roomByte, if_neg hshort, overlay, List.take_zero,
      List.nil_append, List.getElem?_append_right (by omega), List.getElem?_drop, hfill,
      List.getElem?_map, Nat.zero_add, Nat.add_sub_cancel' (by omega),
      List.getElem?_range (by omega)]
    rfl

/-- form_ensure_cap makes room, when memory is granted. -/
theorem formEnsureCap_roomy (hkm : env.KmallocOk) (h : HeldTable kernel.forms count)
    (hidx : idx < count) {asked : Int32} (hmax : needed + 1024 < 2 ^ 31)
    (hasked : asked.toInt = needed ∨
      asked.toInt ≤ needed ∧ needed ≤ (kernel.forms.slot idx).cap) :
    (formEnsureCap idx asked).outcome (cachedDevice env) (fun _ => False) kernel dev
      fun ok kernel' _ => ok = true ∧ ∃ forms', kernel' = kernel.withForms forms' ∧
        Roomy env dev kernel.forms forms' idx count needed := by
  have ⟨block, hblock, hlength, hlt⟩ := h.held idx hidx
  by_cases hle : asked.toInt ≤ (kernel.forms.slot idx).cap
  · simp only [formEnsureCap, Code.outcome_bind, Code.outcome_memory]
    rw [if_pos hle]
    exact ⟨rfl, kernel.forms, rfl, h.roomy hidx (by omega)⟩
  have heq : asked.toInt = needed := by omega
  have hcap := grownCap_eq heq hmax
  have hshort : ¬needed ≤ (kernel.forms.slot idx).cap := by omega
  refine formEnsureCap_outcome ?_ (fun hfits => absurd hfits hle) (fun _ hnone => ?_)
    fun fill _ hfill _ => ?_
  · exact .inr (.inr ⟨⟨block, hblock, Int.le_refl 0, by omega⟩, by omega⟩)
  · rw [hkm.heapBlock] at hnone
    cases hnone
  · rw [hkm.heapBlock] at hfill
    exact ⟨rfl, _, rfl, h.grown hidx hshort (by omega) (Option.some.inj hfill).symm⟩

end Growth

section Bytes

variable {room data : List UInt8} {size pos : ℕ}

/-- A byte of a buffer behind a store. -/
theorem getElem?_overlay (h : pos + data.length ≤ room.length) (i : ℕ) :
    (overlay room pos data)[i]? =
      if i < pos then room[i]? else if i < pos + data.length then data[i - pos]? else room[i]? := by
  simp only [overlay, List.append_assoc, List.getElem?_append, List.length_take,
    List.getElem?_take, List.getElem?_drop]
  grind

/-- What vfs_write leaves in a buffer is the write of the form exactly when the gap before
the position holds zeros and so does the byte behind the data, which the terminator takes. -/
theorem take_overlay_eq_writeAt_iff (hroom : pos + data.length < room.length)
    (hsize : size ≤ room.length) (hempty : data = [] → pos ≤ size) :
    (overlay room pos (data ++ [0])).take (max size (pos + data.length)) =
        writeAt (room.take size) pos data ↔
      (∀ i, size ≤ i → i < pos → room[i]? = some 0) ∧
        (pos + data.length < size → room[pos + data.length]? = some 0) := by
  have htake : (room.take size).length = size := by rw [List.length_take, Nat.min_eq_left hsize]
  have hlength : (data ++ [0]).length = data.length + 1 := List.length_append
  have hstored (i : ℕ) : ((overlay room pos (data ++ [0])).take (max size (pos + data.length)))[i]? =
      if i < max size (pos + data.length) then
        if i < pos then room[i]?
        else if i < pos + data.length then data[i - pos]?
        else if i = pos + data.length then some 0 else room[i]?
      else none := by
    rw [List.getElem?_take, getElem?_overlay (by omega), hlength, List.getElem?_append]
    grind
  have hwritten (i : ℕ) : (writeAt (room.take size) pos data)[i]? =
      if i < pos then if i < size then room[i]? else some 0
      else if i < pos + data.length then data[i - pos]? else if i < size then room[i]? else none := by
    rw [getElem?_writeAt (fun h => by rw [htake]; exact hempty h), htake, List.getElem?_take]
    grind
  constructor
  · intro hsame
    have hbyte (i : ℕ) := (hstored i).symm.trans ((congrArg (·[i]?) hsame).trans (hwritten i))
    refine ⟨fun i hi hlt => ?_, fun hlt => ?_⟩
    · have h := hbyte i
      rwa [if_pos (by omega), if_pos hlt, if_pos hlt, if_neg (by omega)] at h
    · have h := hbyte (pos + data.length)
      rw [if_pos (by omega), if_neg (by omega), if_neg (by omega), if_pos rfl, if_neg (by omega),
        if_neg (by omega), if_pos hlt] at h
      exact h.symm
  · intro ⟨hgap, hnext⟩
    refine List.ext_getElem? fun i => ?_
    rw [hstored, hwritten]
    by_cases hbefore : i < pos
    · rw [if_pos (by omega), if_pos hbefore, if_pos hbefore]
      split
      · rfl
      · exact hgap i (by omega) hbefore
    by_cases hdata : i < pos + data.length
    · rw [if_pos (by omega), if_neg hbefore, if_pos hdata, if_neg hbefore, if_pos hdata]
    rw [if_neg hbefore, if_neg hdata, if_neg hbefore, if_neg hdata]
    by_cases hsize' : i < size
    · rw [if_pos (by omega), if_pos hsize']
      split
      · rename_i hlast
        rw [hlast]
        exact (hnext (by omega)).symm
      · rfl
    · rw [if_neg (by omega), if_neg hsize']

end Bytes

section Writes

variable {env : Environment} {dev : Device} {forms forms' : FormStore} {idx count pos : ℕ}
  {data : List UInt8}

/-- The forms behind the stores of vfs_write. -/
def FormStore.written (forms : FormStore) (idx pos : ℕ) (data : List UInt8) : FormStore :=
  let stored := forms.stored (contents forms idx) pos (data ++ [0])
  stored.setSlot idx { stored.slot idx with
    size := max (stored.slot idx).size (pos + data.length) }

theorem FormStore.slot_written_self (forms : FormStore) (idx pos : ℕ) (data : List UInt8) :
    (forms.written idx pos data).slot idx = { forms.slot idx with
      size := max (forms.slot idx).size (pos + data.length) } :=
  FormStore.slot_setSlot_self ..

theorem contents_written_self (forms : FormStore) (idx pos : ℕ) (data : List UInt8) :
    contents (forms.written idx pos data) idx = contents forms idx := by
  rw [contents, FormStore.slot_written_self]
  rfl

/-- The buffer behind a write. -/
theorem FormStore.block_written {block : List UInt8}
    (h : forms.block (contents forms idx) = some block) (pos : ℕ) (data : List UInt8) :
    (forms.written idx pos data).block (contents forms idx) =
      some (overlay block pos (data ++ [0])) := by
  rw [written, block_setSlot, stored, h, block_setBlock_self]
  rfl

/-- What a form shows behind a write. -/
theorem FormStore.bytes_written {block : List UInt8}
    (h : forms.block (contents forms idx) = some block) (pos : ℕ) (data : List UInt8) :
    (forms.written idx pos data).bytes idx =
      (overlay block pos (data ++ [0])).take (max (forms.slot idx).size (pos + data.length)) := by
  have hself : ((forms.written idx pos data).slot idx).content = contents forms idx :=
    contents_written_self forms idx pos data
  rw [bytes, hself, block_written h, Option.getD_some, slot_written_self]

theorem Touches.written (idx : ℕ) (forms : FormStore) (pos : ℕ) (data : List UInt8) :
    Touches idx forms (forms.written idx pos data) :=
  (Touches.stored idx forms pos _).trans (.setSlot _ rfl)

/-- A write of a form goes as it should when the gap before the position comes with zeros and
the byte behind the data, which the terminator takes, is a zero. -/
structure FitsZeros (env : Environment) (dev : Device) (forms : FormStore) (idx pos count : ℕ) :
    Prop where
  /-- The gap comes with zeros. -/
  gap : ∀ i, (forms.slot idx).size ≤ i → i < pos →
    roomByte env dev forms idx (pos + count + 1) i = 0
  /-- The terminator takes a zero. -/
  behind : pos + count < (forms.slot idx).size → (forms.bytes idx)[pos + count]? = some 0

/-- What a write leaves. -/
structure WrittenForm (env : Environment) (dev : Device) (forms forms' : FormStore)
    (idx count pos : ℕ) (data : List UInt8) : Prop where
  /-- The table stays held. -/
  held : HeldTable forms' count
  /-- Only the form and its buffer change. -/
  touches : Touches idx forms forms'
  /-- The name stays. -/
  name : (forms'.slot idx).name = (forms.slot idx).name
  /-- The bytes are those of a write exactly when it fits. -/
  bytes : forms'.bytes idx = writeAt (forms.bytes idx) pos data ↔
    FitsZeros env dev forms idx pos data.length

/-- The stores of a write, once there is room for it. -/
theorem Roomy.written (h : Roomy env dev forms forms' idx count (pos + data.length + 1))
    (hidx : idx < count) (hempty : data = [] → pos ≤ (forms.slot idx).size) :
    WrittenForm env dev forms (forms'.written idx pos data) idx count pos data := by
  obtain ⟨room, hroom, hcap, hlt⟩ := h.held.held idx hidx
  have hfits := h.fits
  have hsize := h.size
  have hlength : (data ++ [0]).length = data.length + 1 := List.length_append
  have hold : forms.bytes idx = room.take (forms.slot idx).size := by
    have hcontent : (forms'.slot idx).content = contents forms' idx := rfl
    rw [← h.bytes, FormStore.bytes, hcontent, hroom, Option.getD_some, hsize]
  have hzero (i : ℕ) (hi : (forms.slot idx).size ≤ i) (hlt' : i < pos) :
      room[i]? = some 0 ↔ roomByte env dev forms idx (pos + data.length + 1) i = 0 := by
    have hbyte := h.room i hi (by omega)
    rw [hroom, Option.getD_some] at hbyte
    rw [hbyte, Option.some.injEq]
  have hblock := FormStore.block_written hroom pos data
  rw [← contents_written_self forms' idx pos data] at hblock
  have htouches := Touches.written idx forms' pos data
  refine ⟨h.held.touched htouches hidx ⟨_, hblock, ?_, ?_⟩, h.touches.trans htouches, ?_, ?_⟩
  · rw [length_overlay (by omega), FormStore.slot_written_self, hcap]
  · rw [FormStore.slot_written_self]
    show max (forms'.slot idx).size (pos + data.length) < (forms'.slot idx).cap
    omega
  · rw [FormStore.slot_written_self]
    exact h.name
  · rw [FormStore.bytes_written hroom, hsize, hold,
      take_overlay_eq_writeAt_iff (by omega) (by omega) hempty]
    constructor
    · rintro ⟨hgap, hnext⟩
      refine ⟨fun i hi hlt' => (hzero i hi hlt').mp (hgap i hi hlt'), fun hlt' => ?_⟩
      rw [hold, List.getElem?_take, if_pos hlt']
      exact hnext hlt'
    · intro hfit
      refine ⟨fun i hi hlt' => (hzero i hi hlt').mpr (hfit.gap i hi hlt'), fun hlt' => ?_⟩
      have hbehind := hfit.behind hlt'
      rwa [hold, List.getElem?_take, if_pos hlt'] at hbehind

end Writes

section Calls

variable {env : Environment} {kernel : KernelMemory} {dev : Device} {fd : Int32} {idx pos : ℕ}

/-- The descriptor of a number. -/
def entryOf (kernel : KernelMemory) (fd : Int32) : VfsFd := kernel.vfsFds fd.toNatClampNeg

theorem fdForm_lt (h : fdForm kernel fd = some idx) : idx < kernel.store.formCount := by
  rw [fdForm] at h
  split at h
  · rename_i hopen
    rw [← Option.some.inj h]
    exact hopen.2.2.2
  · cases h

/-- vfs_read returns the slice at the position and moves on. -/
theorem vfsRead_outcome (h : HeldTable kernel.forms kernel.store.formCount)
    (hform : fdForm kernel fd = some idx) (hpos : (entryOf kernel fd).pos.toInt = pos)
    (count : Int32) :
    (vfsRead fd count).outcome (cachedDevice env) (fun _ => False) kernel dev
      fun done kernel' _ => ∀ bytes,
        bytes = readAt (kernel.forms.bytes idx) pos count.toNatClampNeg →
          done = ⟨Int32.ofNat bytes.length, bytes⟩ ∧
            kernel' = kernel.withFd fd.toNatClampNeg { entryOf kernel fd with
              pos := (entryOf kernel fd).pos + Int32.ofNat bytes.length } := by
  have hheld := h.held idx (fdForm_lt hform)
  have hlength := hheld.length_bytes
  have ⟨block, hblock, hcap, hlt⟩ := hheld
  have hread := length_readAt (kernel.forms.bytes idx) pos count.toNatClampNeg
  have hcount : count.toInt.toNat = count.toNatClampNeg := Int32.toNat_toInt count
  have hn : readCount (kernel.forms.slot idx).size (entryOf kernel fd).pos count =
      (readAt (kernel.forms.bytes idx) pos count.toNatClampNeg).length := by
    rw [readCount, hpos, hread, hlength]
    omega
  rw [entryOf] at hn hpos
  simp only [vfsRead, Code.outcome_bind, Code.outcome_memory, hform]
  split
  · rename_i hzero
    refine fun bytes hbytes => ?_
    have hempty : bytes = [] := List.eq_nil_of_length_eq_zero (by rw [hbytes, ← hn, hzero])
    rw [hempty]
    refine ⟨rfl, ?_⟩
    have hsame : ({ entryOf kernel fd with
        pos := (entryOf kernel fd).pos + Int32.ofNat ([] : List UInt8).length } : VfsFd) =
          entryOf kernel fd := by
      have hadd : (entryOf kernel fd).pos + Int32.ofNat ([] : List UInt8).length =
          (entryOf kernel fd).pos := Int32.add_zero _
      rw [hadd]
    rw [hsame]
    exact (kernel.withFd_self fd.toNatClampNeg).symm
  · have hnonneg : ¬(kernel.vfsFds fd.toNatClampNeg).pos < 0 := by
      rw [Int32.lt_iff_toInt_lt, hpos]
      exact Int.not_lt.mpr (Int.natCast_nonneg pos)
    have hnat : (kernel.vfsFds fd.toNatClampNeg).pos.toNatClampNeg = pos := by
      rw [← Int32.toNat_toInt, hpos, Int.toNat_natCast]
    rw [if_neg hnonneg, Code.outcome_bind, hnat, hn]
    refine loadBytes_outcome (.inr ⟨block, hblock, ?_, ?_⟩) fun _ => ?_
    · exact Int.natCast_nonneg pos
    · omega
    have hslice : (((kernel.forms.block (kernel.forms.slot idx).content).getD []).drop pos).take
        (readAt (kernel.forms.bytes idx) pos count.toNatClampNeg).length =
          readAt (kernel.forms.bytes idx) pos count.toNatClampNeg := by
      refine List.ext_getElem? fun i => ?_
      rw [List.getElem?_take, List.getElem?_drop, hread, hlength, readAt, FormStore.bytes,
        List.getElem?_take, List.getElem?_drop, List.getElem?_take]
      grind
    rw [hslice]
    exact fun bytes hbytes => by rw [hbytes]; exact ⟨rfl, rfl⟩

theorem length_bufferBytes (buffer : ℕ → UInt8) (count : ℕ) :
    (bufferBytes buffer count).length = count := by
  rw [bufferBytes, List.length_map, List.length_range]

/-- A sum that does not overflow. -/
theorem toInt_add_of_lt {number other : Int32} (hlow : -2 ^ 31 ≤ number.toInt + other.toInt)
    (hhigh : number.toInt + other.toInt < 2 ^ 31) :
    (number + other).toInt = number.toInt + other.toInt := by
  rw [Int32.toInt_add]
  exact Int.bmod_eq_of_le (by omega) (by omega)

/-- What vfs_write asks form_ensure_cap for: room for the data and the terminator. -/
theorem askedRoom {pos count : Int32} {start : ℕ} (hpos : pos.toInt = start)
    (hmax : start + count.toNatClampNeg < 65528) :
    (pos + count + 1).toInt = start + count.toInt + 1 := by
  have hcount := Int32.toNat_toInt count
  have hlow := Int32.minValue_le_toInt count
  have hmin : Int32.minValue.toInt = -2 ^ 31 := by decide
  have hone : (1 : Int32).toInt = 1 := by decide
  have hsum : (pos + count).toInt = start + count.toInt := by
    rw [toInt_add_of_lt (by omega) (by omega), hpos]
  rw [toInt_add_of_lt (by omega) (by omega), hsum, hone]

/-- vfs_write stores the data at the position and moves on. -/
theorem vfsWrite_outcome (hkm : env.KmallocOk)
    (h : HeldTable kernel.forms kernel.store.formCount) (hform : fdForm kernel fd = some idx)
    (hpos : (entryOf kernel fd).pos.toInt = pos) (buffer : ℕ → UInt8) {count : Int32} {n : ℕ}
    (hn : count.toNatClampNeg = n) (hmax : pos + n < 65528)
    (hempty : n = 0 → pos ≤ (kernel.forms.slot idx).size) :
    (vfsWrite fd buffer count).outcome (cachedDevice env) (fun _ => False) kernel dev
      fun done kernel' _ => done = ⟨Int32.ofNat n, []⟩ ∧ ∃ forms',
        WrittenForm env dev kernel.forms forms' idx kernel.store.formCount pos
          (bufferBytes buffer n) ∧
        kernel' = (kernel.withForms forms').withFd fd.toNatClampNeg { entryOf kernel fd with
          pos := (entryOf kernel fd).pos + Int32.ofNat n } := by
  have hidx := fdForm_lt hform
  obtain ⟨_, _, _, hlt⟩ := h.held idx hidx
  have hlength := length_bufferBytes buffer n
  have hnat := Int32.toNat_toInt count
  have hasked := askedRoom hpos (by omega : pos + count.toNatClampNeg < 65528)
  simp only [vfsWrite, Code.outcome_bind, Code.outcome_memory, hform]
  have hroom : pos + n + 1 + 1024 < 2 ^ 31 := by omega
  refine Code.outcome_imp (formEnsureCap_roomy hkm h hidx hroom ?_) fun ok kernel₁ dev₁ hroomy => ?_
  · show ((entryOf kernel fd).pos + count + 1).toInt = (pos + n + 1 : ℕ) ∨
      ((entryOf kernel fd).pos + count + 1).toInt ≤ (pos + n + 1 : ℕ) ∧ _
    rw [hasked]
    omega
  obtain ⟨rfl, forms', rfl, hroomy⟩ := hroomy
  have hwrite : writeCount ((kernel.withForms forms').vfsFds fd.toNatClampNeg).pos count = n := by
    show writeCount (entryOf kernel fd).pos count = n
    rw [writeCount, hpos]
    omega
  have hpos' : ((kernel.withForms forms').vfsFds fd.toNatClampNeg).pos.toInt = pos := hpos
  obtain ⟨room, hroom, hcap, _⟩ := hroomy.held.held idx hidx
  have hfits := hroomy.fits
  have hlength' : (bufferBytes buffer n ++ [0]).length = n + 1 := by
    rw [List.length_append, hlength, List.length_singleton]
  rw [if_pos rfl, vfsStore]
  simp only [Code.outcome_bind, Code.outcome_memory, hwrite, hpos']
  refine storeBytes_outcome (.inr ⟨room, hroom, Int.natCast_nonneg pos, by omega⟩) fun _ => ?_
  refine ⟨rfl, forms'.written idx pos (bufferBytes buffer n), ?_, ?_⟩
  · refine Roomy.written (by rw [hlength]; exact hroomy) hidx fun hnil => ?_
    exact hempty (by rw [← hlength, hnil]; rfl)
  · rw [FormStore.written, hlength]
    rfl

/-- The stores of a write of no bytes behind the end make the form longer. -/
theorem vfsStore_behind (hpos : (entryOf kernel fd).pos.toInt = pos) {count : Int32}
    (hzero : writeCount (entryOf kernel fd).pos count = 0)
    (hbehind : (kernel.forms.slot idx).size < pos) (buffer : ℕ → UInt8) :
    (vfsStore fd idx buffer count).outcome (cachedDevice env) (fun _ => True) kernel dev
      fun done kernel' _ => done.ret = 0 ∧ (kernel'.forms.bytes idx).length = pos := by
  have hpos' : (kernel.vfsFds fd.toNatClampNeg).pos.toInt = pos := hpos
  have hzero' : writeCount (kernel.vfsFds fd.toNatClampNeg).pos count = 0 := hzero
  simp only [vfsStore, Code.outcome_bind, Code.outcome_memory, hzero', hpos']
  refine storeBytes_outcome (.inl trivial) fun hstored => ⟨rfl, ?_⟩
  obtain ⟨block, hblock, -, hle⟩ := hstored
  have hlength : (bufferBytes buffer 0 ++ [0]).length = 1 := rfl
  have hbytes := FormStore.bytes_written hblock pos []
  show ((kernel.forms.written idx pos []).bytes idx).length = pos
  rw [hbytes, List.length_take, length_overlay (by simp; omega), List.length_nil]
  omega

/-- A write of no bytes behind the end fails, or it makes the form longer. -/
theorem vfsWrite_behind (hform : fdForm kernel fd = some idx)
    (hpos : (entryOf kernel fd).pos.toInt = pos) {count : Int32}
    (hzero : writeCount (entryOf kernel fd).pos count = 0)
    (hbehind : (kernel.forms.slot idx).size < pos) (buffer : ℕ → UInt8) :
    (vfsWrite fd buffer count).outcome (cachedDevice env) (fun _ => True) kernel dev
      fun done kernel' _ =>
        done.ret = -1 ∨ done.ret = 0 ∧ (kernel'.forms.bytes idx).length = pos := by
  simp only [vfsWrite, Code.outcome_bind, Code.outcome_memory, hform]
  refine formEnsureCap_outcome (.inl trivial) (fun _ => ?_) (fun _ _ => .inl rfl)
    fun fill _ _ _ => ?_
  · rw [if_pos rfl]
    exact Code.outcome_imp (vfsStore_behind hpos hzero hbehind buffer) fun _ _ _ => .inr
  · rw [if_pos rfl]
    have hsize : ((kernel.forms.grown idx fill (grownCap ((kernel.vfsFds fd.toNatClampNeg).pos +
        count + 1))).slot idx).size < pos := by
      rw [FormStore.slot_grown_self]
      exact hbehind
    generalize kernel.forms.grown idx fill _ = forms' at hsize ⊢
    have hstore : (vfsStore fd idx buffer count).outcome (cachedDevice env) (fun _ => True)
        (kernel.withForms forms') (nextKmalloc dev) fun done kernel' _ =>
          done.ret = 0 ∧ (kernel'.forms.bytes idx).length = pos := by
      refine vfsStore_behind ?_ ?_ hsize buffer
      · exact hpos
      · exact hzero
    exact Code.outcome_imp hstore fun _ _ _ => .inr

end Calls

end HexaOS.Kernel
