import Mathlib.Data.List.Basic
import Mathlib.Data.Int.Init
import Mathlib.Logic.Function.Basic
import Mathlib.Order.Basic

/-!
# Named byte lists and descriptors on them

A store of byte lists under names. A descriptor is a form and a position: a read returns the
slice at the position, a write replaces or extends the bytes there, and a position is sought
from the start, the position or the size. What a store refuses it answers with -1.
-/

namespace HexaOS.ByteForms

/-- The bytes at a position, as many as are there. -/
def readAt (bytes : List UInt8) (pos count : ℕ) : List UInt8 := (bytes.drop pos).take count

/-- Bytes replaced or extended at a position. A gap before it is filled with zeros. -/
def writeAt (bytes : List UInt8) (pos : ℕ) (data : List UInt8) : List UInt8 :=
  if data = [] then bytes
  else
    bytes.take pos ++ List.replicate (pos - bytes.length) 0 ++ data ++
      bytes.drop (pos + data.length)

/-- An open form and the position in it. -/
structure Descriptor where
  /-- The form that is open. -/
  form : ℕ
  /-- The position of the next byte. -/
  pos : ℕ

/-- The forms in the order of their creation, and the open descriptors. -/
structure Store (κ : Type) where
  /-- The names and the bytes of the forms. -/
  forms : List (κ × List UInt8)
  /-- The descriptors that are open. -/
  descriptors : ℕ → Option Descriptor

/-- What a store has room for. -/
structure Limits (κ : Type) where
  /-- The names that a form may have. -/
  usable : κ → Bool
  /-- How many forms there may be. -/
  forms : ℕ
  /-- The first descriptor that is given out. -/
  first : ℕ
  /-- The end of the descriptors. -/
  descriptors : ℕ

/-- What an offset is relative to. -/
inductive Whence where
  | start
  | position
  | size
  deriving DecidableEq

/-- A request to a store. -/
inductive Request (κ : Type) where
  | open (name : κ) (create append : Bool)
  | read (fd : ℤ) (count : ℕ)
  | write (fd : ℤ) (data : List UInt8)
  | seek (fd offset : ℤ) (whence : Whence)
  | dup (fd : ℤ)
  | close (fd : ℤ)

/-- A number and the bytes that were read. -/
structure Answer where
  /-- The number that is returned. -/
  result : ℤ
  /-- The bytes that are returned. -/
  bytes : List UInt8

/-- The answer to a request that is refused. -/
def Answer.refused : Answer := ⟨-1, []⟩

namespace Store

variable {κ : Type}

/-- The bytes of a form. -/
def bytes (store : Store κ) (form : ℕ) : List UInt8 := ((store.forms[form]?).map Prod.snd).getD []

/-- The descriptor of a number. -/
def lookup (store : Store κ) (fd : ℤ) : Option Descriptor :=
  if 0 ≤ fd then store.descriptors fd.toNat else none

/-- The store with another descriptor, or none, under a number. -/
def setDescriptor (store : Store κ) (fd : ℕ) (descriptor : Option Descriptor) : Store κ :=
  { store with descriptors := Function.update store.descriptors fd descriptor }

/-- The first number without a descriptor. -/
def unused (limits : Limits κ) (store : Store κ) : Option ℕ :=
  (List.range' limits.first (limits.descriptors - limits.first)).find? fun fd =>
    (store.descriptors fd).isNone

/-- A descriptor for the first unused number. -/
def give (limits : Limits κ) (store : Store κ) (descriptor : Descriptor) : Answer × Store κ :=
  match store.unused limits with
  | none => (.refused, store)
  | some fd => (⟨fd, []⟩, store.setDescriptor fd (some descriptor))

/-- The first form of a name. -/
def find [DecidableEq κ] (store : Store κ) (name : κ) : Option ℕ :=
  store.forms.findIdx? fun form => form.1 = name

/-- The store with an empty form behind the others. -/
def create (store : Store κ) (name : κ) : Store κ :=
  { store with forms := store.forms ++ [(name, [])] }

/-- Whether a form may be created. -/
def Creates (limits : Limits κ) (store : Store κ) (name : κ) (create : Bool) : Prop :=
  create ∧ limits.usable name ∧ store.forms.length < limits.forms

instance (limits : Limits κ) (store : Store κ) (name : κ) (create : Bool) :
    Decidable (store.Creates limits name create) :=
  inferInstanceAs (Decidable (create ∧ limits.usable name ∧ store.forms.length < limits.forms))

/-- The descriptor of a form that is opened: it starts at the end to append. -/
def opened (store : Store κ) (form : ℕ) (append : Bool) : Descriptor :=
  ⟨form, if append then (store.bytes form).length else 0⟩

/-- The store with data written at a position of a form. -/
def write (store : Store κ) (form pos : ℕ) (data : List UInt8) : Store κ :=
  { store with forms := store.forms.modify form fun old => (old.1, writeAt old.2 pos data) }

/-- What an offset is relative to, as a position. -/
def base (store : Store κ) (descriptor : Descriptor) : Whence → ℕ
  | .start => 0
  | .position => descriptor.pos
  | .size => (store.bytes descriptor.form).length

/-- The answer to a request and the store behind it. -/
def respond [DecidableEq κ] (limits : Limits κ) (store : Store κ) :
    Request κ → Answer × Store κ
  | .open name create append =>
    match store.find name with
    | some form => store.give limits (store.opened form append)
    | none =>
      if store.Creates limits name create then
        (store.create name).give limits ⟨store.forms.length, 0⟩
      else (.refused, store)
  | .read fd count =>
    match store.lookup fd with
    | none => (.refused, store)
    | some descriptor =>
      let bytes := readAt (store.bytes descriptor.form) descriptor.pos count
      (⟨bytes.length, bytes⟩,
        store.setDescriptor fd.toNat (some ⟨descriptor.form, descriptor.pos + bytes.length⟩))
  | .write fd data =>
    match store.lookup fd with
    | none => (.refused, store)
    | some descriptor =>
      (⟨data.length, []⟩, (store.write descriptor.form descriptor.pos data).setDescriptor fd.toNat
        (some ⟨descriptor.form, descriptor.pos + data.length⟩))
  | .seek fd offset whence =>
    match store.lookup fd with
    | none => (.refused, store)
    | some descriptor =>
      let pos := (store.base descriptor whence + offset).toNat
      (⟨pos, []⟩, store.setDescriptor fd.toNat (some ⟨descriptor.form, pos⟩))
  | .dup fd =>
    match store.lookup fd with
    | none => (.refused, store)
    | some descriptor => store.give limits descriptor
  | .close fd =>
    match store.lookup fd with
    | none => (.refused, store)
    | some _ => (⟨0, []⟩, store.setDescriptor fd.toNat none)

/-- The descriptors are below the limit, and their forms are there. -/
def Valid (limits : Limits κ) (store : Store κ) : Prop :=
  ∀ fd descriptor, store.descriptors fd = some descriptor →
    fd < limits.descriptors ∧ descriptor.form < store.forms.length

end Store

section Bytes

variable {bytes data : List UInt8} {pos count : ℕ}

theorem length_readAt (bytes : List UInt8) (pos count : ℕ) :
    (readAt bytes pos count).length = min count (bytes.length - pos) := by
  rw [readAt, List.length_take, List.length_drop]

theorem length_writeAt (h : data ≠ []) :
    (writeAt bytes pos data).length = max bytes.length (pos + data.length) := by
  rw [writeAt, if_neg h]
  simp only [List.length_append, List.length_take, List.length_replicate, List.length_drop]
  omega

/-- What a byte is behind a write. -/
theorem getElem?_writeAt (h : data = [] → pos ≤ bytes.length) (i : ℕ) :
    (writeAt bytes pos data)[i]? =
      if i < pos then if i < bytes.length then bytes[i]? else some 0
      else if i < pos + data.length then data[i - pos]? else bytes[i]? := by
  by_cases hempty : data = []
  · have hle := h hempty
    rw [writeAt, if_pos hempty, hempty, List.length_nil, Nat.add_zero]
    split
    · rw [if_pos (by omega)]
    · rfl
  rw [writeAt, if_neg hempty]
  simp only [List.append_assoc, List.getElem?_append, List.length_take,
    List.length_replicate, List.getElem?_take, List.getElem?_replicate, List.getElem?_drop]
  grind

end Bytes

namespace Store

variable {κ : Type} {limits : Limits κ} {store : Store κ} {fd form : ℕ} {descriptor : Descriptor}

theorem length_write (store : Store κ) (form pos : ℕ) (data : List UInt8) :
    (store.write form pos data).forms.length = store.forms.length := by
  rw [write, List.length_modify]

@[simp] theorem setDescriptor_self (store : Store κ) (fd : ℕ) (given : Option Descriptor) :
    (store.setDescriptor fd given).descriptors fd = given :=
  Function.update_self ..

theorem setDescriptor_of_ne (store : Store κ) {fd other : ℕ} (h : other ≠ fd)
    (given : Option Descriptor) :
    (store.setDescriptor fd given).descriptors other = store.descriptors other :=
  Function.update_of_ne h _ _

theorem unused_lt (h : store.unused limits = some fd) : fd < limits.descriptors := by
  have hmem := List.mem_range'_1.mp (List.mem_of_find?_eq_some h)
  omega

section Requests

variable [DecidableEq κ] {number : ℤ}

theorem respond_found {name : κ} (h : store.find name = some form) (create append : Bool) :
    store.respond limits (.open name create append) =
      store.give limits (store.opened form append) := by
  rw [respond, h]

theorem respond_refused {name : κ} (h : store.find name = none) {create : Bool} (append : Bool)
    (hcreates : ¬store.Creates limits name create) :
    store.respond limits (.open name create append) = (.refused, store) := by
  rw [respond, h]
  exact if_neg hcreates

theorem respond_created {name : κ} (h : store.find name = none) {create : Bool} (append : Bool)
    (hcreates : store.Creates limits name create) :
    store.respond limits (.open name create append) =
      (store.create name).give limits ⟨store.forms.length, 0⟩ := by
  rw [respond, h]
  exact if_pos hcreates

theorem respond_read (h : store.lookup number = some descriptor) (count : ℕ) {bytes : List UInt8}
    (hbytes : readAt (store.bytes descriptor.form) descriptor.pos count = bytes) :
    store.respond limits (.read number count) = (⟨bytes.length, bytes⟩,
      store.setDescriptor number.toNat (some ⟨descriptor.form, descriptor.pos + bytes.length⟩)) := by
  rw [respond, h, ← hbytes]

theorem respond_write (h : store.lookup number = some descriptor) (data : List UInt8) :
    store.respond limits (.write number data) = (⟨data.length, []⟩,
      (store.write descriptor.form descriptor.pos data).setDescriptor number.toNat
        (some ⟨descriptor.form, descriptor.pos + data.length⟩)) := by
  rw [respond, h]

theorem respond_seek (h : store.lookup number = some descriptor) {offset : ℤ} {whence : Whence}
    {pos : ℕ} (hpos : (store.base descriptor whence + offset).toNat = pos) :
    store.respond limits (.seek number offset whence) =
      (⟨pos, []⟩, store.setDescriptor number.toNat (some ⟨descriptor.form, pos⟩)) := by
  rw [respond, h, ← hpos]

theorem respond_dup (h : store.lookup number = some descriptor) :
    store.respond limits (.dup number) = store.give limits descriptor := by
  rw [respond, h]

theorem respond_close (h : store.lookup number = some descriptor) :
    store.respond limits (.close number) = (⟨0, []⟩, store.setDescriptor number.toNat none) := by
  rw [respond, h]

end Requests

/-- A descriptor that is looked up is one of the store. -/
theorem lookup_eq_some {number : ℤ} (h : store.lookup number = some descriptor) :
    0 ≤ number ∧ store.descriptors number.toNat = some descriptor := by
  rw [lookup] at h
  split at h
  · rename_i hnonneg
    exact ⟨hnonneg, h⟩
  · cases h

/-- A form that is created is found. -/
theorem find_create [DecidableEq κ] {name : κ} (h : store.find name = none) :
    (store.create name).find name = some store.forms.length := by
  have hnone : store.forms.findIdx? (fun form => decide (form.1 = name)) = none := h
  rw [find, create, List.findIdx?_append, hnone, Option.none_or]
  simp

/-- Another descriptor of a form that is there. -/
theorem Valid.setDescriptor (h : store.Valid limits) {given : Option Descriptor}
    (hnew : ∀ descriptor, given = some descriptor →
      fd < limits.descriptors ∧ descriptor.form < store.forms.length) :
    (store.setDescriptor fd given).Valid limits := by
  intro other descriptor hother
  by_cases heq : other = fd
  · subst heq
    rw [setDescriptor_self] at hother
    exact hnew descriptor hother
  · rw [setDescriptor_of_ne store heq] at hother
    exact h other descriptor hother

/-- More forms. -/
theorem Valid.of_forms (h : store.Valid limits) {forms : List (κ × List UInt8)}
    (hle : store.forms.length ≤ forms.length) : Valid limits { store with forms := forms } :=
  fun fd descriptor hfd => ⟨(h fd descriptor hfd).1, Nat.lt_of_lt_of_le (h fd descriptor hfd).2 hle⟩

theorem Valid.create (h : store.Valid limits) (name : κ) : (store.create name).Valid limits :=
  h.of_forms (by rw [List.length_append]; exact Nat.le_add_right _ _)

theorem Valid.write (h : store.Valid limits) (form pos : ℕ) (data : List UInt8) :
    (store.write form pos data).Valid limits :=
  h.of_forms (Nat.le_of_eq (store.length_write form pos data).symm)

theorem Valid.give (h : store.Valid limits) (hform : descriptor.form < store.forms.length) :
    (store.give limits descriptor).2.Valid limits := by
  rw [Store.give]
  split
  · exact h
  · rename_i fd hunused
    refine h.setDescriptor fun other heq => ?_
    rw [← Option.some.inj heq]
    exact ⟨unused_lt hunused, hform⟩

/-- A descriptor that is looked up moves in its form. -/
theorem Valid.move (h : store.Valid limits) {number : ℤ}
    (hlookup : store.lookup number = some descriptor) (pos : ℕ) :
    (store.setDescriptor number.toNat (some ⟨descriptor.form, pos⟩)).Valid limits := by
  have hvalid := h _ _ (lookup_eq_some hlookup).2
  refine h.setDescriptor fun other heq => ?_
  rw [← Option.some.inj heq]
  exact hvalid

end Store

end HexaOS.ByteForms
