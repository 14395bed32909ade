import Mathlib.Logic.Function.Basic
import Mathlib.Data.List.Basic

/-!
# Linked storage under a role assignment, and lists of writes

A medium maps addresses to data, and data read in a role refers to further
addresses in further roles. An assignment of roles to addresses is a typing when
every assigned address satisfies its local condition and refers to addresses of
the assigned roles only. Whatever is reachable then plays exactly one role, and
a change of the medium keeps the typing when every changed address is checked
again. A list of writes describes how a medium evolves, one write at a time.
-/

namespace HexaOS.StoreTyping

/-- The local rules of a linked medium. -/
structure Shape (Addr Data Role : Type) where
  /-- The condition on the data at an address, read in a role. -/
  ok : Addr → Role → Data → Prop
  /-- The addresses that the data refers to, with the roles they are read in. -/
  refs : Addr → Role → Data → List (Addr × Role)

variable {Addr Data Role : Type} (shape : Shape Addr Data Role)

/-- The data at `a` is as its role demands, under an assignment of roles. -/
def LocallyTyped (roles : Addr → Option Role) (a : Addr) (role : Role) (data : Data) : Prop :=
  shape.ok a role data ∧ ∀ ref ∈ shape.refs a role data, roles ref.1 = some ref.2

/-- Every address with a role is locally typed. -/
def Typed (disk : Addr → Data) (roles : Addr → Option Role) : Prop :=
  ∀ a role, roles a = some role → LocallyTyped shape roles a role (disk a)

/-- The addresses reachable from given roots, each with a role it is read in. -/
inductive Reach (disk : Addr → Data) (root : Addr → Role → Prop) : Addr → Role → Prop where
  /-- A root is reachable. -/
  | base {a : Addr} {role : Role} (h : root a role) : Reach disk root a role
  /-- What a reachable address refers to is reachable. -/
  | next {a : Addr} {role : Role} {ref : Addr × Role} (h : Reach disk root a role)
      (href : ref ∈ shape.refs a role (disk a)) : Reach disk root ref.1 ref.2

/-- The second assignment keeps every role of the first. -/
def Extends (roles roles' : Addr → Option Role) : Prop :=
  ∀ a role, roles a = some role → roles' a = some role

variable {shape} {disk disk' : Addr → Data} {roles roles' : Addr → Option Role}

theorem Extends.refl : Extends roles roles := fun _ _ h => h

theorem Extends.trans {roles'' : Addr → Option Role} (h : Extends roles roles')
    (h' : Extends roles' roles'') : Extends roles roles'' :=
  fun a role hrole => h' a role (h a role hrole)

/-- An address without a role takes one. -/
theorem extends_update [DecidableEq Addr] {a : Addr} (ha : roles a = none) (role : Role) :
    Extends roles (Function.update roles a (some role)) := by
  intro other old hold
  have hne : other ≠ a := by
    rintro rfl
    exact nomatch ha.symm.trans hold
  rw [Function.update_of_ne hne, hold]

theorem LocallyTyped.mono {a : Addr} {role : Role} {data : Data} (h : Extends roles roles')
    (ht : LocallyTyped shape roles a role data) : LocallyTyped shape roles' a role data :=
  ⟨ht.1, fun ref href => h _ _ (ht.2 ref href)⟩

/-- Everything reachable from typed roots carries the role it is reached in. -/
theorem Reach.role {root : Addr → Role → Prop} (ht : Typed shape disk roles)
    (hroot : ∀ a role, root a role → roles a = some role) {a : Addr} {role : Role}
    (h : Reach shape disk root a role) : roles a = some role := by
  induction h with
  | base hbase => exact hroot _ _ hbase
  | next _ href ih => exact (ht _ _ ih).2 _ href

/-- The update rule: every address of the new assignment is either old and
unchanged, or checked on the new medium. -/
theorem Typed.update (ht : Typed shape disk roles) (hext : Extends roles roles')
    (h : ∀ a role, roles' a = some role →
      (roles a = some role ∧ disk' a = disk a) ∨
        LocallyTyped shape roles' a role (disk' a)) :
    Typed shape disk' roles' := by
  intro a role hrole
  rcases h a role hrole with ⟨hold, hsame⟩ | hnew
  · rw [hsame]
    exact (ht a role hold).mono hext
  · exact hnew

/-- Changes outside the typed addresses do not matter. -/
theorem Typed.frame (ht : Typed shape disk roles)
    (hsame : ∀ a role, roles a = some role → disk' a = disk a) : Typed shape disk' roles :=
  ht.update Extends.refl fun a role h => .inl ⟨h, hsame a role h⟩

section Assign

variable [DecidableEq Addr]

/-- Give roles to the addresses of a list; the first mention counts. -/
def assign (new : List (Addr × Role)) (roles : Addr → Option Role) : Addr → Option Role := fun a =>
  match new.find? (·.1 = a) with
  | some entry => some entry.2
  | none => roles a

variable {new : List (Addr × Role)}

theorem assign_nil (roles : Addr → Option Role) : assign [] roles = roles := rfl

/-- An address that the list does not mention keeps its role. -/
theorem assign_of_notMem {a : Addr} (h : ∀ entry ∈ new, entry.1 ≠ a) :
    assign new roles a = roles a := by
  have hnone : new.find? (·.1 = a) = none := by
    rw [List.find?_eq_none]
    intro entry hentry
    simpa using h entry hentry
  rw [assign, hnone]

/-- A listed address has its listed role, when no address is listed twice. -/
theorem assign_of_mem (hnodup : (new.map Prod.fst).Nodup) {a : Addr} {role : Role}
    (h : (a, role) ∈ new) : assign new roles a = some role := by
  induction new with
  | nil => cases h
  | cons entry rest ih =>
    rw [List.map_cons, List.nodup_cons] at hnodup
    rcases List.mem_cons.mp h with rfl | hrest
    · simp [assign]
    · have hne : entry.1 ≠ a := by
        rintro rfl
        exact hnodup.1 (List.mem_map.mpr ⟨_, hrest, rfl⟩)
      have hthis := ih hnodup.2 hrest
      rw [assign] at hthis ⊢
      rwa [List.find?_cons_of_neg (by simpa using hne)]

/-- Roles after the assignment are listed or old. -/
theorem assign_cases {a : Addr} {role : Role} (h : assign new roles a = some role) :
    (a, role) ∈ new ∨ roles a = some role := by
  rw [assign] at h
  cases hfind : new.find? (·.1 = a) with
  | none =>
    rw [hfind] at h
    exact .inr h
  | some entry =>
    rw [hfind] at h
    obtain rfl := Option.some.inj h
    have heq : entry.1 = a := by simpa using List.find?_some hfind
    exact .inl (heq ▸ List.mem_of_find?_eq_some hfind)

/-- Roles for addresses that had none. -/
theorem extends_assign (h : ∀ entry ∈ new, roles entry.1 = none) :
    Extends roles (assign new roles) := by
  intro a role hrole
  rw [assign_of_notMem, hrole]
  intro entry hentry heq
  rw [← heq, h entry hentry] at hrole
  cases hrole

end Assign

section Writes

variable [DecidableEq Addr]

/-- Perform a list of writes, the first one first. -/
def applyWrites (writes : List (Addr × Data)) (disk : Addr → Data) : Addr → Data :=
  writes.foldl (fun disk write => Function.update disk write.1 write.2) disk

@[simp] theorem applyWrites_nil (disk : Addr → Data) : applyWrites [] disk = disk := rfl

@[simp] theorem applyWrites_cons (write : Addr × Data) (writes : List (Addr × Data))
    (disk : Addr → Data) :
    applyWrites (write :: writes) disk =
      applyWrites writes (Function.update disk write.1 write.2) := rfl

theorem applyWrites_append (first second : List (Addr × Data)) (disk : Addr → Data) :
    applyWrites (first ++ second) disk = applyWrites second (applyWrites first disk) := by
  simp only [applyWrites, List.foldl_append]

/-- An address that no write touches keeps its data. -/
theorem applyWrites_of_notMem {writes : List (Addr × Data)} {a : Addr}
    (h : ∀ write ∈ writes, write.1 ≠ a) (disk : Addr → Data) :
    applyWrites writes disk a = disk a := by
  induction writes generalizing disk with
  | nil => rfl
  | cons write writes ih =>
    rw [applyWrites_cons, ih fun w hw => h w (List.mem_cons_of_mem _ hw),
      Function.update_of_ne (Ne.symm (h write List.mem_cons_self))]

/-- Data written to distinct addresses is found there. -/
theorem map_applyWrites_zip {addrs : List Addr} (hnodup : addrs.Nodup) {data : List Data}
    (hlen : data.length = addrs.length) (disk : Addr → Data) :
    addrs.map (applyWrites (addrs.zip data) disk) = data := by
  induction addrs generalizing data disk with
  | nil => rw [List.length_eq_zero_iff.mp hlen, List.map_nil]
  | cons a addrs ih =>
    cases data with
    | nil => cases hlen
    | cons x data =>
      rw [List.nodup_cons] at hnodup
      have hfirst : ∀ write ∈ addrs.zip data, write.1 ≠ a := by
        intro write hwrite heq
        exact hnodup.1 (heq ▸ (List.of_mem_zip hwrite).1)
      rw [List.zip_cons_cons, applyWrites_cons, List.map_cons, ih hnodup.2 (by simpa using hlen),
        applyWrites_of_notMem hfirst, Function.update_self]

/-- A property of the medium holds after every prefix of a list of writes. -/
def Throughout (P : (Addr → Data) → Prop) (writes : List (Addr × Data)) (disk : Addr → Data) :
    Prop :=
  ∀ k, P (applyWrites (writes.take k) disk)

theorem throughout_append {P : (Addr → Data) → Prop} {first second : List (Addr × Data)} :
    Throughout P (first ++ second) disk ↔
      Throughout P first disk ∧ Throughout P second (applyWrites first disk) := by
  constructor
  · intro h
    refine ⟨fun k => ?_, fun k => ?_⟩
    · rcases Nat.le_total k first.length with hk | hk
      · have hthis := h k
        rwa [List.take_append_of_le_length hk] at hthis
      · have hthis := h first.length
        rw [List.take_left] at hthis
        rwa [List.take_of_length_le hk]
    · have hthis := h (first.length + k)
      rwa [List.take_length_add_append, applyWrites_append] at hthis
  · rintro ⟨hfirst, hsecond⟩ k
    rcases Nat.le_total k first.length with hk | hk
    · rw [List.take_append_of_le_length hk]
      exact hfirst k
    · obtain ⟨j, rfl⟩ := Nat.exists_eq_add_of_le hk
      rw [List.take_length_add_append, applyWrites_append]
      exact hsecond j

theorem throughout_nil {P : (Addr → Data) → Prop} : Throughout P [] disk ↔ P disk := by
  simp only [Throughout, List.take_nil, applyWrites_nil, forall_const]

theorem throughout_cons {P : (Addr → Data) → Prop} {write : Addr × Data}
    {writes : List (Addr × Data)} :
    Throughout P (write :: writes) disk ↔
      P disk ∧ Throughout P writes (Function.update disk write.1 write.2) := by
  constructor
  · intro h
    exact ⟨h 0, fun k => h (k + 1)⟩
  · rintro ⟨hnow, hlater⟩ k
    cases k with
    | zero => exact hnow
    | succ k => exact hlater k

end Writes

end HexaOS.StoreTyping
