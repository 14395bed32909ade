import HexaOS.HexafsAbstractions

/-!
# Who owns which block

Every block that the store can reach is a snapshot, an abstraction, the chain
block of one abstraction, the object of one entry or one content block of one
object. A heap is an assignment of these roles under which the medium is well
formed and every block with a role is marked in the bitmap. The rules at the end
say how a heap grows when objects, entries, snapshots and abstractions are added
and how it survives a rewritten object.
-/

namespace HexaOS.Hexafs

open DevicePrograms PackedBytes StoreTyping

/-- What a block is for. -/
inductive Role where
  | snapshot
  | abstraction
  /-- The chain block of the abstraction `head`. -/
  | chain (head : UInt32)
  /-- The object of an entry of the abstraction `head`. -/
  | object (head : UInt32) (index : ℕ)
  /-- The content block in a slot of an object. -/
  | content (object : UInt32) (slot : ℕ)
  deriving DecidableEq

/-- The snapshot in a sector. -/
def snapAt (sectors : UInt32 → Sector) (block : UInt32) : HexafsSnap :=
  ofBlock HexafsSnap (sectors block)

/-- A block number that may be zero. -/
def optionalRef (block : UInt32) (role : Role) : List (UInt32 × Role) :=
  if block = 0 then [] else [(block, role)]

/-- The objects of consecutive entries. -/
def entryRefs (head : UInt32) (first : ℕ) (entries : List HexafsAbsEntry) :
    List (UInt32 × Role) :=
  entries.mapIdx fun i entry => (entry.objectBlock, .object head (first + i))

/-- The content blocks of an object. -/
def slotRefs (block : UInt32) (slots : List UInt32) : List (UInt32 × Role) :=
  (slots.mapIdx fun j b => (b, Role.content block j)).filter fun ref => ref.1 ≠ 0

/-- What a sector must hold in a role. -/
def sectorOk (role : Role) (sector : Sector) : Prop :=
  match role with
  | .snapshot => (ofBlock HexafsSnap sector).magic = hexafsSnapMagic
  | .abstraction =>
    (ofBlock HexafsAbsHeader sector).Ok ∧
      ((ofBlock HexafsAbsHeader sector).nextChain = 0 →
        (ofBlock HexafsAbsHeader sector).ChecksumOk) ∧
      ((ofBlock HexafsAbsHeader sector).nextChain ≠ 0 →
        (ofBlock HexafsAbsHeader sector).entryCount.toNat = 11 ∧
          ¬(ofBlock HexafsAbsHeader sector).ChecksumOk)
  | .chain _ =>
    (ofBlock HexafsAbsHeader sector).Ok ∧ (ofBlock HexafsAbsHeader sector).nextChain = 0
  | .object _ _ => (ofBlock HexafsObject sector).Ok
  | .content _ _ => True

/-- The blocks that a sector refers to in a role. -/
def sectorRefs (block : UInt32) (role : Role) (sector : Sector) : List (UInt32 × Role) :=
  match role with
  | .snapshot =>
    optionalRef (ofBlock HexafsSnap sector).parentSnapBlock .snapshot ++
      optionalRef (ofBlock HexafsSnap sector).rootObjectBlock .abstraction
  | .abstraction =>
    entryRefs block 0 (ofBlock HexafsAbsHeader sector).live ++
      optionalRef (ofBlock HexafsAbsHeader sector).nextChain (.chain block)
  | .chain head =>
    entryRefs head 11 (ofBlock HexafsAbsHeader sector).live ++
      optionalRef (ofBlock HexafsAbsHeader sector).nextChain (.chain head)
  | .object _ _ => slotRefs block (ofBlock HexafsObject sector).slots
  | .content _ _ => []

/-- The form store as a linked medium. -/
def storeShape : Shape UInt32 Sector Role where
  ok _ role sector := sectorOk role sector
  refs := sectorRefs

/-- The medium is well formed under the roles, and blocks with a role are blocks
of the object area that the bitmap marks. -/
structure Heap (sectors : UInt32 → Sector) (roles : UInt32 → Option Role) (a : Allocator) :
    Prop where
  /-- The blocks lead to blocks of the right roles. -/
  typed : Typed storeShape sectors roles
  /-- A block with a role is a used block of the area. -/
  covered : ∀ b role, roles b = some role → InStore b ∧ a.Used b

theorem mem_optionalRef {block : UInt32} {role : Role} {ref : UInt32 × Role} :
    ref ∈ optionalRef block role ↔ block ≠ 0 ∧ ref = (block, role) := by
  unfold optionalRef
  by_cases h : block = 0 <;> simp [h]

theorem mem_entryRefs {head : UInt32} {first : ℕ} {entries : List HexafsAbsEntry}
    {ref : UInt32 × Role} :
    ref ∈ entryRefs head first entries ↔
      ∃ i entry, entries[i]? = some entry ∧ ref = (entry.objectBlock, .object head (first + i)) := by
  unfold entryRefs
  rw [List.mem_iff_getElem?]
  simp only [List.getElem?_mapIdx, Option.map_eq_some_iff]
  constructor
  · rintro ⟨i, entry, hentry, rfl⟩
    exact ⟨i, entry, hentry, rfl⟩
  · rintro ⟨i, entry, hentry, rfl⟩
    exact ⟨i, entry, hentry, rfl⟩

theorem mem_slotRefs {block : UInt32} {slots : List UInt32} {ref : UInt32 × Role} :
    ref ∈ slotRefs block slots ↔
      ∃ (j : ℕ) (b : UInt32), slots[j]? = some b ∧ b ≠ 0 ∧ ref = (b, .content block j) := by
  unfold slotRefs
  rw [List.mem_filter, List.mem_iff_getElem?]
  simp only [List.getElem?_mapIdx, Option.map_eq_some_iff]
  constructor
  · rintro ⟨⟨j, b, hb, rfl⟩, hne⟩
    exact ⟨j, b, hb, by simpa using hne, rfl⟩
  · rintro ⟨j, b, hb, hne, rfl⟩
    exact ⟨⟨j, b, hb, rfl⟩, by simpa using hne⟩

/-- Without gaps, the slots that count are the content blocks. -/
theorem HexafsObject.Ok.getElem?_slots {obj : HexafsObject} (h : obj.Ok) {j : ℕ} {b : UInt32} :
    (obj.slots[j]? = some b ∧ b ≠ 0) ↔ obj.contents[j]? = some b := by
  rw [h.slots_eq]
  constructor
  · rintro ⟨hb, hne⟩
    rcases Nat.lt_or_ge j obj.contents.length with hlt | hge
    · rwa [List.getElem?_append_left hlt] at hb
    · rw [List.getElem?_append_right hge] at hb
      exact absurd (List.eq_of_mem_replicate (List.mem_of_getElem? hb)) hne
  · intro hb
    obtain ⟨hlt, _⟩ := List.getElem?_eq_some_iff.mp hb
    exact ⟨by rwa [List.getElem?_append_left hlt], ne_zero_of_mem_contents (List.mem_of_getElem? hb)⟩

section Reading

variable {sectors : UInt32 → Sector} {roles : UInt32 → Option Role} {a : Allocator}
  {block : UInt32}

theorem Heap.snapshot (h : Heap sectors roles a) (hrole : roles block = some .snapshot) :
    (snapAt sectors block).magic = hexafsSnapMagic ∧
      ((snapAt sectors block).parentSnapBlock ≠ 0 →
        roles (snapAt sectors block).parentSnapBlock = some .snapshot) ∧
      ((snapAt sectors block).rootObjectBlock ≠ 0 →
        roles (snapAt sectors block).rootObjectBlock = some .abstraction) := by
  obtain ⟨hok, hrefs⟩ := h.typed block _ hrole
  refine ⟨hok, fun hne => ?_, fun hne => ?_⟩
  · exact hrefs _ (List.mem_append_left _ (mem_optionalRef.mpr ⟨hne, rfl⟩))
  · exact hrefs _ (List.mem_append_right _ (mem_optionalRef.mpr ⟨hne, rfl⟩))

/-- A linked chain block carries the chain role. -/
theorem Heap.chain (h : Heap sectors roles a) (hrole : roles block = some .abstraction)
    (hne : (headerAt sectors block).nextChain ≠ 0) :
    roles (headerAt sectors block).nextChain = some (.chain block) :=
  (h.typed block _ hrole).2 _ (List.mem_append_right _ (mem_optionalRef.mpr ⟨hne, rfl⟩))

theorem Heap.absSound (h : Heap sectors roles a) (hrole : roles block = some .abstraction) :
    AbsSound sectors block := by
  obtain ⟨hok, hun, hlink⟩ := (h.typed block _ hrole).1
  exact ⟨hok, hun, hlink, fun hne => (h.typed _ _ (h.chain hrole hne)).1⟩

/-- The object of an entry belongs to that entry alone. -/
theorem Heap.entry (h : Heap sectors roles a) (hrole : roles block = some .abstraction) {i : ℕ}
    {entry : HexafsAbsEntry} (hentry : (absEntries sectors block)[i]? = some entry) :
    roles entry.objectBlock = some (.object block i) := by
  have hsound := h.absSound hrole
  have hlen := HexafsAbsHeader.length_live hsound.head
  rw [absEntries] at hentry
  rcases Nat.lt_or_ge i (headerAt sectors block).live.length with hlt | hge
  · rw [List.getElem?_append_left hlt] at hentry
    have hthis := (h.typed block _ hrole).2 _
      (List.mem_append_left _ (mem_entryRefs.mpr ⟨i, entry, hentry, rfl⟩))
    rwa [Nat.zero_add] at hthis
  · rw [List.getElem?_append_right hge] at hentry
    by_cases hzero : (headerAt sectors block).nextChain = 0
    · rw [if_pos hzero] at hentry
      cases hentry
    · rw [if_neg hzero] at hentry
      have heleven := (hsound.linked hzero).1
      have hthis := (h.typed _ _ (h.chain hrole hzero)).2 _
        (List.mem_append_left _ (mem_entryRefs.mpr ⟨_, entry, hentry, rfl⟩))
      have hsum : 11 + (i - (headerAt sectors block).live.length) = i := by omega
      rwa [hsum] at hthis

theorem Heap.objectOk (h : Heap sectors roles a) {head : UInt32} {i : ℕ}
    (hrole : roles block = some (.object head i)) : (objectAt sectors block).Ok :=
  (h.typed block _ hrole).1

/-- The content blocks of an object belong to that object alone. -/
theorem Heap.content (h : Heap sectors roles a) {head : UInt32} {i : ℕ}
    (hrole : roles block = some (.object head i)) {j : ℕ} {b : UInt32}
    (hb : (objectAt sectors block).contents[j]? = some b) :
    roles b = some (.content block j) := by
  obtain ⟨hslot, hne⟩ := (h.objectOk hrole).getElem?_slots.mpr hb
  exact (h.typed block _ hrole).2 _ (mem_slotRefs.mpr ⟨j, b, hslot, hne, rfl⟩)

theorem Heap.nodup_contents (h : Heap sectors roles a) {head : UInt32} {i : ℕ}
    (hrole : roles block = some (.object head i)) : (objectAt sectors block).contents.Nodup := by
  rw [List.nodup_iff_getElem?_ne_getElem?]
  intro j k hjk hk heq
  have hget := List.getElem?_eq_getElem hk
  have hj := h.content hrole (heq.trans hget)
  have hk' := h.content hrole hget
  rw [hj] at hk'
  simp only [Option.some.injEq, Role.content.injEq, true_and] at hk'
  omega

theorem Heap.mem_contents (h : Heap sectors roles a) {head : UInt32} {i : ℕ}
    (hrole : roles block = some (.object head i)) {b : UInt32}
    (hb : b ∈ (objectAt sectors block).contents) : ∃ j, roles b = some (.content block j) := by
  obtain ⟨j, hj⟩ := List.mem_iff_getElem?.mp hb
  exact ⟨j, h.content hrole hj⟩

variable {d : PlainDisk}

theorem Heap.valid (h : Heap sectors roles a) {role : Role} (hrole : roles block = some role) :
    ValidLba block := (h.covered block role hrole).1.valid

theorem Heap.not_fresh (h : Heap sectors roles a) {role : Role} (hrole : roles block = some role) :
    ¬a.Fresh block := fun hf => hf.2 (h.covered block role hrole).2

theorem Heap.absReadable (h : Heap d.sectors roles a) (hstale : ∀ b, d.stale b = false)
    (hrole : roles block = some .abstraction) : AbsReadable d block :=
  ⟨h.valid hrole, hstale _, fun hne => h.valid (h.chain hrole hne), fun _ => hstale _⟩

theorem Heap.objectSafe (h : Heap d.sectors roles a) (hstale : ∀ b, d.stale b = false)
    {head : UInt32} {i : ℕ} (hrole : roles block = some (.object head i)) :
    ObjectSafe a d block where
  ok := h.objectOk hrole
  inStore := (h.covered block _ hrole).1
  stale := hstale _
  contents := by
    intro b hb
    obtain ⟨j, hj⟩ := h.mem_contents hrole hb
    refine ⟨(h.covered b _ hj).1, (h.covered b _ hj).2, ?_⟩
    rintro rfl
    rw [hj] at hrole
    cases hrole
  used := (h.covered block _ hrole).2
  nodup := h.nodup_contents hrole

end Reading

section Changing

variable {sectors sectors' : UInt32 → Sector} {roles : UInt32 → Option Role} {a a' : Allocator}
  {block : UInt32}

/-- More marks in the bitmap, and changes outside the blocks with roles. -/
theorem Heap.frame (h : Heap sectors roles a) (hused : ∀ b, a.Used b → a'.Used b)
    (hsame : ∀ b role, roles b = some role → sectors' b = sectors b) :
    Heap sectors' roles a' :=
  ⟨h.typed.frame hsame, fun b role hrole =>
    ⟨(h.covered b role hrole).1, hused b (h.covered b role hrole).2⟩⟩

/-- A block that the bitmap does not mark has no role. -/
theorem Heap.role_none (h : Heap sectors roles a) {b : UInt32} (hb : ¬a.Used b) :
    roles b = none := by
  cases hrole : roles b with
  | none => rfl
  | some role => exact absurd (h.covered _ _ hrole).2 hb

/-- New roles for blocks that the bitmap did not mark. -/
theorem Heap.extends_assign (h : Heap sectors roles a) {new : List (UInt32 × Role)}
    (hfresh : ∀ entry ∈ new, ¬a.Used entry.1) : Extends roles (assign new roles) :=
  StoreTyping.extends_assign fun entry hentry => h.role_none (hfresh entry hentry)

/-- Blocks that were not marked get roles; changed blocks are checked again. -/
theorem Heap.extend (h : Heap sectors roles a) {new : List (UInt32 × Role)}
    (hfresh : ∀ entry ∈ new, ¬a.Used entry.1)
    (hcovered : ∀ entry ∈ new, InStore entry.1 ∧ a'.Used entry.1)
    (hused : ∀ b, a.Used b → a'.Used b)
    (hold : ∀ b role, roles b = some role → sectors' b = sectors b ∨
      LocallyTyped storeShape (assign new roles) b role (sectors' b))
    (hnew : ∀ entry ∈ new,
      LocallyTyped storeShape (assign new roles) entry.1 entry.2 (sectors' entry.1)) :
    Heap sectors' (assign new roles) a' := by
  refine ⟨h.typed.update (h.extends_assign hfresh) fun b role hrole => ?_, fun b role hrole => ?_⟩
  · rcases assign_cases hrole with hmem | hrole'
    · exact .inr (hnew _ hmem)
    · rcases hold b role hrole' with hsame | hlocal
      · exact .inl ⟨hrole', hsame⟩
      · exact .inr hlocal
  · rcases assign_cases hrole with hmem | hrole'
    · exact hcovered _ hmem
    · exact ⟨(h.covered b role hrole').1, hused b (h.covered b role hrole').2⟩

/-- A new abstraction without entries. -/
theorem Heap.addAbstraction (h : Heap sectors roles a) (hgrown : Grown a a' [block])
    (hsame : ∀ b role, roles b = some role → sectors' b = sectors b)
    (hsector : sectors' block = toBlock 512 newAbstraction) :
    Heap sectors' (assign [(block, .abstraction)] roles) a' := by
  have hfresh := hgrown.fresh block (List.mem_singleton_self block)
  refine h.extend ?_ ?_ (fun b => hgrown.used_mono) (fun b role hrole => .inl (hsame b role hrole))
    ?_
  · intro entry hentry
    rw [List.mem_singleton.mp hentry]
    exact hfresh.2
  · intro entry hentry
    rw [List.mem_singleton.mp hentry]
    exact ⟨hfresh.1, hgrown.used_of_mem (List.mem_singleton_self block)⟩
  · intro entry hentry
    rw [List.mem_singleton.mp hentry]
    dsimp only
    rw [hsector]
    constructor
    · show sectorOk .abstraction _
      simp only [sectorOk, ofBlock_toBlock]
      exact ⟨⟨rfl, Nat.zero_le _⟩, fun _ => newAbstraction_checksumOk,
        fun hne => absurd newAbstraction_nextChain hne⟩
    · intro ref href
      have hempty : storeShape.refs block .abstraction (toBlock 512 newAbstraction) = [] := by
        show sectorRefs block .abstraction (toBlock 512 newAbstraction) = []
        simp only [sectorRefs, ofBlock_toBlock]
        rfl
      rw [hempty] at href
      cases href

/-- A new snapshot of known parts. -/
theorem Heap.addSnapshot (h : Heap sectors roles a) (hgrown : Grown a a' [block])
    (hsame : ∀ b role, roles b = some role → sectors' b = sectors b)
    (hmagic : (snapAt sectors' block).magic = hexafsSnapMagic)
    (hparent : (snapAt sectors' block).parentSnapBlock ≠ 0 →
      roles (snapAt sectors' block).parentSnapBlock = some .snapshot)
    (hroot : (snapAt sectors' block).rootObjectBlock ≠ 0 →
      roles (snapAt sectors' block).rootObjectBlock = some .abstraction) :
    Heap sectors' (assign [(block, .snapshot)] roles) a' := by
  have hfresh := hgrown.fresh block (List.mem_singleton_self block)
  have hnot : ∀ entry ∈ [(block, Role.snapshot)], ¬a.Used entry.1 := by
    intro entry hentry
    rw [List.mem_singleton.mp hentry]
    exact hfresh.2
  have hext := h.extends_assign hnot
  refine h.extend hnot ?_ (fun b => hgrown.used_mono) (fun b role hrole => .inl (hsame b role hrole))
    ?_
  · intro entry hentry
    rw [List.mem_singleton.mp hentry]
    exact ⟨hfresh.1, hgrown.used_of_mem (List.mem_singleton_self block)⟩
  · intro entry hentry
    rw [List.mem_singleton.mp hentry]
    refine ⟨hmagic, fun ref href => ?_⟩
    rcases List.mem_append.mp href with href | href
    · obtain ⟨hne, rfl⟩ := mem_optionalRef.mp href
      exact hext _ _ (hparent hne)
    · obtain ⟨hne, rfl⟩ := mem_optionalRef.mp href
      exact hext _ _ (hroot hne)

/-- The roles of consecutive content blocks. -/
def contentRoles (object : UInt32) (first : ℕ) (blocks : List UInt32) : List (UInt32 × Role) :=
  blocks.mapIdx fun j b => (b, .content object (first + j))

theorem map_fst_contentRoles (object : UInt32) (first : ℕ) (blocks : List UInt32) :
    (contentRoles object first blocks).map Prod.fst = blocks := by
  apply List.ext_getElem?
  intro j
  simp [contentRoles, Function.comp_def]

theorem mem_contentRoles {object : UInt32} {first : ℕ} {blocks : List UInt32}
    {entry : UInt32 × Role} :
    entry ∈ contentRoles object first blocks ↔
      ∃ (j : ℕ) (b : UInt32), blocks[j]? = some b ∧ entry = (b, .content object (first + j)) := by
  unfold contentRoles
  rw [List.mem_iff_getElem?]
  simp only [List.getElem?_mapIdx, Option.map_eq_some_iff]
  constructor
  · rintro ⟨j, b, hb, rfl⟩
    exact ⟨j, b, hb, rfl⟩
  · rintro ⟨j, b, hb, rfl⟩
    exact ⟨j, b, hb, rfl⟩

/-- The roles of an object and its content blocks. -/
def objectRoles (head : UInt32) (index : ℕ) (object : UInt32) (blocks : List UInt32) :
    List (UInt32 × Role) :=
  (object, .object head index) :: contentRoles object 0 blocks

theorem map_fst_objectRoles (head : UInt32) (index : ℕ) (object : UInt32) (blocks : List UInt32) :
    (objectRoles head index object blocks).map Prod.fst = object :: blocks := by
  rw [objectRoles, List.map_cons, map_fst_contentRoles]

/-- An object whose content blocks carry their roles is locally typed. -/
theorem locallyTyped_object {head : UInt32} {index : ℕ} (hok : (objectAt sectors' block).Ok)
    (hcontents : ∀ (j : ℕ) (b : UInt32), (objectAt sectors' block).contents[j]? = some b →
      roles b = some (.content block j)) :
    LocallyTyped storeShape roles block (.object head index) (sectors' block) := by
  refine ⟨hok, fun ref href => ?_⟩
  obtain ⟨j, b, hb, hne, rfl⟩ := mem_slotRefs.mp href
  exact hcontents j b (hok.getElem?_slots.mp ⟨hb, hne⟩)

/-- A new object: its blocks were not marked before and are now. -/
structure NewObject (sectors' : UInt32 → Sector) (a a' : Allocator) (object : UInt32) : Prop where
  /-- The header is in order. -/
  ok : (objectAt sectors' object).Ok
  /-- The blocks are different. -/
  nodup : (object :: (objectAt sectors' object).contents).Nodup
  /-- They were free and are used. -/
  fresh : ∀ b ∈ object :: (objectAt sectors' object).contents, a.Fresh b ∧ a'.Used b

/-- The object of a new entry is locally typed as soon as its roles are assigned. -/
theorem NewObject.locallyTyped {object : UInt32} (hobj : NewObject sectors' a a' object)
    {head : UInt32} {index : ℕ}
    (hroles : ∀ entry ∈ objectRoles head index object (objectAt sectors' object).contents,
      roles entry.1 = some entry.2) :
    ∀ entry ∈ objectRoles head index object (objectAt sectors' object).contents,
      LocallyTyped storeShape roles entry.1 entry.2 (sectors' entry.1) := by
  intro entry hentry
  rcases List.mem_cons.mp hentry with rfl | hcontent
  · refine locallyTyped_object hobj.ok fun j b hb => ?_
    have hmem : (b, Role.content object (0 + j)) ∈
        contentRoles object 0 (objectAt sectors' object).contents :=
      mem_contentRoles.mpr ⟨j, b, hb, rfl⟩
    rw [Nat.zero_add] at hmem
    exact hroles _ (List.mem_cons_of_mem _ hmem)
  · obtain ⟨j, b, _, rfl⟩ := mem_contentRoles.mp hcontent
    exact ⟨trivial, fun ref href => by cases href⟩

/-- The blocks of a new object are those that get roles. -/
theorem NewObject.mem_objectRoles {object : UInt32} (hobj : NewObject sectors' a a' object)
    {head : UInt32} {index : ℕ} {entry : UInt32 × Role}
    (hentry : entry ∈ objectRoles head index object (objectAt sectors' object).contents) :
    a.Fresh entry.1 ∧ a'.Used entry.1 := by
  apply hobj.fresh
  rw [← map_fst_objectRoles head index object]
  exact List.mem_map_of_mem hentry

/-- An entry for a new object, in an abstraction with room. -/
theorem Heap.addEntry (h : Heap sectors roles a) (hrole : roles block = some .abstraction)
    {object : UInt32} {name : CString} {type : UInt8}
    (hroom : (headerAt sectors block).entryCount.toNat < 11)
    (hobj : NewObject sectors' a a' object) (hused : ∀ b, a.Used b → a'.Used b)
    (hsame : ∀ b role, roles b = some role → b ≠ block → sectors' b = sectors b)
    (hsector : sectors' block = toBlock 512 ((headerAt sectors block).putEntry
      ⟨(headerAt sectors block).entryCount.toNat, hroom⟩ name object type)) :
    Heap sectors' (assign (objectRoles block (headerAt sectors block).entryCount.toNat object
      (objectAt sectors' object).contents) roles) a' := by
  have hfresh : ∀ entry ∈ objectRoles block (headerAt sectors block).entryCount.toNat object
      (objectAt sectors' object).contents, ¬a.Used entry.1 := fun entry hentry =>
    (hobj.mem_objectRoles hentry).1.2
  have hext := h.extends_assign hfresh
  have hassigned : ∀ entry ∈ objectRoles block (headerAt sectors block).entryCount.toNat object
      (objectAt sectors' object).contents, assign (objectRoles block
        (headerAt sectors block).entryCount.toNat object (objectAt sectors' object).contents) roles
          entry.1 = some entry.2 := fun entry hentry =>
    assign_of_mem (by rw [map_fst_objectRoles]; exact hobj.nodup) hentry
  have hsound := h.absSound hrole
  have hnext : (headerAt sectors block).nextChain = 0 := by
    by_contra hlinked
    have heq := (hsound.linked hlinked).1
    omega
  refine h.extend hfresh (fun entry hentry => ⟨(hobj.mem_objectRoles hentry).1.1,
    (hobj.mem_objectRoles hentry).2⟩) hused (fun b role hb => ?_) (hobj.locallyTyped hassigned)
  by_cases hne : b = block
  · subst hne
    rw [hrole] at hb
    obtain rfl := Option.some.inj hb
    right
    rw [hsector]
    constructor
    · show sectorOk .abstraction _
      simp only [sectorOk, ofBlock_toBlock]
      refine ⟨⟨hsound.head.magic, ?_⟩, fun _ => HexafsAbsHeader.putEntry_checksumOk, fun hne =>
        absurd hnext hne⟩
      rw [HexafsAbsHeader.putEntry_entryCount]
      exact hroom
    · intro ref href
      have hrefs : ref ∈ sectorRefs b .abstraction (toBlock 512 ((headerAt sectors b).putEntry
          ⟨(headerAt sectors b).entryCount.toNat, hroom⟩ name object type)) := href
      simp only [sectorRefs, ofBlock_toBlock, HexafsAbsHeader.putEntry_nextChain,
        HexafsAbsHeader.live_putEntry _ (Fin.isLt _)] at hrefs
      rcases List.mem_append.mp hrefs with hentry | hchain
      · obtain ⟨i, entry, hi, rfl⟩ := mem_entryRefs.mp hentry
        have hlen := HexafsAbsHeader.length_live hsound.head
        rw [HexafsAbsHeader.live] at hlen
        rw [List.getElem?_append, hlen] at hi
        split at hi
        · exact hext _ _ ((h.typed b _ hrole).2 _ (List.mem_append_left _
            (mem_entryRefs.mpr ⟨i, entry, hi, rfl⟩)))
        · have hzero : i - (headerAt sectors b).entryCount.toNat = 0 := by
            by_contra hpos
            rw [List.getElem?_eq_none (by rw [List.length_singleton]; omega)] at hi
            cases hi
          have hii : i = (headerAt sectors b).entryCount.toNat := by omega
          rw [hzero] at hi
          obtain rfl := Option.some.inj hi
          rw [Nat.zero_add, hii]
          exact hassigned _ List.mem_cons_self
      · obtain ⟨hne, _⟩ := mem_optionalRef.mp hchain
        exact absurd hnext hne
  · exact .inl (hsame b role hb hne)

/-- An entry for a new object in a new chain block, linked to a full abstraction. -/
theorem Heap.addChain (h : Heap sectors roles a) (hrole : roles block = some .abstraction)
    {object chain : UInt32} {name : CString} {type : UInt8}
    (hfull : (headerAt sectors block).entryCount.toNat = 11)
    (hobj : NewObject sectors' a a' object) (hused : ∀ b, a.Used b → a'.Used b)
    (hchain : a.Fresh chain ∧ a'.Used chain)
    (hapart : chain ∉ object :: (objectAt sectors' object).contents)
    (hsame : ∀ b role, roles b = some role → b ≠ block → sectors' b = sectors b)
    (hsector : sectors' block = toBlock 512 ((headerAt sectors block).withChain chain))
    (hlink : sectors' chain = toBlock 512 (newAbstraction.putEntry 0 name object type))
    (hnext : (headerAt sectors block).nextChain = 0) :
    Heap sectors' (assign ((chain, .chain block) :: objectRoles block 11 object
      (objectAt sectors' object).contents) roles) a' := by
  have hmem : ∀ entry ∈ (chain, Role.chain block) :: objectRoles block 11 object
      (objectAt sectors' object).contents, a.Fresh entry.1 ∧ a'.Used entry.1 := by
    intro entry hentry
    rcases List.mem_cons.mp hentry with rfl | hentry
    · exact hchain
    · exact hobj.mem_objectRoles hentry
  have hfresh := fun entry hentry => (hmem entry hentry).1.2
  have hext := h.extends_assign hfresh
  have hnodup : (((chain, Role.chain block) :: objectRoles block 11 object
      (objectAt sectors' object).contents).map Prod.fst).Nodup := by
    rw [List.map_cons, map_fst_objectRoles]
    exact List.nodup_cons.mpr ⟨hapart, hobj.nodup⟩
  have hassigned : ∀ entry ∈ (chain, Role.chain block) :: objectRoles block 11 object
      (objectAt sectors' object).contents, assign ((chain, Role.chain block) :: objectRoles block 11
        object (objectAt sectors' object).contents) roles entry.1 = some entry.2 :=
    fun entry hentry => assign_of_mem hnodup hentry
  have hsound := h.absSound hrole
  refine h.extend hfresh (fun entry hentry => ⟨(hmem entry hentry).1.1, (hmem entry hentry).2⟩)
    hused (fun b role hb => ?_) fun entry hentry => ?_
  · by_cases hne : b = block
    · subst hne
      rw [hrole] at hb
      obtain rfl := Option.some.inj hb
      right
      rw [hsector]
      constructor
      · show sectorOk .abstraction _
        simp only [sectorOk, ofBlock_toBlock, HexafsAbsHeader.withChain_nextChain]
        refine ⟨⟨hsound.head.magic, hsound.head.count_le⟩, fun hz => absurd hz hchain.1.1.ne_zero,
          fun hnz => ⟨hfull, fun hsum => ?_⟩⟩
        have hold : absChecksum (headerAt sectors b) = (headerAt sectors b).checksum :=
          hsound.unlinked hnext
        have hnew : absChecksum ((headerAt sectors b).withChain chain) =
            (headerAt sectors b).checksum := hsum
        exact absChecksum_withChain hnext hnz (hnew.trans hold.symm)
      · intro ref href
        have hrefs : ref ∈ sectorRefs b .abstraction
            (toBlock 512 ((headerAt sectors b).withChain chain)) := href
        simp only [sectorRefs, ofBlock_toBlock, HexafsAbsHeader.withChain_nextChain] at hrefs
        rcases List.mem_append.mp hrefs with hentry | hlinked
        · exact hext _ _ ((h.typed b _ hrole).2 _ (List.mem_append_left _ hentry))
        · obtain ⟨_, rfl⟩ := mem_optionalRef.mp hlinked
          exact hassigned _ List.mem_cons_self
    · exact .inl (hsame b role hb hne)
  · rcases List.mem_cons.mp hentry with rfl | hentry
    · rw [hlink]
      constructor
      · show sectorOk (.chain block) _
        simp only [sectorOk, ofBlock_toBlock]
        refine ⟨⟨rfl, ?_⟩, ?_⟩
        · rw [HexafsAbsHeader.putEntry_entryCount]
          decide
        · rw [HexafsAbsHeader.putEntry_nextChain, newAbstraction_nextChain]
      · intro ref href
        have hrefs : ref ∈ sectorRefs chain (.chain block)
            (toBlock 512 (newAbstraction.putEntry 0 name object type)) := href
        simp only [sectorRefs, ofBlock_toBlock, HexafsAbsHeader.putEntry_nextChain,
          HexafsAbsHeader.live_putEntry _ (Fin.isLt _)] at hrefs
        rcases List.mem_append.mp hrefs with hentry | hlinked
        · obtain ⟨i, entry, hi, rfl⟩ := mem_entryRefs.mp hentry
          have hzero : i = 0 := by
            by_contra hpos
            rw [List.getElem?_eq_none (by simp; omega)] at hi
            cases hi
          subst hzero
          obtain rfl := Option.some.inj hi
          exact hassigned _ (List.mem_cons_of_mem _ List.mem_cons_self)
        · exact absurd newAbstraction_nextChain (mem_optionalRef.mp hlinked).1
    · exact hobj.locallyTyped (fun e he => hassigned e (List.mem_cons_of_mem _ he)) entry hentry

/-- An object that is rewritten: it keeps a front part of its content blocks and
gets new ones behind them. -/
theorem Heap.rewriteObject (h : Heap sectors roles a) {head : UInt32} {index : ℕ}
    (hrole : roles block = some (.object head index)) {kept fresh : List UInt32}
    (hok : (objectAt sectors' block).Ok)
    (hcontents : (objectAt sectors' block).contents = kept ++ fresh)
    (hkept : kept <+: (objectAt sectors block).contents) (hgrown : Grown a a' fresh)
    (hsame : ∀ b role, roles b = some role → b ≠ block → b ∉ kept → sectors' b = sectors b) :
    Heap sectors' (assign (contentRoles block kept.length fresh) roles) a' := by
  have hmem : ∀ entry ∈ contentRoles block kept.length fresh, entry.1 ∈ fresh := by
    intro entry hentry
    rw [← map_fst_contentRoles block kept.length fresh]
    exact List.mem_map_of_mem hentry
  have hfresh := fun entry hentry => (hgrown.fresh _ (hmem entry hentry)).2
  have hext := h.extends_assign hfresh
  refine h.extend hfresh
    (fun entry hentry => ⟨(hgrown.fresh _ (hmem entry hentry)).1,
      hgrown.used_of_mem (hmem entry hentry)⟩)
    (fun b => hgrown.used_mono) (fun b role hb => ?_) fun entry hentry => ?_
  · by_cases hne : b = block
    · subst hne
      rw [hrole] at hb
      obtain rfl := Option.some.inj hb
      -- kept slots have their old roles, the slots behind them the new ones
      refine .inr (locallyTyped_object hok fun j c hc => ?_)
      rw [hcontents] at hc
      rcases Nat.lt_or_ge j kept.length with hlt | hge
      · rw [List.getElem?_append_left hlt] at hc
        have hold : (objectAt sectors b).contents[j]? = some c := by
          obtain ⟨rest, hrest⟩ := hkept
          rw [← hrest, List.getElem?_append_left hlt, hc]
        exact hext _ _ (h.content hrole hold)
      · rw [List.getElem?_append_right hge] at hc
        refine assign_of_mem (by rw [map_fst_contentRoles]; exact hgrown.nodup)
          (mem_contentRoles.mpr ⟨_, c, hc, ?_⟩)
        have hsum : kept.length + (j - kept.length) = j := by omega
        rw [hsum]
    · by_cases hin : b ∈ kept
      · obtain ⟨j, hj⟩ := h.mem_contents hrole (hkept.subset hin)
        rw [hb] at hj
        obtain rfl := Option.some.inj hj
        exact .inr ⟨trivial, fun ref href => by cases href⟩
      · exact .inl (hsame b role hb hne hin)
  · obtain ⟨j, c, _, rfl⟩ := mem_contentRoles.mp hentry
    exact ⟨trivial, fun ref href => by cases href⟩

/-- Overwritten content blocks keep the heap. -/
theorem Heap.rewriteContents (h : Heap sectors roles a) {head : UInt32} {index : ℕ}
    (hrole : roles block = some (.object head index)) (hused : ∀ b, a.Used b → a'.Used b)
    (hsame : ∀ b role, roles b = some role → b ∉ (objectAt sectors block).contents →
      sectors' b = sectors b) : Heap sectors' roles a' := by
  refine ⟨h.typed.update Extends.refl fun b role hb => ?_, fun b role hb =>
    ⟨(h.covered b role hb).1, hused b (h.covered b role hb).2⟩⟩
  by_cases hin : b ∈ (objectAt sectors block).contents
  · obtain ⟨j, hj⟩ := h.mem_contents hrole hin
    rw [hb] at hj
    obtain rfl := Option.some.inj hj
    exact .inr ⟨trivial, fun ref href => by cases href⟩
  · exact .inl ⟨hb, hsame b role hb hin⟩

end Changing

end HexaOS.Hexafs
