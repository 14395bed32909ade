import HexaOS.HexafsSaveAll

/-!
# Loading

What the three loaders return is a function of the medium, the root snapshot and
the heap allocations of the environment. `configAt` is what the two configuration
loaders read, `formsAt` what hexafs_load_all reads; the specifications say that
the code computes these, on a store.
-/

namespace HexaOS.Hexafs

open DevicePrograms PackedBytes StoreTyping

/-- The object under a name in the root abstraction. -/
def configAt (sectors : UInt32 → Sector) (root : UInt32) (name : CString) : Option ObjectRead :=
  if rootAbsAt sectors root = 0 then none
  else
    ((absEntries sectors (rootAbsAt sectors root)).find? fun e => nameMatches e.name name).bind
      fun entry => readObject sectors entry.objectBlock

/-- The names and objects of the first block of the root abstraction. -/
def formsAt (sectors : UInt32 → Sector) (root : UInt32) :
    Option (List (Vector UInt8 32 × Option ObjectRead)) :=
  if rootAbsAt sectors root = 0 then none
  else some ((headerAt sectors (rootAbsAt sectors root)).live.map fun e =>
    (e.name, readObject sectors e.objectBlock))

variable {env : Environment} {mem : Memory} {d : PlainDisk} {roles : UInt32 → Option Role}
  {a : Allocator}

/-- The abstraction that the root snapshot names. -/
theorem rootAbstraction_spec (h : Readable mem d roles a)
    {post : UInt32 → Memory → PlainDisk → Prop}
    (hpost : post (rootAbsAt d.sectors mem.sbCache.rootSnapBlock) mem d) :
    rootAbstraction.wp (plainDevice env) mem d post := by
  simp only [rootAbstraction, Code.wp_bind, Code.wp_memory]
  by_cases hzero : mem.sbCache.rootSnapBlock = 0
  · rw [rootAbsAt, if_pos hzero] at hpost
    rw [if_pos hzero, Code.wp_pure]
    exact hpost
  · have hroot := h.root hzero
    rw [h.heap.rootAbsAt_eq hroot] at hpost
    have hsnap : ofBlock HexafsSnap (d.sectors mem.sbCache.rootSnapBlock) =
        snapAt d.sectors mem.sbCache.rootSnapBlock := rfl
    rw [if_neg hzero, Code.wp_bind]
    refine wp_hexafsBlockRead (h.heap.valid hroot) (h.stale _) ?_
    dsimp only
    rw [hsnap, if_neg (not_not.mpr (h.heap.snapshot hroot).1), Code.wp_pure]
    exact hpost

/-- Reading the object of an entry of the heap. -/
theorem Readable.readObject_spec (h : Readable mem d roles a) {block head : UInt32} {i : ℕ}
    (hrole : roles block = some (.object head i))
    {post : Option ObjectRead → Memory → PlainDisk → Prop}
    (hpost : post (readObject d.sectors block) mem d) :
    (hexafsObjectReadData block).wp (plainDevice env) mem d post := by
  refine hexafsObjectReadData_spec (h.heap.valid hrole) (h.stale _) (fun b hb => ?_) hpost
  obtain ⟨j, hj⟩ := h.heap.mem_contents hrole hb
  exact ⟨h.heap.valid hj, h.stale b⟩

/-- The common text of the configuration loaders. -/
theorem loadConfig_spec (h : Readable mem d roles a) {name : CString}
    {post : Option ObjectRead → Memory → PlainDisk → Prop}
    (hpost : post (configAt d.sectors mem.sbCache.rootSnapBlock name) mem d) :
    (loadConfig name).wp (plainDevice env) mem d post := by
  rw [loadConfig, Code.wp_bind]
  refine rootAbstraction_spec h ?_
  rw [configAt] at hpost
  by_cases hzero : rootAbsAt d.sectors mem.sbCache.rootSnapBlock = 0
  · rw [if_pos hzero] at hpost
    rw [if_pos hzero, Code.wp_pure]
    exact hpost
  · have habs := h.heap.rootAbsAt_role h.root hzero
    rw [if_neg hzero] at hpost
    rw [if_neg hzero, Code.wp_bind]
    refine hexafsAbstractionFind_spec (h.heap.absSound habs) (h.heap.absReadable h.stale habs) ?_
    cases hfind : (absEntries d.sectors (rootAbsAt d.sectors mem.sbCache.rootSnapBlock)).find?
        fun e => nameMatches e.name name with
    | none =>
      rw [hfind] at hpost
      dsimp only
      rw [Code.wp_pure]
      exact hpost
    | some entry =>
      rw [hfind] at hpost
      obtain ⟨i, hi⟩ := List.mem_iff_getElem?.mp (List.mem_of_find?_eq_some hfind)
      have hobject := h.heap.entry habs hi
      have hne : entry.objectBlock ≠ 0 := (h.heap.covered _ _ hobject).1.ne_zero
      dsimp only
      rw [if_neg hne]
      exact h.readObject_spec hobject hpost

/-- What hexafs_users_load hands out. -/
def usersOf : Option ObjectRead → Option (UInt32 × List UInt8)
  | some ⟨true, _, size, bytes⟩ => some (size, bytes)
  | _ => none

theorem hexafsUsersLoad_spec (h : Readable mem d roles a)
    {post : Option (UInt32 × List UInt8) → Memory → PlainDisk → Prop}
    (hpost : post (usersOf (configAt d.sectors mem.sbCache.rootSnapBlock usersName)) mem d) :
    hexafsUsersLoad.wp (plainDevice env) mem d post := by
  rw [hexafsUsersLoad, Code.wp_bind]
  refine loadConfig_spec h ?_
  generalize configAt d.sectors mem.sbCache.rootSnapBlock usersName = read at hpost
  match read, hpost with
  | none, hpost => exact (Code.wp_pure _ _).mpr hpost
  | some ⟨true, _, _, _⟩, hpost => exact (Code.wp_pure _ _).mpr hpost
  | some ⟨false, _, _, _⟩, hpost => exact (Code.wp_pure _ _).mpr hpost

section Frame

variable {sectors sectors' : UInt32 → Sector} {root block : UInt32} {name : CString}

/-- Entries, and what their objects read, while the blocks of the heap are unchanged. -/
theorem Heap.absEntries_eq (h : Heap sectors roles a) (hrole : roles block = some .abstraction)
    (hsame : ∀ b role, roles b = some role → sectors' b = sectors b) :
    absEntries sectors' block = absEntries sectors block :=
  absEntries_congr (hsame block _ hrole) fun hne => hsame _ _ (h.chain hrole hne)

theorem Heap.readObject_same (h : Heap sectors roles a) (hrole : roles block = some .abstraction)
    (hsame : ∀ b role, roles b = some role → sectors' b = sectors b) {entry : HexafsAbsEntry}
    (hentry : entry ∈ absEntries sectors block) :
    readObject sectors' entry.objectBlock = readObject sectors entry.objectBlock := by
  obtain ⟨i, hi⟩ := List.mem_iff_getElem?.mp hentry
  have hobject := h.entry hrole hi
  exact h.readObject_eq hobject (hsame _ _ hobject) fun b j hb => hsame b _ hb

/-- What the loaders read depends on the blocks of the heap only. -/
theorem Heap.configAt_eq (h : Heap sectors roles a)
    (hroot : root ≠ 0 → roles root = some .snapshot)
    (hsame : ∀ b role, roles b = some role → sectors' b = sectors b) :
    configAt sectors' root name = configAt sectors root name := by
  have habs : rootAbsAt sectors' root = rootAbsAt sectors root :=
    rootAbsAt_congr fun hne => hsame _ _ (hroot hne)
  rw [configAt, configAt, habs]
  by_cases hzero : rootAbsAt sectors root = 0
  · rw [if_pos hzero, if_pos hzero]
  · have hrole := h.rootAbsAt_role hroot hzero
    rw [if_neg hzero, if_neg hzero, h.absEntries_eq hrole hsame]
    cases hfind : (absEntries sectors (rootAbsAt sectors root)).find?
        fun e => nameMatches e.name name with
    | none => rfl
    | some entry => exact h.readObject_same hrole hsame (List.mem_of_find?_eq_some hfind)

theorem Heap.formsAt_eq (h : Heap sectors roles a)
    (hroot : root ≠ 0 → roles root = some .snapshot)
    (hsame : ∀ b role, roles b = some role → sectors' b = sectors b) :
    formsAt sectors' root = formsAt sectors root := by
  have habs : rootAbsAt sectors' root = rootAbsAt sectors root :=
    rootAbsAt_congr fun hne => hsame _ _ (hroot hne)
  rw [formsAt, formsAt, habs]
  by_cases hzero : rootAbsAt sectors root = 0
  · rw [if_pos hzero, if_pos hzero]
  · have hrole := h.rootAbsAt_role hroot hzero
    have hhead : headerAt sectors' (rootAbsAt sectors root) =
        headerAt sectors (rootAbsAt sectors root) :=
      congrArg (ofBlock HexafsAbsHeader) (hsame _ _ hrole)
    rw [if_neg hzero, if_neg hzero, hhead, Option.some.injEq]
    refine List.map_congr_left fun entry hentry => ?_
    rw [(h.absSound hrole).live_eq] at hentry
    rw [h.readObject_same hrole hsame (List.mem_of_mem_take hentry)]

end Frame

section Forms

/-- A slot after a form without bytes was stored, at the k-th heap allocation. -/
def FormEntry.emptied (env : Environment) (k : ℕ) (slot : FormEntry) : FormEntry :=
  match env.heapBlock k 1 with
  | none => { slot with content := none, size_le := slot.size_le_none }
  | some _ => { slot with content := some [0], size := 0, cap := 1, size_le := zero_le_one }

/-- A slot with owner and mode. -/
def FormEntry.withOwner (slot : FormEntry) (owner : UInt32) (mode : UInt16) : FormEntry :=
  { slot with owner := owner, mode := mode }

/-- A slot with a buffer of its own for some bytes. -/
def FormEntry.withBytes (slot : FormEntry) (bytes : List UInt8) : FormEntry :=
  { slot with
    content := some (bytes ++ [0])
    size := bytes.length
    cap := bytes.length + 1
    size_le := by simp }

/-- A slot with the name of an entry. -/
def FormEntry.named (slot : FormEntry) (name : Vector UInt8 32) : FormEntry :=
  { slot with name := CString.ofBytes (name.toList.take 31) }

/-- A slot without a buffer. -/
def FormEntry.withoutBuffer (slot : FormEntry) : FormEntry :=
  { slot with content := none, size := 0, size_le := zero_le_none }

/-- A slot after a form object was decoded, and the heap allocations made. -/
def FormEntry.decoded (env : Environment) (k : ℕ) (dataSize : UInt32) (buffer : List UInt8)
    (slot : FormEntry) : FormEntry × ℕ :=
  let fields := formFields dataSize buffer
  let owner := if fields.owner < 12 then fields.owner else 0
  match env.heapBlock k (fields.contentBytes + 1) with
  | none => ((slot.emptied env (k + 1)).withOwner owner fields.mode, k + 2)
  | some _ =>
    ((slot.withBytes ((buffer.drop fields.metaOffset).take fields.contentBytes)).withOwner owner
      fields.mode, k + 1)

/-- A slot after one entry was loaded, and the heap allocations made. -/
def FormEntry.loaded (env : Environment) (k : ℕ) (name : Vector UInt8 32) (read : Option ObjectRead)
    (slot : FormEntry) : FormEntry × ℕ :=
  match env.heapBlock k 2048 with
  | none => ((slot.named name).withoutBuffer, k + 1)
  | some fill =>
    match read with
    | some ⟨true, type, dataSize, bytes⟩ =>
      if type = hexafsForm then
        (slot.named name).decoded env (k + 1) dataSize (bytes ++ fill.drop bytes.length)
      else (((slot.named name).emptied env (k + 1)).withOwner 0 0x1A4, k + 2)
    | _ => (((slot.named name).emptied env (k + 1)).withOwner 0 0x1A4, k + 2)

/-- The form table after a list of entries was loaded from slot `i` on. -/
def loadedTable (env : Environment) : List (Vector UInt8 32 × Option ObjectRead) → ℕ → ℕ →
    (ℕ → FormEntry) → (ℕ → FormEntry) × ℕ
  | [], _, k, table => (table, k)
  | (name, read) :: rest, i, k, table =>
    loadedTable env rest (i + 1) ((table i).loaded env k name read).2
      (Function.update table i ((table i).loaded env k name read).1)

/-- The disk after heap allocations up to the k-th. -/
def PlainDisk.countedTo (d : PlainDisk) (k : ℕ) : PlainDisk := { d with kmallocCount := k }

/-- The statics with another form in the slot behind the last one. -/
def Memory.withSlot (mem : Memory) (slot : FormEntry) : Memory :=
  { mem with formTable := Function.update mem.formTable mem.formCount slot }

/-- The statics with another form table. -/
def Memory.withForms (mem : Memory) (table : ℕ → FormEntry) (count : ℕ) : Memory :=
  { mem with formTable := table, formCount := count }

@[simp] theorem Memory.withSlot_formCount (slot : FormEntry) :
    (mem.withSlot slot).formCount = mem.formCount := rfl

@[simp] theorem Memory.withSlot_self (slot : FormEntry) :
    (mem.withSlot slot).formTable mem.formCount = slot := Function.update_self _ _ _

@[simp] theorem Memory.withSlot_withSlot (slot slot' : FormEntry) :
    (mem.withSlot slot).withSlot slot' = mem.withSlot slot' := by
  simp only [withSlot, Function.update_idem]

theorem wp_kmalloc_eq {size : ℕ} {post : Option (List UInt8) → Memory → PlainDisk → Prop} :
    (kmalloc size).wp (plainDevice env) mem d post ↔
      post (env.heapBlock d.kmallocCount size) mem (d.countedTo (d.kmallocCount + 1)) := by
  constructor
  · intro h
    exact Code.wp_of_exec h rfl
  · intro h
    exact Code.wp_request rfl h

@[simp] theorem wp_modifySlot (update : FormEntry → FormEntry)
    (post : Unit → Memory → PlainDisk → Prop) :
    (modifySlot update).wp (plainDevice env) mem d post ↔
      post () (mem.withSlot (update (mem.formTable mem.formCount))) d := Code.wp_modify _ _

/-- A slot becomes an empty form. -/
theorem modifySlotEmpty_spec {post : Unit → Memory → PlainDisk → Prop}
    (hpost : post () (mem.withSlot ((mem.formTable mem.formCount).emptied env d.kmallocCount))
      (d.countedTo (d.kmallocCount + 1))) :
    modifySlotEmpty.wp (plainDevice env) mem d post := by
  rw [modifySlotEmpty, Code.wp_bind, wp_kmalloc_eq]
  rw [FormEntry.emptied] at hpost
  cases hblock : env.heapBlock d.kmallocCount 1 with
  | none =>
    rw [hblock] at hpost
    dsimp only
    rw [wp_modifySlot]
    exact hpost
  | some fill =>
    rw [hblock] at hpost
    dsimp only
    rw [wp_modifySlot]
    exact hpost

/-- The fields of a decoded form and its content make up the bytes that count. -/
theorem formFields_size {dataSize : UInt32} {buffer : List UInt8} (h : dataSize.toNat ≤ 2048) :
    (formFields dataSize buffer).metaOffset + (formFields dataSize buffer).contentBytes =
      dataSize.toNat := by
  have hbytes : ∀ offset, offset ≤ dataSize.toNat →
      offset + (if dataSize - UInt32.ofNat offset < 0x80000000 then
        (dataSize - UInt32.ofNat offset).toNat else 0) = dataSize.toNat := by
    intro offset hoffset
    have hof : (UInt32.ofNat offset).toNat = offset := by
      rw [UInt32.toNat_ofNat', Nat.mod_eq_of_lt (by omega)]
    have hsub : (dataSize - UInt32.ofNat offset).toNat = dataSize.toNat - offset := by
      rw [UInt32.toNat_sub_of_le, hof]
      rw [UInt32.le_iff_toNat_le, hof]
      exact hoffset
    have hlt : dataSize - UInt32.ofNat offset < 0x80000000 := by
      rw [UInt32.lt_iff_toNat_lt, hsub]
      exact lt_of_le_of_lt (Nat.sub_le _ _) (lt_of_le_of_lt h (by decide))
    rw [if_pos hlt, hsub]
    omega
  refine hbytes _ ?_
  have hoffset : (formFields dataSize buffer).metaOffset ≤ dataSize.toNat := by
    simp only [formFields]
    repeat' split
    all_goals omega
  exact hoffset

/-- Decoding a form object that fits the buffer. -/
theorem storeForm_spec {dataSize : UInt32} {buffer : List UInt8} (hsize : dataSize.toNat ≤ 2048)
    (hbuffer : buffer.length = 2048) {post : Unit → Memory → PlainDisk → Prop}
    (hpost : post ()
      (mem.withSlot ((mem.formTable mem.formCount).decoded env d.kmallocCount dataSize buffer).1)
      (d.countedTo ((mem.formTable mem.formCount).decoded env d.kmallocCount dataSize buffer).2)) :
    (storeForm dataSize buffer).wp (plainDevice env) mem d post := by
  have hfields : (formFields dataSize buffer).metaOffset +
      (formFields dataSize buffer).contentBytes = dataSize.toNat := formFields_size hsize
  simp only [storeForm, Code.wp_bind, wp_kmalloc_eq]
  rw [FormEntry.decoded] at hpost
  cases hblock : env.heapBlock d.kmallocCount ((formFields dataSize buffer).contentBytes + 1) with
  | none =>
    simp only [hblock] at hpost
    dsimp only
    rw [Code.wp_bind]
    refine modifySlotEmpty_spec ?_
    rw [wp_modifySlot, Memory.withSlot_formCount, Memory.withSlot_self, Memory.withSlot_withSlot]
    exact hpost
  | some fill =>
    simp only [hblock] at hpost
    dsimp only
    rw [if_neg (by omega), Code.wp_bind, wp_modifySlot, wp_modifySlot, Memory.withSlot_formCount,
      Memory.withSlot_self, Memory.withSlot_withSlot]
    exact hpost

/-- One round of the loop of hexafs_load_all. -/
theorem loadEntry_spec (h : Readable mem d roles a) {entry : HexafsAbsEntry} {head : UInt32}
    {i : ℕ} (hrole : roles entry.objectBlock = some (.object head i))
    {post : Unit → Memory → PlainDisk → Prop}
    (hpost : ∀ slot k, (mem.formTable mem.formCount).loaded env d.kmallocCount entry.name
        (readObject d.sectors entry.objectBlock) = (slot, k) →
      post () (mem.withForms (Function.update mem.formTable mem.formCount slot)
        (mem.formCount + 1)) (d.countedTo k)) :
    (loadEntry entry).wp (plainDevice env) mem d post := by
  have hok := h.heap.objectOk hrole
  have hnamed : ∀ {post : Unit → Memory → PlainDisk → Prop} {rest : Unit → HexafsM Unit},
      (rest ()).wp (plainDevice env)
        (mem.withSlot ((mem.formTable mem.formCount).named entry.name)) d post →
      ((modifySlot fun slot => { slot with
        name := CString.ofBytes (entry.name.toList.take 31) }) >>= rest).wp
          (plainDevice env) mem d post := by
    intro post rest hrest
    rw [Code.wp_bind, wp_modifySlot]
    exact hrest
  have hdone : ∀ {post : Unit → Memory → PlainDisk → Prop} {slot : FormEntry} {d' : PlainDisk},
      post () (mem.withForms (Function.update mem.formTable mem.formCount slot)
        (mem.formCount + 1)) d' →
      (Code.modify fun mem => { mem with formCount := mem.formCount + 1 } : HexafsM Unit).wp
        (plainDevice env) (mem.withSlot slot) d' post := by
    intro post slot d' hfinal
    rw [Code.wp_modify]
    exact hfinal
  rw [FormEntry.loaded] at hpost
  rw [loadEntry]
  refine hnamed ?_
  rw [Code.wp_bind, wp_kmalloc_eq]
  cases hblock : env.heapBlock d.kmallocCount 2048 with
  | none =>
    rw [hblock] at hpost
    dsimp only
    rw [Code.wp_bind, wp_modifySlot, Memory.withSlot_formCount, Memory.withSlot_self,
      Memory.withSlot_withSlot]
    exact hdone (hpost _ _ rfl)
  | some fill =>
    have hfill := Environment.length_heapBlock hblock
    rw [hblock] at hpost
    dsimp only
    have hstore : Readable (mem.withSlot ((mem.formTable mem.formCount).named entry.name))
        (d.countedTo (d.kmallocCount + 1)) roles a := ⟨h.heap, h.root, h.stale⟩
    rw [Code.wp_bind]
    refine hstore.readObject_spec hrole ?_
    have hread : readObject (d.countedTo (d.kmallocCount + 1)).sectors entry.objectBlock =
        readObject d.sectors entry.objectBlock := rfl
    rw [hread]
    have hempty : ∀ {post : Unit → Memory → PlainDisk → Prop} {rest : Unit → HexafsM Unit},
        (∀ slot k, ((((mem.formTable mem.formCount).named entry.name).emptied env
          (d.kmallocCount + 1)).withOwner 0 0x1A4, d.kmallocCount + 2) = (slot, k) →
          (rest ()).wp (plainDevice env) (mem.withSlot slot) (d.countedTo k) post) →
        (modifySlotEmpty >>= fun _ => (modifySlot fun slot =>
          { slot with owner := 0, mode := 0x1A4 }) >>= rest).wp
            (plainDevice env) (mem.withSlot ((mem.formTable mem.formCount).named entry.name))
              (d.countedTo (d.kmallocCount + 1)) post := by
      intro post rest hfinal
      rw [Code.wp_bind]
      refine modifySlotEmpty_spec ?_
      rw [Code.wp_bind, wp_modifySlot, Memory.withSlot_formCount, Memory.withSlot_self,
        Memory.withSlot_withSlot, Memory.withSlot_formCount, Memory.withSlot_self,
        Memory.withSlot_withSlot]
      exact hfinal _ _ rfl
    cases hobj : readObject d.sectors entry.objectBlock with
    | none =>
      rw [hobj] at hpost
      exact hempty fun slot k heq => hdone (hpost slot k heq)
    | some read =>
      obtain ⟨hlen, htrue, hsize⟩ := length_bytes_readObject hok hobj
      obtain ⟨ok, type, dataSize, bytes⟩ := read
      obtain rfl : ok = true := htrue
      rw [hobj] at hpost
      dsimp only at hpost hlen hsize ⊢
      by_cases htype : type = hexafsForm
      · rw [if_pos htype] at hpost ⊢
        rw [Code.wp_bind]
        refine storeForm_spec hsize ?_ ?_
        · rw [List.length_append, List.length_drop, hfill]
          omega
        · rw [Memory.withSlot_formCount, Memory.withSlot_self, Memory.withSlot_withSlot]
          exact hdone (hpost _ _ rfl)
      · rw [if_neg htype] at hpost ⊢
        exact hempty fun slot k heq => hdone (hpost slot k heq)

/-- The loop of hexafs_load_all, by induction on the entries. -/
theorem loadEntries_spec {entries rest : List HexafsAbsEntry} (h : Readable mem d roles a)
    (hroles : ∀ entry ∈ entries, ∃ head i, roles entry.objectBlock = some (.object head i))
    (hroom : mem.formCount + entries.length ≤ 64) {post : Unit → Memory → PlainDisk → Prop}
    (hpost : ∀ table k, loadedTable env
        (entries.map fun e => (e.name, readObject d.sectors e.objectBlock)) mem.formCount
          d.kmallocCount mem.formTable = (table, k) →
      post () (mem.withForms table (mem.formCount + entries.length)) (d.countedTo k)) :
    (loadEntries entries.length (entries ++ rest)).wp (plainDevice env) mem d post := by
  induction entries generalizing mem d with
  | nil =>
    rw [List.length_nil, loadEntries, Code.wp_pure]
    exact hpost _ _ rfl
  | cons entry entries ih =>
    obtain ⟨head, i, hrole⟩ := hroles entry List.mem_cons_self
    rw [List.length_cons] at hroom
    rw [List.length_cons, List.cons_append, loadEntries, Code.wp_bind, Code.wp_memory,
      if_pos (by omega), Code.wp_bind]
    refine loadEntry_spec h hrole fun slot k heq => ?_
    have hstore : Readable (mem.withForms (Function.update mem.formTable mem.formCount slot)
        (mem.formCount + 1)) (d.countedTo k) roles a := ⟨h.heap, h.root, h.stale⟩
    refine ih hstore (fun e he => hroles e (List.mem_cons_of_mem _ he)) ?_ fun table k' hrest => ?_
    · show mem.formCount + 1 + entries.length ≤ 64
      omega
    · have hall : loadedTable env ((entry :: entries).map fun e =>
          (e.name, readObject d.sectors e.objectBlock)) mem.formCount d.kmallocCount mem.formTable =
            (table, k') := by
        rw [List.map_cons, loadedTable, heq]
        exact hrest
      have hcount : mem.formCount + (entry :: entries).length =
          mem.formCount + 1 + entries.length := by
        rw [List.length_cons]
        omega
      have hthis := hpost table k' hall
      rw [hcount] at hthis
      exact hthis

/-- The statics after hexafs_load_all, and the heap allocations made. -/
def Memory.loaded (env : Environment) (mem : Memory) (sectors : UInt32 → Sector) (k : ℕ) :
    Memory × ℕ :=
  match formsAt sectors mem.sbCache.rootSnapBlock with
  | none => ({ mem with rootAbsBlock := 0 }, k)
  | some reads =>
    ({ mem with
        rootAbsBlock := rootAbsAt sectors mem.sbCache.rootSnapBlock
        formTable := (loadedTable env reads 0 k mem.formTable).1
        formCount := reads.length }, (loadedTable env reads 0 k mem.formTable).2)

/-- hexafs_load_all on a store. -/
theorem hexafsLoadAll_spec (h : Readable mem d roles a) {post : Unit → Memory → PlainDisk → Prop}
    (hpost : post () (mem.loaded env d.sectors d.kmallocCount).1
      (d.countedTo (mem.loaded env d.sectors d.kmallocCount).2)) :
    hexafsLoadAll.wp (plainDevice env) mem d post := by
  rw [Memory.loaded, formsAt] at hpost
  rw [hexafsLoadAll, Code.wp_bind, Code.wp_modify, Code.wp_bind, Code.wp_memory]
  dsimp only
  by_cases hzero : mem.sbCache.rootSnapBlock = 0
  · have habs : rootAbsAt d.sectors mem.sbCache.rootSnapBlock = 0 := by
      rw [rootAbsAt, if_pos hzero]
    rw [if_pos habs] at hpost
    rw [if_pos hzero, Code.wp_pure, hzero]
    exact hpost
  · have hroot := h.root hzero
    have hsnap : ofBlock HexafsSnap (d.sectors mem.sbCache.rootSnapBlock) =
        snapAt d.sectors mem.sbCache.rootSnapBlock := rfl
    have habs := h.heap.rootAbsAt_eq hroot
    rw [if_neg hzero, Code.wp_bind]
    refine wp_hexafsBlockRead (h.heap.valid hroot) (h.stale _) ?_
    dsimp only
    rw [hsnap, if_neg (not_not.mpr (h.heap.snapshot hroot).1), Code.wp_bind, Code.wp_modify,
      ← habs]
    by_cases hnone : rootAbsAt d.sectors mem.sbCache.rootSnapBlock = 0
    · rw [if_pos hnone] at hpost
      rw [if_pos hnone, Code.wp_pure, hnone]
      exact hpost
    · have hrole := h.heap.rootAbsAt_role h.root hnone
      have hsound := h.heap.absSound hrole
      have hhdr : ofBlock HexafsAbsHeader (d.sectors
          (rootAbsAt d.sectors mem.sbCache.rootSnapBlock)) =
            headerAt d.sectors (rootAbsAt d.sectors mem.sbCache.rootSnapBlock) := rfl
      rw [if_neg hnone] at hpost
      rw [if_neg hnone, Code.wp_bind]
      refine wp_hexafsBlockRead (h.heap.valid hrole) (h.stale _) ?_
      dsimp only
      rw [hhdr, if_neg (not_not.mpr hsound.head.magic), Code.wp_bind, Code.wp_modify,
        HexafsAbsHeader.countInt_eq hsound.head]
      have hsplit : (headerAt d.sectors (rootAbsAt d.sectors
          mem.sbCache.rootSnapBlock)).entries.toList =
          (headerAt d.sectors (rootAbsAt d.sectors mem.sbCache.rootSnapBlock)).live ++
            (headerAt d.sectors (rootAbsAt d.sectors
              mem.sbCache.rootSnapBlock)).entries.toList.drop (headerAt d.sectors
                (rootAbsAt d.sectors mem.sbCache.rootSnapBlock)).entryCount.toNat :=
        (List.take_append_drop _ _).symm
      have hlen := HexafsAbsHeader.length_live hsound.head
      have hle := hsound.head.count_le
      have hroles : ∀ entry ∈ (headerAt d.sectors (rootAbsAt d.sectors
          mem.sbCache.rootSnapBlock)).live, ∃ head i,
            roles entry.objectBlock = some (.object head i) := by
        intro entry hentry
        rw [hsound.live_eq] at hentry
        obtain ⟨i, hi⟩ := List.mem_iff_getElem?.mp (List.mem_of_mem_take hentry)
        exact ⟨_, i, h.heap.entry hrole hi⟩
      rw [hsplit, ← hlen]
      have hstore : Readable { mem with
          rootAbsBlock := rootAbsAt d.sectors mem.sbCache.rootSnapBlock
          formCount := 0 } d roles a := ⟨h.heap, h.root, h.stale⟩
      refine loadEntries_spec hstore hroles ?_ fun table k heq => ?_
      · show 0 + _ ≤ 64
        omega
      · dsimp only at heq hpost
        rw [heq, List.length_map] at hpost
        rw [Nat.zero_add]
        exact hpost

/-- What a user sees of a form: name, size, content bytes, owner and mode. -/
structure FormView where
  /-- The name. -/
  name : CString
  /-- The number of bytes. -/
  size : ℕ
  /-- The bytes. -/
  bytes : List UInt8
  /-- The owner. -/
  owner : UInt32
  /-- The mode. -/
  mode : UInt16
  deriving DecidableEq

/-- A form without its buffer. -/
def FormEntry.view (form : FormEntry) : FormView :=
  ⟨form.name, form.size, form.bytes, form.owner, form.mode⟩

/-- A form as the shell makes them: its name fits an entry, its bytes fit an object,
and its owner is a slot of u_table. -/
structure FormEntry.Savable (form : FormEntry) : Prop where
  /-- The name is not empty. -/
  name_pos : 0 < form.name.chars.length
  /-- The name fits an entry. -/
  name_le : form.name.chars.length ≤ 31
  /-- The bytes fit an object. -/
  size_le : form.size ≤ 2038
  /-- The size is that of the bytes. -/
  bytes_eq : form.bytes.length = form.size
  /-- The owner is a slot of u_table. -/
  owner_lt : form.owner < 12

theorem Environment.heapBlock_of_ok {n : ℕ} (h : env.kmallocOk n = true) (size : ℕ) :
    env.heapBlock n size = some ((List.range size).map (env.heapByte n)) := if_pos h

theorem Environment.KmallocOk.heapBlock (hkm : env.KmallocOk) (n size : ℕ) :
    env.heapBlock n size = some ((List.range size).map (env.heapByte n)) :=
  Environment.heapBlock_of_ok (hkm n) size

theorem Environment.heapBlock_of_not {n : ℕ} (h : ¬env.kmallocOk n = true) (size : ℕ) :
    env.heapBlock n size = none := if_neg h

/-- The fields of a form object that is read back. -/
theorem formFields_formBuffer {form : FormEntry} (hform : form.Savable) {fill : List UInt8}
    (rest : List UInt8) :
    formFields (UInt32.ofNat (10 + min form.size 2038))
      (formBuffer form.content form.size form.owner form.mode fill ++ rest) =
        ⟨form.owner, form.mode, 10, form.size⟩ := by
  have hsize := hform.size_le
  have hmin : min form.size 2038 = form.size := by omega
  have hof : (UInt32.ofNat (10 + form.size)).toNat = 10 + form.size := by
    rw [UInt32.toNat_ofNat', Nat.mod_eq_of_lt (by omega)]
  have hsub : (UInt32.ofNat (10 + form.size) - UInt32.ofNat 10).toNat = form.size := by
    have hten : (UInt32.ofNat 10).toNat = 10 := rfl
    rw [UInt32.toNat_sub_of_le, hof, hten]
    · omega
    · rw [UInt32.le_iff_toNat_le, hof, hten]
      omega
  have hlt : UInt32.ofNat (10 + form.size) - UInt32.ofNat 10 < 0x80000000 := by
    rw [UInt32.lt_iff_toNat_lt, hsub]
    exact lt_of_le_of_lt hsize (by decide)
  have hsplit : ∀ tail, formBuffer form.content form.size form.owner form.mode fill ++ tail =
      toBytes form.owner ++ (toBytes form.mode ++ (toBytes (0 : UInt32) ++
        ((form.content.getD (fill.drop 10)).take
          (min form.size (min 2048 (10 + form.size) - 10)) ++ tail))) := by
    intro tail
    simp only [formBuffer, formMeta, List.append_assoc]
  have howner : ofBytes (formBuffer form.content form.size form.owner form.mode fill ++ rest) =
      form.owner := by
    rw [hsplit, Packed.ofBytes_toBytes_append]
  have hmode : ofBytes ((formBuffer form.content form.size form.owner form.mode fill ++
      rest).drop 4) = form.mode := by
    have hdrop := Packed.drop_toBytes_append form.owner (toBytes form.mode ++
      (toBytes (0 : UInt32) ++ ((form.content.getD (fill.drop 10)).take
        (min form.size (min 2048 (10 + form.size) - 10)) ++ rest)))
    rw [hsplit]
    exact (congrArg ofBytes hdrop).trans (Packed.ofBytes_toBytes_append form.mode _)
  have hfour : 4 ≤ 10 + form.size := by omega
  have hsix : 4 + 2 ≤ 10 + form.size := by omega
  have hten : 4 + 2 + 4 ≤ 10 + form.size := by omega
  rw [hmin, formFields]
  simp only [hof, howner, if_pos hfour, if_pos hsix, if_pos hten, hmode]
  rw [hsub, if_pos hlt]

/-- The name of a saved form that gets an entry is read back. -/
theorem FormStored.named {sectors : UInt32 → Sector} {entry : HexafsAbsEntry} {form : FormEntry}
    (h : FormStored sectors entry form) (hform : form.Savable) :
    CString.ofBytes (entry.name.toList.take 31) = form.name := by
  obtain ⟨old, hname⟩ := h.entry_for.name
  rw [hname, CString.ofBytes_copyName, CString.truncate_of_le hform.name_le]

/-- What is loaded for a stored form. Its own buffer is the second allocation. -/
theorem FormStored.loaded_eq {sectors : UInt32 → Sector} {entry : HexafsAbsEntry}
    {form : FormEntry} (h : FormStored sectors entry form) (hform : form.Savable) (k : ℕ)
    (slot : FormEntry) :
    slot.loaded env k entry.name (readObject sectors entry.objectBlock) =
      if env.kmallocOk k then
        if env.kmallocOk (k + 1) then
          (((slot.named entry.name).withBytes form.bytes).withOwner form.owner form.mode, k + 2)
        else (((slot.named entry.name).emptied env (k + 2)).withOwner form.owner form.mode, k + 3)
      else ((slot.named entry.name).withoutBuffer, k + 1) := by
  obtain ⟨fill, hfill, hread⟩ := h.object
  have hsize := hform.size_le
  have hbytes : (formBuffer form.content form.size form.owner form.mode fill).drop 10 =
      form.bytes := by
    have hcopy : min form.size (min 2048 (10 + form.size) - 10) = form.size := by omega
    have hlen := length_formMeta form.owner form.mode
    rw [formBuffer, ← hlen, List.drop_left, hlen, hcopy, FormEntry.bytes]
    cases hcontent : form.content with
    | some buffer => rfl
    | none =>
      have hzero := hform.bytes_eq
      rw [FormEntry.bytes, hcontent] at hzero
      have hnil : form.size = 0 := by simpa using hzero.symm
      rw [hnil]
      rfl
  have hlen : (formBuffer form.content form.size form.owner form.mode fill).length =
      10 + form.size := by
    rw [length_formBuffer form.owner form.mode form.size_le hfill]
    omega
  rw [FormEntry.loaded, hread]
  by_cases hobject : env.kmallocOk k = true
  · rw [if_pos hobject, Environment.heapBlock_of_ok hobject]
    simp only [if_true]
    rw [FormEntry.decoded]
    simp only [formFields_formBuffer hform]
    rw [if_pos hform.owner_lt]
    by_cases hcontent : env.kmallocOk (k + 1) = true
    · rw [if_pos hcontent, Environment.heapBlock_of_ok hcontent,
        List.drop_append_of_le_length (by omega), hbytes,
        List.take_append_of_le_length hform.bytes_eq.ge, List.take_of_length_le hform.bytes_eq.le]
    · rw [if_neg hcontent, Environment.heapBlock_of_not hcontent]
  · rw [if_neg hobject, Environment.heapBlock_of_not hobject]

/-- Loading leaves the slots in front alone. -/
theorem loadedTable_of_lt {reads : List (Vector UInt8 32 × Option ObjectRead)} {i j k : ℕ}
    {table : ℕ → FormEntry} (h : j < i) : (loadedTable env reads i k table).1 j = table j := by
  induction reads generalizing i k table with
  | nil => rfl
  | cons entry rest ih =>
    obtain ⟨name, read⟩ := entry
    rw [loadedTable, ih (by omega), Function.update_of_ne (by omega)]

/-- The heap serves the loading of these forms, from the k-th allocation on. Without the buffer
of a form its bytes are lost, without a buffer for its object owner and mode too. -/
def LoadsAlike (env : Environment) : ℕ → List FormEntry → Prop
  | _, [] => True
  | k, form :: forms =>
    if env.kmallocOk k then
      if env.kmallocOk (k + 1) then LoadsAlike env (k + 2) forms
      else form.size = 0 ∧ LoadsAlike env (k + 3) forms
    else (form.size = 0 ∧ form.owner = 0 ∧ form.mode = 0) ∧ LoadsAlike env (k + 1) forms

theorem loadsAlike_of_kmallocOk (hkm : env.KmallocOk) (k : ℕ) (forms : List FormEntry) :
    LoadsAlike env k forms := by
  induction forms generalizing k with
  | nil => trivial
  | cons form forms ih =>
    rw [LoadsAlike, if_pos (hkm _), if_pos (hkm _)]
    exact ih _

section Views

variable {name : Vector UInt8 32} {owner : UInt32} {mode : UInt16} {form : FormEntry}

theorem FormEntry.view_withBytes (slot : FormEntry) (bytes : List UInt8) :
    (((slot.named name).withBytes bytes).withOwner owner mode).view =
      ⟨CString.ofBytes (name.toList.take 31), bytes.length, bytes, owner, mode⟩ := by
  simp only [FormEntry.view, FormEntry.bytes, withOwner, withBytes, named, Option.getD_some,
    List.take_left]

/-- Whether there is a byte for the terminator or not. -/
theorem FormEntry.view_emptied_zero (k : ℕ) :
    (((FormEntry.zero.named name).emptied env k).withOwner owner mode).view =
      ⟨CString.ofBytes (name.toList.take 31), 0, [], owner, mode⟩ := by
  rw [FormEntry.emptied]
  cases env.heapBlock k 1 with
  | none => rfl
  | some fill => rfl

theorem FormEntry.view_withoutBuffer_zero :
    ((FormEntry.zero.named name).withoutBuffer).view =
      ⟨CString.ofBytes (name.toList.take 31), 0, [], 0, 0⟩ := rfl

/-- A form without bytes looks like its owner and mode. -/
theorem FormEntry.empty_view_iff (h : form.bytes.length = form.size) :
    (⟨form.name, 0, [], owner, mode⟩ : FormView) = form.view ↔
      form.size = 0 ∧ form.owner = owner ∧ form.mode = mode := by
  simp only [FormEntry.view, FormView.mk.injEq, true_and]
  constructor
  · rintro ⟨hsize, _, howner, hmode⟩
    exact ⟨hsize.symm, howner.symm, hmode.symm⟩
  · rintro ⟨hsize, howner, hmode⟩
    rw [hsize, List.length_eq_zero_iff] at h
    exact ⟨hsize.symm, h.symm, howner.symm, hmode.symm⟩

end Views

/-- Stored forms are loaded in order, and look like what was saved exactly if the heap serves
them. -/
theorem loadedTable_view_iff {sectors : UInt32 → Sector} {entries : List HexafsAbsEntry}
    {forms : List FormEntry} (h : List.Forall₂ (FormStored sectors) entries forms)
    (hforms : ∀ form ∈ forms, form.Savable) (i k : ℕ) {table : ℕ → FormEntry}
    (hzero : ∀ j, i ≤ j → table j = FormEntry.zero) :
    (List.range' i entries.length).map (fun j => ((loadedTable env (entries.map fun e =>
      (e.name, readObject sectors e.objectBlock)) i k table).1 j).view) =
        forms.map FormEntry.view ↔ LoadsAlike env k forms := by
  induction h generalizing i k table with
  | nil => exact iff_of_true rfl trivial
  | @cons entry form entries forms hhead _ ih =>
    have hform := hforms _ List.mem_cons_self
    have hname := hhead.named hform
    have hrest := fun k' slot => @ih (fun form hmem => hforms form (List.mem_cons_of_mem _ hmem))
      (i + 1) k' (Function.update table i slot) fun j hj => by
        rw [Function.update_of_ne (by omega), hzero j (by omega)]
    rw [List.length_cons, List.range'_succ, List.map_cons, List.map_cons, List.map_cons,
      loadedTable, loadedTable_of_lt (Nat.lt_succ_self i), Function.update_self,
      hzero i (Nat.le_refl i), hhead.loaded_eq hform, List.cons.injEq, LoadsAlike]
    by_cases hobject : env.kmallocOk k = true
    · by_cases hcontent : env.kmallocOk (k + 1) = true
      · simp only [if_pos hobject, if_pos hcontent, hrest, FormEntry.view_withBytes, hname,
          hform.bytes_eq]
        exact and_iff_right rfl
      · simp only [if_pos hobject, if_neg hcontent, hrest, FormEntry.view_emptied_zero, hname,
          FormEntry.empty_view_iff hform.bytes_eq, and_true]
    · simp only [if_neg hobject, hrest, FormEntry.view_withoutBuffer_zero, hname,
        FormEntry.empty_view_iff hform.bytes_eq]

end Forms

end HexaOS.Hexafs
