import HexaOS.HexafsObjectReads

/-!
# Any number of objects, written again and again

Every object owns its header block and its content blocks. A new object takes a free block; a
rewrite uses the blocks that the object has and takes free ones for the rest; a shorter rewrite
drops blocks but leaves them marked in the bitmap. So no two objects ever share a block, and a
write to one object leaves the blocks of every other as they were.
-/

namespace HexaOS.Hexafs

open DevicePrograms PackedBytes StoreTyping

/-- An object made by hexafs_object_alloc, with the data last written to it. -/
structure StoredObject where
  /-- The block that hexafs_object_alloc returned. -/
  block : UInt32
  /-- The type it was given. -/
  type : UInt8
  /-- The data of the last hexafs_object_write_data. -/
  data : List UInt8

/-- What hexafs_object_read_data should answer. -/
def StoredObject.answer (object : StoredObject) : ObjectRead :=
  ⟨true, object.type, UInt32.ofNat object.data.length, object.data⟩

/-- The machines that calls on any number of objects lead to, with the objects. Every call
succeeds. -/
inductive ObjectRun (env : Environment) (start : Machine) : Machine → List StoredObject → Prop
  where
  /-- No object is made yet. -/
  | start : ObjectRun env start start []
  /-- hexafs_object_alloc -/
  | alloc {machine machine' : Machine} {objects : List StoredObject} {type : UInt8}
      {block : UInt32} (before : ObjectRun env start machine objects)
      (hrun : machine.run env (hexafsObjectAlloc type) = .ok (block, machine'))
      (hblock : block ≠ 0) : ObjectRun env start machine' (objects ++ [⟨block, type, []⟩])
  /-- hexafs_object_write_data -/
  | write {machine machine' : Machine} {objects : List StoredObject} {index : ℕ}
      {object : StoredObject} {data : List UInt8} (before : ObjectRun env start machine objects)
      (hobject : objects[index]? = some object) (hdata : data.length ≤ 2048)
      (hrun : machine.run env (hexafsObjectWriteData object.block data) = .ok (true, machine')) :
      ObjectRun env start machine' (objects.set index { object with data := data })
  /-- hexafs_object_read_data -/
  | read {machine machine' : Machine} {objects : List StoredObject} {object : StoredObject}
      {answer : Option ObjectRead} (before : ObjectRun env start machine objects)
      (hobject : object ∈ objects)
      (hrun : machine.run env (hexafsObjectReadData object.block) = .ok (answer, machine')) :
      ObjectRun env start machine' objects

/-- What the objects owe: every read answers what was last written, and an allocation or a
write fails only for want of free blocks. -/
structure ObjectsExact (env : Environment) (machine : Machine) (objects : List StoredObject) :
    Prop where
  /-- Every object reads as it was written. -/
  reads : ∀ object ∈ objects, (hexafsObjectReadData object.block).wp (cachedDevice env)
    machine.mem machine.dev fun answer _ _ => answer = some object.answer
  /-- An object is made while a block is free. -/
  allocs : 0 < machine.mem.allocator.freeCount → ∀ type, (hexafsObjectAlloc type).wp
    (cachedDevice env) machine.mem machine.dev fun block _ _ => block ≠ 0
  /-- A write succeeds while the blocks suffice. -/
  writes : ∀ object ∈ objects, ∀ data : List UInt8, data.length ≤ 2048 →
    blocksFor data.length - blocksFor object.data.length ≤ machine.mem.allocator.freeCount →
    (hexafsObjectWriteData object.block data).wp (cachedDevice env) machine.mem machine.dev
      fun ok _ _ => ok = true

/-- The blocks that an object owns. -/
def ownedBlocks (sectors : UInt32 → Sector) (block : UInt32) : List UInt32 :=
  block :: (objectAt sectors block).contents

/-- An object on the medium. -/
structure StoredObject.Held (object : StoredObject) (a : Allocator) (sectors : UInt32 → Sector) :
    Prop where
  /-- The header is in order. -/
  ok : (objectAt sectors object.block).Ok
  /-- The type is kept. -/
  type : (objectAt sectors object.block).type = object.type
  /-- Its blocks are used blocks of the area. -/
  taken : ∀ b ∈ ownedBlocks sectors object.block, InStore b ∧ a.Used b
  /-- Its blocks are different. -/
  nodup : (ownedBlocks sectors object.block).Nodup
  /-- It has the blocks that its data needs. -/
  count : (objectAt sectors object.block).contents.length = blocksFor object.data.length
  /-- It reads as its data. -/
  reads : readObject sectors object.block = some object.answer

/-- No two objects own the same block. -/
def Apart (sectors : UInt32 → Sector) (objects : List StoredObject) : Prop :=
  ∀ (i j : ℕ) (object other : StoredObject), i ≠ j → objects[i]? = some object →
    objects[j]? = some other →
      ∀ b ∈ ownedBlocks sectors object.block, b ∉ ownedBlocks sectors other.block

/-- What holds of the objects in every state of a run. -/
structure ObjectsInv (mem : Memory) (d : PlainDisk) (objects : List StoredObject) : Prop where
  /-- The hint is in range. -/
  hint : mem.allocator.HintOk
  /-- No sector is stale. -/
  stale : ∀ b, d.stale b = false
  /-- Every object is held. -/
  held : ∀ object ∈ objects, object.Held mem.allocator d.sectors
  /-- No two objects share a block. -/
  apart : Apart d.sectors objects

section Frames

variable {a a' : Allocator} {sectors sectors' : UInt32 → Sector} {object : StoredObject}

/-- An object owns the same blocks on a medium that agrees on its header. -/
theorem ownedBlocks_congr {block : UInt32} (h : sectors' block = sectors block) :
    ownedBlocks sectors' block = ownedBlocks sectors block := by
  rw [ownedBlocks, ownedBlocks, objectAt, objectAt, h]

/-- An object is held on a medium that agrees on its blocks, while blocks are taken. -/
theorem StoredObject.Held.frame (h : object.Held a sectors) {blocks : List UInt32}
    (hgrown : Grown a a' blocks)
    (hsame : ∀ b ∈ ownedBlocks sectors object.block, sectors' b = sectors b) :
    object.Held a' sectors' := by
  have hheader := hsame object.block List.mem_cons_self
  have hobject : objectAt sectors' object.block = objectAt sectors object.block := by
    rw [objectAt, objectAt, hheader]
  have howned := ownedBlocks_congr hheader
  refine ⟨hobject ▸ h.ok, hobject ▸ h.type, ?_, howned ▸ h.nodup, hobject ▸ h.count, ?_⟩
  · intro b hb
    rw [howned] at hb
    obtain ⟨hin, hused⟩ := h.taken b hb
    exact ⟨hin, hgrown.used_mono hused⟩
  · rw [readObject_congr hheader fun b hb => hsame b (List.mem_cons_of_mem _ hb)]
    exact h.reads

/-- The blocks of an object are not free. -/
theorem StoredObject.Held.not_fresh (h : object.Held a sectors) {b : UInt32}
    (hb : b ∈ ownedBlocks sectors object.block) : ¬a.Fresh b :=
  fun hfresh => hfresh.2 (h.taken b hb).2

/-- A step that stores one object, in the blocks `old` and in free ones. -/
structure Stored (a a' : Allocator) (d d' : PlainDisk) (old : List UInt32)
    (object : StoredObject) : Prop where
  /-- What was taken was free. -/
  grown : ∃ blocks, Grown a a' blocks
  /-- No sector is stale. -/
  stale : ∀ b, d'.stale b = false
  /-- Other blocks in use stay. -/
  kept : ∀ b, b ∉ old → ¬a.Fresh b → d'.sectors b = d.sectors b
  /-- The object is held. -/
  held : object.Held a' d'.sectors
  /-- Its blocks are the old ones and fresh ones. -/
  owned : ∀ b ∈ ownedBlocks d'.sectors object.block, b ∈ old ∨ a.Fresh b

/-- What a step that stores one object leaves of another. -/
theorem Stored.other {d d' : PlainDisk} {old : List UInt32} {other : StoredObject}
    (h : Stored a a' d d' old object) (hother : other.Held a d.sectors)
    (hapart : ∀ b ∈ ownedBlocks d.sectors other.block, b ∉ old) :
    other.Held a' d'.sectors ∧
      ownedBlocks d'.sectors other.block = ownedBlocks d.sectors other.block ∧
        ∀ b ∈ ownedBlocks d'.sectors object.block, b ∉ ownedBlocks d'.sectors other.block := by
  obtain ⟨blocks, hgrown⟩ := h.grown
  have hsame : ∀ b ∈ ownedBlocks d.sectors other.block, d'.sectors b = d.sectors b :=
    fun b hb => h.kept b (hapart b hb) (hother.not_fresh hb)
  have howned := ownedBlocks_congr (hsame other.block List.mem_cons_self)
  refine ⟨hother.frame hgrown hsame, howned, fun b hb hb' => ?_⟩
  rw [howned] at hb'
  rcases h.owned b hb with hold | hfresh
  · exact hapart b hb' hold
  · exact hother.not_fresh hb' hfresh

/-- The objects after a step that stores one of them, at `index`. -/
theorem ObjectsInv.stored {mem mem' : Memory} {d d' : PlainDisk}
    {objects objects' : List StoredObject} {old : List UInt32} (index : ℕ)
    (h : ObjectsInv mem d objects)
    (hstored : Stored mem.allocator mem'.allocator d d' old object)
    (hfree : ∀ (j : ℕ) (other : StoredObject), j ≠ index → objects[j]? = some other →
      ∀ b ∈ ownedBlocks d.sectors other.block, b ∉ old)
    (hcases : ∀ {k : ℕ} {found : StoredObject}, objects'[k]? = some found →
      (k ≠ index ∧ objects[k]? = some found) ∨ (k = index ∧ found = object)) :
    ObjectsInv mem' d' objects' := by
  have hother : ∀ j other, j ≠ index → objects[j]? = some other →
      other.Held mem'.allocator d'.sectors ∧
        ownedBlocks d'.sectors other.block = ownedBlocks d.sectors other.block ∧
          ∀ b ∈ ownedBlocks d'.sectors object.block, b ∉ ownedBlocks d'.sectors other.block :=
    fun j other hne hj => hstored.other (h.held other (List.mem_of_getElem? hj))
      (hfree j other hne hj)
  obtain ⟨blocks, hgrown⟩ := hstored.grown
  refine ⟨hgrown.hint, hstored.stale, fun other hmem => ?_, fun i j one other hne hone hmem => ?_⟩
  · have ⟨k, hk⟩ := List.getElem?_of_mem hmem
    rcases hcases hk with ⟨hne, hfound⟩ | ⟨-, rfl⟩
    · exact (hother k other hne hfound).1
    · exact hstored.held
  · intro b hb hb'
    rcases hcases hone with ⟨hi, hone⟩ | ⟨hi, rfl⟩
    · have hheld := hother i one hi hone
      rcases hcases hmem with ⟨hj, hmem⟩ | ⟨hj, rfl⟩
      · rw [hheld.2.1] at hb
        rw [(hother j other hj hmem).2.1] at hb'
        exact h.apart i j one other hne hone hmem b hb hb'
      · exact hheld.2.2 b hb' hb
    · rcases hcases hmem with ⟨hj, hmem⟩ | ⟨hj, rfl⟩
      · exact (hother j other hj hmem).2.2 b hb hb'
      · exact hne (hi.trans hj.symm)

/-- The objects after one more is made. -/
theorem ObjectsInv.made {mem mem' : Memory} {d d' : PlainDisk} {objects : List StoredObject}
    (h : ObjectsInv mem d objects)
    (hstored : Stored mem.allocator mem'.allocator d d' [] object) :
    ObjectsInv mem' d' (objects ++ [object]) := by
  refine ObjectsInv.stored objects.length h hstored (fun _ _ _ _ _ _ => List.not_mem_nil) ?_
  intro k found hfound
  rw [List.getElem?_append] at hfound
  split at hfound
  · rename_i hlt
    exact .inl ⟨by omega, hfound⟩
  · have ⟨hk, heq⟩ := List.getElem?_eq_some_iff.mp hfound
    rw [List.length_singleton] at hk
    rw [List.getElem_singleton] at heq
    exact .inr ⟨by omega, heq.symm⟩

/-- The objects after one is rewritten. -/
theorem ObjectsInv.rewritten {mem mem' : Memory} {d d' : PlainDisk}
    {objects : List StoredObject} {index : ℕ} {old : StoredObject} (h : ObjectsInv mem d objects)
    (hold : objects[index]? = some old)
    (hstored : Stored mem.allocator mem'.allocator d d' (ownedBlocks d.sectors old.block)
      object) :
    ObjectsInv mem' d' (objects.set index object) := by
  refine h.stored index hstored (fun j other hne hj b hb =>
    h.apart j index other old hne hj hold b hb) ?_
  intro k found hfound
  by_cases hk : k = index
  · rw [hk, List.getElem?_set_self (List.getElem?_eq_some_iff.mp hold).1] at hfound
    exact .inr ⟨hk, (Option.some.inj hfound).symm⟩
  · rw [List.getElem?_set_ne (Ne.symm hk)] at hfound
    exact .inl ⟨hk, hfound⟩

end Frames

section Steps

variable {env : Environment} {mem : Memory} {d : PlainDisk}

/-- A new object holds nothing. -/
theorem newObject_held {sectors : UInt32 → Sector} {a : Allocator} {block : UInt32} {type : UInt8}
    {timestamp : UInt32} (hobject : objectAt sectors block = newObject type timestamp)
    (hin : InStore block) (hused : a.Used block) :
    StoredObject.Held ⟨block, type, []⟩ a sectors := by
  have hok : (objectAt sectors block).Ok := hobject ▸ newObject_ok type timestamp
  have howned : ownedBlocks sectors block = [block] := by
    rw [ownedBlocks, hobject, newObject_contents]
  refine ⟨hok, ?_, ?_, ?_, ?_, ?_⟩
  · rw [hobject]
    rfl
  · intro b hb
    rw [howned] at hb
    rw [List.mem_singleton.mp hb]
    exact ⟨hin, hused⟩
  · rw [howned]
    exact List.nodup_singleton block
  · rw [hobject, newObject_contents]
    exact (Nat.div_eq_of_lt (by decide : 511 < 512)).symm
  · rw [readObject_of_ok hok, hobject]
    rfl

/-- hexafs_object_alloc makes an object, unless no block is free. -/
theorem hexafsObjectAlloc_stored {type : UInt8} (hok : env.WritesOk)
    (hhint : mem.allocator.HintOk) (hstale : ∀ b, d.stale b = false) :
    (hexafsObjectAlloc type).wp (plainDevice env) mem d fun block mem' d' =>
      (∀ b, d'.stale b = false) ∧
        ((block = 0 ∧ mem.allocator.freeCount = 0) ∨
          (block ≠ 0 ∧ Stored mem.allocator mem'.allocator d d' [] ⟨block, type, []⟩)) := by
  refine hexafsObjectAlloc_spec hhint (fun hfree => ⟨hstale, .inl ⟨rfl, hfree⟩⟩)
    (fun b a' _ _ hbad => absurd hok hbad) fun b a' hgrown _ _ => ?_
  have hmem := List.mem_singleton_self b
  have hfresh := hgrown.fresh b hmem
  have hreach := PlainDisk.write_reaches (d := d.write env b zeroSector) b
    (toBlock 512 (newObject type mem.sbCache.timestamp)) (hok.reaches _)
  have hwrote : Wrote env (· = b) d ((d.write env b zeroSector).write env b
      (toBlock 512 (newObject type mem.sbCache.timestamp))) :=
    PlainDisk.wrote_write.write rfl
  have hstale' := hwrote.stale_le hok hstale
  have hobject : objectAt ((d.write env b zeroSector).write env b
      (toBlock 512 (newObject type mem.sbCache.timestamp))).sectors b =
        newObject type mem.sbCache.timestamp := by
    rw [objectAt, hreach.1, ofBlock_toBlock]
  have hheld := newObject_held (a := a') hobject hfresh.1 (hgrown.used_of_mem hmem)
  refine ⟨hstale', .inr ⟨hfresh.1.ne_zero, ⟨[b], hgrown⟩, hstale', ?_, hheld, ?_⟩⟩
  · intro c _ hnot
    exact hwrote.sectors_eq fun heq => hnot (heq ▸ hfresh)
  · intro c hc
    rw [ownedBlocks, hobject, newObject_contents] at hc
    rw [List.mem_singleton.mp hc]
    exact .inr hfresh

/-- hexafs_object_write_data stores the data, unless too few blocks are free. -/
theorem hexafsObjectWriteData_stored {object : StoredObject} {data : List UInt8}
    (hok : env.WritesOk) (h : object.Held mem.allocator d.sectors)
    (hhint : mem.allocator.HintOk) (hstale : ∀ b, d.stale b = false) (hdata : data.length ≤ 2048) :
    (hexafsObjectWriteData object.block data).wp (plainDevice env) mem d fun ok mem' d' =>
      (∀ b, d'.stale b = false) ∧
        ((ok = false ∧
            mem.allocator.freeCount < blocksFor data.length - blocksFor object.data.length) ∨
          (ok = true ∧ Stored mem.allocator mem'.allocator d d'
            (ownedBlocks d.sectors object.block) { object with data := data })) := by
  have hnodup := List.nodup_cons.mp h.nodup
  have hcontents : ∀ b ∈ (objectAt d.sectors object.block).contents,
      InStore b ∧ mem.allocator.Used b := fun b hb => h.taken b (List.mem_cons_of_mem _ hb)
  have ⟨hin, hused⟩ := h.taken object.block List.mem_cons_self
  have hsafe : ObjectSafe mem.allocator d object.block :=
    { ok := h.ok
      inStore := hin
      stale := hstale object.block
      contents := fun b hb => ⟨(hcontents b hb).1, (hcontents b hb).2, fun heq =>
        hnodup.1 (heq ▸ hb)⟩
      used := hused
      nodup := hnodup.2 }
  refine hexafsObjectWriteData_spec hsafe hhint hdata (fun d' _ hbad => absurd hok hbad)
    (fun a' d' hwritten => ?_) fun fresh a' d' hwritten => ?_
  · have ⟨_, hneed, _⟩ := hwritten.full hok
    rw [h.count] at hneed
    exact ⟨hwritten.wrote.stale_le hok hstale, .inl ⟨rfl, hneed⟩⟩
  · obtain ⟨hgrown, hslots⟩ := hwritten.slotsStored hcontents hnodup.2
    set slots := (objectAt d.sectors object.block).contents.take (blocksFor data.length) ++ fresh
    set header := (objectAt d.sectors object.block).withContent
      (slots ++ List.replicate (4 - blocksFor data.length) 0) data
    have hslot : ∀ b ∈ slots, b ∈ (objectAt d.sectors object.block).contents ∨
        mem.allocator.Fresh b := by
      intro b hb
      rcases List.mem_append.mp hb with hkept | hnew
      · exact .inl (List.mem_of_mem_take hkept)
      · exact .inr (hgrown.fresh b hnew)
    have hnot : object.block ∉ slots := by
      intro hb
      rcases hslot _ hb with hold | hfresh
      · exact hnodup.1 hold
      · exact hfresh.2 hused
    have hreach := PlainDisk.write_reaches (d := d') object.block (toBlock 512 header)
      (hok.reaches _)
    have hsame : slots.map (d'.write env object.block (toBlock 512 header)).sectors =
        slots.map d'.sectors :=
      List.map_congr_left fun b hb => PlainDisk.write_sectors_of_ne fun heq => hnot (heq ▸ hb)
    obtain ⟨hheader, hread, hanswer⟩ := readObject_withContent h.ok.magic hdata hslots.length_eq
      (fun hzero => (hslots.inStore 0 hzero).1.ne_zero rfl) (hsame.trans hslots.stored) hreach.1
    have hwrote : Wrote env (fun b => b ∈ ownedBlocks d.sectors object.block ∨
        mem.allocator.Fresh b) d (d'.write env object.block (toBlock 512 header)) :=
      (hwritten.wrote.mono fun b hb => hb.imp_left (List.mem_cons_of_mem _)).write
        (.inl List.mem_cons_self)
    have hstale' := hwrote.stale_le hok hstale
    have howned : ownedBlocks (d'.write env object.block (toBlock 512 header)).sectors
        object.block = object.block :: slots := by
      rw [ownedBlocks, hread]
    rw [hok.returns]
    refine ⟨hstale', .inr ⟨rfl, ⟨fresh, hgrown⟩, hstale', ?_, ?_, ?_⟩⟩
    · intro b hold hnew
      exact hwrote.sectors_eq fun hb => hb.elim hold hnew
    · refine ⟨hheader, ?_, ?_, ?_, ?_, ?_⟩
      · rw [objectAt, hreach.1, ofBlock_toBlock]
        exact h.type
      · intro b hb
        rw [howned] at hb
        rcases List.mem_cons.mp hb with hblock | hslots'
        · rw [hblock]
          exact ⟨hin, hgrown.used_mono hused⟩
        · exact hslots.inStore b hslots'
      · rw [howned]
        exact List.nodup_cons.mpr ⟨hnot, hslots.nodup⟩
      · rw [hread]
        exact hslots.length_eq
      · rw [hanswer, StoredObject.answer, h.type]
    · intro b hb
      rw [howned] at hb
      rcases List.mem_cons.mp hb with hblock | hslots'
      · rw [hblock]
        exact .inl List.mem_cons_self
      · exact (hslot b hslots').imp_left (List.mem_cons_of_mem _)

/-- hexafs_object_read_data answers what the object holds. -/
theorem hexafsObjectReadData_held {object : StoredObject}
    (h : object.Held mem.allocator d.sectors) (hstale : ∀ b, d.stale b = false) :
    (hexafsObjectReadData object.block).wp (plainDevice env) mem d fun answer mem' d' =>
      answer = some object.answer ∧ mem' = mem ∧ d' = d := by
  have hvalid : ∀ b ∈ ownedBlocks d.sectors object.block, ValidLba b ∧ d.stale b = false :=
    fun b hb => ⟨(h.taken b hb).1.valid, hstale b⟩
  have hheader := hvalid object.block List.mem_cons_self
  exact hexafsObjectReadData_spec hheader.1 hheader.2
    (fun b hb => hvalid b (List.mem_cons_of_mem _ hb)) ⟨h.reads, rfl, rfl⟩

end Steps

section Runs

variable {env : Environment} {start machine : Machine} {objects : List StoredObject}

/-- The machine of a run agrees with its disk and holds its objects. -/
theorem ObjectRun.inv (hio : env.IoOk) (hcoherent : start.dev.Coherent)
    (hhint : start.mem.allocator.HintOk) (h : ObjectRun env start machine objects) :
    machine.dev.Coherent ∧ ObjectsInv machine.mem machine.dev.plain objects := by
  induction h with
  | start =>
    exact ⟨hcoherent, hhint, fun _ => rfl, nofun, fun i j one other _ hone => nomatch hone⟩
  | alloc before hrun hblock ih =>
    have ⟨hcoh, hinv⟩ := ih
    obtain ⟨hcoh', -, hcase⟩ := Machine.run_elim hio.reads hcoh
      (hexafsObjectAlloc_stored hio.writes hinv.hint hinv.stale) (fun _ _ _ hpost => hpost.1) hrun
    rcases hcase with ⟨hzero, -⟩ | ⟨-, hstored⟩
    · exact absurd hzero hblock
    · exact ⟨hcoh', hinv.made hstored⟩
  | write before hobject hdata hrun ih =>
    have ⟨hcoh, hinv⟩ := ih
    have hheld := hinv.held _ (List.mem_of_getElem? hobject)
    obtain ⟨hcoh', -, hcase⟩ := Machine.run_elim hio.reads hcoh
      (hexafsObjectWriteData_stored hio.writes hheld hinv.hint hinv.stale hdata)
      (fun _ _ _ hpost => hpost.1) hrun
    rcases hcase with ⟨hfailed, -⟩ | ⟨-, hstored⟩
    · exact nomatch hfailed
    · exact ⟨hcoh', hinv.rewritten hobject hstored⟩
  | read before hobject hrun ih =>
    have ⟨hcoh, hinv⟩ := ih
    obtain ⟨hcoh', -, hmem, hplain⟩ := Machine.run_elim hio.reads hcoh
      (hexafsObjectReadData_held (hinv.held _ hobject) hinv.stale)
      (fun _ _ d hpost b => by rw [hpost.2.2]; rfl) hrun
    rw [hmem, hplain]
    exact ⟨hcoh', hinv⟩

/-- A run on the plain disk whose result does not depend on the disk is a run of the machine. -/
theorem wp_cached {α : Type} (hio : env.IoOk) (hcoherent : machine.dev.Coherent)
    {code : HexafsM α} {post : α → Prop}
    (h : code.wp (plainDevice env) machine.mem machine.dev.plain fun value _ _ => post value) :
    code.wp (cachedDevice env) machine.mem machine.dev fun value _ _ => post value :=
  Code.wp_mono (Code.wp_simulates (cachedDevice_simulates hio.reads) hcoherent.simulates h)
    fun _ _ _ hpost => hpost.choose_spec.2

/-- The law of the objects, from what holds of them. -/
theorem ObjectsInv.exact (hio : env.IoOk) (hcoherent : machine.dev.Coherent)
    (h : ObjectsInv machine.mem machine.dev.plain objects) :
    ObjectsExact env machine objects where
  reads object hobject := by
    refine wp_cached hio hcoherent (Code.wp_mono
      (hexafsObjectReadData_held (h.held object hobject) h.stale) ?_)
    intro answer mem' d' hpost
    exact hpost.1
  allocs hfree type := by
    refine wp_cached hio hcoherent (Code.wp_mono
      (hexafsObjectAlloc_stored hio.writes h.hint h.stale) ?_)
    intro block mem' d' hpost
    rcases hpost.2 with ⟨-, hnone⟩ | ⟨hblock, -⟩
    · exact absurd hnone (Nat.ne_of_gt hfree)
    · exact hblock
  writes object hobject data hdata hfree := by
    refine wp_cached hio hcoherent (Code.wp_mono (hexafsObjectWriteData_stored hio.writes
      (h.held object hobject) h.hint h.stale hdata) ?_)
    intro ok mem' d' hpost
    rcases hpost.2 with ⟨-, hfew⟩ | ⟨hok, -⟩
    · exact absurd hfree (Nat.not_le_of_gt hfew)
    · exact hok

/-- From any machine whose cache agrees with its disk, any number of objects are made, written
and read in any order, and no call fails. Then every object reads as its type and exactly what
was last written to it, and allocations and writes go on to succeed while blocks are free. -/
theorem objectRun_exact (hio : env.IoOk) (hcoherent : start.dev.Coherent)
    (hhint : start.mem.allocator.HintOk) (hrun : ObjectRun env start machine objects) :
    ObjectsExact env machine objects := by
  have ⟨hcoherent', hinv⟩ := hrun.inv hio hcoherent hhint
  exact hinv.exact hio hcoherent'

/-- Can a form of 600 bytes be written and then rewritten with 3? -/
def rewritesForm (block : UInt32) (machine : Machine) : Bool :=
  block != 0 &&
    testRun (fun ok machine' => ok && testRun (fun ok' _ => ok')
      (machine'.run .faultless (hexafsObjectWriteData block [1, 2, 3])))
      (machine.run .faultless (hexafsObjectWriteData block (List.replicate 600 7)))

/-- A form on a new store, written with 600 bytes and rewritten with 3. -/
theorem objectRun_exact_rewritten : ∃ start machine block,
    (Machine.boot blankDisk).run .faultless hexafsMount = .ok (true, start) ∧
      ObjectRun .faultless start machine [⟨block, hexafsForm, [1, 2, 3]⟩] ∧
        ObjectsExact .faultless machine [⟨block, hexafsForm, [1, 2, 3]⟩] := by
  have hio := Environment.faultless_ioOk
  obtain ⟨start, roles, hmount, hfresh⟩ := exists_fresh
  have hstore := hfresh.settled.mounted
  have htest : testRun (fun _ mounted => testRun rewritesForm
      (mounted.run .faultless (hexafsObjectAlloc hexafsForm)))
      ((Machine.boot blankDisk).run .faultless hexafsMount) = true := by decide +kernel
  rw [hmount] at htest
  have hmakes : testRun rewritesForm
      (start.run .faultless (hexafsObjectAlloc hexafsForm)) = true := htest
  obtain ⟨block, made, hmade, hrewrites⟩ := exists_of_testRun hmakes
  rw [rewritesForm, Bool.and_eq_true, bne_iff_ne] at hrewrites
  obtain ⟨ok, written, hwritten, hagain⟩ := exists_of_testRun hrewrites.2
  rw [Bool.and_eq_true] at hagain
  obtain ⟨ok', machine, hrewritten, hok'⟩ := exists_of_testRun hagain.2
  rw [hagain.1] at hwritten
  rw [hok'] at hrewritten
  have hfirst : ∀ object : StoredObject, [object][0]? = some object := fun _ => rfl
  have hempty : ObjectRun .faultless start made [⟨block, hexafsForm, []⟩] :=
    ObjectRun.start.alloc hmade hrewrites.1
  have hlong : ObjectRun .faultless start written [⟨block, hexafsForm, List.replicate 600 7⟩] :=
    hempty.write (hfirst _) (by rw [List.length_replicate]; decide) hwritten
  have hrun : ObjectRun .faultless start machine [⟨block, hexafsForm, [1, 2, 3]⟩] :=
    hlong.write (hfirst _) (show [1, 2, 3].length ≤ 2048 by decide) hrewritten
  exact ⟨start, machine, block, hmount, hrun,
    objectRun_exact hio hstore.coherent hstore.store.hint hrun⟩

end Runs

end HexaOS.Hexafs
