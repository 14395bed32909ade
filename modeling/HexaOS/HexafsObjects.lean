import HexaOS.HexafsAllocator
import HexaOS.HexafsEncoding

/-!
# Objects on the plain disk

An object is a header with up to four content blocks. Reading an object is a
function of the medium; writing reuses the content blocks that the header names,
in place and in order, and allocates the missing ones. The specifications say
which writes that takes and what is read back.
-/

namespace HexaOS.Hexafs

open DevicePrograms PackedBytes StoreTyping

/-- The object header in a sector. -/
def objectAt (sectors : UInt32 → Sector) (block : UInt32) : HexafsObject :=
  ofBlock HexafsObject (sectors block)

/-- The content loop of hexafs_object_read_data, on a medium that never fails. -/
def readSlots (sectors : UInt32 → Sector) : List UInt32 → ℕ → List UInt8
  | [], _ => []
  | db :: rest, remaining =>
    if remaining = 0 ∨ db = 0 then []
    else
      (sectors db).bytes.take (min remaining 512) ++
        readSlots sectors rest (remaining - min remaining 512)

/-- hexafs_object_read_data, on a medium that never fails. -/
def readObject (sectors : UInt32 → Sector) (block : UInt32) : Option ObjectRead :=
  let obj := objectAt sectors block
  if objMagicOk obj then
    if obj.contentBlock ≠ 0 ∧ 0 < obj.contentSize.toNat then
      some ⟨true, obj.type, obj.contentSize,
        readSlots sectors obj.slots obj.contentSize.toNat⟩
    else some ⟨true, obj.type, obj.contentSize, []⟩
  else none

/-- The content blocks that a header names: its slots as far as the first zero. -/
def HexafsObject.contents (obj : HexafsObject) : List UInt32 := obj.slots.takeWhile (· ≠ 0)

/-- A header that the code of the store may have written: its slots have no gap
and hold as many bytes as the header counts. -/
structure HexafsObject.Ok (obj : HexafsObject) : Prop where
  /-- The magic number is right. -/
  magic : objMagicOk obj = true
  /-- The slots are the blocks, and zeros behind them. -/
  slots_eq : obj.slots = obj.contents ++ List.replicate (4 - obj.contents.length) 0
  /-- The size fits the blocks. -/
  size_le : obj.contentSize.toNat ≤ 512 * obj.contents.length

/-- The sectors that hold consecutive data. -/
def contentSectors : ℕ → List UInt8 → List Sector
  | 0, _ => []
  | n + 1, data => padBlock 512 data :: contentSectors n (data.drop 512)

@[simp] theorem length_contentSectors (n : ℕ) (data : List UInt8) :
    (contentSectors n data).length = n := by
  induction n generalizing data with
  | zero => rfl
  | succ n ih => rw [contentSectors, List.length_cons, ih]

theorem contentSectors_add (n m : ℕ) (data : List UInt8) :
    contentSectors (n + m) data = contentSectors n data ++ contentSectors m (data.drop (512 * n)) := by
  induction n generalizing data with
  | zero => simp [contentSectors]
  | succ n ih =>
    rw [Nat.add_right_comm, contentSectors, ih, contentSectors, List.cons_append, List.drop_drop,
      Nat.mul_succ, Nat.add_comm 512]

theorem length_slots (obj : HexafsObject) : obj.slots.length = 4 := by
  simp [HexafsObject.slots]

theorem length_contents_le (obj : HexafsObject) : obj.contents.length ≤ 4 := by
  rw [← length_slots obj]
  exact (List.takeWhile_sublist _).length_le

theorem ne_zero_of_mem_contents {obj : HexafsObject} {b : UInt32} (h : b ∈ obj.contents) :
    b ≠ 0 := by
  have hall : (obj.contents.all fun x => decide (x ≠ 0)) = true := List.all_takeWhile
  simpa using List.all_eq_true.mp hall b h

section Reading

variable {sectors sectors' : UInt32 → Sector}

/-- Reading stops at the first zero slot. -/
theorem readSlots_takeWhile (sectors : UInt32 → Sector) (slots : List UInt32) (remaining : ℕ) :
    readSlots sectors slots remaining =
      readSlots sectors (slots.takeWhile (· ≠ 0)) remaining := by
  induction slots generalizing remaining with
  | nil => rfl
  | cons db rest ih =>
    by_cases hdb : db = 0
    · simp [readSlots, hdb]
    · rw [List.takeWhile_cons_of_pos (by simpa using hdb), readSlots, readSlots, ih]

/-- Only the sectors of the slots matter. -/
theorem readSlots_congr {slots : List UInt32} (h : ∀ b ∈ slots, sectors' b = sectors b)
    (remaining : ℕ) : readSlots sectors' slots remaining = readSlots sectors slots remaining := by
  induction slots generalizing remaining with
  | nil => rfl
  | cons db rest ih =>
    rw [readSlots, readSlots, h db List.mem_cons_self,
      ih fun b hb => h b (List.mem_cons_of_mem _ hb)]

/-- As many bytes as the blocks hold are read. -/
theorem length_readSlots {slots : List UInt32} (hzero : 0 ∉ slots) {remaining : ℕ}
    (h : remaining ≤ 512 * slots.length) :
    (readSlots sectors slots remaining).length = remaining := by
  induction slots generalizing remaining with
  | nil =>
    rw [List.length_nil] at h
    simp only [readSlots, List.length_nil]
    omega
  | cons db rest ih =>
    have hdb : db ≠ 0 := fun heq => hzero (heq ▸ List.mem_cons_self)
    have hlen := (sectors db).length_bytes
    rw [List.length_cons] at h
    by_cases hrem : remaining = 0
    · simp [readSlots, hrem]
    · rw [readSlots, if_neg (by simp only [hrem, hdb, or_self, not_false_iff]), List.length_append,
        List.length_take, hlen, ih (fun hm => hzero (List.mem_cons_of_mem _ hm)) (by omega)]
      omega

/-- Stored data is read back. -/
theorem readSlots_contentSectors {slots : List UInt32} (hzero : 0 ∉ slots) {data : List UInt8}
    (hstored : slots.map sectors = contentSectors slots.length data)
    (h : data.length ≤ 512 * slots.length) :
    readSlots sectors slots data.length = data := by
  induction slots generalizing data with
  | nil =>
    rw [List.length_nil] at h
    have hnil : data = [] := List.length_eq_zero_iff.mp (by omega)
    rw [hnil, readSlots]
  | cons db rest ih =>
    have hdb : db ≠ 0 := fun heq => hzero (heq ▸ List.mem_cons_self)
    rw [List.map_cons, List.length_cons, contentSectors, List.cons.injEq] at hstored
    rw [List.length_cons] at h
    by_cases hlen : data.length = 0
    · rw [List.length_eq_zero_iff.mp hlen]
      simp [readSlots]
    · have hrest := ih (fun hm => hzero (List.mem_cons_of_mem _ hm)) hstored.2
        (by rw [List.length_drop]; omega)
      rw [List.length_drop] at hrest
      have hsub : data.length - min data.length 512 = data.length - 512 := by omega
      rw [readSlots, if_neg (by simp only [hlen, hdb, or_self, not_false_iff]), hstored.1,
        take_padBlock _ (Nat.min_le_left _ _) (Nat.min_le_right _ _), hsub, hrest]
      rcases Nat.le_total data.length 512 with hle | hle
      · rw [Nat.min_eq_left hle, List.take_length, List.drop_of_length_le hle, List.append_nil]
      · rw [Nat.min_eq_right hle, List.take_append_drop]

theorem HexafsObject.contents_eq_nil {obj : HexafsObject} (h : obj.contentBlock = 0) :
    obj.contents = [] := by
  simp [contents, slots, h]

/-- What an admissible header reads as. -/
theorem readObject_of_ok {block : UInt32} (h : (objectAt sectors block).Ok) :
    readObject sectors block =
      some ⟨true, (objectAt sectors block).type, (objectAt sectors block).contentSize,
        readSlots sectors (objectAt sectors block).contents
          (objectAt sectors block).contentSize.toNat⟩ := by
  rw [readObject, if_pos h.magic]
  split
  · rw [readSlots_takeWhile]
    rfl
  · rename_i hnot
    have hsize : (objectAt sectors block).contentSize.toNat = 0 := by
      by_contra hne
      have hblock : (objectAt sectors block).contentBlock = 0 := by
        by_contra hb
        exact hnot ⟨hb, by omega⟩
      have hle := h.size_le
      rw [HexafsObject.contents_eq_nil hblock, List.length_nil] at hle
      omega
    have hnil : ∀ slots, readSlots sectors slots 0 = [] := by
      intro slots
      cases slots <;> simp [readSlots]
    rw [hsize, hnil]

/-- An admissible object yields as many bytes as its header counts. -/
theorem length_bytes_readObject {block : UInt32} (h : (objectAt sectors block).Ok)
    {read : ObjectRead} (hread : readObject sectors block = some read) :
    read.bytes.length = read.size.toNat ∧ read.ok = true ∧ read.size.toNat ≤ 2048 := by
  rw [readObject_of_ok h] at hread
  obtain rfl := Option.some.inj hread
  have hlen := length_contents_le (objectAt sectors block)
  have hsize := h.size_le
  refine ⟨length_readSlots (fun hm => ne_zero_of_mem_contents hm rfl) hsize, rfl, ?_⟩
  dsimp only
  omega

/-- Reading an object depends on its header and its content blocks. -/
theorem readObject_congr {block : UInt32} (hblock : sectors' block = sectors block)
    (h : ∀ b ∈ (objectAt sectors block).contents, sectors' b = sectors b) :
    readObject sectors' block = readObject sectors block := by
  have hobj : objectAt sectors' block = objectAt sectors block := by
    rw [objectAt, objectAt, hblock]
  have hslots : ∀ n, readSlots sectors' (objectAt sectors block).slots n =
      readSlots sectors (objectAt sectors block).slots n := by
    intro n
    rw [readSlots_takeWhile sectors', readSlots_takeWhile sectors]
    exact readSlots_congr h n
  rw [readObject, readObject, hobj, hslots]

end Reading

section Encoding

variable {obj : HexafsObject} {contents : List UInt32} {data : List UInt8}

/-- The slots after hexafs_object_write_data. -/
theorem slots_withContent (hlen : contents.length ≤ 4) :
    (obj.withContent (contents ++ List.replicate (4 - contents.length) 0) data).slots =
      contents ++ List.replicate (4 - contents.length) 0 := by
  have hget : ∀ slots : List UInt32, slots.length = 4 →
      [slots.getD 0 0, slots.getD 1 0, slots.getD 2 0, slots.getD 3 0] = slots := by
    intro slots hslots
    match slots, hslots with
    | [_, _, _, _], _ => rfl
  exact hget _ (by simp; omega)

theorem takeWhile_append_zeros (hzero : 0 ∉ contents) (n : ℕ) :
    (contents ++ List.replicate n 0).takeWhile (· ≠ 0) = contents := by
  rw [List.takeWhile_append_of_pos]
  · cases n <;> simp [List.replicate_succ]
  · intro b hb
    have hne : b ≠ 0 := fun h => hzero (h ▸ hb)
    simpa using hne

theorem contents_withContent (hlen : contents.length ≤ 4) (hzero : 0 ∉ contents) :
    (obj.withContent (contents ++ List.replicate (4 - contents.length) 0) data).contents =
      contents := by
  rw [HexafsObject.contents, slots_withContent hlen, takeWhile_append_zeros hzero]

theorem contentSize_withContent {slots : List UInt32} (h : data.length ≤ 2048) :
    (obj.withContent slots data).contentSize.toNat = data.length := by
  show (UInt32.ofNat data.length).toNat = data.length
  rw [UInt32.toNat_ofNat', Nat.mod_eq_of_lt (by omega)]

/-- A rewritten header is admissible. -/
theorem withContent_ok (hmagic : objMagicOk obj = true) (hlen : contents.length ≤ 4)
    (hzero : 0 ∉ contents) (hdata : data.length ≤ 2048) (h : data.length ≤ 512 * contents.length) :
    (obj.withContent (contents ++ List.replicate (4 - contents.length) 0) data).Ok where
  magic := hmagic
  slots_eq := by rw [contents_withContent hlen hzero, slots_withContent hlen]
  size_le := by rwa [contents_withContent hlen hzero, contentSize_withContent hdata]

theorem newObject_ok (type : UInt8) (timestamp : UInt32) : (newObject type timestamp).Ok where
  magic := by
    rw [objMagicOk, beq_iff_eq]
    exact objMagicOk_hexafsObjectType type
  slots_eq := rfl
  size_le := Nat.zero_le _

theorem newObject_contents (type : UInt8) (timestamp : UInt32) :
    (newObject type timestamp).contents = [] := rfl

/-- The number of content blocks, for data that fits. -/
theorem contentBlockCount_eq (h : data.length ≤ 2048) :
    contentBlockCount (UInt32.ofNat data.length) = (data.length + 511) / 512 := by
  have hof : (UInt32.ofNat data.length).toNat = data.length := by
    rw [UInt32.toNat_ofNat', Nat.mod_eq_of_lt (by omega)]
  have h512 : (512 : UInt32).toNat = 512 := rfl
  have h1 : (1 : UInt32).toNat = 1 := rfl
  rw [contentBlockCount, UInt32.toNat_div, UInt32.toNat_sub, UInt32.toNat_add, hof, h512, h1]
  omega

/-- The blocks that data of this size takes. -/
def blocksFor (size : ℕ) : ℕ := (size + 511) / 512

theorem le_blocksFor (size : ℕ) : size ≤ 512 * blocksFor size := by
  unfold blocksFor
  omega

theorem blocksFor_le_four {size : ℕ} (h : size ≤ 2048) : blocksFor size ≤ 4 := by
  unfold blocksFor
  omega

end Encoding

section Specs

variable {env : Environment} {mem : Memory} {d : PlainDisk}

/-- hexafs_object_alloc: no block is free, or the header write of the new block
fails, or the block holds an object without content. -/
theorem hexafsObjectAlloc_spec {type : UInt8} (hhint : mem.allocator.HintOk)
    {post : UInt32 → Memory → PlainDisk → Prop}
    (hnone : mem.allocator.freeCount = 0 →
      post 0 { mem with allocator := mem.allocator.full } d)
    (hfail : ∀ b a', Grown mem.allocator a' [] → mem.allocator.Fresh b → ¬env.WritesOk →
      post 0 { mem with allocator := a' }
        ((d.write env b zeroSector).write env b (toBlock 512 (newObject type mem.sbCache.timestamp))))
    (hsome : ∀ b a', Grown mem.allocator a' [b] → a'.outOfBlocks = mem.allocator.outOfBlocks →
      (env.writeOutcome (d.writeCount + 1)).returns = true →
      post b { mem with allocator := a' }
        ((d.write env b zeroSector).write env b (toBlock 512 (newObject type mem.sbCache.timestamp)))) :
    (hexafsObjectAlloc type).wp (plainDevice env) mem d post := by
  simp only [hexafsObjectAlloc, Code.wp_bind]
  refine hexafsAllocBlock_spec hhint (fun hfree => ?_) fun b a' hgrown hquiet => ?_
  · rw [if_pos rfl, Code.wp_pure]
    exact hnone hfree
  · have hfresh := hgrown.fresh b (List.mem_singleton_self b)
    simp only [if_neg hfresh.1.ne_zero, Code.wp_bind, Code.wp_memory]
    refine wp_hexafsBlockWrite hfresh.1.valid ?_
    rw [PlainDisk.write_writeCount]
    cases hret : (env.writeOutcome (d.writeCount + 1)).returns with
    | true =>
      rw [if_pos rfl, Code.wp_pure]
      exact hsome b a' hgrown hquiet hret
    | false =>
      rw [if_neg Bool.false_ne_true, Code.wp_bind]
      refine hexafsFreeBlock_spec hgrown (List.mem_singleton_self b) fun a'' hgrown' _ => ?_
      rw [Code.wp_pure]
      rw [List.erase_cons_head] at hgrown'
      refine hfail b a'' hgrown' hfresh fun hok => ?_
      rw [hok.returns] at hret
      cases hret

/-- Writes of consecutive data into given blocks, in order. -/
structure InPlace (env : Environment) (d : PlainDisk) (blocks : List UInt32) (data : List UInt8)
    (d' : PlainDisk) : Prop where
  /-- Only these blocks are written. -/
  wrote : Wrote env (· ∈ blocks) d d'
  /-- They hold the data. -/
  stored : blocks.map d'.sectors = contentSectors blocks.length data
  /-- They are not stale. -/
  stale : ∀ b ∈ blocks, d'.stale b = false
  /-- They are written in order. -/
  log : env.WritesOk → d'.log = d.log ++ blocks.zip (contentSectors blocks.length data)

/-- What the loop of hexafs_object_write_data does once it has to allocate:
`result` is the list of new blocks, unless something failed. -/
structure Appended (env : Environment) (a : Allocator) (d : PlainDisk) (left : ℕ)
    (data : List UInt8) (result : Option (List UInt32)) (a' : Allocator) (d' : PlainDisk) :
    Prop where
  /-- Only fresh blocks are written. -/
  wrote : Wrote env a.Fresh d d'
  /-- The result is what was taken. -/
  grown : ∃ blocks, Grown a a' blocks ∧ ∀ fresh, result = some fresh → fresh = blocks
  /-- The new blocks hold the data. -/
  stored : ∀ fresh, result = some fresh →
    fresh.length = left ∧ fresh.map d'.sectors = contentSectors left data ∧
      ∀ b ∈ fresh, d'.stale b = false
  /-- The disk was not full where the blocks sufficed. -/
  quiet : ∀ fresh, result = some fresh → a'.outOfBlocks = a.outOfBlocks
  /-- Without writes that fail, a result is missing when the blocks run out. -/
  full : env.WritesOk → result = none →
    a'.freeCount = 0 ∧ a.freeCount < left ∧ a'.outOfBlocks = true

/-- A content loop that fails may have taken blocks all the same. -/
theorem Appended.failed {env : Environment} {a a' : Allocator} {d d' : PlainDisk} {left : ℕ}
    {data : List UInt8} {blocks : List UInt32} (hwrote : Wrote env a.Fresh d d')
    (hgrown : Grown a a' blocks)
    (hfull : env.WritesOk → a'.freeCount = 0 ∧ a.freeCount < left ∧ a'.outOfBlocks = true) :
    Appended env a d left data none a' d' where
  wrote := hwrote
  grown := ⟨blocks, hgrown, by rintro _ ⟨⟩⟩
  stored := by rintro _ ⟨⟩
  quiet := by rintro _ ⟨⟩
  full hok _ := hfull hok

/-- The allocating part of the content loop. -/
theorem writeContent_zeros {left i : ℕ} {data : List UInt8} (hhint : mem.allocator.HintOk)
    (more : ℕ) {post : Option (List UInt32) → Memory → PlainDisk → Prop}
    (hpost : ∀ result a' d', Appended env mem.allocator d left data result a' d' →
      post (result.map (· ++ List.replicate more 0)) { mem with allocator := a' } d') :
    (writeContent left i (List.replicate (left + more) 0) data).wp (plainDevice env) mem d post := by
  induction left generalizing i data mem d post with
  | zero =>
    rw [writeContent, Code.wp_pure, Nat.zero_add, List.map_replicate]
    have hthis := hpost (some []) mem.allocator d
      ⟨Wrote.refl, ⟨[], Grown.refl hhint, fun fresh h => (Option.some.inj h).symm⟩,
        fun fresh h => by
          obtain rfl := Option.some.inj h
          exact ⟨rfl, rfl, by simp⟩, fun _ _ => rfl, by rintro _ ⟨⟩⟩
    exact hthis
  | succ left ih =>
    rw [Nat.add_right_comm, List.replicate_succ, writeContent]
    simp only [if_pos, Code.wp_bind]
    refine hexafsAllocBlock_spec hhint (fun hfree => ?_) fun b a' hgrown hquiet => ?_
    · rw [if_pos rfl, Code.wp_pure]
      refine hpost none _ d (Appended.failed Wrote.refl (Grown.full hhint)
        fun _ => ⟨hfree, ?_, rfl⟩)
      rw [hfree]
      exact Nat.succ_pos left
    · have hfresh := hgrown.fresh b (List.mem_singleton_self b)
      simp only [if_neg hfresh.1.ne_zero, Code.wp_bind]
      refine wp_hexafsBlockWrite hfresh.1.valid ?_
      rw [PlainDisk.write_writeCount]
      have hwrote : Wrote env mem.allocator.Fresh d
          ((d.write env b zeroSector).write env b (padBlock 512 data)) :=
        (Wrote.refl.write hfresh).write hfresh
      cases hret : (env.writeOutcome (d.writeCount + 1)).returns with
      | true =>
        rw [if_pos rfl, Code.wp_bind]
        refine ih hgrown.hint fun result a'' d' happ => ?_
        rw [Code.wp_pure]
        have hout : (env.writeOutcome (d.write env b zeroSector).writeCount).reaches = true := by
          rw [PlainDisk.write_writeCount]
          exact WriteOutcome.reaches_of_returns hret
        have hreach := PlainDisk.write_reaches b (padBlock 512 data) hout
        have hout : ¬a'.Fresh b := hgrown.not_fresh (List.mem_singleton_self b)
        obtain ⟨blocks, hgrown', hblocks⟩ := happ.grown
        have hthis := hpost (result.map (b :: ·)) a'' d'
          { wrote := hwrote.trans (happ.wrote.mono fun c hc => hgrown.fresh_of_fresh hc)
            grown := ⟨b :: blocks, hgrown.trans hgrown', by
              intro fresh hf
              obtain ⟨rest, hrest, rfl⟩ := Option.map_eq_some_iff.mp hf
              rw [hblocks rest hrest]⟩
            stored := by
              intro fresh hf
              obtain ⟨rest, hrest, rfl⟩ := Option.map_eq_some_iff.mp hf
              obtain ⟨hlen, hsec, hst⟩ := happ.stored rest hrest
              refine ⟨by rw [List.length_cons, hlen], ?_, ?_⟩
              · rw [List.map_cons, hsec, happ.wrote.sectors_eq hout, hreach.1, contentSectors]
              · intro c hc
                rcases List.mem_cons.mp hc with rfl | hc
                · rw [happ.wrote.stale _ hout, hreach.2]
                · exact hst c hc
            quiet := by
              intro fresh hf
              obtain ⟨rest, hrest, rfl⟩ := Option.map_eq_some_iff.mp hf
              exact (happ.quiet rest hrest).trans hquiet
            full := by
              intro hok hnone
              have hnone' : result = none := by simpa using hnone
              obtain ⟨hzero, hlt, hout⟩ := happ.full hok hnone'
              have hcount := hgrown.freeCount_add
              rw [List.length_singleton] at hcount
              have hlt' : a'.freeCount < left := hlt
              exact ⟨hzero, by omega, hout⟩ }
        cases result with
        | none => exact hthis
        | some rest => exact hthis
      | false =>
        have hbad : ¬env.WritesOk := fun hok => by
          rw [hok.returns] at hret
          cases hret
        rw [if_neg Bool.false_ne_true]
        by_cases hi : 0 < i
        · rw [if_pos ⟨hi, hfresh.1.ne_zero⟩, Code.wp_bind]
          refine hexafsFreeBlock_spec hgrown (List.mem_singleton_self b) fun a'' hgrown' _ => ?_
          rw [Code.wp_pure]
          exact hpost none a'' _ (Appended.failed hwrote hgrown' fun hok => absurd hok hbad)
        · rw [if_neg fun h => hi h.1, Code.wp_pure]
          exact hpost none a' _ (Appended.failed hwrote hgrown fun hok => absurd hok hbad)

/-- The in-place part of the content loop: blocks that exist are overwritten, then
the loop goes on with the slots after them. -/
theorem writeContent_used {used zeros : List UInt32} {more i : ℕ} {data : List UInt8}
    (hvalid : ∀ b ∈ used, InStore b) (hnodup : used.Nodup)
    {post : Option (List UInt32) → Memory → PlainDisk → Prop}
    (hfail : ∀ d', Wrote env (· ∈ used) d d' → ¬env.WritesOk → post none mem d')
    (hok : ∀ d', InPlace env d used data d' →
      (writeContent more (i + used.length) zeros (data.drop (512 * used.length))).wp
        (plainDevice env) mem d' fun result mem' d'' => post (result.map (used ++ ·)) mem' d'') :
    (writeContent (used.length + more) i (used ++ zeros) data).wp (plainDevice env) mem d post := by
  induction used generalizing i data d post with
  | nil =>
    have hthis := hok d ⟨Wrote.refl, rfl, by simp, fun _ => by simp⟩
    simp only [List.nil_append, Option.map_id'] at hthis
    simpa using hthis
  | cons b used ih =>
    have hin := hvalid b List.mem_cons_self
    obtain ⟨hnotin, hnodup⟩ := List.nodup_cons.mp hnodup
    rw [List.length_cons, Nat.add_right_comm, List.cons_append, writeContent]
    simp only [if_neg hin.ne_zero, Code.wp_bind, Code.wp_pure]
    refine wp_hexafsBlockWrite hin.valid ?_
    cases hret : (env.writeOutcome d.writeCount).returns with
    | false =>
      have hbad : ¬env.WritesOk := fun hok => by
        rw [hok.returns] at hret
        cases hret
      simp only [if_neg Bool.false_ne_true, ne_eq, not_true_eq_false, and_false, if_false,
        Code.wp_pure]
      exact hfail _ (Wrote.refl.write List.mem_cons_self) hbad
    | true =>
      rw [if_pos rfl, Code.wp_bind]
      have hreach := PlainDisk.write_reaches b (padBlock 512 data)
        (WriteOutcome.reaches_of_returns hret)
      refine ih (fun c hc => hvalid c (List.mem_cons_of_mem _ hc)) hnodup
        (fun d' hw hbad => ?_) fun d' hplace => ?_
      · rw [Code.wp_pure]
        exact hfail d' ((Wrote.refl.write List.mem_cons_self).trans
          (hw.mono fun c hc => List.mem_cons_of_mem _ hc)) hbad
      · have hthis := hok d'
          { wrote := (Wrote.refl.write List.mem_cons_self).trans
              (hplace.wrote.mono fun c hc => List.mem_cons_of_mem _ hc)
            stored := by
              rw [List.map_cons, List.length_cons, contentSectors, hplace.stored,
                hplace.wrote.sectors_eq hnotin, hreach.1]
            stale := by
              intro c hc
              rcases List.mem_cons.mp hc with rfl | hc
              · rw [hplace.wrote.stale _ hnotin, hreach.2]
              · exact hplace.stale c hc
            log := by
              intro hall
              rw [hplace.log hall, PlainDisk.write_of_reaches (hall.reaches _), List.length_cons,
                contentSectors, List.zip_cons_cons, List.append_assoc, List.singleton_append] }
        rw [List.length_cons, Nat.mul_succ, Nat.add_comm _ 512, ← List.drop_drop, ← Nat.add_assoc,
          Nat.add_right_comm] at hthis
        refine Code.wp_mono hthis fun result mem' d'' hp => ?_
        rw [Code.wp_pure]
        cases result with
        | none => exact hp
        | some rest => exact hp

/-- A header with its content blocks, as far as the medium and the allocator go. -/
structure ObjectSafe (a : Allocator) (d : PlainDisk) (block : UInt32) : Prop where
  /-- The header is in order. -/
  ok : (objectAt d.sectors block).Ok
  /-- The header is a block of the area. -/
  inStore : InStore block
  /-- It is not stale. -/
  stale : d.stale block = false
  /-- The contents are other used blocks of the area. -/
  contents : ∀ b ∈ (objectAt d.sectors block).contents, InStore b ∧ a.Used b ∧ b ≠ block
  /-- The header is used. -/
  used : a.Used block
  /-- The contents are different. -/
  nodup : (objectAt d.sectors block).contents.Nodup

/-- The content part of hexafs_object_write_data: the blocks that exist are
overwritten, the others appended. -/
structure ContentWritten (env : Environment) (a : Allocator) (d : PlainDisk)
    (used : List UInt32) (data : List UInt8) (result : Option (List UInt32)) (a' : Allocator)
    (d' : PlainDisk) : Prop where
  /-- The old blocks are written in place, then fresh ones. -/
  split : ∃ mid, InPlace env d (used.take (blocksFor data.length)) data mid ∧
    Appended env a mid (blocksFor data.length - used.length)
      (data.drop (512 * (used.take (blocksFor data.length)).length)) result a' d'

/-- hexafs_object_write_data on an admissible object. -/
theorem hexafsObjectWriteData_spec {block : UInt32} {data : List UInt8}
    (hsafe : ObjectSafe mem.allocator d block) (hhint : mem.allocator.HintOk)
    (hdata : data.length ≤ 2048) {post : Bool → Memory → PlainDisk → Prop}
    (hfail : ∀ d', Wrote env (· ∈ (objectAt d.sectors block).contents) d d' → ¬env.WritesOk →
      post false mem d')
    (hnone : ∀ a' d', ContentWritten env mem.allocator d (objectAt d.sectors block).contents data
      none a' d' → post false { mem with allocator := a' } d')
    (hsome : ∀ fresh a' d', ContentWritten env mem.allocator d
      (objectAt d.sectors block).contents data (some fresh) a' d' →
      post (env.writeOutcome d'.writeCount).returns { mem with allocator := a' }
        (d'.write env block (toBlock 512 ((objectAt d.sectors block).withContent
          ((objectAt d.sectors block).contents.take (blocksFor data.length) ++ fresh ++
            List.replicate (4 - blocksFor data.length) 0) data)))) :
    (hexafsObjectWriteData block data).wp (plainDevice env) mem d post := by
  simp only [hexafsObjectWriteData, Code.wp_bind]
  refine wp_hexafsBlockRead hsafe.inStore.valid hsafe.stale ?_
  have hobj : ofBlock HexafsObject (d.sectors block) = objectAt d.sectors block := rfl
  dsimp only
  rw [hobj, if_pos hsafe.ok.magic, Code.wp_bind, contentBlockCount_eq hdata]
  have hcount : (data.length + 511) / 512 = blocksFor data.length := rfl
  have hfour := blocksFor_le_four hdata
  have hlen := length_contents_le (objectAt d.sectors block)
  rw [hcount]
  generalize hused : (objectAt d.sectors block).contents = used at *
  have hslots : (objectAt d.sectors block).slots =
      used.take (blocksFor data.length) ++
        (used.drop (blocksFor data.length) ++ List.replicate (4 - used.length) 0) := by
    rw [← List.append_assoc, List.take_append_drop, hsafe.ok.slots_eq, hused]
  have hsplit : blocksFor data.length =
      (used.take (blocksFor data.length)).length + (blocksFor data.length - used.length) := by
    rw [List.length_take]
    omega
  have hcontents := hsafe.contents
  rw [hused] at hcontents
  have hnodup := hsafe.nodup
  rw [hused] at hnodup
  have hzeros : ∀ i rest, writeContent (blocksFor data.length - used.length) i
      (used.drop (blocksFor data.length) ++ List.replicate (4 - used.length) 0) rest =
      writeContent (blocksFor data.length - used.length) i (List.replicate
        (blocksFor data.length - used.length + (4 - blocksFor data.length)) 0) rest := by
    intro i rest
    rcases Nat.lt_or_ge (blocksFor data.length) used.length with hlt | hge
    · have hzero : blocksFor data.length - used.length = 0 := by omega
      have hall : (used.drop (blocksFor data.length) ++ List.replicate (4 - used.length) 0).length =
          4 - blocksFor data.length := by
        rw [List.length_append, List.length_drop, List.length_replicate]
        omega
      rw [hzero, writeContent, writeContent, List.map_const', List.map_const', hall,
        List.length_replicate, Nat.zero_add]
    · have hsum : 4 - used.length =
          blocksFor data.length - used.length + (4 - blocksFor data.length) := by omega
      rw [List.drop_of_length_le hge, List.nil_append, hsum]
  rw [hslots]
  suffices h : (writeContent ((used.take (blocksFor data.length)).length +
      (blocksFor data.length - used.length)) 0 (used.take (blocksFor data.length) ++
        (used.drop (blocksFor data.length) ++ List.replicate (4 - used.length) 0)) data).wp
      (plainDevice env) mem d _ by
    rw [← hsplit] at h
    exact h
  refine writeContent_used (fun b hb => (hcontents b (List.mem_of_mem_take hb)).1)
    (hnodup.sublist (List.take_sublist _ _)) (fun d' hw hbad => ?_) fun mid hplace => ?_
  · rw [Code.wp_pure]
    exact hfail d' (hw.mono fun b hb => List.mem_of_mem_take hb) hbad
  · rw [hzeros]
    refine writeContent_zeros hhint _ fun result a' d' happ => ?_
    cases result with
    | none =>
      simp only [Option.map_none, Code.wp_pure]
      exact hnone a' d' ⟨mid, hplace, happ⟩
    | some fresh =>
      simp only [Option.map_some]
      refine wp_hexafsBlockWrite hsafe.inStore.valid ?_
      rw [← List.append_assoc]
      exact hsome fresh a' d' ⟨mid, hplace, happ⟩

/-- Where the content writes go. -/
theorem ContentWritten.wrote {a a' : Allocator} {d d' : PlainDisk} {used : List UInt32}
    {data : List UInt8} {result : Option (List UInt32)}
    (h : ContentWritten env a d used data result a' d') :
    Wrote env (fun b => b ∈ used ∨ a.Fresh b) d d' := by
  obtain ⟨mid, hplace, happ⟩ := h.split
  exact (hplace.wrote.mono fun b hb => .inl (List.mem_of_mem_take hb)).trans
    (happ.wrote.mono fun b hb => .inr hb)

theorem ContentWritten.grown {a a' : Allocator} {d d' : PlainDisk} {used : List UInt32}
    {data : List UInt8} {result : Option (List UInt32)}
    (h : ContentWritten env a d used data result a' d') : ∃ blocks, Grown a a' blocks := by
  obtain ⟨mid, _, happ⟩ := h.split
  obtain ⟨blocks, hgrown, _⟩ := happ.grown
  exact ⟨blocks, hgrown⟩

/-- A content write fails only for want of free blocks. -/
theorem ContentWritten.full {a a' : Allocator} {d d' : PlainDisk} {used : List UInt32}
    {data : List UInt8} (h : ContentWritten env a d used data none a' d') (hok : env.WritesOk) :
    a'.freeCount = 0 ∧ a.freeCount < blocksFor data.length - used.length ∧
      a'.outOfBlocks = true := by
  obtain ⟨mid, _, happ⟩ := h.split
  exact happ.full hok rfl

/-- A finished content write found every block it needed. -/
theorem ContentWritten.quiet {a a' : Allocator} {d d' : PlainDisk} {used fresh : List UInt32}
    {data : List UInt8} (h : ContentWritten env a d used data (some fresh) a' d') :
    a'.outOfBlocks = a.outOfBlocks := by
  obtain ⟨mid, _, happ⟩ := h.split
  exact happ.quiet fresh rfl

/-- The slots of a finished write and what they hold. -/
structure SlotsStored (a : Allocator) (d : PlainDisk) (slots : List UInt32) (data : List UInt8) :
    Prop where
  /-- There are as many blocks as the data needs. -/
  length_eq : slots.length = blocksFor data.length
  /-- They are different. -/
  nodup : slots.Nodup
  /-- They are used blocks of the area. -/
  inStore : ∀ b ∈ slots, InStore b ∧ a.Used b
  /-- They hold the data. -/
  stored : slots.map d.sectors = contentSectors (blocksFor data.length) data
  /-- They are not stale. -/
  stale : ∀ b ∈ slots, d.stale b = false

theorem ContentWritten.slotsStored {a a' : Allocator} {d d' : PlainDisk} {used fresh : List UInt32}
    {data : List UInt8} (h : ContentWritten env a d used data (some fresh) a' d')
    (hused : ∀ b ∈ used, InStore b ∧ a.Used b) (hnodup : used.Nodup) :
    Grown a a' fresh ∧
      SlotsStored a' d' (used.take (blocksFor data.length) ++ fresh) data := by
  obtain ⟨mid, hplace, happ⟩ := h.split
  obtain ⟨blocks, hgrown, hblocks⟩ := happ.grown
  obtain rfl := hblocks fresh rfl
  obtain ⟨hlen, hsec, hstale⟩ := happ.stored _ rfl
  have hkeep : ∀ b ∈ used.take (blocksFor data.length), ¬a.Fresh b := fun b hb hf =>
    hf.2 (hused b (List.mem_of_mem_take hb)).2
  have hsum : (used.take (blocksFor data.length)).length +
      (blocksFor data.length - used.length) = blocksFor data.length := by
    rw [List.length_take]
    omega
  refine ⟨hgrown, ?_, ?_, ?_, ?_, ?_⟩
  · rw [List.length_append, hlen, hsum]
  · refine List.Nodup.append (hnodup.sublist (List.take_sublist _ _)) hgrown.nodup ?_
    intro b hb hb'
    exact hkeep b hb (hgrown.fresh b hb')
  · intro b hb
    rcases List.mem_append.mp hb with hb | hb
    · have hthis := hused b (List.mem_of_mem_take hb)
      exact ⟨hthis.1, hgrown.used_mono hthis.2⟩
    · exact ⟨(hgrown.fresh b hb).1, hgrown.used_of_mem hb⟩
  · have hleft : (used.take (blocksFor data.length)).map d'.sectors =
        (used.take (blocksFor data.length)).map mid.sectors :=
      List.map_congr_left fun b hb => happ.wrote.sectors_eq (hkeep b hb)
    rw [List.map_append, hleft, hplace.stored, hsec, ← contentSectors_add, hsum]
  · intro b hb
    rcases List.mem_append.mp hb with hb | hb
    · rw [happ.wrote.stale b (hkeep b hb)]
      exact hplace.stale b hb
    · exact hstale b hb

/-- What is read back once the header of stored content is on the medium. -/
theorem readObject_withContent {sectors : UInt32 → Sector} {block : UInt32} {obj : HexafsObject}
    {slots : List UInt32} {data : List UInt8} (hmagic : objMagicOk obj = true)
    (hdata : data.length ≤ 2048) (hlen : slots.length = blocksFor data.length) (hzero : 0 ∉ slots)
    (hstored : slots.map sectors = contentSectors (blocksFor data.length) data)
    (hheader : sectors block =
      toBlock 512 (obj.withContent (slots ++ List.replicate (4 - blocksFor data.length) 0) data)) :
    (objectAt sectors block).Ok ∧ (objectAt sectors block).contents = slots ∧
      readObject sectors block =
        some ⟨true, obj.type, UInt32.ofNat data.length, data⟩ := by
  have hfour := blocksFor_le_four hdata
  have hobj : objectAt sectors block =
      obj.withContent (slots ++ List.replicate (4 - slots.length) 0) data := by
    rw [objectAt, hheader, ofBlock_toBlock, hlen]
  have hok : (objectAt sectors block).Ok := by
    rw [hobj]
    exact withContent_ok hmagic (by omega) hzero hdata (hlen ▸ le_blocksFor data.length)
  have hcontents : (objectAt sectors block).contents = slots := by
    rw [hobj, contents_withContent (by omega) hzero]
  refine ⟨hok, hcontents, ?_⟩
  have hsize : (objectAt sectors block).contentSize = UInt32.ofNat data.length := by
    rw [hobj]
    rfl
  have htype : (objectAt sectors block).type = obj.type := by
    rw [hobj]
    rfl
  have hof : (UInt32.ofNat data.length).toNat = data.length := by
    rw [UInt32.toNat_ofNat', Nat.mod_eq_of_lt (by omega)]
  rw [readObject_of_ok hok, hcontents, hsize, htype, hof, readSlots_contentSectors hzero
    (hlen ▸ hstored) (hlen ▸ le_blocksFor data.length)]

/-- The content loop of hexafs_object_read_data, on sectors that can be read. -/
theorem readContent_spec {slots : List UInt32}
    (hread : ∀ b ∈ slots.takeWhile (· ≠ 0), ValidLba b ∧ d.stale b = false) {remaining : ℕ}
    {post : Bool × List UInt8 → Memory → PlainDisk → Prop}
    (hpost : post (true, readSlots d.sectors slots remaining) mem d) :
    (readContent slots remaining).wp (plainDevice env) mem d post := by
  induction slots generalizing remaining post with
  | nil =>
    rw [readContent, Code.wp_pure]
    exact hpost
  | cons db rest ih =>
    rw [readContent]
    rw [readSlots] at hpost
    by_cases hstop : remaining = 0 ∨ db = 0
    · rw [if_pos hstop] at hpost ⊢
      rw [Code.wp_pure]
      exact hpost
    · rw [if_neg hstop] at hpost ⊢
      have hdb : db ≠ 0 := fun h => hstop (.inr h)
      rw [List.takeWhile_cons_of_pos (by simpa using hdb)] at hread
      have hhere := hread db List.mem_cons_self
      rw [Code.wp_bind]
      refine wp_hexafsBlockRead hhere.1 hhere.2 ?_
      simp only [Code.wp_bind]
      refine ih (fun b hb => hread b (List.mem_cons_of_mem _ hb)) ?_
      rw [Code.wp_pure]
      exact hpost

/-- hexafs_object_read_data, on sectors that can be read. -/
theorem hexafsObjectReadData_spec {block : UInt32} (hvalid : ValidLba block)
    (hstale : d.stale block = false)
    (hread : ∀ b ∈ (objectAt d.sectors block).contents, ValidLba b ∧ d.stale b = false)
    {post : Option ObjectRead → Memory → PlainDisk → Prop}
    (hpost : post (readObject d.sectors block) mem d) :
    (hexafsObjectReadData block).wp (plainDevice env) mem d post := by
  simp only [hexafsObjectReadData, Code.wp_bind]
  refine wp_hexafsBlockRead hvalid hstale ?_
  have hobj : ofBlock HexafsObject (d.sectors block) = objectAt d.sectors block := rfl
  dsimp only
  rw [hobj]
  rw [readObject] at hpost
  split
  · rename_i hmagic
    rw [if_pos hmagic] at hpost
    split
    · rename_i hcontent
      rw [if_pos hcontent] at hpost
      rw [Code.wp_bind]
      refine readContent_spec hread ?_
      rw [Code.wp_pure]
      exact hpost
    · rename_i hcontent
      rw [if_neg hcontent] at hpost
      rw [Code.wp_pure]
      exact hpost
  · rename_i hmagic
    rw [if_neg hmagic] at hpost
    rw [Code.wp_pure]
    exact hpost

end Specs

end HexaOS.Hexafs
