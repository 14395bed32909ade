import HexaOS.FirstFit
import HexaOS.Kheap

/-!
# The heap refines a first-fit block list

The headers in memory are read as a list of blocks. On memory that holds such a
list `kmalloc` does what allocation does to the list and `kfree` what release does,
within the bound on rounds, and neither touches the payload of a block in use.
-/

namespace HexaOS.Kheap

open HexaOS.PackedBytes FirstFit

section Words

variable {memory other : Memory} {address target : ℕ} {word : UInt32}

/-- A stored word leaves the bytes outside it. -/
theorem storeWord_outside (apart : target < address ∨ address + 4 ≤ target) :
    memory.storeWord address word target = memory target := by
  simp only [Memory.storeWord, Memory.store]
  rw [if_neg (by omega), if_neg (by omega), if_neg (by omega), if_neg (by omega)]

/-- A stored word is read back. -/
theorem word_storeWord : (memory.storeWord address word).word address = word := by
  have first : memory.storeWord address word address = word.toUInt8 := by
    simp [Memory.storeWord, Memory.store]
  have second : memory.storeWord address word (address + 1) = (word >>> 8).toUInt8 := by
    simp [Memory.storeWord, Memory.store]
  have third : memory.storeWord address word (address + 2) = (word >>> 16).toUInt8 := by
    simp [Memory.storeWord, Memory.store]
  have fourth : memory.storeWord address word (address + 3) = (word >>> 24).toUInt8 := by
    simp [Memory.storeWord, Memory.store]
  rw [Memory.word, first, second, third, fourth]
  exact wordOfBytes_bytes word

/-- A word depends on its four bytes only. -/
theorem word_congr
    (same : ∀ byte, address ≤ byte → byte < address + 4 → other byte = memory byte) :
    other.word address = memory.word address := by
  simp only [Memory.word]
  rw [same address (by omega) (by omega), same (address + 1) (by omega) (by omega),
    same (address + 2) (by omega) (by omega), same (address + 3) (by omega) (by omega)]

/-- A stored word leaves the words apart from it. -/
theorem word_storeWord_apart (apart : target + 4 ≤ address ∨ address + 4 ≤ target) :
    (memory.storeWord address word).word target = memory.word target :=
  word_congr fun _ _ _ => storeWord_outside (by omega)

end Words

section Headers

/-- The three words of a block header. -/
structure Header where
  /-- The `size` field. -/
  size : UInt32
  /-- The `free` field. -/
  free : UInt32
  /-- The `next` field. -/
  next : UInt32
  deriving DecidableEq

/-- The header at an address. -/
def headerAt (memory : Memory) (address : ℕ) : Header :=
  ⟨memory.word address, memory.word (address + 4), memory.word (address + 8)⟩

variable {memory other : Memory} {address target : ℕ} {pointer value : UInt32}

/-- A header depends on its twelve bytes only. -/
theorem headerAt_congr
    (same : ∀ byte, address ≤ byte → byte < address + 12 → other byte = memory byte) :
    headerAt other address = headerAt memory address := by
  simp only [headerAt, Header.mk.injEq]
  exact ⟨word_congr fun _ _ _ => same _ (by omega) (by omega),
    word_congr fun _ _ _ => same _ (by omega) (by omega),
    word_congr fun _ _ _ => same _ (by omega) (by omega)⟩

/-- The size field of a header is the block's. -/
theorem blockSize_eq (memory : Memory) (pointer : UInt32) :
    blockSize memory pointer = (headerAt memory pointer.toNat).size := rfl

/-- The mark of a header is the block's. -/
theorem blockFree_eq (memory : Memory) (pointer : UInt32) :
    blockFree memory pointer = (headerAt memory pointer.toNat).free := rfl

/-- The link of a header is the block's. -/
theorem blockNext_eq (memory : Memory) (pointer : UInt32) :
    blockNext memory pointer = (headerAt memory pointer.toNat).next := rfl

/-- Setting the size changes that field of the header. -/
theorem headerAt_setSize (memory : Memory) (pointer value : UInt32) :
    headerAt (setSize memory pointer value) pointer.toNat =
      { headerAt memory pointer.toNat with size := value } := by
  simp only [headerAt, setSize, Header.mk.injEq]
  exact ⟨word_storeWord, word_storeWord_apart (by omega), word_storeWord_apart (by omega)⟩

/-- Setting the mark changes that field of the header. -/
theorem headerAt_setFree (memory : Memory) (pointer value : UInt32) :
    headerAt (setFree memory pointer value) pointer.toNat =
      { headerAt memory pointer.toNat with free := value } := by
  simp only [headerAt, setFree, Header.mk.injEq]
  exact ⟨word_storeWord_apart (by omega), word_storeWord, word_storeWord_apart (by omega)⟩

/-- Setting the link changes that field of the header. -/
theorem headerAt_setNext (memory : Memory) (pointer value : UInt32) :
    headerAt (setNext memory pointer value) pointer.toNat =
      { headerAt memory pointer.toNat with next := value } := by
  simp only [headerAt, setNext, Header.mk.injEq]
  exact ⟨word_storeWord_apart (by omega), word_storeWord_apart (by omega), word_storeWord⟩

/-- The second memory differs from the first in headers of the listed addresses at
most. -/
def WritesHeaders (addresses : List ℕ) (memory other : Memory) : Prop :=
  ∀ byte, (∀ address ∈ addresses, byte < address ∨ address + 12 ≤ byte) →
    other byte = memory byte

/-- Setting the size writes into the header. -/
theorem setSize_writes (memory : Memory) (pointer value : UInt32) :
    WritesHeaders [pointer.toNat] memory (setSize memory pointer value) :=
  fun _ outside => storeWord_outside (by have := outside _ (List.mem_singleton.mpr rfl); omega)

/-- Setting the mark writes into the header. -/
theorem setFree_writes (memory : Memory) (pointer value : UInt32) :
    WritesHeaders [pointer.toNat] memory (setFree memory pointer value) :=
  fun _ outside => storeWord_outside (by have := outside _ (List.mem_singleton.mpr rfl); omega)

/-- Setting the link writes into the header. -/
theorem setNext_writes (memory : Memory) (pointer value : UInt32) :
    WritesHeaders [pointer.toNat] memory (setNext memory pointer value) :=
  fun _ outside => storeWord_outside (by have := outside _ (List.mem_singleton.mpr rfl); omega)

/-- Headers written one after the other. -/
theorem WritesHeaders.trans {front back : List ℕ} {memory middle other : Memory}
    (left : WritesHeaders front memory middle) (right : WritesHeaders back middle other) :
    WritesHeaders (front ++ back) memory other := by
  intro byte outside
  rw [right byte fun address member => outside address (List.mem_append_right front member),
    left byte fun address member => outside address (List.mem_append_left back member)]

/-- A header apart from those written is unchanged. -/
theorem WritesHeaders.headerAt {addresses : List ℕ} (writes : WritesHeaders addresses memory other)
    (apart : ∀ address ∈ addresses, target + 12 ≤ address ∨ address + 12 ≤ target) :
    headerAt other target = headerAt memory target := by
  refine headerAt_congr fun byte _ _ => writes byte fun address member => ?_
  have := apart address member
  omega

end Headers

section Lists

/-- The address after a list of blocks when it is continued at `stop`. -/
def follow (blocks : List Block) (stop : ℕ) : ℕ := (blocks.head?.map Block.start).getD stop

@[simp] theorem follow_nil (stop : ℕ) : follow [] stop = stop := rfl

@[simp] theorem follow_cons (block : Block) (blocks : List Block) (stop : ℕ) :
    follow (block :: blocks) stop = block.start := rfl

/-- The header that a block has in memory, with the address of its successor. -/
def headerOf (block : Block) (next : ℕ) : Header :=
  ⟨UInt32.ofNat block.size, if block.free = true then 1 else 0, UInt32.ofNat next⟩

/-- The mark of a header tells whether the block is free. -/
theorem headerOf_free {block : Block} {next : ℕ} :
    (headerOf block next).free ≠ 0 ↔ block.free = true := by
  unfold headerOf
  by_cases free : block.free = true
  · simp [free]
  · simp [free]

/-- Memory holds the headers of a list of blocks, the last linked to `stop`. -/
def Linked (memory : Memory) : List Block → ℕ → Prop
  | [], _ => True
  | block :: blocks, stop =>
    headerAt memory block.start = headerOf block (follow blocks stop) ∧
      Linked memory blocks stop

variable {memory other : Memory} {blocks front back : List Block} {stop : ℕ}

/-- The address after a concatenation. -/
theorem follow_append : follow (front ++ back) stop = follow front (follow back stop) := by
  cases front <;> rfl

/-- A concatenation is linked when both parts are, the first to the second. -/
theorem linked_append :
    Linked memory (front ++ back) stop ↔
      Linked memory front (follow back stop) ∧ Linked memory back stop := by
  induction front with
  | nil => simp [Linked]
  | cons block front ih =>
    simp only [List.cons_append, Linked, ih, follow_append, and_assoc]

/-- Memory with the same headers holds the same list. -/
theorem Linked.congr
    (same : ∀ block ∈ blocks, headerAt other block.start = headerAt memory block.start)
    (linked : Linked memory blocks stop) : Linked other blocks stop := by
  induction blocks with
  | nil => trivial
  | cons block blocks ih =>
    refine ⟨(same block (by simp)).trans linked.1, ih (fun next member => ?_) linked.2⟩
    exact same next (by simp [member])

end Lists

/-- The first address of the heap. -/
def heapBase : ℕ := 0x00800000

/-- The address after the heap. -/
def heapLimit : ℕ := 0x00800000 + 1024 * 1024

/-- A heap whose memory holds a block list: the blocks tile the heap, free blocks
are apart, the sizes are whole words, and the list starts at `heap_first`. -/
structure Holds (heap : Heap) (blocks : List Block) : Prop where
  /-- The blocks cover the heap exactly. -/
  tiles : Tiles 12 heapBase blocks heapLimit
  /-- No two neighbouring blocks are both free. -/
  separated : Separated blocks
  /-- Payloads are whole words. -/
  aligned : ∀ block ∈ blocks, 4 ∣ block.size
  /-- The headers are in memory, the last one with link 0. -/
  linked : Linked heap.memory blocks 0
  /-- The list starts at the heap's first address. -/
  first : heap.heapFirst = heapStart

/-- The bytes of the payload of a block. -/
def payload (block : Block) : Set ℕ :=
  Set.Ico (block.start + 12) (block.start + 12 + block.size)

/-- The payloads of blocks in use have the same bytes in both memories. -/
def KeepsUsed (blocks : List Block) (memory other : Memory) : Prop :=
  ∀ block ∈ blocks, block.free = false → ∀ byte ∈ payload block, other byte = memory byte

section Bounds

variable {heap : Heap} {blocks : List Block} {block : Block}

/-- The blocks of a heap lie in it. -/
theorem Holds.bounds (holds : Holds heap blocks) (member : block ∈ blocks) :
    0x00800000 ≤ block.start ∧ block.start + 12 + block.size ≤ 0x00900000 :=
  holds.tiles.bounds member

/-- The list of blocks is not empty. -/
theorem Holds.follow_eq (holds : Holds heap blocks) (stop : ℕ) :
    follow blocks stop = heapBase := by
  have tiles := holds.tiles
  cases blocks with
  | nil => cases (show heapBase = heapLimit from tiles)
  | cons block blocks => exact tiles.1

/-- There are fewer blocks than rounds. -/
theorem Holds.length_lt (holds : Holds heap blocks) : blocks.length + 1 < heapRounds := by
  have bound := holds.tiles.length_le
  simp only [heapBase, heapLimit, heapRounds] at *
  omega

end Bounds

section Arithmetic

/-- The mask clears the two low bits. -/
theorem mask_bits (i : Fin 32) : (4294967292#32).getLsbD i = decide (2 ≤ (i : ℕ)) := by
  decide +revert

/-- Masking the two low bits shifts them out and back. -/
theorem word_mask (word : UInt32) : word &&& ~~~(3 : UInt32) = (word >>> 2) <<< 2 := by
  apply UInt32.toBitVec_inj.mp
  ext i hi
  have mask : (4294967292#32).getLsbD i = decide (2 ≤ i) := mask_bits ⟨i, hi⟩
  rw [BitVec.getLsbD_eq_getElem hi] at mask
  simp [mask]
  grind

/-- Sizes are rounded up to whole words. -/
theorem roundUp_toNat {size : UInt32} (small : size ≤ 0xFFFFFFFC) :
    ((size + 3) &&& ~~~3).toNat = (size.toNat + 3) / 4 * 4 := by
  have bound : size.toNat ≤ 0xFFFFFFFC := UInt32.le_iff_toNat_le.mp small
  have sum : (size + 3).toNat = size.toNat + 3 := by
    rw [UInt32.toNat_add]
    exact Nat.mod_eq_of_lt (by simp; omega)
  rw [word_mask, UInt32.toNat_shiftLeft, UInt32.toNat_shiftRight, sum]
  simp [Nat.shiftLeft_eq, Nat.shiftRight_eq_div_pow]
  omega

/-- Rounded sizes are whole words. -/
theorem four_dvd_roundUp (size : UInt32) : 4 ∣ ((size + 3) &&& ~~~3).toNat := by
  rw [word_mask, UInt32.toNat_shiftLeft, UInt32.toNat_shiftRight]
  simp [Nat.shiftLeft_eq, Nat.shiftRight_eq_div_pow]
  omega

/-- The rounding of the largest sizes wraps to 0. -/
theorem roundUp_large {size : UInt32} (large : 0xFFFFFFFC < size) :
    ((size + 3) &&& ~~~3).toNat = 0 := by
  have bound : 0xFFFFFFFC < size.toNat := UInt32.lt_iff_toNat_lt.mp large
  have limit := size.toNat_lt
  have sum : (size + 3).toNat = size.toNat + 3 - 2 ^ 32 := by
    rw [UInt32.toNat_add]
    simp only [UInt32.reduceToNat]
    omega
  rw [word_mask, UInt32.toNat_shiftLeft, UInt32.toNat_shiftRight, sum]
  simp [Nat.shiftLeft_eq, Nat.shiftRight_eq_div_pow]
  omega

/-- A number that fits a word is not 0 as a word when it is not 0. -/
theorem ofNat_ne_zero {n : ℕ} (positive : 0 < n) (small : n < 2 ^ 32) : UInt32.ofNat n ≠ 0 := by
  intro zero
  have value := congrArg UInt32.toNat zero
  rw [UInt32.toNat_ofNat_of_lt' small] at value
  simp at value
  omega

end Arithmetic

section Allocation

variable {memory : Memory} {need : UInt32} {block : Block} {next : ℕ}

/-- The header of a block read through its pointer. -/
theorem headerAt_pointer (small : block.start < 2 ^ 32) :
    headerAt memory (UInt32.ofNat block.start).toNat = headerAt memory block.start := by
  rw [UInt32.toNat_ofNat_of_lt' small]

/-- The test of the walk is that the block is free and large enough. -/
theorem walk_fits (need : UInt32) (at' : headerAt memory block.start = headerOf block next)
    (high : block.start + 12 + block.size < 2 ^ 32) :
    (blockFree memory (UInt32.ofNat block.start) ≠ 0 ∧
      need ≤ blockSize memory (UInt32.ofNat block.start)) ↔
      block.free = true ∧ need.toNat ≤ block.size := by
  rw [blockFree_eq, blockSize_eq, headerAt_pointer (by omega), at']
  have size : (UInt32.ofNat block.size).toNat = block.size :=
    UInt32.toNat_ofNat_of_lt' (by omega : block.size < 2 ^ 32)
  rw [UInt32.le_iff_toNat_le, headerOf_free]
  exact and_congr_right fun _ => by rw [headerOf, size]

/-- The walk passes a run of blocks that do not fit. -/
theorem kmallocWalk_skip {front : List Block} {first last stop : ℕ} (rounds : ℕ)
    (tiles : Tiles 12 first front last) (low : 0 < first) (high : last < 2 ^ 32)
    (linked : Linked memory front stop)
    (unfit : ∀ block ∈ front, ¬(block.free = true ∧ need.toNat ≤ block.size))
    (enough : front.length ≤ rounds) :
    kmallocWalk need rounds memory (UInt32.ofNat (follow front stop)) =
      kmallocWalk need (rounds - front.length) memory (UInt32.ofNat stop) := by
  induction front generalizing first rounds with
  | nil => rfl
  | cons block front ih =>
    obtain ⟨rest, rfl⟩ : ∃ rest, rounds = rest + 1 :=
      Nat.exists_eq_add_one.mpr (by simp only [List.length_cons] at enough; omega)
    have start := tiles.1
    have within := tiles.2.le
    have test := (walk_fits need linked.1 (by omega)).not.mpr (unfit block (by simp))
    have link : blockNext memory (UInt32.ofNat block.start) = UInt32.ofNat (follow front stop) := by
      rw [blockNext_eq, headerAt_pointer (by omega), linked.1]
      rfl
    rw [follow_cons, kmallocWalk, if_neg (ofNat_ne_zero (by omega) (by omega)), if_neg test, link,
      ih rest tiles.2 (by omega) linked.2 (fun later member => unfit later (by simp [member]))
        (by simpa using enough)]
    simp

/-- What the split leaves in the headers of the block and of the new block. -/
theorem kmallocSplit_spec {curr size newBlock rest : UInt32}
    (ofNew : curr + sizeofHeapBlock + size = newBlock)
    (ofRest : blockSize memory curr - size - sizeofHeapBlock = rest)
    (apart : curr.toNat + 12 ≤ newBlock.toNat) :
    headerAt (kmallocSplit memory curr size) curr.toNat =
        ⟨size, blockFree memory curr, newBlock⟩ ∧
      headerAt (kmallocSplit memory curr size) newBlock.toNat =
        ⟨rest, 1, blockNext memory curr⟩ ∧
      WritesHeaders [curr.toNat, newBlock.toNat] memory (kmallocSplit memory curr size) := by
  simp only [kmallocSplit, ofNew, ofRest]
  generalize fresh : setFree (setSize memory newBlock rest) newBlock 1 = marked
  have markedWrites : WritesHeaders [newBlock.toNat] memory marked := by
    rw [← fresh]
    intro byte outside
    rw [setFree_writes _ _ _ byte outside, setSize_writes _ _ _ byte outside]
  have away : ∀ address ∈ [newBlock.toNat], curr.toNat + 12 ≤ address ∨
      address + 12 ≤ curr.toNat := by
    intro address member
    rw [List.mem_singleton.mp member]
    exact .inl apart
  have kept := markedWrites.headerAt away
  rw [blockNext_eq, kept, ← blockNext_eq]
  generalize chained : setNext marked newBlock (blockNext memory curr) = split
  have splitWrites : WritesHeaders [newBlock.toNat] memory split := by
    rw [← chained]
    intro byte outside
    rw [setNext_writes _ _ _ byte outside, markedWrites byte outside]
  have newHeader : headerAt split newBlock.toNat = ⟨rest, 1, blockNext memory curr⟩ := by
    rw [← chained, headerAt_setNext, ← fresh, headerAt_setFree, headerAt_setSize]
  have currWrites : WritesHeaders [curr.toNat] split
      (setNext (setSize split curr size) curr newBlock) := by
    intro byte outside
    rw [setNext_writes _ _ _ byte outside, setSize_writes _ _ _ byte outside]
  refine ⟨?_, ?_, ?_⟩
  · rw [headerAt_setNext, headerAt_setSize, splitWrites.headerAt away]
    rfl
  · rw [currWrites.headerAt, newHeader]
    intro address member
    rw [List.mem_singleton.mp member]
    exact .inr apart
  · intro byte outside
    rw [currWrites byte fun address member => outside address (by simp_all),
      splitWrites byte fun address member => outside address (by simp_all)]

/-- The walk takes a block that fits and leaves its placement in memory. -/
theorem kmallocWalk_take (rounds : ℕ) (at' : headerAt memory block.start = headerOf block next)
    (low : 4 ≤ block.start) (high : block.start + 12 + block.size < 2 ^ 32)
    (fits : block.free = true ∧ need.toNat ≤ block.size) :
    ∃ after, kmallocWalk need (rounds + 1) memory (UInt32.ofNat block.start) =
        some (after, UInt32.ofNat (block.start + 12)) ∧
      Linked after (place 12 4 need.toNat block) next ∧
      WritesHeaders ((place 12 4 need.toNat block).map Block.start) memory after := by
  have test := (walk_fits need at' high).mpr fits
  have result : UInt32.ofNat block.start + sizeofHeapBlock = UInt32.ofNat (block.start + 12) := by
    rw [UInt32.ofNat_add]
    rfl
  have pointer : (UInt32.ofNat block.start).toNat = block.start :=
    UInt32.toNat_ofNat_of_lt' (by omega : block.start < 2 ^ 32)
  have ofSize : (UInt32.ofNat block.size).toNat = block.size :=
    UInt32.toNat_ofNat_of_lt' (by omega : block.size < 2 ^ 32)
  have size : blockSize memory (UInt32.ofNat block.start) = UInt32.ofNat block.size := by
    rw [blockSize_eq, pointer, at']
    rfl
  have link : blockNext memory (UInt32.ofNat block.start) = UInt32.ofNat next := by
    rw [blockNext_eq, pointer, at']
    rfl
  have sum : (need + sizeofHeapBlock + 4).toNat = need.toNat + 12 + 4 := by
    have twelve : sizeofHeapBlock.toNat = 12 := rfl
    have four : (4 : UInt32).toNat = 4 := rfl
    rw [UInt32.toNat_add, UInt32.toNat_add, twelve, four]
    omega
  have splits : need + sizeofHeapBlock + 4 < blockSize memory (UInt32.ofNat block.start) ↔
      need.toNat + 12 + 4 < block.size := by
    rw [UInt32.lt_iff_toNat_lt, sum, size, ofSize]
  rw [kmallocWalk, if_neg (ofNat_ne_zero (by omega) (by omega)), if_pos test, result]
  refine ⟨_, rfl, ?_⟩
  by_cases large : need.toNat + 12 + 4 < block.size
  · have newPointer : (UInt32.ofNat (block.start + 12 + need.toNat)).toNat =
        block.start + 12 + need.toNat :=
      UInt32.toNat_ofNat_of_lt' (by omega : block.start + 12 + need.toNat < 2 ^ 32)
    have ofNew : UInt32.ofNat block.start + sizeofHeapBlock + need =
        UInt32.ofNat (block.start + 12 + need.toNat) := by
      rw [UInt32.ofNat_add (block.start + 12), UInt32.ofNat_toNat, result]
    have ofRest : blockSize memory (UInt32.ofNat block.start) - need - sizeofHeapBlock =
        UInt32.ofNat (block.size - need.toNat - 12) := by
      rw [UInt32.ofNat_sub (by omega), UInt32.ofNat_sub (by omega), UInt32.ofNat_toNat, size]
      rfl
    have spec := kmallocSplit_spec ofNew ofRest (by rw [pointer, newPointer]; omega)
    have shape : place 12 4 need.toNat block =
        [⟨block.start, need.toNat, false⟩,
          ⟨block.start + 12 + need.toNat, block.size - need.toNat - 12, true⟩] := if_pos large
    rw [if_pos (splits.mpr large), shape]
    generalize kmallocSplit memory (UInt32.ofNat block.start) need = split at spec
    rw [pointer, newPointer, link] at spec
    have own := headerAt_setFree split (UInt32.ofNat block.start) 0
    have marks := setFree_writes split (UInt32.ofNat block.start) 0
    rw [pointer] at own marks
    refine ⟨⟨?_, ?_, trivial⟩, ?_⟩
    · rw [own, spec.1]
      simp [headerOf]
    · rw [marks.headerAt, spec.2.1]
      · simp [headerOf]
      · intro address member
        rw [List.mem_singleton.mp member]
        exact .inr (by simp only; omega)
    · intro byte outside
      rw [marks byte fun address member => outside address (by simp_all),
        spec.2.2 byte fun address member => outside address (by simp_all)]
  · have shape : place 12 4 need.toNat block = [⟨block.start, block.size, false⟩] := if_neg large
    rw [if_neg (fun more => large (splits.mp more)), shape]
    have own := headerAt_setFree memory (UInt32.ofNat block.start) 0
    have marks := setFree_writes memory (UInt32.ofNat block.start) 0
    rw [pointer] at own marks
    rw [at'] at own
    refine ⟨⟨?_, trivial⟩, marks⟩
    rw [own]
    simp [headerOf]

variable {heap : Heap} {blocks blocks' : List Block} {size : UInt32}

/-- `kmalloc` returns 0 and changes nothing when no free block is large enough. -/
theorem Holds.kmalloc_none (holds : Holds heap blocks) (nonzero : size ≠ 0)
    (full : alloc 12 4 ((size + 3) &&& ~~~3).toNat blocks = none) :
    kmalloc heap size = some (heap, 0) := by
  have unfit := alloc_eq_none.mp full
  have rounds := holds.length_lt
  obtain ⟨left, rest⟩ : ∃ left, heapRounds - blocks.length = left + 1 :=
    Nat.exists_eq_add_one.mpr (by omega)
  have walk : kmallocWalk ((size + 3) &&& ~~~3) heapRounds heap.memory
      (UInt32.ofNat (follow blocks 0)) = some (heap.memory, 0) := by
    rw [kmallocWalk_skip _ holds.tiles (by decide) (by decide) holds.linked
      (fun block member fits => absurd (unfit block member fits.1) (by omega)) (by omega), rest]
    rfl
  have first : UInt32.ofNat (follow blocks 0) = heap.heapFirst := by
    rw [holds.follow_eq, holds.first]
    rfl
  rw [first] at walk
  have start : heap.heapFirst ≠ 0 := by
    rw [holds.first]
    decide
  rw [kmalloc, if_neg (by simp [start, nonzero]), walk]
  rfl

/-- `kmalloc` does what allocation of the rounded size does to the block list. -/
theorem Holds.kmalloc_some {start : ℕ} (holds : Holds heap blocks) (nonzero : size ≠ 0)
    (found : alloc 12 4 ((size + 3) &&& ~~~3).toNat blocks = some (start, blocks')) :
    ∃ after, kmalloc heap size =
        some ({ heap with memory := after }, UInt32.ofNat (start + 12)) ∧
      Holds { heap with memory := after } blocks' ∧ KeepsUsed blocks heap.memory after := by
  obtain ⟨front, taken, back, split, free, fits, where', rest, others⟩ := alloc_eq_some found
  have tiles := holds.tiles
  have linked := holds.linked
  have rounds := holds.length_lt
  have inside := holds.bounds (show taken ∈ blocks by simp [split])
  rw [split, List.length_append, List.length_cons] at rounds
  rw [split, linked_append] at linked
  rw [split, tiles_append] at tiles
  obtain ⟨middle, leftTiles, tiles'⟩ := tiles
  have at' : taken.start = middle := tiles'.1
  obtain ⟨after, walk, placed, writes⟩ := kmallocWalk_take (heapRounds - front.length - 1)
    linked.2.1 (by omega) (by omega) ⟨free, fits⟩
  have covered : ∀ address ∈ (place 12 4 ((size + 3) &&& ~~~3).toNat taken).map Block.start,
      taken.start ≤ address ∧ address + 12 ≤ taken.start + 12 + taken.size := by
    intro address member
    obtain ⟨piece, piecePlaced, same⟩ := List.mem_map.mp member
    have pieces : Tiles 12 taken.start (place 12 4 ((size + 3) &&& ~~~3).toNat taken)
        (taken.start + 12 + taken.size) := place_tiles taken
    have bounds := pieces.bounds piecePlaced
    omega
  -- the headers of the other blocks are apart from the block that is taken
  have others' : ∀ block ∈ front ++ back, headerAt after block.start =
      headerAt heap.memory block.start := by
    intro block member
    have pairwise := holds.tiles.pairwise
    rw [split] at pairwise
    have pieces := List.pairwise_append.mp pairwise
    refine writes.headerAt fun address written => ?_
    have inTaken := covered address written
    rcases List.mem_append.mp member with left | right
    · have before := pieces.2.2 block left taken (by simp)
      omega
    · have later := (List.pairwise_cons.mp pieces.2.1).1 block right
      omega
  refine ⟨after, ?_, ?_, ?_⟩
  · have first : UInt32.ofNat (follow blocks 0) = heap.heapFirst := by
      rw [holds.follow_eq, holds.first]
      rfl
    have start' : heap.heapFirst ≠ 0 := by
      rw [holds.first]
      decide
    have skip := kmallocWalk_skip heapRounds leftTiles (by decide) (by omega)
      linked.1 others (by omega)
    rw [← follow_append, ← split, first, follow_cons,
      show heapRounds - front.length = heapRounds - front.length - 1 + 1 by omega, walk] at skip
    rw [kmalloc, if_neg (by simp [start', nonzero]), skip, where']
    rfl
  · refine ⟨alloc_tiles found holds.tiles, alloc_separated found holds.separated,
      alloc_aligned found (by decide) (four_dvd_roundUp size) holds.aligned, ?_, holds.first⟩
    · rw [rest, linked_append, linked_append]
      have next : follow (place 12 4 ((size + 3) &&& ~~~3).toNat taken ++ back) 0 =
          taken.start := by
        unfold place
        split <;> rfl
      rw [next]
      have leftLinked : Linked heap.memory front taken.start := linked.1
      exact ⟨leftLinked.congr fun block member => others' block (by simp [member]),
        placed, linked.2.2.congr fun block member => others' block (by simp [member])⟩
  · intro block member used byte inPayload
    refine writes byte fun address written => ?_
    have inTaken := covered address written
    have bounds := Set.mem_Ico.mp inPayload
    rcases holds.tiles.apart member (show taken ∈ blocks by simp [split]) with same | apart | apart
    · rw [same, free] at used
      cases used
    · omega
    · omega

end Allocation

section Release

variable {memory : Memory} {before block after : Block} {blocks front back : List Block}

/-- A block takes up the block `next`: its size grows, its link skips it. -/
def takeUp (memory : Memory) (curr next : UInt32) : Memory :=
  setNext (setSize memory curr (blockSize memory curr + (sizeofHeapBlock + blockSize memory next)))
    curr (blockNext memory next)

/-- A free block that takes up the free block after it is their join in memory. -/
theorem takeUp_spec {curr next : UInt32} (ofCurr : curr.toNat = before.start)
    (ofNext : next.toNat = after.start)
    (bothFree : before.free = true ∧ after.free = true)
    (others : ∀ other ∈ back, before.start + 12 ≤ other.start)
    (linked : Linked memory (before :: after :: back) 0) :
    Linked (takeUp memory curr next) (join 12 before (after :: back)) 0 ∧
      WritesHeaders [before.start] memory (takeUp memory curr next) := by
  have atBefore : headerAt memory curr.toNat = headerOf before after.start := by
    rw [ofCurr]
    exact linked.1
  have atAfter : headerAt memory next.toNat = headerOf after (follow back 0) := by
    rw [ofNext]
    exact linked.2.1
  have writes : WritesHeaders [before.start] memory (takeUp memory curr next) := by
    rw [← ofCurr]
    intro byte outside
    rw [takeUp, setNext_writes _ _ _ byte outside, setSize_writes _ _ _ byte outside]
  refine ⟨?_, writes⟩
  have own : headerAt (takeUp memory curr next) before.start =
      headerOf ⟨before.start, before.size + (12 + after.size), true⟩ (follow back 0) := by
    rw [takeUp, ← ofCurr, headerAt_setNext, headerAt_setSize, blockSize_eq, blockSize_eq,
      blockNext_eq, atBefore, atAfter]
    simp only [headerOf, bothFree.1, if_true, UInt32.ofNat_add]
    rfl
  rw [join, if_pos bothFree]
  refine ⟨own, linked.2.2.congr fun other member => writes.headerAt fun address written => ?_⟩
  rw [List.mem_singleton.mp written]
  exact .inr (others other member)

/-- The first half of `kfree` frees the block and joins it with its successor. -/
theorem kfreeNext_spec {first last : ℕ} (tiles : Tiles 12 first (block :: back) last)
    (low : 0 < first) (high : last < 2 ^ 32) (linked : Linked memory (block :: back) 0) :
    Linked (kfreeNext memory (UInt32.ofNat block.start))
        (join 12 ⟨block.start, block.size, true⟩ back) 0 ∧
      WritesHeaders [block.start] memory (kfreeNext memory (UInt32.ofNat block.start)) := by
  have start := tiles.1
  have within := tiles.2.le
  have pointer : (UInt32.ofNat block.start).toNat = block.start :=
    UInt32.toNat_ofNat_of_lt' (by omega : block.start < 2 ^ 32)
  unfold kfreeNext
  generalize UInt32.ofNat block.start = curr at pointer
  have marks := setFree_writes memory curr 1
  have own := headerAt_setFree memory curr 1
  rw [pointer] at marks own
  rw [linked.1] at own
  generalize setFree memory curr 1 = marked at marks own
  have others : ∀ other ∈ back, block.start + 12 ≤ other.start := by
    intro other member
    have bounds := tiles.2.bounds member
    omega
  have linkedMarked : Linked marked (⟨block.start, block.size, true⟩ :: back) 0 := by
    refine ⟨own, linked.2.congr fun other member => marks.headerAt fun address written => ?_⟩
    rw [List.mem_singleton.mp written]
    exact .inr (others other member)
  have link : blockNext marked curr = UInt32.ofNat (follow back 0) := by
    rw [blockNext_eq, pointer, own]
    rfl
  simp only [link]
  cases back with
  | nil =>
    rw [if_neg (by simp)]
    exact ⟨linkedMarked, marks⟩
  | cons after back =>
    have bounds := tiles.2.bounds (show after ∈ after :: back by simp)
    have afterPointer : (UInt32.ofNat after.start).toNat = after.start :=
      UInt32.toNat_ofNat_of_lt' (by omega : after.start < 2 ^ 32)
    have atAfter : headerAt marked (UInt32.ofNat after.start).toNat =
        headerOf after (follow back 0) := by
      rw [afterPointer]
      exact linkedMarked.2.1
    rw [follow_cons] at link ⊢
    have kept : ∀ value, blockNext (setSize marked curr value) curr =
        UInt32.ofNat after.start := by
      intro value
      rw [blockNext_eq, headerAt_setSize, ← link]
      rfl
    have keptAfter : ∀ value, blockNext (setSize marked curr value) (UInt32.ofNat after.start) =
        blockNext marked (UInt32.ofNat after.start) := by
      intro value
      rw [blockNext_eq, (setSize_writes _ _ _).headerAt, ← blockNext_eq]
      intro address written
      rw [List.mem_singleton.mp written, pointer, afterPointer]
      exact .inr (others after (by simp))
    simp only [kept, keptAfter]
    have mark : blockFree marked (UInt32.ofNat after.start) ≠ 0 ↔ after.free = true := by
      rw [blockFree_eq, atAfter]
      exact headerOf_free
    by_cases free : after.free = true
    · rw [if_pos ⟨ofNat_ne_zero (by omega) (by omega), mark.mpr free⟩]
      have front : curr.toNat = (⟨block.start, block.size, true⟩ : Block).start := pointer
      have joined := takeUp_spec front afterPointer ⟨rfl, free⟩
        (fun other member => others other (by simp [member]))
        linkedMarked
      refine ⟨joined.1, fun byte outside => ?_⟩
      have left : (takeUp marked curr (UInt32.ofNat after.start)) byte = marked byte :=
        joined.2 byte outside
      exact left.trans (marks byte outside)
    · rw [if_neg (fun both => free (mark.mp both.2)), join_eq_cons]
      · exact ⟨linkedMarked, marks⟩
      · intro next member
        simp only [List.head?_cons, Option.mem_some_iff] at member
        rw [← member]
        exact fun both => free both.2

/-- The second half of `kfree` joins a predecessor with the freed block. -/
theorem kfreePrevious_spec {first last : ℕ}
    (tiles : Tiles 12 first (before :: block :: back) last) (low : 0 < first)
    (high : last < 2 ^ 32) (free : block.free = true)
    (linked : Linked memory (before :: block :: back) 0) :
    Linked (kfreePrevious memory (UInt32.ofNat before.start) (UInt32.ofNat block.start))
        (join 12 before (block :: back)) 0 ∧
      WritesHeaders [before.start] memory
        (kfreePrevious memory (UInt32.ofNat before.start) (UInt32.ofNat block.start)) := by
  have start := tiles.1
  have start' := tiles.2.1
  have within := tiles.2.2.le
  have pointer : (UInt32.ofNat before.start).toNat = before.start :=
    UInt32.toNat_ofNat_of_lt' (by omega : before.start < 2 ^ 32)
  have blockPointer : (UInt32.ofNat block.start).toNat = block.start :=
    UInt32.toNat_ofNat_of_lt' (by omega : block.start < 2 ^ 32)
  have mark : blockFree memory (UInt32.ofNat before.start) ≠ 0 ↔ before.free = true := by
    rw [blockFree_eq, pointer, linked.1]
    exact headerOf_free
  have keptNext : ∀ value, blockNext (setSize memory (UInt32.ofNat before.start) value)
      (UInt32.ofNat block.start) = blockNext memory (UInt32.ofNat block.start) := by
    intro value
    rw [blockNext_eq, (setSize_writes _ _ _).headerAt, ← blockNext_eq]
    intro address written
    rw [List.mem_singleton.mp written, pointer, blockPointer]
    exact .inr (by omega)
  unfold kfreePrevious
  simp only [keptNext]
  by_cases both : before.free = true
  · rw [if_pos ⟨ofNat_ne_zero (by omega) (by omega), mark.mpr both⟩]
    refine takeUp_spec pointer blockPointer ⟨both, free⟩ ?_ linked
    intro other member
    have bounds := tiles.2.2.bounds member
    omega
  · rw [if_neg (fun test => both (mark.mp test.2)), join_eq_cons]
    · exact ⟨linked, fun _ _ => rfl⟩
    · exact fun _ _ test => both test.1

/-- The search of `kfree` finds the predecessor. -/
theorem kfreeWalk_found {first stop : ℕ} (rounds : ℕ)
    (tiles : Tiles 12 first (front ++ [before]) stop) (low : 0 < first) (high : stop < 2 ^ 32) (linked : Linked memory (front ++ [before]) stop)
    (enough : front.length < rounds) :
    kfreeWalk memory (UInt32.ofNat stop) rounds (UInt32.ofNat (follow (front ++ [before]) stop)) =
      some (UInt32.ofNat before.start) := by
  induction front generalizing first rounds with
  | nil =>
    obtain ⟨rest, rfl⟩ : ∃ rest, rounds = rest + 1 :=
      Nat.exists_eq_add_one.mpr (by simp only [List.length_nil] at enough; omega)
    have start := tiles.1
    have within := tiles.2.le
    have link : blockNext memory (UInt32.ofNat before.start) = UInt32.ofNat stop := by
      rw [blockNext_eq, headerAt_pointer (by omega), linked.1]
      rfl
    rw [List.nil_append, follow_cons, kfreeWalk, if_neg (ofNat_ne_zero (by omega) (by omega)),
      if_pos link]
  | cons first' front ih =>
    obtain ⟨rest, rfl⟩ : ∃ rest, rounds = rest + 1 :=
      Nat.exists_eq_add_one.mpr (by simp only [List.length_cons] at enough; omega)
    have start := tiles.1
    have within := tiles.2.le
    have link : blockNext memory (UInt32.ofNat first'.start) =
        UInt32.ofNat (follow (front ++ [before]) stop) := by
      rw [blockNext_eq, headerAt_pointer (by omega), linked.1]
      rfl
    obtain ⟨next, nextMember, nextStart⟩ : ∃ next ∈ front ++ [before],
        follow (front ++ [before]) stop = next.start := by
      cases front with
      | nil => exact ⟨before, by simp, rfl⟩
      | cons second front => exact ⟨second, by simp, rfl⟩
    have bounds := tiles.2.bounds nextMember
    have other : blockNext memory (UInt32.ofNat first'.start) ≠ UInt32.ofNat stop := by
      intro same
      rw [link, nextStart] at same
      have value := congrArg UInt32.toNat same
      rw [UInt32.toNat_ofNat_of_lt' (by omega : next.start < 2 ^ 32),
        UInt32.toNat_ofNat_of_lt' high] at value
      omega
    rw [List.cons_append, follow_cons, kfreeWalk, if_neg (ofNat_ne_zero (by omega) (by omega)),
      if_neg other, link]
    exact ih rest tiles.2 (by omega) linked.2 (by simpa using enough)

/-- The search of `kfree` for the first block of the list ends with 0. -/
theorem kfreeWalk_missed {first last target : ℕ} (rounds : ℕ)
    (tiles : Tiles 12 first blocks last) (low : 0 < target) (before : target ≤ first) (high : last < 2 ^ 32)
    (linked : Linked memory blocks 0) (enough : blocks.length < rounds) :
    kfreeWalk memory (UInt32.ofNat target) rounds (UInt32.ofNat (follow blocks 0)) = some 0 := by
  induction blocks generalizing first rounds with
  | nil =>
    obtain ⟨rest, rfl⟩ : ∃ rest, rounds = rest + 1 := Nat.exists_eq_add_one.mpr (by omega)
    rfl
  | cons block blocks ih =>
    obtain ⟨rest, rfl⟩ : ∃ rest, rounds = rest + 1 :=
      Nat.exists_eq_add_one.mpr (by simp only [List.length_cons] at enough; omega)
    have start := tiles.1
    have within := tiles.2.le
    have link : blockNext memory (UInt32.ofNat block.start) = UInt32.ofNat (follow blocks 0) := by
      rw [blockNext_eq, headerAt_pointer (by omega), linked.1]
      rfl
    have nextStart : follow blocks 0 < 2 ^ 32 ∧ follow blocks 0 ≠ target := by
      cases blocks with
      | nil =>
        rw [follow_nil]
        omega
      | cons next blocks =>
        have bounds := tiles.2.bounds (show next ∈ next :: blocks by simp)
        rw [follow_cons]
        omega
    have other : blockNext memory (UInt32.ofNat block.start) ≠ UInt32.ofNat target := by
      intro same
      rw [link] at same
      have value := congrArg UInt32.toNat same
      rw [UInt32.toNat_ofNat_of_lt' nextStart.1,
        UInt32.toNat_ofNat_of_lt' (by omega : target < 2 ^ 32)] at value
      exact nextStart.2 value
    rw [follow_cons, kfreeWalk, if_neg (ofNat_ne_zero (by omega) (by omega)), if_neg other, link]
    exact ih rest tiles.2 (by omega) linked.2 (by simpa using enough)

variable {heap : Heap}

/-- `kfree` of a block's pointer does what release does to the block list, and writes
no payload. -/
theorem Holds.kfree (holds : Holds heap blocks) (member : block ∈ blocks) :
    ∃ after, kfree heap (UInt32.ofNat (block.start + 12)) = some { heap with memory := after } ∧
      Holds { heap with memory := after } (release 12 block.start blocks) ∧
      ∀ other ∈ blocks, ∀ byte ∈ payload other, after byte = heap.memory byte := by
  obtain ⟨front, back, split⟩ := List.append_of_mem member
  have tiles := holds.tiles
  have linked := holds.linked
  have rounds := holds.length_lt
  have inside := holds.bounds member
  have pairwise := holds.tiles.pairwise
  rw [split, List.length_append, List.length_cons] at rounds
  rw [split, linked_append, follow_cons] at linked
  rw [split, tiles_append] at tiles
  rw [split] at pairwise
  obtain ⟨middle, frontTiles, blockTiles⟩ := tiles
  have start := blockTiles.1
  have low : 0 < middle := by omega
  have pointer : UInt32.ofNat (block.start + 12) - sizeofHeapBlock = UInt32.ofNat block.start := by
    rw [UInt32.ofNat_add]
    exact UInt32.add_sub_cancel _ _
  have nonzero : UInt32.ofNat (block.start + 12) ≠ 0 := ofNat_ne_zero (by omega) (by omega)
  have joined := kfreeNext_spec blockTiles low (by decide) linked.2
  have joinedTiles : Tiles 12 middle (join 12 ⟨block.start, block.size, true⟩ back) heapLimit :=
    join_tiles ⟨blockTiles.1, blockTiles.2⟩
  have first : heap.heapFirst = UInt32.ofNat (follow blocks 0) := by
    rw [holds.follow_eq, holds.first]
    rfl
  have frontLinked : Linked (kfreeNext heap.memory (UInt32.ofNat block.start)) front
      block.start := by
    refine linked.1.congr fun other inFront => joined.2.headerAt fun address written => ?_
    have before := (List.pairwise_append.mp pairwise).2.2 other inFront block (by simp)
    rw [List.mem_singleton.mp written]
    omega
  rw [Kheap.kfree, if_neg nonzero, pointer]
  dsimp only
  generalize kfreeNext heap.memory (UInt32.ofNat block.start) = freed at joined frontLinked
  -- whatever headers of blocks are written, payloads are apart from them
  have payloads : ∀ {after addresses}, WritesHeaders addresses heap.memory after →
      (∀ address ∈ addresses, ∃ other ∈ blocks, other.start = address) →
      ∀ other ∈ blocks, ∀ byte ∈ payload other, after byte = heap.memory byte := by
    intro after addresses writes ofBlocks other member' byte inPayload
    refine writes byte fun address written => ?_
    obtain ⟨owner, ownerMember, same⟩ := ofBlocks address written
    have bounds := Set.mem_Ico.mp inPayload
    have apart := holds.tiles.apart member' ownerMember
    rcases apart with equal | before | behind
    · rw [← same, ← equal]
      omega
    · omega
    · omega
  obtain ⟨size, rest, shape⟩ : ∃ size rest, join 12 ⟨block.start, block.size, true⟩ back =
      ⟨block.start, size, true⟩ :: rest := join_free back rfl
  rcases List.eq_nil_or_concat front with empty | ⟨front', before, concat⟩
  · -- the first block has no predecessor: the search runs to the end of the list
    subst empty
    have whole : release 12 block.start blocks = join 12 ⟨block.start, block.size, true⟩ back := by
      rw [split]
      exact release_cons back
    have start' : follow blocks 0 =
        follow (join 12 ⟨block.start, block.size, true⟩ back) 0 := by
      rw [split, shape]
      rfl
    have shorter := joinedTiles.length_le
    have walk := kfreeWalk_missed heapRounds joinedTiles (by omega)
      (Nat.le_of_eq start) (by decide) joined.1
      (by simp only [heapLimit, heapRounds] at *; omega)
    refine ⟨freed, ?_, ⟨release_tiles holds.tiles, release_separated holds.separated,
      release_aligned (by decide) holds.aligned, ?_, holds.first⟩, ?_⟩
    · rw [first, start', walk]
      rfl
    · rw [whole]
      exact joined.1
    · refine payloads joined.2 fun address written => ?_
      exact ⟨block, member, (List.mem_singleton.mp written).symm⟩
  · rw [List.concat_eq_append] at concat
    subst concat
    have separated := holds.separated
    rw [split] at separated
    have whole : release 12 block.start blocks =
        front' ++ join 12 before (join 12 ⟨block.start, block.size, true⟩ back) := by
      rw [split, List.append_assoc]
      refine release_append (fun other inFront => ?_) (List.isChain_append.mp separated).1
      have earlier := (List.pairwise_append.mp pairwise).2.2 other inFront block (by simp)
      omega
    rw [tiles_append] at frontTiles
    obtain ⟨joint, leftTiles, beforeTiles⟩ := frontTiles
    have beforeStart := beforeTiles.1
    have beforeStop : joint + 12 + before.size = middle := beforeTiles.2
    have leftLe := leftTiles.le
    have bothTiles : Tiles 12 joint (before :: join 12 ⟨block.start, block.size, true⟩ back)
        heapLimit := by
      refine ⟨beforeTiles.1, ?_⟩
      rw [beforeStop]
      exact joinedTiles
    have parts := linked_append.mp frontLinked
    have bothLinked : Linked freed (before :: join 12 ⟨block.start, block.size, true⟩ back) 0 := by
      refine ⟨?_, joined.1⟩
      rw [shape]
      exact parts.2.1
    have search : Tiles 12 heapBase (front' ++ [before]) block.start := by
      rw [tiles_append]
      exact ⟨joint, leftTiles, beforeTiles.1, by rw [start]; exact beforeTiles.2⟩
    have walk := kfreeWalk_found heapRounds search (by decide) (by omega) frontLinked
      (by rw [List.length_append] at rounds; omega)
    have start' : follow blocks 0 = follow (front' ++ [before]) block.start := by
      rw [split, follow_append]
      rfl
    rw [shape] at bothTiles bothLinked
    have previous := kfreePrevious_spec bothTiles (by simp only [heapBase] at *; omega) (by decide)
      rfl bothLinked
    dsimp only at previous
    rw [← start', ← first] at walk
    rw [walk]
    refine ⟨_, rfl, ⟨release_tiles holds.tiles, release_separated holds.separated,
      release_aligned (by decide) holds.aligned, ?_, holds.first⟩, ?_⟩
    · rw [whole, shape, linked_append]
      have next : follow (join 12 before (⟨block.start, size, true⟩ :: rest)) 0 =
          before.start := by
        have head : (join 12 before (⟨block.start, size, true⟩ :: rest)).head?.map Block.start =
            some before.start := join_head _ _
        rw [follow, head]
        rfl
      rw [next]
      have leftLinked : Linked freed front' before.start := parts.1
      refine ⟨leftLinked.congr fun other inFront => previous.2.headerAt fun address written => ?_,
        previous.1⟩
      have left := (List.pairwise_append.mp (List.pairwise_append.mp pairwise).1).2.2 other inFront
        before (by simp)
      rw [List.mem_singleton.mp written]
      omega
    · refine payloads (joined.2.trans previous.2) fun address written => ?_
      simp only [List.cons_append, List.nil_append, List.mem_cons, List.not_mem_nil,
        or_false] at written
      rcases written with own | left
      · exact ⟨block, member, own.symm⟩
      · exact ⟨before, by simp [split], left.symm⟩

end Release

end HexaOS.Kheap
