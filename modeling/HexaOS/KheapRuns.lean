import HexaOS.KheapBlocks
import Mathlib.Data.Set.Lattice
import Mathlib.Order.CompletePartialOrder

/-!
# Runs of the kernel heap

A run starts with `kheap_init` and goes on with calls of `kmalloc`, `kfree` and
`krealloc` on live pointers, and with stores of the owners into their payloads. In
every state of every run the block list in memory tiles the heap, live payloads are
disjoint, and each call returns and keeps the payloads of the others.
-/

namespace HexaOS.Kheap

open HexaOS.PackedBytes FirstFit

/-- The blocks of the list in memory from one block on. -/
def blocksFrom (memory : Memory) : ℕ → UInt32 → Option (List Block)
  | 0, _ => none
  | rounds + 1, curr =>
    if curr = 0 then some []
    else
      (blocksFrom memory rounds (blockNext memory curr)).map fun rest =>
        ⟨curr.toNat, (blockSize memory curr).toNat, blockFree memory curr != 0⟩ :: rest

/-- The block list in memory. -/
def Heap.blocks (heap : Heap) : Option (List Block) :=
  blocksFrom heap.memory heapRounds heap.heapFirst

/-- A pointer that was handed out and not given back, with the size asked for. -/
structure LivePointer where
  /-- The address of the payload. -/
  pointer : UInt32
  /-- The size of the last request for it. -/
  size : UInt32
  deriving DecidableEq

/-- The payload that a heap keeps for a pointer. -/
def Heap.payloadOf (heap : Heap) (pointer : UInt32) : Set ℕ :=
  Set.Ico pointer.toNat
    (pointer.toNat + (blockSize heap.memory (pointer - sizeofHeapBlock)).toNat)

/-- A call to the heap. -/
inductive HeapCall where
  /-- `kmalloc(size)`. -/
  | kmalloc (size : UInt32)
  /-- `kfree(ptr)`. -/
  | kfree (ptr : UInt32)
  /-- `krealloc(ptr, size)`. -/
  | krealloc (ptr size : UInt32)

/-- Sizes leave room for rounding, and pointers are NULL or live. -/
def HeapCall.Legal (live : List LivePointer) : HeapCall → Prop
  | kmalloc size => size ≤ 0xFFFFFFFC
  | kfree ptr => ptr = 0 ∨ ptr ∈ live.map LivePointer.pointer
  | krealloc ptr size =>
    size ≤ 0xFFFFFFFC ∧ (ptr = 0 ∨ ptr ∈ live.map LivePointer.pointer)

instance HeapCall.decidableLegal (live : List LivePointer) :
    (call : HeapCall) → Decidable (call.Legal live)
  | kmalloc size => inferInstanceAs (Decidable (size ≤ 0xFFFFFFFC))
  | kfree ptr => inferInstanceAs (Decidable (ptr = 0 ∨ ptr ∈ live.map LivePointer.pointer))
  | krealloc ptr size =>
    inferInstanceAs (Decidable (size ≤ 0xFFFFFFFC ∧
      (ptr = 0 ∨ ptr ∈ live.map LivePointer.pointer)))

/-- The heap after a call and what the call returns, 0 for `kfree`. -/
def HeapCall.run (heap : Heap) : HeapCall → Option (Heap × UInt32)
  | kmalloc size => Kheap.kmalloc heap size
  | kfree ptr => (Kheap.kfree heap ptr).map fun after => (after, 0)
  | krealloc ptr size => Kheap.krealloc heap ptr size

/-- The live pointers without one of them. -/
def dropPointer (live : List LivePointer) (ptr : UInt32) : List LivePointer :=
  live.filter fun owner => owner.pointer ≠ ptr

/-- The live pointers after a call that returned `result`. -/
def HeapCall.live (live : List LivePointer) (result : UInt32) : HeapCall → List LivePointer
  | kmalloc size => if result = 0 then live else ⟨result, size⟩ :: live
  | kfree ptr => dropPointer live ptr
  | krealloc ptr size => if result = 0 then live else ⟨result, size⟩ :: dropPointer live ptr

/-- The pointer whose payload a call may give up. -/
def HeapCall.givesUp (result : UInt32) : HeapCall → UInt32
  | kmalloc _ => 0
  | kfree ptr => ptr
  | krealloc ptr _ => if result = 0 then 0 else ptr

/-- The states of runs after `kheap_init`. -/
inductive HeapRun : Heap → List LivePointer → Prop
  /-- `kheap_init` on any memory. -/
  | init (memory : Memory) : HeapRun (kheapInit memory) []
  /-- A legal call that returned. -/
  | call {heap after : Heap} {live : List LivePointer} {result : UInt32} (call : HeapCall)
      (before : HeapRun heap live) (legal : call.Legal live)
      (returned : call.run heap = some (after, result)) : HeapRun after (call.live live result)
  /-- An owner stores a byte within the size it asked for. -/
  | store {heap : Heap} {live : List LivePointer} {owner : LivePointer} (offset : ℕ) (byte : UInt8)
      (before : HeapRun heap live) (owned : owner ∈ live) (within : offset < owner.size.toNat) :
      HeapRun { heap with memory := heap.memory.store (owner.pointer.toNat + offset) byte } live

/-- `kfree` of pointers one after the other. -/
def freeAll (heap : Heap) : List UInt32 → Option Heap
  | [] => some heap
  | ptr :: rest => (kfree heap ptr).bind fun after => freeAll after rest

section Blocks

variable {heap : Heap} {blocks : List Block}

/-- The walk over the list in memory finds the blocks it holds. -/
theorem blocksFrom_linked {memory : Memory} {first last rounds : ℕ}
    (tiles : Tiles 12 first blocks last) (low : 0 < first) (high : last < 2 ^ 32)
    (linked : Linked memory blocks 0) (enough : blocks.length < rounds) :
    blocksFrom memory rounds (UInt32.ofNat (follow blocks 0)) = some blocks := by
  induction blocks generalizing first rounds with
  | nil =>
    obtain ⟨rest, rfl⟩ : ∃ rest, rounds = rest + 1 := Nat.exists_eq_add_one.mpr (by omega)
    rfl
  | cons block blocks ih =>
    obtain ⟨rest, rfl⟩ : ∃ rest, rounds = rest + 1 :=
      Nat.exists_eq_add_one.mpr (by simp only [List.length_cons] at enough; omega)
    have start := tiles.1
    have within := tiles.2.le
    have pointer : (UInt32.ofNat block.start).toNat = block.start :=
      UInt32.toNat_ofNat_of_lt' (by omega : block.start < 2 ^ 32)
    have size : (UInt32.ofNat block.size).toNat = block.size :=
      UInt32.toNat_ofNat_of_lt' (by omega : block.size < 2 ^ 32)
    have mark : ((headerOf block (follow blocks 0)).free != 0) = block.free := by
      rw [Bool.eq_iff_iff, bne_iff_ne]
      exact headerOf_free
    rw [follow_cons, blocksFrom, if_neg (ofNat_ne_zero (by omega) (by omega)), blockNext_eq,
      blockSize_eq, blockFree_eq, pointer, linked.1, mark]
    have tail := ih tiles.2 (by omega) linked.2 (by simpa using enough)
    have link : (headerOf block (follow blocks 0)).next = UInt32.ofNat (follow blocks 0) := rfl
    rw [link, tail]
    simp [headerOf, size]

/-- The block list in memory is the one the heap holds. -/
theorem Holds.blocks_eq (holds : Holds heap blocks) : heap.blocks = some blocks := by
  have first : heap.heapFirst = UInt32.ofNat (follow blocks 0) := by
    rw [holds.follow_eq, holds.first]
    rfl
  have rounds := holds.length_lt
  rw [Heap.blocks, first]
  exact blocksFrom_linked holds.tiles (by decide) (by decide) holds.linked (by omega)

/-- Stores inside payloads keep the block list. -/
theorem Holds.congr {after : Memory} (holds : Holds heap blocks)
    (same : ∀ block ∈ blocks, ∀ byte, block.start ≤ byte → byte < block.start + 12 →
      after byte = heap.memory byte) :
    Holds { heap with memory := after } blocks :=
  ⟨holds.tiles, holds.separated, holds.aligned,
    holds.linked.congr fun block member => headerAt_congr (same block member), holds.first⟩

/-- A store inside the payload of one block keeps the list and the other payloads. -/
theorem Holds.store {after : Memory} {block : Block} (holds : Holds heap blocks)
    (member : block ∈ blocks)
    (outside : ∀ byte, byte ∉ payload block → after byte = heap.memory byte) :
    Holds { heap with memory := after } blocks ∧
      ∀ other ∈ blocks, other ≠ block → ∀ byte ∈ payload other,
        after byte = heap.memory byte := by
  constructor
  · refine holds.congr fun other member' byte low high => outside byte fun inside => ?_
    have bounds := Set.mem_Ico.mp inside
    rcases holds.tiles.apart member member' with same | before | behind
    · rw [same] at bounds
      omega
    · omega
    · omega
  · intro other member' different byte inPayload
    refine outside byte fun inside => ?_
    have bounds := Set.mem_Ico.mp inside
    have bounds' := Set.mem_Ico.mp inPayload
    rcases holds.tiles.apart member member' with same | before | behind
    · exact different same.symm
    · omega
    · omega

/-- The heap after `kheap_init` holds one free block. -/
theorem kheapInit_holds (memory : Memory) :
    Holds (kheapInit memory) [⟨heapBase, 1024 * 1024 - 12, true⟩] := by
  refine ⟨⟨rfl, rfl⟩, List.isChain_singleton _, ?_, ⟨?_, trivial⟩, rfl⟩
  · intro block member
    rw [List.mem_singleton.mp member]
    decide
  · have header : headerAt (kheapInit memory).memory heapStart.toNat =
        ⟨heapInitSize - sizeofHeapBlock, 1, 0⟩ := by
      rw [kheapInit, headerAt_setNext, headerAt_setFree, headerAt_setSize]
    exact header

end Blocks

section Copy

/-- The copy loop of `krealloc` copies the rest of the payload and nothing else. -/
theorem kreallocCopy_spec {block : UInt32} (target source : UInt32) {size i : ℕ}
    {memory : Memory} (rounds : ℕ) (ofSize : blockSize memory block = UInt32.ofNat size)
    (small : size < 2 ^ 32)
    (targetFits : target.toNat + size < 2 ^ 32) (sourceFits : source.toNat + size < 2 ^ 32)
    (apart : source.toNat + size ≤ target.toNat ∨ target.toNat + size ≤ source.toNat)
    (header : block.toNat + 12 ≤ target.toNat ∨ target.toNat + size ≤ block.toNat)
    (reached : i ≤ size) (enough : size - i < rounds) :
    ∃ after, kreallocCopy block target source rounds (UInt32.ofNat i) memory = some after ∧
      (∀ j, i ≤ j → j < size → after (target.toNat + j) = memory (source.toNat + j)) ∧
      ∀ byte, byte < target.toNat + i ∨ target.toNat + size ≤ byte → after byte = memory byte := by
  induction rounds generalizing i memory with
  | zero => omega
  | succ rounds ih =>
    have index : (UInt32.ofNat i).toNat = i := UInt32.toNat_ofNat_of_lt' (by omega : i < 2 ^ 32)
    have bound : (UInt32.ofNat size).toNat = size := UInt32.toNat_ofNat_of_lt' small
    have test : UInt32.ofNat i < blockSize memory block ↔ i < size := by
      rw [ofSize, UInt32.lt_iff_toNat_lt, index, bound]
    rw [kreallocCopy]
    by_cases more : i < size
    · rw [if_pos (test.mpr more)]
      have targetAt : (target + UInt32.ofNat i).toNat = target.toNat + i := by
        rw [UInt32.toNat_add, index]
        exact Nat.mod_eq_of_lt (by omega)
      have sourceAt : (source + UInt32.ofNat i).toNat = source.toNat + i := by
        rw [UInt32.toNat_add, index]
        exact Nat.mod_eq_of_lt (by omega)
      have next : UInt32.ofNat i + 1 = UInt32.ofNat (i + 1) := by
        rw [UInt32.ofNat_add]
        rfl
      rw [targetAt, sourceAt, next]
      have kept : blockSize (memory.store (target.toNat + i) (memory (source.toNat + i))) block =
          UInt32.ofNat size := by
        rw [← ofSize]
        exact word_congr fun byte _ _ => if_neg (by omega)
      obtain ⟨after, run, copied, outside⟩ := ih (i := i + 1) kept (by omega) (by omega)
      refine ⟨after, run, fun j low high => ?_, fun byte away => ?_⟩
      · by_cases same : j = i
        · rw [same, outside _ (.inl (by omega))]
          exact if_pos rfl
        · rw [copied j (by omega) high]
          exact if_neg (by omega)
      · rw [outside byte (by omega)]
        exact if_neg (by omega)
    · rw [if_neg fun less => more (test.mp less)]
      exact ⟨memory, rfl, fun j _ _ => by omega, fun _ _ => rfl⟩

end Copy

section Live

variable {heap : Heap} {blocks : List Block} {live : List LivePointer}

/-- The pointer to the payload of a block. -/
def pointerTo (block : Block) : UInt32 := UInt32.ofNat (block.start + 12)

/-- The blocks in use are those of the live pointers, one for each. -/
structure Owned (blocks : List Block) (live : List LivePointer) : Prop where
  /-- Each live pointer has a block in use with the size asked for. -/
  served : ∀ owner ∈ live, ∃ block ∈ blocks, block.free = false ∧
    owner.pointer = pointerTo block ∧ owner.size.toNat ≤ block.size
  /-- Each block in use belongs to a live pointer. -/
  owners : ∀ block ∈ blocks, block.free = false → ∃ owner ∈ live, owner.pointer = pointerTo block
  /-- No pointer is live twice. -/
  distinct : (live.map LivePointer.pointer).Nodup

/-- Pointers into the heap tell its blocks apart. -/
theorem Holds.pointerTo_toNat (holds : Holds heap blocks) {block : Block}
    (member : block ∈ blocks) : (pointerTo block).toNat = block.start + 12 := by
  have bounds := holds.bounds member
  exact UInt32.toNat_ofNat_of_lt' (by omega : block.start + 12 < 2 ^ 32)

/-- Two blocks with one pointer are one block. -/
theorem Holds.eq_of_pointer (holds : Holds heap blocks) {one other : Block}
    (left : one ∈ blocks) (right : other ∈ blocks) (same : pointerTo one = pointerTo other) :
    one = other := by
  have value := congrArg UInt32.toNat same
  rw [holds.pointerTo_toNat left, holds.pointerTo_toNat right] at value
  exact holds.tiles.eq_of_start (by decide) left right (by omega)

/-- A pointer to a block is not NULL. -/
theorem Holds.pointerTo_ne_zero (holds : Holds heap blocks) {block : Block}
    (member : block ∈ blocks) : pointerTo block ≠ 0 := by
  have bounds := holds.bounds member
  exact ofNat_ne_zero (by omega) (by omega)

/-- The header of a pointer's block. -/
theorem pointerTo_sub (block : Block) :
    pointerTo block - sizeofHeapBlock = UInt32.ofNat block.start := by
  rw [pointerTo, UInt32.ofNat_add]
  exact UInt32.add_sub_cancel _ _

/-- A block that was linked has its size in memory. -/
theorem Linked.size {memory : Memory} {stop : ℕ} {block : Block}
    (linked : Linked memory blocks stop) (member : block ∈ blocks) (high : block.start < 2 ^ 32) :
    blockSize memory (UInt32.ofNat block.start) = UInt32.ofNat block.size := by
  obtain ⟨front, back, split⟩ := List.append_of_mem member
  rw [split, linked_append] at linked
  rw [blockSize_eq, headerAt_pointer high, linked.2.1]
  rfl

/-- The payload of a block's pointer is the block's. -/
theorem Holds.payloadOf_eq (holds : Holds heap blocks) {block : Block} (member : block ∈ blocks) :
    heap.payloadOf (pointerTo block) = payload block := by
  have bounds := holds.bounds member
  have size : (UInt32.ofNat block.size).toNat = block.size :=
    UInt32.toNat_ofNat_of_lt' (by omega : block.size < 2 ^ 32)
  rw [Heap.payloadOf, pointerTo_sub, holds.linked.size member (by omega), size,
    holds.pointerTo_toNat member, payload]

/-- A new block in use for a new live pointer. -/
theorem Owned.insert {blocks' : List Block} {block : Block} {size : UInt32}
    (owned : Owned blocks live) (used : block.free = false) (enough : size.toNat ≤ block.size)
    (fresh : pointerTo block ∉ live.map LivePointer.pointer)
    (same : ∀ other, other.free = false → (other ∈ blocks' ↔ other ∈ blocks ∨ other = block)) :
    Owned blocks' (⟨pointerTo block, size⟩ :: live) := by
  refine ⟨fun owner member => ?_, fun other member used' => ?_, ?_⟩
  · rcases List.mem_cons.mp member with rfl | older
    · exact ⟨block, (same block used).mpr (.inr rfl), used, rfl, enough⟩
    · obtain ⟨old, oldMember, oldUsed, rest⟩ := owned.served owner older
      exact ⟨old, (same old oldUsed).mpr (.inl oldMember), oldUsed, rest⟩
  · rcases (same other used').mp member with older | rfl
    · obtain ⟨owner, ownerMember, pointer⟩ := owned.owners other older used'
      exact ⟨owner, by simp [ownerMember], pointer⟩
    · exact ⟨⟨pointerTo other, size⟩, by simp, rfl⟩
  · rw [List.map_cons, List.nodup_cons]
    exact ⟨fresh, owned.distinct⟩

/-- The live pointers after one of them is dropped. -/
theorem mem_dropPointer {owner : LivePointer} {ptr : UInt32} :
    owner ∈ dropPointer live ptr ↔ owner ∈ live ∧ owner.pointer ≠ ptr := by
  simp [dropPointer]

/-- Pointers stay distinct when one is dropped. -/
theorem dropPointer_nodup {ptr : UInt32} (distinct : (live.map LivePointer.pointer).Nodup) :
    ((dropPointer live ptr).map LivePointer.pointer).Nodup :=
  distinct.sublist (List.Sublist.map _ List.filter_sublist)

/-- A block in use is given up with its pointer. -/
theorem Owned.drop {blocks' : List Block} {block : Block} (holds : Holds heap blocks)
    (owned : Owned blocks live) (gone : block ∈ blocks)
    (same : ∀ other, other.free = false →
      (other ∈ blocks' ↔ other ∈ blocks ∧ other.start ≠ block.start)) :
    Owned blocks' (dropPointer live (pointerTo block)) := by
  refine ⟨fun owner member => ?_, fun other member used => ?_, dropPointer_nodup owned.distinct⟩
  · have kept := mem_dropPointer.mp member
    obtain ⟨old, oldMember, oldUsed, pointer, size⟩ := owned.served owner kept.1
    refine ⟨old, (same old oldUsed).mpr ⟨oldMember, fun start => kept.2 ?_⟩, oldUsed, pointer, size⟩
    rw [pointer, pointerTo, start, pointerTo]
  · have kept := (same other used).mp member
    obtain ⟨owner, ownerMember, pointer⟩ := owned.owners other kept.1 used
    refine ⟨owner, mem_dropPointer.mpr ⟨ownerMember, fun equal => kept.2 ?_⟩, pointer⟩
    rw [holds.eq_of_pointer kept.1 gone (pointer.symm.trans equal)]

/-- A live pointer is the pointer of a block in use. -/
theorem Owned.block_of_pointer (owned : Owned blocks live) {ptr : UInt32}
    (member : ptr ∈ live.map LivePointer.pointer) :
    ∃ block ∈ blocks, block.free = false ∧ ptr = pointerTo block := by
  obtain ⟨owner, ownerMember, rfl⟩ := List.mem_map.mp member
  obtain ⟨block, blockMember, used, pointer, -⟩ := owned.served owner ownerMember
  exact ⟨block, blockMember, used, pointer⟩

/-- What `kmalloc` left: a new block in use, apart from those that were. -/
structure Handed (heap : Heap) (blocks : List Block) (size : UInt32) (after : Memory)
    (blocks' : List Block) (block : Block) : Prop where
  /-- The heap is one again. -/
  holds : Holds { heap with memory := after } blocks'
  /-- The new block is in the list. -/
  mem : block ∈ blocks'
  /-- It is in use. -/
  used : block.free = false
  /-- It is as large as asked for. -/
  enough : size.toNat ≤ block.size
  /-- No block in use had its address. -/
  fresh : ∀ old ∈ blocks, old.free = false → pointerTo old ≠ pointerTo block
  /-- It is the only new block in use, and none is lost. -/
  same : ∀ other, other.free = false → (other ∈ blocks' ↔ other ∈ blocks ∨ other = block)
  /-- The payloads in use are as they were. -/
  kept : KeepsUsed blocks heap.memory after

/-- `kmalloc` returns: 0 with the heap as it was, and then no free block has the rounded size,
or the pointer to a new block of that size. -/
theorem Holds.kmalloc_rounded {size : UInt32} (holds : Holds heap blocks) (nonzero : size ≠ 0) :
    (kmalloc heap size = some (heap, 0) ∧
      ∀ block ∈ blocks, block.free = true → block.size < ((size + 3) &&& ~~~3).toNat) ∨
    ∃ after blocks' block,
      kmalloc heap size = some ({ heap with memory := after }, pointerTo block) ∧
        ∀ asked : UInt32, asked.toNat ≤ ((size + 3) &&& ~~~3).toNat →
          Handed heap blocks asked after blocks' block := by
  rcases found : alloc 12 4 ((size + 3) &&& ~~~3).toNat blocks with _ | ⟨start, blocks'⟩
  · exact .inl ⟨holds.kmalloc_none nonzero found, alloc_eq_none.mp found⟩
  · obtain ⟨after, returned, holds', kept⟩ := holds.kmalloc_some nonzero found
    obtain ⟨length, enough, same⟩ := alloc_used found
    obtain ⟨front, taken, back, split, free, -, where', -⟩ := alloc_eq_some found
    have takenMember : taken ∈ blocks := by simp [split]
    have mem : (⟨start, length, false⟩ : Block) ∈ blocks' := (same _ rfl).mpr (.inr rfl)
    refine .inr ⟨after, blocks', ⟨start, length, false⟩, returned, fun asked less =>
      ⟨holds', mem, rfl, le_trans less enough, fun old member used equal => ?_, same, kept⟩⟩
    have pointers : pointerTo old = pointerTo taken := by
      rw [equal, pointerTo, where', pointerTo]
    rw [holds.eq_of_pointer member takenMember pointers, free] at used
    cases used

/-- `kmalloc` returns: 0 with the heap as it was, and then no free block is large
enough, or the pointer to a new block. -/
theorem Holds.kmalloc_cases {size : UInt32} (holds : Holds heap blocks)
    (small : size ≤ 0xFFFFFFFC) :
    (kmalloc heap size = some (heap, 0) ∧
      (size ≠ 0 → ∀ block ∈ blocks, block.free = true → block.size < size.toNat)) ∨
    ∃ after blocks' block,
      kmalloc heap size = some ({ heap with memory := after }, pointerTo block) ∧
        Handed heap blocks size after blocks' block := by
  by_cases nonzero : size = 0
  · refine .inl ⟨?_, fun some => absurd nonzero some⟩
    rw [kmalloc, if_pos (.inr nonzero)]
  have rounded := roundUp_toNat small
  rcases holds.kmalloc_rounded nonzero with ⟨returned, full⟩ | ⟨after, blocks', block, returned, handed⟩
  · refine .inl ⟨returned, fun _ block member free => ?_⟩
    have less := full block member free
    have aligned := holds.aligned block member
    omega
  · exact .inr ⟨after, blocks', block, returned, handed size (by omega)⟩

/-- What a call promises about the bytes it meets. -/
structure CallKeeps (heap : Heap) (live : List LivePointer) (call : HeapCall) (after : Heap)
    (result : UInt32) : Prop where
  /-- Payloads of live pointers that are not given up keep their bytes. -/
  kept : ∀ owner ∈ live, owner.pointer ≠ call.givesUp result →
    ∀ byte ∈ heap.payloadOf owner.pointer, after.memory byte = heap.memory byte
  /-- A successful `krealloc` carries the old payload over. -/
  carried : ∀ ptr size, call = .krealloc ptr size → ptr ≠ 0 → result ≠ 0 →
    ∀ i < (blockSize heap.memory (ptr - sizeofHeapBlock)).toNat,
      after.memory (result.toNat + i) = heap.memory (ptr.toNat + i)
  /-- `kmalloc` of a size returns 0 only when no free block is large enough. -/
  full : ∀ size, call = .kmalloc size → size ≠ 0 → result = 0 →
    ∀ blocks, heap.blocks = some blocks →
      ∀ block ∈ blocks, block.free = true → block.size < size.toNat
  /-- `krealloc` to a size returns 0 only when neither its own block nor any free block has it. -/
  refused : ∀ ptr size, call = .krealloc ptr size → size ≠ 0 → result = 0 →
    (ptr ≠ 0 → blockSize heap.memory (ptr - sizeofHeapBlock) < size) ∧
      ∀ blocks, heap.blocks = some blocks →
        ∀ block ∈ blocks, block.free = true → block.size < size.toNat

/-- The bytes of live payloads when those of the blocks in use are kept. -/
theorem Owned.kept_of_blocks {after : Memory} {gone : UInt32} (holds : Holds heap blocks)
    (owned : Owned blocks live)
    (kept : ∀ block ∈ blocks, block.free = false → pointerTo block ≠ gone →
      ∀ byte ∈ payload block, after byte = heap.memory byte) :
    ∀ owner ∈ live, owner.pointer ≠ gone →
      ∀ byte ∈ heap.payloadOf owner.pointer, after byte = heap.memory byte := by
  intro owner member other byte inPayload
  obtain ⟨block, blockMember, used, pointer, -⟩ := owned.served owner member
  rw [pointer, holds.payloadOf_eq blockMember] at inPayload
  exact kept block blockMember used (pointer ▸ other) byte inPayload

/-- A call of `kmalloc` keeps the heap. -/
theorem Owned.kmalloc_step {size : UInt32} (holds : Holds heap blocks) (owned : Owned blocks live)
    (small : size ≤ 0xFFFFFFFC) :
    ∃ after result blocks', kmalloc heap size = some (after, result) ∧ Holds after blocks' ∧
      Owned blocks' ((HeapCall.kmalloc size).live live result) ∧
      CallKeeps heap live (.kmalloc size) after result := by
  rcases holds.kmalloc_cases small with ⟨returned, full⟩ | ⟨after, blocks', block, returned, handed⟩
  · refine ⟨heap, 0, blocks, returned, holds, ?_, ⟨fun _ _ _ _ _ => rfl, ?_, ?_,
      fun ptr other equal => (by cases equal)⟩⟩
    · rw [HeapCall.live, if_pos rfl]
      exact owned
    · intro ptr other equal
      cases equal
    · intro other equal nonzero _ listed ofHeap
      cases equal
      rw [holds.blocks_eq, Option.some.injEq] at ofHeap
      rw [← ofHeap]
      exact full nonzero
  · have result : pointerTo block ≠ 0 := handed.holds.pointerTo_ne_zero handed.mem
    refine ⟨_, _, blocks', returned, handed.holds, ?_, ⟨?_, ?_, fun _ _ _ zero => absurd zero result,
      fun _ _ _ _ zero => absurd zero result⟩⟩
    · rw [HeapCall.live, if_neg result]
      refine owned.insert handed.used handed.enough (fun member => ?_) handed.same
      obtain ⟨old, oldMember, used, pointer⟩ := owned.block_of_pointer member
      exact handed.fresh old oldMember used pointer.symm
    · exact owned.kept_of_blocks holds fun old member used _ => handed.kept old member used
    · intro ptr other equal
      cases equal

/-- A call of `kfree` keeps the heap. -/
theorem Owned.kfree_step {ptr : UInt32} (holds : Holds heap blocks) (owned : Owned blocks live)
    (legal : ptr = 0 ∨ ptr ∈ live.map LivePointer.pointer) :
    ∃ after blocks', kfree heap ptr = some after ∧ Holds after blocks' ∧
      Owned blocks' (dropPointer live ptr) ∧
      CallKeeps heap live (.kfree ptr) after 0 := by
  have noCarry : ∀ (other size : UInt32), HeapCall.kfree ptr ≠ .krealloc other size :=
    fun _ _ equal => by cases equal
  have noFull : ∀ size : UInt32, HeapCall.kfree ptr ≠ .kmalloc size := fun _ equal => by cases equal
  rcases legal with null | member
  · have same : dropPointer live ptr = live := by
      refine List.filter_eq_self.mpr fun owner ownerMember => ?_
      obtain ⟨block, blockMember, -, pointer, -⟩ := owned.served owner ownerMember
      have nonzero := holds.pointerTo_ne_zero blockMember
      simp [pointer, null, nonzero]
    refine ⟨heap, blocks, ?_, holds, ?_, ⟨fun _ _ _ _ _ => rfl,
      fun other size equal => absurd equal (noCarry other size),
      fun size equal => absurd equal (noFull size),
      fun other size equal => absurd equal (noCarry other size)⟩⟩
    · rw [kfree, if_pos null]
    · rw [same]
      exact owned
  · obtain ⟨block, blockMember, used, pointer⟩ := owned.block_of_pointer member
    obtain ⟨after, returned, holds', kept⟩ := holds.kfree blockMember
    rw [pointer]
    refine ⟨_, _, returned, holds', owned.drop holds blockMember fun other otherUsed => ?_,
      ⟨?_, fun other size equal => (by cases equal), fun size equal => (by cases equal),
        fun other size equal => (by cases equal)⟩⟩
    · exact mem_release_used (by decide) holds.tiles otherUsed
    · exact owned.kept_of_blocks holds fun other otherMember _ _ => kept other otherMember

/-- A live pointer is asked for a size that its block has. -/
theorem Owned.resize {block : Block} {size : UInt32} (holds : Holds heap blocks)
    (owned : Owned blocks live) (member : block ∈ blocks) (used : block.free = false)
    (enough : size.toNat ≤ block.size) :
    Owned blocks (⟨pointerTo block, size⟩ :: dropPointer live (pointerTo block)) := by
  have rest : Owned (blocks.filter fun other => other.start ≠ block.start)
      (dropPointer live (pointerTo block)) :=
    owned.drop holds member fun other _ => by simp
  refine rest.insert used enough (fun again => ?_) fun other _ => ?_
  · obtain ⟨owner, ownerMember, pointer⟩ := List.mem_map.mp again
    exact (mem_dropPointer.mp ownerMember).2 pointer
  · simp only [List.mem_filter, decide_eq_true_eq]
    constructor
    · intro there
      by_cases start : other.start = block.start
      · exact .inr (holds.tiles.eq_of_start (by decide) there member start)
      · exact .inl ⟨there, start⟩
    · rintro (there | same)
      · exact there.1
      · rw [same]
        exact member

/-- A `krealloc` that has to move: the payload is copied to a new block and the old
block is released. -/
theorem Handed.moved {block fresh : Block} {size : UInt32} {memory : Memory}
    {blocks' : List Block} (handed : Handed heap blocks size memory blocks' fresh)
    (member : block ∈ blocks) (used : block.free = false) (enough : block.size ≤ fresh.size) :
    ∃ copied after, kreallocCopy (UInt32.ofNat block.start) (pointerTo fresh) (pointerTo block)
        heapRounds 0 memory = some copied ∧
      kfree { heap with memory := copied } (pointerTo block) =
        some { heap with memory := after } ∧
      Holds { heap with memory := after } (release 12 block.start blocks') ∧
      (∀ i < block.size, after ((pointerTo fresh).toNat + i) =
        heap.memory ((pointerTo block).toNat + i)) ∧
      ∀ old ∈ blocks, old.free = false → old ≠ block →
        ∀ byte ∈ payload old, after byte = heap.memory byte := by
  have blockMember : block ∈ blocks' := (handed.same block used).mpr (.inl member)
  have bounds := handed.holds.bounds blockMember
  have freshBounds := handed.holds.bounds handed.mem
  have pointer := handed.holds.pointerTo_toNat blockMember
  have freshPointer := handed.holds.pointerTo_toNat handed.mem
  have header : (UInt32.ofNat block.start).toNat = block.start :=
    UInt32.toNat_ofNat_of_lt' (by omega : block.start < 2 ^ 32)
  have apart : block.start + 12 + block.size ≤ fresh.start ∨
      fresh.start + 12 + fresh.size ≤ block.start := by
    rcases handed.holds.tiles.apart blockMember handed.mem with same | apart
    · exact absurd (congrArg pointerTo same) (handed.fresh block member used)
    · exact apart
  have ofSize : blockSize memory (UInt32.ofNat block.start) = UInt32.ofNat block.size :=
    handed.holds.linked.size blockMember (by omega)
  obtain ⟨copied, copy, bytes, outside⟩ := kreallocCopy_spec (i := 0)
    (pointerTo fresh) (pointerTo block) heapRounds ofSize (by omega) (by omega)
    (by omega) (by omega) (by omega) (by omega) (by rw [heapRounds]; omega)
  have stored := handed.holds.store handed.mem fun byte (away : byte ∉ payload fresh) => by
    have away' : ¬(fresh.start + 12 ≤ byte ∧ byte < fresh.start + 12 + fresh.size) := away
    exact outside byte (by omega)
  obtain ⟨after, freed, holds', kept⟩ := stored.1.kfree blockMember
  refine ⟨copied, after, copy, freed, holds', fun i less => ?_, fun old oldMember oldUsed other => ?_⟩
  · have inFresh : (pointerTo fresh).toNat + i ∈ payload fresh := by
      rw [freshPointer]
      exact Set.mem_Ico.mpr ⟨by omega, by omega⟩
    have inBlock : (pointerTo block).toNat + i ∈ payload block := by
      rw [pointer]
      exact Set.mem_Ico.mpr ⟨by omega, by omega⟩
    calc after ((pointerTo fresh).toNat + i)
        = copied ((pointerTo fresh).toNat + i) := kept fresh handed.mem _ inFresh
      _ = memory ((pointerTo block).toNat + i) := bytes i (by omega) less
      _ = heap.memory ((pointerTo block).toNat + i) := handed.kept block member used _ inBlock
  · intro byte inOld
    have oldMember' : old ∈ blocks' := (handed.same old oldUsed).mpr (.inl oldMember)
    have different : old ≠ fresh := fun same =>
      handed.fresh old oldMember oldUsed (congrArg pointerTo same)
    calc after byte
        = copied byte := kept old oldMember' byte inOld
      _ = memory byte := stored.2 old oldMember' different byte inOld
      _ = heap.memory byte := handed.kept old oldMember oldUsed byte inOld

/-- A call of `krealloc` keeps the heap. -/
theorem Owned.krealloc_step {ptr size : UInt32} (holds : Holds heap blocks)
    (owned : Owned blocks live) (small : size ≤ 0xFFFFFFFC)
    (legal : ptr = 0 ∨ ptr ∈ live.map LivePointer.pointer) :
    ∃ after result blocks', krealloc heap ptr size = some (after, result) ∧ Holds after blocks' ∧
      Owned blocks' ((HeapCall.krealloc ptr size).live live result) ∧
      CallKeeps heap live (.krealloc ptr size) after result := by
  have noFull : ∀ other : UInt32, HeapCall.krealloc ptr size ≠ .kmalloc other :=
    fun _ equal => by cases equal
  rcases legal with null | member
  · have same : dropPointer live ptr = live := by
      refine List.filter_eq_self.mpr fun owner ownerMember => ?_
      obtain ⟨block, blockMember, -, pointer, -⟩ := owned.served owner ownerMember
      have nonzero := holds.pointerTo_ne_zero blockMember
      simp [pointer, null, nonzero]
    obtain ⟨after, result, blocks', returned, holds', owned', keeps⟩ :=
      owned.kmalloc_step holds small
    refine ⟨after, result, blocks', ?_, holds', ?_, ⟨?_, fun other _ equal nonzero => ?_,
      fun other equal => absurd equal (noFull other), fun other _ equal nonzero zero => ?_⟩⟩
    · rw [krealloc, if_pos null]
      exact returned
    · rw [HeapCall.live, same]
      exact owned'
    · intro owner ownerMember _ byte inPayload
      refine keeps.kept owner ownerMember (fun zero => ?_) byte inPayload
      obtain ⟨block, blockMember, -, pointer, -⟩ := owned.served owner ownerMember
      exact holds.pointerTo_ne_zero blockMember (pointer.symm.trans zero)
    · cases equal
      exact absurd null nonzero
    · cases equal
      exact ⟨fun other => absurd null other, keeps.full size rfl nonzero zero⟩
  · obtain ⟨block, blockMember, used, pointer⟩ := owned.block_of_pointer member
    have nonzero := holds.pointerTo_ne_zero blockMember
    have bounds := holds.bounds blockMember
    have ofSize : blockSize heap.memory (UInt32.ofNat block.start) = UInt32.ofNat block.size :=
      holds.linked.size blockMember (by omega)
    have sizeValue : (UInt32.ofNat block.size).toNat = block.size :=
      UInt32.toNat_ofNat_of_lt' (by omega : block.size < 2 ^ 32)
    have test : size ≤ blockSize heap.memory (UInt32.ofNat block.start) ↔
        size.toNat ≤ block.size := by
      rw [ofSize, UInt32.le_iff_toNat_le, sizeValue]
    rw [krealloc, pointer, if_neg nonzero]
    simp only [pointerTo_sub]
    by_cases fits : size.toNat ≤ block.size
    · rw [if_pos (test.mpr fits)]
      refine ⟨heap, _, blocks, rfl, holds, ?_, ⟨fun _ _ _ _ _ => rfl, fun other _ equal => ?_,
        fun other equal => (by cases equal), fun _ _ _ _ zero => absurd zero nonzero⟩⟩
      · rw [HeapCall.live, if_neg nonzero]
        exact owned.resize holds blockMember used fits
      · cases equal
        exact fun _ _ _ _ => rfl
    · rw [if_neg fun less => fits (test.mp less)]
      rcases holds.kmalloc_cases small with
        ⟨returned, full⟩ | ⟨memory, blocks', fresh, returned, handed⟩
      · rw [returned]
        refine ⟨heap, 0, blocks, rfl, holds, ?_, ⟨fun _ _ _ _ _ => rfl,
          fun _ _ _ _ zero => absurd rfl zero, fun other equal => (by cases equal),
          fun _ _ equal some _ => ?_⟩⟩
        · rw [HeapCall.live, if_pos rfl]
          exact owned
        · cases equal
          refine ⟨fun _ => ?_, fun listed ofHeap => ?_⟩
          · rw [pointerTo_sub]
            exact UInt32.not_le.mp fun less => fits (test.mp less)
          · rw [holds.blocks_eq, Option.some.injEq] at ofHeap
            rw [← ofHeap]
            exact full some
      · have enough := handed.enough
        obtain ⟨copied, after, copy, freed, holds', carried, kept⟩ :=
          handed.moved blockMember used (by omega)
        have result := handed.holds.pointerTo_ne_zero handed.mem
        refine ⟨{ heap with memory := after }, pointerTo fresh, release 12 block.start blocks',
          ?_, holds', ?_, ⟨?_, fun other _ equal => ?_, fun other equal => (by cases equal),
            fun _ _ _ _ zero => absurd zero result⟩⟩
        · rw [returned]
          simp only [Option.bind_eq_bind, Option.bind_some, if_neg result, copy, freed]
          rfl
        · have inserted := owned.insert handed.used handed.enough (fun again => by
            obtain ⟨old, oldMember, oldUsed, same⟩ := owned.block_of_pointer again
            exact handed.fresh old oldMember oldUsed same.symm) handed.same
          have dropped := inserted.drop handed.holds ((handed.same block used).mpr (.inl blockMember))
            fun other otherUsed => mem_release_used (by decide) handed.holds.tiles otherUsed
          have first : pointerTo fresh ≠ pointerTo block :=
            (handed.fresh block blockMember used).symm
          rw [HeapCall.live, if_neg result]
          rw [dropPointer, List.filter_cons_of_pos (by simp [first])] at dropped
          exact dropped
        · rw [HeapCall.givesUp, if_neg result]
          refine owned.kept_of_blocks holds fun old oldMember oldUsed other =>
            kept old oldMember oldUsed fun same => other (by rw [same])
        · cases equal
          intro _ _ i less
          rw [pointerTo_sub, ofSize, sizeValue] at less
          exact carried i less

/-- Every legal call returns and keeps the heap. -/
theorem Owned.call_step {call : HeapCall} (holds : Holds heap blocks) (owned : Owned blocks live)
    (legal : call.Legal live) :
    ∃ after result blocks', call.run heap = some (after, result) ∧ Holds after blocks' ∧
      Owned blocks' (call.live live result) ∧ CallKeeps heap live call after result := by
  cases call with
  | kmalloc size => exact owned.kmalloc_step holds legal
  | krealloc ptr size => exact owned.krealloc_step holds legal.1 legal.2
  | kfree ptr =>
    obtain ⟨after, blocks', returned, holds', owned', keeps⟩ := owned.kfree_step holds legal
    refine ⟨after, 0, blocks', ?_, holds', owned', keeps⟩
    rw [HeapCall.run, returned]
    rfl

/-- In every state of a run the heap holds a block list whose blocks in use are
those of the live pointers. -/
theorem HeapRun.holds (run : HeapRun heap live) :
    ∃ blocks, Holds heap blocks ∧ Owned blocks live := by
  induction run with
  | init memory =>
    have noUse : ∀ block ∈ [(⟨heapBase, 1024 * 1024 - 12, true⟩ : Block)], block.free ≠ false := by
      intro block member
      rw [List.mem_singleton.mp member]
      decide
    exact ⟨_, kheapInit_holds memory, ⟨fun _ member => (nomatch member),
      fun block member used => absurd used (noUse block member), List.nodup_nil⟩⟩
  | call call before legal returned ih =>
    obtain ⟨blocks, holds, owned⟩ := ih
    obtain ⟨after, result, blocks', returned', holds', owned', -⟩ := owned.call_step holds legal
    rw [returned] at returned'
    cases returned'
    exact ⟨blocks', holds', owned'⟩
  | store offset byte before ownedBy within ih =>
    obtain ⟨blocks, holds, owned⟩ := ih
    obtain ⟨block, member, -, pointer, size⟩ := owned.served _ ownedBy
    refine ⟨blocks, (holds.store member fun other away => if_neg fun same => away ?_).1, owned⟩
    rw [same, pointer, holds.pointerTo_toNat member]
    exact Set.mem_Ico.mpr ⟨by omega, by omega⟩

/-- Freeing every live pointer, in any order, leaves the initial free block. -/
theorem Owned.freeAll_single {order : List UInt32} (holds : Holds heap blocks)
    (owned : Owned blocks live) (whole : order.Perm (live.map LivePointer.pointer)) :
    ∃ after, freeAll heap order = some after ∧
      after.blocks = some [⟨heapBase, 1024 * 1024 - 12, true⟩] := by
  induction order generalizing heap blocks live with
  | nil =>
    have none : live = [] := by simpa using whole.nil_eq.symm
    have free : ∀ block ∈ blocks, block.free = true := by
      intro block member
      by_contra used
      obtain ⟨owner, ownerMember, -⟩ := owned.owners block member (by simpa using used)
      rw [none] at ownerMember
      cases ownerMember
    refine ⟨heap, rfl, ?_⟩
    rw [holds.blocks_eq, holds.tiles.single (by decide) holds.separated free]
    rfl
  | cons ptr order ih =>
    have member : ptr ∈ live.map LivePointer.pointer := whole.subset (by simp)
    obtain ⟨after, blocks', returned, holds', owned', -⟩ := owned.kfree_step holds (.inr member)
    have rest : order.Perm ((dropPointer live ptr).map LivePointer.pointer) := by
      have erased := whole.erase ptr
      rw [List.erase_cons_head, owned.distinct.erase_eq_filter] at erased
      rw [dropPointer]
      have same : (live.map LivePointer.pointer).filter (fun other => other != ptr) =
          (live.filter fun owner => owner.pointer ≠ ptr).map LivePointer.pointer := by
        rw [List.filter_map]
        congr 1
        exact List.filter_congr fun owner _ => by
          rw [Function.comp_apply, Bool.eq_iff_iff, bne_iff_ne, decide_eq_true_eq]
      rw [same] at erased
      exact erased
    obtain ⟨final, run, single⟩ := ih holds' owned' rest
    refine ⟨final, ?_, single⟩
    rw [freeAll, returned]
    exact run

/-- Payloads of different live pointers are disjoint. -/
theorem Owned.disjoint (holds : Holds heap blocks) (owned : Owned blocks live) :
    live.Pairwise fun one other =>
      Disjoint (heap.payloadOf one.pointer) (heap.payloadOf other.pointer) := by
  have distinct : live.Pairwise fun one other => one.pointer ≠ other.pointer :=
    List.pairwise_map.mp owned.distinct
  refine distinct.imp_of_mem fun {one other} left right different => ?_
  obtain ⟨block, member, -, pointer, -⟩ := owned.served one left
  obtain ⟨block', member', -, pointer', -⟩ := owned.served other right
  rw [pointer, pointer', holds.payloadOf_eq member, holds.payloadOf_eq member',
    Set.disjoint_left]
  intro byte inside inside'
  have bounds := Set.mem_Ico.mp inside
  have bounds' := Set.mem_Ico.mp inside'
  rcases holds.tiles.apart member member' with same | before | behind
  · exact different (by rw [pointer, pointer', same])
  · omega
  · omega

end Live

/-- In every state of every run of the heap: the block list in memory tiles the heap
without neighbouring free blocks, every live pointer has a block in use with the size
asked for, live payloads are disjoint, every legal call returns, keeps the other
payloads, carries a reallocated payload over and fails only when no free block (and no block
to be reallocated) is large enough, and freeing all live pointers leaves the initial free block. -/
theorem heapRun_sound {heap : Heap} {live : List LivePointer} (run : HeapRun heap live) :
    ∃ blocks, heap.blocks = some blocks ∧ Tiles 12 heapBase blocks heapLimit ∧
      Separated blocks ∧
      (∀ owner ∈ live, ∃ block ∈ blocks, block.free = false ∧
        owner.pointer.toNat = block.start + 12 ∧
        heap.payloadOf owner.pointer = payload block ∧ owner.size.toNat ≤ block.size) ∧
      (live.Pairwise fun one other =>
        Disjoint (heap.payloadOf one.pointer) (heap.payloadOf other.pointer)) ∧
      (∀ call : HeapCall, call.Legal live → ∃ after result,
        call.run heap = some (after, result) ∧ CallKeeps heap live call after result) ∧
      ∀ order : List UInt32, order.Perm (live.map LivePointer.pointer) →
        ∃ after, freeAll heap order = some after ∧
          after.blocks = some [⟨heapBase, 1024 * 1024 - 12, true⟩] := by
  obtain ⟨blocks, holds, owned⟩ := run.holds
  refine ⟨blocks, holds.blocks_eq, holds.tiles, holds.separated, fun owner member => ?_,
    owned.disjoint holds, fun call legal => ?_, fun order whole => owned.freeAll_single holds whole⟩
  · obtain ⟨block, blockMember, used, pointer, size⟩ := owned.served owner member
    refine ⟨block, blockMember, used, ?_, ?_, size⟩
    · rw [pointer, holds.pointerTo_toNat blockMember]
    · rw [pointer, holds.payloadOf_eq blockMember]
  · obtain ⟨after, result, blocks', returned, -, -, keeps⟩ := owned.call_step holds legal
    exact ⟨after, result, returned, keeps⟩

/-- A run with one pointer of five bytes: it can be moved, and freeing it leaves the
initial block. -/
theorem heapRun_sound_five :
    ∃ heap, HeapRun heap [⟨heapStart + 12, 5⟩] ∧
      (∃ after result, krealloc heap (heapStart + 12) 100 = some (after, result)) ∧
      ∃ after, freeAll heap [heapStart + 12] = some after ∧
        after.blocks = some [⟨heapBase, 1024 * 1024 - 12, true⟩] := by
  have first : ∃ heap, kmalloc (kheapInit fun _ => 0) 5 = some (heap, heapStart + 12) :=
    ⟨_, rfl⟩
  obtain ⟨heap, returned⟩ := first
  have run : HeapRun heap [⟨heapStart + 12, 5⟩] :=
    HeapRun.call (.kmalloc 5) (.init fun _ => 0) (by decide : (5 : UInt32) ≤ 0xFFFFFFFC) returned
  obtain ⟨blocks, -, -, -, -, -, calls, freed⟩ := heapRun_sound run
  obtain ⟨after, result, moved, -⟩ := calls (.krealloc (heapStart + 12) 100) (by decide)
  exact ⟨heap, run, ⟨after, result, moved⟩, freed _ (.refl _)⟩

end HexaOS.Kheap
