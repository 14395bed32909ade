import HexaOS.PackedBytes

/-!
# The kernel heap

`kmalloc`, `kfree` and `krealloc` work on the bytes of memory: a block header is
the three words `size`, `free` and `next` in front of the payload, and every step
reads or writes one of these words. Loops follow `next` and take a bound on their
rounds; running into the bound is a failure of its own, `none`.
-/

namespace HexaOS.Kheap

open HexaOS.PackedBytes

/-- The bytes of memory by address. -/
abbrev Memory := ℕ → UInt8

/-- The byte at an address is replaced. -/
def Memory.store (memory : Memory) (address : ℕ) (byte : UInt8) : Memory :=
  fun other => if other = address then byte else memory other

/-- The word at an address. -/
def Memory.word (memory : Memory) (address : ℕ) : UInt32 :=
  wordOfBytes (memory address) (memory (address + 1)) (memory (address + 2)) (memory (address + 3))

/-- The word at an address is replaced. -/
def Memory.storeWord (memory : Memory) (address : ℕ) (word : UInt32) : Memory :=
  (((memory.store address word.toUInt8).store (address + 1) (word >>> 8).toUInt8).store
    (address + 2) (word >>> 16).toUInt8).store (address + 3) (word >>> 24).toUInt8

/-- `HEAP_START`. -/
def heapStart : UInt32 := 0x00800000

/-- `HEAP_INIT_SIZE`. -/
def heapInitSize : UInt32 := 1024 * 1024

/-- `sizeof(heap_block_t)`. -/
def sizeofHeapBlock : UInt32 := 12

/-- `block->size`. -/
def blockSize (memory : Memory) (block : UInt32) : UInt32 := memory.word block.toNat

/-- `block->free`. -/
def blockFree (memory : Memory) (block : UInt32) : UInt32 := memory.word (block.toNat + 4)

/-- `block->next`. -/
def blockNext (memory : Memory) (block : UInt32) : UInt32 := memory.word (block.toNat + 8)

/-- `block->size = size`. -/
def setSize (memory : Memory) (block size : UInt32) : Memory :=
  memory.storeWord block.toNat size

/-- `block->free = free`. -/
def setFree (memory : Memory) (block free : UInt32) : Memory :=
  memory.storeWord (block.toNat + 4) free

/-- `block->next = next`. -/
def setNext (memory : Memory) (block next : UInt32) : Memory :=
  memory.storeWord (block.toNat + 8) next

/-- The memory and the static variable `heap_first`. -/
structure Heap where
  /-- The bytes of memory. -/
  memory : Memory
  /-- The first block of the list, 0 before `kheap_init`. -/
  heapFirst : UInt32

/-- `kheap_init` on mapped memory: one free block covers the whole heap. -/
def kheapInit (memory : Memory) : Heap where
  memory := setNext (setFree (setSize memory heapStart (heapInitSize - sizeofHeapBlock))
    heapStart 1) heapStart 0
  heapFirst := heapStart

/-- More rounds than any loop over the heap takes. -/
def heapRounds : ℕ := 1024 * 1024

/-- The part of `kmalloc` that cuts a new free block off the end of `curr`. -/
def kmallocSplit (memory : Memory) (curr size : UInt32) : Memory :=
  let newBlock := curr + sizeofHeapBlock + size
  let m := setSize memory newBlock (blockSize memory curr - size - sizeofHeapBlock)
  let m := setFree m newBlock 1
  let m := setNext m newBlock (blockNext m curr)
  let m := setSize m curr size
  setNext m curr newBlock

/-- The `while (curr)` loop of `kmalloc` for a rounded size. -/
def kmallocWalk (size : UInt32) : ℕ → Memory → UInt32 → Option (Memory × UInt32)
  | 0, _, _ => none
  | rounds + 1, memory, curr =>
    if curr = 0 then some (memory, 0)
    else if blockFree memory curr ≠ 0 ∧ size ≤ blockSize memory curr then
      let split :=
        if size + sizeofHeapBlock + 4 < blockSize memory curr then
          kmallocSplit memory curr size
        else memory
      some (setFree split curr 0, curr + sizeofHeapBlock)
    else kmallocWalk size rounds memory (blockNext memory curr)

/-- `kmalloc`. -/
def kmalloc (heap : Heap) (size : UInt32) : Option (Heap × UInt32) :=
  if heap.heapFirst = 0 ∨ size = 0 then some (heap, 0)
  else
    (kmallocWalk ((size + 3) &&& ~~~3) heapRounds heap.memory heap.heapFirst).map fun found =>
      ({ heap with memory := found.1 }, found.2)

/-- The loop of `kfree` that looks for the block whose `next` is the freed one. -/
def kfreeWalk (memory : Memory) (block : UInt32) : ℕ → UInt32 → Option UInt32
  | 0, _ => none
  | rounds + 1, curr =>
    if curr = 0 then some curr
    else if blockNext memory curr = block then some curr
    else kfreeWalk memory block rounds (blockNext memory curr)

/-- The first half of `kfree`: the block is marked and takes up a free successor. -/
def kfreeNext (memory : Memory) (block : UInt32) : Memory :=
  let m := setFree memory block 1
  if blockNext m block ≠ 0 ∧ blockFree m (blockNext m block) ≠ 0 then
    let m := setSize m block
      (blockSize m block + (sizeofHeapBlock + blockSize m (blockNext m block)))
    setNext m block (blockNext m (blockNext m block))
  else m

/-- The second half of `kfree`: a free predecessor takes up the block. -/
def kfreePrevious (memory : Memory) (curr block : UInt32) : Memory :=
  if curr ≠ 0 ∧ blockFree memory curr ≠ 0 then
    let m := setSize memory curr
      (blockSize memory curr + (sizeofHeapBlock + blockSize memory block))
    setNext m curr (blockNext m block)
  else memory

/-- `kfree`. -/
def kfree (heap : Heap) (ptr : UInt32) : Option Heap :=
  if ptr = 0 then some heap
  else
    let block := ptr - sizeofHeapBlock
    let memory := kfreeNext heap.memory block
    (kfreeWalk memory block heapRounds heap.heapFirst).map fun curr =>
      { heap with memory := kfreePrevious memory curr block }

/-- The copy loop of `krealloc`; its bound `block->size` is read in every round. -/
def kreallocCopy (block target source : UInt32) : ℕ → UInt32 → Memory → Option Memory
  | 0, _, _ => none
  | rounds + 1, i, memory =>
    if i < blockSize memory block then
      kreallocCopy block target source rounds (i + 1)
        (memory.store (target + i).toNat (memory (source + i).toNat))
    else some memory

/-- `krealloc`. -/
def krealloc (heap : Heap) (ptr size : UInt32) : Option (Heap × UInt32) :=
  if ptr = 0 then kmalloc heap size
  else
    let block := ptr - sizeofHeapBlock
    if size ≤ blockSize heap.memory block then some (heap, ptr)
    else do
      let (heap, newPtr) ← kmalloc heap size
      if newPtr = 0 then pure (heap, newPtr)
      else
        let memory ← kreallocCopy block newPtr ptr heapRounds 0 heap.memory
        let heap ← kfree { heap with memory := memory } ptr
        pure (heap, newPtr)

end HexaOS.Kheap
