import HexaOS.KheapRuns

/-!
# Sizes at the end of their range

kmalloc rounds `size + 3` modulo 2^32, so that the three largest sizes become 0: any free block is
then large enough, and krealloc copies the whole old payload into what it gets. The calls serve
their callers exactly as long as no such size meets a free block.
-/

namespace HexaOS.Kheap

open HexaOS.PackedBytes FirstFit

/-- The offsets at which the copy loop of `krealloc` stores. -/
def kreallocOffsets (block target source : UInt32) : ℕ → UInt32 → Memory → List UInt32
  | 0, _, _ => []
  | rounds + 1, i, memory =>
    if i < blockSize memory block then
      i :: kreallocOffsets block target source rounds (i + 1)
        (memory.store (target + i).toNat (memory (source + i).toNat))
    else []

/-- So many bytes from a pointer on lie inside its own block of the heap. -/
def Heap.Serves (heap : Heap) (pointer size : UInt32) : Prop :=
  ∃ blocks, heap.blocks = some blocks ∧ ∃ block ∈ blocks, block.free = false ∧
    pointer.toNat = block.start + 12 ∧ size.toNat ≤ block.size ∧
    heapBase ≤ block.start ∧ block.start + 12 + block.size ≤ heapLimit

/-- The copy loop of `krealloc`, when it is reached, stays inside the new block. -/
def CopyFits (heap : Heap) (ptr size : UInt32) : Prop :=
  ∀ moved target, ptr ≠ 0 → ¬size ≤ blockSize heap.memory (ptr - sizeofHeapBlock) →
    kmalloc heap size = some (moved, target) → target ≠ 0 →
    ∀ i ∈ kreallocOffsets (ptr - sizeofHeapBlock) target ptr heapRounds 0 moved.memory,
      i < blockSize moved.memory (target - sizeofHeapBlock)

/-- A pointer that a call returns has the bytes that were asked for, and nothing is copied behind
a block. -/
def HeapCall.Served (heap : Heap) : HeapCall → Prop
  | kmalloc size => ∀ after result, Kheap.kmalloc heap size = some (after, result) → result ≠ 0 →
    after.Serves result size
  | kfree _ => True
  | krealloc ptr size =>
    (∀ after result, Kheap.krealloc heap ptr size = some (after, result) → result ≠ 0 →
      after.Serves result size) ∧ CopyFits heap ptr size

/-- Pointers that are handed back are NULL or live. -/
def HeapCall.Pointers (live : List LivePointer) : HeapCall → Prop
  | kmalloc _ => True
  | kfree ptr => ptr = 0 ∨ ptr ∈ live.map LivePointer.pointer
  | krealloc ptr _ => ptr = 0 ∨ ptr ∈ live.map LivePointer.pointer

/-- The size leaves room for rounding, or the heap has no free block. -/
def Heap.Rounds (heap : Heap) (size : UInt32) : Prop :=
  size ≤ 0xFFFFFFFC ∨
    ∀ blocks, heap.blocks = some blocks → ∀ block ∈ blocks, block.free = false

/-- The condition on the size of a call. -/
def HeapCall.Sized (heap : Heap) : HeapCall → Prop
  | kmalloc size => heap.Rounds size
  | kfree _ => True
  | krealloc _ size => heap.Rounds size

/-- The states of runs of such calls after `kheap_init`. -/
inductive SizedRun : Heap → List LivePointer → Prop
  /-- `kheap_init` on any memory. -/
  | init (memory : Memory) : SizedRun (kheapInit memory) []
  /-- A call that returned. -/
  | call {heap after : Heap} {live : List LivePointer} {result : UInt32} (call : HeapCall)
      (before : SizedRun heap live) (pointers : call.Pointers live) (sized : call.Sized heap)
      (returned : call.run heap = some (after, result)) : SizedRun after (call.live live result)
  /-- An owner stores a byte within the size it asked for. -/
  | store {heap : Heap} {live : List LivePointer} {owner : LivePointer} (offset : ℕ) (byte : UInt8)
      (before : SizedRun heap live) (owned : owner ∈ live) (within : offset < owner.size.toNat) :
      SizedRun { heap with memory := heap.memory.store (owner.pointer.toNat + offset) byte } live

section Copy

variable {block target source : UInt32} {size limit i : ℕ} {memory : Memory}

/-- The copy loop reads its bound in each round, and finds the same one as long as it does not
store to the header of the block. -/
theorem kreallocOffsets_lt (rounds : ℕ) (ofSize : blockSize memory block = UInt32.ofNat size)
    (small : size < 2 ^ 32) (targetFits : target.toNat + size < 2 ^ 32)
    (header : block.toNat + 12 ≤ target.toNat ∨ target.toNat + size ≤ block.toNat)
    (reached : i ≤ size) :
    ∀ j ∈ kreallocOffsets block target source rounds (UInt32.ofNat i) memory, j.toNat < size := by
  induction rounds generalizing i memory with
  | zero => exact fun j member => absurd member List.not_mem_nil
  | succ rounds ih =>
    have index : (UInt32.ofNat i).toNat = i := UInt32.toNat_ofNat_of_lt' (by omega : i < 2 ^ 32)
    have bound : (UInt32.ofNat size).toNat = size := UInt32.toNat_ofNat_of_lt' small
    have test : UInt32.ofNat i < blockSize memory block ↔ i < size := by
      rw [ofSize, UInt32.lt_iff_toNat_lt, index, bound]
    intro j member
    rw [kreallocOffsets] at member
    by_cases more : i < size
    · rw [if_pos (test.mpr more)] at member
      have targetAt : (target + UInt32.ofNat i).toNat = target.toNat + i := by
        rw [UInt32.toNat_add, index]
        exact Nat.mod_eq_of_lt (by omega)
      have next : UInt32.ofNat i + 1 = UInt32.ofNat (i + 1) := by
        rw [UInt32.ofNat_add]
        rfl
      rw [targetAt, next] at member
      rcases List.mem_cons.mp member with same | rest
      · rw [same, index]
        exact more
      · refine ih ?_ (by omega) j rest
        rw [← ofSize]
        exact word_congr fun byte _ _ => if_neg (by omega)
    · rw [if_neg fun less => more (test.mp less)] at member
      exact absurd member List.not_mem_nil

/-- With a bound behind the limit the loop goes over the limit. -/
theorem mem_kreallocOffsets (rounds : ℕ) (ofSize : blockSize memory block = UInt32.ofNat size)
    (small : size < 2 ^ 32) (targetFits : target.toNat + limit < 2 ^ 32)
    (header : block.toNat + 12 ≤ target.toNat ∨ target.toNat + limit ≤ block.toNat)
    (beyond : limit < size) (reached : i ≤ limit) (enough : limit - i < rounds) :
    UInt32.ofNat limit ∈ kreallocOffsets block target source rounds (UInt32.ofNat i) memory := by
  induction rounds generalizing i memory with
  | zero => omega
  | succ rounds ih =>
    have index : (UInt32.ofNat i).toNat = i := UInt32.toNat_ofNat_of_lt' (by omega : i < 2 ^ 32)
    have bound : (UInt32.ofNat size).toNat = size := UInt32.toNat_ofNat_of_lt' small
    have test : UInt32.ofNat i < blockSize memory block := by
      rw [ofSize, UInt32.lt_iff_toNat_lt, index, bound]
      omega
    rw [kreallocOffsets, if_pos test]
    by_cases last : i = limit
    · rw [last]
      exact List.mem_cons_self
    · have targetAt : (target + UInt32.ofNat i).toNat = target.toNat + i := by
        rw [UInt32.toNat_add, index]
        exact Nat.mod_eq_of_lt (by omega)
      have next : UInt32.ofNat i + 1 = UInt32.ofNat (i + 1) := by
        rw [UInt32.ofNat_add]
        rfl
      rw [targetAt, next]
      refine List.mem_cons_of_mem _ (ih ?_ (by omega) (by omega))
      rw [← ofSize]
      exact word_congr fun byte _ _ => if_neg (by omega)

end Copy

section Sizes

variable {heap : Heap} {blocks : List Block} {live : List LivePointer} {ptr size : UInt32}

/-- No block of the heap has one of the largest sizes. -/
theorem Heap.Serves.small {pointer : UInt32} (serves : heap.Serves pointer size) :
    size ≤ 0xFFFFFFFC := by
  have ⟨_, _, block, _, _, _, enough, above, below⟩ := serves
  have base : heapBase = 8388608 := rfl
  have limit : heapLimit = 9437184 := rfl
  rw [UInt32.le_iff_toNat_le]
  simp only [UInt32.reduceToNat]
  omega

/-- A live pointer is served with its size. -/
theorem Owned.serves (holds : Holds heap blocks) (owned : Owned blocks live) {owner : LivePointer}
    (member : owner ∈ live) : heap.Serves owner.pointer owner.size := by
  have ⟨block, blockMember, used, pointer, enough⟩ := owned.served owner member
  have ⟨above, below⟩ := holds.bounds blockMember
  exact ⟨blocks, holds.blocks_eq, block, blockMember, used,
    by rw [pointer, holds.pointerTo_toNat blockMember], enough, above, below⟩

/-- Without a free block, the largest sizes are refused. -/
theorem Holds.kmalloc_refused (holds : Holds heap blocks) (large : 0xFFFFFFFC < size)
    (used : ∀ block ∈ blocks, block.free = false) : kmalloc heap size = some (heap, 0) := by
  have nonzero : size ≠ 0 := by
    rintro rfl
    exact absurd large (by decide)
  refine holds.kmalloc_none nonzero (alloc_eq_none.mpr fun block member free => ?_)
  rw [used block member] at free
  exact absurd free Bool.false_ne_true

/-- With a free block they get one. -/
theorem Holds.kmalloc_granted (holds : Holds heap blocks) (large : 0xFFFFFFFC < size)
    {free : Block} (member : free ∈ blocks) (isFree : free.free = true) :
    ∃ after blocks' block, kmalloc heap size = some ({ heap with memory := after }, pointerTo block) ∧
      Handed heap blocks 0 after blocks' block := by
  have nonzero : size ≠ 0 := by
    rintro rfl
    exact absurd large (by decide)
  rcases holds.kmalloc_rounded nonzero with ⟨_, full⟩ | ⟨after, blocks', block, returned, handed⟩
  · have less := full free member isFree
    rw [roundUp_large large] at less
    exact absurd less (Nat.not_lt_zero _)
  · exact ⟨after, blocks', block, returned, handed 0 (Nat.zero_le _)⟩

/-- The heap has a free block when the condition fails. -/
theorem Holds.free_of_not_rounds (holds : Holds heap blocks) (wraps : ¬heap.Rounds size) :
    0xFFFFFFFC < size ∧ ∃ block ∈ blocks, block.free = true := by
  have ⟨large, notAll⟩ := not_or.mp wraps
  refine ⟨UInt32.not_le.mp large, ?_⟩
  by_contra noneFree
  refine notAll fun blocks' listed block member => ?_
  rw [holds.blocks_eq] at listed
  rw [← Option.some.inj listed] at member
  exact Bool.eq_false_iff.mpr fun free => noneFree ⟨block, member, free⟩

/-- Under the condition, the size is small or the heap is full. -/
theorem Holds.rounds_cases (holds : Holds heap blocks) (rounds : heap.Rounds size) :
    size ≤ 0xFFFFFFFC ∨ kmalloc heap size = some (heap, 0) := by
  by_cases small : size ≤ 0xFFFFFFFC
  · exact .inl small
  · have full := rounds.resolve_left small
    exact .inr (holds.kmalloc_refused (UInt32.not_le.mp small) (full blocks holds.blocks_eq))

/-- `kmalloc` serves its caller exactly when the rounding does not wrap for a free block. -/
theorem Owned.kmalloc_served_iff (holds : Holds heap blocks) (owned : Owned blocks live) :
    (HeapCall.kmalloc size).Served heap ↔ heap.Rounds size := by
  constructor
  · intro served
    by_contra wraps
    have ⟨large, free, member, isFree⟩ := holds.free_of_not_rounds wraps
    have ⟨_, _, block, returned, handed⟩ := holds.kmalloc_granted large member isFree
    have serves := served _ _ returned (handed.holds.pointerTo_ne_zero handed.mem)
    exact absurd serves.small (UInt32.not_le.mpr large)
  · intro rounds after result returned nonzero
    rcases holds.rounds_cases rounds with small | refused
    · have ⟨_, _, _, returned', holds', owned', _⟩ := owned.kmalloc_step holds small
      have ⟨sameHeap, sameResult⟩ := Prod.mk.inj (Option.some.inj (returned.symm.trans returned'))
      rw [← sameHeap] at holds'
      rw [← sameResult, HeapCall.live, if_neg nonzero] at owned'
      exact owned'.serves holds' List.mem_cons_self
    · have same := Option.some.inj (returned.symm.trans refused)
      exact absurd (congrArg Prod.snd same) nonzero

/-- The test of `krealloc` for a live pointer. -/
theorem Holds.realloc_test (holds : Holds heap blocks) {block : Block} (member : block ∈ blocks) :
    size ≤ blockSize heap.memory (pointerTo block - sizeofHeapBlock) ↔ size.toNat ≤ block.size := by
  have bounds := holds.bounds member
  have sizeValue : (UInt32.ofNat block.size).toNat = block.size :=
    UInt32.toNat_ofNat_of_lt' (by omega : block.size < 2 ^ 32)
  rw [pointerTo_sub, holds.linked.size member (by omega), UInt32.le_iff_toNat_le, sizeValue]

/-- A block that `kmalloc` hands out is apart from the header of another one in use. -/
theorem Handed.header_apart {block fresh : Block} {memory : Memory} {blocks' : List Block}
    (handed : Handed heap blocks size memory blocks' fresh) (member : block ∈ blocks)
    (used : block.free = false) : block.start + 12 ≤ fresh.start + 12 ∨
      fresh.start + 12 + fresh.size ≤ block.start := by
  have blockMember : block ∈ blocks' := (handed.same block used).mpr (.inl member)
  rcases handed.holds.tiles.apart blockMember handed.mem with same | apart
  · exact absurd (congrArg pointerTo same) (handed.fresh block member used)
  · omega

/-- A wrapped size does not serve the caller of `krealloc`: either the copy runs over the new
block, or the new block is too small. -/
theorem Holds.krealloc_unserved (holds : Holds heap blocks) {block : Block}
    (member : block ∈ blocks) (used : block.free = false) (wraps : ¬heap.Rounds size) :
    ¬(HeapCall.krealloc (pointerTo block) size).Served heap := by
  rintro ⟨served, fits⟩
  have ⟨large, free, freeMember, isFree⟩ := holds.free_of_not_rounds wraps
  have ⟨memory, blocks', fresh, returned, handed⟩ := holds.kmalloc_granted large freeMember isFree
  have above : 0xFFFFFFFC < size.toNat := UInt32.lt_iff_toNat_lt.mp large
  have bounds := holds.bounds member
  have freshBounds := handed.holds.bounds handed.mem
  have nonzero := holds.pointerTo_ne_zero member
  have result := handed.holds.pointerTo_ne_zero handed.mem
  have moves : ¬size ≤ blockSize heap.memory (pointerTo block - sizeofHeapBlock) := by
    rw [holds.realloc_test member]
    omega
  by_cases enough : block.size ≤ fresh.size
  · have ⟨copied, after, copy, freed, _⟩ := handed.moved member used enough
    have run : krealloc heap (pointerTo block) size =
        some ({ heap with memory := after }, pointerTo fresh) := by
      rw [pointerTo_sub] at moves
      rw [krealloc, if_neg nonzero]
      simp only [returned, Option.bind_eq_bind, Option.bind_some, if_neg result, pointerTo_sub,
        copy, freed]
      exact if_neg moves
    exact absurd (served _ _ run result).small (UInt32.not_le.mpr large)
  · have blockMember : block ∈ blocks' := (handed.same block used).mpr (.inl member)
    have apart := handed.header_apart member used
    have pointer := handed.holds.pointerTo_toNat handed.mem
    have header : (UInt32.ofNat block.start).toNat = block.start :=
      UInt32.toNat_ofNat_of_lt' (by omega : block.start < 2 ^ 32)
    have oldSize : blockSize memory (UInt32.ofNat block.start) = UInt32.ofNat block.size :=
      handed.holds.linked.size blockMember (by omega)
    have newSize : blockSize memory (UInt32.ofNat fresh.start) = UInt32.ofNat fresh.size :=
      handed.holds.linked.size handed.mem (by omega)
    have rounds : heapRounds = 1048576 := rfl
    have beyond : UInt32.ofNat fresh.size ∈ kreallocOffsets (UInt32.ofNat block.start)
        (pointerTo fresh) (pointerTo block) heapRounds (UInt32.ofNat 0) memory :=
      mem_kreallocOffsets heapRounds oldSize (by omega) (by omega) (by omega) (by omega)
        (Nat.zero_le _) (by omega)
    have inside := fits _ _ nonzero moves returned result
    simp only [pointerTo_sub] at inside
    have less := inside _ beyond
    rw [newSize] at less
    exact absurd less (UInt32.lt_irrefl _)

/-- The copy of a small size stays inside the new block. -/
theorem Holds.copyFits (holds : Holds heap blocks) {block : Block} (member : block ∈ blocks)
    (used : block.free = false) (rounds : heap.Rounds size) :
    CopyFits heap (pointerTo block) size := by
  intro moved target _ moves returned nonzero
  rw [holds.realloc_test member] at moves
  rcases holds.rounds_cases rounds with small | refused
  · rcases holds.kmalloc_cases small with ⟨none, _⟩ | ⟨memory, blocks', fresh, some, handed⟩
    · exact absurd (congrArg Prod.snd (Option.some.inj (returned.symm.trans none))) nonzero
    · have ⟨sameHeap, sameTarget⟩ := Prod.mk.inj (Option.some.inj (returned.symm.trans some))
      rw [sameHeap, sameTarget]
      have enough := handed.enough
      have bounds := holds.bounds member
      have freshBounds := handed.holds.bounds handed.mem
      have blockMember : block ∈ blocks' := (handed.same block used).mpr (.inl member)
      have apart := handed.header_apart member used
      have pointer := handed.holds.pointerTo_toNat handed.mem
      have header : (UInt32.ofNat block.start).toNat = block.start :=
        UInt32.toNat_ofNat_of_lt' (by omega : block.start < 2 ^ 32)
      have oldSize : blockSize memory (UInt32.ofNat block.start) = UInt32.ofNat block.size :=
        handed.holds.linked.size blockMember (by omega)
      have newSize : blockSize memory (UInt32.ofNat fresh.start) = UInt32.ofNat fresh.size :=
        handed.holds.linked.size handed.mem (by omega)
      have sizeValue : (UInt32.ofNat fresh.size).toNat = fresh.size :=
        UInt32.toNat_ofNat_of_lt' (by omega : fresh.size < 2 ^ 32)
      intro i offset
      rw [pointerTo_sub] at offset ⊢
      have less := kreallocOffsets_lt (i := 0) heapRounds oldSize (by omega) (by omega) (by omega)
        (Nat.zero_le _) i offset
      rw [UInt32.lt_iff_toNat_lt, newSize, sizeValue]
      omega
  · exact absurd (congrArg Prod.snd (Option.some.inj (returned.symm.trans refused))) nonzero

/-- `krealloc` of NULL is `kmalloc`. -/
theorem krealloc_null_served :
    (HeapCall.krealloc 0 size).Served heap ↔ (HeapCall.kmalloc size).Served heap := by
  have run : krealloc heap 0 size = kmalloc heap size := if_pos rfl
  simp only [HeapCall.Served, run]
  exact and_iff_left fun _ _ nonzero => absurd rfl nonzero

/-- `krealloc` serves its caller exactly when the rounding does not wrap for a free block. -/
theorem Owned.krealloc_served_iff (holds : Holds heap blocks) (owned : Owned blocks live)
    (pointers : ptr = 0 ∨ ptr ∈ live.map LivePointer.pointer) :
    (HeapCall.krealloc ptr size).Served heap ↔ heap.Rounds size := by
  rcases pointers with rfl | member
  · rw [krealloc_null_served, owned.kmalloc_served_iff holds]
  · obtain ⟨block, blockMember, used, pointer⟩ := owned.block_of_pointer member
    rw [pointer]
    constructor
    · intro served
      by_contra wraps
      exact holds.krealloc_unserved blockMember used wraps served
    · intro rounds
      refine ⟨fun after result returned nonzero => ?_, holds.copyFits blockMember used rounds⟩
      rcases holds.rounds_cases rounds with small | refused
      · obtain ⟨_, _, _, returned', holds', owned', _⟩ :=
          owned.krealloc_step holds small (.inr (pointer ▸ member))
        obtain ⟨sameHeap, sameResult⟩ := Prod.mk.inj (Option.some.inj (returned.symm.trans returned'))
        rw [← sameHeap] at holds'
        rw [← sameResult, HeapCall.live, if_neg nonzero] at owned'
        exact owned'.serves holds' List.mem_cons_self
      · by_cases fits : size ≤ blockSize heap.memory (pointerTo block - sizeofHeapBlock)
        · have enough := (holds.realloc_test blockMember).mp fits
          have resized := owned.resize holds blockMember used enough
          have run : krealloc heap (pointerTo block) size = some (heap, pointerTo block) := by
            rw [krealloc, if_neg (holds.pointerTo_ne_zero blockMember)]
            exact if_pos fits
          obtain ⟨sameHeap, sameResult⟩ := Prod.mk.inj (Option.some.inj (returned.symm.trans run))
          rw [sameHeap, sameResult]
          exact resized.serves holds List.mem_cons_self
        · have run : krealloc heap (pointerTo block) size = some (heap, 0) := by
            rw [krealloc, if_neg (holds.pointerTo_ne_zero blockMember)]
            simp only [if_neg fits, refused]
            rfl
          exact absurd (congrArg Prod.snd (Option.some.inj (returned.symm.trans run))) nonzero

/-- A call serves its caller exactly when it meets the condition on its size. -/
theorem Owned.served_iff {call : HeapCall} (holds : Holds heap blocks) (owned : Owned blocks live)
    (pointers : call.Pointers live) : call.Served heap ↔ call.Sized heap := by
  cases call with
  | kmalloc size => exact owned.kmalloc_served_iff holds
  | kfree ptr => exact Iff.rfl
  | krealloc ptr size => exact owned.krealloc_served_iff holds pointers

/-- A call whose size wraps, on a heap without a free block, changes nothing. -/
theorem Owned.call_refused {call : HeapCall} {after : Heap} {result : UInt32}
    (holds : Holds heap blocks) (owned : Owned blocks live) (pointers : call.Pointers live)
    (sized : call.Sized heap) (returned : call.run heap = some (after, result)) :
    call.Legal live ∨ after = heap ∧ call.live live result = live := by
  cases call with
  | kmalloc size =>
    rcases holds.rounds_cases sized with small | refused
    · exact .inl small
    · obtain ⟨sameHeap, sameResult⟩ := Prod.mk.inj (Option.some.inj (returned.symm.trans refused))
      exact .inr ⟨sameHeap, by rw [sameResult, HeapCall.live, if_pos rfl]⟩
  | kfree ptr => exact .inl pointers
  | krealloc ptr size =>
    rcases holds.rounds_cases sized with small | refused
    · exact .inl ⟨small, pointers⟩
    · by_cases small : size ≤ 0xFFFFFFFC
      · exact .inl ⟨small, pointers⟩
      · have run : krealloc heap ptr size = some (heap, 0) := by
          rcases pointers with rfl | member
          · exact (if_pos rfl).trans refused
          · obtain ⟨block, blockMember, _, pointer⟩ := owned.block_of_pointer member
            have bounds := holds.bounds blockMember
            have large := UInt32.lt_iff_toNat_lt.mp (UInt32.not_le.mp small)
            simp only [UInt32.reduceToNat] at large
            have moves : ¬size ≤ blockSize heap.memory (pointerTo block - sizeofHeapBlock) := by
              rw [holds.realloc_test blockMember]
              omega
            rw [krealloc, pointer, if_neg (holds.pointerTo_ne_zero blockMember)]
            simp only [if_neg moves, refused]
            rfl
        obtain ⟨sameHeap, sameResult⟩ := Prod.mk.inj (Option.some.inj (returned.symm.trans run))
        exact .inr ⟨sameHeap, by rw [sameResult, HeapCall.live, if_pos rfl]⟩

/-- The states of such runs are those of runs with small sizes. -/
theorem SizedRun.heapRun (run : SizedRun heap live) : HeapRun heap live := by
  induction run with
  | init memory => exact .init memory
  | call call before pointers sized returned ih =>
    have ⟨blocks, holds, owned⟩ := ih.holds
    rcases owned.call_refused holds pointers sized returned with legal | ⟨sameHeap, sameLive⟩
    · exact .call call ih legal returned
    · rw [sameHeap, sameLive]
      exact ih
  | store offset byte before owned within ih => exact .store offset byte ih owned within

end Sizes

/-- In every state of every run whose calls meet the condition on their sizes, each further call
serves its caller, and copies nothing behind the new block, exactly when it meets the condition
too. -/
theorem sizedRun_served_iff {heap : Heap} {live : List LivePointer} (run : SizedRun heap live)
    (call : HeapCall) (pointers : call.Pointers live) : call.Served heap ↔ call.Sized heap := by
  have ⟨_, holds, owned⟩ := run.heapRun.holds
  exact owned.served_iff holds pointers

/-- Five bytes are served at the start. -/
theorem sizedRun_served_five : (HeapCall.kmalloc 5).Served (kheapInit fun _ => 0) :=
  (sizedRun_served_iff (.init fun _ => 0) (.kmalloc 5) trivial).mpr (.inl (by decide))

/-- The largest size is not: at the start `kmalloc` returns a pointer to a block of no bytes. -/
theorem kmalloc_unserved : ∃ heap, SizedRun heap [] ∧ (HeapCall.kmalloc 0xFFFFFFFF).Pointers [] ∧
    ¬(HeapCall.kmalloc 0xFFFFFFFF).Served heap := by
  have run : SizedRun (kheapInit fun _ => 0) [] := .init fun _ => 0
  refine ⟨_, run, trivial, fun served => ?_⟩
  have ⟨_, holds, owned⟩ := run.heapRun.holds
  rcases (owned.kmalloc_served_iff holds).mp served with small | full
  · exact absurd small (by decide)
  · have listed := (kheapInit_holds fun _ => 0).blocks_eq
    exact absurd (full _ listed _ (List.mem_singleton_self _)) (by decide)

end HexaOS.Kheap
