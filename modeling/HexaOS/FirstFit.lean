import Mathlib.Data.List.Chain
import Mathlib.Data.List.Perm.Basic
import Mathlib.Tactic.Common

/-!
# First-fit block lists

A block list cuts an interval of addresses into blocks, each a header of fixed
length with its payload after it. Allocation takes the first free block that is
large enough and splits off the rest when the rest is worth a block of its own.
Release frees a block and joins it with a free neighbour on either side. Both keep
the blocks a tiling of the interval, keep free blocks apart, and say exactly which
blocks are in use afterwards.
-/

namespace HexaOS.FirstFit

/-- One block: its header starts at `start`, its payload has `size` bytes. -/
structure Block where
  /-- The address of the header. -/
  start : ℕ
  /-- The length of the payload. -/
  size : ℕ
  /-- Whether the block may be allocated. -/
  free : Bool
  deriving DecidableEq, Repr

variable {header slack : ℕ}

/-- The blocks lie one after another and cover exactly the addresses from the
first bound to the second. -/
def Tiles (header : ℕ) : ℕ → List Block → ℕ → Prop
  | first, [], last => first = last
  | first, block :: blocks, last =>
    block.start = first ∧ Tiles header (first + header + block.size) blocks last

/-- No two neighbouring blocks are both free. -/
def Separated (blocks : List Block) : Prop :=
  blocks.IsChain fun before after => ¬(before.free = true ∧ after.free = true)

/-- A fitting block after `need` bytes of it are taken: the rest becomes a free
block when more than a header and the slack would be left. -/
def place (header slack need : ℕ) (block : Block) : List Block :=
  if need + header + slack < block.size then
    [⟨block.start, need, false⟩,
      ⟨block.start + header + need, block.size - need - header, true⟩]
  else [⟨block.start, block.size, false⟩]

/-- Take `need` bytes from the first free block that has them. -/
def alloc (header slack need : ℕ) : List Block → Option (ℕ × List Block)
  | [] => none
  | block :: blocks =>
    if block.free = true ∧ need ≤ block.size then
      some (block.start, place header slack need block ++ blocks)
    else (alloc header slack need blocks).map fun found => (found.1, block :: found.2)

/-- Put a block in front of others, as one block with the next if both are free. -/
def join (header : ℕ) (block : Block) : List Block → List Block
  | [] => [block]
  | next :: blocks =>
    if block.free = true ∧ next.free = true then
      ⟨block.start, block.size + (header + next.size), true⟩ :: blocks
    else block :: next :: blocks

/-- Free the block at an address and join it with its free neighbours. -/
def release (header address : ℕ) : List Block → List Block
  | [] => []
  | block :: blocks =>
    if block.start = address then join header ⟨block.start, block.size, true⟩ blocks
    else join header block (release header address blocks)

section Tiling

/-- A tiling of a concatenation is a tiling of each part. -/
theorem tiles_append {front back : List Block} {first last : ℕ} :
    Tiles header first (front ++ back) last ↔
      ∃ middle, Tiles header first front middle ∧ Tiles header middle back last := by
  induction front generalizing first with
  | nil => simp [Tiles]
  | cons block front ih =>
    simp only [List.cons_append, Tiles, ih]
    constructor
    · rintro ⟨start, middle, left, right⟩
      exact ⟨middle, ⟨start, left⟩, right⟩
    · rintro ⟨middle, ⟨start, left⟩, right⟩
      exact ⟨start, middle, left, right⟩

/-- A tiling does not run backwards. -/
theorem Tiles.le {blocks : List Block} {first last : ℕ} (tiles : Tiles header first blocks last) :
    first ≤ last := by
  induction blocks generalizing first with
  | nil => exact Nat.le_of_eq tiles
  | cons block blocks ih =>
    have rest := ih tiles.2
    omega

/-- Each block of a tiling lies between its bounds. -/
theorem Tiles.bounds {blocks : List Block} {first last : ℕ}
    (tiles : Tiles header first blocks last) {block : Block} (member : block ∈ blocks) :
    first ≤ block.start ∧ block.start + header + block.size ≤ last := by
  induction blocks generalizing first with
  | nil => cases member
  | cons next blocks ih =>
    have start := tiles.1
    have rest := tiles.2.le
    rcases List.mem_cons.mp member with same | later
    · subst same
      omega
    · have bounds := ih tiles.2 later
      omega

/-- A tiling has at most as many blocks as headers fit. -/
theorem Tiles.length_le {blocks : List Block} {first last : ℕ}
    (tiles : Tiles header first blocks last) : first + header * blocks.length ≤ last := by
  induction blocks generalizing first with
  | nil =>
    have same : first = last := tiles
    simp [same]
  | cons block blocks ih =>
    have rest := ih tiles.2
    simp only [List.length_cons, Nat.mul_add, Nat.mul_one]
    omega

/-- Blocks of a tiling come in the order of their addresses, without overlap. -/
theorem Tiles.pairwise {blocks : List Block} {first last : ℕ}
    (tiles : Tiles header first blocks last) :
    blocks.Pairwise fun before after => before.start + header + before.size ≤ after.start := by
  induction blocks generalizing first with
  | nil => exact List.Pairwise.nil
  | cons block blocks ih =>
    refine List.Pairwise.cons (fun later member => ?_) (ih tiles.2)
    have start := tiles.1
    have bounds := tiles.2.bounds member
    omega

/-- Two blocks of a tiling are one block or lie apart. -/
theorem Tiles.apart {blocks : List Block} {first last : ℕ}
    (tiles : Tiles header first blocks last) {one other : Block}
    (left : one ∈ blocks) (right : other ∈ blocks) :
    one = other ∨ one.start + header + one.size ≤ other.start ∨
      other.start + header + other.size ≤ one.start := by
  induction blocks generalizing first with
  | nil => cases left
  | cons block blocks ih =>
    have start := tiles.1
    rcases List.mem_cons.mp left with same | left
    · rcases List.mem_cons.mp right with same' | right
      · exact .inl (same.trans same'.symm)
      · have bounds := tiles.2.bounds right
        subst same
        omega
    · rcases List.mem_cons.mp right with same' | right
      · have bounds := tiles.2.bounds left
        subst same'
        omega
      · exact ih tiles.2 left right

/-- With headers, the start address tells the blocks of a tiling apart. -/
theorem Tiles.eq_of_start {blocks : List Block} {first last : ℕ} (positive : 0 < header)
    (tiles : Tiles header first blocks last) {one other : Block}
    (left : one ∈ blocks) (right : other ∈ blocks) (same : one.start = other.start) :
    one = other := by
  rcases tiles.apart left right with equal | before | after
  · exact equal
  · omega
  · omega

/-- A tiling by separated blocks that are all free is a single block. -/
theorem Tiles.single {blocks : List Block} {first last : ℕ}
    (tiles : Tiles header first blocks last) (room : first < last)
    (separated : Separated blocks) (free : ∀ block ∈ blocks, block.free = true) :
    blocks = [⟨first, last - first - header, true⟩] := by
  cases blocks with
  | nil =>
    have empty : first = last := tiles
    omega
  | cons block blocks =>
    cases blocks with
    | nil =>
      have start : block.start = first := tiles.1
      have stop : first + header + block.size = last := tiles.2
      have size : block.size = last - first - header := by omega
      have marked : block.free = true := free block (List.mem_singleton.mpr rfl)
      cases block
      simp_all
    | cons next blocks =>
      have apart := (List.isChain_cons_cons.mp separated).1
      have left := free block (by simp)
      have right := free next (by simp)
      exact absurd ⟨left, right⟩ apart

end Tiling

section Allocation

variable {need : ℕ}

/-- The blocks a placement leaves cover what the block covered. -/
theorem place_tiles (block : Block) :
    Tiles header block.start (place header slack need block)
      (block.start + header + block.size) := by
  unfold place
  split
  · simp only [Tiles, true_and]
    omega
  · simp only [Tiles, true_and]

/-- Allocation fails only when no free block is large enough. -/
theorem alloc_eq_none {blocks : List Block} :
    alloc header slack need blocks = none ↔
      ∀ block ∈ blocks, block.free = true → block.size < need := by
  induction blocks with
  | nil => simp [alloc]
  | cons block blocks ih =>
    unfold alloc
    split
    next fits =>
      simp only [reduceCtorEq, List.mem_cons, forall_eq_or_imp, false_iff, not_and]
      intro small
      have := small fits.1
      omega
    next unfit =>
      simp only [Option.map_eq_none_iff, ih, List.mem_cons, forall_eq_or_imp, iff_and_self]
      intro _ free
      by_contra large
      exact unfit ⟨free, by omega⟩

/-- What a successful allocation does: the first free block that is large enough is
replaced by its placement. -/
theorem alloc_eq_some {blocks blocks' : List Block} {start : ℕ}
    (found : alloc header slack need blocks = some (start, blocks')) :
    ∃ front block back, blocks = front ++ block :: back ∧ block.free = true ∧
      need ≤ block.size ∧ start = block.start ∧
      blocks' = front ++ (place header slack need block ++ back) ∧
      ∀ other ∈ front, ¬(other.free = true ∧ need ≤ other.size) := by
  induction blocks generalizing start blocks' with
  | nil => simp [alloc] at found
  | cons block blocks ih =>
    unfold alloc at found
    split at found
    next fits =>
      simp only [Option.some.injEq, Prod.mk.injEq] at found
      exact ⟨[], block, blocks, rfl, fits.1, fits.2, found.1.symm, found.2.symm,
        fun _ member => nomatch member⟩
    next unfit =>
      obtain ⟨⟨start', rest⟩, tail, same⟩ := Option.map_eq_some_iff.mp found
      simp only [Prod.mk.injEq] at same
      obtain ⟨front, taken, back, split, free, fits, where', rest', others⟩ := ih tail
      refine ⟨block :: front, taken, back, by rw [split]; rfl, free, fits,
        same.1.symm.trans where', ?_, ?_⟩
      · rw [← same.2, rest', List.cons_append]
      · exact List.forall_mem_cons.mpr ⟨unfit, others⟩

/-- Allocation keeps the tiling. -/
theorem alloc_tiles {blocks blocks' : List Block} {start first last : ℕ}
    (found : alloc header slack need blocks = some (start, blocks'))
    (tiles : Tiles header first blocks last) : Tiles header first blocks' last := by
  obtain ⟨front, block, back, split, free, fits, where', rest, -⟩ := alloc_eq_some found
  rw [split, tiles_append] at tiles
  obtain ⟨middle, left, at', right⟩ := tiles
  rw [rest, tiles_append]
  refine ⟨middle, left, tiles_append.mpr ⟨_, ?_, right⟩⟩
  rw [← at']
  exact place_tiles block

/-- A placement in place of a free block keeps free blocks apart. -/
theorem separated_place {front back : List Block} {block : Block} (free : block.free = true)
    (separated : Separated (front ++ block :: back)) :
    Separated (front ++ (place header slack need block ++ back)) := by
  have whole := List.isChain_append.mp separated
  have tail := List.isChain_cons.mp whole.2.1
  have apart : ∀ next ∈ back.head?, next.free = false := by
    intro next member
    have := tail.1 next member
    simpa [free] using this
  have placed : (place header slack need block ++ back).IsChain
      fun before after => ¬(before.free = true ∧ after.free = true) := by
    unfold place
    split
    · simp only [List.cons_append, List.nil_append]
      refine List.isChain_cons_cons.mpr ⟨by simp, List.isChain_cons.mpr ⟨?_, tail.2⟩⟩
      intro next member
      simp [apart next member]
    · simp only [List.cons_append, List.nil_append]
      exact List.isChain_cons.mpr ⟨by simp, tail.2⟩
  refine List.isChain_append.mpr ⟨whole.1, placed, ?_⟩
  intro before left after right
  have used : after.free = false := by
    unfold place at right
    split at right <;> simp at right <;> simp [← right]
  simp [used]

/-- Allocation keeps free blocks apart. -/
theorem alloc_separated {blocks blocks' : List Block} {start : ℕ}
    (found : alloc header slack need blocks = some (start, blocks'))
    (separated : Separated blocks) : Separated blocks' := by
  obtain ⟨front, block, back, split, free, fits, where', rest, -⟩ := alloc_eq_some found
  rw [rest]
  rw [split] at separated
  exact separated_place free separated

/-- The blocks in use after an allocation: those before it and one new block, which
is large enough. -/
theorem alloc_used {blocks blocks' : List Block} {start : ℕ}
    (found : alloc header slack need blocks = some (start, blocks')) :
    ∃ size, need ≤ size ∧
      ∀ block, block.free = false →
        (block ∈ blocks' ↔ block ∈ blocks ∨ block = ⟨start, size, false⟩) := by
  obtain ⟨front, taken, back, split, free, fits, where', rest, -⟩ := alloc_eq_some found
  have fresh : ∀ block : Block, block.free = false → block ≠ taken := by
    intro block used same
    rw [same, free] at used
    cases used
  by_cases large : need + header + slack < taken.size
  · refine ⟨need, le_refl need, fun block used => ?_⟩
    have other : block ≠ ⟨taken.start + header + need, taken.size - need - header, true⟩ := by
      intro same
      rw [same] at used
      cases used
    simp only [rest, split, place, large, if_true, where', List.mem_append, List.mem_cons,
      List.not_mem_nil, or_false, fresh block used, other, false_or]
    tauto
  · refine ⟨taken.size, fits, fun block used => ?_⟩
    simp only [rest, split, place, large, if_false, where', List.mem_append, List.mem_cons,
      List.not_mem_nil, or_false, fresh block used, false_or]
    tauto

/-- Allocation keeps a common divisor of the sizes that divides the header and the
requested size. -/
theorem alloc_aligned {unit start : ℕ} {blocks blocks' : List Block}
    (found : alloc header slack need blocks = some (start, blocks'))
    (ofHeader : unit ∣ header) (ofNeed : unit ∣ need)
    (aligned : ∀ block ∈ blocks, unit ∣ block.size) : ∀ block ∈ blocks', unit ∣ block.size := by
  obtain ⟨front, taken, back, split, free, fits, where', rest, -⟩ := alloc_eq_some found
  have whole : unit ∣ taken.size := aligned taken (by simp [split])
  intro block member
  rw [rest, List.mem_append, List.mem_append] at member
  rcases member with left | middle | right
  · exact aligned block (by simp [split, left])
  · unfold place at middle
    split at middle
    · simp only [List.mem_cons, List.not_mem_nil, or_false] at middle
      rcases middle with same | same
      · rw [same]
        exact ofNeed
      · rw [same]
        exact Nat.dvd_sub (Nat.dvd_sub whole ofNeed) ofHeader
    · simp only [List.mem_cons, List.not_mem_nil, or_false] at middle
      rw [middle]
      exact whole
  · exact aligned block (by simp [split, right])

end Allocation

section Release

/-- A block that is not free, or is followed by one that is not, is put in front
unchanged. -/
theorem join_eq_cons {block : Block} {blocks : List Block}
    (apart : ∀ next ∈ blocks.head?, ¬(block.free = true ∧ next.free = true)) :
    join header block blocks = block :: blocks := by
  cases blocks with
  | nil => rfl
  | cons next blocks => exact if_neg (apart next rfl)

/-- Joining keeps the address of the front. -/
theorem join_head (block : Block) (blocks : List Block) :
    (join header block blocks).head?.map Block.start = some block.start := by
  cases blocks with
  | nil => rfl
  | cons next blocks =>
    rw [join]
    split <;> rfl

/-- A joined free block is free and starts where it did. -/
theorem join_free {block : Block} (blocks : List Block) (free : block.free = true) :
    ∃ size rest, join header block blocks = ⟨block.start, size, true⟩ :: rest := by
  have own : block = ⟨block.start, block.size, true⟩ := by
    rw [← free]
  cases blocks with
  | nil => exact ⟨block.size, [], congrArg (· :: []) own⟩
  | cons next blocks =>
    rw [join]
    split
    · exact ⟨_, _, rfl⟩
    · exact ⟨block.size, next :: blocks, congrArg (· :: next :: blocks) own⟩

/-- Joining keeps the tiling. -/
theorem join_tiles {block : Block} {blocks : List Block} {first last : ℕ}
    (tiles : Tiles header first (block :: blocks) last) :
    Tiles header first (join header block blocks) last := by
  cases blocks with
  | nil => exact tiles
  | cons next blocks =>
    rw [join]
    split
    · refine ⟨tiles.1, ?_⟩
      have rest := tiles.2.2
      rw [show first + header + block.size + header + next.size =
        first + header + (block.size + (header + next.size)) by omega] at rest
      exact rest
    · exact tiles

/-- Joining keeps free blocks apart. -/
theorem join_separated {block : Block} {blocks : List Block} (separated : Separated blocks) :
    Separated (join header block blocks) := by
  cases blocks with
  | nil => exact List.isChain_singleton _
  | cons next blocks =>
    rw [join]
    split
    next both =>
      have tail := List.isChain_cons.mp separated
      refine List.isChain_cons.mpr ⟨fun after member => ?_, tail.2⟩
      have apart := tail.1 after member
      simpa [both.2] using apart
    next apart => exact List.isChain_cons_cons.mpr ⟨apart, separated⟩

/-- Joining leaves the blocks in use. -/
theorem mem_join_used {block target : Block} {blocks : List Block} (used : target.free = false) :
    target ∈ join header block blocks ↔ target = block ∨ target ∈ blocks := by
  cases blocks with
  | nil => simp [join]
  | cons next blocks =>
    rw [join]
    split
    next both =>
      have left : target ≠ block := by
        intro same
        rw [same, both.1] at used
        cases used
      have right : target ≠ next := by
        intro same
        rw [same, both.2] at used
        cases used
      have new : target ≠ ⟨block.start, block.size + (header + next.size), true⟩ := by
        intro same
        rw [same] at used
        cases used
      simp [left, right, new]
    next => simp

/-- Joining keeps a common divisor of the sizes that divides the header. -/
theorem join_aligned {unit : ℕ} {block : Block} {blocks : List Block} (ofHeader : unit ∣ header)
    (front : unit ∣ block.size) (aligned : ∀ next ∈ blocks, unit ∣ next.size) :
    ∀ next ∈ join header block blocks, unit ∣ next.size := by
  cases blocks with
  | nil =>
    intro next member
    rw [List.mem_singleton.mp member]
    exact front
  | cons after blocks =>
    intro next member
    simp only [join] at member
    split at member
    · rcases List.mem_cons.mp member with same | later
      · rw [same]
        exact Nat.dvd_add front (Nat.dvd_add ofHeader (aligned after (by simp)))
      · exact aligned next (by simp [later])
    · rcases List.mem_cons.mp member with same | later
      · rw [same]
        exact front
      · exact aligned next later

/-- Release keeps the tiling. -/
theorem release_tiles {address first last : ℕ} {blocks : List Block}
    (tiles : Tiles header first blocks last) :
    Tiles header first (release header address blocks) last := by
  induction blocks generalizing first with
  | nil => exact tiles
  | cons block blocks ih =>
    unfold release
    split
    · exact join_tiles ⟨tiles.1, tiles.2⟩
    · exact join_tiles ⟨tiles.1, ih tiles.2⟩

/-- Release keeps free blocks apart. -/
theorem release_separated {address : ℕ} {blocks : List Block} (separated : Separated blocks) :
    Separated (release header address blocks) := by
  induction blocks with
  | nil => exact List.isChain_nil
  | cons block blocks ih =>
    unfold release
    split
    · exact join_separated (List.isChain_cons.mp separated).2
    · exact join_separated (ih (List.isChain_cons.mp separated).2)

/-- Release keeps a common divisor of the sizes that divides the header. -/
theorem release_aligned {unit address : ℕ} {blocks : List Block} (ofHeader : unit ∣ header)
    (aligned : ∀ block ∈ blocks, unit ∣ block.size) :
    ∀ block ∈ release header address blocks, unit ∣ block.size := by
  induction blocks with
  | nil => exact aligned
  | cons block blocks ih =>
    have front := aligned block (by simp)
    have rest : ∀ next ∈ blocks, unit ∣ next.size := fun next member =>
      aligned next (by simp [member])
    unfold release
    split
    · exact join_aligned ofHeader front rest
    · exact join_aligned ofHeader front (ih rest)

/-- The blocks in use after a release: those before it but the one at the address. -/
theorem mem_release_used {address first last : ℕ} {blocks : List Block} (positive : 0 < header)
    (tiles : Tiles header first blocks last) {target : Block} (used : target.free = false) :
    target ∈ release header address blocks ↔ target ∈ blocks ∧ target.start ≠ address := by
  induction blocks generalizing first with
  | nil => simp [release]
  | cons block blocks ih =>
    unfold release
    split
    next found =>
      have freed : target ≠ ⟨block.start, block.size, true⟩ := by
        intro same
        rw [same] at used
        cases used
      rw [mem_join_used used]
      simp only [freed, false_or, List.mem_cons]
      constructor
      · intro later
        have bounds := tiles.2.bounds later
        have start := tiles.1
        exact ⟨.inr later, by omega⟩
      · rintro ⟨same | later, other⟩
        · exact absurd (same ▸ found) other
        · exact later
    next missed =>
      rw [mem_join_used used, ih tiles.2, List.mem_cons]
      constructor
      · rintro (same | ⟨later, other⟩)
        · exact ⟨.inl same, same ▸ missed⟩
        · exact ⟨.inr later, other⟩
      · rintro ⟨same | later, other⟩
        · exact .inl same
        · exact .inr ⟨later, other⟩

/-- Release of the first block. -/
theorem release_cons {block : Block} (back : List Block) :
    release header block.start (block :: back) =
      join header ⟨block.start, block.size, true⟩ back := if_pos rfl

/-- Release of a block that has a predecessor: only the predecessor is joined on
its left. -/
theorem release_append {front back : List Block} {before block : Block}
    (others : ∀ other ∈ front ++ [before], other.start ≠ block.start)
    (separated : Separated (front ++ [before])) :
    release header block.start (front ++ before :: block :: back) =
      front ++ join header before (join header ⟨block.start, block.size, true⟩ back) := by
  induction front with
  | nil =>
    have missed : before.start ≠ block.start := others before (by simp)
    simp only [List.nil_append]
    rw [release, if_neg missed, release_cons]
  | cons first front ih =>
    have missed : first.start ≠ block.start := others first (by simp)
    have chain := List.isChain_cons.mp separated
    have rest := ih (fun other member => others other (by simp_all)) chain.2
    simp only [List.cons_append]
    rw [release, if_neg missed, rest]
    refine join_eq_cons fun next member => ?_
    cases front with
    | cons second front => exact chain.1 next member
    | nil =>
      -- the predecessor keeps its mark when it is joined, and was apart from `first`
      have apart := chain.1 before rfl
      have mark : next.free = before.free := by
        generalize join header ⟨block.start, block.size, true⟩ back = blocks at member
        cases blocks with
        | nil =>
          simp only [List.nil_append, join, List.head?_cons, Option.mem_some_iff] at member
          rw [← member]
        | cons after blocks =>
          simp only [List.nil_append, join] at member
          split at member
          next both =>
            simp only [List.head?_cons, Option.mem_some_iff] at member
            rw [← member]
            exact both.1.symm
          next =>
            simp only [List.head?_cons, Option.mem_some_iff] at member
            rw [← member]
      rw [mark]
      exact apart

end Release

end HexaOS.FirstFit
