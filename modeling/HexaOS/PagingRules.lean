import Mathlib.Order.Interval.Finset.Nat
import HexaOS.KheapBlocks
import HexaOS.Paging

/-!
# Rules for the paging code

A call ends with a result or stops at a page that is not present; both leave a state. The rules
say which state it has to be, for the loads and stores through the page tables, for the frame
allocator, and for the loops that fill a frame.
-/

namespace HexaOS.Paging

open X86 Process

/-- A call ends with a result and a state that satisfy `post`, or stops in a state that
satisfies `stopped`. -/
def wp {α : Type} (code : PagingM α) (state : PagingState) (post : α → PagingState → Prop)
    (stopped : PagingState → Prop) : Prop :=
  match exec code state with
  | (.ok value, state') => post value state'
  | (.error _, state') => stopped state'

section Rules

variable {α β : Type} {state : PagingState} {stopped : PagingState → Prop}

/-- A sequence goes on from where its first part ends. -/
theorem exec_bind (code : PagingM α) (rest : α → PagingM β) (state : PagingState) :
    exec (code >>= rest) state =
      match exec code state with
      | (.ok value, state') => exec (rest value) state'
      | (.error v, state') => (.error v, state') := by
  simp only [exec, ExceptT.run_bind, StateT.run_bind]
  show (match code.run.run state with | (e, s) => _) = _
  rcases code.run.run state with ⟨value | value, state'⟩ <;> rfl

@[simp] theorem wp_pure {value : α} {post : α → PagingState → Prop} :
    wp (pure value) state post stopped ↔ post value state := Iff.rfl

@[simp] theorem wp_bind {code : PagingM α} {rest : α → PagingM β} {post : β → PagingState → Prop} :
    wp (code >>= rest) state post stopped ↔
      wp code state (fun value state' => wp (rest value) state' post stopped) stopped := by
  rw [wp, wp, exec_bind]
  rcases exec code state with ⟨value | value, state'⟩ <;> rfl

@[simp] theorem wp_get {post : PagingState → PagingState → Prop} :
    wp (get : PagingM PagingState) state post stopped ↔ post state state := Iff.rfl

@[simp] theorem wp_set {state' : PagingState} {post : Unit → PagingState → Prop} :
    wp (set state' : PagingM Unit) state post stopped ↔ post () state' := Iff.rfl

@[simp] theorem wp_modify {update : PagingState → PagingState} {post : Unit → PagingState → Prop} :
    wp (modify update : PagingM Unit) state post stopped ↔ post () (update state) := Iff.rfl

@[simp] theorem wp_throw {v : UInt32} {post : α → PagingState → Prop} :
    wp (throw v : PagingM α) state post stopped ↔ stopped state := Iff.rfl

/-- Code that runs alike satisfies the same conditions. -/
theorem wp_congr {code code' : PagingM α} {post : α → PagingState → Prop}
    (hexec : exec code state = exec code' state) (h : wp code' state post stopped) :
    wp code state post stopped := by
  rwa [wp, hexec]

/-- A branch whose condition holds. -/
theorem wp_if_pos {condition : Prop} [Decidable condition] {code code' : PagingM α}
    {post : α → PagingState → Prop} (hcondition : condition) (h : wp code state post stopped) :
    wp (if condition then code else code') state post stopped := by
  rwa [if_pos hcondition]

/-- A branch whose condition fails. -/
theorem wp_if_neg {condition : Prop} [Decidable condition] {code code' : PagingM α}
    {post : α → PagingState → Prop} (hcondition : ¬condition) (h : wp code' state post stopped) :
    wp (if condition then code else code') state post stopped := by
  rwa [if_neg hcondition]

/-- Weaker conditions are easier to establish. -/
theorem wp_mono {code : PagingM α} {post post' : α → PagingState → Prop}
    {stopped' : PagingState → Prop} (h : wp code state post stopped)
    (hpost : ∀ value state', post value state' → post' value state')
    (hstopped : ∀ state', stopped state' → stopped' state') :
    wp code state post' stopped' := by
  rw [wp] at h ⊢
  rcases hexec : exec code state with ⟨value | value, state'⟩
  · rw [hexec] at h
    exact hstopped state' h
  · rw [hexec] at h
    exact hpost value state' h

/-- The result and the state are those of the run. -/
theorem wp_exec {code : PagingM α} {post : α → PagingState → Prop} (h : wp code state post stopped) :
    wp code state (fun value state' => exec code state = (.ok value, state') ∧ post value state')
      stopped := by
  rw [wp] at h ⊢
  rcases hexec : exec code state with ⟨value | value, state'⟩
  · rw [hexec] at h
    exact h
  · rw [hexec] at h
    exact ⟨rfl, h⟩

/-- The state that a call leaves, one way or the other. -/
theorem wp_state {code : PagingM α} {property : PagingState → Prop}
    (h : wp code state (fun _ state' => property state') property) :
    property (exec code state).2 := by
  rw [wp] at h
  rcases hexec : exec code state with ⟨value | value, state'⟩
  · rw [hexec] at h
    exact h
  · rw [hexec] at h
    exact h

/-- The state with another memory. -/
def PagingState.withMemory (state : PagingState) (memory : Kheap.Memory) : PagingState :=
  { state with memory := memory }

/-- A load from a page that is present. -/
theorem wp_loadWord {v : UInt32} {address : ℕ} (h : state.translate v = some address)
    {post : UInt32 → PagingState → Prop} (hpost : post (state.memory.word address) state) :
    wp (loadWord v) state post stopped := by
  rw [loadWord, wp_bind, wp_get, h]
  exact hpost

/-- A store to a page that is present. -/
theorem wp_storeWord {v word : UInt32} {address : ℕ} (h : state.translate v = some address)
    {post : Unit → PagingState → Prop}
    (hpost : post () (state.withMemory (state.memory.storeWord address word))) :
    wp (storeWord v word) state post stopped := by
  rw [storeWord, wp_bind, wp_get, h]
  exact hpost

@[simp] theorem wp_useFrame {frame : UInt32} {post : Unit → PagingState → Prop} :
    wp (useFrame frame) state post stopped ↔
      post () { state with uses := state.uses ++ [frame] } := Iff.rfl

@[simp] theorem wp_setCr3 {dir : UInt32} {post : Unit → PagingState → Prop} :
    wp (setCr3 dir) state post stopped ↔
      post () { state with procs := { state.procs with cr3 := dir } } := Iff.rfl

@[simp] theorem wp_getCr3 {post : UInt32 → PagingState → Prop} :
    wp getCr3 state post stopped ↔ post state.procs.cr3 state := Iff.rfl

end Rules

section Frames

variable {memory memory' : Kheap.Memory} {f i : ℕ}

/-- A word of a frame is replaced by a store to it. -/
theorem frameWords_storeWord (memory : Kheap.Memory) (hi : i < 1024) (word : UInt32) :
    frameWords (memory.storeWord (4096 * f + 4 * i) word) = setEntry (frameWords memory) f i word := by
  funext f' i'
  by_cases hi' : i' < 1024
  · by_cases hsame : f' = f ∧ i' = i
    · rw [hsame.1, hsame.2, setEntry_self, frameWords, if_pos hi, Kheap.word_storeWord]
    · rw [setEntry_of_ne (by omega), frameWords, frameWords, if_pos hi', if_pos hi',
        Kheap.word_storeWord_apart (by omega)]
  · rw [frameWords, if_neg hi', setEntry_of_ne (.inr (by omega)), frameWords, if_neg hi']

/-- The words of a frame depend on its bytes. -/
theorem frameWords_congr (h : ∀ a, a / 4096 = f → memory' a = memory a) :
    frameWords memory' f = frameWords memory f := by
  funext i
  rw [frameWords, frameWords]
  split
  · exact Kheap.word_congr fun a _ _ => h a (by omega)
  · rfl

/-- A word of memory, as a word of its frame. -/
theorem word_eq_words (state : PagingState) (hi : i < 1024) :
    state.memory.word (4096 * f + 4 * i) = state.words f i := by
  rw [PagingState.words, frameWords, if_pos hi]

/-- The address of an entry of a table. -/
theorem toNat_entryAddress {base : UInt32} (hbase : base.toNat = 4096 * f) (hi : i < 1024) :
    (base + 4 * UInt32.ofNat i).toNat = 4096 * f + 4 * i := by
  have hlt := base.toNat_lt
  have hfour : (4 * UInt32.ofNat i).toNat = 4 * i := by
    rw [UInt32.toNat_mul, UInt32.toNat_ofNat', Nat.mod_eq_of_lt (by omega : i < 2 ^ 32)]
    exact Nat.mod_eq_of_lt (by simp only [UInt32.reduceToNat]; omega)
  rw [UInt32.toNat_add, hfour, hbase, Nat.mod_eq_of_lt (by omega)]

/-- The step changes at most one frame of memory. -/
structure Changes (f : ℕ) (state state' : PagingState) : Prop where
  /-- Only the memory changes. -/
  rest : state' = state.withMemory state'.memory
  /-- Only the bytes of the frame do. -/
  bytes : ∀ a, a / 4096 ≠ f → state'.memory a = state.memory a

theorem Changes.refl (f : ℕ) (state : PagingState) : Changes f state state :=
  ⟨rfl, fun _ _ => rfl⟩

theorem Changes.trans {state state' state'' : PagingState} (h : Changes f state state')
    (h' : Changes f state' state'') : Changes f state state'' := by
  refine ⟨?_, fun a ha => (h'.bytes a ha).trans (h.bytes a ha)⟩
  rw [h'.rest, h.rest]
  rfl

section Rest

variable {state state' : PagingState} (h : Changes f state state')

include h

theorem Changes.pmm : state'.pmm = state.pmm := by
  rw [h.rest]
  rfl

theorem Changes.kernelPageDir : state'.kernelPageDir = state.kernelPageDir := by
  rw [h.rest]
  rfl

theorem Changes.procs : state'.procs = state.procs := by
  rw [h.rest]
  rfl

theorem Changes.granted : state'.granted = state.granted := by
  rw [h.rest]
  rfl

end Rest

/-- The other frames keep their words. -/
theorem Changes.words {state state' : PagingState} (h : Changes f state state') {f' : ℕ}
    (hne : f' ≠ f) : state'.words f' = state.words f' :=
  frameWords_congr fun a ha => h.bytes a (by omega)

/-- A store of a word changes its frame. -/
theorem changes_storeWord (state : PagingState) (hi : i < 1024) (word : UInt32) :
    Changes f state (state.withMemory (state.memory.storeWord (4096 * f + 4 * i) word)) :=
  ⟨rfl, fun a ha => Kheap.storeWord_outside (by omega)⟩

/-- Accesses to a frame by its physical address reach it, whatever it holds. -/
def Direct (f g : ℕ) (state : PagingState) : Prop :=
  ∀ state', Changes f state state' → ∀ v : UInt32, v.toNat / 4096 = g →
    state'.translate v = some v.toNat

variable {state : PagingState} {stopped : PagingState → Prop} {base source : UInt32}

/-- The loops that fill a frame. -/
theorem wp_fillWords (hbase : base.toNat = 4096 * f) (hdirect : Direct f f state)
    {word : ℕ → UInt32} {post : Unit → PagingState → Prop}
    (hpost : ∀ state', Changes f state state' → (∀ i < 1024, state'.words f i = word i) →
      post () state') : wp (fillWords base word 1024 0) state post stopped := by
  suffices hloop : ∀ left i now, i + left = 1024 → Changes f state now →
      (∀ j < i, now.words f j = word j) → wp (fillWords base word left i) now post stopped from
    hloop 1024 0 state rfl (Changes.refl f state) fun _ hj => absurd hj (Nat.not_lt_zero _)
  intro left
  induction left with
  | zero =>
    intro i now hi hchanges hfilled
    exact hpost now hchanges fun j hj => hfilled j (by omega)
  | succ left ih =>
    intro i now hi hchanges hfilled
    have hlt : i < 1024 := by omega
    have haddress := toNat_entryAddress hbase hlt
    rw [fillWords, wp_bind]
    refine wp_storeWord (hdirect now hchanges _ (by omega)) ?_
    rw [haddress]
    refine ih (i + 1) _ (by omega) (hchanges.trans (changes_storeWord now hlt (word i)))
      fun j hj => ?_
    rw [PagingState.words, PagingState.withMemory, frameWords_storeWord _ hlt]
    by_cases hj' : j = i
    · rw [hj', setEntry_self]
    · rw [setEntry_of_ne (.inr hj')]
      exact hfilled j (by omega)

/-- The loop that copies the first 256 words of another frame. -/
theorem wp_copyWords {g : ℕ} (hbase : base.toNat = 4096 * f) (hsource : source.toNat = 4096 * g)
    (hne : g ≠ f) (hdirect : Direct f f state) (hread : Direct f g state)
    {post : Unit → PagingState → Prop}
    (hpost : ∀ state', Changes f state state' →
      (∀ i < 1024, state'.words f i = if i < 256 then state.words g i else state.words f i) →
      post () state') : wp (copyWords base source 256 0) state post stopped := by
  suffices hloop : ∀ left i now, i + left = 256 → Changes f state now →
      (∀ j < 1024, now.words f j = if j < i then state.words g j else state.words f j) →
      wp (copyWords base source left i) now post stopped from
    hloop 256 0 state rfl (Changes.refl f state) fun j _ => (if_neg (Nat.not_lt_zero j)).symm
  intro left
  induction left with
  | zero =>
    intro i now hi hchanges hcopied
    have heq : i = 256 := by omega
    rw [heq] at hcopied
    exact hpost now hchanges hcopied
  | succ left ih =>
    intro i now hi hchanges hcopied
    have hlt : i < 1024 := by omega
    have haddress := toNat_entryAddress hbase hlt
    have haddress' := toNat_entryAddress hsource hlt
    rw [copyWords, wp_bind]
    refine wp_loadWord (hread now hchanges _ (by omega)) ?_
    rw [haddress', word_eq_words now hlt, hchanges.words hne, wp_bind]
    refine wp_storeWord (hdirect now hchanges _ (by omega)) ?_
    rw [haddress]
    refine ih (i + 1) _ (by omega) (hchanges.trans (changes_storeWord now hlt _)) fun j hj => ?_
    rw [PagingState.words, PagingState.withMemory, frameWords_storeWord _ hlt]
    by_cases hj' : j = i
    · rw [hj', setEntry_self, if_pos (Nat.lt_succ_self i)]
    · rw [setEntry_of_ne (.inr hj')]
      refine (hcopied j hj).trans ?_
      by_cases hbelow : j < i
      · rw [if_pos hbelow, if_pos (by omega)]
      · rw [if_neg hbelow, if_neg (by omega)]

end Frames

end HexaOS.Paging
