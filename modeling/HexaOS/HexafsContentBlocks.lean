import HexaOS.HexafsCachedCalls
import HexaOS.StepRuns

/-!
# The blocks that an object holds for its content

hexafs_object_write_data takes a new block for every slot of the header that is zero, and gives
a block back in one case only: its content write fails and it is not the first of the call. So
the blocks that a shorter write drops stay marked, and a call that fails behind the first block
that it took leaves it marked. The runs are on the device with its cache, any transfer may fail,
and the failures are those of the environment.
-/

namespace HexaOS.Hexafs

open DevicePrograms PackedBytes StoreTyping StepRuns

/-- The numbers of the content writes, the next write being `next`: a new block is cleared
first. -/
def contentWrites : ℕ → List UInt32 → List ℕ
  | _, [] => []
  | next, slot :: slots =>
    let here := if slot = 0 then next + 1 else next
    here :: contentWrites (here + 1) slots

/-- The content loop stores into all slots: there is a block for every zero slot, and no content
write fails. -/
def StoresAll (env : Environment) (next free : ℕ) (slots : List UInt32) : Prop :=
  slots.count 0 ≤ free ∧ ∀ n ∈ contentWrites next slots, (env.writeOutcome n).returns = true

/-- The content loop, `i` slots behind the first one, comes to no block that it keeps: there is
no zero slot, or a write into the slots before it fails, or no block is free, or the block is
not the first of the call and its content write fails. -/
def TakesNothing (env : Environment) (i next free : ℕ) (slots : List UInt32) : Prop :=
  (slots.takeWhile (· ≠ 0)).length = slots.length ∨
    (∃ k < (slots.takeWhile (· ≠ 0)).length, (env.writeOutcome (next + k)).returns = false) ∨
    free = 0 ∨
    (0 < i + (slots.takeWhile (· ≠ 0)).length ∧
      (env.writeOutcome (next + (slots.takeWhile (· ≠ 0)).length + 1)).returns = false)

/-- How the content loop ends: the result, the blocks that it took and the number of the next
write. -/
structure ContentEnds (env : Environment) (i next free : ℕ) (slots : List UInt32)
    (result : Option (List UInt32)) (taken : List UInt32) (next' : ℕ) : Prop where
  /-- Every slot is stored. -/
  stored : StoresAll env next free slots → result.isSome = true ∧
    taken.length = slots.count 0 ∧ next' = next + slots.length + slots.count 0
  /-- The loop fails. -/
  failed : ¬StoresAll env next free slots →
    result = none ∧ (taken = [] ↔ TakesNothing env i next free slots)

section Loop

variable {env : Environment} {mem : Memory} {dev : Device} {i next free next' : ℕ}
  {slot : UInt32} {slots : List UInt32} {result : Option (List UInt32)} {taken : List UInt32}

/-- No slot is left. -/
theorem contentEnds_nil (written : List UInt32) :
    ContentEnds env i next free [] (some written) [] next where
  stored _ := ⟨rfl, rfl, rfl⟩
  failed hnot := absurd ⟨Nat.zero_le _, fun _ hn => absurd hn List.not_mem_nil⟩ hnot

/-- A slot with a block, at the front of others. -/
theorem storesAll_cons_block (hslot : slot ≠ 0) :
    StoresAll env next free (slot :: slots) ↔
      (env.writeOutcome next).returns = true ∧ StoresAll env (next + 1) free slots := by
  rw [StoresAll, StoresAll, contentWrites, if_neg hslot, List.count_cons_of_ne hslot,
    List.forall_mem_cons]
  exact and_left_comm

/-- A slot without a block, at the front of others. -/
theorem storesAll_cons_zero :
    StoresAll env next (free + 1) (0 :: slots) ↔
      (env.writeOutcome (next + 1)).returns = true ∧ StoresAll env (next + 2) free slots := by
  rw [StoresAll, StoresAll, contentWrites, if_pos rfl, List.count_cons_self, List.forall_mem_cons,
    Nat.add_le_add_iff_right]
  exact and_left_comm

/-- Behind a slot with a block, the same blocks are kept as at the next slot. -/
theorem takesNothing_cons_block (hslot : slot ≠ 0)
    (hwrite : (env.writeOutcome next).returns = true) :
    TakesNothing env i next free (slot :: slots) ↔
      TakesNothing env (i + 1) (next + 1) free slots := by
  have htake : (slot :: slots).takeWhile (· ≠ 0) = slot :: slots.takeWhile (· ≠ 0) :=
    List.takeWhile_cons_of_pos (by simpa using hslot)
  have hindex : ∀ k, next + 1 + k = next + (k + 1) := fun k => by omega
  rw [TakesNothing, TakesNothing, htake, List.length_cons, List.length_cons,
    Nat.add_right_cancel_iff]
  refine or_congr Iff.rfl (or_congr ⟨?_, ?_⟩ (or_congr Iff.rfl ?_))
  · rintro ⟨k, hk, hfails⟩
    cases k with
    | zero =>
      rw [Nat.add_zero, hwrite] at hfails
      exact absurd hfails Bool.noConfusion
    | succ k =>
      refine ⟨k, Nat.lt_of_succ_lt_succ hk, ?_⟩
      rw [hindex]
      exact hfails
  · rintro ⟨k, hk, hfails⟩
    refine ⟨k + 1, Nat.succ_lt_succ hk, ?_⟩
    rw [← hindex]
    exact hfails
  · rw [hindex, Nat.add_right_comm i 1, Nat.add_assoc i]

/-- A slot with a block whose content write fails. -/
theorem contentEnds_refused (hslot : slot ≠ 0)
    (hwrite : (env.writeOutcome next).returns = false) (next' : ℕ) :
    ContentEnds env i next free (slot :: slots) none [] next' where
  stored hstores := by
    have hreturns := ((storesAll_cons_block hslot).mp hstores).1
    rw [hwrite] at hreturns
    exact absurd hreturns Bool.noConfusion
  failed _ := by
    refine ⟨rfl, fun _ => .inr (.inl ⟨0, ?_, hwrite⟩), fun _ => rfl⟩
    rw [List.takeWhile_cons_of_pos (by simpa using hslot)]
    exact Nat.succ_pos _

/-- A slot with a block whose content write succeeds. -/
theorem ContentEnds.cons_block (hslot : slot ≠ 0)
    (hwrite : (env.writeOutcome next).returns = true)
    (h : ContentEnds env (i + 1) (next + 1) free slots result taken next') :
    ContentEnds env i next free (slot :: slots) (result.map (slot :: ·)) taken next' where
  stored hstores := by
    have ⟨hsome, htaken, hnext⟩ := h.stored ((storesAll_cons_block hslot).mp hstores).2
    refine ⟨?_, ?_, ?_⟩
    · rw [Option.isSome_map]
      exact hsome
    · rw [List.count_cons_of_ne hslot]
      exact htaken
    · rw [List.count_cons_of_ne hslot, List.length_cons]
      omega
  failed hnot := by
    have hrest : ¬StoresAll env (next + 1) free slots :=
      fun hall => hnot ((storesAll_cons_block hslot).mpr ⟨hwrite, hall⟩)
    have ⟨hnone, htaken⟩ := h.failed hrest
    refine ⟨?_, ?_⟩
    · rw [hnone]
      rfl
    · rw [takesNothing_cons_block hslot hwrite]
      exact htaken

/-- A slot without a block, and no block is free. -/
theorem contentEnds_full (next' : ℕ) : ContentEnds env i next 0 (0 :: slots) none [] next' where
  stored hstores := by
    have hcount := hstores.1
    rw [List.count_cons_self] at hcount
    exact absurd hcount (Nat.not_succ_le_zero _)
  failed _ := ⟨rfl, fun _ => .inr (.inr (.inl rfl)), fun _ => rfl⟩

/-- Before a slot without a block there is none with a block. -/
theorem takesNothing_cons_zero :
    TakesNothing env i next (free + 1) (0 :: slots) ↔
      0 < i ∧ (env.writeOutcome (next + 1)).returns = false := by
  have htake : ((0 : UInt32) :: slots).takeWhile (· ≠ 0) = [] :=
    List.takeWhile_cons_of_neg (by simp)
  rw [TakesNothing, htake, List.length_nil, List.length_cons]
  constructor
  · rintro (hall | ⟨k, hk, -⟩ | hfree | hfails)
    · exact absurd hall.symm (Nat.succ_ne_zero _)
    · exact absurd hk (Nat.not_lt_zero k)
    · exact absurd hfree (Nat.succ_ne_zero free)
    · exact hfails
  · exact fun hfails => .inr (.inr (.inr hfails))

/-- A new block whose content write fails is given back behind the first slot. -/
theorem contentEnds_newRefused (hwrite : (env.writeOutcome (next + 1)).returns = false)
    (hkept : taken = [] ↔ 0 < i) (next' : ℕ) :
    ContentEnds env i next (free + 1) (0 :: slots) none taken next' where
  stored hstores := by
    have hreturns := (storesAll_cons_zero.mp hstores).1
    rw [hwrite] at hreturns
    exact absurd hreturns Bool.noConfusion
  failed _ := by
    rw [takesNothing_cons_zero, hkept]
    exact ⟨rfl, fun hi => ⟨hi, hwrite⟩, fun hfails => hfails.1⟩

/-- A new block that is stored. -/
theorem ContentEnds.cons_new {block : UInt32}
    (hwrite : (env.writeOutcome (next + 1)).returns = true)
    (h : ContentEnds env (i + 1) (next + 2) free slots result taken next') :
    ContentEnds env i next (free + 1) (0 :: slots) (result.map (block :: ·)) (block :: taken)
      next' where
  stored hstores := by
    have ⟨hsome, htaken, hnext⟩ := h.stored (storesAll_cons_zero.mp hstores).2
    refine ⟨?_, ?_, ?_⟩
    · rw [Option.isSome_map]
      exact hsome
    · rw [List.count_cons_self, List.length_cons, htaken]
    · rw [List.count_cons_self, List.length_cons]
      omega
  failed hnot := by
    have hrest : ¬StoresAll env (next + 2) free slots :=
      fun hall => hnot (storesAll_cons_zero.mpr ⟨hwrite, hall⟩)
    refine ⟨?_, ?_⟩
    · rw [(h.failed hrest).1]
      rfl
    · rw [takesNothing_cons_zero, hwrite]
      exact ⟨fun heq => absurd heq (List.cons_ne_nil _ _), fun hfails => nomatch hfails.2⟩

/-- The content loop of hexafs_object_write_data. -/
theorem writeContent_ends {left : ℕ} {data : List UInt8} (hhint : mem.allocator.HintOk)
    (hleft : left ≤ slots.length) {post : Option (List UInt32) → Memory → Device → Prop}
    (hpost : ∀ result taken a' dev', Grown mem.allocator a' taken →
      ContentEnds env i dev.disk.writeCount mem.allocator.freeCount (slots.take left) result taken
        dev'.disk.writeCount → post result { mem with allocator := a' } dev') :
    (writeContent left i slots data).wp (cachedDevice env) mem dev post := by
  induction left generalizing i slots data mem dev post with
  | zero =>
    rw [writeContent, Code.wp_pure]
    exact hpost _ [] _ dev (Grown.refl hhint) (contentEnds_nil _)
  | succ left ih =>
    cases slots with
    | nil => exact absurd hleft (Nat.not_succ_le_zero left)
    | cons slot slots =>
      have hrest : left ≤ slots.length := Nat.le_of_succ_le_succ hleft
      rw [List.take_succ_cons] at hpost
      rw [writeContent]
      by_cases hslot : slot = 0
      · rw [hslot] at hpost ⊢
        simp only [if_pos, Code.wp_bind]
        refine hexafsAllocBlock_cached hhint (fun hfree => ?_) fun b a' hgrown => ?_
        · rw [if_pos rfl, Code.wp_pure]
          refine hpost none [] _ dev (Grown.full hhint) ?_
          rw [hfree]
          exact contentEnds_full _
        · have hfresh := hgrown.fresh b (List.mem_singleton_self b)
          have hcount := hgrown.freeCount_add
          rw [List.length_singleton] at hcount
          rw [← hcount] at hpost
          simp only [if_neg hfresh.1.ne_zero, Code.wp_bind]
          refine wp_cacheWrite ?_
          rw [cacheWrite_returns, cacheWrite_writeCount]
          cases hwrite : (env.writeOutcome (dev.disk.writeCount + 1)).returns with
          | true =>
            rw [if_pos rfl, Code.wp_bind]
            refine ih hgrown.hint hrest fun result taken a'' dev' hgrown' hends => ?_
            rw [Code.wp_pure]
            simp only [cacheWrite_writeCount] at hends
            have htaken : Grown mem.allocator a'' (b :: taken) := hgrown.trans hgrown'
            exact hpost _ (b :: taken) a'' dev' htaken (hends.cons_new hwrite)
          | false =>
            rw [if_neg Bool.false_ne_true]
            by_cases hi : 0 < i
            · rw [if_pos ⟨hi, hfresh.1.ne_zero⟩, Code.wp_bind]
              refine hexafsFreeBlock_cached hgrown (List.mem_singleton_self b)
                fun a'' hgrown' => ?_
              rw [Code.wp_pure]
              rw [List.erase_cons_head] at hgrown'
              exact hpost none [] a'' _ hgrown'
                (contentEnds_newRefused hwrite ⟨fun _ => hi, fun _ => rfl⟩ _)
            · rw [if_neg fun h => hi h.1, Code.wp_pure]
              exact hpost none [b] a' _ hgrown (contentEnds_newRefused hwrite
                ⟨fun heq => absurd heq (List.cons_ne_nil _ _), fun h => absurd h hi⟩ _)
      · simp only [if_neg hslot, Code.wp_bind, Code.wp_pure]
        refine wp_cacheWrite ?_
        rw [cacheWrite_returns]
        cases hwrite : (env.writeOutcome dev.disk.writeCount).returns with
        | true =>
          rw [if_pos rfl, Code.wp_bind]
          refine ih hhint hrest fun result taken a' dev' hgrown hends => ?_
          rw [Code.wp_pure]
          rw [cacheWrite_writeCount] at hends
          exact hpost _ taken a' dev' hgrown (hends.cons_block hslot hwrite)
        | false =>
          simp only [if_neg Bool.false_ne_true, ne_eq, not_true_eq_false, and_false, if_false,
            Code.wp_pure]
          exact hpost none [] _ _ (Grown.refl hhint) (contentEnds_refused hslot hwrite _)

/-- Where all slots are stored, nothing is taken exactly if no slot is zero. -/
theorem StoresAll.takesNothing_iff (h : StoresAll env next free slots) :
    TakesNothing env i next free slots ↔ slots.count 0 = 0 := by
  induction slots generalizing i next free with
  | nil =>
    constructor
    · exact fun _ => rfl
    · exact fun _ => .inl rfl
  | cons slot slots ih =>
    by_cases hslot : slot = 0
    · rw [hslot] at h ⊢
      have hfree : free ≠ 0 := by
        have hcount := h.1
        rw [List.count_cons_self] at hcount
        omega
      obtain ⟨free, rfl⟩ := Nat.exists_eq_succ_of_ne_zero hfree
      rw [takesNothing_cons_zero, (storesAll_cons_zero.mp h).1, List.count_cons_self]
      constructor
      · exact fun hfails => nomatch hfails.2
      · exact fun hcount => absurd hcount (Nat.succ_ne_zero _)
    · have ⟨hwrite, hrest⟩ := (storesAll_cons_block hslot).mp h
      rw [takesNothing_cons_block hslot hwrite, List.count_cons_of_ne hslot]
      exact ih hrest

end Loop

section Calls

variable {env : Environment} {block : UInt32} {data : List UInt8}

/-- The slots of a header that a call with `size` bytes stores into. -/
def HexafsObject.written (obj : HexafsObject) (size : ℕ) : List UInt32 :=
  obj.slots.take (blocksFor size)

/-- A call that has read the header returns 1: all slots are stored, and the write of the header
behind them succeeds. -/
def CallSucceeds (env : Environment) (next free : ℕ) (slots : List UInt32) : Prop :=
  StoresAll env next free slots ∧
    (env.writeOutcome (next + slots.length + slots.count 0)).returns = true

/-- How a call ends: the return value and the blocks that it took and kept. -/
structure CallEnds (env : Environment) (next free : ℕ) (slots : List UInt32) (ok : Bool)
    (taken : List UInt32) : Prop where
  /-- The call returns 1. -/
  succeeds : CallSucceeds env next free slots → ok = true ∧ taken.length = slots.count 0
  /-- The call returns 0. -/
  fails : ¬CallSucceeds env next free slots →
    ok = false ∧ (taken = [] ↔ TakesNothing env 0 next free slots)

/-- The header that a call gets. -/
def GetsHeader (env : Environment) (block : UInt32) (dev : Device) (obj : HexafsObject) : Prop :=
  ∃ buf dev', cacheRead env block dev = (some buf, dev') ∧ ofBlock HexafsObject buf = obj ∧
    objMagicOk obj = true

/-- A call gets one header. -/
theorem GetsHeader.unique {dev : Device} {obj obj' : HexafsObject}
    (h : GetsHeader env block dev obj) (h' : GetsHeader env block dev obj') : obj = obj' := by
  obtain ⟨buf, dev₁, hread, hobj, -⟩ := h
  obtain ⟨buf', dev₂, hread', hobj', -⟩ := h'
  have hbuf := Option.some.inj (Prod.mk.inj (hread.symm.trans hread')).1
  rw [← hobj, ← hobj', hbuf]

/-- hexafs_object_write_data returns, gets no header and takes nothing, or ends as the failures
of the environment and the free blocks say. -/
theorem hexafsObjectWriteData_ends (env : Environment) {mem : Memory} (dev : Device)
    (block : UInt32) (hhint : mem.allocator.HintOk) (hdata : data.length ≤ 2048) :
    (hexafsObjectWriteData block data).wp (cachedDevice env) mem dev fun ok mem' _ =>
      ∃ taken, Grown mem.allocator mem'.allocator taken ∧
        (((∀ obj, ¬GetsHeader env block dev obj) ∧ ok = false ∧ taken = []) ∨
          ∃ obj, GetsHeader env block dev obj ∧
            CallEnds env dev.disk.writeCount mem.allocator.freeCount (obj.written data.length) ok
              taken) := by
  simp only [hexafsObjectWriteData, Code.wp_bind]
  refine wp_cacheRead ?_
  have hcount := (cacheRead_disk env block dev).2
  cases hread : cacheRead env block dev with
  | mk reply dev' =>
    rw [hread] at hcount
    cases reply with
    | none =>
      rw [Code.wp_pure]
      refine ⟨[], Grown.refl hhint, .inl ⟨?_, rfl, rfl⟩⟩
      rintro obj ⟨buf, dev'', hbuf, -⟩
      cases (Prod.mk.inj (hread.symm.trans hbuf)).1
    | some buf =>
      dsimp only
      by_cases hmagic : objMagicOk (ofBlock HexafsObject buf) = true
      · have hheader : GetsHeader env block dev (ofBlock HexafsObject buf) :=
          ⟨buf, dev', hread, rfl, hmagic⟩
        have hlength := length_slots (ofBlock HexafsObject buf)
        have hfour := blocksFor_le_four hdata
        rw [if_pos hmagic, Code.wp_bind, contentBlockCount_eq hdata]
        refine writeContent_ends hhint (by rw [hlength]; exact hfour)
          fun result taken a' dev'' hgrown hends => ?_
        have hends' : ContentEnds env 0 dev.disk.writeCount mem.allocator.freeCount
            ((ofBlock HexafsObject buf).written data.length) result taken
            dev''.disk.writeCount := by
          rw [← hcount]
          exact hends
        by_cases hstores : StoresAll env dev.disk.writeCount mem.allocator.freeCount
            ((ofBlock HexafsObject buf).written data.length)
        · obtain ⟨hsome, htaken, hnext⟩ := hends'.stored hstores
          obtain ⟨written, rfl⟩ := Option.isSome_iff_exists.mp hsome
          refine wp_cacheWrite ⟨taken, hgrown, .inr ⟨_, hheader, ?_, ?_⟩⟩
          · intro hsucceeds
            rw [cacheWrite_returns, hnext]
            exact ⟨hsucceeds.2, htaken⟩
          · intro hfails
            rw [cacheWrite_returns, hnext, hstores.takesNothing_iff]
            refine ⟨Bool.eq_false_of_not_eq_true fun hreturns => hfails ⟨hstores, hreturns⟩, ?_⟩
            rw [← htaken, List.length_eq_zero_iff]
        · obtain ⟨hnone, htaken⟩ := hends'.failed hstores
          rw [hnone, Code.wp_pure]
          exact ⟨taken, hgrown, .inr ⟨_, hheader, fun hsucceeds => absurd hsucceeds.1 hstores,
            fun _ => ⟨rfl, htaken⟩⟩⟩
      · rw [if_neg hmagic, Code.wp_pure]
        refine ⟨[], Grown.refl hhint, .inl ⟨?_, rfl, rfl⟩⟩
        rintro obj ⟨buf', dev'', hbuf, hobj, hok⟩
        have heq := Option.some.inj (Prod.mk.inj (hread.symm.trans hbuf)).1
        rw [heq, hobj] at hmagic
        exact hmagic hok

/-- A machine and the number of blocks that the bitmap marks on behalf of the content of an
object. -/
structure ContentAccount where
  /-- The machine. -/
  machine : Machine
  /-- The content blocks that the objects hold. -/
  held : ℕ

/-- The account behind a call of hexafs_object_write_data: what the call took is added, what it
gave back is taken off. -/
def writeCall (env : Environment) (block : UInt32) (data : List UInt8) (account : ContentAccount) :
    ContentAccount :=
  match account.machine.run env (hexafsObjectWriteData block data) with
  | .ok (_, machine) =>
    ⟨machine, account.held + account.machine.mem.allocator.freeCount -
      machine.mem.allocator.freeCount⟩
  | .error _ => account

/-- A call that returns 1 leaves as many blocks as the content takes, and a call that returns 0
leaves no block marked that was free. -/
def Accounted (env : Environment) (block : UInt32) (data : List UInt8) (account : ContentAccount) :
    Prop :=
  ∃ ok machine, account.machine.run env (hexafsObjectWriteData block data) = .ok (ok, machine) ∧
    (ok = true → (writeCall env block data account).held = blocksFor data.length) ∧
    (ok = false → ∀ b, machine.mem.allocator.Used b → account.machine.mem.allocator.Used b)

/-- If a call gets a header and all its writes succeed, the blocks that it reuses are all that
the object holds; if one fails or there are too few free blocks, that is so before the call
keeps a new block. -/
def CallFits (env : Environment) (block : UInt32) (data : List UInt8) (account : ContentAccount) :
    Prop :=
  ∀ obj, GetsHeader env block account.machine.dev obj →
    (CallSucceeds env account.machine.dev.disk.writeCount account.machine.mem.allocator.freeCount
        (obj.written data.length) →
      account.held = (obj.written data.length).countP (· ≠ 0)) ∧
    (¬CallSucceeds env account.machine.dev.disk.writeCount
        account.machine.mem.allocator.freeCount (obj.written data.length) →
      TakesNothing env 0 account.machine.dev.disk.writeCount
        account.machine.mem.allocator.freeCount (obj.written data.length))

/-- A step that took blocks leaves none marked that was free exactly if it took none. -/
theorem Grown.usedOnly_iff {a a' : Allocator} {taken : List UInt32} (h : Grown a a' taken) :
    (∀ b, a'.Used b → a.Used b) ↔ taken = [] := by
  constructor
  · intro hused
    refine List.eq_nil_iff_forall_not_mem.mpr fun b hb => ?_
    exact (h.fresh b hb).2 (hused b (h.used_of_mem hb))
  · intro hnil b hb
    rw [hnil] at h
    rcases (h.used b).mp hb with hold | hnew
    · exact hold
    · exact absurd hnew List.not_mem_nil

/-- Of the slots that a call stores into, those with a block and those without. -/
theorem countP_add_count (slots : List UInt32) :
    slots.countP (· ≠ 0) + slots.count 0 = slots.length := by
  have hsplit := List.length_eq_countP_add_countP (fun b : UInt32 => decide (b ≠ 0)) (l := slots)
  have hzero : slots.count 0 = slots.countP fun b => decide ¬(decide (b ≠ 0)) = true := by
    refine List.countP_congr fun b _ => ?_
    by_cases hb : b = 0 <;> simp [hb]
  rw [hzero]
  exact hsplit.symm

variable {account : ContentAccount}

/-- A call keeps the account exactly if it fits. -/
theorem accounted_iff (hhint : account.machine.mem.allocator.HintOk) (hdata : data.length ≤ 2048) :
    Accounted env block data account ↔ CallFits env block data account := by
  obtain ⟨ok, mem', dev', hexec, taken, hgrown, hcase⟩ :=
    hexafsObjectWriteData_ends env account.machine.dev block hhint hdata
  have hrun : account.machine.run env (hexafsObjectWriteData block data) =
      .ok (ok, ⟨mem', dev'⟩) := by
    rw [Machine.run, hexec]
  have hfree := hgrown.freeCount_add
  have hheld : (writeCall env block data account).held = account.held + taken.length := by
    rw [writeCall, hrun]
    dsimp only
    omega
  have haccounted : Accounted env block data account ↔
      (ok = true → account.held + taken.length = blocksFor data.length) ∧
        (ok = false → taken = []) := by
    rw [← hheld, ← hgrown.usedOnly_iff]
    constructor
    · rintro ⟨ok', machine', hrun', hkept⟩
      have hsame := Prod.mk.inj (Except.ok.inj (hrun.symm.trans hrun'))
      rw [hsame.1, show mem' = machine'.mem from congrArg Machine.mem hsame.2]
      exact hkept
    · exact fun hkept => ⟨ok, _, hrun, hkept⟩
  rw [haccounted]
  rcases hcase with ⟨hnone, hok, htaken⟩ | ⟨obj, hheader, hends⟩
  · rw [hok, htaken]
    constructor
    · exact fun _ obj hheader => absurd hheader (hnone obj)
    · exact fun _ => ⟨(by rintro ⟨⟩), fun _ => rfl⟩
  · have hlength : (obj.written data.length).length = blocksFor data.length := by
      have hfour := blocksFor_le_four hdata
      rw [HexafsObject.written, List.length_take, length_slots]
      omega
    have hsplit := countP_add_count (obj.written data.length)
    have hfits : CallFits env block data account ↔
        (CallSucceeds env account.machine.dev.disk.writeCount
            account.machine.mem.allocator.freeCount (obj.written data.length) →
          account.held = (obj.written data.length).countP (· ≠ 0)) ∧
        (¬CallSucceeds env account.machine.dev.disk.writeCount
            account.machine.mem.allocator.freeCount (obj.written data.length) →
          TakesNothing env 0 account.machine.dev.disk.writeCount
            account.machine.mem.allocator.freeCount (obj.written data.length)) := by
      constructor
      · exact fun hall => hall obj hheader
      · intro hfits obj' hheader'
        rw [hheader'.unique hheader]
        exact hfits
    rw [hfits]
    by_cases hsucceeds : CallSucceeds env account.machine.dev.disk.writeCount
        account.machine.mem.allocator.freeCount (obj.written data.length)
    · obtain ⟨hok, htaken⟩ := hends.succeeds hsucceeds
      rw [hok, htaken]
      constructor
      · intro hkept
        have hcount := hkept.1 rfl
        exact ⟨fun _ => by omega, fun hfails => absurd hsucceeds hfails⟩
      · intro hkept
        have hcount := hkept.1 hsucceeds
        exact ⟨fun _ => by omega, (by rintro ⟨⟩)⟩
    · obtain ⟨hok, htaken⟩ := hends.fails hsucceeds
      rw [hok, htaken]
      constructor
      · exact fun hkept => ⟨fun h => absurd h hsucceeds, fun _ => hkept.2 rfl⟩
      · exact fun hkept => ⟨(by rintro ⟨⟩), fun _ => hkept.2 hsucceeds⟩

/-- A call leaves the scan of hexafs_alloc_block inside the object area. -/
theorem hintOk_writeCall (hhint : account.machine.mem.allocator.HintOk)
    (hdata : data.length ≤ 2048) :
    (writeCall env block data account).machine.mem.allocator.HintOk := by
  obtain ⟨ok, mem', dev', hexec, taken, hgrown, -⟩ :=
    hexafsObjectWriteData_ends env account.machine.dev block hhint hdata
  rw [writeCall, Machine.run, hexec]
  exact hgrown.hint

/-- Over any sequence of calls with sizes at most 2048 on an object, on any disk with any
failures: behind every call that returns 1 the object holds as many blocks as its content takes,
and a call that returns 0 leaves no new block marked, exactly if every call fits. -/
theorem writeCalls_accounted_iff (env : Environment) (block : UInt32) (calls : List (List UInt8))
    (account : ContentAccount) (hhint : account.machine.mem.allocator.HintOk)
    (hsizes : ∀ data ∈ calls, data.length ≤ 2048) :
    EveryStep (writeCall env block) (Accounted env block) calls account ↔
      EveryStep (writeCall env block) (CallFits env block) calls account := by
  have hallowed : EveryStep (writeCall env block) (fun data _ => data.length ≤ 2048) calls
      account := everyStep_of_forall hsizes account
  exact hallowed.congr_of_invariant
    (fun _ _ hhint hdata _ => hintOk_writeCall hhint hdata)
    (fun _ _ hhint hdata => accounted_iff hhint hdata) hhint

/-- A new form on a new store. -/
def newForm : HexafsM UInt32 := do
  let _ ← hexafsMount
  hexafsObjectAlloc hexafsForm

/-- Can a form be written with 600 bytes and then with 3? -/
def shrinksForm (block : UInt32) (start : Machine) : Bool :=
  decide (hexafsObjectLba ≤ start.mem.allocator.nextHint ∧
    start.mem.allocator.nextHint ≤ hexafsDiskBlocks) &&
  testRun (fun ok machine => ok && testRun (fun ok' _ => ok')
    (machine.run .faultless (hexafsObjectWriteData block [1, 2, 3])))
    (start.run .faultless (hexafsObjectWriteData block (List.replicate 600 7)))

/-- Can the header of a form be read, and is every slot zero? -/
def hasNoContent (block : UInt32) (start : Machine) : Bool :=
  match (cacheRead .faultless block start.dev).1 with
  | some buf => (ofBlock HexafsObject buf).slots == [0, 0, 0, 0]
  | none => false

/-- A new form, and what its first two calls do. -/
theorem exists_newForm : ∃ block start, (Machine.boot blankDisk).run .faultless newForm =
    .ok (block, start) ∧ shrinksForm block start = true ∧ hasNoContent block start = true := by
  have htest : testRun (fun block start => shrinksForm block start && hasNoContent block start)
      ((Machine.boot blankDisk).run .faultless newForm) = true := by decide +kernel
  obtain ⟨block, start, hrun, hpasses⟩ := exists_of_testRun htest
  rw [Bool.and_eq_true] at hpasses
  exact ⟨block, start, hrun, hpasses⟩

/-- A form is written with 600 bytes and then with 3. Both calls return 1, and the second of
the two blocks stays marked. -/
theorem writeCalls_shorterKeepsBlock : ∃ block start, (Machine.boot blankDisk).run .faultless
      newForm = .ok (block, start) ∧
    ¬EveryStep (writeCall .faultless block) (Accounted .faultless block)
      [List.replicate 600 7, [1, 2, 3]] ⟨start, 0⟩ := by
  obtain ⟨block, start, hrun, hshrinks, -⟩ := exists_newForm
  rw [shrinksForm, Bool.and_eq_true, decide_eq_true_eq] at hshrinks
  obtain ⟨hhint, hcalls⟩ := hshrinks
  obtain ⟨ok, long, hlong, hagain⟩ := exists_of_testRun hcalls
  rw [Bool.and_eq_true] at hagain
  obtain ⟨ok', short, hshort, hok'⟩ := exists_of_testRun hagain.2
  rw [hagain.1] at hlong
  rw [hok'] at hshort
  refine ⟨block, start, hrun, fun hall => ?_⟩
  obtain ⟨⟨ok₁, machine₁, hrun₁, hheld₁, -⟩, ⟨ok₂, machine₂, hrun₂, hheld₂, -⟩, -⟩ := hall
  have hfirst : writeCall .faultless block (List.replicate 600 7) ⟨start, 0⟩ =
      ⟨long, 0 + start.mem.allocator.freeCount - long.mem.allocator.freeCount⟩ := by
    rw [writeCall]
    dsimp only
    rw [hlong]
  rw [hfirst] at hheld₁ hheld₂ hrun₂
  have hsame₁ := Prod.mk.inj (Except.ok.inj (hlong.symm.trans hrun₁))
  have hsame₂ := Prod.mk.inj (Except.ok.inj (hshort.symm.trans hrun₂))
  have htwo := hheld₁ hsame₁.1.symm
  have hone := hheld₂ hsame₂.1.symm
  have hhint' : long.mem.allocator.HintOk := by
    have hkept : (writeCall .faultless block (List.replicate 600 7)
        ⟨start, 0⟩).machine.mem.allocator.HintOk := hintOk_writeCall hhint
      (show (List.replicate 600 7).length ≤ 2048 by rw [List.length_replicate]; decide)
    rw [hfirst] at hkept
    exact hkept
  obtain ⟨ok₃, mem, dev, hexec, taken, hgrown, -⟩ := hexafsObjectWriteData_ends .faultless
    long.dev block hhint' (show [1, 2, 3].length ≤ 2048 by decide)
  have hmem : mem = short.mem := by
    rw [Machine.run, hexec] at hshort
    exact congrArg Machine.mem (Prod.mk.inj (Except.ok.inj hshort)).2
  have hfree := hgrown.freeCount_add
  rw [hmem] at hfree
  rw [writeCall] at hone
  dsimp only at hone htwo hfree
  rw [hshort] at hone
  dsimp only at hone
  have hlong600 : blocksFor (List.replicate 600 (7 : UInt8)).length = 2 := by
    rw [List.length_replicate]
    rfl
  have hshort3 : blocksFor [1, 2, 3].length = 1 := rfl
  omega

/-- The first call on a new form takes a block and keeps the account. -/
theorem writeCalls_accounted_iff_first : ∃ block start, (Machine.boot blankDisk).run .faultless
      newForm = .ok (block, start) ∧
    EveryStep (writeCall .faultless block) (Accounted .faultless block) [List.replicate 600 7]
      ⟨start, 0⟩ := by
  obtain ⟨block, start, hrun, hshrinks, hempty⟩ := exists_newForm
  rw [shrinksForm, Bool.and_eq_true, decide_eq_true_eq] at hshrinks
  obtain ⟨hhint, hcalls⟩ := hshrinks
  obtain ⟨ok, long, hlong, hagain⟩ := exists_of_testRun hcalls
  rw [Bool.and_eq_true] at hagain
  rw [hagain.1] at hlong
  have hsizes : ∀ data ∈ [List.replicate 600 (7 : UInt8)], data.length ≤ 2048 := by
    intro data hdata
    rw [List.mem_singleton.mp hdata, List.length_replicate]
    decide
  refine ⟨block, start, hrun, (writeCalls_accounted_iff .faultless block _ ⟨start, 0⟩ hhint
    hsizes).mpr ⟨fun obj hheader => ?_, trivial⟩⟩
  obtain ⟨ok₂, mem, dev, hexec, taken, -, hcase⟩ := hexafsObjectWriteData_ends .faultless
    start.dev block hhint (hsizes _ List.mem_cons_self)
  have hok₂ : ok₂ = true := by
    rw [Machine.run, hexec] at hlong
    exact (Prod.mk.inj (Except.ok.inj hlong)).1
  rcases hcase with ⟨-, hfalse, -⟩ | ⟨obj', hheader', hends⟩
  · cases hok₂.symm.trans hfalse
  · rw [hheader'.unique hheader] at hends
    refine ⟨fun _ => ?_, fun hfails => by cases hok₂.symm.trans (hends.fails hfails).1⟩
    obtain ⟨buf, dev', hread, hobj, -⟩ := hheader
    have hslots : obj.slots = [0, 0, 0, 0] := by
      rw [hasNoContent, hread] at hempty
      rw [← hobj]
      exact eq_of_beq hempty
    rw [HexafsObject.written, hslots, List.length_replicate]
    rfl

end Calls

end HexaOS.Hexafs
