import HexaOS.KernelIntentRuns

/-!
# What a form shows after productions

Fulfilments of intents that store into one form, and one that copies from it. A production
stores its bytes at the front and raises the size of the form, which no production lowers, so
that what is read back is the last production exactly when it was the longest content so far.
-/

namespace HexaOS.Kernel

open DevicePrograms PackedBytes Hexafs

/-- A call of intent_fulfill with a buffer. -/
structure FulfillCall where
  /-- The handle. -/
  handle : UInt32
  /-- The buffer of the caller. -/
  buffer : ℕ → UInt8
  /-- The bytes to produce. -/
  len : Int32

/-- Calls of intent_fulfill, one after the other. -/
def fulfillAll : List FulfillCall → KernelM Unit
  | [] => pure ()
  | call :: calls => do
    let _ ← intentFulfill call.handle (some call.buffer) call.len
    fulfillAll calls

/-- The bytes of a call. -/
def FulfillCall.bytes (call : FulfillCall) : List UInt8 :=
  bufferBytes call.buffer call.len.toNatClampNeg

/-- The handle is that of an intent to store into the form `idx`. -/
def KernelMemory.StoresInto (kernel : KernelMemory) (idx : ℕ) (handle : UInt32) : Prop :=
  ∃ i, findIntent kernel.intentTable handle = some i ∧
    ((kernel.intentTable i).intent.intentType = intentProduce ∨
      (kernel.intentTable i).intent.intentType = intentTransform) ∧
    targetForm kernel (kernel.intentTable i).intent = some idx

/-- The handle is that of an intent to copy from the form `idx`. -/
def KernelMemory.CopiesFrom (kernel : KernelMemory) (idx : ℕ) (handle : UInt32) : Prop :=
  ∃ i, findIntent kernel.intentTable handle = some i ∧
    ((kernel.intentTable i).intent.intentType = intentConsume ∨
      (kernel.intentTable i).intent.intentType = intentObserve) ∧
    targetForm kernel (kernel.intentTable i).intent = some idx

/-- The schema check that a call has to pass. -/
def KernelMemory.accepts (kernel : KernelMemory) (call : FulfillCall) : Bool :=
  match findIntent kernel.intentTable call.handle with
  | none => false
  | some i => schemaAccepts (kernel.intentTable i).intent call.buffer call.len

/-- The productions of some calls: the bytes of those that pass their schema check. -/
def KernelMemory.productions (kernel : KernelMemory) (calls : List FulfillCall) :
    List (List UInt8) :=
  (calls.filter kernel.accepts).map FulfillCall.bytes

section Blocks

variable {block bytes : List UInt8}

/-- The front of a block after a store there. -/
theorem take_overlay_zero (block bytes : List UInt8) {count : ℕ} (h : count ≤ bytes.length) :
    (overlay block 0 bytes).take count = bytes.take count := by
  rw [overlay, List.take_zero, List.nil_append, List.take_append_of_le_length h]

end Blocks

section Kept

variable {idx : ℕ} {kernel kernel' : KernelMemory}

/-- What fulfilments on a form keep. -/
structure SameTarget (idx : ℕ) (kernel kernel' : KernelMemory) : Prop where
  /-- The number of forms stays. -/
  formCount : kernel'.store.formCount = kernel.store.formCount
  /-- The entries keep what they name. -/
  entries : ∀ i, (kernel'.intentTable i).identity = (kernel.intentTable i).identity
  /-- The target keeps its buffer. -/
  content : (kernel'.forms.slot idx).content = (kernel.forms.slot idx).content

theorem SameTarget.refl (idx : ℕ) (kernel : KernelMemory) : SameTarget idx kernel kernel :=
  ⟨rfl, fun _ => rfl, rfl⟩

theorem SameTarget.trans {kernel'' : KernelMemory} (h : SameTarget idx kernel kernel')
    (h' : SameTarget idx kernel' kernel'') : SameTarget idx kernel kernel'' :=
  ⟨h'.formCount.trans h.formCount, fun i => (h'.entries i).trans (h.entries i),
    h'.content.trans h.content⟩

theorem IntentEntry.intent_of_identity {entry entry' : IntentEntry}
    (h : entry'.identity = entry.identity) : entry'.intent = entry.intent :=
  congrArg (fun fields => fields.2.2.1) h

theorem SameTarget.findIntent_eq (h : SameTarget idx kernel kernel') (handle : UInt32) :
    findIntent kernel'.intentTable handle = findIntent kernel.intentTable handle := by
  have hactive := fun i => IntentEntry.active_of_identity (h.entries i)
  have hhandle := fun i => IntentEntry.handle_of_identity (h.entries i)
  simp only [findIntent, hactive, hhandle]

theorem SameTarget.targetForm_eq (h : SameTarget idx kernel kernel') (i : ℕ) :
    targetForm kernel' (kernel'.intentTable i).intent =
      targetForm kernel (kernel.intentTable i).intent := by
  rw [IntentEntry.intent_of_identity (h.entries i), targetForm, targetForm, h.formCount]

theorem SameTarget.storesInto (h : SameTarget idx kernel kernel') {target : ℕ} {handle : UInt32}
    (hstores : kernel.StoresInto target handle) : kernel'.StoresInto target handle := by
  obtain ⟨i, hfound, htype, htarget⟩ := hstores
  refine ⟨i, (h.findIntent_eq handle).trans hfound, ?_, (h.targetForm_eq i).trans htarget⟩
  rw [IntentEntry.intent_of_identity (h.entries i)]
  exact htype

theorem SameTarget.copiesFrom (h : SameTarget idx kernel kernel') {target : ℕ} {handle : UInt32}
    (hcopies : kernel.CopiesFrom target handle) : kernel'.CopiesFrom target handle := by
  obtain ⟨i, hfound, htype, htarget⟩ := hcopies
  refine ⟨i, (h.findIntent_eq handle).trans hfound, ?_, (h.targetForm_eq i).trans htarget⟩
  rw [IntentEntry.intent_of_identity (h.entries i)]
  exact htype

theorem SameTarget.accepts_eq (h : SameTarget idx kernel kernel') (call : FulfillCall) :
    kernel'.accepts call = kernel.accepts call := by
  have hintent := fun i => IntentEntry.intent_of_identity (h.entries i)
  simp only [KernelMemory.accepts, h.findIntent_eq, hintent]

end Kept

section Calls

variable {env : Environment} {system : System} {idx : ℕ} {call : FulfillCall}
  {block : List UInt8}

/-- The bytes that a production stores are all of the call, up to 65528. -/
theorem producedBytes_eq (hmax : call.len ≤ 65528) :
    producedBytes call.buffer call.len = call.bytes := by
  have hle : call.len.toNatClampNeg ≤ 65528 := by
    have hint : call.len.toInt ≤ 65528 := Int32.le_iff_toInt_le.mp hmax
    rw [← Int32.toNat_toInt]
    omega
  rw [producedBytes, Nat.min_eq_left hle, FulfillCall.bytes]

theorem length_bytes (call : FulfillCall) : call.bytes.length = call.len.toNatClampNeg := by
  rw [FulfillCall.bytes, bufferBytes, List.length_map, List.length_range]

/-- A fulfilment that stores into a form with room returns. -/
theorem fulfill_returns (env : Environment) {i : ℕ}
    (hfound : findIntent system.kernel.intentTable call.handle = some i)
    (htype : (system.kernel.intentTable i).intent.intentType = intentProduce ∨
      (system.kernel.intentTable i).intent.intentType = intentTransform)
    (htarget : targetForm system.kernel (system.kernel.intentTable i).intent = some idx)
    (hlen : 0 < call.len) (hmax : call.len ≤ 65528)
    (hblock : system.kernel.forms.block (system.kernel.forms.slot idx).content = some block)
    (hroom : call.len.toNatClampNeg < block.length) :
    ∃ result after, system.run env (intentFulfill call.handle (some call.buffer) call.len) =
      .ok (result, after) := by
  have hfits : (0 : Int) + ((call.bytes ++ [0]).length : Int) ≤ block.length := by
    rw [List.length_append, length_bytes, List.length_singleton]
    omega
  have hbytes : ∃ after, system.run env (storeBytes (system.kernel.forms.slot idx).content 0
      (call.bytes ++ [0])) = .ok ((), after) := by
    rw [storeBytes, System.run_memory, hblock]
    dsimp only
    rw [if_pos ⟨Int.le_refl 0, hfits⟩]
    exact ⟨_, rfl⟩
  obtain ⟨stored, hstored⟩ := hbytes
  have hstore : ∀ otherwise, ∃ result after, system.run env
      (fulfillStore i (system.kernel.intentTable i) (some call.buffer) call.len otherwise) =
        .ok (result, after) := by
    intro otherwise
    rw [fulfillStore, System.run_memory, if_pos hlen, htarget]
    dsimp only
    split
    · rw [produce, System.run_memory, producedBytes_eq hmax, System.run_bind, hstored]
      exact ⟨_, _, rfl⟩
    · exact ⟨_, _, rfl⟩
  rw [intentFulfill, System.run_memory, hfound]
  dsimp only
  rcases htype with htype | htype
  · rw [if_pos htype]
    exact hstore _
  · rw [htype, if_neg (by decide), if_neg (by decide), if_neg (by decide), if_pos rfl]
    exact hstore _

/-- A fulfilment that stores into a form: what it does if the schema accepts it, and if not. -/
theorem fulfill_stores (env : Environment) (hstores : system.kernel.StoresInto idx call.handle)
    (hlen : 0 < call.len) (hmax : call.len ≤ 65528)
    (hblock : system.kernel.forms.block (system.kernel.forms.slot idx).content = some block)
    (hroom : call.len.toNatClampNeg < block.length) :
    ∃ result after, system.run env (intentFulfill call.handle (some call.buffer) call.len) =
        .ok (result, after) ∧ SameTarget idx system.kernel after.kernel ∧
      (if system.kernel.accepts call then
        (after.kernel.forms.slot idx).size =
          max (system.kernel.forms.slot idx).size call.bytes.length ∧
        after.kernel.forms.block (system.kernel.forms.slot idx).content =
          some (overlay block 0 (call.bytes ++ [0]))
      else after.kernel.forms = system.kernel.forms) := by
  obtain ⟨i, hfound, htype, htarget⟩ := hstores
  have haccepts : system.kernel.accepts call =
      schemaAccepts (system.kernel.intentTable i).intent call.buffer call.len := by
    rw [KernelMemory.accepts, hfound]
  have hproduction : system.kernel.production (system.kernel.intentTable i) (some call.buffer)
      call.len = if system.kernel.accepts call then some (idx, call.bytes) else none := by
    rw [KernelMemory.production, if_pos htype, if_pos hlen, htarget, haccepts]
    dsimp only
    rw [producedBytes_eq hmax]
  obtain ⟨result, after, hrun⟩ := fulfill_returns env hfound htype htarget hlen hmax hblock hroom
  have hdone := System.run_ensures (intentFulfill_ensures system.kernel _ _ _) hrun
  have hforms := hdone.forms
  rw [hfound, Option.bind_some, hproduction] at hforms
  refine ⟨result, after, hrun, ⟨by rw [hdone.store], hdone.entries, ?_⟩, ?_⟩
  · by_cases haccept : system.kernel.accepts call = true
    · rw [if_pos haccept] at hforms
      dsimp only at hforms
      rw [hforms, FormStore.produced, FormStore.slot_setSlot_self]
    · rw [if_neg haccept] at hforms
      dsimp only at hforms
      rw [hforms]
  · by_cases haccept : system.kernel.accepts call = true
    · rw [if_pos haccept] at hforms ⊢
      dsimp only at hforms
      rw [hforms, FormStore.produced, FormStore.slot_setSlot_self, FormStore.block_setSlot,
        FormStore.block_setBlock_self, hblock]
      exact ⟨rfl, rfl⟩
    · rw [if_neg haccept] at hforms ⊢
      exact hforms

/-- The productions of one more call. -/
theorem productions_cons (kernel : KernelMemory) (call : FulfillCall) (calls : List FulfillCall) :
    kernel.productions (call :: calls) = if kernel.accepts call
      then call.bytes :: kernel.productions calls else kernel.productions calls := by
  rw [KernelMemory.productions, List.filter_cons]
  split
  · rfl
  · rfl

/-- Fulfilments that store into a form with room: its block and its size behind them. -/
theorem fulfillAll_stores (env : Environment) (calls : List FulfillCall)
    (hstores : ∀ call ∈ calls, system.kernel.StoresInto idx call.handle)
    (hlen : ∀ call ∈ calls, 0 < call.len ∧ call.len ≤ 65528)
    (hblock : system.kernel.forms.block (system.kernel.forms.slot idx).content = some block)
    (hroom : ∀ call ∈ calls, call.len.toNatClampNeg < block.length) :
    ∃ after block', system.run env (fulfillAll calls) = .ok ((), after) ∧
      SameTarget idx system.kernel after.kernel ∧
      after.kernel.forms.block (after.kernel.forms.slot idx).content = some block' ∧
      block'.length = block.length ∧
      (after.kernel.forms.slot idx).size =
        ((system.kernel.productions calls).map List.length).foldl max
          (system.kernel.forms.slot idx).size ∧
      (system.kernel.productions calls = [] → block' = block) ∧
      ∀ earlier bytes, system.kernel.productions calls = earlier ++ [bytes] →
        block'.take bytes.length = bytes := by
  induction calls generalizing system block with
  | nil =>
    refine ⟨system, block, rfl, .refl idx _, hblock, rfl, rfl, fun _ => rfl,
      fun earlier bytes hnil => ?_⟩
    exact absurd hnil.symm (List.append_ne_nil_of_right_ne_nil _ (List.cons_ne_nil _ _))
  | cons call calls ih =>
    have ⟨hpos, hmax⟩ := hlen call List.mem_cons_self
    have hfits := hroom call List.mem_cons_self
    obtain ⟨result, middle, hrun, hsame, hforms⟩ :=
      fulfill_stores env (hstores call List.mem_cons_self) hpos hmax hblock hfits
    have hsecond : fulfillAll (call :: calls) = (do
        let _ ← intentFulfill call.handle (some call.buffer) call.len
        fulfillAll calls) := rfl
    have hprods : middle.kernel.productions calls = system.kernel.productions calls := by
      rw [KernelMemory.productions, KernelMemory.productions, funext hsame.accepts_eq]
    -- the block behind the first call, whether the schema accepts it or not
    obtain ⟨block₁, hblock₁, hlength, hsize, hfront, hidle⟩ : ∃ block₁,
        middle.kernel.forms.block (middle.kernel.forms.slot idx).content = some block₁ ∧
        block₁.length = block.length ∧
        (middle.kernel.forms.slot idx).size =
          (if system.kernel.accepts call then
            max (system.kernel.forms.slot idx).size call.bytes.length
            else (system.kernel.forms.slot idx).size) ∧
        (system.kernel.accepts call = true → block₁.take call.bytes.length = call.bytes) ∧
        (¬system.kernel.accepts call = true → block₁ = block) := by
      rw [hsame.content]
      by_cases haccept : system.kernel.accepts call = true
      · rw [if_pos haccept] at hforms ⊢
        refine ⟨_, hforms.2, length_overlay ?_, hforms.1, fun _ => ?_,
          fun hrefused => absurd haccept hrefused⟩
        · rw [List.length_append, length_bytes, List.length_singleton]
          omega
        · rw [take_overlay_zero _ _ (by simp), List.take_left]
      · rw [if_neg haccept] at hforms ⊢
        rw [hforms]
        exact ⟨block, hblock, rfl, rfl, fun haccepts => absurd haccepts haccept, fun _ => rfl⟩
    obtain ⟨after, block', hrest, hsame', hblock', hlength', hsize', hidle', hfront'⟩ :=
      @ih middle block₁ (fun other hother => hsame.storesInto
        (hstores other (List.mem_cons_of_mem _ hother)))
        (fun other hother => hlen other (List.mem_cons_of_mem _ hother)) hblock₁
        (fun other hother => by rw [hlength]; exact hroom other (List.mem_cons_of_mem _ hother))
    rw [hprods] at hsize' hidle' hfront'
    refine ⟨after, block', ?_, hsame.trans hsame', hblock', hlength'.trans hlength, ?_, ?_, ?_⟩
    · rw [hsecond, System.run_bind, hrun]
      exact hrest
    · rw [hsize', hsize, productions_cons]
      by_cases haccept : system.kernel.accepts call = true
      · rw [if_pos haccept, if_pos haccept, List.map_cons, List.foldl_cons]
      · rw [if_neg haccept, if_neg haccept]
    · intro hnone
      rw [productions_cons] at hnone
      by_cases haccept : system.kernel.accepts call = true
      · rw [if_pos haccept] at hnone
        cases hnone
      · rw [if_neg haccept] at hnone
        rw [hidle' hnone, hidle haccept]
    · intro earlier bytes hlast
      rw [productions_cons] at hlast
      rcases List.eq_nil_or_concat (system.kernel.productions calls) with hnone | ⟨front, last, hsome⟩
      · -- the first call is the last production
        rw [hnone] at hlast
        by_cases haccept : system.kernel.accepts call = true
        · rw [if_pos haccept] at hlast
          have hends : [] ++ [call.bytes] = earlier ++ [bytes] := hlast
          have hsingle := List.singleton_inj.mp (List.append_inj' hends rfl).2
          rw [hidle' hnone, ← hsingle]
          exact hfront haccept
        · rw [if_neg haccept] at hlast
          exact absurd hlast.symm (List.append_ne_nil_of_right_ne_nil _ (List.cons_ne_nil _ _))
      · rw [List.concat_eq_append] at hsome
        have hbytes : last = bytes := by
          by_cases haccept : system.kernel.accepts call = true
          · rw [if_pos haccept, hsome, ← List.cons_append] at hlast
            exact List.singleton_inj.mp (List.append_inj' hlast rfl).2
          · rw [if_neg haccept, hsome] at hlast
            exact List.singleton_inj.mp (List.append_inj' hlast rfl).2
        rw [← hbytes]
        exact hfront' front last hsome

/-- A fulfilment that copies from a form returns its front. -/
theorem fulfill_copies (env : Environment) {handle : UInt32} (buffer : ℕ → UInt8) {len : Int32}
    (hcopies : system.kernel.CopiesFrom idx handle) (hlen : 0 < len)
    (hblock : system.kernel.forms.block (system.kernel.forms.slot idx).content = some block)
    (hsize : (system.kernel.forms.slot idx).size ≤ block.length) :
    system.run env (intentFulfill handle (some buffer) len) =
      .ok (⟨Int32.ofNat (min len.toNatClampNeg (system.kernel.forms.slot idx).size),
        block.take (min len.toNatClampNeg (system.kernel.forms.slot idx).size)⟩, system) := by
  obtain ⟨i, hfound, htype, htarget⟩ := hcopies
  have hconsume : system.run env (consume idx len) =
      .ok (⟨Int32.ofNat (min len.toNatClampNeg (system.kernel.forms.slot idx).size),
        block.take (min len.toNatClampNeg (system.kernel.forms.slot idx).size)⟩, system) := by
    rw [consume, System.run_memory]
    dsimp only
    rw [System.run_bind, loadBytes, System.run_memory, hblock]
    dsimp only
    rw [if_pos (by omega), List.drop_zero]
    rfl
  rw [intentFulfill, System.run_memory, hfound]
  dsimp only
  rcases htype with htype | htype
  · rw [htype, if_neg (by decide), if_pos rfl, fulfillConsume, System.run_memory, if_pos hlen]
    dsimp only
    rw [htarget]
    exact hconsume
  · rw [htype, if_neg (by decide), if_neg (by decide), if_pos rfl, fulfillObserve,
      System.run_memory, if_pos hlen, htarget]
    exact hconsume

/-- The greatest of some numbers is at most another one if they all are. -/
theorem foldl_max_le_iff {sizes : List ℕ} {size bound : ℕ} :
    sizes.foldl max size ≤ bound ↔ size ≤ bound ∧ ∀ other ∈ sizes, other ≤ bound := by
  induction sizes generalizing size with
  | nil => simp
  | cons head tail ih =>
    rw [List.foldl_cons, ih, List.forall_mem_cons, max_le_iff, and_assoc]

/-- For every form with a terminated content, every sequence of fulfilments that store into it
1 to 65528 bytes that fit its block, and a following one that copies from it into a buffer at
least as long as the last production: it returns the last production and its length exactly if
its buffer is just as long, or neither the content before nor an earlier production was longer. -/
theorem fulfill_readsLast_iff (calls : List FulfillCall) {earlier : List (List UInt8)}
    {bytes : List UInt8} {handle : UInt32} {len : Int32} (buffer : ℕ → UInt8)
    (hblock : system.kernel.forms.block (system.kernel.forms.slot idx).content = some block)
    (hsize : (system.kernel.forms.slot idx).size < block.length)
    (hstores : ∀ call ∈ calls, system.kernel.StoresInto idx call.handle)
    (hlen : ∀ call ∈ calls, 0 < call.len ∧ call.len ≤ 65528)
    (hroom : ∀ call ∈ calls, call.len.toNatClampNeg < block.length)
    (hlast : system.kernel.productions calls = earlier ++ [bytes])
    (hcopies : system.kernel.CopiesFrom idx handle) (hlarge : bytes.length ≤ len.toNatClampNeg) :
    (∃ after, system.run env (do
        fulfillAll calls
        intentFulfill handle (some buffer) len) =
          .ok (⟨Int32.ofNat bytes.length, bytes⟩, after)) ↔
      len.toNatClampNeg = bytes.length ∨
        ((system.kernel.forms.slot idx).size ≤ bytes.length ∧
          ∀ other ∈ earlier, other.length ≤ bytes.length) := by
  obtain ⟨middle, block', hrun, hsame, hblock', hlength, hsize', _, hfront⟩ :=
    fulfillAll_stores env calls hstores hlen hblock hroom
  have hlengths : ∀ other ∈ system.kernel.productions calls,
      0 < other.length ∧ other.length < block.length := by
    intro other hother
    obtain ⟨call, hcall, rfl⟩ := List.mem_map.mp hother
    have hin := List.mem_of_mem_filter hcall
    have hpos : 0 < call.len.toInt := Int32.lt_iff_toInt_lt.mp (hlen call hin).1
    have hnat := Int32.toNat_toInt call.len
    have hfits := hroom call hin
    rw [length_bytes]
    omega
  have hbytes := hlengths bytes (by rw [hlast]; simp)
  have hpositive : 0 < len := by
    have hnat := Int32.toNat_toInt len
    rw [Int32.lt_iff_toInt_lt]
    show (0 : ℤ) < len.toInt
    omega
  have hbound : ∀ bound, (middle.kernel.forms.slot idx).size ≤ bound ↔
      (system.kernel.forms.slot idx).size ≤ bound ∧
        ∀ other ∈ system.kernel.productions calls, other.length ≤ bound := by
    intro bound
    rw [hsize', foldl_max_le_iff, List.forall_mem_map]
  have hfits : (middle.kernel.forms.slot idx).size ≤ block'.length := by
    rw [hbound, hlength]
    exact ⟨hsize.le, fun other hother => (hlengths other hother).2.le⟩
  have hleast : bytes.length ≤ (middle.kernel.forms.slot idx).size :=
    ((hbound _).mp (Nat.le_refl _)).2 bytes (by rw [hlast]; simp)
  have hmost : (middle.kernel.forms.slot idx).size ≤ bytes.length ↔
      (system.kernel.forms.slot idx).size ≤ bytes.length ∧
        ∀ other ∈ earlier, other.length ≤ bytes.length := by
    rw [hbound, hlast, List.forall_mem_append, List.forall_mem_singleton, and_iff_left le_rfl]
  have hcopy := fulfill_copies env buffer (hsame.copiesFrom hcopies) hpositive hblock' hfits
  rw [System.run_bind, hrun, ← hmost]
  show (∃ after, System.run env _ middle = _) ↔ _
  rw [hcopy]
  constructor
  · rintro ⟨after, hresult⟩
    have hout := congrArg Fulfilled.out (Prod.mk.inj (Except.ok.inj hresult)).1
    have hcount := congrArg List.length hout
    dsimp only at hcount
    rw [List.length_take] at hcount
    omega
  · intro hcondition
    have hcount : min len.toNatClampNeg (middle.kernel.forms.slot idx).size = bytes.length := by
      omega
    rw [hcount, hfront earlier bytes hlast]
    exact ⟨middle, rfl⟩

/-- The form "a" with the content "bcd". -/
def threeBytes : FormStore where
  slot := fun _ => ⟨CString.ofBytes [97], 1, 3, 4, 0, permDefault⟩
  block := Function.update (fun _ => none) 1 (some [98, 99, 100, 0])
  fresh := 2
  content_lt _ := by decide

/-- The form "a" with an intent to produce it and one to consume it. -/
def sharedForm : System where
  kernel := { ((oneFormKernel Memory.boot []).registered 0 5 (openedIntent 0 1)).registered 1 5
    (openedIntent 0 0) with forms := threeBytes }
  dev := (Machine.boot blankDisk).dev

theorem sharedForm_storesInto : sharedForm.kernel.StoresInto 0 1 := ⟨0, rfl, .inl rfl, rfl⟩

theorem sharedForm_copiesFrom : sharedForm.kernel.CopiesFrom 0 2 := ⟨1, rfl, .inl rfl, rfl⟩

/-- The equivalence where a form of three bytes is given one byte and read into a buffer of
three. -/
theorem fulfill_readsLast_iff_shorter :
    (∃ after, sharedForm.run .faultless (do
        fulfillAll [⟨1, fun _ => 120, 1⟩]
        intentFulfill 2 (some fun _ => 0) 3) =
          .ok (⟨Int32.ofNat [(120 : UInt8)].length, [120]⟩, after)) ↔
      (3 : Int32).toNatClampNeg = [(120 : UInt8)].length ∨
        ((sharedForm.kernel.forms.slot 0).size ≤ [(120 : UInt8)].length ∧
          ∀ other ∈ ([] : List (List UInt8)), other.length ≤ [(120 : UInt8)].length) :=
  fulfill_readsLast_iff [⟨1, fun _ => 120, 1⟩] (fun _ => 0)
    (show sharedForm.kernel.forms.block 1 = some [98, 99, 100, 0] from rfl) (by decide)
    (by simpa using sharedForm_storesInto) (by simp) (by simp) rfl
    sharedForm_copiesFrom (by decide)

/-- A form of three bytes shows its old end behind a production of one byte. -/
theorem fulfill_showsOldEnd : sharedForm.kernel.StoresInto 0 1 ∧
    sharedForm.kernel.CopiesFrom 0 2 ∧ ¬∃ after, sharedForm.run .faultless (do
        fulfillAll [⟨1, fun _ => 120, 1⟩]
        intentFulfill 2 (some fun _ => 0) 3) = .ok (⟨1, [120]⟩, after) := by
  refine ⟨sharedForm_storesInto, sharedForm_copiesFrom, fun ⟨after, hrun⟩ => ?_⟩
  have hshown : ∃ last, sharedForm.run .faultless (do
      fulfillAll [⟨1, fun _ => 120, 1⟩]
      intentFulfill 2 (some fun _ => 0) 3) = .ok (⟨3, [120, 0, 100]⟩, last) := ⟨_, rfl⟩
  have ⟨last, hlast⟩ := hshown
  have hout := congrArg Fulfilled.out (Prod.mk.inj (Except.ok.inj (hrun.symm.trans hlast))).1
  exact absurd hout (by decide)

end Calls

end HexaOS.Kernel
