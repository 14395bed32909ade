import HexaOS.HexafsEntries

/-!
# Saving the forms

form_from_fentry writes a new object with the ten bytes of owner and mode in
front of the content, and the loop of hexafs_save_all adds its entry to the new
abstraction. How many blocks that takes, and which forms are left out when they
run out, depends on the sizes and on the number of free blocks only: the budget
at the end of this file.
-/

namespace HexaOS.Hexafs

open DevicePrograms PackedBytes StoreTyping

variable {env : Environment} {mem : Memory} {d : PlainDisk}

/-- The blocks that a form takes: its object and its content. -/
def formCost (size : ℕ) : ℕ := 1 + blocksFor (10 + min size 2038)

theorem formCost_ge_two (size : ℕ) : 2 ≤ formCost size := by
  unfold formCost blocksFor
  omega

theorem length_formMeta (owner : UInt32) (mode : UInt16) : (formMeta owner mode).length = 10 := rfl

/-- The buffer of a form: ten bytes and at most 2038 content bytes. -/
theorem length_formBuffer {content : Option (List UInt8)} {size : ℕ} (owner : UInt32)
    (mode : UInt16) {fill : List UInt8} (hsize : ∀ buffer ∈ content, size ≤ buffer.length)
    (hfill : fill.length = min 2048 (10 + size)) :
    (formBuffer content size owner mode fill).length = 10 + min size 2038 := by
  have hsource : min size 2038 ≤ (content.getD (fill.drop 10)).length := by
    cases content with
    | none =>
      rw [Option.getD_none, List.length_drop, hfill]
      omega
    | some buffer =>
      have hthis := hsize buffer rfl
      rw [Option.getD_some]
      omega
  rw [formBuffer, List.length_append, List.length_take, length_formMeta]
  omega

/-- A heap block has the size that was asked for. -/
theorem Environment.length_heapBlock {n size : ℕ} {fill : List UInt8}
    (h : env.heapBlock n size = some fill) : fill.length = size := by
  unfold heapBlock at h
  split at h
  · obtain rfl := Option.some.inj h
    rw [List.length_map, List.length_range]
  · cases h

/-- The disk after one kmalloc. -/
def PlainDisk.counted (d : PlainDisk) : PlainDisk := { d with kmallocCount := d.kmallocCount + 1 }

theorem Wrote.counted {W : UInt32 → Prop} {d' : PlainDisk} (h : Wrote env W d d') :
    Wrote env W d d'.counted := ⟨h.log, h.stale, h.stale_le⟩

/-- kmalloc returns no block or a block of the size. -/
theorem wp_kmalloc {size : ℕ} {post : Option (List UInt8) → Memory → PlainDisk → Prop}
    (hnone : env.kmallocOk d.kmallocCount = false → post none mem d.counted)
    (hsome : ∀ fill, env.kmallocOk d.kmallocCount = true → fill.length = size →
      post (some fill) mem d.counted) :
    (kmalloc size).wp (plainDevice env) mem d post := by
  have hrun : plainDevice env (.kmalloc size) d =
      .ok (env.heapBlock d.kmallocCount size, d.counted) := rfl
  refine Code.wp_request hrun ?_
  cases hblock : env.heapBlock d.kmallocCount size with
  | none =>
    refine hnone ?_
    unfold Environment.heapBlock at hblock
    split at hblock
    · cases hblock
    · rename_i hbad
      simpa using hbad
  | some fill =>
    refine hsome fill ?_ (Environment.length_heapBlock hblock)
    unfold Environment.heapBlock at hblock
    split at hblock
    · assumption
    · cases hblock

/-- Every heap allocation succeeds. -/
def Environment.KmallocOk (env : Environment) : Prop := ∀ n, env.kmallocOk n = true

section HeapFree

/-- Operations that leave the kernel heap alone. -/
def BlockOp.NoKmalloc : BlockOp → Prop
  | .kmalloc _ => False
  | _ => True

/-- Code without a call of kmalloc. -/
abbrev HeapFree {α : Type} (code : HexafsM α) : Prop := code.Uses BlockOp.NoKmalloc

/-- Only kmalloc changes the number of the next allocation. -/
theorem kmallocCount_of_noKmalloc {k : ℕ} (op : BlockOp) (disk : PlainDisk) (reply : BlockReply op)
    (disk' : PlainDisk) (hop : op.NoKmalloc) (hcount : disk.kmallocCount = k)
    (hrun : plainDevice env op disk = .ok (reply, disk')) : disk'.kmallocCount = k := by
  cases op with
  | read lba =>
    rw [plainDevice] at hrun
    split at hrun
    · simp only [Except.ok.injEq, Prod.mk.injEq] at hrun
      rw [← hrun.2, hcount]
    · cases hrun
  | write lba buf =>
    rw [plainDevice] at hrun
    split at hrun
    · simp only [Except.ok.injEq, Prod.mk.injEq] at hrun
      rw [← hrun.2, PlainDisk.write_kmallocCount, hcount]
    · cases hrun
  | clearCache =>
    simp only [plainDevice, Except.ok.injEq, Prod.mk.injEq] at hrun
    rw [← hrun.2, hcount]
  | kmalloc size => exact absurd hop id

/-- Code that leaves the heap alone leaves the number of the next allocation. -/
theorem HeapFree.wp {α : Type} {code : HexafsM α} (h : HeapFree code)
    {post : α → Memory → PlainDisk → Prop}
    (hwp : code.wp (plainDevice env) mem d fun value mem' d' =>
      d'.kmallocCount = d.kmallocCount → post value mem' d') :
    code.wp (plainDevice env) mem d post :=
  h.wp_of_preserved kmallocCount_of_noKmalloc rfl hwp

theorem hexafsBlockRead_heapFree (lba : UInt32) : HeapFree (hexafsBlockRead lba) :=
  Code.uses_request trivial

theorem hexafsBlockWrite_heapFree (lba : UInt32) (buf : Sector) :
    HeapFree (hexafsBlockWrite lba buf) := Code.uses_request trivial

theorem hexafsAllocBlock_heapFree : HeapFree hexafsAllocBlock := by
  refine Code.uses_memory.bind fun mem => ?_
  cases mem.allocator.choose with
  | none => exact (Code.uses_modify _).bind fun _ => Code.uses_pure _
  | some i =>
    refine Code.Uses.bind (Code.uses_modify _) fun _ => ?_
    refine (hexafsBlockWrite_heapFree _ _).bind fun _ => ?_
    exact Code.Uses.bind (Code.uses_modify _) fun _ => Code.uses_pure _

theorem hexafsFreeBlock_heapFree (lba : UInt32) : HeapFree (hexafsFreeBlock lba) :=
  (Code.uses_pure ()).ite (Code.uses_modify _)

theorem writeContent_heapFree (left i : ℕ) (slots : List UInt32) (data : List UInt8) :
    HeapFree (writeContent left i slots data) := by
  induction left generalizing i slots data with
  | zero => exact Code.uses_pure _
  | succ left ih =>
    cases slots with
    | nil => exact Code.uses_pure _
    | cons slot slots =>
      have hrest : ∀ db, HeapFree (if db = 0 then pure none else do
          let ok ← hexafsBlockWrite db (padBlock 512 data)
          if ok then
            let rest ← writeContent left (i + 1) slots (data.drop 512)
            pure (rest.map (db :: ·))
          else
            if 0 < i ∧ db ≠ slot then hexafsFreeBlock db
            pure none) := by
        intro db
        refine (Code.uses_pure _).ite ?_
        refine (hexafsBlockWrite_heapFree _ _).bind fun ok => Code.Uses.ite ?_ ?_
        · exact (ih _ _ _).bind fun _ => Code.uses_pure _
        · exact ((hexafsFreeBlock_heapFree db).bind fun _ => Code.uses_pure _).ite
            (Code.uses_pure _)
      rw [writeContent]
      exact (hexafsAllocBlock_heapFree.bind hrest).ite ((Code.uses_pure slot).bind hrest)

theorem hexafsObjectWriteData_heapFree (objBlock : UInt32) (data : List UInt8) :
    HeapFree (hexafsObjectWriteData objBlock data) := by
  refine (hexafsBlockRead_heapFree _).bind fun read => ?_
  cases read with
  | none => exact Code.uses_pure _
  | some buf =>
    refine Code.Uses.ite ?_ (Code.uses_pure _)
    refine (writeContent_heapFree _ _ _ _).bind fun written => ?_
    cases written with
    | none => exact Code.uses_pure _
    | some slots => exact hexafsBlockWrite_heapFree _ _

theorem hexafsAbstractionCreate_heapFree : HeapFree hexafsAbstractionCreate := by
  refine hexafsAllocBlock_heapFree.bind fun block => (Code.uses_pure _).ite ?_
  refine (hexafsBlockWrite_heapFree _ _).bind fun ok => (Code.uses_pure _).ite ?_
  exact (hexafsFreeBlock_heapFree block).bind fun _ => Code.uses_pure _

theorem hexafsAbstractionNextChain_heapFree (absBlock : UInt32) :
    HeapFree (hexafsAbstractionNextChain absBlock) := by
  refine (hexafsBlockRead_heapFree _).bind fun read => ?_
  cases read with
  | none => exact Code.uses_pure _
  | some buf => exact Code.uses_pure _

theorem hexafsAbstractionSetChain_heapFree (absBlock nextBlock : UInt32) :
    HeapFree (hexafsAbstractionSetChain absBlock nextBlock) := by
  refine (hexafsBlockRead_heapFree _).bind fun read => ?_
  cases read with
  | none => exact Code.uses_pure _
  | some buf => exact (hexafsBlockWrite_heapFree _ _).bind fun _ => Code.uses_pure _

theorem addEntryLoop_heapFree (name : CString) (objBlock : UInt32) (type : UInt8) (fuel : ℕ)
    (cur : UInt32) : HeapFree (addEntryLoop name objBlock type fuel cur) := by
  induction fuel generalizing cur with
  | zero => exact fun _ => trivial
  | succ fuel ih =>
    rw [addEntryLoop]
    refine (Code.uses_pure _).ite ((hexafsBlockRead_heapFree _).bind fun read => ?_)
    cases read with
    | none => exact Code.uses_pure _
    | some buf =>
      refine (Code.uses_pure _).ite ?_
      refine (Code.uses_pure _).ite ?_
      split
      · exact (hexafsBlockWrite_heapFree _ _).bind fun _ => Code.uses_pure _
      · exact (hexafsAbstractionNextChain_heapFree _).bind fun next => (Code.uses_pure _).ite (ih next)

theorem hexafsAbstractionAddEntry_heapFree (absBlock : UInt32) (name : CString) (objBlock : UInt32)
    (type : UInt8) : HeapFree (hexafsAbstractionAddEntry absBlock name objBlock type) := by
  refine (addEntryLoop_heapFree _ _ _ _ _).bind fun walk => ?_
  cases walk with
  | returned value => exact Code.uses_pure _
  | fellOut cur =>
    refine hexafsAbstractionCreate_heapFree.bind fun newBlock => (Code.uses_pure _).ite ?_
    refine (hexafsAbstractionSetChain_heapFree _ _).bind fun _ => ?_
    refine (hexafsBlockRead_heapFree _).bind fun read => ?_
    cases read with
    | none => exact Code.uses_pure _
    | some buf => exact hexafsBlockWrite_heapFree _ _

end HeapFree

/-- form_from_fentry when every write succeeds. With a free block for the object it asks the
heap for one buffer. -/
theorem formFromFentry_spec {content : Option (List UInt8)} {size : ℕ} {owner : UInt32}
    {mode : UInt16} (hok : env.WritesOk) (hhint : mem.allocator.HintOk)
    (hsize : ∀ buffer ∈ content, size ≤ buffer.length)
    {post : UInt32 → Memory → PlainDisk → Prop}
    (hzero : ∀ blocks a' d', Grown mem.allocator a' blocks →
      Wrote env mem.allocator.Fresh d d' →
      (0 < mem.allocator.freeCount → d'.kmallocCount = d.kmallocCount + 1) →
      (a'.freeCount = if env.kmallocOk d.kmallocCount then min mem.allocator.freeCount 1
        else mem.allocator.freeCount) →
      (env.kmallocOk d.kmallocCount = true → mem.allocator.freeCount < formCost size ∧
        a'.outOfBlocks = true) →
      post 0 { mem with allocator := a' } d')
    (hsome : ∀ fb blocks a' d' fill, Grown mem.allocator a' blocks →
      blocks.length = formCost size → Wrote env mem.allocator.Fresh d d' →
      env.kmallocOk d.kmallocCount = true → d'.kmallocCount = d.kmallocCount + 1 →
      a'.outOfBlocks = mem.allocator.outOfBlocks →
      NewObject d'.sectors mem.allocator a' fb → fill.length = min 2048 (10 + size) →
      readObject d'.sectors fb = some ⟨true, hexafsForm,
        UInt32.ofNat (10 + min size 2038), formBuffer content size owner mode fill⟩ →
      post fb { mem with allocator := a' } d') :
    (formFromFentry content size owner mode).wp (plainDevice env) mem d post := by
  have htwo := formCost_ge_two size
  simp only [formFromFentry, Code.wp_bind]
  refine hexafsObjectAlloc_spec hhint (fun hfree => ?_) (fun _ _ _ _ hbad => absurd hok hbad)
    fun b a₁ hgrown hquiet _ => ?_
  · rw [if_pos rfl, Code.wp_pure]
    refine hzero [] _ d (Grown.full hhint) Wrote.refl (fun hpos => by omega) ?_ fun _ =>
      ⟨by omega, rfl⟩
    rw [Allocator.freeCount_full, hfree, Nat.zero_min, ite_self]
  · have hfresh := hgrown.fresh b (List.mem_singleton_self b)
    have hcount := hgrown.freeCount_add
    rw [List.length_singleton] at hcount
    have hwrote : Wrote env mem.allocator.Fresh d
        ((d.write env b zeroSector).write env b
          (toBlock 512 (newObject hexafsForm mem.sbCache.timestamp))) :=
      (Wrote.refl.write hfresh).write hfresh
    have hreach := PlainDisk.write_reaches b
      (toBlock 512 (newObject hexafsForm mem.sbCache.timestamp))
      (hok.reaches (d.write env b zeroSector).writeCount)
    have hsame : ((d.write env b zeroSector).write env b
        (toBlock 512 (newObject hexafsForm mem.sbCache.timestamp))).kmallocCount =
          d.kmallocCount := by
      rw [PlainDisk.write_kmallocCount, PlainDisk.write_kmallocCount]
    generalize ((d.write env b zeroSector).write env b
      (toBlock 512 (newObject hexafsForm mem.sbCache.timestamp))) = d₁ at hwrote hreach hsame
    have hobj : objectAt d₁.sectors b = newObject hexafsForm mem.sbCache.timestamp := by
      rw [objectAt, hreach.1, ofBlock_toBlock]
    have hcontents : (objectAt d₁.sectors b).contents = [] := by
      rw [hobj, newObject_contents]
    rw [if_neg hfresh.1.ne_zero, Code.wp_bind]
    refine wp_kmalloc (fun hbad => ?_) fun fill hheap hfill => ?_
    · rw [hsame] at hbad
      simp only [Code.wp_bind]
      refine hexafsFreeBlock_spec hgrown (List.mem_singleton_self b) fun a₂ hgrown₂ _ => ?_
      rw [List.erase_cons_head] at hgrown₂
      rw [Code.wp_pure]
      refine hzero _ a₂ _ hgrown₂ hwrote.counted (fun _ => congrArg (· + 1) hsame) ?_ fun hheap => ?_
      · rw [hbad]
        exact hgrown₂.freeCount_add
      · rw [hheap] at hbad
        cases hbad
    · have hlen := length_formBuffer owner mode hsize hfill
      have hdata : (formBuffer content size owner mode fill).length ≤ 2048 := by omega
      have hsafe : ObjectSafe a₁ d₁.counted b :=
        { ok := by
            show (objectAt d₁.sectors b).Ok
            rw [hobj]
            exact newObject_ok _ _
          inStore := hfresh.1
          stale := hreach.2
          contents := by
            show ∀ c ∈ (objectAt d₁.sectors b).contents, _
            rw [hcontents]
            exact fun c hc => absurd hc List.not_mem_nil
          used := hgrown.used_of_mem (List.mem_singleton_self b)
          nodup := by
            show (objectAt d₁.sectors b).contents.Nodup
            rw [hcontents]
            exact List.nodup_nil }
      rw [hsame] at hheap
      have hnext : d₁.counted.kmallocCount = d.kmallocCount + 1 := congrArg (· + 1) hsame
      simp only [Code.wp_bind]
      refine (hexafsObjectWriteData_heapFree b _).wp ?_
      refine hexafsObjectWriteData_spec hsafe hgrown.hint hdata (fun _ _ hbad => absurd hok hbad)
        (fun a₂ d₂ hwritten hkept => ?_) fun fresh a₂ d₂ hwritten hkept => ?_
      · rw [if_neg Bool.false_ne_true, Code.wp_bind]
        have hnil : (objectAt d₁.counted.sectors b).contents = [] := hcontents
        rw [hnil] at hwritten
        obtain ⟨blocks, hgrown₂⟩ := hwritten.grown
        have hboth := hgrown.trans hgrown₂
        have hfull := hwritten.full hok
        have hcount₂ := hboth.freeCount_add
        rw [List.length_append, List.length_singleton] at hcount₂
        refine hexafsFreeBlock_spec hboth (List.mem_append_left _ (List.mem_singleton_self b))
          fun a₃ hgrown₃ hout => ?_
        rw [List.singleton_append, List.erase_cons_head] at hgrown₃
        have hcount₃ := hgrown₃.freeCount_add
        rw [Code.wp_pure]
        have hneed := hfull.2.1
        have hzero₂ : a₂.freeCount = 0 := hfull.1
        rw [List.length_nil, hlen] at hneed
        have hless : a₁.freeCount < blocksFor (10 + min size 2038) := hneed
        refine hzero blocks a₃ d₂ hgrown₃ ?_ (fun _ => hkept.trans hnext) ?_ fun _ => ?_
        · exact hwrote.counted.trans (hwritten.wrote.mono fun c hc =>
            hc.elim (fun hc => absurd hc List.not_mem_nil) hgrown.fresh_of_fresh)
        · rw [if_pos hheap]
          omega
        · refine ⟨?_, hout.trans hfull.2.2⟩
          unfold formCost
          omega
      · have hnil : (objectAt d₁.counted.sectors b).contents = [] := hcontents
        have hhead : objectAt d₁.counted.sectors b =
            newObject hexafsForm mem.sbCache.timestamp := hobj
        rw [hnil] at hwritten
        obtain ⟨hgrown₂, hslots⟩ := hwritten.slotsStored (fun c hc => absurd hc List.not_mem_nil)
          List.nodup_nil
        rw [List.take_nil, List.nil_append] at hslots
        rw [PlainDisk.write_kmallocCount] at hkept
        rw [hnil, hhead, List.take_nil, List.nil_append, hok.returns, if_pos rfl, Code.wp_pure]
        have hfresh₂ : ∀ c ∈ fresh, mem.allocator.Fresh c := fun c hc =>
          hgrown.fresh_of_fresh (hgrown₂.fresh c hc)
        have hnot : b ∉ fresh := fun hb => hgrown.not_fresh (List.mem_singleton_self b)
          (hgrown₂.fresh b hb)
        have hheader := PlainDisk.write_reaches b (toBlock 512
          ((newObject hexafsForm mem.sbCache.timestamp).withContent (fresh ++ List.replicate
            (4 - blocksFor (formBuffer content size owner mode fill).length) 0)
              (formBuffer content size owner mode fill))) (hok.reaches d₂.writeCount)
        have hstored : fresh.map (d₂.write env b (toBlock 512
            ((newObject hexafsForm mem.sbCache.timestamp).withContent (fresh ++ List.replicate
              (4 - blocksFor (formBuffer content size owner mode fill).length) 0)
                (formBuffer content size owner mode fill)))).sectors = fresh.map d₂.sectors :=
          List.map_congr_left fun c hc => PlainDisk.write_sectors_of_ne fun heq => hnot (heq ▸ hc)
        have hread := readObject_withContent (newObject_ok hexafsForm mem.sbCache.timestamp).magic
          hdata hslots.length_eq (fun hz => (hfresh₂ 0 hz).1.ne_zero rfl)
          (hstored.trans hslots.stored) hheader.1
        have hused : (b :: fresh).length = formCost size := by
          rw [List.length_cons, hslots.length_eq, hlen, formCost, Nat.add_comm]
        have hwrote₂ := hwrote.counted.trans (hwritten.wrote.mono fun c hc =>
          hc.elim (fun hc => absurd hc List.not_mem_nil) hgrown.fresh_of_fresh)
        refine hsome b (b :: fresh) a₂ _ fill (hgrown.trans hgrown₂) hused (hwrote₂.write hfresh)
          hheap ((PlainDisk.write_kmallocCount ..).trans (hkept.trans hnext)) (hwritten.quiet.trans hquiet) ?_ hfill ?_
        · refine ⟨hread.1, ?_, ?_⟩
          · rw [hread.2.1]
            exact (hgrown.trans hgrown₂).nodup
          · rw [hread.2.1]
            intro c hc
            exact ⟨(hgrown.trans hgrown₂).fresh c hc, (hgrown.trans hgrown₂).used_of_mem hc⟩
        · rw [hread.2.2, hlen]
          rfl

/-- How far a save has come: entries in the new abstraction and free blocks. -/
structure SaveBudget where
  /-- The entries so far. -/
  entries : ℕ
  /-- The free blocks. -/
  free : ℕ

/-- What one form does to the budget. Without the blocks for it, its own block is
all that is given back; the twelfth entry takes one more block for the chain, and
after it nothing is added. -/
def SaveBudget.form (b : SaveBudget) (cost : ℕ) : SaveBudget :=
  if b.free < cost then { b with free := min b.free 1 }
  else if b.entries < 11 then ⟨b.entries + 1, b.free - cost⟩
  else if b.entries = 11 ∧ cost < b.free then ⟨12, b.free - cost - 1⟩
  else { b with free := b.free - cost }

/-- With at most one block left, nothing changes any more. -/
theorem foldl_form_of_free_le_one {entries free : ℕ} {costs : List ℕ} (hcosts : ∀ cost ∈ costs, 2 ≤ cost) (hfree : free ≤ 1) :
    costs.foldl SaveBudget.form ⟨entries, free⟩ = ⟨entries, free⟩ := by
  induction costs with
  | nil => rfl
  | cons cost costs ih =>
    have hcost := hcosts cost (List.mem_cons_self ..)
    have hstep : SaveBudget.form ⟨entries, free⟩ cost = ⟨entries, free⟩ := by
      rw [SaveBudget.form, if_pos (by dsimp only; omega)]
      simp only [SaveBudget.mk.injEq, true_and]
      omega
    rw [List.foldl_cons, hstep]
    exact ih fun other hother => hcosts other (List.mem_cons_of_mem _ hother)

/-- The blocks that the forms of a list take, one number for each. -/
def formCosts (forms : List FormEntry) : List ℕ := forms.map (formCost ·.size)

theorem two_le_of_mem_formCosts {forms : List FormEntry} : ∀ cost ∈ formCosts forms, 2 ≤ cost := by
  intro cost hcost
  obtain ⟨form, _, rfl⟩ := List.mem_map.mp hcost
  exact formCost_ge_two form.size

/-- The forms of a list that get a buffer from the heap, when each asks for one and the first
makes the k-th allocation. -/
def servedForms (env : Environment) : ℕ → List FormEntry → List FormEntry
  | _, [] => []
  | k, form :: forms =>
    if env.kmallocOk k then form :: servedForms env (k + 1) forms else servedForms env (k + 1) forms

theorem servedForms_of_kmallocOk (hkm : env.KmallocOk) (k : ℕ) (forms : List FormEntry) :
    servedForms env k forms = forms := by
  induction forms generalizing k with
  | nil => rfl
  | cons form forms ih => rw [servedForms, if_pos (hkm k), ih]

/-- The entry of a saved form, and the object that it names. -/
structure FormStored (sectors : UInt32 → Sector) (entry : HexafsAbsEntry) (form : FormEntry) :
    Prop where
  /-- The entry has the name and the type of a form. -/
  entry_for : EntryFor entry form.name entry.objectBlock hexafsForm
  /-- The object has the tags and the bytes of the form. -/
  object : ∃ fill, fill.length = min 2048 (10 + form.size) ∧
    readObject sectors entry.objectBlock = some ⟨true, hexafsForm,
      UInt32.ofNat (10 + min form.size 2038),
        formBuffer form.content form.size form.owner form.mode fill⟩

/-- An object reads the same when its blocks are unchanged. -/
theorem Heap.readObject_eq {sectors sectors' : UInt32 → Sector} {roles : UInt32 → Option Role}
    {a : Allocator} (h : Heap sectors roles a) {object head : UInt32} {i : ℕ}
    (hrole : roles object = some (.object head i)) (hblock : sectors' object = sectors object)
    (hsame : ∀ b j, roles b = some (.content object j) → sectors' b = sectors b) :
    readObject sectors' object = readObject sectors object := by
  refine readObject_congr hblock fun b hb => ?_
  obtain ⟨j, hj⟩ := h.mem_contents hrole hb
  exact hsame b j hj

/-- The state of hexafs_save_all between two forms: the new abstraction `n` lists
the forms saved so far, and only blocks that were free have been written. -/
structure FormsSaved (env : Environment) (n : UInt32) (a₀ : Allocator) (d₀ : PlainDisk)
    (roles₀ : UInt32 → Option Role) (saved : List FormEntry) (a : Allocator) (d : PlainDisk)
    (roles : UInt32 → Option Role) : Prop where
  /-- The heap is sound. -/
  heap : Heap d.sectors roles a
  /-- No block loses its role. -/
  extend : Extends roles₀ roles
  /-- The abstraction was free. -/
  fresh : a₀.Fresh n
  /-- What was taken was free. -/
  grown : ∃ blocks, Grown a₀ a blocks
  /-- Only fresh blocks are written. -/
  wrote : Wrote env a₀.Fresh d₀ d
  /-- The abstraction has its role. -/
  role : roles n = some .abstraction
  /-- The entries are those of the saved forms. -/
  entries : List.Forall₂ (FormStored d.sectors) (absEntries d.sectors n) saved
  /-- A chain block stands behind eleven forms. -/
  linked : (headerAt d.sectors n).nextChain = 0 ↔ saved.length ≤ 11
  /-- There are at most twelve. -/
  length_le : saved.length ≤ 12

/-- What one round of the loop did with a form. -/
structure FormStep (env : Environment) (form : FormEntry) (saved : List FormEntry)
    (a : Allocator) (k : ℕ) (saved' : List FormEntry) (a' : Allocator) (k' : ℕ) : Prop where
  /-- The form is left out, for want of blocks or of room, or it is saved. -/
  outcome : saved' = saved ∧ (env.KmallocOk → a'.outOfBlocks = false → saved.length = 12) ∨
    saved' = saved ++ [form] ∧ saved.length < 12
  /-- The entries and blocks count on. -/
  budget : (⟨saved'.length, a'.freeCount⟩ : SaveBudget) =
    if env.kmallocOk k then SaveBudget.form ⟨saved.length, a.freeCount⟩ (formCost form.size)
    else ⟨saved.length, a.freeCount⟩
  /-- With a free block for its object, the form asks the heap for its buffer. -/
  heap : 0 < a.freeCount → k' = k + 1
  /-- A disk that was full stays marked so. -/
  outOfBlocks : a.outOfBlocks = true → a'.outOfBlocks = true
  /-- A form that is saved does not fill the disk. -/
  quiet : saved' ≠ saved → a'.outOfBlocks = a.outOfBlocks

variable {n : UInt32} {a₀ : Allocator} {d₀ : PlainDisk} {roles₀ roles : UInt32 → Option Role}
  {saved : List FormEntry}

/-- Entry by entry, a relation that only looks at members. -/
theorem forall₂_imp_of_mem {α β : Type} {R S : α → β → Prop} {xs : List α} {ys : List β}
    (h : List.Forall₂ R xs ys) (himp : ∀ x ∈ xs, ∀ y, R x y → S x y) : List.Forall₂ S xs ys := by
  induction h with
  | nil => exact .nil
  | cons hhead _ ih =>
    exact .cons (himp _ List.mem_cons_self _ hhead)
      (ih fun x hx => himp x (List.mem_cons_of_mem _ hx))

/-- The entries of the saved forms survive every change outside objects and content. -/
theorem FormsSaved.entries_frame {a : Allocator} {sectors' : UInt32 → Sector}
    (h : FormsSaved env n a₀ d₀ roles₀ saved a d roles)
    (hsame : ∀ b role, roles b = some role → b ≠ n → sectors' b = d.sectors b) :
    List.Forall₂ (FormStored sectors') (absEntries d.sectors n) saved := by
  refine forall₂_imp_of_mem h.entries fun entry hmem form hstored => ?_
  obtain ⟨i, hi⟩ := List.mem_iff_getElem?.mp hmem
  have hobject := h.heap.entry h.role hi
  have hne : entry.objectBlock ≠ n := by
    intro heq
    rw [heq, h.role] at hobject
    cases hobject
  obtain ⟨fill, hfill, hread⟩ := hstored.object
  refine ⟨hstored.entry_for, fill, hfill, ?_⟩
  rw [← hread]
  refine h.heap.readObject_eq hobject (hsame _ _ hobject hne) fun b j hb => ?_
  refine hsame b _ hb fun heq => ?_
  rw [heq, h.role] at hb
  cases hb

/-- Allocations and writes outside the heap do not touch what was saved. -/
theorem FormsSaved.frame {a : Allocator} (h : FormsSaved env n a₀ d₀ roles₀ saved a d roles)
    {a' : Allocator} {d' : PlainDisk} {blocks : List UInt32} (hgrown : Grown a a' blocks)
    (hwrote : Wrote env a.Fresh d d') : FormsSaved env n a₀ d₀ roles₀ saved a' d' roles := by
  obtain ⟨first, hfirst⟩ := h.grown
  have hsame : ∀ b role, roles b = some role → d'.sectors b = d.sectors b := fun b role hb =>
    hwrote.sectors_eq (h.heap.not_fresh hb)
  have hhead : headerAt d'.sectors n = headerAt d.sectors n :=
    congrArg (ofBlock HexafsAbsHeader) (hsame n _ h.role)
  have hentries : absEntries d'.sectors n = absEntries d.sectors n :=
    absEntries_congr (hsame n _ h.role) fun hne => hsame _ _ (h.heap.chain h.role hne)
  exact
    { heap := h.heap.frame (fun b => hgrown.used_mono) hsame
      extend := h.extend
      fresh := h.fresh
      grown := ⟨_, hfirst.trans hgrown⟩
      wrote := h.wrote.trans (hwrote.mono fun b => hfirst.fresh_of_fresh)
      role := h.role
      entries := by
        rw [hentries]
        exact h.entries_frame fun b role hb _ => hsame b role hb
      linked := by
        rw [hhead]
        exact h.linked
      length_le := h.length_le }

/-- The count of the new abstraction tells how many forms are saved. -/
theorem FormsSaved.count_eq {a : Allocator} (h : FormsSaved env n a₀ d₀ roles₀ saved a d roles)
    (hzero : (headerAt d.sectors n).nextChain = 0) :
    (headerAt d.sectors n).entryCount.toNat = saved.length := by
  rw [← (h.heap.absSound h.role).length_unlinked hzero, h.entries.length_eq]

/-- One round of the loop of hexafs_save_all. -/
theorem saveForms_step (hok : env.WritesOk) (hstale : ∀ b, d₀.stale b = false)
    (h : FormsSaved env n a₀ d₀ roles₀ saved mem.allocator d roles) {left i : ℕ}
    {post : Unit → Memory → PlainDisk → Prop}
    (hnext : ∀ saved' a' d' roles', FormsSaved env n a₀ d₀ roles₀ saved' a' d' roles' →
      FormStep env (mem.formTable i) saved mem.allocator d.kmallocCount saved' a' d'.kmallocCount →
      (saveForms n left (i + 1)).wp (plainDevice env) { mem with allocator := a' } d' post) :
    (saveForms n (left + 1) i).wp (plainDevice env) mem d post := by
  obtain ⟨first, hfirst⟩ := h.grown
  have hlen := h.length_le
  simp only [saveForms, Code.wp_bind, Code.wp_memory]
  refine formFromFentry_spec hok hfirst.hint (mem.formTable i).size_le
    (fun blocks a₁ d₁ hgrown hwrote hasked hleft hshort => ?_)
    fun fb blocks a₁ d₁ fill hgrown hcost hwrote hheap hasked hquiet hobj hfill hread => ?_
  · rw [if_pos rfl]
    refine hnext saved a₁ d₁ roles (h.frame hgrown hwrote)
      ⟨.inl ⟨rfl, fun hkm hout => ?_⟩, ?_, hasked, hgrown.outOfBlocks, fun hne => absurd rfl hne⟩
    · rw [(hshort (hkm _)).2] at hout
      cases hout
    · rw [hleft]
      split
      · rename_i hheap
        rw [SaveBudget.form, if_pos (hshort hheap).1]
      · rfl
  · have hfresh := (hobj.fresh fb List.mem_cons_self).1
    have hmid := h.frame hgrown hwrote
    have hsound := hmid.heap.absSound hmid.role
    have hcount := hgrown.freeCount_add
    have hstale₁ := hmid.wrote.stale_le hok hstale
    have hblocks : Heap d₁.sectors roles mem.allocator :=
      h.heap.frame (fun _ => id) fun b role hb => hwrote.sectors_eq (h.heap.not_fresh hb)
    rw [if_neg hfresh.1.ne_zero]
    simp only [Code.wp_bind]
    refine (hexafsAbstractionAddEntry_heapFree n _ fb _).wp ?_
    refine hexafsAbstractionAddEntry_spec hok hblocks h.role hgrown hobj hstale₁
      (fun hlinked hkept => ?_) (fun hzero heleven hfree hkept => ?_)
      fun hzero blocks' a₂ d₂ roles₂ hadded hkept => ?_
    · have htwelve : saved.length = 12 := by
        have hgt := mt hmid.linked.mpr hlinked
        omega
      refine hnext saved a₁ d₁ roles hmid ⟨.inl ⟨rfl, fun _ _ => htwelve⟩, ?_, fun _ => hasked,
        hgrown.outOfBlocks, fun hne => absurd rfl hne⟩
      rw [if_pos hheap, SaveBudget.form, if_neg (by show ¬mem.allocator.freeCount < _; omega),
        if_neg (by show ¬saved.length < 11; omega), if_neg (by show ¬(saved.length = 11 ∧ _); omega)]
      simp only [SaveBudget.mk.injEq, true_and]
      omega
    · have hsaved := hmid.count_eq hzero
      have hfree' : a₁.freeCount = 0 := hfree
      refine hnext saved a₁.full d₁ roles (hmid.frame (Grown.full hgrown.hint) Wrote.refl)
        ⟨.inl ⟨rfl, fun _ hout => by cases hout⟩, ?_, fun _ => hasked, fun _ => rfl,
          fun hne => absurd rfl hne⟩
      rw [if_pos hheap, SaveBudget.form, if_neg (by show ¬mem.allocator.freeCount < _; omega),
        if_neg (by show ¬saved.length < 11; omega),
        if_neg (by show ¬(saved.length = 11 ∧ _ < mem.allocator.freeCount); omega)]
      simp only [SaveBudget.mk.injEq, true_and, Allocator.freeCount_full]
      omega
    · have hsaved := hmid.count_eq hzero
      have hle := hmid.linked.mp hzero
      obtain ⟨entry, hentry, hlist⟩ := hadded.entries
      obtain ⟨before, hbefore⟩ := hmid.grown
      have hcount₂ : a₂.freeCount + blocks'.length = a₁.freeCount := hadded.grown.freeCount_add
      have hsame : ∀ b role, roles b = some role → b ≠ n → d₂.sectors b = d₁.sectors b :=
        fun b role hb hne => hadded.wrote.sectors_eq fun hor =>
          hor.elim hne fun hf => hmid.heap.not_fresh hb hf
      have hobjSame : ∀ b ∈ fb :: (objectAt d₁.sectors fb).contents,
          d₂.sectors b = d₁.sectors b := by
        intro b hb
        refine hadded.wrote.sectors_eq fun hor => ?_
        rcases hor with rfl | hf
        · exact (hobj.fresh b hb).1.2 (h.heap.covered b _ h.role).2
        · exact hf.2 (hobj.fresh b hb).2
      have hstored : FormStored d₂.sectors entry (mem.formTable i) := by
        refine ⟨⟨hentry.name, rfl, hentry.type⟩, fill, hfill, ?_⟩
        rw [hentry.object, ← hread]
        exact readObject_congr (hobjSame fb List.mem_cons_self) fun b hb =>
          hobjSame b (List.mem_cons_of_mem _ hb)
      refine hnext (saved ++ [mem.formTable i]) a₂ d₂ roles₂
        { heap := hadded.heap
          extend := h.extend.trans hadded.extend
          fresh := h.fresh
          grown := ⟨_, hbefore.trans hadded.grown⟩
          wrote := hmid.wrote.trans (hadded.wrote.mono fun b hb => ?_)
          role := hadded.extend _ _ h.role
          entries := ?_
          linked := ?_
          length_le := ?_ } ⟨.inr ⟨rfl, by omega⟩, ?_, fun _ => hkept.trans hasked, fun hout =>
            hadded.grown.outOfBlocks (hgrown.outOfBlocks hout), fun _ =>
              hadded.quiet.trans hquiet⟩
      · rcases hb with rfl | hb
        · exact h.fresh
        · exact hbefore.fresh_of_fresh hb
      · rw [hlist]
        have hkept := hmid.entries_frame hsame
        exact List.rel_append hkept (.cons hstored .nil)
      · rw [hadded.linked, hsaved, List.length_append, List.length_singleton]
        omega
      · rw [List.length_append, List.length_singleton]
        omega
      · have hlength := hadded.length_eq
        rw [hsaved] at hlength
        rw [if_pos hheap, SaveBudget.form, if_neg (by show ¬mem.allocator.freeCount < _; omega),
          List.length_append, List.length_singleton]
        by_cases hroom : saved.length = 11
        · rw [if_pos hroom] at hlength
          rw [if_neg (by show ¬saved.length < 11; omega),
            if_pos (by show saved.length = 11 ∧ _ < mem.allocator.freeCount; omega)]
          simp only [SaveBudget.mk.injEq]
          omega
        · rw [if_neg hroom] at hlength
          rw [if_pos (by show saved.length < 11; omega)]
          simp only [SaveBudget.mk.injEq, true_and]
          omega

/-- What the loop of hexafs_save_all did with the forms of a list. -/
structure FormsDone (env : Environment) (forms saved : List FormEntry) (a : Allocator) (k : ℕ)
    (saved' : List FormEntry) (a' : Allocator) : Prop where
  /-- The saved forms keep their order. -/
  sublist : ∃ more, saved' = saved ++ more ∧ more.Sublist forms
  /-- The entries and blocks count on. -/
  budget : (⟨saved'.length, a'.freeCount⟩ : SaveBudget) =
    (formCosts (servedForms env k forms)).foldl SaveBudget.form ⟨saved.length, a.freeCount⟩
  /-- When nothing ran out, the first twelve forms are saved. -/
  complete : env.KmallocOk → a'.outOfBlocks = false →
    saved' = saved ++ forms.take (12 - saved.length)
  /-- A disk that was full stays marked so. -/
  outOfBlocks : a.outOfBlocks = true → a'.outOfBlocks = true
  /-- When every form is saved, nothing ran out. -/
  quiet : saved' = saved ++ forms → a'.outOfBlocks = a.outOfBlocks

/-- The budget after one form and after the rest. Without a free block none of the forms asks the
heap, and none changes the budget. -/
theorem FormsDone.budget_cons {form : FormEntry} {forms saved₁ saved₂ : List FormEntry}
    {a a₁ a₂ : Allocator} {k k₁ : ℕ} (hdone : FormsDone env forms saved₁ a₁ k₁ saved₂ a₂)
    (hstep : FormStep env form saved a k saved₁ a₁ k₁) :
    (⟨saved₂.length, a₂.freeCount⟩ : SaveBudget) =
      (formCosts (servedForms env k (form :: forms))).foldl SaveBudget.form
        ⟨saved.length, a.freeCount⟩ := by
  have hbudget := hstep.budget
  rcases Nat.eq_zero_or_pos a.freeCount with hzero | hpos
  · have hstay : SaveBudget.form ⟨saved.length, a.freeCount⟩ (formCost form.size) =
        ⟨saved.length, a.freeCount⟩ := by
      have htwo := formCost_ge_two form.size
      rw [SaveBudget.form, if_pos (by dsimp only; omega), hzero, Nat.zero_min]
    rw [hstay, ite_self] at hbudget
    rw [hdone.budget, hbudget, foldl_form_of_free_le_one two_le_of_mem_formCosts (by omega),
      foldl_form_of_free_le_one two_le_of_mem_formCosts (by omega)]
  · rw [hstep.heap hpos] at hdone
    rw [hdone.budget, hbudget, servedForms]
    split <;> rfl

/-- The loop of hexafs_save_all, by induction on the number of forms left. -/
theorem saveForms_spec (hok : env.WritesOk) (hstale : ∀ b, d₀.stale b = false) {left i : ℕ}
    (h : FormsSaved env n a₀ d₀ roles₀ saved mem.allocator d roles)
    {post : Unit → Memory → PlainDisk → Prop}
    (hpost : ∀ saved' a' d' roles', FormsSaved env n a₀ d₀ roles₀ saved' a' d' roles' →
      FormsDone env ((List.range' i left).map mem.formTable) saved mem.allocator d.kmallocCount
        saved' a' →
      post () { mem with allocator := a' } d') :
    (saveForms n left i).wp (plainDevice env) mem d post := by
  induction left generalizing i mem d roles saved with
  | zero =>
    rw [saveForms, Code.wp_pure]
    exact hpost saved mem.allocator d roles h ⟨⟨[], by simp, by simp⟩, rfl, fun _ _ => by simp, id,
      fun _ => rfl⟩
  | succ left ih =>
    refine saveForms_step hok hstale h fun saved₁ a₁ d₁ roles₁ h₁ hstep => ?_
    refine ih h₁ fun saved₂ a₂ d₂ roles₂ h₂ hdone => ?_
    rw [List.range'_succ, List.map_cons] at hpost
    refine hpost saved₂ a₂ d₂ roles₂ h₂ ⟨?_, ?_, fun hkm hout => ?_, fun hout =>
      hdone.outOfBlocks (hstep.outOfBlocks hout), fun hall => ?_⟩
    · obtain ⟨more, hmore, hsub⟩ := hdone.sublist
      rcases hstep.outcome with ⟨rfl, _⟩ | ⟨rfl, _⟩
      · exact ⟨more, hmore, hsub.cons _⟩
      · exact ⟨mem.formTable i :: more, by rw [hmore, List.append_assoc, List.singleton_append],
          hsub.cons_cons _⟩
    · exact hdone.budget_cons hstep
    · have hmid : a₁.outOfBlocks = false := by
        cases hb : a₁.outOfBlocks with
        | false => rfl
        | true =>
          have hbad := hdone.outOfBlocks hb
          rw [hout] at hbad
          cases hbad
      have hrest := hdone.complete hkm hout
      rcases hstep.outcome with ⟨rfl, hfull⟩ | ⟨rfl, hroom⟩
      · have htwelve := hfull hkm hmid
        rw [hrest, htwelve]
        rfl
      · have hleft : 12 - saved.length = (12 - (saved ++ [mem.formTable i]).length) + 1 := by
          rw [List.length_append, List.length_singleton]
          omega
        rw [hrest, hleft, List.take_succ_cons, List.append_assoc, List.singleton_append]
    · obtain ⟨more, hmore, hsub⟩ := hdone.sublist
      have hle : more.length ≤ ((List.range' (i + 1) left).map mem.formTable).length :=
        hsub.length_le
      have hlen := congrArg List.length (hmore.symm.trans hall)
      rw [List.length_append, List.length_append, List.length_cons] at hlen
      rcases hstep.outcome with ⟨rfl, _⟩ | ⟨rfl, _⟩
      · omega
      · refine (hdone.quiet ?_).trans (hstep.quiet ?_)
        · rw [hall, List.append_assoc, List.singleton_append]
        · simp

end HexaOS.Hexafs
