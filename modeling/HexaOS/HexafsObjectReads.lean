import HexaOS.HexafsCache
import HexaOS.HexafsObjects

/-!
# What a read of an object stores

The size in the header is copied to `*size` and bounds the content loop; what `*size` held
before is never looked at. So the bytes that a read stores are counted by the header, by the
blocks that it links and by the reads that succeed, and the capacity of the buffer is a
condition on the disk. The runs here are on the device with its cache, and any read may fail.
-/

namespace HexaOS.Hexafs

open DevicePrograms PackedBytes StoreTyping

/-- What a caller who gives a buffer of `capacity` bytes relies on. -/
def ObjectRead.Bounded (capacity : ℕ) (read : ObjectRead) : Prop :=
  read.bytes.length ≤ capacity ∧ (read.ok = true → read.size.toNat ≤ read.bytes.length)

/-- The content blocks that the loop comes to. -/
def HexafsObject.linked (obj : HexafsObject) : List UInt32 :=
  obj.contents.take (blocksFor obj.contentSize.toNat)

/-- How many of the blocks, read one after the other, can be read before one cannot. -/
def readable (env : Environment) : List UInt32 → Device → ℕ
  | [], _ => 0
  | block :: rest, dev =>
    match cacheRead env block dev with
    | (none, _) => 0
    | (some _, dev') => readable env rest dev' + 1

/-- The content that can be read fits the buffer, and unless a read fails the linked blocks
hold as many bytes as the header counts. -/
def HexafsObject.FitsBuffer (obj : HexafsObject) (capacity read : ℕ) : Prop :=
  min obj.contentSize.toNat (512 * read) ≤ capacity ∧
    (read = obj.linked.length → obj.contentSize.toNat ≤ 512 * obj.contents.length)

section Loop

variable {env : Environment} {mem : Memory} {dev : Device}

/-- A block read on the device with its cache, whatever it answers. -/
theorem wp_cacheRead {lba : UInt32} {post : Option Sector → Memory → Device → Prop}
    (h : post (cacheRead env lba dev).1 mem (cacheRead env lba dev).2) :
    (hexafsBlockRead lba).wp (cachedDevice env) mem dev post :=
  Code.wp_request rfl h

/-- The blocks that a loop over the slots with so many bytes to go comes to. -/
def visited (slots : List UInt32) (remaining : ℕ) : List UInt32 :=
  (slots.takeWhile (· ≠ 0)).take (blocksFor remaining)

/-- The loop ends at a zero slot or when no byte is left. -/
theorem visited_stop {slot : UInt32} {slots : List UInt32} {remaining : ℕ}
    (h : remaining = 0 ∨ slot = 0) : visited (slot :: slots) remaining = [] := by
  rcases h with h | h
  · rw [h]
    exact List.take_zero
  · rw [visited, List.takeWhile_cons_of_neg (by simp [h]), List.take_nil]

/-- The loop visits a slot and goes on. -/
theorem visited_cons {slot : UInt32} {slots : List UInt32} {remaining : ℕ}
    (h : ¬(remaining = 0 ∨ slot = 0)) :
    visited (slot :: slots) remaining =
      slot :: visited slots (remaining - min remaining 512) := by
  have hslot : slot ≠ 0 := fun heq => h (.inr heq)
  have hremaining : remaining ≠ 0 := fun heq => h (.inl heq)
  have hblocks : blocksFor remaining = blocksFor (remaining - min remaining 512) + 1 := by
    simp only [blocksFor]
    omega
  rw [visited, visited, List.takeWhile_cons_of_pos (by simpa using hslot), hblocks,
    List.take_succ_cons]

/-- What the content loop of hexafs_object_read_data stores, by the reads that succeed. -/
theorem readContent_readable {slots : List UInt32} {remaining : ℕ}
    {post : Bool × List UInt8 → Memory → Device → Prop}
    (h : ∀ ok bytes dev',
      bytes.length = min remaining (512 * readable env (visited slots remaining) dev) →
      (ok = true ↔ readable env (visited slots remaining) dev =
        (visited slots remaining).length) →
      post (ok, bytes) mem dev') :
    (readContent slots remaining).wp (cachedDevice env) mem dev post := by
  induction slots generalizing remaining dev post with
  | nil =>
    rw [readContent, Code.wp_pure]
    have hvisited : visited [] remaining = [] := List.take_nil
    rw [hvisited] at h
    refine h true [] dev ?_ ⟨fun _ => rfl, fun _ => rfl⟩
    exact (Nat.min_eq_right (Nat.zero_le _)).symm
  | cons slot slots ih =>
    rw [readContent]
    by_cases hstop : remaining = 0 ∨ slot = 0
    · rw [if_pos hstop, Code.wp_pure]
      rw [visited_stop hstop] at h
      refine h true [] dev ?_ ⟨fun _ => rfl, fun _ => rfl⟩
      exact (Nat.min_eq_right (Nat.zero_le _)).symm
    · rw [if_neg hstop, Code.wp_bind]
      rw [visited_cons hstop] at h
      simp only [readable] at h
      refine wp_cacheRead ?_
      cases hread : cacheRead env slot dev with
      | mk reply dev' =>
        rw [hread] at h
        cases reply with
        | none =>
          rw [Code.wp_pure]
          refine h false [] dev' (Nat.min_eq_right (Nat.zero_le _)).symm ⟨(by rintro ⟨⟩), fun heq => ?_⟩
          exact absurd heq.symm (Nat.succ_ne_zero _)
        | some buf =>
          simp only [Code.wp_bind]
          refine ih fun ok bytes dev'' hbytes hok => ?_
          rw [Code.wp_pure]
          refine h ok _ dev'' ?_ ?_
          · have hbuf := buf.length_bytes
            rw [List.length_append, List.length_take, hbuf, hbytes]
            dsimp only
            omega
          · rw [hok, List.length_cons]
            dsimp only
            omega

end Loop

section Reading

variable {env : Environment} {mem : Memory} {dev : Device} {block : UInt32} {capacity : ℕ}

/-- A loop with no block to visit stores nothing. -/
theorem linked_eq_nil {obj : HexafsObject}
    (h : ¬(obj.contentBlock ≠ 0 ∧ 0 < obj.contentSize.toNat)) : obj.linked = [] := by
  by_cases hblock : obj.contentBlock = 0
  · rw [HexafsObject.linked, HexafsObject.contents_eq_nil hblock, List.take_nil]
  · have hsize : obj.contentSize.toNat = 0 := by
      by_contra hne
      exact h ⟨hblock, Nat.pos_of_ne_zero hne⟩
    rw [HexafsObject.linked, hsize]
    exact List.take_zero

/-- The linked blocks hold the content when the blocks of the header do. -/
theorem size_le_linked (obj : HexafsObject) :
    obj.contentSize.toNat ≤ 512 * obj.linked.length ↔
      obj.contentSize.toNat ≤ 512 * obj.contents.length := by
  have hblocks := le_blocksFor obj.contentSize.toNat
  rw [HexafsObject.linked, List.length_take]
  omega

/-- The header that a read of an object gets, and what it stores. -/
structure ReadsHeader (env : Environment) (dev : Device) (block : UInt32) (buf : Sector)
    (dev' : Device) (read : ObjectRead) : Prop where
  /-- The header is read. -/
  header : cacheRead env block dev = (some buf, dev')
  /-- Its magic number is right. -/
  magic : objMagicOk (ofBlock HexafsObject buf) = true
  /-- The size is that of the header. -/
  size : read.size = (ofBlock HexafsObject buf).contentSize
  /-- The bytes are those of the blocks that are read. -/
  bytes : read.bytes.length = min (ofBlock HexafsObject buf).contentSize.toNat
    (512 * readable env (ofBlock HexafsObject buf).linked dev')
  /-- All is well when every block is read. -/
  ok : read.ok = true ↔ readable env (ofBlock HexafsObject buf).linked dev' =
    (ofBlock HexafsObject buf).linked.length

/-- What is stored is bounded exactly when the object fits. -/
theorem ReadsHeader.bounded_iff {buf : Sector} {dev' : Device} {read : ObjectRead}
    (h : ReadsHeader env dev block buf dev' read) :
    read.Bounded capacity ↔ (ofBlock HexafsObject buf).FitsBuffer capacity
      (readable env (ofBlock HexafsObject buf).linked dev') := by
  rw [ObjectRead.Bounded, HexafsObject.FitsBuffer, h.bytes, h.ok, h.size]
  refine and_congr Iff.rfl (imp_congr_right fun hread => ?_)
  rw [← size_le_linked, hread]
  exact le_min_iff.trans (and_iff_right (Nat.le_refl _))

/-- hexafs_object_read_data gets no header, or stores what the reads of its blocks allow. -/
theorem hexafsObjectReadData_readable (env : Environment) (mem : Memory) (dev : Device)
    (block : UInt32) :
    (hexafsObjectReadData block).wp (cachedDevice env) mem dev fun read _ _ =>
      (read = none ∧ ∀ buf dev', cacheRead env block dev = (some buf, dev') →
        objMagicOk (ofBlock HexafsObject buf) = false) ∨
      ∃ buf dev' result, read = some result ∧ ReadsHeader env dev block buf dev' result := by
  simp only [hexafsObjectReadData, Code.wp_bind]
  refine wp_cacheRead ?_
  cases hread : cacheRead env block dev with
  | mk reply dev' =>
    cases reply with
    | none =>
      rw [Code.wp_pure]
      exact .inl ⟨rfl, fun buf dev'' heq => nomatch (Prod.mk.inj heq).1⟩
    | some buf =>
      dsimp only
      split
      · rename_i hmagic
        split
        · rw [Code.wp_bind]
          refine readContent_readable fun ok bytes dev'' hbytes hok => ?_
          rw [Code.wp_pure]
          exact .inr ⟨buf, dev', _, rfl, hread, hmagic, rfl, hbytes, hok⟩
        · rename_i hempty
          have hlinked := linked_eq_nil hempty
          rw [Code.wp_pure]
          refine .inr ⟨buf, dev', _, rfl, hread, hmagic, rfl, ?_, ?_⟩
          · rw [hlinked]
            exact (Nat.min_eq_right (Nat.zero_le _)).symm
          · rw [hlinked]
            exact ⟨fun _ => rfl, fun _ => rfl⟩
      · rename_i hmagic
        rw [Code.wp_pure]
        refine .inl ⟨rfl, fun buf' dev'' heq => ?_⟩
        have hbuf := Option.some.inj (Prod.mk.inj heq).1
        rw [← hbuf]
        exact Bool.eq_false_of_not_eq_true hmagic

/-- On any disk, with any reads failing: hexafs_object_read_data stores at most as many bytes
as the buffer holds and reports, when it returns 1, no more than it stored exactly when the
content that can be read fits the buffer and, unless a read fails, the linked blocks hold as
many bytes as the header counts. -/
theorem hexafsObjectReadData_bounded_iff (env : Environment) (mem : Memory) (dev : Device)
    (block : UInt32) (capacity : ℕ) :
    ((hexafsObjectReadData block).wp (cachedDevice env) mem dev fun read _ _ =>
        ∀ result, read = some result → result.Bounded capacity) ↔
      ∀ buf dev', cacheRead env block dev = (some buf, dev') →
        objMagicOk (ofBlock HexafsObject buf) = true →
        (ofBlock HexafsObject buf).FitsBuffer capacity
          (readable env (ofBlock HexafsObject buf).linked dev') := by
  have hrun := hexafsObjectReadData_readable env mem dev block
  constructor
  · intro hpost buf dev' hread hmagic
    obtain ⟨read, mem', dev'', -, hbounded, hcase⟩ := Code.wp_and hpost hrun
    rcases hcase with ⟨-, hnone⟩ | ⟨buf', mid, result, hresult, hheader⟩
    · exact absurd hmagic (Bool.eq_false_iff.mp (hnone buf dev' hread))
    · have hpair := hread.symm.trans hheader.header
      have hbuf := Option.some.inj (Prod.mk.inj hpair).1
      have hmid := (Prod.mk.inj hpair).2
      rw [hbuf, hmid]
      exact hheader.bounded_iff.mp (hbounded result hresult)
  · intro hfits
    refine Code.wp_mono hrun fun read mem' dev' hcase result hresult => ?_
    rcases hcase with ⟨hnone, -⟩ | ⟨buf, mid, result', hresult', hheader⟩
    · exact nomatch hnone.symm.trans hresult
    · rw [← Option.some.inj (hresult'.symm.trans hresult)]
      exact hheader.bounded_iff.mpr (hfits buf mid hheader.header hheader.magic)

end Reading

instance (capacity : ℕ) (read : ObjectRead) : Decidable (read.Bounded capacity) :=
  inferInstanceAs (Decidable (_ ∧ _))

/-- A form of `size` bytes on a new store. -/
def formOfSize (size : ℕ) : HexafsM UInt32 := do
  let _ ← hexafsMount
  let block ← hexafsObjectAlloc hexafsForm
  let _ ← hexafsObjectWriteData block (List.replicate size 0)
  pure block

/-- A run that passes a test ends in a machine that does. -/
theorem exists_of_testRun {α : Type} {test : α → Machine → Bool}
    {run : Except Stop (α × Machine)} (h : testRun test run = true) :
    ∃ value machine, run = .ok (value, machine) ∧ test value machine = true := by
  cases run with
  | error stop => exact absurd h Bool.false_ne_true
  | ok result => exact ⟨result.1, result.2, rfl, h⟩

/-- Is the result of a read known not to be bounded? -/
def overrunsBuffer (capacity : ℕ) (block : UInt32) (machine : Machine) : Bool :=
  match machine.run .faultless (hexafsObjectReadData block) with
  | .ok (some result, _) => !decide (result.Bounded capacity)
  | _ => false

/-- Such a result is not what the caller relies on. -/
theorem not_bounded_of_overruns {capacity : ℕ} {block : UInt32} {machine : Machine}
    (h : overrunsBuffer capacity block machine = true) :
    ¬(hexafsObjectReadData block).wp (cachedDevice .faultless) machine.mem machine.dev
      fun read _ _ => ∀ result, read = some result → result.Bounded capacity := by
  rintro ⟨read, mem, dev, hrun, hbounded⟩
  rw [overrunsBuffer, Machine.run, hrun] at h
  cases read with
  | none => exact Bool.false_ne_true h
  | some result =>
    dsimp only at h
    rw [decide_eq_true (hbounded result rfl)] at h
    exact Bool.false_ne_true h

/-- A form of 512 bytes is read into the 128 bytes of hexafs_cap_check, and a form of 2049
bytes is reported longer than the 2048 bytes that are stored. -/
theorem hexafsObjectReadData_overruns : ∃ block machine block' machine',
    (Machine.boot blankDisk).run .faultless (formOfSize 512) = .ok (block, machine) ∧
      (Machine.boot blankDisk).run .faultless (formOfSize 2049) = .ok (block', machine') ∧
        (¬(hexafsObjectReadData block).wp (cachedDevice .faultless) machine.mem machine.dev
          fun read _ _ => ∀ result, read = some result → result.Bounded 128) ∧
        ¬(hexafsObjectReadData block').wp (cachedDevice .faultless) machine'.mem machine'.dev
          fun read _ _ => ∀ result, read = some result → result.Bounded 4096 := by
  have hshort : testRun (overrunsBuffer 128)
      ((Machine.boot blankDisk).run .faultless (formOfSize 512)) = true := by decide +kernel
  have hlong : testRun (overrunsBuffer 4096)
      ((Machine.boot blankDisk).run .faultless (formOfSize 2049)) = true := by decide +kernel
  obtain ⟨block, machine, hrun, hover⟩ := exists_of_testRun hshort
  obtain ⟨block', machine', hrun', hover'⟩ := exists_of_testRun hlong
  exact ⟨block, machine, block', machine', hrun, hrun', not_bounded_of_overruns hover,
    not_bounded_of_overruns hover'⟩

end HexaOS.Hexafs
