import HexaOS.HexafsMount

/-!
# Entries for new objects

hexafs_abstraction_add_entry on an abstraction of the heap, when every write
succeeds. It fails when a chain is linked already, or when the twelfth entry
finds no free block for its chain block, and then only the log notices. Otherwise
the abstraction is one entry longer and the heap owns the object.
-/

namespace HexaOS.Hexafs

open DevicePrograms PackedBytes StoreTyping

/-- An entry that names an object. -/
structure EntryFor (entry : HexafsAbsEntry) (name : CString) (object : UInt32) (type : UInt8) :
    Prop where
  /-- The name is copied over an old one. -/
  name : ∃ old, entry.name = copyName old name
  /-- The entry leads to the object. -/
  object : entry.objectBlock = object
  /-- The type is kept. -/
  type : entry.type = type

theorem entryFor_entryOver (old : HexafsAbsEntry) (name : CString) (object : UInt32)
    (type : UInt8) : EntryFor (entryOver old name object type) name object type :=
  ⟨⟨old.name, rfl⟩, rfl, rfl⟩

/-- An entry is found under the name it was stored with. -/
theorem EntryFor.nameMatches_iff {entry : HexafsAbsEntry} {stored name : CString}
    {object : UInt32} {type : UInt8} (h : EntryFor entry stored object type)
    (hname : name.chars.length < 32) :
    nameMatches entry.name name = true ↔ stored.truncate = name := by
  obtain ⟨old, hold⟩ := h.name
  rw [hold]
  exact nameMatches_copyName old stored hname

/-- The first block of an abstraction holds its first eleven entries. -/
theorem AbsSound.live_eq {sectors : UInt32 → Sector} {block : UInt32} (h : AbsSound sectors block) :
    (headerAt sectors block).live = (absEntries sectors block).take 11 := by
  have hlen := HexafsAbsHeader.length_live h.head
  have hle := h.head.count_le
  rw [absEntries]
  by_cases hzero : (headerAt sectors block).nextChain = 0
  · rw [if_pos hzero, List.append_nil, List.take_of_length_le (by omega)]
  · have heleven := (h.linked hzero).1
    rw [if_neg hzero, List.take_append_of_le_length (by omega), List.take_of_length_le (by omega)]

/-- Without a chain the count is the number of entries. -/
theorem AbsSound.length_unlinked {sectors : UInt32 → Sector} {block : UInt32}
    (h : AbsSound sectors block) (hzero : (headerAt sectors block).nextChain = 0) :
    (absEntries sectors block).length = (headerAt sectors block).entryCount.toNat := by
  rw [length_absEntries h, if_pos hzero, Nat.add_zero]

/-- With a chain the first block is full. -/
theorem AbsSound.length_linked {sectors : UInt32 → Sector} {block : UInt32}
    (h : AbsSound sectors block) (hlinked : (headerAt sectors block).nextChain ≠ 0) :
    11 ≤ (absEntries sectors block).length := by
  have heleven := (h.linked hlinked).1
  rw [length_absEntries h]
  omega

/-- A new object on a medium that agrees on its blocks. -/
theorem NewObject.congr {sectors sectors' : UInt32 → Sector} {a a' a'' : Allocator}
    {object : UInt32} (h : NewObject sectors a a' object) (hused : ∀ b, a'.Used b → a''.Used b)
    (hsame : ∀ b ∈ object :: (objectAt sectors object).contents, sectors' b = sectors b) :
    NewObject sectors' a a'' object ∧
      (objectAt sectors' object).contents = (objectAt sectors object).contents := by
  have hobj : objectAt sectors' object = objectAt sectors object :=
    congrArg (ofBlock HexafsObject) (hsame object List.mem_cons_self)
  refine ⟨⟨?_, ?_, ?_⟩, by rw [hobj]⟩
  · rw [hobj]
    exact h.ok
  · rw [hobj]
    exact h.nodup
  · rw [hobj]
    exact fun b hb => ⟨(h.fresh b hb).1, hused b (h.fresh b hb).2⟩

/-- Adding an entry for a new object made an abstraction one entry longer. -/
structure EntryAdded (env : Environment) (a : Allocator) (d : PlainDisk)
    (roles : UInt32 → Option Role) (block : UInt32) (name : CString) (object : UInt32)
    (type : UInt8) (blocks : List UInt32) (a' : Allocator) (d' : PlainDisk)
    (roles' : UInt32 → Option Role) : Prop where
  /-- The heap is sound. -/
  heap : Heap d'.sectors roles' a'
  /-- No block loses its role. -/
  extend : Extends roles roles'
  /-- What was taken was free. -/
  grown : Grown a a' blocks
  /-- The disk was not full. -/
  quiet : a'.outOfBlocks = a.outOfBlocks
  /-- A chain block is taken behind the eleventh entry. -/
  length_eq : blocks.length = if (headerAt d.sectors block).entryCount.toNat = 11 then 1 else 0
  /-- Only the abstraction and fresh blocks are written. -/
  wrote : Wrote env (fun b => b = block ∨ a.Fresh b) d d'
  /-- The new entry stands behind the others. -/
  entries : ∃ entry, EntryFor entry name object type ∧
    absEntries d'.sectors block = absEntries d.sectors block ++ [entry]
  /-- The chain block is linked behind the eleventh entry. -/
  linked : (headerAt d'.sectors block).nextChain = 0 ↔
    (headerAt d.sectors block).entryCount.toNat ≠ 11

variable {env : Environment} {mem : Memory} {d : PlainDisk} {roles : UInt32 → Option Role}
  {a : Allocator} {block object : UInt32} {name : CString} {type : UInt8}

/-- The twelfth entry: the disk with the linked chain block. -/
theorem linkChain_entries (name : CString) (object : UInt32) (type : UInt8) (hok : env.WritesOk)
    {chain : UInt32} (hne : block ≠ chain)
    (hnext : (headerAt d.sectors block).nextChain = 0) (hchain : chain ≠ 0) :
    (linkChain env block chain (headerAt d.sectors block) name object type d).sectors block =
        toBlock 512 ((headerAt d.sectors block).withChain chain) ∧
      (linkChain env block chain (headerAt d.sectors block) name object type d).sectors chain =
        toBlock 512 (newAbstraction.putEntry 0 name object type) ∧
      absEntries (linkChain env block chain (headerAt d.sectors block) name object type d).sectors
          block =
        absEntries d.sectors block ++ [entryOver newAbstraction.entries[0] name object type] := by
  have hblock : (linkChain env block chain (headerAt d.sectors block) name object type d).sectors
      block = toBlock 512 ((headerAt d.sectors block).withChain chain) := by
    rw [linkChain, PlainDisk.write_sectors_of_ne hne,
      (PlainDisk.write_reaches _ _ (hok.reaches _)).1]
  have hlast : (linkChain env block chain (headerAt d.sectors block) name object type d).sectors
      chain = toBlock 512 (newAbstraction.putEntry 0 name object type) := by
    rw [linkChain, (PlainDisk.write_reaches _ _ (hok.reaches _)).1]
  refine ⟨hblock, hlast, ?_⟩
  have hhead : headerAt (linkChain env block chain (headerAt d.sectors block) name object type
      d).sectors block = (headerAt d.sectors block).withChain chain := by
    rw [headerAt, hblock, ofBlock_toBlock]
  have htail : headerAt (linkChain env block chain (headerAt d.sectors block) name object type
      d).sectors chain = newAbstraction.putEntry 0 name object type := by
    rw [headerAt, hlast, ofBlock_toBlock]
  have hlive : (newAbstraction.putEntry 0 name object type).live =
      [entryOver newAbstraction.entries[0] name object type] := HexafsAbsHeader.live_putEntry 0 (by decide)
  rw [absEntries, absEntries, hhead, HexafsAbsHeader.withChain_nextChain, if_neg hchain, htail,
    hlive, if_pos hnext, List.append_nil]
  rfl

/-- hexafs_abstraction_add_entry for a new object, when every write succeeds. -/
theorem hexafsAbstractionAddEntry_spec (hok : env.WritesOk) (hheap : Heap d.sectors roles a)
    (hrole : roles block = some .abstraction) {blocks : List UInt32}
    (hgrown : Grown a mem.allocator blocks) (hobj : NewObject d.sectors a mem.allocator object)
    (hstale : ∀ b, d.stale b = false) {post : Bool → Memory → PlainDisk → Prop}
    (hlinked : (headerAt d.sectors block).nextChain ≠ 0 → post false mem d)
    (hfull : (headerAt d.sectors block).nextChain = 0 →
      (headerAt d.sectors block).entryCount.toNat = 11 → mem.allocator.freeCount = 0 →
      post false mem.diskFull d)
    (hadded : (headerAt d.sectors block).nextChain = 0 → ∀ blocks' a' d' roles',
      EntryAdded env mem.allocator d roles block name object type blocks' a' d' roles' →
      post true { mem with allocator := a' } d') :
    (hexafsAbstractionAddEntry block name object type).wp (plainDevice env) mem d post := by
  have hsound := hheap.absSound hrole
  have hvalid := hheap.valid hrole
  have hused := (hheap.covered block _ hrole).2
  have hold : ∀ b ∈ object :: (objectAt d.sectors object).contents, b ≠ block := by
    intro b hb heq
    exact (hobj.fresh b hb).1.2 (heq ▸ hused)
  by_cases hnext : (headerAt d.sectors block).nextChain = 0
  · by_cases hcount : (headerAt d.sectors block).entryCount.toNat = 11
    · refine hexafsAbstractionAddEntry_full hvalid (hstale _) (hgrown.used_mono hused) hgrown.hint
        hsound hnext hcount (hfull hnext hcount) (fun _ _ _ _ hbad => absurd hok hbad)
        fun c a' hgrown' hquiet _ => ?_
      rw [hok.returns]
      have hfresh := hgrown'.fresh c (List.mem_singleton_self c)
      have hcb : block ≠ c := by
        rintro rfl
        exact hfresh.2 (hgrown.used_mono hused)
      have hco : c ∉ object :: (objectAt d.sectors object).contents := fun hc =>
        hfresh.2 (hobj.fresh c hc).2
      obtain ⟨hblock, hchain, hentries⟩ :=
        linkChain_entries name object type hok hcb hnext hfresh.1.ne_zero
      have hwrote : Wrote env (fun b => b = block ∨ b = c) d
          (linkChain env block c (headerAt d.sectors block) name object type d) :=
        (((Wrote.refl.write (.inr rfl)).write (.inr rfl)).write (.inl rfl)).write (.inr rfl)
      generalize linkChain env block c (headerAt d.sectors block) name object type d = d' at *
      have hsame : ∀ b, b ≠ block → b ≠ c → d'.sectors b = d.sectors b := fun b hb hbc =>
        hwrote.sectors_eq fun h => h.elim hb hbc
      have hobjSame : ∀ b ∈ object :: (objectAt d.sectors object).contents,
          d'.sectors b = d.sectors b := fun b hb =>
        hsame b (hold b hb) fun heq => hco (heq ▸ hb)
      obtain ⟨hobj', hcontents⟩ := hobj.congr (fun b => hgrown'.used_mono) hobjSame
      have hall := hgrown.trans hgrown'
      have hheap' := hheap.addChain hrole hcount hobj' (fun b => hall.used_mono)
        ⟨hgrown.fresh_of_fresh hfresh, hgrown'.used_of_mem (List.mem_singleton_self c)⟩
        (by rw [hcontents]; exact hco) (fun b role hb hne => hsame b hne fun heq => by
          rw [heq] at hb
          exact hfresh.2 (hgrown.used_mono (hheap.covered c _ hb).2)) hblock hchain hnext
      refine hadded hnext [c] a' d' _ ⟨hheap', ?_, hgrown', hquiet, ?_, ?_, ⟨_, ?_, hentries⟩, ?_⟩
      · refine hheap.extends_assign fun entry hentry => ?_
        rcases List.mem_cons.mp hentry with rfl | hentry
        · exact fun hu => hfresh.2 (hgrown.used_mono hu)
        · exact (hobj'.mem_objectRoles hentry).1.2
      · rw [if_pos hcount, List.length_singleton]
      · refine hwrote.mono fun b hb => ?_
        rcases hb with rfl | rfl
        · exact .inl rfl
        · exact .inr hfresh
      · exact entryFor_entryOver _ _ _ _
      · have hhead : headerAt d'.sectors block = (headerAt d.sectors block).withChain c := by
          rw [headerAt, hblock, ofBlock_toBlock]
        rw [hhead, HexafsAbsHeader.withChain_nextChain, hcount]
        exact ⟨fun h => absurd h hfresh.1.ne_zero, fun h => absurd rfl h⟩
    · have hroom := HexafsAbsHeader.count_lt_of_ne hsound.head hcount
      refine hexafsAbstractionAddEntry_put hvalid (hstale _) hsound hroom ?_
      rw [hok.returns]
      have hblock := (PlainDisk.write_reaches block (toBlock 512
        ((headerAt d.sectors block).putEntry ⟨_, hroom⟩ name object type))
          (hok.reaches d.writeCount)).1
      have hwrote : Wrote env (· = block) d (d.write env block (toBlock 512
          ((headerAt d.sectors block).putEntry ⟨_, hroom⟩ name object type))) :=
        PlainDisk.wrote_write
      generalize d.write env block (toBlock 512
        ((headerAt d.sectors block).putEntry ⟨_, hroom⟩ name object type)) = d' at *
      have hsame : ∀ b, b ≠ block → d'.sectors b = d.sectors b := fun b hb =>
        hwrote.sectors_eq hb
      obtain ⟨hobj', _⟩ := hobj.congr (fun b hb => hb) fun b hb => hsame b (hold b hb)
      have hheap' := hheap.addEntry hrole hroom hobj' (fun b => hgrown.used_mono)
        (fun b role hb hne => hsame b hne) hblock
      have hhead : headerAt d'.sectors block =
          (headerAt d.sectors block).putEntry ⟨_, hroom⟩ name object type := by
        rw [headerAt, hblock, ofBlock_toBlock]
      refine hadded hnext [] mem.allocator d' _ ⟨hheap', ?_, Grown.refl hgrown.hint, rfl, ?_, ?_,
        ⟨_, entryFor_entryOver (headerAt d.sectors block).entries[
          (headerAt d.sectors block).entryCount.toNat] name object type, ?_⟩, ?_⟩
      · exact hheap.extends_assign fun entry hentry => (hobj'.mem_objectRoles hentry).1.2
      · rw [if_neg hcount, List.length_nil]
      · exact hwrote.mono fun b hb => .inl hb
      · rw [absEntries, absEntries, hhead, HexafsAbsHeader.putEntry_nextChain, if_pos hnext,
          if_pos hnext, List.append_nil, List.append_nil, HexafsAbsHeader.live_putEntry _ (Fin.isLt _)]
        rfl
      · rw [hhead, HexafsAbsHeader.putEntry_nextChain]
        exact ⟨fun _ => hcount, fun _ => hnext⟩
  · exact hexafsAbstractionAddEntry_linked hvalid (hstale _) hsound hnext (hlinked hnext)

end HexaOS.Hexafs
