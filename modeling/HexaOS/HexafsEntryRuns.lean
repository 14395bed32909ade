import Mathlib.Data.List.Find
import Mathlib.Data.List.InsertIdx
import HexaOS.HexafsRuns

/-!
# Runs of additions and removals on one abstraction

An abstraction is meant to be a list of bindings from names to objects. Every call
of hexafs_abstraction_add_entry and hexafs_abstraction_remove_entry does what the
list says until the twelfth binding links a chain block. Linking stores an address
inside the checksummed area and leaves the checksum as it was, so from then on both
calls give up at the first block, while hexafs_abstraction_find and
hexafs_abstraction_list, which never look at the checksum, still answer.
-/

namespace HexaOS.Hexafs

open DevicePrograms PackedBytes

/-! ## Bindings -/

/-- A name with the object and the type it stands for. -/
structure Binding where
  /-- The name. -/
  name : CString
  /-- The block of the object. -/
  object : UInt32
  /-- The type. -/
  type : UInt8
  deriving DecidableEq

/-- What an entry tells the callback of hexafs_abstraction_list. -/
def HexafsAbsEntry.binding (entry : HexafsAbsEntry) : Binding :=
  ⟨CString.ofBytes entry.name.toList, entry.objectBlock, entry.type⟩

/-- A field that hexafs_abstraction_add_entry filled with a name of at most 31 characters. -/
def HexafsAbsEntry.Named (entry : HexafsAbsEntry) : Prop :=
  ∃ (old : Vector UInt8 32) (name : CString), entry.name = copyName old name ∧
    name.chars.length ≤ 31

/-- The name of a filled field is the name that was stored. -/
theorem CString.ofBytes_copyName_toList (old : Vector UInt8 32) {name : CString}
    (h : name.chars.length ≤ 31) : CString.ofBytes (copyName old name).toList = name := by
  have hsplit := List.take_append_drop ((name.chars.take 31).length + 1) (copyName old name).toList
  rw [copyName_take, List.take_of_length_le h, List.append_assoc, List.singleton_append] at hsplit
  rw [← hsplit, CString.ofBytes_append_zero]

/-- The entry that stores a binding tells that binding. -/
theorem binding_entryOver (old : HexafsAbsEntry) {b : Binding} (h : b.name.chars.length ≤ 31) :
    (entryOver old b.name b.object b.type).binding = b := by
  unfold HexafsAbsEntry.binding entryOver
  rw [CString.ofBytes_copyName_toList old.name h]

/-- A name of 32 characters or more matches no filled field, since the field ends before. -/
theorem nameMatches_copyName_long (old : Vector UInt8 32) (stored : CString) {name : CString}
    (h : 32 ≤ name.chars.length) : nameMatches (copyName old stored) name = false := by
  rw [Bool.eq_false_iff]
  intro hmatches
  rw [nameMatches, List.all_eq_true] at hmatches
  have hend : min 31 stored.chars.length < 32 := by omega
  have hthis := hmatches ⟨min 31 stored.chars.length, hend⟩ (List.mem_finRange _)
  simp only [Bool.or_eq_true, decide_eq_true_eq, beq_iff_eq] at hthis
  rcases hthis with hlong | hbyte
  · omega
  · have hzero : (copyName old stored)[min 31 stored.chars.length] = 0 := by
      unfold copyName
      simp only [Vector.getElem_ofFn, lt_irrefl, if_false, if_true]
    have hchar : name.byte (min 31 stored.chars.length) ∈ name.chars := by
      rw [CString.byte, List.getD_eq_getElem _ _ (by omega)]
      exact List.getElem_mem _
    have heq : name.byte (min 31 stored.chars.length) = 0 := by
      rw [← hzero]
      exact hbyte.symm
    exact name.nonzero (heq ▸ hchar)

/-- The comparison of hexafs_abstraction_find decides whether the names are equal. -/
theorem HexafsAbsEntry.Named.matches_eq {entry : HexafsAbsEntry} (h : entry.Named)
    (name : CString) : nameMatches entry.name name = (entry.binding.name == name) := by
  have ⟨old, stored, hentry, hshort⟩ := h
  have hname : entry.binding.name = stored := by
    unfold HexafsAbsEntry.binding
    rw [hentry, CString.ofBytes_copyName_toList old hshort]
  rw [hname, hentry]
  by_cases hlength : name.chars.length < 32
  · rw [Bool.eq_iff_iff, nameMatches_copyName old stored hlength, beq_iff_eq,
      CString.truncate_of_le hshort]
  · have hne : stored ≠ name := by
      intro heq
      rw [heq] at hshort
      omega
    rw [nameMatches_copyName_long old stored (by omega)]
    exact (beq_eq_false_iff_ne.mpr hne).symm

/-! ## Taking an entry out -/

/-- The position that hexafs_abstraction_remove_entry finds. -/
theorem scanPosition_eq (wanted : HexafsAbsEntry → Bool) {count : ℕ}
    {entries : List HexafsAbsEntry} (h : count ≤ entries.length) :
    scanPosition wanted count entries = .ok ((entries.take count).findIdx? wanted) := by
  induction entries generalizing count with
  | nil =>
    rw [List.length_nil, Nat.le_zero] at h
    rw [h]
    rfl
  | cons entry rest ih =>
    cases count with
    | zero => rfl
    | succ count =>
      have hcount : count ≤ rest.length := by
        rw [List.length_cons] at h
        omega
      rw [scanPosition, List.take_succ_cons, List.findIdx?_cons, ih hcount]
      split
      · rfl
      · rfl

section Remove

variable {hdr : HexafsAbsHeader} {found : ℕ}

theorem HexafsAbsHeader.removeEntry_checksumOk : (hdr.removeEntry found).ChecksumOk := by
  unfold removeEntry ChecksumOk
  dsimp only
  exact absChecksum_checksum _ _ _ _ _ _

@[simp] theorem HexafsAbsHeader.removeEntry_magic : (hdr.removeEntry found).magic = hdr.magic := rfl

@[simp] theorem HexafsAbsHeader.removeEntry_nextChain :
    (hdr.removeEntry found).nextChain = hdr.nextChain := rfl

theorem HexafsAbsHeader.removeEntry_entryCount (hpos : 0 < hdr.entryCount.toNat) :
    (hdr.removeEntry found).entryCount.toNat = hdr.entryCount.toNat - 1 := by
  show (hdr.entryCount - 1).toNat = hdr.entryCount.toNat - 1
  have hone : (1 : UInt32) ≤ hdr.entryCount := by
    rw [UInt32.le_iff_toNat_le]
    exact hpos
  rw [UInt32.toNat_sub_of_le _ _ hone]
  rfl

/-- The live entries lose the one at the position. -/
theorem HexafsAbsHeader.live_removeEntry (hok : hdr.Ok) (hfound : found < hdr.entryCount.toNat) :
    (hdr.removeEntry found).live = hdr.live.eraseIdx found := by
  have hle := hok.count_le
  have hlive := HexafsAbsHeader.length_live hok
  have hcount : (hdr.removeEntry found).entryCount.toNat = hdr.entryCount.toNat - 1 :=
    removeEntry_entryCount (by omega)
  have hlength : (hdr.live.eraseIdx found).length = hdr.entryCount.toNat - 1 := by
    rw [List.length_eraseIdx_of_lt (by omega), hlive]
  apply List.ext_getElem
  · rw [live, List.length_take, Vector.length_toList, hcount, hlength]
    omega
  · intro i hi hi'
    have hlt : i < hdr.entryCount.toNat - 1 := by omega
    have hentry : (hdr.removeEntry found).live[i] =
        if found ≤ i then hdr.entries[i + 1] else hdr.entries[i] := by
      simp only [live, List.getElem_take, Vector.getElem_toList]
      have hget : (hdr.removeEntry found).entries[i] =
          if h : found ≤ i ∧ i + 1 < hdr.countInt ∧ i + 1 < 11 then hdr.entries[i + 1]
          else hdr.entries[i] := by
        simp only [removeEntry, Vector.getElem_ofFn]
        rfl
      have hcountInt := countInt_eq hok
      rw [hget]
      by_cases hge : found ≤ i
      · rw [dif_pos ⟨hge, by omega, by omega⟩, if_pos hge]
      · rw [dif_neg fun h => hge h.1, if_neg hge]
    rw [hentry]
    by_cases hge : found ≤ i
    · rw [if_pos hge, List.getElem_eraseIdx_of_ge hi' hge]
      simp only [live, List.getElem_take, Vector.getElem_toList]
    · rw [if_neg hge, List.getElem_eraseIdx_of_lt hi' (by omega)]
      simp only [live, List.getElem_take, Vector.getElem_toList]

end Remove

section Walk

variable {env : Environment} {mem : Memory} {d : PlainDisk} {block : UInt32} {name : CString}

/-- hexafs_abstraction_remove_entry on an abstraction with a chain: the checksum of its first
block is wrong, so nothing is removed. -/
theorem hexafsAbstractionRemoveEntry_linked (hvalid : ValidLba block)
    (hstale : d.stale block = false) (hsound : AbsSound d.sectors block)
    (hlinked : (headerAt d.sectors block).nextChain ≠ 0)
    {post : Bool → Memory → PlainDisk → Prop} (hpost : post false mem d) :
    (hexafsAbstractionRemoveEntry block name).wp (plainDevice env) mem d post := by
  have hne : block ≠ 0 := by
    intro hzero
    rw [hzero] at hvalid
    exact absurd hvalid.1 (by decide)
  have hhdr : ofBlock HexafsAbsHeader (d.sectors block) = headerAt d.sectors block := rfl
  have hsum : absChecksum (headerAt d.sectors block) ≠ (headerAt d.sectors block).checksum :=
    (hsound.linked hlinked).2
  have ⟨fuel, hfuel⟩ := chainFuel_eq
  rw [hexafsAbstractionRemoveEntry, hfuel, removeLoop, if_neg hne, Code.wp_bind]
  refine wp_hexafsBlockRead hvalid hstale ?_
  dsimp only
  rw [hhdr, if_pos hsum, Code.wp_pure]
  exact hpost

/-- hexafs_abstraction_remove_entry on an abstraction without a chain. -/
theorem hexafsAbstractionRemoveEntry_unlinked (hvalid : ValidLba block)
    (hstale : d.stale block = false) (hsound : AbsSound d.sectors block)
    (hnext : (headerAt d.sectors block).nextChain = 0)
    {post : Bool → Memory → PlainDisk → Prop}
    (habsent : (headerAt d.sectors block).live.findIdx? (fun e => nameMatches e.name name) = none →
      post false mem d)
    (hfound : ∀ i, (headerAt d.sectors block).live.findIdx? (fun e => nameMatches e.name name) =
      some i → post (env.writeOutcome d.writeCount).returns mem
        (d.write env block (toBlock 512 ((headerAt d.sectors block).removeEntry i)))) :
    (hexafsAbstractionRemoveEntry block name).wp (plainDevice env) mem d post := by
  have hne : block ≠ 0 := by
    intro hzero
    rw [hzero] at hvalid
    exact absurd hvalid.1 (by decide)
  have hhdr : ofBlock HexafsAbsHeader (d.sectors block) = headerAt d.sectors block := rfl
  have hsum : absChecksum (headerAt d.sectors block) = (headerAt d.sectors block).checksum :=
    hsound.unlinked hnext
  have hcount := hsound.head.count_le
  have ⟨fuel, hfuel⟩ := chainFuel_eq
  rw [hexafsAbstractionRemoveEntry, hfuel, removeLoop, if_neg hne, Code.wp_bind]
  refine wp_hexafsBlockRead hvalid hstale ?_
  dsimp only
  rw [hhdr, if_neg (not_not.mpr hsum), if_neg (not_not.mpr hsound.head.magic), Code.wp_bind,
    HexafsAbsHeader.countInt_eq hsound.head,
    scanPosition_eq _ (by rw [Vector.length_toList]; exact hcount), liftStop, Code.wp_pure]
  rw [HexafsAbsHeader.live] at habsent hfound
  cases hscan : ((headerAt d.sectors block).entries.toList.take
      (headerAt d.sectors block).entryCount.toNat).findIdx? fun e => nameMatches e.name name with
  | none =>
    dsimp only
    rw [Code.wp_bind]
    refine hexafsAbstractionNextChain_spec hvalid hstale ?_
    rw [hnext, removeLoop, if_pos rfl, Code.wp_pure]
    exact habsent hscan
  | some i =>
    have hroom : ¬hexafsAbsMaxEntries < (headerAt d.sectors block).entryCount.toNat :=
      Nat.not_lt.mpr hcount
    dsimp only
    rw [if_neg hroom]
    exact wp_hexafsBlockWrite hvalid (hfound i hscan)

end Walk

/-! ## What the calls are meant to do -/

/-- A call on the abstraction. -/
inductive EntryCall where
  | add (b : Binding)
  | remove (name : CString)

/-- The call as the kernel makes it. -/
def EntryCall.code (block : UInt32) : EntryCall → HexafsM Bool
  | .add b => hexafsAbstractionAddEntry block b.name b.object b.type
  | .remove name => hexafsAbstractionRemoveEntry block name

/-- What the call should return when the abstraction holds these bindings. -/
def EntryCall.expected (held : List Binding) : EntryCall → Bool
  | .add _ => true
  | .remove name => held.any (·.name == name)

/-- The bindings that should be held behind the call. -/
def EntryCall.effect (held : List Binding) : EntryCall → List Binding
  | .add b => held ++ [b]
  | .remove name => held.eraseP (·.name == name)

/-- Names to be added have 1 to 31 characters and are not present. -/
def EntryCall.Proper (held : List Binding) : EntryCall → Prop
  | .add b =>
    1 ≤ b.name.chars.length ∧ b.name.chars.length ≤ 31 ∧ ∀ other ∈ held, other.name ≠ b.name
  | .remove _ => True

/-- Every call of a sequence is proper where it is made. -/
def AllProper : List Binding → List EntryCall → Prop
  | _, [] => True
  | held, call :: rest => call.Proper held ∧ AllProper (call.effect held) rest

/-- hexafs_abstraction_find and hexafs_abstraction_list tell exactly these bindings. -/
structure Answers (env : Environment) (block : UInt32) (held : List Binding) (machine : Machine) :
    Prop where
  /-- A name is found as in the list. -/
  find : ∀ name, ∃ found after, machine.run env (hexafsAbstractionFind block name) =
    .ok (found, after) ∧ found.map (·.binding) = held.find? (·.name == name)
  /-- The list is shown in order. -/
  list : ∃ entries after, machine.run env (hexafsAbstractionList block) = .ok (entries, after) ∧
    entries.map (·.binding) = held

/-- Every call of a sequence returns what it should, and in between the abstraction tells
what it should hold. -/
def Faithful (env : Environment) (block : UInt32) :
    List Binding → Machine → List EntryCall → Prop
  | held, machine, [] => Answers env block held machine
  | held, machine, call :: rest => Answers env block held machine ∧
    ∃ after, machine.run env (call.code block) = .ok (call.expected held, after) ∧
      Faithful env block (call.effect held) after rest

/-- A call that the checksum of the first block does not stop: no chain is linked yet, or
nothing is to be removed. -/
def EntryCall.Fits (held : List Binding) : EntryCall → Prop
  | .add _ => held.length ≤ 11
  | .remove name => held.length ≤ 11 ∨ ∀ b ∈ held, b.name ≠ name

/-- Every call of a sequence fits where it is made. -/
def AllFit : List Binding → List EntryCall → Prop
  | _, [] => True
  | held, call :: rest => call.Fits held ∧ AllFit (call.effect held) rest

/-- The abstraction holds the bindings, in blocks that can be read and extended. -/
structure AbsHolds (d : PlainDisk) (a : Allocator) (block : UInt32) (held : List Binding) :
    Prop where
  /-- The block is one of the disk. -/
  valid : ValidLba block
  /-- It is used. -/
  used : a.Used block
  /-- The hint is in range. -/
  hint : a.HintOk
  /-- No sector is stale. -/
  fresh : ∀ b, d.stale b = false
  /-- The abstraction is sound. -/
  sound : AbsSound d.sectors block
  /-- So is its chain block one of the disk. -/
  chain_valid : (headerAt d.sectors block).nextChain ≠ 0 →
    ValidLba (headerAt d.sectors block).nextChain
  /-- The entries are those of the list. -/
  entries : (absEntries d.sectors block).map (·.binding) = held
  /-- Their names are terminated. -/
  named : ∀ entry ∈ absEntries d.sectors block, entry.Named
  /-- A chain block holds entries. -/
  linked : (headerAt d.sectors block).nextChain ≠ 0 → 11 < held.length
  /-- There is room for a chain block. -/
  room : (headerAt d.sectors block).nextChain = 0 → 0 < a.freeCount

section Held

variable {env : Environment} {mem : Memory} {d : PlainDisk} {block : UInt32} {held : List Binding}

theorem AbsHolds.readable {a : Allocator} (h : AbsHolds d a block held) : AbsReadable d block :=
  ⟨h.valid, h.fresh block, h.chain_valid, fun _ => h.fresh _⟩

/-- The number of entries. -/
theorem AbsHolds.length_eq {a : Allocator} (h : AbsHolds d a block held) :
    (absEntries d.sectors block).length = held.length := by
  rw [← h.entries, List.length_map]

/-- A chain is linked exactly if there are more bindings than one block holds. -/
theorem AbsHolds.linked_iff {a : Allocator} (h : AbsHolds d a block held) :
    (headerAt d.sectors block).nextChain ≠ 0 ↔ 11 < held.length := by
  refine ⟨h.linked, fun hlong hnext => ?_⟩
  have hlength := h.sound.length_unlinked hnext
  have hcount := h.sound.head.count_le
  rw [h.length_eq] at hlength
  omega

/-- Without a chain the first block holds all entries. -/
theorem absEntries_unlinked {sectors : UInt32 → Sector}
    (hnext : (headerAt sectors block).nextChain = 0) :
    absEntries sectors block = (headerAt sectors block).live := by
  rw [absEntries, if_pos hnext, List.append_nil]

/-- What hexafs_abstraction_find finds. -/
theorem AbsHolds.find_eq {a : Allocator} (h : AbsHolds d a block held) (name : CString) :
    ((absEntries d.sectors block).find? fun e => nameMatches e.name name).map (·.binding) =
      held.find? (·.name == name) := by
  rw [← h.entries, List.find?_map]
  congr 1
  exact List.find?_congr fun entry hentry => (h.named entry hentry).matches_eq name

/-- Tests that agree on a list find the same position. -/
theorem findIdx?_congr {α : Type} {p q : α → Bool} {l : List α} (h : ∀ x ∈ l, p x = q x) :
    l.findIdx? p = l.findIdx? q := by
  induction l with
  | nil => rfl
  | cons x rest ih =>
    rw [List.findIdx?_cons, List.findIdx?_cons, h x List.mem_cons_self,
      ih fun y hy => h y (List.mem_cons_of_mem _ hy)]

/-- The position that hexafs_abstraction_remove_entry finds in the first block. -/
theorem AbsHolds.position_eq {a : Allocator} (h : AbsHolds d a block held) (name : CString)
    (hnext : (headerAt d.sectors block).nextChain = 0) :
    (headerAt d.sectors block).live.findIdx? (fun e => nameMatches e.name name) =
      held.findIdx? (·.name == name) := by
  rw [← h.entries, List.findIdx?_map, absEntries_unlinked hnext]
  refine findIdx?_congr fun entry hentry => ?_
  rw [← absEntries_unlinked hnext] at hentry
  exact (h.named entry hentry).matches_eq name

/-- A write that reaches the disk leaves no sector stale that was not. -/
theorem PlainDisk.write_fresh (hok : env.WritesOk) (hfresh : ∀ b, d.stale b = false) (lba : UInt32)
    (buf : Sector) : ∀ b, (d.write env lba buf).stale b = false := by
  intro b
  by_cases hb : b = lba
  · rw [hb, (PlainDisk.write_reaches lba buf (hok.reaches _)).2]
  · rw [PlainDisk.write_stale_of_ne hb, hfresh]

/-- An added binding in the first block. -/
theorem AbsHolds.put (h : AbsHolds d mem.allocator block held) (hok : env.WritesOk)
    (hnext : (headerAt d.sectors block).nextChain = 0) (count : Fin 11)
    (hcount : (headerAt d.sectors block).entryCount.toNat = count) {b : Binding}
    (hname : b.name.chars.length ≤ 31) :
    AbsHolds (d.write env block
      (toBlock 512 ((headerAt d.sectors block).putEntry count b.name b.object b.type)))
      mem.allocator block (held ++ [b]) := by
  have hsector := (PlainDisk.write_reaches (d := d) block
    (toBlock 512 ((headerAt d.sectors block).putEntry count b.name b.object b.type))
    (hok.reaches _)).1
  have hfresh := PlainDisk.write_fresh hok h.fresh block
    (toBlock 512 ((headerAt d.sectors block).putEntry count b.name b.object b.type))
  generalize d.write env block (toBlock 512 ((headerAt d.sectors block).putEntry count b.name
    b.object b.type)) = d' at hsector hfresh ⊢
  have hhead : headerAt d'.sectors block =
      (headerAt d.sectors block).putEntry count b.name b.object b.type := by
    rw [headerAt, hsector, ofBlock_toBlock]
  have hnext' : (headerAt d'.sectors block).nextChain = 0 := by
    rw [hhead, HexafsAbsHeader.putEntry_nextChain, hnext]
  have hlive : absEntries d'.sectors block = absEntries d.sectors block ++
      [entryOver (headerAt d.sectors block).entries[count] b.name b.object b.type] := by
    rw [absEntries_unlinked hnext', absEntries_unlinked hnext, hhead,
      HexafsAbsHeader.live_putEntry _ (Fin.isLt _), HexafsAbsHeader.live, hcount]
  have hlt := count.isLt
  have hnewCount : (headerAt d'.sectors block).entryCount.toNat = count + 1 := by
    rw [hhead, HexafsAbsHeader.putEntry_entryCount]
  refine ⟨h.valid, h.used, h.hint, hfresh, ⟨⟨?_, ?_⟩, fun _ => ?_, fun hne => ?_, fun hne => ?_⟩,
    fun hne => ?_, ?_, ?_, fun hne => ?_, fun _ => h.room hnext⟩
  · rw [hhead, HexafsAbsHeader.putEntry_magic]
    exact h.sound.head.magic
  · omega
  · rw [hhead]
    exact HexafsAbsHeader.putEntry_checksumOk
  · exact absurd hnext' hne
  · exact absurd hnext' hne
  · exact absurd hnext' hne
  · rw [hlive, List.map_append, h.entries, List.map_singleton, binding_entryOver _ hname]
  · intro entry hentry
    rw [hlive] at hentry
    rcases List.mem_append.mp hentry with hold | hnew
    · exact h.named entry hold
    · rw [List.mem_singleton.mp hnew]
      exact ⟨_, b.name, rfl, hname⟩
  · exact absurd hnext' hne

/-- A removed binding of the first block. -/
theorem AbsHolds.remove (h : AbsHolds d mem.allocator block held) (hok : env.WritesOk)
    (hnext : (headerAt d.sectors block).nextChain = 0) {name : CString} {i : ℕ}
    (hfound : held.findIdx? (·.name == name) = some i) :
    AbsHolds (d.write env block (toBlock 512 ((headerAt d.sectors block).removeEntry i)))
      mem.allocator block (held.eraseP (·.name == name)) := by
  have hsector := (PlainDisk.write_reaches (d := d) block
    (toBlock 512 ((headerAt d.sectors block).removeEntry i)) (hok.reaches _)).1
  have hfresh := PlainDisk.write_fresh hok h.fresh block
    (toBlock 512 ((headerAt d.sectors block).removeEntry i))
  generalize d.write env block (toBlock 512 ((headerAt d.sectors block).removeEntry i)) = d'
    at hsector hfresh ⊢
  have hhead : headerAt d'.sectors block = (headerAt d.sectors block).removeEntry i := by
    rw [headerAt, hsector, ofBlock_toBlock]
  have hnext' : (headerAt d'.sectors block).nextChain = 0 := by
    rw [hhead, HexafsAbsHeader.removeEntry_nextChain, hnext]
  have hlength := h.sound.length_unlinked hnext
  rw [h.length_eq] at hlength
  have hi : i < (headerAt d.sectors block).entryCount.toNat := by
    obtain ⟨hlt, _⟩ := List.findIdx?_eq_some_iff_getElem.mp hfound
    omega
  have hlive : absEntries d'.sectors block = (absEntries d.sectors block).eraseIdx i := by
    rw [absEntries_unlinked hnext', absEntries_unlinked hnext, hhead,
      HexafsAbsHeader.live_removeEntry h.sound.head hi]
  have hcount := h.sound.head.count_le
  refine ⟨h.valid, h.used, h.hint, hfresh, ⟨⟨?_, ?_⟩, fun _ => ?_, fun hne => ?_, fun hne => ?_⟩,
    fun hne => ?_, ?_, ?_, fun hne => ?_, fun _ => h.room hnext⟩
  · rw [hhead, HexafsAbsHeader.removeEntry_magic]
    exact h.sound.head.magic
  · rw [hhead, HexafsAbsHeader.removeEntry_entryCount (by omega)]
    omega
  · rw [hhead]
    exact HexafsAbsHeader.removeEntry_checksumOk
  · exact absurd hnext' hne
  · exact absurd hnext' hne
  · exact absurd hnext' hne
  · rw [hlive, List.eraseP_eq_eraseIdx, hfound, ← h.entries]
    exact (List.eraseIdx_map _ _ _).symm
  · intro entry hentry
    rw [hlive] at hentry
    exact h.named entry (List.mem_of_mem_eraseIdx hentry)
  · exact absurd hnext' hne

/-- The twelfth binding, behind a new chain block. -/
theorem AbsHolds.link (h : AbsHolds d mem.allocator block held) (hok : env.WritesOk)
    (hnext : (headerAt d.sectors block).nextChain = 0)
    (hfull : (headerAt d.sectors block).entryCount.toNat = 11) {chain : UInt32} {a' : Allocator}
    (hgrown : Grown mem.allocator a' [chain]) {b : Binding}
    (hname : b.name.chars.length ≤ 31) :
    AbsHolds (linkChain env block chain (headerAt d.sectors block) b.name b.object b.type d)
      a' block (held ++ [b]) := by
  have hchain := hgrown.fresh chain (List.mem_singleton_self chain)
  have hne : block ≠ chain := by
    intro heq
    rw [heq] at h
    exact hchain.2 h.used
  have ⟨hblock, hlast, hentries⟩ := linkChain_entries b.name b.object b.type hok hne hnext
    hchain.1.ne_zero
  have hfresh : ∀ other, (linkChain env block chain (headerAt d.sectors block) b.name b.object
      b.type d).stale other = false :=
    PlainDisk.write_fresh hok (PlainDisk.write_fresh hok (PlainDisk.write_fresh hok
      (PlainDisk.write_fresh hok h.fresh _ _) _ _) _ _) _ _
  generalize linkChain env block chain (headerAt d.sectors block) b.name b.object b.type d = d'
    at hblock hlast hentries hfresh ⊢
  have hhead : headerAt d'.sectors block = (headerAt d.sectors block).withChain chain := by
    rw [headerAt, hblock, ofBlock_toBlock]
  have hnext' : (headerAt d'.sectors block).nextChain = chain := by
    rw [hhead, HexafsAbsHeader.withChain_nextChain]
  have htail : headerAt d'.sectors chain =
      newAbstraction.putEntry 0 b.name b.object b.type := by
    rw [headerAt, hlast, ofBlock_toBlock]
  have hlinked : (headerAt d'.sectors block).nextChain ≠ 0 := by
    rw [hnext']
    exact hchain.1.ne_zero
  have hlength := h.sound.length_unlinked hnext
  rw [h.length_eq, hfull] at hlength
  refine ⟨h.valid, hgrown.used_mono h.used, hgrown.hint, hfresh,
    ⟨⟨?_, ?_⟩, fun hzero => absurd hzero hlinked, fun _ => ⟨?_, ?_⟩, fun _ => ⟨⟨?_, ?_⟩, ?_⟩⟩,
    fun _ => ?_, ?_, ?_, fun _ => ?_, fun hzero => absurd hzero hlinked⟩
  · rw [hhead, HexafsAbsHeader.withChain_magic]
    exact h.sound.head.magic
  · rw [hhead, HexafsAbsHeader.withChain_entryCount]
    omega
  · rw [hhead, HexafsAbsHeader.withChain_entryCount]
    exact hfull
  · rw [hhead]
    intro hsum
    unfold HexafsAbsHeader.ChecksumOk at hsum
    rw [HexafsAbsHeader.withChain_checksum, ← h.sound.unlinked hnext] at hsum
    exact absChecksum_withChain hnext hchain.1.ne_zero hsum
  · rw [hnext', htail, HexafsAbsHeader.putEntry_magic]
    rfl
  · rw [hnext', htail, HexafsAbsHeader.putEntry_entryCount]
    decide
  · rw [hnext', htail, HexafsAbsHeader.putEntry_nextChain, newAbstraction_nextChain]
  · rw [hnext']
    exact hchain.1.valid
  · rw [hentries, List.map_append, h.entries, List.map_singleton, binding_entryOver _ hname]
  · intro entry hentry
    rw [hentries] at hentry
    rcases List.mem_append.mp hentry with hold | hnew
    · exact h.named entry hold
    · rw [List.mem_singleton.mp hnew]
      exact ⟨_, b.name, rfl, hname⟩
  · rw [List.length_append, List.length_singleton]
    omega

/-- A call on an abstraction without a chain does what it should. -/
theorem EntryCall.unlinked_spec (h : AbsHolds d mem.allocator block held) (hok : env.WritesOk)
    (hshort : held.length ≤ 11) {call : EntryCall} (hproper : call.Proper held)
    {post : Bool → Memory → PlainDisk → Prop}
    (hpost : ∀ mem' d', AbsHolds d' mem'.allocator block (call.effect held) →
      post (call.expected held) mem' d') :
    (call.code block).wp (plainDevice env) mem d post := by
  have hnext : (headerAt d.sectors block).nextChain = 0 := by
    by_contra hlinked
    have hlong := h.linked hlinked
    omega
  have hlength := h.sound.length_unlinked hnext
  rw [h.length_eq] at hlength
  cases call with
  | add b =>
    have ⟨_, hname, _⟩ := hproper
    by_cases hroom : held.length < 11
    · have hslot : (headerAt d.sectors block).entryCount.toNat < hexafsAbsMaxEntries :=
        hlength ▸ hroom
      refine hexafsAbstractionAddEntry_put h.valid (h.fresh block) h.sound hslot ?_
      rw [hok.returns]
      exact hpost _ _ (h.put hok hnext ⟨_, hslot⟩ rfl hname)
    · have hfull : (headerAt d.sectors block).entryCount.toNat = 11 := by omega
      have hfree := h.room hnext
      refine hexafsAbstractionAddEntry_full h.valid (h.fresh block) h.used h.hint h.sound hnext
        hfull (fun hnone => ?_) (fun _ _ _ _ hbad => absurd hok hbad) fun c a' hgrown _ _ => ?_
      · omega
      · rw [hok.returns]
        exact hpost _ _ (h.link hok hnext hfull hgrown hname)
  | remove name =>
    refine hexafsAbstractionRemoveEntry_unlinked h.valid (h.fresh block) h.sound hnext
      (fun hnone => ?_) fun i hsome => ?_
    · rw [h.position_eq name hnext] at hnone
      have habsent := List.findIdx?_eq_none_iff.mp hnone
      have hresult : held.any (·.name == name) = false := by
        rw [List.any_eq_false]
        intro b hb
        rw [habsent b hb]
        exact Bool.false_ne_true
      have hend := hpost mem d
      rw [expected, effect, hresult, List.eraseP_eq_eraseIdx, hnone] at hend
      exact hend h
    · rw [h.position_eq name hnext] at hsome
      have hresult : held.any (·.name == name) = true := by
        have ⟨hlt, hmatch, _⟩ := List.findIdx?_eq_some_iff_getElem.mp hsome
        exact List.any_eq_true.mpr ⟨_, List.getElem_mem hlt, hmatch⟩
      rw [hok.returns]
      have hend := hpost mem
        (d.write env block (toBlock 512 ((headerAt d.sectors block).removeEntry i)))
      rw [expected, effect, hresult] at hend
      exact hend (h.remove hok hnext hsome)

/-- A call on an abstraction with a chain returns 0 and does nothing. -/
theorem EntryCall.linked_spec {a : Allocator} (h : AbsHolds d a block held)
    (hlong : 11 < held.length) (call : EntryCall) {post : Bool → Memory → PlainDisk → Prop}
    (hpost : post false mem d) : (call.code block).wp (plainDevice env) mem d post := by
  have hlinked := h.linked_iff.mpr hlong
  cases call with
  | add b =>
    exact hexafsAbstractionAddEntry_linked h.valid (h.fresh block) h.sound hlinked hpost
  | remove name =>
    exact hexafsAbstractionRemoveEntry_linked h.valid (h.fresh block) h.sound hlinked hpost

end Held

/-! ## Runs -/

/-- The machine holds the bindings, and its cache agrees with the disk. -/
structure Machine.Holds (machine : Machine) (block : UInt32) (held : List Binding) : Prop where
  /-- The cache agrees with the disk. -/
  coherent : machine.dev.Coherent
  /-- The disk holds the list. -/
  store : AbsHolds machine.dev.plain machine.mem.allocator block held

section Runs

variable {env : Environment} {machine after : Machine} {block : UInt32} {held : List Binding}

/-- A machine that holds bindings tells them. -/
theorem Machine.Holds.answers (h : machine.Holds block held) (hio : env.IoOk) :
    Answers env block held machine := by
  constructor
  · intro name
    have hfind : (hexafsAbstractionFind block name).wp (plainDevice env) machine.mem
        machine.dev.plain fun found _ d => found.map (·.binding) = held.find? (·.name == name) ∧
          ∀ b, d.stale b = false :=
      hexafsAbstractionFind_spec h.store.sound h.store.readable
        ⟨h.store.find_eq name, h.store.fresh⟩
    have ⟨found, after, hrun, _, hfound, _⟩ :=
      Machine.run_spec hio.reads h.coherent hfind fun _ _ _ hpost => hpost.2
    exact ⟨found, after, hrun, hfound⟩
  · have hlist : (hexafsAbstractionList block).wp (plainDevice env) machine.mem
        machine.dev.plain fun entries _ d => entries.map (·.binding) = held ∧
          ∀ b, d.stale b = false :=
      hexafsAbstractionList_spec h.store.sound h.store.readable ⟨h.store.entries, h.store.fresh⟩
    have ⟨entries, after, hrun, _, hentries, _⟩ :=
      Machine.run_spec hio.reads h.coherent hlist fun _ _ _ hpost => hpost.2
    exact ⟨entries, after, hrun, hentries⟩

/-- A call before a chain is linked. -/
theorem Machine.Holds.call (h : machine.Holds block held) (hio : env.IoOk)
    (hshort : held.length ≤ 11) {call : EntryCall} (hproper : call.Proper held) :
    ∃ after, machine.run env (call.code block) = .ok (call.expected held, after) ∧
      after.Holds block (call.effect held) := by
  have hcall : (call.code block).wp (plainDevice env) machine.mem machine.dev.plain
      fun result mem d => result = call.expected held ∧
        AbsHolds d mem.allocator block (call.effect held) :=
    EntryCall.unlinked_spec h.store hio.writes hshort hproper fun _ _ hend => ⟨rfl, hend⟩
  have ⟨result, after, hrun, hcoherent, hresult, hend⟩ :=
    Machine.run_spec hio.reads h.coherent hcall fun _ _ _ hpost => hpost.2.fresh
  rw [hresult] at hrun
  exact ⟨after, hrun, hcoherent, hend⟩

/-- A call behind a linked chain. -/
theorem Machine.Holds.stopped (h : machine.Holds block held) (hio : env.IoOk)
    (hlong : 11 < held.length) (call : EntryCall) :
    ∃ after, machine.run env (call.code block) = .ok (false, after) ∧ after.Holds block held := by
  have hcall : (call.code block).wp (plainDevice env) machine.mem machine.dev.plain
      fun result mem d => result = false ∧ AbsHolds d mem.allocator block held :=
    EntryCall.linked_spec h.store hlong call ⟨rfl, h.store⟩
  have ⟨result, after, hrun, hcoherent, hresult, hend⟩ :=
    Machine.run_spec hio.reads h.coherent hcall fun _ _ _ hpost => hpost.2.fresh
  rw [hresult] at hrun
  exact ⟨after, hrun, hcoherent, hend⟩

/-- One call returns what it should exactly if it fits, and then leaves what it should. -/
theorem Machine.Holds.call_iff (h : machine.Holds block held) (hio : env.IoOk) {call : EntryCall}
    (hproper : call.Proper held) :
    (∃ after, machine.run env (call.code block) = .ok (call.expected held, after)) ↔
      call.Fits held := by
  constructor
  · intro hreturns
    have ⟨after, hrun⟩ := hreturns
    by_contra hmisfit
    have hlong : 11 < held.length := by
      cases call with
      | add b =>
        unfold EntryCall.Fits at hmisfit
        omega
      | remove name =>
        unfold EntryCall.Fits at hmisfit
        have hleft := not_or.mp hmisfit
        omega
    have ⟨after', hrun', _⟩ := h.stopped hio hlong call
    rw [hrun] at hrun'
    have hresult : call.expected held = false := congrArg Prod.fst (Except.ok.inj hrun')
    cases call with
    | add b => cases hresult
    | remove name =>
      refine hmisfit (.inr fun b hb hname => ?_)
      have hother := List.any_eq_false.mp hresult b hb
      exact hother (beq_iff_eq.mpr hname)
  · intro hfits
    by_cases hshort : held.length ≤ 11
    · have ⟨after, hrun, _⟩ := h.call hio hshort hproper
      exact ⟨after, hrun⟩
    · have ⟨after, hrun, _⟩ := h.stopped hio (by omega) call
      cases call with
      | add b => exact absurd hfits hshort
      | remove name =>
        have habsent := hfits.resolve_left hshort
        have hresult : held.any (·.name == name) = false := by
          rw [List.any_eq_false]
          intro b hb hmatch
          exact habsent b hb (beq_iff_eq.mp hmatch)
        refine ⟨after, ?_⟩
        rw [hrun, EntryCall.expected, hresult]

/-- What a fitting call leaves is what it should leave. -/
theorem Machine.Holds.call_holds (h : machine.Holds block held) (hio : env.IoOk)
    {call : EntryCall} (hproper : call.Proper held) (hfits : call.Fits held)
    (hrun : machine.run env (call.code block) = .ok (call.expected held, after)) :
    after.Holds block (call.effect held) := by
  by_cases hshort : held.length ≤ 11
  · have ⟨after', hrun', hholds⟩ := h.call hio hshort hproper
    rw [hrun] at hrun'
    have hafter : after = after' := congrArg Prod.snd (Except.ok.inj hrun')
    rw [hafter]
    exact hholds
  · have ⟨after', hrun', hholds⟩ := h.stopped hio (by omega) call
    rw [hrun] at hrun'
    have hafter : after = after' := congrArg Prod.snd (Except.ok.inj hrun')
    cases call with
    | add b => exact absurd hfits hshort
    | remove name =>
      have habsent := hfits.resolve_left hshort
      have hkept : held.eraseP (·.name == name) = held :=
        List.eraseP_of_forall_not fun b hb hmatch => habsent b hb (beq_iff_eq.mp hmatch)
      rw [hafter, EntryCall.effect, hkept]
      exact hholds

/-- A sequence of proper calls is faithful exactly if every call fits. -/
theorem Machine.Holds.faithful_iff (hio : env.IoOk) (calls : List EntryCall) :
    ∀ {held : List Binding} {machine : Machine}, machine.Holds block held → AllProper held calls →
      (Faithful env block held machine calls ↔ AllFit held calls) := by
  induction calls with
  | nil =>
    intro held machine h _
    exact ⟨fun _ => trivial, fun _ => h.answers hio⟩
  | cons call rest ih =>
    intro held machine h hproper
    have ⟨hcall, hrest⟩ := hproper
    constructor
    · intro hfaithful
      have ⟨_, after, hrun, hlater⟩ := hfaithful
      have hfits : call.Fits held := (h.call_iff hio hcall).mp ⟨after, hrun⟩
      exact ⟨hfits, (ih (h.call_holds hio hcall hfits hrun) hrest).mp hlater⟩
    · intro hfit
      have ⟨hfits, hlater⟩ := hfit
      have ⟨after, hrun⟩ := (h.call_iff hio hcall).mpr hfits
      exact ⟨h.answers hio, after, hrun,
        (ih (h.call_holds hio hcall hfits hrun) hrest).mpr hlater⟩

/-- The sector of a new abstraction holds nothing, and a free block is left for a chain. -/
theorem AbsHolds.created {d : PlainDisk} {a a' : Allocator} (hfresh : ∀ b, d.stale b = false)
    (hok : env.WritesOk) (hfree : 1 < a.freeCount) (hgrown : Grown a a' [block]) :
    AbsHolds ((d.write env block zeroSector).write env block (toBlock 512 newAbstraction)) a'
      block [] := by
  have hblock := (hgrown.fresh block (List.mem_singleton_self block)).1
  have hsector := (PlainDisk.write_reaches (d := d.write env block zeroSector) block
    (toBlock 512 newAbstraction) (hok.reaches _)).1
  have hfresh' := PlainDisk.write_fresh hok (PlainDisk.write_fresh hok hfresh block zeroSector)
    block (toBlock 512 newAbstraction)
  generalize (d.write env block zeroSector).write env block (toBlock 512 newAbstraction) = d'
    at hsector hfresh' ⊢
  have hhead : headerAt d'.sectors block = newAbstraction := by
    rw [headerAt, hsector, ofBlock_toBlock]
  have hnext : (headerAt d'.sectors block).nextChain = 0 := by
    rw [hhead, newAbstraction_nextChain]
  have hempty : absEntries d'.sectors block = [] := by
    rw [absEntries_unlinked hnext, hhead]
    rfl
  have hleft := hgrown.freeCount_add
  rw [List.length_singleton] at hleft
  refine ⟨hblock.valid, hgrown.used_of_mem (List.mem_singleton_self block), hgrown.hint, hfresh',
    ⟨⟨?_, ?_⟩, fun _ => ?_, fun hne => absurd hnext hne, fun hne => absurd hnext hne⟩,
    fun hne => absurd hnext hne, ?_, ?_, fun hne => absurd hnext hne, fun _ => by omega⟩
  · rw [hhead]
    rfl
  · rw [hhead, newAbstraction_entryCount]
    decide
  · rw [hhead]
    exact newAbstraction_checksumOk
  · rw [hempty]
    rfl
  · intro entry hentry
    rw [hempty] at hentry
    exact absurd hentry List.not_mem_nil

/-- A new abstraction holds nothing. -/
theorem Machine.holds_created (hcoherent : machine.dev.Coherent)
    (hhint : machine.mem.allocator.HintOk) (hfree : 1 < machine.mem.allocator.freeCount)
    (hio : env.IoOk) (hrun : machine.run env hexafsAbstractionCreate = .ok (block, after)) :
    after.Holds block [] := by
  have hcreate : hexafsAbstractionCreate.wp (plainDevice env) machine.mem machine.dev.plain
      fun block mem d => AbsHolds d mem.allocator block [] := by
    refine hexafsAbstractionCreate_spec hhint (fun hnone => ?_) (fun _ _ _ _ hbad => ?_)
      fun b a' hgrown _ _ => ?_
    · omega
    · exact absurd hio.writes hbad
    · exact AbsHolds.created (fun _ => rfl) hio.writes hfree hgrown
  have ⟨hcoherent', hholds⟩ := Machine.run_elim hio.reads hcoherent hcreate
    (fun _ _ _ hpost => hpost.fresh) hrun
  exact ⟨hcoherent', hholds⟩

/-- On a new abstraction, with no I/O failure and a free block for a chain, a sequence of
additions and removals is faithful exactly if no addition and no effective removal follows
the twelfth binding. -/
theorem faithful_iff_allFit (hcoherent : machine.dev.Coherent)
    (hhint : machine.mem.allocator.HintOk) (hfree : 1 < machine.mem.allocator.freeCount)
    (hio : env.IoOk) (hrun : machine.run env hexafsAbstractionCreate = .ok (block, after))
    {calls : List EntryCall} (hproper : AllProper [] calls) :
    Faithful env block [] after calls ↔ AllFit [] calls :=
  Machine.Holds.faithful_iff hio calls
    (Machine.holds_created hcoherent hhint hfree hio hrun) hproper

end Runs

/-! ## Thirteen bindings -/

instance (held : List Binding) (call : EntryCall) : Decidable (call.Proper held) :=
  match call with
  | .add _ => inferInstanceAs (Decidable (_ ∧ _ ∧ _))
  | .remove _ => inferInstanceAs (Decidable True)

instance (held : List Binding) (call : EntryCall) : Decidable (call.Fits held) :=
  match call with
  | .add _ => inferInstanceAs (Decidable (_ ≤ _))
  | .remove _ => inferInstanceAs (Decidable (_ ∨ _))

instance allProperDecidable : (held : List Binding) → (calls : List EntryCall) →
    Decidable (AllProper held calls)
  | _, [] => .isTrue trivial
  | held, call :: rest =>
    have := allProperDecidable (call.effect held) rest
    inferInstanceAs (Decidable (_ ∧ _))

instance allFitDecidable : (held : List Binding) → (calls : List EntryCall) →
    Decidable (AllFit held calls)
  | _, [] => .isTrue trivial
  | held, call :: rest =>
    have := allFitDecidable (call.effect held) rest
    inferInstanceAs (Decidable (_ ∧ _))

/-- A binding under a name of one letter. -/
def letterBinding (i : ℕ) : Binding :=
  ⟨CString.ofBytes [UInt8.ofNat (65 + i)], UInt32.ofNat (200 + i), hexafsForm⟩

/-- Additions of the first `n` letters. -/
def letters (n : ℕ) : List EntryCall := (List.range n).map fun i => .add (letterBinding i)

/-- A machine that is switched on has two free blocks. -/
theorem Memory.boot_free : 1 < Memory.boot.allocator.freeCount := by
  have hfree : ∀ i, hexafsObjectLba ≤ i → i < hexafsDiskBlocks →
      i ∈ Memory.boot.allocator.freeBlocks := by
    intro i hlow hhigh
    have hindex : i / 8 < 1024 := by
      have hblocks : hexafsDiskBlocks ≤ 8192 := by decide
      omega
    rw [Allocator.freeBlocks, Finset.mem_filter, Finset.mem_Ico]
    exact ⟨⟨hlow, hhigh⟩, bitmapTest_zero hindex⟩
  exact Finset.one_lt_card.mpr ⟨109, hfree 109 (by decide) (by decide), 110,
    hfree 110 (by decide) (by decide), by decide⟩

/-- hexafs_abstraction_create on a machine that is switched on with a blank disk. -/
theorem create_blank : ∃ block after,
    (Machine.boot blankDisk).run .faultless hexafsAbstractionCreate = .ok (block, after) := by
  have hok : ((Machine.boot blankDisk).run .faultless hexafsAbstractionCreate).isOk = true := by
    decide +kernel
  cases hrun : (Machine.boot blankDisk).run .faultless hexafsAbstractionCreate with
  | error stop =>
    rw [hrun] at hok
    cases hok
  | ok result => exact ⟨result.1, result.2, rfl⟩

/-- Thirteen additions of different names: the thirteenth returns 0. -/
theorem thirteenAdditions_unfaithful : ∃ block after,
    (Machine.boot blankDisk).run .faultless hexafsAbstractionCreate = .ok (block, after) ∧
      AllProper [] (letters 13) ∧ (letters 13).length ≤ 88 ∧
        ¬Faithful .faultless block [] after (letters 13) := by
  have ⟨block, after, hrun⟩ := create_blank
  have hproper : AllProper [] (letters 13) := by
    decide +kernel
  have hholds := Machine.holds_created (Machine.coherent_boot blankDisk) Memory.boot_hintOk
    Memory.boot_free Environment.faultless_ioOk hrun
  refine ⟨block, after, hrun, hproper, by decide, fun hfaithful => ?_⟩
  have hfit := (Machine.Holds.faithful_iff Environment.faultless_ioOk _ hholds hproper).mp hfaithful
  exact absurd hfit (by decide +kernel)

/-- Twelve additions of different names. -/
theorem faithful_iff_allFit_twelve : ∃ block after,
    (Faithful .faultless block [] after (letters 12) ↔ AllFit [] (letters 12)) := by
  have ⟨block, after, hrun⟩ := create_blank
  exact ⟨block, after, faithful_iff_allFit (Machine.coherent_boot blankDisk) Memory.boot_hintOk
    Memory.boot_free Environment.faultless_ioOk hrun (by decide +kernel)⟩

end HexaOS.Hexafs
