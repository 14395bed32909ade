import HexaOS.HexafsObjects

/-!
# Abstractions on the plain disk

An abstraction is a header with up to eleven entries and at most one chain block
behind it. Its checksum tells the two shapes apart: it is right as long as there
is no chain, and wrong from the moment a chain is linked. So entries can be added
until the twelfth, which creates the chain block; after that every attempt fails.
-/

namespace HexaOS.Hexafs

open DevicePrograms PackedBytes StoreTyping

/-- The abstraction header in a sector. -/
def headerAt (sectors : UInt32 → Sector) (block : UInt32) : HexafsAbsHeader :=
  ofBlock HexafsAbsHeader (sectors block)

/-- The entries that a header counts. -/
def HexafsAbsHeader.live (hdr : HexafsAbsHeader) : List HexafsAbsEntry :=
  hdr.entries.toList.take hdr.entryCount.toNat

/-- A header of an abstraction that counts no more entries than it has. -/
structure HexafsAbsHeader.Ok (hdr : HexafsAbsHeader) : Prop where
  /-- The magic number is right. -/
  magic : hdr.magic = hexafsAbstractMagic
  /-- There are at most eleven entries. -/
  count_le : hdr.entryCount.toNat ≤ 11

/-- The entries of an abstraction, those of the chain block last. -/
def absEntries (sectors : UInt32 → Sector) (block : UInt32) : List HexafsAbsEntry :=
  (headerAt sectors block).live ++
    if (headerAt sectors block).nextChain = 0 then []
    else (headerAt sectors (headerAt sectors block).nextChain).live

/-- The shape of an abstraction that the code of the store may have written. -/
structure AbsSound (sectors : UInt32 → Sector) (block : UInt32) : Prop where
  /-- The header is in order. -/
  head : (headerAt sectors block).Ok
  /-- Without a chain block the checksum is right. -/
  unlinked : (headerAt sectors block).nextChain = 0 → (headerAt sectors block).ChecksumOk
  /-- With one the header is full, and its checksum is out of date. -/
  linked : (headerAt sectors block).nextChain ≠ 0 →
    (headerAt sectors block).entryCount.toNat = 11 ∧ ¬(headerAt sectors block).ChecksumOk
  /-- The chain block is in order and the last one. -/
  chain : (headerAt sectors block).nextChain ≠ 0 →
    (headerAt sectors (headerAt sectors block).nextChain).Ok ∧
      (headerAt sectors (headerAt sectors block).nextChain).nextChain = 0

/-- The blocks of an abstraction can be read. -/
structure AbsReadable (d : PlainDisk) (block : UInt32) : Prop where
  /-- The block is one of the disk. -/
  valid : ValidLba block
  /-- It is not stale. -/
  stale : d.stale block = false
  /-- So is the chain block one of the disk. -/
  chain_valid : (headerAt d.sectors block).nextChain ≠ 0 →
    ValidLba (headerAt d.sectors block).nextChain
  /-- Nor is the chain block stale. -/
  chain_stale : (headerAt d.sectors block).nextChain ≠ 0 →
    d.stale (headerAt d.sectors block).nextChain = false

theorem HexafsAbsHeader.length_live {hdr : HexafsAbsHeader} (h : hdr.Ok) :
    hdr.live.length = hdr.entryCount.toNat := by
  have hle := h.count_le
  rw [live, List.length_take, Vector.length_toList]
  omega

/-- A new entry comes last. -/
theorem HexafsAbsHeader.live_putEntry {hdr : HexafsAbsHeader} (count : Fin 11)
    (hlt : count.val < 11) {name : CString} {objBlock : UInt32} {type : UInt8} :
    (hdr.putEntry count name objBlock type).live =
      hdr.entries.toList.take count ++ [entryOver hdr.entries[count] name objBlock type] := by
  rw [live, putEntry_entryCount, putEntry_take hlt]

/-- A count of at most eleven is the same as a C int. -/
theorem HexafsAbsHeader.countInt_eq {hdr : HexafsAbsHeader} (h : hdr.Ok) :
    hdr.countInt = hdr.entryCount.toNat := by
  rw [countInt, if_pos]
  rw [UInt32.lt_iff_toNat_lt]
  exact lt_of_le_of_lt h.count_le (by decide)

/-- The whole abstraction has at most twenty-two entries. -/
theorem length_absEntries {sectors : UInt32 → Sector} {block : UInt32} (h : AbsSound sectors block) :
    (absEntries sectors block).length =
      (headerAt sectors block).entryCount.toNat +
        if (headerAt sectors block).nextChain = 0 then 0
        else (headerAt sectors (headerAt sectors block).nextChain).entryCount.toNat := by
  rw [absEntries, List.length_append, HexafsAbsHeader.length_live h.head]
  split
  · rfl
  · rename_i hne
    rw [HexafsAbsHeader.length_live (h.chain hne).1]

/-- The entries depend on the two blocks only. -/
theorem absEntries_congr {sectors sectors' : UInt32 → Sector} {block : UInt32}
    (hblock : sectors' block = sectors block)
    (hchain : (headerAt sectors block).nextChain ≠ 0 →
      sectors' (headerAt sectors block).nextChain = sectors (headerAt sectors block).nextChain) :
    absEntries sectors' block = absEntries sectors block := by
  have hhead : headerAt sectors' block = headerAt sectors block := by
    rw [headerAt, headerAt, hblock]
  rw [absEntries, absEntries, hhead]
  by_cases hzero : (headerAt sectors block).nextChain = 0
  · rw [if_pos hzero, if_pos hzero]
  · have hnext : headerAt sectors' (headerAt sectors block).nextChain =
        headerAt sectors (headerAt sectors block).nextChain :=
      congrArg (ofBlock HexafsAbsHeader) (hchain hzero)
    rw [if_neg hzero, if_neg hzero, hnext]

theorem AbsSound.congr {sectors sectors' : UInt32 → Sector} {block : UInt32}
    (h : AbsSound sectors block) (hblock : sectors' block = sectors block)
    (hchain : (headerAt sectors block).nextChain ≠ 0 →
      sectors' (headerAt sectors block).nextChain = sectors (headerAt sectors block).nextChain) :
    AbsSound sectors' block := by
  have hhead : headerAt sectors' block = headerAt sectors block := by
    rw [headerAt, headerAt, hblock]
  have hnext : (headerAt sectors block).nextChain ≠ 0 →
      headerAt sectors' (headerAt sectors block).nextChain =
        headerAt sectors (headerAt sectors block).nextChain :=
    fun hne => congrArg (ofBlock HexafsAbsHeader) (hchain hne)
  constructor
  · rw [hhead]
    exact h.head
  · rw [hhead]
    exact h.unlinked
  · rw [hhead]
    exact h.linked
  · rw [hhead]
    intro hne
    rw [hnext hne]
    exact h.chain hne

section Loops

theorem scanEntries_eq (wanted : HexafsAbsEntry → Bool) {count : ℕ} {entries : List HexafsAbsEntry}
    (h : count ≤ entries.length) :
    scanEntries wanted count entries = .ok ((entries.take count).find? wanted) := by
  induction entries generalizing count with
  | nil =>
    rw [List.length_nil, Nat.le_zero] at h
    rw [h]
    rfl
  | cons entry rest ih =>
    cases count with
    | zero => rfl
    | succ count =>
      rw [scanEntries, List.take_succ_cons, List.find?_cons]
      split
      · rename_i hw
        rw [hw]
      · rename_i hw
        rw [Bool.not_eq_true] at hw
        rw [hw, ih (by rw [List.length_cons] at h; omega)]

theorem takeEntries_eq {count : ℕ} {entries : List HexafsAbsEntry} (h : count ≤ entries.length) :
    takeEntries count entries = .ok (entries.take count) := by
  induction entries generalizing count with
  | nil =>
    rw [List.length_nil, Nat.le_zero] at h
    rw [h]
    rfl
  | cons entry rest ih =>
    cases count with
    | zero => rfl
    | succ count =>
      rw [takeEntries, ih (by rw [List.length_cons] at h; omega), List.take_succ_cons]
      rfl

/-- A walk over two blocks and the end of the chain fits the budget. -/
theorem chainFuel_eq : ∃ fuel, chainFuel = fuel + 3 := ⟨2 ^ 32 - 2, by unfold chainFuel; omega⟩

variable {env : Environment} {mem : Memory} {d : PlainDisk}

theorem hexafsAbstractionNextChain_spec {block : UInt32} (hvalid : ValidLba block)
    (hstale : d.stale block = false) {post : UInt32 → Memory → PlainDisk → Prop}
    (hpost : post (headerAt d.sectors block).nextChain mem d) :
    (hexafsAbstractionNextChain block).wp (plainDevice env) mem d post := by
  simp only [hexafsAbstractionNextChain, Code.wp_bind]
  refine wp_hexafsBlockRead hvalid hstale ?_
  rw [Code.wp_pure]
  exact hpost

/-- One round of the loop of hexafs_abstraction_find. -/
theorem findLoop_step {name : CString} {fuel : ℕ} {cur : UInt32} (hvalid : ValidLba cur)
    (hstale : d.stale cur = false) (hok : (headerAt d.sectors cur).Ok)
    {post : Option HexafsAbsEntry → Memory → PlainDisk → Prop}
    (hfound : ∀ entry, (headerAt d.sectors cur).live.find? (fun e => nameMatches e.name name) =
      some entry → post (some entry) mem d)
    (hnext : (headerAt d.sectors cur).live.find? (fun e => nameMatches e.name name) = none →
      (findLoop name fuel (headerAt d.sectors cur).nextChain).wp (plainDevice env) mem d post) :
    (findLoop name (fuel + 1) cur).wp (plainDevice env) mem d post := by
  have hne : cur ≠ 0 := by
    rintro rfl
    exact absurd hvalid.1 (by decide)
  have hhdr : ofBlock HexafsAbsHeader (d.sectors cur) = headerAt d.sectors cur := rfl
  rw [findLoop, if_neg hne, Code.wp_bind]
  refine wp_hexafsBlockRead hvalid hstale ?_
  dsimp only
  rw [hhdr, if_neg (not_not.mpr hok.magic), Code.wp_bind, HexafsAbsHeader.countInt_eq hok,
    scanEntries_eq _ (by rw [Vector.length_toList]; exact hok.count_le)]
  rw [liftStop, Code.wp_pure]
  rw [HexafsAbsHeader.live] at hfound hnext
  cases hfind : (List.take (headerAt d.sectors cur).entryCount.toNat
      (headerAt d.sectors cur).entries.toList).find? fun e => nameMatches e.name name with
  | some entry =>
    dsimp only
    rw [Code.wp_pure]
    exact hfound entry hfind
  | none =>
    dsimp only
    rw [Code.wp_bind]
    exact hexafsAbstractionNextChain_spec hvalid hstale (hnext hfind)

theorem findLoop_zero {name : CString} {fuel : ℕ}
    {post : Option HexafsAbsEntry → Memory → PlainDisk → Prop} (hpost : post none mem d) :
    (findLoop name (fuel + 1) 0).wp (plainDevice env) mem d post := by
  rw [findLoop, if_pos rfl, Code.wp_pure]
  exact hpost

/-- hexafs_abstraction_find returns the first entry of the name. -/
theorem hexafsAbstractionFind_spec {block : UInt32} {name : CString}
    (hsound : AbsSound d.sectors block) (hread : AbsReadable d block)
    {post : Option HexafsAbsEntry → Memory → PlainDisk → Prop}
    (hpost : post ((absEntries d.sectors block).find? fun e => nameMatches e.name name) mem d) :
    (hexafsAbstractionFind block name).wp (plainDevice env) mem d post := by
  obtain ⟨fuel, hfuel⟩ := chainFuel_eq
  rw [hexafsAbstractionFind, hfuel]
  rw [absEntries, List.find?_append] at hpost
  refine findLoop_step hread.valid hread.stale hsound.head (fun entry hentry => ?_) fun hnone => ?_
  · rw [hentry] at hpost
    exact hpost
  · rw [hnone, Option.none_or] at hpost
    by_cases hzero : (headerAt d.sectors block).nextChain = 0
    · rw [if_pos hzero] at hpost
      rw [hzero]
      exact findLoop_zero hpost
    · rw [if_neg hzero] at hpost
      obtain ⟨hok, hend⟩ := hsound.chain hzero
      refine findLoop_step (hread.chain_valid hzero) (hread.chain_stale hzero) hok
        (fun entry hentry => ?_) fun hnone' => ?_
      · rw [hentry] at hpost
        exact hpost
      · rw [hnone'] at hpost
        rw [hend]
        exact findLoop_zero hpost

/-- One round of the loop of hexafs_abstraction_list. -/
theorem listLoop_step {fuel : ℕ} {cur : UInt32} (hvalid : ValidLba cur)
    (hstale : d.stale cur = false) (hok : (headerAt d.sectors cur).Ok)
    {post : List HexafsAbsEntry → Memory → PlainDisk → Prop}
    (hnext : (listLoop fuel (headerAt d.sectors cur).nextChain).wp (plainDevice env) mem d
      fun rest mem' d' => post ((headerAt d.sectors cur).live ++ rest) mem' d') :
    (listLoop (fuel + 1) cur).wp (plainDevice env) mem d post := by
  have hne : cur ≠ 0 := by
    rintro rfl
    exact absurd hvalid.1 (by decide)
  have hhdr : ofBlock HexafsAbsHeader (d.sectors cur) = headerAt d.sectors cur := rfl
  rw [listLoop, if_neg hne, Code.wp_bind]
  refine wp_hexafsBlockRead hvalid hstale ?_
  dsimp only
  rw [hhdr, if_neg (not_not.mpr hok.magic), Code.wp_bind, HexafsAbsHeader.countInt_eq hok,
    takeEntries_eq (by rw [Vector.length_toList]; exact hok.count_le)]
  rw [liftStop, Code.wp_pure]
  simp only [Code.wp_bind, Code.wp_pure]
  exact hexafsAbstractionNextChain_spec hvalid hstale hnext

theorem listLoop_zero {fuel : ℕ} {post : List HexafsAbsEntry → Memory → PlainDisk → Prop}
    (hpost : post [] mem d) : (listLoop (fuel + 1) 0).wp (plainDevice env) mem d post := by
  rw [listLoop, if_pos rfl, Code.wp_pure]
  exact hpost

/-- hexafs_abstraction_list hands over all entries in order. -/
theorem hexafsAbstractionList_spec {block : UInt32} (hsound : AbsSound d.sectors block)
    (hread : AbsReadable d block) {post : List HexafsAbsEntry → Memory → PlainDisk → Prop}
    (hpost : post (absEntries d.sectors block) mem d) :
    (hexafsAbstractionList block).wp (plainDevice env) mem d post := by
  obtain ⟨fuel, hfuel⟩ := chainFuel_eq
  rw [hexafsAbstractionList, hfuel]
  rw [absEntries] at hpost
  refine listLoop_step hread.valid hread.stale hsound.head ?_
  by_cases hzero : (headerAt d.sectors block).nextChain = 0
  · rw [if_pos hzero] at hpost
    rw [hzero]
    exact listLoop_zero hpost
  · rw [if_neg hzero] at hpost
    obtain ⟨hok, hend⟩ := hsound.chain hzero
    refine listLoop_step (hread.chain_valid hzero) (hread.chain_stale hzero) hok ?_
    rw [hend]
    refine listLoop_zero ?_
    rw [List.append_nil]
    exact hpost

end Loops

section Adding

variable {env : Environment} {mem : Memory} {d : PlainDisk}

/-- hexafs_abstraction_create: no block is free, or the header write of the new
block fails, or the block holds an abstraction without entries. -/
theorem hexafsAbstractionCreate_spec (hhint : mem.allocator.HintOk)
    {post : UInt32 → Memory → PlainDisk → Prop}
    (hnone : mem.allocator.freeCount = 0 →
      post 0 { mem with allocator := mem.allocator.full } d)
    (hfail : ∀ b a', Grown mem.allocator a' [] → mem.allocator.Fresh b → ¬env.WritesOk →
      post 0 { mem with allocator := a' }
        ((d.write env b zeroSector).write env b (toBlock 512 newAbstraction)))
    (hsome : ∀ b a', Grown mem.allocator a' [b] → a'.outOfBlocks = mem.allocator.outOfBlocks →
      (env.writeOutcome (d.writeCount + 1)).returns = true →
      post b { mem with allocator := a' }
        ((d.write env b zeroSector).write env b (toBlock 512 newAbstraction))) :
    hexafsAbstractionCreate.wp (plainDevice env) mem d post := by
  simp only [hexafsAbstractionCreate, Code.wp_bind]
  refine hexafsAllocBlock_spec hhint (fun hfree => ?_) fun b a' hgrown hquiet => ?_
  · rw [if_pos rfl, Code.wp_pure]
    exact hnone hfree
  · have hfresh := hgrown.fresh b (List.mem_singleton_self b)
    simp only [if_neg hfresh.1.ne_zero, Code.wp_bind]
    refine wp_hexafsBlockWrite hfresh.1.valid ?_
    rw [PlainDisk.write_writeCount]
    cases hret : (env.writeOutcome (d.writeCount + 1)).returns with
    | true =>
      rw [if_pos rfl, Code.wp_pure]
      exact hsome b a' hgrown hquiet hret
    | false =>
      rw [if_neg Bool.false_ne_true, Code.wp_bind]
      refine hexafsFreeBlock_spec hgrown (List.mem_singleton_self b) fun a'' hgrown' _ => ?_
      rw [Code.wp_pure]
      rw [List.erase_cons_head] at hgrown'
      refine hfail b a'' hgrown' hfresh fun hok => ?_
      rw [hok.returns] at hret
      cases hret

/-- The header of an abstraction with room for another entry. -/
theorem HexafsAbsHeader.count_lt_of_ne {hdr : HexafsAbsHeader} (h : hdr.Ok)
    (hne : hdr.entryCount.toNat ≠ 11) : hdr.entryCount.toNat < hexafsAbsMaxEntries :=
  lt_of_le_of_ne h.count_le hne

/-- hexafs_abstraction_add_entry on an abstraction without a chain that is not full. -/
theorem hexafsAbstractionAddEntry_put {block objBlock : UInt32} {name : CString} {type : UInt8}
    (hvalid : ValidLba block) (hstale : d.stale block = false) (hsound : AbsSound d.sectors block)
    (hroom : (headerAt d.sectors block).entryCount.toNat < hexafsAbsMaxEntries)
    {post : Bool → Memory → PlainDisk → Prop}
    (hpost : post (env.writeOutcome d.writeCount).returns mem
      (d.write env block (toBlock 512 ((headerAt d.sectors block).putEntry
        ⟨(headerAt d.sectors block).entryCount.toNat, hroom⟩ name objBlock type)))) :
    (hexafsAbstractionAddEntry block name objBlock type).wp (plainDevice env) mem d post := by
  have hne : block ≠ 0 := by
    rintro rfl
    exact absurd hvalid.1 (by decide)
  have hnext : (headerAt d.sectors block).nextChain = 0 := by
    by_contra hlinked
    have heq := (hsound.linked hlinked).1
    have hlt : (headerAt d.sectors block).entryCount.toNat < 11 := hroom
    omega
  have hhdr : ofBlock HexafsAbsHeader (d.sectors block) = headerAt d.sectors block := rfl
  have hsum : absChecksum (headerAt d.sectors block) = (headerAt d.sectors block).checksum :=
    hsound.unlinked hnext
  obtain ⟨fuel, hfuel⟩ := chainFuel_eq
  rw [hexafsAbstractionAddEntry, hfuel, Code.wp_bind, addEntryLoop, if_neg hne, Code.wp_bind]
  refine wp_hexafsBlockRead hvalid hstale ?_
  dsimp only
  rw [hhdr, if_neg (not_not.mpr hsum), if_neg (not_not.mpr hsound.head.magic),
    dif_pos hroom, Code.wp_bind]
  refine wp_hexafsBlockWrite hvalid ?_
  simp only [Code.wp_pure]
  exact hpost

/-- hexafs_abstraction_add_entry on an abstraction with a chain: its checksum is
wrong, so nothing is added. -/
theorem hexafsAbstractionAddEntry_linked {block objBlock : UInt32} {name : CString} {type : UInt8}
    (hvalid : ValidLba block) (hstale : d.stale block = false) (hsound : AbsSound d.sectors block)
    (hlinked : (headerAt d.sectors block).nextChain ≠ 0)
    {post : Bool → Memory → PlainDisk → Prop} (hpost : post false mem d) :
    (hexafsAbstractionAddEntry block name objBlock type).wp (plainDevice env) mem d post := by
  have hne : block ≠ 0 := by
    rintro rfl
    exact absurd hvalid.1 (by decide)
  have hhdr : ofBlock HexafsAbsHeader (d.sectors block) = headerAt d.sectors block := rfl
  have hsum : absChecksum (headerAt d.sectors block) ≠ (headerAt d.sectors block).checksum :=
    (hsound.linked hlinked).2
  obtain ⟨fuel, hfuel⟩ := chainFuel_eq
  rw [hexafsAbstractionAddEntry, hfuel, Code.wp_bind, addEntryLoop, if_neg hne, Code.wp_bind]
  refine wp_hexafsBlockRead hvalid hstale ?_
  dsimp only
  rw [hhdr, if_pos hsum]
  simp only [Code.wp_pure]
  exact hpost

/-- The disk after a chain block was created, linked and filled with one entry. -/
def linkChain (env : Environment) (block chain : UInt32) (hdr : HexafsAbsHeader) (name : CString)
    (objBlock : UInt32) (type : UInt8) (d : PlainDisk) : PlainDisk :=
  (((d.write env chain zeroSector).write env chain (toBlock 512 newAbstraction)).write env block
    (toBlock 512 (hdr.withChain chain))).write env chain
      (toBlock 512 (newAbstraction.putEntry 0 name objBlock type))

/-- hexafs_abstraction_add_entry on a full abstraction without a chain: a chain
block is created and linked, when there is a free block. -/
theorem hexafsAbstractionAddEntry_full {block objBlock : UInt32} {name : CString} {type : UInt8}
    (hvalid : ValidLba block) (hstale : d.stale block = false) (hused : mem.allocator.Used block)
    (hhint : mem.allocator.HintOk) (hsound : AbsSound d.sectors block)
    (hnext : (headerAt d.sectors block).nextChain = 0)
    (hfull : (headerAt d.sectors block).entryCount.toNat = 11)
    {post : Bool → Memory → PlainDisk → Prop}
    (hnone : mem.allocator.freeCount = 0 →
      post false { mem with allocator := mem.allocator.full } d)
    (hfail : ∀ c a', Grown mem.allocator a' [] → mem.allocator.Fresh c → ¬env.WritesOk →
      post false { mem with allocator := a' }
        ((d.write env c zeroSector).write env c (toBlock 512 newAbstraction)))
    (hlink : ∀ c a', Grown mem.allocator a' [c] → a'.outOfBlocks = mem.allocator.outOfBlocks →
      (env.writeOutcome (d.writeCount + 1)).returns = true →
      post (env.writeOutcome (d.writeCount + 3)).returns { mem with allocator := a' }
        (linkChain env block c (headerAt d.sectors block) name objBlock type d)) :
    (hexafsAbstractionAddEntry block name objBlock type).wp (plainDevice env) mem d post := by
  have hne : block ≠ 0 := by
    rintro rfl
    exact absurd hvalid.1 (by decide)
  have hhdr : ofBlock HexafsAbsHeader (d.sectors block) = headerAt d.sectors block := rfl
  have hsum : absChecksum (headerAt d.sectors block) = (headerAt d.sectors block).checksum :=
    hsound.unlinked hnext
  have hroom : ¬(headerAt d.sectors block).entryCount.toNat < hexafsAbsMaxEntries :=
    Nat.not_lt.mpr hfull.ge
  obtain ⟨fuel, hfuel⟩ := chainFuel_eq
  rw [hexafsAbstractionAddEntry, hfuel, Code.wp_bind, addEntryLoop, if_neg hne, Code.wp_bind]
  refine wp_hexafsBlockRead hvalid hstale ?_
  dsimp only
  rw [hhdr, if_neg (not_not.mpr hsum), if_neg (not_not.mpr hsound.head.magic),
    dif_neg hroom, Code.wp_bind]
  refine hexafsAbstractionNextChain_spec hvalid hstale ?_
  rw [if_pos hnext, Code.wp_pure]
  dsimp only
  rw [Code.wp_bind]
  refine hexafsAbstractionCreate_spec hhint (fun hfree => ?_) (fun c a' hgrown hfresh hbad => ?_)
    fun c a' hgrown hquiet hret => ?_
  · rw [if_pos rfl, Code.wp_pure]
    exact hnone hfree
  · rw [if_pos rfl, Code.wp_pure]
    exact hfail c a' hgrown hfresh hbad
  · have hfresh := hgrown.fresh c (List.mem_singleton_self c)
    have hcb : block ≠ c := by
      rintro rfl
      exact hfresh.2 hused
    have hreach : (env.writeOutcome (d.write env c zeroSector).writeCount).reaches = true := by
      rw [PlainDisk.write_writeCount]
      exact WriteOutcome.reaches_of_returns hret
    have hchain := PlainDisk.write_reaches c (toBlock 512 newAbstraction) hreach
    have hsector : ((d.write env c zeroSector).write env c (toBlock 512 newAbstraction)).sectors
        block = d.sectors block := by
      rw [PlainDisk.write_sectors_of_ne hcb, PlainDisk.write_sectors_of_ne hcb]
    rw [if_neg hfresh.1.ne_zero, Code.wp_bind, hexafsAbstractionSetChain, Code.wp_bind]
    refine wp_hexafsBlockRead hvalid ?_ ?_
    · rw [PlainDisk.write_stale_of_ne hcb, PlainDisk.write_stale_of_ne hcb, hstale]
    · rw [hsector]
      simp only [Code.wp_bind, Code.wp_pure]
      refine wp_hexafsBlockWrite hvalid ?_
      refine wp_hexafsBlockRead hfresh.1.valid ?_ ?_
      · rw [PlainDisk.write_stale_of_ne hcb.symm, hchain.2]
      · rw [PlainDisk.write_sectors_of_ne hcb.symm, hchain.1]
        dsimp only
        rw [ofBlock_toBlock]
        refine wp_hexafsBlockWrite hfresh.1.valid ?_
        simp only [PlainDisk.write_writeCount]
        exact hlink c a' hgrown hquiet hret

end Adding

end HexaOS.Hexafs
