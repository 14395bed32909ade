import HexaOS.HexafsCachedCalls

/-!
# Objects written while transfers fail

When a write is refused the cache holds the new bytes and the disk the old ones, and which of
the two the next read finds depends on what was evicted meanwhile. So a block has versions, and
an invariant of the store speaks about all of them. The objects below are made, written with
data of any size and read in any order, every call may fail, and what a call that returned 1
wrote stays on the disk until the object is written again.
-/

namespace HexaOS.Hexafs

open DevicePrograms PackedBytes StoreTyping

/-- The bytes that a read of a block may find: those of the sector or those of a slot. -/
def Device.Version (dev : Device) (block : UInt32) (buf : Sector) : Prop :=
  dev.disk.sectors block = buf ∨ ∃ slot ∈ dev.blockCache, slot.lba = block ∧ slot.data = buf

/-- The sixteen slots hold every block at most once. -/
def Device.OneSlot (dev : Device) : Prop := SlotsHold ValidLba (fun _ _ => True) dev.blockCache

/-- What calls that write no blocks but those in `W` do to a device: the other blocks keep their
sectors and get no new versions. -/
structure Evolves (W : UInt32 → Prop) (dev dev' : Device) : Prop where
  /-- No block has two slots of the cache. -/
  oneSlot : dev'.OneSlot
  /-- Other sectors stay. -/
  sectors : ∀ b, ValidLba b → ¬W b → dev'.disk.sectors b = dev.disk.sectors b
  /-- Other blocks have no new versions. -/
  versions : ∀ b buf, ValidLba b → ¬W b → dev'.Version b buf → dev.Version b buf

section Evolution

variable {env : Environment} {W V : UInt32 → Prop} {dev dev' dev'' : Device} {block : UInt32}
  {buf : Sector}

theorem Evolves.refl (h : dev.OneSlot) : Evolves W dev dev :=
  ⟨h, fun _ _ _ => rfl, fun _ _ _ _ hversion => hversion⟩

theorem Evolves.mono (h : Evolves W dev dev') (hsub : ∀ b, W b → V b) : Evolves V dev dev' :=
  ⟨h.oneSlot, fun b hb hnot => h.sectors b hb fun hw => hnot (hsub b hw),
    fun b buf hb hnot => h.versions b buf hb fun hw => hnot (hsub b hw)⟩

theorem Evolves.trans (h : Evolves W dev dev') (h' : Evolves W dev' dev'') :
    Evolves W dev dev'' :=
  ⟨h'.oneSlot, fun b hb hnot => (h'.sectors b hb hnot).trans (h.sectors b hb hnot),
    fun b buf hb hnot hversion => h.versions b buf hb hnot (h'.versions b buf hb hnot hversion)⟩

/-- A read answers a version of the block or nothing, and adds no version. -/
theorem evolves_read (h : dev.OneSlot) (env : Environment) (block : UInt32) :
    Evolves (fun _ => False) dev (cacheRead env block dev).2 ∧
      (ValidLba block → ∀ buf, (cacheRead env block dev).1 = some buf → dev.Version block buf) := by
  cases hfind : cacheFind block dev.blockCache with
  | some idx =>
    obtain ⟨slot, hslot, hlba, hread⟩ := cacheRead_found env hfind
    rw [hread]
    refine ⟨Evolves.refl h, fun _ buf hbuf => .inr ⟨slot, hslot, hlba, Option.some.inj hbuf⟩⟩
  | none =>
    have hnone := cacheFind_none hfind
    cases hok : env.readOk dev.disk.readCount with
    | true =>
      rw [cacheRead_missed hfind hok]
      refine ⟨⟨?_, fun _ _ _ => rfl, fun b buf hb _ hversion => ?_⟩, fun hvalid buf hbuf => ?_⟩
      · refine SlotsHold.set h ?_ trivial fun _ _ _ _ => trivial
        intro j slot hslot hlba
        exact absurd hlba (hnone slot (List.mem_of_getElem? hslot))
      · rcases hversion with hsector | ⟨slot, hslot, hlba, hdata⟩
        · exact .inl hsector
        · rcases List.mem_or_eq_of_mem_set hslot with hold | hnew
          · exact .inr ⟨slot, hold, hlba, hdata⟩
          · rw [hnew] at hlba hdata
            dsimp only at hlba hdata
            rw [hlba, ataAddress_of_valid hb] at hdata
            exact .inl hdata
      · left
        rw [ataAddress_of_valid hvalid] at hbuf
        exact Option.some.inj hbuf
    | false =>
      rw [cacheRead_failed hfind hok]
      exact ⟨⟨h, fun _ _ _ => rfl, fun _ _ _ _ hversion => hversion⟩, by rintro _ _ ⟨⟩⟩

/-- A write adds one version of its block; when it returns 1 there is no other. -/
theorem evolves_write (h : dev.OneSlot) (env : Environment) (hvalid : ValidLba block)
    (buf : Sector) :
    Evolves (· = block) dev (cacheWrite env block buf dev).2 ∧
      (∀ other, (cacheWrite env block buf dev).2.Version block other →
        other = buf ∨ dev.Version block other) ∧
      ((cacheWrite env block buf dev).1 = true →
        (cacheWrite env block buf dev).2.disk.sectors block = buf ∧
          ∀ other, (cacheWrite env block buf dev).2.Version block other → other = buf) := by
  have hreturns := cacheWrite_returns env block buf dev
  have hsectors : (cacheWrite env block buf dev).2.disk.sectors =
      if (env.writeOutcome dev.disk.writeCount).reaches then
        Function.update dev.disk.sectors block buf else dev.disk.sectors := by
    have hwritten := ataWriteSector_sectors env block buf dev.disk
    rw [ataAddress_of_valid hvalid] at hwritten
    exact hwritten
  generalize hidx : (cacheFind block dev.blockCache).getD (cacheEvict dev.blockCache) = idx
  have hcache : (cacheWrite env block buf dev).2.blockCache =
      dev.blockCache.set idx ⟨block, true, buf⟩ := by
    rw [cacheWrite, hidx]
  have honly : ∀ (j : ℕ) (slot : CacheSlot), dev.blockCache[j]? = some slot →
      slot.lba = block → j = idx := by
    intro j slot hslot hlba
    rw [← hidx]
    exact SlotsHold.only h hvalid hslot hlba
  generalize cacheWrite env block buf dev = result at *
  -- the slots of the block hold the new bytes
  have hslots : ∀ slot ∈ result.2.blockCache, slot.lba = block → slot.data = buf := by
    intro slot hslot hlba
    obtain ⟨j, hj⟩ := List.mem_iff_getElem?.mp hslot
    rw [hcache, List.getElem?_set] at hj
    split at hj
    · split at hj
      · rw [← Option.some.inj hj]
      · cases hj
    · rename_i hne
      exact absurd (honly j slot hj hlba).symm hne
  refine ⟨⟨?_, ?_, ?_⟩, ?_, ?_⟩
  · rw [Device.OneSlot, hcache]
    exact SlotsHold.set h honly trivial fun _ _ _ _ => trivial
  · intro b _ hne
    rw [hsectors]
    split
    · exact Function.update_of_ne hne buf dev.disk.sectors
    · rfl
  · intro b other _ hne hversion
    rcases hversion with hsector | ⟨slot, hslot, hlba, hdata⟩
    · left
      rw [← hsector, hsectors]
      split
      · exact (Function.update_of_ne hne buf dev.disk.sectors).symm
      · rfl
    · rw [hcache] at hslot
      rcases List.mem_or_eq_of_mem_set hslot with hold | hnew
      · exact .inr ⟨slot, hold, hlba, hdata⟩
      · rw [hnew] at hlba
        exact absurd hlba.symm hne
  · intro other hversion
    rcases hversion with hsector | ⟨slot, hslot, hlba, hdata⟩
    · rw [hsectors] at hsector
      split at hsector
      · rw [Function.update_self] at hsector
        exact .inl hsector.symm
      · exact .inr (.inl hsector)
    · exact .inl (hdata.symm.trans (hslots slot hslot hlba))
  · intro hok
    rw [hok] at hreturns
    have hreaches := WriteOutcome.reaches_of_returns hreturns.symm
    rw [hreaches, if_pos rfl] at hsectors
    have hself : result.2.disk.sectors block = buf := by
      rw [hsectors, Function.update_self]
    refine ⟨hself, fun other hversion => ?_⟩
    rcases hversion with hsector | ⟨slot, hslot, hlba, hdata⟩
    · exact hsector.symm.trans hself
    · exact hdata.symm.trans (hslots slot hslot hlba)

end Evolution

/-- The blocks that slots name are different used blocks of the object area. -/
structure SlotsFit (a : Allocator) (slots : List UInt32) : Prop where
  /-- The blocks of the slots are used blocks of the area. -/
  taken : ∀ b ∈ slots, b ≠ 0 → InStore b ∧ a.Used b
  /-- No block has two slots. -/
  nodup : (slots.filter (· ≠ 0)).Nodup

/-- What the content loop did to the slots `slots`: it wrote blocks of the slots and free ones,
and when it went through, the blocks `written` hold the data. -/
structure ContentStored (a a' : Allocator) (dev dev' : Device) (slots : List UInt32)
    (data : List UInt8) (rest : List UInt32) (result : Option (List UInt32)) : Prop where
  /-- What was taken was free. -/
  grown : ∃ taken, Grown a a' taken
  /-- Only the blocks of the slots and fresh ones change. -/
  evolves : Evolves (fun b => b ≠ 0 ∧ b ∈ slots ∨ a.Fresh b) dev dev'
  /-- Slots that are filled lead to the content. -/
  stored : ∀ filled, result = some filled → ∃ written, filled = written ++ rest.map (fun _ => 0) ∧
    written.length = slots.length ∧ SlotsFit a' written ∧ 0 ∉ written ∧
      (∀ b ∈ written, b ∈ slots ∨ a.Fresh b) ∧
        written.map dev'.disk.sectors = contentSectors slots.length data

section Content

variable {env : Environment} {mem : Memory} {dev : Device}

theorem SlotsFit.mono {a a' : Allocator} {slots : List UInt32} (h : SlotsFit a slots)
    (hused : ∀ b, a.Used b → a'.Used b) : SlotsFit a' slots :=
  ⟨fun b hb hne => ⟨(h.taken b hb hne).1, hused b (h.taken b hb hne).2⟩, h.nodup⟩

/-- The slots behind the first one fit. -/
theorem SlotsFit.tail {a : Allocator} {slot : UInt32} {slots : List UInt32}
    (h : SlotsFit a (slot :: slots)) : SlotsFit a slots := by
  refine ⟨fun b hb hne => h.taken b (List.mem_cons_of_mem _ hb) hne, ?_⟩
  have hnodup := h.nodup
  rw [List.filter_cons] at hnodup
  split at hnodup
  · exact (List.nodup_cons.mp hnodup).2
  · exact hnodup

/-- The first block does not stand in the slots behind it. -/
theorem SlotsFit.not_mem {a : Allocator} {slot : UInt32} {slots : List UInt32}
    (h : SlotsFit a (slot :: slots)) (hne : slot ≠ 0) : slot ∉ slots := by
  have hnodup := h.nodup
  rw [List.filter_cons, if_pos (by simpa using hne)] at hnodup
  intro hmem
  refine (List.nodup_cons.mp hnodup).1 (List.mem_filter.mpr ⟨hmem, ?_⟩)
  simpa using hne

/-- A fresh or kept block in front of slots that were stored. -/
theorem ContentStored.cons {a a₁ a' : Allocator} {dev₁ dev' : Device} {slot b : UInt32}
    {slots rest : List UInt32} {data : List UInt8} {result : Option (List UInt32)}
    (hgrown : ∃ taken, Grown a a₁ taken) (hvalid : InStore b) (hused : a₁.Used b)
    (hslot : b = slot ∨ a.Fresh b) (hnot : b ∉ slots)
    (hevolves : Evolves (· = b) dev dev₁) (hsector : dev₁.disk.sectors b = padBlock 512 data)
    (h : ContentStored a₁ a' dev₁ dev' slots (data.drop 512) rest result) :
    ContentStored a a' dev dev' (slot :: slots) data rest (result.map (b :: ·)) := by
  obtain ⟨taken, htaken⟩ := hgrown
  obtain ⟨taken', htaken'⟩ := h.grown
  have hkept : dev'.disk.sectors b = padBlock 512 data := by
    rw [h.evolves.sectors b hvalid.valid ?_, hsector]
    rintro (hmem | hfresh)
    · exact hnot hmem.2
    · exact hfresh.2 hused
  have hfresh : ∀ c, a₁.Fresh c → a.Fresh c := fun c hc => htaken.fresh_of_fresh hc
  refine ⟨⟨_, htaken.trans htaken'⟩, ?_, ?_⟩
  · refine Evolves.trans (hevolves.mono ?_) (h.evolves.mono ?_)
    · intro c hc
      rw [hc]
      rcases hslot with heq | hfresh
      · exact .inl ⟨hvalid.ne_zero, heq ▸ List.mem_cons_self⟩
      · exact .inr hfresh
    · exact fun c hc => hc.imp (fun hmem => ⟨hmem.1, List.mem_cons_of_mem _ hmem.2⟩) (hfresh c)
  · intro filled hfilled
    obtain ⟨tail, htail, rfl⟩ := Option.map_eq_some_iff.mp hfilled
    obtain ⟨written, hwritten, hlength, hfit, hzero, hfrom, hstored⟩ := h.stored tail htail
    have hb : b ∉ written := by
      intro hmem
      rcases hfrom b hmem with hin | hfree
      · exact hnot hin
      · exact hfree.2 hused
    refine ⟨b :: written, by rw [hwritten, List.cons_append], by
      rw [List.length_cons, List.length_cons, hlength], ⟨?_, ?_⟩, ?_, ?_, ?_⟩
    · intro c hc hne
      rcases List.mem_cons.mp hc with heq | hin
      · rw [heq]
        exact ⟨hvalid, htaken'.used_mono hused⟩
      · exact hfit.taken c hin hne
    · rw [List.filter_cons, if_pos (by simpa using hvalid.ne_zero)]
      exact List.nodup_cons.mpr ⟨fun hmem => hb (List.mem_of_mem_filter hmem), hfit.nodup⟩
    · rw [List.mem_cons]
      exact fun hmem => hmem.elim (fun heq => hvalid.ne_zero heq.symm) hzero
    · intro c hc
      rcases List.mem_cons.mp hc with heq | hin
      · rw [heq]
        rcases hslot with hsame | hfree
        · rw [hsame]
          exact .inl List.mem_cons_self
        · exact .inr hfree
      · exact (hfrom c hin).imp (List.mem_cons_of_mem _) (hfresh c)
    · rw [List.map_cons, List.length_cons, contentSectors, hkept, hstored]

/-- The content loop of hexafs_object_write_data, whatever fails. -/
theorem writeContent_stored {left i : ℕ} {slots : List UInt32} {data : List UInt8}
    (hslot : dev.OneSlot) (hhint : mem.allocator.HintOk) (hleft : left ≤ slots.length)
    (hfit : SlotsFit mem.allocator (slots.take left))
    {post : Option (List UInt32) → Memory → Device → Prop}
    (hpost : ∀ result a' dev', ContentStored mem.allocator a' dev dev' (slots.take left) data
      (slots.drop left) result → post result { mem with allocator := a' } dev') :
    (writeContent left i slots data).wp (cachedDevice env) mem dev post := by
  induction left generalizing i slots data mem dev post with
  | zero =>
    rw [writeContent, Code.wp_pure]
    refine hpost _ _ dev ⟨⟨[], Grown.refl hhint⟩, Evolves.refl hslot, fun filled hfilled => ?_⟩
    refine ⟨[], (Option.some.inj hfilled).symm, rfl, ⟨by rintro _ ⟨⟩, List.nodup_nil⟩, List.not_mem_nil,
      by rintro _ ⟨⟩, rfl⟩
  | succ left ih =>
    cases slots with
    | nil => exact absurd hleft (Nat.not_succ_le_zero left)
    | cons slot slots =>
      have hrest : left ≤ slots.length := Nat.le_of_succ_le_succ hleft
      rw [List.take_succ_cons] at hpost hfit
      rw [List.drop_succ_cons] at hpost
      rw [writeContent]
      by_cases hzero : slot = 0
      · simp only [if_pos hzero, Code.wp_bind]
        refine hexafsAllocBlock_cached hhint (fun hfree => ?_) fun b a' hgrown => ?_
        · rw [if_pos rfl, Code.wp_pure]
          exact hpost none _ dev ⟨⟨[], Grown.full hhint⟩, Evolves.refl hslot, by rintro _ ⟨⟩⟩
        · have hmem := List.mem_singleton_self b
          have hfresh := hgrown.fresh b hmem
          have hused := hgrown.used_of_mem hmem
          simp only [if_neg hfresh.1.ne_zero, Code.wp_bind]
          have hzeroed := (evolves_write hslot env hfresh.1.valid zeroSector).1
          obtain ⟨hchunk, -, hreturns⟩ := evolves_write hzeroed.oneSlot env hfresh.1.valid
            (padBlock 512 data)
          have hevolves := hzeroed.trans hchunk
          refine wp_cacheWrite ?_
          generalize cacheWrite env b (padBlock 512 data)
            (cacheWrite env b zeroSector dev).2 = result at *
          cases hok : result.1 with
          | true =>
            rw [if_pos rfl, Code.wp_bind]
            have hnot : b ∉ slots.take left := by
              intro hin
              have htaken := hfit.taken b (List.mem_cons_of_mem _ hin) hfresh.1.ne_zero
              exact hfresh.2 htaken.2
            have hfit' : SlotsFit a' (slots.take left) :=
              hfit.tail.mono fun c hc => hgrown.used_mono hc
            refine ih hevolves.oneSlot hgrown.hint hrest hfit' fun tail a'' dev' hstored => ?_
            rw [Code.wp_pure]
            exact hpost _ a'' dev' (hstored.cons ⟨[b], hgrown⟩ hfresh.1 hused (.inr hfresh) hnot
              hevolves (hreturns hok).1)
          | false =>
            have hevolves' : Evolves (fun c => c ≠ 0 ∧ c ∈ slot :: slots.take left ∨
                mem.allocator.Fresh c) dev result.2 :=
              hevolves.mono fun c hc => .inr (hc ▸ hfresh)
            rw [if_neg Bool.false_ne_true]
            by_cases hi : 0 < i
            · rw [if_pos ⟨hi, by rw [hzero]; exact hfresh.1.ne_zero⟩, Code.wp_bind]
              refine hexafsFreeBlock_cached hgrown hmem fun a'' hgrown' => ?_
              rw [Code.wp_pure]
              exact hpost none a'' _ ⟨⟨_, hgrown'⟩, hevolves', by rintro _ ⟨⟩⟩
            · rw [if_neg fun h => hi h.1, Code.wp_pure]
              exact hpost none a' _ ⟨⟨_, hgrown⟩, hevolves', by rintro _ ⟨⟩⟩
      · obtain ⟨hin, hused⟩ := hfit.taken slot List.mem_cons_self hzero
        simp only [if_neg hzero, Code.wp_bind, Code.wp_pure]
        obtain ⟨hevolves, -, hreturns⟩ := evolves_write hslot env hin.valid (padBlock 512 data)
        refine wp_cacheWrite ?_
        generalize cacheWrite env slot (padBlock 512 data) dev = result at *
        cases hok : result.1 with
        | true =>
          rw [if_pos rfl, Code.wp_bind]
          refine ih hevolves.oneSlot hhint hrest hfit.tail fun tail a'' dev' hstored => ?_
          rw [Code.wp_pure]
          exact hpost _ a'' dev' (hstored.cons ⟨[], Grown.refl hhint⟩ hin hused (.inl rfl)
            (hfit.not_mem hzero) hevolves (hreturns hok).1)
        | false =>
          simp only [if_neg Bool.false_ne_true, ne_eq, not_true_eq_false, and_false, if_false,
            Code.wp_pure]
          exact hpost none _ _ ⟨⟨[], Grown.refl hhint⟩,
            hevolves.mono fun c hc => .inl ⟨fun heq => hzero (hc ▸ heq), hc ▸ List.mem_cons_self⟩,
            by rintro _ ⟨⟩⟩

end Content

/-- An object that was made, with the data of the last write if that returned 1. -/
structure ObjectRecord where
  /-- The type that hexafs_object_alloc was given. -/
  type : UInt8
  /-- The data that hexafs_object_write_data was given. -/
  data : Option (List UInt8)

/-- The object on the disk is what a write of the data leaves: a header of the type and the size
whose slots name different blocks of the object area, which hold the data in order. -/
structure StoredOn (sectors : UInt32 → Sector) (block : UInt32) (type : UInt8)
    (data : List UInt8) (written : List UInt32) : Prop where
  /-- The magic number is right. -/
  magic : objMagicOk (objectAt sectors block) = true
  /-- The type is kept. -/
  type : (objectAt sectors block).type = type
  /-- The size is that of the data. -/
  size : (objectAt sectors block).contentSize = UInt32.ofNat data.length
  /-- The slots are the blocks, and zeros behind them. -/
  slots : (objectAt sectors block).slots = written ++ List.replicate (4 - written.length) 0
  /-- There are as many blocks as the size needs. -/
  length : written.length = contentBlockCount (UInt32.ofNat data.length)
  /-- They are different. -/
  nodup : written.Nodup
  /-- They are blocks of the area. -/
  inStore : ∀ b ∈ written, InStore b
  /-- The header is none of them. -/
  apart : block ∉ written
  /-- They hold the data. -/
  stored : written.map sectors = contentSectors written.length data

/-- Some version of the header of an object names the block. -/
def Device.Names (dev : Device) (object block : UInt32) : Prop :=
  block ≠ 0 ∧ ∃ buf, dev.Version object buf ∧ block ∈ (ofBlock HexafsObject buf).slots

/-- What holds of the objects in every state of a run. -/
structure ObjectsSound (mem : Memory) (dev : Device) (objects : UInt32 → Option ObjectRecord) :
    Prop where
  /-- The hint is in range. -/
  hint : mem.allocator.HintOk
  /-- No block has two slots of the cache. -/
  oneSlot : dev.OneSlot
  /-- The header of an object is a used block of the area. -/
  taken : ∀ block object, objects block = some object → InStore block ∧ mem.allocator.Used block
  /-- Every version of a header has the magic number and the type. -/
  header : ∀ block object buf, objects block = some object → dev.Version block buf →
    objMagicOk (ofBlock HexafsObject buf) = true ∧
      (ofBlock HexafsObject buf).type = object.type ∧
        ((ofBlock HexafsObject buf).slots.filter (· ≠ 0)).Nodup
  /-- The blocks that a header names are used ones and no headers. -/
  names : ∀ block object b, objects block = some object → dev.Names block b →
    InStore b ∧ mem.allocator.Used b ∧ objects b = none
  /-- No two objects name one block. -/
  apart : ∀ block other object object' b, block ≠ other → objects block = some object →
    objects other = some object' → dev.Names block b → ¬dev.Names other b
  /-- A written object is on the disk. -/
  stored : ∀ block object data, objects block = some object → object.data = some data →
    ∃ written, StoredOn dev.disk.sectors block object.type data written

/-- What a call on one object does: it writes the header block, blocks of its own and free ones,
and its header comes to name no others. -/
structure ObjectStep (a a' : Allocator) (dev dev' : Device) (own : UInt32 → Prop)
    (block : UInt32) (object : ObjectRecord) : Prop where
  /-- What was taken was free. -/
  grown : ∃ taken, Grown a a' taken
  /-- Only the object, its own blocks and fresh ones change. -/
  evolves : Evolves (fun b => b = block ∨ own b ∨ a.Fresh b) dev dev'
  /-- The header is a used block of the area. -/
  taken : InStore block ∧ a'.Used block
  /-- Every version of the header has the magic number and the type. -/
  header : ∀ buf, dev'.Version block buf → objMagicOk (ofBlock HexafsObject buf) = true ∧
    (ofBlock HexafsObject buf).type = object.type ∧
      ((ofBlock HexafsObject buf).slots.filter (· ≠ 0)).Nodup
  /-- It names its own blocks and fresh ones. -/
  names : ∀ b, dev'.Names block b →
    (own b ∨ a.Fresh b) ∧ b ≠ block ∧ InStore b ∧ a'.Used b
  /-- Data that is written is on the disk. -/
  stored : ∀ data, object.data = some data →
    ∃ written, StoredOn dev'.disk.sectors block object.type data written

section Steps

variable {env : Environment} {mem : Memory} {dev dev' : Device} {a' : Allocator}
  {objects : UInt32 → Option ObjectRecord} {own : UInt32 → Prop} {block : UInt32}
  {object : ObjectRecord}

/-- An object stays on the disk while its header and its blocks do. -/
theorem StoredOn.frame {sectors sectors' : UInt32 → Sector} {type : UInt8} {data : List UInt8}
    {written : List UInt32} (h : StoredOn sectors block type data written)
    (hblock : sectors' block = sectors block) (hsame : ∀ b ∈ written, sectors' b = sectors b) :
    StoredOn sectors' block type data written := by
  have hobject : objectAt sectors' block = objectAt sectors block := by
    rw [objectAt, objectAt, hblock]
  refine ⟨?_, ?_, ?_, ?_, h.length, h.nodup, h.inStore, h.apart, ?_⟩
  · rw [hobject]
    exact h.magic
  · rw [hobject]
    exact h.type
  · rw [hobject]
    exact h.size
  · rw [hobject]
    exact h.slots
  · rw [List.map_congr_left hsame]
    exact h.stored

/-- The header on the disk names the blocks of the data. -/
theorem StoredOn.names {type : UInt8} {data : List UInt8} {written : List UInt32}
    (h : StoredOn dev.disk.sectors block type data written) {b : UInt32} (hb : b ∈ written) :
    dev.Names block b := by
  have hslots : (ofBlock HexafsObject (dev.disk.sectors block)).slots =
      written ++ List.replicate (4 - written.length) 0 := h.slots
  refine ⟨(h.inStore b hb).ne_zero, dev.disk.sectors block, .inl rfl, ?_⟩
  rw [hslots]
  exact List.mem_append_left _ hb

/-- A call on one object keeps what holds of the objects, when its own blocks are none of the
others'. -/
theorem ObjectsSound.step (h : ObjectsSound mem dev objects)
    (hstep : ObjectStep mem.allocator a' dev dev' own block object)
    (hown : ∀ other object', other ≠ block → objects other = some object' →
      ∀ b, b = block ∨ own b → b ≠ other ∧ ¬dev.Names other b) :
    ObjectsSound { mem with allocator := a' } dev' (Function.update objects block (some object)) := by
  obtain ⟨taken, hgrown⟩ := hstep.grown
  -- the other objects and their blocks are not written
  have houtside : ∀ other object', other ≠ block → objects other = some object' →
      ∀ b, b = other ∨ dev.Names other b →
        ValidLba b ∧ ¬(b = block ∨ own b ∨ mem.allocator.Fresh b) := by
    intro other object' hne hother b hb
    have htaken : InStore b ∧ mem.allocator.Used b := by
      rcases hb with heq | hnames
      · rw [heq]
        exact h.taken other object' hother
      · have hthis := h.names other object' b hother hnames
        exact ⟨hthis.1, hthis.2.1⟩
    refine ⟨htaken.1.valid, fun hwritten => ?_⟩
    rw [← or_assoc] at hwritten
    rcases hwritten with hours | hfresh
    · obtain ⟨hnot, hnot'⟩ := hown other object' hne hother b hours
      exact hb.elim hnot hnot'
    · exact hfresh.2 htaken.2
  have hversions : ∀ other object' buf, other ≠ block → objects other = some object' →
      dev'.Version other buf → dev.Version other buf := by
    intro other object' buf hne hother hversion
    obtain ⟨hvalid, hnot⟩ := houtside other object' hne hother other (.inl rfl)
    exact hstep.evolves.versions other buf hvalid hnot hversion
  have hnames : ∀ other object' b, other ≠ block → objects other = some object' →
      dev'.Names other b → dev.Names other b := by
    rintro other object' b hne hother ⟨hzero, buf, hversion, hmem⟩
    exact ⟨hzero, buf, hversions other object' buf hne hother hversion, hmem⟩
  -- what the object names is named by no other
  have hapart : ∀ other object' b, other ≠ block → objects other = some object' →
      dev'.Names block b → ¬dev.Names other b ∧ b ≠ other := by
    intro other object' b hne hother hb
    rcases (hstep.names b hb).1 with hours | hfresh
    · obtain ⟨hnot, hnot'⟩ := hown other object' hne hother b (.inr hours)
      exact ⟨hnot', hnot⟩
    · refine ⟨fun hnamed => hfresh.2 (h.names other object' b hother hnamed).2.1, fun heq => ?_⟩
      exact hfresh.2 (heq ▸ (h.taken other object' hother).2)
  have hcases : ∀ other object', Function.update objects block (some object) other = some object' →
      (other = block ∧ object' = object) ∨ (other ≠ block ∧ objects other = some object') := by
    intro other object' hother
    by_cases heq : other = block
    · rw [heq, Function.update_self] at hother
      exact .inl ⟨heq, (Option.some.inj hother).symm⟩
    · rw [Function.update_of_ne heq] at hother
      exact .inr ⟨heq, hother⟩
  refine ⟨hgrown.hint, hstep.evolves.oneSlot, ?_, ?_, ?_, ?_, ?_⟩
  · intro other object' hother
    rcases hcases other object' hother with ⟨heq, -⟩ | ⟨hne, hold⟩
    · rw [heq]
      exact hstep.taken
    · have htaken := h.taken other object' hold
      exact ⟨htaken.1, hgrown.used_mono htaken.2⟩
  · intro other object' buf hother hversion
    rcases hcases other object' hother with ⟨heq, hobject⟩ | ⟨hne, hold⟩
    · rw [heq] at hversion
      rw [hobject]
      exact hstep.header buf hversion
    · exact h.header other object' buf hold (hversions other object' buf hne hold hversion)
  · intro other object' b hother hb
    rcases hcases other object' hother with ⟨heq, -⟩ | ⟨hne, hold⟩
    · rw [heq] at hb
      obtain ⟨-, hnot, hin, hused⟩ := hstep.names b hb
      refine ⟨hin, hused, ?_⟩
      rw [Function.update_of_ne hnot]
      cases hfound : objects b with
      | none => rfl
      | some object'' => exact absurd rfl (hapart b object'' b hnot hfound hb).2
    · obtain ⟨hin, hused, hnone⟩ := h.names other object' b hold (hnames other object' b hne hold hb)
      have hnot : b ≠ block := fun heq =>
        (houtside other object' hne hold b (.inr (hnames other object' b hne hold hb))).2 (.inl heq)
      refine ⟨hin, hgrown.used_mono hused, ?_⟩
      rw [Function.update_of_ne hnot]
      exact hnone
  · intro one other object₁ object₂ b hne hone hother hb hb'
    rcases hcases one object₁ hone with ⟨heq, -⟩ | ⟨hne₁, hold₁⟩
    · rcases hcases other object₂ hother with ⟨heq', -⟩ | ⟨hne₂, hold₂⟩
      · exact hne (heq.trans heq'.symm)
      · rw [heq] at hb
        exact (hapart other object₂ b hne₂ hold₂ hb).1 (hnames other object₂ b hne₂ hold₂ hb')
    · rcases hcases other object₂ hother with ⟨heq', -⟩ | ⟨hne₂, hold₂⟩
      · rw [heq'] at hb'
        exact (hapart one object₁ b hne₁ hold₁ hb').1 (hnames one object₁ b hne₁ hold₁ hb)
      · exact h.apart one other object₁ object₂ b hne hold₁ hold₂
          (hnames one object₁ b hne₁ hold₁ hb) (hnames other object₂ b hne₂ hold₂ hb')
  · intro other object' data hother hdata
    rcases hcases other object' hother with ⟨heq, hobject⟩ | ⟨hne, hold⟩
    · rw [hobject] at hdata ⊢
      rw [heq]
      exact hstep.stored data hdata
    · obtain ⟨written, hstored⟩ := h.stored other object' data hold hdata
      have hsame : ∀ b, b = other ∨ dev.Names other b →
          dev'.disk.sectors b = dev.disk.sectors b := by
        intro b hb
        obtain ⟨hvalid, hnot⟩ := houtside other object' hne hold b hb
        exact hstep.evolves.sectors b hvalid hnot
      exact ⟨written, hstored.frame (hsame other (.inl rfl)) fun b hb =>
        hsame b (.inr (hstored.names hb))⟩

/-- Calls that write free blocks only keep what holds of the objects. -/
theorem ObjectsSound.fresh (h : ObjectsSound mem dev objects) {taken : List UInt32}
    (hgrown : Grown mem.allocator a' taken) (hevolves : Evolves mem.allocator.Fresh dev dev') :
    ObjectsSound { mem with allocator := a' } dev' objects := by
  have hversions : ∀ block object buf, objects block = some object → dev'.Version block buf →
      dev.Version block buf := by
    intro block object buf hobject
    obtain ⟨hin, hused⟩ := h.taken block object hobject
    exact hevolves.versions block buf hin.valid fun hfresh => hfresh.2 hused
  have hnames : ∀ block object b, objects block = some object → dev'.Names block b →
      dev.Names block b := by
    rintro block object b hobject ⟨hzero, buf, hversion, hmem⟩
    exact ⟨hzero, buf, hversions block object buf hobject hversion, hmem⟩
  refine ⟨hgrown.hint, hevolves.oneSlot, ?_, ?_, ?_, ?_, ?_⟩
  · intro block object hobject
    obtain ⟨hin, hused⟩ := h.taken block object hobject
    exact ⟨hin, hgrown.used_mono hused⟩
  · exact fun block object buf hobject hversion =>
      h.header block object buf hobject (hversions block object buf hobject hversion)
  · intro block object b hobject hb
    obtain ⟨hin, hused, hnone⟩ := h.names block object b hobject (hnames block object b hobject hb)
    exact ⟨hin, hgrown.used_mono hused, hnone⟩
  · exact fun block other object object' b hne hobject hother hb hb' =>
      h.apart block other object object' b hne hobject hother (hnames block object b hobject hb)
        (hnames other object' b hother hb')
  · intro block object data hobject hdata
    obtain ⟨written, hstored⟩ := h.stored block object data hobject hdata
    have hsame : ∀ b, InStore b ∧ mem.allocator.Used b →
        dev'.disk.sectors b = dev.disk.sectors b := fun b hb =>
      hevolves.sectors b hb.1.valid fun hfresh => hfresh.2 hb.2
    refine ⟨written, hstored.frame (hsame block (h.taken block object hobject)) fun b hb => ?_⟩
    obtain ⟨hin, hused, -⟩ := h.names block object b hobject (hstored.names hb)
    exact hsame b ⟨hin, hused⟩

/-- A call that wrote nothing of an object that lasts leaves the object as it was, and its data
need not be remembered. -/
theorem ObjectsSound.unwritten (h : ObjectsSound mem dev objects)
    (hobject : objects block = some object) (hgrown : ∃ taken, Grown mem.allocator a' taken)
    (hevolves : Evolves (fun b => dev.Names block b ∨ mem.allocator.Fresh b) dev dev') :
    ObjectStep mem.allocator a' dev dev' (dev.Names block) block ⟨object.type, none⟩ := by
  obtain ⟨taken, hgrown⟩ := hgrown
  obtain ⟨hin, hused⟩ := h.taken block object hobject
  have hnot : ¬(dev.Names block block ∨ mem.allocator.Fresh block) := by
    rintro (hnames | hfresh)
    · rw [(h.names block object block hobject hnames).2.2] at hobject
      cases hobject
    · exact hfresh.2 hused
  have hversions := fun buf => hevolves.versions block buf hin.valid hnot
  refine ⟨⟨taken, hgrown⟩, hevolves.mono fun b hb => .inr hb, ⟨hin, hgrown.used_mono hused⟩, ?_, ?_,
    by rintro _ ⟨⟩⟩
  · exact fun buf hversion => h.header block object buf hobject (hversions buf hversion)
  · rintro b ⟨hzero, buf, hversion, hmem⟩
    have hnames : dev.Names block b := ⟨hzero, buf, hversions buf hversion, hmem⟩
    obtain ⟨hin', hused', hnone⟩ := h.names block object b hobject hnames
    refine ⟨.inl hnames, fun heq => ?_, hin', hgrown.used_mono hused'⟩
    rw [heq, hobject] at hnone
    cases hnone

/-- The blocks of an object are none of the others'. -/
theorem ObjectsSound.own_apart (h : ObjectsSound mem dev objects)
    (hobject : objects block = some object) (other : UInt32) (object' : ObjectRecord)
    (hne : other ≠ block) (hother : objects other = some object') (b : UInt32)
    (hb : b = block ∨ dev.Names block b) : b ≠ other ∧ ¬dev.Names other b := by
  rcases hb with heq | hnames
  · rw [heq]
    refine ⟨Ne.symm hne, fun hnamed => ?_⟩
    rw [(h.names other object' block hother hnamed).2.2] at hobject
    cases hobject
  · refine ⟨fun heq => ?_, h.apart block other object object' b (Ne.symm hne) hobject hother hnames⟩
    rw [← heq, (h.names block object b hobject hnames).2.2] at hother
    cases hother

/-- hexafs_object_alloc, whatever fails. -/
theorem hexafsObjectAlloc_sound (h : ObjectsSound mem dev objects) (type : UInt8) :
    (hexafsObjectAlloc type).wp (cachedDevice env) mem dev fun block mem' dev' =>
      ObjectsSound mem' dev'
        (if block = 0 then objects else Function.update objects block (some ⟨type, none⟩)) := by
  simp only [hexafsObjectAlloc, Code.wp_bind]
  refine hexafsAllocBlock_cached h.hint (fun _ => ?_) fun b a' hgrown => ?_
  · rw [if_pos rfl, Code.wp_pure, if_pos rfl]
    exact h.fresh (Grown.full h.hint) (Evolves.refl h.oneSlot)
  · have hmem := List.mem_singleton_self b
    have hfresh := hgrown.fresh b hmem
    have hused := hgrown.used_of_mem hmem
    simp only [if_neg hfresh.1.ne_zero, Code.wp_bind, Code.wp_memory]
    have hzeroed := (evolves_write h.oneSlot env hfresh.1.valid zeroSector).1
    obtain ⟨hheader, -, hreturns⟩ := evolves_write hzeroed.oneSlot env hfresh.1.valid
      (toBlock 512 (newObject type mem.sbCache.timestamp))
    have hevolves := hzeroed.trans hheader
    refine wp_cacheWrite ?_
    generalize cacheWrite env b (toBlock 512 (newObject type mem.sbCache.timestamp))
      (cacheWrite env b zeroSector dev).2 = result at *
    cases hok : result.1 with
    | true =>
      rw [if_pos rfl, Code.wp_pure, if_neg hfresh.1.ne_zero]
      have honly : ∀ buf, result.2.Version b buf →
          ofBlock HexafsObject buf = newObject type mem.sbCache.timestamp := by
        intro buf hversion
        rw [(hreturns hok).2 buf hversion, ofBlock_toBlock]
      have hzeros : ∀ c ∈ (newObject type mem.sbCache.timestamp).slots, c = 0 :=
        fun c hc => List.eq_of_mem_replicate (n := 4) hc
      have hstep : ObjectStep mem.allocator a' dev result.2 (fun _ => False) b ⟨type, none⟩ := by
        refine ⟨⟨[b], hgrown⟩, hevolves.mono fun c hc => .inl hc, ⟨hfresh.1, hused⟩,
          fun buf hversion => ?_, ?_, by rintro _ ⟨⟩⟩
        · rw [honly buf hversion]
          exact ⟨(newObject_ok type mem.sbCache.timestamp).magic, rfl, List.nodup_nil⟩
        · rintro c ⟨hzero, buf, hversion, hc⟩
          rw [honly buf hversion] at hc
          exact absurd (hzeros c hc) hzero
      refine h.step hstep ?_
      · rintro other object' hne hother c (heq | hfalse)
        · rw [heq]
          refine ⟨Ne.symm hne, fun hnames => ?_⟩
          exact hfresh.2 (h.names other object' b hother hnames).2.1
        · exact hfalse.elim
    | false =>
      rw [if_neg Bool.false_ne_true, Code.wp_bind]
      refine hexafsFreeBlock_cached hgrown hmem fun a'' hgrown' => ?_
      rw [Code.wp_pure, if_pos rfl]
      exact h.fresh hgrown' (hevolves.mono fun c hc => hc ▸ hfresh)

/-- The blocks that the slots of a header name, all of them or the first ones, fit. -/
theorem ObjectsSound.slotsFit (h : ObjectsSound mem dev objects)
    (hobject : objects block = some object) {buf : Sector} (hversion : dev.Version block buf)
    (left : ℕ) : SlotsFit mem.allocator ((ofBlock HexafsObject buf).slots.take left) := by
  constructor
  · intro b hb hne
    have hnames : dev.Names block b := ⟨hne, buf, hversion, List.mem_of_mem_take hb⟩
    obtain ⟨hin, hused, hnone⟩ := h.names block object b hobject hnames
    exact ⟨hin, hused⟩
  · obtain ⟨-, -, hnodup⟩ := h.header block object buf hobject hversion
    exact hnodup.sublist ((List.take_sublist left _).filter _)

/-- The header that a write of the data leaves. -/
theorem storedOn_withContent {sectors : UInt32 → Sector} {obj : HexafsObject}
    {written : List UInt32} {data : List UInt8} (hmagic : objMagicOk obj = true)
    (hheader : sectors block =
      toBlock 512 (obj.withContent (written ++ List.replicate (4 - written.length) 0) data))
    (hlength : written.length = contentBlockCount (UInt32.ofNat data.length))
    (hnodup : written.Nodup) (hin : ∀ b ∈ written, InStore b) (hapart : block ∉ written)
    (hstored : written.map sectors = contentSectors written.length data) :
    StoredOn sectors block obj.type data written := by
  have hobj : objectAt sectors block =
      obj.withContent (written ++ List.replicate (4 - written.length) 0) data := by
    rw [objectAt, hheader, ofBlock_toBlock]
  have hfour : written.length ≤ 4 := by
    rw [hlength]
    exact Nat.min_le_left _ _
  refine ⟨?_, ?_, ?_, ?_, hlength, hnodup, hin, hapart, hstored⟩
  · rw [hobj]
    exact hmagic
  · rw [hobj]
    rfl
  · rw [hobj]
    rfl
  · rw [hobj, slots_withContent hfour]

/-- The write of the header behind the content. -/
theorem ObjectsSound.headerStep (h : ObjectsSound mem dev objects)
    (hobject : objects block = some object) {dev'' : Device} {buf : Sector} {data : List UInt8}
    {written : List UInt32} {ok : Bool} {header : HexafsObject} (hversion : dev.Version block buf)
    (hnew : header = (ofBlock HexafsObject buf).withContent
      (written ++ List.replicate (4 - written.length) 0) data)
    (hgrown : ∃ taken, Grown mem.allocator a' taken)
    (hevolves : Evolves (fun b => dev.Names block b ∨ mem.allocator.Fresh b) dev dev')
    (hwrite : Evolves (· = block) dev' dev'')
    (hadded : ∀ other, dev''.Version block other →
      other = toBlock 512 header ∨ dev'.Version block other)
    (hreturns : ok = true → dev''.disk.sectors block = toBlock 512 header)
    (hcount : written.length = contentBlockCount (UInt32.ofNat data.length))
    (hfit : SlotsFit a' written) (hzero : 0 ∉ written)
    (hfrom : ∀ b ∈ written, dev.Names block b ∨ mem.allocator.Fresh b)
    (hstored : written.map dev'.disk.sectors = contentSectors written.length data) :
    ObjectStep mem.allocator a' dev dev'' (dev.Names block) block
      ⟨object.type, if ok then some data else none⟩ := by
  obtain ⟨taken, hgrown⟩ := hgrown
  obtain ⟨hin, hused⟩ := h.taken block object hobject
  obtain ⟨hmagic, htype, -⟩ := h.header block object buf hobject hversion
  have hnot : ¬(dev.Names block block ∨ mem.allocator.Fresh block) := by
    rintro (hnames | hfresh)
    · rw [(h.names block object block hobject hnames).2.2] at hobject
      cases hobject
    · exact hfresh.2 hused
  have hfour : written.length ≤ 4 := by
    rw [hcount]
    exact Nat.min_le_left _ _
  have hfilter : written.filter (· ≠ 0) = written :=
    List.filter_eq_self.mpr fun b hb => decide_eq_true fun heq => hzero (heq ▸ hb)
  have hnodup : written.Nodup := by
    have hfiltered := hfit.nodup
    rw [hfilter] at hfiltered
    exact hfiltered
  have hslots : header.slots = written ++ List.replicate (4 - written.length) 0 := by
    rw [hnew, slots_withContent hfour]
  have hnamed : ∀ b ∈ header.slots, b ≠ 0 → b ∈ written := by
    intro b hb hne
    rw [hslots] at hb
    exact (List.mem_append.mp hb).resolve_right fun hzeros => hne (List.eq_of_mem_replicate hzeros)
  -- a version of the header is the new one or an old one
  have hcases : ∀ other, dev''.Version block other →
      ofBlock HexafsObject other = header ∨ dev.Version block other := by
    intro other hother
    rcases hadded other hother with heq | hold
    · left
      rw [heq, ofBlock_toBlock]
    · exact .inr (hevolves.versions block other hin.valid hnot hold)
  have hout : block ∉ written := fun hmem => hnot (hfrom block hmem)
  refine ⟨⟨taken, hgrown⟩, ?_, ⟨hin, hgrown.used_mono hused⟩, ?_, ?_, ?_⟩
  · exact (hevolves.mono fun b hb => .inr hb).trans (hwrite.mono fun b hb => .inl hb)
  · intro other hother
    rcases hcases other hother with heq | hold
    · rw [heq, hslots]
      refine ⟨?_, ?_, ?_⟩
      · rw [hnew]
        exact hmagic
      · rw [hnew]
        exact htype
      · rw [List.filter_append, hfilter]
        have hzeros : (List.replicate (4 - written.length) (0 : UInt32)).filter (· ≠ 0) = [] :=
          List.filter_eq_nil_iff.mpr fun b hb => by
            rw [List.eq_of_mem_replicate hb]
            decide
        rw [hzeros, List.append_nil]
        exact hnodup
    · exact h.header block object other hobject hold
  · rintro b ⟨hne, other, hother, hmem⟩
    rcases hcases other hother with heq | hold
    · rw [heq] at hmem
      have hb := hnamed b hmem hne
      obtain ⟨hinside, htaken⟩ := hfit.taken b hb hne
      exact ⟨hfrom b hb, fun heq' => hout (heq' ▸ hb), hinside, htaken⟩
    · have hnames : dev.Names block b := ⟨hne, other, hold, hmem⟩
      obtain ⟨hin', hused', hnone⟩ := h.names block object b hobject hnames
      refine ⟨.inl hnames, fun heq => ?_, hin', hgrown.used_mono hused'⟩
      rw [heq, hobject] at hnone
      cases hnone
  · intro data' hdata
    cases ok with
    | false => cases hdata
    | true =>
      obtain rfl : data = data' := Option.some.inj hdata
      refine ⟨written, ?_⟩
      rw [← htype]
      refine storedOn_withContent hmagic (by rw [hreturns rfl, hnew]) hcount hnodup
        (fun b hb => (hfit.taken b hb fun heq => hzero (heq ▸ hb)).1) hout ?_
      rw [← hstored]
      refine List.map_congr_left fun b hb => ?_
      refine hwrite.sectors b ?_ fun heq => hout (heq ▸ hb)
      exact (hfit.taken b hb fun heq => hzero (heq ▸ hb)).1.valid

/-- hexafs_object_write_data, whatever fails. -/
theorem hexafsObjectWriteData_sound (h : ObjectsSound mem dev objects)
    (hobject : objects block = some object) (data : List UInt8) :
    (hexafsObjectWriteData block data).wp (cachedDevice env) mem dev fun ok mem' dev' =>
      ObjectsSound mem' dev' (Function.update objects block
        (some ⟨object.type, if ok then some data else none⟩)) := by
  obtain ⟨hin, hused⟩ := h.taken block object hobject
  have hown := h.own_apart hobject
  obtain ⟨hread, hfound⟩ := evolves_read h.oneSlot env block
  have hkept : ∀ {dev' : Device}, Evolves (fun _ => False) dev dev' →
      Evolves (fun b => dev.Names block b ∨ mem.allocator.Fresh b) dev dev' :=
    fun hevolves => hevolves.mono fun b hb => hb.elim
  simp only [hexafsObjectWriteData, Code.wp_bind]
  refine wp_cacheRead ?_
  generalize cacheRead env block dev = reply at *
  cases hreply : reply.1 with
  | none =>
    rw [Code.wp_pure]
    exact h.step (h.unwritten hobject ⟨[], Grown.refl h.hint⟩ (hkept hread)) hown
  | some buf =>
    have hversion := hfound hin.valid buf hreply
    obtain ⟨hmagic, htype, hnodup⟩ := h.header block object buf hobject hversion
    dsimp only
    rw [if_pos hmagic, Code.wp_bind]
    have hfour : contentBlockCount (UInt32.ofNat data.length) ≤ 4 := Nat.min_le_left _ _
    have hslots := length_slots (ofBlock HexafsObject buf)
    refine writeContent_stored hread.oneSlot h.hint (by rw [hslots]; exact hfour)
      (h.slotsFit hobject hversion _) fun result a' dev' hcontent => ?_
    obtain ⟨taken, hgrown⟩ := hcontent.grown
    have hevolves : Evolves (fun b => dev.Names block b ∨ mem.allocator.Fresh b) dev dev' := by
      refine (hkept hread).trans (hcontent.evolves.mono fun b hb => hb.imp (fun hmem => ?_) id)
      exact ⟨hmem.1, buf, hversion, List.mem_of_mem_take hmem.2⟩
    cases result with
    | none =>
      rw [Code.wp_pure]
      exact h.step (h.unwritten hobject ⟨taken, hgrown⟩ hevolves) hown
    | some filled =>
      obtain ⟨written, hfilled, hlength, hfit, hzero, hfrom, hstored⟩ := hcontent.stored filled rfl
      have hcount : written.length = contentBlockCount (UInt32.ofNat data.length) := by
        rw [hlength, List.length_take, hslots, Nat.min_eq_left hfour]
      have hrest : (((ofBlock HexafsObject buf).slots.drop (contentBlockCount
          (UInt32.ofNat data.length))).map fun _ => (0 : UInt32)) =
            List.replicate (4 - written.length) 0 := by
        rw [List.map_const', List.length_drop, hslots, hcount]
      rw [← hlength] at hstored
      rw [hrest] at hfilled
      dsimp only
      generalize hnew : (ofBlock HexafsObject buf).withContent filled data = header
      rw [hfilled] at hnew
      obtain ⟨hheader, hadded, hreturns⟩ := evolves_write hcontent.evolves.oneSlot env hin.valid
        (toBlock 512 header)
      refine wp_cacheWrite (h.step (h.headerStep hobject hversion hnew.symm ⟨taken, hgrown⟩ hevolves
        hheader hadded (fun hok => (hreturns hok).1) hcount hfit hzero (fun b hb => ?_) hstored) hown)
      refine (hfrom b hb).imp (fun hmem => ?_) id
      exact ⟨fun heq => hzero (heq ▸ hb), buf, hversion, List.mem_of_mem_take hmem⟩

end Steps

section Runs

variable {env : Environment} {objects : UInt32 → Option ObjectRecord} {machine after : Machine}

/-- Runs that make objects, write them and read blocks as objects, in any order. A call may fail
at any point, and the records are what its return value says. -/
inductive RecordRun (env : Environment) : (UInt32 → Option ObjectRecord) → Machine → Prop
  /-- A start in any state of a store, before the first object is made. -/
  | start {machine : Machine} (hint : machine.mem.allocator.HintOk)
      (oneSlot : machine.dev.OneSlot) : RecordRun env (fun _ => none) machine
  /-- A call of hexafs_object_alloc. -/
  | alloc {objects : UInt32 → Option ObjectRecord} {machine after : Machine} {type : UInt8}
      {block : UInt32} (before : RecordRun env objects machine)
      (called : machine.run env (hexafsObjectAlloc type) = .ok (block, after)) :
      RecordRun env
        (if block = 0 then objects else Function.update objects block (some ⟨type, none⟩)) after
  /-- A call of hexafs_object_write_data. -/
  | write {objects : UInt32 → Option ObjectRecord} {machine after : Machine}
      {object : ObjectRecord} {block : UInt32} {data : List UInt8} {ok : Bool}
      (before : RecordRun env objects machine) (made : objects block = some object)
      (called : machine.run env (hexafsObjectWriteData block data) = .ok (ok, after)) :
      RecordRun env (Function.update objects block
        (some ⟨object.type, if ok then some data else none⟩)) after
  /-- A call of hexafs_object_read_data. -/
  | read {objects : UInt32 → Option ObjectRecord} {machine after : Machine} {block : UInt32}
      {result : Option ObjectRead} (before : RecordRun env objects machine)
      (called : machine.run env (hexafsObjectReadData block) = .ok (result, after)) :
      RecordRun env objects after

/-- The content loop of a read writes nothing. -/
theorem readContent_evolves {mem : Memory} {dev : Device} (h : dev.OneSlot) (slots : List UInt32)
    (remaining : ℕ) : (readContent slots remaining).wp (cachedDevice env) mem dev
      fun _ mem' dev' => mem' = mem ∧ Evolves (fun _ => False) dev dev' := by
  induction slots generalizing remaining dev with
  | nil =>
    rw [readContent, Code.wp_pure]
    exact ⟨rfl, Evolves.refl h⟩
  | cons slot slots ih =>
    rw [readContent]
    split
    · rw [Code.wp_pure]
      exact ⟨rfl, Evolves.refl h⟩
    · rw [Code.wp_bind]
      have hread := (evolves_read h env slot).1
      refine wp_cacheRead ?_
      cases hreply : (cacheRead env slot dev).1 with
      | none =>
        rw [Code.wp_pure]
        exact ⟨rfl, hread⟩
      | some buf =>
        simp only [Code.wp_bind]
        refine Code.wp_mono (ih hread.oneSlot _) fun more mem' dev' hmore => ?_
        rw [Code.wp_pure]
        exact ⟨hmore.1, hread.trans hmore.2⟩

/-- hexafs_object_read_data writes nothing. -/
theorem hexafsObjectReadData_evolves {mem : Memory} {dev : Device} (h : dev.OneSlot)
    (block : UInt32) : (hexafsObjectReadData block).wp (cachedDevice env) mem dev
      fun _ mem' dev' => mem' = mem ∧ Evolves (fun _ => False) dev dev' := by
  have hread := (evolves_read h env block).1
  rw [hexafsObjectReadData, Code.wp_bind]
  refine wp_cacheRead ?_
  cases hreply : (cacheRead env block dev).1 with
  | none =>
    rw [Code.wp_pure]
    exact ⟨rfl, hread⟩
  | some buf =>
    dsimp only
    split
    · split
      · rw [Code.wp_bind]
        refine Code.wp_mono (readContent_evolves hread.oneSlot _ _) fun content mem' dev' h' => ?_
        rw [Code.wp_pure]
        exact ⟨h'.1, hread.trans h'.2⟩
      · rw [Code.wp_pure]
        exact ⟨rfl, hread⟩
    · rw [Code.wp_pure]
      exact ⟨rfl, hread⟩

/-- What holds of the objects after every run. -/
theorem RecordRun.sound (run : RecordRun env objects machine) :
    ObjectsSound machine.mem machine.dev objects := by
  induction run with
  | start hint oneSlot =>
    exact ⟨hint, oneSlot, by rintro _ _ ⟨⟩, by rintro _ _ _ ⟨⟩, by rintro _ _ _ ⟨⟩,
      by rintro _ _ _ _ _ _ ⟨⟩, by rintro _ _ _ ⟨⟩⟩
  | alloc before called ih =>
    exact Machine.faulty_elim (hexafsObjectAlloc_sound ih _) called
  | write before made called ih =>
    exact Machine.faulty_elim (hexafsObjectWriteData_sound ih made _) called
  | @read objects machine after block result before called ih =>
    have hread := Machine.faulty_elim (hexafsObjectReadData_evolves ih.oneSlot block) called
    have hsound : ObjectsSound { machine.mem with allocator := machine.mem.allocator } after.dev
        objects := ih.fresh (Grown.refl ih.hint) (hread.2.mono fun _ => False.elim)
    rw [hread.1]
    exact hsound

end Runs

end HexaOS.Hexafs
