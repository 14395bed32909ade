import HexaOS.CorruptedRecords
import HexaOS.HexafsObjectReads
import HexaOS.HexafsObjectWrites

/-!
# Objects with a changed byte

hexafs_object_read_data computes the checksum of a header to store it in place of a wrong one,
and does not look at content_hash. So after a byte of an object was changed on the disk it
refuses the object only when the upper bytes of the magic are wrong; otherwise it returns what
the fields and the sectors hold.
-/

namespace HexaOS.Hexafs

open DevicePrograms PackedBytes StoreTyping
open Shell (replaceByte ofBytes_injOn)

/-- The bytes that the content loop of hexafs_object_read_data finds on a disk. -/
def contentOn (sectors : UInt32 → Sector) : List UInt32 → ℕ → List UInt8
  | [], _ => []
  | db :: rest, remaining =>
    if remaining = 0 ∨ db = 0 then []
    else (sectors (ataAddress db)).bytes.take (min remaining 512) ++
      contentOn sectors rest (remaining - min remaining 512)

/-- What hexafs_object_read_data finds on a disk when no transfer fails. -/
def objectOn (sectors : UInt32 → Sector) (block : UInt32) : Option ObjectRead :=
  let obj := objectAt sectors block
  if objMagicOk obj then
    some ⟨true, obj.type, obj.contentSize, contentOn sectors obj.slots obj.contentSize.toNat⟩
  else none

/-- The disk has these sectors, and the slots of the cache hold bytes of the disk. -/
structure Device.Clean (sectors : UInt32 → Sector) (dev : Device) : Prop where
  /-- The disk holds these sectors. -/
  sectors_eq : dev.disk.sectors = sectors
  /-- The cache holds what the disk does. -/
  slots : SlotsHold (· ≠ 0) (fun lba data => data = sectors (ataAddress lba)) dev.blockCache

section Reading

variable {env : Environment} {mem : Memory} {dev : Device} {sectors : UInt32 → Sector}
  {lba block : UInt32}

/-- A read keeps the cache clean, and answers with the bytes on the disk or fails. -/
theorem Device.Clean.read (h : dev.Clean sectors) (env : Environment) (lba : UInt32) :
    (cacheRead env lba dev).2.Clean sectors ∧
      (lba ≠ 0 → (∀ buf, (cacheRead env lba dev).1 = some buf → buf = sectors (ataAddress lba)) ∧
        ((∀ n, env.readOk n = true) → (cacheRead env lba dev).1.isSome = true)) := by
  cases hfind : cacheFind lba dev.blockCache with
  | some idx =>
    obtain ⟨slot, hslot, hlba, hread⟩ := cacheRead_found env hfind
    rw [hread]
    refine ⟨h, fun hne => ⟨fun buf hbuf => ?_, fun _ => rfl⟩⟩
    have hdata := h.slots.holds slot hslot (by rw [hlba]; exact hne)
    rw [hlba] at hdata
    rw [← Option.some.inj hbuf, hdata]
  | none =>
    cases hok : env.readOk dev.disk.readCount with
    | true =>
      rw [cacheRead_missed hfind hok]
      refine ⟨⟨h.sectors_eq, h.slots.set ?_ ?_ fun _ _ _ hheld => hheld⟩,
        fun _ => ⟨fun buf hbuf => ?_, fun _ => rfl⟩⟩
      · intro j slot hslot hlba
        exact absurd hlba (cacheFind_none hfind slot (List.mem_of_getElem? hslot))
      · exact congrFun h.sectors_eq _
      · rw [← Option.some.inj hbuf, h.sectors_eq]
    | false =>
      rw [cacheRead_failed hfind hok]
      refine ⟨⟨h.sectors_eq, h.slots⟩, fun _ => ⟨by rintro _ ⟨⟩, fun hall => ?_⟩⟩
      rw [hall] at hok
      cases hok

/-- The content loop of a read, whatever fails. -/
theorem readContent_clean (h : dev.Clean sectors) (slots : List UInt32) (remaining : ℕ) :
    (readContent slots remaining).wp (cachedDevice env) mem dev fun result _ dev' =>
      dev'.Clean sectors ∧ (result.1 = true → result.2 = contentOn sectors slots remaining) ∧
        ((∀ n, env.readOk n = true) → result.1 = true) := by
  induction slots generalizing remaining mem dev with
  | nil =>
    rw [readContent, Code.wp_pure]
    exact ⟨h, fun _ => rfl, fun _ => rfl⟩
  | cons db rest ih =>
    rw [readContent, contentOn]
    by_cases hstop : remaining = 0 ∨ db = 0
    · rw [if_pos hstop, if_pos hstop, Code.wp_pure]
      exact ⟨h, fun _ => rfl, fun _ => rfl⟩
    · rw [if_neg hstop, if_neg hstop, Code.wp_bind]
      obtain ⟨hclean, hanswer⟩ := h.read env db
      obtain ⟨hbytes, hsome⟩ := hanswer fun hzero => hstop (.inr hzero)
      refine wp_cacheRead ?_
      cases hreply : (cacheRead env db dev).1 with
      | none =>
        rw [hreply] at hsome
        rw [Code.wp_pure]
        exact ⟨hclean, by rintro ⟨⟩, fun hall => absurd (hsome hall) Bool.false_ne_true⟩
      | some buf =>
        simp only [Code.wp_bind]
        refine Code.wp_mono (ih hclean _) fun more mem' dev' hmore => ?_
        rw [Code.wp_pure]
        refine ⟨hmore.1, fun hok => ?_, hmore.2.2⟩
        rw [hbytes buf hreply, hmore.2.1 hok]

/-- hexafs_object_read_data on a clean cache, whatever fails. -/
theorem hexafsObjectReadData_clean (h : dev.Clean sectors) (hin : InStore block) :
    (hexafsObjectReadData block).wp (cachedDevice env) mem dev fun result _ dev' =>
      dev'.Clean sectors ∧
        (∀ read, result = some read → read.ok = true → objectOn sectors block = some read) ∧
          ((∀ n, env.readOk n = true) → result = objectOn sectors block) := by
  obtain ⟨hclean, hanswer⟩ := h.read env block
  obtain ⟨hbytes, hsome⟩ := hanswer hin.ne_zero
  rw [ataAddress_of_valid hin.valid] at hbytes
  rw [hexafsObjectReadData, Code.wp_bind]
  refine wp_cacheRead ?_
  cases hreply : (cacheRead env block dev).1 with
  | none =>
    rw [hreply] at hsome
    rw [Code.wp_pure]
    exact ⟨hclean, by rintro _ ⟨⟩, fun hall => absurd (hsome hall) Bool.false_ne_true⟩
  | some buf =>
    obtain rfl := hbytes buf hreply
    have hobject : ofBlock HexafsObject (sectors block) = objectAt sectors block := rfl
    dsimp only
    rw [hobject, objectOn]
    generalize objectAt sectors block = obj
    by_cases hmagic : objMagicOk obj = true
    · rw [if_pos hmagic, if_pos hmagic]
      by_cases hcontent : obj.contentBlock ≠ 0 ∧ 0 < obj.contentSize.toNat
      · rw [if_pos hcontent, Code.wp_bind]
        refine Code.wp_mono (readContent_clean hclean _ _) fun content mem' dev' hread => ?_
        rw [Code.wp_pure]
        refine ⟨hread.1, fun read hsame hok => ?_, fun hall => ?_⟩
        · obtain rfl := Option.some.inj hsame
          have hok' : content.1 = true := hok
          rw [hok', hread.2.1 hok']
        · have hok := hread.2.2 hall
          rw [hok, hread.2.1 hok]
      · have hstop : obj.contentSize.toNat = 0 ∨ obj.contentBlock = 0 := by
          by_contra hboth
          exact hcontent ⟨fun hzero => hboth (.inr hzero), by omega⟩
        have hnone : contentOn sectors obj.slots obj.contentSize.toNat = [] := by
          rw [HexafsObject.slots, contentOn, if_pos hstop]
        rw [if_neg hcontent, Code.wp_pure, hnone]
        exact ⟨hclean, fun read hsame _ => hsame, fun _ => rfl⟩
    · rw [if_neg hmagic, if_neg hmagic, Code.wp_pure]
      exact ⟨hclean, by rintro _ ⟨⟩, fun _ => rfl⟩

/-- hexafs_mount_disk writes nothing, and its reads leave the cache clean. -/
theorem hexafsMountDisk_clean (hsectors : dev.disk.sectors = sectors) :
    hexafsMountDisk.wp (cachedDevice env) mem dev fun _ _ dev' => dev'.Clean sectors := by
  have hload : ∀ (left i : ℕ) (mem : Memory) (dev : Device), dev.Clean sectors →
      (loadBitmapFrom left i).wp (cachedDevice env) mem dev fun _ _ dev' => dev'.Clean sectors := by
    intro left
    induction left with
    | zero =>
      intro i mem dev h
      rw [loadBitmapFrom, Code.wp_pure]
      exact h
    | succ left ih =>
      intro i mem dev h
      have hclean := (h.read env (hexafsAllocLba + UInt32.ofNat i)).1
      rw [loadBitmapFrom, Code.wp_bind]
      refine wp_cacheRead ?_
      cases (cacheRead env (hexafsAllocLba + UInt32.ofNat i) dev).1 with
      | none =>
        rw [Code.wp_pure]
        exact hclean
      | some buf =>
        simp only [Code.wp_bind, wp_modifyAllocator_cached]
        exact ih _ _ _ hclean
  have hcleared : Device.Clean sectors { dev with blockCache := emptyCache } :=
    ⟨hsectors, SlotsHold.empty fun hzero => hzero rfl⟩
  have hclean := (hcleared.read env hexafsSuperLba).1
  rw [hexafsMountDisk, Code.wp_bind, clearBlockCache]
  refine Code.wp_request rfl ?_
  rw [Code.wp_bind, hexafsReadSuperblock, Code.wp_bind]
  refine wp_cacheRead ?_
  cases (cacheRead env hexafsSuperLba { dev with blockCache := emptyCache }).1 with
  | none =>
    simp only [Code.wp_pure]
    rw [if_neg Bool.false_ne_true, Code.wp_pure]
    exact hclean
  | some buf =>
    dsimp only
    split
    · simp only [Code.wp_bind, Code.wp_modify, Code.wp_pure, if_true]
      rw [bitmapLoad, Code.wp_bind]
      refine Code.wp_mono (hload _ _ _ _ hclean) fun ok mem' dev' hloaded => ?_
      cases ok with
      | true =>
        simp only [if_true, Code.wp_bind, wp_modifyAllocator_cached, Code.wp_pure, Code.wp_modify]
        exact hloaded
      | false =>
        simp only [Bool.false_eq_true, if_false, Code.wp_pure]
        exact hloaded
    · simp only [Code.wp_pure]
      rw [if_neg Bool.false_ne_true, Code.wp_pure]
      exact hclean

end Reading

section Windows

variable {bytes : List UInt8} {i j n : ℕ} {byte : UInt8}

/-- A part of a byte string changes with another byte just when the byte is in it. -/
theorem window_set_eq_iff (hi : i < bytes.length) (hne : bytes[i]? ≠ some byte) :
    ((bytes.set i byte).drop j).take n = (bytes.drop j).take n ↔ ¬(j ≤ i ∧ i < j + n) := by
  have hat : ∀ k, (((bytes.set i byte).drop j).take n)[k]? =
      if k < n then (if i = j + k then some byte else bytes[j + k]?) else none := by
    intro k
    rw [List.getElem?_take, List.getElem?_drop, List.getElem?_set]
    by_cases hk : k < n
    · rw [if_pos hk, if_pos hk]
      by_cases hsame : i = j + k
      · rw [if_pos hsame, if_pos hsame, if_pos (hsame ▸ hi)]
      · rw [if_neg hsame, if_neg hsame]
    · rw [if_neg hk, if_neg hk]
  constructor
  · intro hsame hinside
    have hplace := congrArg (·[i - j]?) hsame
    have hback : j + (i - j) = i := by omega
    have hn : i - j < n := by omega
    simp only [hat, List.getElem?_take, List.getElem?_drop, hback, if_pos hn, if_true] at hplace
    exact hne hplace.symm
  · intro houtside
    apply List.ext_getElem?
    intro k
    rw [hat, List.getElem?_take, List.getElem?_drop]
    by_cases hk : k < n
    · have hother : i ≠ j + k := by omega
      rw [if_pos hk, if_pos hk, if_neg hother]
    · rw [if_neg hk, if_neg hk]

/-- The word at a place of a byte string. -/
def wordAt (bytes : List UInt8) (j : ℕ) : UInt32 := Packed.ofBytes (bytes.drop j)

/-- A word is four bytes. -/
theorem wordAt_eq (hj : j + 4 ≤ bytes.length) :
    wordAt bytes j = Packed.ofBytes ((bytes.drop j).take 4) := by
  have hlength : 4 ≤ (bytes.drop j).length := by
    rw [List.length_drop]
    omega
  rw [wordAt]
  generalize bytes.drop j = rest at hlength
  have hsplit : toBytes (Packed.ofBytes rest : UInt32) ++ rest.drop 4 = rest := by
    have hbytes : toBytes (Packed.ofBytes rest : UInt32) = rest.take 4 :=
      Packed.toBytes_ofBytes rest hlength
    rw [hbytes, List.take_append_drop]
  have hfront : toBytes (Packed.ofBytes rest : UInt32) = rest.take 4 :=
    Packed.toBytes_ofBytes rest hlength
  rw [← hfront, Packed.ofBytes_toBytes]

/-- A word changes with another byte just when the byte is one of its own. -/
theorem wordAt_set_eq_iff (hi : i < bytes.length) (hne : bytes[i]? ≠ some byte)
    (hj : j + 4 ≤ bytes.length) :
    wordAt (bytes.set i byte) j = wordAt bytes j ↔ ¬(j ≤ i ∧ i < j + 4) := by
  have hj' : j + 4 ≤ (bytes.set i byte).length := by rwa [List.length_set]
  have hfour : ((bytes.drop j).take 4).length = 4 := by
    rw [List.length_take, List.length_drop]
    omega
  have hfour' : (((bytes.set i byte).drop j).take 4).length = 4 := by
    rw [List.length_take, List.length_drop, List.length_set]
    omega
  rw [← window_set_eq_iff hi hne, wordAt_eq hj, wordAt_eq hj']
  exact ofBytes_injOn.eq_iff hfour' hfour

/-- The mask of the magic has the upper 24 bits. -/
theorem magicMask_getLsbD : ∀ i < 32, (0xFFFFFF00#32).getLsbD i = decide (8 ≤ i) := by decide

/-- The magic without its lowest byte. -/
theorem wordOfBytes_and_magicMask (b0 b1 b2 b3 : UInt8) :
    wordOfBytes b0 b1 b2 b3 &&& 0xFFFFFF00 = wordOfBytes 0 b1 b2 b3 := by
  apply UInt32.toBitVec_inj.mp
  ext i hi
  have hmask := magicMask_getLsbD i hi
  rw [BitVec.getLsbD_eq_getElem hi] at hmask
  simp only [wordOfBytes, UInt32.toBitVec_and, UInt32.toBitVec_ofNat, BitVec.getElem_and, hmask]
  simp
  grind

/-- The masked magic changes with another byte just when it is one of the upper three. -/
theorem magicMask_set_eq_iff (hi : i < bytes.length) (hne : bytes[i]? ≠ some byte)
    (hlength : 4 ≤ bytes.length) :
    wordAt (bytes.set i byte) 0 &&& 0xFFFFFF00 = wordAt bytes 0 &&& 0xFFFFFF00 ↔
      ¬(1 ≤ i ∧ i < 4) := by
  have hmasked : ∀ text : List UInt8, 4 ≤ text.length →
      wordAt text 0 &&& 0xFFFFFF00 = Packed.ofBytes (0 :: (text.drop 1).take 3) ∧
        (0 :: (text.drop 1).take 3).length = 4 := by
    intro text htext
    rcases text with _ | ⟨b0, _ | ⟨b1, _ | ⟨b2, _ | ⟨b3, rest⟩⟩⟩⟩
    iterate 4
      simp only [List.length_cons, List.length_nil] at htext
      omega
    · exact ⟨wordOfBytes_and_magicMask b0 b1 b2 b3, rfl⟩
  have hlength' : 4 ≤ (bytes.set i byte).length := by rwa [List.length_set]
  have hwindow : ((bytes.set i byte).drop 1).take 3 = (bytes.drop 1).take 3 ↔
      ¬(1 ≤ i ∧ i < 4) := window_set_eq_iff hi hne
  obtain ⟨hold, hfour⟩ := hmasked bytes hlength
  obtain ⟨hnew, hfour'⟩ := hmasked (bytes.set i byte) hlength'
  rw [← hwindow, hold, hnew, ofBytes_injOn.eq_iff hfour' hfour, List.cons.injEq]
  exact ⟨fun hboth => hboth.2, fun hsame => ⟨rfl, hsame⟩⟩

end Windows

section Headers

variable {sectors : UInt32 → Sector} {block : UInt32}

/-- The fields of a header that a read looks at, by their places. -/
theorem object_fields (sector : Sector) :
    (ofBlock HexafsObject sector).magic = wordAt sector.bytes 0 ∧
      (ofBlock HexafsObject sector).type = (sector.bytes.drop 4).headD 0 ∧
      (ofBlock HexafsObject sector).contentSize = wordAt sector.bytes 12 ∧
      (ofBlock HexafsObject sector).slots =
        (List.range 4).map fun k => wordAt sector.bytes (16 + 4 * k) := by
  have hsize : (ofBlock HexafsObject sector).contentSize =
      Packed.ofBytes ((((sector.bytes.drop 4).drop 1).drop 3).drop 4) := rfl
  have hslots : (ofBlock HexafsObject sector).slots =
      Packed.ofBytes (((((sector.bytes.drop 4).drop 1).drop 3).drop 4).drop 4) ::
        Packed.ofBytesList UInt32 3
          ((((((sector.bytes.drop 4).drop 1).drop 3).drop 4).drop 4).drop 4) := rfl
  refine ⟨rfl, rfl, ?_, ?_⟩
  · simp only [List.drop_drop] at hsize
    exact hsize
  · rw [hslots, Packed.ofBytesList_eq_map]
    simp only [List.drop_drop, List.range_succ, List.range_zero]
    rfl

/-- A header with another byte, field by field. -/
theorem object_replaceByte {sector : Sector} {i : ℕ} (hi : i < 512) {byte : UInt8}
    (hne : sector.bytes[i]? ≠ some byte) :
    (objMagicOk (ofBlock HexafsObject sector) = true →
      (objMagicOk (ofBlock HexafsObject (replaceByte sector i byte)) = true ↔
        ¬(1 ≤ i ∧ i < 4))) ∧
    ((ofBlock HexafsObject (replaceByte sector i byte)).type =
      (ofBlock HexafsObject sector).type ↔ i ≠ 4) ∧
    ((ofBlock HexafsObject (replaceByte sector i byte)).contentSize =
      (ofBlock HexafsObject sector).contentSize ↔ ¬(12 ≤ i ∧ i < 16)) ∧
    ∀ k < 4, ¬(16 + 4 * k ≤ i ∧ i < 16 + 4 * k + 4) →
      (ofBlock HexafsObject (replaceByte sector i byte)).slots[k]? =
        (ofBlock HexafsObject sector).slots[k]? := by
  have hlength := sector.length_bytes
  have hi' : i < sector.bytes.length := by omega
  have hword : ∀ j, j + 4 ≤ 512 → (wordAt (replaceByte sector i byte).bytes j =
      wordAt sector.bytes j ↔ ¬(j ≤ i ∧ i < j + 4)) :=
    fun j hj => wordAt_set_eq_iff hi' hne (by omega)
  obtain ⟨hmagic, htype, hsize, hslots⟩ := object_fields sector
  obtain ⟨hmagic', htype', hsize', hslots'⟩ := object_fields (replaceByte sector i byte)
  refine ⟨fun hok => ?_, ?_, ?_, fun k hk hout => ?_⟩
  · rw [objMagicOk, beq_iff_eq, hmagic] at hok
    rw [objMagicOk, beq_iff_eq, hmagic', ← hok]
    exact magicMask_set_eq_iff hi' hne (by omega)
  · have hhead : ∀ bytes : List UInt8, 4 < bytes.length →
        (bytes.drop 4).take 1 = [(bytes.drop 4).headD 0] := by
      intro bytes hbytes
      rw [List.drop_eq_getElem_cons hbytes]
      rfl
    have hwindow : ((sector.bytes.set i byte).drop 4).take 1 = (sector.bytes.drop 4).take 1 ↔
        ¬(4 ≤ i ∧ i < 4 + 1) := window_set_eq_iff hi' hne
    have hset : 4 < (sector.bytes.set i byte).length := by
      rw [List.length_set]
      omega
    rw [hhead _ hset, hhead sector.bytes (by omega), List.cons.injEq] at hwindow
    rw [htype, htype']
    constructor
    · intro hsame hfour
      exact hwindow.mp ⟨hsame, rfl⟩ (by omega)
    · intro hother
      exact (hwindow.mpr (by omega)).1
  · rw [hsize, hsize']
    exact hword 12 (by decide)
  · have hrange : (List.range 4)[k]? = some k := List.getElem?_range hk
    rw [hslots, hslots', List.getElem?_map, List.getElem?_map, hrange, Option.map_some,
      Option.map_some, (hword (16 + 4 * k) (by omega)).mpr hout]

end Headers

section Contents

variable {sectors : UInt32 → Sector}

/-- A slot names a sector that begins with the part of the data that belongs into it. -/
def HoldsPart (sectors : UInt32 → Sector) (slots : List UInt32) (data : List UInt8) (k : ℕ) :
    Prop :=
  ∃ db, slots[k]? = some db ∧ db ≠ 0 ∧
    (sectors (ataAddress db)).bytes.take (min (data.length - 512 * k) 512) =
      (data.drop (512 * k)).take 512

/-- The content loop finds the data when each slot that is used holds its part. -/
theorem contentOn_eq_iff (slots : List UInt32) (data : List UInt8) :
    contentOn sectors slots data.length = data ↔
      ∀ k, 512 * k < data.length → HoldsPart sectors slots data k := by
  induction slots generalizing data with
  | nil =>
    rw [contentOn]
    constructor
    · intro hnone k hk
      rw [← hnone] at hk
      exact absurd hk (Nat.not_lt_zero _)
    · intro hall
      by_contra hne
      have hpos : 512 * 0 < data.length := List.length_pos_iff.mpr (Ne.symm hne)
      obtain ⟨db, hdb, -⟩ := hall 0 hpos
      cases hdb
  | cons db rest ih =>
    rw [contentOn]
    by_cases hempty : data.length = 0
    · rw [if_pos (.inl hempty), List.length_eq_zero_iff.mp hempty]
      exact iff_of_true rfl fun k hk => absurd hk (Nat.not_lt_zero _)
    · have hpos : 512 * 0 < data.length := by omega
      by_cases hzero : db = 0
      · rw [if_pos (.inr hzero)]
        refine iff_of_false (fun hnone => hempty ?_) fun hall => ?_
        · rw [← hnone]
          rfl
        · obtain ⟨other, hother, hne, -⟩ := hall 0 hpos
          rw [List.getElem?_cons_zero, hzero] at hother
          exact hne (Option.some.inj hother).symm
      · have hstop : ¬(data.length = 0 ∨ db = 0) := fun hor => hor.elim hempty hzero
        have hrest : (data.drop 512).length = data.length - min data.length 512 := by
          rw [List.length_drop]
          omega
        have hlength : ((sectors (ataAddress db)).bytes.take (min data.length 512)).length =
            (data.take 512).length := by
          rw [List.length_take, List.length_take, (sectors (ataAddress db)).length_bytes]
          omega
        have hsplit : (sectors (ataAddress db)).bytes.take (min data.length 512) ++
            contentOn sectors rest (data.length - min data.length 512) = data ↔
              (sectors (ataAddress db)).bytes.take (min data.length 512) = data.take 512 ∧
                contentOn sectors rest (data.drop 512).length = data.drop 512 := by
          rw [hrest]
          conv_lhs =>
            rhs
            rw [← List.take_append_drop 512 data]
          exact ⟨fun hsame => List.append_inj hsame hlength, fun hboth => by
            rw [hboth.1, hboth.2]⟩
        have hparts : ∀ k, HoldsPart sectors rest (data.drop 512) k ↔
            HoldsPart sectors (db :: rest) data (k + 1) := by
          intro k
          have hleft : (data.drop 512).length - 512 * k = data.length - 512 * (k + 1) := by
            rw [List.length_drop]
            omega
          have hplace : 512 + 512 * k = 512 * (k + 1) := by omega
          rw [HoldsPart, HoldsPart, List.getElem?_cons_succ, hleft, List.drop_drop, hplace]
        have hfirst : HoldsPart sectors (db :: rest) data 0 ↔
            (sectors (ataAddress db)).bytes.take (min data.length 512) = data.take 512 := by
          constructor
          · rintro ⟨other, hother, -, hpart⟩
            obtain rfl := Option.some.inj hother
            exact hpart
          · intro hpart
            exact ⟨db, rfl, hzero, hpart⟩
        rw [if_neg hstop, hsplit, ih, ← hfirst]
        constructor
        · rintro ⟨hzeroth, hlater⟩ k hk
          cases k with
          | zero => exact hzeroth
          | succ k =>
            refine (hparts k).mp (hlater k ?_)
            rw [List.length_drop]
            omega
        · intro hall
          refine ⟨hall 0 hpos, fun k hk => (hparts k).mpr (hall (k + 1) ?_)⟩
          rw [List.length_drop] at hk
          omega

end Contents

/-- A byte of an object on the disk. -/
inductive ObjectByte where
  /-- A byte of its header sector. -/
  | header (i : Fin 512)
  /-- The byte of its content sectors that holds the data at a position. -/
  | content (position : ℕ)

namespace ObjectByte

/-- The sector of a byte, and its place there. -/
def place (block : UInt32) (slots : List UInt32) : ObjectByte → UInt32 × ℕ
  | header i => (block, i)
  | content position => (slots.getD (position / 512) 0, position % 512)

/-- A header byte, or a byte in the used part of a content sector. -/
def Used (data : List UInt8) : ObjectByte → Prop
  | header _ => True
  | content position => position < data.length ∧
      position / 512 < contentBlockCount (UInt32.ofNat data.length)

/-- The disk with another byte in place of one of the object. -/
def change (sectors : UInt32 → Sector) (block : UInt32) (byte : UInt8) (place : ObjectByte) :
    UInt32 → Sector :=
  let (lba, i) := place.place block (objectAt sectors block).slots
  Function.update sectors lba (replaceByte (sectors lba) i byte)

/-- The byte on the disk. -/
def read (sectors : UInt32 → Sector) (block : UInt32) (place : ObjectByte) : Option UInt8 :=
  let (lba, i) := place.place block (objectAt sectors block).slots
  (sectors lba).bytes[i]?

/-- A change that hexafs_object_read_data refuses or that does not matter: one of the upper bytes
of the magic, or, when the data fit into the four content sectors, a header byte that is not the
type, not in the size, and in no used slot unless the new slot names a sector with the same
data. -/
def Harmless (sectors' : UInt32 → Sector) (block : UInt32) (data : List UInt8) :
    ObjectByte → Prop
  | header i => (1 ≤ i.val ∧ i.val < 4) ∨
      data.length ≤ 2048 ∧ i.val ≠ 4 ∧ ¬(12 ≤ i.val ∧ i.val < 16) ∧
        ∀ k, 16 + 4 * k ≤ i.val → i.val < 16 + 4 * k + 4 → 512 * k < data.length →
          HoldsPart sectors' (objectAt sectors' block).slots data k
  | content _ => False

end ObjectByte

/-- The disk can be mounted. -/
def Mountable (sectors : UInt32 → Sector) : Prop :=
  ∃ mounted, (Machine.boot sectors).run .faultless hexafsMountDisk = .ok (true, mounted)

/-- After a fresh mount, hexafs_object_read_data returns 1 with no other type, size and data,
whatever reads fail. -/
def ReadsBack (sectors : UInt32 → Sector) (block : UInt32) (type : UInt8) (data : List UInt8) :
    Prop :=
  ∀ (env : Environment) (mounted last : Machine) (read : ObjectRead),
    (Machine.boot sectors).run env hexafsMountDisk = .ok (true, mounted) →
      mounted.run env (hexafsObjectReadData block) = .ok (some read, last) → read.ok = true →
        read.type = type ∧ read.size.toNat = data.length ∧ read.bytes = data

section Changes

variable {sectors : UInt32 → Sector} {block : UInt32} {type : UInt8} {data : List UInt8}

/-- What is read after a mount is what the disk holds. -/
theorem readsBack_iff (hmount : Mountable sectors) (hin : InStore block) :
    ReadsBack sectors block type data ↔ ∀ read, objectOn sectors block = some read →
      read.type = type ∧ read.size.toNat = data.length ∧ read.bytes = data := by
  have hclean : ∀ (env : Environment) (mounted : Machine),
      (Machine.boot sectors).run env hexafsMountDisk = .ok (true, mounted) →
        mounted.dev.Clean sectors :=
    fun env mounted hrun => Machine.faulty_elim (hexafsMountDisk_clean rfl) hrun
  constructor
  · intro hback read hread
    obtain ⟨mounted, hrun⟩ := hmount
    have hreads : (hexafsObjectReadData block).wp (cachedDevice .faultless) mounted.mem
        mounted.dev _ := hexafsObjectReadData_clean (hclean _ _ hrun) hin
    obtain ⟨result, last, hlast, -, -, hexact⟩ := Machine.run_of_faulty hreads
    rw [hexact fun _ => rfl, hread] at hlast
    refine hback .faultless mounted last read hrun hlast ?_
    rw [objectOn] at hread
    split at hread
    · rw [← Option.some.inj hread]
    · cases hread
  · intro hall env mounted last read hrun hlast hok
    have hread := Machine.faulty_elim (hexafsObjectReadData_clean (hclean _ _ hrun) hin) hlast
    exact hall read (hread.2.1 read rfl hok)

/-- What is read of a header that is accepted. -/
theorem objectOn_reads_iff (hmagic : objMagicOk (objectAt sectors block) = true) :
    (∀ read, objectOn sectors block = some read →
      read.type = type ∧ read.size.toNat = data.length ∧ read.bytes = data) ↔
    (objectAt sectors block).type = type ∧
      (objectAt sectors block).contentSize.toNat = data.length ∧
      ∀ k, 512 * k < data.length → HoldsPart sectors (objectAt sectors block).slots data k := by
  rw [objectOn, if_pos hmagic, ← contentOn_eq_iff]
  constructor
  · intro hall
    obtain ⟨htype, hsize, hbytes⟩ := hall _ rfl
    dsimp only at htype hsize hbytes
    rw [hsize] at hbytes
    exact ⟨htype, hsize, hbytes⟩
  · rintro ⟨htype, hsize, hbytes⟩ read hread
    rw [← Option.some.inj hread]
    dsimp only
    rw [hsize]
    exact ⟨htype, rfl, hbytes⟩

/-- The sectors of a content, by their places. -/
theorem getElem?_contentSectors {n k : ℕ} (hk : k < n) (data : List UInt8) :
    (contentSectors n data)[k]? = some (padBlock 512 (data.drop (512 * k))) := by
  induction n generalizing k data with
  | zero => exact absurd hk (Nat.not_lt_zero k)
  | succ n ih =>
    rw [contentSectors]
    cases k with
    | zero => rfl
    | succ k =>
      have hplace : 512 + 512 * k = 512 * (k + 1) := by omega
      rw [List.getElem?_cons_succ, ih (Nat.lt_of_succ_lt_succ hk), List.drop_drop, hplace]

variable {written : List UInt32}

/-- The sector of each part of the data. -/
theorem StoredOn.part (h : StoredOn sectors block type data written) {k : ℕ}
    (hk : k < written.length) :
    ∃ b ∈ written, (objectAt sectors block).slots[k]? = some b ∧
      sectors b = padBlock 512 (data.drop (512 * k)) := by
  have hslot : (objectAt sectors block).slots[k]? = some written[k] := by
    rw [h.slots, List.getElem?_append_left hk]
    exact List.getElem?_eq_getElem hk
  have hsector := congrArg (·[k]?) h.stored
  simp only [List.getElem?_map, List.getElem?_eq_getElem hk, Option.map_some,
    getElem?_contentSectors hk] at hsector
  exact ⟨written[k], List.getElem_mem hk, hslot, Option.some.inj hsector⟩

/-- Data that fit have a sector for each part. -/
theorem StoredOn.lt_length (h : StoredOn sectors block type data written)
    (hfit : data.length ≤ 2048) {k : ℕ} (hk : 512 * k < data.length) : k < written.length := by
  rw [h.length, contentBlockCount_eq hfit]
  omega

/-- The front of a sector that was padded. -/
theorem take_padBlock_min (data : List UInt8) (k : ℕ) :
    (padBlock 512 (data.drop (512 * k))).bytes.take (min (data.length - 512 * k) 512) =
      (data.drop (512 * k)).take 512 := by
  have hlength : (data.drop (512 * k)).length = data.length - 512 * k := List.length_drop
  rw [take_padBlock _ (by omega) (Nat.min_le_right _ _), ← hlength, Nat.min_comm,
    ← List.take_eq_take_min]

/-- A used slot that the change leaves alone holds its part. -/
theorem StoredOn.holdsPart_header (h : StoredOn sectors block type data written)
    (hfit : data.length ≤ 2048) {sector : Sector} {k : ℕ} (hk : 512 * k < data.length)
    (hslot : (ofBlock HexafsObject sector).slots[k]? = (objectAt sectors block).slots[k]?) :
    HoldsPart (Function.update sectors block sector) (ofBlock HexafsObject sector).slots data
      k := by
  obtain ⟨b, hb, hthere, hsector⟩ := h.part (h.lt_length hfit hk)
  have hin := h.inStore b hb
  have hother : b ≠ block := by
    intro hsame
    rw [hsame] at hb
    exact h.apart hb
  refine ⟨b, hslot.trans hthere, hin.ne_zero, ?_⟩
  rw [ataAddress_of_valid hin.valid, Function.update_of_ne hother, hsector, take_padBlock_min]

/-- After a change in the header the object reads back just when the change is harmless. -/
theorem StoredOn.header_reads_iff (h : StoredOn sectors block type data written) (i : Fin 512)
    {byte : UInt8} (hne : (sectors block).bytes[i.val]? ≠ some byte)
    {sectors' : UInt32 → Sector}
    (hchange : sectors' = Function.update sectors block (replaceByte (sectors block) i byte)) :
    (∀ read, objectOn sectors' block = some read →
      read.type = type ∧ read.size.toNat = data.length ∧ read.bytes = data) ↔
    (ObjectByte.header i).Harmless sectors' block data := by
  have hobject : objectAt sectors' block =
      ofBlock HexafsObject (replaceByte (sectors block) i byte) := by
    rw [objectAt, hchange, Function.update_self]
  obtain ⟨hmagic, htype, hsize, hslots⟩ := object_replaceByte i.isLt hne
  have hstored : ofBlock HexafsObject (sectors block) = objectAt sectors block := rfl
  rw [hstored] at hmagic htype hsize hslots
  have hmagic' := hmagic h.magic
  rw [h.type] at htype
  rw [h.size] at hsize
  by_cases hupper : 1 ≤ i.val ∧ i.val < 4
  · have hrefused : objectOn sectors' block = none := by
      rw [objectOn, hobject, if_neg fun hok => hmagic'.mp hok hupper]
    rw [hrefused]
    exact iff_of_true (fun read hread => by cases hread) (.inl hupper)
  · have hok : objMagicOk (objectAt sectors' block) = true := by
      rw [hobject]
      exact hmagic'.mpr hupper
    rw [objectOn_reads_iff hok, ObjectByte.Harmless, hobject]
    have hcontents : data.length ≤ 2048 → ∀ k, 512 * k < data.length →
        ¬(16 + 4 * k ≤ i.val ∧ i.val < 16 + 4 * k + 4) →
          HoldsPart sectors' (ofBlock HexafsObject (replaceByte (sectors block) i byte)).slots
            data k := by
      intro hfit k hk hout
      rw [hchange]
      exact h.holdsPart_header hfit hk (hslots k (by omega) hout)
    constructor
    · rintro ⟨htype', hsize', hparts⟩
      have hfit : data.length ≤ 2048 := by
        by_contra hlong
        obtain ⟨db, hdb, -⟩ := hparts 4 (by omega)
        have hfour : (ofBlock HexafsObject (replaceByte (sectors block) i byte)).slots.length =
            4 := by
          rw [HexafsObject.slots, List.length_cons, Vector.length_toList]
        rw [List.getElem?_eq_none (Nat.le_of_eq hfour)] at hdb
        cases hdb
      have hsame : (ofBlock HexafsObject (replaceByte (sectors block) i byte)).contentSize =
          UInt32.ofNat data.length := by
        rw [← hsize', UInt32.ofNat_toNat]
      exact .inr ⟨hfit, htype.mp htype', hsize.mp hsame, fun k _ _ hk => hparts k hk⟩
    · rintro (hmagicByte | ⟨hfit, hfour, hout, hslot⟩)
      · exact absurd hmagicByte hupper
      · refine ⟨htype.mpr hfour, ?_, fun k hk => ?_⟩
        · rw [hsize.mpr hout]
          apply UInt32.toNat_ofNat_of_lt'
          rw [UInt32.size]
          omega
        · by_cases hinside : 16 + 4 * k ≤ i.val ∧ i.val < 16 + 4 * k + 4
          · exact hslot k hinside.1 hinside.2 hk
          · exact hcontents hfit k hk hinside

/-- After a change in a content sector the object does not read back. -/
theorem StoredOn.content_misreads (h : StoredOn sectors block type data written) {position : ℕ}
    (hin : position < data.length) (hsector : position / 512 < written.length) {byte : UInt8}
    {b : UInt32} (hb : (objectAt sectors block).slots[position / 512]? = some b)
    (hne : (sectors b).bytes[position % 512]? ≠ some byte) {sectors' : UInt32 → Sector}
    (hchange : sectors' =
      Function.update sectors b (replaceByte (sectors b) (position % 512) byte)) :
    ¬∀ read, objectOn sectors' block = some read →
      read.type = type ∧ read.size.toNat = data.length ∧ read.bytes = data := by
  obtain ⟨other, hother, hthere, hbefore⟩ := h.part hsector
  have hsame : other = b := Option.some.inj (hthere.symm.trans hb)
  rw [hsame] at hother hbefore
  have hstore := h.inStore b hother
  have hapart : block ≠ b := by
    intro hequal
    rw [← hequal] at hother
    exact h.apart hother
  have hobject : objectAt sectors' block = objectAt sectors block := by
    rw [objectAt, hchange, Function.update_of_ne hapart]
    rfl
  have hok : objMagicOk (objectAt sectors' block) = true := by
    rw [hobject]
    exact h.magic
  rw [objectOn_reads_iff hok, hobject]
  rintro ⟨-, -, hparts⟩
  have hwhole : 512 * (position / 512) + position % 512 = position := Nat.div_add_mod position 512
  have hlow : position % 512 < 512 := Nat.mod_lt position (by decide)
  obtain ⟨db, hdb, -, hpart⟩ := hparts (position / 512) (by omega)
  obtain rfl := Option.some.inj (hb.symm.trans hdb)
  rw [ataAddress_of_valid hstore.valid, hchange, Function.update_self, ← take_padBlock_min,
    ← hbefore] at hpart
  have hlength := (sectors b).length_bytes
  have hwindow := (window_set_eq_iff (j := 0) (n := min (data.length - 512 * (position / 512)) 512)
    (by omega : position % 512 < (sectors b).bytes.length) hne).mp hpart
  exact hwindow ⟨Nat.zero_le _, by omega⟩

/-- After any run, and a change of one byte of an object whose last write returned 1, the object
reads back just when the change is harmless. -/
theorem changedByte_readsBack_iff {env : Environment} {objects : UInt32 → Option ObjectRecord}
    {machine : Machine} (hrun : RecordRun env objects machine) {object : ObjectRecord}
    (hobject : objects block = some object) (hdata : object.data = some data)
    {place : ObjectByte} (hused : place.Used data) {byte : UInt8}
    (hne : place.read machine.sectors block ≠ some byte)
    (hmount : Mountable (place.change machine.sectors block byte)) :
    ReadsBack (place.change machine.sectors block byte) block object.type data ↔
      place.Harmless (place.change machine.sectors block byte) block data := by
  have hsound := hrun.sound
  obtain ⟨hin, -⟩ := hsound.taken block object hobject
  obtain ⟨written, hstored⟩ := hsound.stored block object data hobject hdata
  rw [readsBack_iff hmount hin]
  cases place with
  | header i => exact hstored.header_reads_iff i hne rfl
  | content position =>
    have hsector : position / 512 < written.length := by
      rw [hstored.length]
      exact hused.2
    obtain ⟨b, -, hb, -⟩ := hstored.part hsector
    have hplace : (objectAt machine.sectors block).slots.getD (position / 512) 0 = b := by
      rw [List.getD_eq_getElem?_getD]
      exact congrArg (fun slot => Option.getD slot 0) hb
    rw [ObjectByte.read, ObjectByte.place] at hne
    dsimp only at hne
    rw [hplace] at hne
    have hchange : (ObjectByte.content position).change machine.sectors block byte =
        Function.update machine.sectors b
          (replaceByte (machine.sectors b) (position % 512) byte) := by
      rw [ObjectByte.change, ObjectByte.place]
      dsimp only
      rw [hplace]
    exact iff_of_false (hstored.content_misreads hused.1 hsector hb hne hchange) id

end Changes

section Examples

/-- Can the form be written with one byte, and the disk be mounted after a byte of it was
changed, to a read with an answer that passes a test? -/
def rereads (place : ObjectByte) (byte : UInt8) (test : Option ObjectRead → Bool) (block : UInt32)
    (made : Machine) : Bool :=
  block != 0 && testRun (fun ok written => ok && place.read written.sectors block != some byte &&
    testRun (fun ok' mounted => ok' && testRun (fun result _ => test result)
      (mounted.run .faultless (hexafsObjectReadData block)))
      ((Machine.boot (place.change written.sectors block byte)).run .faultless hexafsMountDisk))
    (made.run .faultless (hexafsObjectWriteData block [7]))

/-- A form on a new store with one byte of data, a change of one byte, and the read after it. -/
theorem exists_reread {place : ObjectByte} {byte : UInt8} {test : Option ObjectRead → Bool}
    (htest : testRun (fun _ start => testRun (rereads place byte test)
      (start.run .faultless (hexafsObjectAlloc hexafsForm)))
      ((Machine.boot blankDisk).run .faultless hexafsMount) = true) :
    ∃ start machine mounted last objects block result,
      (Machine.boot blankDisk).run .faultless hexafsMount = .ok (true, start) ∧
      RecordRun .faultless objects machine ∧
      objects block = some ⟨hexafsForm, some [7]⟩ ∧
      place.read machine.sectors block ≠ some byte ∧
      (Machine.boot (place.change machine.sectors block byte)).run .faultless hexafsMountDisk =
        .ok (true, mounted) ∧
      mounted.run .faultless (hexafsObjectReadData block) = .ok (result, last) ∧
      test result = true := by
  obtain ⟨start, roles, hmount, hfresh⟩ := exists_fresh
  have hstore := hfresh.settled.mounted
  rw [hmount] at htest
  have hmakes : testRun (rereads place byte test)
      (start.run .faultless (hexafsObjectAlloc hexafsForm)) = true := htest
  obtain ⟨block, made, hmade, hrereads⟩ := exists_of_testRun hmakes
  rw [rereads, Bool.and_eq_true, bne_iff_ne] at hrereads
  obtain ⟨hblock, hwrites⟩ := hrereads
  obtain ⟨ok, machine, hwritten, hchanges⟩ := exists_of_testRun hwrites
  rw [Bool.and_eq_true, Bool.and_eq_true, bne_iff_ne] at hchanges
  obtain ⟨⟨hok, hne⟩, hmounts⟩ := hchanges
  obtain ⟨ok', mounted, hmounted, hreads⟩ := exists_of_testRun hmounts
  rw [Bool.and_eq_true] at hreads
  obtain ⟨hok', hreads⟩ := hreads
  obtain ⟨result, last, hlast, hresult⟩ := exists_of_testRun hreads
  rw [hok] at hwritten
  rw [hok'] at hmounted
  have hslots : start.dev.OneSlot :=
    ⟨hstore.coherent.length_eq, hstore.coherent.unique, fun _ _ _ => trivial⟩
  have hfirst : RecordRun .faultless
      (Function.update (fun _ => none) block (some ⟨hexafsForm, none⟩)) made := by
    have halloc := (RecordRun.start hstore.store.hint hslots).alloc hmade
    rw [if_neg hblock] at halloc
    exact halloc
  have hsecond := hfirst.write (Function.update_self _ _ _) hwritten
  exact ⟨start, machine, mounted, last, _, block, result, hmount, hsecond,
    Function.update_self _ _ _, hne, hmounted, hlast, hresult⟩

/-- A changed byte of padding in the header does not matter. -/
theorem changedByte_readsBack_padding : ∃ start machine objects block,
    (Machine.boot blankDisk).run .faultless hexafsMount = .ok (true, start) ∧
    RecordRun .faultless objects machine ∧ objects block = some ⟨hexafsForm, some [7]⟩ ∧
    ReadsBack ((ObjectByte.header 5).change machine.sectors block 1) block hexafsForm [7] := by
  obtain ⟨start, machine, mounted, -, objects, block, -, hmount, hrun, hobject, hne, hmounted, -⟩ :=
    @exists_reread (.header 5) 1 (fun _ => true) (by decide +kernel)
  refine ⟨start, machine, objects, block, hmount, hrun, hobject, ?_⟩
  have hused : (ObjectByte.header 5).Used [7] := trivial
  refine (changedByte_readsBack_iff hrun hobject rfl hused hne ⟨mounted, hmounted⟩).mpr
    (.inr ⟨by decide, by decide, by decide, fun k hk => ?_⟩)
  have hfive : 16 + 4 * k ≤ 5 := hk
  omega

/-- A form holds the byte 7. After its byte on the disk was changed to 8, a read gives 8. -/
theorem changedByte_misread : ∃ start machine objects block,
    (Machine.boot blankDisk).run .faultless hexafsMount = .ok (true, start) ∧
    RecordRun .faultless objects machine ∧ objects block = some ⟨hexafsForm, some [7]⟩ ∧
    ¬ReadsBack ((ObjectByte.content 0).change machine.sectors block 8) block hexafsForm [7] := by
  obtain ⟨start, machine, mounted, last, objects, block, result, hmount, hrun, hobject, -,
    hmounted, hlast, hresult⟩ := @exists_reread (.content 0) 8
      (fun result => result == some ⟨true, hexafsForm, 1, [8]⟩) (by decide +kernel)
  refine ⟨start, machine, objects, block, hmount, hrun, hobject, fun hback => ?_⟩
  rw [beq_iff_eq] at hresult
  rw [hresult] at hlast
  have hbytes := (hback .faultless mounted last _ hmounted hlast rfl).2.2
  exact absurd hbytes (by decide : ([8] : List UInt8) ≠ [7])

end Examples

end HexaOS.Hexafs
