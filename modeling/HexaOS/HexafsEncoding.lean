import Mathlib.Data.List.GetD
import Mathlib.Data.List.TakeWhile
import Mathlib.Data.Nat.ModEq
import Mathlib.Tactic.IntervalCases
import HexaOS.HexafsDisk

/-!
# What the sector encodings determine

The hash is injective in its start value, so two records that differ in four
bytes of the padding only have different checksums. Linking a chain block changes
exactly these four bytes and leaves the stored checksum alone, which is why a
linked header never passes its own check again. The rest of the module reads
names, chain addresses, the two bitmap sectors and the superblock back.
-/

namespace HexaOS.Hexafs

open DevicePrograms PackedBytes

/-- The hash from any start value. -/
def hashFrom (start : UInt32) (data : List UInt8) : UInt32 :=
  data.foldl (fun h p => ((h <<< 5) + h) + p.toUInt32) start

theorem hexafsContentHash_eq (data : List UInt8) : hexafsContentHash data = hashFrom 5381 data := rfl

theorem hashFrom_append (start : UInt32) (first second : List UInt8) :
    hashFrom start (first ++ second) = hashFrom (hashFrom start first) second :=
  List.foldl_append

/-- One step of the hash multiplies by 33. -/
theorem hash_step_toNat (h : UInt32) (p : UInt8) :
    (((h <<< 5) + h) + p.toUInt32).toNat = (33 * h.toNat + p.toNat) % 2 ^ 32 := by
  rw [UInt32.toNat_add, UInt32.toNat_add, UInt32.toNat_shiftLeft, UInt8.toNat_toUInt32]
  have hfive : (5 : UInt32).toNat % 32 = 5 := rfl
  rw [hfive, Nat.shiftLeft_eq]
  omega

/-- Multiplication by 33 is injective modulo a power of two. -/
theorem mul33_injective {a b p : ℕ} (ha : a < 2 ^ 32) (hb : b < 2 ^ 32)
    (h : (33 * a + p) % 2 ^ 32 = (33 * b + p) % 2 ^ 32) : a = b := by
  have hmod : a ≡ b [MOD 2 ^ 32] :=
    Nat.ModEq.cancel_left_of_coprime (c := 33) (by decide) (Nat.ModEq.add_right_cancel' p h)
  exact hmod.eq_of_lt_of_lt ha hb

/-- Since 33 is odd, the hash of given bytes is injective in the start value. -/
theorem hashFrom_injective (data : List UInt8) {start start' : UInt32}
    (h : hashFrom start data = hashFrom start' data) : start = start' := by
  induction data generalizing start start' with
  | nil => exact h
  | cons p data ih =>
    have hstep := congrArg UInt32.toNat (ih h)
    rw [hash_step_toNat, hash_step_toNat] at hstep
    exact UInt32.toNat_inj.mp (mul33_injective start.toNat_lt start'.toNat_lt hstep)

theorem mul33_mod (x p : ℕ) : (33 * (x % 2 ^ 32) + p) % 2 ^ 32 = (33 * x + p) % 2 ^ 32 := by
  omega

/-- The hash of four bytes as a polynomial. -/
theorem hashFrom_four_toNat (start : UInt32) (b0 b1 b2 b3 : UInt8) :
    (hashFrom start [b0, b1, b2, b3]).toNat =
      (33 * (33 * (33 * (33 * start.toNat + b0.toNat) + b1.toNat) + b2.toNat) + b3.toNat) %
        2 ^ 32 := by
  simp only [hashFrom, List.foldl_cons, List.foldl_nil, hash_step_toNat, mul33_mod]

/-- The polynomial of four bytes stays below 2^32, so it vanishes only at zero. -/
theorem polynomial_eq_zero {s b0 b1 b2 b3 : ℕ} (h0 : b0 < 256) (h1 : b1 < 256) (h2 : b2 < 256)
    (h3 : b3 < 256)
    (h : (33 * (33 * (33 * (33 * s + b0) + b1) + b2) + b3) % 2 ^ 32 =
      (33 * (33 * (33 * (33 * s + 0) + 0) + 0) + 0) % 2 ^ 32) :
    b0 = 0 ∧ b1 = 0 ∧ b2 = 0 ∧ b3 = 0 := by
  have hmod : 33 ^ 3 * b0 + 33 ^ 2 * b1 + 33 * b2 + b3 ≡ 0 [MOD 2 ^ 32] := by
    apply Nat.ModEq.add_left_cancel' (33 ^ 4 * s)
    have hleft : 33 ^ 4 * s + (33 ^ 3 * b0 + 33 ^ 2 * b1 + 33 * b2 + b3) =
      33 * (33 * (33 * (33 * s + b0) + b1) + b2) + b3 := by omega
    have hright : 33 ^ 4 * s + 0 = 33 * (33 * (33 * (33 * s + 0) + 0) + 0) + 0 := by omega
    rw [hleft, hright]
    exact h
  have hzero := hmod.eq_of_lt_of_lt (by omega) (by omega)
  omega

/-- Four bytes that are not all zero change the hash. -/
theorem hashFrom_four {start : UInt32} {b0 b1 b2 b3 : UInt8}
    (h : hashFrom start [b0, b1, b2, b3] = hashFrom start [0, 0, 0, 0]) :
    b0 = 0 ∧ b1 = 0 ∧ b2 = 0 ∧ b3 = 0 := by
  have hnat := congrArg UInt32.toNat h
  rw [hashFrom_four_toNat, hashFrom_four_toNat] at hnat
  obtain ⟨h0, h1, h2, h3⟩ := polynomial_eq_zero b0.toNat_lt b1.toNat_lt b2.toNat_lt b3.toNat_lt hnat
  exact ⟨UInt8.toNat_inj.mp h0, UInt8.toNat_inj.mp h1, UInt8.toNat_inj.mp h2, UInt8.toNat_inj.mp h3⟩

/-- A byte array is its own encoding. -/
@[simp] theorem toBytes_bytes {n : ℕ} (v : Vector UInt8 n) : toBytes v = v.toList := by
  show v.toList.flatMap (fun b => [b]) = v.toList
  induction v.toList with
  | nil => rfl
  | cons b bytes ih => rw [List.flatMap_cons, ih, List.singleton_append]

section Chain

/-- The bytes of a header in front of its padding. -/
def HexafsAbsHeader.front (hdr : HexafsAbsHeader) : List UInt8 :=
  toBytes hdr.magic ++ (toBytes hdr.entryCount ++ (toBytes (0 : UInt32) ++ toBytes hdr.entries))

theorem absChecksum_eq (hdr : HexafsAbsHeader) :
    absChecksum hdr = hashFrom 5381 (hdr.front ++ hdr.pad.toList) := by
  have hbytes : toBytes { hdr with checksum := 0 } = hdr.front ++ hdr.pad.toList := by
    rw [← toBytes_bytes hdr.pad]
    show toBytes hdr.magic ++ (toBytes hdr.entryCount ++ (toBytes (0 : UInt32) ++
      (toBytes hdr.entries ++ toBytes hdr.pad))) = _
    simp only [HexafsAbsHeader.front, List.append_assoc]
  rw [absChecksum, hexafsContentHash_eq, hbytes]

/-- The four chain bytes and what follows them. -/
theorem HexafsAbsHeader.pad_split (hdr : HexafsAbsHeader) :
    hdr.pad.toList = bytesOfWord hdr.nextChain ++ hdr.pad.toList.drop 4 := by
  have hword : hdr.nextChain = wordOfBytes hdr.pad[0] hdr.pad[1] hdr.pad[2] hdr.pad[3] := rfl
  rw [hword, bytesOfWord_wordOfBytes]
  apply List.ext_getElem
  · simp
  · intro i hi _
    rcases i with _ | _ | _ | _ | i
    · simp
    · simp
    · simp
    · simp
    · simp [Nat.add_comm 4 i]

@[simp] theorem HexafsAbsHeader.withChain_nextChain (hdr : HexafsAbsHeader) (next : UInt32) :
    (hdr.withChain next).nextChain = next := by
  have h := wordOfBytes_bytes next
  rw [wordOfBytes] at h
  simpa [HexafsAbsHeader.nextChain, HexafsAbsHeader.withChain] using h

@[simp] theorem HexafsAbsHeader.withChain_magic (hdr : HexafsAbsHeader) (next : UInt32) :
    (hdr.withChain next).magic = hdr.magic := rfl

@[simp] theorem HexafsAbsHeader.withChain_entryCount (hdr : HexafsAbsHeader) (next : UInt32) :
    (hdr.withChain next).entryCount = hdr.entryCount := rfl

@[simp] theorem HexafsAbsHeader.withChain_entries (hdr : HexafsAbsHeader) (next : UInt32) :
    (hdr.withChain next).entries = hdr.entries := rfl

@[simp] theorem HexafsAbsHeader.withChain_checksum (hdr : HexafsAbsHeader) (next : UInt32) :
    (hdr.withChain next).checksum = hdr.checksum := rfl

/-- Linking a chain block to a header that had none changes the checksum of the
header, and the stored one is not renewed. -/
theorem absChecksum_withChain {hdr : HexafsAbsHeader} (hnone : hdr.nextChain = 0) {next : UInt32}
    (hnext : next ≠ 0) : absChecksum (hdr.withChain next) ≠ absChecksum hdr := by
  intro h
  have hdrop : (hdr.withChain next).pad.toList.drop 4 = hdr.pad.toList.drop 4 := by
    apply List.ext_getElem
    · simp
    · intro i hi _
      simp only [HexafsAbsHeader.withChain, List.getElem_drop, Vector.getElem_toList,
        Vector.getElem_set]
      rw [if_neg (by omega), if_neg (by omega), if_neg (by omega), if_neg (by omega)]
  have hfront : (hdr.withChain next).front = hdr.front := rfl
  rw [absChecksum_eq, absChecksum_eq, (hdr.withChain next).pad_split, hdr.pad_split, hdrop, hfront,
    HexafsAbsHeader.withChain_nextChain, hnone, ← List.append_assoc, ← List.append_assoc,
    hashFrom_append, hashFrom_append _ (_ ++ _)] at h
  have hfour := hashFrom_injective _ h
  rw [hashFrom_append, hashFrom_append _ hdr.front] at hfour
  obtain ⟨h0, h1, h2, h3⟩ := hashFrom_four hfour
  apply hnext
  rw [← wordOfBytes_bytes next, h0, h1, h2, h3]
  rfl

/-- A record that carries its own checksum. -/
def HexafsAbsHeader.ChecksumOk (hdr : HexafsAbsHeader) : Prop := absChecksum hdr = hdr.checksum

instance (hdr : HexafsAbsHeader) : Decidable hdr.ChecksumOk :=
  inferInstanceAs (Decidable (_ = _))

/-- The stored checksum does not enter the computed one. -/
theorem absChecksum_checksum (magic count checksum checksum' : UInt32)
    (entries : Vector HexafsAbsEntry 11) (pad : Vector UInt8 16) :
    absChecksum ⟨magic, count, checksum, entries, pad⟩ =
      absChecksum ⟨magic, count, checksum', entries, pad⟩ := by
  unfold absChecksum
  with_reducible rfl

theorem newAbstraction_checksumOk : newAbstraction.ChecksumOk := by
  unfold newAbstraction HexafsAbsHeader.ChecksumOk
  dsimp only
  exact absChecksum_checksum _ _ _ _ _ _

@[simp] theorem newAbstraction_nextChain : newAbstraction.nextChain = 0 := by
  simp [HexafsAbsHeader.nextChain, newAbstraction]

@[simp] theorem newAbstraction_entryCount : newAbstraction.entryCount = 0 := rfl

variable {hdr : HexafsAbsHeader} {count : Fin 11} {name : CString} {objBlock : UInt32}
  {type : UInt8}

theorem HexafsAbsHeader.putEntry_checksumOk :
    (hdr.putEntry count name objBlock type).ChecksumOk := by
  unfold putEntry ChecksumOk
  dsimp only
  exact absChecksum_checksum _ _ _ _ _ _

@[simp] theorem HexafsAbsHeader.putEntry_magic :
    (hdr.putEntry count name objBlock type).magic = hdr.magic := rfl

@[simp] theorem HexafsAbsHeader.putEntry_nextChain :
    (hdr.putEntry count name objBlock type).nextChain = hdr.nextChain := rfl

theorem HexafsAbsHeader.putEntry_entryCount :
    (hdr.putEntry count name objBlock type).entryCount.toNat = count + 1 := by
  have hlt := count.isLt
  show (UInt32.ofNat (count + 1)).toNat = count + 1
  rw [UInt32.toNat_ofNat', Nat.mod_eq_of_lt (by omega)]

/-- The entry that putEntry stores, over what was there. -/
def entryOver (old : HexafsAbsEntry) (name : CString) (objBlock : UInt32) (type : UInt8) :
    HexafsAbsEntry :=
  { old with name := copyName old.name name, objectBlock := objBlock, type := type }

/-- The live entries grow by the new one. -/
theorem HexafsAbsHeader.putEntry_take (hlt : count.val < 11) :
    (hdr.putEntry count name objBlock type).entries.toList.take (count + 1) =
      hdr.entries.toList.take count ++ [entryOver hdr.entries[count] name objBlock type] := by
  show ((hdr.entries.set count (entryOver hdr.entries[count] name objBlock type)).toList).take
    (count + 1) = _
  apply List.ext_getElem
  · simp only [List.length_take, Vector.length_toList, List.length_append, List.length_singleton]
    omega
  · intro i hi hi'
    have hi : i < count + 1 := by
      simp only [List.length_take] at hi
      omega
    by_cases heq : i = count
    · subst heq
      simp
    · have hne : (count : ℕ) ≠ i := fun h => heq h.symm
      rw [List.getElem_append_left (by simp; omega)]
      simp [hne]

end Chain

section Names

theorem length_toList_copyName (dst : Vector UInt8 32) (name : CString) :
    (copyName dst name).toList.length = 32 := Vector.length_toList

/-- The name as far as a 32-byte field holds it. -/
def CString.truncate (name : CString) : CString :=
  ⟨name.chars.take 31, fun h => name.nonzero (List.mem_of_mem_take h)⟩

theorem CString.truncate_of_le {name : CString} (h : name.chars.length ≤ 31) :
    name.truncate = name := by
  cases name
  simp only [truncate, mk.injEq]
  exact List.take_of_length_le h

/-- A copied name starts the field and is followed by its terminator. -/
theorem copyName_take (dst : Vector UInt8 32) (name : CString) :
    (copyName dst name).toList.take ((name.chars.take 31).length + 1) =
      name.chars.take 31 ++ [0] := by
  apply List.ext_getElem
  · simp
  · intro i hi hi'
    simp only [List.length_take, length_toList_copyName] at hi
    simp only [List.getElem_take, Vector.getElem_toList, copyName, Vector.getElem_ofFn]
    by_cases hlt : i < min 31 name.chars.length
    · rw [if_pos hlt, List.getElem_append_left (by rw [List.length_take]; exact hlt),
        List.getElem_take, CString.byte, List.getD_eq_getElem]
    · have heq : i = min 31 name.chars.length := by omega
      rw [if_neg hlt, if_pos heq, List.getElem_append_right (by rw [List.length_take]; omega)]
      simp

/-- Characters followed by a terminator are read back. -/
theorem CString.ofBytes_append_zero (name : CString) (rest : List UInt8) :
    CString.ofBytes (name.chars ++ 0 :: rest) = name := by
  cases name with
  | mk chars nonzero =>
    simp only [ofBytes, mk.injEq]
    rw [List.takeWhile_append_of_pos]
    · simp
    · intro c hc
      have hne : c ≠ 0 := fun h => nonzero (h ▸ hc)
      simpa using hne

/-- hexafs_load_all reads a stored name back, as far as the field holds it. -/
theorem CString.ofBytes_copyName (dst : Vector UInt8 32) (name : CString) :
    CString.ofBytes ((copyName dst name).toList.take 31) = name.truncate := by
  have hsplit := List.take_append_drop ((name.chars.take 31).length + 1) (copyName dst name).toList
  rw [copyName_take, List.append_assoc, List.singleton_append] at hsplit
  rw [← hsplit]
  by_cases hlen : name.chars.length < 31
  · have htake : name.chars.take 31 = name.chars := List.take_of_length_le (by omega)
    rw [htake, List.take_append, List.take_of_length_le (by omega),
      List.take_cons (by omega), CString.ofBytes_append_zero, truncate_of_le (by omega)]
  · rw [List.take_append_of_le_length (by rw [List.length_take]; omega), List.take_take,
      Nat.min_self]
    have hend := CString.ofBytes_append_zero name.truncate []
    have hall : ∀ c ∈ name.chars.take 31, decide (c ≠ 0) = true := by
      intro c hc
      have hne : c ≠ 0 := fun h => name.nonzero (List.mem_of_mem_take (h ▸ hc))
      simpa using hne
    simp only [ofBytes, truncate, mk.injEq]
    exact List.takeWhile_eq_self_iff.mpr hall

/-- The characters of a name and its terminator, byte by byte. -/
theorem CString.getElem?_append_zero (name : CString) {i : ℕ} (h : i < name.chars.length + 1) :
    (name.chars ++ [0])[i]? = some (name.byte i) := by
  rw [CString.byte]
  by_cases hlt : i < name.chars.length
  · rw [List.getElem?_append_left hlt, List.getD_eq_getElem _ _ hlt, List.getElem?_eq_getElem hlt]
  · have hzero : i - name.chars.length = 0 := by omega
    rw [List.getElem?_append_right (by omega), List.getD_eq_default _ _ (by omega), hzero]
    rfl

/-- hexafs_abstraction_find compares the characters and the terminator. -/
theorem nameMatches_iff {entry : Vector UInt8 32} {name : CString} (h : name.chars.length < 32) :
    nameMatches entry name = true ↔
      entry.toList.take (name.chars.length + 1) = name.chars ++ [0] := by
  have hlen : entry.toList.length = 32 := Vector.length_toList
  have hbyte : ∀ (i : ℕ) (hi : i < 32), i < name.chars.length + 1 →
      (entry.toList.take (name.chars.length + 1))[i]? = some entry[i] := by
    intro i hi hlt
    rw [List.getElem?_take_of_lt hlt, List.getElem?_eq_getElem (by omega), Vector.getElem_toList]
  rw [nameMatches, List.all_eq_true]
  constructor
  · intro hall
    apply List.ext_getElem?
    intro i
    by_cases hi : i < name.chars.length + 1
    · have hthis := hall ⟨i, by omega⟩ (List.mem_finRange _)
      simp only [Bool.or_eq_true, decide_eq_true_eq, beq_iff_eq] at hthis
      have heq : entry[i] = name.byte i := by
        rcases hthis with hgt | heq
        · omega
        · exact heq
      rw [hbyte i (by omega) hi, name.getElem?_append_zero hi, heq]
    · rw [List.getElem?_eq_none (by rw [List.length_take]; omega),
        List.getElem?_eq_none (by rw [List.length_append, List.length_singleton]; omega)]
  · intro heq j _
    simp only [Bool.or_eq_true, decide_eq_true_eq, beq_iff_eq]
    by_cases hj : (j : ℕ) < name.chars.length + 1
    · right
      have hget := hbyte j j.isLt hj
      rw [heq, name.getElem?_append_zero hj] at hget
      exact (Option.some.inj hget).symm
    · left
      omega

/-- A copied name is found under the names that agree with what was stored. -/
theorem nameMatches_copyName (dst : Vector UInt8 32) (stored : CString) {name : CString}
    (h : name.chars.length < 32) :
    nameMatches (copyName dst stored) name = true ↔ stored.truncate = name := by
  have hstored : (stored.chars.take 31).length + 1 ≤ (copyName dst stored).toList.length := by
    rw [length_toList_copyName, List.length_take]
    omega
  rw [nameMatches_iff h]
  constructor
  · intro heq
    have hsplit := List.take_append_drop (name.chars.length + 1) (copyName dst stored).toList
    have hsplit' := List.take_append_drop ((stored.chars.take 31).length + 1)
      (copyName dst stored).toList
    rw [heq, List.append_assoc, List.singleton_append] at hsplit
    rw [copyName_take, List.append_assoc, List.singleton_append] at hsplit'
    rw [← CString.ofBytes_append_zero name, hsplit, ← hsplit']
    exact (CString.ofBytes_append_zero stored.truncate _).symm
  · rintro rfl
    exact copyName_take dst stored

end Names

section Bitmap

/-- The bitmap that bitmap_load reads from two sectors. -/
def bitmapOf (first second : Sector) : Vector UInt8 1024 :=
  Vector.ofFn fun k : Fin 1024 =>
    if k.val < 512 then first.bytes.getD k 0 else second.bytes.getD (k - 512) 0

theorem getElem_bitmapStore (bitmap : Vector UInt8 1024) (i : ℕ) (sector : Sector) {k : ℕ}
    (hk : k < 1024) :
    (bitmapStore bitmap i sector)[k] =
      if i * 512 ≤ k ∧ k < i * 512 + 512 then sector.bytes.getD (k - i * 512) 0 else bitmap[k] := by
  simp [bitmapStore]

theorem getElem_bitmapOf (first second : Sector) {k : ℕ} (hk : k < 1024) :
    (bitmapOf first second)[k] =
      if k < 512 then first.bytes.getD k 0 else second.bytes.getD (k - 512) 0 := by
  simp [bitmapOf]

theorem bitmapStore_bitmapStore (bitmap : Vector UInt8 1024) (first second : Sector) :
    bitmapStore (bitmapStore bitmap 0 first) 1 second = bitmapOf first second := by
  apply Vector.ext
  intro k hk
  rw [getElem_bitmapStore _ _ _ hk, getElem_bitmapStore _ _ _ hk, getElem_bitmapOf _ _ hk]
  by_cases hlt : k < 512
  · rw [if_neg (by omega), if_pos (by omega), if_pos hlt]
    rfl
  · rw [if_pos (by omega), if_neg hlt]

/-- The sectors that hexafs_save_bitmap writes are read back. -/
@[simp] theorem bitmapOf_bitmapSector (bitmap : Vector UInt8 1024) :
    bitmapOf (bitmapSector bitmap 0) (bitmapSector bitmap 1) = bitmap := by
  have hsector : ∀ i j, i < 2 → j < 512 →
      (bitmapSector bitmap i).bytes.getD j 0 = bitmap.toList.getD (i * 512 + j) 0 := by
    intro i j hi hj
    have hlen : bitmap.toList.length = 1024 := Vector.length_toList
    simp only [bitmapSector, padBlock]
    rw [List.getD_eq_getElem?_getD, List.getElem?_append_left (by simp; omega),
      List.getElem?_take_of_lt hj, List.getElem?_drop, ← List.getD_eq_getElem?_getD]
  apply Vector.ext
  intro k hk
  rw [getElem_bitmapOf _ _ hk]
  by_cases hlt : k < 512
  · rw [if_pos hlt, hsector 0 k (by decide) hlt, List.getD_eq_getElem _ _ (by simpa using hk)]
    simp
  · rw [if_neg hlt, hsector 1 (k - 512) (by decide) (by omega),
      List.getD_eq_getElem _ _ (by simp; omega)]
    have hadd : 1 * 512 + (k - 512) = k := by omega
    simp [hadd]

/-- The first sector holds the bits of all blocks of the disk. -/
theorem bitmapTest_bitmapOf (first second second' : Sector) {block : ℕ}
    (h : block < hexafsDiskBlocks) :
    bitmapTest (bitmapOf first second) block = bitmapTest (bitmapOf first second') block := by
  have hblock : block < 4096 := h
  have hdiv : block / 8 < 1024 := by omega
  rw [bitmapTest, bitmapTest, dif_pos hdiv, dif_pos hdiv, getElem_bitmapOf _ _ hdiv,
    getElem_bitmapOf _ _ hdiv, if_pos (by omega), if_pos (by omega)]

end Bitmap

section Superblock

/-- The stored checksum does not enter the computed one. -/
theorem sbChecksum_checksum (magic : Vector UInt8 8)
    (version total allocator blocks store root checksum checksum' timestamp gen : UInt32)
    (pad : Vector UInt8 468) :
    sbChecksum ⟨magic, version, total, allocator, blocks, store, root, checksum, timestamp, gen, pad⟩ =
      sbChecksum
        ⟨magic, version, total, allocator, blocks, store, root, checksum', timestamp, gen, pad⟩ := by
  unfold sbChecksum
  with_reducible rfl

/-- hexafs_read_superblock accepts what hexafs_write_superblock writes. -/
@[simp] theorem superblockValid_nextSuperblock (cache : HexafsSuperblock) :
    superblockValid (nextSuperblock cache) = true := by
  have hsum : sbChecksum (nextSuperblock cache) = (nextSuperblock cache).checksum := by
    unfold nextSuperblock
    dsimp only
    exact sbChecksum_checksum _ _ _ _ _ _ _ _ _ _ _ _
  simp only [superblockValid, Bool.and_eq_true, beq_iff_eq]
  exact ⟨rfl, hsum⟩

@[simp] theorem nextSuperblock_rootSnapBlock (cache : HexafsSuperblock) :
    (nextSuperblock cache).rootSnapBlock = cache.rootSnapBlock := rfl

@[simp] theorem nextSuperblock_timestamp (cache : HexafsSuperblock) :
    (nextSuperblock cache).timestamp = cache.timestamp := rfl

end Superblock

/-- Every object type passes the magic check. -/
theorem objMagicOk_hexafsObjectType (type : UInt8) :
    hexafsObjectType type &&& 0xFFFFFF00 = hexafsObjMagicBase := by
  have hlow : type.toUInt32 &&& 0xFFFFFF00 = 0 := by
    apply UInt32.toBitVec_inj.mp
    ext i hi
    by_cases h : i < 8
    · interval_cases i <;> simp
    · simp
      intro htrue
      rw [BitVec.getLsbD_of_ge _ _ (by omega)] at htrue
      cases htrue
  have hdistrib : hexafsObjectType type &&& 0xFFFFFF00 =
      (hexafsObjMagicBase &&& 0xFFFFFF00) ||| (type.toUInt32 &&& 0xFFFFFF00) := by
    apply UInt32.toBitVec_inj.mp
    simp only [hexafsObjectType, UInt32.toBitVec_and, UInt32.toBitVec_or]
    ext i hi
    simp only [BitVec.getElem_and, BitVec.getElem_or, Bool.and_or_distrib_right]
  rw [hdistrib, hlow]
  rfl

end HexaOS.Hexafs
