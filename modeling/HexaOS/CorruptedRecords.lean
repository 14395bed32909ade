import Mathlib.Data.Nat.ModEq
import HexaOS.HexBinaries
import HexaOS.HexafsMachine
import HexaOS.HexafsTransactions
import HexaOS.SealedRecords

/-!
# Records with a replaced byte

The superblock and the header of a HEX binary hold a checksum that multiplies by 33 and adds
the next byte, modulo 2^32. The step loses nothing, as 33 is odd and a byte fits the word, so
hexafs_read_superblock and hex_validate refuse a record of which one byte was replaced.
-/

namespace HexaOS.Shell

open DevicePrograms PackedBytes Hexafs SealedRecords

/-- The step of the checksums. -/
def djbStep (h : UInt32) (p : UInt8) : UInt32 := ((h <<< 5) + h) + p.toUInt32

/-- How a superblock is sealed: the checksum takes its own field as zeros. -/
def superblockFormat : Format UInt8 UInt32 :=
  ⟨djbStep, 5381, 32, 4, [0, 0, 0, 0], Packed.ofBytes⟩

/-- How the header of a HEX binary is sealed: the checksum stops before its own field. -/
def hexFormat : Format UInt8 UInt32 := ⟨djbStep, 0, 164, 4, [], Packed.ofBytes⟩

section Checksums

theorem djbStep_toNat (h : UInt32) (p : UInt8) :
    (djbStep h p).toNat = (33 * h.toNat + p.toNat) % 2 ^ 32 := by
  have hlt := h.toNat_lt
  have hbyte := p.toNat_lt
  have hshift : (h <<< 5).toNat = 32 * h.toNat % 2 ^ 32 := by
    rw [UInt32.toNat_shiftLeft, Nat.shiftLeft_eq]
    show h.toNat * 2 ^ 5 % 2 ^ 32 = _
    omega
  rw [djbStep, UInt32.toNat_add, UInt32.toNat_add, hshift, UInt8.toNat_toUInt32]
  omega

/-- 33 is odd, so the state is not lost. -/
theorem djbStep_injective_state (p : UInt8) : Function.Injective fun h => djbStep h p := by
  intro h h' heq
  have hnat := congrArg UInt32.toNat heq
  simp only [djbStep_toNat] at hnat
  have hsum : 33 * h.toNat ≡ 33 * h'.toNat [MOD 2 ^ 32] := Nat.ModEq.add_right_cancel' p.toNat hnat
  have hcancelled : h.toNat ≡ h'.toNat [MOD 2 ^ 32] :=
    Nat.ModEq.cancel_left_of_coprime (by decide) hsum
  exact UInt32.toNat_inj.mp (hcancelled.eq_of_lt_of_lt h.toNat_lt h'.toNat_lt)

/-- A byte fits the word, so it is not lost. -/
theorem djbStep_injective_byte (h : UInt32) : Function.Injective (djbStep h) := by
  intro p p' heq
  have hnat := congrArg UInt32.toNat heq
  simp only [djbStep_toNat] at hnat
  have hlt := p.toNat_lt
  have hlt' := p'.toNat_lt
  exact UInt8.toNat_inj.mp (by omega)

/-- Four bytes are the word that they hold. -/
theorem ofBytes_injOn : Set.InjOn (Packed.ofBytes : List UInt8 → UInt32) {bytes | bytes.length = 4} := by
  intro bytes hlength bytes' hlength' heq
  have hround : toBytes (Packed.ofBytes bytes : UInt32) = bytes.take 4 :=
    Packed.toBytes_ofBytes bytes (Nat.le_of_eq hlength.symm)
  have hround' : toBytes (Packed.ofBytes bytes' : UInt32) = bytes'.take 4 :=
    Packed.toBytes_ofBytes bytes' (Nat.le_of_eq hlength'.symm)
  rw [heq, hround', List.take_of_length_le (Nat.le_of_eq hlength'),
    List.take_of_length_le (Nat.le_of_eq hlength)] at hround
  exact hround.symm

theorem superblockFormat_lossless : superblockFormat.Lossless :=
  ⟨djbStep_injective_state, djbStep_injective_byte, ofBytes_injOn⟩

theorem hexFormat_lossless : hexFormat.Lossless :=
  ⟨djbStep_injective_state, djbStep_injective_byte, ofBytes_injOn⟩

end Checksums

section Superblocks

variable {sb : HexafsSuperblock}

/-- The bytes before the checksum of a superblock. -/
def superblockFront (sb : HexafsSuperblock) : List UInt8 :=
  toBytes (sb.magic, sb.version, sb.totalBlocks, sb.allocatorLba, sb.allocatorBlocks,
    sb.objectStoreLba, sb.rootSnapBlock)

/-- The bytes behind the checksum of a superblock. -/
def superblockBack (sb : HexafsSuperblock) : List UInt8 :=
  toBytes (sb.timestamp, sb.formatGen, sb.pad)

theorem length_superblockFront (sb : HexafsSuperblock) : (superblockFront sb).length = 32 :=
  Packed.length_toBytes (α := Vector UInt8 8 × UInt32 × UInt32 × UInt32 × UInt32 × UInt32 × UInt32) _

theorem toBytes_pair {α β : Type} [Packed α] [Packed β] (a : α) (b : β) :
    toBytes (a, b) = toBytes a ++ toBytes b := rfl

theorem toBytes_superblock (sb : HexafsSuperblock) :
    toBytes sb = superblockFront sb ++ (toBytes sb.checksum ++ superblockBack sb) := by
  have hfields : toBytes sb = toBytes (sb.magic, sb.version, sb.totalBlocks, sb.allocatorLba,
    sb.allocatorBlocks, sb.objectStoreLba, sb.rootSnapBlock, sb.checksum, sb.timestamp,
    sb.formatGen, sb.pad) := rfl
  simp only [hfields, superblockFront, superblockBack, toBytes_pair, List.append_assoc]

/-- What sb_checksum computes. -/
theorem sbChecksum_eq (sb : HexafsSuperblock) :
    sbChecksum sb = superblockFormat.checksum (toBytes sb) := by
  have hlength := length_superblockFront sb
  have hword : (toBytes sb.checksum).length = 4 := Packed.length_toBytes sb.checksum
  have hzeros : toBytes (0 : UInt32) = [0, 0, 0, 0] := by decide
  have hzero : toBytes { sb with checksum := 0 } =
      superblockFront sb ++ (toBytes (0 : UInt32) ++ superblockBack sb) :=
    toBytes_superblock { sb with checksum := 0 }
  have hcovered : superblockFormat.covered (toBytes sb) =
      superblockFront sb ++ ([0, 0, 0, 0] ++ superblockBack sb) := by
    have htake : (toBytes sb).take 32 = superblockFront sb := by
      rw [toBytes_superblock, List.take_left' hlength]
    have hdrop : (toBytes sb).drop 36 = superblockBack sb := by
      rw [toBytes_superblock, ← List.append_assoc,
        List.drop_left' (by rw [List.length_append, hlength, hword])]
    rw [Format.covered, ← List.append_assoc]
    exact congrArg₂ (fun front back => front ++ [0, 0, 0, 0] ++ back) htake hdrop
  rw [sbChecksum, hzero, hzeros, Format.checksum, hcovered]
  rfl

/-- The checksum that a superblock holds. -/
theorem checksum_eq_decode (sb : HexafsSuperblock) :
    superblockFormat.decode (superblockFormat.field (toBytes sb)) = sb.checksum := by
  have hlength := length_superblockFront sb
  have hword : (toBytes sb.checksum).length = 4 := Packed.length_toBytes sb.checksum
  have hfield : superblockFormat.field (toBytes sb) = toBytes sb.checksum := by
    show ((toBytes sb).drop 32).take 4 = _
    rw [toBytes_superblock, List.drop_left' hlength, List.take_left' hword]
  rw [hfield]
  exact Packed.ofBytes_toBytes sb.checksum

/-- A sector with another byte at one place. -/
def replaceByte (sector : Sector) (i : ℕ) (byte : UInt8) : Sector :=
  ⟨sector.bytes.set i byte, by rw [List.length_set, sector.length_bytes]⟩

/-- A superblock that is valid is invalid after one of its bytes was replaced. -/
theorem superblockValid_replaceByte (hvalid : superblockValid sb = true) {i : ℕ} (hi : i < 512)
    {byte : UInt8} (hne : (toBlock 512 sb).bytes[i]? ≠ some byte) :
    superblockValid (ofBlock HexafsSuperblock (replaceByte (toBlock 512 sb) i byte)) = false := by
  have hbytes : toBytes (ofBlock HexafsSuperblock (replaceByte (toBlock 512 sb) i byte)) =
      (toBytes sb).set i byte :=
    congrArg Block.bytes (toBlock_ofBlock (α := HexafsSuperblock) (n := 512) _)
  have hlength : (toBytes sb).length = 512 := (toBlock 512 sb).length_bytes
  rw [superblockValid, Bool.and_eq_true, beq_iff_eq, beq_iff_eq, sbChecksum_eq,
    ← checksum_eq_decode] at hvalid
  have hrefused : ¬superblockFormat.Holds ((toBytes sb).set i byte) := by
    refine superblockFormat_lossless.not_holds_set hvalid.2 ?_ (by omega) fun heq => hne ?_
    · rw [hlength]
      decide
    · rw [← heq]
      exact List.getElem?_eq_getElem _
  rw [superblockValid, Bool.and_eq_false_iff]
  right
  rw [beq_eq_false_iff_ne, sbChecksum_eq, ← checksum_eq_decode, hbytes]
  exact hrefused

end Superblocks

section Headers

variable {hdr : HexHeader}

/-- The bytes before the checksum of a header. -/
def hexFront (hdr : HexHeader) : List UInt8 :=
  toBytes (hdr.magic, hdr.version, hdr.entryPoint, hdr.codeOffset, hdr.codeSize,
    hdr.inputSchemaHash, hdr.outputSchemaHash, hdr.capCount, hdr.caps, hdr.depCount, hdr.depHashes)

theorem length_hexFront (hdr : HexHeader) : (hexFront hdr).length = 164 :=
  Packed.length_toBytes (α := UInt32 × UInt32 × UInt32 × UInt32 × UInt32 × UInt32 × UInt32 ×
    UInt32 × Vector UInt32 16 × UInt32 × Vector UInt32 16) _

theorem toBytes_hexHeader (hdr : HexHeader) :
    toBytes hdr = hexFront hdr ++ toBytes hdr.checksum := by
  have hfields : toBytes hdr = toBytes (hdr.magic, hdr.version, hdr.entryPoint, hdr.codeOffset,
    hdr.codeSize, hdr.inputSchemaHash, hdr.outputSchemaHash, hdr.capCount, hdr.caps, hdr.depCount,
    hdr.depHashes, hdr.checksum) := rfl
  simp only [hfields, hexFront, toBytes_pair, List.append_assoc]

/-- What hex_validate and hex_pack_elf compute. -/
theorem hexChecksum_eq (hdr : HexHeader) : hexChecksum hdr = (hexFront hdr).foldl djbStep 0 := by
  rw [hexChecksum, toBytes_hexHeader]
  have htake : (hexFront hdr ++ toBytes hdr.checksum).take (hexHeaderSize - 4) = hexFront hdr :=
    List.take_left' (length_hexFront hdr)
  rw [htake]
  rfl

theorem hexValidate_iff (hdr : HexHeader) :
    hexValidate hdr = true ↔ hdr.magic = hexMagic ∧ hexFormat.Holds (toBytes hdr) := by
  have hlength := length_hexFront hdr
  have hword : (toBytes hdr.checksum).length = 4 := Packed.length_toBytes hdr.checksum
  have hcovered : hexFormat.covered (toBytes hdr) = hexFront hdr := by
    have htake : (toBytes hdr).take 164 = hexFront hdr := by
      rw [toBytes_hexHeader, List.take_left' hlength]
    have hdrop : (toBytes hdr).drop 168 = [] :=
      List.drop_eq_nil_of_le (Nat.le_of_eq (length_toBytes_hexHeader hdr))
    show (toBytes hdr).take 164 ++ [] ++ (toBytes hdr).drop 168 = hexFront hdr
    rw [htake, hdrop, List.append_nil, List.append_nil]
  have hfield : hexFormat.field (toBytes hdr) = toBytes hdr.checksum := by
    show ((toBytes hdr).drop 164).take 4 = _
    rw [toBytes_hexHeader, List.drop_left' hlength, List.take_of_length_le (Nat.le_of_eq hword)]
  have hdecode : hexFormat.decode (toBytes hdr.checksum) = hdr.checksum :=
    Packed.ofBytes_toBytes hdr.checksum
  rw [hexValidate, Bool.and_eq_true, beq_iff_eq, beq_iff_eq, hexChecksum_eq, Format.Holds,
    Format.checksum, hcovered, hfield, hdecode]
  exact Iff.rfl

/-- A header that hex_pack_elf built is valid. -/
theorem hexValidate_packedHeader (entryPoint codeSize inSchema outSchema : UInt32)
    (caps : List UInt32) :
    hexValidate (packedHeader entryPoint codeSize inSchema outSchema caps) = true := by
  rw [hexValidate, Bool.and_eq_true, beq_iff_eq, beq_iff_eq]
  refine ⟨rfl, ?_⟩
  rw [hexChecksum_eq]
  have hfront : ∀ hdr : HexHeader, ∀ checksum,
      hexFront { hdr with checksum := checksum } = hexFront hdr := fun _ _ => rfl
  rw [packedHeader, hfront, ← hexChecksum_eq]

/-- A header that is valid is invalid after one of its bytes was replaced. -/
theorem hexValidate_replaced (hvalid : hexValidate hdr = true) {i : ℕ} (hi : i < hexHeaderSize)
    {byte : UInt8} (hne : (toBytes hdr)[i]? ≠ some byte) :
    hexValidate (Packed.ofBytes ((toBytes hdr).set i byte)) = false := by
  have hlength := length_toBytes_hexHeader hdr
  have hbytes : toBytes (Packed.ofBytes ((toBytes hdr).set i byte) : HexHeader) =
      (toBytes hdr).set i byte := by
    have hset : ((toBytes hdr).set i byte).length = 168 := by
      rw [List.length_set, hlength]
      rfl
    rw [Packed.toBytes_ofBytes _ (Nat.le_of_eq hset.symm)]
    exact List.take_of_length_le (Nat.le_of_eq hset)
  have hrefused : ¬hexFormat.Holds ((toBytes hdr).set i byte) := by
    refine hexFormat_lossless.not_holds_set ((hexValidate_iff hdr).mp hvalid).2 ?_ (by omega)
      fun heq => hne ?_
    · rw [hlength]
      decide
    · rw [← heq]
      exact List.getElem?_eq_getElem _
  rw [← Bool.not_eq_true, hexValidate_iff, hbytes]
  exact fun hvalid' => hrefused hvalid'.2

end Headers

section Reading

variable {env : Environment} {machine machine' : Machine}

/-- hexafs_write_superblock leaves a valid superblock in sb_cache, which it wrote. -/
theorem hexafsWriteSuperblock_valid {ok : Bool}
    (hrun : machine.run env hexafsWriteSuperblock = .ok (ok, machine')) :
    superblockValid machine'.mem.sbCache = true := by
  have hcache : (hexafsWriteSuperblock).Ensures machine.mem fun _ mem' =>
      mem'.sbCache = nextSuperblock machine.mem.sbCache := by
    simp only [hexafsWriteSuperblock, Code.ensures_bind, Code.ensures_memory, Code.ensures_modify]
    exact (Code.keeps_request _ _).mono fun _ mem' hkept => congrArg Memory.sbCache hkept
  rw [Machine.run_ensures hcache hrun]
  exact superblockValid_nextSuperblock _

/-- hexafs_read_superblock refuses a sector that holds no valid superblock. -/
theorem hexafsReadSuperblock_refuses {sector : Sector}
    (hread : machine.run env (hexafsBlockRead hexafsSuperLba) = .ok (some sector, machine'))
    (hinvalid : superblockValid (ofBlock HexafsSuperblock sector) = false) :
    machine.run env hexafsReadSuperblock = .ok (false, machine') := by
  rw [hexafsReadSuperblock, Machine.run_bind, hread]
  show machine'.run env (if superblockValid (ofBlock HexafsSuperblock sector) then _ else _) = _
  rw [hinvalid]
  rfl

/-- The superblock that hexafs_write_superblock wrote is refused by hexafs_read_superblock, and
the header that hex_pack_elf built is refused by hex_validate, after any one byte was replaced
by another one. -/
theorem replacedByte_refused :
    (∀ (env env' : Environment) (writer written reader read : Machine) (ok : Bool) (i : ℕ)
      (byte : UInt8), writer.run env hexafsWriteSuperblock = .ok (ok, written) → i < 512 →
        (toBlock 512 written.mem.sbCache).bytes[i]? ≠ some byte →
        reader.run env' (hexafsBlockRead hexafsSuperLba) =
          .ok (some (replaceByte (toBlock 512 written.mem.sbCache) i byte), read) →
        reader.run env' hexafsReadSuperblock = .ok (false, read)) ∧
    ∀ (entryPoint codeSize inSchema outSchema : UInt32) (caps : List UInt32) (i : ℕ) (byte : UInt8),
      i < hexHeaderSize →
      (toBytes (packedHeader entryPoint codeSize inSchema outSchema caps))[i]? ≠ some byte →
      hexValidate (Packed.ofBytes
        ((toBytes (packedHeader entryPoint codeSize inSchema outSchema caps)).set i byte)) =
          false := by
  constructor
  · intro env env' writer written reader read ok i byte hwrite hi hne hread
    have hvalid := hexafsWriteSuperblock_valid hwrite
    exact hexafsReadSuperblock_refuses hread (superblockValid_replaceByte hvalid hi hne)
  · intro entryPoint codeSize inSchema outSchema caps i byte hi hne
    exact hexValidate_replaced (hexValidate_packedHeader _ _ _ _ _) hi hne

/-- The first byte of a superblock and of a header becomes a zero. -/
theorem replacedByte_refused_first :
    (∃ written reader read : Machine,
      (Machine.boot blankDisk).run .faultless hexafsWriteSuperblock = .ok (true, written) ∧
        reader.run .faultless hexafsReadSuperblock = .ok (false, read)) ∧
      hexValidate (Packed.ofBytes ((toBytes (packedHeader 0 0 0 0 [])).set 0 0)) = false := by
  constructor
  · obtain ⟨written, hwrite, hfirst⟩ : ∃ written : Machine,
        (Machine.boot blankDisk).run .faultless hexafsWriteSuperblock = .ok (true, written) ∧
          (toBlock 512 written.mem.sbCache).bytes[0]? = some 72 := ⟨_, rfl, rfl⟩
    have hread : ∃ read, (Machine.boot fun _ =>
        replaceByte (toBlock 512 written.mem.sbCache) 0 0).run .faultless
          (hexafsBlockRead hexafsSuperLba) =
            .ok (some (replaceByte (toBlock 512 written.mem.sbCache) 0 0), read) := ⟨_, rfl⟩
    obtain ⟨read, hread⟩ := hread
    have hne : (toBlock 512 written.mem.sbCache).bytes[0]? ≠ some 0 := by
      rw [hfirst]
      decide
    exact ⟨written, _, read, hwrite,
      replacedByte_refused.1 _ _ _ _ _ _ _ 0 0 hwrite (by decide) hne hread⟩
  · exact replacedByte_refused.2 0 0 0 0 [] 0 0 (by decide) (by decide)

end Reading

end HexaOS.Shell
