import HexaOS.ShellForms

/-!
# HEX binaries

hex_pack_elf of hex.c: a form is wrapped with a header into a new block, and the block
becomes the content of the form whose name ends in ".hex". No permission is checked, and
the capacity of that form is its size.
-/

namespace HexaOS.Shell

open DevicePrograms PackedBytes Hexafs Kernel

/-- HEX_MAGIC -/
def hexMagic : UInt32 := 0x48455841

/-- hex_header_t -/
structure HexHeader where
  /-- The magic number. -/
  magic : UInt32
  /-- The version. -/
  version : UInt32
  /-- The first instruction. -/
  entryPoint : UInt32
  /-- The place of the code in the file. -/
  codeOffset : UInt32
  /-- The bytes of the code. -/
  codeSize : UInt32
  /-- The schema of the input. -/
  inputSchemaHash : UInt32
  /-- The schema of the output. -/
  outputSchemaHash : UInt32
  /-- The number of capabilities. -/
  capCount : UInt32
  /-- The capabilities. -/
  caps : Vector UInt32 16
  /-- The number of dependencies. -/
  depCount : UInt32
  /-- The hashes of the dependencies. -/
  depHashes : Vector UInt32 16
  /-- The sum over the header. -/
  checksum : UInt32
  deriving DecidableEq

instance : Packed HexHeader :=
  .ofEquiv (α := UInt32 × UInt32 × UInt32 × UInt32 × UInt32 × UInt32 × UInt32 × UInt32 ×
      Vector UInt32 16 × UInt32 × Vector UInt32 16 × UInt32)
    { toFun := fun h => (h.magic, h.version, h.entryPoint, h.codeOffset, h.codeSize,
        h.inputSchemaHash, h.outputSchemaHash, h.capCount, h.caps, h.depCount, h.depHashes,
        h.checksum)
      invFun := fun (a, b, c, d, e, f, g, h, i, j, k, l) => ⟨a, b, c, d, e, f, g, h, i, j, k, l⟩
      left_inv := fun _ => rfl
      right_inv := fun _ => rfl }

/-- sizeof(hex_header_t) -/
def hexHeaderSize : ℕ := 168

theorem length_toBytes_hexHeader (hdr : HexHeader) : (toBytes hdr).length = hexHeaderSize :=
  Packed.length_toBytes hdr

/-- The checksum loop: all bytes but the last four. -/
def hexChecksum (hdr : HexHeader) : UInt32 :=
  ((toBytes hdr).take (hexHeaderSize - 4)).foldl (fun ck b => ((ck <<< 5) + ck) + b.toUInt32) 0

/-- hex_validate of a header that is there. -/
def hexValidate (hdr : HexHeader) : Bool :=
  hdr.magic == hexMagic && hexChecksum hdr == hdr.checksum

/-- Is the character a decimal digit? -/
def isDigit (c : UInt8) : Bool := decide (48 ≤ c ∧ c ≤ 57)

/-- The value of decimal digits. -/
def decimal (digits : List UInt8) : UInt32 :=
  digits.foldl (fun val c => val * 10 + (c.toUInt32 - 48)) 0

/-- The loop over caps_str, with the number of capabilities that still fit. A character that
is no digit, space or comma stands for a zero. -/
def parseCaps : ℕ → List UInt8 → List UInt32
  | 0, _ => []
  | left + 1, chars =>
    match chars.dropWhile (· = space) with
    | [] => []
    | c :: rest =>
      let digits := (c :: rest).takeWhile isDigit
      let after := ((c :: rest).drop digits.length).dropWhile (· = space)
      decimal digits :: parseCaps left (if after.head? = some 44 then after.tail else after)

/-- The header that hex_pack_elf fills, with its checksum. -/
def packedHeader (entryPoint codeSize inSchema outSchema : UInt32) (caps : List UInt32) :
    HexHeader :=
  let hdr : HexHeader :=
    { magic := hexMagic
      version := 1
      entryPoint := entryPoint
      codeOffset := UInt32.ofNat hexHeaderSize
      codeSize := codeSize
      inputSchemaHash := inSchema
      outputSchemaHash := outSchema
      capCount := UInt32.ofNat caps.length
      caps := Vector.ofFn fun i : Fin 16 => caps.getD i 0
      depCount := 0
      depHashes := Vector.replicate 16 0
      checksum := 0 }
  { hdr with checksum := hexChecksum hdr }

/-- The word at offset 24 of a content, its e_entry. A content of 4 bytes or more is read
there, however long its block is. -/
def elfEntry (idx : ℕ) : KernelM UInt32 := do
  let kernel ← Code.memory
  let form := kernel.forms.slot idx
  if form.content ≠ 0 ∧ 4 ≤ form.size then
    let word ← loadBytes form.content 24 4
    pure (Packed.ofBytes word)
  else pure 0

/-- The bytes of the form to be wrapped. -/
def elfBytes (idx : ℕ) : KernelM (List UInt8) := do
  let kernel ← Code.memory
  let form := kernel.forms.slot idx
  if form.content ≠ 0 ∧ 0 < form.size then loadBytes form.content 0 form.size else pure []

/-- The name of the wrapped form. -/
def hexName (elfName : CString) : CString :=
  ⟨(takeChars 24 elfName).chars ++ [46, 104, 101, 120], by
    have hzero := (takeChars 24 elfName).nonzero
    simp [hzero]⟩

/-- Give a form the packed block for its content. -/
def adoptBlock (hidx packed len : ℕ) : KernelM Unit := do
  let kernel ← Code.memory
  freeBlock (kernel.forms.slot hidx).content
  modifyForm hidx fun form => { form with content := packed, size := len, cap := len }

/-- The part of hex_pack_elf behind the block: make the form, if there is none, and give it
the block. -/
def wrapForm (name : CString) (packed len : ℕ) : KernelM (List UInt8) := do
  let line ← cmdMkform name
  let kernel ← Code.memory
  match findForm kernel name with
  | none => pure (mkformText line)
  | some hidx =>
    adoptBlock hidx packed len
    pure (mkformText line)

/-- The part of hex_pack_elf behind the lookup. -/
def packForm (idx : ℕ) (elfName caps : CString) (inSchema outSchema : UInt32) :
    KernelM (List UInt8) := do
  let kernel ← Code.memory
  let size := (kernel.forms.slot idx).size
  let entryPoint ← elfEntry idx
  let hdr := packedHeader entryPoint (UInt32.ofNat size) inSchema outSchema
    (parseCaps 16 caps.chars)
  match ← allocBlock (hexHeaderSize + size + 1) with
  | none => pure (said "hexpack: allocation failed\n")
  | some packed =>
    storeBytes packed 0 (toBytes hdr)
    let code ← elfBytes idx
    storeBytes packed hexHeaderSize code
    let made ← wrapForm (hexName elfName) packed (hexHeaderSize + size)
    pure (made ++ said "hexpack: wrapped " ++ elfName.chars ++ said " -> " ++
      (hexName elfName).chars ++ said "\n")

/-- hex_pack_elf -/
def hexPackElf (elfName caps : CString) (inSchema outSchema : UInt32) : KernelM (List UInt8) := do
  let kernel ← Code.memory
  if elfName.chars = [] then pure (said "hexpack: no ELF name specified\n")
  else
    match findForm kernel elfName with
    | none => pure (said "hexpack: ELF form '" ++ elfName.chars ++ said "' not found\n")
    | some idx => packForm idx elfName caps inSchema outSchema

/-- cmd_hexpack -/
def cmdHexpack (args : CString) : KernelM (List UInt8) :=
  hexPackElf (firstWord 31 args) (restWords 31 63 args) 0 0

end HexaOS.Shell
