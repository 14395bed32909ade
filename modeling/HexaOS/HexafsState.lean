import HexaOS.HexafsDevice

/-!
# The static data of the form store

The statics of hexafs_disk.c and hexafs.c, the form and user tables of hexa.c and
the boot policy record, as far as the store code reads or writes them. A C array
is a function of its index; the counter beside it says how many entries live.
-/

namespace HexaOS.Hexafs

open DevicePrograms PackedBytes

/-- The block allocator of hexafs_disk.c. -/
structure Allocator where
  /-- alloc_bitmap: one bit for each block, 1024 bytes. -/
  bitmap : Vector UInt8 1024
  /-- alloc_bitmap_dirty -/
  dirty : Bool
  /-- next_alloc_hint -/
  nextHint : ℕ
  /-- Whether "HEXAFS: out of disk blocks" has been logged, that is, whether
  hexafs_alloc_block has returned 0. -/
  outOfBlocks : Bool

/-- hexafs_tx_t -/
structure HexafsTx where
  /-- Is a transaction open? -/
  active : Bool
  /-- Its number. -/
  tid : ℕ
  /-- The root when it was opened. -/
  parentSnapBlock : UInt32
  /-- The abstraction that it makes. -/
  newRootBlock : UInt32
  /-- The snapshot that it makes. -/
  snapBlock : UInt32
  /-- A journal block, which stays 0. -/
  journalBlock : UInt32
  /-- Was anything written in it? -/
  dirty : Bool
  deriving DecidableEq

/-- A transaction record of zeros. -/
def HexafsTx.zero : HexafsTx := ⟨false, 0, 0, 0, 0, 0, false⟩

/-- struct hexa_formentry. `content` is the buffer, `none` for a null pointer. -/
structure FormEntry where
  /-- The name. -/
  name : CString
  /-- The buffer, or null. -/
  content : Option (List UInt8)
  /-- The bytes of the form. -/
  size : ℕ
  /-- The bytes that the buffer is to hold. -/
  cap : ℕ
  /-- The owner. -/
  owner : UInt32
  /-- The mode. -/
  mode : UInt16
  /-- A buffer holds at least the bytes that count. -/
  size_le : ∀ buffer ∈ content, size ≤ buffer.length

/-- A slot may lose its buffer. -/
theorem FormEntry.size_le_none (slot : FormEntry) :
    ∀ buffer ∈ (none : Option (List UInt8)), slot.size ≤ buffer.length :=
  fun _ hbuffer => absurd hbuffer (Option.not_mem_none _)

/-- No bytes need no buffer. -/
theorem FormEntry.zero_le_none : ∀ buffer ∈ (none : Option (List UInt8)), 0 ≤ buffer.length :=
  fun buffer _ => Nat.zero_le buffer.length

/-- No bytes fit into a buffer of one byte. -/
theorem FormEntry.zero_le_one : ∀ buffer ∈ some [(0 : UInt8)], 0 ≤ buffer.length :=
  fun buffer _ => Nat.zero_le buffer.length

/-- A form table slot of zeros. -/
def FormEntry.zero : FormEntry :=
  ⟨⟨[], CString.zero_notMem_nil⟩, none, 0, 0, 0, 0, FormEntry.zero_le_none⟩

/-- The bytes of a form. -/
def FormEntry.bytes (form : FormEntry) : List UInt8 := (form.content.getD []).take form.size

/-- pimp_rule_t -/
structure PimpRule where
  /-- The name of the user. -/
  user : Vector UInt8 32
  /-- The capabilities that are allowed. -/
  allowedCaps : UInt32
  /-- May the password be left out? -/
  noPass : UInt32
  /-- Does the rule end with the session? -/
  sessionOnly : UInt32
  deriving DecidableEq

instance : Packed PimpRule :=
  .ofEquiv (α := Vector UInt8 32 × UInt32 × UInt32 × UInt32)
    { toFun := fun r => (r.user, r.allowedCaps, r.noPass, r.sessionOnly)
      invFun := fun (a, b, c, d) => ⟨a, b, c, d⟩
      left_inv := fun _ => rfl
      right_inv := fun _ => rfl }

/-- sizeof(pimp_rule_t) -/
def pimpRuleSize : ℕ := 44

/-- PIMP_RULE_MAX -/
def pimpRuleMax : ℕ := 32

/-- A rule of zeros. -/
def PimpRule.zero : PimpRule := ⟨Vector.replicate 32 0, 0, 0, 0⟩

/-- One entry of u_table. -/
structure UserEntry where
  /-- The name. -/
  name : Vector UInt8 32
  /-- The hash of the password. -/
  passHash : Vector UInt8 32
  /-- Not 0 for a user with root rights. -/
  isRoot : UInt32
  deriving DecidableEq

/-- A user table slot of zeros. -/
def UserEntry.zero : UserEntry := ⟨Vector.replicate 32 0, Vector.replicate 32 0, 0⟩

/-- A superblock of zeros. -/
def HexafsSuperblock.zero : HexafsSuperblock :=
  ⟨Vector.replicate 8 0, 0, 0, 0, 0, 0, 0, 0, 0, 0, Vector.replicate 468 0⟩

/-- The statics that the store code reads or writes. -/
structure Memory where
  /-- The bitmap, the hint and their marks. -/
  allocator : Allocator
  /-- hexafs_mounted -/
  hexafsMounted : Bool
  /-- sb_cache -/
  sbCache : HexafsSuperblock
  /-- hexafs_current_tx -/
  currentTx : HexafsTx
  /-- tx_gen -/
  txGen : ℕ
  /-- root_abs_block -/
  rootAbsBlock : UInt32
  /-- form_table -/
  formTable : ℕ → FormEntry
  /-- form_count -/
  formCount : ℕ
  /-- pimp_rules -/
  pimpRules : ℕ → PimpRule
  /-- pimp_count -/
  pimpCount : ℕ
  /-- u_table -/
  uTable : ℕ → UserEntry
  /-- u_count -/
  uCount : ℕ
  /-- u_cur -/
  uCur : ℕ
  /-- disk_ok -/
  diskOk : Bool
  /-- g_policy_loaded -/
  policyLoaded : Bool
  /-- g_policy.stage_count -/
  policyStageCount : ℕ

/-- The statics as the boot loader leaves them. -/
def Memory.boot : Memory where
  allocator := ⟨Vector.replicate 1024 0, false, hexafsObjectLba, false⟩
  hexafsMounted := false
  sbCache := HexafsSuperblock.zero
  currentTx := HexafsTx.zero
  txGen := 0
  rootAbsBlock := 0
  formTable := fun _ => FormEntry.zero
  formCount := 0
  pimpRules := fun _ => PimpRule.zero
  pimpCount := 0
  uTable := fun _ => UserEntry.zero
  uCount := 0
  uCur := 0
  diskOk := false
  policyLoaded := false
  policyStageCount := 0

/-- The live entries of form_table. -/
def Memory.forms (mem : Memory) : List FormEntry := (List.range mem.formCount).map mem.formTable

/-- The live entries of pimp_rules. -/
def Memory.rules (mem : Memory) : List PimpRule := (List.range mem.pimpCount).map mem.pimpRules

/-- Code of the store. -/
abbrev HexafsM (α : Type) : Type := Code Memory BlockOp BlockReply α

/-- hexafs_block_read -/
def hexafsBlockRead (lba : UInt32) : HexafsM (Option Sector) := Code.request (BlockOp.read lba)

/-- hexafs_block_write -/
def hexafsBlockWrite (lba : UInt32) (buf : Sector) : HexafsM Bool := Code.request (BlockOp.write lba buf)

/-- kmalloc -/
def kmalloc (size : ℕ) : HexafsM (Option (List UInt8)) := Code.request (BlockOp.kmalloc size)

/-- memset(block_cache, 0, sizeof(block_cache)) -/
def clearBlockCache : HexafsM Unit := Code.request BlockOp.clearCache

/-- Update the allocator. -/
def modifyAllocator (update : Allocator → Allocator) : HexafsM Unit :=
  Code.modify fun mem => { mem with allocator := update mem.allocator }

/-- Update hexafs_current_tx. -/
def modifyTx (update : HexafsTx → HexafsTx) : HexafsM Unit :=
  Code.modify fun mem => { mem with currentTx := update mem.currentTx }

/-- Continue with a value, or stop. -/
def liftStop {α : Type} : Except Stop α → HexafsM α
  | .ok value => pure value
  | .error stop => Code.halt stop

end HexaOS.Hexafs
