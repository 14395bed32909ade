import HexaOS.ShellAccounts

/-!
# The commands on forms

mkform, makedim, delete, write, append, edit, move and copy of hexa.c on form_table and
the blocks its entries point to, and the table that hexafs_load_all leaves at boot. A
command returns what it prints, without the characters that get_line echoes.
-/

namespace HexaOS.Shell

open DevicePrograms PackedBytes Hexafs Kernel

/-- CONTENT_MAX -/
def contentMax : ℕ := 65528

/-- PERM_OWNER_X -/
def permOwnerX : UInt16 := 0x040

/-- PERM_GRP_X -/
def permGrpX : UInt16 := 0x008

/-- PERM_OTH_X -/
def permOthX : UInt16 := 0x001

/-- The bytes of a printed text. -/
def said (text : String) : List UInt8 := text.toList.map fun c => UInt8.ofNat c.toNat

/-- The line of cmd_mkform as it is printed. -/
def mkformText : MkformLine → List UInt8
  | .usage => said "Usage: mkform <formname>\n"
  | .storeFull => said "Form store full.\n"
  | .formExists => said "Form exists.\n"
  | .outOfMemory => said "Out of memory.\n"
  | .created => said "Created.\n"

section Table

/-- Update the entry of a form. -/
def modifyForm (idx : ℕ) (update : FormSlot → FormSlot) : KernelM Unit :=
  modifyForms fun forms => forms.setSlot idx (update (forms.slot idx))

/-- Set form_count. -/
def setFormCount (update : ℕ → ℕ) : KernelM Unit :=
  Code.modify fun kernel =>
    { kernel with store := { kernel.store with formCount := update kernel.store.formCount } }

/-- The loop that takes a form out of the table: the later ones move down by one, and the
last slot keeps what it held. -/
def shiftForms (forms : FormStore) (idx count : ℕ) : FormStore where
  slot i := if idx ≤ i ∧ i + 1 < count then forms.slot (i + 1) else forms.slot i
  block := forms.block
  fresh := forms.fresh
  content_lt i := by
    split
    · exact forms.content_lt (i + 1)
    · exact forms.content_lt i

/-- Take a form out of the table. -/
def removeForm (idx : ℕ) : KernelM Unit := do
  let kernel ← Code.memory
  modifyForms fun forms => shiftForms forms idx kernel.store.formCount
  setFormCount fun count => count - 1

/-- strcpy of a text to the content of a form. -/
def copyText (idx : ℕ) (text : List UInt8) : KernelM Unit := do
  let kernel ← Code.memory
  storeBytes (kernel.forms.slot idx).content 0 (text ++ [0])

/-- print_string of the content of a form. Without a terminator it is read behind its
block. -/
def showContent (idx : ℕ) : KernelM (List UInt8) := do
  let kernel ← Code.memory
  match kernel.forms.block (kernel.forms.slot idx).content with
  | none => Code.halt .fault
  | some block => if 0 ∈ block then pure (block.takeWhile (· ≠ 0)) else Code.halt .fault

/-- What the commands on one form begin with: find it, check the access to it. -/
def withForm {α : Type} (name : CString) (missing denied : α) (wantWrite : Bool)
    (body : ℕ → KernelM α) : KernelM α := do
  let kernel ← Code.memory
  match findForm kernel name with
  | none => pure missing
  | some idx => if checkPerm kernel idx wantWrite then pure denied else body idx

end Table

/-- The name that cmd_makedim gives: with a slash at its end. -/
def dimName (name : CString) : CString :=
  if name.chars.getLast? = some 47 then name
  else ⟨name.chars ++ [47], by simpa using name.nonzero⟩

/-- The stores of cmd_makedim. The slot keeps the buffer and the capacity it has. -/
def makeDim (name : CString) : KernelM Unit := do
  let kernel ← Code.memory
  let count := kernel.store.formCount
  modifyForm count fun form => { form with name := name }
  copyText count []
  modifyForm count fun form => { form with
    size := 0
    owner := UInt32.ofNat kernel.store.uCur
    mode := permDefault ||| permOwnerX ||| permGrpX ||| permOthX }
  setFormCount (· + 1)

/-- cmd_makedim. A name that does not fit its buffer with the slash is a fault. -/
def cmdMakedim (name : CString) : KernelM (List UInt8) := do
  let kernel ← Code.memory
  if name.chars = [] then pure (said "Usage: makedim <dimname>\n")
  else if nameMax ≤ (dimName name).chars.length then Code.halt .fault
  else if (findForm kernel (dimName name)).isSome then pure (said "Exists.\n")
  else if maxForms ≤ kernel.store.formCount then pure (said "Full.\n")
  else
    makeDim (dimName name)
    pure (said "Created.\n")

/-- The part of cmd_delete behind its checks. -/
def deleteForm (idx : ℕ) : KernelM Unit := do
  let kernel ← Code.memory
  freeBlock (kernel.forms.slot idx).content
  removeForm idx

/-- cmd_delete -/
def cmdDelete (name : CString) : KernelM (List UInt8) :=
  withForm name (said "Form not found.\n") (said "Permission denied.\n") true fun idx => do
    deleteForm idx
    pure (said "Deleted.\n")

/-- The stores of cmd_write. -/
def writeText (idx : ℕ) (content : CString) : KernelM Unit := do
  copyText idx content.chars
  modifyForm idx fun form => { form with size := content.chars.length }

/-- The part of cmd_write behind its checks. -/
def writeForm (idx : ℕ) (content : CString) : KernelM (List UInt8) := do
  let ok ← formEnsureCap idx (Int32.ofNat content.chars.length + 1)
  if ok then
    writeText idx content
    pure (said "Written.\n")
  else pure (said "Out of memory.\n")

/-- cmd_write -/
def cmdWrite (args : CString) : KernelM (List UInt8) := do
  if (firstWord 31 args).chars = [] then pure (said "Usage: write <form> <text>\n")
  else
    withForm (firstWord 31 args) (said "Form not found. Use mkform first.\n")
      (said "Permission denied.\n") true fun idx => writeForm idx (restWords 31 2047 args)

/-- The stores of cmd_append. -/
def appendText (idx : ℕ) (content : CString) : KernelM Unit := do
  let kernel ← Code.memory
  let form := kernel.forms.slot idx
  storeBytes form.content form.size (content.chars ++ [0])
  modifyForm idx fun form => { form with size := form.size + content.chars.length }

/-- The part of cmd_append behind its checks. -/
def appendForm (idx : ℕ) (content : CString) : KernelM (List UInt8) := do
  let kernel ← Code.memory
  let ok ← formEnsureCap idx
    (Int32.ofNat (kernel.forms.slot idx).size + Int32.ofNat content.chars.length + 1)
  if ok then
    appendText idx content
    pure (said "Appended.\n")
  else pure (said "Out of memory.\n")

/-- cmd_append -/
def cmdAppend (args : CString) : KernelM (List UInt8) := do
  if (firstWord 31 args).chars = [] then pure (said "Usage: append <form> <text>\n")
  else
    withForm (firstWord 31 args) (said "Form not found.\n") (said "Permission denied.\n") true
      fun idx => appendForm idx (restWords 31 2047 args)

/-- What a command prints, and the lines that it leaves to be typed. -/
abbrev Edited : Type := List UInt8 × List CString

/-- Store a line and its newline at the end of what was typed so far. -/
def storeLine (idx total : ℕ) (line : CString) : KernelM Unit := do
  let kernel ← Code.memory
  storeBytes (kernel.forms.slot idx).content total (line.chars ++ [10])
  modifyForm idx fun form => { form with size := total + line.chars.length + 1 }

/-- The loop of cmd_edit. get_line takes at most 127 characters of a line, and waits where
nothing more is typed. The buffer is not grown. -/
def editLoop (idx : ℕ) : List CString → ℕ → KernelM Edited
  | [], _ => Code.halt .hang
  | typed :: rest, total =>
    let line := takeChars 127 typed
    if line = literal ['.', 'd', 'o', 'n', 'e'] then pure (said "> ", rest)
    else if contentMax ≤ total + line.chars.length + 2 then pure (said "> Form full.\n", rest)
    else do
      storeLine idx total line
      let edited ← editLoop idx rest (total + line.chars.length + 1)
      pure (said "> " ++ edited.1, edited.2)

/-- What cmd_edit prints of the content. -/
def showCurrent (idx : ℕ) : KernelM (List UInt8) := do
  let kernel ← Code.memory
  if 0 < (kernel.forms.slot idx).size then
    let content ← showContent idx
    pure (said "--- current ---\n" ++ content ++ said "\n---\n")
  else pure []

/-- The part of cmd_edit behind its checks. -/
def editForm (idx : ℕ) (name : CString) (typed : List CString) : KernelM Edited := do
  let current ← showCurrent idx
  copyText idx []
  modifyForm idx fun form => { form with size := 0 }
  let edited ← editLoop idx typed 0
  pure (said "Editing: " ++ name.chars ++ said "\nType '.done' to finish.\n\n" ++ current ++
    edited.1 ++ said "Saved.\n", edited.2)

/-- cmd_edit, with the lines that are going to be typed. -/
def cmdEdit (name : CString) (typed : List CString) : KernelM Edited :=
  withForm name (said "Form not found.\n", typed) (said "Permission denied.\n", typed) true
    fun idx => editForm idx name typed

/-- The words of move and copy: two names. -/
def twoNames (args : CString) : CString × CString := (firstWord 31 args, restWords 31 31 args)

/-- The branch of execute_cmd for move. `save` is save_data. -/
def moveCommand (save : KernelM Unit) (args : CString) : KernelM (List UInt8) := do
  let (src, dst) := twoNames args
  if src.chars = [] ∨ dst.chars = [] then pure (said "Usage: move <src> <dst>\n")
  else
    withForm src (said "Not found.\n") (said "Denied.\n") true fun idx => do
      modifyForm idx fun form => { form with name := dst }
      save
      pure (said "Renamed.\n")

/-- memcpy of the front of one content to another one. -/
def copyContent (dst src size : ℕ) : KernelM Unit := do
  if size = 0 then pure ()
  else
    let kernel ← Code.memory
    let bytes ← loadBytes (kernel.forms.slot src).content 0 size
    storeBytes (kernel.forms.slot dst).content 0 bytes

/-- The entry of a copy. -/
def fillCopy (count si : ℕ) (uCur : ℕ) : KernelM Unit := do
  let kernel ← Code.memory
  let source := kernel.forms.slot si
  modifyForm count fun form => { form with
    size := source.size, owner := UInt32.ofNat uCur, mode := source.mode }

/-- The stores of copy. The result of form_ensure_cap is not looked at, and the copy gets
no terminator. -/
def copyForm (si : ℕ) (dst : CString) : KernelM Unit := do
  let kernel ← Code.memory
  let count := kernel.store.formCount
  let size := (kernel.forms.slot si).size
  let _ ← formEnsureCap count (Int32.ofNat size)
  modifyForm count fun form => { form with name := dst }
  copyContent count si size
  fillCopy count si kernel.store.uCur
  setFormCount (· + 1)

/-- The branch of execute_cmd for copy. `save` is save_data. -/
def copyCommand (save : KernelM Unit) (args : CString) : KernelM (List UInt8) := do
  let (src, dst) := twoNames args
  if src.chars = [] ∨ dst.chars = [] then pure (said "Usage: copy <src> <dst>\n")
  else
    withForm src (said "Not found.\n") (said "Denied.\n") false fun si => do
      let kernel ← Code.memory
      if maxForms ≤ kernel.store.formCount then pure (said "Full.\n")
      else
        copyForm si dst
        save
        pure (said "Copied.\n")

section Loading

/-- The entry that hexafs_load_all made in a slot, with its content in a new block. -/
def placeForm (forms : FormStore) (i : ℕ) (form : FormEntry) : FormStore :=
  match form.content with
  | none => forms.setSlot i ⟨form.name, 0, form.size, form.cap, form.owner, form.mode⟩
  | some block => (forms.alloc block).setSlot i
      ⟨form.name, forms.fresh, form.size, form.cap, form.owner, form.mode⟩

/-- The first entries of the store's table, placed in the kernel's one. -/
def placeForms (forms : FormStore) (table : ℕ → FormEntry) : ℕ → FormStore
  | 0 => forms
  | count + 1 => placeForm (placeForms forms table count) count (table count)

/-- hexafs_load_all at boot, when form_table has no form. -/
def loadForms : KernelM Unit := do
  onStore hexafsLoadAll
  Code.modify fun kernel => { kernel with
    forms := placeForms kernel.forms kernel.store.formTable kernel.store.formCount }

end Loading

end HexaOS.Shell
