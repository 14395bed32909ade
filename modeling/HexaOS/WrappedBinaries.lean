import HexaOS.CorruptedRecords
import HexaOS.FormOwnership
import HexaOS.HexBinaries
import HexaOS.IntentProductions
import HexaOS.ShellNumbers

/-!
# Wrapped binaries and their loader

hex_pack_elf reads the capabilities of a binary from decimal numerals with commas between
them, and hex_load asks hexafs_cap_check for each one that the header lists. A header that
the one fills is what the other reads: it is valid, it lists the capabilities that were
written down, and behind it lie the bytes of the form.
-/

namespace HexaOS.Shell

open DevicePrograms PackedBytes Hexafs Kernel

section Lists

/-- A capability as it stands in caps_str. -/
structure CapText where
  /-- The spaces in front of it. -/
  before : ℕ
  /-- The capability. -/
  value : UInt32
  /-- The spaces behind it. -/
  after : ℕ

/-- The decimal numeral of a capability. -/
def decimalText (value : UInt32) : List UInt8 := (numeral 10 value.toNat).map digitChar

/-- The characters of a capability with the spaces around it. -/
def CapText.chars (cap : CapText) : List UInt8 :=
  List.replicate cap.before space ++ (decimalText cap.value ++ List.replicate cap.after space)

/-- Capabilities with commas between them. -/
def capsText : List CapText → List UInt8
  | [] => []
  | [cap] => cap.chars
  | cap :: next :: caps => cap.chars ++ 44 :: capsText (next :: caps)

variable {left : ℕ} {value : UInt32} {cap : CapText} {rest : List UInt8}

/-- A decimal digit is read back from its character. -/
theorem digitChar_isDigit {digit : ℕ} (h : digit < 10) :
    isDigit (digitChar digit) = true ∧ digitChar digit ≠ space ∧
      (digitChar digit).toUInt32 - 48 = UInt32.ofNat digit := by
  have hall : ∀ digit < 10, isDigit (digitChar digit) = true ∧ digitChar digit ≠ space ∧
      (digitChar digit).toUInt32 - 48 = UInt32.ofNat digit := by decide
  exact hall digit h

/-- Characters of decimal digits are read back as the number that the digits stand for. -/
theorem decimal_map {digits : List ℕ} (h : ∀ digit ∈ digits, digit < 10) :
    decimal (digits.map digitChar) = UInt32.ofNat (valueOf 10 digits) := by
  have hfold : ∀ start : ℕ, (digits.map digitChar).foldl
      (fun val c => val * 10 + (c.toUInt32 - 48)) (UInt32.ofNat start) =
        UInt32.ofNat (digits.foldl (fun n digit => n * 10 + digit) start) := by
    induction digits with
    | nil => exact fun _ => rfl
    | cons digit digits ih =>
      intro start
      have hfirst := (digitChar_isDigit (h digit List.mem_cons_self)).2.2
      have hstep : UInt32.ofNat start * 10 + ((digitChar digit).toUInt32 - 48) =
          UInt32.ofNat (start * 10 + digit) := by
        rw [hfirst, UInt32.ofNat_add, UInt32.ofNat_mul]
        rfl
      rw [List.map_cons, List.foldl_cons, List.foldl_cons, hstep]
      exact ih (fun other hother => h other (List.mem_cons_of_mem _ hother)) _
  exact hfold 0

/-- The characters of a numeral are digits. -/
theorem isDigit_of_mem_decimalText {c : UInt8} (h : c ∈ decimalText value) :
    isDigit c = true ∧ c ≠ space := by
  obtain ⟨digit, hdigit, rfl⟩ := List.mem_map.mp h
  have hread := digitChar_isDigit (lt_of_mem_numeral (by decide) hdigit)
  exact ⟨hread.1, hread.2.1⟩

/-- A numeral is read back. -/
theorem decimal_decimalText (value : UInt32) : decimal (decimalText value) = value := by
  rw [decimalText, decimal_map fun digit hdigit => lt_of_mem_numeral (by decide) hdigit,
    valueOf_numeral]
  exact UInt32.ofNat_toNat

/-- A numeral has a first digit. -/
theorem exists_cons_decimalText (value : UInt32) : ∃ c digits, decimalText value = c :: digits := by
  refine List.exists_cons_of_ne_nil fun hnil => ?_
  have hzero : value = 0 := by
    rw [← decimal_decimalText value, hnil]
    rfl
  rw [hzero] at hnil
  cases hnil

/-- The loops over spaces stop behind them. -/
theorem dropWhile_spaces (count : ℕ) {text : List UInt8} (h : text.head? ≠ some space) :
    (List.replicate count space ++ text).dropWhile (· = space) = text := by
  have hspaces : ∀ c ∈ List.replicate count space, decide (c = space) = true := by
    intro c hc
    exact decide_eq_true (List.eq_of_mem_replicate hc)
  rw [List.dropWhile_append_of_pos hspaces]
  cases text with
  | nil => rfl
  | cons c text =>
    have hother : ¬decide (c = space) = true := by
      rw [decide_eq_true_iff]
      exact fun hsame => h (congrArg some hsame)
    exact List.dropWhile_cons_of_neg hother

/-- The loop over digits stops behind them. -/
theorem takeWhile_digits {digits text : List UInt8} (h : ∀ c ∈ digits, isDigit c = true)
    (htext : ∀ c, text.head? = some c → isDigit c = false) :
    (digits ++ text).takeWhile isDigit = digits := by
  rw [List.takeWhile_append_of_pos h]
  cases text with
  | nil => exact List.append_nil digits
  | cons c text =>
    have hother : ¬isDigit c = true := by
      rw [htext c rfl]
      exact Bool.false_ne_true
    rw [List.takeWhile_cons_of_neg hother, List.append_nil]

/-- The loop reads a capability and the comma behind it. -/
theorem parseCaps_chars (left : ℕ) (cap : CapText) (hrest : rest = [] ∨ rest.head? = some 44) :
    parseCaps (left + 1) (cap.chars ++ rest) = cap.value :: parseCaps left rest.tail := by
  obtain ⟨c, digits, hdigits⟩ := exists_cons_decimalText cap.value
  have hdigit : ∀ d ∈ c :: digits, isDigit d = true ∧ d ≠ space :=
    fun d hd => isDigit_of_mem_decimalText (hdigits ▸ hd)
  have hrest' : rest.head? ≠ some space ∧ ∀ d, rest.head? = some d → isDigit d = false := by
    rcases hrest with hnil | hcomma
    · rw [hnil]
      exact ⟨nofun, nofun⟩
    · rw [hcomma]
      exact ⟨by decide, fun d hd => by rw [← Option.some.inj hd]; rfl⟩
  have hbehind : ∀ d, (List.replicate cap.after space ++ rest).head? = some d →
      isDigit d = false := by
    intro d hd
    cases hafter : cap.after with
    | zero =>
      rw [hafter] at hd
      exact hrest'.2 d hd
    | succ after =>
      rw [hafter] at hd
      rw [← Option.some.inj hd]
      rfl
  have hfront : (cap.chars ++ rest).dropWhile (· = space) =
      c :: digits ++ (List.replicate cap.after space ++ rest) := by
    have hassoc : cap.chars ++ rest = List.replicate cap.before space ++
        (c :: digits ++ (List.replicate cap.after space ++ rest)) := by
      rw [CapText.chars, hdigits, List.append_assoc, List.append_assoc]
    rw [hassoc]
    refine dropWhile_spaces _ fun hhead => ?_
    exact (hdigit c List.mem_cons_self).2 (Option.some.inj hhead)
  have htake := takeWhile_digits (fun d hd => (hdigit d hd).1) hbehind
  have hafter : ((List.replicate cap.after space ++ rest).dropWhile (· = space)) = rest :=
    dropWhile_spaces _ hrest'.1
  rw [parseCaps, hfront]
  dsimp only [List.cons_append] at htake ⊢
  rw [htake, ← List.cons_append, List.drop_left, hafter, ← hdigits, decimal_decimalText]
  rcases hrest with hnil | hcomma
  · rw [hnil]
    rfl
  · rw [if_pos hcomma]

/-- The loop over caps_str reads the capabilities that were written down. -/
theorem parseCaps_capsText (caps : List CapText) (h : caps.length ≤ left) :
    parseCaps left (capsText caps) = caps.map CapText.value := by
  induction caps generalizing left with
  | nil => cases left <;> rfl
  | cons cap caps ih =>
    obtain ⟨left, rfl⟩ : ∃ less, left = less + 1 := ⟨left - 1, by
      rw [List.length_cons] at h
      omega⟩
    have hless : caps.length ≤ left := Nat.le_of_succ_le_succ h
    cases caps with
    | nil =>
      have hread := parseCaps_chars left cap (.inl (rfl : ([] : List UInt8) = []))
      rw [List.append_nil] at hread
      rw [capsText, hread]
      exact congrArg (cap.value :: ·) (ih hless)
    | cons next caps =>
      rw [capsText, parseCaps_chars left cap (.inr rfl), List.map_cons]
      exact congrArg (cap.value :: ·) (ih hless)

end Lists

section Packing

variable {env : Environment} {kernel kernel' : KernelMemory} {dev : Device} {name : CString}
  {idx hidx packed len : ℕ} {block fill : List UInt8}

/-- Only the names decide which form is found. -/
theorem findForm_of_slotNames (h : slotNames kernel' = slotNames kernel) (name : CString) :
    findForm kernel' name = findForm kernel name := by
  have hcount : kernel'.store.formCount = kernel.store.formCount := congrArg Prod.snd h
  have hname : ∀ i, (kernel'.forms.slot i).name = (kernel.forms.slot i).name :=
    congrFun (congrArg Prod.fst h)
  rw [findForm, findForm, hcount]
  simp only [hname]

/-- A form that was made is found. -/
theorem findForm_made (hnone : findForm kernel name = none) (owner : UInt32) (fill : List UInt8) :
    findForm (kernel.withTable (kernel.forms.made kernel.store.formCount name owner fill)
      (kernel.store.formCount + 1)) name = some kernel.store.formCount := by
  have hbefore : ((List.range kernel.store.formCount).find? fun i =>
      ((kernel.forms.made kernel.store.formCount name owner fill).slot i).name == name) = none := by
    rw [findForm, List.find?_eq_none] at hnone
    rw [List.find?_eq_none]
    intro i hi
    have hother : i ≠ kernel.store.formCount := (List.mem_range.mp hi).ne
    rw [FormStore.slot_made_of_ne _ hother]
    exact hnone i hi
  rw [findForm, formCount_withTable, forms_withTable, List.range_succ, List.find?_append, hbefore,
    Option.none_or, List.find?_singleton, FormStore.slot_made_self]
  exact if_pos (beq_self_eq_true name)

/-- A form takes over a block. -/
theorem adoptBlock_adopts (hblock : kernel.forms.block packed = some block)
    (hapart : (kernel.forms.slot hidx).content ≠ packed)
    (hold : (kernel.forms.slot hidx).content = 0 ∨
      (kernel.forms.block (kernel.forms.slot hidx).content).isSome) (len : ℕ) :
    (adoptBlock hidx packed len).outcome (cachedDevice env) (fun _ => False) kernel dev
      fun _ kernel' _ => slotNames kernel' = slotNames kernel ∧
        kernel'.forms.bytes hidx = block.take len := by
  have hadopts : ∀ freed : FormStore, freed.slot = kernel.forms.slot →
      freed.block packed = some block →
        slotNames (kernel.withForms (freed.setSlot hidx { freed.slot hidx with
          content := packed, size := len, cap := len })) = slotNames kernel ∧
        (freed.setSlot hidx { freed.slot hidx with
          content := packed, size := len, cap := len }).bytes hidx = block.take len := by
    intro freed hslot hfreed
    constructor
    · refine Prod.ext (funext fun i => ?_) rfl
      by_cases hi : i = hidx
      · rw [hi]
        show ((freed.setSlot hidx _).slot hidx).name = _
        rw [FormStore.slot_setSlot_self, hslot]
        rfl
      · show ((freed.setSlot hidx _).slot i).name = _
        rw [FormStore.slot_setSlot_of_ne _ hi, hslot]
        rfl
    · rw [FormStore.bytes, FormStore.slot_setSlot_self, FormStore.block_setSlot, hfreed,
        Option.getD_some]
  rw [adoptBlock, Code.outcome_bind, Code.outcome_memory, Code.outcome_bind]
  refine freeBlock_outcome (.inr hold) (fun _ => ?_) fun _ _ => ?_
  · exact hadopts kernel.forms rfl hblock
  · refine hadopts (kernel.forms.setBlock _ none) rfl ?_
    rw [FormStore.block_setBlock_of_ne _ hapart.symm, hblock]

/-- The last part of hex_pack_elf: the form with the name has the packed block, also where it
was there before. -/
theorem wrapForm_adopts (hblock : kernel.forms.block packed = some block)
    (hapart : ∀ i, (kernel.forms.slot i).content ≠ packed) (hlt : packed < kernel.forms.fresh)
    (hnonempty : name.chars ≠ []) (hshort : name.chars.length < nameMax)
    (hroom : kernel.store.formCount < maxForms) (hheap : env.kmallocOk dev.kmallocCount = true)
    (hold : ∀ i, findForm kernel name = some i → (kernel.forms.slot i).content = 0 ∨
      (kernel.forms.block (kernel.forms.slot i).content).isSome) (len : ℕ) :
    (wrapForm name packed len).outcome (cachedDevice env) (fun _ => False) kernel dev
      fun _ kernel' _ => ∃ hidx, findForm kernel' name = some hidx ∧
        kernel'.forms.bytes hidx = block.take len := by
  have hadopted : ∀ (middle : KernelMemory) (dev' : Device) (line : MkformLine) (hidx : ℕ),
      findForm middle name = some hidx → middle.forms.block packed = some block →
        (middle.forms.slot hidx).content ≠ packed →
          ((middle.forms.slot hidx).content = 0 ∨
            (middle.forms.block (middle.forms.slot hidx).content).isSome) →
              (do
                adoptBlock hidx packed len
                pure (mkformText line) : KernelM (List UInt8)).outcome (cachedDevice env)
                    (fun _ => False) middle dev' fun _ kernel' _ =>
                      ∃ hidx, findForm kernel' name = some hidx ∧
                        kernel'.forms.bytes hidx = block.take len := by
    intro middle dev' line hidx hfound hblock' hapart' hold'
    rw [Code.outcome_bind]
    refine Code.outcome_imp (adoptBlock_adopts hblock' hapart' hold' len)
      fun _ last _ hadopts => ?_
    exact ⟨hidx, (findForm_of_slotNames hadopts.1 name).trans hfound, hadopts.2⟩
  rw [wrapForm, Code.outcome_bind]
  refine cmdMkform_outcome (.inr (.inl hshort)) (fun line _ hrefuses => ?_) (fun hnone => ?_)
    fun fill hfill _ hnone _ _ => ?_
  · -- the form is there, and gives up its block
    rcases hrefuses with hempty | hfull | hsome
    · exact absurd hempty hnonempty
    · omega
    · obtain ⟨hidx, hfound⟩ := Option.isSome_iff_exists.mp hsome
      rw [Code.outcome_bind, Code.outcome_memory, hfound]
      exact hadopted kernel dev line hidx hfound hblock (hapart hidx) (hold hidx hfound)
  · rw [Environment.heapBlock, if_pos hheap] at hnone
    cases hnone
  · have hslot := kernel.forms.slot_made_self kernel.store.formCount name
      (UInt32.ofNat kernel.store.uCur) fill
    have hmade := kernel.forms.block_made kernel.store.formCount name
      (UInt32.ofNat kernel.store.uCur) fill
    rw [Code.outcome_bind, Code.outcome_memory, findForm_made hnone _ fill]
    refine hadopted _ _ _ kernel.store.formCount (findForm_made hnone _ fill) ?_ ?_ (.inr ?_)
    · rw [forms_withTable, hmade, Function.update_of_ne hlt.ne, hblock]
    · rw [forms_withTable, hslot]
      exact hlt.ne'
    · rw [forms_withTable, hslot, hmade, Function.update_self]
      rfl

/-- A header and what is stored behind it. -/
theorem take_overlay_overlay (fill front back : List UInt8) :
    (overlay (overlay fill 0 front) front.length back).take (front.length + back.length) =
      front ++ back := by
  have hfront : (overlay fill 0 front).take front.length = front := by
    rw [overlay, List.take_zero, List.nil_append, List.take_left]
  have hlength : ((overlay fill 0 front).take front.length ++ back).length =
      front.length + back.length := by
    rw [hfront, List.length_append]
  rw [overlay, ← hlength, List.take_left, hfront]

/-- The header of a form with these bytes. -/
def headerOf (bytes : List UInt8) (inSchema outSchema : UInt32) (caps : List UInt32) : HexHeader :=
  packedHeader (Packed.ofBytes ((bytes.drop 24).take 4)) (UInt32.ofNat bytes.length) inSchema
    outSchema caps

/-- The stores into the packed block, and the form that takes it over. -/
theorem storePacked_packs {elfName : CString} {header : HexHeader}
    (hpacked : kernel.forms.block packed = some fill)
    (hfill : fill.length = hexHeaderSize + (kernel.forms.slot idx).size + 1)
    (hcontent : (kernel.forms.slot idx).content ≠ 0)
    (hwithin : kernel.forms.Within (kernel.forms.slot idx).content 0 (kernel.forms.slot idx).size)
    (hsize : 0 < (kernel.forms.slot idx).size)
    (hapart : ∀ i, (kernel.forms.slot i).content ≠ packed) (hlt : packed < kernel.forms.fresh)
    (hnonempty : (hexName elfName).chars ≠ [])
    (hshort : (hexName elfName).chars.length < nameMax)
    (hroom : kernel.store.formCount < maxForms) (hheap : env.kmallocOk dev.kmallocCount = true)
    (hold : ∀ i, findForm kernel (hexName elfName) = some i →
      (kernel.forms.slot i).content = 0 ∨
        (kernel.forms.block (kernel.forms.slot i).content).isSome) (text : List UInt8 → List UInt8) :
    (do
      storeBytes packed 0 (toBytes header)
      let code ← elfBytes idx
      storeBytes packed hexHeaderSize code
      let made ← wrapForm (hexName elfName) packed (hexHeaderSize + (kernel.forms.slot idx).size)
      pure (text made) : KernelM (List UInt8)).outcome (cachedDevice env) (fun _ => False)
      kernel dev fun _ kernel' _ => ∃ hidx, findForm kernel' (hexName elfName) = some hidx ∧
        kernel'.forms.bytes hidx = toBytes header ++ kernel.forms.bytes idx := by
  have hheader := length_toBytes_hexHeader header
  have hlength := FormStore.length_bytes hwithin
  have hsmall : hexHeaderSize + (kernel.forms.slot idx).size ≤ fill.length := by omega
  have hkept : ∀ (bytes : List UInt8) (offset : Int) (forms : FormStore), ∀ address ≠ packed,
      (forms.stored packed offset bytes).block address = forms.block address :=
    fun _ _ _ _ hne => FormStore.block_setBlock_of_ne _ hne _
  rw [Code.outcome_bind]
  refine storeBytes_outcome (.inr ⟨fill, hpacked, Int.le_refl 0, by omega⟩) fun _ => ?_
  rw [Code.outcome_bind, elfBytes, Code.outcome_bind, Code.outcome_memory]
  have hfirst : (kernel.forms.stored packed 0 (toBytes header)).block packed =
      some (overlay fill 0 (toBytes header)) := by
    rw [FormStore.stored, FormStore.block_setBlock_self, hpacked]
    rfl
  have hslot : (kernel.forms.stored packed 0 (toBytes header)).slot = kernel.forms.slot := rfl
  have hown := hkept (toBytes header) 0 kernel.forms _ (hapart idx)
  dsimp only [forms_withForms]
  rw [hslot, if_pos ⟨hcontent, hsize⟩]
  obtain ⟨block, hblock, -, hle⟩ := hwithin
  refine loadBytes_outcome (.inr ⟨block, hown.trans hblock, by omega, by omega⟩) fun _ => ?_
  have hcode : ((((kernel.forms.stored packed 0 (toBytes header)).block
      (kernel.forms.slot idx).content).getD []).drop 0).take (kernel.forms.slot idx).size =
        kernel.forms.bytes idx := by
    rw [hown, List.drop_zero, FormStore.bytes]
  rw [forms_withForms, hcode, Code.outcome_bind]
  have hlonger : (overlay fill 0 (toBytes header)).length = fill.length := by
    refine length_overlay ?_
    omega
  refine storeBytes_outcome (.inr ⟨_, hfirst, by omega, by omega⟩) fun _ => ?_
  let stored := kernel.withForms ((kernel.forms.stored packed 0 (toBytes header)).stored packed
    hexHeaderSize (kernel.forms.bytes idx))
  have hsecond : stored.forms.block packed =
      some (overlay (overlay fill 0 (toBytes header)) hexHeaderSize (kernel.forms.bytes idx)) := by
    rw [forms_withForms, FormStore.stored, FormStore.block_setBlock_self, hfirst]
    rfl
  have hwrapped : (wrapForm (hexName elfName) packed
      (hexHeaderSize + (kernel.forms.slot idx).size)).outcome (cachedDevice env) (fun _ => False)
      stored dev fun _ kernel' _ => ∃ hidx, findForm kernel' (hexName elfName) = some hidx ∧
        kernel'.forms.bytes hidx = (overlay (overlay fill 0 (toBytes header)) hexHeaderSize
          (kernel.forms.bytes idx)).take (hexHeaderSize + (kernel.forms.slot idx).size) := by
    refine wrapForm_adopts hsecond hapart hlt hnonempty hshort hroom hheap (fun i hi => ?_) _
    have hblock' : stored.forms.block (kernel.forms.slot i).content =
        kernel.forms.block (kernel.forms.slot i).content :=
      (hkept _ _ _ _ (hapart i)).trans (hkept _ _ _ _ (hapart i))
    exact (hold i hi).imp id fun hsome => hblock'.symm ▸ hsome
  rw [Code.outcome_bind]
  refine Code.outcome_imp hwrapped fun _ last _ hlast => ?_
  · obtain ⟨hidx, hfound, hbytes⟩ := hlast
    refine ⟨hidx, hfound, hbytes.trans ?_⟩
    have hjoined := take_overlay_overlay fill (toBytes header) (kernel.forms.bytes idx)
    rw [hheader, hlength] at hjoined
    exact hjoined

/-- The characters of the wrapped form's name. -/
theorem chars_hexName {elfName : CString} (h : elfName.chars.length ≤ 24) :
    (hexName elfName).chars = elfName.chars ++ said ".hex" := by
  have htake : (takeChars 24 elfName).chars = elfName.chars := List.take_of_length_le h
  show (takeChars 24 elfName).chars ++ _ = _
  rw [htake]
  rfl

/-- hex_pack_elf on a form that is there: behind it, the form with the name in ".hex" holds
the header and the bytes that the form had. -/
theorem hexPackElf_packs {elfName caps : CString} (hfound : findForm kernel elfName = some idx)
    (hname : 1 ≤ elfName.chars.length ∧ elfName.chars.length ≤ 24)
    (hcontent : (kernel.forms.slot idx).content ≠ 0)
    (hwithin : kernel.forms.Within (kernel.forms.slot idx).content 0 (kernel.forms.slot idx).size)
    (hsize : 28 ≤ (kernel.forms.slot idx).size) (hroom : kernel.store.formCount < maxForms)
    (hheap : env.kmallocOk dev.kmallocCount = true ∧
      env.kmallocOk (dev.kmallocCount + 1) = true)
    (hold : ∀ i, findForm kernel (hexName elfName) = some i →
      (kernel.forms.slot i).content = 0 ∨
        (kernel.forms.block (kernel.forms.slot i).content).isSome)
    (inSchema outSchema : UInt32) :
    (hexPackElf elfName caps inSchema outSchema).outcome (cachedDevice env) (fun _ => False)
      kernel dev fun _ kernel' _ => ∃ hidx, findForm kernel' (hexName elfName) = some hidx ∧
        kernel'.forms.bytes hidx = toBytes (headerOf (kernel.forms.bytes idx) inSchema outSchema
          (parseCaps 16 caps.chars)) ++ kernel.forms.bytes idx := by
  have hlength := FormStore.length_bytes hwithin
  have hnamed : elfName.chars ≠ [] := by
    intro hnil
    rw [hnil] at hname
    exact absurd hname.1 (by decide)
  have hshort : (hexName elfName).chars.length < nameMax := by
    rw [chars_hexName hname.2, List.length_append]
    have hsuffix : (said ".hex").length = 4 := rfl
    have hmax : nameMax = 32 := rfl
    omega
  have hnonempty : (hexName elfName).chars ≠ [] := by
    rw [chars_hexName hname.2]
    exact List.append_ne_nil_of_left_ne_nil hnamed _
  have hwithin' := hwithin
  obtain ⟨block, hblock, -, hle⟩ := hwithin
  have hword : (block.drop 24).take 4 = ((kernel.forms.bytes idx).drop 24).take 4 := by
    rw [FormStore.bytes, hblock, Option.getD_some, List.drop_take, List.take_take]
    congr 1
    omega
  rw [hexPackElf, Code.outcome_bind, Code.outcome_memory, if_neg hnamed, hfound]
  dsimp only
  rw [packForm, Code.outcome_bind, Code.outcome_memory]
  dsimp only
  rw [Code.outcome_bind, elfEntry, Code.outcome_bind, Code.outcome_memory]
  dsimp only
  rw [if_pos ⟨hcontent, by omega⟩, Code.outcome_bind]
  refine loadBytes_outcome (.inr ⟨block, hblock, by omega, by omega⟩) fun _ => ?_
  rw [hblock, Option.getD_some, hword, Code.outcome_pure, Code.outcome_bind]
  refine allocBlock_outcome (fun hnone => ?_) fun fill hfill => ?_
  · rw [Environment.heapBlock, if_pos hheap.1] at hnone
    cases hnone
  have hapart : ∀ i, (kernel.forms.slot i).content ≠ kernel.forms.fresh :=
    fun i => (kernel.forms.content_lt i).ne
  have hkept : ∀ i, (kernel.forms.alloc fill).block (kernel.forms.slot i).content =
      kernel.forms.block (kernel.forms.slot i).content :=
    fun i => FormStore.block_alloc _ _ (hapart i)
  rw [headerOf, hlength]
  dsimp only
  let allocated := kernel.withForms (kernel.forms.alloc fill)
  have hbytes : allocated.forms.bytes idx = kernel.forms.bytes idx :=
    FormStore.bytes_alloc _ _ _
  have hpacked : allocated.forms.block kernel.forms.fresh = some fill :=
    FormStore.block_alloc_fresh _ _
  have hown : allocated.forms.Within (kernel.forms.slot idx).content 0
      (kernel.forms.slot idx).size := by
    obtain ⟨block, hblock, hfits⟩ := hwithin'
    exact ⟨block, (hkept idx).trans hblock, hfits⟩
  have hold' : ∀ i, findForm allocated (hexName elfName) = some i →
      (allocated.forms.slot i).content = 0 ∨
        (allocated.forms.block (allocated.forms.slot i).content).isSome :=
    fun i hi => (hold i hi).imp id fun hsome => (hkept i).symm ▸ hsome
  have hpositive : 0 < (kernel.forms.slot idx).size := by omega
  refine Code.outcome_imp (storePacked_packs hpacked (length_heapBlock hfill) hcontent hown
    hpositive hapart (Nat.lt_succ_self _) hnonempty hshort hroom hheap.2 hold' _)
    fun _ last _ hlast => ?_
  rw [hbytes] at hlast
  exact hlast

end Packing

section Loading

/-- The loop of hex_load over the capabilities that the header lists. -/
def checkCaps (callerPid : UInt32) : List UInt32 → KernelM Bool
  | [] => pure true
  | neededCap :: rest => do
    let ok ← capCheck callerPid neededCap
    if ok then checkCaps callerPid rest else pure false

/-- Where the heap of a binary starts. -/
def hexHeapStart : UInt32 := 0x40000000

/-- hex_load: the entry point and the start of the heap, or `none` for -1. `current` is the
pid of the current task, if there is one. -/
def hexLoad (hdr : HexHeader) (current : Option UInt32) : KernelM (Option (UInt32 × UInt32)) := do
  if hexValidate hdr then
    let ok ← checkCaps (current.getD 0) (hdr.caps.toList.take hdr.capCount.toNat)
    if ok then pure (some (hdr.entryPoint, hexHeapStart)) else pure none
  else pure none

/-- Calls of hexafs_cap_check, one for each capability of a list, all of which accept. -/
inductive CapsAccepted (env : Environment) (pid : UInt32) : List UInt32 → System → System → Prop
  | nil (system : System) : CapsAccepted env pid [] system system
  | cons {cap : UInt32} {caps : List UInt32} {system middle last : System}
      (accepts : system.run env (capCheck pid cap) = .ok (true, middle))
      (others : CapsAccepted env pid caps middle last) :
      CapsAccepted env pid (cap :: caps) system last

variable {env : Environment} {pid : UInt32} {system last : System} {hdr : HexHeader}

/-- The loop over the capabilities succeeds when each one is accepted. -/
theorem run_checkCaps (caps : List UInt32) :
    system.run env (checkCaps pid caps) = .ok (true, last) ↔
      CapsAccepted env pid caps system last := by
  induction caps generalizing system with
  | nil =>
    constructor
    · intro hrun
      obtain rfl : system = last := (Prod.mk.inj (Except.ok.inj hrun)).2
      exact .nil system
    · intro haccepted
      cases haccepted
      rfl
  | cons cap caps ih =>
    rw [checkCaps, System.run_bind]
    constructor
    · intro hrun
      cases hcheck : system.run env (capCheck pid cap) with
      | error stop =>
        rw [hcheck] at hrun
        cases hrun
      | ok result =>
        obtain ⟨ok, middle⟩ := result
        rw [hcheck] at hrun
        cases ok with
        | false => cases hrun
        | true => exact .cons hcheck (ih.mp hrun)
    · intro haccepted
      cases haccepted with
      | cons accepts others =>
        rw [accepts]
        exact ih.mpr others

/-- hex_load of a valid header succeeds when each capability that it lists is accepted. -/
theorem run_hexLoad (hvalid : hexValidate hdr = true) (current : Option UInt32)
    (result : UInt32 × UInt32) :
    system.run env (hexLoad hdr current) = .ok (some result, last) ↔
      result = (hdr.entryPoint, hexHeapStart) ∧ CapsAccepted env (current.getD 0)
        (hdr.caps.toList.take hdr.capCount.toNat) system last := by
  rw [hexLoad, if_pos hvalid, System.run_bind, ← run_checkCaps]
  cases hcheck : system.run env (checkCaps (current.getD 0)
      (hdr.caps.toList.take hdr.capCount.toNat)) with
  | error stop => exact iff_of_false nofun fun hboth => nomatch hboth.2
  | ok checked =>
    obtain ⟨ok, middle⟩ := checked
    cases ok with
    | false =>
      refine iff_of_false (fun hrun => ?_) fun hboth => ?_
      · cases hrun
      · cases hboth.2
    | true =>
      constructor
      · intro hrun
        obtain ⟨hresult, hlast⟩ := Prod.mk.inj (Except.ok.inj hrun)
        have hsame : middle = last := hlast
        rw [← Option.some.inj hresult, hsame]
        exact ⟨rfl, rfl⟩
      · rintro ⟨rfl, hsame⟩
        rw [(Prod.mk.inj (Except.ok.inj hsame)).2]
        rfl

/-- The list of capabilities in a header that hex_pack_elf fills. -/
theorem caps_packedHeader {caps : List UInt32} (h : caps.length ≤ 16)
    (entryPoint codeSize inSchema outSchema : UInt32) :
    let hdr := packedHeader entryPoint codeSize inSchema outSchema caps
    hdr.capCount.toNat = caps.length ∧ hdr.caps.toList.take hdr.capCount.toNat = caps := by
  have hcount : (UInt32.ofNat caps.length).toNat = caps.length :=
    UInt32.toNat_ofNat_of_lt' (by rw [UInt32.size]; omega)
  refine ⟨hcount, ?_⟩
  show (Vector.ofFn fun i : Fin 16 => caps.getD i 0).toList.take (UInt32.ofNat caps.length).toNat = _
  rw [hcount]
  refine List.ext_getElem? fun i => ?_
  by_cases hi : i < caps.length
  · have hroom : i < 16 := by omega
    rw [List.getElem?_take_of_lt hi]
    simp [hi, hroom]
  · have hbehind : caps.length ≤ i := by omega
    rw [List.getElem?_eq_none hbehind, List.getElem?_take_eq_none hbehind]

/-- Run code that does not stop. -/
theorem exists_run_of_outcome {α : Type} {code : KernelM α}
    {post : α → KernelMemory → Device → Prop}
    (h : code.outcome (cachedDevice env) (fun _ => False) system.kernel system.dev post) :
    ∃ value last, system.run env code = .ok (value, last) ∧ post value last.kernel last.dev := by
  rw [System.run]
  rw [Code.outcome] at h
  cases hexec : code.exec (cachedDevice env) system.kernel system.dev with
  | error stop =>
    rw [hexec] at h
    exact h.elim
  | ok result =>
    rw [hexec] at h
    exact ⟨_, _, rfl, h⟩

/-- The header at the front of a content. -/
def frontHeader (bytes : List UInt8) : HexHeader := Packed.ofBytes (bytes.take hexHeaderSize)

/-- A content that wraps a binary with a list of capabilities. -/
structure WrapsBinary (bytes original : List UInt8) (caps : List UInt32) : Prop where
  /-- hex_validate accepts the header. -/
  valid : hexValidate (frontHeader bytes) = true
  /-- cap_count is the length of the list. -/
  count : (frontHeader bytes).capCount.toNat = caps.length
  /-- caps holds the list. -/
  listed : (frontHeader bytes).caps.toList.take caps.length = caps
  /-- code_offset and code_size give the binary. -/
  code : (bytes.drop (frontHeader bytes).codeOffset.toNat).take
    (frontHeader bytes).codeSize.toNat = original
  /-- hex_load succeeds when the caller is accepted for each capability of the list, and the
  entry point is the word at offset 24 of the binary. -/
  loads : ∀ (env : Environment) (system last : System) (current : Option UInt32)
    (result : UInt32 × UInt32),
      system.run env (hexLoad (frontHeader bytes) current) = .ok (some result, last) ↔
        result = (Packed.ofBytes ((original.drop 24).take 4), hexHeapStart) ∧
          CapsAccepted env (current.getD 0) caps system last

/-- The header of hex_pack_elf in front of the bytes that it wraps. -/
theorem wrapsBinary_headerOf {original : List UInt8} {caps : List UInt32}
    (hsize : original.length < 2 ^ 32) (hcaps : caps.length ≤ 16) (inSchema outSchema : UInt32) :
    WrapsBinary (toBytes (headerOf original inSchema outSchema caps) ++ original) original caps := by
  have hlength := length_toBytes_hexHeader (headerOf original inSchema outSchema caps)
  have hheader : frontHeader (toBytes (headerOf original inSchema outSchema caps) ++ original) =
      headerOf original inSchema outSchema caps := by
    rw [frontHeader, ← hlength, List.take_left, Packed.ofBytes_toBytes]
  have hvalid : hexValidate (headerOf original inSchema outSchema caps) = true :=
    hexValidate_packedHeader _ _ _ _ _
  obtain ⟨hcount, hlisted⟩ := caps_packedHeader hcaps
    (Packed.ofBytes ((original.drop 24).take 4)) (UInt32.ofNat original.length) inSchema outSchema
  have hcodeSize : (UInt32.ofNat original.length).toNat = original.length :=
    UInt32.toNat_ofNat_of_lt' (by rw [UInt32.size]; omega)
  have hoffset : (headerOf original inSchema outSchema caps).codeOffset.toNat = hexHeaderSize := rfl
  constructor
  · rw [hheader]
    exact hvalid
  · rw [hheader]
    exact hcount
  · rw [hheader, ← hcount]
    exact hlisted
  · rw [hheader, hoffset, ← hlength, List.drop_left]
    show original.take (UInt32.ofNat original.length).toNat = original
    rw [hcodeSize, List.take_length]
  · intro env system last current result
    have hloads : system.run env (hexLoad (headerOf original inSchema outSchema caps) current) =
        .ok (some result, last) ↔ _ := run_hexLoad hvalid current result
    rw [hheader, hloads, headerOf, hlisted]
    exact Iff.rfl

/-- hex_pack_elf on a form of 28 bytes or more, while the table and the heap have room: the
form with the name in ".hex" wraps what the form held. -/
theorem hexPackElf_wraps {elfName text : CString} {idx : ℕ} {caps : List CapText}
    (hfound : findForm system.kernel elfName = some idx)
    (hname : 1 ≤ elfName.chars.length ∧ elfName.chars.length ≤ 24)
    (hcontent : (system.kernel.forms.slot idx).content ≠ 0)
    (hwithin : system.kernel.forms.Within (system.kernel.forms.slot idx).content 0
      (system.kernel.forms.slot idx).size)
    (hsize : 28 ≤ (system.kernel.forms.slot idx).size ∧
      hexHeaderSize + (system.kernel.forms.slot idx).size < 2 ^ 31)
    (hcaps : caps.length ≤ 16) (htext : text.chars = capsText caps)
    (hroom : system.kernel.store.formCount < maxForms)
    (hheap : env.kmallocOk system.dev.kmallocCount = true ∧
      env.kmallocOk (system.dev.kmallocCount + 1) = true)
    (hold : ∀ i, findForm system.kernel (hexName elfName) = some i →
      (system.kernel.forms.slot i).content = 0 ∨
        (system.kernel.forms.block (system.kernel.forms.slot i).content).isSome)
    (inSchema outSchema : UInt32) :
    (hexName elfName).chars = elfName.chars ++ said ".hex" ∧ ∃ printed packed hidx,
      system.run env (hexPackElf elfName text inSchema outSchema) = .ok (printed, packed) ∧
      findForm packed.kernel (hexName elfName) = some hidx ∧
      WrapsBinary (packed.kernel.forms.bytes hidx) (system.kernel.forms.bytes idx)
        (caps.map CapText.value) := by
  have hpacks : (hexPackElf elfName text inSchema outSchema).outcome (cachedDevice env)
      (fun _ => False) system.kernel system.dev _ :=
    hexPackElf_packs hfound hname hcontent hwithin hsize.1 hroom hheap hold inSchema outSchema
  obtain ⟨printed, packed, hrun, hidx, hhex, hbytes⟩ := exists_run_of_outcome hpacks
  refine ⟨chars_hexName hname.2, printed, packed, hidx, hrun, hhex, ?_⟩
  have hlength := FormStore.length_bytes hwithin
  have hshort : (system.kernel.forms.bytes idx).length < 2 ^ 32 := by omega
  have hlisted : (caps.map CapText.value).length ≤ 16 := by
    rw [List.length_map]
    exact hcaps
  rw [hbytes, htext, parseCaps_capsText caps hcaps]
  exact wrapsBinary_headerOf hshort hlisted inSchema outSchema

/-- A system with the form "a", whose content is 28 zeros. -/
def binarySystem : System where
  kernel := { oneFormKernel Memory.boot [] with
    forms :=
      { slot := fun _ => ⟨cString "a", 1, 28, 29, 0, permDefault⟩
        block := Function.update (fun _ => none) 1 (some (List.replicate 29 0))
        fresh := 2
        content_lt := fun _ => Nat.one_lt_two } }
  dev := (Machine.boot blankDisk).dev

/-- The form "a" with the capabilities 7 and 12. -/
theorem hexPackElf_wraps_two : (hexName (cString "a")).chars = said "a.hex" ∧
    ∃ printed packed hidx,
      binarySystem.run .faultless (hexPackElf (cString "a") (cString "7 , 12") 0 0) =
        .ok (printed, packed) ∧
      findForm packed.kernel (hexName (cString "a")) = some hidx ∧
      WrapsBinary (packed.kernel.forms.bytes hidx) (List.replicate 28 0) [7, 12] := by
  have htext : (cString "7 , 12").chars = capsText [⟨0, 7, 1⟩, ⟨1, 12, 0⟩] := by
    decide +kernel
  have hwithin : binarySystem.kernel.forms.Within 1 0 28 :=
    ⟨List.replicate 29 0, rfl, Int.le_refl 0, by decide⟩
  have hfound : findForm binarySystem.kernel (cString "a") = some 0 := by decide +kernel
  have hnone : findForm binarySystem.kernel (hexName (cString "a")) = none := by decide +kernel
  have hheap : Environment.faultless.kmallocOk binarySystem.dev.kmallocCount = true ∧
      Environment.faultless.kmallocOk (binarySystem.dev.kmallocCount + 1) = true := ⟨rfl, rfl⟩
  exact hexPackElf_wraps hfound (by decide) (by decide) hwithin (by decide) (by decide) htext
    (by decide) hheap (fun i hi => by rw [hnone] at hi; cases hi) 0 0

end Loading

end HexaOS.Shell
