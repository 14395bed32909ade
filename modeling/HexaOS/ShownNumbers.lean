import HexaOS.Listings
import HexaOS.Passwords

/-!
# Numbers that are shown and typed again

print_mode and pimp_rule_list show modes and masks in base 16, but setmode and `pimp add`
read numbers with atoi, which knows decimal digits only. A mode is read back when it is 0,
since atoi stops at the x of its prefix, and a mask when it has one decimal digit.
-/

namespace HexaOS.Shell

open DevicePrograms PackedBytes Hexafs Kernel Listings TextBuffers

section Commands

/-- The digit of four bits in print_mode. -/
def hexDigit (value : UInt16) : UInt8 := digitChar (value &&& 0xF).toNat

/-- Four bits are less than 16. -/
theorem four_bits (value : UInt16) : (value &&& 0xF).toNat < 16 := by
  rw [UInt16.toNat_and]
  exact Nat.lt_of_le_of_lt Nat.and_le_right (by decide)

/-- The text of print_mode. -/
def printMode (mode : UInt16) : List UInt8 :=
  let hi := (mode >>> 8) &&& 0xFF
  let lo := mode &&& 0xFF
  [48, 120, hexDigit (hi >>> 4), hexDigit hi, hexDigit (lo >>> 4), hexDigit lo]

/-- The lines that cmd_setmode prints. -/
inductive SetmodeLine where
  /-- "Usage: setmode <hex_mode> <form>" -/
  | usage
  /-- "Not found." -/
  | notFound
  /-- "Permission denied." -/
  | denied
  /-- "Mode changed." -/
  | changed
  deriving DecidableEq

/-- cmd_setmode -/
def cmdSetmode (args : CString) : KernelM SetmodeLine := do
  let modeStr := firstWord 15 args
  let fname := restWords 15 31 args
  let kernel ← Code.memory
  if modeStr.chars = [] ∨ fname.chars = [] then pure .usage
  else
    match findForm kernel fname with
    | none => pure .notFound
    | some idx =>
      if kernel.store.uCur ≠ 0 ∧
          (kernel.forms.slot idx).owner ≠ UInt32.ofNat kernel.store.uCur then pure .denied
      else
        let newmode := (atoi modeStr.chars).toUInt32.toUInt16
        modifyForm idx fun form => { form with mode := newmode }
        pure .changed

end Commands

section Words

/-- Two words with a space between them. -/
def joined (word text : CString) : CString :=
  ⟨word.chars ++ space :: text.chars, by
    rw [List.mem_append, List.mem_cons]
    rintro (hword | hspace | htext)
    · exact word.nonzero hword
    · exact absurd hspace (by decide)
    · exact text.nonzero htext⟩

variable {word text : CString} {limit : ℕ}

/-- The first of two words. -/
theorem firstWord_joined (hword : space ∉ word.chars) (hlength : word.chars.length ≤ limit) :
    firstWord limit (joined word text) = word := by
  have hall : ∀ c ∈ word.chars, decide (c ≠ space) = true := by
    intro c hc
    exact decide_eq_true fun hsame => hword (hsame ▸ hc)
  have htake : (word.chars ++ space :: text.chars).takeWhile (fun c => decide (c ≠ space)) =
      word.chars := by
    rw [List.takeWhile_append_of_pos hall, List.takeWhile_cons_of_neg (by decide),
      List.append_nil]
  obtain ⟨chars, nonzero⟩ := word
  rw [firstWord, takeChars, part, CString.mk.injEq]
  show ((chars ++ space :: text.chars).takeWhile (fun c => decide (c ≠ space))).take limit = chars
  rw [htake]
  exact List.take_of_length_le hlength

/-- The second of two words. -/
theorem restWords_joined {limit' : ℕ} (hword : space ∉ word.chars)
    (hlength : word.chars.length ≤ limit) (htext : text.chars.head? ≠ some space)
    (hlength' : text.chars.length ≤ limit') :
    restWords limit limit' (joined word text) = text := by
  have hdrop : ((joined word text).chars.drop word.chars.length).dropWhile
      (fun c => decide (c = space)) = text.chars := by
    show ((word.chars ++ space :: text.chars).drop word.chars.length).dropWhile _ = _
    rw [List.drop_left, List.dropWhile_cons_of_pos (by decide)]
    cases hchars : text.chars with
    | nil => rfl
    | cons c rest =>
      rw [hchars, List.head?_cons] at htext
      exact List.dropWhile_cons_of_neg (by
        rw [decide_eq_true_iff]
        exact fun hsame => htext (congrArg some hsame))
  rw [restWords]
  simp only [firstWord_joined hword hlength]
  obtain ⟨chars, nonzero⟩ := text
  rw [takeChars, part, CString.mk.injEq]
  show (((joined word ⟨chars, nonzero⟩).chars.drop word.chars.length).dropWhile
    (fun c => decide (c = space))).take limit' = chars
  rw [hdrop]
  exact List.take_of_length_le hlength'

end Words

section Reading

/-- The number that the decimal digits at the front of a numeral stand for, behind others. -/
def decimalPrefix (start : ℕ) : List ℕ → ℕ
  | [] => start
  | digit :: rest => if digit ≤ 9 then decimalPrefix (start * 10 + digit) rest else start

/-- The number that all its digits stand for in base 16. -/
def hexValue (start : ℕ) (digits : List ℕ) : ℕ :=
  digits.foldl (fun n digit => n * 16 + digit) start

/-- More digits make no number smaller. -/
theorem le_hexValue (start : ℕ) (digits : List ℕ) : start ≤ hexValue start digits := by
  induction digits generalizing start with
  | nil => exact le_rfl
  | cons digit rest ih =>
    have hrest := ih (start * 16 + digit)
    show _ ≤ hexValue (start * 16 + digit) rest
    omega

/-- The decimal digits stand for no larger number. -/
theorem decimalPrefix_le {start start' : ℕ} (h : start ≤ start') (digits : List ℕ) :
    decimalPrefix start digits ≤ hexValue start' digits := by
  induction digits generalizing start start' with
  | nil => exact h
  | cons digit rest ih =>
    show _ ≤ hexValue (start' * 16 + digit) rest
    rw [decimalPrefix]
    split
    · exact ih (by omega)
    · have hrest := le_hexValue (start' * 16 + digit) rest
      omega

/-- Behind a smaller number the decimal digits stand for a smaller one. -/
theorem decimalPrefix_lt {start start' : ℕ} (h : start < start') (digits : List ℕ) :
    decimalPrefix start digits < hexValue start' digits := by
  induction digits generalizing start start' with
  | nil => exact h
  | cons digit rest ih =>
    show _ < hexValue (start' * 16 + digit) rest
    rw [decimalPrefix]
    split
    · exact ih (by omega)
    · have hrest := le_hexValue (start' * 16 + digit) rest
      omega

/-- The decimal digits stand for the whole number when it has one of them. -/
theorem decimalPrefix_eq_iff (digits : List ℕ) :
    decimalPrefix 0 digits = hexValue 0 digits ↔ hexValue 0 digits ≤ 9 := by
  induction digits with
  | nil => exact iff_of_true rfl (Nat.zero_le 9)
  | cons digit rest ih =>
    have hvalue : hexValue 0 (digit :: rest) = hexValue digit rest := by
      rw [hexValue, List.foldl_cons, Nat.zero_mul, Nat.zero_add]
      rfl
    have hlow := le_hexValue digit rest
    rw [hvalue, decimalPrefix, Nat.zero_mul, Nat.zero_add]
    by_cases hdecimal : digit ≤ 9
    · rw [if_pos hdecimal]
      rcases Nat.eq_zero_or_pos digit with rfl | hpos
      · exact ih
      · cases rest with
        | nil => exact iff_of_true rfl hdecimal
        | cons next rest =>
          have hless : decimalPrefix digit (next :: rest) < hexValue digit (next :: rest) := by
            rw [decimalPrefix]
            show _ < hexValue (digit * 16 + next) rest
            have hrest := le_hexValue (digit * 16 + next) rest
            split
            · exact decimalPrefix_lt (by omega) rest
            · omega
          have hmore : 9 < hexValue digit (next :: rest) := by
            have hrest := le_hexValue (digit * 16 + next) rest
            show 9 < hexValue (digit * 16 + next) rest
            omega
          exact iff_of_false (by omega) (by omega)
    · rw [if_neg hdecimal]
      exact iff_of_false (by omega) (by omega)

/-- The character of a digit is a decimal one when the digit is. -/
theorem digitChar_decimal {digit : ℕ} (h : digit < 16) :
    (48 ≤ digitChar digit ∧ digitChar digit ≤ 57 ↔ digit ≤ 9) ∧ digitChar digit ≠ 45 ∧
      digitChar digit ≠ space ∧ (digit ≤ 9 → (digitChar digit).toNat = 48 + digit) := by
  have hall : ∀ digit < 16, (48 ≤ digitChar digit ∧ digitChar digit ≤ 57 ↔ digit ≤ 9) ∧
      digitChar digit ≠ 45 ∧ digitChar digit ≠ space ∧
        (digit ≤ 9 → (digitChar digit).toNat = 48 + digit) := by decide
  exact hall digit h

/-- atoi folds the decimal digits. -/
theorem atoiDigits_map {digits : List ℕ} (h : ∀ digit ∈ digits, digit < 16) (start : ℕ) :
    atoiDigits (Int32.ofNat start) (digits.map digitChar) =
      Int32.ofNat (decimalPrefix start digits) := by
  induction digits generalizing start with
  | nil => rfl
  | cons digit rest ih =>
    obtain ⟨hdecimal, -, -, hcode⟩ := digitChar_decimal (h digit List.mem_cons_self)
    rw [List.map_cons, atoiDigits, decimalPrefix]
    by_cases hdigit : digit ≤ 9
    · have hstep : Int32.ofNat start * 10 + Int32.ofNat (digitChar digit).toNat - 48 =
          Int32.ofNat (start * 10 + digit) := by
        rw [hcode hdigit, Int32.ofNat_add, Int32.ofNat_add, Int32.ofNat_mul]
        show Int32.ofNat start * 10 + (48 + Int32.ofNat digit) - 48 = _
        rw [Int32.add_comm 48, ← Int32.add_assoc, Int32.add_sub_cancel]
        rfl
      rw [if_pos (hdecimal.mpr hdigit), if_pos hdigit, hstep]
      exact ih (fun other hother => h other (List.mem_cons_of_mem _ hother)) _
    · rw [if_neg (mt hdecimal.mp hdigit), if_neg hdigit]

/-- atoi reads a numeral of itoa in base 16 back when it has one decimal digit. -/
theorem atoi_itoa_hex (value : UInt32) :
    (atoi (itoa value.toInt32 16)).toUInt32 = value ↔ value ≤ 9 := by
  have hdigits : ∀ digit ∈ numeral 16 value.toNat, digit < 16 :=
    fun digit hdigit => lt_of_mem_numeral (by decide) hdigit
  have hvalue : hexValue 0 (numeral 16 value.toNat) = value.toNat := valueOf_numeral 16 _
  have hatoi : atoi (itoa value.toInt32 16) =
      Int32.ofNat (decimalPrefix 0 (numeral 16 value.toNat)) := by
    rw [itoa_hex]
    have hfold := atoiDigits_map hdigits 0
    rw [← hfold]
    cases hmap : (numeral 16 value.toNat).map digitChar with
    | nil => rfl
    | cons c rest =>
      have hc : c ∈ (numeral 16 value.toNat).map digitChar := hmap ▸ List.mem_cons_self
      obtain ⟨digit, hdigit, rfl⟩ := List.mem_map.mp hc
      have hsign := (digitChar_decimal (hdigits digit hdigit)).2.1
      rw [atoi]
      · exact Int32.one_mul _
      · intro rest' hsame
        exact hsign (List.cons.inj hsame).1
  have hle := decimalPrefix_le (le_refl 0) (numeral 16 value.toNat)
  have hlt := value.toNat_lt
  have hsame : (Int32.ofNat (decimalPrefix 0 (numeral 16 value.toNat))).toUInt32 = value ↔
      decimalPrefix 0 (numeral 16 value.toNat) = value.toNat := by
    rw [Int32.toUInt32_ofNat', ← UInt32.toNat_inj, UInt32.toNat_ofNat_of_lt']
    rw [UInt32.size]
    omega
  have hiff := decimalPrefix_eq_iff (numeral 16 value.toNat)
  rw [hvalue] at hiff
  rw [hatoi, hsame, hiff, UInt32.le_iff_toNat_le]
  exact Iff.rfl

/-- atoi stops at the x of a mode. -/
theorem atoi_printMode (mode : UInt16) : atoi (printMode mode) = 0 := by
  have hx : ¬(48 ≤ (120 : UInt8) ∧ (120 : UInt8) ≤ 57) := by decide
  rw [printMode, atoi]
  · rw [atoiDigits, if_pos (by decide), atoiDigits, if_neg hx]
    decide
  · intro rest hsame
    exact absurd (List.cons.inj hsame).1 (by decide)

end Reading

section Modes

/-- The text of a mode as a string. -/
def modeText (mode : UInt16) : CString :=
  ⟨printMode mode, by
    have hdigit : ∀ value : UInt16, 0 ≠ hexDigit value := by
      intro value
      exact (hexVal_digitChar (four_bits value)).2.symm
    simp [printMode, hdigit]⟩

variable {kernel : KernelMemory} {name : CString} {idx : ℕ}

/-- A form that the user may change gets the mode 0 from the text of any mode. -/
theorem cmdSetmode_modeText (mode : UInt16) (hfound : findForm kernel name = some idx)
    (hname : name.chars ≠ []) (hspace : name.chars.head? ≠ some space)
    (hlength : name.chars.length ≤ 31)
    (howner : kernel.store.uCur = 0 ∨
      (kernel.forms.slot idx).owner = UInt32.ofNat kernel.store.uCur) :
    ∃ kernel', cmdSetmode (joined (modeText mode) name) kernel = .done (.changed, kernel') ∧
      (kernel'.forms.slot idx).mode = 0 := by
  have hplain : space ∉ (modeText mode).chars := by
    have hdigit : ∀ value : UInt16, (32 : UInt8) ≠ hexDigit value := by
      intro value
      exact (digitChar_decimal (four_bits value)).2.2.1.symm
    simp [modeText, printMode, hdigit, space]
  have hfirst : firstWord 15 (joined (modeText mode) name) = modeText mode :=
    firstWord_joined hplain (by decide : 6 ≤ 15)
  have hrest : restWords 15 31 (joined (modeText mode) name) = name :=
    restWords_joined hplain (by decide : 6 ≤ 15) hspace hlength
  have hnonempty : ¬((modeText mode).chars = [] ∨ name.chars = []) := by
    rintro (hmode | hempty)
    · cases hmode
    · exact hname hempty
  have hallowed : ¬(kernel.store.uCur ≠ 0 ∧
      (kernel.forms.slot idx).owner ≠ UInt32.ofNat kernel.store.uCur) := by
    rintro ⟨hcur, hother⟩
    exact howner.elim hcur hother
  have hbranch : cmdSetmode (joined (modeText mode) name) kernel = (do
      modifyForm idx fun form =>
        { form with mode := (atoi (modeText mode).chars).toUInt32.toUInt16 }
      pure SetmodeLine.changed : KernelM SetmodeLine) kernel := by
    rw [cmdSetmode]
    dsimp only
    rw [hfirst, hrest]
    show (if (modeText mode).chars = [] ∨ name.chars = [] then _ else _ : KernelM _) kernel = _
    rw [if_neg hnonempty, hfound]
    dsimp only
    rw [if_neg hallowed]
  have hzero : atoi (modeText mode).chars = 0 := atoi_printMode mode
  rw [hbranch, hzero]
  refine ⟨_, rfl, ?_⟩
  rw [FormStore.slot_setSlot_self]
  rfl

end Modes

section Masks

/-- The argument `u=<s>` of `pimp add` for the text of a mask. -/
def maskText (username : CString) (caps : UInt32) : CString :=
  ⟨username.chars ++ 61 :: itoa caps.toInt32 16, by
    rw [List.mem_append, List.mem_cons]
    rintro (hname | hsign | htext)
    · exact username.nonzero hname
    · exact absurd hsign (by decide)
    · exact zero_notMem_itoa_hex caps htext⟩

variable {shell : ShellMemory} {username : CString} {caps : UInt32}

/-- What `pimp add` reads out of the argument. -/
theorem pimpTarget_maskText (hname : 61 ∉ username.chars) (caps : UInt32) :
    pimpTarget (maskText username caps) =
      (username, (atoi (itoa caps.toInt32 16)).toUInt32, 0) := by
  have hall : ∀ c ∈ username.chars, decide (c ≠ 61) = true := by
    intro c hc
    exact decide_eq_true fun hsame => hname (hsame ▸ hc)
  have hsign : 61 ∈ (maskText username caps).chars :=
    List.mem_append_right _ List.mem_cons_self
  have htake : (maskText username caps).chars.takeWhile (fun c => decide (c ≠ 61)) =
      username.chars := by
    show (username.chars ++ 61 :: _).takeWhile _ = _
    rw [List.takeWhile_append_of_pos hall, List.takeWhile_cons_of_neg (by decide),
      List.append_nil]
  have hdrop : ((maskText username caps).chars.dropWhile (fun c => decide (c ≠ 61))).tail =
      itoa caps.toInt32 16 := by
    show ((username.chars ++ 61 :: _).dropWhile _).tail = _
    rw [List.dropWhile_append_of_pos hall, List.dropWhile_cons_of_neg (by decide), List.tail_cons]
  obtain ⟨chars, nonzero⟩ := username
  rw [pimpTarget, if_pos hsign]
  refine Prod.ext ?_ (Prod.ext ?_ rfl)
  · rw [part, CString.mk.injEq]
    exact htake
  · show (atoi ((maskText ⟨chars, nonzero⟩ caps).chars.dropWhile
      (fun c => decide (c ≠ 61))).tail).toUInt32 = _
    rw [hdrop]

/-- A rule behind the others is found for its user when no other one is. -/
theorem findRule_append {mem : Memory} {rule : PimpRule}
    (hnone : findRule mem (ruleName rule) = none) :
    findRule { mem with
      pimpRules := Function.update mem.pimpRules mem.pimpCount rule
      pimpCount := mem.pimpCount + 1 } (ruleName rule) = some mem.pimpCount := by
  have hother := findRule_eq_none hnone
  rw [findRule]
  dsimp only
  rw [List.range_succ, List.find?_append, List.find?_eq_none.mpr, Option.none_or,
    List.find?_singleton]
  · rw [Function.update_self, beq_self_eq_true, if_pos rfl]
  · intro i hi hsame
    have hlt := List.mem_range.mp hi
    rw [Function.update_of_ne hlt.ne, beq_iff_eq] at hsame
    exact hother i hlt hsame

/-- A rule with other fields is found for its user. -/
theorem findRule_replace {mem : Memory} {i : ℕ} {rule : PimpRule}
    (hname : ruleName rule = ruleName (mem.pimpRules i)) (username : CString) :
    findRule { mem with pimpRules := Function.update mem.pimpRules i rule } username =
      findRule mem username := by
  rw [findRule, findRule]
  dsimp only
  congr 1
  funext j
  by_cases hj : j = i
  · rw [hj, Function.update_self, hname]
  · rw [Function.update_of_ne hj]

/-- pimp_rule_add while there is room stores the mask for the user. -/
theorem pimpRuleAdd_done {mem : Memory} (hroom : mem.pimpCount < pimpRuleMax)
    (hlength : username.chars.length < 32) (caps noPass sessionOnly : UInt32) :
    ∃ mem', pimpRuleAdd username caps noPass sessionOnly mem = .done (true, mem') ∧
      ∃ i, findRule mem' username = some i ∧ (mem'.pimpRules i).allowedCaps = caps := by
  rw [pimpRuleAdd]
  show ∃ mem', (Program.done (mem, mem)).bind _ = _ ∧ _
  rw [Program.bind]
  dsimp only
  rw [if_neg (not_le.mpr hroom)]
  cases hfound : findRule mem username with
  | some i =>
    refine ⟨_, rfl, i, ?_, ?_⟩
    · exact (findRule_replace (by exact rfl) username).trans hfound
    · dsimp only
      rw [Function.update_self]
  | none =>
    have hname : ruleName ⟨storeAt (mem.pimpRules mem.pimpCount).user 0 (username.chars ++ [0]),
        caps, noPass, sessionOnly⟩ = username := ofBytes_storeAt _ hlength
    refine ⟨_, rfl, mem.pimpCount, ?_, ?_⟩
    · have hnone : findRule mem (ruleName ⟨storeAt (mem.pimpRules mem.pimpCount).user 0
          (username.chars ++ [0]), caps, noPass, sessionOnly⟩) = none := by rw [hname, hfound]
      have hnew := findRule_append hnone
      rw [hname] at hnew
      exact hnew
    · dsimp only
      rw [Function.update_self]

/-- The word add. -/
def addWord : CString := literal ['a', 'd', 'd']

/-- The rule of the user has this mask just when the mask has one decimal digit. -/
def Remembers (shell : ShellMemory) (username : CString) (caps : UInt32) : Prop :=
  ∃ i, findRule shell.kernel.store username = some i ∧
    ((shell.kernel.store.pimpRules i).allowedCaps = caps ↔ caps ≤ 9)

/-- What `pimp add u=<s>` does with the words of its line. -/
theorem cmdPimp_addWord (hname : 61 ∉ username.chars)
    (hspace : (maskText username caps).chars.head? ≠ some space)
    (hlength : (maskText username caps).chars.length ≤ 31) :
    cmdPimp (joined addWord (maskText username caps)) shell = (do
      let mem ← memory
      let added ← onMemory (pimpRuleAdd username (atoi (itoa caps.toInt32 16)).toUInt32 0 0)
      if added then
        logPimp (.added mem.uCur username (atoi (itoa caps.toInt32 16)).toUInt32 0)
        let _ ← onMemory pimpSaveRules
        pure (.added username)
      else pure .failed : ShellM PimpLine) shell := by
  have hfirst : firstWord 15 (joined addWord (maskText username caps)) = addWord :=
    firstWord_joined (by decide) (by decide)
  have hrest : restWords 15 31 (joined addWord (maskText username caps)) =
      maskText username caps := restWords_joined (by decide) (by decide) hspace hlength
  have hnonempty : (maskText username caps).chars ≠ [] :=
    List.append_ne_nil_of_right_ne_nil _ (List.cons_ne_nil _ _)
  rw [cmdPimp, hfirst, hrest, if_neg (by decide),
    if_pos (show addWord = literal ['a', 'd', 'd'] from rfl), pimpAdd, if_neg hnonempty,
    pimpTarget_maskText hname]

/-- `pimp add u=<s>` stores a mask and goes on with pimp_save_rules. -/
theorem cmdPimp_maskText (hroom : shell.kernel.store.pimpCount < pimpRuleMax)
    (hname : 61 ∉ username.chars) (hspace : (maskText username caps).chars.head? ≠ some space)
    (hlength : (maskText username caps).chars.length ≤ 31) :
    ∃ shell' : ShellMemory, cmdPimp (joined addWord (maskText username caps)) shell =
        (onMemory pimpSaveRules >>= fun _ => pure (.added username)) shell' ∧
      Remembers shell' username caps := by
  have hshort : username.chars.length < 32 := by
    have hparts : (maskText username caps).chars.length =
        username.chars.length + ((itoa caps.toInt32 16).length + 1) := List.length_append
    omega
  obtain ⟨mem', hadd, i, hfound, hcaps⟩ := pimpRuleAdd_done hroom hshort
    (atoi (itoa caps.toInt32 16)).toUInt32 0 0
  have hmemory : memory shell = .done (shell.kernel.store, shell) := rfl
  have hdone : onMemory (pimpRuleAdd username (atoi (itoa caps.toInt32 16)).toUInt32 0 0) shell =
      .done (true, { shell with kernel := { shell.kernel with store := mem' } }) := by
    show ((pimpRuleAdd username _ 0 0 shell.kernel.store).bind _).bind _ = _
    rw [hadd]
    exact rfl
  refine ⟨{ shell with
    kernel := { shell.kernel with store := mem' }
    pimpLog := shell.pimpLog ++ [.added shell.kernel.store.uCur username
      (atoi (itoa caps.toInt32 16)).toUInt32 0] }, ?_, i, hfound, ?_⟩
  · rw [cmdPimp_addWord hname hspace hlength, bind_of_done hmemory, bind_of_done hdone,
      if_pos rfl]
    exact rfl
  · dsimp only
    rw [hcaps]
    exact atoi_itoa_hex caps

/-- pimp_save_rules leaves the rules in memory as they are. -/
theorem Remembers.saved (h : Remembers shell username caps) :
    (onMemory pimpSaveRules >>= fun _ => (pure (.added username) : ShellM PimpLine)).Ensures shell
      fun _ shell' => Remembers shell' username caps := by
  rw [Code.ensures_bind]
  refine (onMemory_keepsRules pimpSaveRules_keeps _).mono fun _ shell' hkept => ?_
  simp only [loggedRules, ruleView, Prod.mk.injEq] at hkept
  obtain ⟨⟨hrules, hcount⟩, -⟩ := hkept
  obtain ⟨i, hfound, hcaps⟩ := h
  refine ⟨i, ?_, ?_⟩
  · rw [← hfound, findRule, findRule, hrules, hcount]
  · rw [hrules]
    exact hcaps

/-- `pimp add u=<s>` while the table is full. -/
theorem cmdPimp_full (hfull : pimpRuleMax ≤ shell.kernel.store.pimpCount)
    (hname : 61 ∉ username.chars) (hspace : (maskText username caps).chars.head? ≠ some space)
    (hlength : (maskText username caps).chars.length ≤ 31) :
    cmdPimp (joined addWord (maskText username caps)) shell = .done (.failed, shell) := by
  have hmemory : memory shell = .done (shell.kernel.store, shell) := rfl
  have hadd : pimpRuleAdd username (atoi (itoa caps.toInt32 16)).toUInt32 0 0 shell.kernel.store =
      .done (false, shell.kernel.store) := by
    show (if pimpRuleMax ≤ shell.kernel.store.pimpCount then pure false else _ :
      HexafsM Bool) shell.kernel.store = _
    rw [if_pos hfull]
    exact rfl
  have hdone : onMemory (pimpRuleAdd username (atoi (itoa caps.toInt32 16)).toUInt32 0 0) shell =
      .done (false, shell) := by
    show ((pimpRuleAdd username _ 0 0 shell.kernel.store).bind _).bind _ = _
    rw [hadd]
    exact rfl
  rw [cmdPimp_addWord hname hspace hlength, bind_of_done hmemory, bind_of_done hdone]
  exact rfl

end Masks

section Reports

/-- A form that the user may change, and whose name can be typed behind a mode. -/
structure Settable (kernel : KernelMemory) (name : CString) (idx : ℕ) : Prop where
  /-- The form is there. -/
  found : findForm kernel name = some idx
  /-- Its name is not empty. -/
  nonempty : name.chars ≠ []
  /-- Its name does not begin with a space. -/
  noSpace : name.chars.head? ≠ some space
  /-- Its name fits an entry. -/
  fits : name.chars.length ≤ 31
  /-- The user may set its mode. -/
  allowed : kernel.store.uCur = 0 ∨
    (kernel.forms.slot idx).owner = UInt32.ofNat kernel.store.uCur

/-- A user whose name can be typed in front of a mask. -/
structure Typable (username : CString) (caps : UInt32) : Prop where
  /-- The name has no equals sign. -/
  noSign : 61 ∉ username.chars
  /-- The text does not begin with a space. -/
  noSpace : (maskText username caps).chars.head? ≠ some space
  /-- The text fits a word. -/
  fits : (maskText username caps).chars.length ≤ 31

/-- A mode that print_mode shows is what setmode sets from that text just when it is 0, and a
mask that pimp_rule_list shows is what `pimp add` stores from that text just when it has one
decimal digit. `pimp add` stores none while the table is full. -/
theorem shownNumbers_readBack_iff {kernel : KernelMemory} {name : CString} {idx : ℕ}
    (hform : Settable kernel name idx) (mode : UInt16) {username : CString} {caps : UInt32}
    (huser : Typable username caps) (shell : ShellMemory) :
    (∃ kernel', cmdSetmode (joined (modeText mode) name) kernel = .done (.changed, kernel') ∧
      ((kernel'.forms.slot idx).mode = mode ↔ mode = 0)) ∧
    (pimpRuleMax ≤ shell.kernel.store.pimpCount →
      cmdPimp (joined addWord (maskText username caps)) shell = .done (.failed, shell)) ∧
    (shell.kernel.store.pimpCount < pimpRuleMax →
      (∃ shell' : ShellMemory, cmdPimp (joined addWord (maskText username caps)) shell =
          (onMemory pimpSaveRules >>= fun _ => pure (.added username)) shell' ∧
        Remembers shell' username caps) ∧
      (cmdPimp (joined addWord (maskText username caps))).Ensures shell
        fun _ shell' => Remembers shell' username caps) := by
  refine ⟨?_, fun hfull => ?_, fun hroom => ?_⟩
  · obtain ⟨kernel', hrun, hmode⟩ := cmdSetmode_modeText mode hform.found hform.nonempty
      hform.noSpace hform.fits hform.allowed
    refine ⟨kernel', hrun, ?_⟩
    rw [hmode]
    exact eq_comm
  · exact cmdPimp_full hfull huser.noSign huser.noSpace huser.fits
  · obtain ⟨shell', hrun, hstored⟩ :=
      cmdPimp_maskText hroom huser.noSign huser.noSpace huser.fits
    refine ⟨⟨shell', hrun, hstored⟩, ?_⟩
    have hsaved := hstored.saved
    rw [Code.Ensures, ← hrun] at hsaved
    exact hsaved

/-- Root with the form "a". -/
def numberKernel : KernelMemory := oneFormKernel Memory.boot []

/-- The shell of root without rules. -/
def numberShell : ShellMemory := ⟨numberKernel, 0, [], []⟩

/-- Root may change the form "a". -/
theorem numberKernel_settable : Settable numberKernel (CString.ofBytes [97]) 0 where
  found := rfl
  nonempty := by decide
  noSpace := by decide
  fits := by decide
  allowed := Or.inl rfl

/-- The mode 0 of the form and the mask 7 of bob. -/
theorem shownNumbers_readBack_zero :
    (∃ kernel', cmdSetmode (joined (modeText 0) (CString.ofBytes [97])) numberKernel =
        .done (.changed, kernel') ∧ (kernel'.forms.slot 0).mode = 0) ∧
      ∃ shell' : ShellMemory, cmdPimp (joined addWord (maskText bob 7)) numberShell =
          (onMemory pimpSaveRules >>= fun _ => pure (.added bob)) shell' ∧
        ∃ i, findRule shell'.kernel.store bob = some i ∧
          (shell'.kernel.store.pimpRules i).allowedCaps = 7 := by
  have huser : Typable bob 7 := ⟨by decide, by decide, by decide⟩
  obtain ⟨⟨kernel', hrun, hmode⟩, -, hadds⟩ :=
    shownNumbers_readBack_iff numberKernel_settable 0 huser numberShell
  obtain ⟨⟨shell', hadd, i, hfound, hcaps⟩, -⟩ := hadds (by decide)
  exact ⟨⟨kernel', hrun, hmode.mpr rfl⟩, shell', hadd, i, hfound, hcaps.mpr (by decide)⟩

/-- The mode 0x1A4 of the form becomes 0, and the mask 10 of bob, shown as A, becomes 0. -/
theorem shownNumbers_lost :
    (∃ kernel', cmdSetmode (joined (modeText 0x1A4) (CString.ofBytes [97])) numberKernel =
        .done (.changed, kernel') ∧ (kernel'.forms.slot 0).mode ≠ 0x1A4) ∧
      ∃ shell' : ShellMemory, cmdPimp (joined addWord (maskText bob 10)) numberShell =
          (onMemory pimpSaveRules >>= fun _ => pure (.added bob)) shell' ∧
        ∃ i, findRule shell'.kernel.store bob = some i ∧
          (shell'.kernel.store.pimpRules i).allowedCaps ≠ 10 := by
  have hform := numberKernel_settable
  obtain ⟨kernel', hrun, hmode⟩ := cmdSetmode_modeText 0x1A4 hform.found hform.nonempty
    hform.noSpace hform.fits hform.allowed
  have hroom : numberShell.kernel.store.pimpCount < pimpRuleMax := by decide
  have hspace : (maskText bob 10).chars.head? ≠ some space := by decide
  obtain ⟨shell', hadd, i, hrule, hcaps⟩ := cmdPimp_maskText hroom (by decide) hspace (by decide)
  refine ⟨⟨kernel', hrun, ?_⟩, shell', hadd, i, hrule, mt hcaps.mp (by decide)⟩
  rw [hmode]
  decide

end Reports

end HexaOS.Shell
