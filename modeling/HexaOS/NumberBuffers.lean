import HexaOS.ShownNumbers

/-!
# Numbers in their buffers

itoa stores the digits of a number from the last one on, a sign and a terminator behind them,
and turns the characters round in place. What then stands in the buffer is the notation of the
number, in base 10 with its sign and in base 16 without one, and atoi and hex_val read it back.
-/

namespace HexaOS.Shell

open DevicePrograms PackedBytes Hexafs Kernel

/-- A buffer of characters, with the places that were stored to. -/
structure CharBuffer where
  /-- The characters. -/
  chars : ℕ → UInt8
  /-- The places, in the order of the stores. -/
  stores : List ℕ

namespace CharBuffer

/-- `str[i] = c` -/
def put (i : ℕ) (c : UInt8) (str : CharBuffer) : CharBuffer :=
  ⟨Function.update str.chars i c, str.stores ++ [i]⟩

/-- Store characters at consecutive places. -/
def putAll : ℕ → List UInt8 → CharBuffer → CharBuffer
  | _, [], str => str
  | i, c :: rest, str => putAll (i + 1) rest (str.put i c)

/-- The last loop of itoa: swap the characters at two places that come towards each other. -/
def reverseBetween (start stop : ℕ) (str : CharBuffer) : CharBuffer :=
  if start < stop then
    reverseBetween (start + 1) (stop - 1)
      ((str.put start (str.chars stop)).put stop (str.chars start))
  else str
termination_by stop - start

/-- The buffer begins with a text and its terminator. -/
def Holds (str : CharBuffer) (text : List UInt8) : Prop :=
  (∀ i < text.length, some (str.chars i) = text[i]?) ∧ str.chars text.length = 0

end CharBuffer

/-- The character of a digit in itoa. -/
def remChar (rem : UInt32) : UInt8 :=
  if 9 < rem then (rem - 10).toUInt8 + 65 else rem.toUInt8 + 48

/-- The digit loop of itoa: the place behind the digits, and the buffer. -/
def storeDigits (base : UInt32) : ℕ → UInt32 → ℕ → CharBuffer → ℕ × CharBuffer
  | 0, _, i, str => (i, str)
  | fuel + 1, unum, i, str =>
    if unum = 0 then (i, str)
    else storeDigits base fuel (unum / base) (i + 1) (str.put i (remChar (unum % base)))

/-- itoa on its buffer. A number of 32 bits has at most 32 digits. -/
def itoaStr (num : Int32) (base : UInt32) (str : CharBuffer) : CharBuffer :=
  if num = 0 then (str.put 0 48).put 1 0
  else
    let isNegative := base = 10 ∧ num < 0
    let unum := if isNegative then (-num).toUInt32 else num.toUInt32
    let (i, str) := storeDigits base 32 unum 0 str
    let (i, str) := if isNegative then (i + 1, str.put i 45) else (i, str)
    (str.put i 0).reverseBetween 0 (i - 1)

namespace CharBuffer

variable {str : CharBuffer} {text : List UInt8} {i k start stop : ℕ}

/-- Consecutive places hold the characters, the others what they held. -/
theorem chars_putAll (i : ℕ) (text : List UInt8) (str : CharBuffer) (k : ℕ) :
    (str.putAll i text).chars k =
      if i ≤ k ∧ k < i + text.length then text.getD (k - i) 0 else str.chars k := by
  induction text generalizing i str with
  | nil =>
    have hnone : ¬(i ≤ k ∧ k < i + ([] : List UInt8).length) := by
      rw [List.length_nil]
      omega
    rw [if_neg hnone]
    rfl
  | cons c rest ih =>
    rw [putAll, ih, List.length_cons]
    by_cases hk : k = i
    · have hbefore : ¬(i + 1 ≤ k ∧ k < i + 1 + rest.length) := by omega
      have hhere : i ≤ k ∧ k < i + (rest.length + 1) := by omega
      rw [if_neg hbefore, if_pos hhere, hk, Nat.sub_self]
      exact Function.update_self ..
    · have hother : (str.put i c).chars k = str.chars k := Function.update_of_ne hk _ _
      by_cases hlater : i + 1 ≤ k ∧ k < i + 1 + rest.length
      · have hhere : i ≤ k ∧ k < i + (rest.length + 1) := by omega
        have hnext : k - i = k - (i + 1) + 1 := by omega
        rw [if_pos hlater, if_pos hhere, hnext, List.getD_cons_succ]
      · have hnot : ¬(i ≤ k ∧ k < i + (rest.length + 1)) := by omega
        rw [if_neg hlater, if_neg hnot, hother]

/-- The places of consecutive stores. -/
theorem stores_putAll (i : ℕ) (text : List UInt8) (str : CharBuffer) :
    (str.putAll i text).stores = str.stores ++ List.range' i text.length := by
  induction text generalizing i str with
  | nil =>
    rw [List.length_nil, List.range'_zero, List.append_nil]
    rfl
  | cons c rest ih =>
    rw [putAll, ih, put, List.length_cons, List.range'_succ, List.append_assoc]
    rfl

/-- Two lists one behind the other. -/
theorem putAll_append (i : ℕ) (text text' : List UInt8) (str : CharBuffer) :
    str.putAll i (text ++ text') = (str.putAll i text).putAll (i + text.length) text' := by
  induction text generalizing i str with
  | nil => rfl
  | cons c rest ih =>
    rw [List.cons_append, putAll, ih, putAll, List.length_cons, Nat.add_right_comm]
    rfl

/-- The swaps turn the characters between two places round, and keep the others. -/
theorem chars_reverseBetween (start stop : ℕ) (str : CharBuffer) (k : ℕ) :
    (str.reverseBetween start stop).chars k =
      if start ≤ k ∧ k ≤ stop then str.chars (start + stop - k) else str.chars k := by
  fun_induction reverseBetween start stop str with
  | case1 start stop str hlt ih =>
    have hswapped : ∀ j, ((str.put start (str.chars stop)).put stop (str.chars start)).chars j =
        if j = stop then str.chars start else if j = start then str.chars stop else str.chars j := by
      intro j
      show Function.update (Function.update str.chars start _) stop _ j = _
      rw [Function.update_apply, Function.update_apply]
    rw [ih, hswapped, hswapped]
    by_cases hinside : start + 1 ≤ k ∧ k ≤ stop - 1
    · have hmirror : start + 1 + (stop - 1) - k = start + stop - k := by omega
      have hwide : start ≤ k ∧ k ≤ stop := by omega
      rw [if_pos hinside, if_pos hwide, hmirror, if_neg (by omega), if_neg (by omega)]
    · rw [if_neg hinside]
      by_cases hlast : k = stop
      · have hwide : start ≤ k ∧ k ≤ stop := by omega
        have hmirror : start + stop - k = start := by omega
        rw [if_pos hlast, if_pos hwide, hmirror]
      · rw [if_neg hlast]
        by_cases hfirst : k = start
        · have hwide : start ≤ k ∧ k ≤ stop := by omega
          have hmirror : start + stop - k = stop := by omega
          rw [if_pos hfirst, if_pos hwide, hmirror]
        · rw [if_neg hfirst, if_neg (by omega)]
  | case2 start stop str hge =>
    by_cases hk : start ≤ k ∧ k ≤ stop
    · have hsame : start + stop - k = k := by omega
      rw [if_pos hk, hsame]
    · rw [if_neg hk]

/-- The swaps store to no other places. -/
theorem stores_reverseBetween (start stop : ℕ) (str : CharBuffer) :
    ∀ i ∈ (str.reverseBetween start stop).stores, i ∈ str.stores ∨ start ≤ i ∧ i ≤ stop := by
  fun_induction reverseBetween start stop str with
  | case1 start stop str hlt ih =>
    intro i hi
    rcases ih i hi with hbefore | hbetween
    · simp only [put, List.mem_append, List.mem_singleton] at hbefore
      rcases hbefore with (hold | hfirst) | hlast
      · exact .inl hold
      · exact .inr (by omega)
      · exact .inr (by omega)
    · exact .inr (by omega)
  | case2 start stop str hge => exact fun i hi => .inl hi

/-- Characters that are stored, terminated and turned round. -/
theorem holds_reversed (hne : text ≠ []) (str : CharBuffer) :
    (((str.putAll 0 text).put text.length 0).reverseBetween 0 (text.length - 1)).Holds
        text.reverse ∧
      ∀ i ∈ (((str.putAll 0 text).put text.length 0).reverseBetween 0 (text.length - 1)).stores,
        i ∈ str.stores ∨ i < text.length + 1 := by
  have hpositive : 0 < text.length := List.length_pos_iff.mpr hne
  have hstored : ∀ k < text.length, some (((str.putAll 0 text).put text.length 0).chars k) =
      text[k]? := by
    intro k hk
    have hother : ((str.putAll 0 text).put text.length 0).chars k = (str.putAll 0 text).chars k :=
      Function.update_of_ne hk.ne _ _
    have hwithin : 0 ≤ k ∧ k < 0 + text.length := by omega
    rw [hother, chars_putAll, if_pos hwithin, Nat.sub_zero, List.getD_eq_getElem?_getD,
      List.getElem?_eq_getElem hk, Option.getD_some]
  refine ⟨⟨fun k hk => ?_, ?_⟩, fun i hi => ?_⟩
  · rw [List.length_reverse] at hk
    have hwithin : 0 ≤ k ∧ k ≤ text.length - 1 := by omega
    have hmirror : 0 + (text.length - 1) - k = text.length - 1 - k := by omega
    rw [chars_reverseBetween, if_pos hwithin, hmirror, hstored _ (by omega),
      List.getElem?_reverse hk]
  · have hbehind : ¬(0 ≤ text.length ∧ text.length ≤ text.length - 1) := by omega
    rw [List.length_reverse, chars_reverseBetween, if_neg hbehind]
    exact Function.update_self ..
  · rcases stores_reverseBetween _ _ _ i hi with hbefore | hbetween
    · simp only [put, stores_putAll, List.mem_append, List.mem_singleton, List.mem_range'_1]
        at hbefore
      rcases hbefore with (hold | hdigit) | hlast
      · exact .inl hold
      · exact .inr (by omega)
      · exact .inr (by omega)
    · exact .inr (by omega)

end CharBuffer

section Digits

variable {num : Int32} {base : UInt32}

/-- The character of a digit in base 16 or less. -/
theorem remChar_eq {rem : UInt32} (h : rem.toNat < 16) : remChar rem = digitChar rem.toNat := by
  have hall : ∀ digit < 16, remChar (UInt32.ofNat digit) = digitChar digit := by decide
  have hrem := hall rem.toNat h
  rw [UInt32.ofNat_toNat] at hrem
  exact hrem

/-- The digit loop stores the digits. -/
theorem storeDigits_eq (hpositive : 0 < base.toNat) (hbase : base.toNat ≤ 16) (fuel : ℕ)
    (unum : UInt32) (i : ℕ) (str : CharBuffer) :
    storeDigits base fuel unum i str =
      (i + (itoaDigits base.toNat fuel unum.toNat).length,
        str.putAll i (itoaDigits base.toNat fuel unum.toNat)) := by
  induction fuel generalizing unum i str with
  | zero => rfl
  | succ fuel ih =>
    rw [storeDigits, itoaDigits]
    by_cases hzero : unum = 0
    · have hnat : unum.toNat = 0 := by rw [hzero]; rfl
      rw [if_pos hzero, if_pos hnat]
      rfl
    · have hnat : unum.toNat ≠ 0 := fun hnone => hzero (UInt32.toNat_inj.mp hnone)
      have hdigit : (unum % base).toNat < 16 := by
        rw [UInt32.toNat_mod]
        exact Nat.lt_of_lt_of_le (Nat.mod_lt _ hpositive) hbase
      rw [if_neg hzero, if_neg hnat, ih, remChar_eq hdigit, UInt32.toNat_mod, UInt32.toNat_div,
        List.length_cons, Nat.add_assoc, Nat.add_comm 1]
      rfl

/-- What itoa leaves in its buffer, and where it stores. -/
theorem itoaStr_holds (hpositive : 0 < base.toNat) (hbase : base.toNat ≤ 16) (num : Int32)
    (str : CharBuffer) :
    (itoaStr num base str).Holds (itoa num base.toNat) ∧
      ∀ i ∈ (itoaStr num base str).stores,
        i ∈ str.stores ∨ i < (itoa num base.toNat).length + 1 := by
  by_cases hzero : num = 0
  · have hstored : itoaStr num base str = ((str.putAll 0 [48]).put 1 0).reverseBetween 0 0 := by
      rw [itoaStr, if_pos hzero, CharBuffer.reverseBetween, if_neg (Nat.lt_irrefl 0)]
      rfl
    have htext : itoa num base.toNat = [48] := by rw [itoa, if_pos hzero]
    rw [hstored, htext]
    exact CharBuffer.holds_reversed (by decide : ([48] : List UInt8) ≠ []) str
  · have hbaseTen : base = 10 ↔ base.toNat = 10 := UInt32.toNat_inj.symm
    by_cases hneg : base = 10 ∧ num < 0
    · have hneg' : base.toNat = 10 ∧ num < 0 := ⟨hbaseTen.mp hneg.1, hneg.2⟩
      generalize hdigits : itoaDigits base.toNat 32 (-num).toUInt32.toNat = digits
      have hstored : itoaStr num base str =
          ((str.putAll 0 (digits ++ [45])).put (digits ++ [45]).length 0).reverseBetween 0
            ((digits ++ [45]).length - 1) := by
        rw [itoaStr, if_neg hzero]
        simp only [if_pos hneg, storeDigits_eq hpositive hbase, hdigits, Nat.zero_add]
        rw [CharBuffer.putAll_append, List.length_append, Nat.zero_add]
        rfl
      have htext : itoa num base.toNat = (digits ++ [45]).reverse := by
        rw [itoa, if_neg hzero, if_pos hneg', hdigits, List.reverse_append]
        rfl
      have hreversed := CharBuffer.holds_reversed
        (List.append_ne_nil_of_right_ne_nil digits (by decide : ([45] : List UInt8) ≠ [])) str
      rw [hstored, htext, List.length_reverse]
      exact hreversed
    · have hneg' : ¬(base.toNat = 10 ∧ num < 0) := fun hboth =>
        hneg ⟨hbaseTen.mpr hboth.1, hboth.2⟩
      have hnonempty : itoaDigits base.toNat 32 num.toUInt32.toNat ≠ [] := by
        have hnat : num.toUInt32.toNat ≠ 0 := by
          intro hnone
          have hword : num.toUInt32 = 0 := UInt32.toNat_inj.mp hnone
          have hback := congrArg UInt32.toInt32 hword
          rw [Int32.toInt32_toUInt32] at hback
          exact hzero hback
        rw [itoaDigits, if_neg hnat]
        exact List.cons_ne_nil _ _
      generalize hdigits : itoaDigits base.toNat 32 num.toUInt32.toNat = digits at hnonempty
      have hstored : itoaStr num base str =
          ((str.putAll 0 digits).put digits.length 0).reverseBetween 0 (digits.length - 1) := by
        rw [itoaStr, if_neg hzero]
        simp only [if_neg hneg, storeDigits_eq hpositive hbase, hdigits, Nat.zero_add]
      have htext : itoa num base.toNat = digits.reverse := by
        rw [itoa, if_neg hzero, if_neg hneg', hdigits]
      have hreversed := CharBuffer.holds_reversed hnonempty str
      rw [hstored, htext, List.length_reverse]
      exact hreversed

/-- The decimal notation of an int. -/
def decimalNotation (num : Int32) : List UInt8 :=
  (if num < 0 then [45] else []) ++ (numeral 10 num.toInt.natAbs).map digitChar

/-- The hexadecimal notation of an int as an unsigned one. -/
def hexNotation (num : Int32) : List UInt8 := (numeral 16 num.toUInt32.toNat).map digitChar

/-- An int by its sign and its magnitude. -/
theorem eq_magnitude (num : Int32) :
    num.toInt.natAbs ≤ 2 ^ 31 ∧
      num = if num < 0 then -Int32.ofNat num.toInt.natAbs else Int32.ofNat num.toInt.natAbs := by
  have hlow := num.le_toInt
  have hhigh := num.toInt_lt
  refine ⟨by omega, ?_⟩
  have hback : Int32.ofInt num.toInt = num := Int32.ofInt_toInt num
  split
  · rename_i hneg
    have hless : num.toInt < 0 := Int32.lt_iff_toInt_lt.mp hneg
    have hmagnitude : num.toInt = -(num.toInt.natAbs : ℤ) := by omega
    conv_lhs => rw [← hback, hmagnitude, Int32.ofInt_neg]
    rfl
  · rename_i hneg
    have hless : ¬num.toInt < 0 := fun hless => hneg (Int32.lt_iff_toInt_lt.mpr hless)
    have hmagnitude : num.toInt = (num.toInt.natAbs : ℤ) := by omega
    conv_lhs => rw [← hback, hmagnitude]
    rfl

/-- itoa in base 10 writes the decimal notation. -/
theorem itoa_decimal (num : Int32) : itoa num 10 = decimalNotation num := by
  obtain ⟨hbound, hmagnitude⟩ := eq_magnitude num
  have hbig : num.toInt.natAbs < 10 ^ 32 := by omega
  have hword : (Int32.ofNat num.toInt.natAbs).toUInt32.toNat = num.toInt.natAbs := by
    rw [Int32.toUInt32_ofNat']
    apply UInt32.toNat_ofNat_of_lt'
    rw [UInt32.size]
    omega
  rw [itoa, decimalNotation, numeral]
  by_cases hzero : num = 0
  · rw [if_pos hzero, hzero]
    decide
  · have hnat : num.toInt.natAbs ≠ 0 := by
      intro hnone
      have hint : num.toInt = (0 : Int32).toInt := Int.natAbs_eq_zero.mp hnone
      exact hzero (Int32.toInt_inj.mp hint)
    rw [if_neg hzero, if_neg hnat]
    by_cases hneg : num < 0
    · have hopposite : -num = Int32.ofNat num.toInt.natAbs := by
        rw [if_pos hneg] at hmagnitude
        conv_lhs => rw [hmagnitude]
        exact Int32.neg_neg
      rw [if_pos ⟨rfl, hneg⟩, if_pos hneg, hopposite, hword, itoaDigits_eq (by decide) 32 hbig,
        List.map_reverse]
      rfl
    · rw [if_neg hneg] at hmagnitude
      have hsame : num.toUInt32.toNat = num.toInt.natAbs := by
        conv_lhs => rw [hmagnitude]
        exact hword
      rw [if_neg fun hboth => hneg hboth.2, if_neg hneg, hsame, itoaDigits_eq (by decide) 32 hbig,
        List.map_reverse]
      rfl

/-- itoa in base 16 writes the hexadecimal notation. -/
theorem itoa_hexNotation (num : Int32) : itoa num 16 = hexNotation num := by
  have hnotation := itoa_hex num.toUInt32
  rw [Int32.toInt32_toUInt32] at hnotation
  exact hnotation

/-- A decimal notation has at most eleven characters. -/
theorem length_decimalNotation_le (num : Int32) : (decimalNotation num).length ≤ 11 := by
  have hbound := (eq_magnitude num).1
  have hdigits : (numeral 10 num.toInt.natAbs).length ≤ 10 :=
    length_numeral_le (by decide) (by decide) (by omega)
  have hsign : (if num < 0 then [(45 : UInt8)] else []).length ≤ 1 := by
    split
    · exact le_rfl
    · exact Nat.zero_le 1
  rw [decimalNotation, List.length_append, List.length_map]
  omega

/-- Only zero has a numeral that begins with a zero. -/
theorem head_numeral {base n : ℕ} (hn : n ≠ 0) : (numeral base n).head? ≠ some 0 := by
  rw [numeral, if_neg hn, List.head?_reverse]
  intro hlast
  have hne : Nat.digits base n ≠ [] := Nat.digits_ne_nil_iff_ne_zero.mpr hn
  rw [List.getLast?_eq_getLast_of_ne_nil hne, Option.some.injEq] at hlast
  exact Nat.getLast_digit_ne_zero base hn hlast

/-- Decimal digits stand for their number to the last one. -/
theorem decimalPrefix_eq {digits : List ℕ} (h : ∀ digit ∈ digits, digit < 10) (start : ℕ) :
    decimalPrefix start digits = digits.foldl (fun n digit => n * 10 + digit) start := by
  induction digits generalizing start with
  | nil => rfl
  | cons digit rest ih =>
    have hdigit := h digit List.mem_cons_self
    rw [decimalPrefix, if_pos (by omega), List.foldl_cons]
    exact ih (fun other hother => h other (List.mem_cons_of_mem _ hother)) _

/-- atoi reads a decimal notation back. -/
theorem atoi_decimalNotation (num : Int32) : atoi (decimalNotation num) = num := by
  have hdigits : ∀ digit ∈ numeral 10 num.toInt.natAbs, digit < 10 :=
    fun digit hdigit => lt_of_mem_numeral (by decide) hdigit
  have hsmall : ∀ digit ∈ numeral 10 num.toInt.natAbs, digit < 16 := by
    intro digit hdigit
    have hten := hdigits digit hdigit
    omega
  have hfold : atoiDigits 0 ((numeral 10 num.toInt.natAbs).map digitChar) =
      Int32.ofNat num.toInt.natAbs := by
    have hall := atoiDigits_map hsmall 0
    rw [decimalPrefix_eq hdigits] at hall
    have hvalue := valueOf_numeral 10 num.toInt.natAbs
    rw [valueOf] at hvalue
    rw [hvalue] at hall
    exact hall
  have hmagnitude := (eq_magnitude num).2
  rw [decimalNotation]
  by_cases hneg : num < 0
  · rw [if_pos hneg] at hmagnitude
    rw [if_pos hneg, List.singleton_append, atoi, hfold, ← Int32.neg_eq_neg_one_mul]
    exact hmagnitude.symm
  · rw [if_neg hneg] at hmagnitude
    rw [if_neg hneg, List.nil_append]
    cases hmap : (numeral 10 num.toInt.natAbs).map digitChar with
    | nil =>
      rw [hmap] at hfold
      exact hfold.trans hmagnitude.symm
    | cons c rest =>
      have hc : c ∈ (numeral 10 num.toInt.natAbs).map digitChar := hmap ▸ List.mem_cons_self
      obtain ⟨digit, hdigit, rfl⟩ := List.mem_map.mp hc
      have hsign := (digitChar_decimal (hsmall digit hdigit)).2.1
      rw [atoi]
      · rw [← hmap, hfold, Int32.one_mul]
        exact hmagnitude.symm
      · intro rest' hsame
        exact hsign (List.cons.inj hsame).1

/-- hex_val reads a hexadecimal notation back. -/
theorem foldHex_hexNotation (num : Int32) : foldHex (hexNotation num) = num.toUInt32 := by
  have hback := foldHex_itoa num.toUInt32
  rw [Int32.toInt32_toUInt32, itoa_hexNotation] at hback
  exact hback

/-- itoa in base 10 stores twelve bytes at most and leaves the decimal notation, without leading
zeros, that atoi reads back. In base 16 it leaves the notation of the unsigned number, and its
digits folded with hex_val are that number again. -/
theorem itoaStr_reads_back (num : Int32) (chars : ℕ → UInt8) :
    (∀ i ∈ (itoaStr num 10 ⟨chars, []⟩).stores, i < 12) ∧
      (itoaStr num 10 ⟨chars, []⟩).Holds (decimalNotation num) ∧
      (num ≠ 0 → (numeral 10 num.toInt.natAbs).head? ≠ some 0) ∧
      atoi (decimalNotation num) = num ∧
      (itoaStr num 16 ⟨chars, []⟩).Holds (hexNotation num) ∧
      foldHex (hexNotation num) = num.toUInt32 := by
  obtain ⟨hdecimal, hstores⟩ := itoaStr_holds (by decide : 0 < (10 : UInt32).toNat) (by decide)
    num ⟨chars, []⟩
  obtain ⟨hhex, -⟩ := itoaStr_holds (by decide : 0 < (16 : UInt32).toNat) (by decide)
    num ⟨chars, []⟩
  have hten : itoa num (10 : UInt32).toNat = decimalNotation num := itoa_decimal num
  have hsixteen : itoa num (16 : UInt32).toNat = hexNotation num := itoa_hexNotation num
  rw [hten] at hdecimal hstores
  rw [hsixteen] at hhex
  refine ⟨fun i hi => ?_, hdecimal, fun hne => ?_, atoi_decimalNotation num, hhex,
    foldHex_hexNotation num⟩
  · have hlength := length_decimalNotation_le num
    rcases hstores i hi with hbefore | hwithin
    · exact absurd hbefore List.not_mem_nil
    · omega
  · apply head_numeral
    intro hnone
    have hint : num.toInt = (0 : Int32).toInt := Int.natAbs_eq_zero.mp hnone
    exact hne (Int32.toInt_inj.mp hint)

end Digits

end HexaOS.Shell
