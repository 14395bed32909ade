import HexaOS.KernelState

/-!
# Text of the shell

Words of a command line, numbers and passwords as hexa.c reads and writes them. A
character is a byte; an array of 32 characters holds a string up to its first zero.
-/

namespace HexaOS.Shell

open DevicePrograms PackedBytes Hexafs Kernel

/-- A string literal. -/
def literal (text : List Char) : CString := CString.ofBytes (text.map fun c => UInt8.ofNat c.toNat)

/-- A part of a string, in order. -/
def part (text : CString) (chars : List UInt8) (h : chars.Sublist text.chars) : CString :=
  ⟨chars, fun hzero => text.nonzero (h.subset hzero)⟩

/-- The first characters of a string. -/
def takeChars (count : ℕ) (text : CString) : CString := part text _ (List.take_sublist count _)

theorem length_takeChars_le (count : ℕ) (text : CString) :
    (takeChars count text).chars.length ≤ count := List.length_take_le _ _

/-- The code of a space. -/
def space : UInt8 := 32

/-- The loop that fills a buffer with the characters before a space, and its limit. -/
def firstWord (limit : ℕ) (text : CString) : CString :=
  takeChars limit (part text _ (List.takeWhile_sublist (· ≠ space)))

/-- The loops that follow it: skip spaces, fill a second buffer. -/
def restWords (firstLimit limit : ℕ) (text : CString) : CString :=
  takeChars limit (part text ((text.chars.drop (firstWord firstLimit text).chars.length).dropWhile
    (· = space)) ((List.dropWhile_sublist _).trans (List.drop_sublist _ _)))

/-- hex_val -/
def hexVal (c : UInt8) : UInt32 :=
  if 48 ≤ c ∧ c ≤ 57 then c.toUInt32 - 48
  else if 97 ≤ c ∧ c ≤ 102 then c.toUInt32 - 97 + 10
  else if 65 ≤ c ∧ c ≤ 70 then c.toUInt32 - 65 + 10
  else 0

/-- The digits that atoi folds, with the arithmetic of int. -/
def atoiDigits (res : Int32) : List UInt8 → Int32
  | [] => res
  | c :: rest =>
    if 48 ≤ c ∧ c ≤ 57 then atoiDigits (res * 10 + Int32.ofNat c.toNat - 48) rest else res

/-- atoi -/
def atoi : List UInt8 → Int32
  | 45 :: rest => -1 * atoiDigits 0 rest
  | chars => 1 * atoiDigits 0 chars

/-- The loop of itoa: the digits of a number, the last one first. -/
def itoaDigits (base : ℕ) : ℕ → ℕ → List UInt8
  | 0, _ => []
  | fuel + 1, num =>
    if num = 0 then []
    else
      let rem := num % base
      (if 9 < rem then UInt8.ofNat (rem - 10 + 65) else UInt8.ofNat (rem + 48)) ::
        itoaDigits base fuel (num / base)

/-- itoa. A number of 32 bits has at most 32 digits. -/
def itoa (num : Int32) (base : ℕ) : List UInt8 :=
  if num = 0 then [48]
  else if base = 10 ∧ num < 0 then 45 :: (itoaDigits base 32 (-num).toUInt32.toNat).reverse
  else (itoaDigits base 32 num.toUInt32.toNat).reverse

/-- The loop over the iterations of pwd_hash. -/
def pwdRounds : ℕ → UInt32 → UInt32
  | 0, h => h
  | left + 1, h => pwdRounds left (((h <<< 5) + h) + (h >>> 16) + (h &&& 0xFF))

/-- pwd_hash -/
def pwdHash (text : List UInt8) (salt : UInt32) (iters : ℕ) : UInt32 :=
  pwdRounds (iters - 1) (text.foldl (fun h c => ((h <<< 5) + h) + c.toUInt32) (5381 + salt))

/-- A position in an array of 32 characters. -/
theorem position_lt (i : Fin 32) : i.val < 32 := i.isLt

/-- Store bytes in an array of 32 characters. -/
def storeAt (dst : Vector UInt8 32) (offset : ℕ) (bytes : List UInt8) : Vector UInt8 32 :=
  Vector.ofFn fun i : Fin 32 =>
    have hi : i.val < 32 := position_lt i
    if offset ≤ i ∧ i < offset + bytes.length then bytes.getD (i - offset) 0 else dst[i]

/-- The four hexadecimal digits of a salt: the last four of its digits, filled up with
zeros. -/
def saltDigits (salt : UInt32) : List UInt8 :=
  let digits := itoa salt.toInt32 16
  (List.replicate 4 48 ++ digits).drop digits.length

/-- encode_pwd. The text has the salt, a plus sign, the digit 5 and the hash. -/
def encodePwd (out : Vector UInt8 32) (pass : CString) (salt : UInt32) : Vector UInt8 32 :=
  storeAt out 0 (saltDigits salt ++ [43, 53] ++
    itoa (pwdHash pass.chars salt 5).toInt32 16 ++ [0])

/-- The number that digits stand for. -/
def foldHex (digits : List UInt8) : UInt32 := digits.foldl (fun n c => n * 16 + hexVal c) 0

/-- check_pwd. A hash without a terminator is read behind its array, a fault. -/
def checkPwd (pass : CString) (encoded : Vector UInt8 32) : Except Stop Bool :=
  if encoded[4] = 43 then
    stored 6 fun hash =>
      pwdHash pass.chars (foldHex (encoded.toList.take 4)) (hexVal encoded[5]).toNat == hash
  else if encoded[2] ≠ space then .ok false
  else stored 3 fun hash => pwdHash pass.chars (foldHex (encoded.toList.take 2)) 1 == hash
where
  /-- Compare with the digits from an index on. -/
  stored (start : ℕ) (matches' : UInt32 → Bool) : Except Stop Bool :=
    if 0 ∈ encoded.toList.drop start then
      .ok (matches' (foldHex (CString.ofBytes (encoded.toList.drop start)).chars))
    else .error .fault

/-- strcpy of an array of 32 characters: a string without a terminator is a fault. -/
def copyOut (field : Vector UInt8 32) : Except Stop CString :=
  if 0 ∈ field.toList then .ok (CString.ofBytes field.toList) else .error .fault

/-- strcmp of an array of 32 characters with a string. An array without a terminator that
agrees with the string is read behind its end, a fault. -/
def sameName (field : Vector UInt8 32) (name : CString) : Except Stop Bool :=
  if 0 ∉ field.toList ∧ field.toList <+: name.chars then .error .fault
  else .ok (CString.ofBytes field.toList == name)

/-- Bytes stored at the front of an array. -/
theorem toList_storeAt (dst : Vector UInt8 32) {bytes : List UInt8} (hlength : bytes.length ≤ 32) :
    (storeAt dst 0 bytes).toList = bytes ++ dst.toList.drop bytes.length := by
  apply List.ext_getElem
  · simp
    omega
  · intro i h1 h2
    have hi : i < 32 := by simpa using h1
    rw [List.getElem_append]
    simp only [storeAt, Vector.getElem_toList, Vector.getElem_ofFn, Nat.zero_le, Nat.zero_add, true_and, Nat.sub_zero]
    split
    · rename_i hlt
      rw [List.getD_eq_getElem _ _ hlt]
    · have hindex : bytes.length + (i - bytes.length) = i := by omega
      simp only [List.getElem_drop, Vector.getElem_toList, hindex]
      rfl

/-- The string of an array is the one that was copied into it. -/
theorem ofBytes_storeAt (dst : Vector UInt8 32) {username : CString} (hlength : username.chars.length < 32) :
    CString.ofBytes (storeAt dst 0 (username.chars ++ [0])).toList = username := by
  have hstored : (storeAt dst 0 (username.chars ++ [0])).toList =
      username.chars ++ [0] ++ dst.toList.drop (username.chars ++ [0]).length :=
    toList_storeAt dst (by rw [List.length_append, List.length_singleton]; omega)
  rw [List.append_assoc, List.singleton_append] at hstored
  have htake : (storeAt dst 0 (username.chars ++ [0])).toList.takeWhile (· ≠ 0) = username.chars := by
    rw [hstored, List.takeWhile_append_of_pos, List.takeWhile_cons_of_neg, List.append_nil]
    · simp
    · intro c hc
      have hne : c ≠ 0 := fun hzero => username.nonzero (hzero ▸ hc)
      simpa using hne
  obtain ⟨chars, nonzero⟩ := username
  simp only [CString.ofBytes, CString.mk.injEq]
  exact htake

end HexaOS.Shell
