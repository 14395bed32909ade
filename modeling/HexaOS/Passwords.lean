import HexaOS.ShellNumbers
import HexaOS.ShellRules

/-!
# Stored passwords

encode_pwd writes a salt of four hexadecimal digits, the number of rounds and the hash, and
check_pwd reads them back. A hash of the old format, with two digits of salt and one round,
is stored again in the new format when its password is given to login or diese.
-/

namespace HexaOS.Shell

open DevicePrograms PackedBytes Hexafs Kernel

section Encoding

/-- The text that encode_pwd writes, without the terminator. -/
def encodedText (pass : CString) (salt : UInt32) : List UInt8 :=
  saltDigits salt ++ [43, 53] ++ itoa (pwdHash pass.chars salt 5).toInt32 16

variable {pass : CString} {salt : UInt32} {field : Vector UInt8 32}

/-- The digits of a salt of 16 bits are filled up with zeros. -/
theorem saltDigits_eq (hsalt : salt.toNat < 16 ^ 4) :
    saltDigits salt =
      List.replicate (4 - (itoa salt.toInt32 16).length) 48 ++ itoa salt.toInt32 16 := by
  have hlength := length_itoa_hex_le (by decide : 0 < 4) hsalt
  have hzeros : (itoa salt.toInt32 16).length ≤ (List.replicate 4 (48 : UInt8)).length := by
    rw [List.length_replicate]
    exact hlength
  rw [saltDigits, List.drop_append_of_le_length hzeros, List.drop_replicate]

/-- Four digits stand for a salt. -/
theorem length_saltDigits (salt : UInt32) : (saltDigits salt).length = 4 := by
  rw [saltDigits, List.length_drop, List.length_append, List.length_replicate]
  omega

/-- A salt of 16 bits is read back from its digits. -/
theorem foldHex_saltDigits (hsalt : salt.toNat < 16 ^ 4) : foldHex (saltDigits salt) = salt := by
  rw [saltDigits_eq hsalt, foldHex_zeros, foldHex_itoa]

/-- The text and its terminator fit into the field. -/
theorem length_encodedText_lt (pass : CString) (salt : UInt32) :
    (encodedText pass salt).length < 32 := by
  have hhash : (itoa (pwdHash pass.chars salt 5).toInt32 16).length ≤ 8 :=
    length_itoa_hex_le (by decide) (UInt32.toNat_lt _)
  rw [encodedText, List.length_append, List.length_append, length_saltDigits]
  have hmiddle : [(43 : UInt8), 53].length = 2 := rfl
  omega

/-- The field that encode_pwd leaves. -/
theorem toList_encodePwd (field : Vector UInt8 32) (pass : CString) (salt : UInt32) :
    ∃ rest, (encodePwd field pass salt).toList = saltDigits salt ++ 43 :: 53 ::
      (itoa (pwdHash pass.chars salt 5).toInt32 16 ++ 0 :: rest) := by
  have hlength := length_encodedText_lt pass salt
  have hfits : (encodedText pass salt ++ [0]).length ≤ 32 := by
    rw [List.length_append, List.length_singleton]
    exact hlength
  refine ⟨field.toList.drop (encodedText pass salt ++ [0]).length, ?_⟩
  have hstored : (encodePwd field pass salt).toList = encodedText pass salt ++ [0] ++
      field.toList.drop (encodedText pass salt ++ [0]).length := toList_storeAt field hfits
  rw [hstored, encodedText]
  simp only [List.append_assoc, List.cons_append, List.nil_append]

/-- check_pwd accepts what encode_pwd has stored. -/
theorem checkPwd_encodePwd (hsalt : salt.toNat < 16 ^ 4) (field : Vector UInt8 32)
    (pass : CString) : checkPwd pass (encodePwd field pass salt) = .ok true := by
  obtain ⟨rest, htext⟩ := toList_encodePwd field pass salt
  have hfour := length_saltDigits salt
  have hall : (encodePwd field pass salt).toList.length = 32 := Vector.length_toList
  generalize encodePwd field pass salt = encoded at htext hall
  have hplus : encoded[4] = 43 := by
    have hat := List.getElem_of_eq htext (show 4 < encoded.toList.length by omega)
    rw [List.getElem_append_right hfour.le, Vector.getElem_toList] at hat
    simpa only [hfour, Nat.sub_self, List.getElem_cons_zero] using hat
  have hrounds : encoded[5] = 53 := by
    have hat := List.getElem_of_eq htext (show 5 < encoded.toList.length by omega)
    rw [List.getElem_append_right (by omega), Vector.getElem_toList] at hat
    simpa only [hfour, List.getElem_cons_succ, List.getElem_cons_zero] using hat
  have htake : encoded.toList.take 4 = saltDigits salt := by
    rw [htext, List.take_left' hfour]
  have hdrop : encoded.toList.drop 6 =
      itoa (pwdHash pass.chars salt 5).toInt32 16 ++ 0 :: rest := by
    rw [htext, show 6 = 4 + 2 from rfl, ← List.drop_drop, List.drop_left' hfour]
    rfl
  have hstored : (CString.ofBytes (encoded.toList.drop 6)).chars =
      itoa (pwdHash pass.chars salt 5).toInt32 16 := by
    rw [hdrop]
    exact congrArg CString.chars (CString.ofBytes_append_zero ⟨_, zero_notMem_itoa_hex _⟩ rest)
  have hzero : 0 ∈ encoded.toList.drop 6 := by
    rw [hdrop]
    exact List.mem_append_right _ List.mem_cons_self
  rw [checkPwd, if_pos hplus, checkPwd.stored, if_pos hzero, hstored, hrounds, htake,
    foldHex_saltDigits hsalt, foldHex_itoa]
  have hfive : (hexVal 53).toNat = 5 := by decide
  rw [hfive, beq_self_eq_true]

end Encoding

section Migration

/-- A hexadecimal digit. -/
def IsHexDigit (c : UInt8) : Prop := 48 ≤ c ∧ c ≤ 57 ∨ 97 ≤ c ∧ c ≤ 102 ∨ 65 ≤ c ∧ c ≤ 70

instance (c : UInt8) : Decidable (IsHexDigit c) := inferInstanceAs (Decidable (_ ∨ _))

/-- A hash of the old format: two digits, a space and 1 to 8 digits. -/
def OldFormat (stored : Vector UInt8 32) : Prop :=
  ∃ first second digits rest, stored.toList = first :: second :: space :: (digits ++ 0 :: rest) ∧
    IsHexDigit first ∧ IsHexDigit second ∧ 1 ≤ digits.length ∧ digits.length ≤ 8 ∧
      ∀ c ∈ digits, IsHexDigit c

/-- The hash of a user is accepted for a password. -/
def Accepted (pass : CString) (i : ℕ) (shell : ShellMemory) : Prop :=
  checkPwd pass (shell.kernel.store.uTable i).passHash = .ok true

/-- The statics with a password stored for a user. -/
def ShellMemory.withPassword (shell : ShellMemory) (i : ℕ) (pass : CString) : ShellMemory :=
  { shell with kernel := { shell.kernel with store := { shell.kernel.store with
    uTable := Function.update shell.kernel.store.uTable i { shell.kernel.store.uTable i with
      passHash := encodePwd (shell.kernel.store.uTable i).passHash pass
        (shell.ticks &&& 0xFFFF) } } } }

variable {shell : ShellMemory} {i : ℕ} {pass args : CString} {lines : List CString}

/-- The third character of an old hash. -/
theorem OldFormat.getElem_two {stored : Vector UInt8 32} (h : OldFormat stored)
    (hmark : 2 < 32) : stored[2] = space := by
  obtain ⟨first, second, digits, rest, htext, -⟩ := h
  have hall : stored.toList.length = 32 := Vector.length_toList
  have hat := List.getElem_of_eq htext (show 2 < stored.toList.length by omega)
  rwa [Vector.getElem_toList] at hat

/-- A password that was stored is accepted. -/
theorem accepted_withPassword (shell : ShellMemory) (i : ℕ) (pass : CString) :
    Accepted pass i (shell.withPassword i pass) := by
  have hsalt : (shell.ticks &&& 0xFFFF).toNat < 16 ^ 4 := by
    rw [UInt32.toNat_and]
    exact Nat.lt_of_le_of_lt Nat.and_le_right (by decide)
  rw [Accepted, ShellMemory.withPassword]
  dsimp only
  rw [Function.update_self]
  exact checkPwd_encodePwd hsalt _ pass

/-- save_data leaves the hashes. -/
instance : IgnoresStore Memory.uTable where
  allocator _ _ := rfl
  sbCache _ _ := rfl
  currentTx _ _ := rfl
  txGen _ _ := rfl

/-- save_data behind a stored password. -/
theorem saveShell_accepted (shell : ShellMemory) (i : ℕ) (pass : CString) :
    saveShell.Ensures (shell.withPassword i pass) fun _ last => Accepted pass i last := by
  have hkeeps : saveShell.Keeps fun shell => shell.kernel.store.uTable :=
    saveShell_keepsView fun _ _ => rfl
  refine (hkeeps (shell.withPassword i pass)).mono fun _ last hsame => ?_
  have htable : last.kernel.store.uTable = (shell.withPassword i pass).kernel.store.uTable := hsame
  rw [Accepted, htable]
  exact accepted_withPassword shell i pass

/-- migrate on a hash of the old format. -/
theorem migrate_old (hmark : 2 < 32) (hold : (shell.kernel.store.uTable i).passHash[2] = space) :
    migrate i pass shell = saveShell (shell.withPassword i pass) := by
  have hbranch : migrate i pass shell =
      (if (shell.kernel.store.uTable i).passHash[2] = space then (do
        setPassword i pass
        saveShell) else pure () : ShellM Unit) shell := rfl
  rw [hbranch, if_pos hold]
  exact rfl

/-- A password that is typed fits into the buffer. -/
theorem takeChars_of_length_lt (h : pass.chars.length < 32) : takeChars (32 - 1) pass = pass := by
  obtain ⟨chars, nonzero⟩ := pass
  rw [takeChars, part, CString.mk.injEq]
  exact List.take_of_length_le (Nat.le_of_lt_succ h)

/-- Code that returns at once is followed by its continuation. -/
theorem bind_of_done {α β : Type} {code : ShellM α} {value : α} {shell' : ShellMemory}
    (h : code shell = .done (value, shell')) (rest : α → ShellM β) :
    (code >>= rest) shell = rest value shell' := by
  have hbind : (code >>= rest) shell = (code shell).bind fun result => rest result.1 result.2 := rfl
  rw [hbind, h]
  rfl

/-- A computation without a stop. -/
theorem liftStop_done {α : Type} {result : Except Stop α} {value : α} (h : result = .ok value)
    (shell : ShellMemory) : onMemory (liftStop result) shell = .done (value, shell) := by
  rw [h]
  rfl

/-- A line that is typed. -/
theorem getLine_done (htyped : shell.typed = pass :: lines) (hlength : pass.chars.length < 32) :
    getLine 32 shell = .done (pass, { shell with typed := lines }) := by
  have hmemory : (Code.memory : ShellM ShellMemory) shell = .done (shell, shell) := rfl
  rw [getLine, bind_of_done hmemory, htyped]
  dsimp only
  rw [takeChars_of_length_lt hlength]
  rfl

/-- login of a user whose password is right. -/
theorem cmdLogin_right (hargs : args.chars ≠ [])
    (hfound : findUser shell.kernel.store args (List.range shell.kernel.store.uCount) =
      .ok (some i))
    (htyped : shell.typed = pass :: lines) (hlength : pass.chars.length < 32)
    (hright : Accepted pass i shell) :
    cmdLogin args shell = migrate i pass { shell with
      typed := lines
      kernel := { shell.kernel with store := { shell.kernel.store with uCur := i } } } := by
  have hmemory : memory shell = .done (shell.kernel.store, shell) := rfl
  have hstored : checkPwd pass (shell.kernel.store.uTable i).passHash = .ok true := hright
  rw [cmdLogin, if_neg hargs, bind_of_done hmemory, bind_of_done (liftStop_done hfound shell)]
  dsimp only
  rw [nameMax, bind_of_done (getLine_done htyped hlength),
    bind_of_done (liftStop_done hstored _), if_pos rfl]
  exact rfl

/-- The password of diese, when it is right. -/
theorem diesePassword_right (htyped : shell.typed = pass :: lines)
    (hlength : pass.chars.length < 32)
    (hright : Accepted pass shell.kernel.store.uCur shell) :
    diesePassword shell = (migrate shell.kernel.store.uCur pass >>= fun _ => pure true)
      { shell with typed := lines } := by
  have hmemory : ∀ shell : ShellMemory, memory shell = .done (shell.kernel.store, shell) :=
    fun _ => rfl
  have hstored : checkPwd pass
      (shell.kernel.store.uTable shell.kernel.store.uCur).passHash = .ok true := hright
  rw [diesePassword, bind_of_done (getLine_done htyped hlength), bind_of_done (hmemory _),
    bind_of_done (liftStop_done hstored _), if_pos rfl]

/-- Code stores a hash for the password that check_pwd accepts, goes on with save_data, and
leaves such a hash. -/
structure StoresAgain {α : Type} (code : ShellM α) (shell : ShellMemory) (i : ℕ)
    (pass : CString) : Prop where
  /-- The password was accepted, and its new hash stands in the table. -/
  stores : ∃ (shell' : ShellMemory) (rest : Unit → ShellM α), Accepted pass i shell' ∧
    (shell'.kernel.store.uTable i).passHash = encodePwd (shell.kernel.store.uTable i).passHash
      pass (shell.ticks &&& 0xFFFF) ∧
    code shell = (saveShell >>= rest) shell'
  /-- It is accepted afterwards. -/
  leaves : code.Ensures shell fun _ last => Accepted pass i last

/-- Code that stores the password and goes on with save_data. -/
theorem storesAgain_of_save {α : Type} {code : ShellM α} (shell' : ShellMemory) (value : α)
    (htable : shell'.kernel.store.uTable i = shell.kernel.store.uTable i)
    (hticks : shell'.ticks = shell.ticks)
    (hcode : code shell = (saveShell >>= fun _ => pure value) (shell'.withPassword i pass)) :
    StoresAgain code shell i pass where
  stores := by
    refine ⟨shell'.withPassword i pass, fun _ => pure value, accepted_withPassword shell' i pass,
      ?_, hcode⟩
    rw [ShellMemory.withPassword]
    dsimp only
    rw [Function.update_self, htable, hticks]
  leaves := by
    have hsave : (saveShell >>= fun _ => pure value : ShellM α).Ensures
        (shell'.withPassword i pass) fun _ last => Accepted pass i last :=
      (Code.ensures_bind _ _ _).mpr (saveShell_accepted shell' i pass)
    rw [Code.Ensures, hcode]
    exact hsave

end Migration

section Acceptance

/-- What encode_pwd stores for a password of at most 31 bytes and a salt of 16 bits fits with
its terminator and is accepted. When a hash of the old format is accepted for what is typed,
login and diese store it again, and the password is still accepted. -/
theorem passwords_accepted :
    (∀ (pass : CString) (salt : UInt32) (field : Vector UInt8 32), pass.chars.length < 32 →
      salt.toNat < 0x10000 →
        encodedText pass salt ++ [0] <+: (encodePwd field pass salt).toList ∧
          checkPwd pass (encodePwd field pass salt) = .ok true) ∧
    ∀ (shell : ShellMemory) (i : ℕ) (pass : CString) (lines : List CString),
      OldFormat (shell.kernel.store.uTable i).passHash → pass.chars.length < 32 →
      checkPwd pass (shell.kernel.store.uTable i).passHash = .ok true →
      shell.typed = pass :: lines →
        (∀ args : CString, args.chars ≠ [] →
          findUser shell.kernel.store args (List.range shell.kernel.store.uCount) =
              .ok (some i) →
            StoresAgain (cmdLogin args) shell i pass) ∧
        (shell.kernel.store.uCur = i → StoresAgain diesePassword shell i pass) := by
  constructor
  · intro pass salt field _ hsalt
    obtain ⟨rest, htext⟩ := toList_encodePwd field pass salt
    refine ⟨⟨rest, ?_⟩, checkPwd_encodePwd hsalt field pass⟩
    rw [htext, encodedText]
    simp only [List.append_assoc, List.cons_append, List.nil_append]
  · intro shell i pass lines hold hlength hright htyped
    have hspace := hold.getElem_two mark_lt
    constructor
    · intro args hargs hfound
      refine storesAgain_of_save { shell with
        typed := lines
        kernel := { shell.kernel with store := { shell.kernel.store with uCur := i } } } ()
        rfl rfl ?_
      rw [cmdLogin_right hargs hfound htyped hlength hright, bind_pure_unit]
      exact migrate_old mark_lt hspace
    · rintro rfl
      refine storesAgain_of_save { shell with typed := lines } true rfl rfl ?_
      have hmigrate : migrate shell.kernel.store.uCur pass { shell with typed := lines } =
          saveShell (({ shell with typed := lines } : ShellMemory).withPassword _ pass) :=
        migrate_old mark_lt hspace
      rw [diesePassword_right htyped hlength hright]
      show (migrate _ pass _).bind _ = _
      rw [hmigrate]
      exact rfl

/-- The hash of the password bob in the old format. -/
def oldHash : Vector UInt8 32 :=
  storeAt (Vector.replicate 32 0) 0
    ([48, 48, space] ++ itoa (pwdHash bob.chars 0 1).toInt32 16 ++ [0])

/-- bob, with a hash of the old format, types his password. -/
def oldShell : ShellMemory :=
  let shell := (bobSystem 1).shell
  { shell with kernel := { shell.kernel with store := { shell.kernel.store with
    uTable := Function.update shell.kernel.store.uTable 1
      { shell.kernel.store.uTable 1 with passHash := oldHash } } } }

/-- diese stores bob's password again. -/
theorem passwords_accepted_bob : StoresAgain diesePassword oldShell 1 bob := by
  have hold : OldFormat oldHash := by
    refine ⟨48, 48, itoa (pwdHash bob.chars 0 1).toInt32 16, List.replicate 21 0, ?_⟩
    decide +kernel
  have htable : (oldShell.kernel.store.uTable 1).passHash = oldHash := rfl
  have hright : checkPwd bob (oldShell.kernel.store.uTable 1).passHash = .ok true := by
    rw [htable]
    decide +kernel
  have hboth := passwords_accepted.2 oldShell 1 bob [] (htable ▸ hold) (by decide) hright rfl
  exact hboth.2 rfl

end Acceptance

end HexaOS.Shell
