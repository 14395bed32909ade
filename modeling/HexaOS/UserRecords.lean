import HexaOS.HexafsEncoding
import HexaOS.HexafsMachine
import HexaOS.HexafsObjectReads
import HexaOS.HexafsTransactions
import HexaOS.KernelFrames

/-!
# The user table as bytes

save_data writes a count of four bytes and 68 bytes for each user, with a running offset.
load_users reads the count as a signed number, checks it against the length and takes every
user from a fixed place. What it refuses leaves the table as it is.
-/

namespace HexaOS.Hexafs

open DevicePrograms PackedBytes

/-- The user table. -/
def userView (mem : Memory) : (ℕ → UserEntry) × ℕ × ℕ := (mem.uTable, mem.uCount, mem.uCur)

/-- The first four bytes as the number of users. -/
def userCount (bytes : List UInt8) : Int32 := (ofBytes (α := UInt32) bytes).toInt32

/-- Bytes that load_users takes a table from. -/
structure HoldsUsers (bytes : List UInt8) : Prop where
  /-- There is a counter. -/
  header : 4 ≤ bytes.length
  /-- It counts a user. -/
  positive : 1 ≤ userCount bytes
  /-- It counts at most twelve. -/
  limit : userCount bytes ≤ 12
  /-- Their records are there. -/
  entries : 4 + (userCount bytes).toInt * 68 ≤ bytes.length

section Bytes

variable {mem : Memory} {bytes rest : List UInt8}

/-- A user takes 68 bytes. -/
theorem length_userBytes (user : UserEntry) : (userBytes user).length = 68 := by
  rw [userBytes, List.length_append, List.length_append, Vector.length_toList,
    Vector.length_toList]
  rfl

/-- A field of 32 bytes is read back from where it was written. -/
theorem ofBytes_toList_append {n : ℕ} (field : Vector UInt8 n) (rest : List UInt8) :
    ofBytes (field.toList ++ rest) = field := by
  rw [← toBytes_bytes]
  exact Packed.ofBytes_toBytes_append field rest

/-- A number that fits a byte is read back from it. -/
theorem toUInt32_toUInt8 {value : UInt32} (h : value.toNat ≤ 255) :
    value.toUInt8.toUInt32 = value := by
  apply UInt32.toNat_inj.mp
  rw [UInt8.toNat_toUInt32, UInt32.toNat_toUInt8]
  exact Nat.mod_eq_of_lt (by omega)

/-- A user is read back from its bytes. -/
theorem userOfBytes_userBytes {user : UserEntry} (hroot : user.isRoot.toNat ≤ 255)
    (rest : List UInt8) : userOfBytes (userBytes user ++ rest) = user := by
  obtain ⟨name, passHash, isRoot⟩ := user
  have hsplit : userBytes ⟨name, passHash, isRoot⟩ ++ rest = name.toList ++
      (passHash.toList ++ ([isRoot.toUInt8, 0, 0, 0] ++ rest)) := by
    rw [userBytes, List.append_assoc, List.append_assoc]
  have hname : (userBytes ⟨name, passHash, isRoot⟩ ++ rest).drop 32 =
      passHash.toList ++ ([isRoot.toUInt8, 0, 0, 0] ++ rest) := by
    rw [hsplit]
    exact List.drop_left' Vector.length_toList
  have hhash : (userBytes ⟨name, passHash, isRoot⟩ ++ rest).drop 64 =
      [isRoot.toUInt8, 0, 0, 0] ++ rest := by
    rw [show 64 = 32 + 32 from rfl, ← List.drop_drop, hname]
    exact List.drop_left' Vector.length_toList
  rw [userOfBytes, hname, hhash, hsplit, ofBytes_toList_append, ofBytes_toList_append]
  exact congrArg (UserEntry.mk name passHash) (toUInt32_toUInt8 hroot)

/-- The bytes of several users. -/
theorem length_flatMap_userBytes (users : List UserEntry) :
    (users.flatMap userBytes).length = users.length * 68 := by
  induction users with
  | nil => rfl
  | cons user users ih =>
    rw [List.flatMap_cons, List.length_append, length_userBytes, ih, List.length_cons]
    omega

/-- The bytes from user `i` on begin with those of user `i`. -/
theorem drop_flatMap_userBytes {users : List UserEntry} {i : ℕ} (hi : i < users.length) :
    ∃ rest, (users.flatMap userBytes).drop (i * 68) = userBytes users[i] ++ rest := by
  induction users generalizing i with
  | nil => exact absurd hi (Nat.not_lt_zero i)
  | cons user users ih =>
    cases i with
    | zero => exact ⟨users.flatMap userBytes, rfl⟩
    | succ i =>
      have hi' : i < users.length := Nat.lt_of_succ_lt_succ hi
      obtain ⟨rest, hrest⟩ := ih hi'
      refine ⟨rest, ?_⟩
      rw [List.flatMap_cons, Nat.succ_mul, Nat.add_comm, ← List.drop_drop,
        List.drop_left' (length_userBytes user), hrest, List.getElem_cons_succ]

/-- The buffer of save_data has four bytes and 68 for each user. -/
theorem length_usersRaw (mem : Memory) : (usersRaw mem).length = 4 + mem.uCount * 68 := by
  have hcount : (toBytes (UInt32.ofNat mem.uCount)).length = 4 := rfl
  rw [usersRaw, List.length_append, hcount, length_flatMap_userBytes, List.length_map,
    List.length_range]

/-- The count in the buffer of save_data. -/
theorem ofBytes_usersRaw (mem : Memory) :
    ofBytes (usersRaw mem) = UInt32.ofNat mem.uCount :=
  Packed.ofBytes_toBytes_append _ _

/-- Every user is read back from the buffer of save_data. -/
theorem userOfBytes_usersRaw {i : ℕ} (hi : i < mem.uCount)
    (hroot : (mem.uTable i).isRoot.toNat ≤ 255) :
    userOfBytes ((usersRaw mem).drop (4 + i * 68)) = mem.uTable i := by
  have hcount : (toBytes (UInt32.ofNat mem.uCount)).length = 4 := rfl
  have hlength : i < ((List.range mem.uCount).map mem.uTable).length := by
    rw [List.length_map, List.length_range]
    exact hi
  obtain ⟨rest, hrest⟩ := drop_flatMap_userBytes hlength
  have huser : ((List.range mem.uCount).map mem.uTable)[i] = mem.uTable i := by
    rw [List.getElem_map, List.getElem_range]
  rw [usersRaw, ← List.drop_drop, List.drop_left' hcount, hrest, huser]
  exact userOfBytes_userBytes hroot rest

/-- The signed count of a number of users. -/
theorem userCount_cases (bytes : List UInt8) : (userCount bytes).toInt =
    if 2 * (ofBytes (α := UInt32) bytes).toNat < 2 ^ 32
      then ((ofBytes (α := UInt32) bytes).toNat : ℤ)
      else (ofBytes (α := UInt32) bytes).toNat - 2 ^ 32 := BitVec.toInt_eq_toNat_cond _

/-- The signed count in the code's own terms. -/
theorem holdsUsers_iff : HoldsUsers bytes ↔ 4 ≤ bytes.length ∧
    1 ≤ (ofBytes (α := UInt32) bytes).toNat ∧ (ofBytes (α := UInt32) bytes).toNat ≤ 12 ∧
      4 + (ofBytes (α := UInt32) bytes).toNat * 68 ≤ bytes.length := by
  have hsigned := userCount_cases bytes
  have hlt := (ofBytes (α := UInt32) bytes).toNat_lt
  generalize (ofBytes (α := UInt32) bytes).toNat = count at hsigned hlt
  have hpositive : 1 ≤ userCount bytes ↔ 1 ≤ (userCount bytes).toInt := Int32.le_iff_toInt_le
  have hlimit : userCount bytes ≤ 12 ↔ (userCount bytes).toInt ≤ 12 := Int32.le_iff_toInt_le
  constructor
  · rintro ⟨hheader, hone, htwelve, hentries⟩
    have hone' := hpositive.mp hone
    have htwelve' := hlimit.mp htwelve
    split at hsigned <;> omega
  · rintro ⟨hheader, hone, htwelve, hentries⟩
    rw [if_pos (by omega)] at hsigned
    refine ⟨hheader, hpositive.mpr (by omega), hlimit.mpr (by omega), by omega⟩

/-- The count of a table is not negative. -/
theorem userCount_toInt (h : HoldsUsers bytes) :
    (userCount bytes).toInt = (ofBytes (α := UInt32) bytes).toNat := by
  have hsigned := userCount_cases bytes
  obtain ⟨-, -, htwelve, -⟩ := holdsUsers_iff.mp h
  rw [if_pos (by omega)] at hsigned
  exact hsigned

end Bytes

section Loading

variable {env : Environment} {machine machine' : Machine} {bytes : List UInt8} {mem : Memory}

/-- hexafs_users_load reads only. -/
theorem hexafsUsersLoad_keeps : hexafsUsersLoad.Keeps id := by
  refine Code.Keeps.bind ?_ fun read => ?_
  · refine rootAbstraction_keeps.bind fun absBlock => (Code.keeps_pure _).ite ?_
    refine Code.Keeps.bind (findLoop_keeps _ _ _) fun found => ?_
    cases found with
    | none => exact Code.keeps_pure _
    | some entry => exact (Code.keeps_pure _).ite (Kernel.hexafsObjectReadData_keeps _)
  · split
    · exact Code.keeps_pure _
    · exact Code.keeps_pure _

/-- The statics that hexafs_users_load leaves. -/
theorem mem_of_hexafsUsersLoad {result : Option (UInt32 × List UInt8)}
    (h : machine.run env hexafsUsersLoad = .ok (result, machine')) :
    machine'.mem = machine.mem := Machine.run_ensures (hexafsUsersLoad_keeps machine.mem) h

/-- load_users on bytes that it refuses. -/
theorem run_loadUsers_refused (hsize : bytes.length ≤ 832) (hrefused : ¬HoldsUsers bytes)
    (hread : machine.run env hexafsUsersLoad =
      .ok (some (UInt32.ofNat bytes.length, bytes), machine')) :
    machine.run env loadUsers = .ok ((), machine') := by
  have hlength : (UInt32.ofNat bytes.length).toNat = bytes.length :=
    UInt32.toNat_ofNat_of_lt' (by rw [UInt32.size]; omega)
  rw [holdsUsers_iff] at hrefused
  rw [loadUsers, Machine.run_bind, hread]
  show machine'.run env (if 832 < bytes.length then _ else _) = _
  rw [if_neg (not_lt.mpr hsize), hlength]
  by_cases hheader : bytes.length < 4
  · rw [if_pos hheader]
    exact rfl
  · rw [if_neg hheader, if_pos (by omega)]
    exact rfl

/-- load_users on bytes that it takes a table from. -/
theorem run_loadUsers_taken (hsize : bytes.length ≤ 832) (hholds : HoldsUsers bytes)
    (hread : machine.run env hexafsUsersLoad =
      .ok (some (UInt32.ofNat bytes.length, bytes), machine')) :
    machine.run env loadUsers = .ok ((), ⟨{ machine'.mem with
      uTable := fun i => if i < (ofBytes (α := UInt32) bytes).toNat then
        userOfBytes (bytes.drop (4 + i * 68)) else machine'.mem.uTable i
      uCount := (ofBytes (α := UInt32) bytes).toNat
      uCur := 0 }, machine'.dev⟩) := by
  have hlength : (UInt32.ofNat bytes.length).toNat = bytes.length :=
    UInt32.toNat_ofNat_of_lt' (by rw [UInt32.size]; omega)
  obtain ⟨hheader, hone, htwelve, hentries⟩ := holdsUsers_iff.mp hholds
  rw [loadUsers, Machine.run_bind, hread]
  show machine'.run env (if 832 < bytes.length then _ else _) = _
  rw [if_neg (not_lt.mpr hsize), hlength, if_neg (by omega), if_neg (by omega)]
  exact rfl

/-- The buffer of save_data with 1 to 12 users. -/
theorem holdsUsers_usersRaw (hone : 1 ≤ mem.uCount) (htwelve : mem.uCount ≤ 12) :
    HoldsUsers (usersRaw mem) ∧ (usersRaw mem).length ≤ 832 ∧
      (ofBytes (α := UInt32) (usersRaw mem)).toNat = mem.uCount := by
  have hlength := length_usersRaw mem
  have hcount : (ofBytes (α := UInt32) (usersRaw mem)).toNat = mem.uCount := by
    rw [ofBytes_usersRaw]
    exact UInt32.toNat_ofNat_of_lt' (by rw [UInt32.size]; omega)
  have hholds : HoldsUsers (usersRaw mem) := by
    rw [holdsUsers_iff, hcount, hlength]
    omega
  exact ⟨hholds, by omega, hcount⟩

end Loading

section RoundTrips

/-- A table of 1 to 12 users takes at most 832 bytes and is loaded from them again. Bytes that
load_users takes no table from leave the table, its count and the current user as they are. -/
theorem userTable_roundTrip :
    (∀ mem : Memory, 1 ≤ mem.uCount → mem.uCount ≤ 12 →
      (∀ i < mem.uCount, (mem.uTable i).isRoot.toNat ≤ 255) →
        (usersRaw mem).length ≤ 832 ∧ ∀ env (machine machine' : Machine),
          machine.run env hexafsUsersLoad =
              .ok (some (UInt32.ofNat (usersRaw mem).length, usersRaw mem), machine') →
            ∃ loaded, machine.run env loadUsers = .ok ((), loaded) ∧
              loaded.mem.uCount = mem.uCount ∧
              ∀ i < mem.uCount, loaded.mem.uTable i = mem.uTable i) ∧
    ∀ bytes : List UInt8, bytes.length ≤ 832 → ∀ env (machine machine' : Machine),
      machine.run env hexafsUsersLoad =
          .ok (some (UInt32.ofNat bytes.length, bytes), machine') →
        ∃ loaded, machine.run env loadUsers = .ok ((), loaded) ∧
          (HoldsUsers bytes → (loaded.mem.uCount : ℤ) = (userCount bytes).toInt) ∧
            (¬HoldsUsers bytes → userView loaded.mem = userView machine.mem) := by
  constructor
  · intro mem hone htwelve hroot
    obtain ⟨hholds, hsize, hcount⟩ := holdsUsers_usersRaw hone htwelve
    refine ⟨hsize, ?_⟩
    intro env machine machine' hread
    refine ⟨_, run_loadUsers_taken hsize hholds hread, hcount, ?_⟩
    intro i hi
    dsimp only
    rw [hcount, if_pos hi]
    exact userOfBytes_usersRaw hi (hroot i hi)
  · intro bytes hsize env machine machine' hread
    by_cases hholds : HoldsUsers bytes
    · refine ⟨_, run_loadUsers_taken hsize hholds hread, ?_, absurd hholds⟩
      intro _
      exact (userCount_toInt hholds).symm
    · refine ⟨_, run_loadUsers_refused hsize hholds hread, fun h => absurd h hholds, ?_⟩
      intro _
      rw [mem_of_hexafsUsersLoad hread]

/-- A table of one user. -/
def oneUser : Memory :=
  { Memory.boot with
    uTable := fun _ => ⟨Vector.replicate 32 98, Vector.replicate 32 0, 1⟩
    uCount := 1 }

/-- save_data for this user on a new store. -/
def saveOneUser : HexafsM Bool := do
  let _ ← hexafsMount
  Code.modify fun mem => { mem with uTable := oneUser.uTable, uCount := 1, diskOk := true }
  saveData

/-- Does hexafs_users_load hand out the bytes of this user? -/
def readsOneUser (saved : Bool) (machine : Machine) : Bool :=
  match machine.run .faultless hexafsUsersLoad with
  | .ok (some (size, bytes), _) => saved && (size == 72) && (bytes == usersRaw oneUser)
  | _ => false

/-- A user that is saved is loaded. -/
theorem userTable_roundTrip_oneUser : ∃ machine loaded,
    (Machine.boot blankDisk).run .faultless saveOneUser = .ok (true, machine) ∧
      machine.run .faultless loadUsers = .ok ((), loaded) ∧ loaded.mem.uCount = 1 ∧
        loaded.mem.uTable 0 = oneUser.uTable 0 := by
  have hsaved : testRun readsOneUser ((Machine.boot blankDisk).run .faultless saveOneUser) =
      true := by decide +kernel
  obtain ⟨saved, machine, hrun, htest⟩ := exists_of_testRun hsaved
  rw [readsOneUser] at htest
  split at htest
  · next size bytes machine' hread =>
    rw [Bool.and_eq_true, Bool.and_eq_true, beq_iff_eq, beq_iff_eq] at htest
    obtain ⟨⟨rfl, rfl⟩, rfl⟩ := htest
    have hlength : (72 : UInt32) = UInt32.ofNat (usersRaw oneUser).length := by
      rw [length_usersRaw]
      rfl
    rw [hlength] at hread
    obtain ⟨-, hload⟩ := userTable_roundTrip.1 oneUser le_rfl (by decide) fun i _ => by
      show (1 : UInt32).toNat ≤ 255
      decide
    obtain ⟨loaded, hrun', hcount, htable⟩ := hload _ machine machine' hread
    exact ⟨machine, loaded, hrun, hrun', hcount, htable 0 Nat.one_pos⟩
  · exact absurd htest Bool.false_ne_true

end RoundTrips

end HexaOS.Hexafs
