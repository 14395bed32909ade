import HexaOS.Passwords

/-!
# Who may enter and who may change a password

login, logout and diese read passwords that somebody types. Over any run of the shell, a
user gets to be u_cur only in a step in which a line was typed that check_pwd accepts for
this user, and a stored hash is replaced only when a line was typed that the hash accepts.
No account is lost, renamed or made root, and the names stay different.
-/

namespace HexaOS.Shell

open DevicePrograms PackedBytes Hexafs Kernel

section Guards

/-- The name of a user. -/
def userName (mem : Memory) (i : ℕ) : CString := CString.ofBytes (mem.uTable i).name.toList

/-- The table has room for its users, and they have different names. -/
structure AccountsSound (mem : Memory) : Prop where
  /-- There are at most 12 users. -/
  room : mem.uCount ≤ maxUsers
  /-- No two users have the same name. -/
  distinct : ∀ i < mem.uCount, ∀ j < mem.uCount, userName mem i = userName mem j → i = j

/-- Among the lines is one that the hash of the user accepts. -/
def Opened (shell : ShellMemory) (lines : List CString) (i : ℕ) : Prop :=
  ∃ line ∈ lines, Accepted (takeChars 31 line) i shell

/-- The accounts are as they were at first but for new ones without rights and for the
hashes of users that were opened. -/
structure AccountsKept (opened : ℕ → Prop) (first shell : ShellMemory) : Prop where
  /-- No account is lost. -/
  count : first.kernel.store.uCount ≤ shell.kernel.store.uCount
  /-- An account keeps its name and its right. -/
  kept : ∀ i < first.kernel.store.uCount,
    (shell.kernel.store.uTable i).name = (first.kernel.store.uTable i).name ∧
      (shell.kernel.store.uTable i).isRoot = (first.kernel.store.uTable i).isRoot
  /-- A new account has no root right. -/
  added : ∀ i, first.kernel.store.uCount ≤ i → i < shell.kernel.store.uCount →
    (shell.kernel.store.uTable i).isRoot = 0
  /-- A hash is replaced only behind an accepted password. -/
  hashes : ∀ i < first.kernel.store.uCount,
    (shell.kernel.store.uTable i).passHash = (first.kernel.store.uTable i).passHash ∨ opened i
  /-- Names stay different, and the table stays in its bounds. -/
  sound : AccountsSound first.kernel.store → AccountsSound shell.kernel.store

/-- From the first state these lines were taken, and who gave no password has the same hash. -/
structure Guarded (first : ShellMemory) (lines : List CString) (shell : ShellMemory) : Prop where
  /-- The typed lines are read in order. -/
  typed : first.typed = lines ++ shell.typed
  /-- The accounts are kept. -/
  keeps : AccountsKept (Opened first lines) first shell

/-- The table of users and their number. -/
def accounts (mem : Memory) : (ℕ → UserEntry) × ℕ := (mem.uTable, mem.uCount)

instance ignoresStore_accounts : IgnoresStore accounts where
  allocator _ _ := rfl
  sbCache _ _ := rfl
  currentTx _ _ := rfl
  txGen _ _ := rfl

variable {first mid last shell after : ShellMemory} {lines more : List CString} {i : ℕ}
variable {mem mem' : Memory} {pass line : CString}

theorem Opened.mono (h : Opened shell lines i) (hsub : ∀ line ∈ lines, line ∈ more) :
    Opened shell more i := by
  obtain ⟨line, hline, haccepted⟩ := h
  exact ⟨line, hsub line hline, haccepted⟩

/-- What is accepted depends on the stored hash alone. -/
theorem Opened.of_hash (h : Opened shell lines i)
    (hhash : (after.kernel.store.uTable i).passHash = (shell.kernel.store.uTable i).passHash) :
    Opened after lines i := by
  obtain ⟨line, hline, haccepted⟩ := h
  refine ⟨line, hline, ?_⟩
  rw [Accepted, hhash]
  exact haccepted

theorem AccountsSound.of_accounts (h : AccountsSound mem) (hsame : accounts mem' = accounts mem) :
    AccountsSound mem' := by
  simp only [accounts, Prod.mk.injEq] at hsame
  obtain ⟨htable, hcount⟩ := hsame
  have hnames : ∀ i, userName mem' i = userName mem i := fun i => by rw [userName, htable, userName]
  refine ⟨hcount ▸ h.room, fun i hi j hj hname => ?_⟩
  rw [hcount] at hi hj
  rw [hnames, hnames] at hname
  exact h.distinct i hi j hj hname

variable {opened opened' opened'' : ℕ → Prop}

theorem AccountsKept.refl (opened : ℕ → Prop) (shell : ShellMemory) :
    AccountsKept opened shell shell where
  count := le_rfl
  kept _ _ := ⟨rfl, rfl⟩
  added _ hle hlt := absurd hlt (Nat.not_lt.mpr hle)
  hashes _ _ := .inl rfl
  sound := id

/-- Who opens a hash that is still the first one opens the first one. -/
theorem AccountsKept.trans (h : AccountsKept opened first mid)
    (hnext : AccountsKept opened' mid last) (hbefore : ∀ i, opened i → opened'' i)
    (hbehind : ∀ i, (mid.kernel.store.uTable i).passHash = (first.kernel.store.uTable i).passHash →
      opened' i → opened'' i) : AccountsKept opened'' first last where
  count := h.count.trans hnext.count
  kept i hi := by
    obtain ⟨hname, hroot⟩ := h.kept i hi
    obtain ⟨hname', hroot'⟩ := hnext.kept i (hi.trans_le h.count)
    exact ⟨hname'.trans hname, hroot'.trans hroot⟩
  added i hle hlt := by
    by_cases hmid : i < mid.kernel.store.uCount
    · rw [(hnext.kept i hmid).2]
      exact h.added i hle hmid
    · exact hnext.added i (Nat.le_of_not_lt hmid) hlt
  hashes i hi := by
    rcases h.hashes i hi with hsame | hopened
    · rcases hnext.hashes i (hi.trans_le h.count) with hsame' | hopened
      · exact .inl (hsame'.trans hsame)
      · exact .inr (hbehind i hsame hopened)
    · exact .inr (hbefore i hopened)
  sound hfirst := hnext.sound (h.sound hfirst)

theorem AccountsKept.mono (h : AccountsKept opened first shell) (himp : ∀ i, opened i → opened' i) :
    AccountsKept opened' first shell :=
  h.trans (AccountsKept.refl opened shell) himp fun i _ hopened => himp i hopened

theorem AccountsKept.of_accounts (h : AccountsKept opened first shell)
    (hsame : accounts after.kernel.store = accounts shell.kernel.store) :
    AccountsKept opened first after := by
  have hsound := fun hfirst => (h.sound hfirst).of_accounts hsame
  simp only [accounts, Prod.mk.injEq] at hsame
  obtain ⟨htable, hcount⟩ := hsame
  obtain ⟨hle, hkept, hadded, hhashes, -⟩ := h
  rw [← hcount] at hle hadded
  rw [← htable] at hkept hadded hhashes
  exact ⟨hle, hkept, hadded, hhashes, hsound⟩

/-- A user gets another password, after the right one was typed. -/
theorem AccountsKept.withPassword (h : AccountsKept opened first shell) (pass : CString)
    (hopened : i < first.kernel.store.uCount → opened i) :
    AccountsKept opened first (shell.withPassword i pass) := by
  have hothers : ∀ j, ((shell.withPassword i pass).kernel.store.uTable j).name =
      (shell.kernel.store.uTable j).name ∧
        ((shell.withPassword i pass).kernel.store.uTable j).isRoot =
          (shell.kernel.store.uTable j).isRoot := by
    intro j
    rw [ShellMemory.withPassword]
    dsimp only
    by_cases hj : j = i
    · rw [hj, Function.update_self]
      exact ⟨rfl, rfl⟩
    · rw [Function.update_of_ne hj]
      exact ⟨rfl, rfl⟩
  refine ⟨h.count, fun j hj => ?_, fun j hle hlt => ?_, fun j hj => ?_, fun hfirst => ?_⟩
  · rw [(hothers j).1, (hothers j).2]
    exact h.kept j hj
  · rw [(hothers j).2]
    exact h.added j hle hlt
  · by_cases hji : j = i
    · subst hji
      exact .inr (hopened hj)
    · have hother : (shell.withPassword i pass).kernel.store.uTable j =
          shell.kernel.store.uTable j := Function.update_of_ne hji _ _
      rw [hother]
      exact h.hashes j hj
  · have hsound := h.sound hfirst
    refine ⟨hsound.room, fun j hj k hk hsame => hsound.distinct j hj k hk ?_⟩
    rw [userName, userName, (hothers j).1, (hothers k).1] at hsame
    exact hsame

/-- An account with a new name behind the others. -/
theorem AccountsKept.extend (h : AccountsKept opened first shell)
    (hcount : after.kernel.store.uCount = shell.kernel.store.uCount + 1)
    (hold : ∀ j < shell.kernel.store.uCount,
      after.kernel.store.uTable j = shell.kernel.store.uTable j)
    (hroot : (after.kernel.store.uTable shell.kernel.store.uCount).isRoot = 0)
    (hroom : shell.kernel.store.uCount < maxUsers)
    (hnew : ∀ i < shell.kernel.store.uCount, userName shell.kernel.store i ≠
      userName after.kernel.store shell.kernel.store.uCount) :
    AccountsKept opened first after := by
  have hnames : ∀ j < shell.kernel.store.uCount,
      userName after.kernel.store j = userName shell.kernel.store j :=
    fun j hj => by rw [userName, hold j hj, userName]
  refine ⟨?_, fun j hj => ?_, fun j hle hlt => ?_, fun j hj => ?_,
    fun hfirst => ⟨by rw [hcount]; exact hroom, fun j hj k hk hsame => ?_⟩⟩
  · rw [hcount]
    exact h.count.trans (Nat.le_succ _)
  · rw [hold j (hj.trans_le h.count)]
    exact h.kept j hj
  · rw [hcount] at hlt
    rcases Nat.lt_succ_iff_lt_or_eq.mp hlt with hlt | rfl
    · rw [hold j hlt]
      exact h.added j hle hlt
    · exact hroot
  · rw [hold j (hj.trans_le h.count)]
    exact h.hashes j hj
  · rw [hcount] at hj hk
    rcases Nat.lt_succ_iff_lt_or_eq.mp hj with hj | rfl
    · rcases Nat.lt_succ_iff_lt_or_eq.mp hk with hk | rfl
      · rw [hnames j hj, hnames k hk] at hsame
        exact (h.sound hfirst).distinct j hj k hk hsame
      · rw [hnames j hj] at hsame
        exact (hnew j hj hsame).elim
    · rcases Nat.lt_succ_iff_lt_or_eq.mp hk with hk | rfl
      · rw [hnames k hk] at hsame
        exact (hnew k hk hsame.symm).elim
      · rfl

theorem Guarded.refl (shell : ShellMemory) : Guarded shell [] shell :=
  ⟨rfl, AccountsKept.refl _ shell⟩

theorem Guarded.trans (h : Guarded first lines mid) (hnext : Guarded mid more last) :
    Guarded first (lines ++ more) last := by
  refine ⟨by rw [h.typed, hnext.typed, List.append_assoc], h.keeps.trans hnext.keeps
    (fun i hopened => ?_) fun i hsame hopened => ?_⟩
  · exact hopened.mono fun line hline => List.mem_append_left more hline
  · have hfirst : Opened first more i := hopened.of_hash hsame.symm
    exact hfirst.mono fun line hline => List.mem_append_right lines hline

/-- The same accounts, and nothing more was typed. -/
theorem Guarded.of_accounts (h : Guarded first lines shell)
    (hsame : accounts after.kernel.store = accounts shell.kernel.store)
    (htyped : after.typed = shell.typed) : Guarded first lines after :=
  ⟨by rw [htyped]; exact h.typed, h.keeps.of_accounts hsame⟩

/-- A line is taken. -/
theorem Guarded.take {rest : List CString} (h : Guarded first lines shell)
    (htyped : shell.typed = line :: rest) :
    Guarded first (lines ++ [line]) { shell with typed := rest } := by
  have hsame : AccountsKept (Opened first lines) first { shell with typed := rest } :=
    h.keeps.of_accounts rfl
  refine ⟨by rw [h.typed, htyped, List.append_assoc, List.singleton_append], hsame.mono ?_⟩
  exact fun i hopened => hopened.mono fun line hline => List.mem_append_left _ hline

theorem Guarded.withPassword (h : Guarded first lines shell) (pass : CString)
    (hopened : Opened first lines i) : Guarded first lines (shell.withPassword i pass) :=
  ⟨h.typed, h.keeps.withPassword pass fun _ => hopened⟩

end Guards

section Searches

variable {mem : Memory} {name pass : CString} {i : ℕ}

theorem sameName_eq {field : Vector UInt8 32} {same : Bool} (h : sameName field name = .ok same) :
    same = (CString.ofBytes field.toList == name) := by
  rw [sameName] at h
  split at h
  · cases h
  · exact (Except.ok.inj h).symm

/-- No user has the name that was not found. -/
theorem findUser_none {indices : List ℕ} (h : findUser mem name indices = .ok none) :
    ∀ i ∈ indices, userName mem i ≠ name := by
  induction indices with
  | nil => exact List.forall_mem_nil _
  | cons j rest ih =>
    cases hsame : sameName (mem.uTable j).name name with
    | error stop =>
      rw [findUser, hsame] at h
      cases h
    | ok same =>
      have hbind : findUser mem name (j :: rest) =
          if same then .ok (some j) else findUser mem name rest := by
        rw [findUser, hsame]
        rfl
      rw [hbind] at h
      split at h
      · cases h
      · rename_i hother
        refine List.forall_mem_cons.mpr ⟨fun hname => hother ?_, ih h⟩
        rw [sameName_eq hsame]
        exact beq_iff_eq.mpr hname

/-- do_login finds a user whose hash accepts the password. -/
theorem findLogin_some {indices : List ℕ} (h : findLogin mem name pass indices = .ok (some i)) :
    i ∈ indices ∧ checkPwd pass (mem.uTable i).passHash = .ok true := by
  induction indices with
  | nil => cases h
  | cons j rest ih =>
    have hrest : findLogin mem name pass rest = .ok (some i) →
        i ∈ j :: rest ∧ checkPwd pass (mem.uTable i).passHash = .ok true := by
      intro hfound
      exact ⟨List.mem_cons_of_mem j (ih hfound).1, (ih hfound).2⟩
    cases hsame : sameName (mem.uTable j).name name with
    | error stop =>
      rw [findLogin, hsame] at h
      cases h
    | ok same =>
      cases same with
      | false =>
        have hnext : findLogin mem name pass (j :: rest) = findLogin mem name pass rest := by
          rw [findLogin, hsame]
          rfl
        exact hrest (hnext ▸ h)
      | true =>
        have hnext : findLogin mem name pass (j :: rest) =
            (checkPwd pass (mem.uTable j).passHash).bind fun right =>
              if right then .ok (some j) else findLogin mem name pass rest := by
          rw [findLogin, hsame]
          rfl
        rw [hnext] at h
        cases hright : checkPwd pass (mem.uTable j).passHash with
        | error stop =>
          rw [hright] at h
          cases h
        | ok right =>
          rw [hright] at h
          have hbranch : (if right then .ok (some j) else findLogin mem name pass rest :
              Except Stop (Option ℕ)) = .ok (some i) := h
          cases right with
          | false => exact hrest hbranch
          | true =>
            obtain rfl : j = i := Option.some.inj (Except.ok.inj hbranch)
            exact ⟨List.mem_cons_self, hright⟩

end Searches

section Commands

variable {α β : Type} {first shell after : ShellMemory} {lines : List CString} {i : ℕ}
variable {pass name args : CString} {others nested : Command}

/-- Code that only takes lines and guards the accounts. -/
def Guards (code : ShellM α) : Prop :=
  ∀ shell, code.Ensures shell fun _ after => ∃ lines, Guarded shell lines after

/-- Code behind which the current user is the same, or has given a password. -/
def GuardsEntry (code : ShellM α) : Prop :=
  ∀ shell, code.Ensures shell fun _ after => ∃ lines, Guarded shell lines after ∧
    (after.kernel.store.uCur = shell.kernel.store.uCur ∨
      Opened after lines after.kernel.store.uCur)

/-- The accounts and what is going to be typed. -/
def typedAccounts (shell : ShellMemory) : ((ℕ → UserEntry) × ℕ) × List CString :=
  (accounts shell.kernel.store, shell.typed)

/-- The current user. -/
def currentUser (shell : ShellMemory) : ℕ := shell.kernel.store.uCur

theorem Guarded.of_typedAccounts (h : Guarded first lines shell)
    (hsame : typedAccounts after = typedAccounts shell) : Guarded first lines after := by
  simp only [typedAccounts, Prod.mk.injEq] at hsame
  exact h.of_accounts hsame.1 hsame.2

theorem guards_of_keeps {code : ShellM α} (h : code.Keeps typedAccounts) : Guards code :=
  fun shell => (h shell).mono fun _ _ hsame => ⟨[], (Guarded.refl shell).of_typedAccounts hsame⟩

theorem Guards.bind {code : ShellM α} {rest : α → ShellM β} (h : Guards code)
    (hrest : ∀ value, Guards (rest value)) : Guards (code >>= rest) := by
  intro shell
  rw [Code.ensures_bind]
  refine (h shell).mono fun value mid hmid => ?_
  obtain ⟨lines, hguarded⟩ := hmid
  refine (hrest value mid).mono fun _ after hafter => ?_
  obtain ⟨more, hnext⟩ := hafter
  exact ⟨lines ++ more, hguarded.trans hnext⟩

theorem GuardsEntry.guards {code : ShellM α} (h : GuardsEntry code) : Guards code := by
  intro shell
  refine (h shell).mono fun _ after hafter => ?_
  obtain ⟨lines, hguarded, -⟩ := hafter
  exact ⟨lines, hguarded⟩

/-- Code that leaves the current user alone. -/
theorem Guards.entry {code : ShellM α} (h : Guards code) (hkeeps : code.Keeps currentUser) :
    GuardsEntry code := by
  intro shell
  refine ((h shell).and (hkeeps shell)).mono fun _ after hboth => ?_
  obtain ⟨⟨lines, hguarded⟩, hsame⟩ := hboth
  exact ⟨lines, hguarded, .inl hsame⟩

theorem onKernel_keepsTyped {code : KernelM α}
    (h : code.Keeps fun kernel => accounts kernel.store) :
    (onKernel code).Keeps typedAccounts := by
  intro shell
  have hleaves : (code shell.kernel).Ensures fun result =>
      accounts result.2.store = accounts shell.kernel.store := h shell.kernel
  refine (Program.ensures_bind _ _).mpr (hleaves.mono fun result hkept => ?_)
  have htyped : typedAccounts { shell with kernel := result.2 } =
      (accounts result.2.store, shell.typed) := rfl
  have hgoal : typedAccounts { shell with kernel := result.2 } = typedAccounts shell := by
    rw [htyped, hkept]
    rfl
  exact hgoal

theorem onMemory_guards {code : HexafsM α} (h : code.Keeps accounts) : Guards (onMemory code) :=
  guards_of_keeps (onKernel_keepsTyped (onStore_keepsView h))

theorem pure_guards (value : α) : Guards (pure value) := guards_of_keeps (Code.keeps_pure value)

theorem memory_guards : Guards memory :=
  guards_of_keeps (Code.keeps_memory.bind fun _ => Code.keeps_pure _)

theorem liftStop_guards (result : Except Stop α) : Guards (onMemory (liftStop result)) :=
  onMemory_guards (liftStop_keeps result)

theorem saveForms_keepsAccounts : saveForms.Keeps fun kernel => accounts kernel.store := by
  refine Code.keeps_memory.bind fun kernel => ?_
  refine Code.Keeps.ite (Code.Keeps.ite ?_ (Code.keeps_halt _)) (Code.keeps_pure _)
  refine Code.Keeps.bind (Code.keeps_modify fun _ => rfl) fun _ => ?_
  exact (onStore_keepsView saveData_keeps).bind fun _ => Code.keeps_pure _

theorem saveShell_keepsTyped : saveShell.Keeps typedAccounts :=
  onKernel_keepsTyped saveForms_keepsAccounts

theorem saveShell_guards : Guards saveShell := guards_of_keeps saveShell_keepsTyped

/-- save_data leaves the current user. -/
instance ignoresStore_uCur : IgnoresStore Memory.uCur where
  allocator _ _ := rfl
  sbCache _ _ := rfl
  currentTx _ _ := rfl
  txGen _ _ := rfl

theorem saveShell_keepsUser : saveShell.Keeps currentUser :=
  @saveShell_keepsView _ Memory.uCur _ fun _ _ => rfl

/-- Reading a line. -/
theorem getLine_ensures {maxLen : ℕ} {post : CString → ShellMemory → Prop}
    (h : ∀ line rest, shell.typed = line :: rest →
      post (takeChars (maxLen - 1) line) { shell with typed := rest }) :
    (getLine maxLen).Ensures shell post := by
  rw [getLine, Code.ensures_bind, Code.ensures_memory]
  cases htyped : shell.typed with
  | nil => exact trivial
  | cons line rest => exact h line rest htyped

/-- A search that returned. -/
theorem liftStop_ensures {result : Except Stop α} {post : α → ShellMemory → Prop}
    (h : ∀ value, result = .ok value → post value shell) :
    (onMemory (liftStop result)).Ensures shell post := by
  cases result with
  | error stop => exact trivial
  | ok value => exact h value rfl

theorem memory_ensures {post : Memory → ShellMemory → Prop} :
    memory.Ensures shell post ↔ post shell.kernel.store shell := Iff.rfl

theorem setPassword_ensures {post : Unit → ShellMemory → Prop} :
    (setPassword i pass).Ensures shell post ↔ post () (shell.withPassword i pass) := Iff.rfl

/-- The statics with another entry of a user. -/
def ShellMemory.withEntry (shell : ShellMemory) (i : ℕ) (user : UserEntry) : ShellMemory :=
  { shell with kernel := { shell.kernel with store := { shell.kernel.store with
    uTable := Function.update shell.kernel.store.uTable i user } } }

theorem modifyUser_ensures {update : UserEntry → UserEntry} {post : Unit → ShellMemory → Prop} :
    (modifyUser i update).Ensures shell post ↔
      post () (shell.withEntry i (update (shell.kernel.store.uTable i))) := Iff.rfl

/-- A new account, when its name is new and there is room. -/
theorem addUser_guarded (h : Guarded first lines shell)
    (hroom : shell.kernel.store.uCount < maxUsers)
    (hnew : ∀ i < shell.kernel.store.uCount, userName shell.kernel.store i ≠ name) :
    (addUser name pass).Ensures shell fun _ after => Guarded first lines after := by
  rw [addUser, Code.ensures_bind, memory_ensures]
  split
  · exact trivial
  rename_i hlength
  have hlength : name.chars.length < 32 := Nat.lt_of_not_le hlength
  rw [Code.ensures_bind, modifyUser_ensures, Code.ensures_bind, setPassword_ensures,
    Code.ensures_bind, modifyUser_ensures, Code.ensures_bind]
  refine onMemory_ensures ((Code.ensures_modify _ _).mpr ?_)
  refine (saveShell_keepsTyped _).mono fun _ after hsame => ?_
  refine Guarded.of_typedAccounts ?_ hsame
  refine ⟨h.typed, h.keeps.extend rfl (fun j hj => ?_) ?_ hroom ?_⟩
  · simp only [ShellMemory.withEntry, ShellMemory.withPassword, Function.update_of_ne hj.ne]
  · simp only [ShellMemory.withEntry, Function.update_self]
  · intro j hj
    simp only [userName, ShellMemory.withEntry, ShellMemory.withPassword, Function.update_self]
    rw [ofBytes_storeAt _ hlength]
    exact hnew j hj

theorem onMemory_keepsUser {code : HexafsM α} (h : code.Keeps Memory.uCur) :
    (onMemory code).Keeps currentUser := onKernel_keepsView (onStore_keepsView h)

theorem memory_keepsUser : memory.Keeps currentUser :=
  Code.keeps_memory.bind fun _ => Code.keeps_pure _

theorem liftStop_keepsUser (result : Except Stop α) :
    (onMemory (liftStop result)).Keeps currentUser := onMemory_keepsUser (liftStop_keeps result)

theorem getLine_keepsUser (maxLen : ℕ) : (getLine maxLen).Keeps currentUser :=
  fun _ => getLine_ensures fun _ _ _ => rfl

theorem modifyUser_keepsUser (i : ℕ) (update : UserEntry → UserEntry) :
    (modifyUser i update).Keeps currentUser := fun _ => rfl

theorem setPassword_keepsUser (i : ℕ) (pass : CString) :
    (setPassword i pass).Keeps currentUser := fun _ => rfl

theorem addUser_keepsUser (name pass : CString) : (addUser name pass).Keeps currentUser := by
  refine memory_keepsUser.bind fun mem => (Code.keeps_halt _).ite ?_
  refine (modifyUser_keepsUser _ _).bind fun _ => (setPassword_keepsUser _ _).bind fun _ => ?_
  refine (modifyUser_keepsUser _ _).bind fun _ => Code.Keeps.bind ?_ fun _ => saveShell_keepsUser
  exact onMemory_keepsUser (Code.keeps_modify fun _ => rfl)

theorem cmdUseradd_keepsUser (name : CString) : (cmdUseradd name).Keeps currentUser := by
  refine memory_keepsUser.bind fun mem => (Code.keeps_pure _).ite ((Code.keeps_pure _).ite ?_)
  refine (Code.keeps_pure _).ite ((liftStop_keepsUser _).bind fun found => ?_)
  cases found with
  | some i => exact Code.keeps_pure _
  | none => exact (getLine_keepsUser _).bind fun pass => addUser_keepsUser name pass

theorem cmdPasswd_keepsUser : cmdPasswd.Keeps currentUser := by
  refine (getLine_keepsUser _).bind fun old => memory_keepsUser.bind fun mem => ?_
  refine (liftStop_keepsUser _).bind fun right => Code.Keeps.ite ?_ (Code.keeps_pure _)
  refine (getLine_keepsUser _).bind fun new => ?_
  exact (setPassword_keepsUser _ _).bind fun _ => saveShell_keepsUser

/-- The dialogue that makes a user, behind its name. -/
theorem nameTaken_guards (mem : Memory) (h : Guarded first lines shell)
    (hmem : shell.kernel.store = mem) (hroom : ¬maxUsers ≤ mem.uCount)
    (htaken : findUser mem name (List.range mem.uCount) = .ok none) :
    (getLine nameMax >>= fun pass => addUser name pass).Ensures shell fun _ after =>
      ∃ lines, Guarded first lines after := by
  subst hmem
  rw [Code.ensures_bind]
  refine getLine_ensures fun line rest htyped => ?_
  have hnew := findUser_none htaken
  refine (addUser_guarded (h.take htyped) (Nat.lt_of_not_le hroom) fun i hi => ?_).mono
    fun _ after hafter => ⟨_, hafter⟩
  exact hnew i (List.mem_range.mpr hi)

theorem newUser_guards : Guards newUser := by
  intro shell
  rw [newUser, Code.ensures_bind, memory_ensures]
  split
  · exact ⟨[], Guarded.refl shell⟩
  rename_i hroom
  rw [Code.ensures_bind]
  refine getLine_ensures fun line rest htyped => ?_
  have hguarded := (Guarded.refl shell).take htyped
  split
  · exact ⟨_, hguarded⟩
  rw [Code.ensures_bind]
  refine liftStop_ensures fun found hfound => ?_
  cases found with
  | some i => exact ⟨_, hguarded⟩
  | none => exact nameTaken_guards _ hguarded rfl hroom hfound

theorem cmdUseradd_guards (name : CString) : Guards (cmdUseradd name) := by
  intro shell
  rw [cmdUseradd, Code.ensures_bind, memory_ensures]
  split
  · exact ⟨[], Guarded.refl shell⟩
  split
  · exact ⟨[], Guarded.refl shell⟩
  split
  · exact ⟨[], Guarded.refl shell⟩
  rename_i hroom
  rw [Code.ensures_bind]
  refine liftStop_ensures fun found hfound => ?_
  cases found with
  | some i => exact ⟨[], Guarded.refl shell⟩
  | none => exact nameTaken_guards _ (Guarded.refl shell) rfl hroom hfound

/-- The loop of do_login ends with a password of the user that it enters. -/
theorem loginLoop_entered (fuel : ℕ) (shell : ShellMemory) :
    (loginLoop fuel).Ensures shell fun _ after => ∃ lines, Guarded shell lines after ∧
      Opened after lines after.kernel.store.uCur := by
  induction fuel generalizing shell with
  | zero => exact trivial
  | succ fuel ih =>
    rw [loginLoop, Code.ensures_bind]
    refine getLine_ensures fun line rest htyped => ?_
    have hname := (Guarded.refl shell).take htyped
    split
    · rw [Code.ensures_bind]
      refine (newUser_guards _).mono fun _ mid hmid => ?_
      obtain ⟨lines, hguarded⟩ := hmid
      refine (ih mid).mono fun _ after hafter => ?_
      obtain ⟨more, hnext, hopened⟩ := hafter
      refine ⟨_, (hname.trans hguarded).trans hnext, ?_⟩
      exact hopened.mono fun line hline => List.mem_append_right _ hline
    · rw [Code.ensures_bind]
      refine getLine_ensures fun pass rest' htyped' => ?_
      have hpass := hname.take htyped'
      rw [Code.ensures_bind, memory_ensures, Code.ensures_bind]
      refine liftStop_ensures fun found hfound => ?_
      cases found with
      | none =>
        refine (ih _).mono fun _ after hafter => ?_
        obtain ⟨more, hnext, hopened⟩ := hafter
        refine ⟨_, hpass.trans hnext, ?_⟩
        exact hopened.mono fun line hline => List.mem_append_right _ hline
      | some i =>
        obtain ⟨-, haccepted⟩ := findLogin_some hfound
        refine ⟨_, hpass.of_accounts rfl rfl, pass, ?_, haccepted⟩
        exact List.mem_append_right _ List.mem_cons_self

theorem doLogin_entered : GuardsEntry doLogin := by
  intro shell
  rw [doLogin, Code.ensures_bind, Code.ensures_memory]
  refine (loginLoop_entered _ shell).mono fun _ after hafter => ?_
  obtain ⟨lines, hguarded, hopened⟩ := hafter
  exact ⟨lines, hguarded, .inr hopened⟩

/-- cmd_passwd asks for the password that it replaces. -/
theorem cmdPasswd_guards : Guards cmdPasswd := by
  intro shell
  rw [cmdPasswd, Code.ensures_bind]
  refine getLine_ensures fun old rest htyped => ?_
  have hold := (Guarded.refl shell).take htyped
  rw [Code.ensures_bind, memory_ensures, Code.ensures_bind]
  refine liftStop_ensures fun right hright => ?_
  cases right with
  | false => exact ⟨_, hold⟩
  | true =>
    rw [if_pos rfl, Code.ensures_bind]
    refine getLine_ensures fun new rest' htyped' => ?_
    have hnew := hold.take htyped'
    have hopened : Opened shell ([] ++ [old] ++ [new]) shell.kernel.store.uCur :=
      ⟨old, List.mem_append_left _ List.mem_cons_self, hright⟩
    rw [Code.ensures_bind, setPassword_ensures]
    refine (saveShell_keepsTyped _).mono fun _ after hsame => ?_
    have hlast : Guarded shell ([] ++ [old] ++ [new]) after :=
      (hnew.withPassword _ hopened).of_typedAccounts hsame
    exact ⟨_, hlast⟩

/-- A password that was accepted is stored again, or is not. -/
theorem migrate_guarded (h : Guarded first lines shell)
    (hopened : Opened first lines i) (haccepted : Accepted pass i shell) :
    (migrate i pass).Ensures shell fun _ after =>
      Guarded first lines after ∧ Accepted pass i after ∧ currentUser after = currentUser shell := by
  have hmemory : (migrate i pass).Ensures shell = (if (shell.kernel.store.uTable i).passHash.get
      ⟨2, mark_lt⟩ = space then (do
        setPassword i pass
        saveShell) else pure () : ShellM Unit).Ensures shell := rfl
  rw [hmemory]
  split
  · rw [Code.ensures_bind, setPassword_ensures]
    have hboth := (saveShell_keepsTyped (shell.withPassword i pass)).and
      ((saveShell_keepsUser (shell.withPassword i pass)).and (saveShell_accepted shell i pass))
    refine hboth.mono fun _ after hafter => ?_
    obtain ⟨hsame, huser, hlast⟩ := hafter
    exact ⟨(h.withPassword pass hopened).of_typedAccounts hsame, hlast, huser⟩
  · exact ⟨h, haccepted, rfl⟩

/-- cmd_login -/
theorem cmdLogin_entered (args : CString) : GuardsEntry (cmdLogin args) := by
  intro shell
  rw [cmdLogin]
  split
  · exact doLogin_entered shell
  rw [Code.ensures_bind, memory_ensures, Code.ensures_bind]
  refine liftStop_ensures fun found hfound => ?_
  cases found with
  | none => exact ⟨[], Guarded.refl shell, .inl rfl⟩
  | some i =>
    rw [Code.ensures_bind]
    refine getLine_ensures fun pass rest htyped => ?_
    have hpass := (Guarded.refl shell).take htyped
    rw [Code.ensures_bind]
    refine liftStop_ensures fun right hright => ?_
    cases right with
    | false => exact ⟨_, hpass, .inl rfl⟩
    | true =>
      rw [if_pos rfl, Code.ensures_bind, setUser_ensures]
      have hguarded : Guarded shell ([] ++ [pass])
          (({ shell with typed := rest } : ShellMemory).withUser i) := hpass.of_accounts rfl rfl
      have hopened : Opened shell ([] ++ [pass]) i := ⟨pass, List.mem_cons_self, hright⟩
      refine (migrate_guarded hguarded hopened hright).mono fun _ after hafter => ?_
      obtain ⟨hlast, haccepted, huser⟩ := hafter
      refine ⟨_, hlast, .inr ⟨pass, List.mem_cons_self, ?_⟩⟩
      have hcurrent : after.kernel.store.uCur = i := huser
      rw [hcurrent]
      exact haccepted

theorem diesePassword_guards : Guards diesePassword := by
  intro shell
  rw [diesePassword, Code.ensures_bind]
  refine getLine_ensures fun pass rest htyped => ?_
  have hpass := (Guarded.refl shell).take htyped
  rw [Code.ensures_bind, memory_ensures, Code.ensures_bind]
  refine liftStop_ensures fun right hright => ?_
  cases right with
  | false => exact ⟨_, hpass⟩
  | true =>
    rw [if_pos rfl, Code.ensures_bind]
    have hopened : Opened shell ([] ++ [pass]) shell.kernel.store.uCur :=
      ⟨pass, List.mem_cons_self, hright⟩
    refine (migrate_guarded hpass hopened hright).mono fun _ after hafter => ?_
    exact ⟨_, hafter.1⟩

theorem setUser_guards (i : ℕ) : Guards (setUser i) :=
  fun shell => ⟨[], (Guarded.refl shell).of_accounts rfl rfl⟩

theorem Guards.ite {condition : Prop} [Decidable condition] {code other : ShellM α}
    (h : Guards code) (hother : Guards other) : Guards (if condition then code else other) := by
  split
  · exact h
  · exact hother

theorem migrate_keepsUser (i : ℕ) (pass : CString) : (migrate i pass).Keeps currentUser := by
  refine memory_keepsUser.bind fun mem => Code.Keeps.ite ?_ (Code.keeps_pure _)
  exact (setPassword_keepsUser _ _).bind fun _ => saveShell_keepsUser

theorem diesePassword_keepsUser : diesePassword.Keeps currentUser := by
  refine (getLine_keepsUser _).bind fun pass => memory_keepsUser.bind fun mem => ?_
  refine (liftStop_keepsUser _).bind fun right => Code.Keeps.ite ?_ (Code.keeps_pure _)
  exact (migrate_keepsUser _ _).bind fun _ => Code.keeps_pure _

/-- diese sets the user back, whatever the command behind it does. -/
theorem cmdDiese_keepsUser (nested : Command) (args : CString) :
    (cmdDiese nested args).Keeps currentUser := by
  intro shell
  rw [cmdDiese, Code.ensures_bind, memory_ensures]
  split
  · rfl
  split
  · rfl
  rw [Code.ensures_bind]
  refine liftStop_ensures fun uname _ => ?_
  have hgranted : (dieseGranted shell.kernel.store uname).Keeps currentUser :=
    Code.Keeps.ite (Code.keeps_pure _) diesePassword_keepsUser
  refine hgranted.ensures_bind fun granted mid hmid => ?_
  split
  · rw [Code.ensures_bind, setUser_ensures]
    exact Code.ensures_bind_of_forall _ fun _ last => rfl
  · exact hmid

/-- diese runs its command as root, and then the user is the current one again. -/
theorem cmdDiese_entered (hnested : ∀ cmd args, Guards (nested cmd args)) (args : CString) :
    GuardsEntry (cmdDiese nested args) := by
  refine Guards.entry ?_ fun shell => ?_
  · refine memory_guards.bind fun mem => (pure_guards ()).ite ((pure_guards ()).ite ?_)
    refine (liftStop_guards _).bind fun uname => ?_
    refine Guards.bind ((pure_guards _).ite diesePassword_guards) fun granted => ?_
    refine Guards.ite ?_ (pure_guards ())
    exact (setUser_guards 0).bind fun _ => (hnested _ _).bind fun _ => setUser_guards _
  · exact cmdDiese_keepsUser nested args shell

/-- The accounts, the current user and what is going to be typed. -/
def accountView (shell : ShellMemory) : (((ℕ → UserEntry) × ℕ) × List CString) × ℕ :=
  (typedAccounts shell, currentUser shell)

theorem onMemory_keepsView {code : HexafsM α} (h : code.Keeps accounts)
    (huser : code.Keeps Memory.uCur) : (onMemory code).Keeps accountView :=
  Code.Keeps.pair (onKernel_keepsTyped (onStore_keepsView h)) (onMemory_keepsUser huser)

theorem pimpRuleAdd_keeps {σ : Type} {view : Memory → σ}
    (hrules : ∀ mem rules count, view { mem with pimpRules := rules, pimpCount := count } = view mem)
    (username : CString) (caps noPass sessionOnly : UInt32) :
    (pimpRuleAdd username caps noPass sessionOnly).Keeps view := by
  refine Code.keeps_memory.bind fun mem => (Code.keeps_pure _).ite ?_
  cases findRule mem username with
  | some i =>
    exact Code.Keeps.bind (Code.keeps_modify fun mem => hrules mem _ _) fun _ => Code.keeps_pure _
  | none =>
    exact Code.Keeps.bind (Code.keeps_modify fun mem => hrules mem _ _) fun _ => Code.keeps_pure _

theorem pimpRuleRemove_keeps {σ : Type} {view : Memory → σ}
    (hrules : ∀ mem rules count, view { mem with pimpRules := rules, pimpCount := count } = view mem)
    (username : CString) : (pimpRuleRemove username).Keeps view := by
  refine Code.keeps_memory.bind fun mem => ?_
  cases findRule mem username with
  | some i =>
    exact Code.Keeps.bind (Code.keeps_modify fun mem => hrules mem _ _) fun _ => Code.keeps_pure _
  | none => exact Code.keeps_pure _

/-- cmd_pimp changes the rules and nothing about the users. -/
theorem cmdPimp_keepsView (args : CString) : (cmdPimp args).Keeps accountView := by
  have hlog : ∀ event, (logPimp event).Keeps accountView := fun event => Code.keeps_modify fun _ => rfl
  have hsave : (onMemory pimpSaveRules).Keeps accountView :=
    onMemory_keepsView pimpSaveRules_keeps pimpSaveRules_keeps
  have hmemory : memory.Keeps accountView := Code.keeps_memory.bind fun _ => Code.keeps_pure _
  refine (Code.keeps_pure _).ite (Code.Keeps.ite ?_ (Code.Keeps.ite ?_ (Code.keeps_pure _)))
  · refine (Code.keeps_pure _).ite (hmemory.bind fun mem => ?_)
    refine (onMemory_keepsView (pimpRuleAdd_keeps (fun _ _ _ => rfl) _ _ _ _)
      (pimpRuleAdd_keeps (fun _ _ _ => rfl) _ _ _ _)).bind fun ok => ?_
    refine Code.Keeps.ite ?_ (Code.keeps_pure _)
    exact (hlog _).bind fun _ => hsave.bind fun _ => Code.keeps_pure _
  · refine (Code.keeps_pure _).ite ?_
    refine (onMemory_keepsView (pimpRuleRemove_keeps (fun _ _ _ => rfl) _)
      (pimpRuleRemove_keeps (fun _ _ _ => rfl) _)).bind fun ok => ?_
    refine Code.Keeps.ite ?_ (Code.keeps_pure _)
    exact (hlog _).bind fun _ => hsave.bind fun _ => Code.keeps_pure _

theorem guardsEntry_of_keeps {code : ShellM α} (h : code.Keeps accountView) : GuardsEntry code :=
  Guards.entry (guards_of_keeps (h.comp Prod.fst)) (h.comp Prod.snd)

/-- What the other commands do with the accounts: nothing. They may read lines. -/
def KeepsAccounts (code : ShellM α) : Prop :=
  ∀ shell, code.Ensures shell fun _ after =>
    accounts after.kernel.store = accounts shell.kernel.store ∧
      currentUser after = currentUser shell ∧ after.typed <:+ shell.typed

/-- Lines that are read without a look at the accounts. -/
theorem KeepsAccounts.guardsEntry {code : ShellM α} (h : KeepsAccounts code) :
    GuardsEntry code := by
  intro shell
  refine (h shell).mono fun _ after hafter => ?_
  obtain ⟨hsame, huser, lines, htyped⟩ := hafter
  have hkept : AccountsKept (Opened shell lines) shell after :=
    (AccountsKept.refl _ shell).of_accounts hsame
  exact ⟨lines, ⟨htyped.symm, hkept⟩, .inl huser⟩

theorem GuardsEntry.bind_pure {code : ShellM α} (h : GuardsEntry code) (value : β) :
    GuardsEntry (code >>= fun _ => pure value) := by
  intro shell
  rw [Code.ensures_bind]
  exact (h shell).mono fun _ after hafter => hafter

/-- execute_cmd around its call of itself. -/
theorem dispatch_entered (hothers : ∀ cmd args, GuardsEntry (others cmd args))
    (hnested : ∀ cmd args, Guards (nested cmd args)) (cmd args : CString) :
    GuardsEntry (dispatch others nested cmd args) := by
  have hsaved : ∀ {code : ShellM Unit}, Guards code → code.Keeps currentUser →
      GuardsEntry (do code; saveShell; pure true) := by
    intro code hguards hkeeps
    refine Guards.entry ?_ ?_
    · exact hguards.bind fun _ => saveShell_guards.bind fun _ => pure_guards _
    · exact hkeeps.bind fun _ => saveShell_keepsUser.bind fun _ => Code.keeps_pure _
  rw [dispatch]
  split
  · exact (guardsEntry_of_keeps (cmdPimp_keepsView args)).bind_pure _
  split
  · exact (cmdDiese_entered hnested args).bind_pure _
  split
  · exact hsaved (cmdUseradd_guards args) (cmdUseradd_keepsUser args)
  split
  · exact hsaved cmdPasswd_guards cmdPasswd_keepsUser
  split
  · exact (cmdLogin_entered args).bind_pure _
  split
  · exact doLogin_entered.bind_pure _
  · exact hothers cmd args

/-- execute_cmd -/
theorem executeCmd_entered (hothers : ∀ cmd args, GuardsEntry (others cmd args))
    (cmd args : CString) : GuardsEntry (executeCmd others cmd args) := by
  refine dispatch_entered hothers (fun cmd args => ?_) cmd args
  refine (dispatch_entered hothers (fun _ _ => ?_) cmd args).guards
  exact pure_guards _

end Commands

section Runs

variable {env : Environment} {others : Command} {first last : ShellSystem}
variable {steps : List ShellStep} {step : ShellStep} {i : ℕ}

/-- The lines that were taken in a step. -/
def ShellStep.lines (step : ShellStep) : List CString :=
  step.before.shell.typed.take
    (step.before.shell.typed.length - step.after.shell.typed.length)

/-- Inputs that follow each other. Between two inputs anything may happen that leaves the
accounts and the current user alone; it may add lines to what is typed. -/
inductive AccountRun (env : Environment) (others : Command) (first : ShellSystem) :
    List ShellStep → ShellSystem → Prop where
  | start : AccountRun env others first [] first
  | other {steps : List ShellStep} {last other : ShellSystem}
      (run : AccountRun env others first steps last)
      (same : accounts other.shell.kernel.store = accounts last.shell.kernel.store)
      (user : currentUser other.shell = currentUser last.shell) :
      AccountRun env others first steps other
  | input {steps : List ShellStep} {step : ShellStep}
      (run : AccountRun env others first steps step.before) (runs : step.Runs env others) :
      AccountRun env others first (steps ++ [step]) step.after

/-- The current user has been current from the start, or since a step in which a line was
typed that the hash of this user accepted. -/
def EnteredBy (first : ShellMemory) (steps : List ShellStep) (last : ShellMemory) : Prop :=
  (currentUser last = currentUser first ∧
    ∀ step ∈ steps, currentUser step.after.shell = currentUser step.before.shell) ∨
  ∃ earlier step later, steps = earlier ++ step :: later ∧
    currentUser step.after.shell = currentUser last ∧
    Opened step.after.shell step.lines (currentUser last) ∧
    ∀ other ∈ later, currentUser other.after.shell = currentUser other.before.shell

/-- A step in which the user stays. -/
theorem EnteredBy.snoc {start : ShellMemory} (h : EnteredBy start steps step.before.shell)
    (hsame : currentUser step.after.shell = currentUser step.before.shell) :
    EnteredBy start (steps ++ [step]) step.after.shell := by
  rw [EnteredBy, hsame]
  rcases h with hstays | hentered
  · refine .inl ⟨hstays.1, fun other hother => ?_⟩
    rcases List.mem_append.mp hother with hother | hother
    · exact hstays.2 other hother
    · rw [List.mem_singleton.mp hother]
      exact hsame
  · obtain ⟨earlier, entry, later, hsteps, huser, hopened, hlater⟩ := hentered
    refine .inr ⟨earlier, entry, later ++ [step], ?_, huser, hopened, fun other hother => ?_⟩
    · rw [hsteps, List.append_assoc, List.cons_append]
    · rcases List.mem_append.mp hother with hother | hother
      · exact hlater other hother
      · rw [List.mem_singleton.mp hother]
        exact hsame

/-- One step. -/
theorem ShellStep.Runs.entered (hruns : step.Runs env others)
    (hothers : ∀ cmd args, KeepsAccounts (others cmd args)) :
    Guarded step.before.shell step.lines step.after.shell ∧
      (currentUser step.after.shell = currentUser step.before.shell ∨
        Opened step.after.shell step.lines (currentUser step.after.shell)) := by
  obtain ⟨input, before, after⟩ := step
  have hrun : before.run env (input.code others) = .ok ((), after) := hruns
  have hcode : GuardsEntry (input.code others) := by
    cases input with
    | login => exact doLogin_entered
    | command cmd args =>
      refine GuardsEntry.bind_pure (executeCmd_entered (fun cmd args => ?_) cmd args) ()
      exact (hothers cmd args).guardsEntry
  obtain ⟨lines, hguarded, huser⟩ := ShellSystem.run_ensures (hcode before.shell) hrun
  have hlines : (ShellStep.mk input before after).lines = lines := by
    have htyped : before.shell.typed = lines ++ after.shell.typed := hguarded.typed
    rw [ShellStep.lines]
    dsimp only
    rw [htyped, List.length_append, Nat.add_sub_cancel_right, List.take_left]
  rw [hlines]
  exact ⟨hguarded, huser⟩

/-- The hash of the user at the start was opened by a line of some step. -/
def OpenedIn (first : ShellMemory) (steps : List ShellStep) (i : ℕ) : Prop :=
  ∃ step ∈ steps, Opened first step.lines i

/-- A whole run. -/
theorem AccountRun.guarded (h : AccountRun env others first steps last)
    (hothers : ∀ cmd args, KeepsAccounts (others cmd args)) :
    AccountsKept (OpenedIn first.shell steps) first.shell last.shell ∧
      EnteredBy first.shell steps last.shell := by
  induction h with
  | start => exact ⟨AccountsKept.refl _ _, .inl ⟨rfl, List.forall_mem_nil _⟩⟩
  | other run same user ih =>
    obtain ⟨hkept, hentered⟩ := ih
    refine ⟨hkept.of_accounts same, ?_⟩
    rw [EnteredBy, user]
    exact hentered
  | @input steps step run runs ih =>
    obtain ⟨hkept, hentered⟩ := ih
    obtain ⟨hstep, huser⟩ := runs.entered hothers
    constructor
    · refine hkept.trans hstep.keeps (fun i hopened => ?_) fun i hsame hopened => ?_
      · obtain ⟨other, hother, hlines⟩ := hopened
        exact ⟨other, List.mem_append_left _ hother, hlines⟩
      · exact ⟨step, List.mem_append_right _ List.mem_cons_self, hopened.of_hash hsame.symm⟩
    · rcases huser with hsame | hopened
      · exact hentered.snoc hsame
      · exact .inr ⟨steps, step, [], rfl, rfl, hopened, List.forall_mem_nil _⟩

/-- In every run of the shell the accounts stay: none is lost, renamed or made root, names
stay different and a hash is replaced only after a line that it accepted. A user that is
not the current one from the start on became so in a step in which a line was typed that
check_pwd accepts for this user, and no step after that one set another user. -/
theorem accountRun_guards (hothers : ∀ cmd args, KeepsAccounts (others cmd args))
    (h : AccountRun env others first steps last) :
    AccountsKept (OpenedIn first.shell steps) first.shell last.shell ∧
      EnteredBy first.shell steps last.shell := h.guarded hothers

/-- `useradd ann` -/
def annInput : ShellInput :=
  .command (literal ['u', 's', 'e', 'r', 'a', 'd', 'd']) (literal ['a', 'n', 'n'])

/-- The shell when bob's password is typed next. -/
def ShellSystem.typing (system : ShellSystem) (lines : List CString) : ShellSystem :=
  { system with shell := { system.shell with typed := lines } }

/-- Root adds ann, and then hands the console to bob, who gives his password. -/
def annThenBob : Except Stop (ShellSystem × ShellSystem) := do
  let added ← (bobSystem 0).run .faultless (annInput.code noOthers)
  let entered ← (added.2.typing [bob]).run .faultless (loginInput.code noOthers)
  pure (added.2, entered.2)

/-- There are three users, of whom bob is the current one. -/
def bobEnters (outcome : Except Stop (ShellSystem × ShellSystem)) : Bool :=
  match outcome with
  | .ok (_, last) => last.shell.kernel.store.uCount == 3 && currentUser last.shell == 1
  | .error _ => false

theorem exists_bobEnters (h : bobEnters annThenBob = true) : ∃ middle last : ShellSystem,
    (bobSystem 0).run .faultless (annInput.code noOthers) = .ok ((), middle) ∧
      (middle.typing [bob]).run .faultless (loginInput.code noOthers) = .ok ((), last) ∧
        last.shell.kernel.store.uCount = 3 ∧ currentUser last.shell = 1 := by
  rw [annThenBob] at h
  cases hadd : (bobSystem 0).run .faultless (annInput.code noOthers) with
  | error stop => rw [hadd] at h; cases h
  | ok added =>
    cases hlogin : (added.2.typing [bob]).run .faultless (loginInput.code noOthers) with
    | error stop =>
      simp only [hadd, bind, Except.bind, hlogin] at h
      cases h
    | ok entered =>
      simp only [hadd, bind, Except.bind, hlogin, pure, Except.pure, bobEnters, Bool.and_eq_true,
        beq_iff_eq] at h
      exact ⟨added.2, entered.2, rfl, hlogin, h.1, h.2⟩

/-- Root adds ann and hands the console to bob. The accounts of root and bob stay, ann gets no root
right, and it was bob's password that was typed. -/
theorem accountRun_guards_bob : ∃ (last : ShellSystem) (added entered : ShellStep),
    AccountRun .faultless noOthers (bobSystem 0) [added, entered] last ∧ added.input = annInput ∧
      last.shell.kernel.store.uCount = 3 ∧ currentUser last.shell = 1 ∧
        AccountsKept (OpenedIn (bobSystem 0).shell [added, entered]) (bobSystem 0).shell last.shell ∧
          EnteredBy (bobSystem 0).shell [added, entered] last.shell := by
  have henters : bobEnters annThenBob = true := by decide +kernel
  obtain ⟨middle, last, hadd, hlogin, hcount, huser⟩ := exists_bobEnters henters
  let added : ShellStep := ⟨annInput, bobSystem 0, middle⟩
  let entered : ShellStep := ⟨loginInput, middle.typing [bob], last⟩
  have hadded : added.Runs .faultless noOthers := hadd
  have hentered : entered.Runs .faultless noOthers := hlogin
  have hfirst : AccountRun .faultless noOthers (bobSystem 0) [added] middle := .input .start hadded
  have hrun : AccountRun .faultless noOthers (bobSystem 0) [added, entered] last :=
    .input (.other hfirst rfl rfl) hentered
  have hothers : ∀ cmd args, KeepsAccounts (noOthers cmd args) :=
    fun _ _ _ => ⟨rfl, rfl, List.suffix_rfl⟩
  have hguards := accountRun_guards hothers hrun
  exact ⟨last, added, entered, hrun, rfl, hcount, huser, hguards.1, hguards.2⟩

end Runs

end HexaOS.Shell
