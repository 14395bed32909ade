import HexaOS.ShellText

/-!
# Accounts, rules and root commands of the shell

The commands of hexa.c that work on u_table, u_cur and pimp_rules, and the functions of
hexafs.c on the rules. Everything that is typed at a prompt comes from a list of lines,
and the code stops where the list ends. The other commands of execute_cmd are a parameter.
-/

namespace HexaOS.Shell

open DevicePrograms PackedBytes Hexafs Kernel

/-- MAX_USERS -/
def maxUsers : ℕ := 12

section Rules

/-- The name of a rule. -/
def ruleName (rule : PimpRule) : CString := CString.ofBytes rule.user.toList

/-- pimp_check. A later rule of the user counts as well. -/
def pimpCheck (mem : Memory) (username : CString) (capType : UInt32) : Bool :=
  mem.rules.any fun rule => ruleName rule == username &&
    (rule.allowedCaps == 0xFFFFFFFF || rule.allowedCaps &&& capType != 0)

/-- The index of the first rule of a user. -/
def findRule (mem : Memory) (username : CString) : Option ℕ :=
  (List.range mem.pimpCount).find? fun i => ruleName (mem.pimpRules i) == username

/-- pimp_rule_add. The name has at most 31 characters. -/
def pimpRuleAdd (username : CString) (caps noPass sessionOnly : UInt32) : HexafsM Bool := do
  let mem ← Code.memory
  if pimpRuleMax ≤ mem.pimpCount then pure false
  else
    match findRule mem username with
    | some i =>
      Code.modify fun mem => { mem with
        pimpRules := Function.update mem.pimpRules i { mem.pimpRules i with
          allowedCaps := caps, noPass := noPass, sessionOnly := sessionOnly } }
      pure true
    | none =>
      Code.modify fun mem => { mem with
        pimpRules := Function.update mem.pimpRules mem.pimpCount
          ⟨storeAt (mem.pimpRules mem.pimpCount).user 0 (username.chars ++ [0]), caps, noPass,
            sessionOnly⟩
        pimpCount := mem.pimpCount + 1 }
      pure true

/-- pimp_rule_remove -/
def pimpRuleRemove (username : CString) : HexafsM Bool := do
  let mem ← Code.memory
  match findRule mem username with
  | none => pure false
  | some i =>
    Code.modify fun mem => { mem with
      pimpRules := fun j =>
        if i ≤ j ∧ j + 1 < mem.pimpCount then mem.pimpRules (j + 1) else mem.pimpRules j
      pimpCount := mem.pimpCount - 1 }
    pure true

end Rules

/-- What cmd_pimp did to the rules. The log is kept for the proofs, no code reads it. -/
inductive PimpEvent where
  /-- pimp_rule_add returned 1 while this user was u_cur. -/
  | added (uCur : ℕ) (username : CString) (caps noPass : UInt32)
  /-- pimp_rule_remove returned 1. -/
  | removed (username : CString)
  deriving DecidableEq

/-- The statics of the shell. -/
structure ShellMemory where
  /-- The memory of the kernel. -/
  kernel : KernelMemory
  /-- ticks -/
  ticks : UInt32
  /-- The lines that are going to be typed. -/
  typed : List CString
  /-- The events of cmd_pimp, the first one first. -/
  pimpLog : List PimpEvent

/-- Code of the shell. -/
abbrev ShellM (α : Type) : Type := Code ShellMemory BlockOp BlockReply α

/-- Run code of the kernel. -/
def onKernel {α : Type} (code : KernelM α) : ShellM α := fun shell =>
  (code shell.kernel).bind fun result => .done (result.1, { shell with kernel := result.2 })

/-- Run code of the form store. -/
def onMemory {α : Type} (code : HexafsM α) : ShellM α := onKernel (onStore code)

/-- The statics of the form store. -/
def memory : ShellM Memory := do
  let shell ← Code.memory
  pure shell.kernel.store

/-- get_line: what is typed beyond the buffer is dropped. -/
def getLine (maxLen : ℕ) : ShellM CString := do
  let shell ← Code.memory
  match shell.typed with
  | [] => Code.halt .hang
  | line :: rest =>
    Code.modify fun shell => { shell with typed := rest }
    pure (takeChars (maxLen - 1) line)

/-- Set u_cur. -/
def setUser (i : ℕ) : ShellM Unit := onMemory (Code.modify fun mem => { mem with uCur := i })

/-- Update an entry of u_table. -/
def modifyUser (i : ℕ) (update : UserEntry → UserEntry) : ShellM Unit :=
  onMemory (Code.modify fun mem =>
    { mem with uTable := Function.update mem.uTable i (update (mem.uTable i)) })

/-- encode_pwd of a password into an entry of u_table. -/
def setPassword (i : ℕ) (pass : CString) : ShellM Unit := do
  let shell ← Code.memory
  modifyUser i fun user =>
    { user with passHash := encodePwd user.passHash pass (shell.ticks &&& 0xFFFF) }

/-- The entry of a form for the code of the store. The content of a form that does not lie
in an allocated block cannot be read. -/
def storeEntry (forms : FormStore) (slot : FormSlot) : Option FormEntry :=
  if slot.content = 0 then
    some ⟨slot.name, none, slot.size, slot.cap, slot.owner, slot.mode, by simp⟩
  else
    match forms.block slot.content with
    | none => none
    | some block =>
      if h : slot.size ≤ block.length then
        some ⟨slot.name, some block, slot.size, slot.cap, slot.owner, slot.mode, by
          intro buffer hbuffer
          rw [Option.mem_some_iff] at hbuffer
          rw [← hbuffer]
          exact h⟩
      else none

/-- save_data on the form table of the kernel. -/
def saveForms : KernelM Unit := do
  let kernel ← Code.memory
  if kernel.store.diskOk && kernel.store.hexafsMounted then
    if (List.range kernel.store.formCount).all fun i =>
        (storeEntry kernel.forms (kernel.forms.slot i)).isSome then
      Code.modify fun kernel => { kernel with store := { kernel.store with
        formTable := fun i =>
          (storeEntry kernel.forms (kernel.forms.slot i)).getD FormEntry.zero } }
      let _ ← onStore saveData
      pure ()
    else Code.halt .fault
  else pure ()

/-- save_data -/
def saveShell : ShellM Unit := onKernel saveForms

/-- The first user with this name, among these indices. -/
def findUser (mem : Memory) (name : CString) : List ℕ → Except Stop (Option ℕ)
  | [] => .ok none
  | i :: rest => do
    let same ← sameName (mem.uTable i).name name
    if same then pure (some i) else findUser mem name rest

/-- The first user with this name and password, among these indices. -/
def findLogin (mem : Memory) (name pass : CString) : List ℕ → Except Stop (Option ℕ)
  | [] => .ok none
  | i :: rest => do
    let same ← sameName (mem.uTable i).name name
    if same then
      let right ← checkPwd pass (mem.uTable i).passHash
      if right then pure (some i) else findLogin mem name pass rest
    else findLogin mem name pass rest

/-- Fill the next entry of u_table. The copy of a name of 32 characters or more goes on over the
hash and the entries behind it; here that is a fault, which ends the run. -/
def addUser (name pass : CString) : ShellM Unit := do
  let mem ← memory
  if nameMax ≤ name.chars.length then Code.halt .fault
  else
    modifyUser mem.uCount fun user => { user with name := storeAt user.name 0 (name.chars ++ [0]) }
    setPassword mem.uCount pass
    modifyUser mem.uCount fun user => { user with isRoot := 0 }
    onMemory (Code.modify fun mem => { mem with uCount := mem.uCount + 1 })
    saveShell

/-- The dialogue of do_login behind the name "new". -/
def newUser : ShellM Unit := do
  let mem ← memory
  if maxUsers ≤ mem.uCount then pure ()
  else
    let name ← getLine nameMax
    if name.chars = [] then pure ()
    else
      match ← onMemory (liftStop (findUser mem name (List.range mem.uCount))) with
      | some _ => pure ()
      | none =>
        let pass ← getLine nameMax
        addUser name pass

/-- The loop of do_login. -/
def loginLoop : ℕ → ShellM Unit
  | 0 => Code.halt .hang
  | fuel + 1 => do
    let name ← getLine nameMax
    if name = literal ['n', 'e', 'w'] then
      newUser
      loginLoop fuel
    else
      let pass ← getLine nameMax
      let mem ← memory
      match ← onMemory (liftStop (findLogin mem name pass (List.range mem.uCount))) with
      | some i => setUser i
      | none => loginLoop fuel

/-- do_login. Every round takes a line. -/
def doLogin : ShellM Unit := do
  let shell ← Code.memory
  loginLoop (shell.typed.length + 1)

/-- cmd_useradd -/
def cmdUseradd (name : CString) : ShellM Unit := do
  let mem ← memory
  if name.chars = [] then pure ()
  else if mem.uCur ≠ 0 then pure ()
  else if maxUsers ≤ mem.uCount then pure ()
  else
    match ← onMemory (liftStop (findUser mem name (List.range mem.uCount))) with
    | some _ => pure ()
    | none =>
      let pass ← getLine nameMax
      addUser name pass

/-- cmd_passwd -/
def cmdPasswd : ShellM Unit := do
  let old ← getLine nameMax
  let mem ← memory
  let right ← onMemory (liftStop (checkPwd old (mem.uTable mem.uCur).passHash))
  if right then
    let new ← getLine nameMax
    setPassword mem.uCur new
    saveShell
  else pure ()

/-- The third character of a hash, by which migrate knows the old format. -/
theorem mark_lt : 2 < 32 := by decide

/-- A hash of the old format is stored again, in the new one. -/
def migrate (i : ℕ) (pass : CString) : ShellM Unit := do
  let mem ← memory
  have hmark : 2 < 32 := mark_lt
  if (mem.uTable i).passHash[2] = space then
    setPassword i pass
    saveShell
  else pure ()

/-- cmd_login -/
def cmdLogin (args : CString) : ShellM Unit := do
  if args.chars = [] then doLogin
  else
    let mem ← memory
    match ← onMemory (liftStop (findUser mem args (List.range mem.uCount))) with
    | none => pure ()
    | some i =>
      let pass ← getLine nameMax
      let right ← onMemory (liftStop (checkPwd pass (mem.uTable i).passHash))
      if right then
        setUser i
        migrate i pass
      else pure ()

/-- The user, the capabilities and the no_pass field that `pimp add` reads out of its
argument. -/
def pimpTarget (uname : CString) : CString × UInt32 × UInt32 :=
  if 61 ∈ uname.chars then
    (part uname _ (List.takeWhile_sublist (· ≠ 61)),
      (atoi (uname.chars.dropWhile (· ≠ 61)).tail).toUInt32, 0)
  else (uname, 0xFFFFFFFF, 1)

/-- The lines that cmd_pimp prints. -/
inductive PimpLine where
  /-- The rules, as pimp_rule_list writes them. -/
  | rules
  /-- "Usage: pimp add <user> [caps=nopass]" -/
  | usageAdd
  /-- "Pimp rule added for " and the user. -/
  | added (username : CString)
  /-- "Failed." -/
  | failed
  /-- "Usage: pimp remove <user>" -/
  | usageRemove
  /-- "Removed." -/
  | removed
  /-- "Not found." -/
  | notFound
  /-- "Usage: pimp [list|add|remove] [args]" -/
  | usage
  deriving DecidableEq

/-- Log an event of cmd_pimp. -/
def logPimp (event : PimpEvent) : ShellM Unit :=
  Code.modify fun shell => { shell with pimpLog := shell.pimpLog ++ [event] }

/-- `pimp add`. It does not look at u_cur. -/
def pimpAdd (uname : CString) : ShellM PimpLine := do
  if uname.chars = [] then pure .usageAdd
  else
    let mem ← memory
    let (username, caps, noPass) := pimpTarget uname
    let ok ← onMemory (pimpRuleAdd username caps noPass 0)
    if ok then
      logPimp (.added mem.uCur username caps noPass)
      let _ ← onMemory pimpSaveRules
      pure (.added username)
    else pure .failed

/-- `pimp remove` -/
def pimpRemove (uname : CString) : ShellM PimpLine := do
  if uname.chars = [] then pure .usageRemove
  else
    let ok ← onMemory (pimpRuleRemove uname)
    if ok then
      logPimp (.removed uname)
      let _ ← onMemory pimpSaveRules
      pure .removed
    else pure .notFound

/-- cmd_pimp -/
def cmdPimp (args : CString) : ShellM PimpLine := do
  let sub := firstWord 15 args
  let uname := restWords 15 31 args
  if sub = literal ['l', 'i', 's', 't'] ∨ sub.chars = [] then pure .rules
  else if sub = literal ['a', 'd', 'd'] then pimpAdd uname
  else if sub = literal ['r', 'e', 'm', 'o', 'v', 'e'] then pimpRemove uname
  else pure .usage

/-- A command of the shell: whether execute_cmd knows it. -/
abbrev Command : Type := CString → CString → ShellM Bool

/-- The password that diese asks for. -/
def diesePassword : ShellM Bool := do
  let pw ← getLine 32
  let mem ← memory
  let right ← onMemory (liftStop (checkPwd pw (mem.uTable mem.uCur).passHash))
  if right then
    migrate mem.uCur pw
    pure true
  else pure false

/-- Whether diese goes on: a rule, or the password. -/
def dieseGranted (mem : Memory) (uname : CString) : ShellM Bool :=
  if pimpCheck mem uname 0xFFFFFFFF then pure true else diesePassword

/-- The branch of execute_cmd for diese. `nested` is execute_cmd itself. -/
def cmdDiese (nested : Command) (args : CString) : ShellM Unit := do
  let mem ← memory
  if args.chars = [] then pure ()
  else if mem.uCur = 0 then pure ()
  else
    let uname ← onMemory (liftStop (copyOut (mem.uTable mem.uCur).name))
    let granted ← dieseGranted mem uname
    if granted then
      setUser 0
      let _ ← nested (firstWord 31 args) (restWords 31 95 args)
      setUser mem.uCur
    else pure ()

/-- execute_cmd around its call of itself. `others` runs the commands that are not about
accounts and rules. -/
def dispatch (others nested : Command) (cmd args : CString) : ShellM Bool := do
  if cmd = literal ['p', 'i', 'm', 'p'] then
    let _ ← cmdPimp args
    pure true
  else if cmd = literal ['d', 'i', 'e', 's', 'e'] then
    cmdDiese nested args
    pure true
  else if cmd = literal ['u', 's', 'e', 'r', 'a', 'd', 'd'] then
    cmdUseradd args
    saveShell
    pure true
  else if cmd = literal ['p', 'a', 's', 's', 'w', 'd'] then
    cmdPasswd
    saveShell
    pure true
  else if cmd = literal ['l', 'o', 'g', 'i', 'n'] then
    cmdLogin args
    pure true
  else if cmd = literal ['l', 'o', 'g', 'o', 'u', 't'] then
    doLogin
    pure true
  else others cmd args

/-- execute_cmd. The command behind diese runs as root, so a diese in it does nothing. -/
def executeCmd (others : Command) : Command :=
  dispatch others (dispatch others fun _ _ => pure false)

end HexaOS.Shell
