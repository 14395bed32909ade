import HexaOS.HexafsCaps
import HexaOS.HexafsObjectReads
import HexaOS.KernelIntents
import HexaOS.RuleMaps
import HexaOS.ShellForms
import HexaOS.TextBuffers
import HexaOS.TypedPipes

/-!
# Listings of the kernel's tables

Eight functions put a text about a table together in a buffer of their caller. Names and
numbers are stored behind a check that there is room, but the separators between them and
the line ends are not. The text stays in the buffer exactly if the last of these does.
-/

namespace HexaOS.Listings

open DevicePrograms PackedBytes Hexafs Kernel Shell Pipes Process TextBuffers

section Tables

/-- net_interface_t, as far as it is listed. -/
structure NetInterface where
  /-- The name. -/
  name : CString
  /-- The address. -/
  ip : UInt32
  /-- The flags. -/
  flags : UInt32
  /-- The largest packet. -/
  mtu : UInt32

/-- net_connection_t, as far as it is listed. -/
structure NetConnection where
  /-- The address of this side. -/
  localIp : UInt32
  /-- The port of this side. -/
  localPort : UInt32
  /-- The address of the other side. -/
  remoteIp : UInt32
  /-- The port of the other side. -/
  remotePort : UInt32
  /-- The protocol. -/
  proto : UInt32
  /-- The state. -/
  state : UInt32

/-- NET_UP -/
def netUp : UInt32 := 0x01

/-- NET_LOOPBACK -/
def netLoopback : UInt32 := 0x02

/-- NET_TCP -/
def netTcp : UInt32 := 0x06

/-- NET_ESTABLISHED -/
def netEstablished : UInt32 := 1

/-- NET_CLOSED -/
def netClosed : UInt32 := 2

/-- NET_LISTEN -/
def netListen : UInt32 := 3

end Tables

section Texts

/-- A string that is stored as long as there is room. -/
def words (text : String) : Piece UInt8 := .text (said text)

/-- A number in base 10. -/
def decimal (value : UInt32) : Piece UInt8 := .text (itoa value.toInt32 10)

/-- A number in base 16. -/
def hexadecimal (value : UInt32) : Piece UInt8 := .text (itoa value.toInt32 16)

/-- A character that is stored without a check. -/
def sign (c : Char) : Piece UInt8 := .mark (UInt8.ofNat c.toNat)

/-- The end of a line. -/
def lineEnd : Piece UInt8 := .mark 10

/-- The text of a state in kobserve_sched_tasks. -/
def stateText : TaskState → String
  | .running => "RUN"
  | .ready => "RDY"
  | .blocked => "BLK"
  | .zombie => "ZOM"
  | .dead => "DEAD"

/-- The line of a task. -/
def taskLine (task : Task) : List (Piece UInt8) :=
  [.text (itoa (Int32.ofInt task.pid) 10), sign ' ', sign ' ',
    .text (itoa (Int32.ofInt task.parentPid) 10), sign ' ', sign ' ',
    words (stateText task.state), sign ' ', .text task.name.chars, lineEnd]

/-- The text of kobserve_sched_tasks. -/
def schedText (processes : Processes) : List (Piece UInt8) :=
  words "PID  PPID STATE NAME\n---  ---- ----- ----\n" ::
    (((List.finRange maxTasks).map processes.tasks).filter fun task =>
      decide (task.state ≠ .dead)).flatMap taskLine

/-- The line of a snapshot. -/
def snapshotLine (snap : UInt32 × HexafsSnap) : List (Piece UInt8) :=
  [decimal snap.1, sign ' ', .text (CString.ofBytes (snap.2.name.toList.take 31)).chars, lineEnd]

/-- The text of kobserve_snapshots_tree for the snapshots from the root on. -/
def treeText (root : UInt32) (snaps : List (UInt32 × HexafsSnap)) : List (Piece UInt8) :=
  words "Snapshot Tree:\n" ::
    if root = 0 then [words "  (no snapshots)\n"] else snaps.flatMap snapshotLine

/-- The line of an interface. -/
def interfaceLine (iface : NetInterface) : List (Piece UInt8) :=
  [.text iface.name.chars, sign ' ', decimal (iface.ip &&& 0xFF), sign '.',
    decimal ((iface.ip >>> 8) &&& 0xFF), sign '.', decimal ((iface.ip >>> 16) &&& 0xFF), sign '.',
    decimal ((iface.ip >>> 24) &&& 0xFF), sign ' ', decimal iface.mtu, sign ' ',
    sign (if iface.flags &&& netUp ≠ 0 then 'U' else 'D'),
    sign (if iface.flags &&& netLoopback ≠ 0 then 'L' else ' '), lineEnd]

/-- The text of a state in net_connection_list. -/
def connectionState (state : UInt32) : String :=
  if state = netEstablished then "EST" else if state = netListen then "LST" else "CLS"

/-- The line of a connection. -/
def connectionLine (conn : NetConnection) : List (Piece UInt8) :=
  [sign (if conn.proto = netTcp then 'T' else 'U'), sign ' ', decimal (conn.localIp &&& 0xFF),
    sign ':', decimal conn.localPort, sign ' ', decimal (conn.remoteIp &&& 0xFF), sign ':',
    decimal conn.remotePort, sign ' ', words (connectionState conn.state), lineEnd]

/-- The text of net_connection_list. -/
def connectionText (connections : List NetConnection) : List (Piece UInt8) :=
  words "PROTO LOCAL REMOTE STATE\n---- ----- ------ -----\n" ::
    (connections.filter fun conn => decide (conn.state ≠ netClosed)).flatMap connectionLine

/-- The line of a typed pipe. -/
def typedPipeLine (i : ℕ) (pipe : TypedPipe) : List (Piece UInt8) :=
  [decimal (UInt32.ofNat i), sign ' ', hexadecimal pipe.schemaHash, sign ' ',
    decimal pipe.producerPid, sign ' ', decimal pipe.consumerPid, lineEnd]

/-- The text of pipe_typed_list. -/
def typedPipeText (table : TypedPipes) : List (Piece UInt8) :=
  (List.finRange maxPipes).flatMap fun i =>
    if i.val < table.count ∧ (table.pipes i).active = true then typedPipeLine i (table.pipes i)
    else []

/-- The text of a type in intent_list_active. -/
def intentText (intentType : UInt32) : String :=
  if intentType = intentProduce then "PROD"
  else if intentType = intentObserve then "OBSV"
  else if intentType = intentTransform then "XFrm"
  else "CONS"

/-- The line of an intent. -/
def intentLine (entry : IntentEntry) : List (Piece UInt8) :=
  [decimal entry.handle, sign ' ', decimal entry.pid, sign ' ',
    words (intentText entry.intent.intentType), lineEnd]

/-- The text of intent_list_active. -/
def activeText (kernel : KernelMemory) : List (Piece UInt8) :=
  (((List.range maxIntents).map kernel.intentTable).filter (·.active)).flatMap intentLine

/-- The line of a rule. -/
def ruleLine (rule : PimpRule) : List (Piece UInt8) :=
  [.text (ruleName rule).chars, sign ':', sign ' ', hexadecimal rule.allowedCaps] ++
    (if rule.noPass ≠ 0 then [words " nopass"] else []) ++
    (if rule.sessionOnly ≠ 0 then [words " session"] else []) ++ [lineEnd]

/-- The text of pimp_rule_list. -/
def ruleText (mem : Memory) : List (Piece UInt8) :=
  words "Pimp rules (diese config):\n" :: mem.rules.flatMap ruleLine

/-- The line of a grant. -/
def grantLine (grant : CapGrant) : List (Piece UInt8) :=
  [sign ' ', sign '0', sign 'x', hexadecimal grant.capType,
    words (if grant.delegatable ≠ 0 then " (delegatable)" else ""), lineEnd]

/-- The text of hexafs_cap_list_pid. -/
def grantText (pid : UInt32) (grants : List CapGrant) : List (Piece UInt8) :=
  [words "Caps for PID ", decimal pid, sign ':', lineEnd] ++ grants.flatMap grantLine

end Texts

section Functions

/-- Store a text and its terminator. The final place is what the function returns. -/
def listing (outLen : ℕ) (pieces : List (Piece UInt8)) : Output UInt8 :=
  (Output.start.putAll outLen pieces).terminate 0

/-- kobserve_sched_tasks -/
def kobserveSchedTasks (processes : Processes) (outLen : ℕ) : Output UInt8 :=
  listing outLen (schedText processes)

/-- net_interface_list -/
def netInterfaceList (interfaces : List NetInterface) (outLen : ℕ) : Output UInt8 :=
  listing outLen (interfaces.flatMap interfaceLine)

/-- net_connection_list -/
def netConnectionList (connections : List NetConnection) (outLen : ℕ) : Output UInt8 :=
  listing outLen (connectionText connections)

/-- pipe_typed_list -/
def pipeTypedList (table : TypedPipes) (outLen : ℕ) : Output UInt8 :=
  listing outLen (typedPipeText table)

/-- intent_list_active. It returns nothing. -/
def intentListActive (kernel : KernelMemory) (outLen : ℕ) : Output UInt8 :=
  listing outLen (activeText kernel)

/-- pimp_rule_list. The terminator is stored behind a check. -/
def pimpRuleList (mem : Memory) (outLen : ℕ) : Output UInt8 :=
  (Output.start.putAll outLen (ruleText mem)).terminateInside outLen 0

/-- The loop of kobserve_snapshots_tree. -/
def snapshotsLoop (outLen : ℕ) : ℕ → UInt32 → Output UInt8 → HexafsM (Output UInt8)
  | 0, _, _ => Code.halt .hang
  | fuel + 1, snapBlock, out => do
    if snapBlock = 0 then pure out
    else
      match ← hexafsBlockRead snapBlock with
      | none => pure out
      | some buf =>
        let snap := ofBlock HexafsSnap buf
        if snap.magic ≠ hexafsSnapMagic then pure out
        else
          let line := snapshotLine (snapBlock, snap)
          snapshotsLoop outLen fuel snap.parentSnapBlock (out.putAll outLen line)

/-- kobserve_snapshots_tree -/
def kobserveSnapshotsTree (outLen : ℕ) : HexafsM (Output UInt8) := do
  let mem ← Code.memory
  let out := Output.start.putAll outLen [words "Snapshot Tree:\n"]
  if mem.sbCache.rootSnapBlock = 0 then
    pure ((out.putAll outLen [words "  (no snapshots)\n"]).terminate 0)
  else
    let out ← snapshotsLoop outLen chainFuel mem.sbCache.rootSnapBlock out
    pure (out.terminate 0)

/-- One grant in the loop of hexafs_cap_list_pid; `none` is a `continue`. The buffer has 128
bytes, and bytes that were never stored are not read. -/
def listedGrant (block : UInt32) : HexafsM (Option CapGrant) := do
  if block = 0 then pure none
  else
    match ← hexafsObjectReadData block with
    | some ⟨true, _, dsz, bytes⟩ =>
      if dsz.toNat < capGrantSize then pure none
      else if 128 < bytes.length ∨ bytes.length < capGrantSize then Code.halt .fault
      else pure (some (ofBytes bytes))
    | _ => pure none

/-- The loop of hexafs_cap_list_pid. -/
def grantsLoop (outLen : ℕ) : CapGrants → Output UInt8 → HexafsM (Output UInt8)
  | [], out => pure out
  | block :: grants, out => do
    match ← listedGrant block with
    | none => grantsLoop outLen grants out
    | some grant => grantsLoop outLen grants (out.putAll outLen (grantLine grant))

/-- hexafs_cap_list_pid. The terminator is stored behind a check. -/
def hexafsCapListPid (grants : CapGrants) (pid : UInt32) (outLen : ℕ) :
    HexafsM (Output UInt8) := do
  let out := Output.start.putAll outLen [words "Caps for PID ", decimal pid, sign ':', lineEnd]
  let out ← grantsLoop outLen grants out
  pure (out.terminateInside outLen 0)

end Functions

section Items

/-- The snapshots that kobserve_snapshots_tree lists, from one of them on. -/
def snapshotsFrom : ℕ → UInt32 → HexafsM (List (UInt32 × HexafsSnap))
  | 0, _ => Code.halt .hang
  | fuel + 1, snapBlock => do
    if snapBlock = 0 then pure []
    else
      match ← hexafsBlockRead snapBlock with
      | none => pure []
      | some buf =>
        let snap := ofBlock HexafsSnap buf
        if snap.magic ≠ hexafsSnapMagic then pure []
        else
          let rest ← snapshotsFrom fuel snap.parentSnapBlock
          pure ((snapBlock, snap) :: rest)

/-- The root and the snapshots from it on. -/
def rootSnapshots : HexafsM (UInt32 × List (UInt32 × HexafsSnap)) := do
  let mem ← Code.memory
  let snaps ← snapshotsFrom chainFuel mem.sbCache.rootSnapBlock
  pure (mem.sbCache.rootSnapBlock, snaps)

/-- The grants that hexafs_cap_list_pid lists. -/
def listedGrants : CapGrants → HexafsM (List CapGrant)
  | [] => pure []
  | block :: grants => do
    let grant ← listedGrant block
    let rest ← listedGrants grants
    pure (grant.toList ++ rest)

/-- Pieces that are stored one list after the other. -/
theorem putAll_append (outLen : ℕ) (pieces pieces' : List (Piece UInt8)) (out : Output UInt8) :
    out.putAll outLen (pieces ++ pieces') = (out.putAll outLen pieces).putAll outLen pieces' :=
  List.foldl_append

/-- The loop over the snapshots stores their lines. -/
theorem snapshotsLoop_eq (outLen fuel : ℕ) (snapBlock : UInt32) (out : Output UInt8) :
    snapshotsLoop outLen fuel snapBlock out =
      (fun snaps => out.putAll outLen (snaps.flatMap snapshotLine)) <$>
        snapshotsFrom fuel snapBlock := by
  have hnone : ∀ out : Output UInt8, (pure out : HexafsM (Output UInt8)) =
      (fun snaps => out.putAll outLen (snaps.flatMap snapshotLine)) <$> pure [] := by
    intro out
    rw [map_pure]
    exact rfl
  induction fuel generalizing snapBlock out with
  | zero => rfl
  | succ fuel ih =>
    rw [snapshotsLoop, snapshotsFrom]
    by_cases hzero : snapBlock = 0
    · rw [if_pos hzero, if_pos hzero]
      exact hnone out
    · rw [if_neg hzero, if_neg hzero, map_bind]
      refine bind_congr fun reply => ?_
      cases reply with
      | none => exact hnone out
      | some buf =>
        dsimp only
        split
        · exact hnone out
        · rw [ih, map_bind]
          simp only [map_pure, List.flatMap_cons, putAll_append]
          exact (bind_pure_comp _ _).symm

/-- The loop over the grants stores their lines. -/
theorem grantsLoop_eq (outLen : ℕ) (grants : CapGrants) (out : Output UInt8) :
    grantsLoop outLen grants out =
      (fun listed => out.putAll outLen (listed.flatMap grantLine)) <$> listedGrants grants := by
  induction grants generalizing out with
  | nil => rfl
  | cons block grants ih =>
    rw [grantsLoop, listedGrants, map_bind]
    refine bind_congr fun grant => ?_
    rw [map_bind]
    cases grant with
    | none =>
      dsimp only
      rw [ih]
      simp only [map_pure, Option.toList_none, List.nil_append]
      exact (bind_pure_comp _ _).symm
    | some grant =>
      dsimp only
      rw [ih]
      simp only [map_pure, Option.toList_some, List.singleton_append, List.flatMap_cons,
        putAll_append]
      exact (bind_pure_comp _ _).symm

/-- kobserve_snapshots_tree stores its text. -/
theorem kobserveSnapshotsTree_eq (outLen : ℕ) : kobserveSnapshotsTree outLen =
    (fun items => listing outLen (treeText items.1 items.2)) <$> rootSnapshots := by
  rw [kobserveSnapshotsTree, rootSnapshots, map_bind]
  refine bind_congr fun mem => ?_
  rw [map_bind]
  by_cases hzero : mem.sbCache.rootSnapBlock = 0
  · have hnone : snapshotsFrom chainFuel 0 = pure [] := by
      rw [chainFuel, snapshotsFrom, if_pos rfl]
    rw [if_pos hzero, hzero, hnone, pure_bind, map_pure, treeText, if_pos rfl, listing]
    rfl
  · rw [if_neg hzero, snapshotsLoop_eq, bind_map_left]
    refine bind_congr fun snaps => ?_
    rw [map_pure, treeText, if_neg hzero, listing]
    rfl

/-- hexafs_cap_list_pid stores its text. -/
theorem hexafsCapListPid_eq (grants : CapGrants) (pid : UInt32) (outLen : ℕ) :
    hexafsCapListPid grants pid outLen = (fun listed =>
      (Output.start.putAll outLen (grantText pid listed)).terminateInside outLen 0) <$>
        listedGrants grants := by
  rw [hexafsCapListPid, grantsLoop_eq, bind_map_left]
  simp only [grantText, putAll_append]
  exact bind_pure_comp _ _

end Items

section Bounds

/-- Everything that a function stores lies in a buffer of `outLen` characters, the terminator
last and at the place that is returned, exactly if the last separator of its text does. -/
def BoundedIff (outLen : ℕ) (out : Output UInt8) (pieces : List (Piece UInt8)) : Prop :=
  out.Bounded outLen 0 ↔ markEnd 0 pieces < outLen

/-- The same of code that reads what it lists: it returns when the reading does, and its text is
the one about what was read. -/
def ReadBoundedIff {α : Type} (outLen : ℕ) (code : HexafsM (Output UInt8)) (items : HexafsM α)
    (pieces : α → List (Piece UInt8)) : Prop :=
  ∀ env (machine : Machine),
    (∀ out last, machine.run env code = .ok (out, last) →
      ∃ read, machine.run env items = .ok (read, last) ∧ BoundedIff outLen out (pieces read)) ∧
    ∀ read last, machine.run env items = .ok (read, last) →
      ∃ out, machine.run env code = .ok (out, last)

/-- Code that is a function of what was read. -/
theorem readBoundedIff_of_map {α : Type} {outLen : ℕ} {code : HexafsM (Output UInt8)}
    {items : HexafsM α} {pieces : α → List (Piece UInt8)} {render : α → Output UInt8}
    (hcode : code = render <$> items)
    (hrender : ∀ read, BoundedIff outLen (render read) (pieces read)) :
    ReadBoundedIff outLen code items pieces := by
  intro env machine
  have hrun : machine.run env code = (machine.run env items).bind fun result =>
      .ok (render result.1, result.2) := by
    rw [hcode, map_eq_pure_bind, Machine.run_bind]
    exact rfl
  constructor
  · intro out last hout
    rw [hrun] at hout
    cases hitems : machine.run env items with
    | error stop =>
      rw [hitems] at hout
      cases hout
    | ok result =>
      rw [hitems] at hout
      obtain ⟨rfl, rfl⟩ := Prod.mk.inj (Except.ok.inj hout)
      exact ⟨result.1, rfl, hrender result.1⟩
  · intro read last hitems
    rw [hrun, hitems]
    exact ⟨render read, rfl⟩

/-- Each of the eight listings stays in a buffer of any size exactly if its last separator has
a place there. -/
theorem listings_bounded_iff (outLen : ℕ) (hout : 1 ≤ outLen) :
    (∀ processes, BoundedIff outLen (kobserveSchedTasks processes outLen)
      (schedText processes)) ∧
    ReadBoundedIff outLen (kobserveSnapshotsTree outLen) rootSnapshots
      (fun items => treeText items.1 items.2) ∧
    (∀ interfaces, BoundedIff outLen (netInterfaceList interfaces outLen)
      (interfaces.flatMap interfaceLine)) ∧
    (∀ connections, BoundedIff outLen (netConnectionList connections outLen)
      (connectionText connections)) ∧
    (∀ table, BoundedIff outLen (pipeTypedList table outLen) (typedPipeText table)) ∧
    (∀ kernel, BoundedIff outLen (intentListActive kernel outLen) (activeText kernel)) ∧
    (∀ mem, BoundedIff outLen (pimpRuleList mem outLen) (ruleText mem)) ∧
    ∀ grants pid, ReadBoundedIff outLen (hexafsCapListPid grants pid outLen)
      (listedGrants grants) (grantText pid) := by
  have hlisting : ∀ pieces, BoundedIff outLen (listing outLen pieces) pieces :=
    fun pieces => bounded_terminate_iff pieces hout 0
  have hchecked : ∀ pieces, BoundedIff outLen
      ((Output.start.putAll outLen pieces).terminateInside outLen 0) pieces :=
    fun pieces => bounded_terminateInside_iff pieces hout 0
  refine ⟨fun processes => hlisting _, ?_, fun interfaces => hlisting _,
    fun connections => hlisting _, fun table => hlisting _, fun kernel => hlisting _,
    fun mem => hchecked _, fun grants pid => ?_⟩
  · exact readBoundedIff_of_map (kobserveSnapshotsTree_eq outLen) fun items => hlisting _
  · exact readBoundedIff_of_map (hexafsCapListPid_eq grants pid outLen) fun listed => hchecked _

/-- A user with a name of 31 characters. -/
def longUser (i : ℕ) : CString :=
  CString.ofBytes (UInt8.ofNat (97 + i) :: List.replicate 30 120)

/-- Rules for 16 users. -/
def addLongRules : HexafsM Unit :=
  (List.range 16).forM fun i => do
    let _ ← pimpRuleAdd (longUser i) 1 0 0
    pure ()

/-- Does the last separator about the rules lie behind the buffer of cmd_pimp? -/
def overrunsRules (_ : Unit) (machine : Machine) : Bool :=
  decide (512 ≤ markEnd 0 (ruleText machine.mem))

/-- 16 rules of users with long names are listed beyond the 512 characters of cmd_pimp. -/
theorem listings_overrun : ∃ machine,
    (Machine.boot blankDisk).run .faultless addLongRules = .ok ((), machine) ∧
      ¬(pimpRuleList machine.mem 512).Bounded 512 0 := by
  have htest : testRun overrunsRules
      ((Machine.boot blankDisk).run .faultless addLongRules) = true := by decide +kernel
  obtain ⟨_, machine, hrun, hover⟩ := exists_of_testRun htest
  refine ⟨machine, hrun, ?_⟩
  intro hbounded
  have hinside : markEnd 0 (ruleText machine.mem) < 512 :=
    (bounded_terminateInside_iff _ (by decide) 0).mp hbounded
  have houtside : 512 ≤ markEnd 0 (ruleText machine.mem) := of_decide_eq_true hover
  omega

/-- Rules for 10 users. -/
def addFewerRules : HexafsM Unit :=
  (List.range 10).forM fun i => do
    let _ ← pimpRuleAdd (longUser i) 1 0 0
    pure ()

/-- Are there ten rules, and does the last separator about them lie in the buffer of cmd_pimp? -/
def holdsRules (_ : Unit) (machine : Machine) : Bool :=
  decide (machine.mem.pimpCount = 10 ∧ markEnd 0 (ruleText machine.mem) < 512)

/-- 10 rules of users with long names are listed within the 512 characters of cmd_pimp. -/
theorem listings_bounded_iff_rules : ∃ machine,
    (Machine.boot blankDisk).run .faultless addFewerRules = .ok ((), machine) ∧
      machine.mem.pimpCount = 10 ∧ (pimpRuleList machine.mem 512).Bounded 512 0 := by
  have htest : testRun holdsRules
      ((Machine.boot blankDisk).run .faultless addFewerRules) = true := by decide +kernel
  obtain ⟨_, machine, hrun, hholds⟩ := exists_of_testRun htest
  obtain ⟨hcount, hinside⟩ := of_decide_eq_true hholds
  exact ⟨machine, hrun, hcount,
    ((listings_bounded_iff 512 (by decide)).2.2.2.2.2.2.1 machine.mem).mpr hinside⟩

end Bounds

end HexaOS.Listings
