import HexaOS.HexafsFrames
import HexaOS.KernelIntentRuns
import HexaOS.ShellAccounts

/-!
# Who put a rule there

Every rule in pimp_rules comes from the last `pimp add` or `pimp remove` of its user. A
user for whom diese asks no password has a rule; that it was root who put it there, with
no_pass set, depends on the commands that were given.
-/

namespace HexaOS.Shell

open DevicePrograms PackedBytes Hexafs Kernel

section Frames

/-- The rules. -/
def ruleView (mem : Memory) : (ℕ → PimpRule) × ℕ := (mem.pimpRules, mem.pimpCount)

instance : IgnoresStore ruleView where
  allocator _ _ := rfl
  sbCache _ _ := rfl
  currentTx _ _ := rfl
  txGen _ _ := rfl

/-- The rules and the log of cmd_pimp. -/
def loggedRules (shell : ShellMemory) : ((ℕ → PimpRule) × ℕ) × List PimpEvent :=
  (ruleView shell.kernel.store, shell.pimpLog)

/-- Code that leaves the rules and the log alone. -/
abbrev KeepsRules {α : Type} (code : ShellM α) : Prop := code.Keeps loggedRules

/-- What code of the kernel leaves alone, it leaves alone under the shell. -/
theorem onKernel_keepsView {α σ : Type} {view : KernelMemory → σ} {code : KernelM α}
    (h : code.Keeps view) : (onKernel code).Keeps fun shell => view shell.kernel := by
  intro shell
  have hleaves : (code shell.kernel).Ensures fun result => view result.2 = view shell.kernel :=
    h shell.kernel
  exact (Program.ensures_bind _ _).mpr (hleaves.mono fun result hkept => hkept)

/-- What code of the store leaves alone, it leaves alone under the kernel. -/
theorem onStore_keepsView {α σ : Type} {view : Memory → σ} {code : HexafsM α}
    (h : code.Keeps view) : (onStore code).Keeps fun kernel => view kernel.store := by
  intro kernel
  have hleaves : (code kernel.store).Ensures fun result => view result.2 = view kernel.store :=
    h kernel.store
  exact (Program.ensures_bind _ _).mpr (hleaves.mono fun result hkept => hkept)

/-- save_data leaves alone what the writers of the store leave alone, beside the forms. -/
theorem saveShell_keepsView {σ : Type} {view : Memory → σ} [IgnoresStore view]
    (hforms : ∀ mem table, view { mem with formTable := table } = view mem) :
    saveShell.Keeps fun shell => view shell.kernel.store := by
  have hsave : saveForms.Keeps fun kernel => view kernel.store := by
    refine Code.keeps_memory.bind fun kernel => ?_
    refine Code.Keeps.ite (Code.Keeps.ite ?_ (Code.keeps_halt _)) (Code.keeps_pure _)
    refine Code.Keeps.bind (Code.keeps_modify fun _ => hforms _ _) fun _ => ?_
    exact (onStore_keepsView saveData_keeps).bind fun _ => Code.keeps_pure _
  exact onKernel_keepsView hsave

theorem onKernel_keepsRules {α : Type} {code : KernelM α}
    (h : code.Keeps fun kernel => ruleView kernel.store) : KeepsRules (onKernel code) := by
  intro shell
  have hleaves : (code shell.kernel).Ensures fun result =>
      ruleView result.2.store = ruleView shell.kernel.store := h shell.kernel
  refine (Program.ensures_bind _ _).mpr (hleaves.mono fun result hkept => ?_)
  show (ruleView result.2.store, shell.pimpLog) = _
  rw [hkept]
  rfl

theorem onMemory_keepsRules {α : Type} {code : HexafsM α} (h : code.Keeps ruleView) :
    KeepsRules (onMemory code) := onKernel_keepsRules (onStore_keepsView h)

theorem memory_keepsRules : KeepsRules memory := Code.keeps_memory.bind fun _ => Code.keeps_pure _

theorem getLine_keepsRules (maxLen : ℕ) : KeepsRules (getLine maxLen) := by
  refine Code.keeps_memory.bind fun shell => ?_
  cases shell.typed with
  | nil => exact Code.keeps_halt _
  | cons line rest => exact Code.Keeps.bind (Code.keeps_modify fun _ => rfl) fun _ => Code.keeps_pure _

theorem setUser_keepsRules (i : ℕ) : KeepsRules (setUser i) :=
  onMemory_keepsRules (Code.keeps_modify fun _ => rfl)

theorem modifyUser_keepsRules (i : ℕ) (update : UserEntry → UserEntry) :
    KeepsRules (modifyUser i update) :=
  onMemory_keepsRules (Code.keeps_modify fun _ => rfl)

theorem setPassword_keepsRules (i : ℕ) (pass : CString) : KeepsRules (setPassword i pass) :=
  Code.keeps_memory.bind fun _ => modifyUser_keepsRules _ _

theorem saveShell_keepsRules : KeepsRules saveShell := by
  refine onKernel_keepsRules (Code.keeps_memory.bind fun kernel => ?_)
  refine Code.Keeps.ite (Code.Keeps.ite ?_ (Code.keeps_halt _)) (Code.keeps_pure _)
  refine Code.Keeps.bind (Code.keeps_modify fun _ => rfl) fun _ => ?_
  exact (onStore_keepsView saveData_keeps).bind fun _ => Code.keeps_pure _

theorem addUser_keepsRules (name pass : CString) : KeepsRules (addUser name pass) := by
  refine memory_keepsRules.bind fun mem => (Code.keeps_halt _).ite ?_
  refine (modifyUser_keepsRules _ _).bind fun _ => (setPassword_keepsRules _ _).bind fun _ => ?_
  refine (modifyUser_keepsRules _ _).bind fun _ => ?_
  refine Code.Keeps.bind ?_ fun _ => saveShell_keepsRules
  exact onMemory_keepsRules (Code.keeps_modify fun _ => rfl)

theorem liftStop_keepsRules {α : Type} (result : Except Stop α) :
    KeepsRules (onMemory (liftStop result)) := onMemory_keepsRules (liftStop_keeps _)

theorem newUser_keepsRules : KeepsRules newUser := by
  refine memory_keepsRules.bind fun mem => (Code.keeps_pure _).ite ?_
  refine (getLine_keepsRules _).bind fun name => (Code.keeps_pure _).ite ?_
  refine (liftStop_keepsRules _).bind fun found => ?_
  cases found with
  | some i => exact Code.keeps_pure _
  | none => exact (getLine_keepsRules _).bind fun pass => addUser_keepsRules name pass

theorem loginLoop_keepsRules (fuel : ℕ) : KeepsRules (loginLoop fuel) := by
  induction fuel with
  | zero => exact Code.keeps_halt _
  | succ fuel ih =>
    refine (getLine_keepsRules _).bind fun name => ?_
    refine Code.Keeps.ite (newUser_keepsRules.bind fun _ => ih) ?_
    refine (getLine_keepsRules _).bind fun pass => memory_keepsRules.bind fun mem => ?_
    refine (liftStop_keepsRules _).bind fun found => ?_
    cases found with
    | some i => exact setUser_keepsRules i
    | none => exact ih

theorem doLogin_keepsRules : KeepsRules doLogin :=
  Code.keeps_memory.bind fun _ => loginLoop_keepsRules _

theorem cmdUseradd_keepsRules (name : CString) : KeepsRules (cmdUseradd name) := by
  refine memory_keepsRules.bind fun mem => (Code.keeps_pure _).ite ((Code.keeps_pure _).ite ?_)
  refine (Code.keeps_pure _).ite ((liftStop_keepsRules _).bind fun found => ?_)
  cases found with
  | some i => exact Code.keeps_pure _
  | none => exact (getLine_keepsRules _).bind fun pass => addUser_keepsRules name pass

theorem cmdPasswd_keepsRules : KeepsRules cmdPasswd := by
  refine (getLine_keepsRules _).bind fun old => memory_keepsRules.bind fun mem => ?_
  refine (liftStop_keepsRules _).bind fun right => Code.Keeps.ite ?_ (Code.keeps_pure _)
  refine (getLine_keepsRules _).bind fun new => ?_
  exact (setPassword_keepsRules _ _).bind fun _ => saveShell_keepsRules

theorem migrate_keepsRules (i : ℕ) (pass : CString) : KeepsRules (migrate i pass) := by
  refine memory_keepsRules.bind fun mem => Code.Keeps.ite ?_ (Code.keeps_pure _)
  exact (setPassword_keepsRules _ _).bind fun _ => saveShell_keepsRules

theorem cmdLogin_keepsRules (args : CString) : KeepsRules (cmdLogin args) := by
  refine Code.Keeps.ite doLogin_keepsRules (memory_keepsRules.bind fun mem => ?_)
  refine (liftStop_keepsRules _).bind fun found => ?_
  cases found with
  | none => exact Code.keeps_pure _
  | some i =>
    refine (getLine_keepsRules _).bind fun pass => (liftStop_keepsRules _).bind fun right => ?_
    refine Code.Keeps.ite ?_ (Code.keeps_pure _)
    exact (setUser_keepsRules i).bind fun _ => migrate_keepsRules i pass

theorem diesePassword_keepsRules : KeepsRules diesePassword := by
  refine (getLine_keepsRules _).bind fun pw => memory_keepsRules.bind fun mem => ?_
  refine (liftStop_keepsRules _).bind fun right => Code.Keeps.ite ?_ (Code.keeps_pure _)
  exact (migrate_keepsRules _ _).bind fun _ => Code.keeps_pure _

end Frames

section Events

/-- The user that an event is about. -/
def PimpEvent.user : PimpEvent → CString
  | .added _ username _ _ => username
  | .removed username => username

/-- The last event about a user. -/
def lastEvent (log : List PimpEvent) (username : CString) : Option PimpEvent :=
  log.reverse.find? fun event => event.user == username

theorem lastEvent_append (log : List PimpEvent) (event : PimpEvent) (username : CString) :
    lastEvent (log ++ [event]) username =
      if event.user = username then some event else lastEvent log username := by
  rw [lastEvent, List.reverse_append, List.reverse_singleton, List.singleton_append,
    List.find?_cons]
  by_cases huser : event.user = username
  · rw [if_pos huser, beq_iff_eq.mpr huser]
  · rw [if_neg huser, beq_eq_false_iff_ne.mpr huser]
    rfl

/-- Users have one rule each, and it is the one of the last event about them. -/
structure Logged (mem : Memory) (log : List PimpEvent) : Prop where
  /-- No two rules are for the same user. -/
  distinct : ∀ i < mem.pimpCount, ∀ j < mem.pimpCount,
    ruleName (mem.pimpRules i) = ruleName (mem.pimpRules j) → i = j
  /-- The log ends with each rule as it was added. -/
  last : ∀ i < mem.pimpCount, ∃ uCur, lastEvent log (ruleName (mem.pimpRules i)) =
    some (.added uCur (ruleName (mem.pimpRules i)) (mem.pimpRules i).allowedCaps
      (mem.pimpRules i).noPass)

variable {mem mem' : Memory} {log : List PimpEvent} {username : CString}

theorem findRule_eq_none (h : findRule mem username = none) :
    ∀ i < mem.pimpCount, ruleName (mem.pimpRules i) ≠ username := by
  intro i hi hname
  have hall := List.find?_eq_none.mp h i (List.mem_range.mpr hi)
  exact hall (beq_iff_eq.mpr hname)

theorem findRule_eq_some {i : ℕ} (h : findRule mem username = some i) :
    i < mem.pimpCount ∧ ruleName (mem.pimpRules i) = username :=
  have hmatches := List.find?_some h
  ⟨List.mem_range.mp (List.mem_of_find?_eq_some h), beq_iff_eq.mp hmatches⟩

/-- An event about another user. -/
theorem Logged.last_append (h : Logged mem log) {i : ℕ} (hi : i < mem.pimpCount)
    {event : PimpEvent} (hother : event.user ≠ ruleName (mem.pimpRules i)) :
    ∃ uCur, lastEvent (log ++ [event]) (ruleName (mem.pimpRules i)) =
      some (.added uCur (ruleName (mem.pimpRules i)) (mem.pimpRules i).allowedCaps
        (mem.pimpRules i).noPass) := by
  rw [lastEvent_append, if_neg hother]
  exact h.last i hi

/-- The rule of a user gets other fields. -/
theorem Logged.replace (h : Logged mem log) {i : ℕ} (hi : i < mem.pimpCount) {rule : PimpRule}
    (hname : ruleName rule = ruleName (mem.pimpRules i)) (uCur : ℕ) :
    Logged { mem with pimpRules := Function.update mem.pimpRules i rule }
      (log ++ [.added uCur (ruleName rule) rule.allowedCaps rule.noPass]) := by
  have hnames : ∀ j, ruleName (Function.update mem.pimpRules i rule j) =
      ruleName (mem.pimpRules j) := by
    intro j
    by_cases hj : j = i
    · rw [hj, Function.update_self, hname]
    · rw [Function.update_of_ne hj]
  refine ⟨fun j hj k hk hsame => ?_, fun j hj => ?_⟩
  · have hsame' := hsame
    dsimp only at hsame'
    rw [hnames, hnames] at hsame'
    exact h.distinct j hj k hk hsame'
  · by_cases hji : j = i
    · refine ⟨uCur, ?_⟩
      dsimp only
      rw [hji, Function.update_self, lastEvent_append, PimpEvent.user, if_pos rfl]
    · dsimp only
      rw [Function.update_of_ne hji]
      refine h.last_append hj fun huser => hji ?_
      rw [PimpEvent.user, hname] at huser
      exact h.distinct j hj i hi huser.symm

/-- A user without a rule gets one. -/
theorem Logged.snoc (h : Logged mem log) {rule : PimpRule}
    (hnew : ∀ i < mem.pimpCount, ruleName (mem.pimpRules i) ≠ ruleName rule) (uCur : ℕ) :
    Logged { mem with
      pimpRules := Function.update mem.pimpRules mem.pimpCount rule
      pimpCount := mem.pimpCount + 1 }
        (log ++ [.added uCur (ruleName rule) rule.allowedCaps rule.noPass]) := by
  have hold : ∀ i < mem.pimpCount,
      Function.update mem.pimpRules mem.pimpCount rule i = mem.pimpRules i :=
    fun i hi => Function.update_of_ne (by omega) _ _
  refine ⟨fun i hi j hj hsame => ?_, fun i hi => ?_⟩
  · dsimp only at hi hj hsame
    have hi' : i < mem.pimpCount ∨ i = mem.pimpCount := by omega
    have hj' : j < mem.pimpCount ∨ j = mem.pimpCount := by omega
    rcases hi' with hi' | rfl
    · rcases hj' with hj' | rfl
      · rw [hold i hi', hold j hj'] at hsame
        exact h.distinct i hi' j hj' hsame
      · rw [hold i hi', Function.update_self] at hsame
        exact (hnew i hi' hsame).elim
    · rcases hj' with hj' | rfl
      · rw [hold j hj', Function.update_self] at hsame
        exact (hnew j hj' hsame.symm).elim
      · rfl
  · dsimp only at hi ⊢
    have hi' : i < mem.pimpCount ∨ i = mem.pimpCount := by omega
    rcases hi' with hi' | rfl
    · rw [hold i hi']
      refine h.last_append hi' fun huser => ?_
      exact hnew i hi' huser.symm
    · refine ⟨uCur, ?_⟩
      rw [Function.update_self, lastEvent_append, PimpEvent.user, if_pos rfl]

/-- pimp_rule_add, with the event that is logged for it. -/
theorem Logged.pimpRuleAdd_ensures (h : Logged mem log) (hlength : username.chars.length < 32)
    (caps noPass sessionOnly : UInt32) :
    (pimpRuleAdd username caps noPass sessionOnly).Ensures mem fun ok mem' =>
      if ok then ∀ uCur, Logged mem' (log ++ [.added uCur username caps noPass])
      else Logged mem' log := by
  simp only [pimpRuleAdd, Code.ensures_bind, Code.ensures_memory]
  split
  · exact h
  cases hfound : findRule mem username with
  | some i =>
    obtain ⟨hi, rfl⟩ := findRule_eq_some hfound
    have hname : ruleName { mem.pimpRules i with
        allowedCaps := caps, noPass := noPass, sessionOnly := sessionOnly } =
          ruleName (mem.pimpRules i) := rfl
    intro uCur
    exact h.replace hi hname uCur
  | none =>
    have hother := findRule_eq_none hfound
    have hname : ruleName ⟨storeAt (mem.pimpRules mem.pimpCount).user 0 (username.chars ++ [0]),
        caps, noPass, sessionOnly⟩ = username := ofBytes_storeAt _ hlength
    intro uCur
    have hlogged := h.snoc (fun i hi => by rw [hname]; exact hother i hi) uCur
    rw [hname] at hlogged
    exact hlogged

/-- The rules behind the first `count` ones move up over rule `i`. -/
theorem moveUp_index {i j count : ℕ} (hi : i < count) (hj : j < count - 1) :
    ∃ k < count, k ≠ i ∧ (if i ≤ j ∧ j + 1 < count then j + 1 else j) = k ∧
      (j < i → k = j) ∧ (i ≤ j → k = j + 1) := by
  by_cases hij : i ≤ j
  · rw [if_pos ⟨hij, by omega⟩]
    exact ⟨j + 1, by omega, by omega, rfl, fun h => by omega, fun _ => rfl⟩
  · rw [if_neg fun hboth => hij hboth.1]
    exact ⟨j, by omega, by omega, rfl, fun _ => rfl, fun h => (hij h).elim⟩

/-- pimp_rule_remove, with the event that is logged for it. -/
theorem Logged.pimpRuleRemove_ensures (h : Logged mem log) :
    (pimpRuleRemove username).Ensures mem fun ok mem' =>
      if ok then Logged mem' (log ++ [.removed username]) else Logged mem' log := by
  simp only [pimpRuleRemove, Code.ensures_bind, Code.ensures_memory]
  cases hfound : findRule mem username with
  | none => exact h
  | some i =>
    obtain ⟨hi, hname⟩ := findRule_eq_some hfound
    simp only [Code.ensures_bind, Code.ensures_modify, Code.ensures_pure, if_true]
    -- slot `j` has the rule of slot `moved j`, which is not the removed one
    have hmoved : ∀ j < mem.pimpCount - 1, ∃ k < mem.pimpCount, k ≠ i ∧
        (if i ≤ j ∧ j + 1 < mem.pimpCount then mem.pimpRules (j + 1) else mem.pimpRules j) =
          mem.pimpRules k ∧ (j < i → k = j) ∧ (i ≤ j → k = j + 1) := by
      intro j hj
      obtain ⟨k, hk, hne, hindex, hbelow, habove⟩ := moveUp_index hi hj
      refine ⟨k, hk, hne, ?_, hbelow, habove⟩
      rw [← hindex]
      split <;> rfl
    refine ⟨fun j hj k hk hsame => ?_, fun j hj => ?_⟩
    · obtain ⟨j', hj', _, hrule, hbelow, habove⟩ := hmoved j hj
      obtain ⟨k', hk', _, hrule', hbelow', habove'⟩ := hmoved k hk
      dsimp only at hsame
      rw [hrule, hrule'] at hsame
      have hindex := h.distinct j' hj' k' hk' hsame
      omega
    · obtain ⟨k, hk, hne, hrule, _, _⟩ := hmoved j hj
      dsimp only
      rw [hrule]
      refine h.last_append hk fun huser => hne ?_
      exact h.distinct k hk i hi (huser.symm.trans hname.symm)

/-- A user whom pimp_check admits has the rule of the last event about it. -/
theorem Logged.of_pimpCheck (h : Logged mem log) {capType : UInt32}
    (hcheck : pimpCheck mem username capType = true) : ∃ i uCur,
      findRule mem username = some i ∧ (mem.pimpRules i).allowedCaps ≠ 0 ∧
        lastEvent log username = some (.added uCur username (mem.pimpRules i).allowedCaps
          (mem.pimpRules i).noPass) := by
  obtain ⟨rule, hmem, hadmits⟩ := List.any_eq_true.mp hcheck
  obtain ⟨i, hi, rfl⟩ := List.mem_map.mp hmem
  have hi : i < mem.pimpCount := List.mem_range.mp hi
  rw [Bool.and_eq_true, beq_iff_eq, Bool.or_eq_true, beq_iff_eq, bne_iff_ne] at hadmits
  obtain ⟨rfl, hcaps⟩ := hadmits
  have hnonzero : (mem.pimpRules i).allowedCaps ≠ 0 := by
    rintro hzero
    rw [hzero, UInt32.zero_and] at hcaps
    rcases hcaps with hall | hsome
    · exact absurd hall (by decide)
    · exact hsome rfl
  cases hfound : findRule mem (ruleName (mem.pimpRules i)) with
  | none => exact (findRule_eq_none hfound i hi rfl).elim
  | some j =>
    obtain ⟨hj, hname⟩ := findRule_eq_some hfound
    obtain rfl : j = i := h.distinct j hj i hi hname
    obtain ⟨uCur, hlast⟩ := h.last j hj
    exact ⟨j, uCur, rfl, hnonzero, hlast⟩

end Events

section Commands

/-- What `pimp add` in a command line adds. -/
def pimpAddTarget (args : CString) : Option (CString × UInt32 × UInt32) :=
  if firstWord 15 args = literal ['a', 'd', 'd'] ∧ (restWords 15 31 args).chars ≠ [] then
    some (pimpTarget (restWords 15 31 args))
  else none

/-- The events of cmd_pimp. -/
def PimpEvent.OfPimp (uCur : ℕ) (args : CString) : PimpEvent → Prop
  | .added uCur' username caps noPass =>
    uCur' = uCur ∧ pimpAddTarget args = some (username, caps, noPass)
  | .removed _ => True

/-- The events of a command that is not diese. -/
def PimpEvent.OfCommand (uCur : ℕ) (cmd args : CString) (event : PimpEvent) : Prop :=
  cmd = literal ['p', 'i', 'm', 'p'] ∧ event.OfPimp uCur args

/-- The events of execute_cmd. -/
def PimpEvent.OfLine (uCur : ℕ) (cmd args : CString) (event : PimpEvent) : Prop :=
  event.OfCommand uCur cmd args ∨ (cmd = literal ['d', 'i', 'e', 's', 'e'] ∧
    event.OfCommand 0 (firstWord 31 args) (restWords 31 95 args))

/-- Rules and log still fit, and every new event is of this kind. -/
structure Records (kind : PimpEvent → Prop) (shell shell' : ShellMemory) : Prop where
  /-- The rules are those of the log. -/
  logged : Logged shell'.kernel.store shell'.pimpLog
  /-- The new events are of this kind. -/
  events : ∃ events, shell'.pimpLog = shell.pimpLog ++ events ∧ ∀ event ∈ events, kind event

variable {shell shell' : ShellMemory} {kind kind' : PimpEvent → Prop}

theorem Logged.of_view {mem mem' : Memory} {log : List PimpEvent} (h : Logged mem log)
    (hkept : ruleView mem' = ruleView mem) : Logged mem' log := by
  simp only [ruleView, Prod.mk.injEq] at hkept
  obtain ⟨hdistinct, hlast⟩ := h
  rw [← hkept.1, ← hkept.2] at hdistinct hlast
  exact ⟨hdistinct, hlast⟩

/-- Code that leaves the rules and the log alone. -/
theorem Records.of_keeps (hlogged : Logged shell.kernel.store shell.pimpLog)
    (hkept : loggedRules shell' = loggedRules shell) : Records kind shell shell' := by
  simp only [loggedRules, Prod.mk.injEq] at hkept
  refine ⟨?_, [], by rw [hkept.2, List.append_nil], List.forall_mem_nil _⟩
  rw [hkept.2]
  exact hlogged.of_view hkept.1

theorem Records.mono (h : Records kind shell shell') (himp : ∀ event, kind event → kind' event) :
    Records kind' shell shell' := by
  obtain ⟨events, hlog, hkinds⟩ := h.events
  exact ⟨h.logged, events, hlog, fun event hevent => himp event (hkinds event hevent)⟩

/-- Code that keeps rules and log before and behind. -/
theorem Records.congr (h : Records kind shell shell') {before after : ShellMemory}
    (hbefore : loggedRules shell = loggedRules before)
    (hafter : loggedRules after = loggedRules shell') : Records kind before after := by
  simp only [loggedRules, Prod.mk.injEq] at hbefore hafter
  obtain ⟨events, hlog, hkinds⟩ := h.events
  refine ⟨?_, events, by rw [hafter.2, hlog, hbefore.2], hkinds⟩
  rw [hafter.2]
  exact h.logged.of_view hafter.1

theorem onMemory_ensures {α : Type} {code : HexafsM α} {post : α → ShellMemory → Prop}
    (h : code.Ensures shell.kernel.store fun value mem =>
      post value { shell with kernel := { shell.kernel with store := mem } }) :
    (onMemory code).Ensures shell post := by
  refine (Program.ensures_bind _ _).mpr ((Program.ensures_bind _ _).mpr ?_)
  exact h

theorem pimpTarget_length {uname : CString} (hlength : uname.chars.length < 32) :
    (pimpTarget uname).1.chars.length < 32 := by
  rw [pimpTarget]
  split
  · have hle := (List.takeWhile_sublist (· ≠ 61) (l := uname.chars)).length_le
    exact Nat.lt_of_le_of_lt hle hlength
  · exact hlength

theorem restWords_length (firstLimit limit : ℕ) (args : CString) :
    (restWords firstLimit limit args).chars.length ≤ limit :=
  List.length_take_le _ _

/-- cmd_pimp -/
theorem cmdPimp_records (hlogged : Logged shell.kernel.store shell.pimpLog) (args : CString) :
    (cmdPimp args).Ensures shell fun _ shell' =>
      Records (PimpEvent.OfPimp shell.kernel.store.uCur args) shell shell' := by
  have hrefl : ∀ kind, Records kind shell shell := fun kind => .of_keeps hlogged rfl
  have hlength : (restWords 15 31 args).chars.length < 32 :=
    Nat.lt_succ_of_le (restWords_length 15 31 args)
  rw [cmdPimp]
  split
  · exact hrefl _
  split
  · rename_i hadd
    rw [pimpAdd]
    split
    · exact hrefl _
    rename_i hname
    have htarget : pimpAddTarget args = some (pimpTarget (restWords 15 31 args)) := by
      rw [pimpAddTarget, if_pos ⟨hadd, hname⟩]
    simp only [memory, Code.ensures_bind, Code.ensures_memory, Code.ensures_pure]
    refine onMemory_ensures ((hlogged.pimpRuleAdd_ensures (pimpTarget_length hlength) _ _ _).mono
      fun ok mem hdone => ?_)
    cases ok with
    | false =>
      exact ⟨hdone, [], by rw [List.append_nil], List.forall_mem_nil _⟩
    | true =>
      simp only [logPimp, if_true, Code.ensures_bind, Code.ensures_modify]
      refine (onMemory_keepsRules pimpSaveRules_keeps _).mono fun _ shell' hkept => ?_
      have hadded : Records (PimpEvent.OfPimp shell.kernel.store.uCur args) shell
          { shell with
            kernel := { shell.kernel with store := mem }
            pimpLog := shell.pimpLog ++ [.added shell.kernel.store.uCur
              (pimpTarget (restWords 15 31 args)).1 (pimpTarget (restWords 15 31 args)).2.1
                (pimpTarget (restWords 15 31 args)).2.2] } := by
        refine ⟨hdone _, _, rfl, fun event hevent => ?_⟩
        rw [List.mem_singleton.mp hevent]
        exact ⟨rfl, htarget⟩
      exact hadded.congr rfl hkept
  split
  · rw [pimpRemove]
    split
    · exact hrefl _
    rw [Code.ensures_bind]
    refine onMemory_ensures (hlogged.pimpRuleRemove_ensures.mono fun ok mem hdone => ?_)
    cases ok with
    | false => exact ⟨hdone, [], by rw [List.append_nil], List.forall_mem_nil _⟩
    | true =>
      simp only [logPimp, if_true, Code.ensures_bind, Code.ensures_modify]
      refine (onMemory_keepsRules pimpSaveRules_keeps _).mono fun _ shell' hkept => ?_
      have hremoved : Records (PimpEvent.OfPimp shell.kernel.store.uCur args) shell
          { shell with
            kernel := { shell.kernel with store := mem }
            pimpLog := shell.pimpLog ++ [.removed (restWords 15 31 args)] } := by
        refine ⟨hdone, _, rfl, fun event hevent => ?_⟩
        rw [List.mem_singleton.mp hevent]
        trivial
      exact hremoved.congr rfl hkept
  · exact hrefl _

/-- The shell after u_cur is set. -/
def ShellMemory.withUser (shell : ShellMemory) (i : ℕ) : ShellMemory :=
  { shell with kernel := { shell.kernel with store := { shell.kernel.store with uCur := i } } }

theorem setUser_ensures {i : ℕ} {post : Unit → ShellMemory → Prop} :
    (setUser i).Ensures shell post ↔ post () (shell.withUser i) := Iff.rfl

theorem records_of_keepsRules {α : Type} {code : ShellM α} (h : KeepsRules code)
    (hlogged : Logged shell.kernel.store shell.pimpLog) (kind : PimpEvent → Prop) :
    code.Ensures shell fun _ shell' => Records kind shell shell' :=
  (h shell).mono fun _ _ hkept => .of_keeps hlogged hkept

/-- A sequence whose first part leaves the rules and the log alone. -/
theorem KeepsRules.records_bind {α β : Type} {code : ShellM α} {rest : α → ShellM β}
    (h : KeepsRules code) (hlogged : Logged shell.kernel.store shell.pimpLog)
    (hrest : ∀ value shell', Logged shell'.kernel.store shell'.pimpLog →
      (rest value).Ensures shell' fun _ after => Records kind shell' after) :
    (code >>= rest).Ensures shell fun _ after => Records kind shell after := by
  rw [Code.ensures_bind]
  refine (h shell).mono fun value shell' hkept => ?_
  have hkept' := hkept
  simp only [loggedRules, Prod.mk.injEq] at hkept'
  have hlogged' : Logged shell'.kernel.store shell'.pimpLog := by
    rw [hkept'.2]
    exact hlogged.of_view hkept'.1
  exact (hrest value shell' hlogged').mono fun _ after hdone => hdone.congr hkept rfl

/-- diese around a command that it runs as root. -/
theorem cmdDiese_records {nested : Command} {args : CString}
    (hnested : ∀ root : ShellMemory, Logged root.kernel.store root.pimpLog →
      root.kernel.store.uCur = 0 → (nested (firstWord 31 args) (restWords 31 95 args)).Ensures root
        fun _ after => Records kind root after)
    (hlogged : Logged shell.kernel.store shell.pimpLog) :
    (cmdDiese nested args).Ensures shell fun _ after => Records kind shell after := by
  have hrefl : ∀ shell : ShellMemory, Logged shell.kernel.store shell.pimpLog →
      Records kind shell shell := fun shell hlogged => .of_keeps hlogged rfl
  refine memory_keepsRules.records_bind hlogged fun mem shell hlogged => ?_
  split
  · exact hrefl shell hlogged
  split
  · exact hrefl shell hlogged
  refine (liftStop_keepsRules _).records_bind hlogged fun uname shell hlogged => ?_
  have hgranted : KeepsRules (dieseGranted mem uname) :=
    Code.Keeps.ite (Code.keeps_pure _) diesePassword_keepsRules
  refine hgranted.records_bind hlogged fun granted shell hlogged => ?_
  split
  · rw [Code.ensures_bind, setUser_ensures, Code.ensures_bind]
    have hroot : Logged (shell.withUser 0).kernel.store (shell.withUser 0).pimpLog :=
      hlogged.of_view rfl
    refine (hnested _ hroot rfl).mono fun _ after hdone => ?_
    rw [setUser_ensures]
    exact hdone.congr rfl rfl
  · exact hrefl shell hlogged

variable {others nested : Command}

/-- execute_cmd around its call of itself. -/
theorem dispatch_records (hothers : ∀ cmd args, KeepsRules (others cmd args)) {cmd args : CString}
    (hlogged : Logged shell.kernel.store shell.pimpLog)
    (hpimp : cmd = literal ['p', 'i', 'm', 'p'] →
      ∀ event, PimpEvent.OfPimp shell.kernel.store.uCur args event → kind event)
    (hdiese : cmd = literal ['d', 'i', 'e', 's', 'e'] →
      (cmdDiese nested args).Ensures shell fun _ after => Records kind shell after) :
    (dispatch others nested cmd args).Ensures shell fun _ after => Records kind shell after := by
  have hkeeps : ∀ {code : ShellM Bool}, KeepsRules code → code.Ensures shell fun _ after =>
      Records kind shell after := fun h => records_of_keepsRules h hlogged _
  rw [dispatch]
  split
  · rename_i hcmd
    rw [Code.ensures_bind]
    exact (cmdPimp_records hlogged args).mono fun _ after hdone => hdone.mono (hpimp hcmd)
  split
  · rename_i hcmd
    rw [Code.ensures_bind]
    exact hdiese hcmd
  split
  · refine hkeeps ((cmdUseradd_keepsRules args).bind fun _ => ?_)
    exact saveShell_keepsRules.bind fun _ => Code.keeps_pure _
  split
  · refine hkeeps (cmdPasswd_keepsRules.bind fun _ => ?_)
    exact saveShell_keepsRules.bind fun _ => Code.keeps_pure _
  split
  · exact hkeeps ((cmdLogin_keepsRules args).bind fun _ => Code.keeps_pure _)
  split
  · exact hkeeps (doLogin_keepsRules.bind fun _ => Code.keeps_pure _)
  · exact hkeeps (hothers cmd args)

/-- diese as root runs no command. -/
theorem cmdDiese_root (nested : Command) (args : CString) (hroot : shell.kernel.store.uCur = 0) :
    cmdDiese nested args shell = .done ((), shell) := by
  have hrun : cmdDiese nested args shell =
      (if args.chars = [] then pure () else if shell.kernel.store.uCur = 0 then pure ()
        else do
          let uname ← onMemory (liftStop
            (copyOut (shell.kernel.store.uTable shell.kernel.store.uCur).name))
          let granted ← dieseGranted shell.kernel.store uname
          if granted then
            setUser 0
            let _ ← nested (firstWord 31 args) (restWords 31 95 args)
            setUser shell.kernel.store.uCur
          else pure () : ShellM Unit) shell := rfl
  rw [hrun, if_pos hroot, ite_self]
  rfl

/-- The command behind diese is not diese again. -/
theorem dispatch_root (hothers : ∀ cmd args, KeepsRules (others cmd args)) (cmd args : CString)
    (hlogged : Logged shell.kernel.store shell.pimpLog) (hroot : shell.kernel.store.uCur = 0) :
    (dispatch others nested cmd args).Ensures shell fun _ after =>
      Records (PimpEvent.OfCommand 0 cmd args) shell after := by
  refine dispatch_records hothers hlogged (fun hcmd event hevent => ⟨hcmd, ?_⟩) fun _ => ?_
  · rw [hroot] at hevent
    exact hevent
  · rw [Code.Ensures, cmdDiese_root nested args hroot]
    exact .of_keeps hlogged rfl

/-- execute_cmd -/
theorem executeCmd_records (hothers : ∀ cmd args, KeepsRules (others cmd args))
    (cmd args : CString) (hlogged : Logged shell.kernel.store shell.pimpLog) :
    (executeCmd others cmd args).Ensures shell fun _ after =>
      Records (PimpEvent.OfLine shell.kernel.store.uCur cmd args) shell after := by
  refine dispatch_records hothers hlogged (fun hcmd event hevent => .inl ⟨hcmd, hevent⟩)
    fun hcmd => cmdDiese_records (fun root hlogged hroot => ?_) hlogged
  exact (dispatch_root hothers _ _ hlogged hroot).mono fun _ after hdone =>
    hdone.mono fun event hevent => .inr ⟨hcmd, hevent⟩

/-- A command that is run as root does not depend on what a diese in it would run. -/
theorem dispatch_congr_root (nested' : Command) (cmd args : CString)
    (hroot : shell.kernel.store.uCur = 0) :
    dispatch others nested cmd args shell = dispatch others nested' cmd args shell := by
  by_cases hcmd : cmd = literal ['d', 'i', 'e', 's', 'e']
  · have hbind : ∀ nested : Command, dispatch others nested cmd args shell =
        (cmdDiese nested args >>= fun _ => pure true : ShellM Bool) shell := by
      intro nested
      rw [dispatch, if_neg (by rw [hcmd]; decide), if_pos hcmd]
    rw [hbind, hbind]
    show (cmdDiese nested args shell).bind _ = (cmdDiese nested' args shell).bind _
    rw [cmdDiese_root nested args hroot, cmdDiese_root nested' args hroot]
  · rw [dispatch, dispatch, if_neg hcmd, if_neg hcmd]

/-- diese runs its command in states of root only. -/
theorem cmdDiese_congr {nested' : Command} (args : CString)
    (hroot : ∀ cmd args (shell : ShellMemory), shell.kernel.store.uCur = 0 →
      nested cmd args shell = nested' cmd args shell) :
    cmdDiese nested args = cmdDiese nested' args := by
  have hrun : ∀ saved : ℕ, (do
      setUser 0
      let _ ← nested (firstWord 31 args) (restWords 31 95 args)
      setUser saved) = (do
        setUser 0
        let _ ← nested' (firstWord 31 args) (restWords 31 95 args)
        setUser saved) := by
    intro saved
    funext shell
    show (nested (firstWord 31 args) (restWords 31 95 args) (shell.withUser 0)).bind _ =
      (nested' (firstWord 31 args) (restWords 31 95 args) (shell.withUser 0)).bind _
    rw [hroot _ _ (shell.withUser 0) rfl]
  simp only [cmdDiese, hrun]

/-- execute_cmd calls itself. -/
theorem executeCmd_eq (others : Command) :
    executeCmd others = dispatch others (executeCmd others) := by
  funext cmd args
  have hdiese : cmdDiese (dispatch others fun _ _ => pure false) args =
      cmdDiese (executeCmd others) args :=
    cmdDiese_congr args fun cmd args shell hroot => dispatch_congr_root _ cmd args hroot
  rw [executeCmd, dispatch, dispatch, hdiese]
  rfl

end Commands

section Runs

variable {env : Environment} {others : Command}

/-- The shell on its machine. -/
structure ShellSystem where
  /-- The memory of the shell. -/
  shell : ShellMemory
  /-- The device. -/
  dev : Device

/-- Run code on a system. -/
def ShellSystem.run {α : Type} (env : Environment) (code : ShellM α) (system : ShellSystem) :
    Except Stop (α × ShellSystem) :=
  match code.exec (cachedDevice env) system.shell system.dev with
  | .error stop => .error stop
  | .ok ((value, shell), dev) => .ok (value, ⟨shell, dev⟩)

/-- What code ensures holds behind its runs. -/
theorem ShellSystem.run_ensures {α : Type} {code : ShellM α} {system system' : ShellSystem}
    {post : α → ShellMemory → Prop} (h : code.Ensures system.shell post) {value : α}
    (hrun : system.run env code = .ok (value, system')) : post value system'.shell := by
  rw [ShellSystem.run] at hrun
  cases hexec : code.exec (cachedDevice env) system.shell system.dev with
  | error stop => rw [hexec] at hrun; cases hrun
  | ok result =>
    rw [hexec] at hrun
    simp only [Except.ok.injEq, Prod.mk.injEq] at hrun
    have hpost : post result.1.1 result.1.2 := h.of_exec hexec
    obtain ⟨rfl, rfl⟩ := hrun
    exact hpost

/-- What is done at the console. -/
inductive ShellInput where
  /-- do_login -/
  | login
  /-- execute_cmd -/
  | command (cmd args : CString)

/-- The code of an input. -/
def ShellInput.code (others : Command) : ShellInput → ShellM Unit
  | .login => doLogin
  | .command cmd args => do
    let _ ← executeCmd others cmd args
    pure ()

/-- An input whose code returned. -/
structure ShellStep where
  /-- What is typed. -/
  input : ShellInput
  /-- The system before it. -/
  before : ShellSystem
  /-- The system behind it. -/
  after : ShellSystem

namespace ShellStep

/-- The step is a run of its code. -/
def Runs (env : Environment) (others : Command) (step : ShellStep) : Prop :=
  step.before.run env (step.input.code others) = .ok ((), step.after)

/-- A `pimp add` is given by root, itself or behind diese, and its rule has no_pass set or
no capability. -/
def Allowed (step : ShellStep) : Prop :=
  match step.input with
  | .login => True
  | .command cmd args =>
    (cmd = literal ['p', 'i', 'm', 'p'] → ∀ username caps noPass,
      pimpAddTarget args = some (username, caps, noPass) →
        caps = 0 ∨ (step.before.shell.kernel.store.uCur = 0 ∧ noPass ≠ 0)) ∧
    (cmd = literal ['d', 'i', 'e', 's', 'e'] →
      firstWord 31 args = literal ['p', 'i', 'm', 'p'] → ∀ username caps noPass,
        pimpAddTarget (restWords 31 95 args) = some (username, caps, noPass) →
          caps = 0 ∨ noPass ≠ 0)

end ShellStep

/-- Inputs that follow each other. Between two inputs anything may happen that leaves the
rules alone. -/
inductive ShellRun (env : Environment) (others : Command) (first : ShellSystem) :
    List ShellStep → ShellSystem → Prop where
  | start : ShellRun env others first [] first
  | other {steps : List ShellStep} {last other : ShellSystem}
      (run : ShellRun env others first steps last)
      (same : loggedRules other.shell = loggedRules last.shell) :
      ShellRun env others first steps other
  | input {steps : List ShellStep} {step : ShellStep}
      (run : ShellRun env others first steps step.before) (runs : step.Runs env others) :
      ShellRun env others first (steps ++ [step]) step.after

/-- No rules were loaded at boot. -/
structure ShellMemory.NoRules (shell : ShellMemory) : Prop where
  /-- There is no rule. -/
  pimpCount : shell.kernel.store.pimpCount = 0
  /-- Nothing is logged. -/
  pimpLog : shell.pimpLog = []

/-- An event that gives no capability, or that root gave with no_pass set. -/
def PimpEvent.Granted : PimpEvent → Prop
  | .added uCur _ caps noPass => caps = 0 ∨ (uCur = 0 ∧ noPass ≠ 0)
  | .removed _ => True

/-- diese runs commands for this user without asking for a password. -/
def Unasked (mem : Memory) (username : CString) : Prop :=
  mem.uCur ≠ 0 ∧ copyOut (mem.uTable mem.uCur).name = .ok username ∧
    pimpCheck mem username 0xFFFFFFFF = true

/-- The rule of a user has no_pass set, and the last event about the user is that root put
this rule there. -/
def PutByRoot (shell : ShellMemory) (username : CString) : Prop :=
  ∃ i, findRule shell.kernel.store username = some i ∧
    (shell.kernel.store.pimpRules i).noPass ≠ 0 ∧
      lastEvent shell.pimpLog username = some (.added 0 username
        (shell.kernel.store.pimpRules i).allowedCaps (shell.kernel.store.pimpRules i).noPass)

variable {first last : ShellSystem} {steps : List ShellStep} {step : ShellStep}

theorem ShellMemory.NoRules.logged {shell : ShellMemory} (h : shell.NoRules) :
    Logged shell.kernel.store shell.pimpLog where
  distinct i hi := by
    rw [h.pimpCount] at hi
    omega
  last i hi := by
    rw [h.pimpCount] at hi
    omega

/-- One step. -/
theorem ShellStep.Runs.records (hruns : step.Runs env others)
    (hothers : ∀ cmd args, KeepsRules (others cmd args)) (hallowed : step.Allowed)
    (hlogged : Logged step.before.shell.kernel.store step.before.shell.pimpLog) :
    Records PimpEvent.Granted step.before.shell step.after.shell := by
  obtain ⟨input, before, after⟩ := step
  have hrun : before.run env (input.code others) = .ok ((), after) := hruns
  suffices hcode : (input.code others).Ensures before.shell fun _ after =>
      Records PimpEvent.Granted before.shell after from ShellSystem.run_ensures hcode hrun
  cases input with
  | login => exact records_of_keepsRules doLogin_keepsRules hlogged _
  | command cmd args =>
    rw [ShellInput.code, Code.ensures_bind]
    refine (executeCmd_records hothers cmd args hlogged).mono fun _ after hdone => ?_
    refine hdone.mono fun event hevent => ?_
    cases event with
    | removed username => trivial
    | added uCur username caps noPass =>
      rcases hevent with ⟨hcmd, rfl, htarget⟩ | ⟨hcmd, hnested, rfl, htarget⟩
      · exact hallowed.1 hcmd username caps noPass htarget
      · exact (hallowed.2 hcmd hnested username caps noPass htarget).imp_right fun h => ⟨rfl, h⟩

/-- A whole run. -/
theorem ShellRun.granted (h : ShellRun env others first steps last)
    (hothers : ∀ cmd args, KeepsRules (others cmd args)) (hfirst : first.shell.NoRules)
    (hallowed : ∀ step ∈ steps, step.Allowed) :
    Logged last.shell.kernel.store last.shell.pimpLog ∧
      ∀ event ∈ last.shell.pimpLog, event.Granted := by
  induction h with
  | start =>
    refine ⟨hfirst.logged, fun event hevent => ?_⟩
    rw [hfirst.pimpLog] at hevent
    cases hevent
  | other run same ih =>
    obtain ⟨hlogged, hgranted⟩ := ih hallowed
    simp only [loggedRules, Prod.mk.injEq] at same
    rw [same.2]
    exact ⟨hlogged.of_view same.1, hgranted⟩
  | @input steps step run runs ih =>
    obtain ⟨hlogged, hgranted⟩ := ih fun other hother =>
      hallowed other (List.mem_append_left _ hother)
    obtain ⟨hlogged', events, hlog, hevents⟩ :=
      runs.records hothers (hallowed step (by simp)) hlogged
    refine ⟨hlogged', fun event hevent => ?_⟩
    rw [hlog] at hevent
    exact (List.mem_append.mp hevent).elim (hgranted event) (hevents event)

/-- In every run of allowed inputs after a boot that loaded no rules: whenever diese would
run a command for a user without asking for a password, root put the rule of the user
there with no_pass set, and nothing about the user came after that. -/
theorem shellRun_putByRoot (hothers : ∀ cmd args, KeepsRules (others cmd args))
    (h : ShellRun env others first steps last) (hfirst : first.shell.NoRules)
    (hallowed : ∀ step ∈ steps, step.Allowed) {username : CString}
    (hunasked : Unasked last.shell.kernel.store username) : PutByRoot last.shell username := by
  obtain ⟨hlogged, hgranted⟩ := h.granted hothers hfirst hallowed
  obtain ⟨i, uCur, hfound, hcaps, hlast⟩ := hlogged.of_pimpCheck hunasked.2.2
  have hmem : PimpEvent.added uCur username (last.shell.kernel.store.pimpRules i).allowedCaps
      (last.shell.kernel.store.pimpRules i).noPass ∈ last.shell.pimpLog :=
    List.mem_reverse.mp (List.mem_of_find?_eq_some hlast)
  obtain ⟨rfl, hnoPass⟩ := (hgranted _ hmem).resolve_left hcaps
  exact ⟨i, hfound, hnoPass, hlast⟩

/-- What diese does for such a user: it runs the command as root. -/
theorem cmdDiese_unasked {shell : ShellMemory} {username args : CString} (nested : Command)
    (hargs : args.chars ≠ []) (hunasked : Unasked shell.kernel.store username) :
    cmdDiese nested args shell = (do
      setUser 0
      let _ ← nested (firstWord 31 args) (restWords 31 95 args)
      setUser shell.kernel.store.uCur) shell := by
  obtain ⟨huser, hname, hcheck⟩ := hunasked
  have hrun : cmdDiese nested args shell =
      (if args.chars = [] then pure () else if shell.kernel.store.uCur = 0 then pure ()
        else do
          let uname ← onMemory (liftStop
            (copyOut (shell.kernel.store.uTable shell.kernel.store.uCur).name))
          let granted ← dieseGranted shell.kernel.store uname
          if granted then
            setUser 0
            let _ ← nested (firstWord 31 args) (restWords 31 95 args)
            setUser shell.kernel.store.uCur
          else pure () : ShellM Unit) shell := rfl
  have hgranted : dieseGranted shell.kernel.store username = pure true := if_pos hcheck
  have hcopied : onMemory (liftStop (Except.ok username)) = (pure username : ShellM CString) := rfl
  rw [hrun, if_neg hargs, if_neg huser, hname, hcopied, pure_bind, hgranted, pure_bind, if_pos rfl]

/-- "bob" -/
def bob : CString := literal ['b', 'o', 'b']

/-- A shell with a user bob beside root, before anything is typed but bob's password. -/
def bobSystem (uCur : ℕ) : ShellSystem where
  shell :=
    { kernel := oneFormKernel { Memory.boot with
        uCount := 2
        uCur := uCur
        uTable := Function.update Memory.boot.uTable 1
          ⟨storeAt (Vector.replicate 32 0) 0 (bob.chars ++ [0]),
            encodePwd (Vector.replicate 32 0) bob 0, 0⟩ } []
      ticks := 0
      typed := [bob]
      pimpLog := [] }
  dev := (Machine.boot blankDisk).dev

/-- No command but those on accounts and rules. -/
def noOthers : Command := fun _ _ => pure false

/-- `pimp add` with this argument. -/
def addInput (argument : List Char) : ShellInput :=
  .command (literal ['p', 'i', 'm', 'p']) (literal (['a', 'd', 'd', ' '] ++ argument))

/-- `login bob` -/
def loginInput : ShellInput := .command (literal ['l', 'o', 'g', 'i', 'n']) bob

theorem bobSystem_noRules (uCur : ℕ) : (bobSystem uCur).shell.NoRules := ⟨rfl, rfl⟩

/-- bob adds a rule for himself; and root adds one without no_pass, which diese does not
look at. -/
theorem diese_ruleNotByRoot :
    (∃ (last : ShellSystem) (added : ShellStep),
      ShellRun .faultless noOthers (bobSystem 1) [added] last ∧ added.input = addInput ['b', 'o', 'b'] ∧
        Unasked last.shell.kernel.store bob ∧ ¬PutByRoot last.shell bob) ∧
    ∃ (last : ShellSystem) (added entered : ShellStep),
      ShellRun .faultless noOthers (bobSystem 0) [added, entered] last ∧
        added.input = addInput ['b', 'o', 'b', '=', '4'] ∧ entered.input = loginInput ∧
          Unasked last.shell.kernel.store bob ∧ ¬PutByRoot last.shell bob := by
  constructor
  · obtain ⟨last, hrun, hunasked, hlast⟩ : ∃ last : ShellSystem,
        (bobSystem 1).run .faultless ((addInput ['b', 'o', 'b']).code noOthers) = .ok ((), last) ∧
          Unasked last.shell.kernel.store bob ∧
            lastEvent last.shell.pimpLog bob = some (.added 1 bob 0xFFFFFFFF 1) := by
      refine ⟨_, rfl, ⟨Nat.one_ne_zero, rfl, rfl⟩, rfl⟩
    let added : ShellStep := ⟨addInput ['b', 'o', 'b'], bobSystem 1, last⟩
    have hadded : added.Runs .faultless noOthers := hrun
    refine ⟨last, added, .input .start hadded, rfl, hunasked, fun hput => ?_⟩
    obtain ⟨i, _, _, hroot⟩ := hput
    rw [hlast, Option.some.injEq, PimpEvent.added.injEq] at hroot
    exact absurd hroot.1 Nat.one_ne_zero
  · obtain ⟨middle, hadd, last, hlogin, hunasked, hfound, hnoPass⟩ : ∃ middle : ShellSystem,
        (bobSystem 0).run .faultless ((addInput ['b', 'o', 'b', '=', '4']).code noOthers) =
          .ok ((), middle) ∧ ∃ last : ShellSystem,
            middle.run .faultless (loginInput.code noOthers) = .ok ((), last) ∧
              Unasked last.shell.kernel.store bob ∧ findRule last.shell.kernel.store bob = some 0 ∧
                (last.shell.kernel.store.pimpRules 0).noPass = 0 := by
      refine ⟨_, rfl, _, rfl, ⟨Nat.one_ne_zero, rfl, rfl⟩, rfl, rfl⟩
    let added : ShellStep := ⟨addInput ['b', 'o', 'b', '=', '4'], bobSystem 0, middle⟩
    let entered : ShellStep := ⟨loginInput, middle, last⟩
    have hadded : added.Runs .faultless noOthers := hadd
    have hentered : entered.Runs .faultless noOthers := hlogin
    refine ⟨last, added, entered, .input (.input .start hadded) hentered, rfl, rfl, hunasked,
      fun hput => ?_⟩
    obtain ⟨i, hsome, hset, _⟩ := hput
    rw [hfound, Option.some.injEq] at hsome
    rw [← hsome, hnoPass] at hset
    exact hset rfl

/-- Root adds a rule for bob, who then logs in. -/
theorem shellRun_putByRoot_bob : ∃ (last : ShellSystem) (added entered : ShellStep),
    ShellRun .faultless noOthers (bobSystem 0) [added, entered] last ∧
      Unasked last.shell.kernel.store bob ∧ PutByRoot last.shell bob := by
  obtain ⟨middle, hadd, last, hlogin, hunasked⟩ : ∃ middle : ShellSystem,
      (bobSystem 0).run .faultless ((addInput ['b', 'o', 'b']).code noOthers) =
        .ok ((), middle) ∧ ∃ last : ShellSystem,
          middle.run .faultless (loginInput.code noOthers) = .ok ((), last) ∧
            Unasked last.shell.kernel.store bob := by
    refine ⟨_, rfl, _, rfl, Nat.one_ne_zero, rfl, rfl⟩
  let added : ShellStep := ⟨addInput ['b', 'o', 'b'], bobSystem 0, middle⟩
  let entered : ShellStep := ⟨loginInput, middle, last⟩
  have hadded : added.Runs .faultless noOthers := hadd
  have hentered : entered.Runs .faultless noOthers := hlogin
  have hrun : ShellRun .faultless noOthers (bobSystem 0) [added, entered] last :=
    .input (.input .start hadded) hentered
  refine ⟨last, added, entered, hrun, hunasked,
    shellRun_putByRoot (fun _ _ => Code.keeps_pure _) hrun (bobSystem_noRules 0)
      (fun step hstep => ?_) hunasked⟩
  rcases List.mem_cons.mp hstep with rfl | hstep
  · refine ⟨fun _ username caps noPass htarget => .inr ⟨rfl, ?_⟩, fun hcmd => absurd hcmd (by decide)⟩
    have hbob : some (bob, (0xFFFFFFFF : UInt32), (1 : UInt32)) = some (username, caps, noPass) :=
      htarget
    simp only [Option.some.injEq, Prod.mk.injEq] at hbob
    rw [← hbob.2.2]
    decide
  · rw [List.mem_singleton.mp hstep]
    exact ⟨fun hcmd => absurd hcmd (by decide), fun hcmd => absurd hcmd (by decide)⟩

end Runs

end HexaOS.Shell
