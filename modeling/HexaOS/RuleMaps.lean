import HexaOS.ShellRules
import HexaOS.SlotMaps
import HexaOS.StepRuns

/-!
# The rules as a finite map

pimp_rule_add, pimp_rule_remove and pimp_check work on an array of at most 32 rules. They are
compared with a finite map of that capacity over whole sequences of calls. The two part where
a user with a rule gets another one while the array is full: pimp_rule_add looks at the
number of rules before it looks for the user.
-/

namespace HexaOS.Shell

open DevicePrograms PackedBytes Hexafs SlotMaps StepRuns

section Specification

/-- What a rule says about its user. -/
structure Grant where
  /-- The capabilities that are allowed. -/
  allowedCaps : UInt32
  /-- May the password be left out? -/
  noPass : UInt32
  /-- Does the rule end with the session? -/
  sessionOnly : UInt32
  deriving DecidableEq

/-- The rules as a map from users. -/
abbrev GrantMap : Type := KeyMap CString Grant

/-- The fields of a rule behind the name. -/
def ruleGrant (rule : PimpRule) : Grant := ⟨rule.allowedCaps, rule.noPass, rule.sessionOnly⟩

/-- A call that changes the rules. -/
inductive RuleCall where
  | add (username : CString) (grant : Grant)
  | remove (username : CString)

/-- The call as hexafs.c makes it. -/
def RuleCall.code : RuleCall → HexafsM Bool
  | .add username grant =>
    pimpRuleAdd username grant.allowedCaps grant.noPass grant.sessionOnly
  | .remove username => pimpRuleRemove username

/-- The call on a map with at most 32 users. -/
def RuleCall.onMap : RuleCall → GrantMap → Bool × GrantMap
  | .add username grant => insertWithin pimpRuleMax username grant
  | .remove username => eraseKnown username

/-- The names that pimp_rule_add is given have 1 to 31 characters. -/
def RuleCall.NameFits : RuleCall → Prop
  | .add username _ => 1 ≤ username.chars.length ∧ username.chars.length < 32
  | .remove _ => True

/-- The array of rules is this map, and pimp_check answers from it. -/
structure RulesAre (mem : Memory) (map : GrantMap) : Prop where
  /-- The table shows the map. -/
  shows : Shows ruleName ruleGrant mem.pimpRules mem.pimpCount map
  /-- It has at most 32 rules. -/
  capacity : mem.pimpCount ≤ pimpRuleMax
  /-- The check allows what the map does. -/
  check : ∀ username capType, capType ≠ 0 → (pimpCheck mem username capType = true ↔
    ∃ grant, map.lookup username = some grant ∧ grant.allowedCaps &&& capType ≠ 0)

/-- The machine and the map that its rules should be. -/
structure RuleState where
  /-- The machine. -/
  machine : Machine
  /-- The map beside it. -/
  map : GrantMap

/-- The rules are what the map says. -/
def RuleState.Sound (state : RuleState) : Prop := RulesAre state.machine.mem state.map

/-- A call on both. -/
def ruleStep (env : Environment) (call : RuleCall) (state : RuleState) : RuleState :=
  let map := (call.onMap state.map).2
  match state.machine.run env call.code with
  | .ok (_, machine) => ⟨machine, map⟩
  | .error _ => ⟨state.machine, map⟩

/-- The call answers like the map and leaves the rules as it leaves the map. -/
def Agrees (env : Environment) (call : RuleCall) (state : RuleState) : Prop :=
  ∃ machine, state.machine.run env call.code = .ok ((call.onMap state.map).1, machine) ∧
    RulesAre machine.mem (call.onMap state.map).2

/-- The call does not change the rule of a user while there are 32 rules. -/
def FindsRoom : RuleCall → RuleState → Prop
  | .add username _, state => state.machine.mem.pimpCount = pimpRuleMax →
    ∀ i < state.machine.mem.pimpCount, ruleName (state.machine.mem.pimpRules i) ≠ username
  | .remove _, _ => True

end Specification

section Calls

variable {env : Environment} {machine : Machine} {map : GrantMap} {mem : Memory}
variable {username : CString}

/-- Code that begins with a look at the statics. -/
theorem run_memory_bind {α : Type} (rest : Memory → HexafsM α) :
    machine.run env (Code.memory >>= rest) = machine.run env (rest machine.mem) := rfl

/-- A user has no rule, or the first one is found. -/
theorem findRule_cases (mem : Memory) (username : CString) :
    (findRule mem username = none ∧
      ∀ i < mem.pimpCount, ruleName (mem.pimpRules i) ≠ username) ∨
    ∃ i, findRule mem username = some i ∧ i < mem.pimpCount ∧
      ruleName (mem.pimpRules i) = username := by
  cases hfound : findRule mem username with
  | none => exact .inl ⟨rfl, findRule_eq_none hfound⟩
  | some i => exact .inr ⟨i, rfl, findRule_eq_some hfound⟩

/-- pimp_rule_add with 32 rules. -/
theorem run_pimpRuleAdd_full (hfull : pimpRuleMax ≤ machine.mem.pimpCount)
    (caps noPass sessionOnly : UInt32) :
    machine.run env (pimpRuleAdd username caps noPass sessionOnly) = .ok (false, machine) := by
  rw [pimpRuleAdd, run_memory_bind, if_pos hfull]
  exact rfl

/-- pimp_rule_add for a user with a rule. -/
theorem run_pimpRuleAdd_found (hroom : machine.mem.pimpCount < pimpRuleMax) {i : ℕ}
    (hfound : findRule machine.mem username = some i) (caps noPass sessionOnly : UInt32) :
    machine.run env (pimpRuleAdd username caps noPass sessionOnly) =
      .ok (true, ⟨{ machine.mem with
        pimpRules := Function.update machine.mem.pimpRules i { machine.mem.pimpRules i with
          allowedCaps := caps, noPass := noPass, sessionOnly := sessionOnly } },
        machine.dev⟩) := by
  rw [pimpRuleAdd, run_memory_bind, if_neg (not_le.mpr hroom), hfound]
  exact rfl

/-- pimp_rule_add for a new user. -/
theorem run_pimpRuleAdd_new (hroom : machine.mem.pimpCount < pimpRuleMax)
    (hnone : findRule machine.mem username = none) (caps noPass sessionOnly : UInt32) :
    machine.run env (pimpRuleAdd username caps noPass sessionOnly) =
      .ok (true, ⟨{ machine.mem with
        pimpRules := Function.update machine.mem.pimpRules machine.mem.pimpCount
          ⟨storeAt (machine.mem.pimpRules machine.mem.pimpCount).user 0 (username.chars ++ [0]),
            caps, noPass, sessionOnly⟩
        pimpCount := machine.mem.pimpCount + 1 }, machine.dev⟩) := by
  rw [pimpRuleAdd, run_memory_bind, if_neg (not_le.mpr hroom), hnone]
  exact rfl

/-- pimp_rule_remove for a user with a rule. -/
theorem run_pimpRuleRemove_found {i : ℕ} (hfound : findRule machine.mem username = some i) :
    machine.run env (pimpRuleRemove username) = .ok (true, ⟨{ machine.mem with
      pimpRules := moveUp machine.mem.pimpRules machine.mem.pimpCount i
      pimpCount := machine.mem.pimpCount - 1 }, machine.dev⟩) := by
  rw [pimpRuleRemove, run_memory_bind, hfound]
  exact rfl

/-- pimp_rule_remove for a user without one. -/
theorem run_pimpRuleRemove_none (hnone : findRule machine.mem username = none) :
    machine.run env (pimpRuleRemove username) = .ok (false, machine) := by
  rw [pimpRuleRemove, run_memory_bind, hnone]
  exact rfl

/-- pimp_check looks up the user in the map. -/
theorem pimpCheck_iff (h : Shows ruleName ruleGrant mem.pimpRules mem.pimpCount map)
    {capType : UInt32} (hcap : capType ≠ 0) : pimpCheck mem username capType = true ↔
      ∃ grant, map.lookup username = some grant ∧ grant.allowedCaps &&& capType ≠ 0 := by
  have hall : ∀ caps : UInt32, (caps = 0xFFFFFFFF ∨ caps &&& capType ≠ 0) ↔
      caps &&& capType ≠ 0 := by
    intro caps
    refine or_iff_right_of_imp fun hcaps => ?_
    have hself : (0xFFFFFFFF : UInt32) &&& capType = capType := by
      rw [← UInt32.toBitVec_inj, UInt32.toBitVec_and]
      exact BitVec.allOnes_and
    rw [hcaps, hself]
    exact hcap
  constructor
  · intro hcheck
    obtain ⟨rule, hrule, hadmits⟩ := List.any_eq_true.mp hcheck
    obtain ⟨i, hi, rfl⟩ := List.mem_map.mp hrule
    rw [Bool.and_eq_true, beq_iff_eq, Bool.or_eq_true, beq_iff_eq, bne_iff_ne] at hadmits
    obtain ⟨rfl, hcaps⟩ := hadmits
    exact ⟨_, h.lookup i (List.mem_range.mp hi), (hall _).mp hcaps⟩
  · rintro ⟨grant, hlookup, hcaps⟩
    obtain ⟨i, hi, rfl, rfl⟩ := h.lookup_iff.mp hlookup
    refine List.any_eq_true.mpr ⟨_, List.mem_map.mpr ⟨i, List.mem_range.mpr hi, rfl⟩, ?_⟩
    rw [Bool.and_eq_true, beq_iff_eq, Bool.or_eq_true, beq_iff_eq, bne_iff_ne]
    exact ⟨rfl, (hall _).mpr hcaps⟩

/-- An array of at most 32 rules that is a map. -/
theorem rulesAre_of_shows (h : Shows ruleName ruleGrant mem.pimpRules mem.pimpCount map)
    (hcapacity : mem.pimpCount ≤ pimpRuleMax) : RulesAre mem map :=
  ⟨h, hcapacity, fun _ _ hcap => pimpCheck_iff h hcap⟩

end Calls

section Steps

variable {env : Environment} {state : RuleState} {username : CString} {grant : Grant}

/-- The rules that a call leaves are those that the next call finds. -/
theorem Agrees.step {call : RuleCall} (h : Agrees env call state) :
    RulesAre (ruleStep env call state).machine.mem (ruleStep env call state).map := by
  obtain ⟨machine, hrun, hrules⟩ := h
  rw [ruleStep, hrun]
  exact hrules

/-- A user is in the map when one of the rules has the name. -/
theorem RulesAre.mem_iff {mem : Memory} {map : GrantMap} (h : RulesAre mem map) :
    username ∈ map ↔ ∃ i < mem.pimpCount, ruleName (mem.pimpRules i) = username :=
  h.shows.mem_iff

/-- An add while there is room agrees with the map. -/
theorem agrees_add_room (h : RulesAre state.machine.mem state.map)
    (hlength : username.chars.length < 32) (hroom : state.machine.mem.pimpCount < pimpRuleMax) :
    Agrees env (.add username grant) state := by
  have hmap : (RuleCall.add username grant).onMap state.map =
      (true, state.map.insert username grant) := by
    refine if_pos (.inr ?_)
    rw [h.shows.card_keys]
    exact hroom
  rw [Agrees, hmap]
  rcases findRule_cases state.machine.mem username with ⟨hnone, hnew⟩ | ⟨i, hfound, hi, hname⟩
  · refine ⟨_, run_pimpRuleAdd_new hroom hnone _ _ _, ?_⟩
    have hrecord : ruleName ⟨storeAt (state.machine.mem.pimpRules
        state.machine.mem.pimpCount).user 0 (username.chars ++ [0]), grant.allowedCaps,
        grant.noPass, grant.sessionOnly⟩ = username := ofBytes_storeAt _ hlength
    have habsent : username ∉ state.map := by
      rw [h.mem_iff]
      rintro ⟨i, hi, hname⟩
      exact hnew i hi hname
    rw [← hrecord] at habsent
    have hshows := h.shows.append habsent
    rw [hrecord] at hshows
    exact rulesAre_of_shows hshows hroom
  · refine ⟨_, run_pimpRuleAdd_found hroom hfound _ _ _, ?_⟩
    have hkey : ruleName { state.machine.mem.pimpRules i with
        allowedCaps := grant.allowedCaps, noPass := grant.noPass,
        sessionOnly := grant.sessionOnly } = ruleName (state.machine.mem.pimpRules i) := rfl
    have hshows := h.shows.replace hi hkey
    rw [hkey, hname] at hshows
    exact rulesAre_of_shows hshows h.capacity

/-- An add with 32 rules agrees with the map for a user without a rule only. -/
theorem agrees_add_full (h : RulesAre state.machine.mem state.map)
    (hfull : state.machine.mem.pimpCount = pimpRuleMax) :
    Agrees env (.add username grant) state ↔ username ∉ state.map := by
  have hrun : state.machine.run env (RuleCall.add username grant).code =
      .ok (false, state.machine) := run_pimpRuleAdd_full hfull.ge _ _ _
  have hcard : ¬state.map.keys.card < pimpRuleMax := by
    rw [h.shows.card_keys, hfull]
    exact lt_irrefl _
  rw [Agrees, hrun]
  constructor
  · rintro ⟨machine, hsame, -⟩ hmem
    have hmap : ((RuleCall.add username grant).onMap state.map).1 = true := by
      rw [RuleCall.onMap, insertWithin, if_pos (.inl hmem)]
    rw [hmap] at hsame
    exact absurd (congrArg Prod.fst (Except.ok.inj hsame)) Bool.false_ne_true
  · intro habsent
    have hmap : (RuleCall.add username grant).onMap state.map = (false, state.map) :=
      if_neg (not_or.mpr ⟨habsent, hcard⟩)
    rw [hmap]
    exact ⟨state.machine, rfl, h⟩

/-- A remove agrees with the map. -/
theorem agrees_remove (h : RulesAre state.machine.mem state.map) :
    Agrees env (.remove username) state := by
  rcases findRule_cases state.machine.mem username with ⟨hnone, hnew⟩ | ⟨i, hfound, hi, hname⟩
  · have habsent : username ∉ state.map := by
      rw [h.mem_iff]
      rintro ⟨i, hi, hname⟩
      exact hnew i hi hname
    have hmap : (RuleCall.remove username).onMap state.map = (false, state.map) := if_neg habsent
    rw [Agrees, hmap]
    exact ⟨_, run_pimpRuleRemove_none hnone, h⟩
  · have hmap : (RuleCall.remove username).onMap state.map = (true, state.map.erase username) :=
      if_pos (h.mem_iff.mpr ⟨i, hi, hname⟩)
    rw [Agrees, hmap]
    refine ⟨_, run_pimpRuleRemove_found hfound, ?_⟩
    have hshows := h.shows.remove hi
    rw [hname] at hshows
    exact rulesAre_of_shows hshows ((Nat.sub_le _ _).trans h.capacity)

/-- A call agrees with the map exactly if it finds room. -/
theorem agrees_iff (h : RulesAre state.machine.mem state.map) {call : RuleCall}
    (hname : call.NameFits) : Agrees env call state ↔ FindsRoom call state := by
  cases call with
  | remove username => exact iff_of_true (agrees_remove h) trivial
  | add username grant =>
    rcases Nat.lt_or_ge state.machine.mem.pimpCount pimpRuleMax with hroom | hfull
    · exact iff_of_true (agrees_add_room h hname.2 hroom) fun hsame => absurd hsame hroom.ne
    · have hcount : state.machine.mem.pimpCount = pimpRuleMax := le_antisymm h.capacity hfull
      rw [agrees_add_full h hcount, FindsRoom, h.mem_iff]
      constructor
      · intro hnone _ i hi hsame
        exact hnone ⟨i, hi, hsame⟩
      · rintro hnone ⟨i, hi, hsame⟩
        exact hnone hcount i hi hsame

/-- An array of no rules is the empty map. -/
theorem rulesAre_empty {mem : Memory} (hzero : mem.pimpCount = 0) : RulesAre mem ∅ := by
  have hshows := shows_empty ruleName ruleGrant mem.pimpRules
  rw [← hzero] at hshows
  refine rulesAre_of_shows hshows ?_
  rw [hzero]
  exact Nat.zero_le _

end Steps

section Agreement

/-- Over any sequence of calls from the empty array, every call answers like a finite map of
32 users and leaves the rules as it leaves the map, exactly if no call changes the rule of a
user while there are 32 rules. -/
theorem ruleCalls_agree_iff (env : Environment) (machine : Machine)
    (hempty : machine.mem.pimpCount = 0) (calls : List RuleCall)
    (hnames : ∀ call ∈ calls, call.NameFits) :
    EveryStep (ruleStep env) (Agrees env) calls ⟨machine, ∅⟩ ↔
      EveryStep (ruleStep env) FindsRoom calls ⟨machine, ∅⟩ := by
  have hfit : EveryStep (ruleStep env) (fun call _ => call.NameFits) calls ⟨machine, ∅⟩ :=
    everyStep_of_forall hnames _
  have hstart : RulesAre machine.mem ∅ := rulesAre_empty hempty
  refine hfit.congr_of_invariant ?_ ?_ (show RuleState.Sound ⟨machine, ∅⟩ from hstart)
  · intro call state _ _ hagrees
    exact hagrees.step
  · intro call state hsound hname
    exact agrees_iff hsound hname

/-- A rule for each of 32 users. -/
def userOf (i : ℕ) : CString := CString.ofBytes [UInt8.ofNat (97 + i)]

/-- The calls that fill the array. -/
def fillCalls : List RuleCall := (List.range pimpRuleMax).map fun i => .add (userOf i) ⟨1, 0, 0⟩

/-- The user of the first of 32 rules is refused another rule. -/
theorem ruleCalls_fullUpdate : ¬EveryStep (ruleStep .faultless) (Agrees .faultless)
    (fillCalls ++ [.add (userOf 0) ⟨2, 0, 0⟩]) ⟨Machine.boot blankDisk, ∅⟩ := by
  intro hall
  obtain ⟨hfill, hlast⟩ := (everyStep_append _ _ _).mp hall
  have hstates : EveryState (ruleStep .faultless) RuleState.Sound fillCalls
      ⟨Machine.boot blankDisk, ∅⟩ :=
    hfill.everyState (fun _ _ _ hagrees => hagrees.step) (rulesAre_empty rfl)
  have hsound := hstates.runSteps
  have hcount : (runSteps (ruleStep .faultless) fillCalls
      ⟨Machine.boot blankDisk, ∅⟩).machine.mem.pimpCount = pimpRuleMax := by decide +kernel
  have hfirst : ruleName ((runSteps (ruleStep .faultless) fillCalls
      ⟨Machine.boot blankDisk, ∅⟩).machine.mem.pimpRules 0) = userOf 0 := by decide +kernel
  generalize runSteps (ruleStep .faultless) fillCalls ⟨Machine.boot blankDisk, ∅⟩ = full at *
  have hnone : userOf 0 ∉ full.map :=
    (agrees_add_full hsound hcount).mp (everyStep_singleton.mp hlast)
  have hindex : 0 < full.machine.mem.pimpCount := by
    rw [hcount]
    decide
  exact hnone (hsound.shows.mem_iff.mpr ⟨0, hindex, hfirst⟩)

/-- A rule that is added and removed. -/
theorem ruleCalls_agree_iff_removed : EveryStep (ruleStep .faultless) (Agrees .faultless)
    [.add (userOf 0) ⟨1, 0, 0⟩, .remove (userOf 0)] ⟨Machine.boot blankDisk, ∅⟩ := by
  have hnames : ∀ call ∈ [RuleCall.add (userOf 0) ⟨1, 0, 0⟩, .remove (userOf 0)],
      call.NameFits := by
    intro call hcall
    rcases List.mem_cons.mp hcall with rfl | hcall
    · exact ⟨by decide, by decide⟩
    · rw [List.mem_singleton.mp hcall]
      trivial
  refine (ruleCalls_agree_iff .faultless (Machine.boot blankDisk) rfl _ hnames).mpr ⟨?_, ?_, trivial⟩
  · intro hfull
    have hzero : 0 = pimpRuleMax := hfull
    exact absurd hzero (by decide)
  · trivial

end Agreement

end HexaOS.Shell
