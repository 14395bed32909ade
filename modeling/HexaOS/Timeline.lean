import HexaOS.ShellForms
import HexaOS.SnapshotHistory

/-!
# The versions of a path

cmd_timels walks the snapshots from the root on and prints a line for every one whose
abstraction has an object for the path. What it prints is therefore a view of what was created
so far: later commands put lines in front of it, and no line is ever lost.
-/

namespace HexaOS.Hexafs

open DevicePrograms PackedBytes StoreTyping Shell

section Command

/-- What a line of cmd_timels shows: the characters of the name and the block. -/
structure Version where
  /-- The name of the snapshot. -/
  name : List UInt8
  /-- The block of the object. -/
  block : UInt32
  deriving DecidableEq

/-- The line of a version. -/
def Version.line (version : Version) : List UInt8 :=
  said "  snap='" ++ version.name ++ said "' block=" ++ itoa version.block.toInt32 10 ++ [10]

/-- The loop of cmd_timels. The text that was printed and `found` go along. -/
def timelsLoop (path : CString) : ℕ → UInt32 → List UInt8 × Bool → HexafsM (List UInt8 × Bool)
  | 0, _, _ => Code.halt .hang
  | fuel + 1, snapBlock, printed => do
    if snapBlock = 0 then pure printed
    else
      match ← hexafsBlockRead snapBlock with
      | none => pure printed
      | some buf =>
        let snap := ofBlock HexafsSnap buf
        if snap.magic ≠ hexafsSnapMagic then pure printed
        else if snap.rootObjectBlock = 0 then timelsLoop path fuel snap.parentSnapBlock printed
        else
          match ← hexafsAbstractionFind snap.rootObjectBlock path with
          | none => timelsLoop path fuel snap.parentSnapBlock printed
          | some _ =>
            let shown := (CString.ofBytes (snap.name.toList.take 31)).chars
            timelsLoop path fuel snap.parentSnapBlock
              (printed.1 ++ Version.line ⟨shown, snapBlock⟩, true)

/-- cmd_timels, with the text that it prints. -/
def cmdTimels (args : CString) : HexafsM (List UInt8) := do
  if args.chars = [] then pure (said "Usage: timels <path>\n")
  else
    let mem ← Code.memory
    let header := said "Versions of " ++ args.chars ++ said " across snapshots:\n"
    let (printed, found) ← timelsLoop args chainFuel mem.sbCache.rootSnapBlock (header, false)
    pure (if found then printed else printed ++ said "  (no versions found)\n")

end Command

section Views

variable {sectors sectors' : UInt32 → Sector} {path : CString} {snaps older : List Snapshot}
  {snap : Snapshot}

/-- Does a snapshot have an object for a path? -/
def hasPath (sectors : UInt32 → Sector) (path : CString) (snap : Snapshot) : Bool :=
  rootAbsAt sectors snap.block ≠ 0 &&
    (absEntries sectors (rootAbsAt sectors snap.block)).any fun entry => nameMatches entry.name path

/-- The versions of a path among some snapshots. -/
def versions (sectors : UInt32 → Sector) (path : CString) (snaps : List Snapshot) : List Version :=
  (snaps.filter (hasPath sectors path)).map fun snap => ⟨snap.name.chars, snap.block⟩

/-- What cmd_timels prints about some versions. -/
def timelsText (path : CString) (listed : List Version) : List UInt8 :=
  said "Versions of " ++ path.chars ++ said " across snapshots:\n" ++
    if listed = [] then said "  (no versions found)\n" else listed.flatMap Version.line

theorem versions_append : versions sectors path (snaps ++ older) =
    versions sectors path snaps ++ versions sectors path older := by
  rw [versions, List.filter_append, List.map_append]
  rfl

/-- A field holds one name only. -/
theorem eq_of_nameMatches {entry : Vector UInt8 32} {name : CString}
    (hname : name.chars.length < 32) (h : nameMatches entry name = true)
    (hpath : nameMatches entry path = true) : path = name := by
  have hbyte : ∀ {other : CString}, nameMatches entry other = true → ∀ (j : ℕ) (hj : j < 32),
      j ≤ other.chars.length → entry[j] = other.byte j := by
    intro other hother j hj hle
    rw [nameMatches, List.all_eq_true] at hother
    have hthis := hother ⟨j, hj⟩ (List.mem_finRange _)
    simp only [Bool.or_eq_true, decide_eq_true_eq, beq_iff_eq] at hthis
    rcases hthis with hlong | heq
    · exact absurd hle (Nat.not_le_of_lt hlong)
    · exact heq
  have hend : ∀ other : CString, other.byte other.chars.length = 0 := fun other => by
    rw [CString.byte, List.getD_eq_default _ _ (Nat.le_refl _)]
  have hinside : ∀ (other : CString) (j : ℕ), j < other.chars.length → other.byte j ≠ 0 := by
    intro other j hj hzero
    rw [CString.byte, List.getD_eq_getElem _ _ hj] at hzero
    exact other.nonzero (hzero ▸ List.getElem_mem hj)
  -- the terminators stand at the same place
  have hlen : path.chars.length = name.chars.length := by
    rcases Nat.lt_trichotomy path.chars.length name.chars.length with hlt | heq | hgt
    · have hj : path.chars.length < 32 := Nat.lt_trans hlt hname
      have hzero := (hbyte h _ hj (Nat.le_of_lt hlt)).symm.trans
        ((hbyte hpath _ hj (Nat.le_refl _)).trans (hend path))
      exact absurd hzero (hinside name _ hlt)
    · exact heq
    · have hzero := (hbyte hpath _ hname (Nat.le_of_lt hgt)).symm.trans
        ((hbyte h _ hname (Nat.le_refl _)).trans (hend name))
      exact absurd hzero (hinside path _ hgt)
  have hchars : path.chars = name.chars := by
    refine List.ext_getElem hlen fun j hj hj' => ?_
    have hlt : j < 32 := Nat.lt_trans hj' hname
    have hsame : path.byte j = name.byte j :=
      (hbyte hpath j hlt (Nat.le_of_lt hj)).symm.trans (hbyte h j hlt (Nat.le_of_lt hj'))
    rw [CString.byte, CString.byte, List.getD_eq_getElem _ _ hj,
      List.getD_eq_getElem _ _ hj'] at hsame
    exact hsame
  cases path
  cases name
  cases hchars
  rfl

/-- An entry of a configuration has no other name. -/
theorem HexafsAbsEntry.Configures.not_matches {entry : HexafsAbsEntry} (h : entry.Configures)
    (husers : path ≠ usersName) (hpimp : path ≠ pimpName) :
    nameMatches entry.name path = false := by
  rw [Bool.eq_false_iff]
  intro hpath
  rcases h with hentry | hentry
  · exact husers (eq_of_nameMatches (by decide) hentry hpath)
  · exact hpimp (eq_of_nameMatches (by decide) hentry hpath)

/-- The root of a kept snapshot is the same. -/
theorem KeepsSnapshot.rootAbsAt_eq (h : KeepsSnapshot sectors sectors' snap) :
    rootAbsAt sectors' snap.block = rootAbsAt sectors snap.block := by
  have hsnap : snapAt sectors' snap.block = snapAt sectors snap.block :=
    congrArg (ofBlock HexafsSnap) h.block
  rw [rootAbsAt, rootAbsAt, hsnap]

/-- A kept snapshot keeps its objects. -/
theorem KeepsSnapshot.hasPath (h : KeepsSnapshot sectors sectors' snap)
    (hpath : hasPath sectors path snap = true) : hasPath sectors' path snap = true := by
  rw [HexaOS.Hexafs.hasPath, Bool.and_eq_true, decide_eq_true_iff, List.any_eq_true] at hpath ⊢
  obtain ⟨hne, entry, hentry, hmatch⟩ := hpath
  obtain ⟨added, hadded, _⟩ := (h.abstraction hne).entries
  rw [h.rootAbsAt_eq, hadded]
  exact ⟨hne, entry, List.mem_append_left _ hentry, hmatch⟩

/-- A kept snapshot gets objects for the configurations only. -/
theorem KeepsSnapshot.hasPath_eq (h : KeepsSnapshot sectors sectors' snap)
    (husers : path ≠ usersName) (hpimp : path ≠ pimpName) :
    HexaOS.Hexafs.hasPath sectors' path snap = HexaOS.Hexafs.hasPath sectors path snap := by
  rw [Bool.eq_iff_iff]
  refine ⟨fun hpath => ?_, h.hasPath⟩
  rw [HexaOS.Hexafs.hasPath, Bool.and_eq_true, decide_eq_true_iff, List.any_eq_true] at hpath ⊢
  obtain ⟨hne, entry, hentry, hmatch⟩ := hpath
  rw [h.rootAbsAt_eq] at hne hentry
  obtain ⟨added, hadded, hconfigs⟩ := (h.abstraction hne).entries
  rw [hadded] at hentry
  rcases List.mem_append.mp hentry with hold | hnew
  · exact ⟨hne, entry, hold, hmatch⟩
  · rw [(hconfigs entry hnew).not_matches husers hpimp] at hmatch
    cases hmatch

/-- No version is lost. -/
theorem versions_sublist (h : ∀ snap ∈ snaps, KeepsSnapshot sectors sectors' snap) :
    (versions sectors path snaps).Sublist (versions sectors' path snaps) := by
  refine List.Sublist.map _ ?_
  induction snaps with
  | nil => exact .slnil
  | cons snap older ih =>
    have hrest := ih fun other hother => h other (List.mem_cons_of_mem _ hother)
    have hkept : HexaOS.Hexafs.hasPath sectors path snap = true →
        HexaOS.Hexafs.hasPath sectors' path snap = true := (h snap (List.mem_cons_self ..)).hasPath
    rw [List.filter_cons, List.filter_cons]
    by_cases hpath : HexaOS.Hexafs.hasPath sectors path snap = true
    · rw [if_pos hpath, if_pos (hkept hpath)]
      exact hrest.cons_cons snap
    · rw [if_neg hpath]
      split
      · exact hrest.cons snap
      · exact hrest

/-- The versions of other paths than the configurations stay as they are. -/
theorem versions_eq (h : ∀ snap ∈ snaps, KeepsSnapshot sectors sectors' snap)
    (husers : path ≠ usersName) (hpimp : path ≠ pimpName) :
    versions sectors' path snaps = versions sectors path snaps := by
  rw [versions, versions, List.filter_congr fun snap hsnap =>
    (h snap hsnap).hasPath_eq husers hpimp]

end Views

section Runs

variable {env : Environment} {path : CString} {roles : UInt32 → Option Role}
  {log snaps created : List Snapshot} {machine machine' : Machine} {block : UInt32}

/-- The loop of cmd_timels prints the versions on its chain. -/
theorem timelsLoop_spec {mem : Memory} {d : PlainDisk} {fuel : ℕ} {printed : List UInt8 × Bool}
    (hstore : Store mem d roles) (h : SnapChain d.sectors block snaps)
    (hroles : ∀ snap ∈ snaps, roles snap.block = some .snapshot)
    (hshort : ∀ snap ∈ snaps, snap.name.chars.length ≤ 31) (hfuel : snaps.length < fuel)
    {post : List UInt8 × Bool → Memory → PlainDisk → Prop}
    (hpost : post (printed.1 ++ (versions d.sectors path snaps).flatMap Version.line,
      printed.2 || !(versions d.sectors path snaps).isEmpty) mem d) :
    (timelsLoop path fuel block printed).wp (plainDevice env) mem d post := by
  induction snaps generalizing block fuel printed with
  | nil =>
    obtain ⟨fuel, rfl⟩ := Nat.exists_eq_add_one_of_ne_zero (Nat.ne_of_gt hfuel)
    have hzero : block = 0 := h
    rw [timelsLoop, if_pos hzero, Code.wp_pure]
    simpa [versions] using hpost
  | cons snap older ih =>
    obtain ⟨fuel, rfl⟩ := Nat.exists_eq_add_one_of_ne_zero (Nat.ne_of_gt (Nat.zero_lt_of_lt hfuel))
    obtain ⟨rfl, hne, hmagic, hname, hrest⟩ := h
    have hthis : ofBlock HexafsSnap (d.sectors snap.block) = snapAt d.sectors snap.block := rfl
    have hrole := hroles snap (List.mem_cons_self ..)
    have hroot : rootAbsAt d.sectors snap.block =
        (snapAt d.sectors snap.block).rootObjectBlock := by
      rw [rootAbsAt, if_neg hne, if_pos hmagic]
    have hshown : (CString.ofBytes ((snapAt d.sectors snap.block).name.toList.take 31)).chars =
        snap.name.chars := by
      rw [hname, CString.ofBytes_copyName,
        CString.truncate_of_le (hshort snap (List.mem_cons_self ..))]
    have hnext : ∀ {printed : List UInt8 × Bool},
        post (printed.1 ++ (versions d.sectors path older).flatMap Version.line,
          printed.2 || !(versions d.sectors path older).isEmpty) mem d →
        (timelsLoop path fuel (snapAt d.sectors snap.block).parentSnapBlock printed).wp
          (plainDevice env) mem d post :=
      ih hrest (fun other hother => hroles other (List.mem_cons_of_mem _ hother))
        (fun other hother => hshort other (List.mem_cons_of_mem _ hother))
        (Nat.lt_of_succ_lt_succ hfuel)
    have hskip : hasPath d.sectors path snap = false →
        versions d.sectors path (snap :: older) = versions d.sectors path older := by
      intro hpath
      rw [versions, List.filter_cons, hpath]
      rfl
    have hfound : hasPath d.sectors path snap = true → versions d.sectors path (snap :: older) =
        ⟨snap.name.chars, snap.block⟩ :: versions d.sectors path older := by
      intro hpath
      rw [versions, List.filter_cons, hpath]
      rfl
    rw [timelsLoop, if_neg hne, Code.wp_bind]
    refine wp_hexafsBlockRead (hstore.heap.valid hrole) (hstore.stale _) ?_
    dsimp only
    rw [hthis, if_neg (not_not.mpr hmagic)]
    by_cases hzero : (snapAt d.sectors snap.block).rootObjectBlock = 0
    · have hpath : hasPath d.sectors path snap = false := by
        rw [hasPath, hroot, hzero]
        rfl
      rw [if_pos hzero]
      rw [hskip hpath] at hpost
      exact hnext hpost
    · rw [if_neg hzero, Code.wp_bind]
      have habs := hstore.heap.rootAbsAt_role (fun _ => hrole) (hroot ▸ hzero)
      rw [hroot] at habs
      refine hexafsAbstractionFind_spec (hstore.heap.absSound habs)
        (hstore.heap.absReadable hstore.stale habs) ?_
      have hany : hasPath d.sectors path snap = ((absEntries d.sectors
          (snapAt d.sectors snap.block).rootObjectBlock).find?
            fun entry => nameMatches entry.name path).isSome := by
        rw [hasPath, hroot, decide_eq_true hzero, Bool.true_and, Bool.eq_iff_iff,
          List.find?_isSome, List.any_eq_true]
      cases hentry : (absEntries d.sectors (snapAt d.sectors snap.block).rootObjectBlock).find?
          fun entry => nameMatches entry.name path with
      | none =>
        rw [hentry] at hany
        rw [hskip hany] at hpost
        exact hnext hpost
      | some entry =>
        rw [hentry] at hany
        rw [hfound hany] at hpost
        dsimp only
        rw [hshown]
        refine hnext ?_
        simpa using hpost

/-- cmd_timels on a machine with a known chain. -/
theorem Chained.timels (h : Chained machine roles log) (hreads : ∀ n, env.readOk n = true)
    (hpath : path.chars ≠ []) : ∃ after, machine.run env (cmdTimels path) =
      .ok (timelsText path (versions machine.sectors path log), after) := by
  have hstore := h.settled.mounted.store
  have hchain : SnapChain machine.dev.plain.sectors machine.mem.sbCache.rootSnapBlock log := h.chain
  have hspec : (cmdTimels path).wp (plainDevice env) machine.mem machine.dev.plain
      fun text _ d' => text = timelsText path (versions machine.sectors path log) ∧
        ∀ b, d'.stale b = false := by
    rw [cmdTimels, if_neg hpath, Code.wp_bind, Code.wp_memory]
    rw [Code.wp_bind]
    refine timelsLoop_spec hstore hchain h.roles h.short (length_lt_chainFuel h.nodup) ?_
    have hsame : machine.dev.plain.sectors = machine.sectors := rfl
    rw [hsame, Code.wp_pure, timelsText]
    refine ⟨?_, hstore.stale⟩
    cases versions machine.sectors path log with
    | nil => simp
    | cons first rest => simp
  obtain ⟨_, after, hrun, _, rfl, _⟩ := Machine.run_spec hreads h.settled.mounted.coherent hspec
    fun _ _ _ hpost => hpost.2
  exact ⟨after, hrun⟩

/-- In every run from a fresh format without failures, cmd_timels lists the snapshots that have
an object for the path, newest first. Whatever is run afterwards, the versions of the new
snapshots are listed in front of the old ones: none of these is lost, and unless the path is
that of a configuration none is added among them. -/
theorem timels_history (h : SnapRun log machine) (hlater : SnapRuns machine created machine')
    (hreads : ∀ n, env.readOk n = true) (hpath : path.chars ≠ []) :
    (∃ after, machine.run env (cmdTimels path) =
      .ok (timelsText path (versions machine.sectors path log), after)) ∧
    ∃ newer older after, machine'.run env (cmdTimels path) =
        .ok (timelsText path (newer ++ older), after) ∧
      newer = versions machine'.sectors path created ∧
        (versions machine.sectors path log).Sublist older ∧
          (path ≠ usersName → path ≠ pimpName → older = versions machine.sectors path log) := by
  obtain ⟨roles, hchained⟩ := h.chained
  obtain ⟨_, hlast, _, hkeeps⟩ := hlater.keepsHistory hchained
  have hsnaps : ∀ snap ∈ log, KeepsSnapshot machine.sectors machine'.sectors snap :=
    fun snap hsnap =>
      hkeeps.snapshot hchained.settled.mounted.store.heap (hchained.roles snap hsnap)
  obtain ⟨after, hrun⟩ := hlast.timels hreads hpath
  rw [versions_append] at hrun
  exact ⟨hchained.timels hreads hpath, _, _, after, hrun, rfl, versions_sublist hsnaps,
    versions_eq hsnaps⟩

/-- The versions of the accounts before and after they are saved. -/
theorem timels_history_users : ∃ (log created : List Snapshot) (machine machine' : Machine),
    1 ≤ log.length ∧ 1 ≤ created.length ∧
    (∃ after, machine.run .faultless (cmdTimels usersName) =
      .ok (timelsText usersName (versions machine.sectors usersName log), after)) ∧
    ∃ newer older after, machine'.run .faultless (cmdTimels usersName) =
        .ok (timelsText usersName (newer ++ older), after) ∧
      newer = versions machine'.sectors usersName created ∧
        (versions machine.sectors usersName log).Sublist older := by
  obtain ⟨log, created, machine, machine', hrun, hlater, hlog, hcreated⟩ := exists_usersRun
  obtain ⟨hbefore, newer, older, after, hafter, hnewer, hkept, _⟩ := timels_history hrun hlater
    Environment.faultless_ioOk.reads (by decide : usersName.chars ≠ [])
  exact ⟨log, created, machine, machine', hlog, hcreated, hbefore, newer, older, after, hafter,
    hnewer, hkept⟩

end Runs

end HexaOS.Hexafs
