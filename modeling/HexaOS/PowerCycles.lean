import HexaOS.SaveLimits
import HexaOS.UserRecords
import HexaOS.SnapshotHistory

/-!
# Save, power off, boot

save_data stores the forms and then the accounts under one root. The boot mounts the disk, reads
both back and runs the boot policy. A session whose forms and accounts fit is found again after the
power cycle, with one more form behind the others: the entry of the accounts.
-/

namespace HexaOS.Hexafs

open DevicePrograms PackedBytes StoreTyping

section Saves

/-- A session that one block of entries and the buffer of save_data hold. -/
structure Memory.Session (mem : Memory) : Prop where
  /-- The drive was found. -/
  diskOk : mem.diskOk = true
  /-- Every form can be saved. -/
  savable : ∀ form ∈ mem.forms, form.Savable
  /-- No form has the name of a configuration. -/
  named : ∀ form ∈ mem.forms, form.name ≠ usersName ∧ form.name ≠ pimpName
  /-- There are at most ten. -/
  forms_le : mem.forms.length ≤ 10
  /-- There is a user. -/
  users_pos : 1 ≤ mem.uCount
  /-- There are at most twelve. -/
  users_le : mem.uCount ≤ 12
  /-- The rights fit a byte. -/
  isRoot_le : ∀ i < mem.uCount, (mem.uTable i).isRoot.toNat ≤ 255

/-- An abstraction with an entry for every form and the accounts behind them. -/
structure HoldsSession (sectors : UInt32 → Sector) (block : UInt32) (forms : List FormEntry)
    (users : List UInt8) : Prop where
  /-- There is an abstraction. -/
  ne_zero : block ≠ 0
  /-- It has the forms and then the accounts. -/
  entries : ∃ stored account, absEntries sectors block = stored ++ [account] ∧
    List.Forall₂ (FormStored sectors) stored forms ∧
      EntryFor account usersName account.objectBlock hexafsConfig ∧
        readObject sectors account.objectBlock =
          some ⟨true, hexafsConfig, UInt32.ofNat users.length, users⟩

/-- What save_data leaves of a session. -/
structure SessionSaved (mem mem' : Memory) (d' : PlainDisk) (roles' : UInt32 → Option Role) :
    Prop where
  /-- The store is in order. -/
  store : Store mem' d' roles'
  /-- It is committed. -/
  committed : Committed mem' d'.sectors
  /-- The root holds the session. -/
  holds : HoldsSession d'.sectors (rootAbsAt d'.sectors mem'.sbCache.rootSnapBlock) mem.forms
    (usersRaw mem)

variable {env : Environment} {mem mem' : Memory} {d d' : PlainDisk}
  {roles roles' : UInt32 → Option Role} {name : CString} {sectors sectors' : UInt32 → Sector}

/-- An entry with the name of a form is not looked for by a configuration writer. -/
theorem FormStored.not_configures {entry : HexafsAbsEntry} {form : FormEntry}
    (h : FormStored sectors entry form) (hlen : form.name.chars.length ≤ 31)
    (hnamed : form.name ≠ usersName ∧ form.name ≠ pimpName) : ¬entry.Configures := by
  have htruncate := CString.truncate_of_le hlen
  rintro (husers | hpimp)
  · rw [h.entry_for.nameMatches_iff (by decide), htruncate] at husers
    exact hnamed.1 husers
  · rw [h.entry_for.nameMatches_iff (by decide), htruncate] at hpimp
    exact hnamed.2 hpimp

/-- Stored forms stay stored while their objects read the same. -/
theorem formsStored_congr {entries : List HexafsAbsEntry} {forms : List FormEntry}
    (h : List.Forall₂ (FormStored sectors) entries forms)
    (hsame : ∀ entry ∈ entries,
      readObject sectors' entry.objectBlock = readObject sectors entry.objectBlock) :
    List.Forall₂ (FormStored sectors') entries forms := by
  induction h with
  | nil => exact .nil
  | @cons entry form entries forms hhead _ ih =>
    obtain ⟨fill, hfill, hread⟩ := hhead.object
    refine .cons ⟨hhead.entry_for, fill, hfill, ?_⟩
      (ih fun other hother => hsame other (List.mem_cons_of_mem _ hother))
    rw [hsame entry (List.mem_cons_self ..)]
    exact hread

/-- No entry of an ordinary form is a configuration. -/
theorem not_configures_of_stored {entries : List HexafsAbsEntry} {forms : List FormEntry}
    (h : List.Forall₂ (FormStored sectors) entries forms)
    (hforms : ∀ form ∈ forms, form.name.chars.length ≤ 31 ∧ form.name ≠ usersName ∧
      form.name ≠ pimpName) : ∀ entry ∈ entries, ¬entry.Configures := by
  induction h with
  | nil => exact fun _ hmem => absurd hmem List.not_mem_nil
  | @cons entry form entries forms hhead _ ih =>
    intro other hother
    rcases List.mem_cons.mp hother with rfl | hrest
    · obtain ⟨hlen, hnamed⟩ := hforms form (List.mem_cons_self ..)
      exact hhead.not_configures hlen hnamed
    · exact ih (fun form hform => hforms form (List.mem_cons_of_mem _ hform)) other hrest

/-- The accounts of a session are new under the root of the forms, and get their own entry. -/
theorem ConfigOutcome.holdsSession {ok : Bool} {data : List UInt8} {forms : List FormEntry}
    (h : ConfigOutcome env mem d roles usersName data ok mem' d') (hstore : Store mem d roles)
    (hquiet : mem'.allocator.outOfBlocks = false)
    (hne : rootAbsAt d.sectors mem.sbCache.rootSnapBlock ≠ 0)
    (hstored : List.Forall₂ (FormStored d.sectors)
      (absEntries d.sectors (rootAbsAt d.sectors mem.sbCache.rootSnapBlock)) forms)
    (hforms : ∀ form ∈ forms, form.name.chars.length ≤ 31 ∧ form.name ≠ usersName ∧
      form.name ≠ pimpName) (hlength : forms.length ≤ 10) :
    ok = true ∧ Committed mem' d'.sectors ∧
      HoldsSession d'.sectors (rootAbsAt d'.sectors mem'.sbCache.rootSnapBlock) forms data := by
  have habs := hstore.rootAbs_role hne
  have hsound := hstore.heap.absSound habs
  have hplain := not_configures_of_stored hstored hforms
  have hkeeps := (h.keepsHistory hstore (.inl rfl) hquiet).abstractions _ habs
  have hentries := hstored.length_eq
  have hunlinked : (headerAt d.sectors (rootAbsAt d.sectors mem.sbCache.rootSnapBlock)).nextChain =
      0 := by
    by_contra hlinked
    have hmany := hsound.length_linked hlinked
    omega
  have hfound : ∀ entry, (absEntries d.sectors (rootAbsAt d.sectors
      mem.sbCache.rootSnapBlock)).find? (fun e => nameMatches e.name usersName) ≠ some entry := by
    intro entry hfind
    exact hplain entry (List.mem_of_find?_eq_some hfind)
      (.inl (List.find?_eq_some_iff_append.mp hfind).1)
  cases h with
  | empty hroot => exact absurd hroot hne
  | foundRefused hroot hfind hrefused => exact absurd hfind (hfound _)
  | foundWritten hroot hfind hwritten => exact absurd hfind (hfound _)
  | full hroot hfind hfree hstore' => cases hquiet
  | leaked hroot hfind hroom hcreated hwrote hnone hcases =>
    rcases hroom with hlinked | ⟨heleven, _⟩
    · exact absurd hunlinked hlinked
    · have hcount := hsound.length_unlinked hunlinked
      omega
  | @added block a₁ d₁ roles₁ entry i _ _ _ hroot hfind hlink hroom hfree hcreated hquiet' hext
      hrole hstore' hentry hlist hcases =>
    rcases hcases with ⟨_, hrefused⟩ | ⟨hok, roles', hwritten⟩
    · have htrue := hrefused.outOfBlocks
      rw [hquiet] at htrue
      cases htrue
    · have howner : OwnedOrLeaked roles₁ d₁.sectors block := .inl ⟨_, _, hrole⟩
      have hroot₁ : rootAbsAt d₁.sectors mem.sbCache.rootSnapBlock =
          rootAbsAt d.sectors mem.sbCache.rootSnapBlock := by
        refine rootAbsAt_congr fun hz => hcreated.wrote.sectors_eq fun hor => ?_
        rcases hor with heq | hfresh
        · have hsnap := hstore.root hz
          rw [heq, habs] at hsnap
          cases hsnap
        · exact hstore.heap.not_fresh (hstore.root hz) hfresh
      have hroot' : rootAbsAt d'.sectors mem'.sbCache.rootSnapBlock =
          rootAbsAt d.sectors mem.sbCache.rootSnapBlock :=
        hwritten.rootAbs_eq hstore'.heap howner hstore'.root hroot₁
      have hobject : entry.objectBlock = block := hentry.object
      refine ⟨hok, hwritten.committed, ?_⟩
      rw [hroot']
      refine ⟨hne, _, entry, ?_, formsStored_congr hstored fun old hold =>
        hkeeps.objects old hold (hplain old hold), ⟨hentry.name, rfl, hentry.type⟩, ?_⟩
      · rw [hwritten.entries_eq hstore'.heap howner (hext _ _ habs), hlist]
      · rw [hobject, hwritten.read, hcreated.type]

/-- A block that was missing once stays noted. -/
theorem ConfigOutcome.outOfBlocks {ok : Bool} {data : List UInt8}
    (h : ConfigOutcome env mem d roles name data ok mem' d')
    (hout : mem.allocator.outOfBlocks = true) : mem'.allocator.outOfBlocks = true := by
  cases h with
  | empty hroot => exact hout
  | foundRefused hroot hfind hrefused => exact hrefused.outOfBlocks
  | foundWritten hroot hfind hwritten => exact hwritten.outOfBlocks hout
  | full hroot hfind hfree hstore' => rfl
  | leaked hroot hfind hroom hcreated hwrote hnone hcases =>
    rcases hcases with ⟨_, hrefused⟩ | ⟨_, roles', hwritten⟩
    · exact hrefused.outOfBlocks
    · exact hwritten.outOfBlocks (hcreated.outOfBlocks hout)
  | added hroot hfind hlink hroom hfree hcreated hquiet hext hrole hstore' hentry hlist hcases =>
    rcases hcases with ⟨_, hrefused⟩ | ⟨_, roles', hwritten⟩
    · exact hrefused.outOfBlocks
    · exact hwritten.outOfBlocks (hcreated.outOfBlocks hout)

/-- save_data on a session, when no block is missing. -/
theorem saveData_spec (hok : env.WritesOk) (hkm : env.KmallocOk) (h : Store mem d roles)
    (hsession : mem.Session) :
    saveData.wp (plainDevice env) mem d fun ok mem' d' => ok = true ∧ (∀ b, d'.stale b = false) ∧
      (mem'.allocator.outOfBlocks = false → ∃ roles', SessionSaved mem mem' d' roles') := by
  have hmounted := h.mounted
  simp only [saveData, Code.wp_bind, Code.wp_memory, hsession.diskOk, hmounted, Bool.and_self,
    if_true]
  refine hexafsSaveAll_spec hok h fun mem₁ d₁ hout => ?_
  have hkept : mem₁.uCount = mem.uCount ∧ mem₁.uTable = mem.uTable ∧
      ∃ roles₁, Store mem₁ d₁ roles₁ := by
    cases hout with
    | refused hrefused hd =>
      rw [hd]
      have hstatics := hrefused.statics
      exact ⟨by rw [hstatics], by rw [hstatics], roles, hrefused.store⟩
    | saved hsaved =>
      have hstatics := hsaved.statics
      exact ⟨by rw [hstatics], by rw [hstatics], _, hsaved.store⟩
  obtain ⟨hcount, htable, roles₁, hstore₁⟩ := hkept
  have hraw : usersRaw mem₁ = usersRaw mem := by rw [usersRaw, usersRaw, hcount, htable]
  have hsize : (usersRaw mem).length ≤ 832 := (holdsUsers_usersRaw hsession.users_pos
    hsession.users_le).2.1
  rw [hraw, if_neg (Nat.not_lt.mpr hsize)]
  simp only [Code.wp_bind, Code.wp_pure]
  refine saveConfig_spec hok hstore₁ (by omega) fun ok mem' d' hconfig => ?_
  obtain ⟨roles', _, hstore'⟩ := hconfig.store hstore₁
  refine ⟨trivial, hstore'.stale, fun hquiet => ?_⟩
  suffices hboth : Committed mem' d'.sectors ∧ HoldsSession d'.sectors
      (rootAbsAt d'.sectors mem'.sbCache.rootSnapBlock) mem.forms (usersRaw mem) from
    ⟨roles', hstore', hboth.1, hboth.2⟩
  have hquiet₁ : mem₁.allocator.outOfBlocks = false := by
    refine Bool.eq_false_of_not_eq_true fun hout₁ => ?_
    rw [hconfig.outOfBlocks hout₁] at hquiet
    cases hquiet
  cases hout with
  | refused hrefused hd =>
    rw [hrefused.outOfBlocks] at hquiet₁
    cases hquiet₁
  | @saved n saved free _ _ _ hsaved =>
    have hlength := hsession.forms_le
    have hall : saved = mem.forms := by
      rw [hsaved.complete hkm hquiet₁]
      exact List.take_of_length_le (by omega)
    have hroot : rootAbsAt d₁.sectors mem₁.sbCache.rootSnapBlock = n := by
      rcases hsaved.root with ⟨_, hout₁, _⟩ | ⟨_, _, _, _, habs⟩
      · rw [hquiet₁] at hout₁
        cases hout₁
      · exact habs
    have hstored := hsaved.entries
    rw [hall, ← hroot] at hstored
    have hne : rootAbsAt d₁.sectors mem₁.sbCache.rootSnapBlock ≠ 0 := by
      rw [hroot]
      exact hsaved.fresh.1.ne_zero
    exact (hconfig.holdsSession hstore₁ hquiet hne hstored (fun form hform =>
      ⟨(hsession.savable form hform).name_le, hsession.named form hform⟩) hlength).2

end Saves

section Boots

variable {env : Environment} {mem : Memory} {d : PlainDisk} {roles : UInt32 → Option Role}
  {a : Allocator} {sectors : UInt32 → Sector} {block : UInt32} {forms : List FormEntry}
  {users : List UInt8}

/-- The form that hexafs_load_all makes of the entry of the accounts. -/
def accountView : FormView := ⟨usersName, 0, [], 0, 0x1A4⟩

/-- The object of the accounts is found. -/
theorem HoldsSession.configAt_users {root : UInt32}
    (h : HoldsSession sectors (rootAbsAt sectors root) forms users)
    (hforms : ∀ form ∈ forms, form.name.chars.length ≤ 31 ∧ form.name ≠ usersName ∧
      form.name ≠ pimpName) :
    configAt sectors root usersName =
      some ⟨true, hexafsConfig, UInt32.ofNat users.length, users⟩ := by
  obtain ⟨stored, account, hlist, hstored, hentry, hread⟩ := h.entries
  have hplain := not_configures_of_stored hstored hforms
  have hnone : stored.find? (fun e => nameMatches e.name usersName) = none := by
    refine List.find?_eq_none.mpr fun entry hmem hmatch => ?_
    exact hplain entry hmem (.inl hmatch)
  have hmatch : nameMatches account.name usersName = true :=
    (hentry.nameMatches_iff (by decide)).mpr (by decide)
  rw [configAt, if_neg h.ne_zero, hlist, List.find?_append, hnone, Option.none_or,
    List.find?_cons, hmatch]
  exact hread

/-- No rules are found. -/
theorem HoldsSession.configAt_pimp {root : UInt32}
    (h : HoldsSession sectors (rootAbsAt sectors root) forms users)
    (hforms : ∀ form ∈ forms, form.name.chars.length ≤ 31 ∧ form.name ≠ usersName ∧
      form.name ≠ pimpName) : configAt sectors root pimpName = none := by
  obtain ⟨stored, account, hlist, hstored, hentry, _⟩ := h.entries
  have hplain := not_configures_of_stored hstored hforms
  have hnone : stored.find? (fun e => nameMatches e.name pimpName) = none := by
    refine List.find?_eq_none.mpr fun entry hmem hmatch => ?_
    exact hplain entry hmem (.inr hmatch)
  have hother : nameMatches account.name pimpName = false := by
    refine Bool.eq_false_of_not_eq_true fun hmatch => ?_
    have heq := (hentry.nameMatches_iff (by decide)).mp hmatch
    exact absurd heq (by decide)
  rw [configAt, if_neg h.ne_zero, hlist, List.find?_append, hnone, Option.none_or,
    List.find?_cons, hother]
  rfl

/-- Loading entry after entry. -/
theorem loadedTable_append {reads more : List (Vector UInt8 32 × Option ObjectRead)} {i k : ℕ}
    {table : ℕ → FormEntry} : loadedTable env (reads ++ more) i k table =
      loadedTable env more (i + reads.length) (loadedTable env reads i k table).2
        (loadedTable env reads i k table).1 := by
  induction reads generalizing i k table with
  | nil => rfl
  | cons read reads ih =>
    obtain ⟨name, object⟩ := read
    rw [List.cons_append, loadedTable, ih, loadedTable, List.length_cons, Nat.add_right_comm]
    rfl

/-- Loading leaves the slots behind alone. -/
theorem loadedTable_of_ge {reads : List (Vector UInt8 32 × Option ObjectRead)} {i j k : ℕ}
    {table : ℕ → FormEntry} (h : i + reads.length ≤ j) :
    (loadedTable env reads i k table).1 j = table j := by
  induction reads generalizing i k table with
  | nil => rfl
  | cons read reads ih =>
    obtain ⟨name, object⟩ := read
    rw [List.length_cons] at h
    rw [loadedTable, ih (by omega), Function.update_of_ne (by omega)]

/-- A configuration is loaded as a form without bytes. -/
theorem FormEntry.loaded_config (hkm : env.KmallocOk) (k : ℕ) (name : Vector UInt8 32)
    (size : UInt32) (bytes : List UInt8) :
    (FormEntry.zero.loaded env k name (some ⟨true, hexafsConfig, size, bytes⟩)).1.view =
      ⟨CString.ofBytes (name.toList.take 31), 0, [], 0, 0x1A4⟩ := by
  have hother : hexafsConfig ≠ hexafsForm := by decide
  rw [FormEntry.loaded, hkm.heapBlock]
  simp only [if_neg hother]
  exact FormEntry.view_emptied_zero _

/-- The forms that are loaded of a session. -/
theorem HoldsSession.formsOf_view (h : HoldsSession sectors (rootAbsAt sectors (rootOn sectors))
    forms users) (himage : Image sectors roles a) (hkm : env.KmallocOk)
    (hforms : ∀ form ∈ forms, form.Savable) (hlength : forms.length ≤ 10) :
    (formsOf env sectors).map FormEntry.view = forms.map FormEntry.view ++ [accountView] := by
  obtain ⟨stored, account, hlist, hstored, hentry, hread⟩ := h.entries
  have hrole : roles (rootAbsAt sectors (rootOn sectors)) = some .abstraction :=
    himage.heap.rootAbsAt_role himage.root h.ne_zero
  have hcount := hstored.length_eq
  have hlive : (headerAt sectors (rootAbsAt sectors (rootOn sectors))).live =
      stored ++ [account] := by
    rw [(himage.heap.absSound hrole).live_eq, hlist, List.take_of_length_le]
    rw [List.length_append, List.length_singleton]
    omega
  have hfront := (@loadedTable_view_iff env sectors _ _ hstored hforms 0 0
    (fun _ => FormEntry.zero) fun _ _ => rfl).mpr (loadsAlike_of_kmallocOk hkm 0 forms)
  obtain ⟨old, hname⟩ := hentry.name
  have haccount : CString.ofBytes (account.name.toList.take 31) = usersName := by
    rw [hname, CString.ofBytes_copyName]
    decide
  rw [formsOf, formsAt, if_neg h.ne_zero, hlive, List.map_append, List.map_singleton, hread]
  simp only [List.length_append, List.length_map, List.length_singleton, List.range_succ,
    List.map_append, List.map_singleton, loadedTable_append, Nat.zero_add]
  generalize hfirst : loadedTable env (stored.map fun e => (e.name, readObject sectors
    e.objectBlock)) 0 0 (fun _ => FormEntry.zero) = first at hfront
  obtain ⟨table, k⟩ := first
  have hslot : table stored.length = FormEntry.zero := by
    have hbehind := @loadedTable_of_ge env (stored.map fun e => (e.name, readObject sectors
      e.objectBlock)) 0 stored.length 0 (fun _ => FormEntry.zero) (by rw [List.length_map]; omega)
    rw [hfirst] at hbehind
    exact hbehind
  rw [loadedTable, loadedTable]
  dsimp only at hfront ⊢
  rw [Function.update_self, hslot, FormEntry.loaded_config hkm, haccount, accountView, ← hfront,
    List.range_eq_range', List.map_map]
  congr 1
  refine List.map_congr_left fun j hj => ?_
  have hlt := (List.mem_range'_1.mp hj).2
  rw [Function.comp_apply, Function.update_of_ne (by omega)]

/-- The statics with the accounts of a table that was read. -/
def Memory.withUsers (mem : Memory) (users : List UInt8) : Memory :=
  { mem with
    uTable := fun i => if i < (ofBytes (α := UInt32) users).toNat then
      userOfBytes (users.drop (4 + i * 68)) else mem.uTable i
    uCount := (ofBytes (α := UInt32) users).toNat
    uCur := 0 }

/-- The statics without rules. -/
def Memory.noRules (mem : Memory) : Memory :=
  { mem with pimpCount := 0, pimpRules := fun _ => PimpRule.zero }

/-- load_users on a root with a table of users. -/
theorem loadUsers_spec (h : Readable mem d roles a) (hholds : HoldsUsers users)
    (hsize : users.length ≤ 832) (hread : configAt d.sectors mem.sbCache.rootSnapBlock usersName =
      some ⟨true, hexafsConfig, UInt32.ofNat users.length, users⟩)
    {post : Unit → Memory → PlainDisk → Prop}
    (hpost : post () (mem.withUsers users) d) : loadUsers.wp (plainDevice env) mem d post := by
  have hlength : (UInt32.ofNat users.length).toNat = users.length :=
    UInt32.toNat_ofNat_of_lt' (by rw [UInt32.size]; omega)
  obtain ⟨hheader, hone, htwelve, hentries⟩ := holdsUsers_iff.mp hholds
  rw [loadUsers, Code.wp_bind]
  refine hexafsUsersLoad_spec h ?_
  rw [hread]
  simp only [usersOf]
  rw [if_neg (Nat.not_lt.mpr hsize), hlength, if_neg (by omega), if_neg (by omega), Code.wp_modify]
  exact hpost

/-- pimp_load_rules on a root without rules. -/
theorem pimpLoadRules_none (h : Readable mem d roles a)
    (hread : configAt d.sectors mem.sbCache.rootSnapBlock pimpName = none)
    {post : Bool → Memory → PlainDisk → Prop}
    (hpost : post false mem.noRules d) : pimpLoadRules.wp (plainDevice env) mem d post := by
  have hcleared : Readable mem.noRules d roles a := ⟨h.heap, h.root, h.stale⟩
  have hroot : mem.noRules.sbCache.rootSnapBlock = mem.sbCache.rootSnapBlock := rfl
  rw [pimpLoadRules, Code.wp_bind, Code.wp_modify, Code.wp_bind]
  refine loadConfig_spec hcleared ?_
  rw [hroot, hread, Code.wp_pure]
  exact hpost

/-- What a boot finds of a session: the accounts, with the first one current, and the forms, with
the one of the accounts behind them. -/
structure Restores (mem mem' : Memory) : Prop where
  /-- As many users come back. -/
  users : mem'.uCount = mem.uCount
  /-- Each of them is as it was. -/
  entries : ∀ i < mem.uCount, mem'.uTable i = mem.uTable i
  /-- Root is the current one. -/
  current : mem'.uCur = 0
  /-- The forms come back, and one for the accounts. -/
  forms : mem'.forms.map FormEntry.view = mem.forms.map FormEntry.view ++ [accountView]
  /-- No rules come back. -/
  rules : mem'.rules = []

/-- What the boot leaves behind the policy: a root without forms, unless no block was free. -/
structure BootedStore (a : Allocator) (mem' : Memory) (d' : PlainDisk) : Prop where
  /-- The store is in order. -/
  store : ∃ roles', Store mem' d' roles'
  /-- It is committed. -/
  committed : Committed mem' d'.sectors
  /-- The snapshot of the boot has no abstraction. -/
  root : a.freeCount ≠ 0 → rootAbsAt d'.sectors mem'.sbCache.rootSnapBlock = 0

/-- The statics of a machine that is switched on with a working disk. -/
def Memory.diskBoot : Memory := { Memory.boot with diskOk := true }

theorem Memory.SameStore.trans {mem mem' mem'' : Memory} (h : mem.SameStore mem')
    (h' : mem'.SameStore mem'') : mem.SameStore mem'' :=
  ⟨h'.allocator.trans h.allocator, h'.hexafsMounted.trans h.hexafsMounted,
    h'.sbCache.trans h.sbCache, h'.currentTx.trans h.currentTx⟩

theorem Memory.withUsers_sameStore (mem : Memory) (users : List UInt8) :
    mem.SameStore (mem.withUsers users) := ⟨rfl, rfl, rfl, rfl⟩

theorem Memory.noRules_sameStore (mem : Memory) : mem.SameStore mem.noRules := ⟨rfl, rfl, rfl, rfl⟩

/-- The accounts of a session come back. -/
theorem Memory.Session.restores {current : Memory} (h : current.Session)
    (hforms : mem.forms.map FormEntry.view = current.forms.map FormEntry.view ++ [accountView]) :
    Restores current (mem.withUsers (usersRaw current)).noRules := by
  obtain ⟨_, _, hcount⟩ := holdsUsers_usersRaw h.users_pos h.users_le
  refine ⟨hcount, fun i hi => ?_, rfl, hforms, rfl⟩
  rw [Memory.noRules, Memory.withUsers]
  dsimp only
  rw [hcount, if_pos hi]
  exact userOfBytes_usersRaw hi (h.isRoot_le i hi)

/-- The statics after the forms of a disk were loaded at power-on. -/
def Memory.formsLoaded (env : Environment) (sectors : UInt32 → Sector) : Memory :=
  ((Memory.diskBoot.mountedOn sectors).loaded env sectors 0).1

theorem Memory.formsLoaded_sameStore (env : Environment) (sectors : UInt32 → Sector) :
    (Memory.diskBoot.mountedOn sectors).SameStore (Memory.formsLoaded env sectors) :=
  (Memory.diskBoot.mountedOn sectors).sameStore_loaded sectors 0

theorem Memory.formsLoaded_forms (env : Environment) (sectors : UInt32 → Sector) :
    (Memory.formsLoaded env sectors).forms = formsOf env sectors := by
  have hforms : Memory.diskBoot.forms = [] := rfl
  have htable : Memory.diskBoot.formTable = fun _ => FormEntry.zero := rfl
  rw [Memory.formsLoaded, Memory.forms_loaded, Memory.root_mountedOn, Memory.forms_mountedOn,
    Memory.formTable_mountedOn, hforms, htable, formsOf]

/-- The loaders of the boot on the image of a session. -/
theorem loadData_spec (himage : Image d.sectors roles a) (hstale : ∀ b, d.stale b = false)
    (hcount : d.kmallocCount = 0) {current : Memory} (hsession : current.Session)
    (hholds : HoldsSession d.sectors (rootAbsAt d.sectors (rootOn d.sectors)) current.forms
      (usersRaw current)) {post : Unit → Memory → PlainDisk → Prop}
    (hpost : ∀ k, post () ((Memory.formsLoaded env d.sectors).withUsers (usersRaw current)).noRules
      (d.countedTo k)) :
    loadData.wp (plainDevice env) (Memory.diskBoot.mountedOn d.sectors) d post := by
  have hforms : ∀ form ∈ current.forms, form.name.chars.length ≤ 31 ∧ form.name ≠ usersName ∧
      form.name ≠ pimpName := fun form hform =>
    ⟨(hsession.savable form hform).name_le, hsession.named form hform⟩
  have husers := hholds.configAt_users hforms
  have hpimp := hholds.configAt_pimp hforms
  obtain ⟨hrecord, hsize, _⟩ := holdsUsers_usersRaw hsession.users_pos hsession.users_le
  have hsame := Memory.formsLoaded_sameStore env d.sectors
  have hon : { Memory.diskBoot.mountedOn d.sectors with diskOk := true } =
      Memory.diskBoot.mountedOn d.sectors := rfl
  rw [loadData, Code.wp_bind, Code.wp_modify, Code.wp_bind, hon]
  have hreadable : Readable { Memory.diskBoot.mountedOn d.sectors with diskOk := true } d roles a :=
    ⟨himage.heap, himage.root, hstale⟩
  rw [hon] at hreadable
  refine hexafsLoadAll_spec hreadable ?_
  have hloaded : ((Memory.diskBoot.mountedOn d.sectors).loaded env d.sectors 0).1 =
      Memory.formsLoaded env d.sectors := rfl
  rw [hcount, hloaded, Code.wp_bind]
  generalize ((Memory.diskBoot.mountedOn d.sectors).loaded env d.sectors 0).2 = k
  generalize Memory.formsLoaded env d.sectors = mem₁ at hpost hsame
  have hroot : mem₁.sbCache.rootSnapBlock = rootOn d.sectors := by
    rw [hsame.sbCache]
    rfl
  have hread : Readable mem₁ (d.countedTo k) roles a := by
    refine ⟨himage.heap, ?_, hstale⟩
    rw [hroot]
    exact himage.root
  have hdisk : (d.countedTo k).sectors = d.sectors := rfl
  refine loadUsers_spec hread hrecord hsize ?_ ?_
  · rw [hdisk, hroot]
    exact husers
  · have husersRead : Readable (mem₁.withUsers (usersRaw current)) (d.countedTo k) roles a :=
      ⟨himage.heap, hread.root, hstale⟩
    have hroot' : (mem₁.withUsers (usersRaw current)).sbCache.rootSnapBlock = rootOn d.sectors :=
      hroot
    rw [Code.wp_bind]
    refine pimpLoadRules_none husersRead ?_ ?_
    · rw [hdisk, hroot']
      exact hpimp
    · rw [Code.wp_pure]
      exact hpost k

/-- The policy keeps the tables. -/
theorem Restores.policied {current mem' : Memory} (h : Restores current mem)
    (hstatics : mem' = { mem.policied.begun with
      allocator := mem'.allocator
      sbCache := mem'.sbCache
      currentTx := mem'.currentTx }) : Restores current mem' := by
  have hkept : mem.policied.uCount = mem.uCount ∧ mem.policied.uTable = mem.uTable ∧
      mem.policied.uCur = mem.uCur ∧ mem.policied.forms = mem.forms ∧
        mem.policied.rules = mem.rules := by
    rw [Memory.policied]
    split
    · exact ⟨rfl, rfl, rfl, rfl, rfl⟩
    · exact ⟨rfl, rfl, rfl, rfl, rfl⟩
  obtain ⟨hcount, htable, hcurrent, hforms, hrules⟩ := hkept
  generalize mem.policied = policied at *
  have hafter : mem'.uCount = policied.uCount ∧ mem'.uTable = policied.uTable ∧
      mem'.uCur = policied.uCur ∧ mem'.forms = policied.forms ∧ mem'.rules = policied.rules := by
    rw [hstatics]
    exact ⟨rfl, rfl, rfl, rfl, rfl⟩
  obtain ⟨hcount', htable', hcurrent', hforms', hrules'⟩ := hafter
  refine ⟨?_, fun i hi => ?_, ?_, ?_, ?_⟩
  · rw [hcount', hcount, h.users]
  · rw [htable', htable, h.entries i hi]
  · rw [hcurrent', hcurrent, h.current]
  · rw [hforms', hforms, h.forms]
  · rw [hrules', hrules, h.rules]

/-- The boot on the image of a session. -/
theorem bootStore_spec (hok : env.WritesOk) (hkm : env.KmallocOk)
    (himage : Image d.sectors roles a) (hbitmap : a.bitmap = diskBitmap d.sectors)
    (hcount : d.kmallocCount = 0) {current : Memory} (hsession : current.Session)
    (hholds : HoldsSession d.sectors (rootAbsAt d.sectors (rootOn d.sectors)) current.forms
      (usersRaw current)) :
    bootStore.wp (plainDevice env) Memory.boot d fun _ mem' d' =>
      Restores current mem' ∧ BootedStore a mem' d' := by
  have hhint : Memory.diskBoot.allocator.HintOk := Memory.boot_hintOk
  have hidle : Memory.diskBoot.currentTx.active = false := Memory.boot_idle
  have hmount : Store (Memory.diskBoot.mountedOn d.sectors) d.cleared roles :=
    himage.heap.mountedAs hhint hidle himage.root hbitmap rfl
  have hviews := hholds.formsOf_view himage hkm hsession.savable hsession.forms_le
  rw [← Memory.formsLoaded_forms] at hviews
  have hrestores := hsession.restores hviews
  have hsame := (Memory.formsLoaded_sameStore env d.sectors)
  have hboot : Memory.diskBoot = { Memory.boot with diskOk := true } := rfl
  rw [bootStore, Code.wp_bind, Code.wp_modify, Code.wp_bind, ← hboot]
  refine hexafsMount_valid himage.valid ?_
  rw [Code.wp_bind]
  refine loadData_spec (d := d.cleared) himage (fun _ => rfl) hcount hsession hholds fun k => ?_
  have hsector : d.cleared.sectors = d.sectors := rfl
  rw [hsector, Code.wp_bind]
  generalize Memory.formsLoaded env d.sectors = mem₁ at hrestores hsame
  have hall := (hsame.trans (mem₁.withUsers_sameStore (usersRaw current))).trans
    (mem₁.withUsers (usersRaw current)).noRules_sameStore
  have hagain : (mem₁.withUsers (usersRaw current)).noRules.noRules =
      (mem₁.withUsers (usersRaw current)).noRules := rfl
  generalize (mem₁.withUsers (usersRaw current)).noRules = mem₂ at hrestores hall hagain
  have hstore : Store mem₂ (d.cleared.countedTo k) roles := by
    have hbase := hmount.sameStore hall
    exact ⟨hbase.heap, hbase.hint, hbase.root, hbase.mounted, hbase.active_eq, fun _ => rfl,
      hbase.clean⟩
  have hroot : mem₂.sbCache.rootSnapBlock = rootOn d.sectors := by
    rw [hall.sbCache]
    rfl
  have hforms : ∀ form ∈ current.forms, form.name.chars.length ≤ 31 ∧ form.name ≠ usersName ∧
      form.name ≠ pimpName := fun form hform =>
    ⟨(hsession.savable form hform).name_le, hsession.named form hform⟩
  refine pimpLoadRules_none hstore.readable ?_ ?_
  · rw [hroot]
    exact hholds.configAt_pimp hforms
  rw [hagain, Code.wp_bind]
  refine bootPolicyExecute_spec hok hstore
    fun mem' d' roles' hext hstore' hcommitted hran hkept => ?_
  rw [Code.wp_pure]
  refine ⟨hrestores.policied hran.statics, ⟨roles', hstore'⟩, hcommitted, fun hfree => ?_⟩
  have hpolicy : BootPolicyRan env mem₂ (d.cleared.countedTo k) roles mem' d' roles' :=
    ⟨hext, hstore', hcommitted, hran, hkept⟩
  have hcount₂ : mem₂.allocator.freeCount = a.freeCount := by
    rw [Allocator.freeCount, Allocator.freeCount, Allocator.freeBlocks, Allocator.freeBlocks,
      hall.allocator, hbitmap]
    rfl
  rcases hpolicy.rootAbs with ⟨hzero, _⟩ | ⟨_, habs⟩
  · exact absurd (hcount₂.symm.trans hzero) hfree
  · exact habs

end Boots

section Cycles

variable {env env' : Environment} {machine : Machine} {roles : UInt32 → Option Role}

/-- On every mounted store, when no sector access and no allocation fails: save_data and a boot bring
back every account and every form of a session, no rules, and one more form for the entry of the
accounts. The boot itself leaves a root under which the next boot finds nothing, unless no block was
free for its snapshot. -/
theorem saveData_powerCycle (h : machine.Mounted roles) (hsession : machine.mem.Session)
    (hio : env.IoOk) (hkm : env.KmallocOk) (hio' : env'.IoOk) (hkm' : env'.KmallocOk) :
    ∃ saved, machine.run env saveData = .ok (true, saved) ∧ (saved.NeverFull →
      ∃ booted, (Machine.boot saved.sectors).run env' bootStore = .ok ((), booted) ∧
        Restores machine.mem booted.mem ∧ (saved.mem.allocator.freeCount ≠ 0 →
          reload env' booted.sectors loadForms = .ok (true, []) ∧
            reload env' booted.sectors hexafsUsersLoad = .ok (true, none))) := by
  obtain ⟨ok, saved, hsave, hcoh, rfl, _, hafter⟩ := Machine.run_spec hio.reads h.coherent
    (saveData_spec hio.writes hkm h.store hsession) fun _ _ _ hpost => hpost.2.1
  refine ⟨saved, hsave, fun hquiet => ?_⟩
  obtain ⟨roles', hsaved⟩ := hafter hquiet
  have hsettled : saved.Settled roles' := ⟨⟨hcoh, hsaved.store⟩, hsaved.committed⟩
  have hholds : HoldsSession saved.sectors (rootAbsAt saved.sectors (rootOn saved.sectors))
      machine.mem.forms (usersRaw machine.mem) := by
    rw [hsettled.rootOn_eq]
    exact hsaved.holds
  have himage : Image (bootDisk saved.sectors).sectors roles' saved.mem.allocator := hsettled.image
  have hboot : bootStore.wp (plainDevice env') (Machine.boot saved.sectors).mem
      (Machine.boot saved.sectors).dev.plain fun _ mem' d' =>
        Restores machine.mem mem' ∧ BootedStore saved.mem.allocator mem' d' :=
    bootStore_spec hio'.writes hkm' himage hsettled.committed.bitmap.symm rfl hsession hholds
  obtain ⟨_, booted, hrun, hcoh', hrestores, hbooted⟩ := Machine.run_spec hio'.reads
    (Machine.coherent_boot saved.sectors) hboot fun _ _ _ hpost => by
      obtain ⟨_, hstore⟩ := hpost.2.store
      exact hstore.stale
  refine ⟨booted, hrun, hrestores, fun hfree => ?_⟩
  obtain ⟨last, hstore⟩ := hbooted.store
  have hlast : booted.Settled last := ⟨⟨hcoh', hstore⟩, hbooted.committed⟩
  have hroot : rootAbsAt booted.sectors (rootOn booted.sectors) = 0 := by
    rw [hlast.rootOn_eq]
    exact hbooted.root hfree
  refine ⟨?_, ?_⟩
  · have hlength : (formsOf env' booted.sectors).length = 0 := by
      rw [hlast.image.length_formsOf, if_pos hroot]
    rw [hlast.image.reload_forms hio'.reads, List.length_eq_zero_iff.mp hlength]
  · rw [hlast.image.reload_users hio'.reads, configAt_of_rootAbs_zero hroot]
    rfl

/-- The statics with three forms and one account. -/
def Memory.withSession (mem : Memory) : Memory :=
  { mem.withForms letterForm 3 with
    uTable := oneUser.uTable
    uCount := 1
    diskOk := true }

theorem Memory.withSession_session (mem : Memory) : mem.withSession.Session := by
  have hforms : mem.withSession.forms = letterForms 3 := rfl
  refine ⟨rfl, ?_, ?_, ?_, Nat.le_refl 1, ?_, fun _ _ => ?_⟩
  · rw [hforms]
    exact letterForms_savable (by decide)
  · rw [hforms]
    decide
  · rw [hforms]
    decide
  · exact (by decide : 1 ≤ 12)
  · exact (by decide : (1 : UInt32).toNat ≤ 255)

/-- Three forms and an account survive a power cycle. -/
theorem saveData_powerCycle_letters : ∃ machine saved booted : Machine,
    machine.mem.forms = letterForms 3 ∧ machine.mem.uCount = 1 ∧
      machine.run .faultless saveData = .ok (true, saved) ∧
        (Machine.boot saved.sectors).run .faultless bootStore = .ok ((), booted) ∧
          Restores machine.mem booted.mem := by
  obtain ⟨first, roles, hmount, hfresh⟩ := exists_fresh
  have htest : testRun (fun _ start => testRun (fun _ saved => !saved.mem.allocator.outOfBlocks)
      ((⟨start.mem.withSession, start.dev⟩ : Machine).run .faultless saveData))
      ((Machine.boot blankDisk).run .faultless hexafsMount) = true := by
    decide +kernel
  rw [hmount] at htest
  obtain ⟨_, start, hstart, hsave⟩ := exists_of_testRun htest
  cases hstart
  obtain ⟨_, last, hrun, hquiet⟩ := exists_of_testRun hsave
  rw [Bool.not_eq_true'] at hquiet
  have hio := Environment.faultless_ioOk
  have hkm := Environment.faultless_kmallocOk
  have hsame : first.mem.SameStore first.mem.withSession := ⟨rfl, rfl, rfl, rfl⟩
  have hmounted : Machine.Mounted ⟨first.mem.withSession, first.dev⟩ roles :=
    ⟨hfresh.settled.mounted.coherent, hfresh.settled.mounted.store.sameStore hsame⟩
  obtain ⟨saved, hsaved, hafter⟩ := saveData_powerCycle hmounted first.mem.withSession_session hio
    hkm hio hkm
  have hlast : last = saved := by
    rw [hsaved] at hrun
    exact (Prod.mk.inj (Except.ok.inj hrun)).2.symm
  rw [hlast] at hquiet
  obtain ⟨booted, hboot, hrestores, _⟩ := hafter hquiet
  exact ⟨_, saved, booted, rfl, rfl, hsaved, hboot, hrestores⟩

end Cycles

end HexaOS.Hexafs
