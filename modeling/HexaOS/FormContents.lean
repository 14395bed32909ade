import HexaOS.FormLoading
import HexaOS.FormTableRuns
import HexaOS.HexafsRuns

/-!
# The contents of the forms over runs of commands

The commands on form_table as execute_cmd runs them, with their saves. In every run whose
commands find usable slots for the forms they make there, and lines that fit where cmd_edit
stores them, the contents of the forms are not null, pairwise distinct and allocated, and no
access of a command leaves a block. Without that the slot behind a deleted form is made into a
form again, with a content that another form has.
-/

namespace HexaOS.Shell

open DevicePrograms PackedBytes Hexafs Kernel OwnedPointers

/-- The commands that make, change and delete forms, each with what follows its name. -/
inductive FormCommand where
  | mkform (args : CString)
  | makedim (args : CString)
  | copy (args : CString)
  | move (args : CString)
  | delete (args : CString)
  | write (args : CString)
  | append (args : CString)
  /-- With the lines that are going to be typed. -/
  | edit (args : CString) (typed : List CString)
  | ayo (args : CString)
  | hexpack (args : CString)

/-- A command and save_data. -/
def thenSave (save : KernelM Unit) (code : KernelM (List UInt8)) : KernelM (List UInt8) := do
  let printed ← code
  save
  pure printed

/-- The branches of execute_cmd: what they print. `save` is save_data. -/
def FormCommand.codeWith (save : KernelM Unit) : FormCommand → KernelM (List UInt8)
  | .mkform args => thenSave save do
    let line ← cmdMkform args
    pure (mkformText line)
  | .makedim args => cmdMakedim args
  | .copy args => copyCommand save args
  | .move args => moveCommand save args
  | .delete args => thenSave save (cmdDelete args)
  | .write args => thenSave save (cmdWrite args)
  | .append args => thenSave save (cmdAppend args)
  | .edit args typed => thenSave save do
    let edited ← cmdEdit args typed
    pure edited.1
  | .ayo args => ayoCommand save args
  | .hexpack args => cmdHexpack args

/-- A command with its saves. -/
def FormCommand.code (command : FormCommand) : KernelM (List UInt8) := command.codeWith saveForms

section Planned

/-- The form that copy copies, when it gets so far. -/
def copySource (kernel : KernelMemory) (args : CString) : Option ℕ :=
  let (src, dst) := twoNames args
  if src.chars = [] ∨ dst.chars = [] then none
  else
    match findForm kernel src with
    | none => none
    | some si =>
      if checkPerm kernel si false = true ∨ maxForms ≤ kernel.store.formCount then none else some si

/-- Does makedim make a form? -/
def makesDim (kernel : KernelMemory) (name : CString) : Prop :=
  name.chars ≠ [] ∧ (findForm kernel (dimName name)).isSome = false ∧
    kernel.store.formCount < maxForms

instance (kernel : KernelMemory) (name : CString) : Decidable (makesDim kernel name) :=
  inferInstanceAs (Decidable (_ ∧ _ ∧ _))

/-- The package that `ayo add` installs, when it gets so far. -/
def addedPackage (kernel : KernelMemory) (pkg : CString) : Option PkgEntry :=
  if pkg.chars = [] ∨ kernel.store.uCur ≠ 0 then none
  else
    match findPackage pkg with
    | none => none
    | some entry =>
      if maxForms ≤ kernel.store.formCount + entry.forms.length + 1 ∨
          (findForm kernel entry.marker).isSome = true then none
      else some entry

/-- What the marker and the new forms of a package need. -/
def addedNeeds (kernel : KernelMemory) (entry : PkgEntry) : List Int32 :=
  (Int32.ofNat (cString "1").chars.length + 1) ::
    (newForms (fun _ => false) (formNames kernel ++ [entry.marker]) entry.forms).map PkgForm.needed

/-- The capacities that a command needs in the slots behind the last form, one for each form
that it makes there with the buffer that it finds. -/
def plannedSlots (kernel : KernelMemory) : FormCommand → List Int32
  | .makedim args => if makesDim kernel args then [0] else []
  | .copy args =>
    match copySource kernel args with
    | none => []
    | some si => [Int32.ofNat (kernel.forms.slot si).size]
  | .ayo args =>
    if firstWord 15 args = literal ['a', 'd', 'd'] then
      match addedPackage kernel (restWords 15 31 args) with
      | none => []
      | some entry => addedNeeds kernel entry
    else if firstWord 15 args = literal ['u', 'p', 'd', 'a', 't', 'e'] then
      if kernel.store.uCur ≠ 0 then []
      else (refreshedForms (formNames kernel) pkgDb).map PkgForm.needed
    else []
  | _ => []

/-- The command finds usable slots for the forms that it makes. -/
def FindsUsable (kernel : KernelMemory) (command : FormCommand) : Prop :=
  UsableSlots kernel.forms kernel.store.formCount (plannedSlots kernel command)

/-- What the command stores and reads beside that lies in the buffers: a name that it copies fits
its 32 bytes, the content of a form that it copies or appends to is no longer than an int can say,
the lines that are typed fit the buffer of the form that they go to, which prints up to its end,
and an ELF header that hexpack looks at is there. -/
def StaysInside (kernel : KernelMemory) : FormCommand → Prop
  | .mkform args => args.chars.length < nameMax ∨ kernel.RefusesForm args
  | .makedim args => args.chars = [] ∨ (dimName args).chars.length < nameMax
  | .copy args => ∀ si, copySource kernel args = some si →
      (kernel.forms.slot si).size + 1024 < 2 ^ 31
  | .append args => ∀ idx, findForm kernel (firstWord 31 args) = some idx →
      (kernel.forms.slot idx).size + 2047 + 1025 < 2 ^ 31
  | .edit args typed => ∀ idx, findForm kernel args = some idx →
      Terminated kernel.forms idx ∧ ∀ room, HasBuffer kernel.forms idx room → LinesFit room typed 0
  | .hexpack args => ∀ idx, findForm kernel (firstWord 31 args) = some idx →
      EntryFits kernel.forms idx
  | _ => True

/-- The command finds usable slots, and what it stores and reads lies in the buffers. -/
structure FitsBuffers (kernel : KernelMemory) (command : FormCommand) : Prop where
  /-- The command finds usable slots. -/
  usable : FindsUsable kernel command
  /-- What it stores and reads lies in the buffers. -/
  inside : StaysInside kernel command

end Planned

section Commands

variable {α : Type} {env : Environment} {stops : Stop → Prop} {kernel : KernelMemory} {dev : Device}

instance : IgnoresStore Memory.formCount where
  allocator _ _ := rfl
  sbCache _ _ := rfl
  currentTx _ _ := rfl
  txGen _ _ := rfl

/-- The form table of the kernel. -/
def tableView (kernel : KernelMemory) : FormStore × ℕ := (kernel.forms, kernel.store.formCount)

theorem onStore_keepsTable {code : HexafsM α} (h : code.Keeps Memory.formCount) :
    (onStore code).Keeps tableView := by
  intro kernel
  have hleaves : (code kernel.store).Ensures fun result =>
      result.2.formCount = kernel.store.formCount := h kernel.store
  refine (Program.ensures_bind _ _).mpr (hleaves.mono fun result hkept => ?_)
  show (kernel.forms, result.2.formCount) = (kernel.forms, kernel.store.formCount)
  rw [hkept]

/-- save_data leaves the table alone. -/
theorem saveForms_keepsTable : saveForms.Keeps tableView := by
  refine Code.keeps_memory.bind fun kernel => ?_
  refine Code.Keeps.ite (Code.Keeps.ite ?_ (Code.keeps_halt _)) (Code.keeps_pure _)
  refine Code.Keeps.bind (Code.keeps_modify fun _ => rfl) fun _ => ?_
  exact (onStore_keepsTable saveData_keeps).bind fun _ => Code.keeps_pure _

theorem formsHeld_of_table {kernel' : KernelMemory} (h : FormsHeld kernel)
    (hkept : tableView kernel' = tableView kernel) : FormsHeld kernel' := by
  have hforms : kernel'.forms = kernel.forms := congrArg Prod.fst hkept
  have hcount : kernel'.store.formCount = kernel.store.formCount := congrArg Prod.snd hkept
  rw [FormsHeld, hforms, hcount]
  exact h

/-- Code that leaves the table alone and stops as is allowed. -/
def Saves (env : Environment) (stops : Stop → Prop) (save : KernelM Unit) : Prop :=
  ∀ kernel dev, save.outcome (cachedDevice env) stops kernel dev fun _ kernel' _ =>
    tableView kernel' = tableView kernel

theorem saveForms_saves : Saves env (fun _ => True) saveForms :=
  fun kernel _ => (saveForms_keepsTable kernel).outcome

/-- The rest of a command behind its save. -/
theorem Saves.held {save : KernelM Unit} (hsave : Saves env stops save) (h : FormsHeld kernel)
    (value : α) :
    (do
      save
      pure value : KernelM α).outcome (cachedDevice env) stops kernel dev
        fun _ kernel' _ => FormsHeld kernel' := by
  rw [Code.outcome_bind]
  exact Code.outcome_imp (hsave kernel dev) fun _ _ _ hkept => formsHeld_of_table h hkept

theorem Saves.thenSave_held {save : KernelM Unit} (hsave : Saves env stops save)
    {code : KernelM (List UInt8)}
    (h : code.outcome (cachedDevice env) stops kernel dev fun _ kernel' _ => FormsHeld kernel') :
    (thenSave save code).outcome (cachedDevice env) stops kernel dev fun _ kernel' _ =>
      FormsHeld kernel' := by
  rw [thenSave, Code.outcome_bind]
  exact Code.outcome_imp h fun _ _ _ hheld => hsave.held hheld _

/-- A command on one form answers, or runs its body on a form that is there. -/
theorem withForm_outcome {name : CString} {missing denied : α} {wantWrite : Bool}
    {body : ℕ → KernelM α} {post : α → KernelMemory → Device → Prop}
    (hmissing : findForm kernel name = none → post missing kernel dev)
    (hdenied : ∀ idx, findForm kernel name = some idx → checkPerm kernel idx wantWrite = true →
      post denied kernel dev)
    (hbody : ∀ idx, findForm kernel name = some idx → checkPerm kernel idx wantWrite = false →
      (body idx).outcome (cachedDevice env) stops kernel dev post) :
    (withForm name missing denied wantWrite body).outcome (cachedDevice env) stops kernel dev
      post := by
  rw [withForm, Code.outcome_bind, Code.outcome_memory]
  cases hfound : findForm kernel name with
  | none => exact hmissing hfound
  | some idx =>
    dsimp only
    split
    · rename_i hperm
      exact hdenied idx hfound hperm
    · rename_i hperm
      exact hbody idx hfound (Bool.eq_false_iff.mpr hperm)

/-- A command whose body keeps the forms held. -/
theorem withForm_held {name : CString} {missing denied : α} {wantWrite : Bool}
    {body : ℕ → KernelM α} (h : FormsHeld kernel)
    (hbody : ∀ idx, findForm kernel name = some idx → idx < kernel.store.formCount →
      (body idx).outcome (cachedDevice env) stops kernel dev fun _ kernel' _ =>
        FormsHeld kernel') :
    (withForm name missing denied wantWrite body).outcome (cachedDevice env) stops
      kernel dev fun _ kernel' _ => FormsHeld kernel' :=
  withForm_outcome (fun _ => h) (fun _ _ _ => h) fun idx hfound _ =>
    hbody idx hfound (findForm_lt hfound)

/-- Code that leaves one form in its buffer. -/
theorem held_of_refilled {code : KernelM α} {idx : ℕ} (h : FormsHeld kernel)
    (hidx : idx < kernel.store.formCount)
    (hcode : code.outcome (cachedDevice env) stops kernel dev fun _ kernel' _ =>
      Refilled idx kernel kernel') :
    code.outcome (cachedDevice env) stops kernel dev fun _ kernel' _ => FormsHeld kernel' :=
  Code.outcome_imp hcode fun _ _ _ hrefilled => hrefilled.held h hidx

theorem copyCommand_held (hkm : env.KmallocOk) {save : KernelM Unit} (hsave : Saves env stops save)
    {args : CString} (h : FormsHeld kernel) (hfits : FitsBuffers kernel (.copy args)) :
    (copyCommand save args).outcome (cachedDevice env) stops kernel dev
      fun _ kernel' _ => FormsHeld kernel' := by
  have hu := hfits.usable
  have hinside := hfits.inside
  rw [FindsUsable, plannedSlots, copySource] at hu
  rw [StaysInside, copySource] at hinside
  rw [copyCommand]
  dsimp only [twoNames] at hu hinside ⊢
  split
  · exact h
  rename_i hnames
  rw [if_neg hnames] at hu hinside
  refine withForm_outcome (fun _ => h) (fun _ _ _ => h) fun si hfound hperm => ?_
  rw [Code.outcome_bind, Code.outcome_memory]
  split
  · exact h
  rename_i hroom
  rw [hfound] at hu hinside
  dsimp only at hu hinside
  rw [if_neg (by rw [hperm]; simpa using hroom)] at hu hinside
  rw [Code.outcome_bind]
  refine Code.outcome_imp (copyForm_created hkm h (findForm_lt hfound) hu.1 (hinside si rfl))
    fun _ kernel' dev' hcreated => ?_
  exact hsave.held (hcreated.held hu.1 h) _

theorem cmdMakedim_held {args : CString} (h : FormsHeld kernel)
    (hfits : FitsBuffers kernel (.makedim args)) :
    (cmdMakedim args).outcome (cachedDevice env) stops kernel dev
      fun _ kernel' _ => FormsHeld kernel' := by
  have hu := hfits.usable
  rw [FindsUsable, plannedSlots] at hu
  rw [cmdMakedim, Code.outcome_bind, Code.outcome_memory]
  split
  · exact h
  rename_i hname
  split
  · rename_i hlong
    rcases hfits.inside with hempty | hshort
    · exact absurd hempty hname
    · exact absurd hlong (Nat.not_le.mpr hshort)
  split
  · exact h
  rename_i hnew
  split
  · exact h
  rename_i hroom
  have hmakes : makesDim kernel args := ⟨hname, Bool.eq_false_iff.mpr hnew, by omega⟩
  rw [if_pos hmakes] at hu
  rw [Code.outcome_bind]
  exact Code.outcome_imp (makeDim_created hu.1) fun _ _ _ hcreated => hcreated.held hu.1 h

/-- `ayo add` keeps what every new form keeps. -/
theorem ayoAdd_keeps (hkm : env.KmallocOk) {save : KernelM Unit} (hsave : Saves env stops save)
    {kept : KernelMemory → Prop} (hmake : KeptByMaking kept)
    (htable : ∀ kernel kernel', kept kernel → tableView kernel' = tableView kernel → kept kernel')
    {pkg : CString} (h : kept kernel)
    (hu : ∀ entry, addedPackage kernel pkg = some entry →
      UsableSlots kernel.forms kernel.store.formCount (addedNeeds kernel entry)) :
    (ayoAdd save pkg).outcome (cachedDevice env) stops kernel dev fun _ kernel' _ => kept kernel' := by
  rw [ayoAdd, Code.outcome_bind, Code.outcome_memory]
  split
  · exact h
  rename_i hpkg
  split
  · exact h
  rename_i huser
  cases hentry : findPackage pkg with
  | none => exact h
  | some entry =>
    dsimp only
    split
    · exact h
    rename_i hroom
    split
    · exact h
    rename_i hmarker
    have hadded : addedPackage kernel pkg = some entry := by
      rw [addedPackage, if_neg (by simp [hpkg, huser]), hentry]
      dsimp only
      rw [if_neg (by simp [hroom, hmarker])]
    have hready : Ready kept kernel (formNames kernel) (addedNeeds kernel entry) :=
      ⟨h, rfl, hu entry hadded⟩
    have hone : (cString "1").chars.length + 1025 < 2 ^ 31 := by decide
    rw [Code.outcome_bind]
    refine Code.outcome_imp (createForm_ready hkm hmake hready hone) fun _ kernel₁ dev₁ hmade => ?_
    rw [Code.outcome_bind]
    rw [← List.append_nil (List.map PkgForm.needed _)] at hmade
    refine Code.outcome_imp
      (installForms_ready hkm hmake entry.forms (findPackage_small hentry) hmade)
        fun _ kernel₂ dev₂ hkept => ?_
    rw [Code.outcome_bind]
    exact Code.outcome_imp (hsave kernel₂ dev₂) fun _ _ _ hsame => htable _ _ hkept hsame

theorem ayoAdd_held (hkm : env.KmallocOk) {save : KernelM Unit} (hsave : Saves env stops save)
    {pkg : CString} (h : FormsHeld kernel)
    (hu : ∀ entry, addedPackage kernel pkg = some entry →
      UsableSlots kernel.forms kernel.store.formCount (addedNeeds kernel entry)) :
    (ayoAdd save pkg).outcome (cachedDevice env) stops kernel dev
      fun _ kernel' _ => FormsHeld kernel' :=
  ayoAdd_keeps hkm hsave formsHeld_keptByMaking (fun _ _ => formsHeld_of_table) h hu

theorem ayoRemove_held {save : KernelM Unit} (hsave : Saves env stops save) {pkg : CString}
    (h : FormsHeld kernel) :
    (ayoRemove save pkg).outcome (cachedDevice env) stops kernel dev
      fun _ kernel' _ => FormsHeld kernel' := by
  rw [ayoRemove, Code.outcome_bind, Code.outcome_memory]
  split
  · exact h
  split
  · exact h
  cases findPackage pkg with
  | none => exact h
  | some entry =>
    dsimp only
    split
    · exact h
    rw [Code.outcome_bind]
    exact Code.outcome_imp (uninstallForms_held _ h) fun _ _ _ hheld => hsave.held hheld _

theorem ayoUpdate_held (hkm : env.KmallocOk) {save : KernelM Unit} (hsave : Saves env stops save)
    (h : FormsHeld kernel)
    (hu : kernel.store.uCur = 0 → UsableSlots kernel.forms kernel.store.formCount
      ((refreshedForms (formNames kernel) pkgDb).map PkgForm.needed)) :
    (ayoUpdate save).outcome (cachedDevice env) stops kernel dev
      fun _ kernel' _ => FormsHeld kernel' := by
  rw [ayoUpdate, Code.outcome_bind, Code.outcome_memory]
  split
  · exact h
  rename_i huser
  have hready : Ready FormsHeld kernel (formNames kernel)
      ((refreshedForms (formNames kernel) pkgDb).map PkgForm.needed) :=
    ⟨h, rfl, hu (not_not.mp huser)⟩
  rw [Code.outcome_bind]
  exact Code.outcome_imp (refreshPackages_ready hkm pkgDb pkgDb_small hready) fun _ _ _ hheld =>
    hsave.held hheld _

theorem ayoCommand_held (hkm : env.KmallocOk) {save : KernelM Unit} (hsave : Saves env stops save)
    {args : CString} (h : FormsHeld kernel) (hu : FindsUsable kernel (.ayo args)) :
    (ayoCommand save args).outcome (cachedDevice env) stops kernel dev
      fun _ kernel' _ => FormsHeld kernel' := by
  rw [FindsUsable, plannedSlots] at hu
  rw [ayoCommand, Code.outcome_bind, Code.outcome_memory]
  split
  · exact h
  split
  · exact h
  split
  · rename_i hadd
    rw [if_pos hadd] at hu
    refine ayoAdd_held hkm hsave h fun entry hentry => ?_
    rw [hentry] at hu
    exact hu
  rename_i hadd
  rw [if_neg hadd] at hu
  split
  · exact ayoRemove_held hsave h
  split
  · rename_i hupdate
    rw [if_pos hupdate] at hu
    refine ayoUpdate_held hkm hsave h fun huser => ?_
    rw [if_neg (not_not.mpr huser)] at hu
    exact hu
  · exact h

/-- A command that finds usable slots for its forms and stays inside the buffers keeps the forms
held, and it is stopped by its save only, or waits for a line. -/
theorem FormCommand.codeWith_held (hkm : env.KmallocOk) (hhang : stops .hang) {save : KernelM Unit}
    (hsave : Saves env stops save) (command : FormCommand) (h : FormsHeld kernel)
    (hfits : FitsBuffers kernel command) :
    (command.codeWith save).outcome (cachedDevice env) stops kernel dev fun _ kernel' _ =>
      FormsHeld kernel' := by
  have hword : ∀ args : CString, (restWords 31 2047 args).chars.length ≤ 2047 := fun args =>
    length_takeChars_le _ _
  cases command with
  | mkform args =>
    refine hsave.thenSave_held ?_
    rw [Code.outcome_bind]
    exact Code.outcome_imp (cmdMkform_held h (.inr hfits.inside)) fun _ _ _ hmade => hmade.1
  | makedim args => exact cmdMakedim_held h hfits
  | copy args => exact copyCommand_held hkm hsave h hfits
  | move args =>
    show (moveCommand save args).outcome _ _ _ _ _
    rw [moveCommand]
    dsimp only [twoNames]
    split
    · exact h
    refine withForm_held h fun idx _ hidx => ?_
    rw [Code.outcome_bind, modifyForm_outcome]
    obtain ⟨room, hroom, hsize⟩ := h.buffered idx hidx
    refine hsave.held (Refilled.held ⟨.setSlot kernel (by rfl), room, hroom.setSlot (by rfl)
      (by rfl), ?_⟩ h hidx) _
    rw [forms_withForms, FormStore.slot_setSlot_self]
    exact hsize
  | delete args =>
    refine hsave.thenSave_held (withForm_held h fun idx _ hidx => ?_)
    rw [Code.outcome_bind]
    exact Code.outcome_imp (deleteForm_held h hidx) fun _ _ _ hheld => hheld
  | write args =>
    refine hsave.thenSave_held ?_
    rw [cmdWrite]
    split
    · exact h
    have hlength := hword args
    exact withForm_held h fun idx _ hidx => held_of_refilled h hidx
      (writeForm_refilled hkm (h.buffered idx hidx) (by omega))
  | append args =>
    refine hsave.thenSave_held ?_
    rw [cmdAppend]
    split
    · exact h
    have hlength := hword args
    refine withForm_held h fun idx hfound hidx => held_of_refilled h hidx
      (appendForm_refilled hkm (h.buffered idx hidx) ?_)
    have hsmall := hfits.inside idx hfound
    omega
  | edit args typed =>
    refine hsave.thenSave_held ?_
    rw [Code.outcome_bind]
    refine Code.outcome_imp (withForm_held h fun idx hfound hidx => ?_) fun _ _ _ hheld => hheld
    obtain ⟨room, hroom, -⟩ := h.buffered idx hidx
    obtain ⟨hend, hlines⟩ := hfits.inside idx hfound
    exact held_of_refilled h hidx (editForm_refilled hhang hroom hend (hlines room hroom))
  | ayo args => exact ayoCommand_held hkm hsave h hfits.usable
  | hexpack args =>
    show (hexPackElf _ _ 0 0).outcome _ _ _ _ _
    rw [hexPackElf, Code.outcome_bind, Code.outcome_memory]
    split
    · exact h
    cases hfound : findForm kernel (firstWord 31 args) with
    | none => exact h
    | some idx => exact packForm_held h (findForm_lt hfound) (hfits.inside idx hfound)

end Commands

section Runs

/-- Commands that return, one after the other, on kernels that meet a condition before each
of them, with every allocation granted. Between two of them anything may happen that leaves
the form table and its blocks alone. -/
inductive FormRun (condition : KernelMemory → FormCommand → Prop) (first : System) :
    System → Prop where
  | start : FormRun condition first first
  | command {env : Environment} {system system' : System} {command : FormCommand}
      {printed : List UInt8} (run : FormRun condition first system) (kmallocOk : env.KmallocOk)
      (meets : condition system.kernel command)
      (runs : system.run env command.code = .ok (printed, system')) :
      FormRun condition first system'
  | other {system system' : System} (run : FormRun condition first system)
      (kept : tableView system'.kernel = tableView system.kernel) : FormRun condition first system'

/-- The state behind hexafs_load_all at a boot, with every allocation granted. -/
def LoadedAtBoot (loaded : System) : Prop :=
  ∃ env boot, Environment.KmallocOk env ∧ boot.kernel.store.formCount = 0 ∧
    System.run env loadForms boot = .ok ((), loaded)

theorem LoadedAtBoot.sound {loaded : System} (h : LoadedAtBoot loaded) :
    SoundTable loaded.kernel.forms loaded.kernel.store.formCount := by
  obtain ⟨env, boot, hkm, hzero, hrun⟩ := h
  exact (outcome_of_run (loadForms_sound hkm hzero) hrun).1

/-- A form whose block has its capacity lies in its buffer. -/
theorem SoundTable.held {kernel : KernelMemory}
    (h : SoundTable kernel.forms kernel.store.formCount) : FormsHeld kernel where
  owned := h.owned
  buffered i hi := by
    obtain ⟨block, hblock, hlength, hsize, -⟩ := h.sound i hi
    have hbuffer : HasBuffer kernel.forms i (kernel.forms.slot i).cap :=
      ⟨(h.owned.live i hi).1, ⟨block, hblock, hlength⟩, by omega, Nat.le_refl _, Nat.le_succ _⟩
    exact ⟨_, hbuffer, hsize.le⟩

/-- The only stop that is left is a wait that does not end. -/
def Waits (stop : Stop) : Prop := stop = .hang

/-- A command is stopped by an access outside a block, before it saves. -/
def FormCommand.Faults (env : Environment) (system : System) (command : FormCommand) : Prop :=
  system.run env (command.codeWith (pure ())) = .error .fault

/-- Code that stops only otherwise is not stopped by an access outside a block. -/
theorem not_fault_of_outcome {α : Type} {env : Environment} {stops : Stop → Prop} {code : KernelM α}
    {system : System} {post : α → KernelMemory → Device → Prop} (hstops : ¬stops .fault)
    (h : code.outcome (cachedDevice env) stops system.kernel system.dev post) :
    system.run env code ≠ .error .fault :=
  fun hrun => hstops (stops_of_run h hrun)

/-- A command that fits the buffers has no access outside a block. -/
theorem FormCommand.not_faults {env : Environment} {system : System} {command : FormCommand}
    (hkm : env.KmallocOk) (h : FormsHeld system.kernel) (hfits : FitsBuffers system.kernel command) :
    ¬command.Faults env system := by
  have hnone : Saves env Waits (pure () : KernelM Unit) := fun _ _ => rfl
  have hwaits : Waits .hang := rfl
  have hne : ¬Waits .fault := fun heq => Stop.noConfusion heq
  exact not_fault_of_outcome hne (command.codeWith_held hkm hwaits hnone h hfits)

/-- The forms are held behind every run whose commands fit the buffers. -/
theorem FormRun.held {loaded system : System} (hloaded : LoadedAtBoot loaded)
    (hrun : FormRun FitsBuffers loaded system) : FormsHeld system.kernel := by
  induction hrun with
  | start => exact hloaded.sound.held
  | command _ hkm hfits hrun ih =>
    exact outcome_of_run (FormCommand.codeWith_held hkm trivial saveForms_saves _ ih hfits) hrun
  | other _ hkept ih => exact formsHeld_of_table ih hkept

/-- In every run whose commands find usable slots for the forms that they make and store inside
the buffers, the contents of the forms are not null, pairwise distinct and allocated, and no
command that may come next has an access outside a block. -/
theorem formRun_contentsOwned {loaded system : System} (hloaded : LoadedAtBoot loaded)
    (hrun : FormRun FitsBuffers loaded system) :
    ContentsOwned system.kernel ∧ ∀ env command, Environment.KmallocOk env →
      FitsBuffers system.kernel command → ¬command.Faults env system := by
  have hheld := FormRun.held hloaded hrun
  exact ⟨hheld.owned, fun env command hkm hfits => command.not_faults hkm hheld hfits⟩

/-- form_table before a boot. -/
def emptyTable : FormStore where
  slot := fun _ => ⟨⟨[], CString.zero_notMem_nil⟩, 0, 0, 0, 0, 0⟩
  block := fun _ => none
  fresh := 1
  content_lt _ := Nat.one_pos

/-- The kernel before a boot from a disk without a superblock. -/
def bootSystem : System where
  kernel :=
    { store := Memory.boot
      forms := emptyTable
      capGrants := []
      systemTicks := 0
      intentTable := fun _ => .zero
      nextHandle := 1
      vfsFds := fun _ => .zero }
  dev := (Machine.boot blankDisk).dev

theorem loadedAtBoot_of_run {loaded : System}
    (h : bootSystem.run .faultless loadForms = .ok ((), loaded)) : LoadedAtBoot loaded :=
  ⟨.faultless, bootSystem, Environment.faultless_kmallocOk, rfl, h⟩

/-- Boot and run commands one after the other. -/
def bootAndRun (commands : List FormCommand) : Except Stop System :=
  (bootSystem.run .faultless loadForms).bind fun loaded =>
    commands.foldlM (fun system command => (system.run .faultless command.code).map Prod.snd)
      loaded.2

/-- Does a run end in a system with a property? -/
def endsIn (test : System → Bool) : Except Stop System → Bool
  | .error _ => false
  | .ok system => test system

theorem formRun_of_foldlM {condition : KernelMemory → FormCommand → Prop}
    {loaded system last : System} (commands : List FormCommand)
    (hcondition : ∀ command ∈ commands, ∀ kernel, condition kernel command)
    (hrun : FormRun condition loaded system)
    (h : commands.foldlM (fun system command => (system.run .faultless command.code).map Prod.snd)
      system = .ok last) : FormRun condition loaded last := by
  induction commands generalizing system with
  | nil =>
    have hlast : system = last := Except.ok.inj h
    rwa [hlast] at hrun
  | cons command rest ih =>
    rw [List.foldlM_cons] at h
    cases hstep : system.run .faultless command.code with
    | error stop => rw [hstep] at h; cases h
    | ok result =>
      rw [hstep] at h
      refine ih (fun other hother => hcondition other (List.mem_cons_of_mem _ hother)) ?_ h
      exact .command hrun Environment.faultless_kmallocOk
        (hcondition command List.mem_cons_self _) hstep

/-- A system that commands lead to after a boot. -/
theorem exists_run_of_endsIn {condition : KernelMemory → FormCommand → Prop} {test : System → Bool}
    {commands : List FormCommand}
    (hcondition : ∀ command ∈ commands, ∀ kernel, condition kernel command)
    (h : endsIn test (bootAndRun commands) = true) : ∃ loaded last : System,
      LoadedAtBoot loaded ∧ FormRun condition loaded last ∧ test last = true := by
  rw [bootAndRun] at h
  cases hload : bootSystem.run .faultless loadForms with
  | error stop => rw [hload] at h; cases h
  | ok loaded =>
    rw [hload] at h
    cases hrun : commands.foldlM (fun system command =>
        (system.run .faultless command.code).map Prod.snd) loaded.2 with
    | error stop =>
      rw [Except.bind, hrun] at h
      cases h
    | ok last =>
      rw [Except.bind, hrun] at h
      exact ⟨loaded.2, last, loadedAtBoot_of_run hload,
        formRun_of_foldlM commands hcondition .start hrun, h⟩

/-- A table whose two forms have one content. -/
def twoShareContent (system : System) : Bool :=
  system.kernel.store.formCount == 2 &&
    (system.kernel.forms.slot 0).content == (system.kernel.forms.slot 1).content

/-- Two forms are made, the first one is deleted and a dimension is made in the slot that
the shift left: it has the content of the other form. -/
theorem makedim_afterDelete_sharesContent :
    ¬∀ loaded system : System, LoadedAtBoot loaded → FormRun (fun _ _ => True) loaded system →
      ContentsOwned system.kernel := by
  intro hall
  have htest : endsIn twoShareContent (bootAndRun [.mkform (literal ['a']), .mkform (literal ['b']),
      .delete (literal ['a']), .makedim (literal ['d'])]) = true := by
    decide +kernel
  have hexists : ∃ loaded last : System, LoadedAtBoot loaded ∧
      FormRun (fun _ _ => True) loaded last ∧
      twoShareContent last = true := exists_run_of_endsIn (fun _ _ _ => trivial) htest
  obtain ⟨loaded, last, hloaded, hrun, hshared⟩ := hexists
  have hown : ContentsOwned last.kernel := hall loaded last hloaded hrun
  rw [twoShareContent, Bool.and_eq_true, beq_iff_eq, beq_iff_eq] at hshared
  have hsame : (0 : ℕ) = 1 := hown.eq_of_eq (by rw [hshared.1]; omega) (by rw [hshared.1]; omega)
    hshared.2
  omega

/-- A form is made and written after a boot. -/
theorem formRun_contentsOwned_written : ∃ loaded last : System,
    FormRun FitsBuffers loaded last ∧ last.kernel.store.formCount = 1 ∧
      ContentsOwned last.kernel := by
  have htest : endsIn (fun system => system.kernel.store.formCount == 1)
      (bootAndRun [.mkform (literal ['a']), .write (literal ['a', ' ', 'x'])]) = true := by
    decide +kernel
  have hfits : ∀ command ∈ [FormCommand.mkform (literal ['a']), .write (literal ['a', ' ', 'x'])],
      ∀ kernel, FitsBuffers kernel command := by
    simp only [List.forall_mem_cons]
    exact ⟨fun _ => ⟨trivial, .inl (by decide)⟩, fun _ => ⟨trivial, trivial⟩,
      fun _ h => absurd h (List.not_mem_nil)⟩
  obtain ⟨loaded, last, hloaded, hrun, hcount⟩ := exists_run_of_endsIn hfits htest
  exact ⟨loaded, last, hrun, beq_iff_eq.mp hcount, (formRun_contentsOwned hloaded hrun).1⟩

end Runs

end HexaOS.Shell
