import HexaOS.PackageRemoval
import HexaOS.ShownNumbers
import HexaOS.WrappedBinaries

/-!
# The forms of other users

check_perm stands before every command that writes, renames or deletes a form, and setmode
asks for the owner. While only some users are logged in, none of them root, the forms that
belong to none of them and that others may not write stay in the table as they are, and no
such form comes into it. hexpack asks nobody before it fills a form that is already there.
-/

namespace HexaOS.Shell

open DevicePrograms PackedBytes Hexafs Kernel

section Access

/-- What cmd_setmode prints. -/
def setmodeText : SetmodeLine → List UInt8
  | .usage => said "Usage: setmode <hex_mode> <form>\n"
  | .notFound => said "Not found.\n"
  | .denied => said "Permission denied.\n"
  | .changed => said "Mode changed.\n"

/-- The branch of execute_cmd for setmode. -/
def setmodeCommand (args : CString) : KernelM (List UInt8) := do
  let line ← cmdSetmode args
  pure (setmodeText line)

/-- cmd_setowner -/
def cmdSetowner (args : CString) : KernelM (List UInt8) := do
  let kernel ← Code.memory
  let owner := firstWord 15 args
  let name := restWords 15 31 args
  if owner.chars = [] ∨ name.chars = [] then pure (said "Usage: setowner <user> <form>\n")
  else if kernel.store.uCur ≠ 0 then pure (said "Only root.\n")
  else
    match ← onStore (liftStop (findUser kernel.store owner (List.range kernel.store.uCount))) with
    | none => pure (said "User not found.\n")
    | some user =>
      match findForm kernel name with
      | none => pure (said "Not found.\n")
      | some idx =>
        modifyForm idx fun form => { form with owner := UInt32.ofNat user }
        pure (said "Owner changed.\n")

/-- The commands that change the form table or what it says of a form. -/
inductive TableCommand where
  | form (command : FormCommand)
  | setmode (args : CString)
  | setowner (args : CString)

/-- The branches of execute_cmd: what they print. -/
def TableCommand.code : TableCommand → KernelM (List UInt8)
  | .form command => command.code
  | .setmode args => setmodeCommand args
  | .setowner args => cmdSetowner args

/-- The command finds usable slots for the forms that it makes, and what it stores and reads lies
in the buffers. -/
def TableCommand.FitsBuffers (kernel : KernelMemory) : TableCommand → Prop
  | .form command => Shell.FitsBuffers kernel command
  | .setmode _ => True
  | .setowner _ => True

end Access

section Specification

/-- A form that belongs to none of these users, and that others may not write. -/
def ForeignTo (users : List ℕ) (view : FormView) : Prop :=
  (∀ user ∈ users, view.owner ≠ UInt32.ofNat user) ∧ view.mode &&& permOthW = 0

instance decidableForeign (users : List ℕ) (view : FormView) : Decidable (ForeignTo users view) :=
  inferInstanceAs (Decidable (_ ∧ _))

/-- The forms in the table that are foreign to these users. -/
def foreignViews (users : List ℕ) (kernel : KernelMemory) : List FormView :=
  (formViews kernel).filter fun view => decide (ForeignTo users view)

/-- A form that the command fills without a look at its permissions may be written. -/
def TableCommand.FillsWritable (kernel : KernelMemory) : TableCommand → Prop
  | .form (.hexpack args) => ∀ idx, findForm kernel (hexName (firstWord 31 args)) = some idx →
      checkPerm kernel idx true = false
  | _ => True

/-- One of these users gives the command. -/
structure TableCommand.GivenBy (users : List ℕ) (kernel : KernelMemory) (command : TableCommand) :
    Prop where
  /-- One of the users is logged in. -/
  user : kernel.store.uCur ∈ users
  /-- The command stays inside the buffers. -/
  fits : command.FitsBuffers kernel
  /-- A form that hexpack fills may be written. -/
  writable : command.FillsWritable kernel

end Specification

section Tables

variable {users : List ℕ} {kernel kernel' : KernelMemory} {idx : ℕ}

theorem getElem_formViews (kernel : KernelMemory) {i : ℕ} (hi : i < (formViews kernel).length) :
    (formViews kernel)[i] = formView kernel.forms i := by
  simp only [formViews, List.getElem_map, List.getElem_range]

/-- A slot and its block tell what a user sees of the form. -/
theorem formView_congr {forms forms' : FormStore} {i j : ℕ} (hslot : forms'.slot j = forms.slot i)
    (hblock : forms'.block (contents forms i) = forms.block (contents forms i)) :
    formView forms' j = formView forms i := by
  have hcontent : (forms.slot i).content = contents forms i := rfl
  rw [formView, formView, FormStore.bytes, FormStore.bytes, hslot, hcontent, hblock]

/-- Tables that agree but for one form. -/
theorem formViews_set (hcount : kernel'.store.formCount = kernel.store.formCount)
    (hslot : ∀ j < kernel.store.formCount, j ≠ idx → kernel'.forms.slot j = kernel.forms.slot j)
    (hblock : ∀ j < kernel.store.formCount, j ≠ idx →
      kernel'.forms.block (contents kernel.forms j) = kernel.forms.block (contents kernel.forms j)) :
    formViews kernel' = (formViews kernel).set idx (formView kernel'.forms idx) := by
  refine List.ext_getElem ?_ fun i hi hi' => ?_
  · rw [List.length_set, length_formViews, length_formViews, hcount]
  · rw [List.length_set, length_formViews] at hi'
    rw [getElem_formViews, List.getElem_set]
    split
    · rename_i heq
      rw [heq]
    · rename_i hne
      rw [getElem_formViews]
      exact formView_congr (hslot i hi' (Ne.symm hne)) (hblock i hi' (Ne.symm hne))

/-- A table with one form more. -/
theorem formViews_concat (hcount : kernel'.store.formCount = kernel.store.formCount + 1)
    (hslot : ∀ j < kernel.store.formCount, kernel'.forms.slot j = kernel.forms.slot j)
    (hblock : ∀ j < kernel.store.formCount,
      kernel'.forms.block (contents kernel.forms j) = kernel.forms.block (contents kernel.forms j)) :
    formViews kernel' =
      formViews kernel ++ [formView kernel'.forms kernel.store.formCount] := by
  rw [formViews, hcount, List.range_succ, List.map_append, List.map_singleton, formViews]
  refine congrArg (· ++ _) (List.map_congr_left fun i hi => ?_)
  have hi' : i < kernel.store.formCount := List.mem_range.mp hi
  exact formView_congr (hslot i hi') (hblock i hi')

/-- A table with one form less. -/
theorem formViews_erase {freed : FormStore} (hidx : idx < kernel.store.formCount)
    (hforms : kernel'.forms = shiftForms freed idx kernel.store.formCount)
    (hcount : kernel'.store.formCount = kernel.store.formCount - 1)
    (hslot : freed.slot = kernel.forms.slot)
    (hblock : ∀ j < kernel.store.formCount, j ≠ idx →
      freed.block (contents kernel.forms j) = kernel.forms.block (contents kernel.forms j)) :
    formViews kernel' = (formViews kernel).eraseIdx idx := by
  refine List.ext_getElem ?_ fun i hi hi' => ?_
  · rw [List.length_eraseIdx, length_formViews, length_formViews, hcount, if_pos hidx]
  · rw [length_formViews, hcount] at hi
    rw [getElem_formViews, List.getElem_eraseIdx]
    split
    · rename_i hlt
      rw [getElem_formViews, hforms]
      refine formView_congr ?_ (hblock i (by omega) (by omega))
      rw [← hslot]
      exact if_neg fun hand => absurd hand.1 (by omega)
    · rename_i hle
      rw [getElem_formViews, hforms]
      refine formView_congr ?_ (hblock (i + 1) (by omega) (by omega))
      rw [← hslot]
      exact if_pos ⟨by omega, by omega⟩

end Tables

section Guarding

variable {users : List ℕ} {kernel kernel' : KernelMemory} {idx : ℕ}

/-- A form is not foreign to a user who may write it. -/
theorem not_foreign_of_checkPerm (hroot : 0 ∉ users) (huser : kernel.store.uCur ∈ users)
    (hperm : checkPerm kernel idx true = false) : ¬ForeignTo users (formView kernel.forms idx) := by
  intro hforeign
  have hother : (kernel.forms.slot idx).owner ≠ UInt32.ofNat kernel.store.uCur :=
    hforeign.1 _ huser
  have hmode : (kernel.forms.slot idx).mode &&& permOthW = 0 := hforeign.2
  have hne : kernel.store.uCur ≠ 0 := fun hzero => hroot (hzero ▸ huser)
  rw [checkPerm] at hperm
  split at hperm
  · cases hperm
  · rw [if_pos rfl, hmode] at hperm
    cases hperm

/-- Whether a form is foreign depends on its owner and its mode. -/
theorem foreign_congr {view view' : FormView} (howner : view'.owner = view.owner)
    (hmode : view'.mode = view.mode) : ForeignTo users view' ↔ ForeignTo users view := by
  rw [ForeignTo, ForeignTo, howner, hmode]

/-- A form of a user is not foreign to the user. -/
theorem not_foreign_of_owner {view : FormView} {user : ℕ} (huser : user ∈ users)
    (howner : view.owner = UInt32.ofNat user) : ¬ForeignTo users view :=
  fun hforeign => hforeign.1 user huser howner

/-- An element that a filter drops may be replaced by another one that it drops. -/
theorem filter_set_of_dropped {α : Type} {p : α → Bool} {items : List α} {item : α} {i : ℕ}
    (hold : ∀ hi : i < items.length, p items[i] = false) (hnew : p item = false) :
    (items.set i item).filter p = items.filter p := by
  induction items generalizing i with
  | nil => rfl
  | cons first rest ih =>
    cases i with
    | zero =>
      have hfirst : p first = false := hold (Nat.succ_pos _)
      rw [List.set_cons_zero, List.filter_cons_of_neg (by simp [hnew]),
        List.filter_cons_of_neg (by simp [hfirst])]
    | succ i =>
      have hrest : (rest.set i item).filter p = rest.filter p :=
        ih fun hi => hold (Nat.succ_lt_succ hi)
      rw [List.set_cons_succ, List.filter_cons, List.filter_cons, hrest]

/-- Such an element may be taken out. -/
theorem filter_eraseIdx_of_dropped {α : Type} {p : α → Bool} {items : List α} {i : ℕ}
    (hold : ∀ hi : i < items.length, p items[i] = false) :
    (items.eraseIdx i).filter p = items.filter p := by
  induction items generalizing i with
  | nil => rfl
  | cons first rest ih =>
    cases i with
    | zero =>
      have hfirst : p first = false := hold (Nat.succ_pos _)
      rw [List.eraseIdx_cons_zero, List.filter_cons_of_neg (by simp [hfirst])]
    | succ i =>
      have hrest : (rest.eraseIdx i).filter p = rest.filter p :=
        ih fun hi => hold (Nat.succ_lt_succ hi)
      rw [List.eraseIdx_cons_succ, List.filter_cons, List.filter_cons, hrest]

theorem decide_foreign_getElem (hold : ¬ForeignTo users (formView kernel.forms idx))
    (hi : idx < (formViews kernel).length) :
    decide (ForeignTo users (formViews kernel)[idx]) = false := by
  rw [getElem_formViews]
  exact decide_eq_false hold

/-- A change of one form that is foreign neither before nor behind it. -/
theorem foreignViews_set
    (hviews : formViews kernel' = (formViews kernel).set idx (formView kernel'.forms idx))
    (hold : ¬ForeignTo users (formView kernel.forms idx))
    (hnew : ¬ForeignTo users (formView kernel'.forms idx)) :
    foreignViews users kernel' = foreignViews users kernel := by
  rw [foreignViews, foreignViews, hviews]
  exact filter_set_of_dropped (decide_foreign_getElem hold) (decide_eq_false hnew)

/-- A form more that is not foreign. -/
theorem foreignViews_concat {view : FormView}
    (hviews : formViews kernel' = formViews kernel ++ [view])
    (hnew : ¬ForeignTo users view) : foreignViews users kernel' = foreignViews users kernel := by
  rw [foreignViews, foreignViews, hviews, List.filter_append,
    List.filter_cons_of_neg (by simpa using hnew), List.filter_nil, List.append_nil]

/-- A form less that is not foreign. -/
theorem foreignViews_erase (hviews : formViews kernel' = (formViews kernel).eraseIdx idx)
    (hold : ¬ForeignTo users (formView kernel.forms idx)) :
    foreignViews users kernel' = foreignViews users kernel := by
  rw [foreignViews, foreignViews, hviews]
  exact filter_eraseIdx_of_dropped (decide_foreign_getElem hold)

theorem foreignViews_of_table (h : tableView kernel' = tableView kernel) :
    foreignViews users kernel' = foreignViews users kernel := by
  have hforms : kernel'.forms = kernel.forms := congrArg Prod.fst h
  have hcount : kernel'.store.formCount = kernel.store.formCount := congrArg Prod.snd h
  rw [foreignViews, foreignViews, formViews, formViews, hforms, hcount]

/-- What touches a form that is not foreign. -/
theorem TouchesForm.foreignViews (h : TouchesForm idx kernel kernel') (hown : ContentsOwned kernel)
    (hidx : idx < kernel.store.formCount) (hold : ¬ForeignTo users (formView kernel.forms idx))
    (hnew : ¬ForeignTo users (formView kernel'.forms idx)) :
    foreignViews users kernel' = Shell.foreignViews users kernel := by
  refine foreignViews_set (formViews_set h.formCount (fun j _ hne => h.forms.other j hne)
    fun j hj hne => h.forms.block j hne fun heq => hne ?_) hold hnew
  exact hown.eq_of_eq hj hidx heq

/-- What makes a form of one of the users. -/
theorem Created.foreignViews {needed : Int32} (h : Created kernel kernel')
    (hu : UsableSlot kernel.forms kernel.store.formCount needed) (hown : ContentsOwned kernel)
    (hnew : ¬ForeignTo users (formView kernel'.forms kernel.store.formCount)) :
    foreignViews users kernel' = Shell.foreignViews users kernel :=
  foreignViews_concat (formViews_concat h.formCount (fun j hj => h.touches.other j hj.ne)
    fun j hj => h.touches.block j hj.ne (hu.apart hown hj)) hnew

end Guarding

section Modes

variable {kernel : KernelMemory} {idx : ℕ}

/-- The owner and the mode of every slot. -/
def accessView (kernel : KernelMemory) : ℕ → UInt32 × UInt16 :=
  fun i => ((kernel.forms.slot i).owner, (kernel.forms.slot i).mode)

theorem modifyForm_keepsAccess {update : FormSlot → FormSlot}
    (howner : ∀ form, (update form).owner = form.owner)
    (hmode : ∀ form, (update form).mode = form.mode) : (modifyForm idx update).Keeps accessView := by
  refine Code.keeps_modify fun kernel => funext fun i => ?_
  show ((((kernel.forms.setSlot idx (update (kernel.forms.slot idx))).slot i)).owner,
    ((kernel.forms.setSlot idx (update (kernel.forms.slot idx))).slot i).mode) = _
  by_cases hi : i = idx
  · rw [hi, FormStore.slot_setSlot_self, howner, hmode]
    rfl
  · rw [FormStore.slot_setSlot_of_ne _ hi]
    rfl

theorem storeBytes_keepsAccess (address : ℕ) (offset : Int) (bytes : List UInt8) :
    (storeBytes address offset bytes).Keeps accessView :=
  fun _ => storeBytes_ensures fun _ _ _ _ => rfl

theorem copyText_keepsAccess (idx : ℕ) (text : List UInt8) :
    (copyText idx text).Keeps accessView :=
  Code.keeps_memory.bind fun _ => storeBytes_keepsAccess _ _ _

theorem formEnsureCap_keepsAccess (idx : ℕ) (needed : Int32) :
    (formEnsureCap idx needed).Keeps accessView := by
  intro kernel
  refine (formEnsureCap_ensures kernel idx needed).mono fun _ kernel' htouched => funext fun i => ?_
  obtain ⟨-, -, hforms⟩ := htouched
  rw [accessView, accessView]
  by_cases hi : i = idx
  · rw [hi, hforms.owner, hforms.mode]
  · rw [hforms.other i hi]

theorem writeForm_keepsAccess (idx : ℕ) (content : CString) :
    (writeForm idx content).Keeps accessView := by
  refine (formEnsureCap_keepsAccess idx _).bind fun _ => Code.Keeps.ite ?_ (Code.keeps_pure _)
  refine Code.Keeps.bind ?_ fun _ => Code.keeps_pure _
  exact (copyText_keepsAccess idx _).bind fun _ =>
    modifyForm_keepsAccess (by intro _; rfl) (by intro _; rfl)

theorem appendForm_keepsAccess (idx : ℕ) (content : CString) :
    (appendForm idx content).Keeps accessView := by
  refine Code.keeps_memory.bind fun _ => (formEnsureCap_keepsAccess idx _).bind fun _ => ?_
  refine Code.Keeps.ite (Code.Keeps.bind ?_ fun _ => Code.keeps_pure _) (Code.keeps_pure _)
  refine Code.keeps_memory.bind fun _ => (storeBytes_keepsAccess _ _ _).bind fun _ => ?_
  exact modifyForm_keepsAccess (by intro _; rfl) (by intro _; rfl)

theorem editLoop_keepsAccess (idx : ℕ) (typed : List CString) (total : ℕ) :
    (editLoop idx typed total).Keeps accessView := by
  induction typed generalizing total with
  | nil => exact Code.keeps_halt _
  | cons line rest ih =>
    refine (Code.keeps_pure _).ite ((Code.keeps_pure _).ite ?_)
    refine Code.Keeps.bind ?_ fun _ => (ih _).bind fun _ => Code.keeps_pure _
    refine Code.keeps_memory.bind fun _ => (storeBytes_keepsAccess _ _ _).bind fun _ => ?_
    exact modifyForm_keepsAccess (by intro _; rfl) (by intro _; rfl)

theorem editForm_keepsAccess (idx : ℕ) (name : CString) (typed : List CString) :
    (editForm idx name typed).Keeps accessView := by
  refine ((showCurrent_keeps idx).comp accessView).bind fun _ => ?_
  refine (copyText_keepsAccess idx []).bind fun _ => ?_
  refine (modifyForm_keepsAccess (by intro _; rfl) (by intro _; rfl)).bind fun _ => ?_
  exact (editLoop_keepsAccess idx typed 0).bind fun _ => Code.keeps_pure _

/-- The new form of makedim belongs to the user. -/
theorem makeDim_owner (kernel : KernelMemory) (name : CString) :
    (makeDim name).Ensures kernel fun _ kernel' =>
      (kernel'.forms.slot kernel.store.formCount).owner = UInt32.ofNat kernel.store.uCur := by
  rw [makeDim, Code.ensures_bind, Code.ensures_memory]
  dsimp only
  refine Code.ensures_bind_of_forall _ fun _ middle => ?_
  refine Code.ensures_bind_of_forall _ fun _ middle => ?_
  rw [modifyForm, modifyForms, Code.ensures_bind, Code.ensures_modify, setFormCount,
    Code.ensures_modify]
  dsimp only
  rw [FormStore.slot_setSlot_self]

/-- The new form of copy belongs to the user. -/
theorem copyForm_owner (kernel : KernelMemory) (si : ℕ) (dst : CString) :
    (copyForm si dst).Ensures kernel fun _ kernel' =>
      (kernel'.forms.slot kernel.store.formCount).owner = UInt32.ofNat kernel.store.uCur := by
  rw [copyForm, Code.ensures_bind, Code.ensures_memory]
  dsimp only
  refine Code.ensures_bind_of_forall _ fun _ middle => ?_
  refine Code.ensures_bind_of_forall _ fun _ middle => ?_
  refine Code.ensures_bind_of_forall _ fun _ middle => ?_
  rw [fillCopy, Code.ensures_bind, Code.ensures_bind, Code.ensures_memory, modifyForm, modifyForms,
    Code.ensures_modify, setFormCount, Code.ensures_modify]
  dsimp only
  rw [FormStore.slot_setSlot_self]

end Modes

section Commands

variable {α : Type} {env : Environment} {users : List ℕ} {kernel : KernelMemory} {dev : Device}
  {idx : ℕ}

/-- Code that wherever it returns leaves the forms that are foreign to these users. -/
def KeepsForeign (users : List ℕ) (env : Environment) (kernel : KernelMemory) (dev : Device)
    (code : KernelM α) : Prop :=
  code.outcome (cachedDevice env) (fun _ => True) kernel dev fun _ kernel' _ =>
    foreignViews users kernel' = foreignViews users kernel

/-- The rest of a command behind its save. -/
theorem keepsForeign_save {code : KernelM α} {printed : α → KernelM (List UInt8)}
    (h : KeepsForeign users env kernel dev code)
    (hprinted : ∀ value, (printed value).Keeps tableView) :
    KeepsForeign users env kernel dev (code >>= printed) := by
  rw [KeepsForeign, Code.outcome_bind]
  refine Code.outcome_imp h fun value kernel' dev' hkept => ?_
  exact Code.outcome_imp ((hprinted value) kernel').outcome fun _ _ _ hkept' =>
    (foreignViews_of_table hkept').trans hkept

theorem saved_keepsTable (value : List UInt8) :
    (do
      saveForms
      pure value : KernelM (List UInt8)).Keeps tableView :=
  saveForms_keepsTable.bind fun _ => Code.keeps_pure _

theorem keepsForeign_thenSave {code : KernelM (List UInt8)}
    (h : KeepsForeign users env kernel dev code) :
    KeepsForeign users env kernel dev (thenSave saveForms code) :=
  keepsForeign_save h saved_keepsTable

/-- Code on one form that is not foreign, which leaves its owner and its mode. -/
theorem TouchesOne.keepsForeign {code : KernelM α} (hc : TouchesOne idx code)
    (haccess : code.Keeps accessView) (hown : ContentsOwned kernel)
    (hidx : idx < kernel.store.formCount) (hold : ¬ForeignTo users (formView kernel.forms idx)) :
    KeepsForeign users env kernel dev code := by
  refine Code.outcome_imp (Code.Ensures.and_outcome (haccess kernel) (hc env kernel dev))
    fun _ kernel' _ hpost => ?_
  have hkept : accessView kernel' idx = accessView kernel idx := congrFun hpost.1 idx
  have howner : (formView kernel'.forms idx).owner = (formView kernel.forms idx).owner :=
    congrArg Prod.fst hkept
  have hmode : (formView kernel'.forms idx).mode = (formView kernel.forms idx).mode :=
    congrArg Prod.snd hkept
  exact hpost.2.foreignViews hown hidx hold fun hnew => hold ((foreign_congr howner hmode).mp hnew)

/-- A command on one form that the user may write. -/
theorem withForm_keepsForeign {name : CString} {missing denied : α} {body : ℕ → KernelM α}
    (hroot : 0 ∉ users) (huser : kernel.store.uCur ∈ users)
    (hbody : ∀ idx < kernel.store.formCount, ¬ForeignTo users (formView kernel.forms idx) →
      KeepsForeign users env kernel dev (body idx)) :
    KeepsForeign users env kernel dev (withForm name missing denied true body) :=
  withForm_outcome (fun _ => rfl) (fun _ _ _ => rfl) fun idx hfound hperm =>
    hbody idx (findForm_lt hfound) (not_foreign_of_checkPerm hroot huser hperm)

theorem deleteForm_keepsForeign (hown : ContentsOwned kernel) (hidx : idx < kernel.store.formCount)
    (hold : ¬ForeignTo users (formView kernel.forms idx)) :
    KeepsForeign users env kernel dev (deleteForm idx) := by
  rw [KeepsForeign, deleteForm, Code.outcome_bind, Code.outcome_memory, Code.outcome_bind]
  refine freeBlock_outcome (.inl trivial) (fun _ => ?_) fun _ _ => ?_
  · exact foreignViews_erase (formViews_erase hidx rfl rfl rfl fun _ _ _ => rfl) hold
  · refine foreignViews_erase (formViews_erase hidx rfl rfl rfl fun j hj hne => ?_) hold
    exact FormStore.block_setBlock_of_ne _ (fun heq => hne (hown.eq_of_eq hj hidx heq)) _

theorem owner_made (forms : FormStore) (count : ℕ) (name : CString) (owner : UInt32)
    (fill : List UInt8) : (formView (forms.made count name owner fill) count).owner = owner := by
  rw [formView, FormStore.slot_made_self]

/-- A form that one of the users makes is foreign to none of them. -/
theorem foreignViews_made (huser : kernel.store.uCur ∈ users) (name : CString) (fill : List UInt8) :
    foreignViews users (kernel.withTable (kernel.forms.made kernel.store.formCount name
      (UInt32.ofNat kernel.store.uCur) fill) (kernel.store.formCount + 1)) =
        foreignViews users kernel := by
  refine foreignViews_concat (formViews_concat rfl (fun j hj => ?_) fun j _ => ?_)
    (not_foreign_of_owner huser (owner_made kernel.forms _ name _ fill))
  · exact FormStore.slot_made_of_ne _ hj.ne _ _ _
  · rw [forms_withTable, FormStore.block_made, Function.update_of_ne (contents_ne_fresh _ j)]

theorem cmdMkform_keepsForeign (hkm : env.KmallocOk) (huser : kernel.store.uCur ∈ users)
    (name : CString) : KeepsForeign users env kernel dev (cmdMkform name) := by
  refine cmdMkform_outcome (.inl trivial) (fun _ _ _ => rfl) (fun hnone => ?_)
    fun fill _ _ _ _ _ => ?_
  · rw [hkm.heapBlock] at hnone
    cases hnone
  · exact foreignViews_made huser name fill

theorem cmdMakedim_keepsForeign {args : CString} (huser : kernel.store.uCur ∈ users)
    (hown : ContentsOwned kernel) (hu : FindsUsable kernel (.makedim args)) :
    KeepsForeign users env kernel dev (cmdMakedim args) := by
  rw [FindsUsable, plannedSlots] at hu
  rw [KeepsForeign, cmdMakedim, Code.outcome_bind, Code.outcome_memory]
  split
  · rfl
  rename_i hname
  split
  · exact trivial
  split
  · rfl
  rename_i hnew
  split
  · rfl
  rename_i hroom
  have hmakes : makesDim kernel args := ⟨hname, Bool.eq_false_iff.mpr hnew, by omega⟩
  rw [if_pos hmakes] at hu
  rw [Code.outcome_bind]
  refine Code.outcome_imp (Code.Ensures.and_outcome (makeDim_owner kernel _)
    (makeDim_created hu.1)) fun _ _ _ hpost => ?_
  exact hpost.2.foreignViews hu.1 hown (not_foreign_of_owner huser hpost.1)

theorem copyCommand_keepsForeign (hkm : env.KmallocOk) {args : CString}
    (huser : kernel.store.uCur ∈ users) (hheld : FormsHeld kernel)
    (hfits : FitsBuffers kernel (.copy args)) :
    KeepsForeign users env kernel dev (copyCommand saveForms args) := by
  have hu := hfits.usable
  have hinside := hfits.inside
  rw [FindsUsable, plannedSlots, copySource] at hu
  rw [StaysInside, copySource] at hinside
  rw [KeepsForeign, copyCommand]
  dsimp only [twoNames] at hu hinside ⊢
  split
  · rfl
  rename_i hnames
  rw [if_neg hnames] at hu hinside
  refine withForm_outcome (fun _ => rfl) (fun _ _ _ => rfl) fun si hfound hperm => ?_
  rw [Code.outcome_bind, Code.outcome_memory]
  split
  · rfl
  rename_i hroom
  rw [hfound] at hu hinside
  dsimp only at hu hinside
  rw [if_neg (by rw [hperm]; simpa using hroom)] at hu hinside
  refine keepsForeign_save ?_ fun _ => saved_keepsTable _
  refine Code.outcome_imp (Code.Ensures.and_outcome (copyForm_owner kernel si _)
    (copyForm_created hkm hheld (findForm_lt hfound) hu.1 (hinside si rfl)))
    fun _ kernel' _ hpost => ?_
  exact hpost.2.foreignViews hu.1 hheld.owned (not_foreign_of_owner huser hpost.1)

theorem moveCommand_keepsForeign {args : CString} (hroot : 0 ∉ users)
    (huser : kernel.store.uCur ∈ users) (hown : ContentsOwned kernel) :
    KeepsForeign users env kernel dev (moveCommand saveForms args) := by
  rw [moveCommand]
  dsimp only [twoNames]
  split
  · exact rfl
  refine withForm_keepsForeign hroot huser fun idx hidx hold => ?_
  refine keepsForeign_save ?_ fun _ => saved_keepsTable _
  exact TouchesOne.keepsForeign (modifyForm_touches (by intro _; rfl))
    (modifyForm_keepsAccess (by intro _; rfl) (by intro _; rfl)) hown hidx hold

/-- The packages are for root. -/
theorem ayoCommand_keepsForeign {args : CString} (hne : kernel.store.uCur ≠ 0) :
    KeepsForeign users env kernel dev (ayoCommand saveForms args) := by
  rw [KeepsForeign, ayoCommand, Code.outcome_bind, Code.outcome_memory]
  split
  · rfl
  split
  · rfl
  split
  · rw [ayoAdd, Code.outcome_bind, Code.outcome_memory]
    split
    · rfl
    · rfl
  split
  · rw [ayoRemove, Code.outcome_bind, Code.outcome_memory]
    split
    · rfl
    · rfl
  split
  · rw [ayoUpdate, Code.outcome_bind, Code.outcome_memory, if_pos hne]
    rfl
  · rfl

theorem cmdSetmode_keepsForeign (hroot : 0 ∉ users) (huser : kernel.store.uCur ∈ users)
    (hown : ContentsOwned kernel) (args : CString) :
    KeepsForeign users env kernel dev (cmdSetmode args) := by
  rw [KeepsForeign, cmdSetmode, Code.outcome_bind, Code.outcome_memory]
  dsimp only
  split
  · rfl
  cases hfound : findForm kernel (restWords 15 31 args) with
  | none => rfl
  | some idx =>
    dsimp only
    split
    · rfl
    rename_i hallowed
    have hne : kernel.store.uCur ≠ 0 := fun hzero => hroot (hzero ▸ huser)
    have howner : (kernel.forms.slot idx).owner = UInt32.ofNat kernel.store.uCur := by
      by_contra hother
      exact hallowed ⟨hne, hother⟩
    rw [Code.outcome_bind, modifyForm_outcome]
    have htouched : TouchesForm idx kernel (kernel.withForms (kernel.forms.setSlot idx
        { kernel.forms.slot idx with
          mode := (atoi (firstWord 15 args).chars).toUInt32.toUInt16 })) :=
      TouchesForm.setSlot kernel rfl
    refine htouched.foreignViews hown (findForm_lt hfound) (not_foreign_of_owner huser howner)
      (not_foreign_of_owner huser ?_)
    rw [formView, forms_withForms, FormStore.slot_setSlot_self]
    exact howner

/-- setowner is for root. -/
theorem cmdSetowner_keepsForeign (hne : kernel.store.uCur ≠ 0) (args : CString) :
    KeepsForeign users env kernel dev (cmdSetowner args) := by
  rw [KeepsForeign, cmdSetowner, Code.outcome_bind, Code.outcome_memory]
  dsimp only
  split
  · rfl
  · rfl

end Commands

section Packing

variable {env : Environment} {users : List ℕ} {kernel kernel' : KernelMemory} {dev : Device}
  {address hidx len : ℕ} {name : CString}

/-- A form that gives up its block for one that no form has. -/
theorem adoptBlock_keepsForeign (hown : ContentsOwned kernel) (hlt : hidx < kernel.store.formCount)
    (hold : ¬ForeignTo users (formView kernel.forms hidx)) :
    KeepsForeign users env kernel dev (adoptBlock hidx address len) := by
  rw [KeepsForeign, adoptBlock, Code.outcome_bind, Code.outcome_memory, Code.outcome_bind]
  have hadopt : ∀ freed : FormStore, freed.slot = kernel.forms.slot →
      (∀ other ≠ contents kernel.forms hidx, freed.block other = kernel.forms.block other) →
      (modifyForm hidx fun form => { form with content := address, size := len, cap := len }).outcome
        (cachedDevice env) (fun _ => True) (kernel.withForms freed) dev fun _ kernel' _ =>
          foreignViews users kernel' = foreignViews users kernel := by
    intro freed hslot hblock
    rw [modifyForm_outcome]
    refine foreignViews_set (formViews_set rfl (fun j _ hne => ?_) fun j hj hne => ?_) hold ?_
    · exact (FormStore.slot_setSlot_of_ne _ hne _).trans (congrFun hslot j)
    · exact hblock _ fun heq => hne (hown.eq_of_eq hj hlt heq)
    · refine fun hnew => hold ((foreign_congr ?_ ?_).mp hnew)
      · rw [formView, forms_withForms, forms_withForms, FormStore.slot_setSlot_self, hslot]
        rfl
      · rw [formView, forms_withForms, forms_withForms, FormStore.slot_setSlot_self, hslot]
        rfl
  refine freeBlock_outcome (.inl trivial) (fun _ => ?_) fun _ _ => ?_
  · exact hadopt kernel.forms rfl fun _ _ => rfl
  · exact hadopt _ rfl fun _ hne => FormStore.block_setBlock_of_ne _ hne _

/-- The form that hex_pack_elf fills is its own one, or one that the user may write. -/
theorem wrapForm_keepsForeign (hkm : env.KmallocOk) (hroot : 0 ∉ users)
    (huser : kernel.store.uCur ∈ users) (hown : ContentsOwned kernel)
    (hwritable : ∀ idx, findForm kernel name = some idx → checkPerm kernel idx true = false) :
    KeepsForeign users env kernel dev (wrapForm name address len) := by
  have hadopted : ∀ (line : MkformLine) (middle : KernelMemory) (dev' : Device),
      ContentsOwned middle → foreignViews users middle = foreignViews users kernel →
      (∀ idx, findForm middle name = some idx → ¬ForeignTo users (formView middle.forms idx)) →
        (match findForm middle name with
          | none => pure (mkformText line)
          | some hidx => do
            adoptBlock hidx address len
            pure (mkformText line) : KernelM (List UInt8)).outcome (cachedDevice env)
          (fun _ => True) middle dev' fun _ kernel' _ =>
            foreignViews users kernel' = foreignViews users kernel := by
    intro line middle dev' hmiddle hviews hmine
    cases hfound : findForm middle name with
    | none => exact hviews
    | some idx =>
      dsimp only
      rw [Code.outcome_bind]
      exact Code.outcome_imp (adoptBlock_keepsForeign hmiddle (findForm_lt hfound)
        (hmine idx hfound)) fun _ _ _ hkept => hkept.trans hviews
  rw [KeepsForeign, wrapForm, Code.outcome_bind]
  refine cmdMkform_outcome (.inl trivial) (fun line _ _ => ?_) (fun hnone => ?_)
    fun fill _ _ hnew _ _ => ?_
  · rw [Code.outcome_bind, Code.outcome_memory]
    exact hadopted line kernel dev hown rfl fun idx hfound =>
      not_foreign_of_checkPerm hroot huser (hwritable idx hfound)
  · rw [hkm.heapBlock] at hnone
    cases hnone
  · rw [Code.outcome_bind, Code.outcome_memory]
    refine hadopted _ _ _ (OwnsFirst.made hown name _ fill) (foreignViews_made huser name fill)
      fun idx hfound => ?_
    rw [findForm_made hnew] at hfound
    obtain rfl : kernel.store.formCount = idx := Option.some.inj hfound
    exact not_foreign_of_owner huser (owner_made kernel.forms _ name _ fill)

theorem SameForms.foreignViews (h : SameForms kernel kernel') :
    foreignViews users kernel' = Shell.foreignViews users kernel := by
  have hviews : formViews kernel' = formViews kernel := by
    rw [formViews, formViews, h.store]
    exact List.map_congr_left fun i _ => formView_congr (congrFun h.slot i) (h.block i)
  rw [Shell.foreignViews, Shell.foreignViews, hviews]

theorem packForm_keepsForeign (hkm : env.KmallocOk) {idx : ℕ} {elfName caps : CString}
    {inSchema outSchema : UInt32} (hroot : 0 ∉ users) (huser : kernel.store.uCur ∈ users)
    (hheld : FormsHeld kernel) (hidx : idx < kernel.store.formCount)
    (hentry : EntryFits kernel.forms idx)
    (hwritable : ∀ i, findForm kernel (hexName elfName) = some i → checkPerm kernel i true = false) :
    KeepsForeign users env kernel dev (packForm idx elfName caps inSchema outSchema) := by
  refine packForm_outcome hheld hidx hentry rfl fun filled dev' hfilled => ?_
  have hsame := hfilled.same
  have huser' : filled.store.uCur ∈ users := by
    rw [hsame.store]
    exact huser
  refine Code.outcome_imp (wrapForm_keepsForeign hkm hroot huser' (hsame.owned hheld.owned)
    fun i hfound => ?_) fun _ _ _ hkept => hkept.trans hsame.foreignViews
  rw [hsame.findForm] at hfound
  rw [hsame.checkPerm]
  exact hwritable i hfound

/-- A command of one of the users leaves the forms that are foreign to them. -/
theorem FormCommand.code_keepsForeign (hkm : env.KmallocOk) (hroot : 0 ∉ users)
    (hheld : FormsHeld kernel) (command : FormCommand)
    (hgiven : TableCommand.GivenBy users kernel (.form command)) :
    KeepsForeign users env kernel dev command.code := by
  have huser : kernel.store.uCur ∈ users := hgiven.user
  have hown : ContentsOwned kernel := hheld.owned
  have hfits : FitsBuffers kernel command := hgiven.fits
  cases command with
  | mkform args =>
    refine keepsForeign_thenSave ?_
    exact keepsForeign_save (cmdMkform_keepsForeign hkm huser args) fun _ => Code.keeps_pure _
  | makedim args => exact cmdMakedim_keepsForeign huser hown hfits.usable
  | copy args => exact copyCommand_keepsForeign hkm huser hheld hfits
  | move args => exact moveCommand_keepsForeign hroot huser hown
  | delete args =>
    refine keepsForeign_thenSave (withForm_keepsForeign hroot huser fun idx hidx hold => ?_)
    exact keepsForeign_save (deleteForm_keepsForeign hown hidx hold) fun _ => Code.keeps_pure _
  | write args =>
    refine keepsForeign_thenSave ?_
    rw [cmdWrite]
    split
    · exact rfl
    exact withForm_keepsForeign hroot huser fun idx hidx hold =>
      (writeForm_touches idx _).keepsForeign (writeForm_keepsAccess idx _) hown hidx hold
  | append args =>
    refine keepsForeign_thenSave ?_
    rw [cmdAppend]
    split
    · exact rfl
    exact withForm_keepsForeign hroot huser fun idx hidx hold =>
      (appendForm_touches idx _).keepsForeign (appendForm_keepsAccess idx _) hown hidx hold
  | edit args typed =>
    refine keepsForeign_thenSave (keepsForeign_save ?_ fun _ => Code.keeps_pure _)
    exact withForm_keepsForeign hroot huser fun idx hidx hold =>
      (editForm_touches idx args typed).keepsForeign (editForm_keepsAccess idx args typed) hown hidx
        hold
  | ayo args => exact ayoCommand_keepsForeign fun hzero => hroot (hzero ▸ huser)
  | hexpack args =>
    show (hexPackElf _ _ 0 0).outcome _ _ _ _ _
    rw [hexPackElf, Code.outcome_bind, Code.outcome_memory]
    split
    · rfl
    cases hfound : findForm kernel (firstWord 31 args) with
    | none => rfl
    | some idx =>
      exact packForm_keepsForeign hkm hroot huser hheld (findForm_lt hfound)
        (hfits.inside idx hfound) hgiven.writable

theorem TableCommand.code_keepsForeign (hkm : env.KmallocOk) (hroot : 0 ∉ users)
    (hheld : FormsHeld kernel) (command : TableCommand) (hgiven : command.GivenBy users kernel) :
    KeepsForeign users env kernel dev command.code := by
  have huser : kernel.store.uCur ∈ users := hgiven.user
  cases command with
  | form command => exact command.code_keepsForeign hkm hroot hheld hgiven
  | setmode args =>
    exact keepsForeign_save (cmdSetmode_keepsForeign hroot huser hheld.owned args) fun _ =>
      Code.keeps_pure _
  | setowner args => exact cmdSetowner_keepsForeign (fun hzero => hroot (hzero ▸ huser)) args

end Packing

section Runs

variable {α : Type} {env : Environment} {kernel : KernelMemory} {dev : Device} {idx : ℕ}

/-- setmode and setowner change an entry but neither its buffer nor its size. -/
theorem modifyForm_held {update : FormSlot → FormSlot} (hheld : FormsHeld kernel)
    (hcontent : ∀ form, (update form).content = form.content)
    (hcap : ∀ form, (update form).cap = form.cap) (hsize : ∀ form, (update form).size = form.size)
    (hidx : idx < kernel.store.formCount) (printed : α) :
    (do
      modifyForm idx update
      pure printed : KernelM α).outcome (cachedDevice env) (fun _ => True) kernel dev
        fun _ kernel' _ => FormsHeld kernel' := by
  obtain ⟨room, hroom, hle⟩ := hheld.buffered idx hidx
  rw [Code.outcome_bind, modifyForm_outcome]
  refine Refilled.held ⟨.setSlot kernel (hcontent _), room, hroom.setSlot (hcontent _) (hcap _), ?_⟩
    hheld hidx
  rw [forms_withForms, FormStore.slot_setSlot_self, hsize]
  exact hle

theorem cmdSetmode_held (hheld : FormsHeld kernel) (args : CString) :
    (cmdSetmode args).outcome (cachedDevice env) (fun _ => True) kernel dev
      fun _ kernel' _ => FormsHeld kernel' := by
  rw [cmdSetmode, Code.outcome_bind, Code.outcome_memory]
  dsimp only
  split
  · exact hheld
  cases hfound : findForm kernel (restWords 15 31 args) with
  | none => exact hheld
  | some idx =>
    dsimp only
    split
    · exact hheld
    · exact modifyForm_held hheld (by intro _; rfl) (by intro _; rfl) (by intro _; rfl)
        (findForm_lt hfound) _

theorem cmdSetowner_held (hheld : FormsHeld kernel) (args : CString) :
    (cmdSetowner args).outcome (cachedDevice env) (fun _ => True) kernel dev
      fun _ kernel' _ => FormsHeld kernel' := by
  rw [cmdSetowner, Code.outcome_bind, Code.outcome_memory]
  dsimp only
  split
  · exact hheld
  split
  · exact hheld
  cases findUser kernel.store (firstWord 15 args) (List.range kernel.store.uCount) with
  | error stop => exact trivial
  | ok user =>
    cases user with
    | none => exact hheld
    | some user =>
      cases hfound : findForm kernel (restWords 15 31 args) with
      | none => exact hheld
      | some idx =>
        have hchanged := @modifyForm_held (List UInt8) env kernel dev idx
          (fun form => { form with owner := UInt32.ofNat user }) hheld (by intro _; rfl)
          (by intro _; rfl) (by intro _; rfl) (findForm_lt hfound) (said "Owner changed.\n")
        exact hchanged

theorem TableCommand.code_held (hkm : env.KmallocOk) (command : TableCommand)
    (hheld : FormsHeld kernel) (hfits : command.FitsBuffers kernel) :
    command.code.outcome (cachedDevice env) (fun _ => True) kernel dev
      fun _ kernel' _ => FormsHeld kernel' := by
  cases command with
  | form command => exact command.codeWith_held hkm trivial saveForms_saves hheld hfits
  | setmode args =>
    show (setmodeCommand args).outcome _ _ _ _ _
    rw [setmodeCommand, Code.outcome_bind]
    exact Code.outcome_imp (cmdSetmode_held hheld args) fun _ _ _ hheld' => hheld'
  | setowner args => exact cmdSetowner_held hheld args

/-- Commands that return, one after the other, on kernels that meet a condition before each
of them. Between two of them anything may happen that leaves the form table alone, such as a
login. -/
inductive TableRun (condition : KernelMemory → TableCommand → Prop) (first : System) :
    System → Prop where
  | start : TableRun condition first first
  | command {env : Environment} {system system' : System} {command : TableCommand}
      {printed : List UInt8} (run : TableRun condition first system) (kmallocOk : env.KmallocOk)
      (meets : condition system.kernel command)
      (runs : system.run env command.code = .ok (printed, system')) :
      TableRun condition first system'
  | other {system system' : System} (run : TableRun condition first system)
      (kept : tableView system'.kernel = tableView system.kernel) : TableRun condition first system'

variable {users : List ℕ} {loaded first last : System}

/-- The commands of a boot keep the forms held. -/
theorem TableRun.held
    (h : TableRun (fun kernel command => command.FitsBuffers kernel) loaded last)
    (hloaded : LoadedAtBoot loaded) : FormsHeld last.kernel := by
  induction h with
  | start => exact hloaded.sound.held
  | command _ hkm hfits hrun ih => exact outcome_of_run (TableCommand.code_held hkm _ ih hfits) hrun
  | other _ hkept ih => exact formsHeld_of_table ih hkept

/-- After any commands since the boot that stay inside the buffers, let only users log in of whom
none is root. Whatever they do inside the buffers, and as long as hexpack fills no form that they
may not write, the forms that belong to none of them and that others may not write stay in the
table as they are, in their order, and no such form comes into it. -/
theorem tableRun_keepsForeign (hroot : 0 ∉ users) (hloaded : LoadedAtBoot loaded)
    (hbefore : TableRun (fun kernel command => command.FitsBuffers kernel) loaded first)
    (hrun : TableRun (fun kernel command => command.GivenBy users kernel) first last) :
    foreignViews users last.kernel = foreignViews users first.kernel := by
  have hkept : FormsHeld last.kernel ∧
      foreignViews users last.kernel = foreignViews users first.kernel := by
    induction hrun with
    | start => exact ⟨hbefore.held hloaded, rfl⟩
    | command _ hkm hgiven hrun ih =>
      have hheld := outcome_of_run (TableCommand.code_held hkm _ ih.1 hgiven.fits) hrun
      have hkept := outcome_of_run (TableCommand.code_keepsForeign hkm hroot ih.1 _ hgiven) hrun
      exact ⟨hheld, hkept.trans ih.2⟩
    | other _ hkept ih =>
      exact ⟨formsHeld_of_table ih.1 hkept, (foreignViews_of_table hkept).trans ih.2⟩
  exact hkept.2

/-- The system with a user logged in. -/
def System.loggedIn (user : ℕ) (system : System) : System :=
  { system with kernel :=
    { system.kernel with store := { system.kernel.store with uCur := user } } }

/-- Commands of one user. -/
def runAs (user : ℕ) (commands : List TableCommand) (system : System) : Except Stop System :=
  commands.foldlM (fun system command =>
    ((System.loggedIn user system).run .faultless command.code).map Prod.snd) system

theorem TableRun.runAs {condition : KernelMemory → TableCommand → Prop} {user : ℕ} {system : System}
    (commands : List TableCommand)
    (hcondition : ∀ command ∈ commands, ∀ kernel, kernel.store.uCur = user →
      condition kernel command)
    (hrun : TableRun condition first system) (h : runAs user commands system = .ok last) :
    TableRun condition first last := by
  induction commands generalizing system with
  | nil =>
    have hlast : system = last := Except.ok.inj h
    rwa [hlast] at hrun
  | cons command rest ih =>
    rw [Shell.runAs, List.foldlM_cons] at h
    have hlogged : TableRun condition first (System.loggedIn user system) := .other hrun rfl
    cases hstep : (System.loggedIn user system).run .faultless command.code with
    | error stop => rw [hstep] at h; cases h
    | ok result =>
      rw [hstep] at h
      refine ih (fun other hother => hcondition other (List.mem_cons_of_mem _ hother)) ?_ h
      exact .command hlogged Environment.faultless_kmallocOk
        (hcondition command List.mem_cons_self _ rfl) hstep

/-- What root does after the boot. -/
def rootCommands : List TableCommand := [.form (.mkform (literal ['a'])),
  .form (.write (literal ['a', ' ', 'x']))]

/-- What user 1 does then. -/
def userCommands : List TableCommand := [.form (.write (literal ['a', ' ', 'y'])),
  .setmode (literal ['7', ' ', 'a']), .form (.mkform (literal ['b']))]

/-- One form is foreign to user 1 before its commands, and behind them there are two forms. -/
def oneForeign (first last : System) : Bool :=
  (foreignViews [1] first.kernel).length == 1 && last.kernel.store.formCount == 2

/-- The system behind the commands of root after a boot. -/
def rootSystem : Except Stop System :=
  (bootSystem.run .faultless loadForms).bind fun loaded => runAs 0 rootCommands loaded.2

/-- Do the commands of user 1 end in a system with one foreign form? -/
def userEnds : Except Stop System → Bool
  | .error _ => false
  | .ok first => endsIn (oneForeign first) (runAs 1 userCommands first)

theorem exists_rootSystem {first : System} (h : rootSystem = .ok first) :
    ∃ loaded, LoadedAtBoot loaded ∧ runAs 0 rootCommands loaded = .ok first := by
  rw [rootSystem] at h
  cases hload : bootSystem.run .faultless loadForms with
  | error stop => rw [hload] at h; cases h
  | ok loaded =>
    rw [hload] at h
    exact ⟨loaded.2, loadedAtBoot_of_run hload, h⟩

theorem exists_of_userEnds (h : userEnds rootSystem = true) : ∃ first last : System,
    rootSystem = .ok first ∧ runAs 1 userCommands first = .ok last ∧
      oneForeign first last = true := by
  cases hfirst : rootSystem with
  | error stop => rw [hfirst] at h; cases h
  | ok first =>
    rw [hfirst, userEnds] at h
    cases hlast : runAs 1 userCommands first with
    | error stop => rw [hlast] at h; cases h
    | ok last =>
      rw [hlast] at h
      exact ⟨first, last, rfl, hlast, h⟩

/-- User 1 may not change the form of root, and makes another one. -/
theorem tableRun_keepsForeign_user : ∃ loaded first last : System,
    TableRun (fun kernel command => command.FitsBuffers kernel) loaded first ∧
      TableRun (fun kernel command => command.GivenBy [1] kernel) first last ∧
      (foreignViews [1] first.kernel).length = 1 ∧ last.kernel.store.formCount = 2 ∧
      foreignViews [1] last.kernel = foreignViews [1] first.kernel := by
  have htest : userEnds rootSystem = true := by decide +kernel
  obtain ⟨first, last, hstart, hlast, hcounts⟩ := exists_of_userEnds htest
  obtain ⟨loaded, hloaded, hfirst⟩ := exists_rootSystem hstart
  rw [oneForeign, Bool.and_eq_true, beq_iff_eq, beq_iff_eq] at hcounts
  have hroot : ∀ command ∈ rootCommands, ∀ kernel : KernelMemory, kernel.store.uCur = 0 →
      command.FitsBuffers kernel := by
    simp only [rootCommands, List.forall_mem_cons]
    exact ⟨fun _ _ => ⟨trivial, .inl (by decide)⟩, fun _ _ => ⟨trivial, trivial⟩,
      fun _ h => absurd h List.not_mem_nil⟩
  have huser : ∀ command ∈ userCommands, ∀ kernel : KernelMemory, kernel.store.uCur = 1 →
      command.GivenBy [1] kernel := by
    simp only [userCommands, List.forall_mem_cons]
    have hmem : ∀ kernel : KernelMemory, kernel.store.uCur = 1 → kernel.store.uCur ∈ [1] :=
      fun _ heq => heq ▸ List.mem_singleton.mpr rfl
    exact ⟨fun kernel heq => ⟨hmem kernel heq, ⟨trivial, trivial⟩, trivial⟩,
      fun kernel heq => ⟨hmem kernel heq, trivial, trivial⟩,
      fun kernel heq => ⟨hmem kernel heq, ⟨trivial, .inl (by decide)⟩, trivial⟩,
      fun _ h => absurd h List.not_mem_nil⟩
  have hbefore := TableRun.runAs rootCommands hroot .start hfirst
  have hrun := TableRun.runAs userCommands huser .start hlast
  exact ⟨loaded, first, last, hbefore, hrun, hcounts.1, hcounts.2,
    tableRun_keepsForeign (by decide) hloaded hbefore hrun⟩

end Runs

end HexaOS.Shell
