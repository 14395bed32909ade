import HexaOS.FormNaming
import HexaOS.HexafsLoading
import HexaOS.ShellRules

/-!
# A package added and removed

`ayo add` skips the names that are in the table, and `ayo remove` takes the first form with
each name out of it. So a form that was there before goes with the package when it has one of
its names. The others come through as long as `ayo add` makes its forms in slots that have no
buffer of another form.
-/

namespace HexaOS.Shell

open DevicePrograms PackedBytes Hexafs Kernel

section Specification

/-- The form in a slot. -/
def formView (forms : FormStore) (i : ℕ) : FormView :=
  ⟨(forms.slot i).name, (forms.slot i).size, forms.bytes i, (forms.slot i).owner,
    (forms.slot i).mode⟩

/-- The forms in the table. -/
def formViews (kernel : KernelMemory) : List FormView :=
  (List.range kernel.store.formCount).map (formView kernel.forms)

/-- Every form of the first table is in the second one. -/
def KeepsForms (kernel kernel' : KernelMemory) : Prop :=
  (formViews kernel).Sublist (formViews kernel')

/-- No form of the table has the name of a form of the package. -/
def NewNames (kernel : KernelMemory) (entry : PkgEntry) : Prop :=
  ∀ form ∈ entry.forms, form.fileName ∉ formNames kernel

/-- The forms have contents, and `ayo add` finds a usable slot for each form that it makes. -/
structure Addable (kernel : KernelMemory) (entry : PkgEntry) : Prop where
  /-- No form has a null pointer for its content. -/
  ne_zero : ∀ i < kernel.store.formCount, contents kernel.forms i ≠ 0
  /-- The slots behind the last form are usable, one after the other. -/
  usable : UsableSlots kernel.forms kernel.store.formCount (addedNeeds kernel entry)

/-- The first forms of a table are as they were in another one. -/
structure KeepsFront (first : KernelMemory) (kernel : KernelMemory) : Prop where
  /-- No form was taken out of the table. -/
  count_le : first.store.formCount ≤ kernel.store.formCount
  /-- The entries are the same. -/
  slot : ∀ i < first.store.formCount, kernel.forms.slot i = first.forms.slot i
  /-- The buffers hold the same bytes. -/
  block : ∀ i < first.store.formCount, kernel.forms.block (contents first.forms i) =
    first.forms.block (contents first.forms i)

end Specification

section Front

variable {first kernel kernel' : KernelMemory}

theorem KeepsFront.refl (kernel : KernelMemory) : KeepsFront kernel kernel :=
  ⟨Nat.le_refl _, fun _ _ => rfl, fun _ _ => rfl⟩

/-- The forms show the same. -/
theorem KeepsFront.formView_eq (h : KeepsFront first kernel) {i : ℕ}
    (hi : i < first.store.formCount) : formView kernel.forms i = formView first.forms i := by
  have hbytes : kernel.forms.bytes i = first.forms.bytes i := by
    rw [FormStore.bytes, FormStore.bytes, h.slot i hi]
    exact congrArg (fun block => (Option.getD block []).take _) (h.block i hi)
  rw [formView, formView, h.slot i hi, hbytes]

/-- A form in a usable slot leaves the forms before it as they were. -/
theorem keepsFront_keptByMaking
    (hlive : ∀ i < first.store.formCount, contents first.forms i ≠ 0) :
    KeptByMaking (KeepsFront first) := by
  intro kernel kernel' needed husable hcreated hkept
  have hlt : ∀ i < first.store.formCount, i < kernel.store.formCount :=
    fun i hi => Nat.lt_of_lt_of_le hi hkept.count_le
  have hsame : ∀ i < first.store.formCount, contents kernel.forms i = contents first.forms i :=
    fun i hi => congrArg FormSlot.content (hkept.slot i hi)
  refine ⟨?_, fun i hi => ?_, fun i hi => ?_⟩
  · rw [hcreated.formCount]
    exact Nat.le_succ_of_le hkept.count_le
  · rw [hcreated.touches.other i (hlt i hi).ne, hkept.slot i hi]
  · have hapart : contents kernel.forms i ≠ contents kernel.forms kernel.store.formCount := by
      rcases husable with ⟨hzero, -⟩ | ⟨-, hothers⟩
      · rw [hzero, hsame i hi]
        exact hlive i hi
      · exact hothers i (hlt i hi)
    have hblock := hcreated.touches.block i (hlt i hi).ne hapart
    rw [hsame i hi] at hblock
    rw [hblock, hkept.block i hi]

/-- Only the table matters. -/
theorem KeepsFront.of_table (h : KeepsFront first kernel)
    (hsame : tableView kernel' = tableView kernel) : KeepsFront first kernel' := by
  have hforms : kernel'.forms = kernel.forms := congrArg Prod.fst hsame
  have hcount : kernel'.store.formCount = kernel.store.formCount := congrArg Prod.snd hsame
  obtain ⟨hle, hslot, hblock⟩ := h
  rw [← hcount] at hle
  rw [← hforms] at hslot hblock
  exact ⟨hle, hslot, hblock⟩

end Front

section Installing

/-- The names of the forms behind the loop of `ayo add`: every form of the package has one, and
there are fewer new ones when one was there before. -/
theorem installForms_names (forms : List PkgForm) (kernel : KernelMemory) :
    (installForms forms).Ensures kernel fun _ kernel' =>
      ∃ new, formNames kernel' = formNames kernel ++ new ∧ new.length ≤ forms.length ∧
        (∀ form ∈ forms, form.fileName ∈ formNames kernel') ∧
        ((∃ form ∈ forms, form.fileName ∈ formNames kernel) → new.length < forms.length) := by
  induction forms generalizing kernel with
  | nil =>
    refine ⟨[], (List.append_nil _).symm, le_refl _, List.forall_mem_nil _, ?_⟩
    rintro ⟨form, hform, -⟩
    exact absurd hform List.not_mem_nil
  | cons form rest ih =>
    rw [installForms, Code.ensures_bind, installForm, Code.ensures_bind, Code.ensures_memory]
    split
    · rename_i hfound
      have hmem := (findForm_isSome_iff kernel form.fileName).mp hfound
      rw [Code.ensures_pure]
      refine (ih kernel).mono fun _ kernel' hrest => ?_
      obtain ⟨new, hnames, hlength, hall, -⟩ := hrest
      refine ⟨new, hnames, Nat.le_succ_of_le hlength, ?_, fun _ => Nat.lt_succ_of_le hlength⟩
      intro other hother
      rcases List.mem_cons.mp hother with rfl | hlater
      · rw [hnames]
        exact List.mem_append_left _ hmem
      · exact hall other hlater
    · rename_i hnew
      have hfresh := not_mem_of_findForm hnew
      refine (createForm_names kernel _ _).mono fun _ middle hmade => ?_
      refine (ih middle).mono fun _ kernel' hrest => ?_
      obtain ⟨new, hnames, hlength, hall, hfewer⟩ := hrest
      refine ⟨form.fileName :: new, ?_, Nat.succ_le_succ hlength, ?_, ?_⟩
      · rw [hnames, hmade, List.append_assoc, List.singleton_append]
      · intro other hother
        rcases List.mem_cons.mp hother with rfl | hlater
        · rw [hnames, hmade]
          exact List.mem_append_left _ (List.mem_append_right _ (List.mem_singleton.mpr rfl))
        · exact hall other hlater
      · rintro ⟨other, hother, hold⟩
        rcases List.mem_cons.mp hother with rfl | hlater
        · exact absurd hold hfresh
        · refine Nat.succ_lt_succ (hfewer ⟨other, hlater, ?_⟩)
          rw [hmade]
          exact List.mem_append_left _ hold

end Installing

section Removing

variable {first kernel kernel' : KernelMemory}

/-- The kernel without a form of the table. -/
def KernelMemory.withoutForm (kernel : KernelMemory) (idx : ℕ) : KernelMemory :=
  kernel.withTable (shiftForms kernel.forms idx kernel.store.formCount)
    (kernel.store.formCount - 1)

theorem removeForm_done (kernel : KernelMemory) (idx : ℕ) :
    removeForm idx kernel = .done ((), KernelMemory.withoutForm kernel idx) := rfl

/-- The form that is found has the name. -/
theorem name_of_findForm {name : CString} {idx : ℕ} (h : findForm kernel name = some idx) :
    (kernel.forms.slot idx).name = name := by
  rw [findForm] at h
  have hsame := List.find?_some h
  exact beq_iff_eq.mp hsame

/-- What is ensured of code that returns at once. -/
theorem ensured_of_done {α : Type} {code : KernelM α} {post : α → KernelMemory → Prop} {value : α}
    (h : code.Ensures kernel post) (hdone : code kernel = .done (value, kernel')) :
    post value kernel' := by
  rw [Code.Ensures, hdone] at h
  exact h

/-- Code behind code that returns at once. -/
theorem after_done {α β : Type} {code : KernelM α} {value : α}
    (hdone : code kernel = .done (value, kernel')) (rest : α → KernelM β) :
    (code >>= rest) kernel = rest value kernel' := by
  show (code kernel).bind (fun result => rest result.1 result.2) = _
  rw [hdone]
  exact rfl

/-- The loop of `ayo remove` returns at once. -/
theorem uninstallForms_done (names : List CString) (kernel : KernelMemory) :
    ∃ removed, uninstallForms names kernel = .done ((), removed) := by
  induction names generalizing kernel with
  | nil => exact ⟨kernel, rfl⟩
  | cons name rest ih =>
    have hfirst : ∃ middle, uninstallForm name kernel = .done ((), middle) := by
      cases hfound : findForm kernel name with
      | none =>
        refine ⟨kernel, ?_⟩
        rw [uninstallForm]
        show (Program.done (kernel, kernel)).bind _ = _
        rw [Program.bind]
        dsimp only
        rw [hfound]
        exact rfl
      | some idx =>
        refine ⟨KernelMemory.withoutForm kernel idx, ?_⟩
        rw [uninstallForm]
        show (Program.done (kernel, kernel)).bind _ = _
        rw [Program.bind]
        dsimp only
        rw [hfound]
        exact removeForm_done kernel idx
    obtain ⟨middle, hdone⟩ := hfirst
    obtain ⟨removed, hrest⟩ := ih middle
    refine ⟨removed, ?_⟩
    show (uninstallForm name kernel).bind _ = _
    rw [hdone]
    exact hrest

/-- Each name that is in the table is taken out of it once. -/
theorem uninstallForms_length {names : List CString} (hnodup : names.Nodup)
    (hall : ∀ name ∈ names, name ∈ formNames kernel) :
    (uninstallForms names).Ensures kernel fun _ kernel' =>
      kernel'.store.formCount + names.length = kernel.store.formCount := by
  induction names generalizing kernel with
  | nil => exact rfl
  | cons name rest ih =>
    rw [List.nodup_cons] at hnodup
    have hsome := (findForm_isSome_iff kernel name).mpr (hall name List.mem_cons_self)
    obtain ⟨idx, hfound⟩ := Option.isSome_iff_exists.mp hsome
    have hidx := findForm_lt hfound
    have hname := name_of_findForm hfound
    rw [uninstallForms, Code.ensures_bind, uninstallForm, Code.ensures_bind, Code.ensures_memory,
      hfound]
    show (removeForm idx).Ensures kernel _
    refine (removeForm_names hidx).mono fun _ middle herased => ?_
    have hlength : middle.store.formCount + 1 = kernel.store.formCount := by
      rw [← length_formNames, herased, List.length_eraseIdx, length_formNames, if_pos hidx]
      omega
    have hlater : ∀ other ∈ rest, other ∈ formNames middle := by
      intro other hother
      have hmem := hall other (List.mem_cons_of_mem _ hother)
      obtain ⟨j, hj, hget⟩ := List.getElem_of_mem hmem
      rw [herased, List.mem_eraseIdx_iff_getElem]
      refine ⟨j, hj, ?_, hget⟩
      rintro rfl
      have hsame : (formNames kernel)[j] = (kernel.forms.slot j).name := by
        simp only [formNames, List.getElem_map, List.getElem_range]
      rw [hsame, hname] at hget
      rw [hget] at hnodup
      exact hnodup.1 hother
    refine (ih hnodup.2 hlater).mono fun _ last hlast => ?_
    rw [List.length_cons]
    omega

/-- Forms in front of those that are taken out. -/
theorem uninstallForms_keepsFront {names : List CString} (h : KeepsFront first kernel)
    (hnew : ∀ name ∈ names, name ∉ formNames first) :
    (uninstallForms names).Ensures kernel fun _ kernel' => KeepsFront first kernel' := by
  induction names generalizing kernel with
  | nil => exact h
  | cons name rest ih =>
    obtain ⟨hname, hlater⟩ := List.forall_mem_cons.mp hnew
    rw [uninstallForms, Code.ensures_bind, uninstallForm, Code.ensures_bind, Code.ensures_memory]
    cases hfound : findForm kernel name with
    | none => exact ih h hlater
    | some idx =>
      have hlt := findForm_lt hfound
      have hbehind : first.store.formCount ≤ idx := by
        by_contra hfront
        refine hname (List.mem_map.mpr ⟨idx, List.mem_range.mpr (not_le.mp hfront), ?_⟩)
        rw [← h.slot idx (not_le.mp hfront)]
        exact name_of_findForm hfound
      have hslots : ∀ i < first.store.formCount,
          (shiftForms kernel.forms idx kernel.store.formCount).slot i = kernel.forms.slot i := by
        intro i hi
        show (if idx ≤ i ∧ _ then _ else _) = _
        rw [if_neg (fun hand => by have hle := hand.1; omega)]
      have hremoved : KeepsFront first (KernelMemory.withoutForm kernel idx) :=
        ⟨show first.store.formCount ≤ kernel.store.formCount - 1 by omega,
          fun i hi => (hslots i hi).trans (h.slot i hi), h.block⟩
      show (removeForm idx).Ensures kernel _
      rw [Code.Ensures, removeForm_done, Program.Ensures]
      exact ih hremoved hlater

end Removing

section Packages

variable {env : Environment} {kernel kernel' : KernelMemory} {dev : Device} {pkg : CString}
  {entry : PkgEntry}

/-- A package has different names for its forms and its marker. -/
theorem pkgDb_nodup : ∀ pkg ∈ pkgDb, pkg.installed.Nodup := by
  have hall : (pkgDb.all fun pkg => decide pkg.installed.Nodup) = true := by decide +kernel
  intro pkg hpkg
  exact of_decide_eq_true (List.all_eq_true.mp hall pkg hpkg)

/-- What `ayo add` prints at its end. -/
def installedLine (pkg : CString) : List UInt8 := said "Installed: " ++ pkg.chars ++ said "\n"

/-- What `ayo remove` prints at its end. -/
def removedLine (pkg : CString) : List UInt8 := said "Removed: " ++ pkg.chars ++ said "\n"

/-- The names in the table behind `ayo add`. -/
structure Installed (kernel : KernelMemory) (entry : PkgEntry) (kernel' : KernelMemory) : Prop where
  /-- The user is root still. -/
  root : kernel'.store.uCur = 0
  /-- Every form of the package is there, and its marker. -/
  present : ∀ name ∈ entry.installed, name ∈ formNames kernel'
  /-- No more than these came into the table. -/
  count_le : kernel'.store.formCount ≤ kernel.store.formCount + entry.installed.length
  /-- Fewer came into it when a form had one of the names. -/
  fewer : ¬NewNames kernel entry →
    kernel'.store.formCount < kernel.store.formCount + entry.installed.length

theorem length_installed (entry : PkgEntry) : entry.installed.length = entry.forms.length + 1 := by
  rw [PkgEntry.installed, List.length_append, List.length_map, List.length_singleton]

instance : IgnoresStore Memory.uCur where
  allocator _ _ := rfl
  sbCache _ _ := rfl
  currentTx _ _ := rfl
  txGen _ _ := rfl

/-- save_data leaves the user alone. -/
theorem saveForms_keepsUser : saveForms.Keeps fun kernel => kernel.store.uCur := by
  refine Code.keeps_memory.bind fun kernel => ?_
  refine Code.Keeps.ite (Code.Keeps.ite ?_ (Code.keeps_halt _)) (Code.keeps_pure _)
  refine Code.Keeps.bind (Code.keeps_modify fun _ => rfl) fun _ => ?_
  exact (onStore_keepsView saveData_keeps).bind fun _ => Code.keeps_pure _

/-- What was installed stays so when the table and the user are the same. -/
theorem Installed.of_same {last : KernelMemory} (h : Installed kernel entry kernel')
    (htable : tableView last = tableView kernel')
    (huser : last.store.uCur = kernel'.store.uCur) : Installed kernel entry last := by
  have hforms : last.forms = kernel'.forms := congrArg Prod.fst htable
  have hcount : last.store.formCount = kernel'.store.formCount := congrArg Prod.snd htable
  have hnames : formNames last = formNames kernel' := by
    rw [formNames, formNames, hforms, hcount]
  obtain ⟨hroot, hpresent, hle, hfewer⟩ := h
  rw [← huser] at hroot
  rw [← hnames] at hpresent
  rw [← hcount] at hle hfewer
  exact ⟨hroot, hpresent, hle, hfewer⟩

theorem createForm_keepsUser (name content : CString) :
    (createForm name content).Keeps fun kernel => kernel.store.uCur := by
  have hstored : ∀ address offset bytes, (storeBytes address offset bytes).Keeps
      fun kernel => kernel.store.uCur := fun _ _ _ _ => storeBytes_ensures fun _ _ _ _ => rfl
  have hmodified : ∀ idx update, (modifyForm idx update).Keeps
      fun kernel => kernel.store.uCur := fun _ _ => Code.keeps_modify fun _ => rfl
  refine Code.keeps_memory.bind fun kernel => (hmodified _ _).bind fun _ => ?_
  refine Code.Keeps.bind (fun middle => ?_) fun _ => ?_
  · refine (formEnsureCap_ensures middle _ _).mono fun _ last hsame => ?_
    rw [hsame.1]
  refine (Code.keeps_memory.bind fun _ => hstored _ _ _).bind fun _ => ?_
  exact (hmodified _ _).bind fun _ => Code.keeps_modify fun _ => rfl

theorem installForms_keepsUser (forms : List PkgForm) :
    (installForms forms).Keeps fun kernel => kernel.store.uCur := by
  induction forms with
  | nil => exact Code.keeps_pure _
  | cons form rest ih =>
    refine Code.Keeps.bind (Code.keeps_memory.bind fun kernel => ?_) fun _ => ih
    exact (Code.keeps_pure _).ite (createForm_keepsUser _ _)

/-- The stores of `ayo add` before the save. -/
theorem install_installed (kernel : KernelMemory) (entry : PkgEntry)
    (hroot : kernel.store.uCur = 0) :
    (do
      createForm entry.marker (cString "1")
      installForms entry.forms).Ensures kernel fun _ kernel' => Installed kernel entry kernel' := by
  rw [Code.ensures_bind]
  refine ((createForm_names kernel entry.marker (cString "1")).and
    (createForm_keepsUser entry.marker (cString "1") kernel)).mono fun _ middle hmade => ?_
  obtain ⟨hmarked, huser⟩ := hmade
  refine ((installForms_names entry.forms middle).and
    (installForms_keepsUser entry.forms middle)).mono fun _ last hlast => ?_
  obtain ⟨⟨new, hnames, hlength, hpresent, hfewer⟩, huser'⟩ := hlast
  have hcount : last.store.formCount = kernel.store.formCount + 1 + new.length := by
    rw [← length_formNames, hnames, hmarked, List.length_append, List.length_append,
      length_formNames, List.length_singleton]
  have htotal := length_installed entry
  refine ⟨(huser'.trans huser).trans hroot, fun name hname => ?_, by omega, fun hold => ?_⟩
  · rcases List.mem_append.mp hname with hform | hmark
    · obtain ⟨form, hmem, rfl⟩ := List.mem_map.mp hform
      exact hpresent form hmem
    · rw [hnames, hmarked, List.mem_singleton.mp hmark]
      exact List.mem_append_left _ (List.mem_append_right _ (List.mem_singleton.mpr rfl))
  · simp only [NewNames, not_forall, not_not] at hold
    obtain ⟨form, hform, hmem⟩ := hold
    have hless := hfewer ⟨form, hform, by rw [hmarked]; exact List.mem_append_left _ hmem⟩
    omega

/-- `ayo add` when it prints that the package is installed. -/
theorem ayoAdd_installed (hfound : findPackage pkg = some entry) (hroot : kernel.store.uCur = 0)
    (hmarker : findForm kernel entry.marker = none) :
    (ayoAdd saveForms pkg).Ensures kernel fun line kernel' => line = installedLine pkg →
      pkg.chars ≠ [] ∧ Installed kernel entry kernel' := by
  have hother : ∀ text : List UInt8, text.head? ≠ some 73 → text ≠ installedLine pkg := by
    rintro text hhead rfl
    exact hhead rfl
  rw [ayoAdd, Code.ensures_bind, Code.ensures_memory]
  by_cases hempty : pkg.chars = []
  · rw [if_pos hempty, Code.ensures_pure]
    exact fun hline => absurd hline (hother _ (by decide))
  rw [if_neg hempty, if_neg (not_not.mpr hroot), hfound]
  dsimp only
  by_cases hfull : maxForms ≤ kernel.store.formCount + entry.forms.length + 1
  · rw [if_pos hfull, Code.ensures_pure]
    exact fun hline => absurd hline (hother _ (by decide))
  have hnone : ¬(findForm kernel entry.marker).isSome = true := by
    rw [hmarker]
    exact Bool.false_ne_true
  rw [if_neg hfull, if_neg hnone, ← bind_assoc, Code.ensures_bind]
  refine (install_installed kernel entry hroot).mono fun _ middle hinstalled => ?_
  rw [Code.ensures_bind]
  refine ((saveForms_keepsTable middle).and (saveForms_keepsUser middle)).mono
    fun _ last hkept => ?_
  exact fun _ => ⟨hempty, hinstalled.of_same hkept.1 hkept.2⟩

/-- `ayo add` in usable slots leaves the forms that are there as they are, and is not stopped. -/
theorem ayoAdd_keepsFront {stops : Stop → Prop} {save : KernelM Unit} (hsave : Saves env stops save)
    (hkm : env.KmallocOk) (hfound : findPackage pkg = some entry) (hadd : Addable kernel entry) :
    (ayoAdd save pkg).outcome (cachedDevice env) stops kernel dev
      fun _ kernel' _ => KeepsFront kernel kernel' := by
  refine ayoAdd_keeps hkm hsave (keepsFront_keptByMaking hadd.ne_zero)
    (fun _ _ => KeepsFront.of_table) (.refl kernel) fun other hother => ?_
  have hsame : other = entry := by
    rw [addedPackage] at hother
    split at hother
    · cases hother
    · rw [hfound] at hother
      dsimp only at hother
      split at hother
      · cases hother
      · exact (Option.some.inj hother).symm
  rw [hsame]
  exact hadd.usable

theorem length_formViews (kernel : KernelMemory) :
    (formViews kernel).length = kernel.store.formCount := by
  rw [formViews, List.length_map, List.length_range]

/-- Forms that are all as they were are kept. -/
theorem KeepsFront.keepsForms (h : KeepsFront kernel kernel') : KeepsForms kernel kernel' := by
  have hviews : formViews kernel =
      (List.range kernel.store.formCount).map (formView kernel'.forms) :=
    List.map_congr_left fun i hi => (h.formView_eq (List.mem_range.mp hi)).symm
  rw [KeepsForms, hviews, formViews]
  exact (List.range_sublist.mpr h.count_le).map _

/-- What comes of the forms of a table when a package was added to it and removed again: they are
only kept when none has a name of the package, and then they are when the package was added in
usable slots with all the memory that was asked for. -/
structure RemovalLaw (env : Environment) (entry : PkgEntry) (first last : KernelMemory) :
    Prop where
  /-- A form with a name of the package is lost. -/
  newNames : KeepsForms first last → NewNames first entry
  /-- The others are kept. -/
  keeps : env.KmallocOk → Addable first entry → NewNames first entry → KeepsForms first last

/-- Tables that are the same keep and lose the same forms. -/
theorem RemovalLaw.of_table {first last removed : KernelMemory}
    (h : RemovalLaw env entry first removed) (hview : tableView last = tableView removed) :
    RemovalLaw env entry first last := by
  have hforms : last.forms = removed.forms := congrArg Prod.fst hview
  have hcount : last.store.formCount = removed.store.formCount := congrArg Prod.snd hview
  have hviews : KeepsForms first last ↔ KeepsForms first removed := by
    rw [KeepsForms, KeepsForms, formViews, formViews, formViews, hforms, hcount]
  exact ⟨fun hkeeps => h.newNames (hviews.mp hkeeps), fun hkm haddable hnew =>
    hviews.mpr (h.keeps hkm haddable hnew)⟩

/-- `ayo remove` of a package that is there takes its forms out and saves. -/
theorem Installed.ayoRemove_eq {first added : KernelMemory} (h : Installed first entry added)
    (hfound : findPackage pkg = some entry) (hnonempty : pkg.chars ≠ []) :
    ayoRemove saveForms pkg added = (do
      uninstallForms entry.installed
      saveForms
      pure (removedLine pkg) : KernelM (List UInt8)) added := by
  have hsome : ¬(findForm added entry.marker).isNone = true := by
    have hmem := h.present entry.marker (List.mem_append_right _ (List.mem_singleton.mpr rfl))
    have hfind := (findForm_isSome_iff added entry.marker).mpr hmem
    rw [Option.isNone_iff_eq_none]
    exact fun hnone => by rw [hnone] at hfind; exact Bool.false_ne_true hfind
  show (if pkg.chars = [] then _ else _ : KernelM _) added = _
  rw [if_neg hnonempty, if_neg (not_not.mpr h.root), hfound]
  dsimp only
  rw [if_neg hsome]
  exact rfl

/-- The forms of an installed package are taken out of the table again. -/
theorem Installed.removalLaw {first added removed : KernelMemory}
    (h : Installed first entry added) (hfound : findPackage pkg = some entry)
    (hmarker : findForm first entry.marker = none)
    (hfront : env.KmallocOk → Addable first entry → KeepsFront first added)
    (hdone : uninstallForms entry.installed added = .done ((), removed)) :
    RemovalLaw env entry first removed := by
  have hdistinct := pkgDb_nodup entry (List.mem_of_find?_eq_some hfound)
  have hcount : removed.store.formCount + entry.installed.length = added.store.formCount :=
    ensured_of_done (uninstallForms_length hdistinct h.present) hdone
  refine ⟨fun hkeeps => ?_, fun hkm haddable hnew => ?_⟩
  · -- with a clash more forms are taken out than were made
    by_contra hold
    have hfewer := h.fewer hold
    have hle := hkeeps.length_le
    rw [length_formViews, length_formViews] at hle
    omega
  · have hall : ∀ name ∈ entry.installed, name ∉ formNames first := by
      intro name hname hold
      rcases List.mem_append.mp hname with hform | hmark
      · obtain ⟨form, hmem, rfl⟩ := List.mem_map.mp hform
        exact hnew form hmem hold
      · rw [List.mem_singleton.mp hmark, ← findForm_isSome_iff, hmarker] at hold
        exact Bool.false_ne_true hold
    have hkept : (uninstallForms entry.installed).Ensures added fun _ kernel' =>
        KeepsFront first kernel' := uninstallForms_keepsFront (hfront hkm haddable) hall
    exact (ensured_of_done hkept hdone).keepsForms

end Packages

section Examples

/-- A system of root with one form, whose name is given, and free slots without buffers. The block
of the form is a byte longer than its capacity, as hexpack leaves it. -/
def namedSystem (name : CString) : System where
  kernel := { oneFormKernel Memory.boot [] with
    forms :=
      { slot := fun i => if i = 0 then ⟨name, 1, 1, 1, 0, permDefault⟩ else ⟨cString "", 0, 0, 0, 0, 0⟩
        block := Function.update (fun _ => none) 1 (some [98, 0])
        fresh := 2
        content_lt := fun i => by
          split
          · exact Nat.one_lt_two
          · exact Nat.zero_lt_two } }
  dev := (Machine.boot blankDisk).dev

/-- Slots without a buffer are usable. -/
theorem usableSlots_of_null {forms : FormStore} {needs : List Int32} {n : ℕ}
    (hnull : ∀ i, n ≤ i → contents forms i = 0 ∧ (forms.slot i).cap = 0)
    (hpos : ∀ needed ∈ needs, 0 < needed.toInt) : UsableSlots forms n needs := by
  induction needs generalizing n with
  | nil => exact trivial
  | cons needed rest ih =>
    obtain ⟨hfirst, hrest⟩ := List.forall_mem_cons.mp hpos
    refine ⟨.inl ⟨(hnull n (Nat.le_refl n)).1, ?_⟩, ih (fun i hi => hnull i (by omega)) hrest⟩
    rw [(hnull n (Nat.le_refl n)).2]
    exact hfirst

theorem newForms_sublist (full : List CString → Bool) (names : List CString)
    (forms : List PkgForm) : (newForms full names forms).Sublist forms := by
  induction forms generalizing names with
  | nil => exact .slnil
  | cons form rest ih =>
    rw [newForms]
    split
    · exact (ih names).cons form
    · exact (ih _).cons_cons form

/-- What the forms of a package need is more than nothing. -/
theorem addedNeeds_pos {kernel : KernelMemory} {pkg : CString} {entry : PkgEntry}
    (hfound : findPackage pkg = some entry) :
    ∀ needed ∈ addedNeeds kernel entry, 0 < needed.toInt := by
  refine List.forall_mem_cons.mpr ⟨by decide, fun needed hneeded => ?_⟩
  obtain ⟨form, hform, rfl⟩ := List.mem_map.mp hneeded
  have hsmall : form.text.chars.length + 1025 < 2 ^ 31 :=
    findPackage_small hfound form ((newForms_sublist _ _ _).mem hform)
  rw [PkgForm.needed, toInt_textRoom (by omega)]
  omega

/-- Any package is added in usable slots behind the form. -/
theorem namedSystem_addable (name : CString) {pkg : CString} {entry : PkgEntry}
    (hfound : findPackage pkg = some entry) : Addable (namedSystem name).kernel entry where
  ne_zero i hi := by
    have hi' : i < 1 := hi
    obtain rfl : i = 0 := by omega
    exact Nat.one_ne_zero
  usable := by
    refine usableSlots_of_null (fun i hi => ?_) (addedNeeds_pos hfound)
    have hi' : 1 ≤ i := hi
    have hslot : (namedSystem name).kernel.forms.slot i = ⟨cString "", 0, 0, 0, 0, 0⟩ :=
      if_neg (by omega)
    rw [contents, hslot]
    exact ⟨rfl, rfl⟩

/-- Add and remove a package, when both succeed. -/
def addThenRemove (system : System) (pkg : CString) : Option (System × System) :=
  match system.run .faultless (ayoAdd saveForms pkg) with
  | .ok (line, added) =>
    if line = installedLine pkg then
      match added.run .faultless (ayoRemove saveForms pkg) with
      | .ok (line', last) => if line' = removedLine pkg then some (added, last) else none
      | .error _ => none
    else none
  | .error _ => none

instance (kernel kernel' : KernelMemory) : Decidable (KeepsForms kernel kernel') :=
  inferInstanceAs (Decidable (List.Sublist _ _))

instance (kernel : KernelMemory) (entry : PkgEntry) : Decidable (NewNames kernel entry) :=
  inferInstanceAs (Decidable (∀ form ∈ entry.forms, form.fileName ∉ formNames kernel))

/-- The runs behind a pair of systems. -/
theorem runs_of_addThenRemove {system : System} {pkg : CString} {result : System × System}
    (h : addThenRemove system pkg = some result) :
    system.run .faultless (ayoAdd saveForms pkg) = .ok (installedLine pkg, result.1) ∧
      result.1.run .faultless (ayoRemove saveForms pkg) = .ok (removedLine pkg, result.2) := by
  rw [addThenRemove] at h
  split at h
  · rename_i line added hadd
    split at h
    · rename_i hline
      split at h
      · rename_i line' last hremove
        split at h
        · rename_i hline'
          obtain rfl := Option.some.inj h
          rw [hline] at hadd
          rw [hline'] at hremove
          exact ⟨hadd, hremove⟩
        · cases h
      · cases h
    · cases h
  · cases h

end Examples

end HexaOS.Shell
