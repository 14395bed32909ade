import HexaOS.FormContents

/-!
# The names of the forms over runs of commands

What each command does to the names in form_table: copy puts a name behind the others,
move puts one in the place of another, delete and `ayo remove` take names away, and the
other commands look for a name before they put it there. In a run of commands the names
stay pairwise distinct exactly when copy and move are never given a name that another
form has, and no name leaves its 32 bytes exactly when mkform and makedim are given short
ones.
-/

namespace HexaOS.Shell

open DevicePrograms PackedBytes Hexafs Kernel

/-- A name that fits its field with the terminator, and is not empty. -/
def ProperName (name : CString) : Prop := name.chars ≠ [] ∧ name.chars.length < nameMax

instance (name : CString) : Decidable (ProperName name) := inferInstanceAs (Decidable (_ ∧ _))

/-- The names of a table as they should be. -/
structure WellNamed (names : List CString) : Prop where
  /-- form_count is at most MAX_FORMS. -/
  length_le : names.length ≤ maxForms
  /-- No two forms have the same name. -/
  nodup : names.Nodup
  /-- Every name fits an entry. -/
  proper : ∀ name ∈ names, ProperName name

section Names

variable {names names' : List CString} {name : CString}

theorem wellNamed_nil : WellNamed [] where
  length_le := Nat.zero_le _
  nodup := List.nodup_nil
  proper _ h := absurd h List.not_mem_nil

/-- A table that lost names. -/
theorem WellNamed.sublist (h : WellNamed names) (hsub : names'.Sublist names) :
    WellNamed names' where
  length_le := Nat.le_trans hsub.length_le h.length_le
  nodup := h.nodup.sublist hsub
  proper name hname := h.proper name (hsub.subset hname)

/-- A new name behind the others. -/
theorem wellNamed_concat_iff (h : WellNamed names) (hroom : names.length < maxForms)
    (hproper : ProperName name) : WellNamed (names ++ [name]) ↔ name ∉ names := by
  constructor
  · intro hwell hmem
    have hdisjoint := (List.nodup_append.mp hwell.nodup).2.2
    exact hdisjoint name hmem name (List.mem_singleton_self name) rfl
  · intro hnew
    refine ⟨?_, ?_, fun other hother => ?_⟩
    · rw [List.length_append, List.length_singleton]
      omega
    · rw [← List.concat_eq_append]
      exact h.nodup.concat hnew
    · rcases List.mem_append.mp hother with hold | hlast
      · exact h.proper other hold
      · rw [List.mem_singleton.mp hlast]
        exact hproper

/-- A name in the place of another one. -/
theorem wellNamed_set_iff (h : WellNamed names) {idx : ℕ} (hidx : idx < names.length)
    (hproper : ProperName name) :
    WellNamed (names.set idx name) ↔ name = names[idx] ∨ name ∉ names := by
  constructor
  · intro hwell
    -- none of the names around it is the new one
    have hnodup := hwell.nodup
    rw [List.set_eq_take_append_cons_drop, if_pos hidx, List.nodup_middle, List.nodup_cons,
      List.mem_append] at hnodup
    have hsplit : names = names.take idx ++ names[idx] :: names.drop (idx + 1) := by
      rw [List.getElem_cons_drop, List.take_append_drop]
    by_cases hmem : name ∈ names
    · rw [hsplit, List.mem_append, List.mem_cons] at hmem
      rcases hmem with hbefore | hsame | hbehind
      · exact absurd (.inl hbefore) hnodup.1
      · exact .inl hsame
      · exact absurd (.inr hbehind) hnodup.1
    · exact .inr hmem
  · intro hfree
    refine ⟨?_, ?_, fun other hother => ?_⟩
    · rw [List.length_set]
      exact h.length_le
    · rcases hfree with hsame | hnew
      · rw [hsame, List.set_getElem_self]
        exact h.nodup
      · exact h.nodup.set hnew
    · rcases List.mem_or_eq_of_mem_set hother with hold | hlast
      · exact h.proper other hold
      · rw [hlast]
        exact hproper

end Names

section Effects

variable {α : Type} {kernel : KernelMemory}

/-- A command on one form answers, or runs its body on a form that is there. -/
theorem withForm_ensures {name : CString} {missing denied : α} {wantWrite : Bool}
    {body : ℕ → KernelM α} {post : α → KernelMemory → Prop}
    (hmissing : findForm kernel name = none → post missing kernel)
    (hdenied : ∀ idx, findForm kernel name = some idx → checkPerm kernel idx wantWrite = true →
      post denied kernel)
    (hbody : ∀ idx, findForm kernel name = some idx → checkPerm kernel idx wantWrite = false →
      (body idx).Ensures kernel post) :
    (withForm name missing denied wantWrite body).Ensures kernel post := by
  rw [withForm, Code.ensures_bind, Code.ensures_memory]
  cases hfound : findForm kernel name with
  | none => exact hmissing hfound
  | some idx =>
    dsimp only
    split
    · rename_i hperm
      exact hdenied idx hfound hperm
    · rename_i hperm
      exact hbody idx hfound (Bool.eq_false_iff.mpr hperm)

theorem withForm_keepsNames {name : CString} {missing denied : α} {wantWrite : Bool}
    {body : ℕ → KernelM α} (h : ∀ idx, (body idx).Keeps slotNames) :
    (withForm name missing denied wantWrite body).Keeps slotNames :=
  fun kernel => withForm_ensures (fun _ => rfl) (fun _ _ _ => rfl) fun idx _ _ => h idx kernel

/-- save_data keeps the names. -/
theorem saveForms_keepsNames : saveForms.Keeps slotNames :=
  saveForms_keepsTable.comp fun table => (fun i => (table.1.slot i).name, table.2)

theorem formNames_kept {code : KernelM α} {post : List CString → Prop}
    (h : code.Keeps slotNames) (hpost : post (formNames kernel)) :
    code.Ensures kernel fun _ kernel' => post (formNames kernel') :=
  (h kernel).mono fun _ kernel' hkept => by
    rw [formNames_of_slotNames hkept]
    exact hpost

/-- A save and the answer behind it. -/
theorem saved_names {value : α} (post : List CString → Prop) (hpost : post (formNames kernel)) :
    (do
      saveForms
      pure value : KernelM α).Ensures kernel fun _ kernel' => post (formNames kernel') :=
  formNames_kept (saveForms_keepsNames.bind fun _ => Code.keeps_pure _) hpost

theorem thenSave_names {code : KernelM (List UInt8)} {post : List CString → Prop}
    (h : code.Ensures kernel fun _ kernel' => post (formNames kernel')) :
    (thenSave saveForms code).Ensures kernel fun _ kernel' => post (formNames kernel') := by
  rw [thenSave, Code.ensures_bind]
  exact h.mono fun _ _ hpost => saved_names post hpost

theorem storeBytes_keepsNames (address : ℕ) (offset : Int) (bytes : List UInt8) :
    (storeBytes address offset bytes).Keeps slotNames :=
  fun _ => storeBytes_ensures fun _ _ _ _ => rfl

theorem allocBlock_keepsNames (size : ℕ) : (allocBlock size).Keeps slotNames :=
  fun _ => allocBlock_ensures rfl fun _ => rfl

theorem freeBlock_keepsNames (address : ℕ) : (freeBlock address).Keeps slotNames := by
  refine Code.Keeps.ite (Code.keeps_pure _) (Code.keeps_memory.bind fun kernel => ?_)
  cases kernel.forms.block address with
  | none => exact Code.keeps_halt _
  | some block => exact Code.keeps_modify fun _ => rfl

theorem writeForm_keepsNames (idx : ℕ) (content : CString) :
    (writeForm idx content).Keeps slotNames := by
  refine (formEnsureCap_keepsNames _ _).bind fun _ => Code.Keeps.ite ?_ (Code.keeps_pure _)
  refine Code.Keeps.bind ?_ fun _ => Code.keeps_pure _
  exact (copyText_keepsNames _ _).bind fun _ => modifyForm_keepsNames fun _ => rfl

theorem appendForm_keepsNames (idx : ℕ) (content : CString) :
    (appendForm idx content).Keeps slotNames := by
  refine Code.keeps_memory.bind fun _ => (formEnsureCap_keepsNames _ _).bind fun _ => ?_
  refine Code.Keeps.ite (Code.Keeps.bind ?_ fun _ => Code.keeps_pure _) (Code.keeps_pure _)
  refine Code.keeps_memory.bind fun _ => (storeBytes_keepsNames _ _ _).bind fun _ => ?_
  exact modifyForm_keepsNames fun _ => rfl

theorem editLoop_keepsNames (idx : ℕ) (typed : List CString) (total : ℕ) :
    (editLoop idx typed total).Keeps slotNames := by
  induction typed generalizing total with
  | nil => exact Code.keeps_halt _
  | cons line rest ih =>
    refine Code.Keeps.ite (Code.keeps_pure _) (Code.Keeps.ite (Code.keeps_pure _) ?_)
    refine Code.Keeps.bind ?_ fun _ => (ih _).bind fun _ => Code.keeps_pure _
    refine Code.keeps_memory.bind fun _ => (storeBytes_keepsNames _ _ _).bind fun _ => ?_
    exact modifyForm_keepsNames fun _ => rfl

theorem editForm_keepsNames (idx : ℕ) (name : CString) (typed : List CString) :
    (editForm idx name typed).Keeps slotNames := by
  refine ((showCurrent_keeps idx).comp slotNames).bind fun _ => ?_
  refine (copyText_keepsNames _ _).bind fun _ => ?_
  refine (modifyForm_keepsNames (by intro _; rfl)).bind fun _ => ?_
  exact (editLoop_keepsNames _ _ _).bind fun _ => Code.keeps_pure _

/-- A form taken out of the table takes its name along. -/
theorem removeForm_names {idx : ℕ} (hidx : idx < kernel.store.formCount) :
    (removeForm idx).Ensures kernel fun _ kernel' =>
      formNames kernel' = (formNames kernel).eraseIdx idx := by
  show (List.range (kernel.store.formCount - 1)).map
    (fun i => ((shiftForms kernel.forms idx kernel.store.formCount).slot i).name) = _
  have hlength : (formNames kernel).length = kernel.store.formCount := length_formNames kernel
  refine List.ext_getElem ?_ fun i hi hi' => ?_
  · rw [List.length_map, List.length_range, List.length_eraseIdx, hlength, if_pos hidx]
  · rw [List.length_map, List.length_range] at hi
    simp only [List.getElem_map, List.getElem_range, List.getElem_eraseIdx, formNames, shiftForms]
    by_cases hle : idx ≤ i
    · rw [if_pos ⟨hle, by omega⟩, dif_neg (by omega)]
    · rw [if_neg (fun hand => hle hand.1), dif_pos (by omega)]

theorem deleteForm_names {idx : ℕ} (hidx : idx < kernel.store.formCount) :
    (deleteForm idx).Ensures kernel fun _ kernel' =>
      formNames kernel' = (formNames kernel).eraseIdx idx := by
  rw [deleteForm, Code.ensures_bind, Code.ensures_memory]
  refine (freeBlock_keepsNames _).ensures_bind fun _ middle hkept => ?_
  have hcount : middle.store.formCount = kernel.store.formCount := congrArg Prod.snd hkept
  refine (removeForm_names (by rw [hcount]; exact hidx)).mono fun _ kernel' herased => ?_
  rw [herased, formNames_of_slotNames hkept]

/-- The names stay, or a proper name that none of them is comes behind them. -/
def MayName (names names' : List CString) : Prop :=
  names' = names ∨ ∃ name, names.length < maxForms ∧ name ∉ names ∧ ProperName name ∧
    names' = names ++ [name]

theorem MayName.wellNamed {names names' : List CString} (h : MayName names names')
    (hwell : WellNamed names) : WellNamed names' := by
  rcases h with hsame | ⟨name, hroom, hnew, hproper, hmade⟩
  · rw [hsame]
    exact hwell
  · rw [hmade]
    exact (wellNamed_concat_iff hwell hroom hproper).mpr hnew

theorem MayName.length_le {names names' : List CString} (h : MayName names names') :
    names'.length ≤ names.length + 1 := by
  rcases h with hsame | ⟨name, -, -, -, hmade⟩
  · rw [hsame]
    omega
  · rw [hmade, List.length_append, List.length_singleton]

theorem not_mem_of_findForm {name : CString} (h : ¬(findForm kernel name).isSome = true) :
    name ∉ formNames kernel := fun hmem => h ((findForm_isSome_iff kernel name).mpr hmem)

/-- cmd_mkform makes a form with a new name, or none. -/
theorem cmdMkform_names (kernel : KernelMemory) (name : CString) :
    (cmdMkform name).Ensures kernel fun _ kernel' =>
      MayName (formNames kernel) (formNames kernel') := by
  rw [cmdMkform, Code.ensures_bind, Code.ensures_memory]
  split
  · exact .inl rfl
  rename_i hempty
  split
  · exact .inl rfl
  rename_i hroom
  split
  · exact .inl rfl
  rename_i hnew
  split
  · exact trivial
  rename_i hshort
  dsimp only
  rw [Code.ensures_bind]
  refine (nameNext_ensures rfl name).mono fun _ named hnamed => ?_
  refine (allocBlock_keepsNames 1).ensures_bind fun block middle hkept => ?_
  have hplaced : slotNames middle = namesWith kernel name := hkept.trans hnamed
  cases block with
  | none =>
    show Code.Ensures (do
      modifyForm kernel.store.formCount fun form => { form with content := 0 }
      pure MkformLine.outOfMemory) middle _
    refine (modifyForm_keepsNames (by intro _; rfl)).ensures_bind fun _ _ hkept' => .inl ?_
    exact formNames_of_namesWith (hkept'.trans hplaced)
  | some address =>
    show Code.Ensures (do
      storeBytes address 0 [0]
      modifyForm kernel.store.formCount fun form => { form with
        content := address, size := 0, cap := 1, owner := UInt32.ofNat kernel.store.uCur,
        mode := permDefault }
      setFormCount (· + 1)
      pure MkformLine.created) middle _
    refine (storeBytes_keepsNames _ _ _).ensures_bind fun _ _ hstored => ?_
    refine (modifyForm_keepsNames (by intro _; rfl)).ensures_bind fun _ _ hkept' => ?_
    rw [Code.ensures_bind]
    have hnext := hkept'.trans (hstored.trans hplaced)
    refine (countNext_ensures hnext).mono fun _ kernel' hmade => ?_
    refine .inr ⟨name, ?_, not_mem_of_findForm hnew, ⟨hempty, by omega⟩, hmade⟩
    rw [length_formNames]
    omega

/-- cmd_makedim makes a form with a new name, or none. -/
theorem cmdMakedim_names (kernel : KernelMemory) (name : CString) :
    (cmdMakedim name).Ensures kernel fun _ kernel' =>
      MayName (formNames kernel) (formNames kernel') := by
  rw [cmdMakedim, Code.ensures_bind, Code.ensures_memory]
  split
  · exact .inl rfl
  rename_i hempty
  split
  · exact trivial
  rename_i hshort
  split
  · exact .inl rfl
  rename_i hnew
  split
  · exact .inl rfl
  rename_i hroom
  rw [Code.ensures_bind, makeDim, Code.ensures_bind, Code.ensures_memory, Code.ensures_bind]
  refine (nameNext_ensures rfl (dimName name)).mono fun _ _ hnamed => ?_
  refine (copyText_keepsNames _ _).ensures_bind fun _ _ hkept => ?_
  refine (modifyForm_keepsNames (by intro _; rfl)).ensures_bind fun _ _ hkept' => ?_
  have hnext := hkept'.trans (hkept.trans hnamed)
  refine (countNext_ensures hnext).mono fun _ kernel' hmade => ?_
  have hproper : ProperName (dimName name) := by
    refine ⟨?_, by omega⟩
    rw [dimName]
    split
    · exact hempty
    · exact List.append_ne_nil_of_right_ne_nil _ (List.cons_ne_nil _ _)
  refine .inr ⟨dimName name, ?_, not_mem_of_findForm hnew, hproper, hmade⟩
  rw [length_formNames]
  omega

theorem copyContent_keepsNames (dst src size : ℕ) : (copyContent dst src size).Keeps slotNames := by
  refine Code.Keeps.ite (Code.keeps_pure _) (Code.keeps_memory.bind fun _ => ?_)
  refine ((loadBytes_keeps _ _ _).comp slotNames).bind fun _ => ?_
  exact storeBytes_keepsNames _ _ _

/-- The copy gets its name, whatever the name is. -/
theorem copyForm_names (kernel : KernelMemory) (si : ℕ) (dst : CString) :
    (copyForm si dst).Ensures kernel fun _ kernel' =>
      formNames kernel' = formNames kernel ++ [dst] := by
  rw [copyForm, Code.ensures_bind, Code.ensures_memory]
  refine (formEnsureCap_keepsNames _ _).ensures_bind fun _ _ hgrown => ?_
  rw [Code.ensures_bind]
  refine (nameNext_ensures hgrown dst).mono fun _ _ hnamed => ?_
  refine (copyContent_keepsNames _ _ _).ensures_bind fun _ _ hkept => ?_
  have hfill : (fillCopy kernel.store.formCount si kernel.store.uCur).Keeps slotNames :=
    Code.keeps_memory.bind fun _ => modifyForm_keepsNames fun _ => rfl
  refine hfill.ensures_bind fun _ _ hkept' => ?_
  exact countNext_ensures (hkept'.trans (hkept.trans hnamed))

/-- The form that move renames, when it gets so far. -/
def movedForm (kernel : KernelMemory) (args : CString) : Option ℕ :=
  let (src, dst) := twoNames args
  if src.chars = [] ∨ dst.chars = [] then none
  else
    match findForm kernel src with
    | none => none
    | some idx => if checkPerm kernel idx true then none else some idx

/-- The names that copy leaves. -/
def copiedNames (kernel : KernelMemory) (args : CString) : List CString :=
  match copySource kernel args with
  | none => formNames kernel
  | some _ => formNames kernel ++ [(twoNames args).2]

/-- The names that move leaves. -/
def movedNames (kernel : KernelMemory) (args : CString) : List CString :=
  match movedForm kernel args with
  | none => formNames kernel
  | some idx => (formNames kernel).set idx (twoNames args).2

theorem copyCommand_names (kernel : KernelMemory) (args : CString) :
    (copyCommand saveForms args).Ensures kernel fun _ kernel' =>
      formNames kernel' = copiedNames kernel args := by
  rw [copyCommand, copiedNames, copySource]
  dsimp only [twoNames]
  split
  · exact rfl
  refine withForm_ensures (fun hnone => ?_) (fun idx hfound hdenied => ?_) fun si hfound hperm => ?_
  · rw [hnone]
  · rw [hfound]
    dsimp only
    rw [if_pos (.inl hdenied)]
  · rw [Code.ensures_bind, Code.ensures_memory, hfound]
    dsimp only
    split
    · rename_i hfull
      rw [if_pos (.inr hfull)]
      exact rfl
    · rename_i hroom
      rw [if_neg (by simp [hperm, hroom]), Code.ensures_bind]
      exact (copyForm_names kernel si _).mono fun _ _ hmade => saved_names (· = _) hmade

/-- A form gets another name. -/
theorem modifyForm_names (idx : ℕ) (name : CString) :
    (modifyForm idx fun form => { form with name := name }).Ensures kernel fun _ kernel' =>
      formNames kernel' = (formNames kernel).set idx name := by
  refine (Code.ensures_modify _ _).mpr ?_
  refine List.ext_getElem (by simp [formNames]) fun i hi hi' => ?_
  simp only [formNames, List.getElem_map, List.getElem_range, List.getElem_set]
  by_cases hsame : idx = i
  · rw [if_pos hsame, ← hsame, FormStore.slot_setSlot_self]
  · rw [if_neg hsame, FormStore.slot_setSlot_of_ne _ (Ne.symm hsame)]

theorem moveCommand_names (kernel : KernelMemory) (args : CString) :
    (moveCommand saveForms args).Ensures kernel fun _ kernel' =>
      formNames kernel' = movedNames kernel args := by
  rw [moveCommand, movedNames, movedForm]
  dsimp only [twoNames]
  split
  · exact rfl
  refine withForm_ensures (fun hnone => ?_) (fun idx hfound hdenied => ?_) fun idx hfound hperm => ?_
  · rw [hnone]
  · rw [hfound]
    dsimp only
    rw [if_pos hdenied]
  · rw [hfound]
    dsimp only
    rw [if_neg (by rw [hperm]; exact Bool.false_ne_true), Code.ensures_bind]
    refine (modifyForm_names _ _).mono fun _ _ hset => ?_
    exact saved_names (· = _) hset

theorem adoptBlock_keepsNames (hidx packed len : ℕ) : (adoptBlock hidx packed len).Keeps slotNames := by
  refine Code.keeps_memory.bind fun _ => (freeBlock_keepsNames _).bind fun _ => ?_
  exact modifyForm_keepsNames fun _ => rfl

theorem wrapForm_names (kernel : KernelMemory) (name : CString) (packed len : ℕ) :
    (wrapForm name packed len).Ensures kernel fun _ kernel' =>
      MayName (formNames kernel) (formNames kernel') := by
  rw [wrapForm, Code.ensures_bind]
  refine (cmdMkform_names kernel name).mono fun line middle hmay => ?_
  rw [Code.ensures_bind, Code.ensures_memory]
  cases findForm middle name with
  | none => exact hmay
  | some hidx =>
    exact formNames_kept ((adoptBlock_keepsNames _ _ _).bind fun _ => Code.keeps_pure _) hmay

/-- hexpack makes a form with a new name, or none. -/
theorem cmdHexpack_names (kernel : KernelMemory) (args : CString) :
    (cmdHexpack args).Ensures kernel fun _ kernel' =>
      MayName (formNames kernel) (formNames kernel') := by
  rw [cmdHexpack, hexPackElf, Code.ensures_bind, Code.ensures_memory]
  split
  · exact .inl rfl
  cases findForm kernel (firstWord 31 args) with
  | none => exact .inl rfl
  | some idx =>
    dsimp only
    rw [packForm, Code.ensures_bind, Code.ensures_memory]
    refine ((elfEntry_keeps idx).comp slotNames).ensures_bind fun _ _ hentry => ?_
    refine (allocBlock_keepsNames _).ensures_bind fun block _ hblock => ?_
    cases block with
    | none => exact .inl (formNames_of_slotNames (hblock.trans hentry))
    | some packed =>
      refine (storeBytes_keepsNames _ _ _).ensures_bind fun _ _ hhead => ?_
      refine ((elfBytes_keeps idx).comp slotNames).ensures_bind fun _ _ hbytes => ?_
      refine (storeBytes_keepsNames _ _ _).ensures_bind fun _ middle hcode => ?_
      have hkept : slotNames middle = slotNames kernel :=
        hcode.trans (hbytes.trans (hhead.trans (hblock.trans hentry)))
      rw [Code.ensures_bind, ← formNames_of_slotNames hkept]
      exact (wrapForm_names middle _ _ _).mono fun _ _ hmay => hmay

end Effects

section Packages

variable {kernel : KernelMemory}

/-- The names that a package has in the table fit there. -/
def PkgEntry.Named (pkg : PkgEntry) : Prop :=
  ProperName pkg.marker ∧ ∀ form ∈ pkg.forms, ProperName form.fileName

theorem pkgDb_named : ∀ pkg ∈ pkgDb, pkg.Named := by
  have hall : (pkgDb.all fun pkg => decide (ProperName pkg.marker) &&
      pkg.forms.all fun form => decide (ProperName form.fileName)) = true := by
    decide +kernel
  intro pkg hpkg
  have hpkg' := List.all_eq_true.mp hall pkg hpkg
  rw [Bool.and_eq_true, decide_eq_true_eq, List.all_eq_true] at hpkg'
  exact ⟨hpkg'.1, fun form hform => of_decide_eq_true (hpkg'.2 form hform)⟩

/-- A form of a package is made with a new name. -/
theorem createForm_mayName {name : CString} (content : CString) (hnew : name ∉ formNames kernel)
    (hroom : kernel.store.formCount < maxForms) (hproper : ProperName name) :
    (createForm name content).Ensures kernel fun _ kernel' =>
      MayName (formNames kernel) (formNames kernel') := by
  refine (createForm_names kernel name content).mono fun _ _ hmade => ?_
  exact .inr ⟨name, by rw [length_formNames]; exact hroom, hnew, hproper, hmade⟩

theorem installForm_mayName {form : PkgForm} (hroom : kernel.store.formCount < maxForms)
    (hproper : ProperName form.fileName) :
    (installForm form).Ensures kernel fun _ kernel' =>
      MayName (formNames kernel) (formNames kernel') := by
  rw [installForm, Code.ensures_bind, Code.ensures_memory]
  split
  · exact .inl rfl
  · rename_i hnew
    exact createForm_mayName _ (not_mem_of_findForm hnew) hroom hproper

/-- The loop of `ayo add` with room for all its forms. -/
theorem installForms_wellNamed {forms : List PkgForm} {kernel : KernelMemory}
    (hproper : ∀ form ∈ forms, ProperName form.fileName)
    (hroom : kernel.store.formCount + forms.length ≤ maxForms)
    (hwell : WellNamed (formNames kernel)) :
    (installForms forms).Ensures kernel fun _ kernel' => WellNamed (formNames kernel') := by
  induction forms generalizing kernel with
  | nil => exact hwell
  | cons form rest ih =>
    rw [List.length_cons] at hroom
    rw [installForms, Code.ensures_bind]
    have hlt : kernel.store.formCount < maxForms := by omega
    have hfirst := installForm_mayName hlt (hproper form List.mem_cons_self)
    refine hfirst.mono fun _ middle hmay => ?_
    have hle : middle.store.formCount ≤ kernel.store.formCount + 1 := by
      rw [← length_formNames, ← length_formNames]
      exact hmay.length_le
    exact ih (fun other hother => hproper other (List.mem_cons_of_mem _ hother)) (by omega)
      (hmay.wellNamed hwell)

theorem ayoAdd_wellNamed (pkg : CString) (hwell : WellNamed (formNames kernel)) :
    (ayoAdd saveForms pkg).Ensures kernel fun _ kernel' => WellNamed (formNames kernel') := by
  rw [ayoAdd, Code.ensures_bind, Code.ensures_memory]
  split
  · exact hwell
  split
  · exact hwell
  cases hentry : findPackage pkg with
  | none => exact hwell
  | some entry =>
    dsimp only
    split
    · exact hwell
    rename_i hroom
    split
    · exact hwell
    rename_i hmarker
    have hnamed : entry.Named := pkgDb_named entry (List.mem_of_find?_eq_some hentry)
    rw [Code.ensures_bind]
    have hmake := createForm_mayName (cString "1") (not_mem_of_findForm hmarker) (by omega) hnamed.1
    refine hmake.mono fun _ middle hmay => ?_
    have hle : middle.store.formCount ≤ kernel.store.formCount + 1 := by
      rw [← length_formNames, ← length_formNames]
      exact hmay.length_le
    rw [Code.ensures_bind]
    have hloop := installForms_wellNamed hnamed.2 (by omega) (hmay.wellNamed hwell)
    exact hloop.mono fun _ _ hlast => saved_names WellNamed hlast

theorem uninstallForm_wellNamed (name : CString) (hwell : WellNamed (formNames kernel)) :
    (uninstallForm name).Ensures kernel fun _ kernel' => WellNamed (formNames kernel') := by
  rw [uninstallForm, Code.ensures_bind, Code.ensures_memory]
  cases hfound : findForm kernel name with
  | none => exact hwell
  | some idx =>
    refine (removeForm_names (findForm_lt hfound)).mono fun _ _ herased => ?_
    rw [herased]
    exact hwell.sublist (List.eraseIdx_sublist ..)

theorem uninstallForms_wellNamed (names : List CString) {kernel : KernelMemory}
    (hwell : WellNamed (formNames kernel)) :
    (uninstallForms names).Ensures kernel fun _ kernel' => WellNamed (formNames kernel') := by
  induction names generalizing kernel with
  | nil => exact hwell
  | cons name rest ih =>
    rw [uninstallForms, Code.ensures_bind]
    exact (uninstallForm_wellNamed name hwell).mono fun _ _ hwell' => ih hwell'

theorem ayoRemove_wellNamed (pkg : CString) (hwell : WellNamed (formNames kernel)) :
    (ayoRemove saveForms pkg).Ensures kernel fun _ kernel' => WellNamed (formNames kernel') := by
  rw [ayoRemove, Code.ensures_bind, Code.ensures_memory]
  split
  · exact hwell
  split
  · exact hwell
  cases findPackage pkg with
  | none => exact hwell
  | some entry =>
    dsimp only
    split
    · exact hwell
    rw [Code.ensures_bind]
    exact (uninstallForms_wellNamed _ hwell).mono fun _ _ hlast => saved_names WellNamed hlast

theorem refreshForm_wellNamed {form : PkgForm} (hproper : ProperName form.fileName)
    (hwell : WellNamed (formNames kernel)) :
    (refreshForm form).Ensures kernel fun _ kernel' => WellNamed (formNames kernel') := by
  rw [refreshForm, Code.ensures_bind, Code.ensures_memory]
  cases hfound : findForm kernel form.fileName with
  | some idx => exact formNames_kept (rewriteForm_keepsNames idx _) hwell
  | none =>
    dsimp only
    split
    · rename_i hroom
      have hnew : form.fileName ∉ formNames kernel := not_mem_of_findForm (by simp [hfound])
      exact (createForm_mayName _ hnew hroom hproper).mono fun _ _ hmay => hmay.wellNamed hwell
    · exact hwell

theorem refreshForms_wellNamed {forms : List PkgForm} {kernel : KernelMemory}
    (hproper : ∀ form ∈ forms, ProperName form.fileName) (hwell : WellNamed (formNames kernel)) :
    (refreshForms forms).Ensures kernel fun _ kernel' => WellNamed (formNames kernel') := by
  induction forms generalizing kernel with
  | nil => exact hwell
  | cons form rest ih =>
    rw [refreshForms, Code.ensures_bind]
    have hfirst := refreshForm_wellNamed (hproper form List.mem_cons_self) hwell
    exact hfirst.mono fun _ _ hwell' =>
      ih (fun other hother => hproper other (List.mem_cons_of_mem _ hother)) hwell'

theorem refreshPackages_wellNamed {pkgs : List PkgEntry} {kernel : KernelMemory}
    (hnamed : ∀ pkg ∈ pkgs, pkg.Named) (hwell : WellNamed (formNames kernel)) :
    (refreshPackages pkgs).Ensures kernel fun _ kernel' => WellNamed (formNames kernel') := by
  induction pkgs generalizing kernel with
  | nil => exact hwell
  | cons pkg rest ih =>
    have hone : (refreshPackage pkg).Ensures kernel fun _ kernel' =>
        WellNamed (formNames kernel') := by
      rw [refreshPackage, Code.ensures_bind, Code.ensures_memory]
      split
      · exact hwell
      · rw [Code.ensures_bind]
        exact refreshForms_wellNamed (hnamed pkg List.mem_cons_self).2 hwell
    rw [refreshPackages, Code.ensures_bind]
    refine hone.mono fun one middle hwell' => ?_
    rw [Code.ensures_bind]
    exact ih (fun other hother => hnamed other (List.mem_cons_of_mem _ hother)) hwell'

theorem ayoUpdate_wellNamed (hwell : WellNamed (formNames kernel)) :
    (ayoUpdate saveForms).Ensures kernel fun _ kernel' => WellNamed (formNames kernel') := by
  rw [ayoUpdate, Code.ensures_bind, Code.ensures_memory]
  split
  · exact hwell
  · rw [Code.ensures_bind]
    exact (refreshPackages_wellNamed pkgDb_named hwell).mono fun _ _ hlast =>
      saved_names WellNamed hlast

theorem ayoCommand_wellNamed (args : CString) (hwell : WellNamed (formNames kernel)) :
    (ayoCommand saveForms args).Ensures kernel fun _ kernel' => WellNamed (formNames kernel') := by
  rw [ayoCommand, Code.ensures_bind, Code.ensures_memory]
  split
  · exact hwell
  split
  · exact hwell
  split
  · exact ayoAdd_wellNamed _ hwell
  split
  · exact ayoRemove_wellNamed _ hwell
  split
  · exact ayoUpdate_wellNamed hwell
  · exact hwell

end Packages

section Commands

variable {kernel : KernelMemory}

/-- The names that a command copies to a field or a buffer of 32 bytes. -/
def copiedTexts (kernel : KernelMemory) : FormCommand → List CString
  | .mkform args =>
    if args.chars = [] ∨ maxForms ≤ kernel.store.formCount ∨ (findForm kernel args).isSome then []
    else [args]
  | .makedim args => if args.chars = [] then [] else [dimName args]
  | .copy args => if (copySource kernel args).isSome then [(twoNames args).2] else []
  | .move args => if (movedForm kernel args).isSome then [(twoNames args).2] else []
  | .ayo _ => pkgDb.flatMap fun pkg => pkg.marker :: pkg.forms.map PkgForm.fileName
  | .hexpack args => [hexName (firstWord 31 args)]
  | _ => []

/-- Nothing that the command copies leaves its 32 bytes. -/
def NamesFit (kernel : KernelMemory) (command : FormCommand) : Prop :=
  ∀ text ∈ copiedTexts kernel command, text.chars.length < nameMax

/-- A command that makes a form of its whole argument is given a short one, or refuses it. -/
def GivesShort (kernel : KernelMemory) : FormCommand → Prop
  | .mkform args =>
    args.chars.length < nameMax ∨ maxForms ≤ kernel.store.formCount ∨ args ∈ formNames kernel
  | .makedim args => args.chars = [] ∨ (dimName args).chars.length < nameMax
  | _ => True

/-- copy and move are not given the name of another form, unless they do nothing. -/
def GivesFree (kernel : KernelMemory) : FormCommand → Prop
  | .copy args => (copySource kernel args).isSome → (twoNames args).2 ∉ formNames kernel
  | .move args => (movedForm kernel args).isSome →
      (twoNames args).2 = (twoNames args).1 ∨ (twoNames args).2 ∉ formNames kernel
  | _ => True

theorem namesFit_iff (kernel : KernelMemory) (command : FormCommand) :
    NamesFit kernel command ↔ GivesShort kernel command := by
  have hsecond : ∀ args, (twoNames args).2.chars.length < nameMax := fun args =>
    Nat.lt_of_le_of_lt (length_takeChars_le 31 _) (by decide)
  cases command with
  | mkform args =>
    rw [NamesFit, copiedTexts, GivesShort, ← findForm_isSome_iff]
    split
    · rename_i hrefused
      refine iff_of_true (fun _ h => absurd h List.not_mem_nil) ?_
      rcases hrefused with hempty | hrest
      · refine .inl ?_
        rw [hempty]
        decide
      · exact .inr hrest
    · rename_i hmade
      rw [List.forall_mem_singleton]
      exact ⟨.inl, fun h => h.resolve_right fun hrest => hmade (.inr hrest)⟩
  | makedim args =>
    rw [NamesFit, copiedTexts, GivesShort]
    split
    · rename_i hempty
      exact iff_of_true (fun _ h => absurd h List.not_mem_nil) (.inl hempty)
    · rename_i hname
      rw [List.forall_mem_singleton]
      exact ⟨.inr, fun h => h.resolve_left hname⟩
  | copy args =>
    refine iff_of_true (fun text htext => ?_) trivial
    rw [copiedTexts] at htext
    split at htext
    · rw [List.mem_singleton.mp htext]
      exact hsecond args
    · exact absurd htext List.not_mem_nil
  | move args =>
    refine iff_of_true (fun text htext => ?_) trivial
    rw [copiedTexts] at htext
    split at htext
    · rw [List.mem_singleton.mp htext]
      exact hsecond args
    · exact absurd htext List.not_mem_nil
  | ayo args =>
    refine iff_of_true (fun text htext => ?_) trivial
    obtain ⟨pkg, hpkg, htext'⟩ := List.mem_flatMap.mp htext
    have hnamed : pkg.Named := pkgDb_named pkg hpkg
    rcases List.mem_cons.mp htext' with hmarker | hform
    · rw [hmarker]
      exact hnamed.1.2
    · obtain ⟨form, hform', hname⟩ := List.mem_map.mp hform
      rw [← hname]
      exact (hnamed.2 form hform').2
  | hexpack args =>
    refine iff_of_true (fun text htext => ?_) trivial
    rw [List.mem_singleton.mp htext, hexName, List.length_append]
    have hle := length_takeChars_le 24 (firstWord 31 args)
    show _ + 4 < 32
    omega
  | delete _ => exact iff_of_true (fun _ h => absurd h List.not_mem_nil) trivial
  | write _ => exact iff_of_true (fun _ h => absurd h List.not_mem_nil) trivial
  | append _ => exact iff_of_true (fun _ h => absurd h List.not_mem_nil) trivial
  | edit _ _ => exact iff_of_true (fun _ h => absurd h List.not_mem_nil) trivial

theorem copySource_elim {args : CString} {si : ℕ} (h : copySource kernel args = some si) :
    kernel.store.formCount < maxForms ∧ ProperName (twoNames args).2 := by
  rw [copySource] at h
  dsimp only [twoNames] at h ⊢
  split at h
  · cases h
  rename_i hnames
  split at h
  · cases h
  split at h
  · cases h
  rename_i hopen
  refine ⟨not_le.mp fun hfull => hopen (.inr hfull), fun hempty => hnames (.inr hempty), ?_⟩
  exact Nat.lt_of_le_of_lt (length_takeChars_le 31 _) (by decide)

theorem movedForm_elim {args : CString} {idx : ℕ} (h : movedForm kernel args = some idx) :
    findForm kernel (twoNames args).1 = some idx ∧ ProperName (twoNames args).2 := by
  rw [movedForm] at h
  dsimp only [twoNames] at h ⊢
  split at h
  · cases h
  rename_i hnames
  split at h
  · cases h
  rename_i found hfound
  split at h
  · cases h
  rw [← h, hfound]
  refine ⟨rfl, fun hempty => hnames (.inr hempty), ?_⟩
  exact Nat.lt_of_le_of_lt (length_takeChars_le 31 _) (by decide)

/-- The name of the form that was found. -/
theorem getElem_formNames_of_findForm {name : CString} {idx : ℕ}
    (h : findForm kernel name = some idx) (hidx : idx < (formNames kernel).length) :
    (formNames kernel)[idx] = name := by
  have hname := List.find?_some h
  simp only [formNames, List.getElem_map, List.getElem_range]
  exact beq_iff_eq.mp hname

theorem copiedNames_wellNamed_iff (args : CString) (hwell : WellNamed (formNames kernel)) :
    WellNamed (copiedNames kernel args) ↔ GivesFree kernel (.copy args) := by
  rw [copiedNames, GivesFree]
  cases hsource : copySource kernel args with
  | none => exact iff_of_true hwell fun h => nomatch h
  | some si =>
    obtain ⟨hroom, hproper⟩ := copySource_elim hsource
    rw [← length_formNames] at hroom
    exact (wellNamed_concat_iff hwell hroom hproper).trans ⟨fun h _ => h, fun h => h rfl⟩

theorem movedNames_wellNamed_iff (args : CString) (hwell : WellNamed (formNames kernel)) :
    WellNamed (movedNames kernel args) ↔ GivesFree kernel (.move args) := by
  rw [movedNames, GivesFree]
  cases hmoved : movedForm kernel args with
  | none => exact iff_of_true hwell fun h => nomatch h
  | some idx =>
    obtain ⟨hfound, hproper⟩ := movedForm_elim hmoved
    have hidx : idx < (formNames kernel).length := by
      rw [length_formNames]
      exact findForm_lt hfound
    have hset := wellNamed_set_iff hwell hidx hproper
    rw [getElem_formNames_of_findForm hfound hidx] at hset
    exact hset.trans ⟨fun h _ => h, fun h => h rfl⟩

/-- A command on a table whose names are as they should be leaves them so exactly when it is
given no name of another form. -/
theorem FormCommand.code_wellNamed (command : FormCommand) (hwell : WellNamed (formNames kernel)) :
    command.code.Ensures kernel fun _ kernel' =>
      (WellNamed (formNames kernel') ↔ GivesFree kernel command) := by
  have hkept : ∀ {code : KernelM (List UInt8)},
      code.Ensures kernel (fun _ kernel' => WellNamed (formNames kernel')) →
        code.Ensures kernel fun _ kernel' => (WellNamed (formNames kernel') ↔ True) := by
    intro code h
    exact h.mono fun _ _ hnames => iff_of_true hnames trivial
  cases command with
  | mkform args =>
    refine hkept (thenSave_names ?_)
    rw [Code.ensures_bind]
    exact (cmdMkform_names kernel args).mono fun _ _ hmay => hmay.wellNamed hwell
  | makedim args =>
    exact hkept ((cmdMakedim_names kernel args).mono fun _ _ hmay => hmay.wellNamed hwell)
  | copy args =>
    refine (copyCommand_names kernel args).mono fun _ _ hcopied => ?_
    rw [hcopied]
    exact copiedNames_wellNamed_iff args hwell
  | move args =>
    refine (moveCommand_names kernel args).mono fun _ _ hmoved => ?_
    rw [hmoved]
    exact movedNames_wellNamed_iff args hwell
  | delete args =>
    refine hkept (thenSave_names ?_)
    refine withForm_ensures (fun _ => hwell) (fun _ _ _ => hwell) fun idx hfound _ => ?_
    rw [Code.ensures_bind]
    refine (deleteForm_names (findForm_lt hfound)).mono fun _ _ herased => ?_
    rw [Code.ensures_pure, herased]
    exact hwell.sublist (List.eraseIdx_sublist ..)
  | write args =>
    refine hkept (thenSave_names (formNames_kept ?_ hwell))
    exact Code.Keeps.ite (Code.keeps_pure _) (withForm_keepsNames fun idx =>
      writeForm_keepsNames idx _)
  | append args =>
    refine hkept (thenSave_names (formNames_kept ?_ hwell))
    exact Code.Keeps.ite (Code.keeps_pure _) (withForm_keepsNames fun idx =>
      appendForm_keepsNames idx _)
  | edit args typed =>
    refine hkept (thenSave_names (formNames_kept ?_ hwell))
    refine Code.Keeps.bind ?_ fun _ => Code.keeps_pure _
    exact withForm_keepsNames fun idx => editForm_keepsNames idx args typed
  | ayo args => exact hkept (ayoCommand_wellNamed args hwell)
  | hexpack args =>
    exact hkept ((cmdHexpack_names kernel args).mono fun _ _ hmay => hmay.wellNamed hwell)

/-- A command that would leave the 32 bytes of a name stops there. -/
theorem FormCommand.code_fault {env : Environment} {system : System} {command : FormCommand}
    (hlong : ¬NamesFit system.kernel command) : system.run env command.code = .error .fault := by
  rw [namesFit_iff] at hlong
  cases command with
  | mkform args =>
    rw [GivesShort, ← findForm_isSome_iff, not_or, not_or] at hlong
    obtain ⟨hlength, hroom, hnew⟩ := hlong
    have hempty : args.chars ≠ [] := fun hempty => hlength (by rw [hempty]; decide)
    rw [FormCommand.code, FormCommand.codeWith, thenSave, System.run_bind, System.run_bind, cmdMkform, System.run_memory,
      if_neg hempty, if_neg hroom, if_neg hnew, if_pos (not_lt.mp hlength)]
    rfl
  | makedim args =>
    rw [GivesShort, not_or] at hlong
    rw [FormCommand.code, FormCommand.codeWith, cmdMakedim, System.run_memory, if_neg hlong.1,
      if_pos (not_lt.mp hlong.2)]
    rfl
  | _ => exact absurd trivial hlong

end Commands

section Runs

/-- A command that was run, with the statics of the kernel before and behind it. -/
structure NamingStep where
  /-- The kernel before the command. -/
  before : KernelMemory
  /-- The command. -/
  command : FormCommand
  /-- The kernel behind the command. -/
  after : KernelMemory

/-- Commands that return, one after the other. Between two of them anything may happen that
leaves the names in the table alone. -/
inductive NamingRun (first : System) : List NamingStep → System → Prop where
  | start : NamingRun first [] first
  | command {env : Environment} {steps : List NamingStep} {system system' : System}
      {command : FormCommand} {printed : List UInt8} (run : NamingRun first steps system)
      (runs : system.run env command.code = .ok (printed, system')) :
      NamingRun first (steps ++ [⟨system.kernel, command, system'.kernel⟩]) system'
  | other {steps : List NamingStep} {system system' : System} (run : NamingRun first steps system)
      (kept : slotNames system'.kernel = slotNames system.kernel) : NamingRun first steps system'

/-- The command copied names within their bytes, and the names behind it are as they should
be. -/
def NamingStep.Named (step : NamingStep) : Prop :=
  NamesFit step.before step.command ∧ WellNamed (formNames step.after)

/-- A step from names that are as they should be. -/
theorem NamingStep.named_iff {env : Environment} {system system' : System} {command : FormCommand}
    {printed : List UInt8} (hwell : WellNamed (formNames system.kernel))
    (hrun : system.run env command.code = .ok (printed, system')) :
    NamingStep.Named ⟨system.kernel, command, system'.kernel⟩ ↔ GivesFree system.kernel command := by
  have hnames : WellNamed (formNames system'.kernel) ↔ GivesFree system.kernel command :=
    System.run_ensures (command.code_wellNamed hwell) hrun
  have hfit : NamesFit system.kernel command := by
    by_contra hlong
    rw [FormCommand.code_fault hlong] at hrun
    cases hrun
  exact (and_iff_right hfit).trans hnames

/-- Where every step of a run left the names as they should be, they are so at its end. -/
theorem NamingRun.wellNamed {first last : System} {steps : List NamingStep}
    (hrun : NamingRun first steps last) (hfirst : WellNamed (formNames first.kernel))
    (hsteps : ∀ step ∈ steps, step.Named) : WellNamed (formNames last.kernel) := by
  induction hrun with
  | start => exact hfirst
  | command _ _ _ => exact (hsteps _ (List.mem_append_right _ (List.mem_singleton_self _))).2
  | other _ hkept ih =>
    rw [formNames_of_slotNames hkept]
    exact ih hsteps

/-- In a run of commands every step keeps the names as they should be exactly when copy and
move are given no name of another form, and the next command stays within the bytes of a
name exactly when it is given a short one. -/
theorem namingRun_named_iff {first last : System} {steps : List NamingStep}
    (hfirst : WellNamed (formNames first.kernel)) (hrun : NamingRun first steps last)
    (next : FormCommand) :
    (∀ step ∈ steps, step.Named) ∧ NamesFit last.kernel next ↔
      (∀ step ∈ steps, GivesFree step.before step.command) ∧ GivesShort last.kernel next := by
  refine and_congr ?_ (namesFit_iff last.kernel next)
  induction hrun with
  | start =>
    exact iff_of_true (fun _ h => absurd h List.not_mem_nil) (fun _ h => absurd h List.not_mem_nil)
  | other _ _ ih => exact ih
  | command run runs ih =>
    rw [List.forall_mem_append, List.forall_mem_append, List.forall_mem_singleton,
      List.forall_mem_singleton]
    constructor
    · intro ⟨hsteps, hlast⟩
      have hwell := run.wellNamed hfirst hsteps
      exact ⟨ih.mp hsteps, (NamingStep.named_iff hwell runs).mp hlast⟩
    · intro ⟨hsteps, hlast⟩
      have hnamed := ih.mpr hsteps
      exact ⟨hnamed, (NamingStep.named_iff (run.wellNamed hfirst hnamed) runs).mpr hlast⟩

/-- Commands run one after the other are a run. -/
theorem namingRun_of_foldlM {first system last : System} {steps : List NamingStep}
    (commands : List FormCommand) (hrun : NamingRun first steps system)
    (h : commands.foldlM (fun system command => (system.run .faultless command.code).map Prod.snd)
      system = .ok last) :
    ∃ more, NamingRun first (steps ++ more) last ∧ more.map NamingStep.command = commands := by
  induction commands generalizing system steps with
  | nil =>
    have hlast : system = last := Except.ok.inj h
    refine ⟨[], ?_, rfl⟩
    rw [List.append_nil, ← hlast]
    exact hrun
  | cons command rest ih =>
    rw [List.foldlM_cons] at h
    cases hstep : system.run .faultless command.code with
    | error stop => rw [hstep] at h; cases h
    | ok result =>
      rw [hstep] at h
      obtain ⟨more, hmore, hcommands⟩ := ih (NamingRun.command hrun hstep) h
      rw [List.append_assoc, List.singleton_append] at hmore
      exact ⟨_, hmore, by rw [List.map_cons, hcommands]⟩

/-- A run from the empty table. -/
theorem exists_namingRun {commands : List FormCommand} {test : System → Bool}
    (h : endsIn test (commands.foldlM (fun system command =>
      (system.run .faultless command.code).map Prod.snd) bootSystem) = true) :
    ∃ steps last, NamingRun bootSystem steps last ∧ test last = true ∧
      steps.map NamingStep.command = commands := by
  cases hrun : commands.foldlM (fun system command =>
      (system.run .faultless command.code).map Prod.snd) bootSystem with
  | error stop => rw [hrun] at h; cases h
  | ok last =>
    rw [hrun] at h
    obtain ⟨more, hmore, hcommands⟩ := namingRun_of_foldlM commands .start hrun
    exact ⟨more, last, hmore, h, hcommands⟩

/-- The table has the same name twice. -/
def twoShareName (system : System) : Bool :=
  (formNames system.kernel).count (literal ['b']) == 2

/-- A form is copied to the name of another one, and mkform is given a name of 40
characters. -/
theorem namingRun_losesNames :
    (¬∀ steps last, NamingRun bootSystem steps last → ∀ step ∈ steps, step.Named) ∧
      ¬∀ next, NamesFit bootSystem.kernel next := by
  constructor
  · intro hall
    have htest : endsIn twoShareName (([.mkform (literal ['a']), .mkform (literal ['b']),
        .copy (literal ['a', ' ', 'b'])] : List FormCommand).foldlM (fun system command =>
          (system.run .faultless command.code).map Prod.snd) bootSystem) = true := by
      decide +kernel
    obtain ⟨steps, last, hrun, hshared, -⟩ := exists_namingRun htest
    have hwell : WellNamed (formNames last.kernel) :=
      hrun.wellNamed wellNamed_nil (hall steps last hrun)
    have honce := List.nodup_iff_count_le_one.mp hwell.nodup (literal ['b'])
    rw [beq_iff_eq.mp hshared] at honce
    omega
  · intro hall
    have hfit := (namesFit_iff _ _).mp (hall (.mkform (literal (List.replicate 40 'a'))))
    rcases hfit with hshort | hfull | hmem
    · exact absurd hshort (by decide)
    · exact absurd hfull (by decide)
    · exact absurd hmem List.not_mem_nil

/-- A form is made and copied to a new name. -/
theorem namingRun_named_iff_copied : ∃ steps last, NamingRun bootSystem steps last ∧
    steps.map NamingStep.command = [.mkform (literal ['a']), .copy (literal ['a', ' ', 'b'])] ∧
      ((∀ step ∈ steps, step.Named) ∧ NamesFit last.kernel (.mkform (literal ['c'])) ↔
        (∀ step ∈ steps, GivesFree step.before step.command) ∧
          GivesShort last.kernel (.mkform (literal ['c']))) := by
  have htest : endsIn (fun _ => true) (([.mkform (literal ['a']),
      .copy (literal ['a', ' ', 'b'])] : List FormCommand).foldlM (fun system command =>
        (system.run .faultless command.code).map Prod.snd) bootSystem) = true := by
    decide +kernel
  obtain ⟨steps, last, hrun, -, hcommands⟩ := exists_namingRun htest
  have hempty : WellNamed (formNames bootSystem.kernel) := wellNamed_nil
  exact ⟨steps, last, hrun, hcommands, namingRun_named_iff hempty hrun _⟩

end Runs

end HexaOS.Shell
