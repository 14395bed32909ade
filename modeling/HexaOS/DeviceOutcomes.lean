import HexaOS.DevicePrograms

/-!
# What a run may come to

A run returns or it stops. The outcome of code at a memory and a device state says
what holds when it returns and which stops are allowed. With every stop allowed it
is partial correctness, with none the total weakest precondition; between the two
lies code that may wait forever but never leaves the objects it indexes.
-/

namespace HexaOS.DevicePrograms

variable {Op : Type} {Reply : Op → Type} {Mem Dev α β : Type}

namespace Code

/-- The run returns a result that satisfies `post`, or stops as `stops` allows. -/
def outcome (handler : Handler Op Reply Dev) (stops : Stop → Prop) (code : Code Mem Op Reply α)
    (mem : Mem) (dev : Dev) (post : α → Mem → Dev → Prop) : Prop :=
  match code.exec handler mem dev with
  | .ok result => post result.1.1 result.1.2 result.2
  | .error stop => stops stop

variable {handler : Handler Op Reply Dev} {stops : Stop → Prop} {mem : Mem} {dev : Dev}

@[simp] theorem outcome_pure (value : α) (post : α → Mem → Dev → Prop) :
    (pure value : Code Mem Op Reply α).outcome handler stops mem dev post ↔ post value mem dev :=
  Iff.rfl

@[simp] theorem outcome_memory (post : Mem → Mem → Dev → Prop) :
    (memory : Code Mem Op Reply Mem).outcome handler stops mem dev post ↔ post mem mem dev :=
  Iff.rfl

@[simp] theorem outcome_modify (update : Mem → Mem) (post : Unit → Mem → Dev → Prop) :
    (modify update : Code Mem Op Reply Unit).outcome handler stops mem dev post ↔
      post () (update mem) dev :=
  Iff.rfl

@[simp] theorem outcome_halt (stop : Stop) (post : α → Mem → Dev → Prop) :
    (halt stop : Code Mem Op Reply α).outcome handler stops mem dev post ↔ stops stop :=
  Iff.rfl

/-- One operation that the handler answers. -/
theorem outcome_request {op : Op} {post : Reply op → Mem → Dev → Prop} {reply : Reply op}
    {dev' : Dev} (hop : handler op dev = .ok (reply, dev')) :
    (request op : Code Mem Op Reply (Reply op)).outcome handler stops mem dev post ↔
      post reply mem dev' := by
  rw [outcome, exec, request, Program.run, hop]
  rfl

@[simp] theorem outcome_bind (code : Code Mem Op Reply α) (rest : α → Code Mem Op Reply β)
    (post : β → Mem → Dev → Prop) :
    (code >>= rest).outcome handler stops mem dev post ↔
      code.outcome handler stops mem dev fun value mem' dev' =>
        (rest value).outcome handler stops mem' dev' post := by
  rw [outcome, exec_bind, outcome]
  cases code.exec handler mem dev with
  | error stop => exact Iff.rfl
  | ok result => exact Iff.rfl

/-- A weaker postcondition and more stops are easier to establish. -/
theorem outcome_mono {stops' : Stop → Prop} {code : Code Mem Op Reply α}
    {post post' : α → Mem → Dev → Prop} (h : code.outcome handler stops mem dev post)
    (hstops : ∀ stop, stops stop → stops' stop)
    (himp : ∀ value mem' dev', post value mem' dev' → post' value mem' dev') :
    code.outcome handler stops' mem dev post' := by
  rw [outcome] at h ⊢
  cases hrun : code.exec handler mem dev with
  | error stop =>
    rw [hrun] at h
    exact hstops stop h
  | ok result =>
    rw [hrun] at h
    exact himp _ _ _ h

/-- A weaker postcondition is easier to establish. -/
theorem outcome_imp {code : Code Mem Op Reply α} {post post' : α → Mem → Dev → Prop}
    (h : code.outcome handler stops mem dev post)
    (himp : ∀ value mem' dev', post value mem' dev' → post' value mem' dev') :
    code.outcome handler stops mem dev post' :=
  outcome_mono h (fun _ hstop => hstop) himp

/-- What a run is known to return satisfies the postcondition. -/
theorem outcome_of_exec {code : Code Mem Op Reply α} {post : α → Mem → Dev → Prop}
    (h : code.outcome handler stops mem dev post) {value : α} {mem' : Mem} {dev' : Dev}
    (hrun : code.exec handler mem dev = .ok ((value, mem'), dev')) : post value mem' dev' := by
  rw [outcome, hrun] at h
  exact h

/-- What is known of the results holds beside what is known of the runs. -/
theorem outcome_and {stops' : Stop → Prop} {code : Code Mem Op Reply α}
    {post post' : α → Mem → Dev → Prop} (h : code.outcome handler stops' mem dev post)
    (h' : code.outcome handler stops mem dev post') :
    code.outcome handler stops mem dev fun value mem' dev' =>
      post value mem' dev' ∧ post' value mem' dev' := by
  rw [outcome] at h h' ⊢
  cases hrun : code.exec handler mem dev with
  | error stop =>
    rw [hrun] at h'
    exact h'
  | ok result =>
    rw [hrun] at h h'
    exact ⟨h, h'⟩

/-- A run that stops does so as it is allowed to. -/
theorem outcome_of_stop {code : Code Mem Op Reply α} {post : α → Mem → Dev → Prop}
    (h : code.outcome handler stops mem dev post) {stop : Stop}
    (hrun : code.exec handler mem dev = .error stop) : stops stop := by
  rw [outcome, hrun] at h
  exact h

/-- What code ensures for all replies holds where it returns. -/
theorem Ensures.outcome {code : Code Mem Op Reply α} {post : α → Mem → Prop}
    (h : code.Ensures mem post) :
    code.outcome handler (fun _ => True) mem dev fun value mem' _ => post value mem' := by
  rw [Code.outcome]
  cases hrun : code.exec handler mem dev with
  | error stop => exact trivial
  | ok result => exact h.of_exec hrun

/-- What code ensures for all replies holds beside what else is known of its runs. -/
theorem Ensures.and_outcome {code : Code Mem Op Reply α} {post : α → Mem → Prop}
    {post' : α → Mem → Dev → Prop} (h : code.Ensures mem post)
    (h' : code.outcome handler stops mem dev post') :
    code.outcome handler stops mem dev fun value mem' dev' =>
      post value mem' ∧ post' value mem' dev' :=
  outcome_and h.outcome h'

end Code

end HexaOS.DevicePrograms
