/-!
# Programs over a device, their runs and their proof rules

A program is a tree of typed device operations with a continuation for every
reply. A handler gives the operations a meaning on a device state, so one
program text runs on several devices. Code adds a private memory. The total
weakest precondition is compositional, and a simulation between two handlers
carries every run of the abstract device over to the concrete one.
-/

namespace HexaOS.DevicePrograms

/-- Why a run yields no result. -/
inductive Stop where
  /-- A loop whose variables repeat, so it never ends. -/
  | hang
  /-- An access outside the object it indexes. -/
  | fault
  deriving DecidableEq, Repr

/-- Operations of a device, with a continuation for every possible reply. -/
inductive Program (Op : Type) (Reply : Op → Type) (α : Type) : Type where
  /-- The program has returned. -/
  | done (value : α)
  /-- One device operation, then the rest. -/
  | call (op : Op) (next : Reply op → Program Op Reply α)
  /-- The program never returns a result. -/
  | halt (stop : Stop)

/-- A handler executes one operation on the device state. A device may refuse
an operation outright, which stops the run. -/
abbrev Handler (Op : Type) (Reply : Op → Type) (Dev : Type) : Type :=
  (op : Op) → Dev → Except Stop (Reply op × Dev)

variable {Op : Type} {Reply : Op → Type} {Mem Dev α β : Type}

namespace Program

/-- Sequential composition of program trees. -/
def bind : Program Op Reply α → (α → Program Op Reply β) → Program Op Reply β
  | done value, rest => rest value
  | call op next, rest => call op fun reply => (next reply).bind rest
  | halt stop, _ => halt stop

/-- Execute a program tree with a handler. -/
def run (handler : Handler Op Reply Dev) : Program Op Reply α → Dev → Except Stop (α × Dev)
  | done value, dev => .ok (value, dev)
  | call op next, dev =>
    match handler op dev with
    | .error stop => .error stop
    | .ok (reply, dev') => (next reply).run handler dev'
  | halt stop, _ => .error stop

/-- A sequence runs its second part from where the first one stopped. -/
theorem run_bind (handler : Handler Op Reply Dev) (program : Program Op Reply α)
    (rest : α → Program Op Reply β) (dev : Dev) :
    (program.bind rest).run handler dev =
      (program.run handler dev).bind fun result => (rest result.1).run handler result.2 := by
  induction program generalizing dev with
  | done value => rfl
  | call op next ih =>
    simp only [bind, run]
    cases handler op dev with
    | error stop => rfl
    | ok reply => exact ih reply.1 reply.2
  | halt stop => rfl

/-- When every reply of the abstract handler is matched by the concrete one
under `Rel`, each abstract run is matched by a concrete run with the same
result. The induction is on the program tree. -/
theorem run_simulates {Dev' : Type} {handler : Handler Op Reply Dev}
    {abstract : Handler Op Reply Dev'} {Rel : Dev → Dev' → Prop}
    (hstep : ∀ op dev spec reply spec', Rel dev spec → abstract op spec = .ok (reply, spec') →
      ∃ dev', handler op dev = .ok (reply, dev') ∧ Rel dev' spec')
    (program : Program Op Reply α) {dev : Dev} {spec spec' : Dev'} {value : α}
    (hrel : Rel dev spec) (hrun : program.run abstract spec = .ok (value, spec')) :
    ∃ dev', program.run handler dev = .ok (value, dev') ∧ Rel dev' spec' := by
  induction program generalizing dev spec with
  | done result =>
    simp only [run, Except.ok.injEq, Prod.mk.injEq] at hrun
    obtain ⟨rfl, rfl⟩ := hrun
    exact ⟨dev, rfl, hrel⟩
  | call op next ih =>
    simp only [run] at hrun
    cases hop : abstract op spec with
    | error stop => rw [hop] at hrun; cases hrun
    | ok result =>
      obtain ⟨reply, mid⟩ := result
      rw [hop] at hrun
      obtain ⟨dev', hdev, hrel'⟩ := hstep op dev spec reply mid hrel hop
      obtain ⟨last, hlast, hend⟩ := ih reply hrel' hrun
      exact ⟨last, by simp only [run, hdev, hlast], hend⟩
  | halt stop => cases hrun

/-- What every operation preserves, a run preserves. -/
theorem run_preserves {handler : Handler Op Reply Dev} {Inv : Dev → Prop}
    (hstep : ∀ op dev reply dev', Inv dev → handler op dev = .ok (reply, dev') → Inv dev')
    (program : Program Op Reply α) {dev dev' : Dev} {value : α} (hinv : Inv dev)
    (hrun : program.run handler dev = .ok (value, dev')) : Inv dev' := by
  induction program generalizing dev with
  | done result =>
    simp only [run, Except.ok.injEq, Prod.mk.injEq] at hrun
    exact hrun.2 ▸ hinv
  | call op next ih =>
    simp only [run] at hrun
    cases hop : handler op dev with
    | error stop => rw [hop] at hrun; cases hrun
    | ok result =>
      rw [hop] at hrun
      exact ih result.1 (hstep op dev result.1 result.2 hinv hop) hrun
  | halt stop => cases hrun

/-- Handlers that agree on an invariant of the first one run the same. -/
theorem run_congr_of_inv {handler handler' : Handler Op Reply Dev} {Inv : Dev → Prop}
    (hsame : ∀ op dev, Inv dev → handler' op dev = handler op dev)
    (hkeep : ∀ op dev reply dev', Inv dev → handler op dev = .ok (reply, dev') → Inv dev')
    (program : Program Op Reply α) {dev : Dev} (hinv : Inv dev) :
    program.run handler' dev = program.run handler dev := by
  induction program generalizing dev with
  | done value => rfl
  | call op next ih =>
    simp only [run, hsame op dev hinv]
    cases hop : handler op dev with
    | error stop => rfl
    | ok result => exact ih result.1 (hkeep op dev result.1 result.2 hinv hop)
  | halt stop => rfl

/-- An abstract device that leaves choices to an environment. When every step of the concrete
device is a step of the abstract one for some choice that decides nothing about later steps,
every concrete run is an abstract run for some environment. -/
theorem run_chooses {Env Dev' : Type} {handler : Handler Op Reply Dev}
    {abstract : Env → Handler Op Reply Dev'} {Rel : Dev → Dev' → Prop} {Good : Env → Prop}
    (hstep : ∀ op dev spec, Rel dev spec → ∃ reply dev' spec',
      handler op dev = .ok (reply, dev') ∧ Rel dev' spec' ∧ ∀ later, Good later →
        ∃ env, Good env ∧ abstract env op spec = .ok (reply, spec') ∧
          ∀ rest : Program Op Reply α, rest.run (abstract env) spec' =
            rest.run (abstract later) spec')
    {later : Env} (hgood : Good later) (program : Program Op Reply α) {dev : Dev} {spec : Dev'}
    (hrel : Rel dev spec) : ∃ env, Good env ∧
      ((∃ value dev' spec', program.run handler dev = .ok (value, dev') ∧
        program.run (abstract env) spec = .ok (value, spec') ∧ Rel dev' spec') ∨
      ∃ stop, program.run handler dev = .error stop ∧
        program.run (abstract env) spec = .error stop) := by
  induction program generalizing dev spec with
  | done value => exact ⟨later, hgood, .inl ⟨value, dev, spec, rfl, rfl, hrel⟩⟩
  | call op next ih =>
    obtain ⟨reply, dev', spec', hdev, hrel', hchoose⟩ := hstep op dev spec hrel
    obtain ⟨future, hfuture, hrest⟩ := ih reply hrel'
    obtain ⟨env, henv, hop, hlater⟩ := hchoose future hfuture
    refine ⟨env, henv, ?_⟩
    simp only [run, hdev, hop, hlater]
    exact hrest
  | halt stop => exact ⟨later, hgood, .inr ⟨stop, rfl, rfl⟩⟩

/-- Sequences may be regrouped. -/
theorem bind_assoc {γ : Type} (program : Program Op Reply α) (rest : α → Program Op Reply β)
    (last : β → Program Op Reply γ) :
    (program.bind rest).bind last = program.bind fun value => (rest value).bind last := by
  induction program with
  | done value => rfl
  | call op next ih => simp only [bind, ih]
  | halt stop => rfl

/-- Returning the result of a program changes nothing. -/
theorem bind_done (program : Program Op Reply α) : program.bind done = program := by
  induction program with
  | done value => rfl
  | call op next ih => simp only [bind, ih]
  | halt stop => rfl

/-- Whatever the device replies, a result satisfies `post`. -/
def Ensures (post : α → Prop) : Program Op Reply α → Prop
  | done value => post value
  | call _ next => ∀ reply, (next reply).Ensures post
  | halt _ => True

/-- A sequence ensures what its second part ensures on every result of the first. -/
theorem ensures_bind {post : β → Prop} (program : Program Op Reply α)
    (rest : α → Program Op Reply β) :
    (program.bind rest).Ensures post ↔ program.Ensures fun value => (rest value).Ensures post := by
  induction program with
  | done value => rfl
  | call op next ih => exact forall_congr' ih
  | halt stop => rfl

/-- A weaker postcondition is easier to ensure. -/
theorem Ensures.mono {post post' : α → Prop} (himp : ∀ value, post value → post' value) :
    {program : Program Op Reply α} → program.Ensures post → program.Ensures post'
  | done value, h => himp value h
  | call _ _, h => fun reply => (h reply).mono himp
  | halt _, _ => trivial

/-- What is ensured separately is ensured together. -/
theorem Ensures.and {post post' : α → Prop} {program : Program Op Reply α}
    (h : program.Ensures post) (h' : program.Ensures post') :
    program.Ensures fun value => post value ∧ post' value := by
  induction program with
  | done value => exact ⟨h, h'⟩
  | call op next ih => exact fun reply => ih reply (h reply) (h' reply)
  | halt stop => exact trivial

/-- What holds of every value is ensured. -/
theorem ensures_of_forall {post : α → Prop} (h : ∀ value, post value) :
    (program : Program Op Reply α) → program.Ensures post
  | done value => h value
  | call _ next => fun reply => ensures_of_forall h (next reply)
  | halt _ => trivial

/-- A run returns what is ensured. -/
theorem Ensures.of_run {handler : Handler Op Reply Dev} {post : α → Prop}
    {program : Program Op Reply α} {dev dev' : Dev} {value : α} (h : program.Ensures post)
    (hrun : program.run handler dev = .ok (value, dev')) : post value := by
  induction program generalizing dev with
  | done result =>
    simp only [run, Except.ok.injEq, Prod.mk.injEq] at hrun
    have hpost : post result := h
    rwa [hrun.1] at hpost
  | call op next ih =>
    simp only [run] at hrun
    cases hop : handler op dev with
    | error stop => rw [hop] at hrun; cases hrun
    | ok result =>
      rw [hop] at hrun
      exact ih result.1 (h result.1) hrun
  | halt stop => cases hrun

section Uses

variable {allowed : Op → Prop} {program : Program Op Reply α}

/-- Every operation that the program can come to is allowed. -/
def Uses (allowed : Op → Prop) : Program Op Reply α → Prop
  | done _ => True
  | call op next => allowed op ∧ ∀ reply, (next reply).Uses allowed
  | halt _ => True

theorem Uses.bind {rest : α → Program Op Reply β} (h : program.Uses allowed)
    (hrest : ∀ value, (rest value).Uses allowed) : (program.bind rest).Uses allowed := by
  induction program with
  | done value => exact hrest value
  | call op next ih => exact ⟨h.1, fun reply => ih reply (h.2 reply)⟩
  | halt stop => trivial

/-- Two handlers that agree on the allowed operations run the program alike. -/
theorem Uses.run_congr {handler handler' : Handler Op Reply Dev} (h : program.Uses allowed)
    (hsame : ∀ op dev, allowed op → handler op dev = handler' op dev) (dev : Dev) :
    program.run handler dev = program.run handler' dev := by
  induction program generalizing dev with
  | done value => rfl
  | call op next ih =>
    simp only [run, hsame op dev h.1]
    cases handler' op dev with
    | error stop => rfl
    | ok result => exact ih result.1 (h.2 result.1) result.2
  | halt stop => rfl

/-- What the allowed operations preserve, a run of the program preserves. -/
theorem Uses.run_preserves {handler : Handler Op Reply Dev} {Inv : Dev → Prop}
    (h : program.Uses allowed)
    (hstep : ∀ op dev reply dev', allowed op → Inv dev → handler op dev = .ok (reply, dev') →
      Inv dev') {dev dev' : Dev} {value : α} (hinv : Inv dev)
    (hrun : program.run handler dev = .ok (value, dev')) : Inv dev' := by
  induction program generalizing dev with
  | done result =>
    simp only [run, Except.ok.injEq, Prod.mk.injEq] at hrun
    exact hrun.2 ▸ hinv
  | call op next ih =>
    simp only [run] at hrun
    cases hop : handler op dev with
    | error stop => rw [hop] at hrun; cases hrun
    | ok result =>
      rw [hop] at hrun
      exact ih result.1 (h.2 result.1) (hstep op dev result.1 result.2 h.1 hinv hop) hrun
  | halt stop => cases hrun

end Uses

end Program

/-- Code with a private memory of type `Mem` that issues device operations. -/
def Code (Mem Op : Type) (Reply : Op → Type) (α : Type) : Type :=
  Mem → Program Op Reply (α × Mem)

namespace Code

instance : Monad (Code Mem Op Reply) where
  pure value := fun mem => .done (value, mem)
  bind code rest := fun mem => (code mem).bind fun result => rest result.1 result.2

instance : LawfulMonad (Code Mem Op Reply) :=
  .mk' _ (fun code => funext fun mem => Program.bind_done (code mem)) (fun _ _ => rfl)
    fun code rest last => funext fun mem => Program.bind_assoc (code mem)
      (fun result => rest result.1 result.2) fun result => last result.1 result.2

/-- Read the whole private memory. -/
def memory : Code Mem Op Reply Mem := fun mem => .done (mem, mem)

/-- Update the private memory. -/
def modify (update : Mem → Mem) : Code Mem Op Reply Unit := fun mem => .done ((), update mem)

/-- Issue one device operation. -/
def request (op : Op) : Code Mem Op Reply (Reply op) :=
  fun mem => .call op fun reply => .done (reply, mem)

/-- Stop without a result. -/
def halt (stop : Stop) : Code Mem Op Reply α := fun _ => .halt stop

/-- Run code from a memory and a device state. -/
def exec (handler : Handler Op Reply Dev) (code : Code Mem Op Reply α) (mem : Mem) (dev : Dev) :
    Except Stop ((α × Mem) × Dev) :=
  (code mem).run handler dev

/-- A sequence runs its second part from where the first one stopped. -/
theorem exec_bind (handler : Handler Op Reply Dev) (code : Code Mem Op Reply α)
    (rest : α → Code Mem Op Reply β) (mem : Mem) (dev : Dev) :
    (code >>= rest).exec handler mem dev =
      (code.exec handler mem dev).bind fun result =>
        (rest result.1.1).exec handler result.1.2 result.2 :=
  Program.run_bind handler (code mem) (fun result => rest result.1 result.2) dev

/-- Total weakest precondition: the run returns, and its result satisfies `post`. -/
def wp (handler : Handler Op Reply Dev) (code : Code Mem Op Reply α) (mem : Mem) (dev : Dev)
    (post : α → Mem → Dev → Prop) : Prop :=
  ∃ value mem' dev', code.exec handler mem dev = .ok ((value, mem'), dev') ∧ post value mem' dev'

variable {handler : Handler Op Reply Dev} {mem : Mem} {dev : Dev}

/-- A weaker postcondition is easier to establish. -/
theorem wp_mono {code : Code Mem Op Reply α} {post post' : α → Mem → Dev → Prop}
    (h : code.wp handler mem dev post)
    (himp : ∀ value mem' dev', post value mem' dev' → post' value mem' dev') :
    code.wp handler mem dev post' := by
  obtain ⟨value, mem', dev', hrun, hpost⟩ := h
  exact ⟨value, mem', dev', hrun, himp _ _ _ hpost⟩

/-- Runs are deterministic, so two established postconditions hold together. -/
theorem wp_and {code : Code Mem Op Reply α} {post post' : α → Mem → Dev → Prop}
    (h : code.wp handler mem dev post) (h' : code.wp handler mem dev post') :
    code.wp handler mem dev fun value mem' dev' => post value mem' dev' ∧ post' value mem' dev' := by
  obtain ⟨value, mem', dev', hrun, hpost⟩ := h
  obtain ⟨value₂, mem₂, dev₂, hrun₂, hpost₂⟩ := h'
  rw [hrun] at hrun₂
  simp only [Except.ok.injEq, Prod.mk.injEq] at hrun₂
  obtain ⟨⟨rfl, rfl⟩, rfl⟩ := hrun₂
  exact ⟨value, mem', dev', hrun, hpost, hpost₂⟩

/-- What a run is known to return satisfies every established postcondition. -/
theorem wp_of_exec {code : Code Mem Op Reply α} {post : α → Mem → Dev → Prop}
    (h : code.wp handler mem dev post) {value : α} {mem' : Mem} {dev' : Dev}
    (hrun : code.exec handler mem dev = .ok ((value, mem'), dev')) : post value mem' dev' := by
  obtain ⟨value₂, mem₂, dev₂, hrun₂, hpost⟩ := h
  rw [hrun] at hrun₂
  simp only [Except.ok.injEq, Prod.mk.injEq] at hrun₂
  obtain ⟨⟨rfl, rfl⟩, rfl⟩ := hrun₂
  exact hpost

@[simp] theorem wp_pure (value : α) (post : α → Mem → Dev → Prop) :
    (pure value : Code Mem Op Reply α).wp handler mem dev post ↔ post value mem dev := by
  constructor
  · rintro ⟨result, mem', dev', hrun, hpost⟩
    cases hrun
    exact hpost
  · intro hpost
    exact ⟨value, mem, dev, rfl, hpost⟩

@[simp] theorem wp_bind (code : Code Mem Op Reply α) (rest : α → Code Mem Op Reply β)
    (post : β → Mem → Dev → Prop) :
    (code >>= rest).wp handler mem dev post ↔
      code.wp handler mem dev fun value mem' dev' => (rest value).wp handler mem' dev' post := by
  have hbind := exec_bind handler code rest mem dev
  constructor
  · rintro ⟨value, mem', dev', hrun, hpost⟩
    rw [hbind] at hrun
    cases hcode : code.exec handler mem dev with
    | error stop => rw [hcode] at hrun; cases hrun
    | ok result =>
      rw [hcode] at hrun
      exact ⟨result.1.1, result.1.2, result.2, hcode, value, mem', dev', hrun, hpost⟩
  · rintro ⟨value, mem', dev', hrun, last, mem₂, dev₂, hrest, hpost⟩
    exact ⟨last, mem₂, dev₂, by rw [hbind, hrun]; exact hrest, hpost⟩

@[simp] theorem wp_memory (post : Mem → Mem → Dev → Prop) :
    (memory : Code Mem Op Reply Mem).wp handler mem dev post ↔ post mem mem dev := by
  constructor
  · rintro ⟨result, mem', dev', hrun, hpost⟩
    cases hrun
    exact hpost
  · intro hpost
    exact ⟨mem, mem, dev, rfl, hpost⟩

@[simp] theorem wp_modify (update : Mem → Mem) (post : Unit → Mem → Dev → Prop) :
    (modify update : Code Mem Op Reply Unit).wp handler mem dev post ↔
      post () (update mem) dev := by
  constructor
  · rintro ⟨result, mem', dev', hrun, hpost⟩
    cases hrun
    exact hpost
  · intro hpost
    exact ⟨(), update mem, dev, rfl, hpost⟩

/-- One operation: the handler must accept it, whatever it replies. -/
theorem wp_request {op : Op} {post : Reply op → Mem → Dev → Prop} {reply : Reply op} {dev' : Dev}
    (hop : handler op dev = .ok (reply, dev')) (hpost : post reply mem dev') :
    (request op : Code Mem Op Reply (Reply op)).wp handler mem dev post :=
  ⟨reply, mem, dev', by simp only [exec, request, Program.run, hop], hpost⟩

/-- A simulation between handlers transports total correctness downwards. -/
theorem wp_simulates {Dev' : Type} {abstract : Handler Op Reply Dev'} {Rel : Dev → Dev' → Prop}
    (hstep : ∀ op dev spec reply spec', Rel dev spec → abstract op spec = .ok (reply, spec') →
      ∃ dev', handler op dev = .ok (reply, dev') ∧ Rel dev' spec')
    {code : Code Mem Op Reply α} {spec : Dev'} {post : α → Mem → Dev' → Prop}
    (hrel : Rel dev spec) (h : code.wp abstract mem spec post) :
    code.wp handler mem dev fun value mem' dev' =>
      ∃ spec', Rel dev' spec' ∧ post value mem' spec' := by
  obtain ⟨value, mem', spec', hrun, hpost⟩ := h
  obtain ⟨dev', hdev, hrel'⟩ := Program.run_simulates hstep (code mem) hrel hrun
  exact ⟨value, mem', dev', hdev, spec', hrel', hpost⟩

/-- Whatever the device replies, a result and the memory it leaves satisfy `post`. -/
def Ensures (code : Code Mem Op Reply α) (mem : Mem) (post : α → Mem → Prop) : Prop :=
  (code mem).Ensures fun result => post result.1 result.2

/-- A weaker postcondition is easier to ensure. -/
theorem Ensures.mono {code : Code Mem Op Reply α} {post post' : α → Mem → Prop}
    (h : code.Ensures mem post) (himp : ∀ value mem', post value mem' → post' value mem') :
    code.Ensures mem post' := by
  have hleaves : (code mem).Ensures fun result => post result.1 result.2 := h
  exact Program.Ensures.mono (fun result : α × Mem => himp result.1 result.2) hleaves

/-- What is ensured separately is ensured together. -/
theorem Ensures.and {code : Code Mem Op Reply α} {post post' : α → Mem → Prop}
    (h : code.Ensures mem post) (h' : code.Ensures mem post') :
    code.Ensures mem fun value mem' => post value mem' ∧ post' value mem' :=
  Program.Ensures.and h h'

/-- A result with a property that every last part of a sequence gives it. -/
theorem ensures_bind_of_forall (code : Code Mem Op Reply α) {rest : α → Code Mem Op Reply β}
    {post : β → Mem → Prop} (h : ∀ value mem', (rest value).Ensures mem' post) :
    (code >>= rest).Ensures mem post :=
  (Program.ensures_bind (code mem) fun result => rest result.1 result.2).mpr
    (Program.ensures_of_forall (fun result : α × Mem => h result.1 result.2) (code mem))

/-- A run returns what is ensured. -/
theorem Ensures.of_exec {code : Code Mem Op Reply α} {post : α → Mem → Prop}
    (h : code.Ensures mem post) {value : α} {mem' : Mem} {dev' : Dev}
    (hrun : code.exec handler mem dev = .ok ((value, mem'), dev')) : post value mem' := by
  have hleaves : (code mem).Ensures fun result => post result.1 result.2 := h
  exact hleaves.of_run hrun

@[simp] theorem ensures_pure (value : α) (post : α → Mem → Prop) :
    (pure value : Code Mem Op Reply α).Ensures mem post ↔ post value mem := Iff.rfl

@[simp] theorem ensures_bind (code : Code Mem Op Reply α) (rest : α → Code Mem Op Reply β)
    (post : β → Mem → Prop) :
    (code >>= rest).Ensures mem post ↔
      code.Ensures mem fun value mem' => (rest value).Ensures mem' post :=
  Program.ensures_bind (code mem) fun result => rest result.1 result.2

@[simp] theorem ensures_memory (post : Mem → Mem → Prop) :
    (memory : Code Mem Op Reply Mem).Ensures mem post ↔ post mem mem := Iff.rfl

@[simp] theorem ensures_modify (update : Mem → Mem) (post : Unit → Mem → Prop) :
    (modify update : Code Mem Op Reply Unit).Ensures mem post ↔ post () (update mem) := Iff.rfl

@[simp] theorem ensures_request (op : Op) (post : Reply op → Mem → Prop) :
    (request op : Code Mem Op Reply (Reply op)).Ensures mem post ↔ ∀ reply, post reply mem :=
  Iff.rfl

@[simp] theorem ensures_halt (stop : Stop) (post : α → Mem → Prop) :
    (halt stop : Code Mem Op Reply α).Ensures mem post ↔ True := Iff.rfl

section Keeps

variable {σ : Type} {view : Mem → σ} {code : Code Mem Op Reply α}

/-- Code that never changes a part of the memory, whatever the device replies. -/
def Keeps (view : Mem → σ) (code : Code Mem Op Reply α) : Prop :=
  ∀ mem, code.Ensures mem fun _ mem' => view mem' = view mem

theorem keeps_pure (value : α) : (pure value : Code Mem Op Reply α).Keeps view := fun _ => rfl

theorem keeps_halt (stop : Stop) : (halt stop : Code Mem Op Reply α).Keeps view := fun _ => trivial

theorem keeps_memory : (memory : Code Mem Op Reply Mem).Keeps view := fun _ => rfl

theorem keeps_request (op : Op) : (request op : Code Mem Op Reply (Reply op)).Keeps view :=
  fun _ _ => rfl

theorem keeps_modify {update : Mem → Mem} (h : ∀ mem, view (update mem) = view mem) :
    (modify update : Code Mem Op Reply Unit).Keeps view := h

theorem Keeps.bind {rest : α → Code Mem Op Reply β} (h : code.Keeps view)
    (hrest : ∀ value, (rest value).Keeps view) : (code >>= rest).Keeps view := by
  intro mem
  rw [ensures_bind]
  refine (h mem).mono fun value mem' hkept => ?_
  exact (hrest value mem').mono fun _ _ hkept' => hkept'.trans hkept

/-- What is computed from a kept part is kept. -/
theorem Keeps.comp {τ : Type} (h : code.Keeps view) (f : σ → τ) :
    code.Keeps fun mem => f (view mem) :=
  fun mem => (h mem).mono fun _ _ hkept => congrArg f hkept

/-- Two parts that are kept. -/
theorem Keeps.pair {τ : Type} {view' : Mem → τ} (h : code.Keeps view) (h' : code.Keeps view') :
    code.Keeps fun mem => (view mem, view' mem) :=
  fun mem => ((h mem).and (h' mem)).mono fun _ _ hkept => Prod.ext hkept.1 hkept.2

theorem Keeps.ite {condition : Prop} [Decidable condition] {other : Code Mem Op Reply α}
    (h : code.Keeps view) (hother : other.Keeps view) :
    (if condition then code else other).Keeps view := by
  split
  · exact h
  · exact hother

/-- What the kept part was, it still is behind the code. -/
theorem Keeps.ensures_bind {rest : α → Code Mem Op Reply β} {post : β → Mem → Prop}
    (h : code.Keeps view)
    (hrest : ∀ value mem', view mem' = view mem → (rest value).Ensures mem' post) :
    (code >>= rest).Ensures mem post := by
  rw [Code.ensures_bind]
  exact (h mem).mono hrest

end Keeps

section Uses

variable {allowed : Op → Prop} {code : Code Mem Op Reply α}

/-- From any memory, every operation that the code can come to is allowed. -/
def Uses (allowed : Op → Prop) (code : Code Mem Op Reply α) : Prop :=
  ∀ mem, (code mem).Uses allowed

theorem uses_pure (value : α) : (pure value : Code Mem Op Reply α).Uses allowed := fun _ => trivial

theorem uses_memory : (memory : Code Mem Op Reply Mem).Uses allowed := fun _ => trivial

theorem uses_modify (update : Mem → Mem) : (modify update : Code Mem Op Reply Unit).Uses allowed :=
  fun _ => trivial

theorem uses_request {op : Op} (h : allowed op) :
    (request op : Code Mem Op Reply (Reply op)).Uses allowed := fun _ => ⟨h, fun _ => trivial⟩

theorem Uses.bind {rest : α → Code Mem Op Reply β} (h : code.Uses allowed)
    (hrest : ∀ value, (rest value).Uses allowed) : (code >>= rest).Uses allowed :=
  fun mem => (h mem).bind fun result => hrest result.1 result.2

theorem Uses.ite {condition : Prop} [Decidable condition] {other : Code Mem Op Reply α}
    (h : code.Uses allowed) (hother : other.Uses allowed) :
    (if condition then code else other).Uses allowed := by
  split
  · exact h
  · exact hother

/-- Two handlers that agree on the allowed operations run the code alike. -/
theorem Uses.exec_congr {handler handler' : Handler Op Reply Dev} (h : code.Uses allowed)
    (hsame : ∀ op dev, allowed op → handler op dev = handler' op dev) (mem : Mem) (dev : Dev) :
    code.exec handler mem dev = code.exec handler' mem dev :=
  (h mem).run_congr hsame dev

/-- A postcondition may rely on what the allowed operations preserve. -/
theorem Uses.wp_of_preserved {handler : Handler Op Reply Dev} {Inv : Dev → Prop}
    (h : code.Uses allowed)
    (hstep : ∀ op dev reply dev', allowed op → Inv dev → handler op dev = .ok (reply, dev') →
      Inv dev') {mem : Mem} {dev : Dev} (hinv : Inv dev) {post : α → Mem → Dev → Prop}
    (hwp : code.wp handler mem dev fun value mem' dev' => Inv dev' → post value mem' dev') :
    code.wp handler mem dev post := by
  obtain ⟨value, mem', dev', hrun, hpost⟩ := hwp
  exact ⟨value, mem', dev', hrun, hpost ((h mem).run_preserves hstep hinv hrun)⟩

end Uses

end Code

end HexaOS.DevicePrograms
