import Mathlib.Data.List.Infix
import HexaOS.Pipes
import HexaOS.StepRuns

/-!
# Typed pipes

The typed pipes of pipe.c: rings of forms whose schema hash is that of their pipe. The test of
the schema comes before the section with interrupts off, but what it reads is never changed
again, so that a call is one step. A history records the calls with their results, and says of
each pipe what was written to it and what it delivered.
-/

namespace HexaOS.Pipes

open HexaOS.RingBuffers HexaOS.StepRuns

/-- PIPE_TYPED_CAPACITY -/
abbrev pipeTypedCapacity : ℕ := 16

/-- typed_pipe_form_t -/
structure TypedForm where
  /-- The schema. -/
  schemaHash : UInt32
  /-- The hash of the data. -/
  dataHash : UInt32
  /-- The bytes of the data. -/
  dataSize : UInt32
  /-- The data. -/
  data : Fin 64 → UInt8

/-- typed_pipe_t. Its positions are always reduced by the size of the ring. -/
structure TypedPipe where
  /-- The schema of its forms. -/
  schemaHash : UInt32
  /-- The task that writes. -/
  producerPid : UInt32
  /-- The task that reads. -/
  consumerPid : UInt32
  /-- The capability. -/
  capToken : UInt32
  /-- The forms. -/
  ring : Fin pipeTypedCapacity → TypedForm
  /-- The place of the next form to write. -/
  head : Fin pipeTypedCapacity
  /-- The place of the next form to read. -/
  tail : Fin pipeTypedCapacity
  /-- Is the pipe in use? -/
  active : Bool

/-- The statics of the typed pipes. -/
structure TypedPipes where
  /-- typed_pipes -/
  pipes : Fin maxPipes → TypedPipe
  /-- typed_pipe_count -/
  count : ℕ
  /-- There are no more pipes than the table has. -/
  count_le : count ≤ maxPipes

/-- A form after memset. -/
def zeroForm : TypedForm := ⟨0, 0, 0, fun _ => 0⟩

/-- Change one pipe. -/
def TypedPipes.setPipe (table : TypedPipes) (i : Fin maxPipes) (pipe : TypedPipe) : TypedPipes :=
  { table with pipes := Function.update table.pipes i pipe }

/-- A pipe as pipe_create_typed makes it. -/
def newTypedPipe (schemaHash producerPid consumerPid capToken : UInt32) : TypedPipe where
  schemaHash := schemaHash
  producerPid := producerPid
  consumerPid := consumerPid
  capToken := capToken
  ring _ := zeroForm
  head := 0
  tail := 0
  active := true

/-- pipe_create_typed -/
def pipeCreateTyped (schemaHash producerPid consumerPid capToken : UInt32) (table : TypedPipes) :
    ℤ × TypedPipes :=
  if h : table.count < maxPipes then
    let pipe := newTypedPipe schemaHash producerPid consumerPid capToken
    (table.count, ⟨Function.update table.pipes ⟨table.count, h⟩ pipe, table.count + 1, h⟩)
  else (-1, table)

/-- The pipe of an id that the calls accept. -/
def typedIndex (id : ℤ) (table : TypedPipes) : Option (Fin maxPipes) :=
  if h : 0 ≤ id ∧ id < table.count then
    some ⟨id.toNat, by have hle := table.count_le; omega⟩
  else none

/-- pipe_typed_write -/
def pipeTypedWrite (id : ℤ) (form : TypedForm) (table : TypedPipes) : ℤ × TypedPipes :=
  match typedIndex id table with
  | none => (-1, table)
  | some i =>
    let pipe := table.pipes i
    if !pipe.active then (-1, table)
    else if form.schemaHash ≠ pipe.schemaHash then (-1, table)
    else
      let next := pipe.head + 1
      if next = pipe.tail then (-1, table)
      else
        let ring := Function.update pipe.ring pipe.head form
        (form.dataSize.toInt32.toInt, table.setPipe i { pipe with ring := ring, head := next })

/-- pipe_typed_read, with the form that it copies to the caller. -/
def pipeTypedRead (id : ℤ) (table : TypedPipes) : ℤ × Option TypedForm × TypedPipes :=
  match typedIndex id table with
  | none => (-1, none, table)
  | some i =>
    let pipe := table.pipes i
    if !pipe.active then (-1, none, table)
    else if pipe.head = pipe.tail then (-1, none, table)
    else
      let form := pipe.ring pipe.tail
      let pipe := { pipe with tail := pipe.tail + 1 }
      (form.dataSize.toInt32.toInt, some form, table.setPipe i pipe)

/-- The calls on the typed pipes. -/
inductive TypedCall where
  | create (schemaHash producerPid consumerPid capToken : UInt32)
  | write (id : ℤ) (form : TypedForm)
  | read (id : ℤ)

/-- The result of a call, the form that it copies to the caller, and the pipes after it. -/
def TypedCall.exec (table : TypedPipes) : TypedCall → ℤ × Option TypedForm × TypedPipes
  | create schemaHash producerPid consumerPid capToken =>
    ((pipeCreateTyped schemaHash producerPid consumerPid capToken table).1, none,
      (pipeCreateTyped schemaHash producerPid consumerPid capToken table).2)
  | write id form => ((pipeTypedWrite id form table).1, none, (pipeTypedWrite id form table).2)
  | read id => pipeTypedRead id table

/-- A call that was made. -/
structure TypedEvent where
  /-- The call. -/
  call : TypedCall
  /-- What it returns. -/
  result : ℤ
  /-- The form that a read delivers. -/
  delivered : Option TypedForm

/-- The form that a call has written to a pipe. -/
def TypedEvent.writtenTo (i : Fin maxPipes) (event : TypedEvent) : Option TypedForm :=
  match event.call with
  | .write id form => if id = i.val ∧ 0 ≤ event.result then some form else none
  | _ => none

/-- The form that a call has read from a pipe. -/
def TypedEvent.readFrom (i : Fin maxPipes) (event : TypedEvent) : Option TypedForm :=
  match event.call with
  | .read id => if id = i.val ∧ 0 ≤ event.result then event.delivered else none
  | _ => none

/-- The pipes and the calls that were made on them. -/
structure TypedHistory where
  /-- The table. -/
  table : TypedPipes
  /-- The calls so far. -/
  events : List TypedEvent

namespace TypedHistory

/-- The history after a call. -/
def after (call : TypedCall) (history : TypedHistory) : TypedHistory where
  table := (call.exec history.table).2.2
  events := history.events ++
    [⟨call, (call.exec history.table).1, (call.exec history.table).2.1⟩]

/-- What was written to a pipe and what it delivered, by the results of the calls. -/
def traffic (history : TypedHistory) (i : Fin maxPipes) : Traffic TypedForm where
  inserted := history.events.filterMap (·.writtenTo i)
  removed := history.events.filterMap (·.readFrom i)

end TypedHistory

/-- The forms that wait in a pipe. -/
def TypedPipe.waiting (pipe : TypedPipe) : Ring pipeTypedCapacity TypedForm :=
  ⟨pipe.ring, pipe.head, pipe.tail⟩

/-- The size of a form that a call can write fits a signed word. -/
def TypedCall.Small : TypedCall → Prop
  | write _ form => form.dataSize < 0x80000000
  | _ => True

/-- What holds of one pipe with its traffic. -/
structure Delivers (table : TypedPipes) (i : Fin maxPipes) (traffic : Traffic TypedForm) :
    Prop where
  /-- The pipe is active. -/
  active : (table.pipes i).active = true
  /-- What was written has been delivered, in the same order, or waits. -/
  fits : traffic.Fits (table.pipes i).waiting
  /-- All forms have the schema of the pipe. -/
  schema : ∀ form ∈ traffic.inserted, form.schemaHash = (table.pipes i).schemaHash
  /-- The sizes of its forms are not negative. -/
  small : ∀ form ∈ traffic.inserted, form.dataSize < 0x80000000

/-- What holds of all pipes with their histories. -/
structure TypedSound (history : TypedHistory) : Prop where
  /-- Each pipe delivers what was written to it. -/
  made : ∀ i : Fin maxPipes, i.val < history.table.count → Delivers history.table i (history.traffic i)
  /-- A pipe that was not made has no traffic. -/
  unmade : ∀ i : Fin maxPipes, history.table.count ≤ i.val → history.traffic i = ⟨[], []⟩

section Calls

variable {table : TypedPipes} {i : Fin maxPipes} {id : ℤ}

@[simp] theorem setPipe_pipes_self (table : TypedPipes) (i : Fin maxPipes) (pipe : TypedPipe) :
    (table.setPipe i pipe).pipes i = pipe :=
  Function.update_self _ _ _

theorem setPipe_pipes_of_ne {j : Fin maxPipes} (h : j ≠ i) (pipe : TypedPipe) :
    (table.setPipe i pipe).pipes j = table.pipes j := Function.update_of_ne h _ _

/-- An id that the calls accept. -/
theorem typedIndex_eq_some (h : typedIndex id table = some i) : id = i.val ∧ i.val < table.count := by
  unfold typedIndex at h
  split_ifs at h with hid
  have hi := congrArg Fin.val (Option.some.inj h)
  have hval : id.toNat = i.val := hi
  omega

theorem typedIndex_of_lt (hi : i.val < table.count) : typedIndex (i.val : ℤ) table = some i := by
  have hid : 0 ≤ (i.val : ℤ) ∧ (i.val : ℤ) < table.count := ⟨Int.natCast_nonneg _, by omega⟩
  rw [typedIndex, dif_pos hid]
  rfl

/-- A pipe with other forms waiting. -/
def TypedPipe.withWaiting (pipe : TypedPipe) (ring : Ring pipeTypedCapacity TypedForm) :
    TypedPipe :=
  { pipe with ring := ring.cells, head := ring.head, tail := ring.tail }

/-- What a call does. -/
inductive TypedOutcome (table : TypedPipes) : TypedCall → ℤ × Option TypedForm × TypedPipes → Prop
  where
  | rejected (call) : TypedOutcome table call (-1, none, table)
  | created (schemaHash producerPid consumerPid capToken) (h : table.count < maxPipes) :
    TypedOutcome table (.create schemaHash producerPid consumerPid capToken)
      (table.count, none, ⟨Function.update table.pipes ⟨table.count, h⟩
        (newTypedPipe schemaHash producerPid consumerPid capToken), table.count + 1, h⟩)
  | written (i : Fin maxPipes) (form) (hi : i.val < table.count)
    (hschema : form.schemaHash = (table.pipes i).schemaHash)
    (hroom : ¬(table.pipes i).waiting.Full) :
    TypedOutcome table (.write i.val form) (form.dataSize.toInt32.toInt, none,
      table.setPipe i ((table.pipes i).withWaiting ((table.pipes i).waiting.push form)))
  | read (i : Fin maxPipes) (hi : i.val < table.count) (hsome : ¬(table.pipes i).waiting.Empty) :
    TypedOutcome table (.read i.val) ((table.pipes i).waiting.front.dataSize.toInt32.toInt,
      some (table.pipes i).waiting.front,
      table.setPipe i ((table.pipes i).withWaiting (table.pipes i).waiting.pop))

/-- One of these is what a call does. -/
theorem TypedCall.outcome (call : TypedCall) (table : TypedPipes) :
    TypedOutcome table call (call.exec table) := by
  cases call with
  | create schemaHash producerPid consumerPid capToken =>
    unfold TypedCall.exec pipeCreateTyped
    dsimp only
    split_ifs with hcount
    · exact .created schemaHash producerPid consumerPid capToken hcount
    · exact .rejected _
  | write id form =>
    unfold TypedCall.exec pipeTypedWrite
    dsimp only
    cases hindex : typedIndex id table with
    | none => exact .rejected _
    | some i =>
      have ⟨hid, hi⟩ := typedIndex_eq_some hindex
      subst hid
      dsimp only
      split_ifs with hactive hschema hfull
      · exact .rejected _
      · exact .rejected _
      · exact .rejected _
      · exact .written i form hi (not_not.mp hschema) hfull
  | read id =>
    unfold TypedCall.exec pipeTypedRead
    dsimp only
    cases hindex : typedIndex id table with
    | none => exact .rejected _
    | some i =>
      have ⟨hid, hi⟩ := typedIndex_eq_some hindex
      subst hid
      dsimp only
      split_ifs with hactive hempty
      · exact .rejected _
      · exact .rejected _
      · exact .read i hi hempty

end Calls

section Histories

variable {history : TypedHistory} {i : Fin maxPipes}

/-- A size below 2^31 is no error. -/
theorem toInt32_nonneg {word : UInt32} (h : word < 0x80000000) : 0 ≤ word.toInt32.toInt := by
  have hlt : word.toNat < 2 ^ 31 := h
  show 0 ≤ word.toBitVec.toInt
  rw [BitVec.toInt_eq_toNat_of_lt (by simpa using by omega)]
  omega

/-- The traffic of a pipe after a call. -/
theorem traffic_after (call : TypedCall) (history : TypedHistory) (i : Fin maxPipes) :
    (history.after call).traffic i =
      let event : TypedEvent := ⟨call, (call.exec history.table).1, (call.exec history.table).2.1⟩
      ⟨(history.traffic i).inserted ++ (event.writtenTo i).toList,
        (history.traffic i).removed ++ (event.readFrom i).toList⟩ := by
  simp only [TypedHistory.traffic, TypedHistory.after, List.filterMap_append]
  congr 2

/-- A pipe and its traffic that a call leaves alone. -/
theorem Delivers.kept {table table' : TypedPipes} {traffic : Traffic TypedForm}
    (h : Delivers table i traffic) (hpipe : table'.pipes i = table.pipes i) :
    Delivers table' i traffic := by
  refine ⟨?_, ?_, ?_, h.small⟩
  · rw [hpipe]
    exact h.active
  · rw [hpipe]
    exact h.fits
  · rw [hpipe]
    exact h.schema

/-- A form that waits was written. -/
theorem Delivers.mem_of_waiting {table : TypedPipes} {traffic : Traffic TypedForm}
    (h : Delivers table i traffic) {form : TypedForm}
    (hform : form ∈ (table.pipes i).waiting.contents) : form ∈ traffic.inserted := by
  rw [← h.fits]
  exact List.mem_append_right _ hform

/-- A pipe that was just made. -/
theorem delivers_new {table : TypedPipes} {schemaHash producerPid consumerPid capToken : UInt32}
    (hpipe : table.pipes i = newTypedPipe schemaHash producerPid consumerPid capToken) :
    Delivers table i ⟨[], []⟩ := by
  refine ⟨?_, Traffic.fits_start ?_, fun _ hform => ?_, fun _ hform => ?_⟩
  · rw [hpipe]
    rfl
  · rw [hpipe]
    rfl
  · exact absurd hform List.not_mem_nil
  · exact absurd hform List.not_mem_nil

/-- A form comes into a pipe. -/
theorem Delivers.written {table : TypedPipes} {traffic : Traffic TypedForm}
    (h : Delivers table i traffic) {form : TypedForm} (hsmall : form.dataSize < 0x80000000)
    (hschema : form.schemaHash = (table.pipes i).schemaHash)
    (hroom : ¬(table.pipes i).waiting.Full) :
    Delivers (table.setPipe i ((table.pipes i).withWaiting ((table.pipes i).waiting.push form))) i
      (traffic.insert form) := by
  have hpipe := setPipe_pipes_self table i
    ((table.pipes i).withWaiting ((table.pipes i).waiting.push form))
  have hforms : ∀ other ∈ (traffic.insert form).inserted,
      other ∈ traffic.inserted ∨ other = form := by
    intro other hother
    rcases List.mem_append.mp hother with hold | hnew
    · exact .inl hold
    · exact .inr (List.mem_singleton.mp hnew)
  refine ⟨?_, ?_, fun other hother => ?_, fun other hother => ?_⟩
  · rw [hpipe]
    exact h.active
  · rw [hpipe]
    exact h.fits.push form hroom
  · rw [hpipe]
    rcases hforms other hother with hold | rfl
    · exact h.schema other hold
    · exact hschema
  · rcases hforms other hother with hold | rfl
    · exact h.small other hold
    · exact hsmall

/-- A form goes out of a pipe. -/
theorem Delivers.read {table : TypedPipes} {traffic : Traffic TypedForm}
    (h : Delivers table i traffic) (hsome : ¬(table.pipes i).waiting.Empty) :
    Delivers (table.setPipe i ((table.pipes i).withWaiting (table.pipes i).waiting.pop)) i
      (traffic.remove (table.pipes i).waiting.front) := by
  have hpipe := setPipe_pipes_self table i
    ((table.pipes i).withWaiting (table.pipes i).waiting.pop)
  refine ⟨?_, ?_, ?_, h.small⟩
  · rw [hpipe]
    exact h.active
  · rw [hpipe]
    exact h.fits.pop hsome
  · rw [hpipe]
    exact h.schema

/-- A call that works on one pipe keeps the law of the others. -/
theorem TypedSound.update (h : TypedSound history) {history' : TypedHistory} {j : Fin maxPipes}
    {pipe : TypedPipe} (hj : j.val < history.table.count)
    (htable : history'.table = history.table.setPipe j pipe)
    (hother : ∀ i, i ≠ j → history'.traffic i = history.traffic i)
    (hself : Delivers (history.table.setPipe j pipe) j (history'.traffic j)) :
    TypedSound history' := by
  refine ⟨fun i hi => ?_, fun i hi => ?_⟩
  · rw [htable] at hi ⊢
    by_cases hi' : i = j
    · rw [hi']
      exact hself
    · rw [hother i hi']
      exact (h.made i hi).kept (setPipe_pipes_of_ne hi' _)
  · rw [htable] at hi
    have hbeyond : history.table.count ≤ i.val := hi
    have hne : i ≠ j := fun heq => by rw [heq] at hbeyond; omega
    rw [hother i hne, h.unmade i hbeyond]

/-- A new pipe begins without traffic. -/
theorem TypedSound.create (h : TypedSound history) {history' : TypedHistory} {pipe : TypedPipe}
    (hroom : history.table.count < maxPipes)
    (hpipes : history'.table.pipes =
      Function.update history.table.pipes ⟨history.table.count, hroom⟩ pipe)
    (hcount : history'.table.count = history.table.count + 1)
    (hkept : ∀ i, history'.traffic i = history.traffic i)
    (hnew : ∀ i, history'.table.pipes i = pipe → Delivers history'.table i ⟨[], []⟩) :
    TypedSound history' := by
  refine ⟨fun i hi => ?_, fun i hi => ?_⟩
  · rw [hkept i]
    by_cases hi' : i = ⟨history.table.count, hroom⟩
    · have hempty := h.unmade i (by rw [hi'])
      rw [hempty]
      refine hnew i ?_
      rw [hpipes, hi', Function.update_self]
    · have hold : i.val < history.table.count := by
        have hne : i.val ≠ history.table.count := fun heq => hi' (Fin.ext heq)
        omega
      refine (h.made i hold).kept ?_
      rw [hpipes, Function.update_of_ne hi']
  · rw [hkept i, h.unmade i (by omega)]

/-- Calls keep the law of the pipes. -/
theorem TypedSound.after (h : TypedSound history) {call : TypedCall} (hsmall : call.Small) :
    TypedSound (history.after call) := by
  have htraffic := traffic_after call history
  have houtcome := call.outcome history.table
  have htable : (history.after call).table = (call.exec history.table).2.2 := rfl
  generalize call.exec history.table = result at houtcome htraffic htable
  cases houtcome with
  | rejected =>
    have hkept : ∀ i, (history.after call).traffic i = history.traffic i := by
      intro i
      rw [htraffic i]
      cases call <;> simp [TypedEvent.writtenTo, TypedEvent.readFrom]
    refine ⟨fun i hi => ?_, fun i hi => ?_⟩
    · rw [hkept i, htable]
      rw [htable] at hi
      exact h.made i hi
    · rw [htable] at hi
      rw [hkept i, h.unmade i hi]
  | created schemaHash producerPid consumerPid capToken hroom =>
    refine h.create hroom (by rw [htable]) (by rw [htable]) (fun i => ?_) fun i => delivers_new
    rw [htraffic i]
    simp [TypedEvent.writtenTo, TypedEvent.readFrom]
  | written j form hj hschema hroom =>
    have hresult : 0 ≤ form.dataSize.toInt32.toInt := toInt32_nonneg hsmall
    refine h.update hj htable (fun i hne => ?_) ?_
    · have hval : ¬((j.val : ℤ) = i.val) := fun heq => hne (Fin.ext (by omega))
      rw [htraffic i]
      simp [TypedEvent.writtenTo, TypedEvent.readFrom, hval]
    · have hself : (history.after (.write j.val form)).traffic j =
          (history.traffic j).insert form := by
        rw [htraffic j]
        simp [TypedEvent.writtenTo, TypedEvent.readFrom, hresult, Traffic.insert]
      rw [hself]
      exact (h.made j hj).written hsmall hschema hroom
  | read j hj hsome =>
    have hdelivers := h.made j hj
    have hfront : (history.table.pipes j).waiting.front ∈
        (history.table.pipes j).waiting.contents := by
      rw [Ring.contents_pop hsome]
      exact List.mem_cons_self
    -- The oldest form was written, so that its size is no error either.
    have hresult : 0 ≤ (history.table.pipes j).waiting.front.dataSize.toInt32.toInt :=
      toInt32_nonneg (hdelivers.small _ (hdelivers.mem_of_waiting hfront))
    refine h.update hj htable (fun i hne => ?_) ?_
    · have hval : ¬((j.val : ℤ) = i.val) := fun heq => hne (Fin.ext (by omega))
      rw [htraffic i]
      simp [TypedEvent.writtenTo, TypedEvent.readFrom, hval]
    · have hself : (history.after (.read j.val)).traffic j =
          (history.traffic j).remove (history.table.pipes j).waiting.front := by
        rw [htraffic j]
        simp [TypedEvent.writtenTo, TypedEvent.readFrom, hresult, Traffic.remove]
      rw [hself]
      exact hdelivers.read hsome

/-- The law of the typed pipes: every pipe has delivered what was written to it, once each and in
the same order, but for at most 15 forms that wait, and all forms delivered have its schema. -/
def TypedLaw (history : TypedHistory) : Prop :=
  ∀ i : Fin maxPipes, i.val < history.table.count →
    (history.traffic i).removed ++ (history.table.pipes i).waiting.contents =
        (history.traffic i).inserted ∧
      (history.table.pipes i).waiting.contents.length ≤ 15 ∧
      ∀ form ∈ (history.traffic i).removed,
        form.schemaHash = (history.table.pipes i).schemaHash

/-- A call that is rejected changes no pipe and delivers nothing. -/
def TypedRejects (call : TypedCall) (history : TypedHistory) : Prop :=
  (call.exec history.table).1 < 0 →
    (call.exec history.table).2.1 = none ∧ (call.exec history.table).2.2 = history.table

/-- A call that returns -1, delivers nothing and changes no pipe. -/
structure TypedRejected (call : TypedCall) (table : TypedPipes) : Prop where
  /-- The call returns -1. -/
  result : (call.exec table).1 = -1
  /-- It delivers nothing. -/
  delivered : (call.exec table).2.1 = none
  /-- The table stays. -/
  table : (call.exec table).2.2 = table

/-- A call changes what waits in one pipe. -/
structure TypedMoves (i : Fin maxPipes) (forms : List TypedForm) (table table' : TypedPipes) :
    Prop where
  /-- No pipe is made. -/
  count : table'.count = table.count
  /-- The schema stays. -/
  schema : (table'.pipes i).schemaHash = (table.pipes i).schemaHash
  /-- The forms that wait. -/
  waiting : (table'.pipes i).waiting.contents = forms
  /-- The other pipes stay. -/
  other : ∀ j ≠ i, table'.pipes j = table.pipes j

/-- The pipe takes the form: it was made, has the schema of the form and room for it. -/
structure Takes (table : TypedPipes) (id : ℤ) (form : TypedForm) (i : Fin maxPipes) : Prop where
  /-- The call names the pipe. -/
  id : id = i.val
  /-- The pipe was made. -/
  made : i.val < table.count
  /-- The schemas match. -/
  schema : form.schemaHash = (table.pipes i).schemaHash
  /-- A place is free. -/
  room : (table.pipes i).waiting.contents.length < 15

/-- The pipe gives out its oldest form. -/
structure Gives (table : TypedPipes) (id : ℤ) (form : TypedForm) (rest : List TypedForm)
    (i : Fin maxPipes) : Prop where
  /-- The call names the pipe. -/
  id : id = i.val
  /-- The pipe was made. -/
  made : i.val < table.count
  /-- A form waits. -/
  waiting : (table.pipes i).waiting.contents = form :: rest

/-- The next pipe is made, without forms. -/
structure TypedMakes (call : TypedCall) (schemaHash : UInt32) (i : Fin maxPipes)
    (table : TypedPipes) : Prop where
  /-- The call returns the new index. -/
  result : (call.exec table).1 = table.count
  /-- It delivers nothing. -/
  delivered : (call.exec table).2.1 = none
  /-- The new pipe is the next one. -/
  index : i.val = table.count
  /-- One more is made. -/
  count : (call.exec table).2.2.count = table.count + 1
  /-- It has the schema. -/
  schema : ((call.exec table).2.2.pipes i).schemaHash = schemaHash
  /-- No form waits in it. -/
  waiting : ((call.exec table).2.2.pipes i).waiting.contents = []
  /-- The other pipes stay. -/
  other : ∀ j ≠ i, (call.exec table).2.2.pipes j = table.pipes j

/-- When a call succeeds and what it does then: a pipe is made while there are fewer than 16, a
form comes behind the others in a pipe that takes it, the oldest form is delivered. Every other
call is rejected. -/
def TypedServes (call : TypedCall) (history : TypedHistory) : Prop :=
  match call with
  | .create schemaHash _ _ _ =>
    if history.table.count < maxPipes then ∃ i, TypedMakes call schemaHash i history.table
    else TypedRejected call history.table
  | .write id form =>
    (∀ i, Takes history.table id form i →
      (call.exec history.table).1 = form.dataSize.toNat ∧
        TypedMoves i ((history.table.pipes i).waiting.contents ++ [form]) history.table
          (call.exec history.table).2.2) ∧
      ((∀ i, ¬Takes history.table id form i) → TypedRejected call history.table)
  | .read id =>
    (∀ i form rest, Gives history.table id form rest i →
      (call.exec history.table).1 = form.dataSize.toNat ∧
        (call.exec history.table).2.1 = some form ∧
          TypedMoves i rest history.table (call.exec history.table).2.2) ∧
      ((∀ i form rest, ¬Gives history.table id form rest i) → TypedRejected call history.table)

theorem TypedSound.law (h : TypedSound history) : TypedLaw history := by
  intro i hi
  have hdelivers := h.made i hi
  refine ⟨hdelivers.fits, ?_, fun form hform => hdelivers.schema form ?_⟩
  · have hlt := (history.table.pipes i).waiting.size_lt
    rw [Ring.length_contents]
    exact Nat.le_of_lt_succ hlt
  · rw [← hdelivers.fits]
    exact List.mem_append_left _ hform

theorem TypedSound.rejects (h : TypedSound history) {call : TypedCall} (hsmall : call.Small) :
    TypedRejects call history := by
  have houtcome := call.outcome history.table
  unfold TypedRejects
  generalize call.exec history.table = result at houtcome
  intro hneg
  cases houtcome with
  | rejected => exact ⟨rfl, rfl⟩
  | created schemaHash producerPid consumerPid capToken hroom =>
    exact absurd hneg (not_lt.mpr (Int.natCast_nonneg _))
  | written j form hj hschema hroom => exact absurd hneg (not_lt.mpr (toInt32_nonneg hsmall))
  | read j hj hsome =>
    have hdelivers := h.made j hj
    have hfront : (history.table.pipes j).waiting.front ∈
        (history.table.pipes j).waiting.contents := by
      rw [Ring.contents_pop hsome]
      exact List.mem_cons_self
    exact absurd hneg (not_lt.mpr
      (toInt32_nonneg (hdelivers.small _ (hdelivers.mem_of_waiting hfront))))

/-- A ring of a pipe that has room. -/
theorem not_full_iff (pipe : TypedPipe) :
    ¬pipe.waiting.Full ↔ pipe.waiting.contents.length < 15 := by
  have hlt : pipe.waiting.size < 16 := pipe.waiting.size_lt
  have hfull : pipe.waiting.Full ↔ pipe.waiting.size + 1 = 16 := pipe.waiting.full_iff_size
  rw [hfull, Ring.length_contents]
  omega

/-- A size below 2^31 is returned as it is. -/
theorem toInt32_eq {word : UInt32} (h : word < 0x80000000) : word.toInt32.toInt = word.toNat := by
  have hlt : word.toNat < 2 ^ 31 := h
  show word.toBitVec.toInt = word.toNat
  rw [BitVec.toInt_eq_toNat_of_lt (by simpa using by omega)]
  rfl

/-- The pipe behind a call that changes what waits in it. -/
theorem typedMoves_withWaiting (table : TypedPipes) (i : Fin maxPipes)
    (ring : Ring pipeTypedCapacity TypedForm) :
    TypedMoves i ring.contents table (table.setPipe i ((table.pipes i).withWaiting ring)) where
  count := rfl
  schema := by rw [setPipe_pipes_self]; rfl
  waiting := by rw [setPipe_pipes_self]; rfl
  other j hj := setPipe_pipes_of_ne hj _

/-- What pipe_typed_write returns and leaves when the pipe takes the form. -/
theorem exec_write_of_takes {table : TypedPipes} {id : ℤ} {form : TypedForm}
    (h : Takes table id form i) (hactive : (table.pipes i).active = true) :
    (TypedCall.write id form).exec table = (form.dataSize.toInt32.toInt, none,
      table.setPipe i ((table.pipes i).withWaiting ((table.pipes i).waiting.push form))) := by
  have hroom : ¬(table.pipes i).head + 1 = (table.pipes i).tail :=
    (not_full_iff (table.pipes i)).mpr h.room
  simp only [TypedCall.exec, pipeTypedWrite, h.id, typedIndex_of_lt h.made, hactive, h.schema,
    hroom, Bool.not_true, Bool.false_eq_true, ne_eq, not_true_eq_false, if_false]
  simp only [TypedPipe.withWaiting, TypedPipe.waiting, Ring.push, hactive]

/-- What pipe_typed_read returns and leaves when a form waits. -/
theorem exec_read_of_gives {table : TypedPipes} {id : ℤ} {form : TypedForm}
    {rest : List TypedForm} (h : Gives table id form rest i)
    (hactive : (table.pipes i).active = true) :
    (TypedCall.read id).exec table = ((table.pipes i).waiting.front.dataSize.toInt32.toInt,
      some (table.pipes i).waiting.front,
      table.setPipe i ((table.pipes i).withWaiting (table.pipes i).waiting.pop)) := by
  have hsome : ¬(table.pipes i).head = (table.pipes i).tail := fun hempty => by
    have hnil := Ring.contents_eq_nil_iff.mpr (show (table.pipes i).waiting.Empty from hempty)
    rw [h.waiting] at hnil
    exact List.cons_ne_nil _ _ hnil
  simp only [TypedCall.exec, pipeTypedRead, h.id, typedIndex_of_lt h.made, hactive, hsome,
    Bool.not_true, Bool.false_eq_true, if_false]
  simp only [TypedPipe.withWaiting, TypedPipe.waiting, Ring.pop, Ring.front, hactive]

/-- A write that no pipe takes is rejected. -/
theorem rejected_write {table : TypedPipes} {id : ℤ} {form : TypedForm}
    (hnone : ∀ i, ¬Takes table id form i) : TypedRejected (.write id form) table := by
  have houtcome := (TypedCall.write id form).outcome table
  generalize hexec : (TypedCall.write id form).exec table = result at houtcome
  cases houtcome with
  | rejected => exact ⟨by rw [hexec], by rw [hexec], by rw [hexec]⟩
  | written i form hi hschema hroom =>
    exact absurd ⟨rfl, hi, hschema, (not_full_iff _).mp hroom⟩ (hnone i)

/-- A read of a pipe in which nothing waits is rejected. -/
theorem rejected_read {table : TypedPipes} {id : ℤ}
    (hnone : ∀ i form rest, ¬Gives table id form rest i) : TypedRejected (.read id) table := by
  have houtcome := (TypedCall.read id).outcome table
  generalize hexec : (TypedCall.read id).exec table = result at houtcome
  cases houtcome with
  | rejected => exact ⟨by rw [hexec], by rw [hexec], by rw [hexec]⟩
  | read i hi hsome => exact absurd ⟨rfl, hi, Ring.contents_pop hsome⟩ (hnone i _ _)

/-- Calls succeed when they should. -/
theorem TypedSound.serves (h : TypedSound history) {call : TypedCall} (hsmall : call.Small) :
    TypedServes call history := by
  cases call with
  | create schemaHash producerPid consumerPid capToken =>
    rw [TypedServes]
    split_ifs with hcount
    · refine ⟨⟨history.table.count, hcount⟩, ?_⟩
      constructor
      all_goals simp only [TypedCall.exec, pipeCreateTyped, dif_pos hcount, Function.update_self]
      · rfl
      · rfl
      · intro j hj
        rw [Function.update_of_ne hj]
    · constructor
      all_goals simp only [TypedCall.exec, pipeCreateTyped, dif_neg hcount]
  | write id form =>
    refine ⟨fun i htakes => ?_, rejected_write⟩
    have hactive := (h.made i htakes.made).active
    have hpush := Ring.contents_push form ((not_full_iff _).mpr htakes.room)
    rw [exec_write_of_takes htakes hactive, ← hpush]
    exact ⟨toInt32_eq hsmall, typedMoves_withWaiting history.table i _⟩
  | read id =>
    refine ⟨fun i form rest hgives => ?_, rejected_read⟩
    have hdelivers := h.made i hgives.made
    have hsome : ¬(history.table.pipes i).waiting.Empty := fun hempty => by
      have hnil := Ring.contents_eq_nil_iff.mpr hempty
      rw [hgives.waiting] at hnil
      exact List.cons_ne_nil _ _ hnil
    have hpop := Ring.contents_pop hsome
    rw [hgives.waiting, List.cons.injEq] at hpop
    obtain ⟨hfront, hrest⟩ := hpop
    have hform : form ∈ (history.table.pipes i).waiting.contents := by
      rw [hgives.waiting]
      exact List.mem_cons_self
    rw [exec_read_of_gives hgives hdelivers.active, ← hfront, hrest]
    exact ⟨toInt32_eq (hdelivers.small _ (hdelivers.mem_of_waiting hform)), rfl,
      typedMoves_withWaiting history.table i _⟩

/-- The pipes at the boot, before any call. -/
theorem typedSound_start {table : TypedPipes} (hcount : table.count = 0) :
    TypedSound ⟨table, []⟩ := by
  refine ⟨fun i hi => ?_, fun _ _ => rfl⟩
  have hlt : i.val < table.count := hi
  omega

/-- In every run of calls on typed pipes, with arbitrary ids and forms of a size below 2^31, the
law of the pipes holds in every state, every call succeeds when it should, and no rejected call
changes a pipe. -/
theorem typedPipes_deliver {table : TypedPipes} (hcount : table.count = 0) {calls : List TypedCall}
    (hsmall : ∀ call ∈ calls, call.Small) :
    EveryState TypedHistory.after TypedLaw calls ⟨table, []⟩ ∧
      EveryStep TypedHistory.after TypedServes calls ⟨table, []⟩ ∧
        EveryStep TypedHistory.after TypedRejects calls ⟨table, []⟩ := by
  have hsteps : EveryStep TypedHistory.after (fun call _ => call.Small) calls ⟨table, []⟩ :=
    everyStep_of_forall hsmall _
  have hstart := typedSound_start hcount
  refine ⟨?_, ?_, ?_⟩
  · exact (hsteps.everyState (fun _ _ hsound hcall => hsound.after hcall) hstart).mono
      fun _ hsound => hsound.law
  · exact hsteps.imp_of_invariant (fun _ _ hsound hcall => hsound.after hcall)
      (fun _ _ hsound hcall => hsound.serves hcall) hstart
  · exact hsteps.imp_of_invariant (fun _ _ hsound hcall => hsound.after hcall)
      (fun _ _ hsound hcall => hsound.rejects hcall) hstart

/-- The typed pipes at the boot. -/
def zeroTypedPipes : TypedPipes where
  pipes _ := { newTypedPipe 0 0 0 0 with active := false }
  count := 0
  count_le := Nat.zero_le _

/-- A pipe is made, a form goes through it and is delivered, and a form of another schema is
rejected. -/
theorem typedPipes_deliver_one :
    let calls : List TypedCall := [.create 7 1 2 0, .write 0 { zeroForm with schemaHash := 7 },
      .write 0 zeroForm, .read 0]
    (EveryState TypedHistory.after TypedLaw calls ⟨zeroTypedPipes, []⟩ ∧
      EveryStep TypedHistory.after TypedServes calls ⟨zeroTypedPipes, []⟩ ∧
        EveryStep TypedHistory.after TypedRejects calls ⟨zeroTypedPipes, []⟩) ∧
      (runSteps TypedHistory.after calls ⟨zeroTypedPipes, []⟩).events.map
        (fun event => (event.result, event.delivered.map TypedForm.schemaHash)) =
          [(0, none), (0, none), (-1, none), (0, some 7)] := by
  refine ⟨typedPipes_deliver rfl fun call hcall => ?_, by decide⟩
  simp only [List.mem_cons, List.not_mem_nil, or_false] at hcall
  rcases hcall with rfl | rfl | rfl | rfl
  · trivial
  · show (0 : UInt32) < 0x80000000
    decide
  · show (0 : UInt32) < 0x80000000
    decide
  · trivial

end Histories

end HexaOS.Pipes
