import HexaOS.LineEditor
import HexaOS.RingBuffers
import HexaOS.StepRuns

/-!
# Keys from the interrupt to get_char

irq_handler for IRQ 1, the ring kbuf and one round of get_char's loop. kbuf holds signed
characters, so that the codes 0x80 and 0x81 of the arrow keys come out negative, and get_char
takes a negative result for an empty ring. An abstract queue says what should be delivered.
-/

namespace HexaOS.Terminal

open RingBuffers StepRuns

section Code

/-- kbd_map of interrupts.c, up to its last character. -/
def kbdMap : List UInt8 :=
  [0, 27, 49, 50, 51, 52, 53, 54, 55, 56, 57, 48, 45, 61, 8, 9,
    113, 119, 101, 114, 116, 121, 117, 105, 111, 112, 91, 93, 10, 0,
    97, 115, 100, 102, 103, 104, 106, 107, 108, 59, 39, 96, 0, 92,
    122, 120, 99, 118, 98, 110, 109, 44, 46, 47, 0, 42, 0, 32,
    0, 0, 0, 0, 0, 0, 0, 0, 0, 0, 0, 0, 0, 0, 0, 0, 0, 0, 45, 0, 0, 0, 43]

/-- kbd_map_shift of interrupts.c, up to its last character. -/
def kbdMapShift : List UInt8 :=
  [0, 27, 33, 64, 35, 36, 37, 94, 38, 42, 40, 41, 95, 43, 8, 9,
    81, 87, 69, 82, 84, 89, 85, 73, 79, 80, 123, 125, 10, 0,
    65, 83, 68, 70, 71, 72, 74, 75, 76, 58, 34, 126, 0, 124,
    90, 88, 67, 86, 66, 78, 77, 60, 62, 63, 0, 42, 0, 32,
    0, 0, 0, 0, 0, 0, 0, 0, 0, 0, 0, 0, 0, 0, 0, 0, 0, 0, 45, 0, 0, 0, 43]

/-- The two maps of hexa.c have the last two characters at other places. -/
def moveKeypad (map : List UInt8) : List UInt8 :=
  map.take 58 ++ List.replicate 16 0 ++ [45, 0, 0, 0, 43]

example : (kbdMap[76]?, kbdMap[80]?, (moveKeypad kbdMap)[74]?, (moveKeypad kbdMap)[78]?) =
    (some 45, some 43, some 45, some 43) := by decide

/-- `shift_pressed ? kbd_map_shift[sc] : kbd_map[sc]` -/
def mapped (shift : Bool) (sc : UInt8) : UInt8 :=
  (if shift then kbdMapShift else kbdMap).getD sc.toNat 0

/-- `shift_pressed ? kbd_map_shift[sc] : kbd_map[sc]` in hexa.c -/
def polled (shift : Bool) (sc : UInt8) : UInt8 :=
  (moveKeypad (if shift then kbdMapShift else kbdMap)).getD sc.toNat 0

/-- kbuf and shift_pressed of interrupts.c, and shift_pressed of hexa.c. -/
structure Console where
  /-- kbuf, kbuf_head and kbuf_tail -/
  kbuf : Ring 256 UInt8
  /-- Is a shift key down, for the interrupt? -/
  shiftPressed : Bool
  /-- Is a shift key down, for the polling? -/
  pollShift : Bool

/-- irq_handler for IRQ 1 -/
def irqHandler (console : Console) (sc : UInt8) : Console :=
  if sc = 0x2A ∨ sc = 0x36 then { console with shiftPressed := true }
  else if sc = 0xAA ∨ sc = 0xB6 then { console with shiftPressed := false }
  else if sc &&& 0x80 ≠ 0 then console
  else
    let c := if sc = 0x48 then 0x80 else if sc = 0x50 then 0x81 else mapped console.shiftPressed sc
    if sc ≠ 0x48 ∧ sc ≠ 0x50 ∧ c = 0 then console
    else if console.kbuf.Full then console
    else { console with kbuf := console.kbuf.push c }

/-- kb_getchar -/
def kbGetchar (console : Console) : ℤ × Console :=
  if console.kbuf.Empty then (-1, console)
  else (console.kbuf.front.toInt8.toInt, { console with kbuf := console.kbuf.pop })

/-- What the ports hold in one round of get_char. -/
structure PortReads where
  /-- `inb(0x3F8 + 5)` -/
  serialStatus : UInt8
  /-- The three bytes at 0x3F8. -/
  serialBytes : UInt8 × UInt8 × UInt8
  /-- `inb(0x64)` -/
  keyStatus : UInt8
  /-- `inb(0x60)` -/
  keyCode : UInt8

/-- What comes from the serial port. -/
def fromSerial (special : Bool) (bytes : UInt8 × UInt8 × UInt8) : Key :=
  let c := if bytes.1 = 13 then 10 else bytes.1
  let c := if c = 127 then 8 else c
  if c = 27 ∧ bytes.2.1 = 91 ∧ bytes.2.2 = 65 ∧ special then .up
  else if c = 27 ∧ bytes.2.1 = 91 ∧ bytes.2.2 = 66 ∧ special then .down
  else .char c

/-- What comes from the keyboard controller. -/
def fromController (special : Bool) (console : Console) (sc : UInt8) : Option Key × Console :=
  if sc = 0x2A ∨ sc = 0x36 then (none, { console with pollShift := true })
  else if sc = 0xAA ∨ sc = 0xB6 then (none, { console with pollShift := false })
  else if sc = 0x48 ∧ special then (some .up, console)
  else if sc = 0x50 ∧ special then (some .down, console)
  else if sc &&& 0x80 = 0 ∧ polled console.pollShift sc ≠ 0 then
    (some (.char (polled console.pollShift sc)), console)
  else (none, console)

/-- One round of the loop of get_char, with its result when there is one. `special` says
whether special_key is no null pointer. -/
def getCharRound (special : Bool) (reads : PortReads) (console : Console) :
    Option Key × Console :=
  if reads.serialStatus &&& 1 ≠ 0 then (some (fromSerial special reads.serialBytes), console)
  else
    let (c, console) := kbGetchar console
    if 0 < c then
      if c = 0x80 ∧ special then (some .up, console)
      else if c = 0x81 ∧ special then (some .down, console)
      else (some (.char (UInt8.ofNat c.toNat)), console)
    else if reads.keyStatus &&& 1 ≠ 0 then fromController special console reads.keyCode
    else (none, console)

/-- An interrupt or a round of get_char. -/
inductive ConsoleStep where
  | irq (sc : UInt8)
  | round (special : Bool) (reads : PortReads)

/-- The console with the results of get_char, the first one first. -/
structure Delivery where
  /-- The console. -/
  console : Console
  /-- The keys that get_char has returned. -/
  delivered : List Key

/-- An interrupt or a round of get_char. -/
def consoleStep (step : ConsoleStep) (state : Delivery) : Delivery :=
  match step with
  | .irq sc => { state with console := irqHandler state.console sc }
  | .round special reads =>
    let (key, console) := getCharRound special reads state.console
    ⟨console, state.delivered ++ key.toList⟩

end Code

section Specification

/-- The key that a scan code stands for in the handler. -/
def pressed (shift : Bool) (sc : UInt8) : Option Key :=
  if sc = 0x2A ∨ sc = 0x36 ∨ sc = 0xAA ∨ sc = 0xB6 ∨ sc &&& 0x80 ≠ 0 then none
  else if sc = 0x48 then some .up
  else if sc = 0x50 then some .down
  else if mapped shift sc = 0 then none
  else some (.char (mapped shift sc))

/-- The shift state behind a scan code. -/
def shiftBehind (shift : Bool) (sc : UInt8) : Bool :=
  if sc = 0x2A ∨ sc = 0x36 then true else if sc = 0xAA ∨ sc = 0xB6 then false else shift

/-- A queue of keys that loses nothing. -/
structure KeyQueue where
  /-- Is a shift key down? -/
  shift : Bool
  /-- The keys that were pressed and not fetched, the first one first. -/
  waiting : List Key
  /-- The keys that were fetched, the first one first. -/
  fetched : List Key

/-- What an interrupt or a round of get_char should do. -/
def queueStep (step : ConsoleStep) (queue : KeyQueue) : KeyQueue :=
  match step with
  | .irq sc =>
    { queue with
      shift := shiftBehind queue.shift sc
      waiting := queue.waiting ++ (pressed queue.shift sc).toList }
  | .round _ _ =>
    { queue with
      waiting := queue.waiting.tail
      fetched := queue.fetched ++ queue.waiting.head?.toList }

/-- The keys that are pressed in a run. -/
def presses : Bool → List ConsoleStep → List Key
  | _, [] => []
  | shift, .irq sc :: rest => (pressed shift sc).toList ++ presses (shiftBehind shift sc) rest
  | shift, .round _ _ :: rest => presses shift rest

/-- The arrow keys. -/
def Key.Arrow : Key → Prop
  | .up => True
  | .down => True
  | .char _ => False

/-- The serial port and the keyboard controller have nothing. -/
def ConsoleStep.Idle : ConsoleStep → Prop
  | .irq _ => True
  | .round _ reads => reads.serialStatus &&& 1 = 0 ∧ reads.keyStatus &&& 1 = 0

instance (step : ConsoleStep) : Decidable step.Idle :=
  match step with
  | .irq _ => isTrue trivial
  | .round _ _ => inferInstanceAs (Decidable (_ ∧ _))

/-- A key of the maps has a code from 1 to 127. -/
def Key.Coded : Key → Prop
  | .char c => 1 ≤ c ∧ c < 0x80 ∧ c ≠ 13
  | _ => True

/-- The code of a key in kbuf. -/
def Key.code : Key → UInt8
  | .up => 0x80
  | .down => 0x81
  | .char c => c

instance (key : Key) : Decidable key.Arrow :=
  match key with
  | .up => isTrue trivial
  | .down => isTrue trivial
  | .char _ => isFalse id

/-- kbuf holds the codes of the waiting keys, and what was fetched is delivered up to the
arrow keys. -/
structure Relates (state : Delivery) (queue : KeyQueue) : Prop where
  /-- The shift keys agree. -/
  shift : state.console.shiftPressed = queue.shift
  /-- The buffer holds the codes of the waiting keys. -/
  waiting : state.console.kbuf.contents = queue.waiting.map Key.code
  /-- The waiting keys have codes. -/
  coded : ∀ key ∈ queue.waiting, key.Coded
  /-- get_char returns what is fetched but for arrows. -/
  delivered : state.delivered = queue.fetched.filter fun key => ¬key.Arrow

end Specification

section Steps

variable {state : Delivery} {queue : KeyQueue}

/-- Nothing is lost in the queue. -/
theorem queue_presses (steps : List ConsoleStep) (queue : KeyQueue) :
    (runSteps queueStep steps queue).fetched ++ (runSteps queueStep steps queue).waiting =
      queue.fetched ++ queue.waiting ++ presses queue.shift steps := by
  induction steps generalizing queue with
  | nil => exact (List.append_nil _).symm
  | cons step rest ih =>
    rw [runSteps, ih]
    cases step with
    | irq sc =>
      show queue.fetched ++ (queue.waiting ++ (pressed queue.shift sc).toList) ++
        presses (shiftBehind queue.shift sc) rest = _
      rw [presses]
      simp only [List.append_assoc]
    | round special reads =>
      show queue.fetched ++ queue.waiting.head?.toList ++ queue.waiting.tail ++
        presses queue.shift rest = _
      rw [presses, List.append_assoc queue.fetched]
      congr 2
      cases queue.waiting with
      | nil => rfl
      | cons key rest => rfl

/-- The characters of the maps. -/
theorem mapped_coded (shift : Bool) (sc : UInt8) (h : mapped shift sc ≠ 0) :
    (Key.char (mapped shift sc)).Coded := by
  have hall : ∀ map ∈ [kbdMap, kbdMapShift],
      map.all (fun c => c = 0 ∨ (1 ≤ c ∧ c < 0x80 ∧ c ≠ 13)) = true := by decide
  have hmap : (if shift then kbdMapShift else kbdMap) ∈ [kbdMap, kbdMapShift] := by
    cases shift <;> decide
  rw [mapped] at h ⊢
  generalize (if shift then kbdMapShift else kbdMap) = map at h hmap
  rcases Nat.lt_or_ge sc.toNat map.length with hlt | hge
  · rw [List.getD_eq_getElem _ _ hlt] at h ⊢
    have hcoded := of_decide_eq_true (List.all_eq_true.mp (hall map hmap) _
      (List.getElem_mem hlt))
    exact hcoded.resolve_left h
  · rw [List.getD_eq_default _ _ hge] at h
    exact absurd rfl h

/-- A key that is pressed has a code in kbuf. -/
theorem pressed_coded {shift : Bool} {sc : UInt8} {key : Key} (h : pressed shift sc = some key) :
    key.Coded := by
  rw [pressed] at h
  split at h
  · cases h
  split at h
  · obtain rfl := Option.some.inj h
    trivial
  split at h
  · obtain rfl := Option.some.inj h
    trivial
  split at h
  · cases h
  · rename_i hmapped
    obtain rfl := Option.some.inj h
    exact mapped_coded shift sc hmapped

/-- What the handler does with a scan code. -/
theorem irqHandler_eq (console : Console) (sc : UInt8) :
    irqHandler console sc =
      match pressed console.shiftPressed sc with
      | none => { console with shiftPressed := shiftBehind console.shiftPressed sc }
      | some key =>
        if console.kbuf.Full then console
        else { console with kbuf := console.kbuf.push key.code } := by
  rw [irqHandler, pressed, shiftBehind]
  by_cases hdown : sc = 0x2A ∨ sc = 0x36
  · have hnone : sc = 0x2A ∨ sc = 0x36 ∨ sc = 0xAA ∨ sc = 0xB6 ∨ sc &&& 0x80 ≠ 0 := by tauto
    rw [if_pos hdown, if_pos hnone, if_pos hdown]
  · rw [if_neg hdown, if_neg hdown]
    by_cases hup : sc = 0xAA ∨ sc = 0xB6
    · have hnone : sc = 0x2A ∨ sc = 0x36 ∨ sc = 0xAA ∨ sc = 0xB6 ∨ sc &&& 0x80 ≠ 0 := by tauto
      rw [if_pos hup, if_pos hnone, if_pos hup]
    · rw [if_neg hup, if_neg hup]
      by_cases hbreak : sc &&& 0x80 ≠ 0
      · have hnone : sc = 0x2A ∨ sc = 0x36 ∨ sc = 0xAA ∨ sc = 0xB6 ∨ sc &&& 0x80 ≠ 0 := by tauto
        rw [if_pos hbreak, if_pos hnone]
      · have hsome : ¬(sc = 0x2A ∨ sc = 0x36 ∨ sc = 0xAA ∨ sc = 0xB6 ∨ sc &&& 0x80 ≠ 0) := by tauto
        rw [if_neg hbreak, if_neg hsome]
        by_cases hupArrow : sc = 0x48
        · rw [if_pos hupArrow, if_pos hupArrow, if_neg (fun h => h.1 hupArrow)]
          rfl
        · rw [if_neg hupArrow, if_neg hupArrow]
          by_cases hdownArrow : sc = 0x50
          · rw [if_pos hdownArrow, if_pos hdownArrow, if_neg (fun h => h.2.1 hdownArrow)]
            rfl
          · rw [if_neg hdownArrow, if_neg hdownArrow]
            by_cases hzero : mapped console.shiftPressed sc = 0
            · rw [if_pos ⟨hupArrow, hdownArrow, hzero⟩, if_pos hzero]
            · rw [if_neg (fun h => hzero h.2.2), if_neg hzero]
              rfl

/-- A key that is pressed comes into kbuf while there is room. -/
theorem Relates.irq (h : Relates state queue) (sc : UInt8)
    (hroom : (queueStep (.irq sc) queue).waiting.length ≤ 255) :
    Relates (consoleStep (.irq sc) state) (queueStep (.irq sc) queue) := by
  have hshift := h.shift
  show Relates { state with console := irqHandler state.console sc }
    { queue with
      shift := shiftBehind queue.shift sc
      waiting := queue.waiting ++ (pressed queue.shift sc).toList }
  rw [irqHandler_eq, hshift]
  cases hpressed : pressed queue.shift sc with
  | none =>
    refine ⟨rfl, ?_, ?_, h.delivered⟩
    · rw [Option.toList_none, List.append_nil]
      exact h.waiting
    · rw [Option.toList_none, List.append_nil]
      exact h.coded
  | some key =>
    have hlength : state.console.kbuf.size = queue.waiting.length := by
      rw [← Ring.length_contents, h.waiting, List.length_map]
    have hmore : queue.waiting.length + 1 ≤ 255 := by
      have hwaiting : (queueStep (.irq sc) queue).waiting = queue.waiting ++ [key] := by
        rw [queueStep, hpressed]
        rfl
      rw [hwaiting, List.length_append] at hroom
      exact hroom
    have hnotFull : ¬state.console.kbuf.Full := by
      rw [Ring.full_iff_size]
      omega
    have hkept : shiftBehind queue.shift sc = queue.shift := by
      rw [pressed] at hpressed
      rw [shiftBehind]
      split at hpressed
      · cases hpressed
      · rename_i hplain
        rw [if_neg (by tauto), if_neg (by tauto)]
    dsimp only
    rw [if_neg hnotFull, Option.toList_some]
    refine ⟨hkept.symm, ?_, ?_, h.delivered⟩
    · show (state.console.kbuf.push key.code).contents = _
      rw [Ring.contents_push _ hnotFull, h.waiting, List.map_append, List.map_singleton]
    · intro other hother
      rcases List.mem_append.mp hother with hold | hnew
      · exact h.coded other hold
      · rw [List.mem_singleton.mp hnew]
        exact pressed_coded hpressed

/-- A code from 1 to 127 is positive as a signed character. -/
theorem toInt_of_coded {c : UInt8} (hlow : 1 ≤ c) (hhigh : c < 0x80) :
    c.toInt8.toInt = c.toNat := by
  have hlow' : 1 ≤ c.toNat := hlow
  have hhigh' : c.toNat < 128 := hhigh
  show c.toBitVec.toInt = c.toBitVec.toNat
  refine BitVec.toInt_eq_toNat_of_lt ?_
  rw [UInt8.toNat_toBitVec]
  omega

/-- A round of get_char takes the next key; it delivers a character and drops an arrow key. -/
theorem Relates.round (h : Relates state queue) (special : Bool) {reads : PortReads}
    (hidle : (ConsoleStep.round special reads).Idle) :
    Relates (consoleStep (.round special reads) state)
      (queueStep (.round special reads) queue) := by
  obtain ⟨hserial, hcontroller⟩ := hidle
  have hround : getCharRound special reads state.console =
      (let (c, console) := kbGetchar state.console
      if 0 < c then
        if c = 0x80 ∧ special then (some .up, console)
        else if c = 0x81 ∧ special then (some .down, console)
        else (some (.char (UInt8.ofNat c.toNat)), console)
      else (none, console)) := by
    have hnoByte : ¬reads.serialStatus &&& 1 ≠ 0 := fun hready => hready hserial
    have hnoCode : ¬reads.keyStatus &&& 1 ≠ 0 := fun hready => hready hcontroller
    rw [getCharRound, if_neg hnoByte]
    dsimp only
    rw [if_neg hnoCode]
  have hwaiting := h.waiting
  rw [consoleStep, queueStep, hround, kbGetchar]
  cases hqueue : queue.waiting with
  | nil =>
    rw [hqueue, List.map_nil] at hwaiting
    rw [if_pos (Ring.contents_eq_nil_iff.mp hwaiting)]
    refine ⟨h.shift, hwaiting, List.forall_mem_nil _, ?_⟩
    show state.delivered ++ [] = (queue.fetched ++ []).filter _
    rw [List.append_nil, List.append_nil]
    exact h.delivered
  | cons key rest =>
    rw [hqueue, List.map_cons] at hwaiting
    have hsome : ¬state.console.kbuf.Empty := by
      rw [← Ring.contents_eq_nil_iff, hwaiting]
      exact List.cons_ne_nil _ _
    have hpop := Ring.contents_pop hsome
    rw [hwaiting] at hpop
    obtain ⟨hfront, hrest⟩ := List.cons.inj hpop
    have hcoded := h.coded
    rw [hqueue] at hcoded
    have hlater : ∀ other ∈ rest, other.Coded :=
      fun other hother => hcoded other (List.mem_cons_of_mem _ hother)
    rw [if_neg hsome, ← hfront]
    have hfetched : ∀ key : Key, (queue.fetched ++ (key :: rest).head?.toList).filter
        (fun key => ¬key.Arrow) = state.delivered ++ [key].filter fun key => ¬key.Arrow := by
      intro key
      rw [h.delivered, ← List.filter_append]
      rfl
    cases key with
    | up =>
      refine ⟨h.shift, hrest.symm, hlater, ?_⟩
      rw [hfetched]
      rfl
    | down =>
      refine ⟨h.shift, hrest.symm, hlater, ?_⟩
      rw [hfetched]
      rfl
    | char c =>
      obtain ⟨hlow, hhigh, -⟩ := hcoded (.char c) List.mem_cons_self
      have hpos : (0 : ℤ) < c.toNat := by
        have hnat : 1 ≤ c.toNat := hlow
        omega
      have hsmall : (c.toNat : ℤ) < 128 := by
        have hnat : c.toNat < 128 := hhigh
        omega
      have hnumber : (Key.char c).code.toInt8.toInt = (c.toNat : ℤ) := toInt_of_coded hlow hhigh
      rw [hnumber]
      dsimp only
      rw [if_pos hpos, if_neg (by omega), if_neg (by omega), Int.toNat_natCast, UInt8.ofNat_toNat]
      refine ⟨h.shift, hrest.symm, hlater, ?_⟩
      rw [hfetched]
      rfl

end Steps

section Runs

variable {state : Delivery} {queue : KeyQueue} {steps : List ConsoleStep}

/-- kbuf and the queue stay related while at most 255 keys wait. -/
theorem Relates.run (h : Relates state queue) (hidle : ∀ step ∈ steps, step.Idle)
    (hroom : EveryState queueStep (fun queue => queue.waiting.length ≤ 255) steps queue) :
    Relates (runSteps consoleStep steps state) (runSteps queueStep steps queue) := by
  induction steps generalizing state queue with
  | nil => exact h
  | cons step rest ih =>
    have hlater : ∀ step ∈ rest, step.Idle :=
      fun other hother => hidle other (List.mem_cons_of_mem _ hother)
    have hnext : Relates (consoleStep step state) (queueStep step queue) := by
      cases step with
      | irq sc =>
        refine h.irq sc ?_
        cases rest with
        | nil => exact hroom.2
        | cons next rest => exact hroom.2.1
      | round special reads => exact h.round special (hidle _ List.mem_cons_self)
    exact ih hnext hlater hroom.2

/-- An empty kbuf is an empty queue. -/
theorem relates_start {console : Console} (hempty : console.kbuf.Empty) :
    Relates ⟨console, []⟩ ⟨console.shiftPressed, [], []⟩ where
  shift := rfl
  waiting := Ring.contents_eq_nil_iff.mpr hempty
  coded := List.forall_mem_nil _
  delivered := rfl

/-- get_char delivers the keys that it fetches, each once and in the order in which they were
pressed, just when it fetches no arrow key. -/
theorem keys_delivered_iff {console : Console} (hempty : console.kbuf.Empty)
    (hidle : ∀ step ∈ steps, step.Idle)
    (hroom : EveryState queueStep (fun queue => queue.waiting.length ≤ 255) steps
      ⟨console.shiftPressed, [], []⟩) :
    (runSteps queueStep steps ⟨console.shiftPressed, [], []⟩).fetched ++
        (runSteps queueStep steps ⟨console.shiftPressed, [], []⟩).waiting =
      presses console.shiftPressed steps ∧
    ((runSteps consoleStep steps ⟨console, []⟩).delivered =
        (runSteps queueStep steps ⟨console.shiftPressed, [], []⟩).fetched ↔
      ∀ key ∈ (runSteps queueStep steps ⟨console.shiftPressed, [], []⟩).fetched, ¬key.Arrow) := by
  refine ⟨queue_presses steps _, ?_⟩
  rw [((relates_start hempty).run hidle hroom).delivered, List.filter_eq_self]
  exact forall₂_congr fun key _ => decide_eq_true_iff

/-- Ports that have nothing. -/
def idlePorts : PortReads := ⟨0, (0, 0, 0), 0, 0⟩

/-- The console before any key. -/
def idleConsole : Console := ⟨⟨fun _ => 0, 0, 0⟩, false, false⟩

/-- Shift and the key a, and a key that is fetched before it comes. -/
theorem keys_delivered_shiftA :
    (runSteps consoleStep [.round true idlePorts, .irq 0x2A, .irq 0x1E, .round true idlePorts]
      ⟨idleConsole, []⟩).delivered =
    (runSteps queueStep [.round true idlePorts, .irq 0x2A, .irq 0x1E, .round true idlePorts]
      ⟨false, [], []⟩).fetched :=
  (keys_delivered_iff (show idleConsole.kbuf.Empty by decide) (by decide)
    (by simp only [EveryState]; decide)).2.mpr (by decide)

/-- The up key is fetched and not delivered. -/
theorem upKey_lost :
    (runSteps consoleStep [.irq 0x48, .round true idlePorts] ⟨idleConsole, []⟩).delivered = [] ∧
      presses false [.irq 0x48, .round true idlePorts] = [.up] ∧
      (runSteps queueStep [.irq 0x48, .round true idlePorts] ⟨false, [], []⟩).fetched = [.up] :=
  ⟨by decide, by decide, by decide⟩

/-- A signed character that is positive is the code itself. -/
theorem toInt_of_pos {c : UInt8} (h : 0 < c.toInt8.toInt) : c.toInt8.toInt = c.toNat := by
  have hcases : c.toInt8.toInt =
      if 2 * c.toBitVec.toNat < 2 ^ 8 then (c.toBitVec.toNat : ℤ)
      else (c.toBitVec.toNat : ℤ) - (2 ^ 8 : ℕ) := BitVec.toInt_eq_toNat_cond c.toBitVec
  have hlt := c.toBitVec.isLt
  rw [hcases] at h ⊢
  split at h
  · rename_i hsmall
    rw [if_pos hsmall, UInt8.toNat_toBitVec]
  · omega

/-- No character in kbuf is a carriage return. -/
theorem Relates.noReturn (h : Relates state queue) : 13 ∉ state.console.kbuf.contents := by
  rw [h.waiting]
  intro hreturn
  obtain ⟨key, hkey, hcode⟩ := List.mem_map.mp hreturn
  have hcoded := h.coded key hkey
  cases key with
  | up => cases hcode
  | down => cases hcode
  | char c => exact hcoded.2.2 hcode

/-- A key that get_char returns is one that get_line expects, whatever the ports hold. -/
theorem getCharRound_sent {console : Console} (hkbuf : 13 ∉ console.kbuf.contents)
    (special : Bool) (reads : PortReads) {key : Key}
    (h : (getCharRound special reads console).1 = some key) : key.Sent := by
  have hserial : (fromSerial special reads.serialBytes).Sent := by
    have hchar : ∀ c : UInt8, c ≠ 13 → (if c = 27 ∧ reads.serialBytes.2.1 = 91 ∧
        reads.serialBytes.2.2 = 65 ∧ special then Key.up else if c = 27 ∧
          reads.serialBytes.2.1 = 91 ∧ reads.serialBytes.2.2 = 66 ∧ special then .down
        else .char c).Sent := by
      intro c hc
      split
      · trivial
      split
      · trivial
      · exact hc
    refine hchar _ ?_
    by_cases hreturn : reads.serialBytes.1 = 13
    · rw [if_pos hreturn]
      decide
    · rw [if_neg hreturn]
      split
      · decide
      · exact hreturn
  have hpolled : ∀ shift sc, polled shift sc ≠ 13 := by
    intro shift sc
    have hall : ∀ map ∈ [moveKeypad kbdMap, moveKeypad kbdMapShift], 13 ∉ map := by decide
    have hmap : moveKeypad (if shift then kbdMapShift else kbdMap) ∈
        [moveKeypad kbdMap, moveKeypad kbdMapShift] := by cases shift <;> decide
    rw [polled]
    generalize moveKeypad (if shift then kbdMapShift else kbdMap) = map at hmap
    rcases Nat.lt_or_ge sc.toNat map.length with hlt | hge
    · rw [List.getD_eq_getElem _ _ hlt]
      exact fun hsame => hall map hmap (hsame ▸ List.getElem_mem hlt)
    · rw [List.getD_eq_default _ _ hge]
      decide
  have hcontroller : ∀ console sc, (fromController special console sc).1 = some key →
      key.Sent := by
    intro console sc hkey
    rw [fromController] at hkey
    split at hkey
    · cases hkey
    split at hkey
    · cases hkey
    split at hkey
    · obtain rfl := Option.some.inj hkey
      trivial
    split at hkey
    · obtain rfl := Option.some.inj hkey
      trivial
    split at hkey
    · obtain rfl := Option.some.inj hkey
      exact hpolled _ _
    · cases hkey
  rw [getCharRound] at h
  split at h
  · obtain rfl := Option.some.inj h
    exact hserial
  rw [kbGetchar] at h
  by_cases hempty : console.kbuf.Empty
  · rw [if_pos hempty] at h
    dsimp only at h
    rw [if_neg (by decide)] at h
    split at h
    · exact hcontroller _ _ h
    · cases h
  · rw [if_neg hempty] at h
    dsimp only at h
    have hfront : console.kbuf.front ≠ 13 := by
      intro hreturn
      rw [Ring.contents_pop hempty, hreturn] at hkbuf
      exact hkbuf List.mem_cons_self
    split at h
    · rename_i hpositive
      split at h
      · obtain rfl := Option.some.inj h
        trivial
      split at h
      · obtain rfl := Option.some.inj h
        trivial
      · obtain rfl := Option.some.inj h
        have hcode := toInt_of_pos hpositive
        show UInt8.ofNat console.kbuf.front.toInt8.toInt.toNat ≠ 13
        rw [hcode, Int.toNat_natCast, UInt8.ofNat_toNat]
        exact hfront
    · split at h
      · exact hcontroller _ _ h
      · cases h

/-- So is every key that is fetched while keys come by interrupts. -/
theorem Relates.sent (h : Relates state queue) (special : Bool) (reads : PortReads) {key : Key}
    (hkey : (getCharRound special reads state.console).1 = some key) : key.Sent :=
  getCharRound_sent h.noReturn special reads hkey

end Runs

end HexaOS.Terminal
