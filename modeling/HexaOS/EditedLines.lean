import HexaOS.Keyboard

/-!
# What a line becomes

An abstract line editor knows the text and the place in the history. get_line does what it
does: the characters in front of the edit position are the text, they stand on the screen,
and newline returns them. Fed by the keyboard interrupt through kbuf, get_line returns the
text of the keys that were pressed, without the arrow keys.
-/

namespace HexaOS.Terminal

open RingBuffers Screen StepRuns

section Editor

/-- A line that is edited. -/
structure EditedLine where
  /-- The characters so far. -/
  text : List UInt8
  /-- The place in the history, -1 in front of it. -/
  scroll : ℤ
  /-- The string, once newline has ended the line. -/
  returned : Option (List UInt8)

variable (hist : History) (maxLen : ℕ)

/-- A character other than newline: backspace takes the last one away, and what does not fit
is dropped. -/
def editChar (text : List UInt8) (c : UInt8) : List UInt8 :=
  if c = 8 then text.dropLast else if text.length < maxLen - 1 then text ++ [c] else text

/-- An arrow key: the line of the history, or an empty one in front of the newest. -/
def editArrow (line : EditedLine) (key : Key) : EditedLine :=
  { line with
    text := (hist.recalled line.scroll key).getD (if key = .up then line.text else [])
    scroll := hist.scrolled line.scroll key }

/-- What a key does to a line. -/
def editKey (line : EditedLine) (key : Key) : EditedLine :=
  if line.returned.isSome then line
  else
    match key with
    | .up => editArrow hist line .up
    | .down => editArrow hist line .down
    | .char c =>
      if c = 10 then { line with returned := some (line.text.takeWhile (· ≠ 0)) }
      else { line with text := editChar maxLen line.text c }

/-- The line after some keys. -/
def editKeys (line : EditedLine) (keys : List Key) : EditedLine :=
  keys.foldl (editKey hist maxLen) line

/-- get_line and the editor. -/
structure Edits (color : UInt8) (start : ℕ) (s : LineState) (line : EditedLine) : Prop where
  /-- Both return the same. -/
  returned : s.returned = line.returned
  /-- As long as the line is edited, buffer and screen show it. -/
  editing : line.returned = none → Editing hist maxLen color start s
  /-- The characters in front of the cursor are the text. -/
  front : line.returned = none → s.front = line.text
  /-- Both stand at the same line of the history. -/
  scroll : line.returned = none → s.histScroll = line.scroll

variable {hist : History} {maxLen : ℕ} {color : UInt8} {start : ℕ} {s : LineState}
  {line : EditedLine} {key : Key}

theorem length_front (s : LineState) : s.front.length = s.i := by
  rw [LineState.front, List.length_map, List.length_range]

/-- The memory after a line was copied. -/
theorem buffer_copyLine (color : UInt8) (k : ℕ) (chars : List UInt8) (s : LineState) :
    (∀ j < k, (copyLine color k chars s).buffer j = s.buffer j) ∧
      (List.range' k chars.length).map (copyLine color k chars s).buffer = chars := by
  induction chars generalizing s k with
  | nil => exact ⟨fun _ _ => rfl, rfl⟩
  | cons c rest ih =>
    rw [copyLine]
    obtain ⟨hbelow, hcopied⟩ := ih (k + 1) { s.store k c with screen := s.screen.putChar c color }
    refine ⟨fun j hj => ?_, ?_⟩
    · rw [hbelow j (Nat.lt_succ_of_lt hj)]
      exact Function.update_of_ne hj.ne _ _
    · rw [List.length_cons, List.range'_succ, List.map_cons, hcopied, hbelow k (Nat.lt_succ_self k)]
      refine congrArg (· :: rest) ?_
      exact Function.update_self k c s.buffer

/-- The line that is recalled stands in front of the edit position. -/
theorem front_recallLine (hfits : (hist.line s.histScroll).length < maxLen) :
    (recallLine hist maxLen color s).front = hist.line s.histScroll := by
  have htake : (hist.line s.histScroll).take (maxLen - 1) = hist.line s.histScroll :=
    List.take_of_length_le (Nat.le_sub_one_of_lt hfits)
  obtain ⟨-, hcopied⟩ := buffer_copyLine color 0 (hist.line s.histScroll) s
  rw [recallLine, htake, LineState.front]
  dsimp only [LineState.store]
  rw [← List.range_eq_range'] at hcopied
  refine Eq.trans (List.map_congr_left fun j hj => ?_) hcopied
  exact Function.update_of_ne (List.mem_range.mp hj).ne _ _

/-- get_line has returned. -/
theorem Edits.ended (h : Edits hist maxLen color start s line) (hended : line.returned ≠ none)
    (key : Key) :
    Edits hist maxLen color start (lineKey hist maxLen color s key)
      (editKey hist maxLen line key) := by
  have hsome : line.returned.isSome = true := Option.isSome_iff_ne_none.mpr hended
  have hsame : s.returned.isSome = true := by
    rw [h.returned]
    exact hsome
  have hedit : editKey hist maxLen line key = line := by
    cases key <;> rw [editKey, if_pos hsome]
  have hkey : lineKey hist maxLen color s key = s := by
    cases key <;> rw [lineKey, if_pos hsame]
  rw [hedit, hkey]
  exact h

/-- Newline returns the text. -/
theorem Edits.newline (h : Edits hist maxLen color start s line) (hwaiting : line.returned = none) :
    Edits hist maxLen color start (lineKey hist maxLen color s (.char 10))
      (editKey hist maxLen line (.char 10)) := by
  have hopen : ¬line.returned.isSome = true := by rw [hwaiting]; exact Bool.false_ne_true
  have hopen' : ¬s.returned.isSome = true := by rw [h.returned]; exact hopen
  have hedit : editKey hist maxLen line (.char 10) =
      { line with returned := some (line.text.takeWhile (· ≠ 0)) } := by
    rw [editKey, if_neg hopen]
    rfl
  have htext : (lineKey hist maxLen color s (.char 10)).returned =
      some (line.text.takeWhile (· ≠ 0)) := by
    rw [lineKey, if_neg hopen', ← h.front hwaiting]
    exact congrArg some (text_eq_front { s with screen := s.screen.putChar 10 color })
  rw [hedit]
  have hended : some (line.text.takeWhile (· ≠ 0)) ≠ none := Option.some_ne_none _
  exact ⟨htext, fun h => absurd h hended, fun h => absurd h hended, fun h => absurd h hended⟩

/-- The characters in front of the edit position after a character. -/
theorem front_lineKey (hopen : s.returned = none) {c : UInt8} (hnewline : c ≠ 10) :
    (lineKey hist maxLen color s (.char c)).front = editChar maxLen s.front c := by
  have hwaiting : ¬s.returned.isSome = true := by rw [hopen]; exact Bool.false_ne_true
  have hkey : lineKey hist maxLen color s (.char c) = if c = 8 then
      if 0 < s.i then { s with i := s.i - 1, screen := s.screen.putChar 8 color } else s
      else if s.i < maxLen - 1 then
        { s.store s.i c with i := s.i + 1, screen := s.screen.putChar c color }
      else s := by
    rw [lineKey, if_neg hwaiting]
    exact if_neg hnewline
  rw [hkey, editChar, length_front]
  split
  · by_cases hsome : 0 < s.i
    · obtain ⟨k, hk⟩ := Nat.exists_eq_succ_of_ne_zero hsome.ne'
      rw [if_pos hsome, LineState.front, LineState.front]
      dsimp only
      rw [hk, Nat.succ_sub_one, List.range_succ, List.map_append, List.map_singleton,
        List.dropLast_concat]
    · have hzero : s.i = 0 := Nat.eq_zero_of_not_pos hsome
      rw [if_neg hsome, LineState.front, hzero]
      rfl
  · split
    · rw [LineState.front, LineState.front]
      dsimp only [LineState.store]
      rw [List.range_succ, List.map_append, List.map_singleton, Function.update_self]
      refine congrArg (· ++ [c]) (List.map_congr_left fun j hj => ?_)
      exact Function.update_of_ne (List.mem_range.mp hj).ne _ _
    · rfl

theorem arrow_up : Key.up.Arrow := trivial

theorem arrow_down : Key.down.Arrow := trivial

/-- The characters in front of the edit position after an arrow key. -/
theorem front_arrow (hopen : s.returned = none) (harrow : key.Arrow)
    (hfits : ∀ recalled, hist.recalled s.histScroll key = some recalled →
      recalled.length < maxLen) :
    (lineKey hist maxLen color s key).front =
      (hist.recalled s.histScroll key).getD (if key = .up then s.front else []) := by
  have hwaiting : ¬s.returned.isSome = true := by rw [hopen]; exact Bool.false_ne_true
  cases key with
  | up =>
    rw [History.recalled] at hfits ⊢
    rw [lineKey, if_neg hwaiting]
    split
    · rfl
    · rename_i hmore
      rw [if_neg hmore] at hfits
      exact front_recallLine (hfits _ rfl)
  | down =>
    rw [History.recalled] at hfits ⊢
    rw [lineKey, if_neg hwaiting]
    dsimp only
    split
    · rename_i hmore
      rw [if_pos hmore] at hfits
      exact front_recallLine (hfits _ rfl)
    · rfl
  | char c => exact harrow.elim

/-- Every key does to get_line what it does to the line. -/
theorem Edits.step (h : Edits hist maxLen color start s line) (hlong : maxLen ≤ 128)
    (hsound : hist.Sound) (hsent : key.Sent)
    (hfits : ∀ recalled, hist.recalled line.scroll key = some recalled →
      recalled.length < maxLen) :
    Edits hist maxLen color start (lineKey hist maxLen color s key)
      (editKey hist maxLen line key) := by
  by_cases hwaiting : line.returned = none
  · have hediting := h.editing hwaiting
    have hopen : ¬line.returned.isSome = true := by rw [hwaiting]; exact Bool.false_ne_true
    by_cases hkey : key = .char 10
    · rw [hkey]
      exact h.newline hwaiting
    · rw [← h.scroll hwaiting] at hfits
      obtain ⟨hnext, hscroll⟩ := hediting.step hlong hsound hsent hkey hfits
      have hfront : (lineKey hist maxLen color s key).front = (editKey hist maxLen line key).text ∧
          (editKey hist maxLen line key).scroll = hist.scrolled line.scroll key ∧
          (editKey hist maxLen line key).returned = none := by
        cases key with
        | up =>
          rw [editKey, if_neg hopen, front_arrow hediting.waiting arrow_up hfits,
            h.front hwaiting, h.scroll hwaiting]
          exact ⟨rfl, rfl, hwaiting⟩
        | down =>
          rw [editKey, if_neg hopen, front_arrow hediting.waiting arrow_down hfits,
            h.front hwaiting, h.scroll hwaiting]
          exact ⟨rfl, rfl, hwaiting⟩
        | char c =>
          have hnewline : c ≠ 10 := fun hsame => hkey (congrArg Key.char hsame)
          have hedit : editKey hist maxLen line (.char c) =
              { line with text := editChar maxLen line.text c } := by
            rw [editKey, if_neg hopen]
            exact if_neg hnewline
          rw [front_lineKey hediting.waiting hnewline, h.front hwaiting, hedit]
          exact ⟨rfl, rfl, hwaiting⟩
      obtain ⟨htext, hplace, hreturned⟩ := hfront
      rw [h.scroll hwaiting, ← hplace] at hscroll
      exact ⟨by rw [hnext.waiting, hreturned], fun _ => hnext, fun _ => htext, fun _ => hscroll⟩
  · exact h.ended hwaiting key

/-- A key behind which the line is still edited. -/
theorem editKey_open (hopen : (editKey hist maxLen line key).returned = none) :
    line.returned = none ∧ key ≠ .char 10 ∧
      (editKey hist maxLen line key).scroll = hist.scrolled line.scroll key := by
  by_cases hended : line.returned.isSome = true
  · have hsame : editKey hist maxLen line key = line := by
      cases key <;> rw [editKey, if_pos hended]
    rw [hsame] at hopen
    rw [hopen] at hended
    cases hended
  · have hwaiting : line.returned = none := Option.not_isSome_iff_eq_none.mp hended
    refine ⟨hwaiting, ?_⟩
    cases key with
    | up =>
      rw [editKey, if_neg hended]
      exact ⟨Key.noConfusion, rfl⟩
    | down =>
      rw [editKey, if_neg hended]
      exact ⟨Key.noConfusion, rfl⟩
    | char c =>
      rw [editKey, if_neg hended] at hopen ⊢
      split at hopen
      · cases hopen
      · rename_i hnewline
        rw [if_neg hnewline]
        exact ⟨fun hsame => hnewline (Key.char.inj hsame), rfl⟩

/-- A line in front of the first key. -/
def EditedLine.empty (scroll : ℤ) : EditedLine := ⟨[], scroll, none⟩

/-- What keys do to get_line they do to the line, while every line that is recalled fits. -/
theorem Edits.run (h : Edits hist maxLen color start s line) (hlong : maxLen ≤ 128)
    (hsound : hist.Sound) {keys : List Key} (hsent : ∀ key ∈ keys, key.Sent)
    (hfits : line.returned = none → ∀ recalled ∈ hist.recalls line.scroll keys,
      recalled.length < maxLen) :
    Edits hist maxLen color start (typeKeys hist maxLen color s keys)
      (editKeys hist maxLen line keys) := by
  induction keys generalizing s line with
  | nil => exact h
  | cons key rest ih =>
    have hlater : ∀ key ∈ rest, key.Sent := fun other hother =>
      hsent other (List.mem_cons_of_mem _ hother)
    have hnext : Edits hist maxLen color start (lineKey hist maxLen color s key)
        (editKey hist maxLen line key) := by
      by_cases hwaiting : line.returned = none
      · refine h.step hlong hsound (hsent key List.mem_cons_self) fun recalled hrecalled => ?_
        refine hfits hwaiting recalled ?_
        rw [History.recalls]
        split
        · rename_i hnewline
          rw [hnewline] at hrecalled
          cases hrecalled
        · exact List.mem_append_left _ (Option.mem_toList.mpr hrecalled)
      · exact h.ended hwaiting key
    rw [typeKeys, editKeys, List.foldl_cons, List.foldl_cons]
    refine ih hnext hlater fun hopen recalled hrecalled => ?_
    obtain ⟨hwaiting, hnewline, hscroll⟩ := editKey_open hopen
    refine hfits hwaiting recalled ?_
    rw [hscroll] at hrecalled
    rw [History.recalls, if_neg hnewline]
    exact List.mem_append_right _ hrecalled

/-- get_line at its begin. -/
theorem edits_start (hlow : 1 ≤ maxLen) (buffer : ℕ → UInt8) {scroll : ℤ}
    (hscrolls : hist.Scrolls scroll) (screen : Screen) (color : UInt8) :
    Edits hist maxLen color screen.pos (lineStart buffer scroll screen)
      (EditedLine.empty scroll) where
  returned := rfl
  editing _ := lineStart_editing hlow buffer hscrolls screen
  front _ := rfl
  scroll _ := rfl

/-- While it is edited, the text stands on the screen. -/
theorem Edits.shown (h : Edits hist maxLen color start s line) (hwaiting : line.returned = none) :
    s.screen.lineFrom start = line.text.map fun c => cell c color := by
  rw [(h.editing hwaiting).displays.line, ← h.front hwaiting, LineState.front, List.map_map]
  rfl

end Editor

section Keyboard

variable {hist : History} {maxLen : ℕ} {steps : List ConsoleStep} {console : Console}

/-- Without arrow keys nothing is recalled. -/
theorem recalls_chars {keys : List Key} (hkeys : ∀ key ∈ keys, ¬key.Arrow) (scroll : ℤ) :
    hist.recalls scroll keys = [] := by
  induction keys generalizing scroll with
  | nil => rfl
  | cons key rest ih =>
    obtain ⟨hkey, hrest⟩ := List.forall_mem_cons.mp hkeys
    rw [History.recalls]
    split
    · rfl
    · cases key with
      | up => exact absurd trivial hkey
      | down => exact absurd trivial hkey
      | char c => exact ih hrest _

/-- The character of a key that is no arrow key. -/
def Key.char? : Key → Option UInt8
  | .char c => some c
  | _ => none

/-- The keys that are no arrow keys are those with characters. -/
theorem filter_arrow (keys : List Key) :
    (keys.filter fun key => ¬key.Arrow) = (keys.filterMap Key.char?).map .char := by
  induction keys with
  | nil => rfl
  | cons key rest ih =>
    cases key with
    | up => exact ih
    | down => exact ih
    | char c => exact congrArg (Key.char c :: ·) ih

/-- The text of characters without newline. -/
def editedText (maxLen : ℕ) (chars : List UInt8) : List UInt8 := chars.foldl (editChar maxLen) []

/-- An edited text has characters that were typed. -/
theorem mem_foldl_editChar {chars text : List UInt8} {c : UInt8}
    (h : c ∈ chars.foldl (editChar maxLen) text) : c ∈ text ∨ c ∈ chars := by
  induction chars generalizing text with
  | nil => exact .inl h
  | cons d rest ih =>
    rcases ih h with htext | hrest
    · rw [editChar] at htext
      split at htext
      · exact .inl (List.mem_of_mem_dropLast htext)
      split at htext
      · rcases List.mem_append.mp htext with hold | hnew
        · exact .inl hold
        · rw [List.mem_singleton.mp hnew]
          exact .inr List.mem_cons_self
      · exact .inl htext
    · exact .inr (List.mem_cons_of_mem d hrest)

/-- The editor on characters, up to a newline. -/
theorem editKeys_chars (hist : History) (maxLen : ℕ) (chars text : List UInt8) (scroll : ℤ) :
    editKeys hist maxLen ⟨text, scroll, none⟩ (chars.map .char) =
      ⟨(chars.takeWhile (· ≠ 10)).foldl (editChar maxLen) text, scroll,
        if 10 ∈ chars then
          some (((chars.takeWhile (· ≠ 10)).foldl (editChar maxLen) text).takeWhile (· ≠ 0))
        else none⟩ := by
  induction chars generalizing text with
  | nil => rfl
  | cons c rest ih =>
    rw [List.map_cons, editKeys, List.foldl_cons, ← editKeys]
    have hopen : ¬(none : Option (List UInt8)).isSome = true := Bool.false_ne_true
    by_cases hnewline : c = 10
    · subst hnewline
      have hstays : ∀ keys, editKeys hist maxLen
          ⟨text, scroll, some (text.takeWhile (· ≠ 0))⟩ keys =
            ⟨text, scroll, some (text.takeWhile (· ≠ 0))⟩ := by
        intro keys
        induction keys with
        | nil => rfl
        | cons key keys ih =>
          rw [editKeys, List.foldl_cons, ← editKeys]
          have hsame : editKey hist maxLen ⟨text, scroll, some (text.takeWhile (· ≠ 0))⟩ key =
              ⟨text, scroll, some (text.takeWhile (· ≠ 0))⟩ := by
            cases key <;> rfl
          rw [hsame, ih]
      have hended : editKey hist maxLen ⟨text, scroll, none⟩ (.char 10) =
          ⟨text, scroll, some (text.takeWhile (· ≠ 0))⟩ := rfl
      rw [hended, hstays, if_pos List.mem_cons_self]
      rfl
    · have hkey : editKey hist maxLen ⟨text, scroll, none⟩ (.char c) =
          ⟨editChar maxLen text c, scroll, none⟩ := by
        rw [editKey, if_neg hopen]
        exact if_neg hnewline
      have hmem : 10 ∈ c :: rest ↔ 10 ∈ rest := by
        rw [List.mem_cons, or_iff_right (Ne.symm hnewline)]
      have htake : (c :: rest).takeWhile (· ≠ 10) = c :: rest.takeWhile (· ≠ 10) :=
        List.takeWhile_cons_of_pos (decide_eq_true hnewline)
      rw [hkey, ih, htake, List.foldl_cons]
      simp only [hmem]

/-- The keys that were fetched in a run of interrupts and rounds of get_char. -/
def fetchedKeys (shift : Bool) (steps : List ConsoleStep) : List Key :=
  (runSteps queueStep steps ⟨shift, [], []⟩).fetched

/-- The keys in a queue come from the maps. -/
theorem fetched_coded (shift : Bool) (steps : List ConsoleStep) :
    ∀ key ∈ fetchedKeys shift steps, key.Coded := by
  let coded : KeyQueue → Prop := fun queue =>
    (∀ key ∈ queue.waiting, key.Coded) ∧ ∀ key ∈ queue.fetched, key.Coded
  have hstep : ∀ step queue, coded queue → coded (queueStep step queue) := by
    intro step queue hcoded
    cases step with
    | irq sc =>
      refine ⟨fun key hkey => ?_, hcoded.2⟩
      rcases List.mem_append.mp hkey with hold | hnew
      · exact hcoded.1 key hold
      · exact pressed_coded (Option.mem_toList.mp hnew)
    | round special reads =>
      refine ⟨fun key hkey => hcoded.1 key (List.mem_of_mem_tail hkey), fun key hkey => ?_⟩
      rcases List.mem_append.mp hkey with hold | hnew
      · exact hcoded.2 key hold
      · exact hcoded.1 key (List.mem_of_head? (Option.mem_toList.mp hnew))
  have hstart : coded ⟨shift, [], []⟩ := ⟨List.forall_mem_nil _, List.forall_mem_nil _⟩
  exact (invariant_runSteps hstep steps hstart).2

/-- The characters that were fetched. -/
def fetchedChars (shift : Bool) (steps : List ConsoleStep) : List UInt8 :=
  (fetchedKeys shift steps).filterMap Key.char?

/-- Whatever way interrupts and rounds of get_char are interleaved, the keys are fetched in
the order in which they are pressed, and get_line makes of them the text that the editor
makes of them without the arrow keys. Before the newline the text is in the buffer and on the
screen, and newline returns it. -/
theorem getLine_edits (hempty : console.kbuf.Empty) (hidle : ∀ step ∈ steps, step.Idle)
    (hroom : EveryState queueStep (fun queue => queue.waiting.length ≤ 255) steps
      ⟨console.shiftPressed, [], []⟩)
    (hlow : 1 ≤ maxLen) (hlong : maxLen ≤ 128) (hsound : hist.Sound) {scroll : ℤ}
    (hscrolls : hist.Scrolls scroll) (buffer : ℕ → UInt8) (screen : Screen) (color : UInt8)
    {chars : List UInt8} (hchars : fetchedChars console.shiftPressed steps = chars)
    {s : LineState} (hs : typeKeys hist maxLen color (lineStart buffer scroll screen)
      (runSteps consoleStep steps ⟨console, []⟩).delivered = s) :
    fetchedKeys console.shiftPressed steps <+: presses console.shiftPressed steps ∧
      s.returned = (if 10 ∈ chars then some (editedText maxLen (chars.takeWhile (· ≠ 10)))
        else none) ∧
      (10 ∉ chars → s.front = editedText maxLen chars ∧
        s.screen.lineFrom screen.pos = (editedText maxLen chars).map fun c => cell c color) := by
  have hcoded : ∀ key ∈ chars.map Key.char, key.Coded ∧ key.Sent := by
    intro key hkey
    obtain ⟨c, hc, rfl⟩ := List.mem_map.mp hkey
    rw [← hchars] at hc
    obtain ⟨key, hkey, hchar⟩ := List.mem_filterMap.mp hc
    have hcoded := fetched_coded _ _ key hkey
    cases key with
    | up => cases hchar
    | down => cases hchar
    | char d =>
      obtain rfl : d = c := Option.some.inj hchar
      exact ⟨hcoded, hcoded.2.2⟩
  have hdelivered : (runSteps consoleStep steps ⟨console, []⟩).delivered = chars.map Key.char := by
    have hrelates := (relates_start hempty).run hidle hroom
    rw [hrelates.delivered, filter_arrow, ← hchars]
    rfl
  have hplain : ∀ key ∈ chars.map Key.char, ¬key.Arrow := by
    intro key hkey
    obtain ⟨c, -, rfl⟩ := List.mem_map.mp hkey
    exact id
  have hedits : Edits hist maxLen color screen.pos s
      (editKeys hist maxLen (EditedLine.empty scroll) (chars.map Key.char)) := by
    rw [← hs, hdelivered]
    refine (edits_start hlow buffer hscrolls screen color).run hlong hsound
      (fun key hkey => (hcoded key hkey).2) fun _ => ?_
    rw [recalls_chars hplain]
    exact List.forall_mem_nil _
  rw [EditedLine.empty, editKeys_chars] at hedits
  refine ⟨⟨_, queue_presses steps _⟩, ?_, ?_⟩
  · rw [hedits.returned]
    dsimp only
    split
    · refine congrArg some (List.takeWhile_eq_self_iff.mpr fun c hc => decide_eq_true ?_)
      rintro rfl
      rcases mem_foldl_editChar hc with hempty | hmem
      · cases hempty
      · have hzero := (hcoded (.char 0) (List.mem_map_of_mem (List.takeWhile_subset _ hmem))).1
        exact absurd hzero.1 (by decide)
    · rfl
  · intro hnone
    have hwhole : chars.takeWhile (· ≠ 10) = chars :=
      List.takeWhile_eq_self_iff.mpr fun c hc => decide_eq_true fun hsame => hnone (hsame ▸ hc)
    have hopen : (if 10 ∈ chars then some (((chars.takeWhile (· ≠ 10)).foldl (editChar maxLen)
        []).takeWhile (· ≠ 0)) else none : Option (List UInt8)) = none := if_neg hnone
    have hfront := hedits.front hopen
    have hshown := hedits.shown hopen
    rw [hwhole] at hfront hshown
    exact ⟨hfront, hshown⟩

/-- The key a, backspace, shift and b, then newline, each fetched when it comes. -/
def shiftedSteps : List ConsoleStep :=
  [.irq 0x1E, .round true idlePorts, .irq 0x0E, .round true idlePorts, .irq 0x2A, .irq 0x30,
    .irq 0xAA, .irq 0x1C, .round true idlePorts, .round true idlePorts]

theorem boot_sound : History.boot.Sound :=
  ⟨by decide, by decide, fun _ => Nat.succ_pos 127, fun _ => List.forall_mem_nil _,
    fun _ => List.forall_mem_nil _⟩

theorem boot_scrolls : History.boot.Scrolls (-1) := ⟨le_refl _, Int.negSucc_lt_zero 0⟩

/-- get_line returns `B`. -/
theorem getLine_edits_shifted :
    (typeKeys History.boot 16 0 (lineStart (fun _ => 0) (-1) Screen.blank)
      (runSteps consoleStep shiftedSteps ⟨idleConsole, []⟩).delivered).returned = some [66] := by
  have hempty : idleConsole.kbuf.Empty := by decide
  have hroom : EveryState queueStep (fun queue => queue.waiting.length ≤ 255) shiftedSteps
      ⟨idleConsole.shiftPressed, [], []⟩ := by
    simp only [EveryState, shiftedSteps]
    decide
  have hedits := (getLine_edits hempty (by decide) hroom (show 1 ≤ 16 by decide) (by decide)
    boot_sound boot_scrolls (fun _ => 0) Screen.blank 0 rfl rfl).2.1
  rw [hedits]
  decide

end Keyboard

end HexaOS.Terminal
