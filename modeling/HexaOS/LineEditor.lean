import HexaOS.Screens
import HexaOS.ShellText
import Mathlib.Data.List.TakeWhile
import Mathlib.Tactic.Linarith

/-!
# The line editor

get_line with the history of kernel_main. While every line that is recalled fits into the
buffer, the cells in front of the cursor are the characters in front of the edit position. A
longer line is cut when it is copied, but not when the position and the end are set.
-/

namespace HexaOS.Terminal

open Hexafs Screen

section Code

/-- HIST_MAX -/
def histMax : ℕ := 16

/-- hist_buf with hist_idx and hist_count. -/
structure History where
  /-- The strings in hist_buf. -/
  lines : ℕ → List UInt8
  /-- hist_idx -/
  idx : ℕ
  /-- hist_count -/
  count : ℕ

/-- A result of get_char. -/
inductive Key where
  /-- The special key 1. -/
  | up
  /-- The special key 2. -/
  | down
  | char (c : UInt8)
  deriving DecidableEq

/-- The variables of get_line, with what is stored and what is returned. -/
structure LineState where
  /-- The memory from buffer on. -/
  buffer : ℕ → UInt8
  /-- The next place in the buffer. -/
  i : ℕ
  /-- hist_scroll -/
  histScroll : ℤ
  /-- The screen. -/
  screen : Screen
  /-- The indices of buffer that something was stored at. -/
  stores : List ℕ
  /-- The string in buffer after the return. -/
  returned : Option (List UInt8)

variable (hist : History) (maxLen : ℕ) (color : UInt8)

/-- `buffer[k] = c` -/
def LineState.store (s : LineState) (k : ℕ) (c : UInt8) : LineState :=
  { s with buffer := Function.update s.buffer k c, stores := s.stores ++ [k] }

/-- The string in buffer when there is a 0 at the edit position. -/
def LineState.text (s : LineState) : List UInt8 :=
  ((List.range (s.i + 1)).map s.buffer).takeWhile (· ≠ 0)

/-- The characters in front of the edit position. -/
def LineState.front (s : LineState) : List UInt8 := (List.range s.i).map s.buffer

/-- `while (i > 0) { put_char('\b'); i--; }` on the screen. -/
def eraseCells : ℕ → Screen → Screen
  | 0, screen => screen
  | i + 1, screen => eraseCells i (screen.putChar 8 color)

/-- `while (i > 0) { put_char('\b'); i--; }` -/
def eraseLine (s : LineState) : LineState :=
  { s with screen := eraseCells color s.i s.screen, i := 0 }

/-- The loop that copies a line of the history, from index k on. -/
def copyLine : ℕ → List UInt8 → LineState → LineState
  | _, [], s => s
  | k, c :: rest, s => copyLine (k + 1) rest { s.store k c with screen := s.screen.putChar c color }

/-- The line of the history at hist_scroll. -/
def History.line (scroll : ℤ) : List UInt8 :=
  hist.lines (((hist.idx : ℤ) - scroll - 1 + histMax).tmod histMax).toNat

/-- Show the line of the history at hist_scroll. -/
def recallLine (s : LineState) : LineState :=
  let line := hist.line s.histScroll
  let copied := copyLine color 0 (line.take (maxLen - 1)) s
  { copied with i := line.length }.store line.length 0

/-- One round of get_line. -/
def lineKey (s : LineState) (key : Key) : LineState :=
  if s.returned.isSome then s
  else
    match key with
    | .up =>
      if hist.count = 0 ∨ (hist.count : ℤ) - 1 ≤ s.histScroll then s
      else recallLine hist maxLen color (eraseLine color { s with histScroll := s.histScroll + 1 })
    | .down =>
      if 0 < s.histScroll then
        recallLine hist maxLen color { eraseLine color s with histScroll := s.histScroll - 1 }
      else ({ eraseLine color s with histScroll := -1 }).store 0 0
    | .char c =>
      if c = 10 then
        let ended := ({ s with screen := s.screen.putChar 10 color }).store s.i 0
        { ended with
          histScroll := if 0 < s.i then -1 else s.histScroll
          returned := some ended.text }
      else if c = 8 then
        if 0 < s.i then { s with i := s.i - 1, screen := s.screen.putChar 8 color } else s
      else if s.i < maxLen - 1 then
        { s.store s.i c with i := s.i + 1, screen := s.screen.putChar c color }
      else s

/-- get_line on the keys that get_char returns. -/
def typeKeys (s : LineState) (keys : List Key) : LineState :=
  keys.foldl (lineKey hist maxLen color) s

/-- get_line at its begin. -/
def lineStart (buffer : ℕ → UInt8) (histScroll : ℤ) (screen : Screen) : LineState :=
  ⟨buffer, 0, histScroll, screen, [], none⟩

/-- What kernel_main does with a line. -/
def History.remember (line : List UInt8) : History :=
  if line = [] then hist
  else
    { lines := Function.update hist.lines hist.idx line
      idx := (hist.idx + 1) % histMax
      count := if hist.count < histMax then hist.count + 1 else hist.count }

end Code

section Specification

variable (hist : History) (maxLen : ℕ) (color : UInt8) (start : ℕ)

/-- get_char returns '\n' in the place of a carriage return. -/
def Key.Sent : Key → Prop
  | .char c => c ≠ 13
  | _ => True

instance (key : Key) : Decidable key.Sent :=
  match key with
  | .up => isTrue trivial
  | .down => isTrue trivial
  | .char c => inferInstanceAs (Decidable (c ≠ 13))

/-- The history that kernel_main keeps: strings of characters that keys have, each in 128 bytes. -/
structure History.Sound : Prop where
  /-- The next line is one of the table. -/
  idx : hist.idx < histMax
  /-- There are no more lines than the table has. -/
  count : hist.count ≤ histMax
  /-- Every line is short. -/
  short : ∀ j, (hist.lines j).length < 128
  /-- No line has a control character. -/
  plain : ∀ j, ∀ c ∈ hist.lines j, Plain c
  /-- No line has a zero. -/
  nonzero : ∀ j, ∀ c ∈ hist.lines j, c ≠ 0

/-- hist_scroll is -1 or in the history. -/
def History.Scrolls (scroll : ℤ) : Prop := -1 ≤ scroll ∧ scroll < hist.count

/-- hist_scroll after a key other than newline. -/
def History.scrolled (scroll : ℤ) : Key → ℤ
  | .up => if hist.count = 0 ∨ (hist.count : ℤ) - 1 ≤ scroll then scroll else scroll + 1
  | .down => if 0 < scroll then scroll - 1 else -1
  | .char _ => scroll

/-- The line that a key recalls. -/
def History.recalled (scroll : ℤ) : Key → Option (List UInt8)
  | .up =>
    if hist.count = 0 ∨ (hist.count : ℤ) - 1 ≤ scroll then none else some (hist.line (scroll + 1))
  | .down => if 0 < scroll then some (hist.line (scroll - 1)) else none
  | .char _ => none

/-- The lines that are recalled before the newline. -/
def History.recalls : ℤ → List Key → List (List UInt8)
  | _, [] => []
  | scroll, key :: rest =>
    if key = .char 10 then []
    else (hist.recalled scroll key).toList ++ History.recalls (hist.scrolled scroll key) rest

/-- Nothing is stored beside the buffer, the edit position is the length of the line on the
screen, and the string that is returned fits. -/
structure Contained (s : LineState) : Prop where
  /-- Stores are inside the buffer. -/
  stores : ∀ k ∈ s.stores, k < maxLen
  /-- The line on the screen is as long as that in the buffer. -/
  position : s.returned = none → s.i = (s.screen.lineFrom start).length
  /-- The line that is returned fits the buffer. -/
  result : ∀ line, s.returned = some line → line.length < maxLen

/-- The first k characters in the buffer are what stands on the screen. -/
structure Displays (s : LineState) (k : ℕ) : Prop where
  /-- The prompt stays. -/
  shows : s.screen.Shows start
  /-- The cursor is behind the line. -/
  pos : s.screen.pos = start + k
  /-- The line on the screen is that in the buffer. -/
  line : s.screen.lineFrom start = (List.range k).map fun j => cell (s.buffer j) color
  /-- The line fits. -/
  short : k < maxLen
  /-- It has no control characters. -/
  plain : ∀ j < k, Plain (s.buffer j)
  /-- Stores are inside the buffer. -/
  stores : ∀ j ∈ s.stores, j < maxLen

/-- get_line waits for a key. -/
structure Editing (s : LineState) : Prop where
  /-- The screen shows the buffer. -/
  displays : Displays maxLen color start s s.i
  /-- The history stands at a line of it. -/
  scrolls : hist.Scrolls s.histScroll
  /-- Newline was not typed. -/
  waiting : s.returned = none

end Specification

section Displayed

variable {hist : History} {maxLen : ℕ} {color : UInt8} {start : ℕ} {s : LineState} {k : ℕ}

/-- The line on the screen is as long as the text. -/
theorem Displays.length (h : Displays maxLen color start s k) :
    (s.screen.lineFrom start).length = k := by
  rw [h.line, List.length_map, List.length_range]

/-- What is displayed does not depend on the other variables. -/
theorem Displays.of_same {s' : LineState} (h : Displays maxLen color start s k)
    (hbuffer : s'.buffer = s.buffer) (hscreen : s'.screen = s.screen)
    (hstores : s'.stores = s.stores) : Displays maxLen color start s' k := by
  obtain ⟨hshows, hpos, hline, hshort, hplain, hinside⟩ := h
  rw [← hscreen] at hshows hpos hline
  rw [← hbuffer] at hline hplain
  rw [← hstores] at hinside
  exact ⟨hshows, hpos, hline, hshort, hplain, hinside⟩

/-- A character that is put behind the text. -/
theorem Displays.push (h : Displays maxLen color start s k) (hlong : maxLen ≤ 128) {c : UInt8}
    (hplain : Plain c) (hroom : k + 1 < maxLen) :
    Displays maxLen color start { s.store k c with screen := s.screen.putChar c color }
      (k + 1) := by
  have hshort : s.screen.pos - start < 1920 := by
    have hpos := h.pos
    omega
  obtain ⟨hshows, hpos, hline⟩ := putChar_plain color hplain h.shows hshort
  have hbuffer : ∀ j < k, Function.update s.buffer k c j = s.buffer j :=
    fun j hj => Function.update_of_ne hj.ne _ _
  refine ⟨hshows, ?_, ?_, hroom, ?_, ?_⟩
  · show (s.screen.putChar c color).pos = _
    rw [hpos, h.pos, Nat.add_assoc]
  · show (s.screen.putChar c color).lineFrom start =
      (List.range (k + 1)).map fun j => cell (Function.update s.buffer k c j) color
    rw [hline, h.line, List.range_succ, List.map_append, List.map_singleton,
      Function.update_self]
    congr 1
    refine List.map_congr_left fun j hj => ?_
    rw [hbuffer j (List.mem_range.mp hj)]
  · intro j hj
    show Plain (Function.update s.buffer k c j)
    rcases Nat.lt_succ_iff_lt_or_eq.mp hj with hless | rfl
    · rw [hbuffer j hless]
      exact h.plain j hless
    · rw [Function.update_self]
      exact hplain
  · intro j hj
    rcases List.mem_append.mp hj with hold | hnew
    · exact h.stores j hold
    · have hsame := List.mem_singleton.mp hnew
      omega

/-- A store behind the text. -/
theorem Displays.store (h : Displays maxLen color start s k) (c : UInt8) :
    Displays maxLen color start (s.store k c) k := by
  have hbuffer : ∀ j < k, Function.update s.buffer k c j = s.buffer j :=
    fun j hj => Function.update_of_ne hj.ne _ _
  refine ⟨h.shows, h.pos, ?_, h.short, ?_, ?_⟩
  · show s.screen.lineFrom start =
      (List.range k).map fun j => cell (Function.update s.buffer k c j) color
    rw [h.line]
    refine List.map_congr_left fun j hj => ?_
    rw [hbuffer j (List.mem_range.mp hj)]
  · intro j hj
    show Plain (Function.update s.buffer k c j)
    rw [hbuffer j hj]
    exact h.plain j hj
  · intro j hj
    rcases List.mem_append.mp hj with hold | hnew
    · exact h.stores j hold
    · rw [List.mem_singleton.mp hnew]
      exact h.short

/-- The last character is erased. -/
theorem Displays.pop (h : Displays maxLen color start s (k + 1)) :
    Displays maxLen color start { s with screen := s.screen.putChar 8 color } k := by
  have hsome : start < s.screen.pos := by
    rw [h.pos]
    omega
  obtain ⟨hshows, hpos, hline⟩ := putChar_back color h.shows hsome
  have hshort := h.short
  refine ⟨hshows, ?_, ?_, by omega, fun j hj => h.plain j (by omega), h.stores⟩
  · show (s.screen.putChar 8 color).pos = _
    have hold := h.pos
    omega
  · show (s.screen.putChar 8 color).lineFrom start = _
    rw [hline, h.line, List.range_succ, List.map_append, List.map_singleton,
      List.dropLast_concat]

/-- All characters are erased. -/
theorem Displays.erase (h : Displays maxLen color start s k) :
    Displays maxLen color start { s with screen := eraseCells color k s.screen } 0 := by
  induction k generalizing s with
  | zero => exact h
  | succ k ih => exact ih h.pop

/-- A line is copied behind the text. -/
theorem Displays.copy (h : Displays maxLen color start s k) (hlong : maxLen ≤ 128)
    {line : List UInt8} (hplain : ∀ c ∈ line, Plain c) (hroom : k + line.length < maxLen) :
    Displays maxLen color start (copyLine color k line s) (k + line.length) := by
  induction line generalizing s k with
  | nil => exact h
  | cons c rest ih =>
    rw [List.length_cons] at hroom ⊢
    have hpushed := h.push hlong (hplain c List.mem_cons_self) (by omega)
    have hcopied := ih hpushed (fun c hc => hplain c (List.mem_cons_of_mem _ hc)) (by omega)
    rw [show k + (rest.length + 1) = k + 1 + rest.length by omega]
    exact hcopied

/-- Copying leaves the rest of the state alone. -/
theorem copyLine_keeps (color : UInt8) (k : ℕ) (line : List UInt8) (s : LineState) :
    (copyLine color k line s).histScroll = s.histScroll ∧
      (copyLine color k line s).returned = s.returned := by
  induction line generalizing s k with
  | nil => exact ⟨rfl, rfl⟩
  | cons c rest ih => exact ih _ _

end Displayed

section Steps

variable {hist : History} {maxLen : ℕ} {color : UInt8} {start : ℕ} {s : LineState} {key : Key}

/-- Every line at hist_scroll is a sound one. -/
theorem History.Sound.line (h : hist.Sound) (scroll : ℤ) :
    (hist.line scroll).length < 128 ∧ (∀ c ∈ hist.line scroll, Plain c) ∧
      ∀ c ∈ hist.line scroll, c ≠ 0 :=
  ⟨h.short _, h.plain _, h.nonzero _⟩

/-- hist_scroll stays in the history. -/
theorem History.Scrolls.scrolled {scroll : ℤ} (h : hist.Scrolls scroll) (key : Key) :
    hist.Scrolls (hist.scrolled scroll key) := by
  obtain ⟨hlow, hhigh⟩ := h
  have hcount : (0 : ℤ) ≤ hist.count := Int.natCast_nonneg _
  cases key with
  | up =>
    show hist.Scrolls (if _ then _ else _)
    split
    · exact ⟨hlow, hhigh⟩
    · rename_i hmore
      rw [not_or, not_le] at hmore
      show -1 ≤ scroll + 1 ∧ scroll + 1 < (hist.count : ℤ)
      omega
  | down =>
    show hist.Scrolls (if _ then _ else _)
    split
    · show -1 ≤ scroll - 1 ∧ scroll - 1 < (hist.count : ℤ)
      omega
    · exact ⟨le_refl _, by omega⟩
  | char c => exact ⟨hlow, hhigh⟩

/-- A line that fits is recalled to an empty line. -/
theorem Displays.recalled (h : Displays maxLen color start s 0) (hlong : maxLen ≤ 128)
    (hsound : hist.Sound) (hfits : (hist.line s.histScroll).length < maxLen) :
    Displays maxLen color start (recallLine hist maxLen color s)
        (recallLine hist maxLen color s).i ∧
      (recallLine hist maxLen color s).histScroll = s.histScroll ∧
      (recallLine hist maxLen color s).returned = s.returned := by
  have htake : (hist.line s.histScroll).take (maxLen - 1) = hist.line s.histScroll :=
    List.take_of_length_le (by omega)
  have hcopied := h.copy hlong (hsound.line s.histScroll).2.1 (by omega)
  obtain ⟨hscroll, hreturned⟩ := copyLine_keeps color 0 (hist.line s.histScroll) s
  rw [Nat.zero_add] at hcopied
  have hrecall : recallLine hist maxLen color s =
      ({ copyLine color 0 (hist.line s.histScroll) s with
        i := (hist.line s.histScroll).length }).store (hist.line s.histScroll).length 0 := by
    rw [recallLine, htake]
  rw [hrecall]
  exact ⟨(hcopied.store 0).of_same rfl rfl rfl, hscroll, hreturned⟩

/-- A line is erased before another one is recalled. -/
theorem Editing.erased (h : Editing hist maxLen color start s) :
    Displays maxLen color start (eraseLine color s) 0 :=
  h.displays.erase.of_same rfl rfl rfl

/-- The step of get_line on a key other than newline. -/
theorem Editing.step (h : Editing hist maxLen color start s) (hlong : maxLen ≤ 128)
    (hsound : hist.Sound) (hsent : key.Sent) (hkey : key ≠ .char 10)
    (hfits : ∀ line, hist.recalled s.histScroll key = some line → line.length < maxLen) :
    Editing hist maxLen color start (lineKey hist maxLen color s key) ∧
      (lineKey hist maxLen color s key).histScroll = hist.scrolled s.histScroll key := by
  have hscrolls := h.scrolls.scrolled key
  have hwaiting := h.waiting
  have hopen : ¬s.returned.isSome = true := by rw [hwaiting]; exact Bool.false_ne_true
  cases key with
  | up =>
    rw [lineKey, if_neg hopen]
    rw [History.recalled] at hfits
    rw [History.scrolled] at hscrolls ⊢
    show Editing _ _ _ _ (if _ then _ else _) ∧ _
    split at hscrolls
    · rename_i hlast
      rw [if_pos hlast, if_pos hlast]
      exact ⟨h, rfl⟩
    · rename_i hmore
      rw [if_neg hmore] at hfits
      rw [if_neg hmore, if_neg hmore]
      have hempty : Displays maxLen color start
          (eraseLine color { s with histScroll := s.histScroll + 1 }) 0 :=
        h.erased.of_same rfl rfl rfl
      obtain ⟨hdisplays, hscroll, hreturned⟩ := hempty.recalled hlong hsound (hfits _ rfl)
      exact ⟨⟨hdisplays, by rw [hscroll]; exact hscrolls, by rw [hreturned]; exact hwaiting⟩,
        hscroll⟩
  | down =>
    rw [lineKey, if_neg hopen]
    rw [History.recalled] at hfits
    rw [History.scrolled] at hscrolls ⊢
    show Editing _ _ _ _ (if _ then _ else _) ∧ _
    split at hscrolls
    · rename_i hmore
      rw [if_pos hmore] at hfits
      rw [if_pos hmore, if_pos hmore]
      have hempty : Displays maxLen color start
          { eraseLine color s with histScroll := s.histScroll - 1 } 0 :=
        h.erased.of_same rfl rfl rfl
      obtain ⟨hdisplays, hscroll, hreturned⟩ := hempty.recalled hlong hsound (hfits _ rfl)
      exact ⟨⟨hdisplays, by rw [hscroll]; exact hscrolls, by rw [hreturned]; exact hwaiting⟩,
        hscroll⟩
    · rename_i hlast
      rw [if_neg hlast, if_neg hlast]
      have hempty := h.erased.store 0
      exact ⟨⟨hempty.of_same rfl rfl rfl, hscrolls, hwaiting⟩, rfl⟩
  | char c =>
    have hnewline : c ≠ 10 := fun hsame => hkey (congrArg Key.char hsame)
    rw [lineKey, if_neg hopen]
    show Editing _ _ _ _ (if _ then _ else _) ∧ _
    rw [if_neg hnewline]
    by_cases hback : c = 8
    · rw [if_pos hback]
      by_cases hsome : 0 < s.i
      · rw [if_pos hsome]
        obtain ⟨k, hk⟩ := Nat.exists_eq_succ_of_ne_zero hsome.ne'
        have hdisplays := h.displays
        rw [hk] at hdisplays
        have hpopped := hdisplays.pop
        have hindex : s.i - 1 = k := by omega
        refine ⟨⟨?_, h.scrolls, hwaiting⟩, rfl⟩
        show Displays _ _ _ _ (s.i - 1)
        rw [hindex]
        exact hpopped.of_same rfl rfl rfl
      · rw [if_neg hsome]
        exact ⟨h, rfl⟩
    · rw [if_neg hback]
      by_cases hroom : s.i < maxLen - 1
      · rw [if_pos hroom]
        have hpushed := h.displays.push hlong ⟨hback, hnewline, hsent⟩ (by omega)
        exact ⟨⟨hpushed.of_same rfl rfl rfl, h.scrolls, hwaiting⟩, rfl⟩
      · rw [if_neg hroom]
        exact ⟨h, rfl⟩

/-- The string that ends at the edit position. -/
theorem text_eq_front (s : LineState) :
    (s.store s.i 0).text = s.front.takeWhile (· ≠ 0) := by
  have hfront : (List.range s.i).map (Function.update s.buffer s.i 0) = s.front := by
    refine List.map_congr_left fun j hj => ?_
    exact Function.update_of_ne (List.mem_range.mp hj).ne _ _
  show ((List.range (s.i + 1)).map (Function.update s.buffer s.i 0)).takeWhile _ = _
  rw [List.range_succ, List.map_append, List.map_singleton, Function.update_self, hfront,
    List.takeWhile_append]
  split
  · rename_i hwhole
    rw [List.takeWhile_cons_of_neg (by decide), List.append_nil]
    exact ((List.takeWhile_prefix _).eq_of_length hwhole).symm
  · rfl

/-- It is no longer than the position, and its characters are those in front of it. -/
theorem text_store (s : LineState) : (s.store s.i 0).text.length ≤ s.i ∧
    ∀ c ∈ (s.store s.i 0).text, c ≠ 0 ∧ ∃ j < s.i, c = s.buffer j := by
  rw [text_eq_front]
  refine ⟨?_, fun c hc => ?_⟩
  · have hle := (List.takeWhile_sublist (· ≠ 0) (l := s.front)).length_le
    rw [LineState.front, List.length_map, List.length_range] at hle
    exact hle
  · have hnonzero := List.mem_takeWhile_imp hc
    obtain ⟨j, hj, rfl⟩ := List.mem_map.mp (List.takeWhile_subset _ hc)
    exact ⟨of_decide_eq_true hnonzero, j, List.mem_range.mp hj, rfl⟩

/-- Newline ends the line. -/
theorem Editing.newline (h : Editing hist maxLen color start s) :
    ∃ line, (lineKey hist maxLen color s (.char 10)).returned = some line ∧
      line.length < maxLen ∧ (∀ c ∈ line, Plain c) ∧ (∀ c ∈ line, c ≠ 0) ∧
      (∀ k ∈ (lineKey hist maxLen color s (.char 10)).stores, k < maxLen) ∧
      hist.Scrolls (lineKey hist maxLen color s (.char 10)).histScroll := by
  have hopen : ¬s.returned.isSome = true := by rw [h.waiting]; exact Bool.false_ne_true
  obtain ⟨hlength, hchars⟩ := text_store { s with screen := s.screen.putChar 10 color }
  rw [lineKey, if_neg hopen]
  refine ⟨_, rfl, Nat.lt_of_le_of_lt hlength h.displays.short, fun c hc => ?_,
    fun c hc => (hchars c hc).1, fun k hk => ?_, ?_⟩
  · obtain ⟨-, j, hj, rfl⟩ := hchars c hc
    exact h.displays.plain j hj
  · rcases List.mem_append.mp hk with hold | hnew
    · exact h.displays.stores k hold
    · rw [List.mem_singleton.mp hnew]
      exact h.displays.short
  · show hist.Scrolls (if _ then _ else _)
    split
    · exact ⟨le_refl _, by have hcount := h.scrolls; rw [History.Scrolls] at hcount; omega⟩
    · exact h.scrolls

/-- A line that does not fit is recalled with a store behind the buffer. -/
theorem lineKey_overlong (color : UInt8) {line : List UInt8} (hwaiting : s.returned = none)
    (hrecalled : hist.recalled s.histScroll key = some line) (hlong : maxLen ≤ line.length) :
    ∃ k ∈ (lineKey hist maxLen color s key).stores, maxLen ≤ k := by
  have hopen : ¬s.returned.isSome = true := by rw [hwaiting]; exact Bool.false_ne_true
  have hrecall : ∀ s' : LineState, hist.line s'.histScroll = line →
      line.length ∈ (recallLine hist maxLen color s').stores := by
    rintro s' rfl
    exact List.mem_append_right _ (List.mem_singleton.mpr rfl)
  refine ⟨line.length, ?_, hlong⟩
  cases key with
  | up =>
    rw [lineKey, if_neg hopen]
    rw [History.recalled] at hrecalled
    split at hrecalled
    · cases hrecalled
    · rename_i hmore
      show _ ∈ (if _ then _ else _ : LineState).stores
      rw [if_neg hmore]
      exact hrecall _ (Option.some.inj hrecalled)
  | down =>
    rw [lineKey, if_neg hopen]
    rw [History.recalled] at hrecalled
    split at hrecalled
    · rename_i hmore
      show _ ∈ (if _ then _ else _ : LineState).stores
      rw [if_pos hmore]
      exact hrecall _ (Option.some.inj hrecalled)
    · cases hrecalled
  | char c => cases hrecalled

end Steps

section Runs

variable {hist : History} {maxLen : ℕ} {color : UInt8} {start : ℕ} {s : LineState}

/-- The state after some keys is contained when get_line waits. -/
theorem Editing.contained (h : Editing hist maxLen color start s) : Contained maxLen start s where
  stores := h.displays.stores
  position _ := h.displays.length.symm
  result line hline := by rw [h.waiting] at hline; cases hline

/-- get_line does nothing after its return. -/
theorem typeKeys_returned {line : List UInt8} (hreturned : s.returned = some line)
    (keys : List Key) : typeKeys hist maxLen color s keys = s := by
  induction keys with
  | nil => rfl
  | cons key rest ih =>
    have hstays : lineKey hist maxLen color s key = s := by
      have hended : s.returned.isSome = true := by rw [hreturned]; rfl
      cases key with
      | up => rw [lineKey, if_pos hended]
      | down => rw [lineKey, if_pos hended]
      | char c => rw [lineKey, if_pos hended]
    rw [typeKeys, List.foldl_cons, hstays]
    exact ih

/-- Keys after the first one. -/
theorem forall_take_cons {key : Key} {rest : List Key} {post : LineState → Prop} :
    (∀ n, post (typeKeys hist maxLen color s ((key :: rest).take n))) ↔
      post s ∧ ∀ n, post (typeKeys hist maxLen color (lineKey hist maxLen color s key)
        (rest.take n)) := by
  constructor
  · intro h
    exact ⟨h 0, fun n => h (n + 1)⟩
  · rintro ⟨hfirst, hrest⟩ n
    cases n with
    | zero => exact hfirst
    | succ n => exact hrest n

/-- A run is contained just when no line that does not fit is recalled. -/
theorem Editing.run (h : Editing hist maxLen color start s) (hlong : maxLen ≤ 128)
    (hsound : hist.Sound) {keys : List Key} (hsent : ∀ key ∈ keys, key.Sent) :
    (∀ n, Contained maxLen start (typeKeys hist maxLen color s (keys.take n))) ↔
      ∀ line ∈ hist.recalls s.histScroll keys, line.length < maxLen := by
  induction keys generalizing s with
  | nil =>
    refine iff_of_true (fun n => ?_) (List.forall_mem_nil _)
    rw [List.take_nil]
    exact h.contained
  | cons key rest ih =>
    have hrest : ∀ key ∈ rest, key.Sent := fun key hkey => hsent key (List.mem_cons_of_mem _ hkey)
    rw [forall_take_cons, History.recalls]
    by_cases hkey : key = .char 10
    · subst hkey
      rw [if_pos rfl]
      obtain ⟨line, hreturned, hshort, -, -, hstores, -⟩ := h.newline
      refine iff_of_true ⟨h.contained, fun n => ?_⟩ (List.forall_mem_nil _)
      rw [typeKeys_returned hreturned]
      refine ⟨hstores, fun hopen => ?_, fun line' hline' => ?_⟩
      · rw [hreturned] at hopen
        cases hopen
      · rw [hreturned] at hline'
        exact Option.some.inj hline' ▸ hshort
    · rw [if_neg hkey]
      by_cases hfits : ∀ line, hist.recalled s.histScroll key = some line → line.length < maxLen
      · obtain ⟨hnext, hscroll⟩ := h.step hlong hsound (hsent key List.mem_cons_self) hkey hfits
        have hinner := ih hnext hrest
        rw [hscroll] at hinner
        rw [hinner, and_iff_right h.contained]
        constructor
        · intro hlater line hline
          rcases List.mem_append.mp hline with hnow | hlate
          · exact hfits line (Option.mem_toList.mp hnow)
          · exact hlater line hlate
        · intro hall line hline
          exact hall line (List.mem_append_right _ hline)
      · obtain ⟨line, hline⟩ := not_forall.mp hfits
        obtain ⟨hrecalled, hover⟩ := Classical.not_imp.mp hline
        have hlarge : maxLen ≤ line.length := not_lt.mp hover
        obtain ⟨k, hk, hbehind⟩ :=
          lineKey_overlong color h.waiting hrecalled hlarge
        refine iff_of_false (fun hrun => ?_) fun hall => ?_
        · have hinside := (hrun.2 0).stores k hk
          omega
        · exact hover (hall line
            (List.mem_append_left _ (Option.mem_toList.mpr hrecalled)))

/-- What get_line returns when every line that it recalls fits. -/
theorem Editing.result (h : Editing hist maxLen color start s) (hlong : maxLen ≤ 128)
    (hsound : hist.Sound) {keys : List Key} (hsent : ∀ key ∈ keys, key.Sent)
    (hfits : ∀ line ∈ hist.recalls s.histScroll keys, line.length < maxLen) {line : List UInt8}
    (hreturned : (typeKeys hist maxLen color s keys).returned = some line) :
    line.length < maxLen ∧ (∀ c ∈ line, Plain c) ∧ (∀ c ∈ line, c ≠ 0) ∧
      hist.Scrolls (typeKeys hist maxLen color s keys).histScroll := by
  induction keys generalizing s with
  | nil =>
    rw [typeKeys, List.foldl_nil, h.waiting] at hreturned
    cases hreturned
  | cons key rest ih =>
    rw [typeKeys, List.foldl_cons, ← typeKeys] at hreturned ⊢
    rw [History.recalls] at hfits
    by_cases hkey : key = .char 10
    · subst hkey
      obtain ⟨line', hended, hshort, hplain, hnonzero, -, hscrolls⟩ := h.newline
      rw [typeKeys_returned hended] at hreturned ⊢
      rw [hended] at hreturned
      obtain rfl := Option.some.inj hreturned
      exact ⟨hshort, hplain, hnonzero, hscrolls⟩
    · rw [if_neg hkey] at hfits
      have hnow : ∀ line, hist.recalled s.histScroll key = some line → line.length < maxLen :=
        fun line hline => hfits line (List.mem_append_left _ (Option.mem_toList.mpr hline))
      obtain ⟨hnext, hscroll⟩ := h.step hlong hsound (hsent key List.mem_cons_self) hkey hnow
      refine ih hnext (fun key hkey => hsent key (List.mem_cons_of_mem _ hkey)) ?_ hreturned
      rw [hscroll]
      exact fun line hline => hfits line (List.mem_append_right _ hline)

/-- get_line at its begin waits for a key. -/
theorem lineStart_editing (hlow : 1 ≤ maxLen) (buffer : ℕ → UInt8) {scroll : ℤ}
    (hscrolls : hist.Scrolls scroll) (screen : Screen) :
    Editing hist maxLen color screen.pos (lineStart buffer scroll screen) where
  displays :=
    { shows := ⟨by rw [Screen.pos]; show screen.scrolled * 80 ≤ _; omega, le_refl _⟩
      pos := rfl
      line := by
        show (List.range (screen.pos - screen.pos)).map _ = _
        rw [Nat.sub_self]
        rfl
      short := hlow
      plain := fun j hj => absurd hj (Nat.not_lt_zero j)
      stores := List.forall_mem_nil _ }
  scrolls := hscrolls
  waiting := rfl

/-- Whatever keys are typed, get_line stays in its buffer, keeps its position at the end of the
line on the screen and returns a string that fits, just when every line that it recalls is
shorter than the buffer. -/
theorem getLine_contained_iff (hlow : 1 ≤ maxLen) (hlong : maxLen ≤ 128) (hsound : hist.Sound)
    (buffer : ℕ → UInt8) {scroll : ℤ} (hscrolls : hist.Scrolls scroll) (screen : Screen)
    (color : UInt8) {keys : List Key} (hsent : ∀ key ∈ keys, key.Sent) :
    (∀ n, Contained maxLen screen.pos
        (typeKeys hist maxLen color (lineStart buffer scroll screen) (keys.take n))) ↔
      ∀ line ∈ hist.recalls scroll keys, line.length < maxLen :=
  (lineStart_editing hlow buffer hscrolls screen).run hlong hsound hsent

end Runs

section TypedLines

variable {hist : History} {maxLen : ℕ} {color : UInt8} {s : LineState}

/-- What is typed beyond the buffer is dropped. -/
theorem front_typeKeys (hist : History) (color : UInt8) {line : List UInt8}
    (hkeys : ∀ c ∈ line, c ≠ 10 ∧ c ≠ 8) (hwaiting : s.returned = none)
    (hroom : s.i ≤ maxLen - 1) :
    (typeKeys hist maxLen color s (line.map .char)).returned = none ∧
      (typeKeys hist maxLen color s (line.map .char)).front =
        (s.front ++ line).take (maxLen - 1) := by
  have hfront : s.front.length = s.i := by
    rw [LineState.front, List.length_map, List.length_range]
  induction line generalizing s with
  | nil =>
    rw [List.append_nil, List.take_of_length_le (by omega)]
    exact ⟨hwaiting, rfl⟩
  | cons c rest ih =>
    have hrest : ∀ c ∈ rest, c ≠ 10 ∧ c ≠ 8 := fun c hc => hkeys c (List.mem_cons_of_mem _ hc)
    obtain ⟨hnewline, hback⟩ := hkeys c List.mem_cons_self
    have hopen : ¬s.returned.isSome = true := by rw [hwaiting]; exact Bool.false_ne_true
    rw [List.map_cons, typeKeys, List.foldl_cons, ← typeKeys]
    have hstep : lineKey hist maxLen color s (.char c) = if s.i < maxLen - 1 then
        { s.store s.i c with i := s.i + 1, screen := s.screen.putChar c color } else s := by
      rw [lineKey, if_neg hopen]
      exact (if_neg hnewline).trans (if_neg hback)
    by_cases hmore : s.i < maxLen - 1
    · rw [hstep, if_pos hmore]
      generalize hnext : ({ s.store s.i c with
        i := s.i + 1, screen := s.screen.putChar c color } : LineState) = next
      have hindex : next.i = s.i + 1 := by rw [← hnext]
      have hpushed : next.front = s.front ++ [c] := by
        rw [← hnext, LineState.front, LineState.front]
        show (List.range (s.i + 1)).map (Function.update s.buffer s.i c) = _
        rw [List.range_succ, List.map_append, List.map_singleton, Function.update_self]
        congr 1
        refine List.map_congr_left fun j hj => ?_
        exact Function.update_of_ne (List.mem_range.mp hj).ne _ _
      have hlength : next.front.length = next.i := by
        rw [LineState.front, List.length_map, List.length_range]
      obtain ⟨hopen', hlast⟩ := ih hrest (by rw [← hnext]; exact hwaiting) (by omega)
        hlength
      rw [hpushed, List.append_assoc, List.singleton_append] at hlast
      exact ⟨hopen', hlast⟩
    · rw [hstep, if_neg hmore]
      obtain ⟨hopen', hlast⟩ := ih hrest hwaiting hroom hfront
      refine ⟨hopen', hlast.trans ?_⟩
      have hfull : s.front.length = maxLen - 1 := by omega
      rw [← hfull, List.take_left, List.take_left]

/-- A line that is typed without special keys is cut to the buffer, as the shell's model of
get_line has it. -/
theorem getLine_typed (line : CString) (hkeys : ∀ c ∈ line.chars, c ≠ 10 ∧ c ≠ 8)
    (buffer : ℕ → UInt8) (scroll : ℤ) (screen : Screen) :
    (typeKeys hist maxLen color (lineStart buffer scroll screen)
        (line.chars.map .char ++ [.char 10])).returned =
      some (Shell.takeChars (maxLen - 1) line).chars := by
  have hstart : (lineStart buffer scroll screen).i ≤ maxLen - 1 := Nat.zero_le _
  obtain ⟨hwaiting, hfront⟩ := front_typeKeys hist color hkeys rfl hstart
  rw [typeKeys, List.foldl_append]
  show (lineKey hist maxLen color (typeKeys hist maxLen color (lineStart buffer scroll screen)
    (line.chars.map .char)) (.char 10)).returned = _
  generalize typeKeys hist maxLen color (lineStart buffer scroll screen)
    (line.chars.map .char) = s at hwaiting hfront ⊢
  have hopen : ¬s.returned.isSome = true := by rw [hwaiting]; exact Bool.false_ne_true
  have hempty : (lineStart buffer scroll screen).front = [] := rfl
  rw [hempty, List.nil_append] at hfront
  rw [lineKey, if_neg hopen]
  refine congrArg some ((text_eq_front _).trans ?_)
  show s.front.takeWhile (· ≠ 0) = line.chars.take (maxLen - 1)
  rw [hfront]
  refine List.takeWhile_eq_self_iff.mpr fun c hc => decide_eq_true ?_
  rintro rfl
  exact line.nonzero (List.mem_of_mem_take hc)

end TypedLines

section Histories

/-- hist_buf at the boot. -/
def History.boot : History := ⟨fun _ => [], 0, 0⟩

/-- hist_buf and hist_scroll after some calls of get_line: those of kernel_main, whose lines go
into the history, and others in which every line that is recalled fits. -/
inductive Kept : History → ℤ → Prop where
  | boot : Kept History.boot (-1)
  | prompt {hist : History} {scroll : ℤ} (h : Kept hist scroll) {color : UInt8}
      {buffer : ℕ → UInt8} {screen : Screen} {keys : List Key} (hsent : ∀ key ∈ keys, key.Sent)
      {line : List UInt8} (hreturned : (typeKeys hist 128 color
        (lineStart buffer scroll screen) keys).returned = some line) :
      Kept (hist.remember line)
        (typeKeys hist 128 color (lineStart buffer scroll screen) keys).histScroll
  | read {hist : History} {scroll : ℤ} (h : Kept hist scroll) {maxLen : ℕ} (hlow : 1 ≤ maxLen)
      (hlong : maxLen ≤ 128) {color : UInt8} {buffer : ℕ → UInt8} {screen : Screen}
      {keys : List Key} (hsent : ∀ key ∈ keys, key.Sent)
      (hfits : ∀ line ∈ hist.recalls scroll keys, line.length < maxLen) {line : List UInt8}
      (hreturned : (typeKeys hist maxLen color
        (lineStart buffer scroll screen) keys).returned = some line) :
      Kept hist (typeKeys hist maxLen color (lineStart buffer scroll screen) keys).histScroll

variable {hist : History} {scroll : ℤ}

/-- A line that was typed keeps the history sound. -/
theorem History.Sound.remember (h : hist.Sound) {line : List UInt8} (hshort : line.length < 128)
    (hplain : ∀ c ∈ line, Plain c) (hnonzero : ∀ c ∈ line, c ≠ 0) : (hist.remember line).Sound := by
  rw [History.remember]
  split
  · exact h
  have hlines : ∀ p : List UInt8 → Prop, p line → (∀ j, p (hist.lines j)) →
      ∀ j, p (Function.update hist.lines hist.idx line j) := by
    intro p hline hold j
    rw [Function.update_apply]
    split
    · exact hline
    · exact hold j
  have hcount := h.count
  refine ⟨Nat.mod_lt _ (by decide), ?_, hlines (fun line => line.length < 128) hshort h.short,
    hlines (fun line => ∀ c ∈ line, Plain c) hplain h.plain,
    hlines (fun line => ∀ c ∈ line, c ≠ 0) hnonzero h.nonzero⟩
  dsimp only
  split
  · omega
  · exact hcount

/-- A history with one more line. -/
theorem History.Scrolls.remember (h : hist.Scrolls scroll) (line : List UInt8) :
    (hist.remember line).Scrolls scroll := by
  obtain ⟨hlow, hhigh⟩ := h
  rw [History.remember]
  split
  · exact ⟨hlow, hhigh⟩
  · refine ⟨hlow, ?_⟩
    dsimp only
    split
    · omega
    · exact hhigh

/-- No line of a sound history is too long for the buffer of kernel_main. -/
theorem History.Sound.recalls (h : hist.Sound) (scroll : ℤ) (keys : List Key) :
    ∀ line ∈ hist.recalls scroll keys, line.length < 128 := by
  induction keys generalizing scroll with
  | nil => exact List.forall_mem_nil _
  | cons key rest ih =>
    rw [History.recalls]
    split
    · exact List.forall_mem_nil _
    intro line hline
    rcases List.mem_append.mp hline with hnow | hlater
    · have hrecalled := Option.mem_toList.mp hnow
      cases key with
      | up =>
        rw [History.recalled] at hrecalled
        split at hrecalled
        · cases hrecalled
        · exact Option.mem_some_iff.mp hrecalled ▸ (h.line _).1
      | down =>
        rw [History.recalled] at hrecalled
        split at hrecalled
        · exact Option.mem_some_iff.mp hrecalled ▸ (h.line _).1
        · cases hrecalled
      | char c => cases hrecalled
    · exact ih _ line hlater

/-- The history and hist_scroll of every such run are sound. -/
theorem Kept.sound (h : Kept hist scroll) : hist.Sound ∧ hist.Scrolls scroll := by
  induction h with
  | boot =>
    have hnone : ∀ c : UInt8, c ∈ ([] : List UInt8) → False := fun c hc => List.not_mem_nil hc
    exact ⟨⟨by decide, by decide, fun _ => Nat.zero_lt_succ _, fun j c hc => (hnone c hc).elim,
      fun j c hc => (hnone c hc).elim⟩, by decide, by decide⟩
  | @prompt hist scroll _ color buffer screen keys hsent line hreturned ih =>
    obtain ⟨hsound, hscrolls⟩ := ih
    have hstart : Editing hist 128 color screen.pos (lineStart buffer scroll screen) :=
      lineStart_editing (by decide) buffer hscrolls screen
    obtain ⟨hshort, hplain, hnonzero, hlast⟩ :=
      hstart.result (le_refl _) hsound hsent (hsound.recalls scroll keys) hreturned
    exact ⟨hsound.remember hshort hplain hnonzero, hlast.remember line⟩
  | @read hist scroll _ maxLen hlow hlong color buffer screen keys hsent hfits line hreturned ih =>
    obtain ⟨hsound, hscrolls⟩ := ih
    have hstart : Editing hist maxLen color screen.pos (lineStart buffer scroll screen) :=
      lineStart_editing hlow buffer hscrolls screen
    exact ⟨hsound, (hstart.result hlong hsound hsent hfits hreturned).2.2.2⟩

/-- The screen before anything is shown. -/
def Screen.blank : Screen := ⟨fun _ => 0, 0, 0, 0, by decide, by decide⟩

/-- A history with one line. -/
def oneLine (length : ℕ) : History := History.boot.remember (List.replicate length 97)

/-- One line of a's is a sound history. -/
theorem oneLine_sound {length : ℕ} (hshort : length < 128) : (oneLine length).Sound := by
  have hall : ∀ c ∈ List.replicate length (97 : UInt8), c = 97 :=
    fun c hc => List.eq_of_mem_replicate hc
  refine Kept.boot.sound.1.remember (by rw [List.length_replicate]; exact hshort)
    (fun c hc => ?_) fun c hc => ?_
  · rw [hall c hc]
    decide
  · rw [hall c hc]
    decide

/-- A line of three characters is recalled and ended in the buffer of cmd_passwd. -/
theorem getLine_contained_three :
    (∀ line ∈ (oneLine 3).recalls (-1) [Key.up, .char 10], line.length < 32) ∧
      ∀ n, Contained 32 0 (typeKeys (oneLine 3) 32 7
        (lineStart (fun _ => 0) (-1) Screen.blank) ([Key.up, .char 10].take n)) := by
  have hrecalls : ∀ line ∈ (oneLine 3).recalls (-1) [Key.up, .char 10], line.length < 32 := by
    decide
  refine ⟨hrecalls, ?_⟩
  exact (getLine_contained_iff (by decide) (by decide) (oneLine_sound (by decide)) _
    (by constructor <;> decide) Screen.blank 7 (by decide)).mpr hrecalls

/-- A line of 40 characters is recalled in the buffer of cmd_passwd: something is stored at
index 40, and the edit position is 40 while 31 characters are shown. -/
theorem getLine_overlong :
    (40 ∈ (typeKeys (oneLine 40) 32 7 (lineStart (fun _ => 0) (-1) Screen.blank) [.up]).stores ∧
      (typeKeys (oneLine 40) 32 7 (lineStart (fun _ => 0) (-1) Screen.blank) [.up]).i = 40 ∧
      ((typeKeys (oneLine 40) 32 7 (lineStart (fun _ => 0) (-1) Screen.blank)
        [.up]).screen.lineFrom 0).length = 31) ∧
    ¬∀ n, Contained 32 0 (typeKeys (oneLine 40) 32 7
      (lineStart (fun _ => 0) (-1) Screen.blank) ([Key.up, .char 10].take n)) := by
  have hstored : 40 ∈ (typeKeys (oneLine 40) 32 7
      (lineStart (fun _ => 0) (-1) Screen.blank) [.up]).stores := by decide +kernel
  refine ⟨⟨hstored, by decide +kernel, by decide +kernel⟩, fun hcontained => ?_⟩
  have hinside := (hcontained 1).stores 40 hstored
  exact absurd hinside (by decide)

end Histories

end HexaOS.Terminal
