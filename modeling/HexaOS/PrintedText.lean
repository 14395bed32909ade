import HexaOS.Screens
import Mathlib.Data.List.GetD

/-!
# The text that the screen shows

clear_screen, and then any text: the 25 rows of VGA_BUFFER show the end of the text as it is
broken into rows of 80 characters. A row ends with a newline or when it is full. The rows that
do not fit any more went over the upper edge, whole and in their order.
-/

namespace HexaOS.Terminal

section Pages

/-- A row of text, and what stands behind it. -/
structure Row where
  /-- The cells of characters. -/
  written : List UInt16
  /-- What the other cells hold. -/
  blank : UInt16

/-- A text broken into rows. -/
structure Page where
  /-- The rows that have ended. -/
  ended : List Row
  /-- The row of the cursor. -/
  current : Row

namespace Page

/-- All rows. -/
def rows (page : Page) : List Row := page.ended ++ [page.current]

/-- A page without text. -/
def empty (clear : UInt16) : Page := ⟨[], ⟨[], clear⟩⟩

/-- The row ends. The screen clears a row that comes in below with the colour of the character
that ends the row before it, and has cleared the others with the screen. -/
def endRow (clear : UInt16) (color : UInt8) (page : Page) : Page :=
  ⟨page.rows, ⟨[], if page.ended.length < 24 then clear else Screen.cell 32 color⟩⟩

/-- A character at the end of the text. -/
def add (clear : UInt16) (page : Page) (char : UInt8 × UInt8) : Page :=
  if char.1 = 10 then page.endRow clear char.2
  else
    let written := page.current.written ++ [Screen.cell char.1 char.2]
    let longer := { page with current := { page.current with written := written } }
    if 80 ≤ written.length then longer.endRow clear char.2 else longer

/-- A text with the colours of its characters, broken into rows. -/
def ofText (clear : UInt16) (text : List (UInt8 × UInt8)) : Page :=
  text.foldl (add clear) (empty clear)

/-- What stands in a column of a row, below the text too. -/
def shown (clear : UInt16) (page : Page) (i column : ℕ) : UInt16 :=
  match page.rows[i]? with
  | some row => row.written.getD column row.blank
  | none => clear

end Page

/-- The cells of a row of text on the screen. -/
def Row.cells (row : Row) : List UInt16 :=
  (List.range 80).map fun column => row.written.getD column row.blank

/-- The last 25 rows of a text, and blank rows where the text has less. -/
def Page.lastRows (clear : UInt16) (page : Page) : List (List UInt16) :=
  (page.rows.drop (page.rows.length - 25)).map Row.cells ++
    List.replicate (25 - page.rows.length) (List.replicate 80 clear)

namespace Screen

theorem home_cursorX_lt : 0 < 80 := by decide

theorem home_cursorY_lt : 0 < 25 := by decide

/-- clear_screen -/
def clearScreen (screen : Screen) (color : UInt8) : Screen where
  cells i := if i < 80 * 25 then cell 32 color else screen.cells i
  cursorX := 0
  cursorY := 0
  scrolled := 0
  cursorX_lt := home_cursorX_lt
  cursorY_lt := home_cursorY_lt

/-- put_char of one character after the other. -/
def printText (screen : Screen) (text : List (UInt8 × UInt8)) : Screen :=
  text.foldl (fun screen char => screen.putChar char.1 char.2) screen

/-- The rows that the screen shows. -/
def shownRows (screen : Screen) : List (List UInt16) :=
  (List.range 25).map fun row => (List.range 80).map fun column => screen.cells (row * 80 + column)

end Screen

/-- The screen shows the last rows of a page, with the cursor at its end. -/
structure Presents (clear : UInt16) (page : Page) (screen : Screen) : Prop where
  /-- The rows above the screen are scrolled away. -/
  scrolled : screen.scrolled = page.ended.length - 24
  /-- The cursor is in the current row. -/
  row : screen.scrolled + screen.cursorY = page.ended.length
  /-- It is behind its characters. -/
  column : screen.cursorX = page.current.written.length
  /-- The cells are those of the rows. -/
  cells : ∀ row < 25, ∀ column < 80,
    screen.cells (row * 80 + column) = page.shown clear (screen.scrolled + row) column

end Pages

section Steps

variable {clear : UInt16} {page : Page} {screen : Screen} {color c : UInt8}

theorem Page.length_rows (page : Page) : page.rows.length = page.ended.length + 1 := by
  rw [rows, List.length_append, List.length_singleton]

/-- A new row shows nothing where there was none. -/
theorem Page.shown_endRow (color : UInt8) {i : ℕ} (column : ℕ)
    (hi : i ≠ page.ended.length + 1 ∨ page.ended.length < 24) :
    (page.endRow clear color).shown clear i column = page.shown clear i column := by
  rw [shown, shown, endRow]
  rcases Nat.lt_trichotomy i (page.ended.length + 1) with hlt | heq | hgt
  · rw [rows, List.getElem?_append_left (by rw [length_rows]; exact hlt)]
  · have hnew : page.ended.length < 24 := hi.resolve_left fun hne => hne heq
    have hlast : (page.rows ++ [⟨[], clear⟩])[i]? = some (⟨[], clear⟩ : Row) := by
      rw [heq, ← page.length_rows, List.getElem?_concat_length]
    have hnone : page.rows[i]? = none := List.getElem?_eq_none (by rw [length_rows]; omega)
    rw [if_pos hnew, rows, hlast, hnone]
    rfl
  · have hnone : page.rows[i]? = none := List.getElem?_eq_none (by rw [length_rows]; omega)
    rw [rows, hnone, List.getElem?_eq_none]
    rw [List.length_append, length_rows, List.length_singleton]
    omega

/-- A row that comes in below is blank. -/
theorem Page.shown_endRow_last (hfull : 24 ≤ page.ended.length) (column : ℕ) :
    (page.endRow clear color).shown clear (page.ended.length + 1) column = Screen.cell 32 color := by
  rw [shown, endRow, if_neg (by omega), rows, ← page.length_rows, List.getElem?_concat_length]
  rfl

/-- The row of the cursor ends: the cursor goes to the next row, or the screen goes up by one. -/
theorem presents_endRow {cells : ℕ → UInt16} {y scrolled : ℕ} (hy : y < 25)
    (hscrolled : scrolled = page.ended.length - 24) (hrow : scrolled + y = page.ended.length)
    (hcells : ∀ row < 25, ∀ column < 80,
      cells (row * 80 + column) = page.shown clear (scrolled + row) column) :
    Presents clear (page.endRow clear color) (Screen.settle cells 0 (y + 1) scrolled color) := by
  have hended : (page.endRow clear color).ended.length = page.ended.length + 1 := page.length_rows
  by_cases hroom : page.ended.length < 24
  · have hbelow : ¬25 ≤ y + 1 := by omega
    have hsettle : Screen.settle cells 0 (y + 1) scrolled color =
        ⟨cells, 0, y + 1, scrolled, by decide, by omega⟩ := dif_neg hbelow
    rw [hsettle]
    refine ⟨?_, ?_, rfl, fun row hlt column hcolumn => ?_⟩
    · rw [hended]
      dsimp only
      omega
    · rw [hended]
      dsimp only
      omega
    · rw [Page.shown_endRow color column (.inr hroom)]
      exact hcells row hlt column hcolumn
  · have hbelow : 25 ≤ y + 1 := by omega
    have hsettle : Screen.settle cells 0 (y + 1) scrolled color =
        ⟨fun i => if i < 24 * 80 then cells (i + 80) else
          if i < 25 * 80 then Screen.cell 32 color else cells i, 0, 24, scrolled + 1, by decide,
          by decide⟩ := dif_pos hbelow
    rw [hsettle]
    refine ⟨?_, ?_, rfl, fun row hlt column hcolumn => ?_⟩
    · rw [hended]
      dsimp only
      omega
    · rw [hended]
      dsimp only
      omega
    · dsimp only
      by_cases hlast : row = 24
      · have hindex : scrolled + 1 + row = page.ended.length + 1 := by omega
        rw [if_neg (by omega), if_pos (by omega), hindex, Page.shown_endRow_last (by omega)]
      · -- the row comes from the one below it
        have hmoved : row * 80 + column + 80 = (row + 1) * 80 + column := by omega
        have hindex : scrolled + 1 + row = scrolled + (row + 1) := by omega
        rw [if_pos (by omega), hmoved, hcells (row + 1) (by omega) column hcolumn, hindex,
          Page.shown_endRow color column (.inl (by omega))]

/-- A page whose last row is one character longer. -/
def Page.write (page : Page) (c color : UInt8) : Page :=
  { page with current :=
    { page.current with written := page.current.written ++ [Screen.cell c color] } }

theorem Page.shown_write_of_ne (c color : UInt8) {i column : ℕ}
    (h : ¬(i = page.ended.length ∧ column = page.current.written.length)) :
    (page.write c color).shown clear i column = page.shown clear i column := by
  rw [shown, shown, rows, rows]
  have hended : (page.write c color).ended = page.ended := rfl
  rw [hended]
  rcases Nat.lt_trichotomy i page.ended.length with hlt | heq | hgt
  · rw [List.getElem?_append_left hlt, List.getElem?_append_left hlt]
  · have hcolumn : column ≠ page.current.written.length := fun hc => h ⟨heq, hc⟩
    rw [heq, List.getElem?_concat_length, List.getElem?_concat_length]
    show (page.current.written ++ [Screen.cell c color]).getD column page.current.blank =
      page.current.written.getD column page.current.blank
    rcases Nat.lt_or_gt_of_ne hcolumn with hbefore | hbehind
    · rw [List.getD_append _ _ _ _ hbefore]
    · rw [List.getD_eq_default _ _ (by rw [List.length_append, List.length_singleton]; omega),
        List.getD_eq_default _ _ (by omega)]
  · rw [List.getElem?_eq_none (by rw [List.length_append, List.length_singleton]; omega),
      List.getElem?_eq_none (by rw [List.length_append, List.length_singleton]; omega)]

theorem Page.shown_write_self (page : Page) (c color : UInt8) :
    (page.write c color).shown clear page.ended.length page.current.written.length =
      Screen.cell c color := by
  have hended : (page.write c color).ended = page.ended := rfl
  rw [shown, rows, hended, List.getElem?_concat_length]
  show (page.current.written ++ [Screen.cell c color]).getD page.current.written.length
    page.current.blank = Screen.cell c color
  rw [List.getD_append_right _ _ _ _ (Nat.le_refl _), Nat.sub_self]
  rfl

/-- The cells behind a character that is put at the cursor. -/
theorem Presents.write (h : Presents clear page screen) (c color : UInt8) (row : ℕ)
    (column : ℕ) (hcolumn : column < 80) (hrow : row < 25) :
    Function.update screen.cells (screen.cursorY * 80 + screen.cursorX) (Screen.cell c color)
        (row * 80 + column) =
      (page.write c color).shown clear (screen.scrolled + row) column := by
  have hx := screen.cursorX_lt
  have hend := h.row
  by_cases hcursor : row = screen.cursorY ∧ column = screen.cursorX
  · rw [hcursor.1, hcursor.2, Function.update_self, h.row, h.column, Page.shown_write_self]
  · have hplace : row * 80 + column ≠ screen.cursorY * 80 + screen.cursorX := by omega
    rw [Function.update_of_ne hplace, Page.shown_write_of_ne]
    · exact h.cells row hrow column hcolumn
    · rw [← h.column, ← h.row]
      omega

/-- A character on the screen, and at the end of the page. -/
theorem Presents.putChar (h : Presents clear page screen) (hback : c ≠ 8) (hreturn : c ≠ 13)
    (color : UInt8) : Presents clear (page.add clear (c, color)) (screen.putChar c color) := by
  have hx := screen.cursorX_lt
  have hy := screen.cursorY_lt
  rw [Screen.putChar, if_neg hback, Page.add]
  dsimp only
  by_cases hnewline : c = 10
  · rw [if_pos hnewline, if_pos hnewline]
    exact presents_endRow hy h.scrolled h.row h.cells
  · rw [if_neg hnewline, if_neg hnewline, if_neg hreturn]
    have hwritten := h.write c color
    have hlength : (page.current.written ++ [Screen.cell c color]).length = screen.cursorX + 1 := by
      rw [List.length_append, List.length_singleton, h.column]
    rw [hlength]
    by_cases hfull : 80 ≤ screen.cursorX + 1
    · have hend : screen.cursorX + 1 = 80 := by omega
      rw [if_pos hfull, hend]
      exact presents_endRow hy h.scrolled h.row fun row hrow column hcolumn =>
        hwritten row column hcolumn hrow
    · have hrow : ¬25 ≤ screen.cursorY := by omega
      rw [if_neg hfull]
      have hsettle : ∀ cells, Screen.settle cells (screen.cursorX + 1) screen.cursorY
          screen.scrolled color =
            ⟨cells, screen.cursorX + 1, screen.cursorY, screen.scrolled, by omega, hy⟩ := by
        intro cells
        simp only [Screen.settle, if_neg hfull, dif_neg hrow]
      rw [hsettle]
      exact ⟨h.scrolled, h.row, hlength.symm, fun row hrow column hcolumn =>
        hwritten row column hcolumn hrow⟩

theorem presents_clearScreen (screen : Screen) (color : UInt8) :
    Presents (Screen.cell 32 color) (.empty (Screen.cell 32 color)) (screen.clearScreen color) := by
  refine ⟨rfl, rfl, rfl, fun row hrow column hcolumn => ?_⟩
  have hplace : row * 80 + column < 80 * 25 := by omega
  have hclear : (screen.clearScreen color).cells (row * 80 + column) = Screen.cell 32 color :=
    if_pos hplace
  rw [hclear, Page.shown]
  cases hcell : (Page.empty (Screen.cell 32 color)).rows[
      (screen.clearScreen color).scrolled + row]? with
  | none => rfl
  | some entry =>
    have hmem := List.mem_of_getElem? hcell
    obtain rfl : entry = ⟨[], Screen.cell 32 color⟩ := List.mem_singleton.mp hmem
    rfl

/-- The text that the kernel prints has no backspace and no carriage return. -/
def Printable (text : List (UInt8 × UInt8)) : Prop := ∀ char ∈ text, char.1 ≠ 8 ∧ char.1 ≠ 13

theorem Presents.printText {text : List (UInt8 × UInt8)} (h : Presents clear page screen)
    (hprintable : Printable text) :
    Presents clear (text.foldl (Page.add clear) page) (screen.printText text) := by
  induction text generalizing page screen with
  | nil => exact h
  | cons char text ih =>
    obtain ⟨hback, hreturn⟩ := hprintable char List.mem_cons_self
    exact ih (h.putChar hback hreturn char.2) fun other hother =>
      hprintable other (List.mem_cons_of_mem _ hother)

end Steps

section Texts

variable {clear : UInt16} {page : Page} {screen : Screen}

/-- The rows of a page hold a text: all its characters in their order. No row is longer than the
screen, and the row of the cursor is not full. -/
structure Holds (page : Page) (text : List (UInt8 × UInt8)) : Prop where
  /-- The rows hold the characters in order. -/
  written : page.rows.flatMap Row.written =
    (text.filter fun char => char.1 ≠ 10).map fun char => Screen.cell char.1 char.2
  /-- A row has at most 80. -/
  le : ∀ row ∈ page.ended, row.written.length ≤ 80
  /-- The current one has room. -/
  lt : page.current.written.length < 80

theorem holds_empty (clear : UInt16) : Holds (.empty clear) [] where
  written := rfl
  le _ hrow := absurd hrow List.not_mem_nil
  lt := Nat.succ_pos 79

theorem flatMap_rows (page : Page) :
    page.rows.flatMap Row.written = page.ended.flatMap Row.written ++ page.current.written := by
  rw [Page.rows, List.flatMap_append, List.flatMap_singleton]

theorem flatMap_endRow (clear : UInt16) (color : UInt8) (page : Page) :
    (page.endRow clear color).rows.flatMap Row.written = page.rows.flatMap Row.written := by
  rw [flatMap_rows, Page.endRow]
  exact List.append_nil _

/-- The rows with another character. -/
theorem Holds.add {text : List (UInt8 × UInt8)} (h : Holds page text) (clear : UInt16)
    (char : UInt8 × UInt8) : Holds (page.add clear char) (text ++ [char]) := by
  have hended : ∀ (page : Page), (∀ row ∈ page.ended, row.written.length ≤ 80) →
      page.current.written.length ≤ 80 → ∀ row ∈ page.rows, row.written.length ≤ 80 := by
    intro page hle hcurrent row hrow
    rcases List.mem_append.mp hrow with hold | hlast
    · exact hle row hold
    · rw [List.mem_singleton.mp hlast]
      exact hcurrent
  rw [Page.add]
  by_cases hnewline : char.1 = 10
  · rw [if_pos hnewline]
    refine ⟨?_, hended page h.le h.lt.le, Nat.succ_pos 79⟩
    rw [flatMap_endRow, h.written, List.filter_append,
      List.filter_cons_of_neg (by simpa using hnewline), List.filter_nil, List.append_nil]
  · rw [if_neg hnewline]
    have hwritten : (page.write char.1 char.2).rows.flatMap Row.written =
        ((text ++ [char]).filter fun char => char.1 ≠ 10).map
          fun char => Screen.cell char.1 char.2 := by
      rw [List.filter_append, List.filter_cons_of_pos (by simpa using hnewline), List.filter_nil,
        List.map_append, ← h.written, flatMap_rows, flatMap_rows, List.append_assoc]
      rfl
    have hlength : (page.current.written ++ [Screen.cell char.1 char.2]).length =
        page.current.written.length + 1 := by
      rw [List.length_append, List.length_singleton]
    have hlt := h.lt
    dsimp only
    split_ifs with hfull
    · refine ⟨?_, hended (page.write char.1 char.2) h.le (by rw [Page.write, hlength]; exact hlt),
        Nat.succ_pos 79⟩
      rw [flatMap_endRow]
      exact hwritten
    · exact ⟨hwritten, h.le, Nat.lt_of_not_le hfull⟩

theorem holds_foldl {before : List (UInt8 × UInt8)} (h : Holds page before)
    (text : List (UInt8 × UInt8)) : Holds (text.foldl (Page.add clear) page) (before ++ text) := by
  induction text generalizing page before with
  | nil => rwa [List.append_nil]
  | cons char text ih =>
    have hrest := ih (h.add clear char)
    rwa [List.append_assoc] at hrest

/-- What the screen shows is the last rows of the page. -/
theorem Presents.shownRows (h : Presents clear page screen) :
    screen.shownRows = page.lastRows clear := by
  have hrow := h.row
  have hlt := screen.cursorY_lt
  have hscrolled := h.scrolled
  refine List.ext_getElem ?_ fun row hleft hright => ?_
  · rw [Screen.shownRows, Page.lastRows, List.length_map, List.length_range, List.length_append,
      List.length_map, List.length_drop, List.length_replicate, page.length_rows]
    omega
  · have hrow25 : row < 25 := by
      rwa [Screen.shownRows, List.length_map, List.length_range] at hleft
    have htop : page.rows.length - 25 = screen.scrolled := by
      rw [page.length_rows]
      omega
    have hshown : ((List.range 80).map fun column => screen.cells (row * 80 + column)) =
        (List.range 80).map fun column => page.shown clear (screen.scrolled + row) column :=
      List.map_congr_left fun column hcolumn =>
        h.cells row hrow25 column (List.mem_range.mp hcolumn)
    simp only [Screen.shownRows, List.getElem_map, List.getElem_range, hshown, Page.lastRows, htop]
    by_cases hthere : screen.scrolled + row < page.rows.length
    · rw [List.getElem_append_left (by rw [List.length_map, List.length_drop]; omega),
        List.getElem_map, List.getElem_drop, Row.cells]
      refine List.map_congr_left fun column _ => ?_
      rw [Page.shown, List.getElem?_eq_getElem hthere]
    · rw [List.getElem_append_right (by rw [List.length_map, List.length_drop]; omega),
        List.getElem_replicate]
      have hblank : ∀ column ∈ List.range 80,
          page.shown clear (screen.scrolled + row) column = clear := by
        intro column _
        rw [Page.shown, List.getElem?_eq_none (by omega)]
      rw [List.map_congr_left hblank, List.map_const', List.length_range]

/-- After clear_screen and any text without backspaces and carriage returns, in any colours, the
screen shows the last 25 rows of the text and the cursor is at its end. The rows hold the
characters of the text in their order, none lost and none twice. -/
theorem printText_shows (screen : Screen) (color : UInt8) {text : List (UInt8 × UInt8)}
    (hprintable : Printable text) :
    let clear := Screen.cell 32 color
    let page := Page.ofText clear text
    let shown := (screen.clearScreen color).printText text
    shown.shownRows = page.lastRows clear ∧
      shown.cursorY = min page.ended.length 24 ∧
      shown.cursorX = page.current.written.length ∧ Holds page text := by
  have hpage := (presents_clearScreen screen color).printText hprintable
  have hrow := hpage.row
  have hscrolled := hpage.scrolled
  have hlt := ((screen.clearScreen color).printText text).cursorY_lt
  refine ⟨hpage.shownRows, ?_, hpage.column, ?_⟩
  · rw [Page.ofText]
    omega
  · exact holds_foldl (holds_empty (Screen.cell 32 color)) text

/-- A screen of zeros. -/
def zeroScreen : Screen := Screen.settle (fun _ => 0) 0 0 0 7

/-- Newlines that scroll the screen twice, and a character. -/
def scrollingText : List (UInt8 × UInt8) := List.replicate 26 (10, 7) ++ [(33, 7)]

theorem printText_shows_scrolled :
    let shown := (zeroScreen.clearScreen 7).printText scrollingText
    shown.shownRows =
        (Page.ofText (Screen.cell 32 7) scrollingText).lastRows (Screen.cell 32 7) ∧
      shown.cursorY = 24 ∧ shown.cursorX = 1 := by
  have hprintable : Printable scrollingText := by
    intro char hchar
    rcases List.mem_append.mp hchar with hline | hmark
    · rw [List.eq_of_mem_replicate hline]
      decide
    · rw [List.mem_singleton.mp hmark]
      decide
  have hshows := printText_shows zeroScreen 7 hprintable
  exact ⟨hshows.1, hshows.2.1, hshows.2.2.1⟩

end Texts

end HexaOS.Terminal
