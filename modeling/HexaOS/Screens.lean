import Mathlib.Data.List.Basic
import Mathlib.Order.Nat
import Mathlib.Logic.Function.Basic
import Mathlib.Tactic.Common

/-!
# The text screen

put_char on the 25 rows of 80 cells behind VGA_BUFFER. Positions are counted from the first
row that was ever shown, so that they stay the same when the screen scrolls. The text from a
position to the cursor grows by a character that is put and shrinks by a backspace.
-/

namespace HexaOS.Terminal

/-- VGA_BUFFER with the cursor. -/
structure Screen where
  /-- VGA_BUFFER -/
  cells : ℕ → UInt16
  /-- cursor_x -/
  cursorX : ℕ
  /-- cursor_y -/
  cursorY : ℕ
  /-- The rows that went over the upper edge. No code reads it. -/
  scrolled : ℕ
  /-- The cursor is in a column of the screen. -/
  cursorX_lt : cursorX < 80
  /-- It is in a row of the screen. -/
  cursorY_lt : cursorY < 25

namespace Screen

/-- A character with its colour. -/
def cell (c color : UInt8) : UInt16 := color.toUInt16 <<< 8 ||| c.toUInt16

/-- The last part of put_char: a full row ends, and the screen scrolls below its last row. -/
def settle (cells : ℕ → UInt16) (x y scrolled : ℕ) (color : UInt8) : Screen :=
  let row := if 80 ≤ x then y + 1 else y
  if hrow : 25 ≤ row then
    { cells := fun i => if i < 24 * 80 then cells (i + 80) else
        if i < 25 * 80 then cell 32 color else cells i
      cursorX := if 80 ≤ x then 0 else x
      cursorY := 24
      scrolled := scrolled + 1
      cursorX_lt := by split <;> omega
      cursorY_lt := by decide }
  else
    { cells := cells
      cursorX := if 80 ≤ x then 0 else x
      cursorY := row
      scrolled := scrolled
      cursorX_lt := by split <;> omega
      cursorY_lt := by omega }

/-- put_char -/
def putChar (screen : Screen) (c color : UInt8) : Screen :=
  if c = 8 then
    if hx : 0 < screen.cursorX then
      { screen with
        cells := Function.update screen.cells (screen.cursorY * 80 + (screen.cursorX - 1))
          (cell 32 color)
        cursorX := screen.cursorX - 1
        cursorX_lt := by have hlt := screen.cursorX_lt; omega }
    else if hy : 0 < screen.cursorY then
      { screen with
        cells := Function.update screen.cells ((screen.cursorY - 1) * 80 + 79) (cell 32 color)
        cursorX := 79
        cursorY := screen.cursorY - 1
        cursorX_lt := by decide
        cursorY_lt := by have hlt := screen.cursorY_lt; omega }
    else
      { screen with
        cells := Function.update screen.cells (screen.cursorY * 80 + screen.cursorX)
          (cell 32 color) }
  else if c = 10 then settle screen.cells 0 (screen.cursorY + 1) screen.scrolled color
  else if c = 13 then settle screen.cells 0 screen.cursorY screen.scrolled color
  else
    settle (Function.update screen.cells (screen.cursorY * 80 + screen.cursorX) (cell c color))
      (screen.cursorX + 1) screen.cursorY screen.scrolled color

variable {screen : Screen} {start : ℕ} {c color : UInt8}

/-- The position of the cursor. -/
def pos (screen : Screen) : ℕ := (screen.scrolled + screen.cursorY) * 80 + screen.cursorX

/-- The cell at a position. -/
def cellAt (screen : Screen) (n : ℕ) : UInt16 := screen.cells (n - screen.scrolled * 80)

/-- What is shown from a position to the cursor. -/
def lineFrom (screen : Screen) (start : ℕ) : List UInt16 :=
  (List.range (screen.pos - start)).map fun k => screen.cellAt (start + k)

/-- The position has not gone over the upper edge, and the cursor is not in front of it. -/
structure Shows (screen : Screen) (start : ℕ) : Prop where
  /-- The start was not scrolled away. -/
  visible : screen.scrolled * 80 ≤ start
  /-- The cursor is not in front of it. -/
  behind : start ≤ screen.pos

/-- The characters that move the cursor by one cell. -/
def Plain (c : UInt8) : Prop := c ≠ 8 ∧ c ≠ 10 ∧ c ≠ 13

instance : Decidable (Plain c) := inferInstanceAs (Decidable (_ ∧ _ ∧ _))

/-- A line grows by what comes to stand in front of the cursor. -/
theorem lineFrom_grow {screen' : Screen} (hshows : screen.Shows start)
    (hpos : screen'.pos = screen.pos + 1)
    (hcells : ∀ n, start ≤ n → n < screen.pos → screen'.cellAt n = screen.cellAt n) :
    screen'.lineFrom start = screen.lineFrom start ++ [screen'.cellAt screen.pos] := by
  have hbehind := hshows.behind
  have hlength : screen'.pos - start = (screen.pos - start) + 1 := by omega
  have hlast : start + (screen.pos - start) = screen.pos := by omega
  rw [lineFrom, hlength, List.range_succ, List.map_append, List.map_singleton, hlast, lineFrom]
  congr 1
  refine List.map_congr_left fun k hk => ?_
  have hlt := List.mem_range.mp hk
  exact hcells _ (by omega) (by omega)

/-- A line shrinks with the cursor. -/
theorem lineFrom_shrink {screen' : Screen} (hbehind : start ≤ screen'.pos)
    (hpos : screen'.pos + 1 = screen.pos)
    (hcells : ∀ n, start ≤ n → n < screen'.pos → screen'.cellAt n = screen.cellAt n) :
    screen'.lineFrom start = (screen.lineFrom start).dropLast := by
  have hlength : screen.pos - start = (screen'.pos - start) + 1 := by omega
  rw [lineFrom, lineFrom, hlength, List.range_succ, List.map_append, List.map_singleton,
    List.dropLast_concat]
  refine List.map_congr_left fun k hk => ?_
  have hlt := List.mem_range.mp hk
  exact hcells _ (by omega) (by omega)

/-- The screen stays where it is, or it goes up by one row. -/
theorem settle_cases (cells : ℕ → UInt16) {x y : ℕ} (scrolled : ℕ) (color : UInt8)
    (hx : x ≤ 80) (hy : y < 25) :
    ((settle cells x y scrolled color).scrolled = scrolled ∧
        (settle cells x y scrolled color).cells = cells ∧
        (settle cells x y scrolled color).cursorY * 80 +
          (settle cells x y scrolled color).cursorX = y * 80 + x) ∨
      (x = 80 ∧ y = 24 ∧ (settle cells x y scrolled color).scrolled = scrolled + 1 ∧
        (settle cells x y scrolled color).cursorY = 24 ∧
        (settle cells x y scrolled color).cursorX = 0 ∧
        ∀ i < 24 * 80, (settle cells x y scrolled color).cells i = cells (i + 80)) := by
  by_cases hwide : 80 ≤ x
  · have hx80 : x = 80 := le_antisymm hx hwide
    subst hx80
    rcases Nat.lt_or_ge y 24 with hhigh | hlast
    · left
      have hrow : ¬25 ≤ y + 1 := by omega
      have hsettle : settle cells 80 y scrolled color =
          ⟨cells, 0, y + 1, scrolled, by decide, by omega⟩ := dif_neg hrow
      rw [hsettle]
      refine ⟨rfl, rfl, ?_⟩
      show (y + 1) * 80 + 0 = _
      omega
    · right
      have hy24 : y = 24 := by omega
      subst hy24
      refine ⟨rfl, rfl, rfl, rfl, rfl, fun i hi => ?_⟩
      exact if_pos hi
  · left
    have hrow : ¬25 ≤ y := by omega
    simp only [settle, if_neg hwide, dif_neg hrow, and_self]

/-- Settling keeps the position of the cursor. -/
theorem settle_pos (cells : ℕ → UInt16) {x y : ℕ} (scrolled : ℕ) (color : UInt8)
    (hx : x ≤ 80) (hy : y < 25) :
    (settle cells x y scrolled color).pos = (scrolled + y) * 80 + x ∧
      (settle cells x y scrolled color).scrolled * 80 ≤ max (scrolled * 80)
        ((scrolled + y) * 80 + x - 1920) := by
  rw [pos]
  rcases settle_cases cells scrolled color hx hy with
    ⟨hscrolled, -, hcursor⟩ | ⟨hx80, hy24, hscrolled, hrow, hcolumn, -⟩
  · omega
  · omega

/-- Settling leaves what is in front of the cursor where it is. -/
theorem cellAt_settle {cells : ℕ → UInt16} {x y scrolled n : ℕ} (hx : x ≤ 80) (hy : y < 25)
    (hvisible : (settle cells x y scrolled color).scrolled * 80 ≤ n)
    (hfront : n < (scrolled + y) * 80 + x) :
    (settle cells x y scrolled color).cellAt n = cells (n - scrolled * 80) := by
  rw [cellAt]
  rcases settle_cases cells scrolled color hx hy with
    ⟨hscrolled, hcells, -⟩ | ⟨hx80, hy24, hscrolled, -, -, hcells⟩
  · rw [hscrolled, hcells]
  · rw [hscrolled] at hvisible ⊢
    have hlow : n - (scrolled + 1) * 80 < 24 * 80 := by omega
    have hplace : n - (scrolled + 1) * 80 + 80 = n - scrolled * 80 := by omega
    rw [hcells _ hlow, hplace]

/-- A character that is put lengthens the line, as long as the line fits on the screen. -/
theorem putChar_plain (color : UInt8) (hplain : Plain c) (hshows : screen.Shows start)
    (hshort : screen.pos - start < 1920) :
    (screen.putChar c color).Shows start ∧
      (screen.putChar c color).pos = screen.pos + 1 ∧
      (screen.putChar c color).lineFrom start = screen.lineFrom start ++ [cell c color] := by
  obtain ⟨hback, hnewline, hreturn⟩ := hplain
  obtain ⟨hvisible, hbehind⟩ := hshows
  have hx := screen.cursorX_lt
  have hy := screen.cursorY_lt
  rw [putChar, if_neg hback, if_neg hnewline, if_neg hreturn]
  have hcolumn : screen.cursorX + 1 ≤ 80 := hx
  generalize hcells : Function.update screen.cells
    (screen.cursorY * 80 + screen.cursorX) (cell c color) = cells
  obtain ⟨hpos, hscrolled⟩ := settle_pos cells screen.scrolled color hcolumn hy
  have hnext : (screen.scrolled + screen.cursorY) * 80 + (screen.cursorX + 1) =
      screen.pos + 1 := rfl
  rw [hnext] at hpos hscrolled
  have hstays : (settle cells (screen.cursorX + 1) screen.cursorY screen.scrolled
      color).scrolled * 80 ≤ start := by omega
  refine ⟨⟨hstays, by omega⟩, hpos, ?_⟩
  have hsettled : ∀ n, start ≤ n → n < screen.pos + 1 →
      (settle cells (screen.cursorX + 1) screen.cursorY screen.scrolled color).cellAt n =
        cells (n - screen.scrolled * 80) := fun n hlow hhigh =>
    cellAt_settle hcolumn hy (le_trans hstays hlow) (by rw [hnext]; exact hhigh)
  have hplace : screen.pos - screen.scrolled * 80 = screen.cursorY * 80 + screen.cursorX := by
    rw [pos]
    omega
  rw [lineFrom_grow ⟨hvisible, hbehind⟩ hpos, hsettled _ hbehind (Nat.lt_succ_self _), hplace,
    ← hcells, Function.update_self]
  intro n hlow hhigh
  have hother : n - screen.scrolled * 80 ≠ screen.cursorY * 80 + screen.cursorX := by omega
  rw [hsettled n hlow (by omega), ← hcells, Function.update_of_ne hother]
  rfl

/-- A backspace shortens the line. -/
theorem putChar_back (color : UInt8) (hshows : screen.Shows start) (hsome : start < screen.pos) :
    (screen.putChar 8 color).Shows start ∧
      (screen.putChar 8 color).pos + 1 = screen.pos ∧
      (screen.putChar 8 color).lineFrom start = (screen.lineFrom start).dropLast := by
  have hvisible := hshows.visible
  have hkept : (screen.putChar 8 color).scrolled = screen.scrolled ∧
      (screen.putChar 8 color).pos + 1 = screen.pos ∧
      ∀ n, start ≤ n → n < (screen.putChar 8 color).pos →
        (screen.putChar 8 color).cellAt n = screen.cellAt n := by
    rw [putChar, if_pos rfl]
    by_cases hx : 0 < screen.cursorX
    · rw [dif_pos hx]
      refine ⟨rfl, ?_, fun n hlow hhigh => ?_⟩
      · simp only [pos]
        omega
      · simp only [pos] at hhigh
        have hother : n - screen.scrolled * 80 ≠ screen.cursorY * 80 + (screen.cursorX - 1) := by
          omega
        exact Function.update_of_ne hother _ _
    · have hy : 0 < screen.cursorY := by
        rw [pos] at hsome
        omega
      rw [dif_neg hx, dif_pos hy]
      refine ⟨rfl, ?_, fun n hlow hhigh => ?_⟩
      · simp only [pos]
        omega
      · simp only [pos] at hhigh
        have hother : n - screen.scrolled * 80 ≠ (screen.cursorY - 1) * 80 + 79 := by omega
        exact Function.update_of_ne hother _ _
  obtain ⟨hscrolled, hpos, hcells⟩ := hkept
  have hbehind : start ≤ (screen.putChar 8 color).pos := by omega
  refine ⟨⟨?_, hbehind⟩, hpos, lineFrom_shrink hbehind hpos hcells⟩
  rw [hscrolled]
  exact hvisible

end Screen

end HexaOS.Terminal
