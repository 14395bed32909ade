import Mathlib.Data.List.Basic
import Mathlib.Data.Nat.Basic

/-!
# Texts in buffers of limited size

Code puts a text together in a buffer. Some of its pieces are stored character by character
behind a check that there is room, others are single characters that are stored without one.
The checked pieces are cut off where the buffer ends, the unchecked characters go on behind
it. So the text stays in the buffer exactly if the last unchecked character has a place there.
-/

namespace HexaOS.TextBuffers

/-- What has been stored in a buffer. -/
structure Output (χ : Type) where
  /-- The place of the next character. -/
  pos : ℕ
  /-- Places and characters, in the order in which they were stored. -/
  stores : List (ℕ × χ)

/-- A part of a text. -/
inductive Piece (χ : Type) where
  /-- Characters that are stored as long as there is room. -/
  | text (chars : List χ)
  /-- A character that is stored without a check. -/
  | mark (c : χ)

namespace Output

variable {χ : Type}

/-- Nothing has been stored. -/
def start : Output χ := ⟨0, []⟩

/-- Store a character and go on to the next place. -/
def put (c : χ) (out : Output χ) : Output χ := ⟨out.pos + 1, out.stores ++ [(out.pos, c)]⟩

/-- Store characters as long as a place for a terminator is left. -/
def putText (size : ℕ) : List χ → Output χ → Output χ
  | [], out => out
  | c :: rest, out => if out.pos < size - 1 then putText size rest (out.put c) else out

/-- Store a piece. -/
def putPiece (size : ℕ) (out : Output χ) : Piece χ → Output χ
  | .text chars => out.putText size chars
  | .mark c => out.put c

/-- Store pieces one after the other. -/
def putAll (size : ℕ) (pieces : List (Piece χ)) (out : Output χ) : Output χ :=
  pieces.foldl (putPiece size) out

/-- Store a terminator at the place of the next character. -/
def terminate (zero : χ) (out : Output χ) : Output χ :=
  { out with stores := out.stores ++ [(out.pos, zero)] }

/-- Store a terminator if its place is in the buffer. -/
def terminateInside (size : ℕ) (zero : χ) (out : Output χ) : Output χ :=
  if out.pos < size then out.terminate zero else out

/-- Everything was stored in the buffer, the terminator last and at the final place. -/
structure Bounded (size : ℕ) (zero : χ) (out : Output χ) : Prop where
  /-- Every store is inside the buffer. -/
  inside : ∀ store ∈ out.stores, store.1 < size
  /-- The last one is the terminator. -/
  terminated : out.stores.getLast? = some (out.pos, zero)

/-- The places before the next one were stored to, in order. -/
def Consecutive (out : Output χ) : Prop := out.stores.map Prod.fst = List.range out.pos

variable {out : Output χ} {size : ℕ} {zero : χ}

theorem consecutive_start : (start : Output χ).Consecutive := rfl

/-- One more character. -/
theorem Consecutive.put (h : out.Consecutive) (c : χ) : (out.put c).Consecutive := by
  show (out.stores ++ [(out.pos, c)]).map Prod.fst = List.range (out.pos + 1)
  rw [List.map_append, h, List.range_succ, List.map_singleton]

/-- A checked piece. -/
theorem Consecutive.putText (h : out.Consecutive) (chars : List χ) :
    (out.putText size chars).Consecutive := by
  induction chars generalizing out with
  | nil => exact h
  | cons c rest ih =>
    rw [Output.putText]
    split
    · exact ih (h.put c)
    · exact h

/-- Any pieces. -/
theorem Consecutive.putAll (h : out.Consecutive) (pieces : List (Piece χ)) :
    (out.putAll size pieces).Consecutive := by
  induction pieces generalizing out with
  | nil => exact h
  | cons piece rest ih =>
    have hpiece : (out.putPiece size piece).Consecutive := by
      cases piece with
      | text chars => exact h.putText chars
      | mark c => exact h.put c
    exact ih hpiece

/-- A terminated text is in the buffer when its final place is. -/
theorem Consecutive.terminate_bounded_iff (h : out.Consecutive) (size : ℕ) (zero : χ) :
    (out.terminate zero).Bounded size zero ↔ out.pos < size := by
  constructor
  · intro hbounded
    have hlast : (out.pos, zero) ∈ (out.terminate zero).stores :=
      List.mem_append_right _ (List.mem_singleton_self _)
    exact hbounded.inside _ hlast
  · intro hpos
    refine ⟨?_, List.getLast?_concat⟩
    intro store hstore
    rcases List.mem_append.mp hstore with hbefore | hlast
    · have hplace : store.1 ∈ List.range out.pos := h ▸ List.mem_map_of_mem hbefore
      exact Nat.lt_trans (List.mem_range.mp hplace) hpos
    · rw [List.mem_singleton.mp hlast]
      exact hpos

/-- A text that is terminated only inside the buffer. -/
theorem Consecutive.terminateInside_bounded_iff (h : out.Consecutive) (size : ℕ) (zero : χ) :
    (out.terminateInside size zero).Bounded size zero ↔ out.pos < size := by
  rw [terminateInside]
  split
  · exact h.terminate_bounded_iff size zero
  · next hpos =>
    refine iff_of_false ?_ hpos
    intro hbounded
    -- the last store is that of a character, before the final place
    have hlast := congrArg List.getLast? h
    rw [List.getLast?_map, hbounded.terminated, List.getLast?_range] at hlast
    dsimp only [Option.map] at hlast
    split at hlast
    · cases hlast
    · have hplace := Option.some.inj hlast
      omega

/-- Where a checked piece ends. -/
theorem pos_putText (chars : List χ) (out : Output χ) :
    (out.putText size chars).pos = max out.pos (min (out.pos + chars.length) (size - 1)) := by
  induction chars generalizing out with
  | nil =>
    show out.pos = _
    rw [List.length_nil]
    omega
  | cons c rest ih =>
    rw [putText, List.length_cons]
    split
    · rw [ih]
      show max (out.pos + 1) (min (out.pos + 1 + rest.length) (size - 1)) = _
      omega
    · omega

end Output

section Marks

variable {χ : Type} {size : ℕ}

/-- The place behind the last unchecked character, if every piece is stored whole. -/
def markEnd (start : ℕ) : List (Piece χ) → ℕ
  | [] => 0
  | .text chars :: rest => markEnd (start + chars.length) rest
  | .mark _ :: rest => max (start + 1) (markEnd (start + 1) rest)

/-- Unchecked characters behind the last place are outside. -/
theorem markEnd_lt_iff {start start' : ℕ} (pieces : List (Piece χ)) (hsize : 0 < size)
    (hstart : size ≤ start + 1) (hstart' : size ≤ start' + 1) :
    markEnd start pieces < size ↔ markEnd start' pieces < size := by
  induction pieces generalizing start start' with
  | nil => exact iff_of_true hsize hsize
  | cons piece rest ih =>
    cases piece with
    | text chars => exact ih (by omega) (by omega)
    | mark c =>
      rw [markEnd, markEnd]
      omega

/-- A text stays in the buffer exactly if its last unchecked character does. -/
theorem pos_putAll_lt_iff (pieces : List (Piece χ)) (hsize : 0 < size) {out : Output χ}
    (hpos : out.pos < size) :
    (out.putAll size pieces).pos < size ↔ markEnd out.pos pieces < size := by
  -- behind the last place the position only grows
  have hgrows : ∀ (pieces : List (Piece χ)) (out : Output χ),
      out.pos ≤ (out.putAll size pieces).pos := by
    intro pieces
    induction pieces with
    | nil => exact fun out => le_rfl
    | cons piece rest ih =>
      intro out
      have hrest := ih (out.putPiece size piece)
      have hpiece : out.pos ≤ (out.putPiece size piece).pos := by
        cases piece with
        | text chars =>
          show _ ≤ (out.putText size chars).pos
          rw [Output.pos_putText]
          omega
        | mark c => exact Nat.le_succ _
      exact Nat.le_trans hpiece hrest
  induction pieces generalizing out with
  | nil => exact iff_of_true hpos hsize
  | cons piece rest ih =>
    cases piece with
    | text chars =>
      have hend : (out.putText size chars).pos = max out.pos (min (out.pos + chars.length) (size - 1)) :=
        Output.pos_putText chars out
      have hinside : (out.putText size chars).pos < size := by omega
      have hrest := ih hinside
      show ((out.putText size chars).putAll size rest).pos < size ↔
        markEnd (out.pos + chars.length) rest < size
      refine hrest.trans ?_
      by_cases hfits : out.pos + chars.length < size
      · rw [show (out.putText size chars).pos = out.pos + chars.length by omega]
      · exact markEnd_lt_iff rest hsize (by omega) (by omega)
    | mark c =>
      show ((out.put c).putAll size rest).pos < size ↔ _
      rw [markEnd]
      by_cases hfits : out.pos + 1 < size
      · have hrest : _ ↔ markEnd (out.pos + 1) rest < size := @ih (out.put c) hfits
        rw [hrest]
        omega
      · have hlater := hgrows rest (out.put c)
        have hnext : (out.put c).pos = out.pos + 1 := rfl
        refine iff_of_false ?_ ?_
        · omega
        · omega

/-- A text from the front of a buffer. -/
theorem bounded_terminate_iff (pieces : List (Piece χ)) (hsize : 0 < size) (zero : χ) :
    ((Output.start.putAll size pieces).terminate zero).Bounded size zero ↔
      markEnd 0 pieces < size := by
  rw [(Output.consecutive_start.putAll pieces).terminate_bounded_iff]
  exact pos_putAll_lt_iff pieces hsize hsize

/-- A text from the front of a buffer that is terminated only inside it. -/
theorem bounded_terminateInside_iff (pieces : List (Piece χ)) (hsize : 0 < size) (zero : χ) :
    ((Output.start.putAll size pieces).terminateInside size zero).Bounded size zero ↔
      markEnd 0 pieces < size := by
  rw [(Output.consecutive_start.putAll pieces).terminateInside_bounded_iff]
  exact pos_putAll_lt_iff pieces hsize hsize

end Marks

end HexaOS.TextBuffers
