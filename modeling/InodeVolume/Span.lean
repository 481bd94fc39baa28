/-!
# Spans cut at cell boundaries

A span is a run of consecutive positions, given by its first position and its size. Storage is
divided into cells of equal size: bytes into blocks, bits of the space map into blocks, entries of a
doubly indirect table into inner tables. `pieces` cuts a span into the parts that lie in one cell
each, in order.

Main statements: the pieces lie end to end from the start of the span (`pieces_tile`), and each one
stays inside its cell (`piece_in_cell`).
-/

namespace InodeVolume

/-- A part of a span that lies in one cell. -/
structure Piece where
  /-- Which cell it lies in. -/
  cell : Nat
  /-- Its first position, counted from the start of the cell. -/
  start : Nat
  /-- How many positions it has. -/
  size : Nat
  deriving DecidableEq, Repr

/-- The first position of a piece, counted from position 0 of cell 0. -/
def Piece.position (width : Nat) (p : Piece) : Nat := p.cell * width + p.start

/-- A piece that is not empty lies in a cell before `c`, if it ends before that cell starts. -/
theorem Piece.cell_lt {w c : Nat} {p : Piece} (hp : 0 < p.size)
    (hend : p.position w + p.size ≤ c * w) : p.cell < c := by
  have hlt : p.cell * w < c * w := by
    rw [Piece.position] at hend
    omega
  exact Nat.lt_of_mul_lt_mul_right hlt

/-- Cuts the span of `count` positions from `first` on at every multiple of `width`. -/
def pieces (width first count : Nat) : List Piece :=
  if width = 0 ∨ count = 0 then []
  else
    let size := min count (width - first % width)
    { cell := first / width, start := first % width, size := size } ::
      pieces width (first + size) (count - size)
termination_by count
decreasing_by
  -- At least one position is left in the cell of `first`, so the rest is shorter.
  rename_i h
  have := Nat.mod_lt first (Nat.pos_of_ne_zero fun w => h (.inl w))
  omega

/-- An empty span has no pieces. -/
@[simp] theorem pieces_zero (width first : Nat) : pieces width first 0 = [] := by
  rw [pieces]; simp

/-- A piece is not empty and ends inside its cell. -/
theorem piece_in_cell {width first count : Nat} {p : Piece} (h : p ∈ pieces width first count) :
    0 < p.size ∧ p.start + p.size ≤ width := by
  fun_induction pieces width first count with
  | case1 => simp at h
  | case2 first count hc size ih =>
    have := Nat.mod_lt first (Nat.pos_of_ne_zero fun w => hc (.inl w))
    rcases List.mem_cons.1 h with rfl | h
    · simp only [size]; omega
    · exact ih h

/-- The pieces lie end to end: the first starts where the span starts, each of the others where its
predecessor ends, and the last ends where the span ends. -/
def Tiles (width : Nat) : Nat → Nat → List Piece → Prop
  | _, count, [] => count = 0
  | first, count, p :: rest =>
    p.position width = first ∧ p.size ≤ count ∧ Tiles width (first + p.size) (count - p.size) rest

/-- Cutting a span loses and repeats nothing. -/
theorem pieces_tile {width : Nat} (hw : 0 < width) (first count : Nat) :
    Tiles width first count (pieces width first count) := by
  fun_induction pieces width first count with
  | case1 first count h =>
    rcases h with h | h
    · omega
    · exact h
  | case2 first count h size ih =>
    refine ⟨?_, ?_, ih⟩
    · simp only [Piece.position]
      rw [Nat.mul_comm]
      exact Nat.div_add_mod first width
    · simp only [size]; omega

end InodeVolume
