import Mathlib.Data.Nat.Notation

/-!
A stream that is written in pieces and read in pieces.

`offset` is where a piece begins in the concatenation. `exists_offset` and
`getElem?_flatten_offset` convert between positions of the stream and positions
inside a piece; `Overlap` says that a written and a read piece share a position.
Nothing relates the two ways of cutting the stream but the stream itself.
-/

namespace Adas.Lib

universe u

variable {α : Type u}

/-- Where piece `k` begins. -/
def offset (pieces : List (List α)) (k : ℕ) : ℕ := (pieces.take k).flatten.length

@[simp] theorem offset_zero (pieces : List (List α)) : offset pieces 0 = 0 := by
  simp [offset]

theorem offset_succ {pieces : List (List α)} {k : ℕ} {piece : List α}
    (h : pieces[k]? = some piece) : offset pieces (k + 1) = offset pieces k + piece.length := by
  simp [offset, List.take_add_one, h]

/-- Pieces of one length begin at its multiples. -/
theorem offset_of_length {pieces : List (List α)} {n : ℕ} (all : ∀ piece ∈ pieces, piece.length = n)
    {k : ℕ} (inside : k ≤ pieces.length) : offset pieces k = n * k := by
  induction k with
  | zero => simp
  | succ k ih =>
      have at_k : pieces[k]? = some pieces[k] := List.getElem?_eq_getElem inside
      rw [offset_succ at_k, ih (Nat.le_of_succ_le inside), all _ (List.getElem_mem inside),
        Nat.mul_succ]

theorem offset_length (pieces : List (List α)) :
    offset pieces pieces.length = pieces.flatten.length := by
  rw [offset, List.take_length]

theorem flatten_eq_at {pieces : List (List α)} {k : ℕ} {piece : List α}
    (h : pieces[k]? = some piece) :
    pieces.flatten = (pieces.take k).flatten ++ (piece ++ (pieces.drop (k + 1)).flatten) := by
  obtain ⟨inside, rfl⟩ := List.getElem?_eq_some_iff.mp h
  rw [← List.flatten_cons, List.getElem_cons_drop, ← List.flatten_append, List.take_append_drop]

/-- A position inside a piece, as a position of the stream. -/
theorem getElem?_flatten_offset {pieces : List (List α)} {k r : ℕ} {piece : List α}
    (h : pieces[k]? = some piece) (inside : r < piece.length) :
    pieces.flatten[offset pieces k + r]? = piece[r]? := by
  rw [flatten_eq_at h, offset, List.getElem?_append_right (Nat.le_add_right _ _),
    Nat.add_sub_cancel_left, List.getElem?_append_left inside]

/-- A position of the stream, as a position inside a piece. -/
theorem exists_offset {pieces : List (List α)} {p : ℕ} (inside : p < pieces.flatten.length) :
    ∃ k r piece, pieces[k]? = some piece ∧ r < piece.length ∧ p = offset pieces k + r := by
  induction pieces generalizing p with
  | nil => exact absurd inside (Nat.not_lt_zero p)
  | cons first pieces ih =>
      by_cases here : p < first.length
      · exact ⟨0, p, first, rfl, here, by simp⟩
      · have later : p - first.length < pieces.flatten.length := by
          rw [List.flatten_cons, List.length_append] at inside
          omega
        obtain ⟨k, r, piece, at_k, lt, eq⟩ := ih later
        refine ⟨k + 1, r, piece, at_k, lt, ?_⟩
        have : offset (first :: pieces) (k + 1) = first.length + offset pieces k := by
          simp [offset]
        omega

/-- Written piece `k` and read piece `j` share a position of the stream. -/
def Overlap (written read : List (List α)) (k j : ℕ) : Prop :=
  offset written k < offset read (j + 1) ∧ offset read j < offset written (k + 1)

/-- The piece in which a read piece begins overlaps it. -/
theorem overlap_of_begins {written read : List (List α)} {k j r : ℕ} {piece data : List α}
    (at_k : written[k]? = some piece) (at_j : read[j]? = some data) (nonempty : data ≠ [])
    (inside : r < piece.length) (begins : offset read j = offset written k + r) :
    Overlap written read k j := by
  have next := offset_succ at_k
  have length := List.length_pos_iff.mpr nonempty
  constructor
  · rw [offset_succ at_j]
    omega
  · omega

/-- The first element of a read piece is the one the stream has there. -/
theorem head?_eq_of_prefix {written read : List (List α)} {k j r : ℕ} {piece data : List α}
    (within : read.flatten <+: written.flatten) (at_k : written[k]? = some piece)
    (at_j : read[j]? = some data) (nonempty : data ≠ []) (inside : r < piece.length)
    (begins : offset read j = offset written k + r) : data.head? = piece[r]? := by
  have length := List.length_pos_iff.mpr nonempty
  have first := getElem?_flatten_offset at_j length
  rw [Nat.add_zero, ← List.head?_eq_getElem?] at first
  obtain ⟨rest, stream⟩ := within
  have shorter : offset read j < read.flatten.length := by
    rw [flatten_eq_at at_j, offset]
    simp only [List.length_append]
    omega
  rw [← first, ← getElem?_flatten_offset at_k inside, ← begins, ← stream,
    List.getElem?_append_left shorter]

/-- Every nonempty read piece begins inside some written piece. -/
theorem exists_begins {written read : List (List α)} {j : ℕ} {data : List α}
    (within : read.flatten <+: written.flatten) (at_j : read[j]? = some data)
    (nonempty : data ≠ []) :
    ∃ k r piece, written[k]? = some piece ∧ r < piece.length ∧
      offset read j = offset written k + r := by
  have length := List.length_pos_iff.mpr nonempty
  refine exists_offset (Nat.lt_of_lt_of_le ?_ within.length_le)
  rw [flatten_eq_at at_j, offset]
  simp only [List.length_append]
  omega

/-- A suffix of the stream begins inside some piece. -/
theorem suffix_flatten {pieces : List (List α)} {rest : List α} (h : rest <:+ pieces.flatten)
    (nonempty : rest ≠ []) :
    ∃ before piece after part, pieces = before ++ piece :: after ∧ part <:+ piece ∧ part ≠ [] ∧
      rest = part ++ after.flatten := by
  induction pieces with
  | nil => exact absurd (List.suffix_nil.mp h) nonempty
  | cons piece pieces ih =>
      obtain ⟨skipped, stream⟩ := h
      rw [List.flatten_cons] at stream
      rcases List.append_eq_append_iff.mp stream with ⟨part, split, rfl⟩ | ⟨more, rfl, later⟩
      · cases part with
        | nil =>
            obtain ⟨before, piece', after, part', rfl, inside, filled, eq⟩ :=
              ih List.suffix_rfl
            exact ⟨piece :: before, piece', after, part', rfl, inside, filled, eq⟩
        | cons a part =>
            exact ⟨[], piece, pieces, a :: part, rfl, ⟨skipped, split.symm⟩,
              List.cons_ne_nil _ _, rfl⟩
      · obtain ⟨before, piece', after, part', rfl, inside, filled, eq⟩ :=
          ih ⟨more, later.symm⟩
        exact ⟨piece :: before, piece', after, part', rfl, inside, filled, eq⟩

end Adas.Lib
