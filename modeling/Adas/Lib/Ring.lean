import Mathlib.Data.List.DropRight
import Mathlib.Data.List.Rotate

/-!
Sliding windows over an unbounded history, and the ring buffer that stores one.

`recent n pad history` is the abstract view: the last `n` entries of a history,
oldest first, padded in front while the history is shorter than `n`. A ring
keeps only the `n` slots and a cursor on the oldest one. `contents_set` is the
one representation step: writing the slot under the cursor and advancing is the
push `recent_push` of the abstract view. Everything else is counting.
-/

namespace Adas.Lib

universe u v

variable {α : Type u}

/-! ### The end of a list -/

theorem length_rtake (l : List α) (n : ℕ) : (l.rtake n).length = min n l.length := by
  rw [List.rtake, List.length_drop]
  omega

theorem rtake_eq_self {l : List α} {n : ℕ} (fits : l.length ≤ n) : l.rtake n = l := by
  rw [List.rtake, Nat.sub_eq_zero_of_le fits, List.drop_zero]

theorem take_append_rtake (l : List α) (n : ℕ) : l.take (l.length - n) ++ l.rtake n = l := by
  rw [List.rtake, List.take_append_drop]

theorem mem_of_mem_rtake {l : List α} {n : ℕ} {x : α} (mem : x ∈ l.rtake n) : x ∈ l :=
  List.mem_of_mem_drop mem

theorem rtake_map {β : Type v} (f : α → β) (l : List α) (n : ℕ) :
    (l.map f).rtake n = (l.rtake n).map f := by
  rw [List.rtake, List.rtake, List.length_map, List.map_drop]

/-! ### The last entries of a history -/

/-- The last `n` entries of `history`, oldest first, padded in front with `pad`. -/
def recent (n : ℕ) (pad : α) (history : List α) : List α :=
  (List.replicate n pad ++ history).drop history.length

@[simp] theorem recent_length (n : ℕ) (pad : α) (history : List α) :
    (recent n pad history).length = n := by
  simp [recent]

@[simp] theorem recent_nil (n : ℕ) (pad : α) : recent n pad [] = List.replicate n pad := by
  simp [recent]

@[simp] theorem recent_zero (pad : α) (history : List α) : recent 0 pad history = [] := by
  simp [recent]

/-- The window after more entries: what is left of the old window, then the
last of the new entries. -/
theorem recent_append (n : ℕ) (pad : α) (old new : List α) :
    recent n pad (old ++ new) =
      recent (n - new.length) pad old ++ new.drop (new.length - n) := by
  unfold recent
  rw [← List.append_assoc, List.drop_append, List.length_append, Nat.add_comm, ← List.drop_drop]
  congr 1
  · by_cases h : new.length ≤ n
    · have split : List.replicate n pad =
          List.replicate new.length pad ++ List.replicate (n - new.length) pad := by
        rw [List.replicate_append_replicate, Nat.add_sub_cancel' h]
      rw [split, List.append_assoc, List.drop_left' (by simp)]
    · have none : n - new.length = 0 := by omega
      rw [none, List.drop_drop]
      simp only [List.replicate_zero, List.nil_append, List.drop_length]
      exact List.drop_eq_nil_of_le (by simp; omega)
  · simp only [List.length_append, List.length_replicate]
    congr 1
    omega

/-- Entering one entry drops the oldest one. -/
theorem recent_push (n : ℕ) (pad : α) (history : List α) (x : α) :
    recent (n + 1) pad (history ++ [x]) = (recent (n + 1) pad history).tail ++ [x] := by
  have window := recent_append (n + 1) pad history [x]
  have tail : (recent (n + 1) pad history).tail = recent n pad history := by
    simp [recent, ← List.drop_one, List.drop_drop, List.replicate_succ]
  simpa [tail] using window

/-- Entries that fit in the window are all in it, at its end. -/
theorem suffix_recent {n : ℕ} {pad : α} {old new : List α} (fits : new.length ≤ n) :
    new <:+ recent n pad (old ++ new) := by
  rw [recent_append, Nat.sub_eq_zero_of_le fits, List.drop_zero]
  exact List.suffix_append _ _

section Counting

variable (p : α → Bool) {n : ℕ} {pad : α} {old new : List α}

/-- A window counts at least what the entries that fit in it count. -/
theorem countP_le_recent (fits : new.length ≤ n) :
    new.countP p ≤ (recent n pad (old ++ new)).countP p :=
  (suffix_recent fits).sublist.countP_le

/-- Padding that does not count leaves the count of the last `n` entries. -/
theorem countP_recent_rtake (ignored : p pad = false) :
    (recent n pad old).countP p = (old.rtake n).countP p := by
  have window := recent_append n pad [] old
  rw [List.nil_append, recent_nil] at window
  rw [window, List.countP_append, List.countP_replicate, ignored]
  simp [List.rtake]

/-- One entry changes a count by at most the entry itself and the one it pushes out. -/
theorem countP_recent_push (x : α) :
    (recent (n + 1) pad old).countP p ≤ (recent (n + 1) pad (old ++ [x])).countP p + 1 := by
  rw [recent_push, List.countP_append]
  have total := recent_length (n + 1) pad old
  cases h : recent (n + 1) pad old with
  | nil => simp [h] at total
  | cons head tail =>
      simp only [List.tail_cons, List.countP_cons]
      split <;> omega

/-- An entry that counts keeps a count from falling. -/
theorem countP_recent_push_of_pos {x : α} (counts : p x = true) :
    (recent (n + 1) pad old).countP p ≤ (recent (n + 1) pad (old ++ [x])).countP p := by
  rw [recent_push, List.countP_append, List.countP_singleton, if_pos counts]
  have total := recent_length (n + 1) pad old
  cases h : recent (n + 1) pad old with
  | nil => simp [h] at total
  | cons head tail =>
      simp only [List.tail_cons, List.countP_cons]
      split <;> omega

/-- Whatever came before, a window counts at least the last `n` new entries. -/
theorem countP_rtake_le_recent (n : ℕ) (pad : α) (old new : List α) :
    (new.rtake n).countP p ≤ (recent n pad (old ++ new)).countP p := by
  have split : old ++ new = (old ++ new.take (new.length - n)) ++ new.rtake n := by
    rw [List.append_assoc, take_append_rtake]
  rw [split]
  refine countP_le_recent p ?_
  rw [length_rtake]
  exact min_le_left _ _

/-- A list splits at its `k`-th occurrence, counting from 0. -/
theorem exists_split_of_lt_countP {l : List α} {k : ℕ} (more : k < l.countP p) :
    ∃ a x b, l = a ++ x :: b ∧ p x = true ∧ a.countP p = k := by
  induction l generalizing k with
  | nil => simp at more
  | cons y l ih =>
      cases counts : p y with
      | false =>
          rw [List.countP_cons_of_neg (by simp [counts])] at more
          obtain ⟨a, x, b, rfl, hx, ha⟩ := ih more
          exact ⟨y :: a, x, b, rfl, hx, by rw [List.countP_cons_of_neg (by simp [counts]), ha]⟩
      | true =>
          cases k with
          | zero => exact ⟨[], y, l, rfl, counts, rfl⟩
          | succ k =>
              rw [List.countP_cons_of_pos counts] at more
              obtain ⟨a, x, b, rfl, hx, ha⟩ := ih (Nat.lt_of_succ_lt_succ more)
              exact ⟨y :: a, x, b, rfl, hx, by rw [List.countP_cons_of_pos counts, ha]⟩

end Counting

/-! ### The ring -/

variable {n : ℕ}

/-- The slots read cyclically from the cursor, that is oldest first. -/
def contents (slots : Vector α n) (cursor : Fin n) : List α :=
  slots.toList.rotate cursor

/-- Reading from another slot only reorders what is counted. -/
theorem count_contents [BEq α] (slots : Vector α n) (cursor : Fin n) (a : α) :
    (contents slots cursor).count a = slots.count a := by
  rw [contents, (List.rotate_perm _ _).count_eq, Vector.count_toList]

theorem contents_replicate (pad : α) (cursor : Fin n) :
    contents (Vector.replicate n pad) cursor = List.replicate n pad := by
  simp [contents]

/-- The list form of `contents_set`: the overwritten entry moves to the end. -/
theorem rotate_set {l : List α} {i : ℕ} (x : α) (lt : i < l.length) :
    (l.set i x).rotate (i + 1) = (l.rotate i).tail ++ [x] := by
  have untouched : (l.take i).set i x = l.take i :=
    List.set_eq_of_length_le (List.length_take_le _ _)
  rw [List.rotate_eq_drop_append_take (by simpa using Nat.succ_le_of_lt lt),
    List.rotate_eq_drop_append_take lt.le, List.drop_eq_getElem_cons lt]
  simp [List.drop_set, List.take_set, List.take_add_one, lt, untouched]

/-- Overwriting the slot under the cursor and moving the cursor one slot on,
around the end, drops the oldest entry and appends the new one. -/
theorem contents_set (slots : Vector α n) (cursor next : Fin n) (x : α)
    (wraps : next.val = (cursor.val + 1) % n) :
    contents (slots.set cursor x) next = (contents slots cursor).tail ++ [x] := by
  have cursorLt : cursor.val < slots.toList.length := by simp
  have mod : next.val = (cursor.val + 1) % (slots.toList.set cursor x).length := by
    simpa using wraps
  rw [contents, Vector.toList_set, mod, List.rotate_mod, rotate_set x cursorLt, contents]

end Adas.Lib
