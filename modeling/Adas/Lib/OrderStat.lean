import Mathlib.Data.List.Sort

/-!
Order statistics by counting.

In a sorted list the entry at position `k` is below a bound exactly when more
than `k` entries are (`getElem_lt_iff`), whichever list it was sorted from
(`getElem_insertionSort_lt_iff`). A strict majority on one side of the bound
therefore decides both middle positions (`lt_of_majority`, `le_of_majority`).
-/

namespace Adas.Lib

universe u

variable {α : Type u} [LinearOrder α]

/-- Below a bound that the first entry of a sorted list reaches there is nothing. -/
theorem countP_lt_eq_zero {a t : α} {l : List α} (sorted : (a :: l).Pairwise (· ≤ ·))
    (reached : t ≤ a) : (a :: l).countP (· < t) = 0 := by
  rw [List.countP_eq_zero]
  intro b mem below
  have above : a ≤ b := by
    rcases List.mem_cons.mp mem with rfl | later
    · exact le_rfl
    · exact List.rel_of_pairwise_cons sorted later
  exact absurd (of_decide_eq_true below) (not_lt.mpr (reached.trans above))

/-- In a sorted list, entry `k` is below `t` exactly when more than `k` entries are. -/
theorem getElem_lt_iff {l : List α} (sorted : l.Pairwise (· ≤ ·)) {k : ℕ} (inside : k < l.length)
    {t : α} : l[k] < t ↔ k < l.countP (· < t) := by
  induction l generalizing k with
  | nil => cases inside
  | cons a l ih =>
      by_cases below : a < t
      · rw [List.countP_cons_of_pos (by simpa using below)]
        cases k with
        | zero => simp [below]
        | succ k =>
            rw [List.getElem_cons_succ, ih sorted.of_cons]
            exact Nat.succ_lt_succ_iff.symm
      · have reached : t ≤ a := not_lt.mp below
        have first : a ≤ (a :: l)[k] := by
          cases k with
          | zero => exact le_rfl
          | succ k => exact List.rel_of_pairwise_cons sorted (List.getElem_mem _)
        rw [countP_lt_eq_zero sorted reached]
        constructor
        · intro lt
          exact absurd lt (not_lt.mpr (reached.trans first))
        · intro lt
          exact absurd lt (Nat.not_lt_zero k)

/-- The same, counted in the list before it was sorted. -/
theorem getElem_insertionSort_lt_iff {l : List α} {k : ℕ}
    (inside : k < (l.insertionSort (· ≤ ·)).length) {t : α} :
    (l.insertionSort (· ≤ ·))[k] < t ↔ k < l.countP (· < t) := by
  rw [getElem_lt_iff (List.pairwise_insertionSort _ l),
    (List.perm_insertionSort _ l).countP_eq]

/-! ### Majorities -/

/-- More than half of the entries satisfy `p`. -/
def Majority {β : Type u} (p : β → Bool) (l : List β) : Prop := l.length < 2 * l.countP p

instance {β : Type u} (p : β → Bool) (l : List β) : Decidable (Majority p l) := by
  unfold Majority
  infer_instance

theorem Majority.length_pos {β : Type u} {p : β → Bool} {l : List β} (h : Majority p l) :
    0 < l.length := by
  have counted : l.countP p ≤ l.length := List.countP_le_length
  unfold Majority at h
  omega

/-- Every entry is on one side of the bound. -/
theorem countP_lt_add_countP_le (t : α) (l : List α) :
    l.countP (· < t) + l.countP (t ≤ ·) = l.length := by
  rw [List.length_eq_countP_add_countP (· < t)]
  simp

/-- With most entries below the bound, so is every position up to the middle. -/
theorem lt_of_majority {l : List α} {t : α} (most : Majority (· < t) l) {k : ℕ}
    (inside : k < (l.insertionSort (· ≤ ·)).length) (middle : k ≤ l.length / 2) :
    (l.insertionSort (· ≤ ·))[k] < t := by
  rw [getElem_insertionSort_lt_iff]
  unfold Majority at most
  omega

/-- With most entries at or above the bound, so is every position from the lower
middle one on. -/
theorem le_of_majority {l : List α} {t : α} (most : Majority (t ≤ ·) l) {k : ℕ}
    (inside : k < (l.insertionSort (· ≤ ·)).length) (middle : (l.length - 1) / 2 ≤ k) :
    t ≤ (l.insertionSort (· ≤ ·))[k] := by
  rw [← not_lt, getElem_insertionSort_lt_iff]
  have sides := countP_lt_add_countP_le t l
  unfold Majority at most
  omega

end Adas.Lib
