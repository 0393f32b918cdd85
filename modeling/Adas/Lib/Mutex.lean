import Mathlib.Data.List.Basic

/-!
A lock between two threads, and a list behind it.

The lock itself remembers only whether it is taken. `Exclusive` ties it to where
its two threads are: it is taken exactly while one of them is inside, and they
are never inside together. What one of them knows about the list while it is
inside is therefore not disturbed by the other one.

`Accounted` is what such a list is used for: one thread appends, the other one
takes all there is, and nothing is lost, doubled or reordered on the way.
-/

namespace Adas.Lib

universe u

/-! ### The lock -/

/-- The lock is taken exactly while one thread is inside, and never by both. -/
structure Exclusive (locked first second : Bool) : Prop where
  held : locked = (first || second)
  apart : ¬ (first = true ∧ second = true)

theorem exclusive_free : Exclusive false false false := ⟨rfl, by decide⟩

section Exclusive

variable {locked first second : Bool}

theorem Exclusive.symm (h : Exclusive locked first second) : Exclusive locked second first :=
  ⟨h.held.trans (Bool.or_comm _ _), fun both => h.apart both.symm⟩

/-- A free lock: nobody is inside. -/
theorem Exclusive.outside (h : Exclusive locked first second) (free : locked = false) :
    first = false ∧ second = false := by
  have held := h.held
  rw [free] at held
  exact Bool.or_eq_false_iff.mp held.symm

/-- The other thread is outside while one is inside. -/
theorem Exclusive.alone (h : Exclusive locked first second) (inside : first = true) :
    second = false := by
  cases second with
  | false => rfl
  | true => exact absurd ⟨inside, rfl⟩ h.apart

theorem Exclusive.acquire (h : Exclusive locked first second) (free : locked = false) :
    Exclusive true true second := by
  obtain ⟨-, other⟩ := h.outside free
  rw [other]
  exact ⟨rfl, by decide⟩

theorem Exclusive.release (h : Exclusive locked first second) (inside : first = true) :
    Exclusive false false second := by
  rw [h.alone inside]
  exact exclusive_free

end Exclusive

/-! ### The list -/

/-- Everything that entered the list is in one of the batches taken from it or
still there, in the order in which it entered. -/
def Accounted {α : Type u} (entered : List α) (batches : List (List α)) (items : List α) : Prop :=
  entered = batches.flatten ++ items

section Accounted

variable {α : Type u} {entered items : List α} {batches : List (List α)}

theorem accounted_nil : Accounted ([] : List α) [] [] := rfl

theorem Accounted.append (h : Accounted entered batches items) (x : α) :
    Accounted (entered ++ [x]) batches (items ++ [x]) := by
  rw [Accounted, h, List.append_assoc]

/-- The first items become a batch. -/
theorem Accounted.take {batch : List α} (h : Accounted entered batches (batch ++ items)) :
    Accounted entered (batches ++ [batch]) items := by
  rw [Accounted, h]
  simp

/-- Every element of a batch entered. -/
theorem Accounted.mem (h : Accounted entered batches items) {batch : List α}
    (inside : batch ∈ batches) {x : α} (mem : x ∈ batch) : x ∈ entered := by
  rw [h]
  exact List.mem_append_left _ (List.mem_flatten.mpr ⟨batch, inside, mem⟩)

end Accounted

end Adas.Lib
