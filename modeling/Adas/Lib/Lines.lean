import Mathlib.Data.Nat.Notation

/-!
Lines of a stream.

`lines` are the complete ones, terminator included, in the order a reader gets
them; what comes after the last terminator is not a line yet. A stream that is a
concatenation of lines falls into them again (`lines_flatten`).
-/

namespace Adas.Lib

universe u

variable {α : Type u} [DecidableEq α]

/-- The complete lines, when `begun` has been read of the first one. -/
def linesFrom (terminator : α) : List α → List α → List (List α)
  | _, [] => []
  | begun, a :: rest =>
      if a = terminator then (begun ++ [a]) :: linesFrom terminator [] rest
      else linesFrom terminator (begun ++ [a]) rest

/-- The complete lines of a stream. -/
def lines (terminator : α) (stream : List α) : List (List α) := linesFrom terminator [] stream

variable {terminator : α}

/-- A line: nothing but its last entry is the terminator. -/
def IsLine (terminator : α) (line : List α) : Prop :=
  ∃ body, terminator ∉ body ∧ line = body ++ [terminator]

@[simp] theorem lines_nil : lines terminator [] = [] := rfl

theorem linesFrom_append {begun body rest : List α} (inside : terminator ∉ body) :
    linesFrom terminator begun (body ++ terminator :: rest) =
      (begun ++ body ++ [terminator]) :: lines terminator rest := by
  induction body generalizing begun with
  | nil => simp [linesFrom, lines]
  | cons a body ih =>
      have other : a ≠ terminator := fun same => inside (same ▸ List.mem_cons_self)
      rw [List.cons_append, linesFrom, if_neg other,
        ih fun mem => inside (List.mem_cons_of_mem _ mem)]
      simp

/-- A line at the front of the stream is the first one read. -/
theorem lines_append {line : List α} (h : IsLine terminator line) (rest : List α) :
    lines terminator (line ++ rest) = line :: lines terminator rest := by
  obtain ⟨body, inside, rfl⟩ := h
  rw [List.append_assoc, List.singleton_append, lines, linesFrom_append inside, List.nil_append]

/-- Lines one after the other are read as they are. -/
theorem lines_flatten {ls : List (List α)} (all : ∀ line ∈ ls, IsLine terminator line) :
    lines terminator ls.flatten = ls := by
  induction ls with
  | nil => rfl
  | cons line ls ih =>
      rw [List.flatten_cons, lines_append (all line List.mem_cons_self),
        ih fun l mem => all l (List.mem_cons_of_mem _ mem)]

end Adas.Lib
