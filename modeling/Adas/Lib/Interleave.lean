import Mathlib.Data.Set.Insert

/-!
Straight-line scripts of tasks that share a state and hold no lock.

While its script is interrupted, a task can rely only on facts that nobody
undoes. A `Discipline` collects such facts: what each operation needs, what it
leaves, and the proof that no allowed operation whose needs are met undoes one.
A script is `Scripted` when every operation's needs are among the facts that
hold in every state or that an earlier operation of the same script left.
`Ready` is the invariant of a task at any point of any interleaving: it survives
the task's own operation (`Ready.next`) and everybody else's (`Ready.other`).
-/

namespace Adas.Lib

universe u v w

/-- Operations on a shared state, with facts that are stable under all of them. -/
structure Discipline (σ : Type u) (Op : Type v) (Fact : Type w) where
  exec : Op → σ → σ
  holds : Fact → σ → Prop
  /-- The states in which an operation is not an offence. -/
  allowed : Op → σ → Prop
  pre : Op → Set Fact
  post : Op → Set Fact
  establishes : ∀ {op s}, allowed op s → (∀ f ∈ pre op, holds f s) →
    ∀ f ∈ post op, holds f (exec op s)
  preserves : ∀ {op s}, allowed op s → (∀ f ∈ pre op, holds f s) →
    ∀ f, holds f s → holds f (exec op s)

namespace Discipline

variable {σ : Type u} {Op : Type v} {Fact : Type w} (D : Discipline σ Op Fact)

/-- The facts that hold in every state. -/
def always : Set Fact := {f | ∀ s, D.holds f s}

/-- Everything the script needs is known, or left by an earlier operation of it. -/
def Scripted (known : Set Fact) : List Op → Prop
  | [] => True
  | op :: ops => D.pre op ⊆ known ∧ Scripted (known ∪ D.post op) ops

/-- What is left of a script needs only facts that hold. -/
def Ready (s : σ) (ops : List Op) : Prop :=
  ∃ known, (∀ f ∈ known, D.holds f s) ∧ D.Scripted known ops

variable {D}

theorem Scripted.mono {known known' : Set Fact} {ops : List Op} (h : D.Scripted known ops)
    (le : known ⊆ known') : D.Scripted known' ops := by
  induction ops generalizing known known' with
  | nil => trivial
  | cons op ops ih => exact ⟨h.1.trans le, ih h.2 (Set.union_subset_union_left _ le)⟩

/-- Scripts that each rely on nothing of the other's can follow one another. -/
theorem Scripted.append {known : Set Fact} {ops ops' : List Op} (h : D.Scripted known ops)
    (h' : D.Scripted known ops') : D.Scripted known (ops ++ ops') := by
  induction ops generalizing known with
  | nil => exact h'
  | cons op ops ih => exact ⟨h.1, ih h.2 (h'.mono Set.subset_union_left)⟩

/-- A script can start anywhere. -/
theorem Scripted.ready {ops : List Op} (h : D.Scripted D.always ops) (s : σ) : D.Ready s ops :=
  ⟨D.always, fun _ known => known s, h⟩

theorem ready_nil (s : σ) : D.Ready s [] := ⟨∅, fun _ h => h.elim, trivial⟩

/-- The needs of the next operation are met. -/
theorem Ready.pre_holds {s : σ} {op : Op} {ops : List Op} (h : D.Ready s (op :: ops)) :
    ∀ f ∈ D.pre op, D.holds f s := by
  obtain ⟨known, hold, needs, -⟩ := h
  exact fun f needed => hold f (needs needed)

/-- The task's own operation. -/
theorem Ready.next {s : σ} {op : Op} {ops : List Op} (h : D.Ready s (op :: ops))
    (allowed : D.allowed op s) : D.Ready (D.exec op s) ops := by
  have met := h.pre_holds
  obtain ⟨known, hold, -, rest⟩ := h
  refine ⟨known ∪ D.post op, ?_, rest⟩
  rintro f (old | new)
  · exact D.preserves allowed met f (hold f old)
  · exact D.establishes allowed met f new

/-- An operation of anybody else. -/
theorem Ready.other {s : σ} {op : Op} {ops : List Op} (h : D.Ready s ops)
    (allowed : D.allowed op s) (met : ∀ f ∈ D.pre op, D.holds f s) :
    D.Ready (D.exec op s) ops := by
  obtain ⟨known, hold, script⟩ := h
  exact ⟨known, fun f old => D.preserves allowed met f (hold f old), script⟩

end Discipline

end Adas.Lib
