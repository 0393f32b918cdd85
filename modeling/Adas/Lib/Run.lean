import Mathlib.Data.List.Induction
import Mathlib.Logic.Function.Iterate

/-!
Runs of step functions, and the rules the rest of the development uses on them.

`run` executes a list of actions of a transition system whose actions may be
disabled (`none`). The rule to use on it is the one that carries a fact about the
actions so far as well as about the state (`run_induct`), so that no ghost state
has to be added to a model to speak about its past; `run_simulation` carries runs
of one system over to another. Where some steps make or break a property and the
others leave it, `last_decides` says when it holds at the end. `runOut` executes a
list of inputs of a loop that may raise and that sends one output per iteration;
induction over its runs is over the inputs, last one first, with
`runOut_snoc_eq_ok`.
-/

namespace Adas.Lib

universe u v w x u' v'

/-! ### Transition systems -/

section Run

variable {σ : Type u} {α : Type v}

/-- Execute the actions in order; `none` when one of them is not enabled. -/
def run (step : σ → α → Option σ) : σ → List α → Option σ
  | s, [] => some s
  | s, a :: as => (step s a).bind fun s' => run step s' as

variable {step : σ → α → Option σ}

@[simp] theorem run_nil (s : σ) : run step s [] = some s := rfl

theorem run_cons_eq_some {s t : σ} {a : α} {as : List α} :
    run step s (a :: as) = some t ↔ ∃ s', step s a = some s' ∧ run step s' as = some t := by
  simp [run, Option.bind_eq_some_iff]

theorem run_append_eq_some {s t : σ} {as bs : List α} :
    run step s (as ++ bs) = some t ↔ ∃ s', run step s as = some s' ∧ run step s' bs = some t := by
  induction as generalizing s with
  | nil => simp
  | cons a as ih =>
      simp only [List.cons_append, run_cons_eq_some, ih]
      constructor
      · rintro ⟨m, first, n, rest, last⟩
        exact ⟨n, ⟨m, first, rest⟩, last⟩
      · rintro ⟨n, ⟨m, first, rest⟩, last⟩
        exact ⟨m, first, n, rest, last⟩

theorem run_snoc_eq_some {s t : σ} {as : List α} {a : α} :
    run step s (as ++ [a]) = some t ↔ ∃ s', run step s as = some s' ∧ step s' a = some t := by
  simp only [run_append_eq_some, run_cons_eq_some, run_nil, Option.some.injEq, exists_eq_right]

/-- Actions that are always enabled run through, as a fold. -/
theorem run_map_eq_some {β : Type w} {action : β → α} {f : σ → β → σ}
    (enabled : ∀ s b, step s (action b) = some (f s b)) (s : σ) (bs : List β) :
    run step s (bs.map action) = some (bs.foldl f s) := by
  induction bs generalizing s with
  | nil => rfl
  | cons b bs ih =>
      rw [List.map_cons, List.foldl_cons]
      exact run_cons_eq_some.mpr ⟨f s b, enabled s b, ih (f s b)⟩

/-- What holds before any action and survives each step, as a fact about the
actions so far and the state they lead to, holds after every run. -/
theorem run_induct {init : σ} {P : List α → σ → Prop} (start : P [] init)
    (keep : ∀ as s a s', P as s → step s a = some s' → P (as ++ [a]) s') :
    ∀ {as : List α} {s : σ}, run step init as = some s → P as s := by
  intro as
  induction as using List.reverseRecOn with
  | nil =>
      intro s h
      cases h
      exact start
  | append_singleton as a ih =>
      intro s h
      obtain ⟨m, before, last⟩ := run_snoc_eq_some.mp h
      exact keep as m a s (ih before) last

/-- The state-only case of `run_induct`: an inductive invariant. -/
theorem run_invariant {init : σ} {Inv : σ → Prop} (start : Inv init)
    (keep : ∀ s a s', Inv s → step s a = some s' → Inv s')
    {as : List α} {s : σ} (h : run step init as = some s) : Inv s :=
  run_induct (P := fun _ s => Inv s) start (fun _ s a s' => keep s a s') h

/-- Forward simulation: when every step of one system is matched by some run of
the other, so is every run. -/
theorem run_simulation {τ : Type w} {β : Type x} {step' : τ → β → Option τ} {R : σ → τ → Prop}
    (match_step : ∀ s a s' t, R s t → step s a = some s' →
      ∃ bs t', run step' t bs = some t' ∧ R s' t')
    {s s' : σ} {t : τ} {as : List α} (related : R s t) (h : run step s as = some s') :
    ∃ bs t', run step' t bs = some t' ∧ R s' t' := by
  induction as generalizing s t with
  | nil =>
      cases h
      exact ⟨[], t, rfl, related⟩
  | cons a as ih =>
      obtain ⟨m, first, rest⟩ := run_cons_eq_some.mp h
      obtain ⟨bs, t₁, run₁, related₁⟩ := match_step s a m t related first
      obtain ⟨cs, t₂, run₂, related₂⟩ := ih related₁ rest
      exact ⟨bs ++ cs, t₂, run_append_eq_some.mpr ⟨t₁, run₁, run₂⟩, related₂⟩

/-- Lockstep: when each step of one system is the same action of the other, so is
each run. -/
theorem run_lockstep {τ : Type w} {step' : τ → α → Option τ} {R : σ → τ → Prop}
    (match_step : ∀ s a s' t, R s t → step s a = some s' → ∃ t', step' t a = some t' ∧ R s' t')
    {s s' : σ} {t : τ} {as : List α} (related : R s t) (h : run step s as = some s') :
    ∃ t', run step' t as = some t' ∧ R s' t' := by
  induction as generalizing s t with
  | nil =>
      cases h
      exact ⟨t, rfl, related⟩
  | cons a as ih =>
      obtain ⟨m, first, rest⟩ := run_cons_eq_some.mp h
      obtain ⟨t₁, first', related₁⟩ := match_step s a m t related first
      obtain ⟨t₂, rest', related₂⟩ := ih related₁ rest
      exact ⟨t₂, run_cons_eq_some.mpr ⟨t₁, first', rest'⟩, related₂⟩

/-- Progress: when some action takes every state short of the goal to the goal or to
a lower rank, as many actions as the rank, and one, reach the goal. -/
theorem run_reaches {Inv Goal : σ → Prop} {rank : σ → ℕ}
    (progress : ∀ s, Inv s → ∃ a s', step s a = some s' ∧ (Goal s' ∨ Inv s' ∧ rank s' < rank s))
    {s : σ} (inv : Inv s) :
    ∃ as s', run step s as = some s' ∧ Goal s' ∧ as.length ≤ rank s + 1 := by
  induction lower : rank s using Nat.strongRecOn generalizing s with
  | ind n ih =>
      obtain ⟨a, m, first, goal | ⟨kept, less⟩⟩ := progress s inv
      · exact ⟨[a], m, run_cons_eq_some.mpr ⟨m, first, rfl⟩, goal, Nat.le_add_left _ _⟩
      · obtain ⟨as, t, rest, goal, short⟩ := ih (rank m) (lower ▸ less) kept rfl
        refine ⟨a :: as, t, run_cons_eq_some.mpr ⟨m, first, rest⟩, goal, ?_⟩
        rw [List.length_cons]
        omega

end Run

/-! ### Iterations that settle -/

/-- When `n` iterations reach a set from anywhere and one more stays in it, so do
more than `n`. -/
theorem iterate_settles {σ : Type u} {f : σ → σ} {P : σ → Prop} {n : ℕ}
    (reaches : ∀ s, P (f^[n] s)) (keep : ∀ s, P s → P (f s)) (s : σ) {k : ℕ} (long : n ≤ k) :
    P (f^[k] s) := by
  obtain ⟨m, rfl⟩ := Nat.exists_eq_add_of_le' long
  rw [Function.iterate_add_apply]
  exact Function.Iterate.rec P (reaches s) keep m

/-! ### The last event -/

/-- A property that events make or break, and that stays as it is without one: the
last event decides. -/
theorem last_decides {P E O : ℕ → Prop} (start : P 0) (events : ∀ k, O k → E k) (n : ℕ)
    (event : ∀ k < n, E k → (P (k + 1) ↔ ¬ O k)) (still : ∀ k < n, ¬ E k → (P (k + 1) ↔ P k)) :
    P n ↔ ∀ k < n, O k → ∃ j < n, k < j ∧ E j := by
  induction n with
  | zero => exact iff_of_true start fun k below => absurd below (Nat.not_lt_zero k)
  | succ n ih =>
      by_cases last : E n
      · rw [event n (Nat.lt_succ_self n) last]
        constructor
        · intro fine k below broken
          rcases Nat.lt_succ_iff_lt_or_eq.mp below with earlier | rfl
          · exact ⟨n, Nat.lt_succ_self n, earlier, last⟩
          · exact absurd broken fine
        · intro repaired broken
          obtain ⟨j, below, above, -⟩ := repaired n (Nat.lt_succ_self n) broken
          exact absurd above (Nat.not_lt.mpr (Nat.lt_succ_iff.mp below))
      · rw [still n (Nat.lt_succ_self n) last,
          ih (fun k below => event k (Nat.lt_succ_of_lt below))
            fun k below => still k (Nat.lt_succ_of_lt below)]
        constructor
        · intro repaired k below broken
          have earlier : k < n := (Nat.lt_succ_iff_lt_or_eq.mp below).resolve_right
            fun here => last (here ▸ events k broken)
          obtain ⟨j, inside, above, later⟩ := repaired k earlier broken
          exact ⟨j, Nat.lt_succ_of_lt inside, above, later⟩
        · intro repaired k below broken
          obtain ⟨j, inside, above, later⟩ := repaired k (Nat.lt_succ_of_lt below) broken
          refine ⟨j, (Nat.lt_succ_iff_lt_or_eq.mp inside).resolve_right ?_, above, later⟩
          exact fun here => last (here ▸ later)

/-! ### Loops that send and may raise -/

section RunOut

variable {ε : Type u} {σ : Type v} {α : Type w} {β : Type x}

/-- Execute the iterations in order and collect what each one sends; an
exception ends the loop. -/
def runOut (step : σ → α → Except ε (σ × β)) : σ → List α → Except ε (σ × List β)
  | s, [] => .ok (s, [])
  | s, a :: as =>
      match step s a with
      | .error e => .error e
      | .ok (s', b) =>
          match runOut step s' as with
          | .error e => .error e
          | .ok (t, bs) => .ok (t, b :: bs)

variable {step : σ → α → Except ε (σ × β)}

@[simp] theorem runOut_nil (s : σ) : runOut step s [] = .ok (s, []) := rfl

theorem runOut_cons_eq_ok {s t : σ} {a : α} {as : List α} {bs : List β} :
    runOut step s (a :: as) = .ok (t, bs) ↔
      ∃ s' b bs', step s a = .ok (s', b) ∧ runOut step s' as = .ok (t, bs') ∧ bs = b :: bs' := by
  constructor
  · intro h
    simp only [runOut] at h
    split at h
    · cases h
    · rename_i s' b first
      split at h
      · cases h
      · rename_i u cs rest
        cases h
        exact ⟨s', b, cs, first, rest, rfl⟩
  · rintro ⟨s', b, bs', first, rest, rfl⟩
    simp only [runOut, first, rest]

theorem runOut_append_eq_ok {s t : σ} {as as' : List α} {bs : List β} :
    runOut step s (as ++ as') = .ok (t, bs) ↔
      ∃ m bs₁ bs₂, runOut step s as = .ok (m, bs₁) ∧ runOut step m as' = .ok (t, bs₂) ∧
        bs = bs₁ ++ bs₂ := by
  induction as generalizing s bs with
  | nil => simp
  | cons a as ih =>
      simp only [List.cons_append, runOut_cons_eq_ok, ih]
      constructor
      · rintro ⟨m, b, cs, first, ⟨n, bs₁, bs₂, mid, last, rfl⟩, rfl⟩
        exact ⟨n, b :: bs₁, bs₂, ⟨m, b, bs₁, first, mid, rfl⟩, last, rfl⟩
      · rintro ⟨n, _, bs₂, ⟨m, b, bs₁, first, mid, rfl⟩, last, rfl⟩
        exact ⟨m, b, bs₁ ++ bs₂, first, ⟨n, bs₁, bs₂, mid, last, rfl⟩, rfl⟩

theorem runOut_snoc_eq_ok {s t : σ} {as : List α} {a : α} {bs : List β} :
    runOut step s (as ++ [a]) = .ok (t, bs) ↔
      ∃ m bs₁ b, runOut step s as = .ok (m, bs₁) ∧ step m a = .ok (t, b) ∧ bs = bs₁ ++ [b] := by
  simp only [runOut_append_eq_ok, runOut_cons_eq_ok]
  constructor
  · rintro ⟨m, bs₁, _, before, ⟨u, b, bs₂, last, stop, rfl⟩, rfl⟩
    cases stop
    exact ⟨m, bs₁, b, before, last, rfl⟩
  · rintro ⟨m, bs₁, b, before, last, rfl⟩
    exact ⟨m, bs₁, [b], before, ⟨t, b, [], last, rfl, rfl⟩, rfl⟩

/-- An iteration that raises after a run ends it there. -/
theorem runOut_snoc_eq_error {s t : σ} {as : List α} {a : α} {bs : List β} {e : ε}
    (ran : runOut step s as = .ok (t, bs)) (raised : step t a = .error e) :
    runOut step s (as ++ [a]) = .error e := by
  induction as generalizing s bs with
  | nil =>
      cases ran
      simp only [List.nil_append, runOut, raised]
  | cons a' as ih =>
      obtain ⟨m, b, bs', first, rest, rfl⟩ := runOut_cons_eq_ok.mp ran
      simp only [List.cons_append, runOut, first, ih rest]

/-- A loop whose iterations keep an invariant and never raise under it runs
through any inputs, and sends once for each. -/
theorem runOut_total {Inv : σ → Prop}
    (keep : ∀ s a, Inv s → ∃ s' b, step s a = .ok (s', b) ∧ Inv s') {s : σ} (start : Inv s)
    (as : List α) : ∃ t bs, runOut step s as = .ok (t, bs) ∧ bs.length = as.length := by
  induction as generalizing s with
  | nil => exact ⟨s, [], rfl, rfl⟩
  | cons a as ih =>
      obtain ⟨s', b, first, kept⟩ := keep s a start
      obtain ⟨t, bs, rest, length⟩ := ih kept
      exact ⟨t, b :: bs, runOut_cons_eq_ok.mpr ⟨s', b, bs, first, rest, rfl⟩,
        congrArg Nat.succ length⟩

/-- A loop whose iterations are those of another one, seen through a map of states
and inputs, sends the same and raises the same. -/
theorem runOut_map {τ : Type u'} {γ : Type v'} {step' : τ → γ → Except ε (τ × β)} (f : τ → σ)
    (g : γ → α) (commutes : ∀ t c, (step' t c).map (Prod.map f id) = step (f t) (g c)) (t : τ)
    (cs : List γ) :
    (runOut step' t cs).map (Prod.map f id) = runOut step (f t) (cs.map g) := by
  induction cs generalizing t with
  | nil => rfl
  | cons c cs ih =>
      rw [List.map_cons, runOut, runOut, ← commutes t c]
      cases step' t c with
      | error e => rfl
      | ok result =>
          simp only [Except.map, Prod.map, id, ← ih result.1]
          cases runOut step' result.1 cs <;> rfl

end RunOut

end Adas.Lib
