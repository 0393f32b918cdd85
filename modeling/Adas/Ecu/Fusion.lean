import Mathlib.Tactic.Linarith
import Adas.Lib.OrderStat
import Adas.Ecu.Cycle

/-!
The fused distance against a minority of outliers.

`statistics.median` follows a strict majority of its batch to either side of a
bound (`median_lt`, `le_median`), whatever the others are. The minimum of the
two sensors is below a bound as soon as one of them is, and 123.44, which an
empty batch contributes, never pulls it below a bound up to 123.44.
-/

namespace Adas.Ecu

open Lib

/-! ### The median -/

/-- Most samples below the bound: both middle ones are, and so is their mean. -/
theorem median_lt {data : List ℚ} {t : ℚ} (most : Majority (· < t) data)
    (nonempty : 0 < data.length) : median data nonempty < t := by
  have length : (data.insertionSort (· ≤ ·)).length = data.length := List.length_insertionSort ..
  have middle : data.length / 2 < (data.insertionSort (· ≤ ·)).length := by omega
  have below : data.length / 2 - 1 < (data.insertionSort (· ≤ ·)).length := by omega
  have upper : (data.insertionSort (· ≤ ·))[data.length / 2] < t := lt_of_majority most _ le_rfl
  simp only [median]
  split
  · exact upper
  · have lower : (data.insertionSort (· ≤ ·))[data.length / 2 - 1] < t :=
      lt_of_majority most _ (Nat.sub_le _ _)
    linarith

/-- Most samples at or above the bound: so are both middle ones and their mean. -/
theorem le_median {data : List ℚ} {t : ℚ} (most : Majority (t ≤ ·) data)
    (nonempty : 0 < data.length) : t ≤ median data nonempty := by
  have length : (data.insertionSort (· ≤ ·)).length = data.length := List.length_insertionSort ..
  have middle : data.length / 2 < (data.insertionSort (· ≤ ·)).length := by omega
  have below : data.length / 2 - 1 < (data.insertionSort (· ≤ ·)).length := by omega
  have upper : t ≤ (data.insertionSort (· ≤ ·))[data.length / 2] :=
    le_of_majority most _ (Nat.div_le_div_right (Nat.sub_le _ _))
  simp only [median]
  split
  · exact upper
  · have lower : t ≤ (data.insertionSort (· ≤ ·))[data.length / 2 - 1] :=
      le_of_majority most _ (by omega)
    linarith

/-! ### One sensor -/

/-- A batch most of which is below the bound is not empty. -/
theorem sensorMedian_lt {distances : List ℚ} {t : ℚ} (most : Majority (· < t) distances) :
    sensorMedian distances < t := by
  have nonempty := most.length_pos
  rw [sensorMedian, dif_pos nonempty]
  exact median_lt most nonempty

/-- An empty batch stays above every bound up to 123.44. -/
theorem le_sensorMedian {distances : List ℚ} {t : ℚ} (reachable : t ≤ 123.44)
    (most : distances ≠ [] → Majority (t ≤ ·) distances) : t ≤ sensorMedian distances := by
  unfold sensorMedian
  split
  · rename_i nonempty
    exact le_median (most (List.ne_nil_of_length_pos nonempty)) nonempty
  · exact reachable

/-! ### Both sensors -/

/-- One sensor with most samples below a bound pulls the fused distance below it;
when no sensor has half of its samples there, the fused distance is not either. -/
theorem fusion_follows_majority (x : CycleInput) (t : ℚ) (reachable : t ≤ 123.44) :
    (Majority (· < t) x.sensor0Distances ∨ Majority (· < t) x.sensor1Distances →
      x.lessDistance < t) ∧
    ((x.sensor0Distances ≠ [] → Majority (t ≤ ·) x.sensor0Distances) →
      (x.sensor1Distances ≠ [] → Majority (t ≤ ·) x.sensor1Distances) → t ≤ x.lessDistance) := by
  constructor
  · rintro (most | most)
    · exact min_lt_of_left_lt (sensorMedian_lt most)
    · exact min_lt_of_right_lt (sensorMedian_lt most)
  · intro most₀ most₁
    exact le_min (le_sensorMedian reachable most₀) (le_sensorMedian reachable most₁)

/-- One sensor sees the obstacle in two samples of three, the other one nothing. -/
theorem fusion_follows_majority_obstacle :
    (⟨[10, 400, 12], [], 0⟩ : CycleInput).lessDistance < 16 ∧
      25 ≤ (⟨[100, 3, 90], [], 0⟩ : CycleInput).lessDistance := by
  constructor
  · exact (fusion_follows_majority _ 16 (by norm_num)).1 (Or.inl (by decide +kernel))
  · exact (fusion_follows_majority _ 25 (by norm_num)).2 (fun _ => by decide +kernel)
      fun filled => absurd rfl filled

end Adas.Ecu
