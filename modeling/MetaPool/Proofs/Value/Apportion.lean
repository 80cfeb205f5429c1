import Mathlib

/-!
# Shares of a whole

A whole is split among holders in proportion to what they hold, each share rounded down. Together
the shares are never above the whole, and they miss less than one for each holder of something.

    sum of n * b / d ≤ n * (sum of b) / d                           (sum_floor_le)
    (sum of n * b / d) * d = n * (sum of b) ↔ d divides every n * b (sum_floor_mul_eq_iff)
    sum of n * b / d ≤ n, if the b sum to d                         (sum_floor_le_whole)
    n < sum of n * b / d + number of positive b, if the b sum to d  (lt_sum_floor)
-/

namespace MetaPool

/-- Floors sum to at most the floor of the sum. -/
theorem sum_floor_le (n d : Nat) (l : List Nat) :
    (l.map fun b => n * b / d).sum ≤ n * l.sum / d := by
  induction l with
  | nil => simp
  | cons b l ih =>
    calc ((b :: l).map fun b => n * b / d).sum
        ≤ n * b / d + n * l.sum / d := Nat.add_le_add_left ih _
      _ ≤ (n * b + n * l.sum) / d := Nat.div_add_div_le_add_div
      _ = n * (b :: l).sum / d := by rw [List.sum_cons, Nat.mul_add]

theorem sum_floor_mul_le (n d : Nat) (l : List Nat) :
    (l.map fun b => n * b / d).sum * d ≤ n * l.sum :=
  Nat.le_trans (Nat.mul_le_mul_right d (sum_floor_le n d l)) (Nat.div_mul_le_self _ _)

/-- The floors leave nothing of the whole exactly if none of them rounds. -/
theorem sum_floor_mul_eq_iff (n d : Nat) (l : List Nat) :
    (l.map fun b => n * b / d).sum * d = n * l.sum ↔ ∀ b ∈ l, d ∣ n * b := by
  induction l with
  | nil => simp
  | cons b l ih =>
    have hfirst : n * b / d * d ≤ n * b := Nat.div_mul_le_self _ _
    have hrest := sum_floor_mul_le n d l
    rw [List.forall_mem_cons, ← ih, Nat.dvd_iff_div_mul_eq, List.map_cons, List.sum_cons, List.sum_cons,
      Nat.add_mul, Nat.mul_add]
    omega

theorem sum_floor_le_whole (n : Nat) (l : List Nat) : (l.map fun b => n * b / l.sum).sum ≤ n := by
  refine Nat.le_trans (sum_floor_le n l.sum l) (Nat.div_le_of_le_mul ?_)
  rw [Nat.mul_comm]

/-- Each floor of something loses less than one, and each floor of nothing loses nothing. -/
theorem mul_sum_add_count_le (n : Nat) {d : Nat} (hd : 0 < d) (l : List Nat) :
    n * l.sum + l.countP (0 < ·) ≤ ((l.map fun b => n * b / d).sum + l.countP (0 < ·)) * d := by
  induction l with
  | nil => simp
  | cons b l ih =>
    simp only [List.map_cons, List.sum_cons, List.countP_cons, decide_eq_true_eq]
    by_cases hb : 0 < b
    · have hfloor : n * b < (n * b / d + 1) * d := by
        rw [Nat.mul_comm (_ + 1)]
        exact Nat.lt_mul_div_succ _ hd
      simp only [hb, ↓reduceIte]
      grind
    · obtain rfl : b = 0 := by omega
      simpa using ih

/-- If the parts sum to the divisor, the floors miss less than one for each part that is not
zero. -/
theorem lt_sum_floor (n : Nat) (l : List Nat) (hpos : 0 < l.sum) :
    n < (l.map fun b => n * b / l.sum).sum + l.countP (0 < ·) := by
  have hcount : 0 < l.countP (0 < ·) := by
    rw [List.countP_pos_iff]
    by_contra hnone
    have hzero : ∀ b ∈ l, b = 0 := by
      intro b hb
      by_contra hne
      exact hnone ⟨b, hb, by simpa using Nat.pos_of_ne_zero hne⟩
    rw [List.sum_eq_zero hzero] at hpos
    cases hpos
  have h := mul_sum_add_count_le n hpos l
  exact Nat.lt_of_mul_lt_mul_right (Nat.lt_of_lt_of_le (by omega) h)

end MetaPool
