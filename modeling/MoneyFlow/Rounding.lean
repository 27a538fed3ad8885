import Mathlib

/-!
# MoneyFlow.Rounding

Whole numbers split by whole weights: rounded down, with what is left going to the
largest remainders.

What is left is the sum of the remainders divided by the total weight. Every remainder is
less than the total weight, so fewer units are left than there are positive remainders
(`leftover_le_countP`), and the largest remainders, as many as there are units left, are
all positive (`pos_of_mem_take`).
-/

namespace MoneyFlow.Rounding

variable {α : Type} {W : Int} {r : α → Int} {xs : List α}

/-! ### Quotients and remainders, summed -/

theorem sum_div_mod (f : α → Int) (W : Int) (xs : List α) :
    W * (xs.map fun x => f x / W).sum + (xs.map fun x => f x % W).sum = (xs.map f).sum := by
  induction xs with
  | nil => simp
  | cons x xs ih =>
    have hx := Int.mul_ediv_add_emod (f x) W
    simp only [List.map_cons, List.sum_cons, Int.mul_add]
    omega

/-- Remainders add up to less than the divisor for each that is positive. -/
theorem sum_le_countP (hr : ∀ x ∈ xs, 0 ≤ r x ∧ r x < W) :
    (xs.map r).sum ≤ (xs.countP fun x => decide (0 < r x)) * (W - 1) := by
  induction xs with
  | nil => simp
  | cons x xs ih =>
    have htail := ih fun y hy => hr y (List.mem_cons_of_mem _ hy)
    have hx := hr x List.mem_cons_self
    rw [List.map_cons, List.sum_cons, List.countP_cons]
    by_cases hpos : 0 < r x
    · simp only [hpos, decide_true, if_true]
      push_cast
      linarith
    · simp only [hpos, decide_false, Bool.false_eq_true, if_false]
      push_cast
      linarith

/-- No more units are left than there are positive remainders. -/
theorem leftover_le_countP {k : Int} (hW : 0 < W) (hr : ∀ x ∈ xs, 0 ≤ r x ∧ r x < W)
    (hk : W * k = (xs.map r).sum) : k ≤ xs.countP fun x => decide (0 < r x) := by
  have hle := sum_le_countP hr
  by_contra hlt
  have hmore : ((xs.countP fun x => decide (0 < r x) : Nat) : Int) + 1 ≤ k := by omega
  have hprod := Int.mul_le_mul_of_nonneg_left hmore (Int.le_of_lt hW)
  have hcount : (0 : Int) ≤ (xs.countP fun x => decide (0 < r x) : Nat) := Int.natCast_nonneg _
  nlinarith

/-! ### The largest remainders -/

/-- Sorted with the largest first, as many as are positive are positive. -/
theorem pos_of_mem_take (hsorted : xs.Pairwise fun x y => r y ≤ r x) {k : Nat}
    (hk : k ≤ xs.countP fun x => decide (0 < r x)) : ∀ x ∈ xs.take k, 0 < r x := by
  induction xs generalizing k with
  | nil => simp
  | cons y ys ih =>
    cases k with
    | zero => simp
    | succ k =>
      obtain ⟨hy, hys⟩ := List.pairwise_cons.mp hsorted
      have hpos : 0 < r y := by
        by_contra hnot
        have hnone : (y :: ys).countP (fun x => decide (0 < r x)) = 0 := by
          apply List.countP_eq_zero.mpr
          intro x hx
          rcases List.mem_cons.mp hx with rfl | hx
          · simpa using hnot
          · have := hy x hx
            simp only [decide_eq_true_eq]
            omega
        omega
      have hcount : k ≤ ys.countP fun x => decide (0 < r x) := by
        rw [List.countP_cons, if_pos (decide_eq_true hpos)] at hk
        omega
      intro x hx
      rcases List.mem_cons.mp hx with rfl | hx
      · exact hpos
      · exact ih hys hcount x hx

/-- One more for each of some distinct entries is as much more as there are of them. -/
theorem sum_indicator [DecidableEq α] {xs ws : List α} (hxs : xs.Nodup) (hws : ws.Nodup)
    (hsub : ws ⊆ xs) : (xs.map fun x => if x ∈ ws then (1 : Int) else 0).sum = ws.length := by
  have hcount : ∀ ys : List α, (ys.map fun x => if x ∈ ws then (1 : Int) else 0).sum =
      (ys.filter fun x => decide (x ∈ ws)).length := by
    intro ys
    induction ys with
    | nil => rfl
    | cons y ys ih =>
      rw [List.map_cons, List.sum_cons, ih, List.filter_cons]
      by_cases hy : y ∈ ws
      · simp [hy, Int.add_comm]
      · simp [hy]
  rw [hcount]
  have hperm : (xs.filter fun x => decide (x ∈ ws)).Perm ws := by
    refine (List.perm_ext_iff_of_nodup (hxs.filter _) hws).mpr fun x => ?_
    rw [List.mem_filter, decide_eq_true_eq]
    exact ⟨And.right, fun hx => ⟨hsub hx, hx⟩⟩
  rw [hperm.length_eq]

/-- Rounding down what is no more than a whole stays within the whole. -/
theorem div_le_of_le {total w : Int} (hW : 0 < W) (hw : 0 ≤ w) (htotal : total ≤ W) :
    total * w / W ≤ w := by
  apply Int.ediv_le_of_le_mul hW
  nlinarith

/-- And with a unit more, when something was rounded off. -/
theorem div_succ_le_of_le {total w : Int} (hW : 0 < W) (hw : 0 ≤ w) (htotal : total ≤ W)
    (hrem : 0 < total * w % W) : total * w / W + 1 ≤ w := by
  have hdiv := Int.mul_ediv_add_emod (total * w) W
  by_contra hlt
  have hge : w ≤ total * w / W := by omega
  have hmul := Int.mul_le_mul_of_nonneg_left hge (Int.le_of_lt hW)
  nlinarith

end MoneyFlow.Rounding
