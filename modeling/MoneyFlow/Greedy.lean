import Mathlib

/-!
# MoneyFlow.Greedy

Taking an amount from a queue of holdings, the first first.

`take` passes over what holds nothing and takes from each of the others all it
holds, or what is still wanted if that is less. It takes what is wanted or all
there is (`sum_take`), and what it takes is determined: everything before some
holding in full, and part of that one (`take_eq`).
-/

namespace MoneyFlow.Greedy

variable {ι : Type}

/-- Take `wanted` from the holdings in order. -/
def take : List (ι × Nat) → Nat → List (ι × Nat)
  | [], _ => []
  | (i, b) :: rest, wanted =>
    if wanted = 0 then []
    else if b = 0 then take rest wanted
    else (i, min wanted b) :: take rest (wanted - min wanted b)

/-- All there is. -/
def total (holdings : List (ι × Nat)) : Nat := (holdings.map Prod.snd).sum

@[simp] theorem total_nil : total ([] : List (ι × Nat)) = 0 := rfl

@[simp] theorem total_cons (h : ι × Nat) (rest : List (ι × Nat)) :
    total (h :: rest) = h.2 + total rest := by
  simp [total]

theorem take_zero (holdings : List (ι × Nat)) : take holdings 0 = [] := by
  cases holdings with
  | nil => rfl
  | cons h rest => simp [take]

/-- What is taken is what is wanted, or all there is. -/
theorem sum_take (holdings : List (ι × Nat)) (wanted : Nat) :
    total (take holdings wanted) = min wanted (total holdings) := by
  induction holdings generalizing wanted with
  | nil => simp [take]
  | cons h rest ih =>
    obtain ⟨i, b⟩ := h
    by_cases hw : wanted = 0
    · simp [hw, take_zero]
    · by_cases hb : b = 0
      · simp [take, hw, hb, ih]
      · simp only [take, if_neg hw, if_neg hb, total_cons, ih]
        omega

/-- It is taken from the holdings in their order, each at most once. -/
theorem take_sublist (holdings : List (ι × Nat)) (wanted : Nat) :
    ((take holdings wanted).map Prod.fst).Sublist (holdings.map Prod.fst) := by
  induction holdings generalizing wanted with
  | nil => exact List.Sublist.refl _
  | cons h rest ih =>
    obtain ⟨i, b⟩ := h
    by_cases hw : wanted = 0
    · simp [hw, take_zero]
    · by_cases hb : b = 0
      · simpa [take, hw, hb] using (ih wanted).cons i
      · simpa [take, hw, hb] using (ih _).cons_cons i

/-- From each something is taken, and no more than it holds. -/
theorem mem_take {holdings : List (ι × Nat)} {wanted : Nat} {t : ι × Nat}
    (h : t ∈ take holdings wanted) : 0 < t.2 ∧ ∃ b, (t.1, b) ∈ holdings ∧ t.2 ≤ b := by
  induction holdings generalizing wanted with
  | nil => cases h
  | cons hd rest ih =>
    obtain ⟨i, b⟩ := hd
    by_cases hw : wanted = 0
    · simp [hw, take_zero] at h
    · have hlater {n : Nat} (h : t ∈ take rest n) :
          0 < t.2 ∧ ∃ b', (t.1, b') ∈ (i, b) :: rest ∧ t.2 ≤ b' := by
        obtain ⟨hpos, b', hm, hle⟩ := ih h
        exact ⟨hpos, b', List.mem_cons_of_mem _ hm, hle⟩
      by_cases hb : b = 0
      · rw [take, if_neg hw, if_pos hb] at h
        exact hlater h
      · rw [take, if_neg hw, if_neg hb] at h
        rcases List.mem_cons.mp h with rfl | h
        · refine ⟨?_, b, List.mem_cons_self, Nat.min_le_right _ _⟩
          exact Nat.lt_min.mpr ⟨Nat.pos_of_ne_zero hw, Nat.pos_of_ne_zero hb⟩
        · exact hlater h

/-- Everything before the last holding taken from is taken in full. -/
theorem take_eq {holdings : List (ι × Nat)} {wanted : Nat} {first : List (ι × Nat)} {t : ι × Nat}
    (h : take holdings wanted = first ++ [t]) :
    ∃ before b after, holdings = before ++ (t.1, b) :: after ∧ t.2 ≤ b ∧
      first = before.filter fun x => 0 < x.2 := by
  induction holdings generalizing wanted first with
  | nil => simp [take] at h
  | cons hd rest ih =>
    obtain ⟨i, b⟩ := hd
    by_cases hw : wanted = 0
    · simp [hw, take_zero] at h
    · by_cases hb : b = 0
      · rw [take, if_neg hw, if_pos hb] at h
        obtain ⟨before, b', after, rfl, hle, rfl⟩ := ih h
        exact ⟨(i, b) :: before, b', after, rfl, hle, by simp [hb]⟩
      · rw [take, if_neg hw, if_neg hb] at h
        cases first with
        | nil =>
          obtain ⟨rfl, -⟩ := List.cons.inj h
          exact ⟨[], b, rest, rfl, Nat.min_le_right _ _, rfl⟩
        | cons f first =>
          obtain ⟨rfl, hrest⟩ := List.cons.inj h
          -- more was wanted than this holding has, or nothing would follow
          have hmin : min wanted b = b := by
            by_contra hne
            have hall : wanted - min wanted b = 0 := by omega
            rw [hall, take_zero] at hrest
            simp at hrest
          obtain ⟨before, b', after, rfl, hle, rfl⟩ := ih hrest
          refine ⟨(i, b) :: before, b', after, rfl, hle, ?_⟩
          rw [hmin, List.filter_cons_of_pos (by simpa using Nat.pos_of_ne_zero hb)]

end MoneyFlow.Greedy
