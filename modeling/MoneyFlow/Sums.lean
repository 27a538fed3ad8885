import Mathlib

/-!
# MoneyFlow.Sums

Sums over lists: of entries that have keys, grouped by key (`sum_by_key`) and with one
entry's part changed (`sum_replace`), of parts, and of entries that are filtered.
-/

namespace MoneyFlow

variable {α β κ M : Type} [DecidableEq κ]

section

variable [AddCommMonoid M] {keys : List κ}

/-- A single key's part of a sum over keys. -/
theorem sum_single (hkeys : keys.Nodup) (k : κ) (n : M) :
    (keys.map fun k' => if k = k' then n else 0).sum = if k ∈ keys then n else 0 := by
  induction keys with
  | nil => rfl
  | cons k' keys ih =>
    obtain ⟨hnot, hnodup⟩ := List.nodup_cons.mp hkeys
    rw [List.map_cons, List.sum_cons, ih hnodup]
    by_cases hk : k = k'
    · subst hk
      simp [hnot]
    · simp [hk]

/-- Entries grouped by a key add up to the entries that have one of the keys. -/
theorem sum_by_key (f : α → M) (key : α → κ) (hkeys : keys.Nodup) (xs : List α) :
    (keys.map fun k => ((xs.filter fun x => key x = k).map f).sum).sum =
      ((xs.filter fun x => key x ∈ keys).map f).sum := by
  induction xs with
  | nil => simp
  | cons x xs ih =>
    have hsplit : ∀ k, (((x :: xs).filter fun y => key y = k).map f).sum =
        (if key x = k then f x else 0) + ((xs.filter fun y => key y = k).map f).sum := by
      intro k
      by_cases hk : key x = k <;> simp [hk]
    simp only [hsplit]
    rw [List.sum_map_add, sum_single hkeys, ih]
    by_cases hx : key x ∈ keys <;> simp [hx]

/-- Where every entry has one of the keys, to all of them. -/
theorem sum_by_key_of_mem (f : α → M) (key : α → κ) (hkeys : keys.Nodup) {xs : List α}
    (h : ∀ x ∈ xs, key x ∈ keys) :
    (keys.map fun k => ((xs.filter fun x => key x = k).map f).sum).sum = (xs.map f).sum := by
  rw [sum_by_key f key hkeys, List.filter_eq_self.mpr]
  intro x hx
  exact decide_eq_true (h x hx)

omit [DecidableEq κ] in
/-- Two sums over entries that differ in the part of one of them. -/
theorem sum_replace {f g : α → M} (key : α → κ) {xs : List α} {x : α}
    (hkeys : (xs.map key).Nodup) (hx : x ∈ xs) (h : ∀ y ∈ xs, key y ≠ key x → f y = g y) :
    (xs.map f).sum + g x = (xs.map g).sum + f x := by
  induction xs with
  | nil => cases hx
  | cons z xs ih =>
    obtain ⟨hz, hkeys⟩ := List.nodup_cons.mp hkeys
    have hother : ∀ y ∈ xs, key y ≠ key z := fun y hy heq => hz (heq ▸ List.mem_map_of_mem hy)
    simp only [List.map_cons, List.sum_cons]
    rcases List.mem_cons.mp hx with rfl | hx
    · have hrest : xs.map f = xs.map g :=
        List.map_congr_left fun y hy => h y (List.mem_cons_of_mem _ hy) (hother y hy)
      rw [hrest, add_comm (f x), add_comm (g x), add_assoc, add_assoc, add_comm (f x)]
    · rw [h z List.mem_cons_self (hother x hx).symm, add_assoc, add_assoc,
        ih hkeys hx fun y hy => h y (List.mem_cons_of_mem _ hy)]

end

/-! ### Whole numbers -/

variable {f : α → Int} {xs : List α}

theorem sum_filter_le {p q : α → Bool} (hf : ∀ x ∈ xs, 0 ≤ f x)
    (h : ∀ x ∈ xs, p x = true → q x = true) :
    ((xs.filter p).map f).sum ≤ ((xs.filter q).map f).sum := by
  have hsub : xs.filter p = (xs.filter q).filter p := by
    rw [List.filter_filter]
    exact List.filter_congr fun x hx => by cases hp : p x <;> simp [h x hx, hp]
  rw [hsub]
  apply (List.filter_sublist.map f).sum_le_sum
  intro n hn
  obtain ⟨x, hx, rfl⟩ := List.mem_map.mp hn
  exact hf x (List.mem_of_mem_filter hx)

/-- Entries grouped by some of their keys add up to no more than all of them. -/
theorem sum_by_key_le (f : α → Int) (key : α → κ) {keys : List κ} (hkeys : keys.Nodup)
    (hf : ∀ x ∈ xs, 0 ≤ f x) :
    (keys.map fun k => ((xs.filter fun x => key x = k).map f).sum).sum ≤ (xs.map f).sum := by
  rw [sum_by_key f key hkeys]
  apply (List.filter_sublist.map f).sum_le_sum
  intro n hn
  obtain ⟨x, hx, rfl⟩ := List.mem_map.mp hn
  exact hf x hx

theorem sum_map_sub (f g : α → Int) (xs : List α) :
    (xs.map fun x => f x - g x).sum = (xs.map f).sum - (xs.map g).sum := by
  induction xs with
  | nil => rfl
  | cons x xs ih =>
    simp only [List.map_cons, List.sum_cons, ih]
    omega

theorem sum_map_filter (p : α → Bool) (f : α → Int) (xs : List α) :
    ((xs.filter p).map f).sum = (xs.map fun x => if p x then f x else 0).sum := by
  simp [List.sum_map_ite]

theorem sum_map_flatMap (g : α → List β) (f : β → Int) (xs : List α) :
    ((xs.flatMap g).map f).sum = (xs.map fun x => ((g x).map f).sum).sum := by
  induction xs with
  | nil => rfl
  | cons x xs ih => simp [ih]

/-- Replacing one entry of a list changes a sum over it by that entry's part. -/
theorem sum_map_set (f : α → Int) : ∀ {xs : List α} {i : Nat} {x : α} (y : α), xs[i]? = some x →
    ((xs.set i y).map f).sum = (xs.map f).sum + (f y - f x)
  | [], _, _, _, h => by simp at h
  | z :: xs, 0, x, y, h => by
    obtain rfl : z = x := by simpa using h
    simp only [List.set_cons_zero, List.map_cons, List.sum_cons]
    omega
  | z :: xs, i + 1, x, y, h => by
    have htail : xs[i]? = some x := by simpa using h
    have ih := sum_map_set f y htail
    simp only [List.set_cons_succ, List.map_cons, List.sum_cons, ih]
    omega

/-- A sum of parts that are each there or not. -/
theorem sum_filterMap (g : α → Option β) (f : β → Int) : ∀ xs : List α,
    (xs.map fun x => ((g x).map f).getD 0).sum = ((xs.filterMap g).map f).sum
  | [] => rfl
  | x :: xs => by
    rw [List.map_cons, List.sum_cons, sum_filterMap g f xs]
    cases hx : g x with
    | none | some b => simp [hx]

/-- What is in no entry twice adds up to at most what it is part of. -/
theorem sum_le_of_subset {f : β → Int} {xs ys : List β} (hf : ∀ b ∈ ys, 0 ≤ f b) (hx : xs.Nodup)
    (hs : xs ⊆ ys) : (xs.map f).sum ≤ (ys.map f).sum := by
  obtain ⟨zs, hperm, hsub⟩ := List.subperm_of_subset hx hs
  rw [← (hperm.map f).sum_eq]
  refine (hsub.map f).sum_le_sum fun n hn => ?_
  obtain ⟨b, hb, rfl⟩ := List.mem_map.mp hn
  exact hf b hb

end MoneyFlow
