import MoneyFlow.Rounding

/-!
# MoneyFlow.Securities.ProRata

`ruby/app/services/securities/pro_rata.rb`: a total split in proportion to weights.

A Hash is the list of its pairs in insertion order, and its keys are distinct. They are
entities' ids here, and nothing is asked of them but their order.
-/

namespace MoneyFlow.Securities

open Rounding

variable {κ : Type} {w : κ × Int}

/-! ### Errors -/

/-- `AllocationError`, by what raises it. -/
inductive AllocationError (κ : Type := Nat)
  | negativeTotal (total : Int)
  | negativeWeight (negative : List (κ × Int))
  | noProportion (total : Int)
  | parts (allocated total : Int)
  | bucket (allocated total : Int) (name : String)
  | holding (investorEntityID : Nat) (principal held : Int)
  deriving DecidableEq, Repr

/-- `Hash#inspect`, of whole numbers. -/
def inspect [ToString κ] (weights : List (κ × Int)) : String :=
  "\x7b" ++ ", ".intercalate (weights.map fun w => toString w.1 ++ " => " ++ toString w.2) ++ "\x7d"

/-- The text it is raised with. -/
def AllocationError.message [ToString κ] : AllocationError κ → String
  | .negativeTotal total => "total must not be negative, got " ++ toString total
  | .negativeWeight negative => "weight must not be negative: " ++ inspect negative
  | .noProportion total =>
    "no proportion to split " ++ toString total ++ " by: every weight is zero"
  | .parts allocated total => "allocated " ++ toString allocated ++ " of " ++ toString total
  | .bucket allocated total name =>
    "allocated " ++ toString allocated ++ " of " ++ toString total ++ " " ++ name
  | .holding investorEntityID principal held =>
    "entity " ++ toString investorEntityID ++ " would be repaid " ++ toString principal ++
      " principal but holds " ++ toString held

namespace ProRata

/-- A Hash's values, summed. -/
def total (weights : List (κ × Int)) : Int := (weights.map (·.2)).sum

/-- `validate!`. -/
def validate (amount : Int) (weights : List (κ × Int)) : Except (AllocationError κ) Unit :=
  if amount < 0 then .error (.negativeTotal amount)
  else
    match weights.filter fun w => w.2 < 0 with
    | [] => .ok ()
    | negative => .error (.negativeWeight negative)

/-- `nothing_for`. -/
def nothingFor (amount : Int) (weights : List (κ × Int)) :
    Except (AllocationError κ) (List (κ × Int)) :=
  if amount = 0 then .ok (weights.map fun w => (w.1, 0)) else .error (.noProportion amount)

/-- `floors`. -/
def floors (amount : Int) (weights : List (κ × Int)) (totalWeight : Int) : List (κ × Int) :=
  weights.map fun w => (w.1, amount * w.2 / totalWeight)

/-- `[-((total * weight) % total_weight), key]` is no greater. -/
def Before [LinearOrder κ] (amount totalWeight : Int) (w w' : κ × Int) : Prop :=
  amount * w'.2 % totalWeight < amount * w.2 % totalWeight ∨
    amount * w'.2 % totalWeight = amount * w.2 % totalWeight ∧ w.1 ≤ w'.1

instance [LinearOrder κ] (amount totalWeight : Int) :
    DecidableRel (Before (κ := κ) amount totalWeight) :=
  fun _ _ => inferInstanceAs (Decidable (_ ∨ _))

/-- `remainders`. -/
def remainders [LinearOrder κ] (amount : Int) (weights : List (κ × Int))
    (totalWeight : Int) : List κ :=
  (weights.insertionSort (Before amount totalWeight)).map (·.1)

/-- `distribute`. -/
def distribute [LinearOrder κ] (parts : List (κ × Int)) (order : List κ) (leftover : Int) :
    List (κ × Int) :=
  parts.map fun p => if p.1 ∈ order.take leftover.toNat then (p.1, p.2 + 1) else p

/-- `ProRata.allocate`. -/
def allocate [LinearOrder κ] (amount : Int) (weights : List (κ × Int)) :
    Except (AllocationError κ) (List (κ × Int)) := do
  validate amount weights
  let totalWeight := total weights
  if totalWeight = 0 then nothingFor amount weights
  else
    let parts := floors amount weights totalWeight
    let parts := distribute parts (remainders amount weights totalWeight) (amount - total parts)
    if total parts = amount then .ok parts else .error (.parts (total parts) amount)

/-! ### What is checked -/

theorem validate_eq_ok {amount : Int} {weights : List (κ × Int)} :
    validate amount weights = .ok () ↔ 0 ≤ amount ∧ ∀ w ∈ weights, 0 ≤ w.2 := by
  unfold validate
  by_cases hamount : amount < 0
  · rw [if_pos hamount]
    exact ⟨nofun, fun h => absurd h.1 (by omega)⟩
  · rw [if_neg hamount]
    have hnone : weights.filter (fun w => w.2 < 0) = [] ↔ ∀ w ∈ weights, 0 ≤ w.2 := by
      rw [List.filter_eq_nil_iff]
      simp only [decide_eq_true_eq, Int.not_lt]
    split
    · rename_i hnil
      exact ⟨fun _ => ⟨by omega, hnone.mp hnil⟩, fun _ => rfl⟩
    · rename_i hne
      exact ⟨nofun, fun h => absurd (hnone.mpr h.2) hne⟩

theorem total_nonneg {weights : List (κ × Int)} (h : ∀ w ∈ weights, 0 ≤ w.2) :
    0 ≤ total weights := by
  apply List.sum_nonneg
  intro n hn
  obtain ⟨w, hw, rfl⟩ := List.mem_map.mp hn
  exact h w hw

theorem total_perm {weights weights' : List (κ × Int)} (h : weights'.Perm weights) :
    total weights' = total weights := by
  unfold total
  exact (h.map _).sum_eq

/-! ### The parts -/

section

variable {amount : Int} {weights : List (κ × Int)}

/-- What is left when every part is rounded down. -/
def leftover (amount : Int) (weights : List (κ × Int)) : Int :=
  amount - total (floors amount weights (total weights))

/-- The parts rounded off make up what is left. -/
theorem total_mul_leftover (amount : Int) (weights : List (κ × Int)) :
    total weights * leftover amount weights =
      (weights.map fun w => amount * w.2 % total weights).sum := by
  have hsum := sum_div_mod (fun w : κ × Int => amount * w.2) (total weights) weights
  have hwhole := List.sum_map_mul_left weights (fun w : κ × Int => w.2) amount
  have hfloors : total (floors amount weights (total weights)) =
      (weights.map fun w => amount * w.2 / total weights).sum := by
    unfold total floors
    rw [List.map_map]
    rfl
  rw [leftover, hfloors, Int.mul_sub, Int.mul_comm _ amount]
  unfold total at *
  omega

theorem remainder_bounds (hpos : 0 < total weights) :
    ∀ w ∈ weights, 0 ≤ amount * w.2 % total weights ∧
      amount * w.2 % total weights < total weights :=
  fun _ _ => ⟨Int.emod_nonneg _ (by omega), Int.emod_lt_of_pos _ hpos⟩

theorem leftover_nonneg (amount : Int) (hpos : 0 < total weights) :
    0 ≤ leftover amount weights := by
  have hsum : 0 ≤ total weights * leftover amount weights := by
    rw [total_mul_leftover]
    apply List.sum_nonneg
    intro n hn
    obtain ⟨w, hw, rfl⟩ := List.mem_map.mp hn
    exact (remainder_bounds hpos w hw).1
  by_contra hneg
  have := Int.mul_neg_of_pos_of_neg hpos (by omega : leftover amount weights < 0)
  omega

/-- Fewer units are left than there are parts that were rounded. -/
theorem leftover_le (amount : Int) (hpos : 0 < total weights) :
    (leftover amount weights).toNat ≤ weights.countP
      fun w => decide (0 < amount * w.2 % total weights) := by
  have hle := leftover_le_countP hpos (remainder_bounds hpos) (total_mul_leftover amount weights)
  have := leftover_nonneg amount hpos
  omega

variable [LinearOrder κ]

/-- The keys that get a unit more. -/
def favoured (amount : Int) (weights : List (κ × Int)) : List κ :=
  (remainders amount weights (total weights)).take (leftover amount weights).toNat

/-- A key's part. -/
def part (amount : Int) (weights : List (κ × Int)) (w : κ × Int) : Int :=
  amount * w.2 / total weights + if w.1 ∈ favoured amount weights then 1 else 0

theorem distribute_eq (amount : Int) (weights : List (κ × Int)) :
    distribute (floors amount weights (total weights))
    (remainders amount weights (total weights)) (leftover amount weights) =
    weights.map fun w => (w.1, part amount weights w) := by
  unfold distribute floors
  rw [List.map_map]
  apply List.map_congr_left
  intro w _
  change (if w.1 ∈ favoured amount weights then _ else _) = (w.1, _ + _)
  by_cases hfav : w.1 ∈ favoured amount weights
  · rw [if_pos hfav, if_pos hfav]
  · rw [if_neg hfav, if_neg hfav, Int.add_zero]

instance (amount totalWeight : Int) : Std.Total (Before (κ := κ) amount totalWeight) where
  total w w' := by
    have hkey := le_total w.1 w'.1
    unfold Before
    grind

instance (amount totalWeight : Int) :
    IsTrans (κ × Int) (Before amount totalWeight) where
  trans w w' w'' h h' := by
    unfold Before at *
    rcases h with h | ⟨h, hkey⟩ <;> rcases h' with h' | ⟨h', hkey'⟩
    · exact .inl (h'.trans h)
    · exact .inl (h'.symm ▸ h)
    · exact .inl (h ▸ h')
    · exact .inr ⟨h'.trans h, hkey.trans hkey'⟩

/-- Only a part that was rounded gets a unit more. -/
theorem remainder_pos_of_favoured (hpos : 0 < total weights) (hkeys : (weights.map (·.1)).Nodup)
    (hw : w ∈ weights) (hfav : w.1 ∈ favoured amount weights) :
    0 < amount * w.2 % total weights := by
  unfold favoured remainders at hfav
  rw [← List.map_take] at hfav
  obtain ⟨w', hw', hkey⟩ := List.mem_map.mp hfav
  have hmem : w' ∈ weights := (List.mem_insertionSort _).mp (List.mem_of_mem_take hw')
  obtain rfl : w' = w := List.inj_on_of_nodup_map hkeys hmem hw hkey
  have hperm := List.perm_insertionSort (Before amount (total weights)) weights
  have hsorted := List.pairwise_insertionSort (Before amount (total weights)) weights
  refine pos_of_mem_take (r := fun w => amount * w.2 % total weights) (hsorted.imp ?_) ?_ _ hw'
  · intro w w'' h
    unfold Before at h
    omega
  · rw [hperm.countP_eq]
    exact leftover_le amount hpos

theorem favoured_length (amount : Int) (hpos : 0 < total weights) :
    (favoured amount weights).length = (leftover amount weights).toNat := by
  have hle := leftover_le amount hpos
  have hcount := List.countP_le_length (l := weights)
    (p := fun w => decide (0 < amount * w.2 % total weights))
  simp only [favoured, remainders, List.length_take, List.length_map, List.length_insertionSort]
  omega

/-- The parts add up. -/
theorem sum_part (amount : Int) (hpos : 0 < total weights) (hkeys : (weights.map (·.1)).Nodup) :
    (weights.map (part amount weights)).sum = amount := by
  have horder : (remainders amount weights (total weights)).Perm (weights.map (·.1)) :=
    (List.perm_insertionSort _ _).map _
  have hnodup : (favoured amount weights).Nodup :=
    (horder.nodup_iff.mpr hkeys).sublist (List.take_sublist _ _)
  have hsub : favoured amount weights ⊆ weights.map (·.1) :=
    fun _ hx => horder.subset (List.mem_of_mem_take hx)
  have hones := sum_indicator hkeys hnodup hsub
  rw [List.map_map, favoured_length amount hpos] at hones
  have hleft := leftover_nonneg amount hpos
  have hfloors : total (floors amount weights (total weights)) =
      (weights.map fun w => amount * w.2 / total weights).sum := by
    unfold total floors
    rw [List.map_map]
    rfl
  have hdef : leftover amount weights = amount - _ := rfl
  rw [hfloors] at hdef
  have hones' : (weights.map fun w => if w.1 ∈ favoured amount weights then (1 : Int) else 0).sum =
      ((leftover amount weights).toNat : Int) := hones
  change (weights.map fun w => _ + _).sum = amount
  rw [List.sum_map_add, hones']
  omega

theorem part_nonneg (hpos : 0 < total weights) (hamount : 0 ≤ amount) (hw : 0 ≤ w.2) :
    0 ≤ part amount weights w := by
  have hfloor : 0 ≤ amount * w.2 / total weights :=
    Int.ediv_nonneg (Int.mul_nonneg hamount hw) (Int.le_of_lt hpos)
  unfold part
  split <;> omega

/-- Of no more than the whole, nobody gets more than their weight. -/
theorem part_le (hpos : 0 < total weights) (hkeys : (weights.map (·.1)).Nodup)
    (hamount : amount ≤ total weights) (hw : w ∈ weights) (hweight : 0 ≤ w.2) :
    part amount weights w ≤ w.2 := by
  unfold part
  split
  · rename_i hfav
    exact div_succ_le_of_le hpos hweight hamount (remainder_pos_of_favoured hpos hkeys hw hfav)
  · have := div_le_of_le hpos hweight hamount
    omega

/-! ### Who gets what is left -/

/-- What was rounded down comes, a unit more, to what is rounded up. -/
theorem div_succ_eq_neg_div {W x : Int} (hW : 0 < W) (hx : 0 < x % W) : x / W + 1 = -(-x / W) := by
  have hdiv := Int.mul_ediv_add_emod x W
  have hlt := Int.emod_lt_of_pos x hW
  have hq : -x / W = -(x / W + 1) :=
    ((Int.ediv_emod_unique hW (r := W - x % W)).mpr
      ⟨by rw [Int.mul_neg, Int.mul_add]; omega, by omega, by omega⟩).1
  omega

theorem part_floor_or_ceil (hpos : 0 < total weights) (hkeys : (weights.map (·.1)).Nodup)
    (hw : w ∈ weights) :
    part amount weights w = amount * w.2 / total weights ∨
      part amount weights w = -(-(amount * w.2) / total weights) := by
  unfold part
  split
  · rename_i hfav
    exact .inr (div_succ_eq_neg_div hpos (remainder_pos_of_favoured hpos hkeys hw hfav))
  · exact .inl (Int.add_zero _)

/-- Whoever was short-changed by more than one of the favoured is favoured too. -/
theorem favoured_of_lt (hkeys : (weights.map (·.1)).Nodup) {w' : κ × Int} (hw : w ∈ weights)
    (hw' : w' ∈ weights) (hlt : amount * w'.2 % total weights < amount * w.2 % total weights)
    (hfav : w'.1 ∈ favoured amount weights) : w.1 ∈ favoured amount weights := by
  unfold favoured remainders at *
  rw [← List.map_take] at *
  obtain ⟨v, hv, hkey⟩ := List.mem_map.mp hfav
  have hmem : v ∈ weights := (List.mem_insertionSort _).mp (List.mem_of_mem_take hv)
  obtain rfl : v = w' := List.inj_on_of_nodup_map hkeys hmem hw' hkey
  refine List.mem_map_of_mem ?_
  have hsorted := List.pairwise_insertionSort (Before amount (total weights)) weights
  have hall := (List.mem_insertionSort (Before amount (total weights))).mpr hw
  rw [← List.take_append_drop (leftover amount weights).toNat (weights.insertionSort _)]
    at hsorted hall
  rcases List.mem_append.mp hall with hin | hout
  · exact hin
  · -- it cannot stand after one that was short-changed by less
    have hbefore := (List.pairwise_append.mp hsorted).2.2 v hv w hout
    unfold Before at hbefore
    omega

/-- The larger weight never gets less. -/
theorem part_mono (hpos : 0 < total weights) (hkeys : (weights.map (·.1)).Nodup)
    (hamount : 0 ≤ amount) {w' : κ × Int} (hw : w ∈ weights) (hw' : w' ∈ weights)
    (hlt : w'.2 < w.2) : part amount weights w' ≤ part amount weights w := by
  have hle : amount * w'.2 ≤ amount * w.2 := Int.mul_le_mul_of_nonneg_left (by omega) hamount
  have hfloor := Int.ediv_le_ediv hpos hle
  by_cases hfav' : w'.1 ∈ favoured amount weights
  · by_cases hfav : w.1 ∈ favoured amount weights
    · simp only [part, hfav, hfav', if_true]
      omega
    · have hrem' := remainder_pos_of_favoured hpos hkeys hw' hfav'
      have hge : ¬ amount * w'.2 % total weights < amount * w.2 % total weights :=
        fun h => hfav (favoured_of_lt hkeys hw hw' h hfav')
      -- a remainder no larger over a larger product leaves the larger quotient
      have hne : amount * w'.2 ≠ amount * w.2 := by
        intro heq
        have hzero : amount = 0 := by
          by_contra hnz
          exact absurd (Int.eq_of_mul_eq_mul_left hnz heq) (by omega)
        simp [hzero] at hrem'
      have hd := Int.mul_ediv_add_emod (amount * w.2) (total weights)
      have hd' := Int.mul_ediv_add_emod (amount * w'.2) (total weights)
      have hquot : amount * w'.2 / total weights < amount * w.2 / total weights := by
        by_contra hnot
        rw [show amount * w'.2 / total weights = amount * w.2 / total weights by omega] at hd'
        omega
      simp only [part, hfav, hfav', if_true, if_false]
      omega
  · simp only [part, hfav', if_false]
    split <;> omega

/-- The parts do not depend on the order the weights are given in. -/
theorem part_perm {weights' : List (κ × Int)} (hkeys : (weights.map (·.1)).Nodup)
    (hperm : weights'.Perm weights) : part amount weights' = part amount weights := by
  have htotal := total_perm hperm
  have hleft : leftover amount weights' = leftover amount weights := by
    unfold leftover floors
    rw [htotal, total_perm (hperm.map _)]
  have horder : remainders amount weights' (total weights) =
      remainders amount weights (total weights) := by
    have hsorted := List.pairwise_insertionSort (Before amount (total weights)) weights
    have hsorted' := List.pairwise_insertionSort (Before amount (total weights)) weights'
    refine congrArg (List.map _) (List.Perm.eq_of_pairwise ?_ hsorted' hsorted
      ((List.perm_insertionSort _ _).trans (hperm.trans (List.perm_insertionSort _ _).symm)))
    intro w w' hw hw' h h'
    rw [List.mem_insertionSort] at hw hw'
    refine List.inj_on_of_nodup_map hkeys (hperm.subset hw) hw' ?_
    unfold Before at h h'
    exact le_antisymm (by grind) (by grind)
  have hfavoured : favoured amount weights' = favoured amount weights := by
    unfold favoured
    rw [htotal, hleft, horder]
  funext w
  rw [part, htotal, hfavoured, part]

end

/-! ### The split -/

variable [LinearOrder κ]

/-- The part a key is allocated; nothing, where there is nothing to take a proportion of. -/
def allotted (amount : Int) (weights : List (κ × Int)) (w : κ × Int) : Int :=
  if total weights = 0 then 0 else part amount weights w

variable {amount : Int} {weights : List (κ × Int)}

/-- It is allocated just where there is something to take a proportion of, or nothing to
allocate. -/
theorem allocate_eq_ok (hkeys : (weights.map (·.1)).Nodup) (hamount : 0 ≤ amount)
    (hweights : ∀ w ∈ weights, 0 ≤ w.2) (hsome : 0 < total weights ∨ amount = 0) :
    allocate amount weights = .ok (weights.map fun w => (w.1, allotted amount weights w)) := by
  unfold allocate
  rw [validate_eq_ok.mpr ⟨hamount, hweights⟩]
  by_cases hzero : total weights = 0
  · have hnone : amount = 0 := by omega
    simp only [bind, Except.bind, hzero, if_true, nothingFor, allotted, hnone]
  · have hpos : 0 < total weights := by
      have := total_nonneg hweights
      omega
    have hdist := distribute_eq amount weights
    have hsum := sum_part amount hpos hkeys
    unfold leftover at hdist
    simp only [bind, Except.bind, hzero, if_false, hdist, allotted]
    rw [if_pos]
    unfold total
    rw [List.map_map]
    exact hsum

/-- Anything else is refused. -/
theorem allocate_ok (hkeys : (weights.map (·.1)).Nodup) {parts : List (κ × Int)}
    (h : allocate amount weights = .ok parts) :
    0 ≤ amount ∧ (∀ w ∈ weights, 0 ≤ w.2) ∧ (0 < total weights ∨ amount = 0) ∧
      parts = weights.map fun w => (w.1, allotted amount weights w) := by
  have hvalid : validate amount weights = .ok () := by
    cases hv : validate amount weights with
    | ok u => rfl
    | error e =>
      unfold allocate at h
      rw [hv] at h
      cases h
  obtain ⟨hamount, hweights⟩ := validate_eq_ok.mp hvalid
  have hsome : 0 < total weights ∨ amount = 0 := by
    by_cases hzero : total weights = 0
    · right
      unfold allocate at h
      simp only [hvalid, bind, Except.bind, hzero, if_true, nothingFor] at h
      split at h
      · assumption
      · cases h
    · have := total_nonneg hweights
      left
      omega
  refine ⟨hamount, hweights, hsome, ?_⟩
  rw [allocate_eq_ok hkeys hamount hweights hsome] at h
  exact (Except.ok.inj h).symm

theorem sum_allotted (hkeys : (weights.map (·.1)).Nodup) (hweights : ∀ w ∈ weights, 0 ≤ w.2)
    (hsome : 0 < total weights ∨ amount = 0) :
    (weights.map (allotted amount weights)).sum = amount := by
  unfold allotted
  by_cases hzero : total weights = 0
  · simp only [hzero, if_true]
    have : (weights.map fun _ => (0 : Int)).sum = 0 := by simp
    omega
  · simp only [hzero, if_false]
    have := total_nonneg hweights
    exact sum_part amount (by omega) hkeys

theorem allotted_nonneg (hamount : 0 ≤ amount) (hweights : ∀ w ∈ weights, 0 ≤ w.2)
    (hw : w ∈ weights) : 0 ≤ allotted amount weights w := by
  unfold allotted
  split
  · exact Int.le_refl 0
  · have := total_nonneg hweights
    exact part_nonneg (by omega) hamount (hweights w hw)

theorem allotted_le (hkeys : (weights.map (·.1)).Nodup) (hweights : ∀ w ∈ weights, 0 ≤ w.2)
    (hamount : amount ≤ total weights) (hw : w ∈ weights) : allotted amount weights w ≤ w.2 := by
  unfold allotted
  split
  · exact hweights w hw
  · have := total_nonneg hweights
    exact part_le (by omega) hkeys hamount hw (hweights w hw)

/-- **The split is exact and fair.** The parts add up to the amount; each is its share rounded
down or up; no weight, no part; of no more than the whole nobody gets more than their weight;
the larger weight never gets less; and the order of the weights does not matter. -/
theorem allocate_fair (hkeys : (weights.map (·.1)).Nodup) (hamount : 0 ≤ amount)
    (hweights : ∀ w ∈ weights, 0 ≤ w.2) (hpos : 0 < total weights) :
    ∃ part : κ × Int → Int,
      allocate amount weights = .ok (weights.map fun w => (w.1, part w)) ∧
      (weights.map part).sum = amount ∧
      (∀ w ∈ weights, part w = amount * w.2 / total weights ∨
        part w = -(-(amount * w.2) / total weights)) ∧
      (∀ w ∈ weights, w.2 = 0 → part w = 0) ∧
      (amount ≤ total weights → ∀ w ∈ weights, part w ≤ w.2) ∧
      (∀ w ∈ weights, ∀ w' ∈ weights, w'.2 < w.2 → part w' ≤ part w) ∧
      ∀ weights', weights'.Perm weights →
        allocate amount weights' = .ok (weights'.map fun w => (w.1, part w)) := by
  have hallot {ws : List (κ × Int)} (hws : 0 < total ws) : allotted amount ws = part amount ws := by
    funext w
    rw [allotted, if_neg (by omega)]
  refine ⟨part amount weights, ?_, sum_part amount hpos hkeys,
    fun w hw => part_floor_or_ceil hpos hkeys hw, ?_,
    fun hle w hw => part_le hpos hkeys hle hw (hweights w hw),
    fun w hw w' hw' => part_mono hpos hkeys hamount hw hw', ?_⟩
  · rw [allocate_eq_ok hkeys hamount hweights (.inl hpos), hallot hpos]
  · intro w hw hzero
    have hpart : part amount weights w = _ ∨ part amount weights w = _ :=
      part_floor_or_ceil hpos hkeys hw
    rcases hpart with h | h <;> simp [h, hzero]
  · intro weights' hperm
    have htotal := total_perm hperm
    rw [allocate_eq_ok ((hperm.map (·.1)).nodup_iff.mpr hkeys) hamount
      (fun w hw => hweights w (hperm.subset hw)) (.inl (htotal ▸ hpos)), hallot (htotal ▸ hpos),
      part_perm hkeys hperm]

theorem allocate_fair_thirds : ∃ part : Nat × Int → Int,
    allocate 100 [(1, 1), (2, 1), (3, 1)] =
      .ok [(1, part (1, 1)), (2, part (2, 1)), (3, part (3, 1))] ∧
      part (1, 1) + (part (2, 1) + part (3, 1)) = 100 := by
  have hkeys : ([(1, 1), (2, 1), (3, 1)].map fun w : Nat × Int => w.1).Nodup := by decide
  obtain ⟨part, hok, hsum, -⟩ := allocate_fair hkeys (Int.natCast_nonneg 100)
    (by decide) (by decide)
  exact ⟨part, hok, by simpa using hsum⟩

example : allocate 100 [(1, 1), (2, 1), (3, 1)] = .ok [(1, 34), (2, 33), (3, 33)] := by decide

end ProRata

end MoneyFlow.Securities
