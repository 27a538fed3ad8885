import MoneyFlow.Transfer.Fold

/-!
# MoneyFlow.Transfer.Destinations

`buildDestinations` groups legs by the Token they credit, and adds up in words.

`Gathers legs ds` says that the destinations name each Token once, exactly those
the legs credit, with what the legs bring to it as numbers. It is kept by one more
leg (`Gathers.add`) as long as the legs together amount to no more than a word
holds, so no sum on the way wraps around.
-/

namespace MoneyFlow.Transfer

variable {legs : List TransferLeg}

/-- What the legs amount to. -/
def legTotal (legs : List TransferLeg) : Nat :=
  (legs.map fun leg => leg.amount.minorUnits.toNat).sum

/-- What the legs bring to a Token. -/
def received (legs : List TransferLeg) (tok : Id) : Nat :=
  (legs.map fun leg => if leg.destTokenID = tok then leg.amount.minorUnits.toNat else 0).sum

@[simp] theorem legTotal_nil : legTotal [] = 0 := rfl

@[simp] theorem legTotal_append (xs ys : List TransferLeg) :
    legTotal (xs ++ ys) = legTotal xs + legTotal ys := by
  simp [legTotal]

@[simp] theorem legTotal_cons (leg : TransferLeg) (legs : List TransferLeg) :
    legTotal (leg :: legs) = leg.amount.minorUnits.toNat + legTotal legs := by
  simp [legTotal]

@[simp] theorem received_append (xs ys : List TransferLeg) (tok : Id) :
    received (xs ++ ys) tok = received xs tok + received ys tok := by
  simp [received]

theorem received_singleton (leg : TransferLeg) (tok : Id) :
    received [leg] tok = if leg.destTokenID = tok then leg.amount.minorUnits.toNat else 0 := by
  simp [received]

theorem received_le_total (legs : List TransferLeg) (tok : Id) :
    received legs tok ≤ legTotal legs := by
  induction legs with
  | nil => exact le_rfl
  | cons leg legs ih =>
    rw [legTotal_cons, ← List.singleton_append, received_append, received_singleton]
    split
    · omega
    · omega

/-- Nothing is received where no leg leads. -/
theorem received_eq_zero {tok : Id} (h : ∀ leg ∈ legs, leg.destTokenID ≠ tok) :
    received legs tok = 0 := by
  induction legs with
  | nil => rfl
  | cons leg legs ih =>
    have ih := ih fun l hl => h l (List.mem_cons_of_mem _ hl)
    rw [← List.singleton_append, received_append, received_singleton,
      if_neg (h leg List.mem_cons_self), ih]

/-- The destinations say what the legs bring to each Token. -/
structure Gathers (legs : List TransferLeg) (ds : List TransferDestination) : Prop where
  distinct : (ds.map TransferDestination.toTokenID).Nodup
  tokens : ∀ tok, tok ∈ ds.map TransferDestination.toTokenID ↔ ∃ leg ∈ legs, leg.destTokenID = tok
  amounts : ∀ d ∈ ds, d.amount.minorUnits.toNat = received legs d.toTokenID
  total : (ds.map fun d => d.amount.minorUnits.toNat).sum = legTotal legs

variable {leg : TransferLeg} {ds : List TransferDestination}

/-! ### One more leg -/

theorem addDestination_tokens (leg : TransferLeg) (ds : List TransferDestination) :
    (addDestination leg ds).map TransferDestination.toTokenID =
      if leg.destTokenID ∈ ds.map TransferDestination.toTokenID then
        ds.map TransferDestination.toTokenID
      else ds.map TransferDestination.toTokenID ++ [leg.destTokenID] := by
  induction ds with
  | nil => rfl
  | cons d rest ih =>
    by_cases hd : d.toTokenID = leg.destTokenID
    · simp [addDestination, hd]
    · have hd' : leg.destTokenID ≠ d.toTokenID := fun h => hd h.symm
      simp only [addDestination, if_neg hd, List.map_cons, ih, List.mem_cons, hd', false_or]
      split <;> rfl

/-- An entry is as it was, or it is the leg's Token's. -/
theorem mem_addDestination {d : TransferDestination}
    (hnd : (ds.map TransferDestination.toTokenID).Nodup) (h : d ∈ addDestination leg ds) :
    (d ∈ ds ∧ d.toTokenID ≠ leg.destTokenID) ∨
      (d.toTokenID = leg.destTokenID ∧
        ((leg.destTokenID ∉ ds.map TransferDestination.toTokenID ∧ d.amount = leg.amount) ∨
          ∃ d0 ∈ ds, d0.toTokenID = leg.destTokenID ∧
            d.amount.minorUnits = d0.amount.minorUnits + leg.amount.minorUnits)) := by
  induction ds with
  | nil =>
    obtain rfl := List.mem_singleton.mp h
    exact .inr ⟨rfl, .inl ⟨List.not_mem_nil, rfl⟩⟩
  | cons d0 rest ih =>
    obtain ⟨hnot, hnd⟩ := List.nodup_cons.mp hnd
    by_cases hd : d0.toTokenID = leg.destTokenID
    · rw [addDestination, if_pos hd] at h
      rcases List.mem_cons.mp h with rfl | h
      · exact .inr ⟨hd, .inr ⟨d0, List.mem_cons_self, hd, rfl⟩⟩
      · refine .inl ⟨List.mem_cons_of_mem _ h, fun heq => hnot ?_⟩
        rw [hd, ← heq]
        exact List.mem_map_of_mem h
    · rw [addDestination, if_neg hd] at h
      rcases List.mem_cons.mp h with rfl | h
      · exact .inl ⟨List.mem_cons_self, hd⟩
      · rcases ih hnd h with ⟨hm, hne⟩ | ⟨heq, ⟨hnew, hamount⟩ | ⟨d1, hm, hd1, hsum⟩⟩
        · exact .inl ⟨List.mem_cons_of_mem _ hm, hne⟩
        · refine .inr ⟨heq, .inl ⟨?_, hamount⟩⟩
          rw [List.map_cons, List.mem_cons, not_or]
          exact ⟨fun h => hd h.symm, hnew⟩
        · exact .inr ⟨heq, .inr ⟨d1, List.mem_cons_of_mem _ hm, hd1, hsum⟩⟩

theorem toNat_add_of_lt {a b : UInt64} (h : a.toNat + b.toNat < 2 ^ 64) :
    (a + b).toNat = a.toNat + b.toNat := by
  rw [UInt64.toNat_add, Nat.mod_eq_of_lt h]

theorem sum_addDestination (h : ∀ d ∈ ds, d.toTokenID = leg.destTokenID →
      d.amount.minorUnits.toNat + leg.amount.minorUnits.toNat < 2 ^ 64) :
    ((addDestination leg ds).map fun d => d.amount.minorUnits.toNat).sum =
      (ds.map fun d => d.amount.minorUnits.toNat).sum + leg.amount.minorUnits.toNat := by
  induction ds with
  | nil => simp [addDestination]
  | cons d rest ih =>
    by_cases hd : d.toTokenID = leg.destTokenID
    · rw [addDestination, if_pos hd]
      simp only [List.map_cons, List.sum_cons, toNat_add_of_lt (h d List.mem_cons_self hd)]
      omega
    · have ih := ih fun d' hd' => h d' (List.mem_cons_of_mem _ hd')
      rw [addDestination, if_neg hd]
      simp only [List.map_cons, List.sum_cons, ih]
      omega

/-- **One more leg is added where it leads.** -/
theorem Gathers.add (h : Gathers legs ds) (hfits : legTotal (legs ++ [leg]) < 2 ^ 64) :
    Gathers (legs ++ [leg]) (addDestination leg ds) := by
  have hword {d : TransferDestination} (hd : d ∈ ds) :
      d.amount.minorUnits.toNat + leg.amount.minorUnits.toNat < 2 ^ 64 := by
    have hle := received_le_total legs d.toTokenID
    rw [← h.amounts d hd] at hle
    rw [legTotal_append, legTotal_cons, legTotal_nil] at hfits
    omega
  refine ⟨?_, fun tok => ?_, fun d hd => ?_, ?_⟩
  · rw [addDestination_tokens]
    split
    · exact h.distinct
    · rename_i hnew
      exact List.nodup_append.mpr ⟨h.distinct, List.nodup_singleton _,
        fun a ha b hb heq => hnew (List.mem_singleton.mp hb ▸ heq ▸ ha)⟩
  · have hold := h.tokens tok
    have hleg := h.tokens leg.destTokenID
    rw [addDestination_tokens]
    split
    · rename_i hseen
      rw [hold]
      constructor
      · rintro ⟨l, hl, rfl⟩
        exact ⟨l, List.mem_append_left _ hl, rfl⟩
      · rintro ⟨l, hl, rfl⟩
        rcases List.mem_append.mp hl with hl | hl
        · exact ⟨l, hl, rfl⟩
        · obtain rfl := List.mem_singleton.mp hl
          exact hleg.mp hseen
    · rw [List.mem_append, hold]
      simp only [List.mem_append, List.mem_singleton, or_and_right, exists_or, exists_eq_left]
      exact or_congr_right eq_comm
  · rw [received_append, received_singleton]
    rcases mem_addDestination h.distinct hd with
      ⟨hm, hne⟩ | ⟨heq, ⟨hnew, hamount⟩ | ⟨d0, hm, hd0, hsum⟩⟩
    · rw [if_neg (Ne.symm hne), h.amounts d hm, Nat.add_zero]
    · have hzero : received legs d.toTokenID = 0 := by
        refine received_eq_zero fun l hl hdest => hnew ?_
        rw [← heq]
        exact (h.tokens _).mpr ⟨l, hl, hdest⟩
      rw [if_pos heq.symm, hzero, hamount, Nat.zero_add]
    · rw [if_pos heq.symm, hsum, toNat_add_of_lt (hword hm), h.amounts d0 hm, hd0, heq]
  · rw [sum_addDestination fun d hd _ => hword hd, h.total, legTotal_append, legTotal_cons,
      legTotal_nil, Nat.add_zero]

theorem gathers_foldl (legs : List TransferLeg) {done : List TransferLeg} (h : Gathers done ds)
    (hfits : legTotal (done ++ legs) < 2 ^ 64) :
    Gathers (done ++ legs) (legs.foldl (fun ds leg => addDestination leg ds) ds) := by
  induction legs generalizing done ds with
  | nil => simpa using h
  | cons leg legs ih =>
    rw [List.append_cons] at hfits ⊢
    have hleg : legTotal (done ++ [leg]) < 2 ^ 64 := by
      rw [legTotal_append] at hfits
      omega
    exact ih (h.add hleg) hfits

/-- **`buildDestinations` says what the legs bring to each Token.** -/
theorem gathers_buildDestinations (hfits : legTotal legs < 2 ^ 64) :
    Gathers legs (buildDestinations legs) := by
  have hempty : Gathers [] [] := ⟨List.nodup_nil, by simp, by simp, rfl⟩
  have h := gathers_foldl legs hempty (by simpa using hfits)
  rw [List.nil_append] at h
  -- the currency is set on the sums
  unfold buildDestinations
  refine ⟨?_, fun tok => ?_, fun d hd => ?_, ?_⟩
  · rw [List.map_map]
    exact h.distinct
  · rw [List.map_map]
    exact h.tokens tok
  · obtain ⟨d0, hm, rfl⟩ := List.mem_map.mp hd
    exact h.amounts d0 hm
  · rw [List.map_map]
    exact h.total

end MoneyFlow.Transfer
