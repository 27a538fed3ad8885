import MoneyFlow.Books.Shapes
import MoneyFlow.Concurrent.Machine
import MoneyFlow.Securities.ProRata
import MoneyFlow.Sums

/-!
# MoneyFlow.Securities.Allocation

`ruby/app/services/securities/allocation.rb`: what each holder is owed of a Repayment.

`forRepayment_isOk` says when there is a split: nobody's outstanding principal is
negative, something is outstanding, and the Repayment's principal is no more than that.
Interest goes to the holders in proportion to the same outstanding principal, so a
Repayment of interest alone needs some of it too.
-/

namespace MoneyFlow.Securities

open Books (Uuid)

/-- What of a `Models::Repayment` the services read. -/
structure Repayment where
  id : Uuid
  principal : Int
  interest : Int
  collectionTransferID : Uuid
  deriving DecidableEq, Repr

/-- `Positions::Position`. -/
structure Position where
  investorEntityID : Nat
  principal : Int
  outstanding : Int
  deriving DecidableEq, Repr

/-- `Allocation::Share`. -/
structure Share where
  investorEntityID : Nat
  principal : Int
  interest : Int
  deriving DecidableEq, Repr

variable {shares : List Share} {positions : List Position}

/-- `total_minor_units`. -/
def Share.total (share : Share) : Int := share.principal + share.interest

namespace Allocation

/-- `outstanding_principal_minor_units` by `investor_entity_id`. -/
def weights (positions : List Position) : List (Nat × Int) :=
  positions.map fun p => (p.investorEntityID, p.outstanding)

/-- `Hash#fetch`, with the default where there is one; elsewhere the key is there. -/
def fetch (parts : List (Nat × Int)) (investorEntityID : Nat) : Int :=
  (parts.lookup investorEntityID).getD 0

/-- `split`. -/
def split (repayment : Repayment) (weights : List (Nat × Int)) :
    Except AllocationError (List Share) :=
  if weights = [] then .ok []
  else do
    let principal ← ProRata.allocate repayment.principal weights
    let interest ← ProRata.allocate repayment.interest weights
    .ok (((weights.map (·.1)).insertionSort (· ≤ ·)).map fun investorEntityID =>
      ⟨investorEntityID, fetch principal investorEntityID, fetch interest investorEntityID⟩)

/-- `check_sum!`. -/
def checkSum (allocated total : Int) (bucket : String) : Except AllocationError Unit :=
  if allocated = total then .ok () else .error (.bucket allocated total bucket)

/-- `check_holdings!`. -/
def checkHoldings (positions : List Position) : List Share → Except AllocationError Unit
  | [] => .ok ()
  | share :: shares =>
    let held := fetch (weights positions) share.investorEntityID
    if share.principal ≤ held then checkHoldings positions shares
    else .error (.holding share.investorEntityID share.principal held)

/-- `verify!`. -/
def verify (repayment : Repayment) (positions : List Position) (shares : List Share) :
    Except AllocationError Unit := do
  checkSum (shares.map (·.principal)).sum repayment.principal "principal"
  checkSum (shares.map (·.interest)).sum repayment.interest "interest"
  checkHoldings positions shares

/-- `Allocation.for`, from the Positions it reads. -/
def forRepayment (repayment : Repayment) (positions : List Position) :
    Except AllocationError (List Share) := do
  let shares ← split repayment (weights positions)
  let shares := shares.filter fun share => share.total ≠ 0
  verify repayment positions shares
  .ok shares

/-! ### Checks -/

theorem checkSum_eq_ok {allocated total : Int} (bucket : String) :
    checkSum allocated total bucket = .ok () ↔ allocated = total := by
  unfold checkSum
  split
  · exact ⟨fun _ => by assumption, fun _ => rfl⟩
  · exact ⟨nofun, fun h => by contradiction⟩

theorem checkHoldings_eq_ok : checkHoldings positions shares = .ok () ↔
      ∀ share ∈ shares, share.principal ≤ fetch (weights positions) share.investorEntityID := by
  induction shares with
  | nil => exact ⟨fun _ => nofun, fun _ => rfl⟩
  | cons share shares ih =>
    unfold checkHoldings
    by_cases hheld : share.principal ≤ fetch (weights positions) share.investorEntityID
    · rw [if_pos hheld, ih]
      simp [hheld]
    · rw [if_neg hheld]
      refine ⟨nofun, fun h => absurd (h share List.mem_cons_self) hheld⟩

theorem verify_eq_ok {repayment : Repayment} : verify repayment positions shares = .ok () ↔
      (shares.map (·.principal)).sum = repayment.principal ∧
      (shares.map (·.interest)).sum = repayment.interest ∧
      ∀ share ∈ shares, share.principal ≤ fetch (weights positions) share.investorEntityID := by
  rw [← checkHoldings_eq_ok, ← checkSum_eq_ok "principal", ← checkSum_eq_ok "interest"]
  unfold verify
  cases checkSum (shares.map (·.principal)).sum repayment.principal "principal" with
  | error e => exact ⟨nofun, nofun⟩
  | ok =>
    cases checkSum (shares.map (·.interest)).sum repayment.interest "interest" with
    | error e => exact ⟨nofun, nofun⟩
    | ok => exact ⟨fun h => ⟨rfl, rfl, h⟩, fun h => h.2.2⟩

/-! ### The split -/

theorem weights_keys : (weights positions).map (·.1) = positions.map (·.investorEntityID) := by
  simp [weights]

/-- The value of a key that is there. -/
theorem fetch_map {ws : List (Nat × Int)} (hkeys : (ws.map (·.1)).Nodup) (f : Nat × Int → Int)
    {w : Nat × Int} (hw : w ∈ ws) : fetch (ws.map fun w => (w.1, f w)) w.1 = f w := by
  induction ws with
  | nil => cases hw
  | cons v ws ih =>
    obtain ⟨hv, hkeys⟩ := List.nodup_cons.mp hkeys
    rcases List.mem_cons.mp hw with rfl | hw
    · simp [fetch]
    · have hne : ¬ w.1 = v.1 := by
        intro heq
        exact hv (List.mem_map.mpr ⟨w, hw, heq⟩)
      have hbeq : (w.1 == v.1) = false := by simpa using hne
      have hrest := ih hkeys hw
      rw [fetch, List.map_cons, List.lookup_cons, hbeq]
      exact hrest

theorem fetch_weights (hkeys : (positions.map (·.investorEntityID)).Nodup) {p : Position}
    (hp : p ∈ positions) : fetch (weights positions) p.investorEntityID = p.outstanding := by
  have hkeys' : ((weights positions).map (·.1)).Nodup := by
    rw [weights_keys]
    exact hkeys
  have hfetch := fetch_map hkeys' (·.2) (List.mem_map_of_mem hp)
  simpa using hfetch

/-- What a holder with a weight gets. -/
def shareOf (repayment : Repayment) (ws : List (Nat × Int)) (w : Nat × Int) : Share :=
  ⟨w.1, ProRata.allotted repayment.principal ws w, ProRata.allotted repayment.interest ws w⟩

variable {repayment : Repayment} {ws : List (Nat × Int)} {positions : List Position}

/-- The shares of both parts, side by side and in order of the holders. -/
theorem shares_perm (hkeys : (ws.map (·.1)).Nodup) :
    (((ws.map (·.1)).insertionSort (· ≤ ·)).map fun k => (⟨k,
      fetch (ws.map fun w => (w.1, ProRata.allotted repayment.principal ws w)) k,
      fetch (ws.map fun w => (w.1, ProRata.allotted repayment.interest ws w)) k⟩ : Share)).Perm
    (ws.map (shareOf repayment ws)) := by
  refine ((List.perm_insertionSort _ _).map _).trans ?_
  rw [List.map_map]
  apply List.Perm.of_eq
  apply List.map_congr_left
  intro w hw
  simp only [Function.comp, shareOf, fetch_map hkeys _ hw]

/-- When both parts can be allocated. -/
def Divisible (repayment : Repayment) (ws : List (Nat × Int)) : Prop :=
  0 ≤ repayment.principal ∧ 0 ≤ repayment.interest ∧ (∀ w ∈ ws, 0 ≤ w.2) ∧
    (0 < ProRata.total ws ∨ repayment.principal = 0 ∧ repayment.interest = 0)

theorem split_ok (hkeys : (ws.map (·.1)).Nodup) (hne : ws ≠ [])
    (h : split repayment ws = .ok shares) :
    Divisible repayment ws ∧ shares.Perm (ws.map (shareOf repayment ws)) := by
  unfold split at h
  rw [if_neg hne] at h
  cases hp : ProRata.allocate repayment.principal ws with
  | error e =>
    rw [hp] at h
    cases h
  | ok principal =>
    cases hi : ProRata.allocate repayment.interest ws with
    | error e =>
      rw [hp, hi] at h
      cases h
    | ok interest =>
      rw [hp, hi] at h
      obtain ⟨hprincipal, hweights, hsome, rfl⟩ := ProRata.allocate_ok hkeys hp
      obtain ⟨hinterest, -, hsome', rfl⟩ := ProRata.allocate_ok hkeys hi
      cases h
      refine ⟨⟨hprincipal, hinterest, hweights, ?_⟩, shares_perm hkeys⟩
      omega

theorem split_of_divisible (hkeys : (ws.map (·.1)).Nodup) (hne : ws ≠ [])
    (h : Divisible repayment ws) : ∃ shares, split repayment ws = .ok shares ∧
      shares.Perm (ws.map (shareOf repayment ws)) := by
  obtain ⟨hprincipal, hinterest, hweights, hsome⟩ := h
  refine ⟨_, ?_, shares_perm hkeys⟩
  unfold split
  rw [if_neg hne, ProRata.allocate_eq_ok hkeys hprincipal hweights (by omega),
    ProRata.allocate_eq_ok hkeys hinterest hweights (by omega)]
  rfl

/-- Leaving out the holders owed nothing loses nothing. -/
theorem sum_filter_total (f : Share → Int) (hf : ∀ share ∈ shares, share.total = 0 → f share = 0) :
    ((shares.filter fun share => share.total ≠ 0).map f).sum = (shares.map f).sum := by
  induction shares with
  | nil => rfl
  | cons share shares ih =>
    have htail := ih fun s hs => hf s (List.mem_cons_of_mem _ hs)
    by_cases hzero : share.total = 0
    · have hshare := hf share List.mem_cons_self hzero
      rw [List.filter_cons_of_neg (by simpa using hzero), htail, List.map_cons, List.sum_cons,
        hshare, Int.zero_add]
    · rw [List.filter_cons_of_pos (by simpa using hzero), List.map_cons, List.sum_cons,
        htail, List.map_cons, List.sum_cons]

/-- Shares that are a split of a Repayment over Positions. -/
structure Splits (repayment : Repayment) (positions : List Position) (shares : List Share) :
    Prop where
  investors : (shares.map (·.investorEntityID)).Nodup
  principal : (shares.map (·.principal)).sum = repayment.principal
  interest : (shares.map (·.interest)).sum = repayment.interest
  nonneg : ∀ share ∈ shares, 0 ≤ share.principal ∧ 0 ≤ share.interest
  within : ∀ share ∈ shares, ∃ p ∈ positions,
    p.investorEntityID = share.investorEntityID ∧ share.principal ≤ p.outstanding

theorem shareOf_nonneg (hdiv : Divisible repayment ws) {w : Nat × Int} (hw : w ∈ ws) :
    0 ≤ (shareOf repayment ws w).principal ∧ 0 ≤ (shareOf repayment ws w).interest :=
  ⟨ProRata.allotted_nonneg hdiv.1 hdiv.2.2.1 hw, ProRata.allotted_nonneg hdiv.2.1 hdiv.2.2.1 hw⟩

/-- What a split of every holder's part adds up to. -/
theorem sum_of_perm (hkeys : (ws.map (·.1)).Nodup) (hdiv : Divisible repayment ws)
    (hperm : shares.Perm (ws.map (shareOf repayment ws))) :
    ((shares.filter fun share => share.total ≠ 0).map (·.principal)).sum = repayment.principal ∧
    ((shares.filter fun share => share.total ≠ 0).map (·.interest)).sum = repayment.interest := by
  have hnonneg : ∀ share ∈ shares, 0 ≤ share.principal ∧ 0 ≤ share.interest := by
    intro share hshare
    obtain ⟨w, hw, rfl⟩ := List.mem_map.mp (hperm.subset hshare)
    exact shareOf_nonneg hdiv hw
  rw [sum_filter_total (·.principal), sum_filter_total (·.interest)]
  · rw [(hperm.map _).sum_eq, (hperm.map _).sum_eq, List.map_map, List.map_map]
    have hsome := hdiv.2.2.2
    exact ⟨ProRata.sum_allotted hkeys hdiv.2.2.1 (by omega),
      ProRata.sum_allotted hkeys hdiv.2.2.1 (by omega)⟩
  all_goals
    intro share hshare hzero
    have := hnonneg share hshare
    unfold Share.total at hzero
    omega

theorem forRepayment_ok (h : forRepayment repayment positions = .ok shares) :
    ∃ all, split repayment (weights positions) = .ok all ∧
      shares = all.filter (fun share => share.total ≠ 0) ∧
      verify repayment positions shares = .ok () := by
  unfold forRepayment at h
  cases hs : split repayment (weights positions) with
  | error e =>
    rw [hs] at h
    cases h
  | ok all =>
    rw [hs] at h
    simp only [bind, Except.bind] at h
    split at h
    · cases h
    · rename_i hv
      cases h
      exact ⟨all, rfl, rfl, hv⟩

/-- What `Allocation.for` returns is a split. -/
theorem splits_of_ok (hkeys : (positions.map (·.investorEntityID)).Nodup)
    (h : forRepayment repayment positions = .ok shares) : Splits repayment positions shares := by
  obtain ⟨all, hsplit, rfl, hverify⟩ := forRepayment_ok h
  obtain ⟨hprincipal, hinterest, hheld⟩ := verify_eq_ok.mp hverify
  have hkeys' := hkeys
  rw [← weights_keys] at hkeys'
  by_cases hne : weights positions = []
  · unfold split at hsplit
    rw [if_pos hne] at hsplit
    cases hsplit
    exact ⟨List.nodup_nil, hprincipal, hinterest, nofun, nofun⟩
  · obtain ⟨hdiv, hperm⟩ := split_ok hkeys' hne hsplit
    have hmem : ∀ share ∈ all.filter (fun share => share.total ≠ 0),
        ∃ w ∈ weights positions, share = shareOf repayment (weights positions) w := by
      intro share hshare
      obtain ⟨w, hw, rfl⟩ := List.mem_map.mp (hperm.subset (List.mem_of_mem_filter hshare))
      exact ⟨w, hw, rfl⟩
    refine ⟨?_, hprincipal, hinterest, ?_, ?_⟩
    · have hall : (all.map (·.investorEntityID)).Nodup := by
        rw [(hperm.map _).nodup_iff, List.map_map]
        exact hkeys'
      exact hall.sublist (List.filter_sublist.map _)
    · intro share hshare
      obtain ⟨w, hw, rfl⟩ := hmem share hshare
      exact shareOf_nonneg hdiv hw
    · intro share hshare
      have hle := hheld share hshare
      obtain ⟨w, hw, rfl⟩ := hmem share hshare
      obtain ⟨p, hp, rfl⟩ := List.mem_map.mp hw
      exact ⟨p, hp, rfl, hle.trans_eq (fetch_weights hkeys hp)⟩

/-- What is still outstanding of all Positions. -/
def outstanding (positions : List Position) : Int := (positions.map (·.outstanding)).sum

theorem total_weights : ProRata.total (weights positions) = outstanding positions := by
  unfold ProRata.total weights outstanding
  rw [List.map_map]
  rfl

theorem fetch_nonneg (hkeys : (positions.map (·.investorEntityID)).Nodup)
    (hheld : ∀ p ∈ positions, 0 ≤ p.outstanding) (k : Nat) : 0 ≤ fetch (weights positions) k := by
  by_cases hk : k ∈ positions.map (·.investorEntityID)
  · obtain ⟨p, hp, rfl⟩ := List.mem_map.mp hk
    rw [fetch_weights hkeys hp]
    exact hheld p hp
  · rw [← weights_keys] at hk
    have hnone : (weights positions).lookup k = none := by
      apply List.lookup_eq_none_iff.mpr
      intro w hw
      rw [bne_iff_ne]
      intro heq
      exact hk (List.mem_map.mpr ⟨w, hw, heq.symm⟩)
    rw [fetch, hnone]
    exact Int.le_refl 0

/-- Shares that are within what is held add up to no more than that. -/
theorem sum_shares_le (hkeys : (positions.map (·.investorEntityID)).Nodup)
    (hheld : ∀ p ∈ positions, 0 ≤ p.outstanding) (h : Splits repayment positions shares) :
    (shares.map (·.principal)).sum ≤ outstanding positions := by
  have hle : (shares.map (·.principal)).sum ≤
      ((shares.map (·.investorEntityID)).map (fetch (weights positions))).sum := by
    rw [List.map_map]
    apply List.sum_le_sum
    intro share hshare
    obtain ⟨p, hp, hinvestor, hwithin⟩ := h.within share hshare
    rw [Function.comp, ← hinvestor, fetch_weights hkeys hp]
    exact hwithin
  have hsub : shares.map (·.investorEntityID) ⊆ positions.map (·.investorEntityID) := by
    intro k hk
    obtain ⟨share, hshare, rfl⟩ := List.mem_map.mp hk
    obtain ⟨p, hp, hinvestor, -⟩ := h.within share hshare
    rw [← hinvestor]
    exact List.mem_map_of_mem hp
  have hall : ((positions.map (·.investorEntityID)).map (fetch (weights positions))).sum =
      outstanding positions := by
    rw [List.map_map, outstanding]
    congr 1
    apply List.map_congr_left
    intro p hp
    exact fetch_weights hkeys hp
  have hmore := sum_le_of_subset (fun k _ => fetch_nonneg hkeys hheld k) h.investors hsub
  exact (hle.trans hmore).trans_eq hall

/-- There is a split just when nobody holds less than nothing, something is outstanding,
and the principal is no more than what is. -/
theorem forRepayment_isOk (hkeys : (positions.map (·.investorEntityID)).Nodup)
    (hprincipal : 0 ≤ repayment.principal) (hinterest : 0 ≤ repayment.interest)
    (hsome : 0 < repayment.principal + repayment.interest) :
    (∃ shares, forRepayment repayment positions = .ok shares) ↔
      (∀ p ∈ positions, 0 ≤ p.outstanding) ∧ 0 < outstanding positions ∧
        repayment.principal ≤ outstanding positions := by
  have hkeys' := hkeys
  rw [← weights_keys] at hkeys'
  constructor
  · rintro ⟨shares, h⟩
    have hsplits := splits_of_ok hkeys h
    obtain ⟨all, hsplit, hshares, -⟩ := forRepayment_ok h
    have hne : weights positions ≠ [] := by
      intro hnil
      unfold split at hsplit
      rw [if_pos hnil] at hsplit
      cases hsplit
      obtain rfl : shares = [] := hshares
      have hp : (0 : Int) = _ := hsplits.principal
      have hi : (0 : Int) = _ := hsplits.interest
      omega
    obtain ⟨⟨-, -, hweights, htotal⟩, -⟩ := split_ok hkeys' hne hsplit
    rw [total_weights] at htotal
    have hheld : ∀ p ∈ positions, 0 ≤ p.outstanding :=
      fun p hp => hweights _ (List.mem_map_of_mem hp)
    refine ⟨hheld, by omega, ?_⟩
    rw [← hsplits.principal]
    exact sum_shares_le hkeys hheld hsplits
  · rintro ⟨hheld, hpos, hle⟩
    have hweights : ∀ w ∈ weights positions, 0 ≤ w.2 := by
      intro w hw
      obtain ⟨p, hp, rfl⟩ := List.mem_map.mp hw
      exact hheld p hp
    rw [← total_weights] at hpos hle
    have hne : weights positions ≠ [] := by
      intro hnil
      rw [hnil] at hpos
      exact absurd hpos (by decide)
    have hdiv : Divisible repayment (weights positions) :=
      ⟨hprincipal, hinterest, hweights, .inl hpos⟩
    obtain ⟨all, hsplit, hperm⟩ := split_of_divisible hkeys' hne hdiv
    have hsum := sum_of_perm hkeys' hdiv hperm
    have hverify : verify repayment positions
        (all.filter fun share => share.total ≠ 0) = .ok () := by
      refine verify_eq_ok.mpr ⟨hsum.1, hsum.2, ?_⟩
      intro share hshare
      obtain ⟨w, hw, rfl⟩ := List.mem_map.mp (hperm.subset (List.mem_of_mem_filter hshare))
      have hpart := ProRata.allotted_le hkeys' hweights hle hw
      obtain ⟨p, hp, rfl⟩ := List.mem_map.mp hw
      exact hpart.trans_eq (fetch_weights hkeys hp).symm
    refine ⟨all.filter fun share => share.total ≠ 0, ?_⟩
    unfold forRepayment
    rw [hsplit]
    simp only [bind, Except.bind, hverify]

end Allocation

end MoneyFlow.Securities
