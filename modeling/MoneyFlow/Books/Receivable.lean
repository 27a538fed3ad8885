import MoneyFlow.Books.Uncleared

/-!
# MoneyFlow.Books.Receivable

What an entity owes: its `receivable` account is debited by debt returns and credited by
Recoveries, and by nothing else.
-/

namespace MoneyFlow.Books

open Concurrent

variable {x : Running} {b : State}

/-! ### Debt returns and Recoveries -/

/-- The deposit whose return the Transaction charged to the receivable account. -/
def Running.lent (x : Running) : Option AchTransaction :=
  match x.origin, x.legs with
  | .lateReturn ach true, [leg] =>
    if ach.direction = .deposit ∧ leg.state.moved = true then some ach else none
  | _, _ => none

/-- A Recovery, by what identifies it and what it takes. -/
structure Recovered where
  entityID : Nat
  sequence : Nat
  amount : Nat
  deriving DecidableEq, Repr

/-- The Recovery that the Transaction paid to the receivable account. -/
def Running.recovered (x : Running) : Option Recovered :=
  match x.origin, x.legs with
  | .recovery entityID sequence amount, [_, cash] =>
    if cash.state.moved = true then some ⟨entityID, sequence, amount⟩ else none
  | _, _ => none

/-- What a Recovery is to an entity. -/
def Recovered.amountOf (entityID : Nat) (r : Recovered) : Int :=
  if r.entityID = entityID then r.amount else 0

/-- The part of a Recovery that may be missing. -/
def recoveredBy (entityID : Nat) (r : Option Recovered) : Int :=
  (r.map (·.amountOf entityID)).getD 0

theorem debtReturn_receivable (h : x.Sound) (e : Nat) {ach : AchTransaction}
    (horigin : x.origin = .lateReturn ach true) (hdir : ach.direction = .deposit) :
    x.net (ofEntity e .receivable) = recoveredBy e x.recovered - partOf e x.lent := by
  obtain ⟨leg, hlegs, hleg⟩ := h.one
    (by rw [horigin, Origin.request, LateReturnShape.startRequest, hdir]; rfl)
  unfold Running.net Running.lent Running.recovered recoveredBy partOf
  rw [horigin, hlegs]
  cases hmoved : leg.state.moved <;>
    simp [Leg.net, hleg, hdir, hmoved, ShapeLeg.transfer, Transfer.effect, AchTransaction.amountOf]

theorem recovery_receivable (h : x.Sound) (e : Nat) {owner sequence amount : Nat}
    (horigin : x.origin = .recovery owner sequence amount) :
    x.net (ofEntity e .receivable) = recoveredBy e x.recovered - partOf e x.lent := by
  obtain ⟨cleared, cash, hlegs, hcleared, hcash⟩ := h.two (by rw [horigin]; rfl)
  unfold Running.net Running.lent Running.recovered recoveredBy partOf
  rw [horigin, hlegs]
  cases hmoved : cash.state.moved <;>
    simp [Leg.net, hcleared, hcash, hmoved, Transfer.effect, Recovered.amountOf]

/-- What a Transaction leaves on the receivable account. -/
theorem Running.Sound.net_receivable (h : x.Sound) (e : Nat) :
    x.net (ofEntity e .receivable) = recoveredBy e x.recovered - partOf e x.lent := by
  by_cases howes : x.origin.Owes
  · rcases howes with ⟨owner, sequence, amount, horigin⟩ | ⟨ach, horigin, hdir⟩
    · exact recovery_receivable h e horigin
    · exact debtReturn_receivable h e horigin hdir
  · have hrecovered : x.recovered = none := by
      unfold Running.recovered
      split
      · rename_i owner sequence amount _ cash horigin _
        exact (howes (.inl ⟨owner, sequence, amount, horigin⟩)).elim
      · rfl
    have hlent : x.lent = none := by
      unfold Running.lent
      split
      · rename_i ach leg horigin _
        exact if_neg fun hdir => howes (.inr ⟨ach, horigin, hdir.1⟩)
      · rfl
    rw [hrecovered, hlent]
    refine h.net_eq_zero fun t ht => ⟨fun heq => howes ?_, fun heq => howes ?_⟩
    · exact (transfer_types x.origin t ht).2.1 (.inl (by rw [heq]))
    · exact (transfer_types x.origin t ht).2.1 (.inr (by rw [heq]))

/-- What is on the receivable account. -/
theorem State.Sound.posted_receivable (h : b.Sound) (e : Nat) : b.posted (ofEntity e .receivable) =
      ((b.txns.filterMap Running.recovered).map (Recovered.amountOf e)).sum -
        (b.txns.map fun x => partOf e x.lent).sum := by
  rw [h.posted, ← sum_filterMap Running.recovered, ← sum_map_sub]
  exact congrArg List.sum (List.map_congr_left fun x hx => (h.txns x hx).net_receivable e)

/-- A Recovery whose cash is with the receivable account is not being rolled back. -/
theorem Running.Sound.live_of_recovered (h : x.Sound) {owner sequence amount : Nat}
    (horigin : x.origin = .recovery owner sequence amount) {cleared cash : Leg}
    (hlegs : x.legs = [cleared, cash]) (hmoved : cash.state.moved = true) :
    mayComplete (some x.state) = true := by
  have hactive : cash.state.active = true := by
    revert hmoved
    cases cash.state <;> decide
  obtain ⟨l, l', hlegs', hl, hl'⟩ := h.two (by rw [horigin]; rfl)
  obtain ⟨rfl, rfl⟩ : cleared = l ∧ cash = l' := by simpa [hlegs] using hlegs'
  have hwaits : x.WaitsFor cash cleared := by
    unfold Running.WaitsFor
    rw [horigin, hl, hl']
    simp [Origin.request, StartRequest.parents, RecoveryShape.startRequest]
  have hposted := h.edges cash (by simp [hlegs]) cleared (by simp [hlegs]) hwaits hactive
  -- neither leg has failed, and the cash leg is not idle
  have hs := h.settled
  unfold Running.Settled at hs
  cases hstate : x.state with
  | initialized | started | completed => rfl
  | rejected =>
    simp only [hstate] at hs
    rw [hs cash (by simp [hlegs])] at hmoved
    cases hmoved
  | rolledBack =>
    simp only [hstate] at hs
    have hundone := hs cash (by simp [hlegs])
    revert hundone hmoved
    cases cash.state <;> decide
  | rollbackStarted | rollbackFailed =>
    simp only [hstate, hlegs] at hs
    obtain ⟨leg, hleg, hfailed⟩ := hs
    rcases List.mem_pair.mp hleg with rfl | rfl
    · cases hposted.symm.trans hfailed
    · rw [hfailed] at hmoved
      cases hmoved

/-! ### Debts Go has completed -/

/-- The debt return the Transaction completed. -/
def Running.debtReturned (x : Running) : Option AchTransaction :=
  match x.origin with
  | .lateReturn ach true =>
    if ach.direction = .deposit ∧ x.state = .completed then some ach else none
  | _ => none

/-- What an entity's completed debt returns come to. -/
def State.debt (b : State) (e : Nat) : Int :=
  ((b.txns.filterMap Running.debtReturned).map (AchTransaction.amountOf e)).sum

theorem partOf_nonneg (e : Nat) (ach : Option AchTransaction) : 0 ≤ partOf e ach := by
  cases ach with
  | none => exact Int.le_refl 0
  | some ach => exact ach.amountOf_nonneg e

theorem State.debt_eq (b : State) (e : Nat) :
    b.debt e = (b.txns.map fun x => partOf e x.debtReturned).sum :=
  (sum_filterMap Running.debtReturned (AchTransaction.amountOf e) b.txns).symm

/-- A completed debt return is charged. -/
theorem Running.Sound.lent_of_debtReturned (h : x.Sound) {ach : AchTransaction}
    (hd : x.debtReturned = some ach) : x.lent = some ach := by
  unfold Running.debtReturned at hd
  split at hd
  · rename_i entry horigin
    split at hd
    · rename_i hcompleted
      cases hd
      obtain ⟨leg, hlegs, -⟩ := h.one
        (by rw [horigin, Origin.request, LateReturnShape.startRequest, hcompleted.1]; rfl)
      have hposted := h.settled
      unfold Running.Settled at hposted
      rw [hcompleted.2] at hposted
      have hleg : leg.state = .posted := hposted leg (by simp [hlegs])
      unfold Running.lent
      rw [horigin, hlegs]
      simp [hcompleted.1, hleg, LegState.moved]
    · cases hd
  · cases hd

/-- What was charged covers what Go has completed. -/
theorem State.Sound.debt_le (h : b.Sound) (e : Nat) :
    b.debt e ≤ (b.txns.map fun x => partOf e x.lent).sum := by
  rw [b.debt_eq]
  apply List.sum_le_sum
  intro x hx
  cases hd : x.debtReturned with
  | none => exact partOf_nonneg e _
  | some ach =>
    rw [(h.txns x hx).lent_of_debtReturned hd]

/-- Debts only grow. -/
theorem Step.debt_le {b' : State} {m : Move} (hstep : Step b m b') (e : Nat) :
    b.debt e ≤ b'.debt e := by
  rw [b.debt_eq, b'.debt_eq]
  cases hstep with
  | add origin state hnew hm =>
    have hnone := partOf_nonneg e (Running.fresh origin state).debtReturned
    rw [List.map_append, List.sum_append]
    simp only [List.map_cons, List.map_nil, List.sum_cons, List.sum_nil]
    omega
  | become i x state hx hmay =>
    have hset := sum_map_set (fun y : Running => partOf e y.debtReturned)
      { x with state := state } hx
    have hbefore : partOf e x.debtReturned = 0 := by
      have hstate : x.state ≠ .completed := by
        intro hs
        cases state <;> simp [Running.May, hs] at hmay
      unfold Running.debtReturned
      split
      · rw [if_neg fun hd => hstate hd.2]
        rfl
      · rfl
    have hafter := partOf_nonneg e ({ x with state := state } : Running).debtReturned
    simp only at hset ⊢
    omega
  | leg i j x leg c hx hleg hc =>
    have hset := sum_map_set (fun y : Running => partOf e y.debtReturned)
      (x.setLeg j leg c.state) hx
    have hsame : (x.setLeg j leg c.state).debtReturned = x.debtReturned := rfl
    simp only [State.apply] at hset ⊢
    rw [hsame] at hset
    omega

end MoneyFlow.Books
