import MoneyFlow.Securities.Holdings

/-!
# MoneyFlow.Securities.Payout

When a Repayment that was collected can be paid out.

Its principal is never more than what is outstanding: the Repayments that are split and
this one were claimed out of what was sold (`principal_le_outstanding`). So the allocation
fails in two cases only: where a holder was repaid more than they bought, and where the
Repayment is of interest alone and nothing is outstanding (`interest_after_all`).
-/

namespace MoneyFlow.Securities

open Concurrent
open Books (Uuid TransactionState StartRequest Upto Security mayComplete)

/-- Repayments are inserted one after another, and a split is committed alone. -/
def OneAtATime (run : Run) (m : RunMove) : Prop := InsertsAlone run m ∧ SplitsAlone run m

instance (run : Run) (m : RunMove) : Decidable (OneAtATime run m) :=
  inferInstanceAs (Decidable (_ ∧ _))

section

variable {security : Security} {s t : Register} {e : Answer}

/-! ### What was read as repaid -/

/-- What a sweep read as repaid is among the rows. -/
def Phase.Reads (s : Register) : Phase → Prop
  | .settled _ repaid => ∀ k, repaid k ≤ s.disbursed k
  | _ => True

def Service.Reads (s : Register) : Service → Prop
  | .record _ => True
  | .sweep w => w.phase.Reads s

theorem Service.Reads.later {p : Service} (hp : p.Reads s) (h : s.Later t)
    (ht : t.Kept security) : p.Reads t := by
  cases p with
  | record call => trivial
  | sweep w =>
    obtain ⟨repaymentID, todo, disbursed, failed, phase⟩ := w
    cases phase with
    | settled r repaid => exact fun k => (hp k).trans (h.disbursed_le ht k)
    | _ => trivial

theorem Phase.Steps.reads {todo todo' : List Repayment} {phase phase' : Phase}
    (hstep : phase.Steps security s e todo t todo' phase') (hs : s.Kept security) :
    phase'.Reads t := by
  cases hstep with
  | settle todo r => exact hs.repaid_le
  | _ => trivial

theorem reaches_reads {cond : Run → RunMove → Prop} {run : Run}
    (h : (crew security).machine.Reaches cond run) : ∀ p ∈ run.procs, p.Reads run.shared := by
  refine (Crew.invariant_others (P := fun _ => True) (Q := fun s p => p.Reads s) h trivial
    ?_ ?_ ?_).2
  · intro s p _ _ hstart
    rcases start_cases hstart with ⟨principal, interest, rfl⟩ | ⟨repaymentID, rfl⟩ <;> trivial
  · intro s i e p t p' hreach _ _ _ hp hstep
    obtain ⟨hs, hknow⟩ := reaches_kept hreach
    obtain ⟨hlater, hkept, -⟩ := step_kept hstep hs (hknow p (List.mem_of_getElem? hp))
    refine ⟨trivial, ?_, fun q _ hq => hq.later hlater hkept⟩
    rcases step_cases hstep with ⟨call, next, rfl, rfl, hcall⟩ | ⟨w, w', rfl, rfl, hphase⟩
    · trivial
    · exact hphase.reads hs
  · intro s w t hreach _ _ _ hworld
    have hhappens := world_cases hworld
    have hkept := hhappens.kept (reaches_kept hreach).1
    exact ⟨trivial, fun q _ hq => hq.later hhappens.later hkept⟩

/-! ### What is left to pay out -/

/-- The Repayments that are split, and one that is collected and not split, may all
complete. -/
theorem split_add_le_owed (hs : s.Kept security) {r : Repayment} (hr : s.Collected r)
    (hrows : s.rowsOf r.id = []) : s.splitPrincipal + r.principal ≤ s.owedPrincipal := by
  have hmay : ∀ r', s.Collected r' → mayComplete (s.go r'.id) = true := by
    intro r' hr'
    have hdone : s.projected r'.id = some .completed := by simpa [Register.seen] using hr'.2
    have hup := hs.shown r'.id
    rw [hdone] at hup
    rw [hup.eq_of_concluded rfl]
    rfl
  have hsub : r :: s.repayments.filter (fun r => !(s.rowsOf r.id).isEmpty) ⊆
      s.repayments.filter fun r => mayComplete (s.go r.id) := by
    intro r' hr'
    rcases List.mem_cons.mp hr' with rfl | hr'
    · exact List.mem_filter.mpr ⟨hr.1, hmay r' hr⟩
    · obtain ⟨hmem, hsome⟩ := List.mem_filter.mp hr'
      obtain ⟨row, hrow⟩ := List.exists_mem_of_ne_nil _
        (show s.rowsOf r'.id ≠ [] by simpa using hsome)
      obtain ⟨hin, hid⟩ := Register.mem_rowsOf.mp hrow
      obtain ⟨r'', hr'', hid'⟩ := hs.owners row hin
      obtain rfl : r' = r'' :=
        List.inj_on_of_nodup_map hs.ids hmem hr''.1 (hid.symm.trans hid')
      exact List.mem_filter.mpr ⟨hmem, hmay r' hr''⟩
  have hnodup : (r :: s.repayments.filter fun r => !(s.rowsOf r.id).isEmpty).Nodup := by
    refine List.nodup_cons.mpr ⟨?_, hs.ids.of_map.filter _⟩
    intro hmem
    have hsome := (List.mem_filter.mp hmem).2
    simp [hrows] at hsome
  have hle := sum_le_of_subset (f := fun r : Repayment => r.principal)
    (fun r' hr' => (hs.parts r' (List.mem_of_mem_filter hr')).1) hnodup hsub
  rw [List.map_cons, List.sum_cons] at hle
  unfold Register.splitPrincipal Register.owedPrincipal
  omega

/-- A Repayment that is collected and not split is no more than what is outstanding. -/
theorem principal_le_outstanding (hs : s.Kept security)
    (hfull : ∀ r ∈ s.repayments, s.SplitInFull r)
    (hbound : s.owedPrincipal ≤ sold s.projected s.subscriptions) {r : Repayment}
    (hr : s.Collected r) (hrows : s.rowsOf r.id = []) {repaid : Nat → Int}
    (hrepaid : ∀ k, repaid k ≤ s.disbursed k) :
    r.principal ≤ Allocation.outstanding (Register.holdings s.bought repaid) := by
  rw [Register.outstanding_holdings]
  have hsum : (s.bought.map fun b => repaid b.1).sum ≤ s.splitPrincipal := by
    calc (s.bought.map fun b => repaid b.1).sum
        ≤ ((s.bought.map (·.1)).map s.disbursed).sum := by
          rw [List.map_map]
          exact List.sum_le_sum fun b _ => hrepaid b.1
      _ ≤ (s.disbursements.map (·.principal)).sum := by
          have hle := sum_by_key_le Disbursement.principal Disbursement.investorEntityID
            s.bought_keys_nodup hs.nonneg
          rw [List.map_congr_left fun k _ => disbursed_eq s k]
          exact hle
      _ = s.splitPrincipal := sum_disbursements hs hfull
  have howed := split_add_le_owed hs hr hrows
  omega

/-- Where Repayments are inserted and splits committed one at a time, a sweep that first
comes to a collected Repayment gets a split just when no holder was repaid more than they
bought, and there is principal to repay or some still outstanding. -/
theorem collected_can_be_paid (security : Security) {run : Run}
    (h : (crew security).machine.Reaches OneAtATime run) {w : Sweep}
    (hw : .sweep w ∈ run.procs) {r : Repayment} {repaid : Nat → Int}
    (hphase : w.phase = .settled r repaid) :
    (∃ shares, Allocation.forRepayment r
      (Register.holdings run.shared.bought repaid) = .ok shares) ↔
      (∀ b ∈ run.shared.bought, repaid b.1 ≤ b.2) ∧
        (0 < r.principal ∨ (run.shared.bought.map fun b => repaid b.1).sum <
          sold run.shared.projected run.shared.subscriptions) := by
  obtain ⟨hs, hknow⟩ := reaches_kept h
  obtain ⟨hfull, halone⟩ := reaches_split (fun _ _ hm => hm.2) h
  have hcollected : run.shared.Collected r := by
    have := (hknow _ hw).1
    rwa [hphase] at this
  have hrows : run.shared.rowsOf r.id = [] := by
    have : w.phase.Alone run.shared := halone _ hw
    rwa [hphase] at this
  have hrepaid : ∀ k, repaid k ≤ run.shared.disbursed k := by
    have : w.phase.Reads run.shared := reaches_reads h _ hw
    rwa [hphase] at this
  have hle := principal_le_outstanding hs hfull (reaches_within (fun _ _ hm => hm.1) h) hcollected
    hrows hrepaid
  obtain ⟨hprincipal, hinterest, hsome⟩ := hs.parts r hcollected.1
  rw [Allocation.forRepayment_isOk (run.shared.investors_nodup repaid) hprincipal hinterest hsome]
  rw [Register.outstanding_holdings] at hle ⊢
  have hheld : (∀ p ∈ Register.holdings run.shared.bought repaid, 0 ≤ p.outstanding) ↔
      ∀ b ∈ run.shared.bought, repaid b.1 ≤ b.2 := by
    unfold Register.holdings
    simp only [List.forall_mem_map, Int.sub_nonneg]
  rw [hheld]
  refine and_congr_right fun _ => ?_
  omega

end

/-- The Repayment a sweep allocates next, and what it read as repaid. -/
def Service.settledOn : Service → Option (Repayment × (Nat → Int))
  | .sweep { phase := .settled r repaid, .. } => some (r, repaid)
  | _ => none

theorem exists_settled {run : Run} {i : Nat} {f : Repayment × (Nat → Int) → Bool}
    (h : (run.procs[i]?.bind Service.settledOn).any f = true) :
    ∃ w r repaid, .sweep w ∈ run.procs ∧ w.phase = .settled r repaid ∧ f (r, repaid) = true := by
  cases hp : run.procs[i]? with
  | none =>
    rw [hp] at h
    cases h
  | some p =>
    rw [hp] at h
    cases p with
    | record call => cases h
    | sweep w =>
      obtain ⟨repaymentID, todo, disbursed, failed, phase⟩ := w
      cases phase with
      | settled r repaid => exact ⟨_, r, repaid, List.mem_of_getElem? hp, rfl, h⟩
      | _ => cases h

/-- Half of the principal is repaid, with interest. -/
theorem half_can_be_paid : ∃ run, (crew loan).machine.Reaches OneAtATime run ∧
    ∃ w r repaid, .sweep w ∈ run.procs ∧ w.phase = .settled r repaid ∧ r.interest = 5 ∧
      ∃ shares,
        Allocation.forRepayment r (Register.holdings run.shared.bought repaid) = .ok shares := by
  obtain ⟨run, hrun, hsettled⟩ := Machine.exists_of_play (crew loan).machine OneAtATime
    (fun run => (run.procs[1]?.bind Service.settledOn).any (fun x => decide (x.1.interest = 5 ∧
      0 < x.1.principal ∧ ∀ b ∈ run.shared.bought, x.2 b.1 ≤ b.2)) = true)
    (sellingTwo ++ collecting 0 11 1 5 ++ [.spawn (.sweep {})] ++ steps 1 3) (by decide +kernel)
  obtain ⟨w, r, repaid, hw, hphase, hx⟩ := exists_settled hsettled
  obtain ⟨hinterest, hprincipal, hheld⟩ := of_decide_eq_true hx
  exact ⟨run, hrun, w, r, repaid, hw, hphase, hinterest,
    (collected_can_be_paid loan hrun hw hphase).mpr ⟨hheld, .inl hprincipal⟩⟩

/-- All principal is repaid and seen repaid; then a Repayment of interest alone is accepted
and collected. There is nothing to split it by. -/
theorem interest_after_all : ∃ run, (crew loan).machine.Reaches OneAtATime run ∧
    ∃ w r repaid, .sweep w ∈ run.procs ∧ w.phase = .settled r repaid ∧
      r.principal = 0 ∧ r.interest = 5 ∧
      Allocation.forRepayment r (Register.holdings run.shared.bought repaid) =
        .error (.noProportion 5) := by
  obtain ⟨run, hrun, hsettled⟩ := Machine.exists_of_play (crew loan).machine OneAtATime
    (fun run => (run.procs[3]?.bind Service.settledOn).any (fun x => decide (x.1.principal = 0 ∧
      x.1.interest = 5 ∧ Allocation.forRepayment x.1 (Register.holdings run.shared.bought x.2) =
        .error (.noProportion 5))) = true)
    (sellingTwo ++ collecting 0 11 2 0 ++ [.spawn (.sweep {})] ++ steps 1 17 ++
      [.world (.advance (.disbursement (.v7 11) 1) .completed),
        .world (.advance (.disbursement (.v7 11) 2) .completed),
        .world (.project (.disbursement (.v7 11) 1) .completed),
        .world (.project (.disbursement (.v7 11) 2) .completed)] ++
      collecting 2 12 0 5 ++ [.spawn (.sweep {})] ++ steps 3 3) (by decide +kernel)
  obtain ⟨w, r, repaid, hw, hphase, hx⟩ := exists_settled hsettled
  obtain ⟨hprincipal, hinterest, herror⟩ := of_decide_eq_true hx
  exact ⟨run, hrun, w, r, repaid, hw, hphase, hprincipal, hinterest, herror⟩

end MoneyFlow.Securities
