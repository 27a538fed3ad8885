import MoneyFlow.Securities.Rows

/-!
# MoneyFlow.Securities.Repayments

How much principal the Repayments of a Security may collect.

`RecordRepayment` reads what is sold, then what is claimed, and then inserts its row. What
it read stays true if no other Repayment is inserted in between: what is sold only grows,
and the Repayments that may still complete only get fewer. Two calls that both read before
either inserts both find the same principal unclaimed (`both_claim_all`).
-/

namespace MoneyFlow.Securities

open Concurrent
open Books (Uuid TransactionState StartRequest Upto Security mayComplete)

variable {shown shown' : Uuid → Option TransactionState} {rows rows' : List Subscription}
  {p : Service}

/-! ### What is sold, over time -/

/-- What completed is no less, of any rows, when more is shown of more rows. -/
theorem sum_complete_le (p : Subscription → Bool) (hrows : rows.Sublist rows')
    (hshown : ∀ id, Upto (shown id) (shown' id)) (hpos : ∀ row ∈ rows', 0 < row.amount) :
    (((complete shown rows).filter p).map (·.amount)).sum ≤
      (((complete shown' rows').filter p).map (·.amount)).sum := by
  have hmore : (((complete shown rows).filter p).map (·.amount)).sum ≤
      (((complete shown' rows).filter p).map (·.amount)).sum := by
    unfold complete
    rw [List.filter_filter, List.filter_filter]
    refine sum_filter_le (fun row hrow => Int.le_of_lt (hpos row (hrows.subset hrow))) ?_
    intro row _ hrow
    simp only [Bool.and_eq_true, decide_eq_true_eq] at hrow ⊢
    have hup := hshown row.id
    rw [hrow.2] at hup
    exact ⟨hrow.1, hup.eq_of_concluded rfl⟩
  refine hmore.trans ((((hrows.filter _).filter p).map _).sum_le_sum ?_)
  intro n hn
  obtain ⟨row, hrow, rfl⟩ := List.mem_map.mp hn
  exact Int.le_of_lt (hpos row (List.mem_of_mem_filter (List.mem_of_mem_filter hrow)))

theorem sold_le (hrows : rows.Sublist rows') (hshown : ∀ id, Upto (shown id) (shown' id))
    (hpos : ∀ row ∈ rows', 0 < row.amount) : sold shown rows ≤ sold shown' rows' := by
  simpa [sold] using sum_complete_le (fun _ => true) hrows hshown hpos

theorem boughtBy_le (hrows : rows.Sublist rows') (hshown : ∀ id, Upto (shown id) (shown' id))
    (hpos : ∀ row ∈ rows', 0 < row.amount) (investor : Nat) :
    boughtBy shown rows investor ≤ boughtBy shown' rows' investor :=
  sum_complete_le _ hrows hshown hpos

section

variable {security : Security} {s t : Register} {e : Answer}

theorem Register.Later.sold_le (h : s.Later t) (ht : t.Kept security) :
    sold s.projected s.subscriptions ≤ sold t.projected t.subscriptions :=
  Securities.sold_le h.subscriptions h.projected ht.amounts

/-- What Go may still complete only gets less, without a new Repayment. -/
theorem Register.Later.owed_le (h : s.Later t) (hs : s.Kept security)
    (hr : t.repayments = s.repayments) : t.owedPrincipal ≤ s.owedPrincipal := by
  unfold Register.owedPrincipal
  rw [hr]
  refine sum_filter_le (fun r hr => (hs.parts r hr).1) ?_
  intro r _ hmay
  exact (h.go r.id).mayComplete hmay

/-! ### One insert at a time -/

/-- The service has read what is claimed, and has not inserted its row. -/
def Service.claiming : Service → Bool
  | .record (.validated _ _) => true
  | _ => false

/-- A Repayment is inserted only when no other call is between reading what is claimed and
inserting its own. -/
def InsertsAlone (run : Run) : RunMove → Prop
  | .step i _ => (run.procs[i]?.any Service.claiming) = true →
      ∀ q ∈ run.procs.eraseIdx i, q.claiming = false
  | _ => True

instance (run : Run) : ∀ m, Decidable (InsertsAlone run m)
  | .step _ _ => inferInstanceAs (Decidable (_ → _))
  | .spawn _ => inferInstanceAs (Decidable True)
  | .world _ => inferInstanceAs (Decidable True)

/-- What a call has read is still so. -/
def Recording.Within (s : Register) : Recording → Prop
  | .subscribed _ _ total => total ≤ sold s.projected s.subscriptions
  | .validated principal _ =>
    s.owedPrincipal + principal ≤ sold s.projected s.subscriptions
  | _ => True

def Service.Within (s : Register) : Service → Prop
  | .record call => call.Within s
  | .sweep _ => True

/-- No Repayment was inserted. -/
theorem Service.Within.later (hp : p.Within s) (h : s.Later t) (hs : s.Kept security)
    (ht : t.Kept security) (hr : t.repayments = s.repayments) : p.Within t := by
  have hsold := h.sold_le ht
  have howed := h.owed_le hs hr
  cases p with
  | sweep w => trivial
  | record call =>
    cases call with
    | subscribed principal interest total => exact le_trans (show total ≤ _ from hp) hsold
    | validated principal interest =>
      change s.owedPrincipal + principal ≤ _ at hp
      change t.owedPrincipal + principal ≤ _
      omega
    | _ => trivial

/-- Whoever is not about to insert knows nothing that an insert could break. -/
theorem Service.Within.insert (hp : p.Within s) (hclaiming : p.claiming = false) (r : Repayment) :
    p.Within { s with repayments := s.repayments ++ [r] } := by
  cases p with
  | sweep w => trivial
  | record call =>
    cases call with
    | validated principal interest => cases hclaiming
    | subscribed principal interest total => exact hp
    | _ => trivial

theorem owed_insert_le {r : Repayment} (hpos : 0 ≤ r.principal) :
    ({ s with repayments := s.repayments ++ [r] } : Register).owedPrincipal ≤
      s.owedPrincipal + r.principal := by
  unfold Register.owedPrincipal
  rw [List.filter_append, List.map_append, List.sum_append]
  by_cases hmay : mayComplete (s.go r.id) = true
  · simp [hmay]
  · simp [hmay, hpos]

/-- Every step but an insert leaves the Repayments. -/
theorem Phase.Steps.repayments {todo todo' : List Repayment} {phase phase' : Phase}
    (h : phase.Steps security s e todo t todo' phase') : t.repayments = s.repayments := by
  cases h with
  | start todo r share row rest =>
    rw [Register.send_eq]
  | _ => rfl

theorem Register.Happens.repayments (h : s.Happens t) : t.repayments = s.repayments := by
  cases h <;> rfl

/-- A step of a call, when nobody else is about to insert. -/
theorem Recording.Steps.within {call next : Recording} (hstep : call.Steps security s e t next)
    (hs : s.Kept security) (ht : t.Kept security) (hk : call.Knows)
    (hbound : s.owedPrincipal ≤ sold s.projected s.subscriptions) (hw : call.Within s) :
    t.owedPrincipal ≤ sold t.projected t.subscriptions ∧ next.Within t := by
  cases hstep with
  | raise call error | check principal interest hp hi hsome hdrawn => exact ⟨hbound, trivial⟩
  | read principal interest =>
    refine ⟨hbound, ?_⟩
    change s.subscribed ≤ _
    rw [Register.subscribed_eq]
  | validate principal interest total hle =>
    refine ⟨hbound, ?_⟩
    have htotal : total ≤ sold s.projected s.subscriptions := hw
    have hclaimed := Register.owed_le_claimed hs.shown fun r hr => (hs.parts r hr).1
    change s.owedPrincipal + principal ≤ _
    omega
  | insert principal interest hid hnew =>
    refine ⟨?_, trivial⟩
    have hroom : s.owedPrincipal + principal ≤ sold s.projected s.subscriptions := hw
    exact (owed_insert_le hk.1).trans hroom
  | send repayment next hnext =>
    have hlater := s.later_send (repayment.request security) e
    refine ⟨(hlater.owed_le hs ?_).trans (hbound.trans (hlater.sold_le ht)), ?_⟩
    · rw [Register.send_eq]
    · rcases hnext with rfl | rfl <;> trivial

/-- What everybody else has read is still so after a step. -/
theorem within_others {run : Run} {i : Nat} {p' : Service} (hcond : InsertsAlone run (.step i e))
    (hp : run.procs[i]? = some p) (hstep : (crew security).step run.shared p e = some (t, p'))
    (hs : run.shared.Kept security) (hlater : run.shared.Later t) (ht : t.Kept security) :
    ∀ q ∈ run.procs.eraseIdx i, q.Within run.shared → q.Within t := by
  intro q hq hwithin
  rcases step_cases hstep with ⟨call, next, rfl, rfl, hcall⟩ | ⟨w, w', rfl, rfl, hphase⟩
  · cases hcall with
    | insert principal interest hid hnew =>
      have hclaims : run.procs[i]?.any Service.claiming = true := by
        rw [hp]
        rfl
      exact hwithin.insert (hcond hclaims q hq) _
    | send repayment next hnext =>
      exact hwithin.later hlater hs ht (by rw [Register.send_eq])
    | _ => exact hwithin
  · exact hwithin.later hlater hs ht hphase.repayments

/-- The Repayments that may complete are within what the read model has seen sold. -/
theorem reaches_within {cond : Run → RunMove → Prop}
    (hcond : ∀ run m, cond run m → InsertsAlone run m)
    {run : Run} (h : (crew security).machine.Reaches cond run) :
    run.shared.owedPrincipal ≤ sold run.shared.projected run.shared.subscriptions := by
  have hinv := Crew.invariant_others (P := fun s =>
      s.owedPrincipal ≤ sold s.projected s.subscriptions) (Q := fun s p => p.Within s) h
    (Int.le_refl 0) ?_ ?_ ?_
  · exact hinv.1
  · intro s p _ _ hstart
    rcases start_cases hstart with ⟨principal, interest, rfl⟩ | ⟨repaymentID, rfl⟩ <;> trivial
  · intro s i e p t p' hreach hbound hQ hm hp hstep
    obtain ⟨hs, hknow⟩ := reaches_kept hreach
    have hknows := hknow p (List.mem_of_getElem? hp)
    have hwithin := hQ p (List.mem_of_getElem? hp)
    obtain ⟨hlater, hkept, -⟩ := step_kept hstep hs hknows
    have hothers := within_others (hcond _ _ hm) hp hstep hs hlater hkept
    have hself : t.owedPrincipal ≤ sold t.projected t.subscriptions ∧ p'.Within t := by
      rcases step_cases hstep with ⟨call, next, rfl, rfl, hcall⟩ | ⟨w, w', rfl, rfl, hphase⟩
      · exact hcall.within hs hkept hknows hbound hwithin
      · exact ⟨(hlater.owed_le hs hphase.repayments).trans (hbound.trans (hlater.sold_le hkept)),
          trivial⟩
    exact ⟨hself.1, hself.2, hothers⟩
  · intro s w t hreach hbound _ _ hworld
    have hs := (reaches_kept hreach).1
    have hhappens := world_cases hworld
    have hlater := hhappens.later
    have hkept := hhappens.kept hs
    refine ⟨?_, ?_⟩
    · exact (hlater.owed_le hs hhappens.repayments).trans (hbound.trans (hlater.sold_le hkept))
    · intro q _ hq
      exact hq.later hlater hs hkept hhappens.repayments

/-- A Security is not repaid more than was sold of it, where Repayments are inserted one
after another. -/
theorem repayments_within_sold (security : Security) {run : Run}
    (h : (crew security).machine.Reaches InsertsAlone run) :
    run.shared.owedPrincipal ≤ sold run.shared.go run.shared.subscriptions := by
  have hkept := (reaches_kept h).1
  exact (reaches_within (fun _ _ hm => hm) h).trans
    (sold_le (.refl _) hkept.shown hkept.amounts)

end

/-- A Security of 100, sold to one Investor and drawn. -/
def sellingOne : List RunMove :=
  [.world (.purchase ⟨.v7 1, 7, 100⟩), .world (.advance (.v7 1) .completed),
    .world (.project (.v7 1) .completed), .world (.draw (.v7 2)),
    .world (.advance (.v7 2) .completed), .world (.project (.v7 2) .completed)]

/-- The Security of the runs below. -/
def loan : Security := ⟨.v7 100, 5, 6⟩

theorem two_repayments_of_all : ∃ run, (crew loan).machine.Reaches InsertsAlone run ∧
    run.shared.owedPrincipal = 100 ∧
    run.shared.owedPrincipal ≤ sold run.shared.go run.shared.subscriptions := by
  obtain ⟨run, hrun, howed⟩ := Machine.exists_of_play (crew loan).machine InsertsAlone
    (·.shared.owedPrincipal = 100)
    (sellingOne ++ [.spawn (.record (.called 60 5)), .step 0 {}, .step 0 {}, .step 0 {},
      .step 0 { id := .v7 3, transferID := .v7 13 }, .spawn (.record (.called 40 5)), .step 1 {},
      .step 1 {}, .step 1 {}, .step 1 { id := .v7 4, transferID := .v7 14 }]) (by decide +kernel)
  exact ⟨run, hrun, howed, repayments_within_sold loan hrun⟩

/-- Two calls read what is claimed before either inserts its row. Go completes both
Repayments, and the Borrower has paid 200 for 100. -/
theorem both_claim_all : ∃ run, (crew loan).machine.Reachable run ∧
    sold run.shared.go run.shared.subscriptions = 100 ∧
    (∀ r ∈ run.shared.repayments, run.shared.go r.id = some .completed) ∧
    (run.shared.repayments.map (·.principal)).sum = 200 ∧
    ¬ run.shared.owedPrincipal ≤ sold run.shared.go run.shared.subscriptions :=
  Machine.exists_of_play (crew loan).machine (fun _ _ => True) _
    (sellingOne ++ [.spawn (.record (.called 100 0)), .spawn (.record (.called 100 0)),
      .step 0 {}, .step 0 {}, .step 0 {}, .step 1 {}, .step 1 {}, .step 1 {},
      .step 0 { id := .v7 3, transferID := .v7 13 }, .step 1 { id := .v7 4, transferID := .v7 14 },
      .step 0 {}, .step 1 {},
      .world (.advance (.v7 3) .completed), .world (.advance (.v7 4) .completed)])
    (by decide +kernel)

end MoneyFlow.Securities
