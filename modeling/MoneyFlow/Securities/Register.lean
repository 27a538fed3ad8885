import MoneyFlow.Books.Lifecycle
import MoneyFlow.Securities.Allocation

/-!
# MoneyFlow.Securities.Register

The rows Ruby keeps of one Security, with what Go did and what the read model shows of
it, and the queries over them: `ruby/app/services/securities/positions.rb`, `due` of
`disburse_due.rb` and `claimed_principal` of `record_repayment.rb`.

Every query here is one statement, so it sees one committed state of the rows and the
projections together.
-/

namespace MoneyFlow.Securities

open Books (Uuid TransactionState StartRequest Upto mayComplete)

/-- What of a `Models::Subscription` the services read. -/
structure Subscription where
  id : Uuid
  investorEntityID : Nat
  amount : Int
  deriving DecidableEq, Repr

/-- What of a `Models::Disbursement` the services read. -/
structure Disbursement where
  repaymentID : Uuid
  investorEntityID : Nat
  principal : Int
  interest : Int
  deriving DecidableEq, Repr

/-- `Disburse.transaction_id`, which is the row's id too. -/
def Disbursement.id (row : Disbursement) : Uuid :=
  .disbursement row.repaymentID row.investorEntityID

/-- `share_from`. -/
def Disbursement.share (row : Disbursement) : Share :=
  ⟨row.investorEntityID, row.principal, row.interest⟩

/-- `attributes`, of a share. -/
def Share.row (share : Share) (repayment : Repayment) : Disbursement :=
  ⟨repayment.id, share.investorEntityID, share.principal, share.interest⟩

/-- The rows of a Security, in the order they were created; how far Go is with each
Transaction and how far the read model shows it; and what was asked of Go. -/
structure Register where
  subscriptions : List Subscription := []
  repayments : List Repayment := []
  disbursements : List Disbursement := []
  drawTransactionID : Option Uuid := none
  go : Uuid → Option TransactionState := fun _ => none
  projected : Uuid → Option TransactionState := fun _ => none
  sent : List StartRequest := []

/-! ### Positions -/

/-- Subscriptions that completed, by what shows it. -/
def complete (shown : Uuid → Option TransactionState) (subscriptions : List Subscription) :
    List Subscription :=
  subscriptions.filter fun row => shown row.id = some .completed

/-- What an Investor bought. -/
def boughtBy (shown : Uuid → Option TransactionState) (subscriptions : List Subscription)
    (investorEntityID : Nat) : Int :=
  (((complete shown subscriptions).filter fun row =>
    row.investorEntityID = investorEntityID).map (·.amount)).sum

/-- What all Investors bought. -/
def sold (shown : Uuid → Option TransactionState) (subscriptions : List Subscription) : Int :=
  ((complete shown subscriptions).map (·.amount)).sum

namespace Register

/-- The read model has seen the Transaction complete. -/
def seen (s : Register) (id : Uuid) : Bool := s.projected id = some .completed

/-- `bought`: by Investor, ordered by entity id. -/
def bought (s : Register) : List (Nat × Int) :=
  ((((complete s.projected s.subscriptions).map (·.investorEntityID)).dedup).insertionSort
    (· ≤ ·)).map fun k => (k, boughtBy s.projected s.subscriptions k)

/-- The principal of an Investor's rows that meet a condition. -/
def disbursedWhere (s : Register) (p : Disbursement → Bool) (investorEntityID : Nat) : Int :=
  (((s.disbursements.filter p).filter fun row =>
    row.investorEntityID = investorEntityID).map (·.principal)).sum

/-- `principal_repaid`: by Investor, and nothing where there is no entry. -/
def principalRepaid (s : Register) : Nat → Int := s.disbursedWhere fun row => s.seen row.id

/-- The principal of all of an Investor's rows. -/
def disbursed (s : Register) : Nat → Int := s.disbursedWhere fun _ => true

/-- `holdings`. -/
def holdings (byInvestor : List (Nat × Int)) (settled : Nat → Int) : List Position :=
  byInvestor.map fun b => ⟨b.1, b.2, b.2 - settled b.1⟩

/-- `Positions.of`, where both reads see the same state. -/
def positions (s : Register) : List Position := holdings s.bought s.principalRepaid

/-- `Positions.subscribed`. -/
def subscribed (s : Register) : Int := (s.positions.map (·.principal)).sum

/-! ### Repayments -/

/-- `Stage::FAILED`. -/
def FAILED : List TransactionState := [.rejected, .rollbackStarted, .rolledBack, .rollbackFailed]

/-- The Repayment's principal is spoken for; one not yet projected counts. -/
def claims (s : Register) (repayment : Repayment) : Bool :=
  match s.projected repayment.id with
  | some state => state ∉ FAILED
  | none => true

/-- `claimed_principal`. -/
def claimedPrincipal (s : Register) : Int :=
  ((s.repayments.filter s.claims).map (·.principal)).sum

/-- `Schedule.drawn_on`, as far as whether there is a day. -/
def drawn (s : Register) : Bool :=
  match s.drawTransactionID with
  | some id => s.seen id
  | none => false

/-- The rows of a Repayment. -/
def rowsOf (s : Register) (repaymentID : Uuid) : List Disbursement :=
  s.disbursements.filter fun row => row.repaymentID = repaymentID

/-- `Models::Disbursement.where(repayment_id:).order(:investor_entity_id)`. -/
def recorded (s : Register) (repaymentID : Uuid) : List Disbursement :=
  (s.rowsOf repaymentID).insertionSort fun row row' =>
    row.investorEntityID ≤ row'.investorEntityID

/-- `due`: seen complete, and not split yet or with a share that is not seen. -/
def due (s : Register) (repaymentID : Option Uuid) : List Repayment :=
  s.repayments.filter fun repayment =>
    s.seen repayment.id &&
    ((s.rowsOf repayment.id).isEmpty ||
      (s.rowsOf repayment.id).any fun row => (s.projected row.id).isNone) &&
    repaymentID.all (· = repayment.id)

/-- A row by its id. -/
def find (s : Register) (id : Uuid) : Option Disbursement :=
  s.disbursements.find? fun row => row.id = id

/-- The principal of the Repayments Go completed or may still complete. -/
def owedPrincipal (s : Register) : Int :=
  ((s.repayments.filter fun r => mayComplete (s.go r.id)).map (·.principal)).sum

end Register

namespace Register

variable {s : Register}

/-! ### Positions, added up -/

theorem bought_keys_nodup (s : Register) : (s.bought.map (·.1)).Nodup := by
  have hperm := List.perm_insertionSort (· ≤ ·)
    ((complete s.projected s.subscriptions).map (·.investorEntityID)).dedup
  have hkey : ((fun b : Nat × Int => b.1) ∘
      fun k => (k, boughtBy s.projected s.subscriptions k)) = id := rfl
  rw [bought, List.map_map, hkey, List.map_id]
  exact hperm.nodup_iff.mpr (List.nodup_dedup _)

theorem investors_nodup (s : Register) (settled : Nat → Int) :
    ((holdings s.bought settled).map (·.investorEntityID)).Nodup := by
  unfold holdings
  rw [List.map_map]
  exact bought_keys_nodup s

/-- Everything sold is bought by someone. -/
theorem sum_bought (s : Register) :
    (s.bought.map (·.2)).sum = sold s.projected s.subscriptions := by
  unfold bought sold
  rw [List.map_map]
  have hperm := List.perm_insertionSort (· ≤ ·)
    ((complete s.projected s.subscriptions).map (·.investorEntityID)).dedup
  refine sum_by_key_of_mem (fun row : Subscription => row.amount) (·.investorEntityID)
    (hperm.nodup_iff.mpr (List.nodup_dedup _)) ?_
  intro row hrow
  exact hperm.symm.subset (List.mem_dedup.mpr (List.mem_map_of_mem hrow))

theorem subscribed_eq (s : Register) : s.subscribed = sold s.projected s.subscriptions := by
  rw [← sum_bought]
  unfold subscribed positions holdings
  rw [List.map_map]
  rfl

theorem mem_bought {b : Nat × Int} (h : b ∈ s.bought) :
    b.2 = boughtBy s.projected s.subscriptions b.1 := by
  obtain ⟨k, -, rfl⟩ := List.mem_map.mp h
  rfl

/-- What is outstanding is what was sold, less what the holders were repaid. -/
theorem outstanding_holdings (s : Register) (settled : Nat → Int) :
    Allocation.outstanding (holdings s.bought settled) =
      sold s.projected s.subscriptions - (s.bought.map fun b => settled b.1).sum := by
  rw [← sum_bought]
  unfold Allocation.outstanding holdings
  rw [List.map_map]
  have hsplit : (s.bought.map fun b => (b.2 - settled b.1) + settled b.1).sum = _ :=
    List.sum_map_add
  simp only [Int.sub_add_cancel] at hsplit
  rw [show (s.bought.map (·.2)).sum = _ from hsplit, Int.add_sub_cancel]
  rfl

/-! ### Repayments that may still complete -/

theorem claims_eq (s : Register) (repayment : Repayment) :
    s.claims repayment = mayComplete (s.projected repayment.id) := by
  unfold claims
  cases s.projected repayment.id with
  | none => rfl
  | some state => cases state <;> rfl

/-- What Go may still complete is claimed. -/
theorem owed_le_claimed (hshown : ∀ id, Upto (s.projected id) (s.go id))
    (hpos : ∀ r ∈ s.repayments, 0 ≤ r.principal) : s.owedPrincipal ≤ s.claimedPrincipal := by
  refine sum_filter_le hpos ?_
  intro r _ hgo
  rw [claims_eq]
  exact (hshown r.id).mayComplete hgo

end Register

end MoneyFlow.Securities
