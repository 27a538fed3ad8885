import MoneyFlow.Books.Lifecycle
import MoneyFlow.Books.Sides

/-!
# MoneyFlow.Books.Movements

The money flow report: `ruby/app/services/money_flow.rb`, `money_flow/legs.rb`,
`money_flow/movement.rb` and `money_flow/party.rb`.

The report is rebuilt from the business rows. Nine queries over them are unioned, joined
to the projections for the Transactions that completed, and turned into Movements from
one party to another. Once the projections have caught up and nothing of a party is under
way, what the report says went in and out of the party is what is on its accounts.

A row that refers to another one holds it, as the joins on the foreign keys would give
it. Names and times, and the filters on them, do not change what is added up here.
-/

namespace MoneyFlow.Books

open Concurrent

/-! ### The rows -/

/-- A row of `ach_transactions`. Its Clearing and its late return have the ids derived from
it, so that the two columns say only whether they are recorded. -/
structure AchRow where
  entry : AchTransaction
  cleared : Bool
  returned : Bool
  deriving DecidableEq, Repr

/-- `return_transaction_id`. -/
def AchRow.returnTransactionID (row : AchRow) : Option Uuid :=
  if row.returned then some (.lateReturn row.entry.id) else none

/-- A Transaction's id and its Transfer's, as they are recorded before it is sent. -/
structure SentIDs where
  transactionID : Uuid
  transferID : Uuid
  deriving DecidableEq, Repr

/-- A row of `securities`. -/
structure SecurityRow where
  security : Security
  principal : Nat
  offering : Option SentIDs
  draw : Option SentIDs
  deriving DecidableEq, Repr

/-- A row of `subscriptions`. -/
structure SubscriptionRow where
  id : Uuid
  security : Security
  investorEntityID : Nat
  amount : Nat
  claimTransferID : Uuid
  moneyTransferID : Uuid
  deriving DecidableEq, Repr

/-- A row of `repayments`. -/
structure RepaymentRow where
  id : Uuid
  security : Security
  principal : Nat
  interest : Nat
  collectionTransferID : Uuid
  deriving DecidableEq, Repr

/-- A row of `disbursements`. -/
structure DisbursementRow where
  repayment : RepaymentRow
  investorEntityID : Nat
  principal : Nat
  interest : Nat
  deriving DecidableEq, Repr

/-- `id`, as `Disburse` derives it. -/
def DisbursementRow.id (row : DisbursementRow) : Uuid :=
  .disbursement row.repayment.id row.investorEntityID

/-- A row of `receivable_recoveries`. -/
structure ReceivableRecovery where
  entityID : Nat
  sequence : Nat
  amount : Nat
  deriving DecidableEq, Repr

/-- Ruby's tables, and what `transaction_projections` says of each Transaction. -/
structure Database where
  achTransactions : List AchRow
  securities : List SecurityRow
  subscriptions : List SubscriptionRow
  repayments : List RepaymentRow
  disbursements : List DisbursementRow
  recoveries : List ReceivableRecovery
  projected : Uuid → Option TransactionState

/-! ### Movements -/

/-- `Services::MoneyFlow::Movement::Kind`. -/
inductive MovementKind
  | deposit
  | withdrawal
  | depositReturn
  | withdrawalReturn
  | subscription
  | draw
  | repayment
  | disbursementPrincipal
  | disbursementInterest
  deriving DecidableEq, Repr

/-- `Kind#serialize`. -/
def MovementKind.serialize : MovementKind → String
  | .deposit => "deposit"
  | .withdrawal => "withdrawal"
  | .depositReturn => "deposit_return"
  | .withdrawalReturn => "withdrawal_return"
  | .subscription => "subscription"
  | .draw => "draw"
  | .repayment => "repayment"
  | .disbursementPrincipal => "disbursement_principal"
  | .disbursementInterest => "disbursement_interest"

/-- `Kind#into_entity?`. -/
def MovementKind.intoEntity (kind : MovementKind) : Bool :=
  [deposit, withdrawalReturn, draw, disbursementPrincipal, disbursementInterest].contains kind

/-- `Kind#across_bank_boundary?`. -/
def MovementKind.acrossBankBoundary (kind : MovementKind) : Bool :=
  [deposit, withdrawal, depositReturn, withdrawalReturn].contains kind

/-- `Services::MoneyFlow::Party#id`, with `BANK`. -/
inductive PartyID
  | bank
  | of (party : Party)
  deriving DecidableEq, Repr

/-- The columns every leg of the union has. -/
structure LegRow where
  kind : MovementKind
  entityID : Nat
  securityID : Option Uuid
  amount : Nat
  transactionID : Uuid
  deriving DecidableEq, Repr

/-- `Services::MoneyFlow::Movement`. -/
structure Movement where
  kind : MovementKind
  source : PartyID
  target : PartyID
  amount : Nat
  transactionID : Uuid
  deriving DecidableEq, Repr

namespace Database

variable (db : Database)

/-! ### `MoneyFlow::Legs` -/

/-- `ach`. -/
def ach (kind : MovementKind) : List LegRow :=
  (db.achTransactions.filter fun row => row.entry.direction.serialize == kind.serialize).map
    fun row => ⟨kind, row.entry.entityID, none, row.entry.amount, row.entry.id⟩

/-- `late_return`. -/
def lateReturn (kind direction : MovementKind) : List LegRow :=
  (db.achTransactions.filter fun row =>
    row.entry.direction.serialize == direction.serialize).filterMap fun row =>
      row.returnTransactionID.map fun id => ⟨kind, row.entry.entityID, none, row.entry.amount, id⟩

/-- `subscriptions`. -/
def subscriptionLegs : List LegRow :=
  db.subscriptions.map fun row =>
    ⟨.subscription, row.investorEntityID, some row.security.id, row.amount, row.id⟩

/-- `draws`. -/
def draws : List LegRow :=
  db.securities.filterMap fun row => row.draw.map fun ids =>
    ⟨.draw, row.security.borrowerEntityID, some row.security.id, row.principal, ids.transactionID⟩

/-- `repayments`. -/
def repaymentLegs : List LegRow :=
  db.repayments.map fun row => ⟨.repayment, row.security.borrowerEntityID, some row.security.id,
    row.principal + row.interest, row.id⟩

/-- `disbursements`. -/
def disbursementLegs (kind : MovementKind) (part : DisbursementRow → Nat) : List LegRow :=
  (db.disbursements.filter fun row => part row != 0).map fun row =>
    ⟨kind, row.investorEntityID, some row.repayment.security.id, part row, row.id⟩

/-- `union`. -/
def union : List LegRow :=
  db.ach .deposit ++ db.ach .withdrawal ++ db.lateReturn .depositReturn .deposit ++
    db.lateReturn .withdrawalReturn .withdrawal ++ db.subscriptionLegs ++ db.draws ++
    db.repaymentLegs ++ db.disbursementLegs .disbursementPrincipal (·.principal) ++
    db.disbursementLegs .disbursementInterest (·.interest)

end Database

/-! ### `MoneyFlow.of` -/

/-- `completed`: the rows whose Transaction's projection is `Completed`. -/
def Database.completed (db : Database) : List LegRow :=
  db.union.filter fun row => db.projected row.transactionID == some .completed

/-- `counterparty_of`. A Security's row without its id would raise. -/
def LegRow.counterparty (row : LegRow) : Option PartyID :=
  if row.kind.acrossBankBoundary then some .bank
  else row.securityID.map fun id => .of (.security id)

/-- `movement_from`. -/
def LegRow.movement (row : LegRow) : Option Movement :=
  row.counterparty.map fun other =>
    let entity := PartyID.of (.entity row.entityID)
    if row.kind.intoEntity then ⟨row.kind, other, entity, row.amount, row.transactionID⟩
    else ⟨row.kind, entity, other, row.amount, row.transactionID⟩

/-- `MoneyFlow.of`, of every entity and of all time. -/
def Database.movements (db : Database) : Option (List Movement) :=
  db.completed.mapM LegRow.movement

/-- What the Movements bring into a party. -/
def into (party : Party) (ms : List Movement) : Int :=
  (ms.map fun m => if m.target = .of party then (m.amount : Int) else 0).sum

/-- What they take out of it. -/
def outOf (party : Party) (ms : List Movement) : Int :=
  (ms.map fun m => if m.source = .of party then (m.amount : Int) else 0).sum

/-! ### What the rows were sent as -/

/-- A late return's row does not say which form the late return took. -/
def AchRow.origins (row : AchRow) : List Origin :=
  .ach row.entry :: ((if row.cleared then [.clearing row.entry] else []) ++
    if row.returned then [.lateReturn row.entry false] else [])

def SecurityRow.origins (row : SecurityRow) : List Origin :=
  (row.offering.toList.map fun ids =>
    .offering row.security ids.transactionID ids.transferID row.principal) ++
  row.draw.toList.map fun ids =>
    .draw row.security ids.transactionID ids.transferID row.principal

def SubscriptionRow.origin (row : SubscriptionRow) : Origin :=
  .purchase row.security row.investorEntityID row.id row.claimTransferID row.moneyTransferID
    row.amount

def RepaymentRow.origin (row : RepaymentRow) : Origin :=
  .repayment row.security row.id row.collectionTransferID (row.principal + row.interest)

def DisbursementRow.origin (row : DisbursementRow) : Origin :=
  .disbursement row.repayment.security row.repayment.id row.investorEntityID row.principal
    row.interest

def ReceivableRecovery.origin (row : ReceivableRecovery) : Origin :=
  .recovery row.entityID row.sequence row.amount

/-- Every Transaction the rows say Ruby asked for. -/
def Database.origins (db : Database) : List Origin :=
  db.achTransactions.flatMap AchRow.origins ++ db.securities.flatMap SecurityRow.origins ++
    db.subscriptions.map SubscriptionRow.origin ++ db.repayments.map RepaymentRow.origin ++
    db.disbursements.map DisbursementRow.origin ++ db.recoveries.map ReceivableRecovery.origin

/-- The Transaction, as far as its row says it. -/
def Origin.row : Origin → Origin
  | .lateReturn entry _ => .lateReturn entry false
  | o => o

/-- The rows of the union a Transaction gives. A Clearing, a Recovery and an offering
move no money that the report counts. -/
def Origin.legRows : Origin → List LegRow
  | .ach entry =>
    match entry.direction with
    | .deposit => [⟨.deposit, entry.entityID, none, entry.amount, entry.id⟩]
    | .withdrawal => [⟨.withdrawal, entry.entityID, none, entry.amount, entry.id⟩]
  | .lateReturn entry _ =>
    match entry.direction with
    | .deposit => [⟨.depositReturn, entry.entityID, none, entry.amount, .lateReturn entry.id⟩]
    | .withdrawal => [⟨.withdrawalReturn, entry.entityID, none, entry.amount, .lateReturn entry.id⟩]
  | .purchase security investor id _ _ amount =>
    [⟨.subscription, investor, some security.id, amount, id⟩]
  | .draw security id _ amount =>
    [⟨.draw, security.borrowerEntityID, some security.id, amount, id⟩]
  | .repayment security id _ amount =>
    [⟨.repayment, security.borrowerEntityID, some security.id, amount, id⟩]
  | .disbursement security repaymentID investor principal interest =>
    (if principal ≠ 0 then [⟨.disbursementPrincipal, investor, some security.id, principal,
      .disbursement repaymentID investor⟩] else []) ++
    if interest ≠ 0 then [⟨.disbursementInterest, investor, some security.id, interest,
      .disbursement repaymentID investor⟩] else []
  | .clearing _ | .recovery .. | .offering .. => []

theorem Origin.row_id (o : Origin) : o.row.request.id = o.request.id := by
  cases o <;> rfl

theorem Origin.row_legRows (o : Origin) : o.row.legRows = o.legRows := by
  cases o <;> rfl

/-- The rows of a Transaction carry its id. -/
theorem Origin.transactionID_of_mem {o : Origin} {row : LegRow} (h : row ∈ o.legRows) :
    row.transactionID = o.request.id := by
  cases o with
  | ach entry | lateReturn entry recorded =>
    simp only [legRows] at h
    split at h <;> obtain rfl := List.mem_singleton.mp h <;> rfl
  | clearing | recovery | offering => cases h
  | purchase | draw | repayment =>
    obtain rfl := List.mem_singleton.mp h
    rfl
  | disbursement security repaymentID investor principal interest =>
    rcases List.mem_append.mp h with h | h
    all_goals
      split at h
      · obtain rfl := List.mem_singleton.mp h
        rfl
      · cases h

/-! ### The union, by Transaction -/

section Union

variable {α : Type}

/-- The nine queries give the rows of the Transactions Ruby asked for. -/
theorem Database.sum_union (db : Database) (g : LegRow → Int) :
    (db.union.map g).sum = (db.origins.map fun o => (o.legRows.map g).sum).sum := by
  have hach : ((db.ach .deposit).map g).sum + ((db.ach .withdrawal).map g).sum +
      ((db.lateReturn .depositReturn .deposit).map g).sum +
      ((db.lateReturn .withdrawalReturn .withdrawal).map g).sum =
      ((db.achTransactions.flatMap AchRow.origins).map fun o => (o.legRows.map g).sum).sum := by
    simp only [ach, lateReturn, List.map_map, ← sum_filterMap, sum_map_filter, sum_map_flatMap,
      ← List.sum_map_add]
    refine congrArg List.sum (List.map_congr_left fun row _ => ?_)
    obtain ⟨⟨id, owner, direction, amount, real, shadow⟩, cleared, returned⟩ := row
    cases direction <;> cases cleared <;> cases returned <;>
      simp [AchRow.origins, AchRow.returnTransactionID, Origin.legRows, AchDirection.serialize,
        MovementKind.serialize]
  have hdraws : (db.draws.map g).sum =
      ((db.securities.flatMap SecurityRow.origins).map fun o => (o.legRows.map g).sum).sum := by
    simp only [draws, ← sum_filterMap, sum_map_flatMap]
    refine congrArg List.sum (List.map_congr_left fun row _ => ?_)
    obtain ⟨security, principal, offering, draw⟩ := row
    cases offering <;> cases draw <;> simp [SecurityRow.origins, Origin.legRows]
  have hdisbursements : ((db.disbursementLegs .disbursementPrincipal (·.principal)).map g).sum +
      ((db.disbursementLegs .disbursementInterest (·.interest)).map g).sum =
      ((db.disbursements.map DisbursementRow.origin).map fun o => (o.legRows.map g).sum).sum := by
    simp only [disbursementLegs, List.map_map, sum_map_filter, ← List.sum_map_add]
    refine congrArg List.sum (List.map_congr_left fun row _ => ?_)
    by_cases hp : row.principal = 0 <;> by_cases hi : row.interest = 0 <;>
      simp [DisbursementRow.origin, DisbursementRow.id, Origin.legRows, hp, hi]
  have hrecoveries : ((db.recoveries.map ReceivableRecovery.origin).map fun o =>
      (o.legRows.map g).sum).sum = 0 := by
    simp [ReceivableRecovery.origin, Origin.legRows, Function.comp_def]
  simp only [union, origins, List.map_append, List.sum_append, ← hach, ← hdraws,
    ← hdisbursements, hrecoveries]
  simp only [subscriptionLegs, repaymentLegs, SubscriptionRow.origin, RepaymentRow.origin,
    Origin.legRows, List.map_map, Function.comp_def, List.map_cons, List.map_nil, List.sum_cons,
    List.sum_nil, Int.add_zero]
  omega

end Union

/-! ### The report against the books -/

/-- What the Movement brings a party. -/
def Movement.net (m : Movement) (party : Party) : Int :=
  (if m.target = .of party then (m.amount : Int) else 0) -
    if m.source = .of party then (m.amount : Int) else 0

/-- What the row's Movement brings a party. -/
def LegRow.net (row : LegRow) (party : Party) : Int := (row.movement.map (·.net party)).getD 0

/-- The accounts of a party that the report accounts for. -/
def heldWeights : Party → Weights
  | .entity _ => [(1, .cash), (1, .receivable)]
  | .security _ => [(1, .securityCash)]

/-- A party's part in what another one has. -/
def part (p q : Party) : Int := if q = p then 1 else 0

theorem coefficient_held_entity (p : Party) (e : Nat) (type : AccountType) :
    coefficient (side p (heldWeights p)) (ofEntity e type) =
      if type = .cash ∨ type = .receivable then part p (.entity e) else 0 := by
  rw [coefficient_side, part]
  split
  · rename_i hp
    subst hp
    cases type <;> simp [heldWeights, weight]
  · simp

theorem coefficient_held_security (p : Party) (s : Uuid) (type : AccountType) :
    coefficient (side p (heldWeights p)) (ofSecurity s type) =
      if type = .securityCash then part p (.security s) else 0 := by
  rw [coefficient_side, part]
  split
  · rename_i hp
    subst hp
    cases type <;> simp [heldWeights, weight]
  · simp

section Rows

variable {kind : MovementKind} (e amount : Nat) (s id : Uuid) (p : Party)

/-- A row across the bank boundary brings or costs its entity the amount. -/
theorem LegRow.net_bank (h : kind.acrossBankBoundary = true) :
    (⟨kind, e, none, amount, id⟩ : LegRow).net p =
      (if kind.intoEntity then (amount : Int) else -amount) * part p (.entity e) := by
  simp only [net, movement, counterparty, h, if_true, Option.map_some, Option.getD_some, part]
  cases kind.intoEntity <;> by_cases hp : Party.entity e = p <;> simp [Movement.net, hp]

/-- Any other row moves the amount between its entity and its Security. -/
theorem LegRow.net_security (h : kind.acrossBankBoundary = false) :
    (⟨kind, e, some s, amount, id⟩ : LegRow).net p =
      (if kind.intoEntity then (amount : Int) else -amount) *
        (part p (.entity e) - part p (.security s)) := by
  simp only [net, movement, counterparty, h, Option.map_some, part]
  cases kind.intoEntity <;> by_cases hp : Party.entity e = p <;>
    by_cases hs : Party.security s = p <;> simp [Movement.net, hp, hs]

end Rows

/-- Every shape leaves with a party what its Movements bring the party. -/
theorem total_held (o : Origin) (p : Party) :
    o.request.total (side p (heldWeights p)) = (o.legRows.map (·.net p)).sum := by
  unfold StartRequest.total
  cases o with
  | ach entry =>
    obtain ⟨id, owner, direction, amount, real, shadow⟩ := entry
    cases direction
    all_goals
      simp [Origin.request, TransactionShape.startRequest, TransactionShape.realLeg,
        TransactionShape.shadowLeg, ShapeLeg.transfer, Transfer.pull, coefficient_held_entity,
        Origin.legRows, LegRow.net_bank, MovementKind.intoEntity, MovementKind.acrossBankBoundary]
  | clearing entry =>
    simp [Origin.request, ClearingShape.startRequest, Transfer.pull, coefficient_held_entity,
      Origin.legRows]
  | lateReturn entry recorded =>
    obtain ⟨id, owner, direction, amount, real, shadow⟩ := entry
    cases direction <;> cases recorded
    all_goals
      simp [Origin.request, LateReturnShape.startRequest, LateReturnShape.formFor,
        LateReturnShape.legs, ShapeLeg.transfer, Transfer.pull, coefficient_held_entity,
        Origin.legRows, LegRow.net_bank, MovementKind.intoEntity, MovementKind.acrossBankBoundary]
  | recovery entityID sequence amount =>
    simp [Origin.request, RecoveryShape.startRequest, Transfer.pull, coefficient_held_entity,
      Origin.legRows]
  | offering security id transfer amount =>
    simp [Origin.request, OfferingShape.startRequest, Transfer.pull, coefficient_held_entity,
      coefficient_held_security, Origin.legRows]
  | purchase security investor id claim transfer amount =>
    simp [Origin.request, PurchaseShape.startRequest, money, moneyOfEntity, moneyOfSecurity,
      Transfer.pull, coefficient_held_entity, coefficient_held_security, Origin.legRows,
      LegRow.net_security, MovementKind.intoEntity, MovementKind.acrossBankBoundary, Int.mul_sub]
  | draw security id transfer amount =>
    simp [Origin.request, DrawShape.startRequest, money, moneyOfEntity, moneyOfSecurity,
      Transfer.pull, coefficient_held_entity, coefficient_held_security, Origin.legRows,
      LegRow.net_security, MovementKind.intoEntity, MovementKind.acrossBankBoundary]
  | repayment security id transfer amount =>
    simp [Origin.request, RepaymentShape.startRequest, money, moneyOfEntity, moneyOfSecurity,
      Transfer.pull, coefficient_held_entity, coefficient_held_security, Origin.legRows,
      LegRow.net_security, MovementKind.intoEntity, MovementKind.acrossBankBoundary, Int.mul_sub]
  | disbursement security repaymentID investor principal interest =>
    cases principal <;> cases interest
    all_goals
      simp [Origin.request, DisbursementShape.startRequest, money, moneyOfEntity, moneyOfSecurity,
        Transfer.pull, coefficient_held_entity, coefficient_held_security, Origin.legRows,
        LegRow.net_security, MovementKind.intoEntity, MovementKind.acrossBankBoundary, Int.add_mul]

/-- The database has the row of every Transaction, no id stands for two of them, and the
projections have caught up with Go. -/
structure Database.CaughtUp (db : Database) (b : State) : Prop where
  recorded : ∀ x ∈ b.txns, x.origin.row ∈ db.origins
  ids : (db.origins.map (·.request.id)).Nodup
  projected : ∀ id, db.projected id = b.stateOf id

variable {db : Database} {b : State}

/-- The rows sent as a Transaction that completed are the completed Transactions. -/
theorem Database.CaughtUp.perm (h : db.CaughtUp b) (hsound : b.Sound) :
    (db.origins.filter fun o => b.stateOf o.request.id == some .completed).Perm
      ((b.txns.filter fun x => x.state == .completed).map fun x => x.origin.row) := by
  have hids : (b.txns.map fun x => x.origin.row.request.id).Nodup := by
    simpa only [Origin.row_id] using hsound.ids
  have hrows :
      ((b.txns.filter fun x => x.state == .completed).map fun x => x.origin.row).Nodup := by
    apply List.Nodup.of_map (fun o : Origin => o.request.id)
    rw [List.map_map]
    exact (List.filter_sublist.map _).nodup hids
  refine (List.perm_ext_iff_of_nodup ((List.Nodup.of_map _ h.ids).filter _) hrows).mpr fun o => ?_
  simp only [List.mem_filter, List.mem_map, beq_iff_eq]
  constructor
  · rintro ⟨ho, hstate⟩
    obtain ⟨x, hx, hid, hcompleted⟩ := State.exists_of_stateOf hstate
    refine ⟨x, ⟨hx, hcompleted⟩, ?_⟩
    exact List.inj_on_of_nodup_map h.ids (h.recorded x hx) ho (x.origin.row_id.trans hid)
  · rintro ⟨x, ⟨hx, hcompleted⟩, rfl⟩
    rw [Origin.row_id, hsound.stateOf_eq hx, hcompleted]
    exact ⟨h.recorded x hx, rfl⟩

/-- The report's rows are those of the completed Transactions. -/
theorem Database.CaughtUp.sum_completed (h : db.CaughtUp b) (hsound : b.Sound) (g : LegRow → Int) :
    (db.completed.map g).sum =
      (b.txns.map fun x =>
        if x.state = .completed then (x.origin.legRows.map g).sum else 0).sum := by
  have horigin : ∀ o : Origin, (o.legRows.map fun row =>
      if (db.projected row.transactionID == some .completed) = true then g row else 0).sum =
      if (b.stateOf o.request.id == some .completed) = true then (o.legRows.map g).sum else 0 := by
    intro o
    have hrows : ∀ row ∈ o.legRows, db.projected row.transactionID = b.stateOf o.request.id := by
      intro row hrow
      rw [h.projected, Origin.transactionID_of_mem hrow]
    split
    · rename_i hstate
      refine congrArg List.sum (List.map_congr_left fun row hrow => ?_)
      rw [hrows row hrow, if_pos hstate]
    · rename_i hstate
      apply List.sum_eq_zero
      intro n hn
      obtain ⟨row, hrow, rfl⟩ := List.mem_map.mp hn
      rw [hrows row hrow, if_neg hstate]
  rw [completed, sum_map_filter, sum_union]
  simp only [horigin]
  rw [← sum_map_filter, ((h.perm hsound).map _).sum_eq, List.map_map, sum_map_filter]
  simp only [Function.comp_apply, Origin.row_legRows, beq_iff_eq]

/-- Every row has its counterparty, so the report is made. -/
theorem Database.movements_eq (db : Database) :
    db.movements = some (db.completed.filterMap LegRow.movement) := by
  have hsome : ∀ row ∈ db.union, row.movement.isSome := by
    intro row hrow
    simp only [union, ach, lateReturn, subscriptionLegs, draws, repaymentLegs, disbursementLegs,
      List.mem_append, List.mem_map, List.mem_filterMap, Option.map_eq_some_iff] at hrow
    rcases hrow with (((((((⟨_, -, rfl⟩ | ⟨_, -, rfl⟩) | ⟨_, -, _, -, rfl⟩) | ⟨_, -, _, -, rfl⟩) |
      ⟨_, -, rfl⟩) | ⟨_, -, _, -, rfl⟩) | ⟨_, -, rfl⟩) | ⟨_, -, rfl⟩) | ⟨_, -, rfl⟩
    all_goals rfl
  have hmapM : ∀ rows : List LegRow, (∀ row ∈ rows, row.movement.isSome) →
      rows.mapM LegRow.movement = some (rows.filterMap LegRow.movement) := by
    intro rows
    induction rows with
    | nil => exact fun _ => rfl
    | cons row rows ih =>
      intro hrows
      obtain ⟨m, hm⟩ := Option.isSome_iff_exists.mp (hrows row (by simp))
      rw [List.mapM_cons, ih fun r hr => hrows r (by simp [hr]), List.filterMap_cons, hm]
      rfl
  exact hmapM _ fun row hrow => hsome row (List.mem_of_mem_filter hrow)

theorem into_sub_outOf (party : Party) (ms : List Movement) :
    into party ms - outOf party ms = (ms.map (·.net party)).sum :=
  (sum_map_sub _ _ ms).symm

/-- At rest, what the report brings a party is on the accounts it accounts for. -/
theorem Database.CaughtUp.held (h : db.CaughtUp b) (hsound : b.Sound) {p : Party}
    (hrest : b.AtRest p) {ms : List Movement} (hms : db.movements = some ms) :
    into p ms - outOf p ms = weigh (side p (heldWeights p)) b.posted := by
  obtain rfl := Option.some.inj (db.movements_eq.symm.trans hms)
  rw [into_sub_outOf, ← sum_filterMap, hsound.weigh_completed hrest]
  simp only [total_held]
  exact h.sum_completed hsound (·.net p)

/-- Reported money flow reconciles with the books. -/
theorem movements_reconcile {b : State} (h : run.Reachable b) {db : Database}
    (hdb : db.CaughtUp b) : ∃ ms, db.movements = some ms ∧
      (∀ e : Nat, b.AtRest (.entity e) → into (.entity e) ms - outOf (.entity e) ms =
        b.posted (ofEntity e .cash) + b.posted (ofEntity e .receivable)) ∧
      ∀ s : Uuid, b.AtRest (.security s) → into (.security s) ms - outOf (.security s) ms =
        b.posted (ofSecurity s .securityCash) := by
  have hsound := reachable_sound h
  refine ⟨_, db.movements_eq, ?_, ?_⟩
  · intro e hrest
    rw [hdb.held hsound hrest db.movements_eq]
    simp [weigh, side, heldWeights]
  · intro s hrest
    rw [hdb.held hsound hrest db.movements_eq]
    simp [weigh, side, heldWeights]

/-- The deposit clears and is returned late. -/
def returnedMoves : List Move :=
  depositMoves ++
    [.accept (.clearing deposited), .start 1, .leg 1 0 .dispatch, .leg 1 0 .post, .complete 1,
      .accept (.lateReturn deposited true), .start 2, .leg 2 0 .dispatch, .leg 2 0 .post,
      .complete 2]

/-- The deposit's row, with the projections at `b`. -/
def returnedRows (b : State) : Database where
  achTransactions := [⟨deposited, true, true⟩]
  securities := []
  subscriptions := []
  repayments := []
  disbursements := []
  recoveries := []
  projected := b.stateOf

/-- The cash is still there, and a debt of as much. -/
theorem returned_reconciles : ∃ b, run.Reachable b ∧ b.posted (ofEntity 1 .cash) = 100 ∧
    b.posted (ofEntity 1 .receivable) = -100 ∧
    ∃ ms, (returnedRows b).movements = some ms ∧ into (.entity 1) ms - outOf (.entity 1) ms =
      b.posted (ofEntity 1 .cash) + b.posted (ofEntity 1 .receivable) := by
  obtain ⟨b, hb, hrest, hrows, hcash, hdebt⟩ := Machine.exists_of_play run (fun _ _ => True)
    (fun b => b.AtRest (.entity 1) ∧
      (∀ x ∈ b.txns, x.origin.row ∈
        [Origin.ach deposited, .clearing deposited, .lateReturn deposited false]) ∧
      b.posted (ofEntity 1 .cash) = 100 ∧ b.posted (ofEntity 1 .receivable) = -100)
    returnedMoves (by decide +kernel)
  have hids : [deposited.id, .clearing deposited.id, .lateReturn deposited.id].Nodup := by decide
  have hcaught : (returnedRows b).CaughtUp b := ⟨hrows, hids, fun _ => rfl⟩
  obtain ⟨ms, hms, hentity, -⟩ := movements_reconcile hb hcaught
  exact ⟨b, hb, hcash, hdebt, ms, hms, hentity 1 hrest⟩

end MoneyFlow.Books
