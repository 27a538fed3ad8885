import MoneyFlow.Token

/-!
# MoneyFlow.Books.Shapes

The Transactions Ruby asks Go for: `ruby/app/services/ach/*_shape.rb` and
`ruby/app/services/securities/*_shape.rb`, with the accounts they move money between.

An account stands for the Wallet that backs it. A shape that finds no account of a type
it needs raises before anything is sent, so the accounts a request names are there.

Ids are symbolic, as in `MoneyFlow.Shared`: each seed `DetId.for` is called with is a
constructor of its own, and SHA-256 is taken to have no collisions.
-/

namespace MoneyFlow.Books

/-! ### Ids -/

/-- `Services::Ach::LateReturnShape::LEGS`: the roles its legs have. -/
inductive ReturnRole
  | cash
  | cleared
  | receivable
  deriving DecidableEq, Repr

/-- An id Ruby generates or derives. -/
inductive Uuid
  /-- `SecureRandom.uuid_v7`. -/
  | v7 (n : Nat)
  /-- `DetId.for("#{id}:cash")`. -/
  | cash (id : Uuid)
  /-- `DetId.for("#{ach.id}:clearing")`. -/
  | clearing (ach : Uuid)
  /-- `DetId.for("#{ach.id}:clearing:transfer")`. -/
  | clearingTransfer (ach : Uuid)
  /-- `DetId.for("#{ach.id}:return")`. -/
  | lateReturn (ach : Uuid)
  /-- `DetId.for("#{ach.id}:return:#{role}")`. -/
  | lateReturnLeg (ach : Uuid) (role : ReturnRole)
  /-- `DetId.for("#{entity_id}:recovery:#{sequence}")`. -/
  | recovery (entityID sequence : Nat)
  /-- `DetId.for("#{entity_id}:recovery:#{sequence}:cleared")`. -/
  | recoveryCleared (entityID sequence : Nat)
  /-- `DetId.for("#{entity_id}:recovery:#{sequence}:cash")`. -/
  | recoveryCash (entityID sequence : Nat)
  /-- `DetId.for("#{repayment_id}:disbursement:#{investor_entity_id}")`. -/
  | disbursement (repaymentID : Uuid) (investorEntityID : Nat)
  /-- `DetId.for("#{repayment_id}:disbursement:#{investor_entity_id}:payout")`. -/
  | payout (repaymentID : Uuid) (investorEntityID : Nat)
  /-- `DetId.for("#{repayment_id}:disbursement:#{investor_entity_id}:retirement")`. -/
  | retirement (repaymentID : Uuid) (investorEntityID : Nat)
  deriving DecidableEq, Repr

/-- The id was generated, and not derived from another one. -/
def Uuid.generated : Uuid → Bool
  | .v7 _ => true
  | _ => false

/-- No id is derived from itself. -/
theorem Uuid.cash_ne (id : Uuid) : Uuid.cash id ≠ id := by
  intro h
  have hsize := congrArg sizeOf h
  simp at hsize

/-! ### Accounts -/

/-- `Types::Enums::AccountType`. -/
inductive AccountType
  | bank
  | bankControl
  | debitCard
  | unclearedCash
  | clearedCash
  | cash
  | receivable
  | gain
  | loss
  | investment
  | issuerControl
  | securitySupply
  | securityEscrow
  | securityRepayment
  | securityCash
  deriving DecidableEq, Repr

/-- `Types::Enums::AccountType#allows`. -/
def AccountType.allows : AccountType → Allows
  | .bank | .bankControl | .issuerControl | .receivable => .onrampAndOfframp
  | .debitCard => .onramp
  | _ => .none

/-- Whether the Tokens of the account's Wallet carry `debits_must_not_exceed_credits`. -/
def AccountType.capped (type : AccountType) : Bool :=
  match Token.allowsToAccountFlags type.allows with
  | .ok flags => flags.debitsMustNotExceedCredits
  | .error _ => false

/-- What money moves between. -/
inductive Party
  | entity (id : Nat)
  | security (id : Uuid)
  deriving DecidableEq, Repr

/-- A party's account of one type. -/
structure Account where
  owner : Party
  type : AccountType
  deriving DecidableEq, Repr

/-- An entity's account. -/
abbrev ofEntity (id : Nat) (type : AccountType) : Account := ⟨.entity id, type⟩

/-- A Security's account. -/
abbrev ofSecurity (id : Uuid) (type : AccountType) : Account := ⟨.security id, type⟩

/-! ### Requests -/

/-- `Transaction::V1::Transfer`. -/
structure Transfer where
  id : Uuid
  amount : Nat
  source : Account
  dest : Account
  stage : Bool := false
  mintSource : Bool := false
  deriving DecidableEq, Repr

/-- `Transaction::V1::StartInitializingTransactionRequest`. -/
structure StartRequest where
  id : Uuid
  factoryName : String
  factoryVersion : String
  transfers : List Transfer
  transferDependency : List (Uuid × List Uuid)
  deriving DecidableEq, Repr

/-- The parents a request lists for one of its Transfers. -/
def StartRequest.parents (r : StartRequest) (id : Uuid) : List Uuid :=
  (r.transferDependency.lookup id).getD []

/-- `Services::Securities::Leg.chain`: each of `ids` waits for the one before it. -/
def chain (ids : List Uuid) : List (Uuid × List Uuid) :=
  (ids.drop 1).zip (ids.map fun id => [id])

/-! ### ACH -/

/-- `Types::Enums::AchDirection`. -/
inductive AchDirection
  | deposit
  | withdrawal
  deriving DecidableEq, Repr

/-- `Types::Enums::AchDirection#serialize`. -/
def AchDirection.serialize : AchDirection → String
  | .deposit => "deposit"
  | .withdrawal => "withdrawal"

/-- What of a `Models::AchTransaction` never changes. -/
structure AchTransaction where
  id : Uuid
  entityID : Nat
  direction : AchDirection
  amount : Nat
  realTransferID : Uuid
  shadowTransferID : Uuid
  deriving DecidableEq, Repr

/-- `Services::Ach::TransactionShape::Leg`. -/
structure ShapeLeg where
  source : AccountType
  dest : AccountType
  stage : Bool
  mintSource : Bool
  deriving DecidableEq, Repr

/-- The Transfer a leg is sent as. -/
def ShapeLeg.transfer (leg : ShapeLeg) (id : Uuid) (entityID amount : Nat) : Transfer where
  id := id
  amount := amount
  source := ofEntity entityID leg.source
  dest := ofEntity entityID leg.dest
  stage := leg.stage
  mintSource := leg.mintSource

namespace TransactionShape

/-- `LEGS`, the real leg. -/
def realLeg : AchDirection → ShapeLeg
  | .deposit => ⟨.bank, .cash, true, true⟩
  | .withdrawal => ⟨.cash, .bank, true, false⟩

/-- `LEGS`, the shadow leg. -/
def shadowLeg : AchDirection → ShapeLeg
  | .deposit => ⟨.bankControl, .unclearedCash, false, true⟩
  | .withdrawal => ⟨.clearedCash, .bankControl, false, false⟩

/-- `FACTORY_VERSIONS`. -/
def factoryVersion : AchDirection → String
  | .deposit => "1"
  | .withdrawal => "2"

/-- `dependency`: which leg waits for which. -/
def dependency (ach : AchTransaction) : List (Uuid × List Uuid) :=
  match ach.direction with
  | .withdrawal => [(ach.realTransferID, [ach.shadowTransferID])]
  | .deposit => [(ach.shadowTransferID, [ach.realTransferID])]

/-- `start_request`. -/
def startRequest (ach : AchTransaction) : StartRequest where
  id := ach.id
  factoryName := "ach_" ++ ach.direction.serialize
  factoryVersion := factoryVersion ach.direction
  transfers :=
    [(realLeg ach.direction).transfer ach.realTransferID ach.entityID ach.amount,
      (shadowLeg ach.direction).transfer ach.shadowTransferID ach.entityID ach.amount]
  transferDependency := dependency ach

end TransactionShape

/-- `Services::Ach::ClearingShape#start_request`, as `Clear` builds it. -/
def ClearingShape.startRequest (ach : AchTransaction) : StartRequest where
  id := .clearing ach.id
  factoryName := "ach_clearing"
  factoryVersion := "1"
  transfers := [{
    id := .clearingTransfer ach.id
    amount := ach.amount
    source := ofEntity ach.entityID .unclearedCash
    dest := ofEntity ach.entityID .clearedCash }]
  transferDependency := []

namespace LateReturnShape

/-- `Services::Ach::LateReturnShape::Form`. -/
inductive Form
  | withdrawalReturn
  | clawback
  | debtReturn
  deriving DecidableEq, Repr

/-- `Form#serialize`. -/
def Form.serialize : Form → String
  | .withdrawalReturn => "ach_withdrawal_return"
  | .clawback => "ach_deposit_clawback"
  | .debtReturn => "ach_deposit_return"

/-- `LEGS`: each form's legs by role, in the order they run. -/
def legs : Form → List (ReturnRole × ShapeLeg)
  | .withdrawalReturn =>
    [(.cash, ⟨.bank, .cash, false, true⟩), (.cleared, ⟨.bankControl, .clearedCash, false, true⟩)]
  | .clawback =>
    [(.cleared, ⟨.unclearedCash, .bankControl, false, false⟩),
      (.cash, ⟨.cash, .bank, false, false⟩)]
  | .debtReturn => [(.receivable, ⟨.receivable, .bank, false, true⟩)]

/-- `form_for`, of a row whose Clearing is recorded or not. -/
def formFor (direction : AchDirection) (clearingRecorded : Bool) : Form :=
  match direction, clearingRecorded with
  | .withdrawal, _ => .withdrawalReturn
  | .deposit, false => .clawback
  | .deposit, true => .debtReturn

/-- `start_request`, of the shape `LateReturnShape.for` builds. -/
def startRequest (ach : AchTransaction) (clearingRecorded : Bool) : StartRequest where
  id := .lateReturn ach.id
  factoryName := (formFor ach.direction clearingRecorded).serialize
  factoryVersion := "1"
  transfers := (legs (formFor ach.direction clearingRecorded)).map fun leg =>
    leg.2.transfer (.lateReturnLeg ach.id leg.1) ach.entityID ach.amount
  transferDependency := chain ((legs (formFor ach.direction clearingRecorded)).map fun leg =>
    .lateReturnLeg ach.id leg.1)

end LateReturnShape

/-- `Services::Ach::RecoveryShape#start_request`, of the shape `RecoveryShape.for`
builds. -/
def RecoveryShape.startRequest (entityID sequence amount : Nat) : StartRequest where
  id := .recovery entityID sequence
  factoryName := "receivable_recovery"
  factoryVersion := "1"
  transfers :=
    [{ id := .recoveryCleared entityID sequence, amount := amount,
       source := ofEntity entityID .clearedCash, dest := ofEntity entityID .bankControl },
      { id := .recoveryCash entityID sequence, amount := amount,
        source := ofEntity entityID .cash, dest := ofEntity entityID .receivable }]
  transferDependency := [(.recoveryCash entityID sequence, [.recoveryCleared entityID sequence])]

/-! ### Securities -/

/-- What of a `Models::Security` its shapes read. -/
structure Security where
  id : Uuid
  issuerEntityID : Nat
  borrowerEntityID : Nat
  deriving DecidableEq, Repr

/-- `Services::Securities::Leg::MoneyWallets`. -/
structure MoneyWallets where
  cleared : Account
  cash : Account
  deriving DecidableEq, Repr

/-- `Wallets.money_of_entity`. -/
def moneyOfEntity (entityID : Nat) : MoneyWallets :=
  ⟨ofEntity entityID .clearedCash, ofEntity entityID .cash⟩

/-- `Wallets.money_of_security`. -/
def moneyOfSecurity (securityID : Uuid) (type : AccountType) : MoneyWallets :=
  ⟨ofSecurity securityID type, ofSecurity securityID .securityCash⟩

/-- `Leg.money`: a money leg and its cash leg. -/
def money (id : Uuid) (amount : Nat) (source dest : MoneyWallets) : List Transfer :=
  [{ id := id, amount := amount, source := source.cleared, dest := dest.cleared },
    { id := .cash id, amount := amount, source := source.cash, dest := dest.cash }]

/-- `Leg.entity_pays`. -/
def entityPays (id : Uuid) : List Uuid := [id, .cash id]

/-- `Leg.entity_is_paid`. -/
def entityIsPaid (id : Uuid) : List Uuid := [.cash id, id]

/-- `Services::Securities::OfferingShape#start_request`. -/
def OfferingShape.startRequest (security : Security) (transactionID supplyTransferID : Uuid)
    (amount : Nat) : StartRequest where
  id := transactionID
  factoryName := "security_offering"
  factoryVersion := "1"
  transfers := [{
    id := supplyTransferID
    amount := amount
    source := ofEntity security.issuerEntityID .issuerControl
    dest := ofSecurity security.id .securitySupply
    mintSource := true }]
  transferDependency := []

/-- `Services::Securities::PurchaseShape#start_request`. -/
def PurchaseShape.startRequest (security : Security) (investorEntityID : Nat)
    (transactionID claimTransferID moneyTransferID : Uuid) (amount : Nat) : StartRequest where
  id := transactionID
  factoryName := "security_purchase"
  factoryVersion := "3"
  transfers :=
    { id := claimTransferID, amount := amount, source := ofSecurity security.id .securitySupply,
      dest := ofEntity investorEntityID .investment } ::
    money moneyTransferID amount (moneyOfEntity investorEntityID)
      (moneyOfSecurity security.id .securityEscrow)
  transferDependency := chain (claimTransferID :: entityPays moneyTransferID)

/-- `Services::Securities::DrawShape#start_request`. -/
def DrawShape.startRequest (security : Security) (transactionID transferID : Uuid) (amount : Nat) :
    StartRequest where
  id := transactionID
  factoryName := "security_draw"
  factoryVersion := "3"
  transfers := money transferID amount (moneyOfSecurity security.id .securityEscrow)
    (moneyOfEntity security.borrowerEntityID)
  transferDependency := chain (entityIsPaid transferID)

/-- `Services::Securities::RepaymentShape#start_request`. -/
def RepaymentShape.startRequest (security : Security) (transactionID transferID : Uuid)
    (amount : Nat) : StartRequest where
  id := transactionID
  factoryName := "security_repayment"
  factoryVersion := "3"
  transfers := money transferID amount (moneyOfEntity security.borrowerEntityID)
    (moneyOfSecurity security.id .securityRepayment)
  transferDependency := chain (entityPays transferID)

/-- `Services::Securities::DisbursementShape#start_request`, with the ids `Disburse`
derives. With no principal to retire there is no retirement leg. -/
def DisbursementShape.startRequest (security : Security) (repaymentID : Uuid)
    (investorEntityID principal interest : Nat) : StartRequest where
  id := .disbursement repaymentID investorEntityID
  factoryName := "security_disbursement"
  factoryVersion := "3"
  transfers :=
    money (.payout repaymentID investorEntityID) (principal + interest)
      (moneyOfSecurity security.id .securityRepayment) (moneyOfEntity investorEntityID) ++
    if 0 < principal then
      [{ id := .retirement repaymentID investorEntityID, amount := principal,
         source := ofEntity investorEntityID .investment,
         dest := ofEntity security.issuerEntityID .issuerControl }]
    else []
  transferDependency := chain
    ((if 0 < principal then [.retirement repaymentID investorEntityID] else []) ++
      entityIsPaid (.payout repaymentID investorEntityID))

/-! ### What Ruby asks for -/

/-- A Transaction Ruby builds, by the shape and the rows it is built from. -/
inductive Origin
  | ach (ach : AchTransaction)
  | clearing (ach : AchTransaction)
  | lateReturn (ach : AchTransaction) (clearingRecorded : Bool)
  | recovery (entityID sequence amount : Nat)
  | offering (security : Security) (transactionID supplyTransferID : Uuid) (amount : Nat)
  | purchase (security : Security) (investorEntityID : Nat)
      (transactionID claimTransferID moneyTransferID : Uuid) (amount : Nat)
  | draw (security : Security) (transactionID transferID : Uuid) (amount : Nat)
  | repayment (security : Security) (transactionID transferID : Uuid) (amount : Nat)
  | disbursement (security : Security) (repaymentID : Uuid)
      (investorEntityID principal interest : Nat)
  deriving DecidableEq, Repr

/-- The request Ruby sends. -/
def Origin.request : Origin → StartRequest
  | .ach entry => TransactionShape.startRequest entry
  | .clearing entry => ClearingShape.startRequest entry
  | .lateReturn entry recorded => LateReturnShape.startRequest entry recorded
  | .recovery entityID sequence amount => RecoveryShape.startRequest entityID sequence amount
  | .offering security id transfer amount => OfferingShape.startRequest security id transfer amount
  | .purchase security investor id claim transfer amount =>
    PurchaseShape.startRequest security investor id claim transfer amount
  | .draw security id transfer amount => DrawShape.startRequest security id transfer amount
  | .repayment security id transfer amount =>
    RepaymentShape.startRequest security id transfer amount
  | .disbursement security repaymentID investor principal interest =>
    DisbursementShape.startRequest security repaymentID investor principal interest

end MoneyFlow.Books
