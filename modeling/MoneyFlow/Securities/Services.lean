import MoneyFlow.Concurrent.Crew
import MoneyFlow.Securities.Register

/-!
# MoneyFlow.Securities.Services

The services that write a Security's rows, at work side by side:
`ruby/app/services/securities/record_repayment.rb`, `disburse_due.rb` and `disburse.rb`.

Each step of a service is one statement against the database, under READ COMMITTED, or
one call to Go. Rows a transaction created are its own until it commits. Creating a row
whose key another transaction has created and not committed waits for that transaction;
here the one that waits goes on, and its commit fails if the other's came first, so every
run of the database is a run here.

Purchases, draws, Go and the projector are the world around them. A Subscription or a
draw may be recorded at any time: what `purchase.rb` and `draw.rb` ask for first only
makes the runs fewer.
-/

namespace MoneyFlow.Securities

open Concurrent
open Books (Uuid TransactionState StartRequest Upto Security)

variable {s t : Register} {security : Security} {id : Uuid}

/-! ### Recording a Repayment -/

/-- What `RecordRepayment` raises. -/
inductive RepaymentError
  | negative
  | nothing
  | notDrawn
  | outstanding (left principal : Int)
  | gateway
  deriving DecidableEq, Repr

/-- The text it is raised with, of a Security at a stage; Go's own text is not Ruby's. -/
def RepaymentError.message (security stage : String) : RepaymentError → String
  | .negative => "neither part may be negative"
  | .nothing => "a repayment of nothing has no leg to send"
  | .notDrawn => security ++ " is " ++ stage ++ "; nothing is owed until it is drawn"
  | .outstanding left principal =>
    security ++ " has " ++ toString left ++ " principal outstanding, not " ++
      toString principal
  | .gateway => ""

/-- How far a call of `RecordRepayment` is. -/
inductive Recording
  | called (principal interest : Int)
  /-- The amounts are valid and the Security is drawn. -/
  | drawn (principal interest : Int)
  /-- `Positions.subscribed` was read. -/
  | subscribed (principal interest total : Int)
  /-- `claimed_principal` was read, and there is enough left. -/
  | validated (principal interest : Int)
  | recorded (repayment : Repayment)
  | returned (repayment : Repayment)
  | raised (error : RepaymentError)
  deriving DecidableEq, Repr

/-- What a step is answered from outside: the ids generated, whether a request reached Go,
and whether Go's reply was that it is accepted. -/
structure Answer where
  id : Uuid := .v7 0
  transferID : Uuid := .v7 0
  delivered : Bool := true
  accepted : Bool := true
  deriving DecidableEq, Repr

variable {e : Answer}

/-- The request of a Repayment. -/
def Repayment.request (security : Security) (r : Repayment) : StartRequest :=
  Books.RepaymentShape.startRequest security r.id r.collectionTransferID
    (r.principal + r.interest).toNat

/-- What was asked of Go, with a request more if it got there. -/
def Register.send (s : Register) (request : StartRequest) (e : Answer) : Register :=
  if e.delivered then { s with sent := s.sent ++ [request] } else s

/-- One step of `RecordRepayment#call`. -/
def Recording.step (security : Security) (s : Register) (e : Answer) :
    Recording → Option (Register × Recording)
  | .called principal interest =>
    if principal < 0 ∨ interest < 0 then some (s, .raised .negative)
    else if ¬ 0 < principal + interest then some (s, .raised .nothing)
    else if s.drawn then some (s, .drawn principal interest)
    else some (s, .raised .notDrawn)
  | .drawn principal interest => some (s, .subscribed principal interest s.subscribed)
  | .subscribed principal interest total =>
    let outstanding := total - s.claimedPrincipal
    if principal ≤ outstanding then some (s, .validated principal interest)
    else some (s, .raised (.outstanding outstanding principal))
  | .validated principal interest =>
    -- `SecureRandom.uuid_v7` does not repeat an id.
    if e.id.generated ∧ e.id ∉ s.repayments.map (·.id) then
      let repayment : Repayment := ⟨e.id, principal, interest, e.transferID⟩
      some ({ s with repayments := s.repayments ++ [repayment] }, .recorded repayment)
    else none
  | .recorded repayment =>
    some (s.send (repayment.request security) e,
      if e.accepted then .returned repayment else .raised .gateway)
  | .returned _ => none
  | .raised _ => none

/-! ### Sweeping -/

/-- Why a Repayment or a share is among the failed of a sweep. -/
inductive Failure
  | allocation (error : AllocationError)
  | uniqueConstraint
  | gateway
  deriving DecidableEq, Repr

/-- Where `disburse_all` is. -/
inductive Phase
  | called
  /-- Before the next Repayment that is due. -/
  | sweeping
  /-- No row was recorded for the Repayment. -/
  | unsplit (repayment : Repayment)
  /-- `principal_repaid` was read. -/
  | settled (repayment : Repayment) (repaid : Nat → Int)
  /-- In the transaction: the rows created so far, and the shares left. -/
  | recording (repayment : Repayment) (shares rest : List Share) (own : List Disbursement)
  /-- No row was found for the share. -/
  | creating (repayment : Repayment) (shares : List Share) (share : Share) (rest : List Share)
      (own : List Disbursement)
  /-- The split is recorded; the shares left to send. -/
  | sending (repayment : Repayment) (rest : List Share)
  /-- The read model has not seen the share's Transaction. -/
  | calling (repayment : Repayment) (share : Share) (rest : List Share)
  | starting (repayment : Repayment) (share : Share) (row : Disbursement) (rest : List Share)
  | returned

/-- A run of `DisburseDue#call`, with the Repayments left and its `Result` so far. -/
structure Sweep where
  repaymentID : Option Uuid := none
  todo : List Repayment := []
  disbursed : List Uuid := []
  failed : List (Uuid × Failure) := []
  phase : Phase := .called

/-- The request of a share whose row was recorded. -/
def Disbursement.request (security : Security) (repayment : Repayment) (share : Share)
    (row : Disbursement) : StartRequest :=
  Books.DisbursementShape.startRequest security repayment.id share.investorEntityID
    row.principal.toNat
    row.interest.toNat

/-- `rescue StandardError` of `disburse_all`: the rest still go out. -/
def Sweep.fail (w : Sweep) (id : Uuid) (failure : Failure) (phase : Phase) : Sweep :=
  { w with failed := w.failed ++ [(id, failure)], phase := phase }

/-- One step of `DisburseDue#call`. -/
def Sweep.step (security : Security) (s : Register) (e : Answer) (w : Sweep) :
    Option (Register × Sweep) :=
  match w.phase with
  | .called => some (s, { w with todo := s.due w.repaymentID, phase := .sweeping })
  | .sweeping =>
    match w.todo with
    | [] => some (s, { w with phase := .returned })
    | repayment :: todo =>
      match s.recorded repayment.id with
      | [] => some (s, { w with todo := todo, phase := .unsplit repayment })
      | row :: rows =>
        some (s, { w with
          todo := todo, phase := .sending repayment ((row :: rows).map Disbursement.share) })
  | .unsplit repayment => some (s, { w with phase := .settled repayment s.principalRepaid })
  | .settled repayment repaid =>
    match Allocation.forRepayment repayment (Register.holdings s.bought repaid) with
    | .error error => some (s, w.fail repayment.id (.allocation error) .sweeping)
    | .ok shares => some (s, { w with phase := .recording repayment shares shares [] })
  | .recording repayment shares (share :: rest) own =>
    if (share.row repayment).id ∈ (s.disbursements ++ own).map Disbursement.id then
      some (s, { w with phase := .recording repayment shares rest own })
    else some (s, { w with phase := .creating repayment shares share rest own })
  | .creating repayment shares share rest own =>
    if (share.row repayment).id ∈ s.disbursements.map Disbursement.id then
      some (s, w.fail repayment.id .uniqueConstraint .sweeping)
    else some (s,
      { w with phase := .recording repayment shares rest (own ++ [share.row repayment]) })
  | .recording repayment shares [] own =>
    if ∃ row ∈ own, row.id ∈ s.disbursements.map Disbursement.id then
      some (s, w.fail repayment.id .uniqueConstraint .sweeping)
    else
      some ({ s with disbursements := s.disbursements ++ own },
        { w with phase := .sending repayment shares })
  | .sending _ [] => some (s, { w with phase := .sweeping })
  | .sending repayment (share :: rest) =>
    if (s.projected (share.row repayment).id).isSome then
      some (s, { w with phase := .sending repayment rest })
    else some (s, { w with phase := .calling repayment share rest })
  | .calling repayment share rest =>
    match s.find (share.row repayment).id with
    | some row => some (s, { w with phase := .starting repayment share row rest })
    | none =>
      some ({ s with disbursements := s.disbursements ++ [share.row repayment] },
        { w with phase := .starting repayment share (share.row repayment) rest })
  | .starting repayment share row rest =>
    some (s.send (row.request security repayment share) e,
      if e.accepted then
        { w with disbursed := w.disbursed ++ [row.id], phase := .sending repayment rest }
      else w.fail (share.row repayment).id .gateway (.sending repayment rest))
  | .returned => none

/-! ### All of them -/

/-- A service at work. -/
inductive Service
  | record (call : Recording)
  | sweep (run : Sweep)

/-- What happens around the services. -/
inductive Event
  /-- A Subscription is recorded. -/
  | purchase (row : Subscription)
  /-- `draw_transaction_id` is recorded. -/
  | draw (id : Uuid)
  /-- Go gets further with a Transaction. -/
  | advance (id : Uuid) (state : TransactionState)
  /-- The read model shows more of it. -/
  | project (id : Uuid) (state : TransactionState)
  deriving DecidableEq, Repr

/-- What an event does. -/
def Register.happen (s : Register) : Event → Option Register
  | .purchase row =>
    if 0 < row.amount then some { s with subscriptions := s.subscriptions ++ [row] } else none
  | .draw id => some { s with drawTransactionID := some id }
  | .advance id state =>
    if Upto (s.go id) (some state) then
      some { s with go := Function.update s.go id (some state) }
    else none
  | .project id state =>
    if Upto (s.projected id) (some state) ∧ Upto (some state) (s.go id) then
      some { s with projected := Function.update s.projected id (some state) }
    else none

/-- Any number of calls and sweeps on the rows of one Security. -/
def crew (security : Security) : Crew Register Service Answer Event where
  init := {}
  start _ p :=
    match p with
    | .record (.called _ _) => true
    | .sweep { todo := [], disbursed := [], failed := [], phase := .called, .. } => true
    | _ => false
  step s p e :=
    match p with
    | .record call => (call.step security s e).map fun r => (r.1, .record r.2)
    | .sweep run => (run.step security s e).map fun r => (r.1, .sweep r.2)
  world s w := s.happen w

abbrev Run := Crew.State Register Service

abbrev RunMove := Crew.Move Service Answer Event

/-! ### What a step can do -/

/-- A step of `RecordRepayment`, by its branches. -/
inductive Recording.Steps (security : Security) (s : Register) (e : Answer) :
    Recording → Register → Recording → Prop
  | raise (call : Recording) (error : RepaymentError) : Steps security s e call s (.raised error)
  | check (principal interest : Int) (hp : 0 ≤ principal) (hi : 0 ≤ interest)
      (hsome : 0 < principal + interest) (hdrawn : s.drawn = true) :
      Steps security s e (.called principal interest) s (.drawn principal interest)
  | read (principal interest : Int) :
      Steps security s e (.drawn principal interest) s
        (.subscribed principal interest s.subscribed)
  | validate (principal interest total : Int) (hle : principal ≤ total - s.claimedPrincipal) :
      Steps security s e (.subscribed principal interest total) s (.validated principal interest)
  | insert (principal interest : Int) (hid : e.id.generated = true)
      (hnew : e.id ∉ s.repayments.map (·.id)) :
      Steps security s e (.validated principal interest)
        { s with repayments := s.repayments ++ [⟨e.id, principal, interest, e.transferID⟩] }
        (.recorded ⟨e.id, principal, interest, e.transferID⟩)
  | send (repayment : Repayment) (next : Recording)
      (hnext : next = .returned repayment ∨ next = .raised .gateway) :
      Steps security s e (.recorded repayment) (s.send (repayment.request security) e) next

theorem Recording.steps_of_step {call next : Recording}
    (h : call.step security s e = some (t, next)) : call.Steps security s e t next := by
  cases call with
  | called principal interest =>
    simp only [Recording.step] at h
    split at h
    · cases h
      exact .raise _ _
    · split at h
      · cases h
        exact .raise _ _
      · split at h
        · cases h
          exact .check principal interest (by omega) (by omega) (by omega) (by assumption)
        · cases h
          exact .raise _ _
  | drawn principal interest =>
    cases h
    exact .read principal interest
  | subscribed principal interest total =>
    simp only [Recording.step] at h
    split at h
    · cases h
      exact .validate principal interest total (by assumption)
    · cases h
      exact .raise _ _
  | validated principal interest =>
    simp only [Recording.step] at h
    split at h
    · rename_i hid
      cases h
      exact .insert principal interest hid.1 hid.2
    · cases h
  | recorded repayment =>
    cases h
    refine .send repayment _ ?_
    split
    · exact .inl rfl
    · exact .inr rfl
  | returned repayment | raised error => cases h

/-- A step of `DisburseDue`, by its branches: where it was, what it wrote, and where it is. -/
inductive Phase.Steps (security : Security) (s : Register) (e : Answer) :
    List Repayment → Phase → Register → List Repayment → Phase → Prop
  | due (todo : List Repayment) (repaymentID : Option Uuid) :
      Steps security s e todo .called s (s.due repaymentID) .sweeping
  | finish : Steps security s e [] .sweeping s [] .returned
  | unsplit (r : Repayment) (todo : List Repayment) (hrows : s.rowsOf r.id = []) :
      Steps security s e (r :: todo) .sweeping s todo (.unsplit r)
  | split (r : Repayment) (todo : List Repayment) :
      Steps security s e (r :: todo) .sweeping s todo
        (.sending r ((s.recorded r.id).map Disbursement.share))
  | settle (todo : List Repayment) (r : Repayment) :
      Steps security s e todo (.unsplit r) s todo (.settled r s.principalRepaid)
  | allocate (todo : List Repayment) (r : Repayment) (repaid : Nat → Int) (shares : List Share)
      (hshares : Allocation.forRepayment r (Register.holdings s.bought repaid) = .ok shares) :
      Steps security s e todo (.settled r repaid) s todo (.recording r shares shares [])
  /-- The Repayment is done with, or failed. -/
  | next (todo : List Repayment) (phase : Phase) : Steps security s e todo phase s todo .sweeping
  | keep (todo : List Repayment) (r : Repayment) (shares : List Share) (share : Share)
      (rest : List Share) (own : List Disbursement)
      (hfound : (share.row r).id ∈ (s.disbursements ++ own).map Disbursement.id) :
      Steps security s e todo (.recording r shares (share :: rest) own) s todo
        (.recording r shares rest own)
  | miss (todo : List Repayment) (r : Repayment) (shares : List Share) (share : Share)
      (rest : List Share) (own : List Disbursement)
      (hmissing : (share.row r).id ∉ (s.disbursements ++ own).map Disbursement.id) :
      Steps security s e todo (.recording r shares (share :: rest) own) s todo
        (.creating r shares share rest own)
  | create (todo : List Repayment) (r : Repayment) (shares : List Share) (share : Share)
      (rest : List Share) (own : List Disbursement) :
      Steps security s e todo (.creating r shares share rest own) s todo
        (.recording r shares rest (own ++ [share.row r]))
  | commit (todo : List Repayment) (r : Repayment) (shares : List Share) (own : List Disbursement)
      (hnew : ∀ row ∈ own, row.id ∉ s.disbursements.map Disbursement.id) :
      Steps security s e todo (.recording r shares [] own)
        { s with disbursements := s.disbursements ++ own } todo (.sending r shares)
  | skip (todo : List Repayment) (r : Repayment) (share : Share) (rest : List Share) :
      Steps security s e todo (.sending r (share :: rest)) s todo (.sending r rest)
  | attempt (todo : List Repayment) (r : Repayment) (share : Share) (rest : List Share) :
      Steps security s e todo (.sending r (share :: rest)) s todo (.calling r share rest)
  | found (todo : List Repayment) (r : Repayment) (share : Share) (rest : List Share)
      (row : Disbursement) (hrow : row ∈ s.disbursements) (hid : row.id = (share.row r).id) :
      Steps security s e todo (.calling r share rest) s todo (.starting r share row rest)
  | record (todo : List Repayment) (r : Repayment) (share : Share) (rest : List Share)
      (hmissing : (share.row r).id ∉ s.disbursements.map Disbursement.id) :
      Steps security s e todo (.calling r share rest)
        { s with disbursements := s.disbursements ++ [share.row r] } todo
        (.starting r share (share.row r) rest)
  | start (todo : List Repayment) (r : Repayment) (share : Share) (row : Disbursement)
      (rest : List Share) :
      Steps security s e todo (.starting r share row rest)
        (s.send (row.request security r share) e) todo (.sending r rest)

theorem Register.recorded_eq_nil (h : s.recorded id = []) : s.rowsOf id = [] := by
  have hperm := List.perm_insertionSort
    (fun row row' : Disbursement => row.investorEntityID ≤ row'.investorEntityID) (s.rowsOf id)
  exact List.perm_nil.mp (hperm.symm.trans (.of_eq h))

theorem Register.find_eq_some {row : Disbursement} (h : s.find id = some row) :
    row ∈ s.disbursements ∧ row.id = id :=
  ⟨List.mem_of_find?_eq_some h, by simpa using List.find?_some h⟩

theorem Register.find_eq_none (h : s.find id = none) :
    id ∉ s.disbursements.map Disbursement.id := by
  intro hmem
  obtain ⟨row, hrow, hid⟩ := List.mem_map.mp hmem
  have := List.find?_eq_none.mp h row hrow
  simp [hid] at this

theorem Sweep.steps_of_step {w w' : Sweep} (h : w.step security s e = some (t, w')) :
    w.phase.Steps security s e w.todo t w'.todo w'.phase := by
  obtain ⟨repaymentID, todo, disbursed, failed, phase⟩ := w
  cases phase with
  | called =>
    cases h
    exact .due _ _
  | sweeping =>
    cases todo with
    | nil =>
      cases h
      exact .finish
    | cons r todo =>
      simp only [Sweep.step] at h
      split at h
      · rename_i hrows
        cases h
        exact .unsplit r todo (Register.recorded_eq_nil hrows)
      · rename_i row rows hrows
        cases h
        rw [← hrows]
        exact .split r todo
  | unsplit r =>
    cases h
    exact .settle _ r
  | settled r repaid =>
    simp only [Sweep.step] at h
    split at h
    · cases h
      exact .next _ _
    · rename_i shares hshares
      cases h
      exact .allocate _ r repaid shares hshares
  | recording r shares rest own =>
    cases rest with
    | nil =>
      simp only [Sweep.step] at h
      split at h
      · cases h
        exact .next _ _
      · rename_i hnone
        cases h
        exact .commit _ r shares own fun row hrow hid => hnone ⟨row, hrow, hid⟩
    | cons share rest =>
      simp only [Sweep.step] at h
      split at h
      · cases h
        exact .keep _ r shares share rest own (by assumption)
      · cases h
        exact .miss _ r shares share rest own (by assumption)
  | creating r shares share rest own =>
    simp only [Sweep.step] at h
    split at h
    · cases h
      exact .next _ _
    · cases h
      exact .create _ r shares share rest own
  | sending r rest =>
    cases rest with
    | nil =>
      cases h
      exact .next _ _
    | cons share rest =>
      simp only [Sweep.step] at h
      split at h
      · cases h
        exact .skip _ r share rest
      · cases h
        exact .attempt _ r share rest
  | calling r share rest =>
    simp only [Sweep.step] at h
    split at h
    · rename_i row hrow
      cases h
      obtain ⟨hmem, hid⟩ := Register.find_eq_some hrow
      exact .found _ r share rest row hmem hid
    · rename_i hnone
      cases h
      exact .record _ r share rest (Register.find_eq_none hnone)
  | starting r share row rest =>
    simp only [Sweep.step] at h
    split at h
    · cases h
      exact .start _ r share row rest
    · cases h
      exact .start _ r share row rest
  | returned => cases h

/-- A step of a service, by the service. -/
theorem step_cases {p p' : Service} (h : (crew security).step s p e = some (t, p')) :
    (∃ call next, p = .record call ∧ p' = .record next ∧ call.Steps security s e t next) ∨
    (∃ w w', p = .sweep w ∧ p' = .sweep w' ∧
      w.phase.Steps security s e w.todo t w'.todo w'.phase) := by
  cases p with
  | record call =>
    obtain ⟨⟨t', next⟩, hstep, heq⟩ := Option.map_eq_some_iff.mp h
    cases heq
    exact .inl ⟨call, next, rfl, rfl, Recording.steps_of_step hstep⟩
  | sweep w =>
    obtain ⟨⟨t', w'⟩, hstep, heq⟩ := Option.map_eq_some_iff.mp h
    cases heq
    exact .inr ⟨w, w', rfl, rfl, Sweep.steps_of_step hstep⟩

/-- An event, by what it is. -/
inductive Register.Happens (s : Register) : Register → Prop
  | purchase (row : Subscription) (hpos : 0 < row.amount) :
      Happens s { s with subscriptions := s.subscriptions ++ [row] }
  | draw (id : Uuid) : Happens s { s with drawTransactionID := some id }
  | advance (id : Uuid) (state : TransactionState) (hup : Upto (s.go id) (some state)) :
      Happens s { s with go := Function.update s.go id (some state) }
  | project (id : Uuid) (state : TransactionState) (hup : Upto (s.projected id) (some state))
      (hshown : Upto (some state) (s.go id)) :
      Happens s { s with projected := Function.update s.projected id (some state) }

theorem world_cases {w : Event} (h : (crew security).world s w = some t) : s.Happens t := by
  change s.happen w = some t at h
  cases w with
  | purchase row =>
    simp only [Register.happen] at h
    split at h
    · cases h
      exact .purchase row (by assumption)
    · cases h
  | draw id =>
    cases h
    exact .draw id
  | advance id state =>
    simp only [Register.happen] at h
    split at h
    · cases h
      exact .advance id state (by assumption)
    · cases h
  | project id state =>
    simp only [Register.happen] at h
    split at h
    · rename_i hup
      cases h
      exact .project id state hup.1 hup.2
    · cases h

/-- A service that may begin is a call or a sweep that has done nothing. -/
theorem start_cases {p : Service} (h : (crew security).start s p = true) :
    (∃ principal interest, p = .record (.called principal interest)) ∨
    ∃ repaymentID, p = .sweep { repaymentID := repaymentID } := by
  cases p with
  | record call =>
    cases call with
    | called principal interest => exact .inl ⟨principal, interest, rfl⟩
    | _ => cases h
  | sweep w =>
    obtain ⟨repaymentID, todo, disbursed, failed, phase⟩ := w
    cases todo with
    | cons => cases h
    | nil =>
      cases disbursed with
      | cons => cases h
      | nil =>
        cases failed with
        | cons => cases h
        | nil =>
          cases phase with
          | called => exact .inr ⟨repaymentID, rfl⟩
          | _ => cases h

end MoneyFlow.Securities
