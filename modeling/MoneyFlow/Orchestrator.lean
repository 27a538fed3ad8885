import MoneyFlow.Runs

/-!
# MoneyFlow.Orchestrator

`saga.Orchestrator`: what a delivered trigger sets in motion.
-/

namespace MoneyFlow

open Concurrent Service

/-- `transfer.OwningTransaction`. -/
def Transfer.owningTransaction (transferID : Id) : Service Id := do
  match eventsOf (← load .transfer transferID) with
  | .transferRequestAccepted a :: _ | .reversalRequestAccepted a :: _ => pure a.transactionID
  | _ => pure .empty

/-- `saga.Trigger`, with what `String` prints. -/
structure Trigger where
  aggregateType : String
  aggregateID : Id
  text : Text

/-- `handleTransfer`. -/
def handleTransfer (fuel : Nat) (transferID : Id) : Service Unit := do
  Transfer.resume fuel transferID
  let transactionID ← Transfer.owningTransaction transferID
  if transactionID ≠ .empty then Transaction.resume fuel transactionID

/-- `Handle`. -/
def handle (fuel : Nat) (t : Trigger) : Service Unit :=
  if t.aggregateType = Aggregate.transfer.name then handleTransfer fuel t.aggregateID
  else if t.aggregateType = Aggregate.transaction.name then Transaction.resume fuel t.aggregateID
  else throw (.plain ([.lit "saga: no driver for aggregate type ",
    .id (.text t.aggregateType), .lit " ("] ++ t.text ++ [.lit ")"]))

/-- A call, or a trigger. -/
def serve (fuel : Nat) : Driver ⊕ Trigger → Service Reply
  | .inl d => d.service fuel
  | .inr t => (fun _ => .resumed) <$> handle fuel t

/-- Every run of both. -/
abbrev orchestrated : Scheduler World (Driver ⊕ Trigger) Op Resp (Except Err Reply) where
  start t p := ∃ fuel, p = (serve fuel t).run
  guard _ _ _ := True
  env := World.Tick

variable {w : World} {A : Op → World → Prop}

theorem handle_conducts (hA : Assumes True A) (fuel : Nat) (t : Trigger) :
    Obeys (contract True A) (handle fuel t) w := by
  have hresume (tid) : Obeys (contract True A) (Transaction.resume fuel tid) w :=
    Transaction.resume_conducts hA fun _ _ _ _ => trivial
  unfold handle
  split
  · refine Obeys.bind (Transfer.resume_conducts hA) fun _ => Obeys.bind ?_ fun tid => ?_
    · exact Obeys.request (contract_reads _ rfl) fun _ => by split <;> exact Obeys.pure
    · split
      exacts [hresume tid, Obeys.pure]
  · split
    exacts [hresume _, Ensures.throw]

/-- **Handling triggers keeps the protocol**, beside any calls. -/
theorem orchestrated_inv {c} (h : Pool.Reachable orchestrated .init c) : Inv True c.state := by
  refine (Pool.reachable_safe (C := fun _ => contract True fun _ w => True ∧ Inv True w)
    (inv_init True) (fun _ _ ht hinv => ⟨World.le_of_tick ht, hinv.tick ht⟩) ?_
    (fun _ _ _ _ hinv => ⟨trivial, hinv⟩)
    (fun _ _ _ _ _ hinv _ hlegal hx => hinv.step hlegal hx) h).1
  rintro (d | t) p w ⟨fuel, rfl⟩
  · exact (d.safe refusals_true fuel w : Safe (driverContract True (fun _ _ _ => True) d) _ _ w)
  · exact Safe.mono (Obeys.map (handle_conducts (fun _ _ h => h.2) fuel t)) fun _ _ _ _ => trivial

/-- The deposit, moved on by triggers. -/
def triggered : List (Move orchestrated) :=
  let ts : List (Driver ⊕ Trigger) := (deposit.take 3).map .inl ++
    [.inr ⟨"transaction", .uuid 2, []⟩, .inr ⟨"transfer", .uuid 3, []⟩]
  ts.zipIdx.flatMap fun t => [.spawn t.1 (serve 20 t.1).run ⟨20, rfl⟩, .run t.2 1000]

theorem orchestrated_inv_triggered :
    let w := (play triggered ⟨.init, []⟩).state
    Transaction.topLevelState (w.log (.uuid 2)) = .completed ∧ Inv True w :=
  ⟨by decide +kernel, orchestrated_inv (play_steps _ _)⟩

end MoneyFlow
