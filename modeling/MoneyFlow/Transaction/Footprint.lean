import MoneyFlow.Transaction.Server
import MoneyFlow.Transfer.Footprint

/-!
# MoneyFlow.Transaction.Footprint

What each function of the Transaction service can ever write, relative to what
the contract asks of the calls its saga makes on the Transfer service.
-/

namespace MoneyFlow.Transaction

open Concurrent Service

variable {fuel : Nat} {children : Children} {spec : Spec}

variable {C : Contract World Op} {S : Scope} {w : World} {tid : Id}

/-- Anything may be appended to the stream of `tid`. -/
def OwnAppends (C : Contract World Op) (tid : Id) : Prop :=
  ∀ seq events, Permits C (.appendAtomic [⟨.transaction, tid, seq, events⟩])

/-- The saga may record what it does: intents, what it says of a child and how it
concludes, and what it finds its stream to decide. -/
structure OwnSteps (C : Contract World Op) (tid : Id) : Prop where
  intents : ∀ seq starting slice,
    Permits C (.appendAtomic [⟨.transaction, tid, seq, intentsFor tid starting slice⟩])
  step : ∀ e w fuel, stateOf e ≠ some .rollbackStarted → Obeys C (appendSagaStep tid e fuel) w
  decided : ∀ e w fuel, C.assume (.load .transaction tid) w →
    consequence (eventsOf (w.transaction tid)) tid = .ok (some e) →
    Obeys C (appendSagaStep tid e fuel) w

/-- The saga may request the children it finds in `transfers`. -/
def MayRequest (C : Contract World Op) (tid : Id) (transfers : GoMap TransferSpec)
    (w : World) : Prop :=
  ∀ childID, Obeys C (Transfer.requestTransfer (requestFor tid (specOf transfers childID))) w

/-- The saga may undo the children it finds in `transfers`. -/
structure MayUnwind (C : Contract World Op) (tid : Id) (transfers : GoMap TransferSpec)
    (w : World) : Prop where
  request : MayRequest C tid transfers w
  reverse : ∀ childID, Obeys C (Transfer.requestReversal
    ⟨.reversal tid (specOf transfers childID).id, (specOf transfers childID).id,
      (specOf transfers childID).stage, tid⟩) w
  cancelStaged : ∀ fuel childID, Obeys C (Transfer.cancelStagedTransfer fuel
    (specOf transfers childID).id rollbackReason) w
  cancelAccepted : ∀ fuel childID, Obeys C (Transfer.cancelAcceptedTransfer fuel
    (specOf transfers childID).id rollbackReason) w

/-! ### Recording -/

/-- Permitting an event and what may be appended with it permits recording it. -/
theorem appendSagaStep_obeys {e : TransactionEvent} (hC : Lenient C S)
    (hT : ∀ seq es pending, withConsequences es tid e = .ok pending →
      Permits C (.appendAtomic [⟨.transaction, tid, seq, pending⟩])) (w : World) :
    ∀ fuel, Obeys C (appendSagaStep tid e fuel) w
  | 0 => Ensures.halted
  | fuel + 1 => by
    refine Obeys.request (hC.free _ rfl) fun rows => ?_
    split
    · exact Obeys.pure
    · refine check_bind_obeys fun decidable _ => ?_
      cases decidable with
      | false => exact Obeys.pure
      | true =>
        refine check_bind_obeys fun pending hp => Obeys.request (hT _ _ _ hp) fun r => ?_
        split
        · exact Obeys.pure
        · exact appendSagaStep_obeys hC hT w fuel
        · exact Ensures.throw

theorem OwnAppends.records (hC : Lenient C S) (hT : OwnAppends C tid) (fuel : Nat)
    (e : TransactionEvent) (w : World) : Obeys C (appendSagaStep tid e fuel) w :=
  appendSagaStep_obeys hC (fun _ _ _ _ => hT _ _) w fuel

theorem OwnAppends.steps (hC : Lenient C S) (hT : OwnAppends C tid) : OwnSteps C tid where
  intents _ _ _ := hT _ _
  step e w fuel _ := hT.records hC fuel e w
  decided e w fuel _ _ := hT.records hC fuel e w

section

variable (hC : Lenient C S) (hT : OwnSteps C tid)
include hC hT

omit hT in
theorem loadOutcome_obeys (id : Id) (w : World) : Obeys C (loadOutcome id) w :=
  Obeys.request (hC.free _ rfl) fun _ => Obeys.pure

omit hC in
theorem recordIntents_obeys {version : Nat} {starting : Bool} {slice : List Id} (w : World) :
    Obeys C (recordIntents tid version (intentsFor tid starting slice)) w := by
  refine Obeys.request (hT.intents _ _ _) fun r => ?_
  split
  · exact Obeys.pure
  · exact Obeys.pure
  · exact Ensures.throw

/-! ### Forward -/

section

variable {transfers : GoMap TransferSpec} (hreq : MayRequest C tid transfers w)
include hreq

theorem requestChildTransfer_obeys (childID : Id) :
    Obeys C (requestChildTransfer fuel tid (specOf transfers childID)) w := by
  refine Obeys.request (hC.free _ rfl) fun _ => Obeys.bind (hreq childID) fun r => ?_
  cases r with
  | accepted a => exact Obeys.pure
  | rejected id reason =>
    exact Obeys.bind (hT.step _ w fuel nofun) fun _ => Obeys.pure

theorem requestEach_obeys : ∀ slice, Obeys C (requestEach fuel tid transfers slice) w
  | [] => Obeys.pure
  | childID :: rest =>
    Obeys.bind (requestChildTransfer_obeys hC hT hreq childID) fun _ => requestEach_obeys rest

theorem reconcileChild_obeys (childID : Id) :
    Obeys C (reconcileChild fuel tid transfers childID) w := by
  have happ {e : TransactionEvent} (he : stateOf e ≠ some .rollbackStarted) :
      Obeys C (do appendSagaStep tid e fuel; pure true) w :=
    Obeys.bind (hT.step e w fuel he) fun _ => Obeys.pure
  refine Obeys.bind (loadOutcome_obeys hC childID w) fun outcome => ?_
  cases outcome with
  | notFound | rejected => exact requestChildTransfer_obeys hC hT hreq childID
  | committed | failed | cancelled => exact happ nofun
  | inFlight | staged | pending => exact Obeys.pure

end

omit hC hT in
theorem sweep_obeys {state : ChildState} {act : Id → Service Bool} :
    ∀ {order : List Id} {w : World},
      (∀ c, children.state c = state → ∀ w1, w ≤ w1 → Obeys C (act c) w1) →
      Obeys C (sweep children state act order) w
  | [], _, _ => Obeys.pure
  | c :: rest, w, h => by
    unfold sweep
    split
    · rename_i hs
      refine (h c hs w le_rfl).seq fun _ w1 hle _ => ?_
      exact Obeys.bind (sweep_obeys fun d hd w2 hle2 => h d hd w2 (hle.trans hle2))
        fun _ => Obeys.pure
    · exact sweep_obeys h

theorem reconcileInFlight_obeys {transfers : GoMap TransferSpec}
    (hreq : MayRequest C tid transfers w) :
    Obeys C (reconcileInFlight fuel tid transfers children) w :=
  Obeys.request (hC.free _ rfl) fun _ =>
    sweep_obeys fun childID _ _ hle => (reconcileChild_obeys hC hT hreq childID).grow hle

theorem dispatchReady_obeys {version : Nat} {starting : Bool}
    (hreq : MayRequest C tid spec.transfers w) :
    Obeys C (dispatchReady fuel tid version spec children starting) w := by
  refine Obeys.request (hC.free _ rfl) fun order => ?_
  dsimp only
  split
  · exact Obeys.pure
  · exact Obeys.bind_bool (recordIntents_obeys hT w) Obeys.pure
      (Obeys.bind (requestEach_obeys hC hT hreq _) fun _ => Obeys.pure)

/-! ### Rollback -/

theorem reconcileReversal_obeys {events : List TransactionEvent} (childID : Id) (w : World) :
    Obeys C (reconcileReversal fuel tid events childID) w := by
  unfold reconcileReversal
  dsimp only
  split
  · exact Ensures.throw
  · refine Obeys.bind (loadOutcome_obeys hC _ w) fun outcome => ?_
    cases outcome with
    | committed | failed | cancelled | rejected =>
      exact Obeys.bind (hT.step _ w fuel nofun) fun _ => Obeys.pure
    | notFound | inFlight | staged | pending => exact Obeys.pure

theorem reconcileRollbacks_obeys {events : List TransactionEvent} (w : World) :
    Obeys C (reconcileRollbacks fuel tid events children) w :=
  Obeys.request (hC.free _ rfl) fun _ =>
    sweep_obeys fun childID _ w1 _ => reconcileReversal_obeys hC hT childID w1

section

variable {transfers : GoMap TransferSpec} (hun : MayUnwind C tid transfers w)
include hun

theorem reverseChild_obeys (childID : Id) :
    Obeys C (reverseChild fuel tid (specOf transfers childID)) w := by
  refine Obeys.request (hC.free _ rfl) fun _ => Obeys.bind (hun.reverse childID) fun r => ?_
  cases r with
  | accepted a | rejected id original reason => exact hT.step _ w fuel nofun

theorem cancelStagedChild_obeys (childID : Id) :
    Obeys C (cancelStagedChild fuel tid (specOf transfers childID)) w := by
  refine Obeys.request (hC.free _ rfl) fun _ =>
    Obeys.bind (hun.cancelStaged fuel childID) fun r => ?_
  cases r with
  | transferCancelled id reason | rejected id reason => exact hT.step _ w fuel nofun

theorem rollbackChild_obeys {state : ChildState} (childID : Id) :
    ∀ fuel, Obeys C (rollbackChild tid (specOf transfers childID) state fuel) w
  | 0 => Ensures.halted
  | fuel + 1 => by
    unfold rollbackChild
    split
    · exact Ensures.throw
    · refine Obeys.bind (loadOutcome_obeys hC _ w) fun outcome => ?_
      cases outcome with
      | notFound =>
        refine Obeys.request (hC.free _ rfl) fun _ => ?_
        exact Obeys.bind (hun.request childID) fun _ => rollbackChild_obeys childID fuel
      | committed => exact reverseChild_obeys hC hT hun childID
      | staged | pending => exact cancelStagedChild_obeys hC hT hun childID
      | inFlight =>
        refine Obeys.request (hC.free _ rfl) fun _ => ?_
        refine Obeys.bind (Obeys.outcomeOf (hun.cancelAccepted fuel childID)) fun r => ?_
        cases r with
        | ok a => exact hT.step _ w fuel nofun
        | error e =>
          dsimp only
          split
          · exact rollbackChild_obeys childID fuel
          · exact Ensures.throw
      | failed | cancelled | rejected => exact hT.step _ w fuel nofun

theorem rollbackEach_obeys : ∀ slice, Obeys C (rollbackEach fuel tid transfers children slice) w
  | [] => Obeys.pure
  | childID :: rest =>
    Obeys.bind (rollbackChild_obeys hC hT hun childID fuel) fun _ => rollbackEach_obeys rest

end

theorem rollbackNext_obeys (hun : MayUnwind C tid spec.transfers w) :
    Obeys C (rollbackNext fuel tid spec children) w := by
  refine Obeys.request (hC.free _ rfl) fun order => ?_
  dsimp only
  split
  · exact Obeys.pure
  · exact Obeys.bind (rollbackEach_obeys hC hT hun _) fun _ => Obeys.pure

/-! ### Resume -/

/-- The saga may make its calls as of the spec its stream records. -/
theorem runSaga_obeys
    (hreq : ∀ w1 spec, w ≤ w1 → C.assume (.load .transaction tid) w1 →
      decodeSpec (eventsOf (w1.transaction tid)) = .ok spec → MayRequest C tid spec.transfers w1)
    (hun : ∀ w1 spec, w ≤ w1 → C.assume (.load .transaction tid) w1 →
      decodeSpec (eventsOf (w1.transaction tid)) = .ok spec →
      topLevelState (eventsOf (w1.transaction tid)) = .rollbackStarted →
      MayUnwind C tid spec.transfers w1) :
    ∀ fuel {w0 : World}, w ≤ w0 → Obeys C (runSaga tid fuel) w0
  | 0, _, _ => Ensures.halted
  | fuel + 1, w0, hle0 => by
    refine Ensures.request fun w1 hle ha => ⟨hC.free _ rfl w1 ha, ?_⟩
    rintro rows w2 hx
    obtain ⟨rfl, rfl⟩ := Prod.mk.inj hx
    have hle1 : w ≤ w2 := hle0.trans hle
    have ih := runSaga_obeys hreq hun fuel hle1
    split
    · exact Ensures.throw
    · split
      · refine check_bind_obeys fun spec hspec => ?_
        refine Obeys.bind (dispatchReady_obeys hC hT (hreq w2 spec hle1 ha hspec)) fun r => ?_
        obtain ⟨-, more⟩ := r
        cases more with
        | true => exact Obeys.pure
        | false => exact ih
      · refine check_bind_obeys fun spec hspec => ?_
        have hmay := hreq w2 spec hle1 ha hspec
        refine Obeys.bind_bool (reconcileInFlight_obeys hC hT hmay) ?_ ih
        refine check_bind_obeys fun next hnext => ?_
        cases next with
        | some next => exact Obeys.bind (hT.decided next w2 fuel ha hnext) fun _ => ih
        | none =>
          refine Obeys.bind (dispatchReady_obeys hC hT hmay) fun r => ?_
          obtain ⟨dispatched, more⟩ := r
          cases more with
          | true => exact Obeys.pure
          | false =>
            cases dispatched with
            | true => exact ih
            | false => exact Obeys.pure
      · rename_i htop
        refine check_bind_obeys fun spec hspec => ?_
        refine Obeys.bind_bool (reconcileRollbacks_obeys hC hT w2) ?_ ih
        refine Obeys.bind (rollbackNext_obeys hC hT (hun w2 spec hle1 ha hspec htop)) fun r => ?_
        cases r with
        | more | waiting => exact Obeys.pure
        | progressed => exact ih
        | done blocked =>
          refine check_bind_obeys fun next hnext => ?_
          cases next with
          | none => exact Ensures.throw
          | some next =>
            exact Obeys.bind (hT.decided next w2 fuel ha hnext) fun _ => ih
      all_goals first | exact Obeys.pure | exact Ensures.throw

omit hC hT in
theorem startTransactionRollback_obeys (hC : Reads C) {reason : Text}
    (happ : ∀ w, Obeys C (appendSagaStep tid (.transactionRollbackStarted tid reason) fuel) w)
    (w : World) : Obeys C (startTransactionRollback fuel tid reason) w := by
  refine check_bind_obeys fun _ _ => Obeys.request (hC _ rfl) fun rows => ?_
  split
  · exact Ensures.throw
  · split
    iterate 2
      · refine Obeys.bind (Obeys.outcomeOf (happ w)) fun r => ?_
        cases r with
        | ok u => exact Obeys.request (hC _ rfl) fun _ => check_obeys _ w
        | error e => exact Ensures.throw
    · exact check_obeys _ w

end

/-! ### Initializing -/

theorem wouldAcceptEach_obeys (hC : Reads C) {transfers : GoMap TransferSpec} (w : World) :
    ∀ ids, Obeys C (wouldAcceptEach tid transfers ids) w
  | [] => Obeys.pure
  | childID :: rest => by
    unfold wouldAcceptEach
    split
    · exact wouldAcceptEach_obeys hC w rest
    · exact Obeys.bind_option (Transfer.wouldAcceptTransfer_obeys hC _ _ _ w)
        (wouldAcceptEach_obeys hC w rest) fun _ => Obeys.pure

/-- A Transaction that is not rejected has a DAG `validateDAG` accepts. -/
theorem initialRejection_returns (hC : Reads C) (spec : Spec) (w : World) :
    Ensures C (initialRejection tid spec) (fun r _ => r = none →
      validateDAG spec.transfers spec.transferDependency = .ok ()) w := by
  unfold initialRejection
  cases hdag : validateDAG spec.transfers spec.transferDependency with
  | error e => exact Ensures.pure fun _ _ h => by simp at h
  | ok u =>
    refine Ensures.seq (Obeys.outcomeOf (Obeys.request (hC (.rangeMap _) rfl) fun _ =>
      wouldAcceptEach_obeys hC w _)) fun r _ _ _ => ?_
    cases r with
    | ok reason => exact Ensures.pure fun _ _ _ => rfl
    | error e => exact Ensures.throw

section

variable (hC : Lenient C S)
  (hi : Permits C (.appendAtomic
    [⟨.transaction, tid, 0, [TransactionEvent.transactionInitialized tid spec]⟩]))
  (hr : ∀ reason, Permits C (.appendAtomic
    [⟨.transaction, tid, 0, [TransactionEvent.transactionRejected tid reason]⟩]))
include hC hi hr

theorem startInitializingAttempts_obeys (w : World) :
    ∀ attempts, Obeys C (startInitializingAttempts tid spec attempts) w
  | 0 => Ensures.throw
  | attempts + 1 => by
    refine Obeys.request (hC.free _ rfl) fun rows => ?_
    split
    · refine Obeys.bind (Obeys.of_ensures (initialRejection_returns hC.reads spec w)) fun r => ?_
      cases r with
      | none =>
        refine Obeys.request hi fun r => ?_
        split
        · exact Obeys.pure
        · exact startInitializingAttempts_obeys w attempts
        · exact Ensures.throw
      | some reason =>
        refine Obeys.request (hr reason) fun r => ?_
        split
        · exact Obeys.pure
        · exact startInitializingAttempts_obeys w attempts
        · exact Ensures.throw
    · exact check_obeys _ w

theorem startInitializingTransaction_obeys (w : World) :
    Obeys C (startInitializingTransaction tid spec) w :=
  check_bind_obeys fun _ _ => startInitializingAttempts_obeys hC hi hr w _

end

end MoneyFlow.Transaction
