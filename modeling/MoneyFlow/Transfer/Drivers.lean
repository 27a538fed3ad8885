import MoneyFlow.Transfer.Prepare

/-!
# MoneyFlow.Transfer.Drivers

`Resume` and the RPCs of the Transfer service keep the protocol, and what they
answer is true: a request answered as rejected is, a cancel answered as done is.
-/

namespace MoneyFlow.Transfer

open Concurrent Service

variable {fuel : Nat} {req : RequestTransferRequest} {amount : Money} {reason : Text}
  {es : List TransferEvent}

variable {R : Prop} {A : Op → World → Prop} {w w' : World} {id : Id}

section

variable (hA : Assumes R A)
include hA

/-! ### Resume -/

theorem dispatch_conducts {rows : List (Row TransferEvent)} (hrows : rows <+: w.transfer id) :
    Conducts R A (dispatch fuel id rows) (fun _ _ => True) w := by
  unfold dispatch
  split
  · refine (prepare_conducts hA fuel).seq_some (fun _ => Obeys.pure) fun step w1 _ hr => ?_
    obtain ⟨hlegs, hstage⟩ := hr step rfl
    dsimp only
    split
    · rename_i hst
      exact stageClaimed_conducts hA hlegs (hst ▸ hstage)
    · rename_i hst
      refine commitClaimed_conducts hA hlegs (fun h => by simp at h) fun _ => ?_
      rw [hstage]
      simpa using hst
  · refine Conducts.check_bind fun staging hstaging => ?_
    have hstage : w.stage id = .ok staging := stageRequested_grow hstaging (eventsOf_grow hrows)
    cases staging with
    | true => exact stage_conducts hA hstage
    | false => exact commit_conducts hA fun w1 hle _ _ => World.stage_grow hle hstage

theorem runSagaFrom_conducts : ∀ (fuel : Nat) {rows : List (Row TransferEvent)} {w : World},
    rows <+: w.transfer id → Conducts R A (runSagaFrom id fuel rows) (fun _ _ => True) w
  | 0, _, _, _ => Ensures.halted
  | fuel + 1, rows, w, hrows => by
    have hloop : Conducts R A (do
        dispatch fuel id rows
        let rows' ← load .transfer id
        if currentState (eventsOf rows') = currentState (eventsOf rows) then pure ()
        else runSagaFrom id fuel rows') (fun _ _ => True) w := by
      refine (dispatch_conducts hA hrows).seq fun _ w1 _ _ => ?_
      refine Conducts.load_transfer hA fun w2 _ _ => ?_
      split
      · exact Obeys.pure
      · exact runSagaFrom_conducts fuel List.prefix_rfl
    unfold runSagaFrom
    split
    · exact Ensures.throw
    · split
      · exact Obeys.pure
      · split
        · exact hloop
        · exact hloop
        · exact Obeys.pure
        · exact Obeys.pure
        · exact Obeys.pure
        · exact Obeys.pure
        · exact Obeys.pure
        · exact Ensures.throw

theorem resume_conducts : Conducts R A (resume fuel id) (fun _ _ => True) w :=
  Conducts.load_transfer hA fun _ _ _ => runSagaFrom_conducts hA fuel List.prefix_rfl

end

/-! ### Requests -/

/-- A stream that opens with a rejection is a rejected Transfer's. -/
theorem outcome_rejected {es' : List TransferEvent} (hr : rejectedRequest es = true)
    (hp : es <+: es') : outcome es' = .rejected := by
  have hne : es ≠ [] := by
    rintro rfl
    simp [rejectedRequest] at hr
  have hne' : es' ≠ [] := fun h => hne (List.prefix_nil.mp (h ▸ hp))
  unfold outcome
  rw [if_neg (by simpa using hne'), if_pos (by rw [rejectedRequest_grow hne hp]; exact hr)]

/-- The decision a request is answered with. -/
def RequestTransferResponse.event : RequestTransferResponse → TransferEvent
  | .accepted a => .transferRequestAccepted a
  | .rejected id reason => .transferRequestRejected id reason

/-- The decision a reversal's request is answered with. -/
def RequestReversalResponse.event : RequestReversalResponse → TransferEvent
  | .accepted a => .reversalRequestAccepted a
  | .rejected id transferID reason => .reversalRequestRejected id transferID reason

theorem decidedRequestTransfer_opens {r : RequestTransferResponse}
    (h : decidedRequestTransfer id es = .ok r) : [r.event] <+: es := by
  cases es with
  | nil => simp [decidedRequestTransfer] at h
  | cons e es =>
    cases e <;> simp [decidedRequestTransfer] at h
    all_goals (subst h; exact ⟨es, rfl⟩)

theorem decidedRequestReversal_opens {r : RequestReversalResponse}
    (h : decidedRequestReversal id es = .ok r) : [r.event] <+: es := by
  cases es with
  | nil => simp [decidedRequestReversal] at h
  | cons e es =>
    cases e <;> simp [decidedRequestReversal] at h
    all_goals (subst h; exact ⟨es, rfl⟩)

/-- The amount is valid, and what is to mint a source names a Transaction. -/
theorem validateRequest_parts (h : validateRequest req = .ok amount) :
    validateMoney "amount" req.amount = .ok amount ∧
      ¬ (req.mintSource = true ∧ req.transactionID = Id.empty) := by
  unfold validateRequest at h
  split at h
  · simp at h
  · split at h
    · simp at h
    · split at h
      · simp at h
      · split at h
        · simp at h
        · rename_i a ha
          split at h
          · simp at h
          · rename_i hmint
            cases h
            exact ⟨ha, hmint⟩

theorem validateRequest_money (h : validateRequest req = .ok amount) :
    validateMoney "amount" req.amount = .ok amount :=
  (validateRequest_parts h).1

theorem validateRequest_ok (h : validateRequest req = .ok amount) : amount.minorUnits ≠ 0 :=
  (validateMoney_ok (validateRequest_money h)).2.1

theorem validateRequest_id (h : validateRequest req = .ok amount) : req.id.isUUID = true := by
  unfold validateRequest at h
  split at h
  · simp at h
  · rename_i hid
    exact validateId_ok hid

section

variable (hA : Assumes R A)
include hA

/-- Opening a Transfer's stream with its decision, which is the answer; or once
more. -/
theorem tryOpen_conducts {e : TransferEvent} {β : Type} {event : β → TransferEvent} {r : β}
    {again : Service β} (hr : event r = e) (he : opensStream e.eventType = true)
    (hid : id.isUUID = true) (hb : Henceforth R (fun w1 => Backed w1 id e) w)
    (hagain : ∀ w1, Conducts R A again (fun r w' => [event r] <+: eventsOf (w'.transfer id)) w1) :
    Conducts R A (do if ← tryAppend id 0 e then pure r else again)
      (fun r w' => [event r] <+: eventsOf (w'.transfer id)) w := by
  refine (tryAppend_conducts hA (P := True) List.nil_prefix fun w1 hle _ hinv heq => ?_).seq
    fun landed w1 _ hlanded => ?_
  · exact ⟨.opening heq he (hb w1 hle hinv) hid, trivial⟩
  · cases landed with
    | true =>
      exact Ensures.pure fun _ hle => hr ▸ (hlanded rfl).2.trans (World.transfer_grow hle _)
    | false => exact hagain w1

theorem requestTransferAttempts_opens (hamount : amount.minorUnits ≠ 0)
    (hid : req.id.isUUID = true) :
    ∀ (attempts : Nat) {w : World},
      Conducts R A (requestTransferAttempts req amount attempts)
        (fun r w' => [r.event] <+: eventsOf (w'.transfer req.id)) w
  | 0, _ => Ensures.throw
  | attempts + 1, w => by
    refine Conducts.load_transfer hA fun w1 _ _ => ?_
    split
    · refine (acceptRejection_obeys contract_reads _ _ _).seq fun r w2 _ _ => ?_
      cases r with
      | none =>
        exact tryOpen_conducts hA rfl rfl hid (fun _ _ _ => ⟨rfl, hamount⟩)
          fun _ => requestTransferAttempts_opens hamount hid attempts
      | some reason =>
        exact tryOpen_conducts hA rfl rfl hid (fun _ _ _ => trivial)
          fun _ => requestTransferAttempts_opens hamount hid attempts
    · exact Conducts.check fun r hr _ hle =>
        (decidedRequestTransfer_opens hr).trans (World.transfer_grow hle req.id)

/-- The answer to a request is what its stream opens with. -/
theorem requestTransfer_opens :
    Conducts R A (requestTransfer req)
      (fun r w' => [r.event] <+: eventsOf (w'.transfer req.id)) w :=
  Conducts.check_bind fun _ ha => requestTransferAttempts_opens hA (validateRequest_ok ha)
    (validateRequest_id ha) _

/-- A request answered as rejected is a rejected Transfer's. -/
theorem requestTransfer_conducts : Conducts R A (requestTransfer req)
      (fun r w' => ∀ i reason, r = .rejected i reason → w'.outcome req.id = .rejected) w := by
  refine (requestTransfer_opens hA).mono fun r w' _ h i reason hr => ?_
  subst hr
  exact outcome_rejected rfl h

theorem requestReversalAttempts_opens {req : RequestReversalRequest} (hid : req.id.isUUID = true) :
    ∀ (attempts : Nat) {w : World}, Conducts R A (requestReversalAttempts req attempts)
      (fun r w' => [r.event] <+: eventsOf (w'.transfer req.id)) w
  | 0, _ => Ensures.throw
  | attempts + 1, w => by
    refine Conducts.load_transfer hA fun w1 _ _ => ?_
    split
    · refine (reversalManifest_conducts hA).seq fun r w2 _ hman => ?_
      cases r with
      | ok plan =>
        exact tryOpen_conducts hA rfl rfl hid ((hman plan rfl).1.imp fun _ _ h => ⟨rfl, h⟩)
          fun _ => requestReversalAttempts_opens hid attempts
      | error reason =>
        exact tryOpen_conducts hA rfl rfl hid (fun _ _ _ => trivial)
          fun _ => requestReversalAttempts_opens hid attempts
    · exact Conducts.check fun r hr _ hle =>
        (decidedRequestReversal_opens hr).trans (World.transfer_grow hle req.id)

/-- The answer to a reversal's request is what its stream opens with. -/
theorem requestReversal_opens {req : RequestReversalRequest} :
    Conducts R A (requestReversal req)
      (fun r w' => [r.event] <+: eventsOf (w'.transfer req.id)) w :=
  Conducts.check_bind fun _ hid => Conducts.check_bind fun _ _ =>
    requestReversalAttempts_opens hA (validateId_ok hid) _

/-- A reversal answered as rejected is a rejected one. -/
theorem requestReversal_conducts {req : RequestReversalRequest} :
    Conducts R A (requestReversal req)
      (fun r w' => ∀ i o reason, r = .rejected i o reason → w'.outcome req.id = .rejected) w := by
  refine (requestReversal_opens hA).mono fun r w' _ h i o reason hr => ?_
  subst hr
  exact outcome_rejected rfl h

/-! ### Cancel and settle -/

omit hA in
/-- A stream read as cancelled is a cancelled Transfer's from then on. -/
theorem henceforth_cancelled (hinv : Inv R w)
    (hs : currentState (eventsOf (w.transfer id)) = .cancelled) :
    Henceforth R (fun w' => w'.outcome id = .cancelled) w :=
  henceforth_outcome ((outcome_of_state (hinv.lifecycle id) (by rw [hs]; rfl)).2.2 hs) rfl

/-- A step that may cancel; if it has not, once more. -/
theorem stepCancel_conducts {β : Type} {Q : β → World → Prop} {step : Service Unit} {r : β}
    {again : Service β} (hstep : Conducts R A step (fun _ _ => True) w)
    (hr : ∀ w1, Henceforth R (fun w' => w'.outcome id = .cancelled) w1 → Q r w1)
    (hagain : ∀ w1, w ≤ w1 → Conducts R A again Q w1) :
    Conducts R A (do
      runStep step
      let rows' ← load .transfer id
      if currentState (eventsOf rows') = .cancelled then pure r else again) Q w := by
  refine (runStep_obeys hstep).seq fun _ w1 hle1 _ => ?_
  refine Conducts.load_transfer hA fun w2 hle2 hinv => ?_
  split
  · rename_i hs
    exact Ensures.pure fun w3 hle3 => hr w3 ((henceforth_cancelled hinv hs).grow hle3)
  · exact hagain w2 (hle1.trans hle2)

theorem cancelAcceptedAttempts_conducts :
    ∀ (attempts : Nat) {w : World}, Conducts R A (cancelAcceptedAttempts fuel id reason attempts)
      (fun _ w' => Henceforth R (fun w'' => w''.outcome id = .cancelled) w') w
  | 0, _ => Ensures.throw
  | attempts + 1, w => by
    refine Conducts.load_transfer hA fun w1 _ hinv => ?_
    split
    · exact Ensures.throw
    · split
      · rename_i hs
        exact Ensures.pure fun w2 hle2 => (henceforth_cancelled hinv hs).grow hle2
      iterate 2
        · exact stepCancel_conducts hA (cancelPrepared_conducts hA) (fun _ h => h)
            fun _ _ => cancelAcceptedAttempts_conducts attempts
      · exact Ensures.throw

/-- A cancel that returns has cancelled. -/
theorem cancelAcceptedTransfer_conducts : Conducts R A (cancelAcceptedTransfer fuel id reason)
      (fun _ w' => Henceforth R (fun w'' => w''.outcome id = .cancelled) w') w :=
  Conducts.check_bind fun _ _ => cancelAcceptedAttempts_conducts hA _

/-- Recording a refusal, which is the answer; or once more. -/
theorem tryRefuse_conducts {rows : List (Row TransferEvent)} {e : TransferEvent} {β : Type}
    {Q : β → World → Prop} {r : β} {again : Service β} (hrows : rows <+: w.transfer id)
    (hne : ¬ rows.isEmpty = true) (he : isResponse e.eventType = true)
    (hr : ∀ w1 w2, Lands A [⟨.transfer, id, rows.length, [e]⟩] w1 → Q r w2)
    (hagain : ∀ w1, w ≤ w1 → Conducts R A again Q w1) :
    Conducts R A (do if ← tryAppend id rows.length e then pure r else again) Q w := by
  refine (tryAppend_conducts hA (P := ∀ w2, Q r w2) hrows fun w1 _ hlands _ heq => ?_).seq
    fun landed w1 hle hlanded => ?_
  · refine ⟨.response ?_ he, fun w2 => hr w1 w2 hlands⟩
    rw [heq]
    simpa using hne
  · cases landed with
    | true => exact Ensures.pure fun w2 _ => (hlanded rfl).1 w2
    | false => exact hagain w1 hle

/-- What a `ConfirmStagedTransfer` answers: a Transfer answered as pending was
confirmed. -/
def ConfirmAnswer (w : World) (id : Id) : ConfirmStagedTransferResponse → Prop
  | .transferPending _ => Recorded .transferPending (eventsOf (w.transfer id))
  | .rejected _ _ => True

theorem confirmStagedAttempts_conducts : ∀ (attempts : Nat) {w : World},
    Conducts R A (confirmStagedAttempts fuel id attempts) (fun r w' => ConfirmAnswer w' id r) w
  | 0, _ => Ensures.throw
  | attempts + 1, w => by
    refine Conducts.load_transfer hA fun w1 _ _ => ?_
    split
    · exact Ensures.pure fun _ _ => trivial
    · rename_i hne
      split
      · refine (Ensures.outcomeOf (confirmStaged_conducts hA)).seq fun r w2 _ hr => ?_
        cases r with
        | ok _ => exact Ensures.pure fun _ hle => (hr () rfl).grow (World.transfer_grow hle id)
        | error e => exact Ensures.throw
      · rename_i hs
        exact Ensures.pure fun _ hle => (recorded_pending hs).grow (World.transfer_grow hle id)
      · exact tryRefuse_conducts hA List.prefix_rfl hne rfl (fun _ _ _ => trivial)
          fun _ _ => confirmStagedAttempts_conducts attempts

/-- A confirm answered as pending is on record. -/
theorem confirmStagedTransfer_conducts :
    Conducts R A (confirmStagedTransfer fuel id) (fun r w' => ConfirmAnswer w' id r) w :=
  Conducts.check_bind fun _ _ => confirmStagedAttempts_conducts hA _

/-- What a `PostPendingTransfer` answers: a Transfer answered as committed is. -/
def PostAnswer (R : Prop) (w : World) (id : Id) : PostPendingTransferResponse → Prop
  | .transferCommitted _ _ => Henceforth R (fun w' => w'.outcome id = .committed) w
  | .rejected _ _ => True

omit hA in
/-- A stream read as committed is a committed Transfer's from then on. -/
theorem henceforth_committed (hinv : Inv R w)
    (hs : currentState (eventsOf (w.transfer id)) = .committed) :
    Henceforth R (fun w' => w'.outcome id = .committed) w :=
  henceforth_outcome ((outcome_of_state (hinv.lifecycle id) (by rw [hs]; rfl)).2.1 hs) rfl

omit hA in
theorem postAnswer_of_committed (hinv : Inv R w)
    (hs : currentState (eventsOf (w.transfer id)) = .committed) (hle : w ≤ w')
    (r : PostPendingTransferResponse) : PostAnswer R w' id r := by
  cases r with
  | transferCommitted i ds => exact (henceforth_committed hinv hs).grow hle
  | rejected i reason => trivial

theorem postPendingAttempts_conducts : ∀ (attempts : Nat) {w : World},
    Conducts R A (postPendingAttempts fuel id attempts) (fun r w' => PostAnswer R w' id r) w
  | 0, _ => Ensures.throw
  | attempts + 1, w => by
    refine Conducts.load_transfer hA fun w1 _ hinv1 => ?_
    split
    · exact Ensures.pure fun _ _ => trivial
    · rename_i hne
      split
      · rename_i hpending
        -- what was pending is never prepared again
        refine (runStep_obeys (commit_conducts hA fun w2 hle2 hinv hs => ?_)).seq ?_
        · have hrank := (hinv.lifecycle id).rank_le (World.transfer_grow hle2 id)
          rw [hs, hpending] at hrank
          exact absurd hrank (by decide)
        · intro _ w2 _ _
          refine Conducts.load_transfer hA fun w3 _ hinv3 => ?_
          split
          · rename_i hs
            exact Conducts.check fun r _ _ hle => postAnswer_of_committed hinv3 hs hle r
          · exact Ensures.throw
          · exact postPendingAttempts_conducts attempts
      · rename_i hs
        exact Conducts.check fun r _ _ hle => postAnswer_of_committed hinv1 hs hle r
      · exact tryRefuse_conducts hA List.prefix_rfl hne rfl (fun _ _ _ => trivial)
          fun _ _ => postPendingAttempts_conducts attempts

/-- A post answered as committed is. -/
theorem postPendingTransfer_conducts :
    Conducts R A (postPendingTransfer fuel id) (fun r w' => PostAnswer R w' id r) w :=
  Conducts.check_bind fun _ _ => postPendingAttempts_conducts hA _

end

/-- The write records that a cancel was refused. -/
def refusesCancel : StreamWrite → Bool
  | ⟨.transfer, _, _, events⟩ =>
    events.any fun (e : TransferEvent) => e.eventType == .cancelStagedTransferRejected
  | _ => false

/-- What a `CancelStagedTransfer` answers: the Transfer is cancelled; or its
stream was empty, or the refusal was recorded and so `P` holds. -/
def CancelAnswer (R P : Prop) (w : World) (id : Id) : CancelStagedTransferResponse → World → Prop
  | .transferCancelled _ _, w' => Henceforth R (fun w'' => w''.outcome id = .cancelled) w'
  | .rejected _ _, _ => w.transfer id = [] ∨ P

section

variable (hA : Assumes R A) {P : Prop}
  (hP : ∀ ws w, Lands A ws w → (∃ x ∈ ws, refusesCancel x = true) → P)
include hA hP

theorem cancelStagedAttempts_conducts : ∀ (attempts : Nat) {w : World},
    Conducts R A (cancelStagedAttempts fuel id reason attempts) (CancelAnswer R P w id) w
  | 0, _ => Ensures.throw
  | attempts + 1, w => by
    have hagain {w1 : World} (hle : w ≤ w1) :
        Conducts R A (cancelStagedAttempts fuel id reason attempts) (CancelAnswer R P w id) w1 := by
      refine (cancelStagedAttempts_conducts attempts).mono fun r w2 _ h => ?_
      cases r with
      | transferCancelled i r => exact h
      | rejected i r =>
        exact h.imp_left fun (hnil : w1.transfer id = []) =>
          List.prefix_nil.mp (hnil ▸ hle.stream .transfer id)
    refine Conducts.load_transfer hA fun w1 hle hinv => ?_
    split
    · rename_i hempty
      refine Ensures.pure fun _ _ => Or.inl ?_
      exact List.prefix_nil.mp (List.isEmpty_iff.mp hempty ▸ hle.stream .transfer id)
    · rename_i hne
      split
      iterate 2
        · exact stepCancel_conducts hA (cancelStaged_conducts hA) (fun _ h => h)
            fun _ hle2 => hagain (hle.trans hle2)
      · rename_i hs
        exact Ensures.pure fun w2 hle2 => (henceforth_cancelled hinv hs).grow hle2
      · exact tryRefuse_conducts hA List.prefix_rfl hne rfl
          (fun _ _ hlands => Or.inr (hP _ _ hlands ⟨_, List.mem_singleton.mpr rfl, rfl⟩))
          fun _ hle2 => hagain (hle.trans hle2)

theorem cancelStagedTransfer_conducts :
    Conducts R A (cancelStagedTransfer fuel id reason) (CancelAnswer R P w id) w :=
  Conducts.check_bind fun _ _ => cancelStagedAttempts_conducts hA hP _

end

end MoneyFlow.Transfer
