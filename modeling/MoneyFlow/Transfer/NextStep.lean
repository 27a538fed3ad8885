import MoneyFlow.Runs

/-!
# MoneyFlow.Transfer.NextStep

A prepared Transfer always belongs to its next step.

`TransferPrepared` lands together with the claim of the step that follows, and
what lands on top of it before that step is recorded is a claim of the same kind
or a refused response; so from Prepared there is a live claim, and it is for what
the request asked for. That is the invariant's `TransferOk.claimed`. A cancel
waits for the claim to be gone, which it never is while the Transfer is Prepared:
`PreparedTransferCancelled` is never recorded, and what `CancelAcceptedTransfer`
cancels is at Accepted.
-/

namespace MoneyFlow.Transfer

open Concurrent

variable {w : World} {id : Id} {reason : Text}

/-- The event is a cancellation `cancelPrepared` records. -/
def cancelsEarly (e : TransferEvent) : Bool :=
  e.eventType == .acceptedTransferCancelled || e.eventType == .preparedTransferCancelled

/-- From which state such an event follows. -/
theorem state_of_cancelsEarly {es : List TransferEvent} {e : TransferEvent} (h : Follows es e)
    (he : cancelsEarly e = true) :
    (e.eventType = .acceptedTransferCancelled ∧ currentState es = .accepted) ∨
      e.eventType = .preparedTransferCancelled := by
  rcases Bool.or_eq_true_iff.mp he with heq | heq
  · have heq := beq_iff_eq.mp heq
    refine Or.inl ⟨heq, ?_⟩
    cases h with
    | opening _ ho => simp [heq, opensStream] at ho
    | prepared hs hp => exact hs
    | outcome ht =>
      rw [heq] at ht
      revert ht
      cases currentState es <;> simp [transitions]
    | claim _ hc => simp [heq, isClaimMarkerType] at hc
    | response _ hr => simp [heq, isResponse] at hr
  · exact Or.inr (beq_iff_eq.mp heq)

/-! ### What a cancel may append -/

/-- The writes of a `CancelAcceptedTransfer`. -/
def earlyCancels (id : Id) (reason : Text) : Scope where
  transfer i events := i = id ∧
    (events = [.acceptedTransferCancelled id reason] ∨
      events = [.preparedTransferCancelled id reason])
  wallet _ _ := False

/-- Only those are appended to a Transfer's stream. -/
def cancelling (id : Id) (reason : Text) : Contract World Op where
  assume _ _ := True
  ensure
    | .appendAtomic ws, _ => ∀ x ∈ ws, x.Within (earlyCancels id reason) ∨ x.Publishes
    | _, _ => True

theorem cancelling_lenient (id : Id) (reason : Text) :
    Lenient (cancelling id reason) (earlyCancels id reason) :=
  Open.lenient ⟨fun o _ _ _ => by cases o <;> trivial, fun _ hws _ _ => hws⟩

/-- What is asked of a driver: of a `CancelAcceptedTransfer`, that it appends
nothing else. -/
def driverCancels : Driver → Contract World Op
  | .cancelAcceptedTransfer id reason => cancelling id reason
  | _ => .free

theorem driverCancels_safe (d : Driver) (fuel : Nat) (w : World) :
    Safe (driverCancels d) (fun _ _ => True) (d.service fuel).run w := by
  cases d with
  | cancelAcceptedTransfer id reason =>
    have h : Obeys (cancelling id reason) (cancelAcceptedTransfer fuel id reason) w :=
      cancelAcceptedTransfer_obeys (cancelling_lenient id reason) ⟨rfl, Or.inl rfl⟩
        ⟨rfl, Or.inr rfl⟩ w
    exact Safe.mono (Obeys.map h) fun _ _ _ _ => trivial
  | _ => exact Safe.free (fun _ _ => trivial) _ _

theorem cancels_upheld : Upholds True (fun _ => True) (fun _ _ _ => True) driverCancels
    (fun _ => True) where
  init := trivial
  tick _ _ _ _ := trivial
  safe d fuel w _ := driverCancels_safe d fuel w
  assume d o w _ _ _ := by cases d <;> trivial
  step _ _ _ _ _ _ _ _ _ _ _ _ := trivial

/-- What a `CancelAcceptedTransfer` lands on a Transfer's stream cancels it from
Accepted. -/
theorem cancel_lands_accepted {c : System} (h : Pool.Reachable anyRun .init c)
    {ws : List StreamWrite}
    {k : Resp (.appendAtomic ws) → Prog Op Resp (Except Err Reply)}
    (hm : (.cancelAcceptedTransfer id reason, .op (.appendAtomic ws) k) ∈ c.threads)
    {st : Store} (hst : appendAtomic c.state.clock c.state.store ws = .ok st) {i : Id} {seq : Nat}
    {events : List TransferEvent} (hx : StreamWrite.mk .transfer i seq events ∈ ws) :
    i = id ∧ events = [.acceptedTransferCancelled id reason] ∧
      currentState (eventsOf (c.state.transfer id)) = .accepted := by
  obtain ⟨-, hthreads⟩ := reachable_upheld refusals_true cancels_upheld h
  have hinv := reachable_inv refusals_true h
  obtain ⟨hlegal, hscope⟩ := hthreads.ensure hm ⟨⟨trivial, hinv⟩, trivial⟩
  have hwithin : (earlyCancels id reason).transfer i events := (hscope _ hx).resolve_right not_false
  obtain ⟨rfl, hevents⟩ := hwithin
  have happend : TransferAppend c.state ws i events :=
    hlegal st hst _ hx (by rcases hevents with rfl | rfl <;> exact List.cons_ne_nil _ _)
  rcases hevents with rfl | rfl
  · refine ⟨rfl, rfl, ?_⟩
    cases happend with
    | outcome ht hb =>
      revert ht
      cases currentState (eventsOf (c.state.transfer i)) <;>
        simp [transitions, TransferEvent.eventType]
    | opening _ ho _ => simp [opensStream, TransferEvent.eventType] at ho
    | claim _ hc _ => simp [isClaimMarkerType, TransferEvent.eventType] at hc
    | response _ hr => simp [isResponse, TransferEvent.eventType] at hr
  · -- nothing backs the cancellation of a prepared Transfer
    cases happend with
    | outcome ht hb => exact hb.elim
    | opening _ ho _ => simp [opensStream, TransferEvent.eventType] at ho
    | claim _ hc _ => simp [isClaimMarkerType, TransferEvent.eventType] at hc
    | response _ hr => simp [isResponse, TransferEvent.eventType] at hr

/-! ### The next step's claim -/

/-- **A prepared Transfer always belongs to its next step.** In every state of
every run: a Transfer at Prepared has a live claim, for staging if that was asked
for and for committing otherwise; no `PreparedTransferCancelled` was ever recorded;
and what `cancelPrepared` recorded, and whatever a `CancelAcceptedTransfer` is about
to land, cancels a Transfer at Accepted. -/
theorem prepared_belongs_to_next_step {c : System} (h : Pool.Reachable anyRun .init c) (id : Id) :
    (currentState (eventsOf (c.state.transfer id)) = .prepared →
      ∃ row stage, liveMarker (c.state.transfer id) = some row ∧
        stageRequested (eventsOf (c.state.transfer id)) = .ok stage ∧
        row.event.eventType =
          if stage then .stagingTransferStarted else .transferCommittingStarted) ∧
    (∀ i r, .preparedTransferCancelled i r ∉ eventsOf (c.state.transfer id)) ∧
    (∀ es e, es ++ [e] <+: eventsOf (c.state.transfer id) → cancelsEarly e = true →
      e.eventType = .acceptedTransferCancelled ∧ currentState es = .accepted) ∧
    ∀ reason ws k st i seq events,
      (.cancelAcceptedTransfer id reason, .op (.appendAtomic ws) k) ∈ c.threads →
      appendAtomic c.state.clock c.state.store ws = .ok st →
      StreamWrite.mk .transfer i seq events ∈ ws →
        i = id ∧ events = [.acceptedTransferCancelled id reason] ∧
          currentState (eventsOf (c.state.transfer id)) = .accepted := by
  have hok := (reachable_inv refusals_true h).transfer id
  have hnever : ∀ i r, .preparedTransferCancelled i r ∉ eventsOf (c.state.transfer id) :=
    fun i r hm => hok.backed _ hm
  refine ⟨fun hs => ?_, hnever, fun es e hp he => ?_, fun _ _ _ _ _ _ _ hm hst hx =>
    cancel_lands_accepted h hm hst hx⟩
  · obtain ⟨row, stage, hrow, hstage, hev⟩ := hok.claimed hs
    refine ⟨row, stage, hrow, hstage, ?_⟩
    rw [hev]
    cases stage <;> rfl
  · rcases state_of_cancelsEarly (hok.lifecycle es e hp) he with haccepted | hprepared
    · exact haccepted
    · have hmem : e ∈ eventsOf (c.state.transfer id) :=
        hp.subset (List.mem_append_right _ List.mem_cons_self)
      cases e with
      | preparedTransferCancelled i r => exact absurd hmem (hnever i r)
      | _ => simp [TransferEvent.eventType] at hprepared

/-- The deposit's Transfer, prepared and not yet committed, has the claim to commit. -/
theorem deposit_prepared :
    let c := played (inTurn 0 (deposit.take 4) ++ [start (.resumeTransfer (.uuid 3)) 20, .run 4 10])
    Pool.Reachable anyRun .init c ∧
    currentState (eventsOf (c.state.transfer (.uuid 3))) = .prepared ∧
      ∃ row stage, liveMarker (c.state.transfer (.uuid 3)) = some row ∧
        stageRequested (eventsOf (c.state.transfer (.uuid 3))) = .ok stage ∧
        row.event.eventType =
          if stage then .stagingTransferStarted else .transferCommittingStarted := by
  intro c
  have hreach : Pool.Reachable anyRun .init c := played_reachable _
  have hs : currentState (eventsOf (c.state.transfer (.uuid 3))) = .prepared := by decide +kernel
  exact ⟨hreach, hs, (prepared_belongs_to_next_step hreach (.uuid 3)).1 hs⟩

end MoneyFlow.Transfer
