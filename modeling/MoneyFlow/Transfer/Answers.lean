import MoneyFlow.Transfer.Waiting

/-!
# MoneyFlow.Transfer.Answers

What the settling RPCs answer, over every interleaving of their callers.

A handler acts on one reading of the stream, runs a claimed step that may lose,
be superseded or converge with another caller's, and then reads the stream
again. Whatever it answers rests on a reading taken while it ran, and what that
reading says either stays on record (`TransferPending`) or is the Transfer's end
(`Committed`, `Cancelled`). So an answer is not only true when it is given: it
stays true, and no other caller is ever told otherwise.
-/

namespace MoneyFlow

open Concurrent

namespace Transfer

variable {c : System} {id : Id}

/-- A `PostPendingTransfer` was answered as committed. -/
def AnsweredCommitted (c : System) (id : Id) : Prop :=
  ∃ i destinations,
    (.postPendingTransfer id,
      .ret (.ok (.postPendingTransfer (.transferCommitted i destinations)))) ∈
      c.threads

/-- A `CancelStagedTransfer` or `CancelAcceptedTransfer` was answered as
cancelled. -/
def AnsweredCancelled (c : System) (id : Id) : Prop :=
  (∃ reason i r,
    (.cancelStagedTransfer id reason, .ret (.ok (.cancelStagedTransfer (.transferCancelled i r)))) ∈
      c.threads) ∨
  ∃ reason r,
    (.cancelAcceptedTransfer id reason, .ret (.ok (.cancelAcceptedTransfer r))) ∈ c.threads

/-- A `ConfirmStagedTransfer` was answered as pending. -/
def AnsweredPending (c : System) (id : Id) : Prop :=
  ∃ i, (.confirmStagedTransfer id, .ret (.ok (.confirmStagedTransfer (.transferPending i)))) ∈
    c.threads

theorem state_of_outcome_cancelled {es : List TransferEvent} (h : outcome es = .cancelled) :
    currentState es = .cancelled := by
  unfold outcome at h
  split at h
  · simp at h
  · split at h
    · simp at h
    · revert h
      cases currentState es <;> simp

theorem pending_of_answered (h : Pool.Reachable anyRun .init c) (ha : AnsweredPending c id) :
    Recorded .transferPending (eventsOf (c.state.transfer id)) := by
  obtain ⟨i, hm⟩ := ha
  exact reachable_answered refusals_true h hm

theorem committed_of_answered (h : Pool.Reachable anyRun .init c) (ha : AnsweredCommitted c id) :
    currentState (eventsOf (c.state.transfer id)) = .committed := by
  obtain ⟨i, destinations, hm⟩ := ha
  have hinv : Inv True c.state := reachable_inv refusals_true h
  have hanswer : Henceforth True (fun w => w.outcome id = .committed) c.state :=
    reachable_answered refusals_true h hm
  exact (outcome_eq_committed.mp (hanswer c.state le_rfl hinv)).2

theorem cancelled_of_answered (h : Pool.Reachable anyRun .init c) (ha : AnsweredCancelled c id) :
    currentState (eventsOf (c.state.transfer id)) = .cancelled := by
  have hinv : Inv True c.state := reachable_inv refusals_true h
  have hanswer : Henceforth True (fun w => w.outcome id = .cancelled) c.state := by
    rcases ha with ⟨reason, i, r, hm⟩ | ⟨reason, r, hm⟩
    · exact reachable_answered refusals_true h hm
    · exact reachable_answered refusals_true h hm
  exact state_of_outcome_cancelled (hanswer c.state le_rfl hinv)

/-- **Settlement answers are true and never contradict**, in every state of every
run, at the moment they are given and ever after. -/
theorem settlement_answers (h : Pool.Reachable anyRun .init c) (id : Id) :
    (AnsweredPending c id → Recorded .transferPending (eventsOf (c.state.transfer id))) ∧
    (AnsweredCommitted c id → currentState (eventsOf (c.state.transfer id)) = .committed) ∧
    (AnsweredCancelled c id → currentState (eventsOf (c.state.transfer id)) = .cancelled) ∧
    ¬ (AnsweredCommitted c id ∧ AnsweredCancelled c id) := by
  refine ⟨pending_of_answered h, committed_of_answered h, cancelled_of_answered h, ?_⟩
  rintro ⟨hcommitted, hcancelled⟩
  have hs := committed_of_answered h hcommitted
  rw [cancelled_of_answered h hcancelled] at hs
  exact absurd hs (by decide)

/-- The staged Transfer is confirmed; then one caller posts it while another,
started before, is still to cancel it. -/
def postedBeforeCancel : List (Move anyRun) :=
  stagedFromDeposit ++ [start (.confirmStagedTransfer (.uuid 5)) 20, .run 9 1000,
    start (.cancelStagedTransfer (.uuid 5) []) 20, .run 10 1,
    start (.postPendingTransfer (.uuid 5)) 20, .run 11 1000, .run 10 1000]

def toldPending (id : Id) : Driver → Reply → Bool
  | .confirmStagedTransfer i, .confirmStagedTransfer (.transferPending _) => i == id
  | _, _ => false

def toldCommitted (id : Id) : Driver → Reply → Bool
  | .postPendingTransfer i, .postPendingTransfer (.transferCommitted _ _) => i == id
  | _, _ => false

theorem settlement_answers_posted :
    let c := played postedBeforeCancel
    (AnsweredPending c (.uuid 5) ∧
      Recorded .transferPending (eventsOf (c.state.transfer (.uuid 5)))) ∧
    (AnsweredCommitted c (.uuid 5) ∧
      currentState (eventsOf (c.state.transfer (.uuid 5))) = .committed) ∧
    ¬ AnsweredCancelled c (.uuid 5) := by
  intro c
  have hpending : AnsweredPending c (.uuid 5) := by
    obtain ⟨d, r, hm, hp⟩ := mem_of_answeredAt (c := c) (i := 9) (p := toldPending (.uuid 5))
      (by decide +kernel)
    unfold toldPending at hp
    split at hp
    · obtain rfl := eq_of_beq hp
      exact ⟨_, hm⟩
    · simp at hp
  have hcommitted : AnsweredCommitted c (.uuid 5) := by
    obtain ⟨d, r, hm, hp⟩ := mem_of_answeredAt (c := c) (i := 11) (p := toldCommitted (.uuid 5))
      (by decide +kernel)
    unfold toldCommitted at hp
    split at hp
    · obtain rfl := eq_of_beq hp
      exact ⟨_, _, hm⟩
    · simp at hp
  obtain ⟨h1, h2, -, h3⟩ := settlement_answers (played_reachable postedBeforeCancel) (.uuid 5)
  exact ⟨⟨hpending, h1 hpending⟩, ⟨hcommitted, h2 hcommitted⟩, fun h => h3 ⟨hcommitted, h⟩⟩

end Transfer

end MoneyFlow
