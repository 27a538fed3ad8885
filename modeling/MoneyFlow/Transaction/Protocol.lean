import MoneyFlow.Transaction.History
import MoneyFlow.Transfer.Invariant

/-!
# MoneyFlow.Transaction.Protocol

What may be written to a Transaction's stream, and what makes it true.

`TransactionAppend` lists the appends of the saga and its RPCs, each from the
stream as it stands when the append lands. A fact about a child is recorded only
once the child's Transfer bears it out for good (`Backed`).

One fact is weaker than it should be. A cancel of a staged child that the
Transfer service refuses is recorded as a failed rollback without asking what
became of the child, so `Backed` is stated relative to `R`: *some such cancel was
refused*.
-/

namespace MoneyFlow

variable {events : List TransactionEvent}

/-- The outcomes that moved no money. -/
def Transfer.OutcomeKind.ended : Transfer.OutcomeKind → Bool
  | .rejected | .failed | .cancelled => true
  | _ => false

theorem Transfer.OutcomeKind.final_of_ended {k : Transfer.OutcomeKind} (h : k.ended = true) :
    k.final = true := by
  cases k <;> simp [ended] at h <;> rfl

namespace World

/-- The events of a Transaction's stream. -/
def log (w : World) (tid : Id) : List TransactionEvent := eventsOf (w.transaction tid)

theorem log_grow {w w' : World} (h : w ≤ w') (tid : Id) : w.log tid <+: w'.log tid :=
  Transfer.eventsOf_grow (h.stream .transaction tid)

theorem transfer_ne_nil {w w' : World} {id : Id} (h : w ≤ w') (hne : w.transfer id ≠ []) :
    w'.transfer id ≠ [] :=
  fun hnil => hne (List.prefix_nil.mp (hnil ▸ h.stream .transfer id))

end World

namespace Transaction

open Transfer (Lifecycle eventsOf_grow eventsOf_eq_nil eventsOf_append eventsOf_rowsFrom)

variable {R : Prop} {w w' : World} {tid c : Id}

/-- The child's Transfer moved no money, or its Reversal has moved it back. -/
def Undone (w : World) (tid c : Id) : Prop :=
  (w.outcome c).ended = true ∨
    (w.outcome c = .committed ∧ w.outcome (.reversal tid c) = .committed)

/-- The child's Transfer is committed and its Reversal ended without undoing
it. -/
def Stuck (w : World) (tid c : Id) : Prop :=
  w.outcome c = .committed ∧ (w.outcome (.reversal tid c)).ended = true

/-- What makes an event on the Transaction's stream true. -/
def Backed (R : Prop) (w : World) (tid : Id) : TransactionEvent → Prop
  | .transferCompletedWithinTransaction _ c => w.outcome c = .committed
  | .transferFailedWithinTransaction _ c _ => (w.outcome c).ended = true
  | .transferReversalRequestedWithinTransaction _ c _ => w.outcome c = .committed
  | .transferRolledBackWithinTransaction _ c _ _ => Undone w tid c
  | .transferRollbackFailedWithinTransaction _ c _ => Stuck w tid c ∨ R ∧ w.transfer c ≠ []
  | _ => True

/-- An append to a Transaction's stream. -/
inductive TransactionAppend (R : Prop) (w : World) (tid : Id) : List TransactionEvent → Prop
  | initialized {spec : Spec} (hes : w.transaction tid = [])
      (hdag : validateDAG spec.transfers spec.transferDependency = .ok ()) :
      TransactionAppend R w tid [.transactionInitialized tid spec]
  | rejected {reason : Text} (hes : w.transaction tid = []) :
      TransactionAppend R w tid [.transactionRejected tid reason]
  | intents {spec : Spec} {starting : Bool} {slice : List Id}
      (htop : topLevelState (w.log tid) = if starting then .initialized else .started)
      (hspec : decodeSpec (w.log tid) = .ok spec) (hnd : slice.Nodup)
      (hslice : ∀ c ∈ slice, Dispatchable spec (w.log tid) c) :
      TransactionAppend R w tid (intentsFor tid starting slice)
  | step {event : TransactionEvent} {rest : List TransactionEvent}
      (hf : Follows tid (w.log tid) event) (hb : Backed R w tid event)
      (hrest : childEventTransferID event = Id.empty ∧ rest = [] ∨
        consequences tid 3 (w.log tid ++ [event]) = .ok rest) :
      TransactionAppend R w tid (event :: rest)

/-- The rollback has begun and may undo the child now. -/
def MayUndo (w : World) (tid c : Id) : Prop :=
  RollbackBegun (w.log tid) ∧ Cleared (w.log tid) c

/-- A call the saga may make on the Transfer service. -/
def LegalCall (w : World) : Call → Prop
  | .requestTransfer tid c => Requested (w.log tid) c
  | .requestReversal tid c rid =>
    rid = .reversal tid c ∧ MayUndo w tid c ∧ w.outcome c = .committed
  | .cancelStagedTransfer tid c => MayUndo w tid c
  | .cancelAcceptedTransfer tid c => MayUndo w tid c

/-! ### Evidence is kept -/

section Grow

variable (hle : w ≤ w') (hL : ∀ i, Lifecycle (eventsOf (w'.transfer i)))
include hle hL

theorem committed_grow (h : w.outcome c = .committed) : w'.outcome c = .committed := by
  rw [World.outcome_grow hle (hL c) (by rw [h]; rfl)]
  exact h

theorem ended_grow (h : (w.outcome c).ended = true) : (w'.outcome c).ended = true := by
  rw [World.outcome_grow hle (hL c) (Transfer.OutcomeKind.final_of_ended h)]
  exact h

theorem Undone.grow (h : Undone w tid c) : Undone w' tid c :=
  h.imp (ended_grow hle hL) fun hc => ⟨committed_grow hle hL hc.1, committed_grow hle hL hc.2⟩

theorem Stuck.grow (h : Stuck w tid c) : Stuck w' tid c :=
  ⟨committed_grow hle hL h.1, ended_grow hle hL h.2⟩

theorem Backed.grow {e : TransactionEvent} (h : Backed R w tid e) : Backed R w' tid e := by
  cases e with
  | transferCompletedWithinTransaction i c | transferReversalRequestedWithinTransaction i c r =>
    exact committed_grow hle hL h
  | transferFailedWithinTransaction i c r => exact ended_grow hle hL h
  | transferRolledBackWithinTransaction i c m d => exact Undone.grow hle hL h
  | transferRollbackFailedWithinTransaction i c r =>
    exact h.imp (Stuck.grow hle hL) fun h => ⟨h.1, World.transfer_ne_nil hle h.2⟩
  | _ => trivial

end Grow

theorem MayUndo.grow (h : MayUndo w tid c) (hle : w ≤ w') (hwf : WellFormed tid (w'.log tid)) :
    MayUndo w' tid c :=
  ⟨h.1.mono (World.log_grow hle tid).subset, hwf.cleared_mono (World.log_grow hle tid) h.1 h.2⟩

/-! ### Streams -/

/-- What holds of every Transaction's stream. -/
structure TransactionOk (R : Prop) (w : World) (tid : Id) : Prop where
  wellFormed : WellFormed tid (w.log tid)
  backed : ∀ e ∈ w.log tid, Backed R w tid e

theorem transactionOk_init (R : Prop) (tid : Id) : TransactionOk R .init tid where
  wellFormed := Concurrent.History.nil
  backed _ he := absurd he List.not_mem_nil

/-- A step that leaves the stream alone keeps it. -/
theorem TransactionOk.grow (h : TransactionOk R w tid) (hle : w ≤ w')
    (hL : ∀ i, Lifecycle (eventsOf (w'.transfer i))) (hw : w'.log tid = w.log tid) :
    TransactionOk R w' tid where
  wellFormed := hw ▸ h.wellFormed
  backed e he := (h.backed e (hw ▸ he)).grow hle hL

/-- An append the protocol allows keeps the stream well formed. -/
theorem TransactionAppend.wellFormed (h : TransactionAppend R w tid events)
    (hwf : WellFormed tid (w.log tid)) : WellFormed tid (w.log tid ++ events) := by
  cases h with
  | initialized hes hdag => exact hwf.snoc (.initialized (eventsOf_eq_nil.mpr hes) hdag)
  | rejected hes => exact hwf.snoc (.rejected (eventsOf_eq_nil.mpr hes))
  | intents htop hspec hnd hslice => exact hwf.append_intents htop hspec hnd hslice
  | @step event rest hf hb hrest =>
    have hstep : WellFormed tid (w.log tid ++ [event]) := hwf.snoc hf
    rcases hrest with ⟨-, rfl⟩ | hrest
    · exact hstep
    · simpa using hstep.append_consequences hrest

/-- What says nothing about a child needs no backing. -/
theorem backed_of_childless {e : TransactionEvent} (h : childOf e = none) : Backed R w tid e := by
  cases e <;> simp [childOf] at h <;> trivial

theorem TransactionAppend.backed (h : TransactionAppend R w tid events) (hle : w ≤ w')
    (hL : ∀ i, Lifecycle (eventsOf (w'.transfer i))) : ∀ e ∈ events, Backed R w' tid e := by
  intro e he
  cases h with
  | initialized | rejected =>
    obtain rfl := List.mem_singleton.mp he
    trivial
  | @intents spec starting slice =>
    rcases List.mem_append.mp he with he | he
    · cases starting <;> simp at he
      subst he
      trivial
    · obtain ⟨c, -, rfl⟩ := List.mem_map.mp he
      trivial
  | @step event rest hf hb hrest =>
    rcases List.mem_cons.mp he with rfl | he
    · exact hb.grow hle hL
    · rcases hrest with ⟨-, rfl⟩ | hrest
      · simp at he
      · exact backed_of_childless (consequences_childless hrest e he)

/-- **An append the protocol allows keeps the stream.** -/
theorem TransactionOk.append {now seq : Nat} (h : TransactionOk R w tid)
    (ha : TransactionAppend R w tid events) (hle : w ≤ w')
    (hL : ∀ i, Lifecycle (eventsOf (w'.transfer i)))
    (hw : w'.transaction tid = w.transaction tid ++ rowsFrom now seq events) :
    TransactionOk R w' tid := by
  have hlog : w'.log tid = w.log tid ++ events := by
    unfold World.log
    rw [hw, eventsOf_append, eventsOf_rowsFrom]
  refine ⟨hlog ▸ ha.wellFormed h.wellFormed, fun e he => ?_⟩
  rw [hlog] at he
  rcases List.mem_append.mp he with he | he
  · exact (h.backed e he).grow hle hL
  · exact ha.backed hle hL e he

end Transaction

end MoneyFlow
