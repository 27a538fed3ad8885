import MoneyFlow.Books.Shapes
import MoneyFlow.Concurrent.Machine
import MoneyFlow.Sums

/-!
# MoneyFlow.Books.Run

Go running the Transactions Ruby asks for, seen from the balances.

`MoneyFlow.Transaction` and `MoneyFlow.Transfer` model how Go gets there, step by step
through its streams. Here a Transaction is its request's DAG with a state for each leg,
and a move is one change the outside can see: a leg is dispatched, reserves, posts, is
refused, settles, is cancelled or reversed. A leg moves only after its parents have, a
capped account has to cover what is taken from it, any leg may fail, and what a failed
Transaction moved is reversed children first (`go/internal/transaction/saga.go`).
-/

namespace MoneyFlow.Books

open Concurrent

/-! ### States -/

/-- The Transaction's state. -/
inductive TransactionState
  | initialized
  | started
  | rollbackStarted
  | completed
  | rolledBack
  | rollbackFailed
  | rejected
  deriving DecidableEq, Repr

/-- A leg's state, with that of its Reversal. -/
inductive LegState
  | idle
  | requested
  | pending
  | posted
  | failed
  | cancelled
  /-- Its Reversal is staged, and reserves what it will take back. -/
  | reversing
  | reversed
  /-- Its Reversal was refused. -/
  | reversalFailed
  deriving DecidableEq, Repr

/-- The leg's money is where the leg put it. -/
def LegState.moved : LegState → Bool
  | .posted | .reversing | .reversalFailed => true
  | _ => false

/-- The leg was dispatched and is neither refused nor undone. -/
def LegState.active : LegState → Bool
  | .requested | .pending | .posted | .reversing | .reversalFailed => true
  | _ => false

/-- Nothing of the leg is left to undo. -/
def LegState.undone : LegState → Bool
  | .idle | .failed | .cancelled | .reversed => true
  | _ => false

/-- A Transfer of a running Transaction. -/
structure Leg where
  transfer : Transfer
  state : LegState
  deriving DecidableEq, Repr

/-- A Transaction Go accepted or rejected. -/
structure Running where
  origin : Origin
  state : TransactionState
  legs : List Leg
  deriving DecidableEq, Repr

/-- What is on every account, what staged legs have reserved of it, and the
Transactions. -/
structure State where
  posted : Account → Int
  reserved : Account → Int
  txns : List Running

variable {b b' : State}

/-! ### Guards -/

/-- A Transaction as it is accepted, or rejected. -/
def Running.fresh (origin : Origin) (state : TransactionState) : Running where
  origin := origin
  state := state
  legs := origin.request.transfers.map fun t => ⟨t, .idle⟩

/-- The leg waits for the other one. -/
def Running.WaitsFor (x : Running) (child parent : Leg) : Prop :=
  parent.transfer.id ∈ x.origin.request.parents child.transfer.id

instance (x : Running) (child parent : Leg) : Decidable (x.WaitsFor child parent) :=
  inferInstanceAs (Decidable (_ ∈ _))

/-- `readyToRun`: every parent has committed. -/
def Running.Ready (x : Running) (leg : Leg) : Prop :=
  ∀ parent ∈ x.legs, x.WaitsFor leg parent → parent.state = .posted

instance (x : Running) (leg : Leg) : Decidable (x.Ready leg) :=
  inferInstanceAs (Decidable (∀ parent ∈ x.legs, _))

/-- `readyToRollback`: nothing that waited for the leg is still there. -/
def Running.Unblocked (x : Running) (leg : Leg) : Prop :=
  ∀ child ∈ x.legs, x.WaitsFor child leg → child.state.active = false

instance (x : Running) (leg : Leg) : Decidable (x.Unblocked leg) :=
  inferInstanceAs (Decidable (∀ child ∈ x.legs, _))

/-- The account may be debited: it is uncapped, or holds the amount net of
reservations. -/
def State.CanDebit (b : State) (a : Account) (amount : Nat) : Prop :=
  a.type.capped = false ∨ (amount : Int) ≤ b.posted a - b.reserved a

instance (b : State) (a : Account) (amount : Nat) : Decidable (b.CanDebit a amount) :=
  inferInstanceAs (Decidable (_ ∨ _))

/-! ### Moves -/

/-- What can happen to a leg. -/
inductive LegMove
  | dispatch
  | post
  | stage
  | settle
  /-- The leg is refused, returned or lapses. -/
  | fail
  | cancel
  | reverse
  | settleReversal
  | refuseReversal
  deriving DecidableEq, Repr

/-- What can happen. A Transaction and its leg are named by their places. -/
inductive Move
  | accept (origin : Origin)
  | reject (origin : Origin)
  | start (i : Nat)
  | complete (i : Nat)
  | startRollback (i : Nat)
  | finishRollback (i : Nat)
  | leg (i j : Nat) (m : LegMove)
  deriving DecidableEq, Repr

variable {m : Move}

/-- What the Transfer puts on an account. -/
def Transfer.effect (t : Transfer) (a : Account) : Int :=
  (if t.dest = a then (t.amount : Int) else 0) - if t.source = a then (t.amount : Int) else 0

/-- The amount, on the account it is reserved on. -/
def hold (on : Account) (amount : Nat) (a : Account) : Int :=
  if on = a then amount else 0

/-- What a move of a leg changes: the leg's state, and what it adds to the posted and to
the reserved balances. -/
structure Change where
  state : LegState
  posted : Account → Int := fun _ => 0
  reserved : Account → Int := fun _ => 0

/-- Taking the reserved amount back. -/
def released (on : Account) (amount : Nat) (a : Account) : Int := -hold on amount a

/-- Where a leg goes from `leg.state`, if the move is open to it. -/
def State.change (b : State) (x : Running) (leg : Leg) : LegMove → Option Change
  | .dispatch =>
    if leg.state = .idle ∧ x.state = .started ∧ x.Ready leg then some { state := .requested }
    else none
  | .post =>
    if leg.state = .requested ∧ leg.transfer.stage = false ∧
        b.CanDebit leg.transfer.source leg.transfer.amount then
      some { state := .posted, posted := leg.transfer.effect }
    else none
  | .stage =>
    if leg.state = .requested ∧ leg.transfer.stage = true ∧
        b.CanDebit leg.transfer.source leg.transfer.amount then
      some { state := .pending, reserved := hold leg.transfer.source leg.transfer.amount }
    else none
  | .settle =>
    if leg.state = .pending then
      some { state := .posted, posted := leg.transfer.effect
             reserved := released leg.transfer.source leg.transfer.amount }
    else none
  | .fail =>
    match leg.state with
    | .requested => some { state := .failed }
    | .pending =>
      some { state := .failed, reserved := released leg.transfer.source leg.transfer.amount }
    | _ => none
  | .cancel =>
    if x.state = .rollbackStarted then
      match leg.state with
      | .requested => some { state := .cancelled }
      | .pending =>
        some { state := .cancelled, reserved := released leg.transfer.source leg.transfer.amount }
      | _ => none
    else none
  | .reverse =>
    if leg.state = .posted ∧ x.state = .rollbackStarted ∧ x.Unblocked leg ∧
        b.CanDebit leg.transfer.dest leg.transfer.amount then
      -- a Reversal is staged where its leg was
      if leg.transfer.stage then
        some { state := .reversing, reserved := hold leg.transfer.dest leg.transfer.amount }
      else some { state := .reversed, posted := fun a => -leg.transfer.effect a }
    else none
  | .settleReversal =>
    if leg.state = .reversing then
      some { state := .reversed, posted := fun a => -leg.transfer.effect a
             reserved := released leg.transfer.dest leg.transfer.amount }
    else none
  | .refuseReversal =>
    match leg.state with
    | .posted =>
      if x.state = .rollbackStarted ∧ x.Unblocked leg then some { state := .reversalFailed }
      else none
    | .reversing =>
      some { state := .reversalFailed
             reserved := released leg.transfer.dest leg.transfer.amount }
    | _ => none

/-- The Transaction with one leg's state replaced. -/
def Running.setLeg (x : Running) (j : Nat) (leg : Leg) (state : LegState) : Running :=
  { x with legs := x.legs.set j { leg with state := state } }

/-- The books after a move of the `j`th leg of the `i`th Transaction. -/
def State.apply (b : State) (i j : Nat) (x : Running) (leg : Leg) (c : Change) : State where
  posted a := b.posted a + c.posted a
  reserved a := b.reserved a + c.reserved a
  txns := b.txns.set i (x.setLeg j leg c.state)

/-- Whether the Transaction may go on to a state. -/
def Running.May (x : Running) : TransactionState → Prop
  | .started => x.state = .initialized
  | .completed => x.state = .started ∧ ∀ leg ∈ x.legs, leg.state = .posted
  | .rollbackStarted => x.state = .started ∧ ∃ leg ∈ x.legs, leg.state = .failed
  | .rolledBack => x.state = .rollbackStarted ∧ ∀ leg ∈ x.legs, leg.state.undone = true
  | .rollbackFailed =>
    x.state = .rollbackStarted ∧ (∃ leg ∈ x.legs, leg.state = .reversalFailed) ∧
      ∀ leg ∈ x.legs, leg.state.undone = true ∨ leg.state = .reversalFailed ∨
        leg.state = .posted ∧ ¬ x.Unblocked leg
  | .initialized | .rejected => False

instance (x : Running) : ∀ state, Decidable (x.May state)
  | .started => inferInstanceAs (Decidable (_ = _))
  | .completed => inferInstanceAs (Decidable (_ ∧ ∀ leg ∈ x.legs, _))
  | .rollbackStarted => inferInstanceAs (Decidable (_ ∧ ∃ leg ∈ x.legs, _))
  | .rolledBack => inferInstanceAs (Decidable (_ ∧ ∀ leg ∈ x.legs, _))
  | .rollbackFailed =>
    inferInstanceAs (Decidable (_ ∧ (∃ leg ∈ x.legs, _) ∧ ∀ leg ∈ x.legs, _ ∨ _ ∨ _ ∧ ¬ _))
  | .initialized | .rejected => inferInstanceAs (Decidable False)

/-- The `i`th Transaction goes on to a state. -/
def State.become (b : State) (i : Nat) (state : TransactionState) : Option State :=
  match b.txns[i]? with
  | some x =>
    if x.May state then some { b with txns := b.txns.set i { x with state := state } } else none
  | none => none

/-- A request Go has not seen: its id is new, and each of its Transfers is in the map
once. -/
def State.Fresh (b : State) (origin : Origin) : Prop :=
  (∀ x ∈ b.txns, x.origin.request.id ≠ origin.request.id) ∧
    (origin.request.transfers.map (·.id)).Nodup

instance (b : State) (origin : Origin) : Decidable (b.Fresh origin) :=
  inferInstanceAs (Decidable ((∀ x ∈ b.txns, _) ∧ _))

/-- A Transaction is added. -/
def State.add (b : State) (origin : Origin) (state : TransactionState) : Option State :=
  if b.Fresh origin then some { b with txns := b.txns ++ [.fresh origin state] } else none

/-- What a move does. -/
def State.exec (b : State) : Move → Option State
  | .accept origin => b.add origin .initialized
  | .reject origin => b.add origin .rejected
  | .start i => b.become i .started
  | .complete i => b.become i .completed
  | .startRollback i => b.become i .rollbackStarted
  | .finishRollback i =>
    match b.become i .rolledBack with
    | some b' => some b'
    | none => b.become i .rollbackFailed
  | .leg i j m =>
    match b.txns[i]? with
    | some x =>
      match x.legs[j]? with
      | some leg => (b.change x leg m).map (b.apply i j x leg)
      | none => none
    | none => none

/-- Go, from empty books. -/
def run : Machine State Move where
  init := ⟨fun _ => 0, fun _ => 0, []⟩
  exec := State.exec

/-! ### What a leg's move does, case by case -/

section Changes

variable (b : State) (x : Running) (leg : Leg)

/-- The changes open to a leg. -/
inductive Changes : Change → Prop
  | dispatched (hs : leg.state = .idle) (hx : x.state = .started) (hr : x.Ready leg) :
      Changes { state := .requested }
  | posted (hs : leg.state = .requested)
      (hd : b.CanDebit leg.transfer.source leg.transfer.amount) :
      Changes { state := .posted, posted := leg.transfer.effect }
  | staged (hs : leg.state = .requested) (hstage : leg.transfer.stage = true)
      (hd : b.CanDebit leg.transfer.source leg.transfer.amount) :
      Changes { state := .pending, reserved := hold leg.transfer.source leg.transfer.amount }
  | settled (hs : leg.state = .pending) :
      Changes { state := .posted, posted := leg.transfer.effect,
                reserved := released leg.transfer.source leg.transfer.amount }
  | ended (state : LegState) (hs : leg.state = .requested)
      (hstate : state = .failed ∨ state = .cancelled) : Changes { state := state }
  | voided (state : LegState) (hs : leg.state = .pending)
      (hstate : state = .failed ∨ state = .cancelled) :
      Changes { state := state
                reserved := released leg.transfer.source leg.transfer.amount }
  | reversing (hs : leg.state = .posted) (hstage : leg.transfer.stage = true)
      (hx : x.state = .rollbackStarted) (hu : x.Unblocked leg)
      (hd : b.CanDebit leg.transfer.dest leg.transfer.amount) :
      Changes { state := .reversing, reserved := hold leg.transfer.dest leg.transfer.amount }
  | reversed (hs : leg.state = .posted) (hx : x.state = .rollbackStarted)
      (hu : x.Unblocked leg) (hd : b.CanDebit leg.transfer.dest leg.transfer.amount) :
      Changes { state := .reversed, posted := fun a => -leg.transfer.effect a }
  | settledBack (hs : leg.state = .reversing) :
      Changes { state := .reversed, posted := fun a => -leg.transfer.effect a,
                reserved := released leg.transfer.dest leg.transfer.amount }
  | refused (hs : leg.state = .posted) (hx : x.state = .rollbackStarted)
      (hu : x.Unblocked leg) : Changes { state := .reversalFailed }
  | refusedStaged (hs : leg.state = .reversing) :
      Changes { state := .reversalFailed,
                reserved := released leg.transfer.dest leg.transfer.amount }

variable {b x leg} {m : LegMove} {c : Change}

/-- A guarded change that was made. -/
theorem of_guarded {P : Prop} [Decidable P] {d : Change}
    (h : (if P then some d else none) = some c) : P ∧ d = c := by
  split at h
  · rename_i hp
    exact ⟨hp, Option.some.inj h⟩
  · cases h

theorem State.change_cases (h : b.change x leg m = some c) : Changes b x leg c := by
  cases m with
  | dispatch =>
    obtain ⟨⟨hs, hx, hr⟩, rfl⟩ := of_guarded h
    exact .dispatched hs hx hr
  | post =>
    obtain ⟨⟨hs, -, hd⟩, rfl⟩ := of_guarded h
    exact .posted hs hd
  | stage =>
    obtain ⟨⟨hs, hstage, hd⟩, rfl⟩ := of_guarded h
    exact .staged hs hstage hd
  | settle =>
    obtain ⟨hs, rfl⟩ := of_guarded h
    exact .settled hs
  | fail =>
    simp only [State.change] at h
    split at h
    · rename_i hs
      cases h
      exact .ended _ hs (.inl rfl)
    · rename_i hs
      cases h
      exact .voided _ hs (.inl rfl)
    · cases h
  | cancel =>
    simp only [State.change] at h
    split at h
    · split at h
      · rename_i hs
        cases h
        exact .ended _ hs (.inr rfl)
      · rename_i hs
        cases h
        exact .voided _ hs (.inr rfl)
      · cases h
    · cases h
  | reverse =>
    simp only [State.change] at h
    split at h
    · rename_i hg
      obtain ⟨hs, hx, hu, hd⟩ := hg
      split at h
      · rename_i hstage
        cases h
        exact .reversing hs hstage hx hu hd
      · cases h
        exact .reversed hs hx hu hd
    · cases h
  | settleReversal =>
    obtain ⟨hs, rfl⟩ := of_guarded h
    exact .settledBack hs
  | refuseReversal =>
    simp only [State.change] at h
    split at h
    · rename_i hs
      obtain ⟨⟨hx, hu⟩, rfl⟩ := of_guarded h
      exact .refused hs hx hu
    · rename_i hs
      cases h
      exact .refusedStaged hs
    · cases h

end Changes

/-! ### What a move does, in three forms -/

/-- A move adds a Transaction, moves one on, or moves one of its legs. -/
inductive Step (b : State) (m : Move) : State → Prop
  | add (origin : Origin) (state : TransactionState) (hnew : b.Fresh origin)
      (hm : m = .accept origin ∧ state = .initialized ∨ m = .reject origin ∧ state = .rejected) :
      Step b m { b with txns := b.txns ++ [.fresh origin state] }
  | become (i : Nat) (x : Running) (state : TransactionState) (hx : b.txns[i]? = some x)
      (hmay : x.May state) : Step b m { b with txns := b.txns.set i { x with state := state } }
  | leg (i j : Nat) (x : Running) (leg : Leg) (c : Change) (hx : b.txns[i]? = some x)
      (hleg : x.legs[j]? = some leg) (hc : Changes b x leg c) : Step b m (b.apply i j x leg c)

theorem State.become_step {i : Nat} {state : TransactionState} (h : b.become i state = some b') :
    Step b m b' := by
  unfold State.become at h
  split at h
  · rename_i x hx
    split at h
    · rename_i hmay
      cases h
      exact .become i x state hx hmay
    · cases h
  · cases h

theorem State.add_step {origin : Origin} {state : TransactionState}
    (hm : m = .accept origin ∧ state = .initialized ∨ m = .reject origin ∧ state = .rejected)
    (h : b.add origin state = some b') : Step b m b' := by
  unfold State.add at h
  split at h
  · rename_i hnew
    cases h
    exact .add origin state hnew hm
  · cases h

theorem State.exec_step (h : b.exec m = some b') : Step b m b' := by
  cases m with
  | accept origin => exact add_step (.inl ⟨rfl, rfl⟩) h
  | reject origin => exact add_step (.inr ⟨rfl, rfl⟩) h
  | start i | complete i | startRollback i => exact become_step h
  | finishRollback i =>
    simp only [State.exec] at h
    split at h
    · rename_i b1 hb
      cases h
      exact become_step hb
    · exact become_step h
  | leg i j m =>
    simp only [State.exec] at h
    split at h
    · rename_i x hx
      split at h
      · rename_i leg hleg
        obtain ⟨c, hc, rfl⟩ := Option.map_eq_some_iff.mp h
        exact .leg i j x leg c hx hleg (change_cases hc)
      · cases h
    · cases h

end MoneyFlow.Books
