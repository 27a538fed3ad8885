import MoneyFlow.Books.Shapes
import MoneyFlow.Concurrent.Crew
import MoneyFlow.Transaction.Fold
import MoneyFlow.Transfer.Fold

/-!
# MoneyFlow.Ach.Submission

Handing an ACH entry to the provider: `submit.rb`, with `return.rb`, `settle.rb` and the
orchestrator of `go/internal/transaction/saga.go` at work on the same entry.

Of Go, what its streams say of the entry's Transaction is here: the Transaction's state,
and of each leg its child state, the states its Transfer has been in, and whether it has
a Reversal. `Submit` looks at the real leg through the read model, which may be behind,
and at the Transaction's state in Go; then it hands the entry over.

`handed_on_live_leg` says on what. In every run a withdrawal is handed over with its
shadow leg committed and not reversed. That the real leg is alive by then takes more
(`Undisturbed`): the read model may show a leg staged that a notice has cancelled, while
the Transaction is still started (`handed_on_cancelled_leg`).
-/

namespace MoneyFlow.Ach

open Concurrent
open Books (AchDirection)

/-! ### Go's side -/

/-- A leg of the entry's Transaction. -/
inductive Side
  | real
  | shadow
  deriving DecidableEq, Repr

/-- What Go has of a leg. The states of its Transfer are newest first; there are none
before the Transfer is requested. -/
structure GoLeg where
  child : Transaction.ChildState := .untouched
  states : List Transfer.State := []
  reversal : Bool := false
  deriving DecidableEq, Repr

/-- `currentState`. -/
def GoLeg.state (leg : GoLeg) : Transfer.State := leg.states.headD .unknown

/-- The states a Transfer's saga goes on to. -/
def follows (stage : Bool) (s s' : Transfer.State) : Bool :=
  match s, s' with
  | .accepted, .prepared => true
  | .prepared, .staged => stage
  | .prepared, .committed => !stage
  | s, s' => ((Transfer.transitions s).filterMap Transfer.stateByEventType).contains s'

/-- What held when Go answered that the Transaction is started. -/
structure Moment where
  real : Transfer.State
  shadow : Transfer.State
  shadowReversal : Bool
  acted : Bool
  deriving DecidableEq, Repr

/-- Go's Transaction of the entry, how many of the real leg's states the read model has
not seen, what of the row Ruby records, whether a notice was acted on, and the entries
handed over. -/
structure Clerk where
  top : Transaction.State := .unknown
  real : GoLeg := {}
  shadow : GoLeg := {}
  lag : Nat := 0
  providerReference : Bool := false
  returned : Bool := false
  returnTransaction : Bool := false
  acted : Bool := false
  handed : List Moment := []
  deriving DecidableEq, Repr

def Clerk.leg (c : Clerk) : Side → GoLeg
  | .real => c.real
  | .shadow => c.shadow

def Clerk.setLeg (c : Clerk) (side : Side) (leg : GoLeg) : Clerk :=
  match side with
  | .real => { c with real := leg }
  | .shadow => { c with shadow := leg }

/-- A leg's Transfer goes on to a state; the read model has not seen it yet. -/
def Clerk.push (c : Clerk) (side : Side) (state : Transfer.State) : Clerk :=
  match side with
  | .real => { c with real := { c.real with states := state :: c.real.states }, lag := c.lag + 1 }
  | .shadow => { c with shadow := { c.shadow with states := state :: c.shadow.states } }

/-- The real leg's state as the read model shows it. -/
def Clerk.shown (c : Clerk) : Option Transfer.State := c.real.states[c.lag]?

/-- The leg a leg waits for, as `TransactionShape#dependency` has it. -/
def parent : AchDirection → Side → Option Side
  | .withdrawal, .real => some .shadow
  | .deposit, .shadow => some .real
  | _, _ => none

/-- Only the real leg is staged. -/
def staged : Side → Bool
  | .real => true
  | .shadow => false

/-- The child may be dispatched. -/
def Clerk.Ready (direction : AchDirection) (c : Clerk) (side : Side) : Prop :=
  ∀ p ∈ parent direction side, (c.leg p).child = .completed

instance (direction : AchDirection) (c : Clerk) (side : Side) :
    Decidable (c.Ready direction side) :=
  inferInstanceAs (Decidable (∀ p ∈ parent direction side, _))

/-- Nothing that waited for the child is left to undo. -/
def Clerk.Unblocked (direction : AchDirection) (c : Clerk) (side : Side) : Prop :=
  ∀ s ∈ [Side.real, Side.shadow], parent direction s = some side →
    (c.leg s).child = .untouched ∨ (c.leg s).child = .failed ∨ (c.leg s).child = .rolledBack

instance (direction : AchDirection) (c : Clerk) (side : Side) :
    Decidable (c.Unblocked direction side) :=
  inferInstanceAs (Decidable (∀ s ∈ [Side.real, Side.shadow], _))

/-- Whether the Transaction may go on to a state. A rollback starts when a child failed,
or when it is asked for. -/
def Clerk.May (c : Clerk) : Transaction.State → Prop
  | .initialized | .rejected => c.top = .unknown
  | .started => c.top = .initialized
  | .rollbackStarted => c.top = .initialized ∨ c.top = .started
  | .completed => c.top = .started ∧ c.real.child = .completed ∧ c.shadow.child = .completed
  | .rolledBack | .rollbackFailed => c.top = .rollbackStarted
  | .unknown => False

instance (c : Clerk) : ∀ state, Decidable (c.May state)
  | .initialized | .rejected => inferInstanceAs (Decidable (_ = _))
  | .started => inferInstanceAs (Decidable (_ = _))
  | .rollbackStarted => inferInstanceAs (Decidable (_ ∨ _))
  | .completed => inferInstanceAs (Decidable (_ ∧ _))
  | .rolledBack | .rollbackFailed => inferInstanceAs (Decidable (_ = _))
  | .unknown => inferInstanceAs (Decidable False)

/-- What the orchestrator, the Transfers' sagas and the projector do. -/
inductive GoMove
  | become (state : Transaction.State)
  | dispatch (side : Side)
  | request (side : Side) (accepted : Bool)
  | advance (side : Side) (state : Transfer.State)
  /-- `reconcileInFlight`. -/
  | reconcile (side : Side)
  /-- `rollbackChild`, of a child that completed. -/
  | reverse (side : Side)
  /-- `reconcileRollbacks`. -/
  | reversed (side : Side) (ok : Bool)
  | project (lag : Nat)
  deriving DecidableEq, Repr

/-- The child state `reconcileInFlight` records. -/
def resolution : Transfer.State → Option Transaction.ChildState
  | .committed => some .completed
  | .failed | .cancelled => some .failed
  | _ => none

/-- What a move of Go's does. -/
def Clerk.go (direction : AchDirection) (c : Clerk) : GoMove → Option Clerk
  | .become state => if c.May state then some { c with top := state } else none
  | .dispatch side =>
    if c.top = .started ∧ (c.leg side).child = .untouched ∧ c.Ready direction side then
      some (c.setLeg side { c.leg side with child := .requested })
    else none
  | .request side accepted =>
    if (c.leg side).child = .requested ∧ (c.leg side).states = [] then
      some (if accepted then c.push side .accepted
        else c.setLeg side { c.leg side with child := .failed })
    else none
  | .advance side state =>
    if follows (staged side) (c.leg side).state state = true then some (c.push side state) else none
  | .reconcile side =>
    if (c.leg side).child = .requested then
      (resolution (c.leg side).state).map fun child =>
        c.setLeg side { c.leg side with child := child }
    else none
  | .reverse side =>
    if c.top = .rollbackStarted ∧ (c.leg side).child = .completed ∧ c.Unblocked direction side then
      some (c.setLeg side { c.leg side with child := .rollbackRequested, reversal := true })
    else none
  | .reversed side ok =>
    if (c.leg side).child = .rollbackRequested then
      some (c.setLeg side { c.leg side with child := if ok then .rolledBack else .rollbackFailed })
    else none
  | .project lag => if lag ≤ c.lag then some { c with lag := lag } else none

/-! ### Ruby's side -/

/-- Where a call stands. -/
inductive Task
  /-- `SubmitDue#candidates`. -/
  | submitDue
  /-- `Submit#call`. -/
  | submit
  /-- `Submit#finish_confirmation`. -/
  | finishConfirmation
  /-- `Submit#require_staged!`. -/
  | requireStaged
  /-- `Submit#require_running!`. -/
  | requireRunning
  /-- `Submit#submit_entry`, with what held when Go answered. -/
  | submitEntry (moment : Moment)
  /-- `Submit#submit`, with the provider's reference. -/
  | recordReference
  | confirm
  /-- `Return#call`. -/
  | returned
  | returnDue
  /-- `Return#act_on_notice`, with the copy of the row it holds. -/
  | actOnNotice (returnTransaction : Bool)
  /-- `Return#cancel`. -/
  | cancel
  /-- `Return#return_late`. -/
  | returnLate
  | sendLateReturn
  /-- `Settle#call`. -/
  | settle
  | ended
  deriving DecidableEq, Repr

/-- The provider's answer to an entry. -/
inductive Provided
  | accepted
  | failed
  deriving DecidableEq, Repr

/-- A step of a call. -/
def taskStep (c : Clerk) : Task → Provided → Option (Clerk × Task)
  | .submitDue, _ => some (c, if c.shown = some .staged then .submit else .ended)
  | .submit, _ => some (c, if c.providerReference then .finishConfirmation else .requireStaged)
  | .finishConfirmation, _ => some (c, if c.shown = some .staged then .confirm else .ended)
  | .requireStaged, _ => some (c, if c.shown = some .staged then .requireRunning else .ended)
  | .requireRunning, _ =>
    some (c, if c.top = .started then
      .submitEntry ⟨c.real.state, c.shadow.state, c.shadow.reversal, c.acted⟩ else .ended)
  | .submitEntry moment, answer =>
    some ({ c with handed := moment :: c.handed },
      match answer with
      | .accepted => .recordReference
      | .failed => .returned)
  | .recordReference, _ => some ({ c with providerReference := true }, .confirm)
  | .confirm, _ => some (if c.real.state = .staged then c.push .real .pending else c, .ended)
  | .returned, _ => some ({ c with returned := true }, .actOnNotice c.returnTransaction)
  | .returnDue, _ => some (c, if c.returned then .actOnNotice c.returnTransaction else .ended)
  | .actOnNotice returnTransaction, _ =>
    if returnTransaction then some (c, .sendLateReturn)
    else
      match c.top with
      | .started => some (c, .cancel)
      | .completed => some (c, .returnLate)
      | _ => some (c, .ended)
  | .cancel, _ =>
    some ({ (if c.real.state = .staged ∨ c.real.state = .pending then c.push .real .cancelled
      else c) with acted := true }, .ended)
  | .returnLate, _ => some ({ c with returnTransaction := true }, .sendLateReturn)
  | .sendLateReturn, _ => some ({ c with acted := true }, .ended)
  | .settle, _ => some (if c.real.state = .pending then c.push .real .committed else c, .ended)
  | .ended, _ => none

/-- Where a call begins. -/
def Task.begins : Task → Bool
  | .submitDue | .submit | .returned | .returnDue | .settle => true
  | _ => false

/-- The calls on one entry, and Go. -/
def submissions (direction : AchDirection) : Crew Clerk Task Provided GoMove where
  init := {}
  start _ t := t.begins
  step := taskStep
  world := Clerk.go direction

/-! ### What Go keeps -/

/-- The real leg is past being staged. -/
def pastStaged : Transfer.State → Bool
  | .pending | .committed | .failed | .cancelled => true
  | _ => false

/-- The Transaction has left `started` for good. -/
def left : Transaction.State → Bool
  | .rollbackStarted | .completed | .rolledBack | .rollbackFailed | .rejected => true
  | _ => false

/-- The Transaction was started. -/
def Clerk.Begun (c : Clerk) : Prop := c.top = .started ∨ left c.top = true

/-- What Go's streams meet: a Transfer is there only of a dispatched child, a child is
dispatched only in a started Transaction, a completed child's Transfer is committed, only
a rollback makes a Reversal, and a withdrawal's real leg is dispatched only after its
shadow leg completed. -/
structure Clerk.Ok (direction : AchDirection) (c : Clerk) : Prop where
  requested : ∀ side, (c.leg side).states ≠ [] → (c.leg side).child ≠ .untouched
  begun : ∀ side, (c.leg side).child ≠ .untouched → c.Begun
  completed : ∀ side, (c.leg side).child = .completed → (c.leg side).state = .committed
  reversed : ∀ side, (c.leg side).child = .rollbackRequested ∨ (c.leg side).reversal = true →
    left c.top = true
  funded : direction = .withdrawal → c.real.child ≠ .untouched →
    c.shadow.child = .completed ∨ left c.top = true

theorem Clerk.leg_setLeg (c : Clerk) (side s : Side) (leg : GoLeg) :
    (c.setLeg side leg).leg s = if s = side then leg else c.leg s := by
  cases side <;> cases s <;> rfl

theorem Clerk.leg_push (c : Clerk) (side s : Side) (state : Transfer.State) :
    (c.push side state).leg s = if s = side then
      { c.leg side with states := state :: (c.leg side).states } else c.leg s := by
  cases side <;> cases s <;> rfl

theorem Clerk.top_setLeg (c : Clerk) (side : Side) (leg : GoLeg) :
    (c.setLeg side leg).top = c.top := by
  cases side <;> rfl

theorem Clerk.top_push (c : Clerk) (side : Side) (state : Transfer.State) :
    (c.push side state).top = c.top := by
  cases side <;> rfl

theorem GoLeg.states_ne_nil {leg : GoLeg} (h : leg.state ≠ .unknown) : leg.states ≠ [] := by
  intro hnil
  exact h (by rw [GoLeg.state, hnil]; rfl)

variable {c c' : Clerk} {direction : AchDirection} {s : Crew.State Clerk Task} {m : GoMove}

/-- The invariant is about the Transaction and its legs only. -/
theorem Clerk.Ok.congr (h : c.Ok direction) (htop : c'.top = c.top) (hreal : c'.real = c.real)
    (hshadow : c'.shadow = c.shadow) : c'.Ok direction := by
  have hleg : c'.leg = c.leg := by
    funext side
    cases side
    · exact hreal
    · exact hshadow
  constructor
  · rw [hleg]
    exact h.requested
  · rw [hleg, Clerk.Begun, htop]
    exact h.begun
  · rw [hleg]
    exact h.completed
  · rw [hleg, htop]
    exact h.reversed
  · rw [hreal, hshadow, htop]
    exact h.funded

section Keeps

variable {direction : AchDirection} {c : Clerk} (h : c.Ok direction)
include h

/-- A Transfer that is not committed goes on. -/
theorem Clerk.Ok.push {side : Side} {state : Transfer.State}
    (hchild : (c.leg side).child ≠ .untouched) (hopen : (c.leg side).state ≠ .committed) :
    (c.push side state).Ok direction := by
  have hsame : ∀ s, ((c.push side state).leg s).child = (c.leg s).child ∧
      ((c.push side state).leg s).reversal = (c.leg s).reversal := by
    intro s
    rw [c.leg_push]
    split
    · rename_i hs
      rw [hs]
      exact ⟨rfl, rfl⟩
    · exact ⟨rfl, rfl⟩
  constructor
  · intro s hs
    rw [(hsame s).1]
    by_cases heq : s = side
    · rwa [heq]
    · rw [c.leg_push, if_neg heq] at hs
      exact h.requested s hs
  · intro s hs
    rw [(hsame s).1] at hs
    rw [Clerk.Begun, c.top_push]
    exact h.begun s hs
  · intro s hs
    rw [(hsame s).1] at hs
    by_cases heq : s = side
    · rw [heq] at hs
      exact (hopen (h.completed side hs)).elim
    · rw [c.leg_push, if_neg heq]
      exact h.completed s hs
  · intro s hs
    rw [(hsame s).1, (hsame s).2] at hs
    rw [c.top_push]
    exact h.reversed s hs
  · intro hdir hreal
    rw [c.top_push]
    have hreal' : c.real.child ≠ .untouched := (hsame .real).1 ▸ hreal
    have hshadow : (c.push side state).shadow.child = c.shadow.child := (hsame .shadow).1
    rw [hshadow]
    exact h.funded hdir hreal'

/-- A child goes on. -/
theorem Clerk.Ok.setLeg {side : Side} {leg : GoLeg} (hstates : leg.states = (c.leg side).states)
    (htouched : leg.child ≠ .untouched) (hbegun : c.Begun)
    (hcompleted : leg.child = .completed → (c.leg side).state = .committed)
    (hreversed : leg.child = .rollbackRequested ∨ leg.reversal = true → left c.top = true)
    (hwas : (c.leg side).child = .completed → left c.top = true)
    (hfunded : direction = .withdrawal → side = .real →
      c.shadow.child = .completed ∨ left c.top = true) :
    (c.setLeg side leg).Ok direction := by
  have hstate : leg.state = (c.leg side).state := by rw [GoLeg.state, hstates]; rfl
  constructor
  · intro s hs
    rw [c.leg_setLeg] at hs ⊢
    split
    · exact htouched
    · rename_i hne
      rw [if_neg hne] at hs
      exact h.requested s hs
  · intro s _
    rw [Clerk.Begun, c.top_setLeg]
    exact hbegun
  · intro s hs
    rw [c.leg_setLeg] at hs ⊢
    split
    · rw [hstate]
      rename_i heq
      rw [if_pos heq] at hs
      exact hcompleted hs
    · rename_i hne
      rw [if_neg hne] at hs
      exact h.completed s hs
  · intro s hs
    rw [c.leg_setLeg] at hs
    rw [c.top_setLeg]
    split at hs
    · exact hreversed hs
    · exact h.reversed s hs
  · intro hdir hreal
    rw [c.top_setLeg]
    cases side with
    | real => exact hfunded hdir rfl
    | shadow =>
      rcases h.funded hdir hreal with hshadow | hleft
      · exact .inr (hwas hshadow)
      · exact .inr hleft

end Keeps

/-- What has left `started` does not come back. -/
theorem Clerk.May.left {state : Transaction.State} (h : c.May state)
    (hbefore : Ach.left c.top = true) : Ach.left state = true := by
  cases state with
  | initialized =>
    rw [show c.top = .unknown from h] at hbefore
    cases hbefore
  | started =>
    rw [show c.top = .initialized from h] at hbefore
    cases hbefore
  | unknown => exact h.elim
  | _ => rfl

theorem Clerk.May.begun {state : Transaction.State} (h : c.May state) (hbefore : c.top = .started) :
    Ach.left state = true := by
  cases state with
  | initialized => exact nomatch hbefore.symm.trans (show c.top = .unknown from h)
  | started => exact nomatch hbefore.symm.trans (show c.top = .initialized from h)
  | unknown => exact h.elim
  | _ => rfl

/-- A Transfer that goes on was there, and is not committed. -/
theorem follows_open {stage : Bool} {s s' : Transfer.State} (h : follows stage s s' = true) :
    s ≠ .unknown ∧ s ≠ .committed := by
  constructor
  · rintro rfl
    cases s' <;> simp [follows, Transfer.transitions] at h
  · rintro rfl
    cases s' <;> simp [follows, Transfer.transitions] at h

/-- The next states of a leg past being staged are past it too. -/
theorem pastStaged_follows {s s' : Transfer.State} (h : follows true s s' = true)
    (hs : pastStaged s = true) : pastStaged s' = true := by
  revert h hs
  cases s <;> cases s' <;> decide

theorem Clerk.Ok.become (h : c.Ok direction) {state : Transaction.State} (hmay : c.May state) :
    ({ c with top := state } : Clerk).Ok direction where
  requested := h.requested
  begun side hs := .inr ((h.begun side hs).elim hmay.begun hmay.left)
  completed := h.completed
  reversed side hs := hmay.left (h.reversed side hs)
  funded hdir hreal := (h.funded hdir hreal).imp id hmay.left

theorem resolution_cases {state : Transfer.State} {child : Transaction.ChildState}
    (h : resolution state = some child) :
    child = .completed ∧ state = .committed ∨ child = .failed := by
  revert h
  cases state <;> cases child <;> decide

/-- Go keeps what its streams meet. -/
theorem Clerk.Ok.go (h : c.Ok direction) (hx : c.go direction m = some c') : c'.Ok direction := by
  cases m with
  | become state =>
    simp only [Clerk.go] at hx
    split at hx
    · rename_i hmay
      cases hx
      exact h.become hmay
    · cases hx
  | dispatch side =>
    simp only [Clerk.go] at hx
    split at hx
    · rename_i hg
      obtain ⟨htop, huntouched, hready⟩ := hg
      cases hx
      refine h.setLeg rfl nofun (.inl htop) nofun ?_ ?_ ?_
      · exact fun hr => h.reversed side (hr.imp nofun id)
      · intro hwas
        exact nomatch huntouched.symm.trans hwas
      · rintro rfl rfl
        exact .inl (hready .shadow rfl)
    · cases hx
  | request side accepted =>
    simp only [Clerk.go] at hx
    split at hx
    · rename_i hg
      obtain ⟨hchild, hnil⟩ := hg
      cases hx
      have htouched : (c.leg side).child ≠ .untouched := by rw [hchild]; nofun
      split
      · refine h.push htouched ?_
        rw [GoLeg.state, hnil]
        nofun
      · refine h.setLeg rfl nofun (h.begun side htouched) nofun ?_ ?_ ?_
        · exact fun hr => h.reversed side (hr.imp nofun id)
        · intro hwas
          exact nomatch hchild.symm.trans hwas
        · rintro hdir rfl
          exact h.funded hdir htouched
    · cases hx
  | advance side state =>
    simp only [Clerk.go] at hx
    split at hx
    · rename_i hfollows
      cases hx
      obtain ⟨hthere, hopen⟩ := follows_open hfollows
      exact h.push (h.requested side (GoLeg.states_ne_nil hthere)) hopen
    · cases hx
  | reconcile side =>
    simp only [Clerk.go] at hx
    split at hx
    · rename_i hchild
      obtain ⟨child, hres, rfl⟩ := Option.map_eq_some_iff.mp hx
      have htouched : (c.leg side).child ≠ .untouched := by rw [hchild]; nofun
      have hfunded : direction = .withdrawal → side = .real →
          c.shadow.child = .completed ∨ left c.top = true := by
        rintro hdir rfl
        exact h.funded hdir htouched
      have hwas : (c.leg side).child = .completed → left c.top = true :=
        fun hdone => nomatch hchild.symm.trans hdone
      rcases resolution_cases hres with ⟨rfl, hstate⟩ | rfl
      · exact h.setLeg rfl nofun (h.begun side htouched) (fun _ => hstate)
          (fun hr => h.reversed side (hr.imp nofun id)) hwas hfunded
      · exact h.setLeg rfl nofun (h.begun side htouched) nofun
          (fun hr => h.reversed side (hr.imp nofun id)) hwas hfunded
    · cases hx
  | reverse side =>
    simp only [Clerk.go] at hx
    split at hx
    · rename_i hg
      cases hx
      have hleft : left c.top = true := by rw [hg.1]; rfl
      exact h.setLeg rfl nofun (.inr hleft) nofun (fun _ => hleft) (fun _ => hleft)
        fun _ _ => .inr hleft
    · cases hx
  | reversed side ok =>
    simp only [Clerk.go] at hx
    split at hx
    · rename_i hchild
      cases hx
      have hleft := h.reversed side (.inl hchild)
      refine h.setLeg rfl ?_ (.inr hleft) ?_ (fun _ => hleft) (fun _ => hleft)
        fun _ _ => .inr hleft
      · cases ok <;> nofun
      · cases ok <;> nofun
    · cases hx
  | project lag =>
    simp only [Clerk.go] at hx
    split at hx
    · cases hx
      exact h.congr rfl rfl rfl
    · cases hx

/-! ### Submit while nothing ends the leg -/

/-- Every entry was handed over on a live leg, before any notice was acted on, and a
withdrawal's with its shadow leg committed and not reversed. -/
def Moment.Good (direction : AchDirection) (m : Moment) : Prop :=
  m.real ≠ .cancelled ∧ m.real ≠ .failed ∧ m.acted = false ∧
    (direction = .withdrawal → m.shadow = .committed ∧ m.shadowReversal = false)

/-- A withdrawal's shadow leg was committed and not reversed. -/
def Moment.Funded (direction : AchDirection) (m : Moment) : Prop :=
  direction = .withdrawal → m.shadow = .committed ∧ m.shadowReversal = false

/-- A late return is of a completed Transaction, and what was handed over was funded. If
`R`, so is what holds under the condition below: a notice that was acted on found the
real leg staged. -/
structure Clerk.Calm (R : Prop) (direction : AchDirection) (c : Clerk) : Prop where
  ok : c.Ok direction
  acted : R → c.acted = true → pastStaged c.real.state = true ∨ left c.top = true
  returning : c.returnTransaction = true → left c.top = true
  handed : ∀ m ∈ c.handed, m.Funded direction ∧ (R → m.Good direction)

/-- The Transaction has left `started`, or the leg is live and no notice was acted on. -/
def Clerk.Live (c : Clerk) : Prop :=
  left c.top = true ∨ c.real.state ≠ .cancelled ∧ c.real.state ≠ .failed ∧ c.acted = false

/-- What a call knows, and if `R` what it knows under the condition. -/
def Clerk.Knows (R : Prop) (direction : AchDirection) (c : Clerk) : Task → Prop
  | .requireRunning => c.real.states ≠ [] ∧ (R → c.Live)
  | .submitEntry moment => moment.Funded direction ∧ (R → moment.Good direction)
  | .actOnNotice returnTransaction => returnTransaction = true → left c.top = true
  | .cancel => c.Begun
  | .returnLate | .sendLateReturn => left c.top = true
  | _ => True

/-- The read model shows `Submit` the real leg as it is. While a `Submit` waits for Go's
answer on a started Transaction, the real leg is not failed or cancelled; and a notice is
acted on only when the real leg was staged. -/
def Undisturbed (s : Crew.State Clerk Task) : Crew.Move Task Provided GoMove → Prop
  | .step i _ =>
    (s.procs[i]? = some .requireStaged → s.shared.lag = 0) ∧
      (s.procs[i]? = some .cancel → s.shared.top = .started →
        (s.shared.real.state = .staged ∨ pastStaged s.shared.real.state = true) ∧
          Task.requireRunning ∉ s.procs)
  | .world (.advance .real state) => state = .failed ∨ state = .cancelled →
      s.shared.top = .started → Task.requireRunning ∉ s.procs
  | _ => True

instance (s : Crew.State Clerk Task) : ∀ m, Decidable (Undisturbed s m)
  | .step _ _ => inferInstanceAs (Decidable (_ ∧ _))
  | .world (.advance .real _) => inferInstanceAs (Decidable (_ → _))
  | .world (.advance .shadow _) | .world (.become _) | .world (.dispatch _)
  | .world (.request _ _) | .world (.reconcile _) | .world (.reverse _)
  | .world (.reversed _ _) | .world (.project _) | .spawn _ => inferInstanceAs (Decidable True)

/-- What a move of Go's leaves of Ruby's records, and what it does to the real leg. -/
theorem Clerk.go_real (hx : c.go direction m = some c') :
    c'.acted = c.acted ∧ c'.returnTransaction = c.returnTransaction ∧ c'.handed = c.handed ∧
      (left c.top = true → left c'.top = true) ∧ (c.Begun → c'.Begun) ∧
      (c'.real.states = c.real.states ∨ c'.real.states = [.accepted] ∧ c.real.states = [] ∨
        ∃ state, m = .advance .real state ∧ follows true c.real.state state = true ∧
          c' = c.push .real state) := by
  cases m with
  | become state =>
    simp only [Clerk.go] at hx
    split at hx
    · rename_i hmay
      cases hx
      exact ⟨rfl, rfl, rfl, hmay.left, fun hb => .inr (hb.elim hmay.begun hmay.left), .inl rfl⟩
    · cases hx
  | dispatch side | reverse side | reversed side ok =>
    simp only [Clerk.go] at hx
    split at hx
    · cases hx
      cases side <;> exact ⟨rfl, rfl, rfl, id, id, .inl rfl⟩
    · cases hx
  | request side accepted =>
    simp only [Clerk.go] at hx
    split at hx
    · rename_i hg
      cases hx
      cases side with
      | shadow => cases accepted <;> exact ⟨rfl, rfl, rfl, id, id, .inl rfl⟩
      | real =>
        have hnil : c.real.states = [] := hg.2
        cases accepted with
        | false => exact ⟨rfl, rfl, rfl, id, id, .inl rfl⟩
        | true => exact ⟨rfl, rfl, rfl, id, id, .inr (.inl ⟨by simp [Clerk.push, hnil], hnil⟩)⟩
    · cases hx
  | advance side state =>
    simp only [Clerk.go] at hx
    split at hx
    · rename_i hfollows
      cases hx
      cases side with
      | shadow => exact ⟨rfl, rfl, rfl, id, id, .inl rfl⟩
      | real => exact ⟨rfl, rfl, rfl, id, id, .inr (.inr ⟨state, rfl, hfollows, rfl⟩)⟩
    · cases hx
  | reconcile side =>
    simp only [Clerk.go] at hx
    split at hx
    · obtain ⟨child, -, rfl⟩ := Option.map_eq_some_iff.mp hx
      cases side <;> exact ⟨rfl, rfl, rfl, id, id, .inl rfl⟩
    · cases hx
  | project lag =>
    simp only [Clerk.go] at hx
    split at hx
    · cases hx
      exact ⟨rfl, rfl, rfl, id, id, .inl rfl⟩
    · cases hx

variable {R : Prop}

theorem Clerk.Knows.grow {t : Task} (hk : c.Knows R direction t)
    (hleft : left c.top = true → left c'.top = true) (hbegun : c.Begun → c'.Begun)
    (hlive : t = .requireRunning → c.real.states ≠ [] → (R → c.Live) →
      c'.real.states ≠ [] ∧ (R → c'.Live)) :
    c'.Knows R direction t := by
  cases t with
  | requireRunning => exact hlive rfl hk.1 hk.2
  | submitEntry moment => exact hk
  | actOnNotice returnTransaction => exact fun h => hleft (hk h)
  | cancel => exact hbegun hk
  | returnLate | sendLateReturn => exact hleft hk
  | _ => trivial

theorem Clerk.Live.push (h : c.Live) {state : Transfer.State}
    (hstate : state ≠ .cancelled ∧ state ≠ .failed) : (c.push .real state).Live :=
  h.imp id fun hlive => ⟨hstate.1, hstate.2, hlive.2.2⟩

theorem Clerk.Calm.push (h : c.Calm R direction) {state : Transfer.State}
    (hf : follows true c.real.state state = true) : (c.push .real state).Calm R direction where
  ok := by
    obtain ⟨hthere, hopen⟩ := follows_open hf
    exact h.ok.push (h.ok.requested .real (GoLeg.states_ne_nil hthere)) hopen
  acted hR ha := (h.acted hR ha).imp (pastStaged_follows hf) id
  returning := h.returning
  handed := h.handed

/-- A started Transaction's leg that was dispatched ends only with the Transaction having
left `started`, or by a move the condition speaks of. -/
theorem Clerk.Ok.left_of_ne (h : c.Ok direction) (hstates : c.real.states ≠ [])
    (htop : c.top ≠ .started) : left c.top = true :=
  (h.begun .real (h.requested .real hstates)).resolve_left htop

/-- A leg that goes on without ending leaves what every call knows. -/
theorem Clerk.Calm.push_knows (h : c.Calm R direction) {state : Transfer.State}
    (hf : follows true c.real.state state = true) (hstate : state ≠ .cancelled ∧ state ≠ .failed) :
    (c.push .real state).Calm R direction ∧
      ∀ t, c.Knows R direction t → (c.push .real state).Knows R direction t :=
  ⟨h.push hf, fun _ hk => hk.grow id id fun _ _ hlive =>
    ⟨List.cons_ne_nil _ _, fun hR => (hlive hR).push hstate⟩⟩

/-- Go keeps the invariant, and what every call knows. -/
theorem Clerk.Calm.go (h : s.shared.Calm R direction) (hcond : R → Undisturbed s (.world m))
    (hx : s.shared.go direction m = some c') :
    c'.Calm R direction ∧ ∀ t ∈ s.procs, s.shared.Knows R direction t → c'.Knows R direction t := by
  obtain ⟨hacted, hreturning, hhanded, hleft, hbegun, hreal⟩ := Clerk.go_real hx
  rcases hreal with hsame | ⟨hnew, hnil⟩ | ⟨state, rfl, hfollows, rfl⟩
  · have hstate : c'.real.state = s.shared.real.state := by rw [GoLeg.state, hsame]; rfl
    refine ⟨⟨h.ok.go hx, ?_, ?_, ?_⟩, ?_⟩
    · intro hR ha
      rw [hstate]
      exact (h.acted hR (hacted ▸ ha)).imp id hleft
    · exact fun hr => hleft (h.returning (hreturning ▸ hr))
    · exact hhanded ▸ h.handed
    · intro t _ hk
      refine hk.grow hleft hbegun fun _ hstates hlive => ⟨hsame ▸ hstates, fun hR => ?_⟩
      unfold Clerk.Live
      rw [hstate, hacted]
      exact (hlive hR).imp hleft id
  · refine ⟨⟨h.ok.go hx, ?_, ?_, ?_⟩, ?_⟩
    · intro hR ha
      rcases h.acted hR (hacted ▸ ha) with hpast | hl
      · rw [GoLeg.state, hnil] at hpast
        cases hpast
      · exact .inr (hleft hl)
    · exact fun hr => hleft (h.returning (hreturning ▸ hr))
    · exact hhanded ▸ h.handed
    · intro t _ hk
      exact hk.grow hleft hbegun fun _ hstates _ => (hstates hnil).elim
  · refine ⟨h.push hfollows, ?_⟩
    intro t ht hk
    refine hk.grow hleft hbegun fun hrunning hstates hlive => ⟨List.cons_ne_nil _ _, fun hR => ?_⟩
    by_cases hends : state = .failed ∨ state = .cancelled
    · left
      refine h.ok.left_of_ne hstates fun htop => ?_
      exact hcond hR hends htop (hrunning ▸ ht)
    · exact (hlive hR).push ⟨fun hc => hends (.inr hc), fun hf => hends (.inl hf)⟩

/-- What the read model shows is of a Transfer there is. -/
theorem Clerk.states_of_shown {state : Transfer.State} (h : c.shown = some state) :
    c.real.states ≠ [] := by
  intro hnil
  rw [Clerk.shown, hnil] at h
  cases h

/-- Up to date, the read model shows the leg as it is. -/
theorem Clerk.state_of_shown {state : Transfer.State} (hlag : c.lag = 0)
    (h : c.shown = some state) : c.real.state = state := by
  rw [Clerk.shown, hlag] at h
  rw [GoLeg.state, List.headD_eq_head?_getD, List.head?_eq_getElem?, h]
  rfl

/-- What `Submit` hands over on, when Go answers that the Transaction is started. -/
theorem Clerk.Calm.moment (h : c.Calm R direction) (hk : c.Knows R direction .requireRunning)
    (htop : c.top = .started) :
    let m : Moment := ⟨c.real.state, c.shadow.state, c.shadow.reversal, c.acted⟩
    m.Funded direction ∧ (R → m.Good direction) := by
  intro m
  have hstays : left c.top ≠ true := by
    rw [htop]
    nofun
  have hfunded : m.Funded direction := by
    intro hdir
    have htouched := h.ok.requested .real hk.1
    have hshadow := (h.ok.funded hdir htouched).resolve_right hstays
    refine ⟨h.ok.completed .shadow hshadow, ?_⟩
    exact Bool.eq_false_iff.mpr fun hrev => hstays (h.ok.reversed .shadow (.inr hrev))
  refine ⟨hfunded, fun hR => ?_⟩
  obtain ⟨hcancelled, hfailed, hacted⟩ := (hk.2 hR).resolve_left hstays
  exact ⟨hcancelled, hfailed, hacted, hfunded⟩

/-- A cancel that the condition allows. -/
theorem Clerk.Calm.cancel (h : s.shared.Calm R direction) (hbegun : s.shared.Begun)
    (hcond : R → s.shared.top = .started →
      (s.shared.real.state = .staged ∨ pastStaged s.shared.real.state = true) ∧
        Task.requireRunning ∉ s.procs)
    (hc' : c' = { (if s.shared.real.state = .staged ∨ s.shared.real.state = .pending
      then s.shared.push .real .cancelled else s.shared) with acted := true }) :
    c'.Calm R direction ∧ ∀ t ∈ s.procs, s.shared.Knows R direction t → c'.Knows R direction t := by
  have hover (hR : R) (ht : Task.requireRunning ∈ s.procs) : left s.shared.top = true :=
    hbegun.resolve_left fun htop => (hcond hR htop).2 ht
  split at hc'
  · rename_i hstate
    have hf : follows true s.shared.real.state .cancelled = true := by
      rcases hstate with hs | hs <;> rw [hs] <;> rfl
    have hpushed := h.push hf
    subst hc'
    refine ⟨⟨?_, fun _ _ => .inl rfl, hpushed.returning, hpushed.handed⟩, ?_⟩
    · exact hpushed.ok.congr rfl rfl rfl
    · intro t ht hk
      exact hk.grow id id fun hrunning _ _ =>
        ⟨List.cons_ne_nil _ _, fun hR => .inl (hover hR (hrunning ▸ ht))⟩
  · rename_i hstate
    subst hc'
    refine ⟨⟨h.ok.congr rfl rfl rfl, ?_, h.returning, h.handed⟩, ?_⟩
    · intro hR _
      rcases hbegun with htop | hleft
      · exact .inl ((hcond hR htop).1.resolve_left fun hs => hstate (.inl hs))
      · exact .inr hleft
    · intro t ht hk
      exact hk.grow id id fun hrunning hstates _ =>
        ⟨hstates, fun hR => .inl (hover hR (hrunning ▸ ht))⟩

/-- A step of a call that leaves the entry as it is. -/
theorem Clerk.Calm.same {t : Task} (h : s.shared.Calm R direction)
    (hk : s.shared.Knows R direction t) :
    s.shared.Calm R direction ∧ s.shared.Knows R direction t ∧
      ∀ q ∈ s.procs, s.shared.Knows R direction q → s.shared.Knows R direction q :=
  ⟨h, hk, fun _ _ hq => hq⟩

theorem taskStep_calm {i : Nat} {p p' : Task} {a : Provided} (h : s.shared.Calm R direction)
    (hk : s.shared.Knows R direction p) (hcond : R → Undisturbed s (.step i a))
    (hp : s.procs[i]? = some p) (hx : taskStep s.shared p a = some (c', p')) :
    c'.Calm R direction ∧ c'.Knows R direction p' ∧
      ∀ t ∈ s.procs, s.shared.Knows R direction t → c'.Knows R direction t := by
  cases p with
  | submitDue | submit | finishConfirmation =>
    cases hx
    refine h.same ?_
    split <;> trivial
  | requireStaged =>
    cases hx
    refine h.same ?_
    split
    · rename_i hshown
      refine ⟨Clerk.states_of_shown hshown, fun hR => ?_⟩
      have hstate := Clerk.state_of_shown ((hcond hR).1 hp) hshown
      cases hacted : s.shared.acted with
      | false => exact .inr ⟨hstate ▸ nofun, hstate ▸ nofun, hacted⟩
      | true =>
        rcases h.acted hR hacted with hpast | hleft
        · rw [hstate] at hpast
          cases hpast
        · exact .inl hleft
    · trivial
  | requireRunning =>
    cases hx
    refine h.same ?_
    split
    · rename_i htop
      exact h.moment hk htop
    · trivial
  | submitEntry moment =>
    cases hx
    refine ⟨⟨h.ok.congr rfl rfl rfl, h.acted,
      h.returning, ?_⟩, ?_, fun t _ hq => hq.grow id id fun _ hs hl => ⟨hs, hl⟩⟩
    · intro m hm
      rcases List.mem_cons.mp hm with rfl | hm
      · exact hk
      · exact h.handed m hm
    · cases a <;> trivial
  | recordReference =>
    cases hx
    exact ⟨⟨h.ok.congr rfl rfl rfl, h.acted,
      h.returning, h.handed⟩, trivial, fun t _ hq => hq.grow id id fun _ hs hl => ⟨hs, hl⟩⟩
  | confirm =>
    cases hx
    split
    · rename_i hstate
      have hf : follows true s.shared.real.state .pending = true := by rw [hstate]; rfl
      obtain ⟨hcalm, hothers⟩ := h.push_knows hf ⟨nofun, nofun⟩
      exact ⟨hcalm, trivial, fun t _ => hothers t⟩
    · exact h.same trivial
  | returned =>
    cases hx
    exact ⟨⟨h.ok.congr rfl rfl rfl, h.acted,
      h.returning, h.handed⟩, h.returning, fun t _ hq => hq.grow id id fun _ hs hl => ⟨hs, hl⟩⟩
  | returnDue =>
    cases hx
    refine h.same ?_
    split
    · exact h.returning
    · trivial
  | actOnNotice returnTransaction =>
    simp only [taskStep] at hx
    split at hx
    · rename_i hreturning
      cases hx
      exact h.same (hk hreturning)
    · split at hx
      · rename_i htop
        cases hx
        exact h.same (.inl htop)
      · rename_i htop
        cases hx
        refine h.same (show left s.shared.top = true from ?_)
        rw [htop]
        rfl
      · cases hx
        exact h.same trivial
  | cancel =>
    cases hx
    obtain ⟨hcalm, hothers⟩ := h.cancel hk (fun hR => (hcond hR).2 hp) rfl
    exact ⟨hcalm, trivial, hothers⟩
  | returnLate =>
    cases hx
    exact ⟨⟨h.ok.congr rfl rfl rfl, h.acted,
      fun _ => hk, h.handed⟩, hk, fun t _ hq => hq.grow id id fun _ hs hl => ⟨hs, hl⟩⟩
  | sendLateReturn =>
    cases hx
    exact ⟨⟨h.ok.congr rfl rfl rfl,
      fun _ _ => .inr hk, h.returning, h.handed⟩, trivial,
      fun t _ hq => hq.grow id id fun _ hs _ => ⟨hs, fun _ => .inl hk⟩⟩
  | settle =>
    cases hx
    split
    · rename_i hstate
      have hf : follows true s.shared.real.state .committed = true := by rw [hstate]; rfl
      obtain ⟨hcalm, hothers⟩ := h.push_knows hf ⟨nofun, nofun⟩
      exact ⟨hcalm, trivial, fun t _ => hothers t⟩
    · exact h.same trivial
  | ended => cases hx

theorem reaches_calm {cond : Crew.State Clerk Task → Crew.Move Task Provided GoMove → Prop}
    (hcond : R → ∀ s m, cond s m → Undisturbed s m)
    (h : (submissions direction).machine.Reaches cond s) : s.shared.Calm R direction := by
  refine (Crew.invariant_of (Q := fun c t => c.Knows R direction t) h ?_ ?_ ?_ ?_).1
  · refine ⟨⟨?_, ?_, ?_, ?_, ?_⟩, fun _ => nofun, nofun, nofun⟩
    · intro side hs
      cases side <;> exact (hs rfl).elim
    · intro side hs
      cases side <;> exact (hs rfl).elim
    · intro side hs
      cases side <;> cases hs
    · intro side hs
      cases side <;> exact nomatch hs
    · intro _ hs
      exact (hs rfl).elim
  · intro s t _ _ hbegins
    cases t <;> trivial
  · intro s i a p c' p' hP hQ hm hp hx
    exact taskStep_calm hP (hQ p (List.mem_of_getElem? hp)) (fun hR => hcond hR _ _ hm) hp hx
  · intro s m c' hP _ hm hx
    exact hP.go (fun hR => hcond hR _ _ hm) hx

/-- A withdrawal is handed to the provider only when, at the moment Go answered that its
Transaction is started, its shadow leg was committed and had no Reversal, in every run.
In every run that the condition holds of, the real leg of an entry that is handed over
was then neither cancelled nor failed, and no notice had been acted on. -/
theorem handed_on_live_leg (direction : AchDirection) {s : Crew.State Clerk Task}
    (h : (submissions direction).machine.Reachable s) :
    (direction = .withdrawal →
      ∀ m ∈ s.shared.handed, m.shadow = .committed ∧ m.shadowReversal = false) ∧
    ((submissions direction).machine.Reaches Undisturbed s →
      ∀ m ∈ s.shared.handed, m.Good direction) := by
  refine ⟨fun hdir m hm => ?_, fun hcond m hm => ?_⟩
  · exact ((reaches_calm (R := False) False.elim h).handed m hm).1 hdir
  · exact ((reaches_calm (fun _ _ _ hu => hu) hcond).handed m hm).2 trivial

/-- A deposit's real leg is staged, and the read model has seen it. -/
def staging : List (Crew.Move Task Provided GoMove) :=
  [.world (.become .initialized), .world (.become .started), .world (.dispatch .real),
    .world (.request .real true), .world (.advance .real .prepared),
    .world (.advance .real .staged), .world (.project 0)]

theorem handed_on_live_leg_staged : ∃ s, (submissions .deposit).machine.Reaches Undisturbed s ∧
    s.shared.handed.length = 1 ∧ ∀ m ∈ s.shared.handed, m.Good .deposit := by
  obtain ⟨s, hs, hlen⟩ := Machine.exists_of_play (submissions .deposit).machine Undisturbed
    (·.shared.handed.length = 1)
    (staging ++ [.spawn .submit, .step 0 .accepted, .step 0 .accepted, .step 0 .accepted,
      .step 0 .accepted]) (by decide +kernel)
  exact ⟨s, hs, hlen, (handed_on_live_leg .deposit hs.reachable).2 hs⟩

/-- A notice cancels the real leg. The Transaction is still started, and the read model
still shows the leg staged, so the entry is handed over. -/
theorem handed_on_cancelled_leg : ∃ s, (submissions .deposit).machine.Reachable s ∧
    ∃ m ∈ s.shared.handed, m.real = .cancelled ∧ m.acted = true :=
  Machine.exists_of_play (submissions .deposit).machine (fun _ _ => True)
    (fun s => ∃ m ∈ s.shared.handed, m.real = .cancelled ∧ m.acted = true)
    (staging ++ [.spawn .returned, .step 0 .accepted, .step 0 .accepted, .step 0 .accepted,
      .spawn .submit, .step 1 .accepted, .step 1 .accepted, .step 1 .accepted, .step 1 .accepted])
    (by decide +kernel)

end MoneyFlow.Ach
