import MoneyFlow.Plans
import MoneyFlow.Transfer.Destinations

/-!
# MoneyFlow.Transfer.Figures

The amounts the log states are those of the legs.

`ReversalRequestAccepted` states what the original's legs add up to, and
`TransferCommitted` what each destination received. Both are written from legs that
were read back from the stream, and those never change: `figures` is the contract
that says so of every append, and `FiguresOk` what follows for every state.
-/

namespace MoneyFlow.Transfer

open Concurrent Service

variable {e : TransferEvent}

variable {R : Prop} {w w' : World} {id : Id} {legs : List TransferLeg}

/-! ### The contract -/

/-- What `RequestReversal` adds up: the minor units in a word, in the currency of
the last leg. -/
def statedAmount (plan : List Leg) : Money :=
  ⟨plan.foldl (fun total leg => total + leg.amount.minorUnits) 0,
    (plan.getLast?.map fun leg => leg.amount.currency).getD ""⟩

/-- The amounts an event of the Transfer states are those of the legs. -/
def Figured (w : World) (id : Id) : TransferEvent → Prop
  | .reversalRequestAccepted a => ∃ legs, w.legs a.transferID = .ok legs ∧
      a.amount = statedAmount (legs.map turned)
  | .transferCommitted _ ds => ∃ legs, w.legs id = .ok legs ∧ ds = buildDestinations legs
  | _ => True

/-- The same of all events of a write. -/
def FiguredWrite (w : World) : StreamWrite → Prop
  | ⟨.transfer, id, _, events⟩ => ∀ e ∈ events, Figured w id e
  | _ => True

/-- What is appended states the amounts of the legs. -/
def figures (R : Prop) : Contract World Op where
  assume _ w := Inv R w
  ensure
    | .appendAtomic ws, w => ∀ x ∈ ws, FiguredWrite w x
    | _, _ => True

theorem Figured.grow (h : Figured w id e) (hle : w ≤ w') : Figured w' id e := by
  cases e with
  | reversalRequestAccepted a =>
    obtain ⟨legs, hlegs, hamount⟩ := h
    exact ⟨legs, World.legs_grow hle hlegs, hamount⟩
  | transferCommitted i ds =>
    obtain ⟨legs, hlegs, hds⟩ := h
    exact ⟨legs, World.legs_grow hle hlegs, hds⟩
  | _ => trivial

/-- Events that state no amount. -/
def unfigured : Scope where
  transfer _ events := ∀ e ∈ events, reckons e.eventType = false
  wallet _ _ := True

/-- Events that state the amounts of the legs as they are in `w`. -/
def figuredIn (w : World) : Scope where
  transfer id events := ∀ e ∈ events, Figured w id e
  wallet _ _ := True

theorem figured_of_plain (hr : reckons e.eventType = false) : Figured w id e := by
  cases e with
  | reversalRequestAccepted a | transferCommitted i ds =>
    simp [reckons, TransferEvent.eventType] at hr
  | _ => trivial

theorem figured_of_within {x : StreamWrite} (h : x.Within unfigured) : FiguredWrite w x := by
  obtain ⟨a, id, seq, events⟩ := x
  cases a with
  | transfer => exact fun e he => figured_of_plain (h e he)
  | _ => trivial

theorem figured_of_publishes {x : StreamWrite} (h : x.Publishes) : FiguredWrite w x := by
  obtain ⟨a, id, seq, events⟩ := x
  cases a with
  | transfer => exact h.elim
  | _ => trivial

theorem figures_lenient : Lenient (figures R) unfigured :=
  Open.lenient ⟨fun o _ _ _ => by cases o <;> trivial, fun _ hws _ _ x hx =>
    (hws x hx).elim figured_of_within figured_of_publishes⟩

/-- From `w` on, what the legs are in `w` may be stated. -/
theorem figures_lenient_from (w : World) : Lenient ((figures R).from w) (figuredIn w) := by
  refine Open.lenient ⟨fun o _ _ _ => by cases o <;> trivial, fun ws hws w1 hw1 x hx => ?_⟩
  rcases hws x hx with hin | hpub
  · obtain ⟨a, id, seq, events⟩ := x
    cases a with
    | transfer => exact fun e he => (hin e he).grow hw1.1
    | _ => trivial
  · exact figured_of_publishes hpub

theorem unfigured_of (hr : reckons e.eventType = false) : unfigured.transfer id [e] := by
  intro e' he
  obtain rfl := List.mem_singleton.mp he
  exact hr

theorem figuredIn_of (h : Figured w id e) : (figuredIn w).transfer id [e] := by
  intro e' he
  obtain rfl := List.mem_singleton.mp he
  exact h

theorem figures_permits (batch : List LedgerTransfer) :
    Permits (figures R) (.createTransfers batch) :=
  fun _ _ => trivial

/-! ### Settling -/

theorem commitClaimed_figures {fuel seq : Nat} {posting : Bool} (hlegs : w.legs id = .ok legs) :
    Obeys (figures R) (commitClaimed fuel id seq legs posting) w := by
  have hrequests (batch : List LedgerTransfer) : Requests ((figures R).from w) batch w :=
    fun _ _ _ _ _ => trivial
  refine Ensures.of_from (commitClaimed_obeys (figures_lenient_from w)
    ⟨hrequests _, fun _ => ⟨hrequests _, hrequests _⟩⟩ (fun _ => figuredIn_of trivial)
    (figuredIn_of ⟨legs, hlegs, rfl⟩))

theorem commit_figures (fuel : Nat) (id : Id) (w : World) :
    Obeys (figures R) (commit fuel id) w := by
  refine commit_obeys figures_lenient fun w1 legs _ _ hlegs => ?_
  exact (claimForDispatch_obeys figures_lenient (unfigured_of rfl) w1 fuel).mono
    fun _ w2 hle2 _ seq _ => commitClaimed_figures (World.legs_grow hle2 hlegs)

theorem stageClaimed_figures {fuel seq : Nat} (w : World) :
    Obeys (figures R) (stageClaimed fuel id seq legs) w :=
  stageClaimed_obeys figures_lenient (requests_of_permits figures_permits _ w)
    (fun _ => unfigured_of rfl) (recordOutcome_obeys figures_lenient (unfigured_of rfl) w fuel)

theorem stage_figures (fuel : Nat) (id : Id) (w : World) : Obeys (figures R) (stage fuel id) w := by
  refine stage_obeys figures_lenient fun w1 legs _ _ => ?_
  exact (claimForDispatch_obeys figures_lenient (unfigured_of rfl) w1 fuel).mono
    fun _ w2 _ _ seq _ => stageClaimed_figures w2

theorem cancelStaged_figures (fuel : Nat) (id : Id) (reason : Text) (w : World) :
    Obeys (figures R) (cancelStaged fuel id reason) w := by
  refine cancelStaged_obeys figures_lenient (unfigured_of rfl) fun w1 legs _ _ _ => ?_
  exact (claimForDispatch_obeys figures_lenient (unfigured_of rfl) w1 fuel).mono
    fun _ w2 _ _ seq _ => requests_of_permits figures_permits _ w2

/-! ### Accepting a Reversal -/

/-- What is turned around are the original's legs. -/
theorem reversalManifest_returns {C : Contract World Op} {S : Scope} (hC : Lenient C S)
    (hA : ∀ o w, C.assume o w → Inv R w) {original : Id} (w : World) :
    Ensures C (reversalManifest original) (fun r w' => ∀ plan, r = .ok plan →
      ∃ legs, w'.legs original = .ok legs ∧ plan = legs.map turned) w := by
  refine hC.load fun w1 _ ha => ?_
  split
  · exact Ensures.pure fun _ _ _ h => nomatch h
  · split
    · exact Ensures.pure fun _ _ _ h => nomatch h
    · split
      · exact Ensures.throw
      · rename_i hne
        refine Ensures.pure fun w2 hle2 plan h => ?_
        cases h
        have hL := (hA _ _ ha).lifecycle original
        obtain ⟨legs, hlegs, heq⟩ := (reversedLegs_eq hL).resolve_left
          fun hnil => hne (List.isEmpty_iff.mpr hnil)
        exact ⟨legs, World.legs_grow hle2 hlegs, heq⟩

theorem requestReversalAttempts_figures (req : RequestReversalRequest) :
    ∀ (attempts : Nat) (w : World),
    Obeys (figures R) (requestReversalAttempts req attempts) w
  | 0, _ => Ensures.throw
  | attempts + 1, w => by
    refine Obeys.request (figures_lenient.free _ rfl) fun rows => ?_
    split
    · refine (reversalManifest_returns figures_lenient (fun _ _ h => h) w).seq
        fun r w1 _ hr => ?_
      cases r with
      | error reason =>
        exact Obeys.bind_bool (tryAppend_obeys figures_lenient (unfigured_of rfl) w1)
          (requestReversalAttempts_figures req attempts w1) Obeys.pure
      | ok plan =>
        obtain ⟨legs, hlegs, rfl⟩ := hr plan rfl
        have hscope : (figuredIn w1).transfer req.id
            [.reversalRequestAccepted (reversalAcceptedOf req (legs.map turned))] :=
          figuredIn_of ⟨legs, hlegs, rfl⟩
        exact Obeys.bind_bool (Ensures.of_from
          (tryAppend_obeys (figures_lenient_from w1) hscope w1))
          (requestReversalAttempts_figures req attempts w1) Obeys.pure
    · exact check_obeys _ _

theorem requestReversal_figures (req : RequestReversalRequest) (w : World) :
    Obeys (figures R) (requestReversal req) w :=
  check_bind_obeys fun _ _ => check_bind_obeys fun _ _ =>
    requestReversalAttempts_figures req _ w

/-! ### Preparing -/

theorem prepare_figures (id : Id) (fuel : Nat) (w : World) :
    Obeys (figures R) (prepare id fuel) w := by
  refine prepare_within figures_lenient (fun _ _ _ _ => trivial) (fun legs stage e he => ?_)
    (fun _ => unfigured_of rfl) w fuel
  rcases List.mem_cons.mp he with rfl | he
  · rfl
  · obtain rfl := List.mem_singleton.mp he
    cases stage <;> rfl

/-! ### Every driver -/

theorem figures_regular : Regular (figures R) unfigured where
  lenient := figures_lenient
  transfer _ _ _ hr := unfigured_of hr
  opened _ _ _ _ := trivial
  untagged _ _ _ := trivial
  reverse := requestReversal_figures
  commit := commit_figures
  cancelStaged := cancelStaged_figures

theorem figures_transaction (tid : Id) : Transaction.OwnAppends (figures R) tid := by
  intro _ _ _ _ x hx
  obtain rfl := List.mem_singleton.mp hx
  trivial

theorem figures_settling : Settling (figures R) where
  prepare := prepare_figures
  stage fuel id w _ := stage_figures fuel id w
  stageClaimed _ _ _ _ w _ _ := stageClaimed_figures w
  commitClaimed _ _ _ _ _ hlegs _ := commitClaimed_figures hlegs

end MoneyFlow.Transfer

namespace MoneyFlow

open Concurrent Transfer

variable {R : Prop}

/-- **Every driver states the amounts of the legs.** -/
theorem Driver.figures {guard : Driver → Op → World → Prop} (hR : Refusals R guard) (d : Driver)
    (fuel : Nat) (w : World) :
    Safe ((driverContract R guard d).both (figures R)) (fun _ _ => True) (d.service fuel).run w :=
  figures_settling.driver figures_regular hR figures_transaction d fuel w

/-! ### In every state -/

variable {w w' : World} {id : Id}

/-- Every event on record states the amounts of the legs. -/
def FiguresOk (w : World) : Prop := ∀ id, ∀ e ∈ eventsOf (w.transfer id), Figured w id e

theorem figuresOk_init : FiguresOk .init := fun _ _ hm => absurd hm List.not_mem_nil

theorem FiguresOk.tick (h : FiguresOk w) (ht : w.Tick w') : FiguresOk w' := by
  obtain ⟨d, rfl⟩ := ht
  exact fun id e hm => Figured.grow (h id e hm) (World.le_of_tick ⟨d, rfl⟩)

/-- **A step keeps it.** -/
theorem figures_step {o : Op} {r : Resp o} (h : FiguresOk w) (hlegal : Legal R o w)
    (hfigures : (figures R).ensure o w) (hx : w.Exec o r w') : FiguresOk w' := by
  intro id e hm
  suffices Figured w id e from this.grow (World.le_of_exec hx)
  rcases exec_stream hlegal hx .transfer id with hsame | ⟨ws, events, happ⟩
  · rw [show w'.transfer id = w.transfer id from hsame] at hm
    exact h id e hm
  · rw [show eventsOf (w'.transfer id) = _ from happ.events] at hm
    rcases List.mem_append.mp hm with hm | hm
    · exact h id e hm
    · obtain rfl := happ.op
      exact (show FiguredWrite w ⟨.transfer, id, _, events⟩ from hfigures _ happ.mem) e hm

end MoneyFlow
