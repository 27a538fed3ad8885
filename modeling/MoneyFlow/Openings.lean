import MoneyFlow.Runs

/-!
# MoneyFlow.Openings

Who opens a Transfer's stream, and with what.

A stream is opened by one of four events, and only three kinds of driver append
one: a client's `RequestTransfer`, a client's `RequestReversal`, and a
Transaction's saga, which requests its children as its recorded spec has them
and, once it rolls back, their Reversals. `Opening` lists these; `Driver.opens`
proves that nothing else in the system opens a stream.

A child's Reversal stands under an id derived from the Transaction and the child.
Anybody may request a Transfer under that id first; where nobody does, the stream
under it is the Reversal of that very child (`reverses_of_untaken`).
-/

namespace MoneyFlow

open Concurrent Transfer Transaction

variable {e : TransferEvent} {w' : World}

/-- In `w`, driver `d` may open the stream of `id` with `e`. -/
inductive Opening (w : World) : Driver → Id → TransferEvent → Prop
  | transfer {req : RequestTransferRequest} {amount : Money}
      (hreq : validateRequest req = .ok amount) :
      Opening w (.requestTransfer req) req.id (.transferRequestAccepted (acceptedOf req amount))
  | transferRejected {req : RequestTransferRequest} {reason : Text} :
      Opening w (.requestTransfer req) req.id (.transferRequestRejected req.id reason)
  | reversal {req : RequestReversalRequest} {legs : List Leg} :
      Opening w (.requestReversal req) req.id
        (.reversalRequestAccepted (reversalAcceptedOf req legs))
  | reversalRejected {req : RequestReversalRequest} {reason : Text} :
      Opening w (.requestReversal req) req.id
        (.reversalRequestRejected req.id req.transferID reason)
  | child {tid childID : Id} {spec : Spec} {child : TransferSpec} {amount : Money}
      (hspec : decodeSpec (w.log tid) = .ok spec)
      (hchild : spec.transfers.get? childID = some child)
      (hreq : validateRequest (requestFor tid child) = .ok amount) :
      Opening w (.resumeTransaction tid) child.id
        (.transferRequestAccepted (acceptedOf (requestFor tid child) amount))
  | childRejected {tid childID : Id} {spec : Spec} {child : TransferSpec} {reason : Text}
      (hspec : decodeSpec (w.log tid) = .ok spec)
      (hchild : spec.transfers.get? childID = some child) :
      Opening w (.resumeTransaction tid) child.id (.transferRequestRejected child.id reason)
  | undo {tid childID : Id} {spec : Spec} {child : TransferSpec} {legs : List Leg}
      (hspec : decodeSpec (w.log tid) = .ok spec)
      (hchild : spec.transfers.get? childID = some child) (hroll : RollbackBegun (w.log tid)) :
      Opening w (.resumeTransaction tid) (.reversal tid child.id) (.reversalRequestAccepted
        (reversalAcceptedOf ⟨.reversal tid child.id, child.id, child.stage, tid⟩ legs))
  | undoRejected {tid childID : Id} {spec : Spec} {child : TransferSpec} {reason : Text}
      (hspec : decodeSpec (w.log tid) = .ok spec)
      (hchild : spec.transfers.get? childID = some child) (hroll : RollbackBegun (w.log tid)) :
      Opening w (.resumeTransaction tid) (.reversal tid child.id)
        (.reversalRequestRejected (.reversal tid child.id) child.id reason)

theorem Opening.grow {w : World} {d : Driver} {id : Id} (h : Opening w d id e) (hle : w ≤ w') :
    Opening w' d id e := by
  cases h with
  | transfer hreq => exact .transfer hreq
  | transferRejected => exact .transferRejected
  | reversal => exact .reversal
  | reversalRejected => exact .reversalRejected
  | child hspec hchild hreq =>
    exact .child (decodeSpec_grow hspec (World.log_grow hle _)) hchild hreq
  | childRejected hspec hchild =>
    exact .childRejected (decodeSpec_grow hspec (World.log_grow hle _)) hchild
  | undo hspec hchild hroll =>
    exact .undo (decodeSpec_grow hspec (World.log_grow hle _)) hchild
      (hroll.mono (World.log_grow hle _).subset)
  | undoRejected hspec hchild hroll =>
    exact .undoRejected (decodeSpec_grow hspec (World.log_grow hle _)) hchild
      (hroll.mono (World.log_grow hle _).subset)

theorem Opening.opensStream {w : World} {d : Driver} {id : Id} (h : Opening w d id e) :
    Transfer.opensStream e.eventType = true := by
  cases h <;> rfl

/-- The driver opens only the streams it may, and writes to a Transaction's stream
alone. -/
def opens (d : Driver) : Contract World Op where
  assume _ _ := True
  ensure
    | .appendAtomic ws, w =>
      (∀ id seq events, StreamWrite.mk .transfer id seq events ∈ ws →
        ∀ e ∈ events, opensStream e.eventType = true → Opening w d id e) ∧
      ∀ x ∈ ws, x.aggregateType = .transaction → ws = [x]
    | _, _ => True

/-- What the driver may append from `w` on. -/
def mayOpen (d : Driver) (w : World) : Scope where
  transfer id events := ∀ e ∈ events, opensStream e.eventType = true → Opening w d id e
  wallet _ _ := True

/-- Writes in scope are not to Transactions. -/
theorem alone_of_within {S : Scope} {ws : List StreamWrite}
    (h : ∀ x ∈ ws, x.Within S ∨ x.Publishes) :
    ∀ x ∈ ws, x.aggregateType = .transaction → ws = [x] := by
  rintro ⟨a, id, seq, events⟩ hx rfl
  exact (h _ hx).elim False.elim False.elim

section

variable (d : Driver) (w : World)

theorem opens_open : Open ((opens d).from w) (mayOpen d w) where
  free o ho w1 _ := by cases o <;> trivial
  append ws hws w1 hle := by
    refine ⟨fun id seq events hx e he ho => ?_, alone_of_within hws⟩
    have hmay : (mayOpen d w).transfer id events := (hws _ hx).resolve_right not_false
    exact (hmay e he ho).grow hle.1

theorem opens_lenient : Lenient ((opens d).from w) (mayOpen d w) := (opens_open d w).lenient

theorem mayOpen_of_none {id : Id} {events : List TransferEvent}
    (h : ∀ e ∈ events, opensStream e.eventType = false) : (mayOpen d w).transfer id events := by
  intro e he ho
  rw [h e he] at ho
  exact absurd ho Bool.false_ne_true

theorem mayOpen_continues : Continues (mayOpen d w) :=
  fun _ _ he => mayOpen_of_none d w fun _ hm =>
    List.mem_singleton.mp hm ▸ (Bool.or_eq_false_iff.mp he).1

theorem opens_ledger (ts : List LedgerTransfer) :
    Permits ((opens d).from w) (.createTransfers ts) :=
  fun _ _ => trivial

theorem opens_transaction (tid : Id) (seq : Nat) (events : List TransactionEvent) :
    Permits ((opens d).from w) (.appendAtomic [⟨.transaction, tid, seq, events⟩]) := by
  refine fun w1 _ => ⟨fun id seq' events' hx => ?_, fun x hx _ => ?_⟩
  · simp at hx
  · rw [List.mem_singleton.mp hx]

end

/-- Nothing is asked of appends that open no Transfer. -/
theorem opens_nothing (d : Driver) :
    Lenient (opens d) ⟨fun _ events => ∀ e ∈ events, opensStream e.eventType = false,
      fun _ _ => True⟩ := by
  refine Open.lenient ⟨fun o ho w1 _ => by cases o <;> trivial, fun ws hws w1 _ => ?_⟩
  refine ⟨fun id seq events hx e he ho => ?_, alone_of_within hws⟩
  have hnone : ∀ e ∈ events, opensStream e.eventType = false := (hws _ hx).resolve_right not_false
  rw [hnone e he] at ho
  exact absurd ho Bool.false_ne_true

variable {w : World} {d : Driver} {id : Id}

theorem mayOpen_one (h : Opening w d id e) : (mayOpen d w).transfer id [e] :=
  fun _ he _ => List.mem_singleton.mp he ▸ h

/-- The saga requests the children its spec records. -/
theorem mayRequest {tid : Id} {spec : Spec} (hspec : decodeSpec (w.log tid) = .ok spec) :
    MayRequest (opens (.resumeTransaction tid)) tid spec.transfers w := by
  intro childID
  unfold specOf
  cases hchild : spec.transfers.get? childID with
  | none => exact Ensures.throw
  | some child =>
    refine Ensures.of_from (requestTransfer_obeys (opens_lenient _ w) ?_ ?_ w)
    · exact fun amount hreq => mayOpen_one (.child hspec hchild hreq)
    · exact fun reason => mayOpen_one (.childRejected hspec hchild)

/-- Rolling back, it requests their Reversals. -/
theorem mayUnwind {tid : Id} {spec : Spec} (hspec : decodeSpec (w.log tid) = .ok spec)
    (hroll : RollbackBegun (w.log tid)) :
    MayUnwind (opens (.resumeTransaction tid)) tid spec.transfers w where
  request := mayRequest hspec
  reverse childID := by
    unfold specOf
    cases hchild : spec.transfers.get? childID with
    | none => exact check_bind_obeys fun _ _ => Ensures.throw
    | some child =>
      refine Ensures.of_from (requestReversal_obeys (opens_lenient _ w) ?_ ?_ w)
      · exact fun legs => mayOpen_one (.undo hspec hchild hroll)
      · exact fun reason => mayOpen_one (.undoRejected hspec hchild hroll)
  cancelStaged fuel childID := by
    have hS := mayOpen_continues (.resumeTransaction tid) w
    exact Ensures.of_from (cancelStagedTransfer_obeys (opens_lenient _ w)
      (cancelStaged_continues (opens_lenient _ w) hS (opens_ledger _ w) w) fun _ => hS _ _ rfl)
  cancelAccepted fuel childID := by
    have hS := mayOpen_continues (.resumeTransaction tid) w
    exact Ensures.of_from (cancelAcceptedTransfer_obeys (opens_lenient _ w) (hS _ _ rfl)
      (hS _ _ rfl) w)

/-- **Every driver opens only the streams it may.** -/
theorem Driver.opens (d : Driver) (fuel : Nat) (w : World) :
    Safe (opens d) (fun _ _ => True) (d.service fuel).run w := by
  have hC := opens_lenient d w
  have hS := mayOpen_continues d w
  have hL := opens_ledger d w
  suffices Obeys (MoneyFlow.opens d) (d.service fuel) w from Safe.mono this fun _ _ _ _ => trivial
  cases d with
  | establish req => exact Ensures.of_from (Holder.establish_obeys hC w).map
  | addWallet req =>
    exact Ensures.of_from (Holder.addWallet_obeys hC (fun _ _ _ _ => trivial) w).map
  | provision req =>
    exact Ensures.of_from (Holder.provision_obeys hC (fun _ _ _ _ => trivial) w).map
  | openWallet req => exact Ensures.of_from (Wallet.openWallet_obeys hC trivial w).map
  | mint req => exact Ensures.of_from (Token.mint_obeys hC (fun _ _ => trivial) w).map
  | requestTransfer req =>
    exact Ensures.of_from (requestTransfer_obeys hC (fun _ hreq => mayOpen_one (.transfer hreq))
      (fun _ => mayOpen_one .transferRejected) w).map
  | requestReversal req =>
    exact Ensures.of_from (requestReversal_obeys hC (fun _ => mayOpen_one .reversal)
      (fun _ => mayOpen_one .reversalRejected) w).map
  | cancelAcceptedTransfer id reason =>
    exact Ensures.of_from (cancelAcceptedTransfer_obeys hC (hS id _ rfl) (hS id _ rfl) w).map
  | confirmStagedTransfer id =>
    exact Ensures.of_from (confirmStagedTransfer_obeys hC (hS id _ rfl)
      (fun _ => hS id _ rfl) w).map
  | cancelStagedTransfer id reason =>
    exact Ensures.of_from (cancelStagedTransfer_obeys hC (cancelStaged_continues hC hS hL w)
      fun _ => hS id _ rfl).map
  | postPendingTransfer id =>
    exact Ensures.of_from (postPendingTransfer_obeys hC (commit_continues hC hS hL w)
      fun _ => hS id _ rfl).map
  | resumeTransfer id =>
    refine Ensures.of_from (Transfer.resume_continues hC hS hL fun fuel => ?_).map
    refine prepare_within hC (fun _ _ _ _ => trivial) (fun legs stage => ?_)
      (fun _ => hS id _ rfl) w fuel
    refine mayOpen_of_none _ w fun e he => ?_
    rcases List.mem_cons.mp he with rfl | he
    · rfl
    · obtain rfl := List.mem_singleton.mp he
      cases stage <;> rfl
  | startInitializingTransaction id spec =>
    exact Ensures.of_from (startInitializingTransaction_obeys hC (opens_transaction _ w id _ _)
      (fun _ => opens_transaction _ w id _ _) w).map
  | startTransactionRollback id reason =>
    have happ := OwnAppends.records hC (opens_transaction _ w id) fuel
      (.transactionRollbackStarted id reason)
    exact Ensures.of_from (startTransactionRollback_obeys hC.reads happ w).map
  | resumeTransaction id =>
    have hT : OwnAppends (MoneyFlow.opens (.resumeTransaction id)) id := by
      refine fun seq events w1 _ => ⟨fun id' seq' events' hx => ?_, fun x hx _ => ?_⟩
      · simp at hx
      · rw [List.mem_singleton.mp hx]
    refine (runSaga_obeys (opens_nothing _) (hT.steps (opens_nothing _)) ?_ ?_ fuel (le_refl w)).map
    · exact fun w1 spec _ _ hspec => mayRequest hspec
    · exact fun w1 spec _ _ hspec htop => mayUnwind hspec (begun_of_state htop)

/-- The Reversals the write records as accepted, each with the Transfer it
reverses. -/
def reversedBy : StreamWrite → List (Id × Id)
  | ⟨.transfer, id, _, events⟩ => events.filterMap fun (e : TransferEvent) =>
    match e with
    | .reversalRequestAccepted a => some (id, a.transferID)
    | _ => none
  | _ => []

/-- The event a Transfer's stream opens with. -/
def World.opening (w : World) (id : Id) : Option TransferEvent := (eventsOf (w.transfer id)).head?

theorem World.opening_of_events {rest : List TransferEvent}
    (h : eventsOf (w.transfer id) = e :: rest) : w.opening id = some e := by
  rw [World.opening, h]
  rfl

theorem World.opening_grow (h : w.opening id = some e) (hle : w ≤ w') : w'.opening id = some e := by
  obtain ⟨t, ht⟩ := World.transfer_grow hle id
  unfold World.opening at h ⊢
  rw [← ht, List.head?_append, h]
  rfl

/-- How a stream comes to open: it was open, or it was empty and the step appends
an event that may open it. -/
theorem opened_step {R : Prop} {o : Op} {r : Resp o} (hlegal : Legal R o w) (hx : w.Exec o r w')
    (he : w'.opening id = some e) :
    w.opening id = some e ∨ (w.transfer id = [] ∧ opensStream e.eventType = true ∧
      Backed w id e ∧ ∃ ws, Appended R w w' o .transfer id ws [e]) := by
  rcases exec_stream hlegal hx .transfer id with hsame | ⟨ws, events, happ⟩
  · left
    unfold World.opening World.transfer at he ⊢
    rwa [hsame] at he
  · have hev : eventsOf (w'.transfer id) = eventsOf (w.transfer id) ++ events := happ.events
    by_cases hnil : w.transfer id = []
    · right
      cases (show TransferAppend w ws id events from happ.legal) with
      | @opening e' hes hopen hb =>
        unfold World.opening at he
        rw [hev, hnil] at he
        obtain rfl : e' = e := Option.some.inj he
        exact ⟨hnil, hopen, hb, ws, happ⟩
      | prepared hs _ _ _ =>
        rw [hnil] at hs
        exact absurd hs (by simp)
      | outcome ht _ =>
        rw [hnil] at ht
        exact absurd ht (by simp [transitions])
      | claim hs _ _ =>
        rw [hnil] at hs
        exact absurd hs (by simp [State.claimable])
      | response hne _ => exact absurd hnil hne
    · left
      unfold World.opening at he ⊢
      rw [hev, List.head?_append_of_ne_nil _ (by rwa [ne_eq, eventsOf_eq_nil])] at he
      exact he

/-- **How a stream comes to open as it does**: it did before the step, or the
step's driver may open it so, and landed just that. -/
theorem opening_step {R : Prop} {o : Op} {r : Resp o} (hlegal : Legal R o w)
    (hopens : (opens d).ensure o w) (hx : w.Exec o r w') (he : w'.opening id = some e) :
    w.opening id = some e ∨ (w.transfer id = [] ∧ Opening w d id e ∧
      ∃ ws, Appended R w w' o .transfer id ws [e]) := by
  refine (opened_step hlegal hx he).imp_right ?_
  rintro ⟨hnil, hopen, -, ws, happ⟩
  refine ⟨hnil, ?_, ws, happ⟩
  obtain rfl := happ.op
  exact hopens.1 id _ [e] happ.mem e (List.mem_singleton.mpr rfl) hopen

/-! ### Whose Reversal stands under a derived id -/

/-- The Transfer the event requests the Reversal of. -/
def TransferEvent.reverses : TransferEvent → Option Id
  | .reversalRequestAccepted a => some a.transferID
  | .reversalRequestRejected _ original _ => some original
  | _ => none

/-- If anything stands under `id`, it is a Reversal of `original`. -/
def World.Reverses (w : World) (id original : Id) : Prop :=
  ∀ e, w.opening id = some e → e.reverses = some original

/-- Some Transaction has a child of this id. -/
def ChildNamed (w : World) (id : Id) : Prop :=
  ∃ tid spec, decodeSpec (w.log tid) = .ok spec ∧ id ∈ spec.transfers.keys

theorem ChildNamed.grow (h : ChildNamed w id) (hle : w ≤ w') : ChildNamed w' id := by
  obtain ⟨tid, spec, hspec, hid⟩ := h
  exact ⟨tid, spec, decodeSpec_grow hspec (World.log_grow hle tid), hid⟩

/-- No client asks for a Transfer or a Reversal under `id`. -/
def Unasked (id : Id) : Driver → Op → World → Prop
  | .requestTransfer req, _, _ => req.id ≠ id
  | .requestReversal req, _, _ => req.id ≠ id
  | _, _, _ => True

/-- The id is left to the Transaction that derives it: no client asks for it in
the run, and no Transaction names a child so. -/
def Untaken (c : System) (id : Id) : Prop :=
  Pool.Reachable (freeRun (Unasked id)) .init c ∧ ¬ ChildNamed c.state id

/-- A child is filed under its own id. -/
theorem child_id {R : Prop} {tid : Id} {spec : Spec} {child : TransferSpec} (hinv : Inv R w)
    (hspec : decodeSpec (w.log tid) = .ok spec) (hget : spec.transfers.get? id = some child) :
    child.id = id := by
  have hvalid := (hinv.transaction tid).wellFormed.spec_valid hspec
  exact validateChildren_id (validateDAG_ok hvalid).2.2.1 _ (GoMap.mem_of_get? hget)

theorem undo_upheld (tid child : Id) :
    Upholds True (fun _ => True) (Unasked (.reversal tid child)) opens
      (fun w => ¬ ChildNamed w (.reversal tid child) → w.Reverses (.reversal tid child) child) where
  init _ _ he := by cases he
  safe d fuel w _ := d.opens fuel w
  step d o w r w' hinv _ h hg hlegal hopens hx hnamed e he := by
    have hnamed' : ¬ ChildNamed w (.reversal tid child) :=
      fun hn => hnamed (hn.grow (World.le_of_exec hx))
    rcases opening_step hlegal hopens hx he with hold | ⟨-, hnew, -⟩
    · exact h hnamed' e hold
    · generalize hid : Id.reversal tid child = id at hnew hnamed' hg
      cases hnew with
      | transfer | transferRejected | reversal | reversalRejected => exact absurd rfl hg
      | child hspec hchild | childRejected hspec hchild =>
        rw [child_id hinv hspec hchild] at hnamed'
        exact absurd ⟨_, _, hspec, List.mem_map_of_mem (GoMap.mem_of_get? hchild)⟩ hnamed'
      | undo | undoRejected =>
        cases hid
        rfl

/-- **The stream under a derived id is the Reversal it was derived for**, where
the id is left to its Transaction. -/
theorem reverses_of_untaken {c : System} {tid child : Id} (h : Untaken c (.reversal tid child)) :
    c.state.Reverses (.reversal tid child) child :=
  (reachable_upheld refusals_true (undo_upheld tid child) h.1).1.2 h.2

end MoneyFlow
