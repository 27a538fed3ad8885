import MoneyFlow.Concurrent.Decides
import MoneyFlow.EventLog
import MoneyFlow.Runs

/-!
# MoneyFlow.Commands

Command handling refines the event log's contract, without bounds.

`RequestTransfer`, `RequestReversal` and `StartInitializingTransaction` each load a
stream, answer from it if it is not empty, and otherwise decide and append at
position 0, again for as long as they lose to another write. Any number of
workers do so at once; any of them may fail at any operation, with or without
its effect; and everything a decision depends on may change under it: the
environment may grow the store and the ledger in any way that decides none of
these commands.

`contractOf` reads a state of `EventLog` off the pool. The ids are the streams,
so that a request may meet the decision of the other command on its stream; a
worker's answer is there as soon as its program has nothing left to do. An error,
whatever its code, is `unknown`. A request that does not pass the handler's own
validation is none of the log's requests: its handler loads nothing.
-/

namespace MoneyFlow

open Concurrent Transfer Transaction

variable {d : Driver} {p q : Prog Op Resp (Except Err Reply)} {id : Id} {i : Nat} {o : Op}
  {err : Err}

/-- The commands that open a stream. -/
inductive Command
  | requestTransfer
  | requestReversal
  | startInitializingTransaction
  deriving DecidableEq

/-- An event that decides one. -/
inductive Decision
  | transfer (e : TransferEvent)
  | transaction (e : TransactionEvent)

/-- What each command may be decided as. -/
def handlers : Command → Set Decision
  | .requestTransfer => {e | ∃ r : RequestTransferResponse, e = .transfer r.event}
  | .requestReversal => {e | ∃ r : RequestReversalResponse, e = .transfer r.event}
  | .startInitializingTransaction =>
    {e | ∃ r : StartInitializingTransactionResponse, e = .transaction r.event}

theorem handlers_wellFormed : EventLog.HandlersAreWellFormed handlers where
  nonempty c := by
    cases c with
    | requestTransfer | startInitializingTransaction => exact ⟨_, .rejected Id.empty [], rfl⟩
    | requestReversal => exact ⟨_, .rejected Id.empty Id.empty [], rfl⟩
  disjoint c d hne := by
    refine Set.eq_empty_of_forall_notMem ?_
    rintro e ⟨hc, hd⟩
    cases c <;> cases d <;> first
      | exact hne rfl
      | (obtain ⟨r, rfl⟩ := hc
         obtain ⟨r', h⟩ := hd
         cases r <;> cases r' <;> simp [RequestTransferResponse.event,
           RequestReversalResponse.event] at h)

/-! ### The log -/

/-- A Transfer's event as a decision, if it is one. -/
def transferDecision (e : TransferEvent) : Option Decision :=
  if opensStream e.eventType then some (.transfer e) else none

/-- A Transaction's event as a decision, if it is one. -/
def transactionDecision : TransactionEvent → Option Decision
  | .transactionInitialized id spec => some (.transaction (.transactionInitialized id spec))
  | .transactionRejected id reason => some (.transaction (.transactionRejected id reason))
  | _ => none

/-- A stream, its decisions marked. -/
def entries (w : World) : Aggregate × Id → List (Option Decision)
  | (.transfer, id) => (eventsOf (w.transfer id)).map transferDecision
  | (.transaction, id) => (eventsOf (w.transaction id)).map transactionDecision
  | _ => []

/-- The decisions a stream holds. -/
def decisions (w : World) (key : Aggregate × Id) : List Decision := (entries w key).reduceOption

/-! ### Requests and answers -/

/-- The decision a call was answered with. -/
def Reply.decision : Reply → Option Decision
  | .requestTransfer r => some (.transfer r.event)
  | .requestReversal r => some (.transfer r.event)
  | .startInitializingTransaction r => some (.transaction r.event)
  | _ => none

/-- The stream and command a valid request asks for. -/
def Driver.request : Driver → Option ((Aggregate × Id) × Command)
  | .requestTransfer req =>
    match validateRequest req with
    | .ok _ => some ((.transfer, req.id), .requestTransfer)
    | .error _ => none
  | .requestReversal req =>
    match validateId "id" req.id, validateId "transfer_id" req.transferID with
    | .ok _, .ok _ => some ((.transfer, req.id), .requestReversal)
    | _, _ => none
  | .startInitializingTransaction id _ =>
    match validateId "id" id with
    | .ok _ => some ((.transaction, id), .startInitializingTransaction)
    | .error _ => none
  | _ => none

/-- The call is of one of the commands. -/
def Driver.isCommand : Driver → Bool
  | .requestTransfer _ | .requestReversal _ | .startInitializingTransaction _ _ => true
  | _ => false

/-- What a worker has told its caller. -/
def answerOf : Prog Op Resp (Except Err Reply) → Option (EventLog.Answer Decision)
  | .ret (.ok reply) => reply.decision.map .event
  | .ret (.error _) => some .unknown
  | _ => none

/-- The contract's state: the streams as its log, workers by number as its
requests. -/
def contractOf (c : System) : EventLog.State (Aggregate × Id) Command Decision Nat where
  log := decisions c.state
  request i := c.threads[i]?.bind fun t => t.1.request
  answer i := c.threads[i]?.bind fun t => t.1.request.bind fun _ => answerOf t.2

/-- The world grows in any way that decides nothing. -/
def Undecided (w w' : World) : Prop := w ≤ w' ∧ ∀ key, decisions w' key = decisions w key

/-- Any number of workers on any commands, in any world. -/
def commandRun : Scheduler World Driver Op Resp (Except Err Reply) where
  start d p := d.isCommand = true ∧ ∃ fuel, p = (d.service fuel).run
  guard _ _ _ := True
  env := Undecided

/-- How a worker that is cut short answers. -/
def Failed (a : Except Err Reply) : Prop := ∃ msg, a = .error (.twirp .internal msg)

/-- One step of command handling. -/
abbrev Handling : System → System → Prop := Pool.FaultyStep commandRun Failed

/-! ### What an operation does to the log -/

variable {w w' : World} {key : Aggregate × Id} {c : Command} {e : Decision}

theorem entries_mono (h : w ≤ w') (key : Aggregate × Id) : entries w key <+: entries w' key := by
  obtain ⟨a, id⟩ := key
  cases a with
  | transfer => exact (Transfer.eventsOf_grow (h.stream .transfer id)).map _
  | transaction => exact (Transfer.eventsOf_grow (h.stream .transaction id)).map _
  | _ => exact List.prefix_rfl

theorem decisions_mono (h : w ≤ w') (key : Aggregate × Id) :
    decisions w key <+: decisions w' key :=
  (entries_mono h key).reduceOption

/-- The streams the commands open are left as they are. -/
theorem entries_eq (h : ∀ a id, a = .transfer ∨ a = .transaction → w'.store a id = w.store a id) :
    entries w' = entries w := by
  funext ⟨a, id⟩
  cases a with
  | transfer => exact congrArg (fun rows => (eventsOf rows).map _) (h .transfer id (Or.inl rfl))
  | transaction =>
    exact congrArg (fun rows => (eventsOf rows).map _) (h .transaction id (Or.inr rfl))
  | _ => rfl

/-- The operation appends to no stream that the commands open. -/
def QuietOp (o : Op) : Prop :=
  ∀ ws, o = .appendAtomic ws →
    ∀ x ∈ ws, x.aggregateType ≠ .transfer ∧ x.aggregateType ≠ .transaction

theorem entries_of_quiet {r : Resp o} (h : QuietOp o) (hx : w.Exec o r w') :
    entries w' = entries w := by
  refine entries_eq fun a id ha => ?_
  rcases exec_store hx with hsame | ⟨ws, st, rfl, hst, rfl⟩
  · rw [hsame]
  · rcases appendAtomic_stream hst a id with hsame | ⟨events, hmem, -⟩
    · exact hsame
    · obtain ⟨hne, hne'⟩ := h ws rfl _ hmem
      exact (ha.elim hne hne').elim

/-- The kind of stream a decision opens. -/
def Decision.aggregate : Decision → Aggregate
  | .transfer _ => .transfer
  | .transaction _ => .transaction

/-- Opening a stream with a decision. -/
def Decision.write (id : Id) : Decision → StreamWrite
  | .transfer e => ⟨.transfer, id, 0, [e]⟩
  | .transaction e => ⟨.transaction, id, 0, [e]⟩

theorem Decision.write_key (e : Decision) : (e.write id).key = (e.aggregate, id) := by
  cases e <;> rfl

/-- A stream opened with a command's decision holds just that. -/
theorem entries_opened {st : Store} (he : e ∈ handlers c)
    (hst : appendAtomic w.clock w.store [e.write id] = .ok st) : entries w (e.aggregate, id) = [] ∧
      entries { w with store := st } (e.aggregate, id) = [some e] := by
  have hmem : e.write id ∈ [e.write id] := List.mem_singleton.mpr rfl
  cases e with
  | transfer ev | transaction ev =>
    obtain ⟨hlen, -⟩ := appendAtomic_landed hst hmem (by simp [Decision.write])
    have hopened := opened_of_landed hst hmem
    refine ⟨List.map_eq_nil_iff.mpr (congrArg eventsOf (List.length_eq_zero_iff.mp hlen)), ?_⟩
    refine (congrArg (List.map _) hopened).trans ?_
    cases c <;> obtain ⟨r, hr⟩ := he <;> cases r <;> cases hr <;> rfl

/-- Opening a stream with a command's decision: it was empty and holds just that
now, or nothing happens. -/
theorem exec_decision {r : Except Err Unit} (he : e ∈ handlers c)
    (hx : w.Exec (.appendAtomic [e.write id]) r w') :
    (r = .ok () ∧ entries w (e.aggregate, id) = [] ∧
      entries w' = Function.update (entries w) (e.aggregate, id) [some e]) ∨
    ((∃ err, r = .error err) ∧ w' = w) := by
  have hx' : (r, w') = w.append [e.write id] := hx
  unfold World.append at hx'
  split at hx'
  · cases hx'
    exact Or.inr ⟨⟨_, rfl⟩, rfl⟩
  · rename_i st hst
    cases hx'
    obtain ⟨hnil, hopened⟩ := entries_opened he hst
    refine Or.inl ⟨rfl, hnil, ?_⟩
    funext key
    by_cases hkey : key = (e.aggregate, id)
    · rw [hkey, hopened, Function.update_self]
    · rw [Function.update_of_ne hkey]
      obtain ⟨a, i⟩ := key
      have hsame : st a i = w.store a i := by
        rcases appendAtomic_stream hst a i with hsame | ⟨events, hmem, -⟩
        · exact hsame
        · have hk := congrArg StreamWrite.key (List.mem_singleton.mp hmem)
          exact absurd (hk.trans e.write_key) hkey
      cases a with
      | transfer | transaction => exact congrArg (fun rows => (eventsOf rows).map _) hsame
      | _ => rfl

/-! ### The handlers -/

/-- A worker on command `c` of stream `key` appends to no stream the commands open
but its own, and there only the decision it answers next. -/
def ruling (key : Aggregate × Id) (c : Command) : Ruling Op Resp (Except Err Reply) where
  quiet := QuietOp
  decides o a := ∃ reply e, a = .ok reply ∧ reply.decision = some e ∧ e ∈ handlers c ∧
    e.aggregate = key.1 ∧ o = .appendAtomic [e.write key.2]
  landed
    | .appendAtomic _, r => r = .ok ()
    | _, _ => False

/-- A definite answer is a decision the stream holds. -/
def Told (key : Aggregate × Id) (c : Command) (a : Except Err Reply) (w : World) : Prop :=
  ∀ reply, a = .ok reply → ∃ e ∈ handlers c, reply.decision = some e ∧ e ∈ decisions w key

/-- From `w` on, the rest of the handler keeps the ruling, and tells what the stream
holds. -/
abbrev Handles {α : Type} (key : Aggregate × Id) (c : Command) (f : α → Reply) (p : Service α)
    (w : World) : Prop :=
  Decides ((ruling key c).comap (Except.map f)) (fun a w' => Told key c (Except.map f a) w') p.run w

section Handles

variable {α β : Type} {f : α → Reply}

theorem told_error : Told key c (Except.map f (.error err)) w :=
  fun _ h => nomatch h

theorem handles_throw : Handles key c f (throw err : Service α) w :=
  fun _ _ => told_error

theorem handles_pure {resp : α}
    (h : ∃ e ∈ handlers c, (f resp).decision = some e ∧ e ∈ decisions w key) :
    Handles key c f (pure resp : Service α) w := by
  intro w1 hle reply hreply
  cases hreply
  obtain ⟨e, he, hdec, hmem⟩ := h
  exact ⟨e, he, hdec, (decisions_mono hle key).subset hmem⟩

/-- What a decision rests on is read with quiet operations. -/
theorem quiet_lenient {D : Ruling Op Resp (Except Err β)} (h : D.quiet = QuietOp) :
    Lenient (D.silence : Contract World Op) ⟨fun _ _ => False, fun _ _ => True⟩ := by
  refine Open.lenient ⟨fun o ho w _ => ?_, fun ws hws w _ => ?_⟩
  · change D.quiet o
    rw [h]
    rintro ws rfl
    exact absurd ho Bool.false_ne_true
  · change D.quiet _
    rw [h]
    rintro ws' ⟨rfl⟩ x hx
    have hin := hws x hx
    obtain ⟨a, id, seq, events⟩ := x
    cases a with
    | transfer | transaction => exact hin.elim False.elim False.elim
    | _ => exact ⟨nofun, nofun⟩

/-- Quiet code first. -/
theorem handles_seq {p : Service β} {k : β → Service α}
    (h : Obeys (((ruling key c).comap (Except.map f)).silence) p w)
    (hk : ∀ b w1, w ≤ w1 → Handles key c f (k b) w1) : Handles key c f (p >>= k) w :=
  Decides.seq h (fun _ _ => told_error) fun b w1 hle _ => hk b w1 hle

/-- The append that decides: if it lands the handler answers with what it wrote. -/
theorem handles_append {resp : α} {k : Except Err Unit → Service α}
    (hresp : (f resp).decision = some e) (he : e ∈ handlers c) (ha : e.aggregate = key.1)
    (hok : (k (.ok ())).run = .ret (.ok resp))
    (herr : ∀ err w1, w ≤ w1 → Handles key c f (k (.error err)) w1) :
    Handles key c f (Service.appendWrites [e.write key.2] >>= k) w := by
  intro w1 hle
  refine ⟨Or.inr ⟨.ok resp, ⟨f resp, e, rfl, hresp, he, ha, rfl⟩, fun r hr => ?_⟩, ?_⟩
  · obtain rfl : r = .ok () := hr
    exact hok
  · intro r w2 hx
    rcases exec_decision he hx with ⟨rfl, -, hentries⟩ | ⟨⟨err, rfl⟩, rfl⟩
    · have hmem : e ∈ decisions w2 key := by
        rw [decisions, hentries, ha, Function.update_self]
        exact List.mem_singleton.mpr rfl
      change Decides _ _ (k (.ok ())).run w2
      rw [hok]
      exact handles_pure ⟨e, he, hresp, hmem⟩
    · exact herr err _ hle

/-- What `tryAppend` says of an append. -/
def landedOf : Except Err Unit → Service Bool
  | .ok () => pure true
  | .error .concurrencyConflict => pure false
  | .error e => throw e.internalWith

/-- `tryAppend` at position 0, then the answer or another attempt. -/
theorem handles_tryAppend {id : Id} {ev : TransferEvent} {resp : α} {retry : Service α}
    (hresp : (f resp).decision = some (.transfer ev)) (he : .transfer ev ∈ handlers c)
    (hretry : ∀ w1, w ≤ w1 → Handles (.transfer, id) c f retry w1) :
    Handles (.transfer, id) c f
      (tryAppend id 0 ev >>= fun landed => if landed = true then pure resp else retry) w := by
  refine handles_append (k := fun r => landedOf r >>= fun landed =>
    if landed = true then pure resp else retry) hresp he rfl rfl fun err w1 hle => ?_
  cases err with
  | concurrencyConflict => exact hretry w1 hle
  | _ => exact handles_throw

/-- Reading a stream. -/
theorem handles_load {a : Aggregate} {k : List (Row a.Event) → Service α}
    (hk : ∀ w1, w ≤ w1 → Handles key c f (k (w1.store a id)) w1) :
    Handles key c f (Service.load a id >>= k) w := by
  refine fun w1 hle => ⟨Or.inl (fun _ h => nomatch h), fun rows w2 hx => ?_⟩
  obtain ⟨rfl, rfl⟩ := Prod.mk.inj hx
  exact hk w2 hle

/-- A decision read off a stream. -/
theorem handles_check {r : Except Err α}
    (h : ∀ resp, r = .ok resp → ∃ e ∈ handlers c, (f resp).decision = some e ∧
      e ∈ decisions w key) :
    Handles key c f (Service.check r) w := by
  cases r with
  | ok resp => exact handles_pure (h resp rfl)
  | error err => exact handles_throw

end Handles

namespace Transfer

/-- What a Transfer's stream opens with is among its decisions. -/
theorem opening_mem_decisions {ev : TransferEvent} (h : [ev] <+: eventsOf (w.transfer id))
    (hev : opensStream ev.eventType = true) : .transfer ev ∈ decisions w (.transfer, id) := by
  refine List.reduceOption_mem_iff.mpr (List.mem_map.mpr ⟨ev, h.subset List.mem_cons_self, ?_⟩)
  rw [transferDecision, if_pos hev]

theorem requestTransferAttempts_handles {req : RequestTransferRequest} {amount : Money} :
    ∀ (attempts : Nat) {w : World}, Handles (.transfer, req.id) .requestTransfer
      Reply.requestTransfer (requestTransferAttempts req amount attempts) w
  | 0, _ => handles_throw
  | attempts + 1, w => by
    have hretry {w : World} : ∀ w1, w ≤ w1 → Handles (.transfer, req.id) .requestTransfer
        Reply.requestTransfer (requestTransferAttempts req amount attempts) w1 :=
      fun w1 _ => requestTransferAttempts_handles attempts
    refine handles_load fun w1 _ => ?_
    split
    · refine handles_seq (acceptRejection_obeys (quiet_lenient rfl).reads req amount w1)
        fun r w2 _ => ?_
      cases r with
      | none => exact handles_tryAppend rfl ⟨.accepted _, rfl⟩ hretry
      | some reason => exact handles_tryAppend rfl ⟨.rejected _ _, rfl⟩ hretry
    · refine handles_check fun resp hresp => ⟨_, ⟨resp, rfl⟩, rfl, ?_⟩
      exact opening_mem_decisions (decidedRequestTransfer_opens hresp) (by cases resp <;> rfl)

theorem requestReversalAttempts_handles {req : RequestReversalRequest} :
    ∀ (attempts : Nat) {w : World}, Handles (.transfer, req.id) .requestReversal
      Reply.requestReversal (requestReversalAttempts req attempts) w
  | 0, _ => handles_throw
  | attempts + 1, w => by
    have hretry {w : World} : ∀ w1, w ≤ w1 → Handles (.transfer, req.id) .requestReversal
        Reply.requestReversal (requestReversalAttempts req attempts) w1 :=
      fun w1 _ => requestReversalAttempts_handles attempts
    refine handles_load fun w1 _ => ?_
    split
    · refine handles_seq (reversalManifest_obeys (quiet_lenient rfl).reads _ w1) fun r w2 _ => ?_
      cases r with
      | ok legs => exact handles_tryAppend rfl ⟨.accepted _, rfl⟩ hretry
      | error reason => exact handles_tryAppend rfl ⟨.rejected _ _ _, rfl⟩ hretry
    · refine handles_check fun resp hresp => ⟨_, ⟨resp, rfl⟩, rfl, ?_⟩
      exact opening_mem_decisions (decidedRequestReversal_opens hresp) (by cases resp <;> rfl)

end Transfer

namespace Transaction

theorem startInitializingAttempts_handles {id : Id} {spec : Spec} :
    ∀ (attempts : Nat) {w : World},
      Handles (.transaction, id) .startInitializingTransaction Reply.startInitializingTransaction
        (startInitializingAttempts id spec attempts) w
  | 0, _ => handles_throw
  | attempts + 1, w => by
    refine handles_load fun w1 _ => ?_
    split
    · refine handles_seq
        (Obeys.of_ensures (initialRejection_returns (quiet_lenient rfl).reads spec w1))
        fun r w2 _ => ?_
      cases r with
      | none =>
        refine handles_append (e := .transaction (.transactionInitialized id spec)) rfl
          ⟨.initialized _ _, rfl⟩ rfl rfl fun err w3 _ => ?_
        cases err with
        | concurrencyConflict => exact startInitializingAttempts_handles attempts
        | _ => exact handles_throw
      | some reason =>
        refine handles_append (e := .transaction (.transactionRejected id reason)) rfl
          ⟨.rejected _ _, rfl⟩ rfl rfl fun err w3 _ => ?_
        cases err with
        | concurrencyConflict => exact startInitializingAttempts_handles attempts
        | _ => exact handles_throw
    · refine handles_check fun resp hresp => ⟨_, ⟨resp, rfl⟩, rfl, ?_⟩
      refine List.reduceOption_mem_iff.mpr
        (List.mem_map.mpr ⟨resp.event, ?_, by cases resp <;> rfl⟩)
      exact (decidedStartInitializingTransaction_opens hresp).subset List.mem_cons_self

end Transaction

theorem handles_map {α : Type} {f : α → Reply} {p : Service α} (h : Handles key c f p w) :
    Decides (ruling key c) (Told key c) (f <$> p).run w := by
  refine Decides.map (f := Except.map f) h fun r => ?_
  cases r <;> rfl

/-- The handler of a valid request keeps the ruling of its command, and answers
nothing before anything is loaded. -/
theorem service_handles (hd : d.request = some (key, c)) (fuel : Nat) (w : World) :
    Decides (ruling key c) (Told key c) (d.service fuel).run w ∧
      answerOf (d.service fuel).run = none := by
  cases d with
  | requestTransfer req =>
    simp only [Driver.request] at hd
    split at hd
    · rename_i amount hvalid
      cases hd
      rw [Driver.service, requestTransfer, hvalid]
      exact ⟨handles_map (requestTransferAttempts_handles _), rfl⟩
    · cases hd
  | requestReversal req =>
    simp only [Driver.request] at hd
    split at hd
    · rename_i hid hoid
      cases hd
      rw [Driver.service, requestReversal, hid, hoid]
      exact ⟨handles_map (requestReversalAttempts_handles _), rfl⟩
    · cases hd
  | startInitializingTransaction id spec =>
    simp only [Driver.request] at hd
    split at hd
    · rename_i hid
      cases hd
      rw [Driver.service, startInitializingTransaction, hid]
      exact ⟨handles_map (startInitializingAttempts_handles _), rfl⟩
    · cases hd
  | _ => cases hd

/-- An invalid request is refused outright. -/
theorem service_refused (hc : d.isCommand = true) (hd : d.request = none) (fuel : Nat) :
    ∃ err, (d.service fuel).run = .ret (.error err) := by
  cases d with
  | requestTransfer req =>
    simp only [Driver.request] at hd
    split at hd
    · cases hd
    · rename_i err hvalid
      simp only [Driver.service, requestTransfer, hvalid]
      exact ⟨err, rfl⟩
  | requestReversal req =>
    simp only [Driver.request] at hd
    cases hid : validateId "id" req.id with
    | error err =>
      simp only [Driver.service, requestReversal, hid]
      exact ⟨err, rfl⟩
    | ok u =>
      cases hoid : validateId "transfer_id" req.transferID with
      | error err =>
        simp only [Driver.service, requestReversal, hid, hoid]
        exact ⟨err, rfl⟩
      | ok v =>
        rw [hid, hoid] at hd
        cases hd
  | startInitializingTransaction id spec =>
    simp only [Driver.request] at hd
    split at hd
    · cases hd
    · rename_i err hid
      simp only [Driver.service, startInitializingTransaction, hid]
      exact ⟨err, rfl⟩
  | _ => exact absurd hc Bool.false_ne_true

/-! ### The refinement -/

/-- A worker keeps the ruling of its command, or was refused outright. -/
def Handled (d : Driver) (p : Prog Op Resp (Except Err Reply)) (w : World) : Prop :=
  match d.request with
  | some (key, c) => Decides (ruling key c) (Told key c) p w
  | none => ∃ err, p = .ret (.error err)

theorem handled_some (hd : d.request = some (key, c)) :
    Handled d p w ↔ Decides (ruling key c) (Told key c) p w := by
  simp only [Handled, hd]

theorem handled_op {k : Resp o → Prog Op Resp (Except Err Reply)} (h : Handled d (.op o k) w) :
    ∃ key c, d.request = some (key, c) ∧
      Decides (ruling key c) (Told key c) (.op o k) w := by
  cases hd : d.request with
  | none =>
    simp only [Handled, hd] at h
    obtain ⟨err, herr⟩ := h
    cases herr
  | some q => exact ⟨q.1, q.2, rfl, (handled_some hd).mp h⟩

theorem handled_error : Handled d (.ret (.error err)) w := by
  unfold Handled
  split
  · exact fun _ _ _ h => nomatch h
  · exact ⟨err, rfl⟩

theorem Handled.grow (h : Handled d p w) (hle : w ≤ w') : Handled d p w' := by
  unfold Handled at h ⊢
  split at h
  · exact h.grow hle
  · exact h

theorem service_handled (hc : d.isCommand = true) (fuel : Nat) (w : World) :
    Handled d (d.service fuel).run w := by
  cases hd : d.request with
  | some q => exact (handled_some hd).mpr (service_handles hd fuel w).1
  | none =>
    obtain ⟨err, herr⟩ := service_refused hc hd fuel
    rw [herr]
    exact handled_error

variable {s s' : System}

/-- Every worker of the pool is handled. -/
def AllHandled (s : System) : Prop :=
  ∀ (i : Nat) d p, s.threads[i]? = some (d, p) → Handled d p s.state

theorem AllHandled.step (h : AllHandled s) (hs : Handling s s') : AllHandled s' := by
  refine hs.threadwise (P := Handled) (fun _ _ _ _ h => h.grow) (fun _ _ h => h.1) ?_ ?_ ?_ h
  · rintro d p w ⟨hc, fuel, rfl⟩
    exact service_handled hc fuel w
  · intro d o k w r w' hop _ hx
    obtain ⟨key, c, hd, hdec⟩ := handled_op hop
    exact (handled_some hd).mpr ((hdec w le_rfl).2 r w' hx)
  · rintro d o k a w - ⟨msg, rfl⟩
    exact handled_error

/-- What an operation of a worker does to the streams: nothing, or it opens one with
a decision. -/
theorem entries_cases {k : Resp o → Prog Op Resp (Except Err Reply)} {r : Resp o}
    (h : Handled d (.op o k) w) (hx : w.Exec o r w') :
    entries w' = entries w ∨ ∃ key c e reply, d.request = some (key, c) ∧ e ∈ handlers c ∧
      reply.decision = some e ∧ k r = .ret (.ok reply) ∧ entries w key = [] ∧
      entries w' = Function.update (entries w) key [some e] := by
  obtain ⟨key, c, hd, hdec⟩ := handled_op h
  rcases (hdec w le_rfl).1 with hquiet | ⟨a, ⟨reply, e, rfl, hrep, he, ha, rfl⟩, hland⟩
  · exact Or.inl (entries_of_quiet hquiet hx)
  · rcases exec_decision he hx with ⟨hr, hnil, hentries⟩ | ⟨-, rfl⟩
    · have hkey : (e.aggregate, key.2) = key := by rw [ha]
      rw [hkey] at hnil hentries
      exact Or.inr ⟨key, c, e, reply, hd, he, hrep, hland r hr, hnil, hentries⟩
    · exact Or.inl rfl

/-- Decisions stand at the head of their streams. -/
def AtFront (w : World) : Prop :=
  ∀ key (i : Nat) e, (entries w key)[i]? = some (some e) → i = 0

theorem AtFront.congr (h : AtFront w) (heq : entries w' = entries w) : AtFront w' := by
  intro key i e hi
  rw [heq] at hi
  exact h key i e hi

theorem AtFront.decided (h : AtFront w)
    (heq : entries w' = Function.update (entries w) key [some e]) : AtFront w' := by
  intro key' i e' hi
  rw [heq] at hi
  by_cases hkey : key' = key
  · subst hkey
    rw [Function.update_self] at hi
    have hlt := (List.getElem?_eq_some_iff.mp hi).1
    rw [List.length_singleton] at hlt
    omega
  · rw [Function.update_of_ne hkey] at hi
    exact h key' i e' hi

/-- What is appended without deciding anything moves no decision. -/
theorem AtFront.undecided (h : AtFront w) (hu : Undecided w w') : AtFront w' := by
  intro key i e hi
  obtain ⟨rest, hrest⟩ := entries_mono hu.1 key
  have hnone : rest.reduceOption = [] := by
    have hsame := hu.2 key
    rw [decisions, decisions, ← hrest, List.reduceOption_append] at hsame
    simpa using hsame
  rw [← hrest, List.getElem?_append] at hi
  split at hi
  · exact h key i e hi
  · have hm := List.reduceOption_mem_iff.mpr (List.mem_of_getElem? hi)
    rw [hnone] at hm
    cases hm

theorem AtFront.step (h : AtFront s.state) (hall : AllHandled s) (hs : Handling s s') :
    AtFront s'.state := by
  have hexec {i : Nat} {d : Driver} {o : Op} {k : Resp o → Prog Op Resp (Except Err Reply)}
      {r : Resp o} {w' : World} (hi : s.threads[i]? = some (d, .op o k))
      (hx : s.state.Exec o r w') : AtFront w' := by
    rcases entries_cases (hall i d _ hi) hx with heq | ⟨_, _, _, _, _, _, _, _, _, heq⟩
    · exact h.congr heq
    · exact h.decided heq
  cases hs with
  | step hs =>
    rcases hs.performs with ⟨hsame, -⟩ | ⟨i, d, o, k, r, hi, -, hx, -⟩ | ⟨hu, -⟩
    · rwa [hsame]
    · exact hexec hi hx
    · exact h.undecided hu
  | fail => exact h
  | lost hi _ hx => exact hexec hi hx

/-- One worker moves: the contract sees the streams, and what that worker has told. -/
theorem contractOf_set (hi : s.threads[i]? = some (d, p)) (hd : d.request = some (key, c))
    (w' : World) : contractOf ⟨w', s.threads.set i (d, q)⟩ =
      { contractOf s with
        log := decisions w'
        answer := Function.update (contractOf s).answer i (answerOf q) } := by
  have hlt := (List.getElem?_eq_some_iff.mp hi).1
  have hget (j : Nat) : (s.threads.set i (d, q))[j]? =
      if j = i then some (d, q) else s.threads[j]? := by
    rw [List.getElem?_set]
    by_cases hj : i = j
    · simp [hj, hj ▸ hlt]
    · simp [hj, Ne.symm hj]
  simp only [contractOf, EventLog.State.mk.injEq, true_and]
  refine ⟨funext fun j => ?_, funext fun j => ?_⟩
  · rw [hget]
    split
    · rename_i hj
      rw [hj, hi]
      rfl
    · rfl
  · rw [hget]
    by_cases hj : j = i
    · simp [hj, hd]
    · simp [hj]

theorem request_at (hi : s.threads[i]? = some (d, p)) : (contractOf s).request i = d.request := by
  simp [contractOf, hi]

theorem answer_at (hi : s.threads[i]? = some (d, p)) (hd : d.request = some (key, c)) :
    (contractOf s).answer i = answerOf p := by
  simp [contractOf, hi, hd]

section Move

variable {i : Nat} {d : Driver} {o : Op} {k : Resp o → Prog Op Resp (Except Err Reply)}

/-- A worker that decides nothing by its move gives up, tells what is on record, or
tells nothing yet. -/
theorem move_told (hi : s.threads[i]? = some (d, .op o k)) (hd : d.request = some (key, c))
    (hlog : decisions w' = decisions s.state) (hq : Decides (ruling key c) (Told key c) q w') :
    EventLog.Steps handlers (contractOf s) (contractOf ⟨w', s.threads.set i (d, q)⟩) := by
  have hreq := (request_at hi).trans hd
  have hans : (contractOf s).answer i = none := answer_at hi hd
  rw [contractOf_set hi hd, hlog]
  have hsilent : answerOf q = none →
      EventLog.Steps handlers (contractOf s) { contractOf s with
        log := decisions s.state
        answer := Function.update (contractOf s).answer i (answerOf q) } := by
    intro hnone
    rw [hnone, ← hans, Function.update_eq_self]
    exact Or.inr rfl
  cases q with
  | halt | op => exact hsilent rfl
  | ret a =>
    cases a with
    | error err =>
      exact Or.inl (Or.inl ⟨i, Or.inr (Or.inr (Or.inr
        ⟨by rw [hreq]; exact Option.some_ne_none _, hans, rfl⟩))⟩)
    | ok reply =>
      obtain ⟨e, he, hrep, hmem⟩ := hq w' le_rfl reply rfl
      rw [hlog] at hmem
      obtain ⟨n, hn⟩ := List.getElem?_of_mem hmem
      refine Or.inl (Or.inl ⟨i, Or.inr (Or.inr (Or.inl
        ⟨key, c, hreq, hans, n, ⟨e, he, hn⟩, e, hn, ?_⟩))⟩)
      simp [answerOf, hrep, contractOf]

/-- A worker that opens its stream decides its command. -/
theorem move_decided (hi : s.threads[i]? = some (d, .op o k)) (hd : d.request = some (key, c))
    (he : e ∈ handlers c) (hnil : entries s.state key = [])
    (hentries : entries w' = Function.update (entries s.state) key [some e])
    (hq : answerOf q = some (.event e) ∨ answerOf q = some .unknown) :
    EventLog.Steps handlers (contractOf s) (contractOf ⟨w', s.threads.set i (d, q)⟩) := by
  have hreq := (request_at hi).trans hd
  have hans : (contractOf s).answer i = none := answer_at hi hd
  have hempty : decisions s.state key = [] := by rw [decisions, hnil]; rfl
  have hlog : decisions w' = Function.update (decisions s.state) key [e] := by
    funext key'
    by_cases hkey : key' = key
    · subst hkey
      rw [decisions, hentries, Function.update_self, Function.update_self]
      rfl
    · rw [decisions, hentries, Function.update_of_ne hkey, Function.update_of_ne hkey]
      rfl
  refine Or.inl (Or.inl ⟨i, Or.inr (Or.inl ⟨key, c, hreq, hans, ?_, e, he, ?_⟩)⟩)
  · refine Set.eq_empty_of_forall_notMem ?_
    rintro n ⟨e', -, hn⟩
    simp [contractOf, hempty] at hn
  · rw [contractOf_set hi hd, hlog]
    rcases hq with hq | hq
    · exact ⟨.event e, Or.inl rfl, by rw [hq]; simp [contractOf, hempty]⟩
    · exact ⟨.unknown, Or.inr rfl, by rw [hq]; simp [contractOf, hempty]⟩

/-- A worker performs an operation, and goes on or is cut short. -/
theorem move_steps (hall : AllHandled s) (hi : s.threads[i]? = some (d, .op o k)) {r : Resp o}
    (hx : s.state.Exec o r w') (hq : q = k r ∨ ∃ err, q = .ret (.error err)) :
    EventLog.Steps handlers (contractOf s) (contractOf ⟨w', s.threads.set i (d, q)⟩) := by
  have hhandled := hall i d _ hi
  obtain ⟨key, c, hd, hdec⟩ := handled_op hhandled
  rcases entries_cases hhandled hx with
    heq | ⟨key', c', e, reply, hd', he, hrep, hret, hnil, hentries⟩
  · refine move_told hi hd (by funext key'; rw [decisions, heq]; rfl) ?_
    rcases hq with rfl | ⟨err, rfl⟩
    · exact (hdec s.state le_rfl).2 r w' hx
    · exact fun _ _ _ h => nomatch h
  · refine move_decided hi hd' he hnil hentries ?_
    rcases hq with rfl | ⟨err, rfl⟩
    · exact Or.inl (by rw [hret, answerOf, hrep]; rfl)
    · exact Or.inr rfl

end Move

/-- A worker starts: the contract sees its request, if it is a valid one. -/
theorem contractOf_spawn (hp : ∀ q, d.request = some q → answerOf p = none) :
    contractOf ⟨s.state, s.threads ++ [(d, p)]⟩ =
      { contractOf s with
        request := Function.update (contractOf s).request s.threads.length d.request } := by
  have hget (j : Nat) : (s.threads ++ [(d, p)])[j]? =
      if j = s.threads.length then some (d, p) else s.threads[j]? := by
    rcases Nat.lt_trichotomy j s.threads.length with hj | hj | hj
    · rw [List.getElem?_append_left hj, if_neg (Nat.ne_of_lt hj)]
    · simp [hj]
    · rw [if_neg (Nat.ne_of_gt hj), List.getElem?_eq_none (Nat.le_of_lt hj),
        List.getElem?_eq_none (by rw [List.length_append]; exact hj)]
  simp only [contractOf, EventLog.State.mk.injEq, true_and]
  refine ⟨funext fun j => ?_, funext fun j => ?_⟩
  · rw [hget]
    by_cases hj : j = s.threads.length
    · simp [hj]
    · simp [hj]
  · rw [hget]
    split
    · rename_i hj
      rw [hj, List.getElem?_eq_none (Nat.le_refl _)]
      cases hd : d.request with
      | none => simp [hd]
      | some q => simp [hd, hp q hd]
    · rfl

/-- A worker starts on a valid request, or is refused. -/
theorem spawn_steps (fuel : Nat) : EventLog.Steps handlers (contractOf s)
    (contractOf ⟨s.state, s.threads ++ [(d, (d.service fuel).run)]⟩) := by
  rw [contractOf_spawn fun q hq => (service_handles hq fuel s.state).2]
  have hnew : (contractOf s).request s.threads.length = none := by simp [contractOf]
  cases hd : d.request with
  | none =>
    rw [← hnew, Function.update_eq_self]
    exact Or.inr rfl
  | some q => exact Or.inl (Or.inl ⟨s.threads.length, Or.inl ⟨hnew, q.1, q.2, rfl⟩⟩)

/-- **One step of command handling is a step of the contract.** -/
theorem handling_steps (hall : AllHandled s) (hs : Handling s s') :
    EventLog.Steps handlers (contractOf s) (contractOf s') := by
  obtain ⟨w', ts'⟩ := s'
  cases hs with
  | step hs =>
    rcases hs.performs with
      ⟨rfl, d, p, ⟨-, fuel, rfl⟩, rfl⟩ | ⟨i, d, o, k, r, hi, -, hx, rfl⟩ | ⟨hu, rfl⟩
    · exact spawn_steps fuel
    · exact move_steps hall hi hx (Or.inl rfl)
    · refine Or.inr ?_
      simp only [contractOf, EventLog.State.mk.injEq, and_true]
      exact funext hu.2
  | fail hi ha =>
    obtain ⟨msg, rfl⟩ := ha
    obtain ⟨key, c, hd, -⟩ := handled_op (hall _ _ _ hi)
    exact move_told hi hd rfl fun _ _ _ h => nomatch h
  | lost hi _ hx ha =>
    obtain ⟨msg, rfl⟩ := ha
    exact move_steps hall hi hx (Or.inr ⟨_, rfl⟩)

/-- The states of command handling. -/
abbrev HandlingReachable : System → Prop := Pool.FaultyReachable commandRun Failed .init

/-- In every state every worker is handled, decisions stand at the head of their
streams, and the contract has come this far too. -/
theorem handling_reachable (h : HandlingReachable s) :
    AllHandled s ∧ AtFront s.state ∧
      Relation.ReflTransGen (EventLog.Steps handlers) (contractOf ⟨.init, []⟩) (contractOf s) := by
  induction h with
  | refl =>
    refine ⟨fun i d p hi => by simp at hi, fun key i e hi => ?_, .refl⟩
    obtain ⟨a, id⟩ := key
    cases a <;> simp [entries, World.init, World.transfer, World.transaction, Store.empty,
      eventsOf] at hi
  | tail _ hs ih =>
    obtain ⟨hall, hfront, hsteps⟩ := ih
    exact ⟨hall.step hs, hfront.step hall hs, hsteps.tail (handling_steps hall hs)⟩

theorem contractOf_init : EventLog.Init (contractOf ⟨.init, []⟩) := by
  refine ⟨fun key => ?_, fun _ => rfl, fun _ => rfl⟩
  obtain ⟨a, id⟩ := key
  cases a <;> rfl

/-- A definite answer is the decision at the head of the request's stream. -/
theorem answer_at_front (h : HandlingReachable s) {reply : Reply}
    (hi : s.threads[i]? = some (d, .ret (.ok reply))) :
    ∃ key c e, d.request = some (key, c) ∧ reply.decision = some e ∧ e ∈ handlers c ∧
      (entries s.state key)[0]? = some (some e) := by
  obtain ⟨hall, hfront, hsteps⟩ := handling_reachable h
  cases hd : d.request with
  | none =>
    have hhandled := hall i d _ hi
    simp only [Handled, hd] at hhandled
    obtain ⟨err, herr⟩ := hhandled
    cases herr
  | some q =>
    obtain ⟨key, c⟩ := q
    obtain ⟨e, he, hrep, -⟩ := (handled_some hd).mp (hall i d _ hi) s.state le_rfl reply rfl
    have hans : (contractOf s).answer i = some (.event e) := by
      rw [answer_at hi hd, answerOf, hrep]
      rfl
    -- what the contract promises of an answer
    obtain ⟨key', c', hreq, -, hmem⟩ :=
      (EventLog.promises_of_reachable handlers_wellFormed contractOf_init hsteps).recorded i e hans
    rw [request_at hi, hd] at hreq
    cases hreq
    obtain ⟨n, hn⟩ := List.getElem?_of_mem (List.reduceOption_mem_iff.mp hmem)
    obtain rfl := hfront key n e hn
    exact ⟨key, c, e, rfl, hrep, he, hn⟩

/-- **Command handling refines the event log's contract**, for any number of workers,
requests and ids: it starts as the contract does, every step is one of the
contract's, each stream holds at most one decision and holds it at position 0,
every definite answer is that decision, and any two for one stream agree. -/
theorem handling_refines_eventlog :
    EventLog.Init (contractOf ⟨.init, []⟩) ∧
    (∀ s s', HandlingReachable s → Handling s s' →
      EventLog.Steps handlers (contractOf s) (contractOf s')) ∧
    ∀ s, HandlingReachable s →
      (∀ key (i : Nat) e, (entries s.state key)[i]? = some (some e) → i = 0) ∧
      (∀ (i : Nat) d reply, s.threads[i]? = some (d, .ret (.ok reply)) →
        ∃ key c e, d.request = some (key, c) ∧ reply.decision = some e ∧ e ∈ handlers c ∧
          (entries s.state key)[0]? = some (some e)) ∧
      ∀ (i j : Nat) d d' reply reply', s.threads[i]? = some (d, .ret (.ok reply)) →
        s.threads[j]? = some (d', .ret (.ok reply')) →
        d.request.map Prod.fst = d'.request.map Prod.fst → reply.decision = reply'.decision := by
  refine ⟨contractOf_init, fun s s' h hs => handling_steps (handling_reachable h).1 hs, ?_⟩
  intro s h
  refine ⟨(handling_reachable h).2.1, fun i d reply hi => answer_at_front h hi, ?_⟩
  intro i j d d' reply reply' hi hj hkey
  obtain ⟨key, c, e, hd, hrep, -, hfront⟩ := answer_at_front h hi
  obtain ⟨key', c', e', hd', hrep', -, hfront'⟩ := answer_at_front h hj
  rw [hd, hd'] at hkey
  obtain rfl : key = key' := Option.some.inj hkey
  rw [hrep, hrep']
  exact Option.some.inj (hfront.symm.trans hfront')

instance {d : Driver} {o : Op} {w : World} : Decidable (commandRun.guard d o w) :=
  inferInstanceAs (Decidable True)

/-- A request for a Transfer has found the stream empty when a reversal's request on
the same id is decided; then it goes on, and the reversal's request is made
again. -/
def metOnOneId : System :=
  play (S := commandRun) [
    .spawn (.requestTransfer
      ⟨.uuid 5, .uuid 1, .uuid 4, some ⟨40, "USD"⟩, false, false, Id.empty⟩) _
      ⟨rfl, 20, rfl⟩,
    .run 0 1,
    .spawn (.requestReversal ⟨.uuid 5, .uuid 3, false, Id.empty⟩) _ ⟨rfl, 20, rfl⟩,
    .run 1 1000, .run 0 1000,
    .spawn (.requestReversal ⟨.uuid 5, .uuid 3, false, Id.empty⟩) _ ⟨rfl, 20, rfl⟩,
    .run 2 1000] ⟨.init, []⟩

theorem handling_refines_eventlog_met :
    ∃ d d' reply reply', metOnOneId.threads[1]? = some (d, .ret (.ok reply)) ∧
      metOnOneId.threads[2]? = some (d', .ret (.ok reply')) ∧
      reply.decision = reply'.decision := by
  have hreach : HandlingReachable metOnOneId :=
    Pool.Reachable.faulty (play_steps _ _)
  obtain ⟨d, r, h1, hd⟩ := of_answeredAt (c := metOnOneId) (i := 1)
    (p := fun d _ => d.request.map Prod.fst == some (.transfer, .uuid 5)) (by decide +kernel)
  obtain ⟨d', r', h2, hd'⟩ := of_answeredAt (c := metOnOneId) (i := 2)
    (p := fun d _ => d.request.map Prod.fst == some (.transfer, .uuid 5)) (by decide +kernel)
  obtain ⟨-, -, h⟩ := handling_refines_eventlog
  exact ⟨d, d', r, r', h1, h2,
    (h _ hreach).2.2 1 2 d d' r r' h1 h2 ((eq_of_beq hd).trans (eq_of_beq hd').symm)⟩

end MoneyFlow
