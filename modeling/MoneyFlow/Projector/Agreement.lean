import MoneyFlow.HighWater
import MoneyFlow.Projector
import MoneyFlow.Token.Labels

/-!
# MoneyFlow.Projector.Agreement

Where the read model ends.

A row of the read model is a `HighWater.Mark`: the state an event named last, and
the sequence of the last event applied. One mark serves the events that name a
state and those that do not, so an event that names nothing, delivered early,
shuts out an event before it that does. When all events of a stream have been
delivered, the row says what Go's fold of the stream says exactly if that has not
happened to the last event to name a state (`read_model_agrees_iff`); a Token's
row has only one kind of event and always ends at the last balance.
-/

namespace MoneyFlow.Projector

open HighWater

variable {ε σ : Type} {w : World} {id : Id}

/-! ### What is delivered -/

def Payload.transferEvent : Payload → Option TransferEvent
  | .transfer e => some e
  | _ => none

def Payload.transactionEvent : Payload → Option TransactionEvent
  | .transaction e => some e
  | _ => none

/-- The event, if it records a balance. -/
def Payload.balanceEvent : Payload → Option TokenEvent
  | .token e => if e.isBalance then some e else none
  | _ => none

/-- The events of one stream among those delivered, in the order of delivery. -/
def arrivals (select : Payload → Option ε) (id : Id)
    (ds : List (Nat × Envelope)) : List (Nat × ε) :=
  ds.filterMap fun d =>
    if d.2.aggregateID = id then (select d.2.payload).map fun e => (d.2.sequence, e) else none

/-- The stream holds the event, at this sequence; Wallets and Holders are not
published. -/
def PublishedAs (w : World) (id : Id) (sequence : Nat) : Payload → Prop
  | .transaction e => (sequence, e) ∈ (w.transaction id).map Row.fact
  | .transfer e => (sequence, e) ∈ (w.transfer id).map Row.fact
  | .token e => (sequence, e) ∈ (w.token id).map Row.fact
  | _ => False

/-- The message carries an event of a stream that is published. -/
def Published (w : World) (env : Envelope) : Prop :=
  PublishedAs w env.aggregateID env.sequence env.payload

/-- Each event of the stream has arrived at least once. -/
def Delivered (log arrived : List (Nat × ε)) : Prop := ∀ d ∈ log, d ∈ arrived

/-- The balances on a Token's stream. -/
def balanceFacts (rows : List (Row TokenEvent)) : List (Nat × TokenEvent) :=
  (rows.map Row.fact).filter fun d => d.2.isBalance

/-! ### A row is a mark -/

/-- The row holds the mark. -/
def Holds (row : Option (Projection σ)) (mark : Option (Mark σ)) : Prop :=
  row.map (fun p => (p.state, p.lastSequence)) = mark.map fun k => (some k.state, k.last)

theorem Holds.state {row : Option (Projection σ)} {mark : Option (Mark σ)} (h : Holds row mark) :
    row.bind Projection.state = mark.map Mark.state := by
  cases row with
  | none =>
    cases mark with
    | none => rfl
    | some k => cases h
  | some p =>
    cases mark with
    | none => cases h
    | some k => exact (Prod.mk.inj (Option.some.inj h)).1

variable {now : Nat} {env : Envelope} {reason : Option Text} {owner : Option Id}
  {t : Table (Projection σ)} {mark : Option (Mark σ)}

@[simp] theorem save_same {α : Type} (t : Table α) (id : Id) (row : α) :
    t.save id row id = some row :=
  if_pos rfl

theorem save_other {α : Type} (t : Table α) {id' : Id} (row : α) (h : id' ≠ id) :
    t.save id row id' = t id' := if_neg h

variable {m m' : ReadModel} {f : ε → Option σ} {select : Payload → Option ε}
  {ds : List (Nat × Envelope)}

/-- One event moves the row as it moves the mark. -/
theorem project_holds (e : ε) (h : Holds (t env.aggregateID) mark) :
    Holds ((project now env reason owner (f e) t).1 env.aggregateID)
      (receive f mark (env.sequence, e)) := by
  unfold project
  cases hrow : t env.aggregateID with
  | none =>
    cases mark with
    | some k =>
      rw [hrow] at h
      cases h
    | none =>
      cases hf : f e with
      | none =>
        rw [receive, hf]
        exact congrArg (Option.map _) hrow
      | some s =>
        rw [receive, hf]
        simp [targetRow, record, describe, Holds]
  | some row =>
    cases mark with
    | none =>
      rw [hrow] at h
      cases h
    | some k =>
      rw [hrow] at h
      obtain ⟨hstate, hlast⟩ := Prod.mk.inj (Option.some.inj h)
      change row.state = some k.state at hstate
      change row.lastSequence = k.last at hlast
      by_cases hlt : k.last < env.sequence
      · have hgt : env.sequence > row.lastSequence := by omega
        simp only [targetRow, if_pos hgt, receive, if_pos hlt, save_same]
        cases hf : f e with
        | none => simp [record, describe, Holds, hstate]
        | some s => simp [record, describe, Holds]
      · have hgt : ¬ env.sequence > row.lastSequence := by omega
        simp only [targetRow, if_neg hgt, receive, if_neg hlt]
        rw [hrow]
        exact h

theorem project_other {state : Option σ} (h : id ≠ env.aggregateID) :
    (project now env reason owner state t).1 id = t id := by
  unfold project
  split
  · rfl
  · exact save_other t _ h

/-- What a balance says: whose, in what currency, and the three amounts. -/
abbrev Figures := Id × String × Int × UInt64 × UInt64

def figuresOf : TokenEvent → Option Figures
  | .tokenBalanceRecorded _ walletID currency posted outgoing incoming =>
    some (walletID, currency, posted, outgoing, incoming)
  | .tokenMinted _ _ _ => none

def TokenBalance.figures (row : TokenBalance) : Figures :=
  (row.walletUUID, row.currency, row.postedMinorUnits, row.pendingOutgoingMinorUnits,
    row.pendingIncomingMinorUnits)

/-- The same of a Token's row. -/
def HoldsBalance (row : Option TokenBalance) (mark : Option (Mark Figures)) : Prop :=
  row.map (fun b => (b.figures, b.lastSequence)) = mark.map fun k => (k.state, k.last)

theorem HoldsBalance.figures {row : Option TokenBalance} {mark : Option (Mark Figures)}
    (h : HoldsBalance row mark) : row.map TokenBalance.figures = mark.map Mark.state := by
  have hfst := congrArg (Option.map Prod.fst) h
  rwa [Option.map_map, Option.map_map] at hfst

theorem upsert_holds {row : TokenBalance} {t : Table TokenBalance} {e : TokenEvent}
    {mark : Option (Mark Figures)} (he : figuresOf e = some row.figures)
    (h : HoldsBalance (t row.tokenID) mark) :
    HoldsBalance ((upsert row t).1 row.tokenID) (receive figuresOf mark (row.lastSequence, e)) := by
  unfold upsert
  cases hrow : t row.tokenID with
  | none =>
    cases mark with
    | some k =>
      rw [hrow] at h
      cases h
    | none => simp [receive, he, HoldsBalance]
  | some held =>
    cases mark with
    | none =>
      rw [hrow] at h
      cases h
    | some k =>
      rw [hrow] at h
      have hlast : held.lastSequence = k.last := (Prod.mk.inj (Option.some.inj h)).2
      by_cases hlt : k.last < row.lastSequence
      · simp [receive, he, HoldsBalance, hlast, hlt]
      · simp only [hlast, if_neg hlt, receive]
        rw [hrow]
        exact h

theorem upsert_other {row : TokenBalance} {t : Table TokenBalance} (h : id ≠ row.tokenID) :
    (upsert row t).1 id = t id := by
  unfold upsert
  split
  · exact save_other t _ h
  · split
    · exact save_other t _ h
    · rfl

/-! ### One message, and all of them -/

theorem arrivals_cons (select : Payload → Option ε) (d : Nat × Envelope)
    (ds : List (Nat × Envelope)) :
    arrivals select id (d :: ds) = arrivals select id [d] ++ arrivals select id ds := by
  unfold arrivals
  rw [← List.filterMap_append]
  rfl

/-- A message for another stream, or of another kind. -/
theorem arrivals_none (select : Payload → Option ε)
    (h : id ≠ env.aggregateID ∨ select env.payload = none) :
    arrivals select id [(now, env)] = [] := by
  rcases h with h | h
  · simp [arrivals, Ne.symm h]
  · simp [arrivals, h]

theorem arrivals_one (select : Payload → Option ε) {e : ε} (h : select env.payload = some e) :
    arrivals select env.aggregateID [(now, env)] = [(env.sequence, e)] := by
  simp [arrivals, h]

/-- What `apply` does, by what the message carries. -/
inductive Applied (now : Nat) (env : Envelope) (m : ReadModel) : ReadModel → Prop
  | transaction {e : TransactionEvent} (hp : env.payload = .transaction e) :
      Applied now env m { m with transactions := (project now env (transactionReason e) none
        (transactionMap e.eventType) m.transactions).1 }
  | transfer {e : TransferEvent} (hp : env.payload = .transfer e) :
      Applied now env m { m with transfers := (project now env (transferReason e)
        (owningTransaction e) (transferMap e.eventType) m.transfers).1 }
  | balance {e : TokenEvent} {row : TokenBalance} (hp : env.payload.balanceEvent = some e)
      (he : figuresOf e = some row.figures) (hid : row.tokenID = env.aggregateID)
      (hseq : row.lastSequence = env.sequence) (htransfer : env.payload.transferEvent = none)
      (htransaction : env.payload.transactionEvent = none) :
      Applied now env m { m with balances := (upsert row m.balances).1 }
  | minted {i walletID : Id} {capacity : Money}
      (hp : env.payload = .token (.tokenMinted i walletID capacity)) : Applied now env m m

theorem applied_of_apply {changed : Bool} (h : apply now env m = .ok (m', changed)) :
    Applied now env m m' := by
  unfold apply at h
  split at h
  · rename_i e hp
    split at h
    · cases h
    · rename_i t changed' hbalance
      obtain ⟨rfl, -⟩ := Prod.mk.inj (Except.ok.inj h)
      unfold applyBalance at hbalance
      split at hbalance
      · split at hbalance
        · cases hbalance
        · split at hbalance
          · cases hbalance
          · have ht := (Prod.mk.inj (Except.ok.inj hbalance)).1
            rw [← ht]
            exact .balance (by rw [hp]; rfl) rfl rfl rfl (by rw [hp]; rfl) (by rw [hp]; rfl)
      · obtain ⟨rfl, -⟩ := Prod.mk.inj (Except.ok.inj hbalance)
        exact .minted hp
  · rename_i e hp
    obtain ⟨rfl, -⟩ := Prod.mk.inj (Except.ok.inj h)
    exact .transaction hp
  · rename_i e hp
    obtain ⟨rfl, -⟩ := Prod.mk.inj (Except.ok.inj h)
    exact .transfer hp
  · cases h

/-- What one message does to a row and a mark, all messages do. -/
theorem applyAll_holds {P : ReadModel → Option (Mark σ) → Prop}
    (hstep : ∀ now env m m' k, Applied now env m m' → P m k →
      P m' (receiveAll f k (arrivals select id [(now, env)])))
    {k : Option (Mark σ)} (h : applyAll m ds = .ok m') (hk : P m k) :
    P m' (receiveAll f k (arrivals select id ds)) := by
  induction ds generalizing m k with
  | nil =>
    cases h
    exact hk
  | cons d ds ih =>
    obtain ⟨now, env⟩ := d
    unfold applyAll at h
    split at h
    · cases h
    · rename_i m1 changed happly
      rw [arrivals_cons]
      unfold receiveAll
      rw [List.foldl_append]
      exact ih h (hstep now env m m1 k (applied_of_apply happly) hk)

/-- The events that name a Transfer's state. -/
def transferNames (e : TransferEvent) : Option TransferState := transferMap e.eventType

/-- The events that name a Transaction's state. -/
def transactionNames (e : TransactionEvent) : Option TransactionState := transactionMap e.eventType

/-- One event of a stream moves its row in the table as it moves the mark. -/
theorem table_holds {e : ε} (hp : select env.payload = some e) (h : Holds (t id) mark) :
    Holds ((project now env reason owner (f e) t).1 id)
      (receiveAll f mark (arrivals select id [(now, env)])) := by
  by_cases hid : id = env.aggregateID
  · subst hid
    rw [arrivals_one select hp]
    exact project_holds e h
  · rw [arrivals_none select (Or.inl hid), project_other hid]
    exact h

theorem applied_transfers {k : Option (Mark TransferState)} (h : Applied now env m m')
    (hk : Holds (m.transfers id) k) : Holds (m'.transfers id)
      (receiveAll transferNames k (arrivals Payload.transferEvent id [(now, env)])) := by
  cases h with
  | transfer hp => exact table_holds (f := transferNames) (by rw [hp]; rfl) hk
  | transaction hp | minted hp =>
    rw [arrivals_none _ (Or.inr (by rw [hp]; rfl))]
    exact hk
  | balance _ _ _ _ hp _ =>
    rw [arrivals_none _ (Or.inr hp)]
    exact hk

theorem applied_transactions {k : Option (Mark TransactionState)} (h : Applied now env m m')
    (hk : Holds (m.transactions id) k) : Holds (m'.transactions id)
      (receiveAll transactionNames k (arrivals Payload.transactionEvent id [(now, env)])) := by
  cases h with
  | transaction hp => exact table_holds (f := transactionNames) (by rw [hp]; rfl) hk
  | transfer hp | minted hp =>
    rw [arrivals_none _ (Or.inr (by rw [hp]; rfl))]
    exact hk
  | balance _ _ _ _ _ hp =>
    rw [arrivals_none _ (Or.inr hp)]
    exact hk

theorem applied_balances {k : Option (Mark Figures)} (h : Applied now env m m')
    (hk : HoldsBalance (m.balances id) k) : HoldsBalance (m'.balances id)
      (receiveAll figuresOf k (arrivals Payload.balanceEvent id [(now, env)])) := by
  cases h with
  | @balance e row hp he hid hseq =>
    by_cases hsame : id = env.aggregateID
    · subst hsame
      rw [arrivals_one _ hp, ← hseq, ← hid]
      rw [← hid] at hk
      exact upsert_holds he hk
    · rw [arrivals_none _ (Or.inl hsame)]
      change HoldsBalance ((upsert row m.balances).1 id) k
      rw [upsert_other (hid ▸ hsame)]
      exact hk
  | transaction hp | transfer hp | minted hp =>
    rw [arrivals_none _ (Or.inr (by rw [hp]; rfl))]
    exact hk

/-! ### What Go's folds say -/

/-- The state of a Transfer as the read model spells it; Go has no name for a
rejected request's. -/
def TransferState.inGo : TransferState → Option Transfer.State
  | .accepted => some .accepted
  | .rejected => none
  | .prepared => some .prepared
  | .staged => some .staged
  | .pending => some .pending
  | .committed => some .committed
  | .failed => some .failed
  | .cancelled => some .cancelled

/-- `currentState` of a stream, or rejected for a rejected request. -/
def transferState (es : List TransferEvent) : Option TransferState :=
  if Transfer.rejectedRequest es then some .rejected
  else
    match Transfer.currentState es with
    | .unknown => none
    | .accepted => some .accepted
    | .prepared => some .prepared
    | .staged => some .staged
    | .pending => some .pending
    | .committed => some .committed
    | .failed => some .failed
    | .cancelled => some .cancelled

/-- `topLevelState` of a stream. -/
def transactionState (es : List TransactionEvent) : Option TransactionState :=
  match Transaction.topLevelState es with
  | .unknown => none
  | .initialized => some .initialized
  | .started => some .started
  | .rollbackStarted => some .rollbackStarted
  | .completed => some .completed
  | .rolledBack => some .rolledBack
  | .rollbackFailed => some .rollbackFailed
  | .rejected => some .rejected

/-- What the last balance on a Token's stream says. -/
def lastRecorded (es : List TokenEvent) : Option Figures := (es.filterMap figuresOf).getLast?

theorem stateByEventType_eq (ty : TransferEventType) :
    Transfer.stateByEventType ty = (transferMap ty).bind TransferState.inGo := by
  cases ty <;> rfl

/-- What a list of events names last. -/
def namedLast (f : ε → Option σ) (es : List ε) : Option σ := (es.filterMap f).getLast?

theorem namedLast_snoc (f : ε → Option σ) (es : List ε) (e : ε) :
    namedLast f (es ++ [e]) = (f e).or (namedLast f es) := by
  unfold namedLast
  cases h : f e <;> simp [h]

theorem named_facts (f : ε → Option σ) (rows : List (Row ε)) :
    named f (rows.map Row.fact) = namedLast f (eventsOf rows) := by
  unfold named namedLast eventsOf
  rw [List.filterMap_map, List.filterMap_map]
  rfl

/-- The map of the read model mirrors `currentState`. -/
theorem namedLast_transfer {es : List TransferEvent} (h : Transfer.Lifecycle es) :
    namedLast transferNames es = transferState es := by
  refine Concurrent.History.induct (P := fun es => namedLast transferNames es = transferState es)
    rfl ?_ h
  intro es e hes hf ih
  rw [namedLast_snoc, ih]
  by_cases hnil : es = []
  · subst hnil
    cases hf with
    | opening => cases e <;> rfl
    | prepared hs => cases hs
    | outcome he => cases he
    | claim hs => cases hs
    | response hne => exact absurd rfl hne
  · have hrejected : Transfer.rejectedRequest (es ++ [e]) = Transfer.rejectedRequest es :=
      Transfer.rejectedRequest_grow hnil (List.prefix_append _ _)
    unfold transferState
    rw [hrejected, Transfer.currentState_snoc]
    cases hf with
    | opening hes' => exact absurd hes' hnil
    | prepared hs he =>
      have hopen : Transfer.rejectedRequest es = false := by
        by_contra hr
        rw [Transfer.Lifecycle.rejected_unknown hes (by simpa using hr)] at hs
        cases hs
      rw [hopen, hs]
      simp [transferNames, he, transferMap, Transfer.advance, Transfer.stateByEventType]
    | outcome he =>
      have hopen : Transfer.rejectedRequest es = false := by
        by_contra hr
        rw [Transfer.Lifecycle.rejected_unknown hes (by simpa using hr)] at he
        cases he
      rw [hopen]
      revert he
      cases Transfer.currentState es <;> cases e <;>
        simp [Transfer.transitions, TransferEvent.eventType, transferNames, transferMap,
          Transfer.advance, Transfer.stateByEventType]
    | claim _ he | response _ he => cases e <;> first | rfl | cases he

/-- The map of the read model mirrors `topLevelState`. -/
theorem namedLast_transaction (es : List TransactionEvent) :
    namedLast transactionNames es = transactionState es := by
  induction es using List.reverseRecOn with
  | nil => rfl
  | append_singleton es e ih =>
    rw [namedLast_snoc, ih]
    unfold transactionState
    rw [Transaction.topLevelState_snoc]
    cases e <;> rfl

/-! ### No state is named twice -/

/-- The earlier event does not name what the later one names. -/
def NamesOther (f : ε → Option σ) (a b : ε) : Prop := ∀ s, f a = some s → f b ≠ some s

theorem transfer_names_once {es : List TransferEvent} (h : Transfer.Lifecycle es) :
    es.Pairwise (NamesOther transferNames) := by
  refine Concurrent.History.pairwise ?_ h
  intro pre e hpre hf a ha s hs hs'
  -- both lead to one state, and the later one was recorded below it
  have hsame : Transfer.stateByEventType a.eventType = Transfer.stateByEventType e.eventType := by
    rw [stateByEventType_eq, stateByEventType_eq]
    exact congrArg (Option.bind · _) (hs.trans hs'.symm)
  have hrank {s' : Transfer.State} (he : Transfer.stateByEventType e.eventType = some s') :
      s'.rank ≤ (Transfer.currentState pre).rank :=
    Transfer.Lifecycle.rank_of_mem hpre ha (hsame.trans he)
  cases hf with
  | opening hnil =>
    subst hnil
    cases ha
  | prepared hcur he =>
    have := hrank (by rw [he]; rfl)
    rw [hcur] at this
    exact absurd this (by decide)
  | outcome he =>
    obtain ⟨s', hs'', hlt⟩ := Transfer.rank_lt_of_transition he
    exact absurd (hrank hs'') (Nat.not_le_of_lt hlt)
  | claim _ he | response _ he =>
    have hnone : transferNames e = none := by cases e <;> first | rfl | cases he
    exact nomatch hnone.symm.trans hs'

/-- The state of a Transaction, in Go's words. -/
def TransactionState.inGo : TransactionState → Transaction.State
  | .initialized => .initialized
  | .rejected => .rejected
  | .started => .started
  | .rollbackStarted => .rollbackStarted
  | .completed => .completed
  | .rolledBack => .rolledBack
  | .rollbackFailed => .rollbackFailed

theorem stateOf_eq (e : TransactionEvent) :
    Transaction.stateOf e = (transactionNames e).map TransactionState.inGo := by
  cases e <;> rfl

theorem transaction_names_once {tid : Id} {es : List TransactionEvent}
    (h : Transaction.WellFormed tid es) : es.Pairwise (NamesOther transactionNames) := by
  refine Concurrent.History.pairwise ?_ h
  intro pre e hpre hf a ha s hs hs'
  have ha' : Transaction.stateOf a = some s.inGo := by rw [stateOf_eq, hs]; rfl
  have he : Transaction.stateOf e = some s.inGo := by rw [stateOf_eq, hs']; rfl
  have hrank := Transaction.WellFormed.rank_of_mem hpre ha ha'
  -- an event that names a state moves the fold up, or finds it where it leads
  rcases hf.stays_or_rises with hstay | hrise
  · rw [Transaction.topLevelState_snoc, he] at hstay
    cases hf with
    | initialized hnil | rejected hnil =>
      subst hnil
      cases ha
    | started htop =>
      rw [htop] at hstay
      cases hs'
      cases hstay
    | rollbackStarted htop =>
      cases hs'
      rcases htop with htop | htop
      · exact nomatch hstay.trans htop
      · exact nomatch hstay.trans htop
    | concluded hdec htype hc =>
      obtain ⟨htop, s', hs'', hfin⟩ := Transaction.stateOf_conclusion hdec htype hc
      obtain rfl := Option.some.inj (hs''.symm.trans he)
      rcases htop with htop | htop
      · rw [show s.inGo = _ from hstay, htop] at hfin
        cases hfin
      · rw [show s.inGo = _ from hstay, htop] at hfin
        cases hfin
    | _ => cases hs'
  · rw [Transaction.topLevelState_snoc, he] at hrise
    exact absurd hrank (Nat.not_le_of_lt hrise)

/-! ### In every run -/

open Concurrent

theorem ascending_of_gapFree {rows : List (Row ε)}
    (h : rows.map Row.sequence = List.range' 1 rows.length) : Ascending (rows.map Row.fact) := by
  have hsorted : (rows.map Row.sequence).Pairwise (· < ·) := by
    rw [h]
    exact List.pairwise_lt_range'
  exact List.pairwise_map.mpr (List.pairwise_map.mp hsorted)

theorem published_of_arrival (log : Id → List (Nat × ε))
    (hselect : ∀ id n p e, PublishedAs w id n p → select p = some e → (n, e) ∈ log id)
    (hd : ∀ d ∈ ds, Published w d.2) : ∀ d ∈ arrivals select id ds, d ∈ log id := by
  intro d hm
  obtain ⟨d', hd', hsome⟩ := List.mem_filterMap.mp hm
  split at hsome
  · rename_i hid
    obtain ⟨e, he, rfl⟩ := Option.map_eq_some_iff.mp hsome
    rw [← hid]
    exact hselect _ _ _ e (hd d' hd') he
  · cases hsome

/-- Nothing that is published is refused. -/
theorem applyAll_ok (hlabels : Token.LabelsOk w) (hd : ∀ d ∈ ds, Published w d.2) (m : ReadModel) :
    ∃ m', applyAll m ds = .ok m' := by
  induction ds generalizing m with
  | nil => exact ⟨m, rfl⟩
  | cons d ds ih =>
    obtain ⟨now, env⟩ := d
    have hfirst : Published w env := hd (now, env) List.mem_cons_self
    have hrest := ih fun d' hd' => hd d' (List.mem_cons_of_mem _ hd')
    obtain ⟨m1, changed, happly⟩ : ∃ m1 changed, apply now env m = .ok (m1, changed) := by
      obtain ⟨id, payload, sequence, globalSeq, occurredAt⟩ := env
      cases payload with
      | transaction e | transfer e => exact ⟨_, _, rfl⟩
      | wallet e | holder e => exact hfirst.elim
      | token e =>
        cases e with
        | tokenMinted => exact ⟨_, _, rfl⟩
        | tokenBalanceRecorded i walletID currency posted outgoing incoming =>
          obtain ⟨row, hrow, hfact⟩ := List.mem_map.mp hfirst
          have hm : row.event ∈ eventsOf (w.token id) := List.mem_map_of_mem hrow
          have hevent : row.event = _ := congrArg Prod.snd hfact
          have hlabelled := hlabels.2 id _ hm
          rw [hevent] at hlabelled
          obtain ⟨hwallet, hcurrency⟩ := hlabelled
          simp only [apply, applyBalance, if_neg hwallet, if_neg hcurrency]
          exact ⟨_, _, rfl⟩
    unfold applyAll
    rw [happly]
    exact hrest m1

/-- A Token's row has one kind of event only, so none is overtaken. -/
theorem timely_balances (rows : List (Row TokenEvent)) {ds : List (Nat × TokenEvent)}
    (hin : ∀ d ∈ ds, d ∈ balanceFacts rows) : Timely figuresOf (balanceFacts rows) ds := by
  intro t s ht before d after heq _ hlt
  have hd : d ∈ balanceFacts rows := hin d (by rw [heq]; simp)
  have hnone := ht.2.2 d hd hlt
  have hbalance : d.2.isBalance = true := by simpa using (List.mem_filter.mp hd).2
  cases he : d.2 with
  | tokenMinted =>
    rw [he] at hbalance
    cases hbalance
  | tokenBalanceRecorded =>
    rw [he] at hnone
    cases hnone

theorem named_balances (rows : List (Row TokenEvent)) :
    named figuresOf (balanceFacts rows) = lastRecorded (eventsOf rows) := by
  have hfilter : ∀ ds : List (Nat × TokenEvent),
      (ds.filter fun d => d.2.isBalance).filterMap (fun d => figuresOf d.2) =
        ds.filterMap fun d => figuresOf d.2 := by
    intro ds
    induction ds with
    | nil => rfl
    | cons d ds ih =>
      obtain ⟨n, e⟩ := d
      cases e with
      | tokenMinted | tokenBalanceRecorded => simpa [TokenEvent.isBalance, figuresOf] using ih
  unfold named balanceFacts lastRecorded eventsOf
  rw [hfilter, List.filterMap_map, List.filterMap_map]
  rfl

/-- A row that holds the mark of its stream's arrivals says what Go's fold says
exactly if the last event to name a state was not overtaken. -/
theorem row_agrees_iff {rows : List (Row ε)} {row : Option (Projection σ)}
    {arrived : List (Nat × ε)} (hgap : rows.map Row.sequence = List.range' 1 rows.length)
    (honce : (eventsOf rows).Pairwise (NamesOther f)) (hin : ∀ d ∈ arrived, d ∈ rows.map Row.fact)
    (hall : Delivered (rows.map Row.fact) arrived) (hrow : Holds row (receiveAll f none arrived)) :
    row.bind Projection.state = namedLast f (eventsOf rows) ↔
      Timely f (rows.map Row.fact) arrived := by
  rw [hrow.state, ← named_facts]
  refine agrees_iff (ascending_of_gapFree hgap) hin hall ?_
  exact List.pairwise_map.mpr (List.pairwise_map.mp honce)

/-- **Where the read model ends**, for every run of Go and every delivery of what it
published: once every event of a Transfer or Transaction has been delivered, its row
says what Go's fold says exactly if the last event to name a state was not
overtaken; and a Token's row always says what the last balance says. -/
theorem read_model_agrees_iff {c : System} (h : Pool.Reachable anyRun .init c)
    {ds : List (Nat × Envelope)} (hd : ∀ d ∈ ds, Published c.state d.2) :
    ∃ m, applyAll .empty ds = .ok m ∧
      (∀ id, Delivered ((c.state.transfer id).map Row.fact) (arrivals Payload.transferEvent id ds) →
        ((m.transfers id).bind Projection.state = transferState (eventsOf (c.state.transfer id)) ↔
          Timely transferNames ((c.state.transfer id).map Row.fact)
            (arrivals Payload.transferEvent id ds))) ∧
      (∀ id, Delivered ((c.state.transaction id).map Row.fact)
          (arrivals Payload.transactionEvent id ds) →
        ((m.transactions id).bind Projection.state =
            transactionState (eventsOf (c.state.transaction id)) ↔
          Timely transactionNames ((c.state.transaction id).map Row.fact)
            (arrivals Payload.transactionEvent id ds))) ∧
      ∀ id, Delivered (balanceFacts (c.state.token id)) (arrivals Payload.balanceEvent id ds) →
        (m.balances id).map TokenBalance.figures = lastRecorded (eventsOf (c.state.token id)) := by
  have hinv : Inv True c.state := reachable_inv refusals_true h
  have hgap : GapFree c.state.store := (reachable_upheld refusals_true gapFree_upheld h).1.2
  have hlabels := (reachable_upheld refusals_true Token.labels_upheld h).1.2
  obtain ⟨m, hm⟩ := applyAll_ok hlabels hd .empty
  refine ⟨m, hm, fun id hall => ?_, fun id hall => ?_, fun id hall => ?_⟩
  · rw [← namedLast_transfer (hinv.lifecycle id)]
    refine row_agrees_iff (hgap .transfer id) (transfer_names_once (hinv.lifecycle id)) ?_ hall ?_
    · refine published_of_arrival (fun id => (c.state.transfer id).map Row.fact) ?_ hd
      intro id n p e hp he
      cases p with
      | transfer e' => exact Option.some.inj he ▸ hp
      | _ => cases he
    · exact applyAll_holds (P := fun m k => Holds (m.transfers id) k)
        (fun _ _ _ _ _ => applied_transfers) hm rfl
  · rw [← namedLast_transaction]
    refine row_agrees_iff (hgap .transaction id)
      (transaction_names_once (hinv.transaction id).wellFormed) ?_ hall ?_
    · refine published_of_arrival (fun id => (c.state.transaction id).map Row.fact) ?_ hd
      intro id n p e hp he
      cases p with
      | transaction e' => exact Option.some.inj he ▸ hp
      | _ => cases he
    · exact applyAll_holds (P := fun m k => Holds (m.transactions id) k)
        (fun _ _ _ _ _ => applied_transactions) hm rfl
  · have hholds := applyAll_holds (P := fun m k => HoldsBalance (m.balances id) k) (k := none)
      (fun _ _ _ _ _ => applied_balances) hm rfl
    have hin : ∀ d ∈ arrivals Payload.balanceEvent id ds, d ∈ balanceFacts (c.state.token id) := by
      refine published_of_arrival (fun id => balanceFacts (c.state.token id)) ?_ hd
      intro id n p e hp he
      cases p with
      | token e' =>
        obtain ⟨hbalance, heq⟩ := Option.ite_none_right_eq_some.mp he
        cases heq
        exact List.mem_filter.mpr ⟨hp, hbalance⟩
      | _ => cases he
    have hascending : Ascending (balanceFacts (c.state.token id)) :=
      (ascending_of_gapFree (hgap .token id)).filter _
    rw [hholds.figures, ← named_balances]
    exact agrees_of_timely hascending hin hall (timely_balances _ hin)

/-! ### A deposit -/

instance (w : World) (id : Id) (n : Nat) : (p : Payload) → Decidable (PublishedAs w id n p)
  | .transaction e => inferInstanceAs (Decidable ((n, e) ∈ (w.transaction id).map Row.fact))
  | .transfer e => inferInstanceAs (Decidable ((n, e) ∈ (w.transfer id).map Row.fact))
  | .token e => inferInstanceAs (Decidable ((n, e) ∈ (w.token id).map Row.fact))
  | .wallet _ => inferInstanceAs (Decidable False)
  | .holder _ => inferInstanceAs (Decidable False)

/-- The deposit, and a client that asks to confirm its Committed child: the refusal
is recorded after the commit. -/
def confirmedLate : System :=
  played (inTurn 0 (deposit ++ [.confirmStagedTransfer (.uuid 3)]))

/-- The events of the child, in the order of these positions. -/
def childMessages (order : List Nat) : List (Nat × Envelope) :=
  order.filterMap fun i => ((confirmedLate.state.transfer (.uuid 3))[i]?).map fun row =>
    (0, ⟨.uuid 3, .transfer row.event, row.sequence, row.sequence, some row.occurredAt⟩)

theorem read_model_agrees_in_order :
    ∃ m, applyAll .empty (childMessages [0, 1, 2, 3, 4]) = .ok m ∧
      (m.transfers (.uuid 3)).bind Projection.state = some .committed := by
  have hd : ∀ d ∈ childMessages [0, 1, 2, 3, 4],
      PublishedAs confirmedLate.state d.2.aggregateID d.2.sequence d.2.payload := by decide +kernel
  obtain ⟨m, hm, htransfers, -⟩ := read_model_agrees_iff (played_reachable _) hd
  have hall : Delivered ((confirmedLate.state.transfer (.uuid 3)).map Row.fact)
      (arrivals Payload.transferEvent (.uuid 3) (childMessages [0, 1, 2, 3, 4])) := by
    unfold Delivered
    decide +kernel
  have hsorted : (arrivals Payload.transferEvent (.uuid 3) (childMessages [0, 1, 2, 3, 4])).Pairwise
      fun a b => a.1 ≤ b.1 := by decide +kernel
  have hstate : transferState (eventsOf (confirmedLate.state.transfer (.uuid 3))) =
      some .committed := by decide +kernel
  exact ⟨m, hm, ((htransfers (.uuid 3) hall).mpr (timely_of_sorted hall hsorted)).trans hstate⟩

/-- **The commit is overtaken by the refusal recorded after it**: all five events are
delivered, and the read model says Prepared of a Transfer that is Committed. -/
theorem commit_overtaken :
    Pool.Reachable anyRun .init confirmedLate ∧
      (∀ d ∈ childMessages [0, 1, 2, 4, 3], Published confirmedLate.state d.2) ∧
      Delivered ((confirmedLate.state.transfer (.uuid 3)).map Row.fact)
        (arrivals Payload.transferEvent (.uuid 3) (childMessages [0, 1, 2, 4, 3])) ∧
      transferState (eventsOf (confirmedLate.state.transfer (.uuid 3))) = some .committed ∧
      ∃ m, applyAll .empty (childMessages [0, 1, 2, 4, 3]) = .ok m ∧
        (m.transfers (.uuid 3)).bind Projection.state = some .prepared := by
  have hd : ∀ d ∈ childMessages [0, 1, 2, 4, 3],
      PublishedAs confirmedLate.state d.2.aggregateID d.2.sequence d.2.payload := by decide +kernel
  have hall : Delivered ((confirmedLate.state.transfer (.uuid 3)).map Row.fact)
      (arrivals Payload.transferEvent (.uuid 3) (childMessages [0, 1, 2, 4, 3])) := by
    unfold Delivered
    decide +kernel
  refine ⟨played_reachable _, hd, hall, by decide +kernel, ?_⟩
  have hstate : (applyAll .empty (childMessages [0, 1, 2, 4, 3])).toOption.map
      (fun m => (m.transfers (.uuid 3)).bind Projection.state) = some (some .prepared) := by
    decide +kernel
  cases hm : applyAll .empty (childMessages [0, 1, 2, 4, 3]) with
  | error e =>
    rw [hm] at hstate
    cases hstate
  | ok m =>
    rw [hm] at hstate
    exact ⟨m, rfl, Option.some.inj hstate⟩

end MoneyFlow.Projector
