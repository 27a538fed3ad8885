import MoneyFlow.Concurrent.Noted
import MoneyFlow.Token.Recording
import MoneyFlow.Transfer.Alone

/-!
# MoneyFlow.Transfer.Wide

A Transfer of more legs than one ledger request takes.

Its batch goes out as consecutive slices of the legs, one linked chain each
(`chains_sliced`), and the first chain refused is the last one sent
(`submitChains_heard`). What the refusal comes to depends on whether money has moved
by then: before any chain has posted, the Transfer fails; after one has, neither
Failed nor Committed would be true, and the step ends in an error with nothing
recorded (`commitClaimed_ended`).

The ledger is any that answers a request or calls it invalid; the step is one whose
driver holds the claim and is not disturbed.
-/

namespace MoneyFlow.Transfer

open Concurrent Service

variable {chain : List LedgerTransfer} {sent : List (List LedgerTransfer)}

/-! ### The requests of a commit -/

/-- The chains that reserve the legs of an immediate commit too wide for one chain. -/
def reservingChains (legs : List TransferLeg) (posting : Bool) : List (List LedgerTransfer) :=
  if posting = true ∨ legs.length ≤ batchMax then [] else chains (reservations legs)

/-- The entry that moves one leg's money. -/
def settles (legs : List TransferLeg) (posting : Bool) : TransferLeg → LedgerTransfer :=
  if posting = true ∨ batchMax < legs.length then settlement .postPending .post else movement

/-- The chains that move the legs' money. -/
def settlingChains (legs : List TransferLeg) (posting : Bool) : List (List LedgerTransfer) :=
  chains (legs.map (settles legs posting))

/-- The requests are consecutive slices of the legs, in order, each of at most
`batchMax` and linked except its last. -/
structure Sliced (f : TransferLeg → LedgerTransfer) (legs : List TransferLeg)
    (requests : List (List LedgerTransfer)) : Prop where
  slices : ∃ slices : List (List TransferLeg), slices.flatten = legs ∧
    (∀ s ∈ slices, s ≠ [] ∧ s.length ≤ batchMax) ∧
    requests = slices.map fun s => link (s.map f)
  linked : ∀ chain ∈ requests, (∀ t ∈ chain.dropLast, t.linked = true) ∧
    ∀ t ∈ chain.getLast?, t.linked = false

theorem link_ne_nil : ∀ {ts : List LedgerTransfer}, ts ≠ [] → link ts ≠ []
  | [], h => absurd rfl h
  | [_], _ => by simp [link]
  | _ :: _ :: _, _ => by simp [link]

theorem link_linked : ∀ ts : List LedgerTransfer,
    (∀ t ∈ (link ts).dropLast, t.linked = true) ∧ ∀ t ∈ (link ts).getLast?, t.linked = false
  | [] => by simp [link]
  | [_] => by simp [link]
  | t :: u :: ts => by
    obtain ⟨hinit, hlast⟩ := link_linked (u :: ts)
    have hne : link (u :: ts) ≠ [] := link_ne_nil (List.cons_ne_nil u ts)
    have hlink : link (t :: u :: ts) = { t with linked := true } :: link (u :: ts) := rfl
    rw [hlink, List.dropLast_cons_of_ne_nil hne, List.getLast?_cons_of_ne_nil hne]
    refine ⟨fun x hx => ?_, hlast⟩
    rcases List.mem_cons.mp hx with rfl | hx
    · rfl
    · exact hinit x hx

theorem cut_sliced {f : TransferLeg → LedgerTransfer} :
    ∀ {n : Nat} {legs : List TransferLeg}, legs.length ≤ n → Sliced f legs (cut n (legs.map f))
  | 0, legs, h => by
    obtain rfl : legs = [] := by simpa using h
    exact ⟨⟨[], rfl, nofun, rfl⟩, by simp [cut]⟩
  | n + 1, [], _ => ⟨⟨[], rfl, nofun, rfl⟩, by simp [cut]⟩
  | n + 1, leg :: legs, h => by
    -- the first slice, and what is left after it
    have hrest : ((leg :: legs).drop batchMax).length ≤ n := by
      have hpos := batchMax_pos
      simp only [List.length_drop, List.length_cons] at h ⊢
      omega
    obtain ⟨⟨slices, hflat, hsize, hslices⟩, hlinked⟩ := cut_sliced (f := f) hrest
    have hcut : cut (n + 1) ((leg :: legs).map f) =
        link (((leg :: legs).take batchMax).map f) ::
          cut n (((leg :: legs).drop batchMax).map f) := by
      rw [cut_cons (by simp), List.map_take, List.map_drop]
    refine ⟨⟨(leg :: legs).take batchMax :: slices, ?_, ?_, ?_⟩, ?_⟩
    · rw [List.flatten_cons, hflat, List.take_append_drop]
    · intro s hs
      rcases List.mem_cons.mp hs with rfl | hs
      · exact ⟨by simp [batchMax_pos.ne'], List.length_take_le _ _⟩
      · exact hsize s hs
    · rw [hcut, hslices, List.map_cons]
    · intro chain hchain
      rw [hcut] at hchain
      rcases List.mem_cons.mp hchain with rfl | hchain
      · exact link_linked _
      · exact hlinked chain hchain

theorem chains_sliced (f : TransferLeg → LedgerTransfer) (legs : List TransferLeg) :
    Sliced f legs (chains (legs.map f)) :=
  cut_sliced (by simp)

/-! ### What the ledger is asked -/

/-- A request of transfers, and its answer. -/
abbrev Exchange := List LedgerTransfer × Except Err (List TransferResultCode)

/-- Every transfer of the request was accepted. -/
def Exchange.accepted : Exchange → Bool
  | (_, .ok results) => results.all TransferResultCode.accepted
  | (_, .error _) => false

/-- The requests of transfers among the operations. -/
def asked : (o : Op) → Resp o → Option Exchange
  | .createTransfers ts, r => some (ts, r)
  | _, _ => none

/-- A step run on its own, over a ledger that follows the rule, with a list of what
the ledger was asked. -/
abbrev Observed (rule : LedgerRule) := Noted (World.ExecBy rule) asked

/-- The ledger is asked for no transfers. -/
def unasking : Contract World Op := ⟨fun _ _ => True, fun o _ => ∀ r, asked o r = none⟩

theorem unasking_unnoted {rule : LedgerRule} : Unnoted (World.ExecBy rule) asked unasking where
  assume _ _ := trivial
  none _ _ h := h
  exec o w r w' h hx := by
    cases o with
    | createTransfers ts => exact nomatch h r
    | _ => exact hx

theorem unasking_lenient : Lenient unasking elsewhere :=
  Open.lenient {
    free := by
      intro o ho w _ r
      cases o with
      | createTransfers ts => cases ho
      | _ => rfl
    append := fun _ _ _ _ _ => rfl }

/-- The ledger's only error is that a request is invalid. -/
def Answers (rule : LedgerRule) : Prop :=
  ∀ l ts e, (rule l ts).1 = .error e → ∃ m, e = .invalidRequest m

/-- The exchanges about `requests`, one after the other. -/
def heard (rule : LedgerRule) : Ledger → List (List LedgerTransfer) → List Exchange
  | _, [] => []
  | l, chain :: rest => (chain, (rule l chain).1) :: heard rule (rule l chain).2 rest

/-- The state after `requests`, one after the other. -/
def after (rule : LedgerRule) (w : World) : List (List LedgerTransfer) → World
  | [] => w
  | chain :: rest => after rule { w with ledger := (rule w.ledger chain).2 } rest

variable {rule : LedgerRule} {w w' : World} {id : Id} {log : List Exchange}

@[simp] theorem heard_requests (l : Ledger) (requests : List (List LedgerTransfer)) :
    (heard rule l requests).map Prod.fst = requests := by
  induction requests generalizing l with
  | nil => rfl
  | cons chain rest ih => simp [heard, ih]

theorem heard_append (w : World) (xs ys : List (List LedgerTransfer)) :
    heard rule w.ledger (xs ++ ys) =
      heard rule w.ledger xs ++ heard rule (after rule w xs).ledger ys := by
  induction xs generalizing w with
  | nil => rfl
  | cons chain rest ih =>
    simp only [List.cons_append, heard, after]
    rw [← ih { w with ledger := (rule w.ledger chain).2 }]

theorem after_append (w : World) (xs ys : List (List LedgerTransfer)) :
    after rule w (xs ++ ys) = after rule (after rule w xs) ys := by
  induction xs generalizing w with
  | nil => rfl
  | cons chain rest ih => exact ih _

@[simp] theorem after_store (w : World) (requests : List (List LedgerTransfer)) :
    (after rule w requests).store = w.store := by
  induction requests generalizing w with
  | nil => rfl
  | cons chain rest ih => exact ih _

@[simp] theorem after_transfer (w : World) (requests : List (List LedgerTransfer)) (i : Id) :
    (after rule w requests).transfer i = w.transfer i := by
  simp [World.transfer]

theorem submitChain_heard {c : Nat} (hrule : Answers rule) :
    Returns (Observed rule) (submitChain chain c)
      (fun r s => s = (after rule w [chain], log ++ heard rule w.ledger [chain]) ∧
        match r with
        | none => Exchange.accepted (chain, (rule w.ledger chain).1) = true
        | some refusal => Exchange.accepted (chain, (rule w.ledger chain).1) = false ∧
            refusal.chainsApplied = c) (w, log) := by
  have hasks : ∀ r s', Observed rule (w, log) (.createTransfers chain) r s' ↔ (r, s') =
      ((rule w.ledger chain).1, after rule w [chain], log ++ heard rule w.ledger [chain]) := by
    intro r s'
    obtain ⟨w', log'⟩ := s'
    constructor
    · rintro ⟨hx, hlog⟩
      cases hx
      exact congrArg (fun x => (_, _, x)) hlog
    · rintro ⟨⟩
      exact ⟨rfl, rfl⟩
  refine Yields.request_one hasks ?_
  cases hans : (rule w.ledger chain).1 with
  | error e =>
    obtain ⟨m, rfl⟩ := hrule _ _ _ hans
    exact Returns.pure ⟨rfl, rfl, rfl⟩
  | ok results =>
    refine Returns.pure ⟨rfl, ?_⟩
    cases hr : firstRefusal c 0 results with
    | none => exact firstRefusal_none hr
    | some refusal => exact (firstRefusal_some hr).symm

/-! ### The loop over the chains -/

/-- The Tokens are kept and their totals fit, after each request but for those that
were never sent. -/
def Steady (rule : LedgerRule) (w : World) (toks : List Id)
    (requests : List (List LedgerTransfer)) : Prop :=
  ∀ sent, sent <+: requests → ∀ tok ∈ toks,
    Token.Kept (after rule w sent) tok ∧ Token.Fits (after rule w sent) tok

theorem Steady.cons {toks : List Id} {rest : List (List LedgerTransfer)}
    (h : Steady rule w toks (chain :: rest)) : Steady rule (after rule w [chain]) toks rest :=
  fun sent hsent => h (chain :: sent) (List.cons_prefix_cons.mpr ⟨rfl, hsent⟩)

theorem Steady.drop {toks : List Id} {xs ys : List (List LedgerTransfer)}
    (h : Steady rule w toks (xs ++ ys)) : Steady rule (after rule w xs) toks ys := by
  intro sent hsent
  rw [← after_append]
  exact h (xs ++ sent) ((List.prefix_append_right_inj xs).mpr hsent)

/-- The first request refused: those before it were accepted. -/
structure Refused (rule : LedgerRule) (w : World) (sent : List (List LedgerTransfer))
    (chain : List LedgerTransfer) : Prop where
  before : (heard rule w.ledger sent).all Exchange.accepted = true
  refused : Exchange.accepted (chain, (rule (after rule w sent).ledger chain).1) = false

theorem Refused.cons {first : List LedgerTransfer}
    (hfirst : Exchange.accepted (first, (rule w.ledger first).1) = true)
    (h : Refused rule (after rule w [first]) sent chain) :
    Refused rule w (first :: sent) chain where
  before := by
    have hsent : (heard rule (rule w.ledger first).2 sent).all Exchange.accepted = true := h.before
    simp [heard, hfirst, hsent]
  refused := h.refused

variable {fuel : Nat} {batch : List LedgerTransfer} {onReject : LedgerRefusal → Service Unit}

/-- The balances of the chains before a refused one are published; no Transfer's
stream moves. -/
theorem recordTouched_heard {n : Nat}
    (htoks : ∀ tok ∈ batch.flatMap (fun t => [t.debitAccountID, t.creditAccountID]),
      Token.Kept w tok ∧ Token.Fits w tok) :
    Returns (Observed rule) (recordTouched (fuel + 1) (batch.take n))
      (fun _ s => (∀ i, s.1.transfer i = w.transfer i) ∧ s.2 = log) (w, log) := by
  have hmem : ∀ tok ∈ (batch.take n).flatMap (fun t => [t.debitAccountID, t.creditAccountID]),
      Token.Kept w tok ∧ Token.Fits w tok := by
    intro tok htok
    obtain ⟨t, ht, hm⟩ := List.mem_flatMap.mp htok
    exact htoks tok (List.mem_flatMap.mpr ⟨t, List.mem_of_mem_take ht, hm⟩)
  refine (Returns.noted unasking_unnoted (Token.recordBalances_alone (fun tok h => (hmem tok h).1)
    fun tok h => (hmem tok h).2) (unasking_lenient.record (fuel + 1) _ w) log).mono ?_
  intro _ s hs
  exact ⟨fun i => hs.1.others .transfer i (Or.inl (by decide)), hs.2⟩

/-- The chains go out in order, and the first one refused is the last one sent. -/
theorem submitChains_heard {Q : Except Err Bool → World × List Exchange → Prop}
    (hrule : Answers rule) :
    ∀ {rest : List (List LedgerTransfer)} {c : Nat} {w : World} {log : List Exchange},
    Steady rule w (batch.flatMap fun t => [t.debitAccountID, t.creditAccountID]) rest →
    ((heard rule w.ledger rest).all Exchange.accepted = true →
      Q (.ok true) (after rule w rest, log ++ heard rule w.ledger rest)) →
    (∀ sent chain unsent refusal w', rest = sent ++ chain :: unsent → Refused rule w sent chain →
      refusal.chainsApplied = c + sent.length → (∀ i, w'.transfer i = w.transfer i) →
      Yields (Observed rule) (onReject refusal)
        (fun r s => match r with
          | .ok _ => Q (.ok false) s
          | .error e => Q (.error e) s) (w', log ++ heard rule w.ledger (sent ++ [chain]))) →
    Yields (Observed rule) (submitChains (fuel + 1) batch onReject c rest) Q (w, log)
  | [], c, w, log, _, hok, _ => by
    have hdone := hok rfl
    rw [heard, List.append_nil] at hdone
    exact hdone
  | chain :: rest, c, w, log, hsteady, hok, hno => by
    refine Yields.seq (submitChain_heard hrule) fun r s hr => ?_
    obtain ⟨rfl, hr⟩ := hr
    cases r with
    | none =>
      refine submitChains_heard hrule hsteady.cons (fun hall => ?_) ?_
      · rw [List.append_assoc]
        exact hok (by simp only [heard, List.all_cons, hr, Bool.true_and]; exact hall)
      · intro sent next unsent refusal w' hrest href hc hw'
        rw [List.append_assoc]
        refine hno (chain :: sent) next unsent refusal w' (by rw [hrest, List.cons_append])
          (href.cons hr) (by rw [hc, List.length_cons]; omega) fun i => ?_
        rw [hw', after_transfer]
    | some refusal =>
      obtain ⟨hr, hc⟩ := hr
      have hrefused : Refused rule w [] chain := ⟨rfl, hr⟩
      have hreject (w' : World) (hw' : ∀ i, w'.transfer i = w.transfer i) :=
        hno [] chain rest refusal w' rfl hrefused hc hw'
      have hthen (w' : World) (hw' : ∀ i, w'.transfer i = w.transfer i) :
          Yields (Observed rule) (onReject refusal >>= fun _ => pure false) Q
            (w', log ++ heard rule w.ledger [chain]) := by
        refine Yields.bind ((hreject w' hw').mono fun r s hs => ?_)
        cases r with
        | ok _ | error e => exact hs
      by_cases hpos : 0 < c
      · -- the chains before this one moved balances, which are published
        dsimp only
        rw [if_pos hpos]
        refine Yields.seq (recordTouched_heard (hsteady [chain] ⟨rest, rfl⟩)) fun _ s hs => ?_
        obtain ⟨w', log'⟩ := s
        obtain ⟨hw', rfl⟩ := hs
        exact hthen w' fun i => (hw' i).trans (after_transfer w [chain] i)
      · dsimp only
        rw [if_neg hpos]
        exact hthen _ (after_transfer w [chain])

/-! ### One commit -/

/-- The driver holds the claim of a commit, immediate or of a staged Transfer. -/
structure Committing (w : World) (id : Id) (seq : Nat) (posting : Bool) : Prop where
  named : id ≠ Id.empty
  holds : Holds w id seq
  state : currentState (eventsOf (w.transfer id)) = if posting then .pending else .prepared

variable {seq : Nat} {posting : Bool} {legs : List TransferLeg}

theorem Committing.of_transfer (h : Committing w id seq posting)
    (hsame : w'.transfer id = w.transfer id) : Committing w' id seq posting where
  named := h.named
  holds := by
    unfold Holds
    rw [hsame]
    exact h.holds
  state := by
    rw [hsame]
    exact h.state

theorem Committing.outcomes (h : Committing w id seq posting) :
    .transferFailed ∈ transitions (currentState (eventsOf (w.transfer id))) ∧
      .transferCommitted ∈ transitions (currentState (eventsOf (w.transfer id))) := by
  rw [h.state]
  cases posting <;> decide

theorem Committing.stillHoldsClaim (h : Committing w id seq posting) :
    Returns (Observed rule) (stillHoldsClaim id seq) (fun r s => (r = true ∧ s.1 = w) ∧ s.2 = log)
      (w, log) :=
  Returns.noted unasking_unnoted (stillHoldsClaim_alone h.holds)
    (stillHoldsClaim_obeys unasking_lenient.reads seq w) log

theorem Committing.compensate {reason : Text} (h : Committing w id seq posting) :
    Returns (Observed rule) (compensate (fuel + 1) id seq reason)
      (fun _ s => Wrote w id [.transferFailed id reason] [] s.1 ∧ s.2 = log) (w, log) :=
  Returns.noted unasking_unnoted (compensate_alone h.named h.holds h.outcomes.1)
    (compensate_obeys unasking_lenient trivial w) log

theorem Committing.recordOutcome {ds : List TransferDestination} (h : Committing w id seq posting)
    (hkept : ∀ tok ∈ legTokens legs, Token.Kept w tok)
    (hfits : ∀ tok ∈ legTokens legs, Token.Fits w tok) :
    Returns (Observed rule) (recordOutcome id (.transferCommitted id ds) legs (fuel + 1))
      (fun _ s => Wrote w id [.transferCommitted id ds] (legTokens legs) s.1 ∧ s.2 = log)
      (w, log) :=
  Returns.noted unasking_unnoted (recordOutcome_alone h.named h.outcomes.2 hkept hfits)
    (recordOutcome_obeys unasking_lenient trivial w (fuel + 1)) log

/-- `settle`: a refusal fails the Transfer if it is of the first chain, and is an error
after that. -/
theorem settle_heard {Q : Except Err Bool → World × List Exchange → Prop} (hrule : Answers rule)
    (h : Committing w id seq posting)
    (hsteady : Steady rule w (batch.flatMap fun t => [t.debitAccountID, t.creditAccountID])
      (chains batch))
    (hok : (heard rule w.ledger (chains batch)).all Exchange.accepted = true →
      Q (.ok false) (after rule w (chains batch), log ++ heard rule w.ledger (chains batch)))
    (hfirst : ∀ chain unsent reason w', chains batch = chain :: unsent →
      Refused rule w [] chain →
      eventsOf (w'.transfer id) = eventsOf (w.transfer id) ++ [.transferFailed id reason] →
      Q (.ok true) (w', log ++ heard rule w.ledger [chain]))
    (hlater : ∀ sent chain unsent e w', chains batch = sent ++ chain :: unsent → sent ≠ [] →
      Refused rule w sent chain → (∀ i, w'.transfer i = w.transfer i) →
      Q (.error e) (w', log ++ heard rule w.ledger (sent ++ [chain]))) :
    Yields (Observed rule) (settle (fuel + 1) id seq batch) Q (w, log) := by
  refine Yields.bind (submitChains_heard hrule hsteady hok ?_)
  intro sent chain unsent refusal w' hchains href hc hw'
  rw [Nat.zero_add] at hc
  cases sent with
  | nil =>
    rw [if_neg (by rw [hc]; exact Nat.lt_irrefl 0)]
    refine Ends.mono (h.of_transfer (hw' id)).compensate fun r s hr => ?_
    obtain ⟨_, rfl, hwrote, hlog⟩ := hr
    obtain ⟨w1, log1⟩ := s
    obtain rfl := hlog
    have hevents := hwrote.events
    rw [hw'] at hevents
    exact hfirst chain unsent _ w1 hchains href hevents
  | cons first sent =>
    rw [if_pos (by rw [hc]; exact Nat.succ_pos _)]
    exact hlater (first :: sent) chain unsent _ w' hchains (List.cons_ne_nil _ _) href hw'

/-- The requests of one commit, were all of them accepted. -/
def commitRequests (legs : List TransferLeg) (posting : Bool) : List (List LedgerTransfer) :=
  reservingChains legs posting ++ settlingChains legs posting

/-- How a commit ends, by what the ledger answered. -/
inductive Ended (rule : LedgerRule) (w : World) (id : Id) (legs : List TransferLeg)
    (posting : Bool) : Except Err Unit → World × List Exchange → Prop
  | committed {w' : World}
      (hall : (heard rule w.ledger (commitRequests legs posting)).all Exchange.accepted = true)
      (hevents : eventsOf (w'.transfer id) = eventsOf (w.transfer id) ++
        [.transferCommitted id (buildDestinations legs)]) :
      Ended rule w id legs posting (.ok ())
        (w', heard rule w.ledger (commitRequests legs posting))
  | failed {w' : World} {sent unsent : List (List LedgerTransfer)} {chain : List LedgerTransfer}
      {reason : Text} (hrequests : commitRequests legs posting = sent ++ chain :: unsent)
      (hrefused : Refused rule w sent chain)
      (hunposted : sent.length ≤ (reservingChains legs posting).length)
      (hevents : eventsOf (w'.transfer id) = eventsOf (w.transfer id) ++
        [.transferFailed id reason]) :
      Ended rule w id legs posting (.ok ()) (w', heard rule w.ledger (sent ++ [chain]))
  | partly {w' : World} {sent unsent : List (List LedgerTransfer)} {chain : List LedgerTransfer}
      {e : Err} (hrequests : commitRequests legs posting = sent ++ chain :: unsent)
      (hrefused : Refused rule w sent chain)
      (hposted : (reservingChains legs posting).length < sent.length)
      (hsame : ∀ i, w'.transfer i = w.transfer i) :
      Ended rule w id legs posting (.error e) (w', heard rule w.ledger (sent ++ [chain]))

theorem Refused.after {before : List (List LedgerTransfer)}
    (hbefore : (heard rule w.ledger before).all Exchange.accepted = true)
    (h : Refused rule (after rule w before) sent chain) :
    Refused rule w (before ++ sent) chain where
  before := by rw [heard_append, List.all_append, hbefore, h.before, Bool.and_self]
  refused := by
    rw [after_append]
    exact h.refused

/-- What `moveMoney` leaves: money moved by every chain, or the commit's end. -/
def MoneyMoved (rule : LedgerRule) (w : World) (id : Id) (legs : List TransferLeg) (posting : Bool)
    (r : Except Err Bool) (s : World × List Exchange) : Prop :=
  match r with
  | .ok false => s = (after rule w (commitRequests legs posting),
      heard rule w.ledger (commitRequests legs posting)) ∧
      (heard rule w.ledger (commitRequests legs posting)).all Exchange.accepted = true
  | .ok true => Ended rule w id legs posting (.ok ()) s
  | .error e => Ended rule w id legs posting (.error e) s

theorem touched_map {f : TransferLeg → LedgerTransfer}
    (hf : ∀ leg, (f leg).debitAccountID = leg.sourceTokenID ∧
      (f leg).creditAccountID = leg.destTokenID) (legs : List TransferLeg) :
    ((legs.map f).flatMap fun t => [t.debitAccountID, t.creditAccountID]) = legTokens legs := by
  simp [legTokens, List.flatMap_map, hf]

theorem touched_settles (legs legs' : List TransferLeg) (posting : Bool) :
    ((legs.map (settles legs' posting)).flatMap fun t => [t.debitAccountID, t.creditAccountID]) =
      legTokens legs := by
  refine touched_map (fun leg => ?_) legs
  unfold settles
  split <;> exact ⟨rfl, rfl⟩

/-- The money-moving part of a commit whose reservations, if it makes any, stand. -/
theorem settle_ended (hrule : Answers rule) (h : Committing w id seq posting)
    (hreserved : (heard rule w.ledger (reservingChains legs posting)).all Exchange.accepted = true)
    (hsteady : Steady rule w (legTokens legs) (commitRequests legs posting)) :
    Yields (Observed rule) (settle (fuel + 1) id seq (legs.map (settles legs posting)))
      (MoneyMoved rule w id legs posting)
      (after rule w (reservingChains legs posting),
        heard rule w.ledger (reservingChains legs posting)) := by
  have hsame : (after rule w (reservingChains legs posting)).transfer id = w.transfer id :=
    after_transfer w _ id
  refine settle_heard hrule (h.of_transfer hsame) ?_ (fun hall => ?_) ?_ ?_
  · rw [touched_settles]
    exact hsteady.drop
  · refine ⟨?_, ?_⟩
    · rw [commitRequests, after_append, heard_append]
      rfl
    · rw [commitRequests, heard_append, List.all_append, hreserved]
      exact hall
  · intro chain unsent reason w' hchains href hevents
    have hrequests : commitRequests legs posting =
        reservingChains legs posting ++ chain :: unsent := by
      rw [commitRequests, settlingChains, hchains]
    rw [← heard_append]
    have hrefused := href.after hreserved
    rw [List.append_nil] at hrefused
    exact .failed hrequests hrefused le_rfl (by rw [hevents, hsame])
  · intro sent chain unsent e w' hchains hne href hw'
    have hrequests : commitRequests legs posting =
        (reservingChains legs posting ++ sent) ++ chain :: unsent := by
      rw [commitRequests, settlingChains, hchains, List.append_assoc]
    rw [← heard_append, ← List.append_assoc]
    refine .partly hrequests (href.after hreserved) ?_ fun i => ?_
    · have hpos : 0 < sent.length := List.length_pos_iff.mpr hne
      rw [List.length_append]
      omega
    · rw [hw', after_transfer]

theorem settle_unreserved (hrule : Answers rule) (h : Committing w id seq posting)
    (hnone : reservingChains legs posting = [])
    (hsteady : Steady rule w (legTokens legs) (commitRequests legs posting)) :
    Yields (Observed rule) (settle (fuel + 1) id seq (legs.map (settles legs posting)))
      (MoneyMoved rule w id legs posting) (w, []) := by
  have hsettle : Yields (Observed rule) (settle (fuel + 1) id seq _) _ _ :=
    settle_ended hrule h (by rw [hnone]; rfl) hsteady
  rw [hnone] at hsettle
  exact hsettle

theorem moveMoney_ended (hrule : Answers rule) (h : Committing w id seq posting)
    (hsteady : Steady rule w (legTokens legs) (commitRequests legs posting)) :
    Yields (Observed rule) (moveMoney (fuel + 1) id seq legs posting)
      (MoneyMoved rule w id legs posting) (w, []) := by
  unfold moveMoney
  by_cases hposting : posting = true
  · -- what was staged is posted
    have hnone : reservingChains legs posting = [] := if_pos (Or.inl hposting)
    have hposts : legs.map (settles legs posting) = posts legs := by
      rw [settles, if_pos (Or.inl hposting), posts]
    rw [if_pos hposting, ← hposts]
    exact settle_unreserved hrule h hnone hsteady
  · rw [if_neg hposting]
    by_cases hlen : legs.length ≤ batchMax
    · -- one chain of movements
      have hnone : reservingChains legs posting = [] := if_pos (Or.inr hlen)
      have hmoves : legs.map (settles legs posting) = movements legs := by
        rw [settles, if_neg (not_or.mpr ⟨hposting, Nat.not_lt.mpr hlen⟩), movements]
      rw [if_pos hlen, ← hmoves]
      exact settle_unreserved hrule h hnone hsteady
    · -- every leg is reserved first
      have hchains : reservingChains legs posting = chains (reservations legs) :=
        if_neg (not_or.mpr ⟨hposting, hlen⟩)
      have hposts : legs.map (settles legs posting) = posts legs := by
        rw [settles, if_pos (Or.inr (Nat.not_le.mp hlen)), posts]
      have hreserve : Steady rule w (legTokens legs) (chains (reservations legs)) := by
        intro sent hsent
        rw [← hchains] at hsent
        exact hsteady sent (hsent.trans (List.prefix_append _ _))
      rw [if_neg hlen]
      refine Yields.bind (submitChains_heard hrule ?_ (fun hall => ?_) ?_)
      · rw [reservations, touched_map (fun _ => ⟨rfl, rfl⟩)]
        exact hreserve
      · refine Yields.seq (h.of_transfer (after_transfer w _ id)).stillHoldsClaim fun r s hr => ?_
        obtain ⟨w1, log1⟩ := s
        obtain ⟨⟨rfl, rfl⟩, rfl⟩ := hr
        have hsettle : Yields (Observed rule) (settle (fuel + 1) id seq _) _ _ :=
          settle_ended hrule h (by rw [hchains]; exact hall) hsteady
        rw [hchains, hposts] at hsettle
        exact hsettle
      · intro sent chain unsent refusal w' hsent href _ hw'
        refine Ends.mono (h.of_transfer (hw' id)).compensate fun r s hr => ?_
        obtain ⟨_, rfl, hwrote, hlog⟩ := hr
        obtain ⟨w1, log1⟩ := s
        obtain rfl := hlog
        have hrequests : commitRequests legs posting =
            sent ++ chain :: (unsent ++ settlingChains legs posting) := by
          rw [commitRequests, hchains, hsent, List.append_assoc, List.cons_append]
        have hunposted : sent.length ≤ (reservingChains legs posting).length := by
          rw [hchains, hsent, List.length_append]
          exact Nat.le_add_right _ _
        exact .failed hrequests href hunposted (by rw [hwrote.events, hw'])

/-- **A commit and what the ledger answered it.** -/
theorem commitClaimed_ended (hrule : Answers rule) (h : Committing w id seq posting)
    (hsteady : Steady rule w (legTokens legs) (commitRequests legs posting)) :
    Yields (Observed rule) (commitClaimed (fuel + 1) id seq legs posting)
      (Ended rule w id legs posting) (w, []) := by
  refine Yields.seq h.stillHoldsClaim fun r s hr => ?_
  obtain ⟨w1, log1⟩ := s
  obtain ⟨⟨rfl, rfl⟩, rfl⟩ := hr
  refine Yields.bind ((moveMoney_ended hrule h hsteady).mono fun r s hr => ?_)
  cases r with
  | error e => exact hr
  | ok handled =>
    cases handled with
    | true => exact hr
    | false =>
      obtain ⟨rfl, hall⟩ := hr
      have hafter : Committing (after rule w1 (commitRequests legs posting)) id seq posting :=
        h.of_transfer (after_transfer w1 _ id)
      refine Yields.seq hafter.stillHoldsClaim fun r s hr => ?_
      obtain ⟨w2, log2⟩ := s
      obtain ⟨⟨rfl, rfl⟩, rfl⟩ := hr
      have htoks := hsteady _ List.prefix_rfl
      refine Ends.mono (hafter.recordOutcome (fun tok ht => (htoks tok ht).1)
        fun tok ht => (htoks tok ht).2) fun r s hr => ?_
      obtain ⟨_, rfl, hwrote, hlog⟩ := hr
      obtain ⟨w3, log3⟩ := s
      obtain rfl := hlog
      exact .committed hall (by rw [hwrote.events, after_transfer])

/-- One of the requests was refused. -/
def AnyRefused (log : List Exchange) : Prop := ∃ x ∈ log, x.accepted = false

/-- A commit posts a prefix of whole chains, and fails only if nothing posted. -/
structure WholeChains (w : World) (id : Id) (legs : List TransferLeg) (posting : Bool)
    (r : Except Err Unit) (s : World × List Exchange) : Prop where
  requests : s.2.map Prod.fst <+: commitRequests legs posting
  applied : ∀ x ∈ s.2.dropLast, x.accepted = true
  stopped : s.2.map Prod.fst ≠ commitRequests legs posting → AnyRefused s.2
  failed : (∃ reason, eventsOf (s.1.transfer id) =
      eventsOf (w.transfer id) ++ [.transferFailed id reason]) ↔
    AnyRefused s.2 ∧ s.2.length ≤ (reservingChains legs posting).length + 1
  partly : AnyRefused s.2 → (reservingChains legs posting).length + 1 < s.2.length →
    (∃ e, r = .error e) ∧ ∀ i, s.1.transfer i = w.transfer i
  committed : ¬ AnyRefused s.2 → r = .ok () ∧ eventsOf (s.1.transfer id) =
    eventsOf (w.transfer id) ++ [.transferCommitted id (buildDestinations legs)]

theorem not_anyRefused (h : log.all Exchange.accepted = true) : ¬ AnyRefused log := by
  rintro ⟨x, hx, hrefused⟩
  rw [List.all_eq_true.mp h x hx] at hrefused
  exact Bool.false_ne_true hrefused.symm

theorem Refused.last (h : Refused rule w sent chain) :
    (∀ x ∈ (heard rule w.ledger (sent ++ [chain])).dropLast, x.accepted = true) ∧
      AnyRefused (heard rule w.ledger (sent ++ [chain])) := by
  have hlast : heard rule w.ledger (sent ++ [chain]) = heard rule w.ledger sent ++
      [(chain, (rule (Transfer.after rule w sent).ledger chain).1)] := heard_append w sent [chain]
  rw [hlast, List.dropLast_concat]
  exact ⟨List.all_eq_true.mp h.before, _, List.mem_append_right _ List.mem_cons_self, h.refused⟩

@[simp] theorem heard_length (l : Ledger) (requests : List (List LedgerTransfer)) :
    (heard rule l requests).length = requests.length := by
  rw [← List.length_map (f := Prod.fst), heard_requests]

theorem Ended.wholeChains {r : Except Err Unit} {s : World × List Exchange}
    (h : Ended rule w id legs posting r s) : WholeChains w id legs posting r s := by
  cases h with
  | committed hall hevents =>
    have hnone := not_anyRefused hall
    refine ⟨by simp, fun x hx => ?_, fun hne => ?_, ?_, fun hany => absurd hany hnone,
      fun _ => ⟨rfl, hevents⟩⟩
    · exact List.all_eq_true.mp hall x (List.mem_of_mem_dropLast hx)
    · exact absurd (heard_requests _ _) hne
    · refine ⟨fun ⟨reason, hfailed⟩ => ?_, fun hany => absurd hany.1 hnone⟩
      rw [hevents] at hfailed
      simp at hfailed
  | @failed w' sent unsent chain reason hrequests hrefused hunposted hevents =>
    obtain ⟨happlied, hany⟩ := hrefused.last
    refine ⟨?_, happlied, fun _ => hany, ?_, fun _ hlt => ?_, fun hnone => absurd hany hnone⟩
    · rw [heard_requests, hrequests]
      exact ⟨unsent, by simp⟩
    · refine ⟨fun _ => ⟨hany, ?_⟩, fun _ => ⟨reason, hevents⟩⟩
      simpa using hunposted
    · simp only [heard_length, List.length_append, List.length_singleton] at hlt
      omega
  | @partly w' sent unsent chain e hrequests hrefused hposted hsame =>
    obtain ⟨happlied, hany⟩ := hrefused.last
    refine ⟨?_, happlied, fun _ => hany, ?_, fun _ _ => ⟨⟨e, rfl⟩, hsame⟩,
      fun hnone => absurd hany hnone⟩
    · rw [heard_requests, hrequests]
      exact ⟨unsent, by simp⟩
    · refine ⟨fun ⟨reason, hfailed⟩ => ?_, fun hle => ?_⟩
      · rw [show w'.transfer id = w.transfer id from hsame id] at hfailed
        simp at hfailed
      · have hlen := hle.2
        simp only [heard_length, List.length_append, List.length_singleton] at hlen
        omega

/-- **A wide Transfer posts a prefix of whole chains, and fails only if nothing
posted.** -/
theorem wide_commit_posts_whole_chains (hrule : Answers rule) (h : Committing w id seq posting)
    (hsteady : Steady rule w (legTokens legs) (commitRequests legs posting)) :
    (reservingChains legs posting = [] ∨
        Sliced reservation legs (reservingChains legs posting)) ∧
      Sliced (settles legs posting) legs (settlingChains legs posting) ∧
      Yields (Observed rule) (commitClaimed (fuel + 1) id seq legs posting)
        (WholeChains w id legs posting) (w, []) := by
  refine ⟨?_, chains_sliced _ legs, ?_⟩
  · unfold reservingChains
    split
    · exact Or.inl rfl
    · exact Or.inr (chains_sliced reservation legs)
  · exact (commitClaimed_ended hrule h hsteady).mono fun _ _ hended => hended.wholeChains

/-- A ledger that takes full chains only. -/
def fullChainsOnly : LedgerRule := fun l ts =>
  (.ok (ts.map fun _ => if ts.length = batchMax then .ok else .exceedsCredits), l)

theorem after_fullChainsOnly (w : World) (requests : List (List LedgerTransfer)) :
    after fullChainsOnly w requests = w := by
  induction requests generalizing w with
  | nil => rfl
  | cons chain rest ih => exact ih w

/-- 100 are brought in to Wallet `uuid 1`, and a Transfer of 40 out of it is prepared;
its driver stops with the claim of its commit taken. -/
def claimTaken : List (Move anyRun) :=
  inTurn 0 (deposit ++ [.openWallet ⟨.uuid 4, .uuid 100, "payee", .none⟩,
    .requestTransfer ⟨.uuid 5, .uuid 1, .uuid 4, some ⟨40, "USD"⟩, false, false, Id.empty⟩]) ++
  [start (.resumeTransfer (.uuid 5)) 20, .run 8 9]

/-- One leg more than a chain takes. -/
def wideLegs : List TransferLeg := List.replicate (batchMax + 1)
  ⟨.destinationToken (.uuid 3), .destinationToken (.uuid 5), ⟨40, "USD"⟩, .v7 1⟩

theorem wide_commit_of_full_chains :
    let w := (played claimTaken).state
    Committing w (.uuid 5) 3 false ∧
      Yields (Observed fullChainsOnly) (commitClaimed 1 (.uuid 5) 3 wideLegs false)
        (WholeChains w (.uuid 5) wideLegs false) (w, []) := by
  intro w
  have hkept (tok : Id) (hne : tok ≠ Id.empty)
      (hs : (Token.tokenStreamOf tok (w.token tok)).toOption.isSome = true)
      (ha : (w.ledger.accounts tok).isSome = true) : Token.Kept w tok := by
    refine ⟨hne, ?_, ha⟩
    cases hstream : Token.tokenStreamOf tok (w.token tok) with
    | ok stream => exact ⟨stream, rfl⟩
    | error e =>
      rw [hstream] at hs
      cases hs
  have hclaimed : Committing w (.uuid 5) 3 false := by
    refine ⟨by decide, ?_, by decide +kernel⟩
    have hlive : (liveMarker (w.transfer (.uuid 5))).map Row.sequence = some 3 := by decide +kernel
    exact Option.map_eq_some_iff.mp hlive
  have hsteady : Steady fullChainsOnly w (legTokens wideLegs) (commitRequests wideLegs false) := by
    intro sent _ tok htok
    rw [after_fullChainsOnly]
    obtain ⟨leg, hleg, hm⟩ := List.mem_flatMap.mp htok
    obtain rfl := List.eq_of_mem_replicate hleg
    simp only [List.mem_cons, List.not_mem_nil, or_false] at hm
    rcases hm with rfl | rfl
    · refine ⟨hkept _ (by decide) (by decide +kernel) (by decide +kernel), ?_⟩
      unfold Token.Fits
      decide +kernel
    · refine ⟨hkept _ (by decide) (by decide +kernel) (by decide +kernel), ?_⟩
      unfold Token.Fits
      decide +kernel
  have hrule : Answers fullChainsOnly := fun _ _ _ he => nomatch (show Except.ok _ = _ from he)
  exact ⟨hclaimed, (wide_commit_posts_whole_chains hrule hclaimed hsteady).2.2⟩

end MoneyFlow.Transfer
