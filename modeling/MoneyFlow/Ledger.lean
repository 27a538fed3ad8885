import MoneyFlow.Shared

/-!
# MoneyFlow.Ledger

TigerBeetle as `ledger.FakeClient` keeps it: accounts with their four running
totals, transfers by id, and pending reservations that are posted or voided
once.

Beyond `FakeClient`, the ledger remembers the ids it has refused and refuses
them again (`Ledger.refused`), which is what TigerBeetle itself does with the
id of a transfer that failed for a transient reason. An id refused only because
another entry of its linked chain failed is not remembered. `FakeClient` as it
is, without that memory, is `Ledger.fakeClient`.

Totals are `uint64` and wrap, as in `FakeClient`. TigerBeetle keeps them in 128
bits and refuses what would overflow them, and `RealClient` answers an error for
an account whose totals exceed `uint64`. So the model is `FakeClient` in its
arithmetic and TigerBeetle in what it remembers: a result that needs the totals
not to wrap assumes it (`Transfer.NoOverflow`), and one that rests on the memory
speaks of runs against TigerBeetle.
-/

namespace MoneyFlow

/-- `ledger.BatchMax`: the most transfers one request may carry. -/
def batchMax : Nat := 253

/-! ### Accounts -/

/-- `ledger.AccountFlags`. -/
structure AccountFlags where
  linked : Bool := false
  creditsMustNotExceedDebits : Bool := false
  debitsMustNotExceedCredits : Bool := false
  deriving DecidableEq, Repr

/-- `ledger.Account`: an account to create, backing one Token. -/
structure Account where
  id : Id
  currency : String
  flags : AccountFlags
  deriving DecidableEq, Repr

/-- `ledger.AccountResultCode`. -/
inductive AccountResultCode
  | ok
  | existsAlready
  | existsWithDifferentFlags
  | linkedEventFailed
  | invalid
  deriving DecidableEq, Repr

/-- `AccountResultCode.String`. -/
def AccountResultCode.string : AccountResultCode → String
  | ok => "ok"
  | existsAlready => "exists"
  | existsWithDifferentFlags => "exists_with_different_flags"
  | linkedEventFailed => "linked_event_failed"
  | invalid => "invalid"

/-- `ledger.storedAccount`: identity and running totals. -/
structure StoredAccount where
  currency : String
  creditsMustNotExceedDebits : Bool
  debitsMustNotExceedCredits : Bool
  debitsPosted : UInt64 := 0
  creditsPosted : UInt64 := 0
  debitsPending : UInt64 := 0
  creditsPending : UInt64 := 0
  deriving DecidableEq, Repr

/-- `storedAccount.matches`. -/
def StoredAccount.matches (a : StoredAccount) (other : Account) : Bool :=
  a.currency == other.currency &&
    a.creditsMustNotExceedDebits == other.flags.creditsMustNotExceedDebits &&
    a.debitsMustNotExceedCredits == other.flags.debitsMustNotExceedCredits

/-- The account a creation request stores. -/
def StoredAccount.of (a : Account) : StoredAccount where
  currency := a.currency
  creditsMustNotExceedDebits := a.flags.creditsMustNotExceedDebits
  debitsMustNotExceedCredits := a.flags.debitsMustNotExceedCredits

/-- `ledger.LedgerID`: the currencies the ledger knows. -/
def ledgerID : String → Option Nat
  | "USD" => some 1
  | _ => none

/-! ### Transfers -/

/-- `ledger.TransferKind`. -/
inductive TransferKind
  | unspecified
  | regular
  | pending
  | postPending
  | voidPending
  deriving DecidableEq, Repr

/-- `ledger.Transfer`: one transfer to submit. -/
structure LedgerTransfer where
  id : Id
  debitAccountID : Id
  creditAccountID : Id
  minorUnits : UInt64
  currency : String
  linked : Bool := false
  kind : TransferKind
  pendingID : Id := Id.empty
  timeout : Nat := 0
  deriving DecidableEq, Repr

/-- `ledger.TransferResultCode`. -/
inductive TransferResultCode
  | ok
  | existsAlready
  | existsWithDifferentFields
  | exceedsCredits
  | exceedsDebits
  | linkedEventFailed
  | pendingTransferNotFound
  | accountNotFound
  | invalid
  deriving DecidableEq, Repr

namespace TransferResultCode

/-- `TransferResultCode.String`. -/
def string : TransferResultCode → String
  | ok => "ok"
  | existsAlready => "exists"
  | existsWithDifferentFields => "exists_with_different_fields"
  | exceedsCredits => "exceeds_credits"
  | exceedsDebits => "exceeds_debits"
  | linkedEventFailed => "linked_event_failed"
  | pendingTransferNotFound => "pending_transfer_not_found"
  | accountNotFound => "account_not_found"
  | invalid => "invalid"

/-- An entry its caller may treat as applied. -/
def accepted (r : TransferResultCode) : Bool := r == ok || r == existsAlready

end TransferResultCode

/-- `ledger.storedTransfer`. -/
structure StoredTransfer where
  debitAccountID : Id
  creditAccountID : Id
  minorUnits : UInt64
  currency : String
  kind : TransferKind
  pendingID : Id
  deriving DecidableEq, Repr

/-- `ledger.newStoredTransfer`. -/
def StoredTransfer.of (t : LedgerTransfer) : StoredTransfer where
  debitAccountID := t.debitAccountID
  creditAccountID := t.creditAccountID
  minorUnits := t.minorUnits
  currency := t.currency
  kind := t.kind
  pendingID := t.pendingID

/-- `ledger.pendingStatus`. -/
inductive PendingStatus
  | open
  | posted
  | voided
  deriving DecidableEq, Repr

/-- `ledger.pendingRecord`. -/
structure PendingRecord where
  debitAccountID : Id
  creditAccountID : Id
  minorUnits : UInt64
  status : PendingStatus
  deriving DecidableEq, Repr

/-- The ledger: accounts, transfers in the order they were applied,
reservations, and the ids refused so far. -/
structure Ledger where
  accounts : Id → Option StoredAccount
  transfers : List (Id × StoredTransfer)
  pending : Id → Option PendingRecord
  refused : List Id

variable {l : Ledger}

namespace Ledger

/-- The ledger before anything happened. -/
def empty : Ledger where
  accounts _ := none
  transfers := []
  pending _ := none
  refused := []

/-! ### Linked chains -/

/-- `ledger.checkBatchSize`. -/
def checkBatchSize (n : Nat) : Except Err Unit :=
  if batchMax < n then
    .error (.invalidRequest
      [.lit ": batch exceeds BatchMax (", .num batchMax, .lit "): got ", .num n])
  else .ok ()

/-- The maximal linked runs of a batch: a run goes on through every linked
entry and ends with the first unlinked one. `none` when the batch ends inside
a run. -/
def splitRuns {α : Type} (isLinked : α → Bool) : List α → Option (List (List α))
  | [] => some []
  | x :: xs =>
    match splitRuns isLinked xs with
    | none => none
    | some runs =>
      if isLinked x then
        match runs with
        | [] => none
        | run :: rest => some ((x :: run) :: rest)
      else some ([x] :: runs)

/-- `ledger.linkedRuns`. -/
def linkedRuns {α : Type} (isLinked : α → Bool) (xs : List α) : Except Err (List (List α)) :=
  match splitRuns isLinked xs with
  | none => .error (.invalidRequest [.lit ": batch's last entry has Linked set"])
  | some runs => .ok runs

/-! ### `CreateAccounts` -/

/-- The outcome of one account of a run, before the run is known to succeed. -/
def judgeAccount (l : Ledger) (a : Account) : AccountResultCode :=
  match l.accounts a.id with
  | some existing => if existing.matches a then .existsAlready else .existsWithDifferentFlags
  | none => if (ledgerID a.currency).isSome then .ok else .invalid

/-- `c.accounts[a.ID] = storedAccount{…}`. -/
def putAccount (m : Id → Option StoredAccount) (a : Account) : Id → Option StoredAccount :=
  Function.update m a.id (some (.of a))

/-- Store the accounts of a run that are new. All were judged before any is
stored, so of a repeated id the last stays. -/
def storeAccounts (l : Ledger) (run : List Account) : Ledger :=
  { l with
    accounts := (run.filter fun a => (l.accounts a.id).isNone).foldl putAccount l.accounts }

/-- One linked run of `CreateAccounts`: all of it or none. -/
def createAccountRun (l : Ledger) (run : List Account) : List AccountResultCode × Ledger :=
  let outcomes := run.map l.judgeAccount
  if outcomes.all fun r => r == .ok || r == .existsAlready then
    (outcomes, l.storeAccounts run)
  else
    (outcomes.map fun r => if r = .ok then .linkedEventFailed else r, l)

/-- Run after run. -/
def createAccountRuns (l : Ledger) : List (List Account) → List AccountResultCode × Ledger
  | [] => ([], l)
  | run :: rest =>
    let (rs, l1) := l.createAccountRun run
    let (rs', l2) := l1.createAccountRuns rest
    (rs ++ rs', l2)

/-- `FakeClient.CreateAccounts`. -/
def createAccounts (l : Ledger) (accounts : List Account) :
    Except Err (List AccountResultCode) × Ledger :=
  match checkBatchSize accounts.length with
  | .error e => (.error e, l)
  | .ok () =>
    match linkedRuns (·.flags.linked) accounts with
    | .error e => (.error e, l)
    | .ok runs => (.ok (l.createAccountRuns runs).1, (l.createAccountRuns runs).2)

/-! ### `CreateTransfers` -/

/-- Tentative totals and reservation states of one run, so that a later entry
sees the effect of an earlier one before anything is committed. -/
structure Shadow where
  accounts : Id → Option StoredAccount
  pendingStatus : Id → Option PendingStatus

/-- What a run starts from. -/
def shadow (l : Ledger) : Shadow where
  accounts := l.accounts
  pendingStatus id := (l.pending id).map PendingRecord.status

/-- Whether `t` posts or voids a reservation that is open and has `t`'s own
accounts and amount. -/
def matchesPending (l : Ledger) (sh : Shadow) (t : LedgerTransfer) : Bool :=
  match sh.pendingStatus t.pendingID, l.pending t.pendingID with
  | some status, some rec =>
    status == .open && rec.debitAccountID == t.debitAccountID &&
      rec.creditAccountID == t.creditAccountID && rec.minorUnits == t.minorUnits
  | _, _ => false

/-- The totals of the two accounts once `t` is applied. -/
def moveTotals (t : LedgerTransfer) (debit credit : StoredAccount) :
    StoredAccount × StoredAccount :=
  match t.kind with
  | .unspecified => (debit, credit)
  | .regular =>
    ({ debit with debitsPosted := debit.debitsPosted + t.minorUnits },
      { credit with creditsPosted := credit.creditsPosted + t.minorUnits })
  | .pending =>
    ({ debit with debitsPending := debit.debitsPending + t.minorUnits },
      { credit with creditsPending := credit.creditsPending + t.minorUnits })
  | .postPending =>
    ({ debit with
        debitsPending := debit.debitsPending - t.minorUnits
        debitsPosted := debit.debitsPosted + t.minorUnits },
      { credit with
        creditsPending := credit.creditsPending - t.minorUnits
        creditsPosted := credit.creditsPosted + t.minorUnits })
  | .voidPending =>
    ({ debit with debitsPending := debit.debitsPending - t.minorUnits },
      { credit with creditsPending := credit.creditsPending - t.minorUnits })

/-- The reservation states once `t` is applied. -/
def moveStatus (t : LedgerTransfer) (status : Id → Option PendingStatus) :
    Id → Option PendingStatus :=
  match t.kind with
  | .postPending => Function.update status t.pendingID (some .posted)
  | .voidPending => Function.update status t.pendingID (some .voided)
  | _ => status

/-- The debit account is capped by its credits and past them. -/
def exceedsCredits (debit : StoredAccount) : Bool :=
  debit.debitsMustNotExceedCredits &&
    debit.creditsPosted + debit.creditsPending < debit.debitsPosted + debit.debitsPending

/-- The credit account is capped by its debits and past them. -/
def exceedsDebits (credit : StoredAccount) : Bool :=
  credit.creditsMustNotExceedDebits &&
    credit.debitsPosted + credit.debitsPending < credit.creditsPosted + credit.creditsPending

/-- The outcome of one transfer of a run, and the tentative state after it. -/
def judge (l : Ledger) (sh : Shadow) (t : LedgerTransfer) : TransferResultCode × Shadow :=
  match l.transfers.lookup t.id with
  | some existing =>
    (if existing = .of t then .existsAlready else .existsWithDifferentFields, sh)
  | none =>
    if t.id ∈ l.refused then (.invalid, sh)
    else
      match sh.accounts t.debitAccountID, sh.accounts t.creditAccountID with
      | some debit, some credit =>
        if (t.kind == .postPending || t.kind == .voidPending) && !l.matchesPending sh t then
          (.pendingTransferNotFound, sh)
        else
          let moved := moveTotals t debit credit
          let status := moveStatus t sh.pendingStatus
          if exceedsCredits moved.1 then (.exceedsCredits, { sh with pendingStatus := status })
          else if exceedsDebits moved.2 then (.exceedsDebits, { sh with pendingStatus := status })
          else
            (.ok,
              { accounts := Function.update
                  (Function.update sh.accounts t.debitAccountID (some moved.1))
                  t.creditAccountID (some moved.2)
                pendingStatus := status })
      | _, _ => (.accountNotFound, sh)

/-- The outcomes of a run, and the tentative state after it. -/
def judgeRun (l : Ledger) : Shadow → List LedgerTransfer → List TransferResultCode × Shadow
  | sh, [] => ([], sh)
  | sh, t :: ts =>
    ((l.judge sh t).1 :: (l.judgeRun (l.judge sh t).2 ts).1, (l.judgeRun (l.judge sh t).2 ts).2)

/-- Record a freshly applied transfer. -/
def commit (l : Ledger) (t : LedgerTransfer) : Ledger :=
  { l with
    transfers := l.transfers ++ [(t.id, .of t)]
    pending :=
      match t.kind with
      | .unspecified | .regular => l.pending
      | .pending => Function.update l.pending t.id (some
          { debitAccountID := t.debitAccountID, creditAccountID := t.creditAccountID,
            minorUnits := t.minorUnits, status := .open })
      | .postPending => Function.update l.pending t.pendingID
          ((l.pending t.pendingID).map fun rec => { rec with status := .posted })
      | .voidPending => Function.update l.pending t.pendingID
          ((l.pending t.pendingID).map fun rec => { rec with status := .voided }) }

/-- The transfers of a run that were applied just now. -/
def fresh (run : List LedgerTransfer) (outcomes : List TransferResultCode) :
    List LedgerTransfer :=
  ((run.zip outcomes).filter fun p => p.2 == .ok).map Prod.fst

/-- The ids of a run refused on their own account. -/
def refusedIDs (run : List LedgerTransfer) (outcomes : List TransferResultCode) : List Id :=
  ((run.zip outcomes).filter fun p => !p.2.accepted && p.2 != .existsWithDifferentFields).map
    fun p => p.1.id

/-- One linked run of `CreateTransfers`: all of it or none. -/
def createTransferRun (l : Ledger) (run : List LedgerTransfer) :
    List TransferResultCode × Ledger :=
  let judged := l.judgeRun l.shadow run
  if judged.1.all TransferResultCode.accepted then
    (judged.1, { (fresh run judged.1).foldl commit l with accounts := judged.2.accounts })
  else
    (judged.1.map fun r => if r = .ok then .linkedEventFailed else r,
      { l with refused := l.refused ++ refusedIDs run judged.1 })

/-- Run after run. -/
def createTransferRuns (l : Ledger) :
    List (List LedgerTransfer) → List TransferResultCode × Ledger
  | [] => ([], l)
  | run :: rest =>
    ((l.createTransferRun run).1 ++ ((l.createTransferRun run).2.createTransferRuns rest).1,
      ((l.createTransferRun run).2.createTransferRuns rest).2)

/-- `FakeClient.CreateTransfers`. -/
def createTransfers (l : Ledger) (transfers : List LedgerTransfer) :
    Except Err (List TransferResultCode) × Ledger :=
  match checkBatchSize transfers.length with
  | .error e => (.error e, l)
  | .ok () =>
    match linkedRuns (·.linked) transfers with
    | .error e => (.error e, l)
    | .ok runs => (.ok (l.createTransferRuns runs).1, (l.createTransferRuns runs).2)

/-! ### Balances -/

/-- `ledger.Balance`. -/
structure Balance where
  currency : String
  debitsPosted : UInt64
  creditsPosted : UInt64
  debitsPending : UInt64
  creditsPending : UInt64
  deriving DecidableEq, Repr

/-- `FakeClient.Balances`: an account that does not exist is absent. -/
def balances (l : Ledger) (ids : List Id) : Id → Option Balance := fun id =>
  if id ∈ ids then
    (l.accounts id).map fun a =>
      { currency := a.currency, debitsPosted := a.debitsPosted, creditsPosted := a.creditsPosted,
        debitsPending := a.debitsPending, creditsPending := a.creditsPending }
  else none

/-- `math.MaxInt64`. -/
def maxInt64 : Nat := 2 ^ 63 - 1

/-- `Balance.PostedNet`: posted credits minus posted debits. -/
def Balance.postedNet (b : Balance) : Except Err Int :=
  if maxInt64 < b.creditsPosted.toNat ∨ maxInt64 < b.debitsPosted.toNat then
    .error (.plain [.lit "ledger: posted totals ", .num b.creditsPosted.toNat, .lit "/",
      .num b.debitsPosted.toNat, .lit " overflow int64"])
  else .ok ((b.creditsPosted.toNat : Int) - b.debitsPosted.toNat)

/-! ### What a request does -/

/-- The policy of each account of `m` is the policy it has in `m'`. -/
def KeepsPolicies (m m' : Id → Option StoredAccount) : Prop :=
  ∀ id a, m id = some a → ∃ a', m' id = some a' ∧ a'.currency = a.currency ∧
    a'.creditsMustNotExceedDebits = a.creditsMustNotExceedDebits ∧
    a'.debitsMustNotExceedCredits = a.debitsMustNotExceedCredits

theorem KeepsPolicies.refl (m : Id → Option StoredAccount) : KeepsPolicies m m :=
  fun _ a h => ⟨a, h, rfl, rfl, rfl⟩

theorem KeepsPolicies.trans {m1 m2 m3 : Id → Option StoredAccount} (h : KeepsPolicies m1 m2)
    (h' : KeepsPolicies m2 m3) : KeepsPolicies m1 m3 := by
  intro id a ha
  obtain ⟨b, hb, h1, h2, h3⟩ := h id a ha
  obtain ⟨c, hc, k1, k2, k3⟩ := h' id b hb
  exact ⟨c, hc, k1.trans h1, k2.trans h2, k3.trans h3⟩

theorem KeepsPolicies.update {m : Id → Option StoredAccount} {id : Id} {a a' : StoredAccount}
    (h : m id = some a) (hc : a'.currency = a.currency)
    (h1 : a'.creditsMustNotExceedDebits = a.creditsMustNotExceedDebits)
    (h2 : a'.debitsMustNotExceedCredits = a.debitsMustNotExceedCredits) :
    KeepsPolicies m (Function.update m id (some a')) := by
  intro j b hb
  by_cases hj : j = id
  · subst hj
    obtain rfl : a = b := Option.some.inj (h.symm.trans hb)
    exact ⟨a', by simp, hc, h1, h2⟩
  · exact ⟨b, by simp [Function.update_of_ne hj, hb], rfl, rfl, rfl⟩

/-- What no request undoes: an account keeps its policy, an applied transfer
stays applied, a refused id stays refused. -/
structure Grows (l l' : Ledger) : Prop where
  accounts : KeepsPolicies l.accounts l'.accounts
  transfers : l.transfers <+: l'.transfers
  refused : l.refused <+: l'.refused

theorem Grows.refl (l : Ledger) : l.Grows l :=
  ⟨.refl _, List.prefix_rfl, List.prefix_rfl⟩

theorem Grows.trans {l1 l2 l3 : Ledger} (h : l1.Grows l2) (h' : l2.Grows l3) : l1.Grows l3 :=
  ⟨h.accounts.trans h'.accounts, h.transfers.trans h'.transfers, h.refused.trans h'.refused⟩

theorem judge_keepsPolicies (l : Ledger) (sh : Shadow) (t : LedgerTransfer) :
    KeepsPolicies sh.accounts (l.judge sh t).2.accounts := by
  unfold judge
  split
  · exact .refl _
  · split
    · exact .refl _
    · split
      · rename_i debit credit hd hc
        split
        · exact .refl _
        · dsimp only
          split
          · exact .refl _
          · split
            · exact .refl _
            · have hdebit : KeepsPolicies sh.accounts (Function.update sh.accounts
                  t.debitAccountID (some (moveTotals t debit credit).1)) := by
                refine .update hd ?_ ?_ ?_ <;> (unfold moveTotals; cases t.kind <;> rfl)
              refine hdebit.trans ?_
              -- a transfer from an account to itself keeps only the credit side, as the source does
              by_cases hself : t.creditAccountID = t.debitAccountID
              · have hcd : credit = debit :=
                  Option.some.inj (by rw [← hc, ← hd, hself])
                rw [hself]
                refine .update (a := (moveTotals t debit credit).1) (by simp) ?_ ?_ ?_ <;>
                  (subst hcd; unfold moveTotals; cases t.kind <;> rfl)
              · refine .update (a := credit)
                  (by simp [Function.update_of_ne hself, hc]) ?_ ?_ ?_ <;>
                  (unfold moveTotals; cases t.kind <;> rfl)
      · exact .refl _

theorem judgeRun_keepsPolicies (l : Ledger) : ∀ (run : List LedgerTransfer) (sh : Shadow),
    KeepsPolicies sh.accounts (l.judgeRun sh run).2.accounts
  | [], _ => .refl _
  | t :: ts, sh => (l.judge_keepsPolicies sh t).trans (judgeRun_keepsPolicies l ts _)

@[simp] theorem judgeRun_length (l : Ledger) : ∀ (run : List LedgerTransfer) (sh : Shadow),
    (l.judgeRun sh run).1.length = run.length
  | [], _ => rfl
  | t :: ts, sh => by simp [judgeRun, judgeRun_length l ts]

/-- An accepted transfer is one that was there already, or one newly applied
whose id was free and whose reservation, if it settles one, is open. -/
theorem judge_accepted {sh : Shadow} {t : LedgerTransfer} (h : (l.judge sh t).1.accepted = true) :
    ((l.judge sh t).1 = .existsAlready ∧ l.transfers.lookup t.id = some (.of t) ∧
        (l.judge sh t).2 = sh) ∨
      ((l.judge sh t).1 = .ok ∧ l.transfers.lookup t.id = none ∧ t.id ∉ l.refused ∧
        (t.kind = .postPending ∨ t.kind = .voidPending → l.matchesPending sh t = true) ∧
        (l.judge sh t).2.pendingStatus = moveStatus t sh.pendingStatus) := by
  unfold judge at h ⊢
  split at h <;> rename_i hlook
  · left
    split at h
    · rename_i heq
      subst heq
      simp [hlook]
    · simp [TransferResultCode.accepted] at h
  · right
    split at h
    · simp [TransferResultCode.accepted] at h
    · rename_i href
      simp only [href, if_false]
      split at h
      · split at h
        · simp [TransferResultCode.accepted] at h
        · rename_i hmatch
          dsimp only at h ⊢
          split at h
          · simp [TransferResultCode.accepted] at h
          · split at h
            · simp [TransferResultCode.accepted] at h
            · rename_i hcr hdb
              refine ⟨by simp [hmatch, hcr, hdb], hlook, not_false, ?_, by simp [hmatch, hcr, hdb]⟩
              intro hk
              rcases hk with hk | hk <;> simpa [hk] using hmatch
      · simp [TransferResultCode.accepted] at h

/-- A transfer refused on its own account, other than for being a different
one under a used id, is one whose id is free. -/
theorem judge_refused {sh : Shadow} {t : LedgerTransfer} (h : (l.judge sh t).1.accepted = false) :
    (l.judge sh t).1 = .existsWithDifferentFields ∧
        (∃ st, l.transfers.lookup t.id = some st ∧ st ≠ .of t) ∨
      (l.judge sh t).1 ≠ .existsWithDifferentFields ∧ l.transfers.lookup t.id = none := by
  unfold judge at h ⊢
  split at h <;> rename_i hlook
  · left
    split at h
    · simp [TransferResultCode.accepted] at h
    · rename_i st hne
      simp [hlook, hne]
  · right
    refine ⟨?_, hlook⟩
    split
    · simp
    · split
      · split
        · simp
        · dsimp only
          split
          · simp
          · split <;> simp
      · simp

/-! ### Committing a run -/

@[simp] theorem commit_transfers (l : Ledger) (t : LedgerTransfer) :
    (l.commit t).transfers = l.transfers ++ [(t.id, .of t)] := rfl

@[simp] theorem commit_refused (l : Ledger) (t : LedgerTransfer) :
    (l.commit t).refused = l.refused := rfl

theorem commitAll_transfers : ∀ (ts : List LedgerTransfer) (l : Ledger),
    (ts.foldl commit l).transfers = l.transfers ++ ts.map fun t => (t.id, .of t)
  | [], l => by simp
  | t :: ts, l => by simp [commitAll_transfers ts]

theorem commitAll_refused : ∀ (ts : List LedgerTransfer) (l : Ledger),
    (ts.foldl commit l).refused = l.refused
  | [], _ => rfl
  | t :: ts, l => by simp [commitAll_refused ts]

/-- A run whose outcomes are all accepted is applied as a whole. -/
theorem createTransferRun_of_accepted {run : List LedgerTransfer}
    (h : (l.judgeRun l.shadow run).1.all TransferResultCode.accepted = true) :
    l.createTransferRun run = ((l.judgeRun l.shadow run).1,
      { (fresh run (l.judgeRun l.shadow run).1).foldl commit l with
        accounts := (l.judgeRun l.shadow run).2.accounts }) := by
  simp only [createTransferRun, h, if_true]

/-- A run with a refused entry applies nothing. -/
theorem createTransferRun_of_refused {run : List LedgerTransfer}
    (h : (l.judgeRun l.shadow run).1.all TransferResultCode.accepted = false) :
    l.createTransferRun run =
      ((l.judgeRun l.shadow run).1.map fun r => if r = .ok then .linkedEventFailed else r,
        { l with refused := l.refused ++ refusedIDs run (l.judgeRun l.shadow run).1 }) := by
  simp only [createTransferRun, h, Bool.false_eq_true, if_false]

theorem createTransferRun_grows (l : Ledger) (run : List LedgerTransfer) :
    l.Grows (l.createTransferRun run).2 := by
  cases h : (l.judgeRun l.shadow run).1.all TransferResultCode.accepted with
  | true =>
    rw [createTransferRun_of_accepted h]
    exact ⟨l.judgeRun_keepsPolicies run l.shadow, by simp [commitAll_transfers],
      by simp [commitAll_refused]⟩
  | false =>
    rw [createTransferRun_of_refused h]
    exact ⟨.refl _, List.prefix_rfl, List.prefix_append _ _⟩

theorem splitRuns_flatten {α : Type} {isLinked : α → Bool} : ∀ {xs : List α} {runs : List (List α)},
    splitRuns isLinked xs = some runs → runs.flatten = xs
  | [], runs, h => by
    obtain rfl : [] = runs := Option.some.inj h
    rfl
  | x :: xs, runs, h => by
    unfold splitRuns at h
    split at h
    · simp at h
    · rename_i runs' hruns
      have ih := splitRuns_flatten hruns
      split at h
      · split at h
        · simp at h
        · rename_i run rest
          cases h
          simpa using ih
      · cases h
        simp [ih]

theorem linkedRuns_flatten {α : Type} {isLinked : α → Bool} {xs : List α} {runs : List (List α)}
    (h : linkedRuns isLinked xs = .ok runs) : runs.flatten = xs := by
  unfold linkedRuns at h
  split at h
  · simp at h
  · rename_i runs' hsplit
    cases h
    exact splitRuns_flatten hsplit

/-! ### Rules

What every linked run of a request keeps, the request keeps. -/

theorem createTransfers_rule {P : Ledger → Prop} {ts : List LedgerTransfer} (h : P l)
    (hrun : ∀ run ∈ (splitRuns (·.linked) ts).getD [], ∀ l, P l → P (l.createTransferRun run).2) :
    P (l.createTransfers ts).2 := by
  unfold createTransfers linkedRuns
  split
  · exact h
  · cases hsplit : splitRuns (·.linked) ts with
    | none => exact h
    | some runs =>
      rw [hsplit, Option.getD_some] at hrun
      clear hsplit
      induction runs generalizing l with
      | nil => exact h
      | cons run rest ih =>
        exact ih (hrun run List.mem_cons_self l h)
          fun r hr => hrun r (List.mem_cons_of_mem _ hr)

theorem createAccountRun_rule {P : Ledger → Prop} (h : P l) {run : List Account}
    (hstore : (∀ a ∈ run, l.accounts a.id = none → (ledgerID a.currency).isSome = true) →
      P (l.storeAccounts run)) : P (l.createAccountRun run).2 := by
  simp only [createAccountRun]
  split
  · rename_i hall
    refine hstore fun a ha hnone => ?_
    -- the account was judged, so its currency is known
    have hjudged := List.all_eq_true.mp hall _ (List.mem_map_of_mem ha)
    by_contra hunknown
    simp [judgeAccount, hnone, hunknown] at hjudged
  · exact h

theorem createAccountRuns_rule {P : Ledger → Prop} {runs : List (List Account)} (h : P l)
    (hstore : ∀ l run, run ⊆ runs.flatten →
      (∀ a ∈ run, l.accounts a.id = none → (ledgerID a.currency).isSome = true) →
      P l → P (l.storeAccounts run)) : P (l.createAccountRuns runs).2 := by
  induction runs generalizing l with
  | nil => exact h
  | cons run rest ih =>
    have hhead : run ⊆ (run :: rest).flatten := fun a ha => by simp [ha]
    refine ih (createAccountRun_rule h fun hknown => hstore l run hhead hknown h) ?_
    exact fun l' run' hsub => hstore l' run' fun a ha => List.mem_append_right _ (hsub ha)

theorem createAccounts_rule {P : Ledger → Prop} {as : List Account} (h : P l)
    (hstore : ∀ l run, run ⊆ as →
      (∀ a ∈ run, l.accounts a.id = none → (ledgerID a.currency).isSome = true) →
      P l → P (l.storeAccounts run)) : P (l.createAccounts as).2 := by
  unfold createAccounts
  split
  · exact h
  · split
    · exact h
    · rename_i runs hruns
      rw [← linkedRuns_flatten hruns] at hstore
      exact createAccountRuns_rule h hstore

theorem createTransfers_grows (l : Ledger) (ts : List LedgerTransfer) :
    l.Grows (l.createTransfers ts).2 :=
  createTransfers_rule (.refl l) fun run _ l' h => h.trans (l'.createTransferRun_grows run)

theorem foldl_putAccount (x : Id) : ∀ (as : List Account) (m : Id → Option StoredAccount),
    (∀ a ∈ as, a.id ≠ x) ∧ as.foldl putAccount m x = m x ∨
      ∃ a ∈ as, a.id = x ∧ as.foldl putAccount m x = some (.of a)
  | [], _ => .inl ⟨nofun, rfl⟩
  | a :: as, m => by
    rw [List.foldl_cons]
    rcases foldl_putAccount x as (putAccount m a) with ⟨hne, heq⟩ | ⟨b, hb, h⟩
    · rw [heq, putAccount]
      by_cases hx : a.id = x
      · exact .inr ⟨a, List.mem_cons_self, hx, by rw [hx, Function.update_self]⟩
      · rw [Function.update_of_ne (Ne.symm hx)]
        exact .inl ⟨List.forall_mem_cons.mpr ⟨hx, hne⟩, rfl⟩
    · exact .inr ⟨b, List.mem_cons_of_mem _ hb, h⟩

/-- Every account is as it was, unless it was not there and the run names it. -/
theorem storeAccounts_accounts (l : Ledger) (run : List Account) (x : Id) :
    (l.storeAccounts run).accounts x = l.accounts x ∧
        (l.accounts x = none → ∀ a ∈ run, a.id ≠ x) ∨
      l.accounts x = none ∧ ∃ a ∈ run, a.id = x ∧
        (l.storeAccounts run).accounts x = some (.of a) := by
  rcases foldl_putAccount x (run.filter fun a => (l.accounts a.id).isNone) l.accounts with
    ⟨hne, heq⟩ | ⟨a, ha, rfl, heq⟩
  · refine .inl ⟨heq, fun hnone a ha hx => ?_⟩
    exact hne a (List.mem_filter.mpr ⟨ha, by simp [hx, hnone]⟩) hx
  · obtain ⟨ha, hnone⟩ := List.mem_filter.mp ha
    exact .inr ⟨by simpa using hnone, a, ha, rfl, heq⟩

theorem storeAccounts_grows (l : Ledger) (run : List Account) : l.Grows (l.storeAccounts run) := by
  refine ⟨fun x a ha => ⟨a, ?_, rfl, rfl, rfl⟩, List.prefix_rfl, List.prefix_rfl⟩
  rcases l.storeAccounts_accounts run x with ⟨heq, -⟩ | ⟨hnone, -⟩
  · exact heq.trans ha
  · exact nomatch hnone.symm.trans ha

theorem createAccountRuns_grows (l : Ledger) (runs : List (List Account)) :
    l.Grows (l.createAccountRuns runs).2 :=
  createAccountRuns_rule (.refl l) fun l' run _ _ h => h.trans (l'.storeAccounts_grows run)

theorem createAccounts_grows (l : Ledger) (as : List Account) :
    l.Grows (l.createAccounts as).2 :=
  createAccounts_rule (.refl l) fun l' run _ _ h => h.trans (l'.storeAccounts_grows run)

end Ledger

end MoneyFlow
