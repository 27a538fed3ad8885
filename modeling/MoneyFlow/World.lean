import MoneyFlow.Concurrent.Safe
import MoneyFlow.EventStore
import MoneyFlow.Ledger

/-!
# MoneyFlow.World

What the services share, and the atomic steps they take on it.

The state is the event log, the ledger, the store's clock, and the ids
`uuid.NewV7` has handed out. One operation is one call that crosses a process
boundary (a `Load`, an append, a ledger request), so another driver can run
between any two of them and nowhere else.

The state only ever **grows** (`World.Grows`): a stream is extended, an applied
ledger transfer stays applied, a refused id stays refused, an account keeps its
policy. This is the preorder `MoneyFlow.Concurrent` works over.

A store or ledger call that fails ends the step that made it, in every function
of the source, so a failing call is a thread that takes no further step.
-/

namespace MoneyFlow

open Concurrent

/-- An in-process call the Transaction saga makes on the Transfer service,
named when it is made. -/
inductive Call
  | requestTransfer (transactionID childID : Id)
  | requestReversal (transactionID childID reversalID : Id)
  | cancelStagedTransfer (transactionID childID : Id)
  | cancelAcceptedTransfer (transactionID childID : Id)
  deriving DecidableEq, Repr

/-- One atomic operation. -/
inductive Op
  /-- `store.Load`. -/
  | load (a : Aggregate) (id : Id)
  /-- `store.AppendAtomic`; `store.Append` is the one-stream case. -/
  | appendAtomic (writes : List StreamWrite)
  /-- `store.Now`. -/
  | now
  /-- A pause of at least that many milliseconds. -/
  | wait (ms : Nat)
  /-- `ledger.CreateAccounts`. -/
  | createAccounts (accounts : List Account)
  /-- `ledger.CreateTransfers`. -/
  | createTransfers (transfers : List LedgerTransfer)
  /-- `ledger.Balances`. -/
  | balances (ids : List Id)
  /-- `uuid.NewV7` for a leg of `transferID`. -/
  | newV7 (transferID : Id)
  /-- The order a `range` over a map with these keys takes. -/
  | rangeMap (keys : List Id)
  /-- The saga enters a call on the Transfer service. -/
  | call (c : Call)

/-- What an operation answers. -/
def Resp : Op → Type
  | .load a _ => List (Row a.Event)
  | .appendAtomic _ => Except Err Unit
  | .now => Nat
  | .wait _ => Unit
  | .createAccounts _ => Except Err (List AccountResultCode)
  | .createTransfers _ => Except Err (List TransferResultCode)
  | .balances _ => Id → Option Ledger.Balance
  | .newV7 _ => Id
  | .rangeMap _ => List Id
  | .call _ => Unit

/-- What the services share. -/
structure World where
  store : Store
  ledger : Ledger
  clock : Nat
  /-- For each `uuid.NewV7` so far, the Transfer whose leg it was made for. -/
  issued : List Id

variable {w w' : World}

namespace World

/-- Before anything happened. -/
def init : World where
  store := .empty
  ledger := .empty
  clock := 0
  issued := []

/-- A Transfer's or Reversal's stream. -/
def transfer (w : World) (id : Id) : List (Row TransferEvent) := w.store .transfer id

/-- A Transaction's stream. -/
def transaction (w : World) (id : Id) : List (Row TransactionEvent) := w.store .transaction id

/-- A Wallet's stream. -/
def wallet (w : World) (id : Id) : List (Row WalletEvent) := w.store .wallet id

/-- A Token's stream. -/
def token (w : World) (id : Id) : List (Row TokenEvent) := w.store .token id

/-- A Holder's stream. -/
def holder (w : World) (id : Id) : List (Row HolderEvent) := w.store .holder id

/-- An append, landed or refused. -/
def append (w : World) (writes : List StreamWrite) : Except Err Unit × World :=
  match appendAtomic w.clock w.store writes with
  | .error e => (.error e, w)
  | .ok st => (.ok (), { w with store := st })

/-- The operation's answer and the state after it, for the operations that
have only one. A pause is the shortest, and a map is ranged in the order of its
keys. -/
def perform (w : World) : (o : Op) → Resp o × World
  | .load a id => (w.store a id, w)
  | .appendAtomic writes => w.append writes
  | .now => (w.clock, w)
  | .wait ms => ((), { w with clock := w.clock + ms })
  | .createAccounts accounts =>
    ((w.ledger.createAccounts accounts).1,
      { w with ledger := (w.ledger.createAccounts accounts).2 })
  | .createTransfers transfers =>
    ((w.ledger.createTransfers transfers).1,
      { w with ledger := (w.ledger.createTransfers transfers).2 })
  | .balances ids => (w.ledger.balances ids, w)
  | .newV7 transferID => (.v7 w.issued.length, { w with issued := w.issued ++ [transferID] })
  | .rangeMap keys => (keys, w)
  | .call _ => ((), w)

/-- What an operation may answer, and the state it may leave. -/
def Exec (w : World) : (o : Op) → Resp o → World → Prop
  | .wait ms, _, w' => ∃ d, ms ≤ d ∧ w' = { w with clock := w.clock + d }
  | .rangeMap keys, order, w' => order.Perm keys ∧ w' = w
  | o, r, w' => (r, w') = w.perform o

/-- Time passes. -/
def Tick (w w' : World) : Prop := ∃ d, w' = { w with clock := w.clock + d }

/-! ### Growth -/

/-- What no operation undoes. -/
structure Grows (w w' : World) : Prop where
  stream : ∀ a id, w.store a id <+: w'.store a id
  ledger : w.ledger.Grows w'.ledger
  issued : w.issued <+: w'.issued

instance : Preorder World where
  le := Grows
  le_refl w := ⟨fun _ _ => List.prefix_rfl, .refl _, List.prefix_rfl⟩
  le_trans _ _ _ h h' :=
    ⟨fun a id => (h.stream a id).trans (h'.stream a id), h.ledger.trans h'.ledger,
      h.issued.trans h'.issued⟩

theorem le_of_tick (h : w.Tick w') : w ≤ w' := by
  obtain ⟨d, rfl⟩ := h
  exact ⟨fun _ _ => List.prefix_rfl, .refl _, List.prefix_rfl⟩

theorem le_perform (w : World) (o : Op) : w ≤ (w.perform o).2 := by
  cases o with
  | load a id => exact le_rfl
  | appendAtomic writes =>
    simp only [perform, append]
    split
    · exact le_rfl
    · rename_i st h
      exact ⟨fun a id => appendAtomic_grows h a id, .refl _, List.prefix_rfl⟩
  | now => exact le_rfl
  | wait ms => exact le_of_tick ⟨ms, rfl⟩
  | createAccounts as =>
    exact ⟨fun _ _ => List.prefix_rfl, w.ledger.createAccounts_grows as, List.prefix_rfl⟩
  | createTransfers ts =>
    exact ⟨fun _ _ => List.prefix_rfl, w.ledger.createTransfers_grows ts, List.prefix_rfl⟩
  | balances ids => exact le_rfl
  | newV7 id => exact ⟨fun _ _ => List.prefix_rfl, .refl _, List.prefix_append _ _⟩
  | rangeMap keys | call c => exact le_rfl

/-- How an append is answered. -/
theorem exec_append {ws : List StreamWrite} {r : Except Err Unit}
    (hx : w.Exec (.appendAtomic ws) r w') :
    (∃ st, r = .ok () ∧ appendAtomic w.clock w.store ws = .ok st ∧ w' = { w with store := st }) ∨
      ((∃ e, r = .error e) ∧ w' = w) := by
  have hx' : (r, w') = w.append ws := hx
  unfold World.append at hx'
  split at hx'
  · cases hx'
    exact Or.inr ⟨⟨_, rfl⟩, rfl⟩
  · rename_i st hst
    cases hx'
    exact Or.inl ⟨st, rfl, hst, rfl⟩

theorem exec_perform (w : World) (o : Op) : w.Exec o (w.perform o).1 (w.perform o).2 := by
  cases o with
  | wait ms => exact ⟨ms, le_rfl, rfl⟩
  | rangeMap keys => exact ⟨List.Perm.refl _, rfl⟩
  | _ => rfl

theorem le_of_exec {o : Op} {r : Resp o} (h : w.Exec o r w') : w ≤ w' := by
  cases o with
  | wait ms =>
    obtain ⟨d, -, rfl⟩ := h
    exact le_of_tick ⟨d, rfl⟩
  | rangeMap keys =>
    obtain ⟨-, rfl⟩ := h
    exact le_rfl
  | _ =>
    rw [show w' = (w.perform _).2 from congrArg Prod.snd h]
    exact le_perform w _

instance : Atomic World Op Resp where
  exec := Exec
  le_of_exec := le_of_exec
  run := perform
  run_exec := exec_perform

end World

/-! ### Service code -/

/-- Service code: it takes atomic steps and may return an error. -/
abbrev Service := ExceptT Err (Prog Op Resp)

namespace Service

/-- `store.Load`. -/
def load (a : Aggregate) (id : Id) : Service (List (Row a.Event)) := request (Op.load a id)

/-- `store.AppendAtomic`, its error handed back to the caller. -/
def appendWrites (writes : List StreamWrite) : Service (Except Err Unit) :=
  request (Op.appendAtomic writes)

/-- `store.Append`. -/
def append (a : Aggregate) (id : Id) (expectedSeq : Nat) (events : List a.Event) :
    Service (Except Err Unit) :=
  appendWrites [⟨a, id, expectedSeq, events⟩]

/-- `store.Now`. -/
def now : Service Nat := request Op.now

/-- A pause. -/
def wait (ms : Nat) : Service Unit := request (Op.wait ms)

/-- `ledger.CreateAccounts`, its error handed back to the caller. -/
def createAccounts (accounts : List Account) : Service (Except Err (List AccountResultCode)) :=
  request (Op.createAccounts accounts)

/-- `ledger.CreateTransfers`, its error handed back to the caller. -/
def createTransfers (transfers : List LedgerTransfer) :
    Service (Except Err (List TransferResultCode)) :=
  request (Op.createTransfers transfers)

/-- `ledger.Balances`. -/
def balances (ids : List Id) : Service (Id → Option Ledger.Balance) := request (Op.balances ids)

/-- `uuid.NewV7`. -/
def newV7 (transferID : Id) : Service Id := request (Op.newV7 transferID)

/-- The keys of a map in the order a `range` takes them. -/
def rangeMap (keys : List Id) : Service (List Id) := request (Op.rangeMap keys)

/-- Enter a call on the Transfer service. -/
def call (c : Call) : Service Unit := request (Op.call c)

/-- `contention.Wait`: the pause is random and may be no time at all. -/
def contentionWait : Service Unit := wait 0

/-- `if err != nil { return err }`. -/
def check {α : Type} : Except Err α → Service α
  | .ok a => pure a
  | .error e => throw e

end Service

end MoneyFlow
