import MoneyFlow.Books.Run
import MoneyFlow.Concurrent.Crew

/-!
# MoneyFlow.Ach.Notices

Clearings and return notices of one ACH Transaction: `clear.rb`, `clear_now.rb`,
`clear_due.rb`, `return.rb` and `return_due.rb` of `ruby/app/services/ach`.

Any number of calls run side by side. What a call reads outside the row lock may be any
version of the row that was ever committed. A recording block starts with `ach.lock!`,
which waits for the block before it and reads the row again, so a block is one step. The
form of a late return is chosen after the lock is released, from the copy the call holds.
-/

namespace MoneyFlow.Ach

open Concurrent Books

variable {ach : AchTransaction}

/-! ### The row -/

/-- What of a `Models::AchTransaction` the services record. -/
structure Columns where
  clearingTransactionID : Option Uuid := none
  clearingTransferID : Option Uuid := none
  returnedAt : Option Nat := none
  returnReason : Option String := none
  returnTransactionID : Option Uuid := none
  deriving DecidableEq, Repr

/-- The row, the versions of it before, and what was sent to Go. -/
structure Record where
  row : Columns := {}
  old : List Columns := []
  sent : List StartRequest := []

variable {d d' : Record}

/-- A version of the row that was committed. -/
def Record.version (d : Record) (k : Nat) : Option Columns := (d.row :: d.old)[k]?

/-- A new version is committed. -/
def Record.commit (d : Record) (row : Columns) : Record :=
  { d with row := row, old := d.row :: d.old }

/-! ### The calls -/

/-- Where a call stands. -/
inductive Call
  | clearNow
  | clearDue
  /-- `Clear#call`, before it finds the row. -/
  | clear
  /-- `Clear#record!`. -/
  | record
  | sendClearing
  /-- `Return#call`. -/
  | returned (reason : String)
  /-- `Return#record_notice!`. -/
  | recordNotice (reason : String)
  | returnDue
  /-- `Return#act_on_notice`, with the copy of the row it holds. -/
  | actOnNotice (ach : Columns)
  /-- `Return#cancel`. -/
  | cancel (ach : Columns)
  /-- `Return#return_late`. -/
  | returnLate
  /-- `Return#send_late_return`, with the copy of the row it holds. -/
  | sendLateReturn (ach : Columns)
  | ended
  deriving DecidableEq, Repr

/-- What a step is answered from outside: the version of the row it reads, what the
projections show, what Go answers, the clock. -/
structure Answer where
  version : Nat := 0
  /-- The state of the ACH Transaction in the projection. -/
  projected : Option TransactionState := none
  /-- `ClearingPolicy.due?`. -/
  due : Bool := true
  /-- The Clearing is in the projection. -/
  clearingSeen : Bool := false
  /-- The real leg is cancelled or failed in the projection. -/
  neverPosts : Bool := false
  /-- The late return is in the projection. -/
  lateReturnSeen : Bool := false
  /-- Go's answer to `GetTransactionState`. -/
  state : TransactionState := .initialized
  now : Nat := 0

/-- `ReturnDue::SETTLED_WITHOUT_MONEY`. -/
def settledWithoutMoney : TransactionState → Bool
  | .rolledBack | .rejected | .rollbackFailed => true
  | _ => false

/-- `ClearDue#candidates`, of a version of the row. -/
def clearDueCandidate (direction : AchDirection) (ach : Columns) (a : Answer) : Bool :=
  decide (direction = .deposit) && decide (a.projected = some .completed) &&
    (ach.returnedAt.isNone || ach.clearingTransactionID.isSome) && !a.clearingSeen

/-- `ReturnDue#candidates`, of a version of the row. -/
def returnDueCandidate (ach : Columns) (a : Answer) : Bool :=
  ach.returnedAt.isSome &&
    (ach.returnTransactionID.isNone && !(a.projected.any settledWithoutMoney) && !a.neverPosts ||
      ach.returnTransactionID.isSome && !a.lateReturnSeen)

/-- The row `Clear#record!` leaves. -/
def Columns.recordClearing (row : Columns) (id : Uuid) : Columns :=
  { row with clearingTransactionID := some (.clearing id)
             clearingTransferID := some (.clearingTransfer id) }

/-- The row `Return#record_notice!` leaves. -/
def Columns.recordNotice (row : Columns) (now : Nat) (reason : String) : Columns :=
  if row.returnedAt.isNone then { row with returnedAt := some now, returnReason := some reason }
  else row

/-- The row `Return#return_late` leaves. -/
def Columns.recordReturn (row : Columns) (id : Uuid) : Columns :=
  if row.returnTransactionID.isNone then { row with returnTransactionID := some (.lateReturn id) }
  else row

/-- A step of a call. -/
def step (ach : AchTransaction) (d : Record) : Call → Answer → Option (Record × Call)
  | .clearNow, a =>
    some (d, if a.projected = some .completed then .clear else .ended)
  | .clearDue, a =>
    (d.version a.version).map fun copy =>
      (d, if clearDueCandidate ach.direction copy a && a.due then .clear else .ended)
  | .clear, _ => some (d, if ach.direction = .deposit then .record else .ended)
  | .record, _ =>
    if d.row.returnedAt.isSome && d.row.clearingTransactionID.isNone then some (d, .ended)
    else some (d.commit (d.row.recordClearing ach.id), .sendClearing)
  | .sendClearing, _ =>
    some ({ d with sent := d.sent ++ [ClearingShape.startRequest ach] }, .ended)
  | .returned reason, _ => some (d, .recordNotice reason)
  | .recordNotice reason, a =>
    some (d.commit (d.row.recordNotice a.now reason),
      .actOnNotice (d.row.recordNotice a.now reason))
  | .returnDue, a =>
    (d.version a.version).map fun copy =>
      (d, if returnDueCandidate copy a then .actOnNotice copy else .ended)
  | .actOnNotice copy, a =>
    if copy.returnTransactionID.isSome then some (d, .sendLateReturn copy)
    else
      match a.state with
      | .started => some (d, .cancel copy)
      | .completed => some (d, .returnLate)
      | _ => some (d, .ended)
  | .cancel _, _ => some (d, .ended)
  | .returnLate, _ =>
    some (d.commit (d.row.recordReturn ach.id), .sendLateReturn (d.row.recordReturn ach.id))
  | .sendLateReturn copy, _ =>
    some ({ d with sent := d.sent ++
      [LateReturnShape.startRequest ach copy.clearingTransactionID.isSome] }, .ended)
  | .ended, _ => none

/-- Where a call begins. -/
def Call.begins : Call → Bool
  | .clearNow | .clearDue | .clear | .returned _ | .returnDue => true
  | _ => false

/-- The calls on one ACH Transaction. -/
def calls (ach : AchTransaction) : Crew Record Call Answer Empty where
  init := {}
  start _ c := c.begins
  step := step ach
  world _ w := w.elim

/-! ### What a notice fixes -/

/-- What is so of a version of the row is so of a later one: a recorded Clearing stays, a
notice stays, and a notice keeps a Clearing from being recorded. -/
structure Columns.Le (old new : Columns) : Prop where
  cleared : old.clearingTransactionID.isSome = true → new.clearingTransactionID.isSome = true
  returned : old.returnedAt.isSome = true → new.returnedAt.isSome = true
  fixed : old.returnedAt.isSome = true →
    new.clearingTransactionID.isSome = old.clearingTransactionID.isSome

theorem Columns.Le.refl (row : Columns) : row.Le row := ⟨id, id, fun _ => rfl⟩

theorem Columns.Le.trans {r1 r2 r3 : Columns} (h : r1.Le r2) (h' : r2.Le r3) : r1.Le r3 where
  cleared hc := h'.cleared (h.cleared hc)
  returned hr := h'.returned (h.returned hr)
  fixed hr := (h'.fixed (h.returned hr)).trans (h.fixed hr)

theorem Columns.le_recordClearing {row : Columns} (id : Uuid)
    (hok : (row.returnedAt.isSome && row.clearingTransactionID.isNone) = false) :
    row.Le (row.recordClearing id) where
  cleared _ := rfl
  returned h := h
  fixed h := by
    rw [h, Bool.true_and] at hok
    simpa [Columns.recordClearing] using hok

theorem Columns.le_recordNotice (row : Columns) (now : Nat) (reason : String) :
    row.Le (row.recordNotice now reason) := by
  unfold Columns.recordNotice
  split
  · exact ⟨id, fun _ => rfl, fun _ => rfl⟩
  · exact .refl row

theorem Columns.le_recordReturn (row : Columns) (id : Uuid) : row.Le (row.recordReturn id) := by
  unfold Columns.recordReturn
  split
  · exact ⟨fun h => h, fun h => h, fun _ => rfl⟩
  · exact .refl row

theorem Columns.recordNotice_returned (row : Columns) (now : Nat) (reason : String) :
    (row.recordNotice now reason).returnedAt.isSome = true := by
  unfold Columns.recordNotice
  split
  · rfl
  · rename_i h
    simpa [Option.isSome_iff_ne_none] using h

theorem Columns.recordReturn_returned (row : Columns) (id : Uuid) :
    (row.recordReturn id).returnedAt = row.returnedAt := by
  unfold Columns.recordReturn
  split <;> rfl

/-! ### What every call keeps -/

/-- A request that agrees with what the row says. -/
def Record.Agrees (d : Record) (ach : AchTransaction) (r : StartRequest) : Prop :=
  r = ClearingShape.startRequest ach ∧ d.row.clearingTransactionID.isSome = true ∨
    r = LateReturnShape.startRequest ach d.row.clearingTransactionID.isSome ∧
      d.row.returnedAt.isSome = true

/-- Every version is an earlier one of the row, and every request sent agrees with it. -/
structure Record.Ok (ach : AchTransaction) (d : Record) : Prop where
  old : ∀ v ∈ d.old, v.Le d.row
  sent : ∀ r ∈ d.sent, d.Agrees ach r

/-- What a call knows of the row. -/
def Record.Knows (d : Record) : Call → Prop
  | .sendClearing => d.row.clearingTransactionID.isSome = true
  | .actOnNotice copy | .cancel copy | .sendLateReturn copy =>
    copy.Le d.row ∧ copy.returnedAt.isSome = true
  | .returnLate => d.row.returnedAt.isSome = true
  | _ => True

theorem Record.Agrees.grow {r : StartRequest} (h : d.Agrees ach r) (hle : d.row.Le d'.row) :
    d'.Agrees ach r := by
  rcases h with ⟨hr, hc⟩ | ⟨hr, hn⟩
  · exact .inl ⟨hr, hle.cleared hc⟩
  · exact .inr ⟨by rw [hr, hle.fixed hn], hle.returned hn⟩

theorem Record.Knows.grow {c : Call} (h : d.Knows c) (hle : d.row.Le d'.row) : d'.Knows c := by
  cases c with
  | sendClearing => exact hle.cleared h
  | actOnNotice copy | cancel copy | sendLateReturn copy => exact ⟨h.1.trans hle, h.2⟩
  | returnLate => exact hle.returned h
  | _ => trivial

theorem Record.Ok.commit (h : d.Ok ach) {row : Columns} (hle : d.row.Le row) :
    (d.commit row).Ok ach where
  old v hv := by
    rcases List.mem_cons.mp hv with rfl | hv
    · exact hle
    · exact (h.old v hv).trans hle
  sent r hr := (h.sent r hr).grow hle

theorem Record.Ok.send (h : d.Ok ach) {r : StartRequest} (hr : d.Agrees ach r) :
    ({ d with sent := d.sent ++ [r] } : Record).Ok ach where
  old := h.old
  sent q hq := by
    rcases List.mem_append.mp hq with hq | hq
    · exact h.sent q hq
    · obtain rfl := List.mem_singleton.mp hq
      exact hr

theorem Record.Ok.version_le (h : d.Ok ach) {k : Nat} {copy : Columns}
    (hv : d.version k = some copy) :
    copy.Le d.row := by
  rcases List.mem_cons.mp (List.mem_of_getElem? hv) with rfl | hmem
  · exact .refl _
  · exact h.old copy hmem

/-- A step keeps all of it, and only takes the row on. -/
theorem step_ok {c c' : Call} {a : Answer} (h : d.Ok ach) (hc : d.Knows c)
    (hx : step ach d c a = some (d', c')) : d'.Ok ach ∧ d'.Knows c' ∧ d.row.Le d'.row := by
  cases c with
  | clearNow | clear =>
    cases hx
    refine ⟨h, ?_, .refl _⟩
    split <;> trivial
  | clearDue =>
    obtain ⟨copy, -, hpair⟩ := Option.map_eq_some_iff.mp hx
    cases hpair
    refine ⟨h, ?_, .refl _⟩
    split <;> trivial
  | record =>
    simp only [step] at hx
    split at hx
    · cases hx
      exact ⟨h, trivial, .refl _⟩
    · rename_i hok
      cases hx
      have hle := Columns.le_recordClearing ach.id (Bool.eq_false_iff.mpr hok)
      exact ⟨h.commit hle, rfl, hle⟩
  | sendClearing =>
    cases hx
    exact ⟨h.send (.inl ⟨rfl, hc⟩), trivial, .refl _⟩
  | returned reason | cancel copy =>
    cases hx
    exact ⟨h, trivial, .refl _⟩
  | recordNotice reason =>
    cases hx
    have hle := d.row.le_recordNotice a.now reason
    exact ⟨h.commit hle, ⟨.refl _, d.row.recordNotice_returned a.now reason⟩, hle⟩
  | returnDue =>
    obtain ⟨copy, hv, hpair⟩ := Option.map_eq_some_iff.mp hx
    cases hpair
    refine ⟨h, ?_, .refl _⟩
    split
    · rename_i hcandidate
      exact ⟨h.version_le hv, (Bool.and_eq_true _ _ ▸ hcandidate).1⟩
    · trivial
  | actOnNotice copy =>
    simp only [step] at hx
    split at hx
    · cases hx
      exact ⟨h, hc, .refl _⟩
    · split at hx
      · cases hx
        exact ⟨h, hc, .refl _⟩
      · cases hx
        exact ⟨h, hc.1.returned hc.2, .refl _⟩
      · cases hx
        exact ⟨h, trivial, .refl _⟩
  | returnLate =>
    cases hx
    have hle := d.row.le_recordReturn ach.id
    refine ⟨h.commit hle, ⟨.refl _, ?_⟩, hle⟩
    rw [d.row.recordReturn_returned]
    exact hc
  | sendLateReturn copy =>
    cases hx
    refine ⟨h.send (.inr ⟨?_, hc.1.returned hc.2⟩), trivial, .refl _⟩
    rw [hc.1.fixed hc.2]
  | ended => cases hx

theorem calls_ok {s : Crew.State Record Call} (h : (calls ach).machine.Reachable s) :
    s.shared.Ok ach := by
  refine (Crew.invariant (Q := fun d c => d.Knows c) h ⟨nofun, nofun⟩ ?_ ?_ ?_).1
  · intro d c _ hbegins
    cases c <;> trivial
  · intro d c a d' c' hok hknows hx
    obtain ⟨hok', hknows', hle⟩ := step_ok hok hknows hx
    exact ⟨hok', hknows', fun q hq => hq.grow hle⟩
  · intro d w
    exact w.elim

/-! ### One form of late return, and no Clearing beside a Clawback -/

/-- In every run of Clear, ClearNow, ClearDue, Return and ReturnDue calls on an ACH
Transaction, Go is never sent both a Clearing and a Clawback, and every late return it is
sent is the same request. -/
theorem never_cleared_and_clawed_back (ach : AchTransaction) {s : Crew.State Record Call}
    (h : (calls ach).machine.Reachable s) :
    (∀ r ∈ s.shared.sent, ∀ r' ∈ s.shared.sent, r.factoryName = "ach_clearing" →
      r'.factoryName ≠ LateReturnShape.Form.clawback.serialize) ∧
    ∀ r ∈ s.shared.sent, ∀ r' ∈ s.shared.sent, r.id = .lateReturn ach.id →
      r'.id = .lateReturn ach.id → r = r' := by
  have hok := calls_ok h
  constructor
  · intro r hr r' hr' hclearing hclawback
    rcases hok.sent r hr with ⟨-, hcleared⟩ | ⟨rfl, -⟩
    · rcases hok.sent r' hr' with ⟨rfl, -⟩ | ⟨rfl, -⟩
      · simp [ClearingShape.startRequest, LateReturnShape.Form.serialize] at hclawback
      · rw [hcleared] at hclawback
        revert hclawback
        simp only [LateReturnShape.startRequest]
        cases ach.direction <;> decide
    · revert hclearing
      simp only [LateReturnShape.startRequest]
      cases LateReturnShape.formFor ach.direction _ <;> decide
  · intro r hr r' hr' hid hid'
    rcases hok.sent r hr with ⟨rfl, -⟩ | ⟨rfl, -⟩
    · cases hid
    · rcases hok.sent r' hr' with ⟨rfl, -⟩ | ⟨rfl, -⟩
      · cases hid'
      · rfl

/-- A Clearing and a notice cross: the Clearing is recorded first, the notice is acted on
by two calls, one of them with a copy read before the late return was recorded. -/
def crossing : List (Crew.Move Call Answer Empty) :=
  [.spawn .clear, .step 0 {}, .step 0 {}, .spawn (.returned "R01"), .step 1 {}, .step 1 {},
    .spawn .returnDue, .step 2 { projected := some .completed },
    .step 1 { state := .completed }, .step 1 {}, .step 1 {}, .step 0 {},
    .step 2 { state := .completed }, .step 2 {}, .step 2 {}]

theorem crossing_agrees : ∃ s, (calls ⟨.v7 1, 1, .deposit, 100, .v7 2, .v7 3⟩).machine.Reachable s ∧
    s.shared.sent.length = 3 ∧ ∀ r ∈ s.shared.sent, ∀ r' ∈ s.shared.sent,
      r.factoryName = "ach_clearing" → r'.factoryName ≠ "ach_deposit_clawback" := by
  obtain ⟨s, hs, hlen⟩ := Machine.exists_of_play
    (calls ⟨.v7 1, 1, .deposit, 100, .v7 2, .v7 3⟩).machine (fun _ _ => True)
    (·.shared.sent.length = 3) crossing (by decide +kernel)
  exact ⟨s, hs, hlen, (never_cleared_and_clawed_back _ hs).1⟩

end MoneyFlow.Ach
