import MoneyFlow.Concurrent.Play
import MoneyFlow.EventStore.Agreement
import MoneyFlow.Holder.Conduct
import MoneyFlow.System
import MoneyFlow.Transaction.Conduct

/-!
# MoneyFlow.Runs

Every driver keeps the protocol, so **the invariant holds in every state of every
run** (`reachable_inv`), and a driver about to perform an operation may perform
it (`reachable_legal`).

Both are stated relative to `R`, *some Transaction's cancel of a staged child was
refused*: over all runs it is simply `True`; over the runs whose Transaction
drivers have no such refusal land (`NoRefusal`) it can be taken to be `False`.
-/

namespace MoneyFlow

open Concurrent

variable {c : System} {d : Driver} {i : Nat}

/-- Steps at which a Transaction's saga has a cancel refused are excluded, or `R`
holds. -/
def Refusals (R : Prop) (guard : Driver → Op → World → Prop) : Prop :=
  ∀ tid ws w, Lands (guard (.resumeTransaction tid)) ws w →
    (∃ x ∈ ws, Transfer.refusesCancel x = true) → R

/-- A driver's contract: it may take its guard and the invariant for granted. -/
def driverContract (R : Prop) (guard : Driver → Op → World → Prop) (d : Driver) :
    Contract World Op :=
  contract R fun o w => guard d o w ∧ Inv R w

variable {R : Prop} {admits : Driver → Prop} {guard : Driver → Op → World → Prop}

/-- What is owed to a caller: an answer to a request is the decision its stream
opens with, and an answer about a settlement is true from then on. -/
def Answered (R : Prop) : Driver → Reply → World → Prop
  | .requestTransfer req, .requestTransfer r, w => [r.event] <+: eventsOf (w.transfer req.id)
  | .requestReversal req, .requestReversal r, w => [r.event] <+: eventsOf (w.transfer req.id)
  | .startInitializingTransaction id _, .startInitializingTransaction r, w =>
    [r.event] <+: eventsOf (w.transaction id)
  | .cancelAcceptedTransfer id _, .cancelAcceptedTransfer _, w =>
    Henceforth R (fun w' => w'.outcome id = .cancelled) w
  | .confirmStagedTransfer id, .confirmStagedTransfer r, w => Transfer.ConfirmAnswer w id r
  | .cancelStagedTransfer id _, .cancelStagedTransfer (.transferCancelled _ _), w =>
    Henceforth R (fun w' => w'.outcome id = .cancelled) w
  | .postPendingTransfer id, .postPendingTransfer r, w => Transfer.PostAnswer R w id r
  | _, _, _ => True

/-- Every driver keeps the protocol, and its answer is true. -/
theorem Driver.answers (hR : Refusals R guard) (d : Driver) (fuel : Nat) (w : World) :
    Ensures (driverContract R guard d) (d.service fuel) (fun r w' => Answered R d r w') w := by
  have hA : Assumes R fun o w => guard d o w ∧ Inv R w := fun _ _ h => h.2
  change Conducts R (fun o w => guard d o w ∧ Inv R w) (d.service fuel) _ w
  cases d with
  | establish req => exact (Holder.establish_conducts hA).map fun _ _ _ => trivial
  | addWallet req => exact (Holder.addWallet_conducts hA).map fun _ _ _ => trivial
  | provision req => exact (Holder.provision_conducts hA).map fun _ _ _ => trivial
  | openWallet req => exact (Wallet.openWallet_conducts hA req).map fun _ _ _ => trivial
  | mint req => exact (Token.mint_conducts hA req).map fun _ _ _ => trivial
  | requestTransfer req => exact (Transfer.requestTransfer_opens hA).map fun _ _ h => h
  | requestReversal req => exact (Transfer.requestReversal_opens hA).map fun _ _ h => h
  | cancelAcceptedTransfer id reason =>
    exact (Transfer.cancelAcceptedTransfer_conducts hA).map fun _ _ h => h
  | confirmStagedTransfer id =>
    exact (Transfer.confirmStagedTransfer_conducts hA).map fun _ _ h => h
  | cancelStagedTransfer id reason =>
    -- a client's own cancel may be refused: nothing rests on it
    refine (Transfer.cancelStagedTransfer_conducts hA (P := True)
      fun _ _ _ _ => trivial).map fun r w' h => ?_
    cases r with
    | transferCancelled i r => exact h
    | rejected i r => trivial
  | postPendingTransfer id =>
    exact (Transfer.postPendingTransfer_conducts hA).map fun _ _ h => h
  | resumeTransfer id => exact (Transfer.resume_conducts hA).map fun _ _ _ => trivial
  | startInitializingTransaction id spec =>
    exact (Transaction.startInitializingTransaction_opens hA).map fun _ _ h => h
  | startTransactionRollback id reason =>
    exact (Transaction.startTransactionRollback_conducts hA).map fun _ _ _ => trivial
  | resumeTransaction id =>
    refine (Transaction.resume_conducts hA fun ws w1 hlands hx => ?_).map fun _ _ _ => trivial
    exact hR id ws w1 ⟨hlands.1.1, hlands.2⟩ hx

/-- Every driver keeps the protocol. -/
theorem Driver.safe (hR : Refusals R guard) (d : Driver) (fuel : Nat) (w : World) :
    Safe (driverContract R guard d) (fun _ _ => True) (d.service fuel).run w :=
  Safe.mono (d.answers hR fuel w) fun _ _ _ _ => trivial

theorem Inv.tick {w w' : World} (h : Inv R w) (ht : w.Tick w') : Inv R w' := by
  have hle := World.le_of_tick ht
  obtain ⟨d, rfl⟩ := ht
  exact h.grow hle rfl (h.ledger.grow hle h.ledger.sound rfl)

theorem reachable_threads (hR : Refusals R guard)
    (h : Pool.Reachable (scheduler admits guard) .init c) :
    Inv R c.state ∧ Pool.Threadwise (driverContract R guard) c := by
  refine Pool.reachable_safe (C := driverContract R guard) (inv_init R)
    (fun w w' ht hinv => ⟨World.le_of_tick ht, hinv.tick ht⟩)
    ?_ (fun d o w hg hinv => ⟨hg, hinv⟩) (fun d o w r w' hinv _ hlegal hx => hinv.step hlegal hx) h
  rintro d p w ⟨-, fuel, rfl⟩
  exact d.safe hR fuel w

/-- **The invariant holds in every state of every run.** -/
theorem reachable_inv (hR : Refusals R guard)
    (h : Pool.Reachable (scheduler admits guard) .init c) : Inv R c.state :=
  (reachable_threads hR h).1

/-- **A driver about to perform an operation may perform it.** -/
theorem reachable_legal (hR : Refusals R guard)
    (h : Pool.Reachable (scheduler admits guard) .init c) {o : Op}
    {k : Resp o → Prog Op Resp (Except Err Reply)} (hm : (d, .op o k) ∈ c.threads)
    (hg : guard d o c.state) : Legal R o c.state :=
  (reachable_threads hR h).2.ensure hm ⟨hg, (reachable_threads hR h).1⟩

/-- What the drivers owe for an answer holds of every answer given. -/
theorem reachable_returned {Q : Driver → Reply → World → Prop}
    (hQ : ∀ d fuel w, Ensures (driverContract R guard d) (d.service fuel) (Q d) w)
    (h : Pool.Reachable (scheduler admits guard) .init c) {r : Reply}
    (hm : (d, .ret (.ok r)) ∈ c.threads) : Q d r c.state := by
  have hmeets : Inv R c.state ∧ Pool.Meets (driverContract R guard)
      (fun d r w => ∀ a, r = .ok a → Q d a w) c := by
    refine Pool.reachable_meets (C := driverContract R guard) (inv_init R)
      (fun w w' ht hinv => ⟨World.le_of_tick ht, hinv.tick ht⟩) ?_
      (fun d o w hg hinv => ⟨hg, hinv⟩)
      (fun d o w r w' hinv _ hlegal hx => hinv.step hlegal hx) h
    rintro d p w ⟨-, fuel, rfl⟩
    exact hQ d fuel w
  exact hmeets.2.returned hm r rfl

/-- **What a driver has answered is true.** -/
theorem reachable_answered (hR : Refusals R guard)
    (h : Pool.Reachable (scheduler admits guard) .init c) {r : Reply}
    (hm : (d, .ret (.ok r)) ∈ c.threads) : Answered R d r c.state :=
  reachable_returned (fun d fuel w => d.answers hR fuel w) h hm

/-- A further invariant `J`, kept by what the drivers owe under contracts of
their own beside the protocol. -/
structure Upholds (R : Prop) (admits : Driver → Prop) (guard : Driver → Op → World → Prop)
    (D : Driver → Contract World Op) (J : World → Prop) : Prop where
  init : J .init
  tick : ∀ w w' : World, w.Tick w' → J w → J w' := by
    rintro w w' ⟨d, rfl⟩ h
    exact h
  safe : ∀ d fuel w, admits d → Safe (D d) (fun _ _ => True) (d.service fuel).run w
  assume : ∀ d o w, guard d o w → Inv R w → J w → (D d).assume o w := by
    intros
    trivial
  step : ∀ d o w r w', Inv R w → Inv R w' → J w → guard d o w → Legal R o w →
    (D d).ensure o w → w.Exec o r w' → J w'

/-- The invariant and the further one. -/
def Upheld (R : Prop) (J : World → Prop) (w : World) : Prop := Inv R w ∧ J w

/-- The further invariant holds in every state of every run, and the drivers owe
what they owe. -/
theorem reachable_upheld (hR : Refusals R guard) {D : Driver → Contract World Op} {J : World → Prop}
    (hJ : Upholds R admits guard D J) (h : Pool.Reachable (scheduler admits guard) .init c) :
    Upheld R J c.state ∧
      Pool.Threadwise (fun d => (driverContract R guard d).both (D d)) c := by
  have h0 : Upheld R J .init := ⟨inv_init R, hJ.init⟩
  refine Pool.reachable_safe h0 ?_ ?_ ?_ ?_ h
  · intro w w' ht hw
    exact ⟨World.le_of_tick ht, hw.1.tick ht, hJ.tick w w' ht hw.2⟩
  · rintro d p w ⟨hd, fuel, rfl⟩
    exact ((d.safe hR fuel w).both (hJ.safe d fuel w hd)).mono fun _ _ _ _ => trivial
  · intro d o w hg hw
    exact ⟨⟨hg, hw.1⟩, hJ.assume d o w hg hw.1 hw.2⟩
  · intro d o w r w' hw hg he hx
    have hinv : Inv R w' := hw.1.step he.1 hx
    exact ⟨hinv, hJ.step d o w r w' hw.1 hinv hw.2 hg he.1 he.2 hx⟩

theorem steps_le {c' : System} (h : Pool.Steps (scheduler admits guard) c c') :
    c.state ≤ c'.state :=
  h.le fun _ _ ht => World.le_of_tick ht

theorem refusals_true : Refusals True guard := fun _ _ _ _ _ => trivial

/-- No cancel a Transaction's saga asks for is refused at this step. -/
def NoRefusal : Driver → Op → World → Prop
  | .resumeTransaction _, .appendAtomic ws, w =>
    (appendAtomic w.clock w.store ws).isOk = true → ∀ x ∈ ws, Transfer.refusesCancel x = false
  | _, _, _ => True

instance : ∀ d o w, Decidable (NoRefusal d o w) := by
  rintro ⟨⟩ ⟨⟩ w <;> delta NoRefusal <;> infer_instance

theorem refusals_false : Refusals False NoRefusal := by
  rintro tid ws w ⟨hguard, st, hst⟩ ⟨x, hx, hrefuses⟩
  have hnone : Transfer.refusesCancel x = false :=
    hguard (by rw [hst]; rfl) x hx
  simp [hnone] at hrefuses

/-- Every stream is numbered from 1, without a gap. -/
theorem gapFree_upheld : Upholds True (fun _ => True) (fun _ _ _ => True) (fun _ => Contract.free)
    (fun w => GapFree w.store) where
  init _ _ := rfl
  safe d fuel w _ := Safe.free (fun _ _ => trivial) _ w
  step d o w r w' _ _ h _ hlegal _ hx a id := by
    rcases exec_stream hlegal hx a id with hsame | ⟨ws, events, happ⟩
    · rw [hsame]
      exact h a id
    · rw [happ.stream, List.map_append, h a id, PostgresStore.rowsFrom_sequence,
        List.length_append, rowsFrom_length, Nat.add_comm _ 1, List.range'_append_1]

/-! ### Explicit runs -/

/-- Every driver may start. -/
abbrev freeRun (guard : Driver → Op → World → Prop) :
    Scheduler World Driver Op Resp (Except Err Reply) :=
  scheduler (fun _ => True) guard

section

variable {guard : Driver → Op → World → Prop}

/-- Start a driver. -/
def start (d : Driver) (fuel : Nat) : Move (freeRun guard) :=
  .spawn d (d.service fuel).run ⟨trivial, fuel, rfl⟩

/-- These drivers, each started once the one before it has ended; `n` drivers
were started before them. -/
def inTurn (n : Nat) (ds : List Driver) : List (Move (freeRun guard)) :=
  (ds.zipIdx n).flatMap fun d => [start d.1 20, .run d.2 1000]

/-- Every run there is includes those under a guard. -/
theorem reachable_any (h : Pool.Reachable (scheduler admits guard) .init c) :
    Pool.Reachable anyRun .init c :=
  h.mono (fun _ _ hs => ⟨trivial, hs.2⟩) (fun _ _ _ _ _ => trivial) fun _ _ ht => ht

variable [∀ d o w, Decidable (guard d o w)]

instance {d : Driver} {o : Op} {w : World} : Decidable ((freeRun guard).guard d o w) :=
  inferInstanceAs (Decidable (guard d o w))

/-- The state a schedule leads to from the beginning. -/
def playedUnder (moves : List (Move (freeRun guard))) : System := play moves ⟨.init, []⟩

theorem playedUnder_reachable (moves : List (Move (freeRun guard))) :
    Pool.Reachable (freeRun guard) .init (playedUnder moves) :=
  play_steps moves _

end

/-- The same for a schedule that is free to take any step. -/
def played (moves : List (Move anyRun)) : System := playedUnder moves

theorem played_reachable (moves : List (Move anyRun)) :
    Pool.Reachable anyRun .init (played moves) :=
  playedUnder_reachable moves

/-- The error thread `i` has returned. -/
def failedAt (c : System) (i : Nat) : Option Err :=
  match c.threads[i]? with
  | some (_, .ret (.error e)) => some e
  | _ => none

/-- The call thread `i` is about to make, if its next operation is one. -/
def callAt (c : System) (i : Nat) : Option Call :=
  match c.threads[i]? with
  | some (_, .op (.call call) _) => some call
  | _ => none

theorem mem_of_callAt {call : Call} (h : callAt c i = some call) :
    ∃ d k, (d, .op (.call call) k) ∈ c.threads := by
  unfold callAt at h
  split at h
  · rename_i d call' k hi
    cases h
    exact ⟨d, k, List.mem_of_getElem? hi⟩
  · simp at h

/-- Whether thread `i` has been given an answer that `p` accepts. -/
def answeredAt (c : System) (i : Nat) (p : Driver → Reply → Bool) : Bool :=
  match c.threads[i]? with
  | some (d, .ret (.ok r)) => p d r
  | _ => false

theorem of_answeredAt {p : Driver → Reply → Bool} (h : answeredAt c i p = true) :
    ∃ d r, c.threads[i]? = some (d, .ret (.ok r)) ∧ p d r = true := by
  unfold answeredAt at h
  split at h
  · rename_i d r hi
    exact ⟨d, r, hi, h⟩
  · simp at h

theorem mem_of_answeredAt {p : Driver → Reply → Bool} (h : answeredAt c i p = true) :
    ∃ d r, (d, .ret (.ok r)) ∈ c.threads ∧ p d r = true := by
  obtain ⟨d, r, hi, hp⟩ := of_answeredAt h
  exact ⟨d, r, List.mem_of_getElem? hi, hp⟩

/-- A Transaction of one child, which brings `amount` in through Wallet `source`
to Wallet `dest`. -/
def depositSpec (child source dest : Id) (amount : Money) : Spec where
  transfers := ⟨[(child, ⟨child, some amount, source, dest, false, true⟩)], List.nodup_singleton _⟩
  transferDependency := ⟨[], List.nodup_nil⟩

/-- Two Wallets are opened, `uuid 0` for money to enter through and `uuid 1`, and
Transaction `uuid 2` brings 100 in by its child `uuid 3`. -/
def deposit : List Driver :=
  [.openWallet ⟨.uuid 0, .uuid 100, "bank", .onramp⟩,
    .openWallet ⟨.uuid 1, .uuid 100, "payer", .none⟩,
    .startInitializingTransaction (.uuid 2)
      (depositSpec (.uuid 3) (.uuid 0) (.uuid 1) ⟨100, "USD"⟩),
    .resumeTransaction (.uuid 2), .resumeTransfer (.uuid 3), .resumeTransaction (.uuid 2)]

end MoneyFlow
