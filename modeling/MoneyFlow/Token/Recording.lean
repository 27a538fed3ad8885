import MoneyFlow.Concurrent.Run
import MoneyFlow.Drivers
import MoneyFlow.Runs

/-!
# MoneyFlow.Token.Recording

Recorded balances are in ledger order.

Whoever publishes a balance reads the Token's stream first and the ledger after
it, and appends where the stream was seen to end. So a record that lands at
position `j` was read off the ledger when the stream held exactly the `j` events
before it, that is, after all of them had been appended.

A thread's contract here, `recording`, speaks of what this thread has performed
(`V`): it asks that a published balance is one the thread was answered by the
ledger at a time when the stream was at least as long as the position it is
written to. Every driver keeps it (`recording_observing`), and the order of reads
and appends follows from that a stream only grows.
-/

namespace MoneyFlow

open Concurrent Service

namespace Token

variable {V : Op → World → Prop} {w w' : World}

/-- The ledger answered `bs` when the Token's stream already held `seq` events. -/
def Observed (V : Op → World → Prop) (w : World) (bs : Id → Option Ledger.Balance)
    (tok : Id) (seq : Nat) : Prop :=
  ∃ ids w0, V (.balances ids) w0 ∧ w0 ≤ w ∧ tok ∈ ids ∧ seq ≤ (w0.token tok).length ∧
    bs = w0.ledger.balances ids

theorem Observed.grow {bs : Id → Option Ledger.Balance} {tok : Id} {seq : Nat}
    (h : Observed V w bs tok seq) (hle : w ≤ w') : Observed V w' bs tok seq := by
  obtain ⟨ids, w0, hv, h0, hin, hseq, hbs⟩ := h
  exact ⟨ids, w0, hv, h0.trans hle, hin, hseq, hbs⟩

/-- If the write publishes a balance, it is one that was observed, and nothing else
is written with it. -/
def Snapshot (V : Op → World → Prop) (w : World) : StreamWrite → Prop
  | ⟨.token, tok, seq, events⟩ => ∀ e : TokenEvent, e ∈ events → e.isBalance = true →
      events = [e] ∧ ∃ wid bs, Observed V w bs tok seq ∧ balanceRecorded tok wid bs = .ok e
  | _ => True

/-- A thread only publishes balances it has observed. -/
def recording (V : Op → World → Prop) : Contract World Op where
  assume := V
  ensure
    | .appendAtomic ws, w => ∀ x ∈ ws, Snapshot V w x
    | _, _ => True

theorem snapshot_of_within {x : StreamWrite} (h : x.Within elsewhere) : Snapshot V w x := by
  obtain ⟨a, id, seq, events⟩ := x
  cases a with
  | token =>
    intro e he hb
    rw [(show ∀ e : TokenEvent, e ∈ events → e.isBalance = false from h) e he] at hb
    exact absurd hb Bool.false_ne_true
  | _ => trivial

theorem snapshot_of_records {x : StreamWrite}
    (h : Records (fun w bs tok stream => Observed V w bs tok stream.seq) w x) (hle : w ≤ w') :
    Snapshot V w' x := by
  obtain ⟨bs, tok, stream, e, hobs, he, rfl⟩ := h
  intro e' he' _
  obtain rfl := List.mem_singleton.mp he'
  exact ⟨rfl, stream.walletID, bs, hobs.grow hle, he⟩

theorem recording_free (o : Op) (ho : o.isFree = true) : Permits (recording V) o := by
  intro w _
  cases o with
  | appendAtomic => exact absurd ho Bool.false_ne_true
  | _ => trivial

/-- A stream that has been loaded is at least that long from now on, so the balances
the ledger answers after it are observed. -/
theorem recording_observing : Observing (recording V)
    (fun w tok stream => stream.seq ≤ (w.token tok).length)
    (fun w bs tok stream => Observed V w bs tok stream.seq) where
  reads o ho := recording_free o (Op.isFree_of_isRead ho)
  read h := (tokenStreamOf_seq h).le
  readLater h hle := h.trans (hle.stream .token _).length_le
  seen hv hin h := ⟨_, _, hv, le_rfl, hin, h, rfl⟩
  seenLater h hle := h.grow hle
  record h _ hle _ _ hx := List.mem_singleton.mp hx ▸ snapshot_of_records h hle

theorem recording_lenient : Lenient (recording V) elsewhere :=
  recording_observing.lenient recording_free fun hws _ hle _ x hx =>
    (hws x hx).elim snapshot_of_within fun h => snapshot_of_records h hle

/-- Every driver only publishes balances it has observed. -/
theorem driver_records (d : Driver) (fuel : Nat) (w : World) :
    Safe (recording V) (fun _ _ => True) (d.service fuel).run w :=
  have hledger (ts : List LedgerTransfer) : Permits (recording V) (.createTransfers ts) := fun _ _ => trivial
  recording_lenient.driver hledger d fun _ hd =>
    (recording_lenient.regular hledger).onTransaction hd fun _ _ _ _ _ hx =>
      List.mem_singleton.mp hx ▸ trivial

/-! ### Runs -/

variable {run : Run anyRun .init} {tok : Id} {j : Nat} {e : TokenEvent}

/-- Position `j` of the Token's stream holds the balance `e`. -/
def RecordedAt (w : World) (tok : Id) (j : Nat) (e : TokenEvent) : Prop :=
  (w.token tok)[j]?.map Row.event = some e ∧ e.isBalance = true

/-- Position `j` of the Token's stream is written at step `k`. -/
def WrittenAt (run : Run anyRun .init) (tok : Id) (j k : Nat) : Prop :=
  k < run.length ∧ ((run.state k).token tok).length ≤ j ∧
    j < ((run.state (k + 1)).token tok).length

/-- The thread started `i`-th read `e` off the ledger at step `r`, and appended it
as position `j` of the Token's stream at step `a`. -/
structure RecordedBy (run : Run anyRun .init) (tok : Id) (j : Nat) (e : TokenEvent)
    (i r a : Nat) : Prop where
  read : ∃ ids wid, tok ∈ ids ∧ run.Performs i (.balances ids) r ∧
    balanceRecorded tok wid ((run.state r).ledger.balances ids) = .ok e
  append : ∃ ws, StreamWrite.mk .token tok j [e] ∈ ws ∧ run.Performs i (.appendAtomic ws) a
  written : WrittenAt run tok j a
  order : r < a

theorem append_ensures {i k : Nat} {ws : List StreamWrite}
    (h : run.Performs i (.appendAtomic ws) k) :
    ∀ x ∈ ws, Snapshot (run.Performed i) (run.state k) x := by
  refine run.ensures (fun _ _ => World.le_of_tick) (C := fun i => recording (run.Performed i))
    (Q := fun _ _ => True) ?_ (fun i o k hp => ⟨k, hp, rfl⟩) h
  rintro i d p w ⟨-, fuel, rfl⟩
  exact driver_records d fuel w

theorem token_mono (tok : Id) {k k' : Nat} (hle : k ≤ k') (hk : k' ≤ run.length) :
    (run.state k).token tok <+: (run.state k').token tok :=
  (run.state_mono (fun _ _ => World.le_of_tick) hle hk).stream .token tok

/-- A stream holds what was appended to it: the step that wrote a position. -/
theorem exists_writtenAt (h : j < (run.final.token tok).length) :
    ∃ k, WrittenAt run tok j k := by
  obtain ⟨k, hk, hno, hyes⟩ := run.exists_step
    (P := fun w => j < (w.token tok).length) (Nat.not_lt_zero j) h
  exact ⟨k, hk, Nat.le_of_not_lt hno, hyes⟩

/-- A position written at some step was written by an append that named it. -/
theorem performs_of_writtenAt {k : Nat} (h : WrittenAt run tok j k) :
    ∃ i ws events, run.Performs i (.appendAtomic ws) k ∧
      StreamWrite.mk .token tok ((run.state k).token tok).length events ∈ ws ∧
      (run.state (k + 1)).token tok = (run.state k).token tok ++
        rowsFrom (run.state k).clock ((run.state k).token tok).length events := by
  obtain ⟨hk, hle, hlt⟩ := h
  have hmoved : (run.state (k + 1)).store ≠ (run.state k).store := by
    intro hsame
    rw [World.token, hsame] at hlt
    exact absurd hlt (Nat.not_lt_of_le hle)
  rcases run.step_cases hk with ⟨hs, -⟩ | ⟨i, o, hp⟩ | ⟨⟨d, hs⟩, -⟩
  · exact absurd (congrArg World.store hs) hmoved
  · obtain ⟨-, t, next, r, -, -, hx, -⟩ := id hp
    change (run.state k).Exec o r (run.state (k + 1)) at hx
    rcases exec_store hx with hsame | ⟨ws, st, rfl, hst, hs⟩
    · exact absurd hsame hmoved
    · rcases appendAtomic_stream hst .token tok with hsame | ⟨events, hmem, hland⟩
      · have hlen : ((run.state (k + 1)).token tok).length = ((run.state k).token tok).length := by
          rw [hs]
          exact congrArg List.length hsame
        omega
      · exact ⟨i, ws, events, hp, hmem, by rw [hs]; exact hland⟩
  · exact absurd (congrArg World.store hs) hmoved

/-- Every recorded balance was read off the ledger and appended by one thread, and
at the reading the stream held just the events before it. -/
theorem exists_recordedBy (h : RecordedAt run.final tok j e) :
    ∃ i r a, RecordedBy run tok j e i r a ∧ ((run.state r).token tok).length = j := by
  obtain ⟨hrow, hbal⟩ := h
  have hj : j < (run.final.token tok).length := by
    by_contra hno
    simp [List.getElem?_eq_none (Nat.le_of_not_lt hno)] at hrow
  obtain ⟨a, hwritten⟩ := exists_writtenAt hj
  obtain ⟨i, ws, events, hp, hmem, hland⟩ := performs_of_writtenAt hwritten
  obtain ⟨ha, hle, hlt⟩ := hwritten
  have hin : e ∈ events := by
    obtain ⟨row, hget, rfl⟩ := Option.map_eq_some_iff.mp hrow
    obtain ⟨rest, hrest⟩ := token_mono tok (Nat.succ_le_of_lt ha) le_rfl
    rw [Run.final, ← hrest, List.getElem?_append_left hlt, hland,
      List.getElem?_append_right hle] at hget
    have hm := List.mem_map_of_mem (f := Row.event) (List.mem_of_getElem? hget)
    rwa [rowsFrom_event] at hm
  obtain ⟨rfl, wid, bs, ⟨ids, w0, ⟨r, hr, rfl⟩, hle0, htok, hseq, rfl⟩, he⟩ :=
    append_ensures hp _ hmem e hin hbal
  rw [hland, List.length_append, rowsFrom_length, List.length_singleton] at hlt
  have hlen : ((run.state a).token tok).length = j := by omega
  rw [hlen] at hmem hseq
  have hread : ((run.state r).token tok).length = j := by
    have := (hle0.stream .token tok).length_le
    simp only [World.token] at hlen hseq ⊢
    omega
  -- the stream was shorter at the reading than after the append
  have horder : r ≤ a := by
    by_contra hno
    have hgrown := (token_mono tok (Nat.succ_le_of_lt (Nat.lt_of_not_le hno))
      hr.1.le).length_le
    rw [hland, List.length_append, rowsFrom_length, List.length_singleton] at hgrown
    omega
  have hne : r ≠ a := by
    rintro rfl
    exact absurd (hr.op_eq hp) (by simp)
  refine ⟨i, r, a, ⟨⟨ids, wid, htok, hr, he⟩, ⟨ws, hmem, hp⟩, ⟨ha, hlen.le, ?_⟩, ?_⟩, hread⟩
  · rw [hland, List.length_append, rowsFrom_length, List.length_singleton]
    omega
  · omega

/-- A reading that found a position written came after its append. -/
theorem WrittenAt.lt {k r : Nat} (h : WrittenAt run tok j k)
    (hj : j < ((run.state r).token tok).length) : k < r := by
  by_contra hno
  have := (token_mono tok (Nat.le_of_not_lt hno) h.1.le).length_le
  have := h.2.1
  omega

/-- **Recorded balances are in ledger order.** In every run, every recorded balance
was read off the ledger by the thread that appended it, after every earlier event
of the stream was appended; so the ledger states behind the records of one stream
are of increasing time. -/
theorem recorded_in_ledger_order (run : Run anyRun .init) (tok : Id) (j : Nat) (e : TokenEvent)
    (h : RecordedAt run.final tok j e) :
    ∃ i r a, RecordedBy run tok j e i r a ∧
      (∀ j' < j, ∀ a', WrittenAt run tok j' a' → a' < r) ∧
      ∀ j' < j, ∀ e' i' r' a', RecordedBy run tok j' e' i' r' a' → r' < a' ∧ a' < r := by
  obtain ⟨i, r, a, hby, hlen⟩ := exists_recordedBy h
  have hafter : ∀ j' < j, ∀ a', WrittenAt run tok j' a' → a' < r :=
    fun j' hj' a' hw => hw.lt (by omega)
  refine ⟨i, r, a, hby, hafter, fun j' hj' e' i' r' a' hby' => ?_⟩
  exact ⟨hby'.order, hafter j' hj' a' hby'.written⟩

/-- A deposit of 100, of which 40 are then paid on. -/
def paidOn : List (Move anyRun) :=
  inTurn 0 (deposit ++ [.openWallet ⟨.uuid 4, .uuid 100, "payee", .none⟩,
    .requestTransfer ⟨.uuid 5, .uuid 1, .uuid 4, some ⟨40, "USD"⟩, false, false, Id.empty⟩,
    .resumeTransfer (.uuid 5)])

theorem recorded_in_ledger_order_paid : ∃ run : Run anyRun .init, ∃ e e' i r a,
    RecordedAt run.final (.destinationToken (.uuid 3)) 1 e' ∧
    RecordedAt run.final (.destinationToken (.uuid 3)) 2 e ∧
    RecordedBy run (.destinationToken (.uuid 3)) 2 e i r a ∧
    ∀ i' r' a', RecordedBy run (.destinationToken (.uuid 3)) 1 e' i' r' a' → r' < a' ∧ a' < r := by
  obtain ⟨run, hrun⟩ := Run.of_reachable (played_reachable paidOn)
  have hfinal : run.final = (played paidOn).state := congrArg Pool.state hrun
  have h1 : RecordedAt run.final (.destinationToken (.uuid 3)) 1
      (.tokenBalanceRecorded (.destinationToken (.uuid 3)) (.uuid 1) "USD" 100 0 0) := by
    rw [hfinal]
    exact ⟨by decide +kernel, rfl⟩
  have h2 : RecordedAt run.final (.destinationToken (.uuid 3)) 2
      (.tokenBalanceRecorded (.destinationToken (.uuid 3)) (.uuid 1) "USD" 60 0 0) := by
    rw [hfinal]
    exact ⟨by decide +kernel, rfl⟩
  obtain ⟨i, r, a, hby, -, horder⟩ := recorded_in_ledger_order run _ 2 _ h2
  exact ⟨run, _, _, i, r, a, h1, h2, hby, horder 1 (by decide) _⟩

end Token

end MoneyFlow
