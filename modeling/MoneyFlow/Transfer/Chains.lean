import MoneyFlow.Ledger.Sound
import MoneyFlow.Transfer.Fold

/-!
# MoneyFlow.Transfer.Chains

A Transfer's batch goes to the ledger as consecutive linked chains. Chain `c` of
a batch over `legs` is the linked batch over the `c`-th **window** of the legs,
and the ledger takes each chain as one linked run (`createTransfers_link`).
-/

namespace MoneyFlow.Transfer

variable {α : Type} {c : Nat} {ts batch : List LedgerTransfer}

theorem batchMax_pos : 0 < batchMax := by decide

/-- The legs chain `c` covers. -/
def window {α : Type} (xs : List α) (c : Nat) : List α := (xs.drop (c * batchMax)).take batchMax

theorem window_map {β : Type} (f : α → β) (xs : List α) (c : Nat) :
    window (xs.map f) c = (window xs c).map f := by
  simp [window, List.map_drop, List.map_take]

theorem window_length_le (xs : List α) (c : Nat) : (window xs c).length ≤ batchMax := by
  simp only [window, List.length_take]
  omega

theorem mem_of_mem_window {xs : List α} {x : α} (h : x ∈ window xs c) : x ∈ xs :=
  List.mem_of_mem_drop (List.mem_of_mem_take h)

theorem window_zero_of_le {xs : List α} (h : xs.length ≤ batchMax) : window xs 0 = xs := by
  simp [window, List.take_of_length_le h]

theorem window_drop (xs : List α) (c : Nat) : window (xs.drop batchMax) c = window xs (c + 1) := by
  simp only [window, List.drop_drop, Nat.add_mul, Nat.one_mul, Nat.add_comm]

/-- Every element is in some window. -/
theorem exists_mem_window {xs : List α} {x : α} (h : x ∈ xs) : ∃ c, x ∈ window xs c := by
  obtain ⟨n, hn, rfl⟩ := List.mem_iff_getElem.mp h
  have hmod : n % batchMax < batchMax := Nat.mod_lt n batchMax_pos
  have hdiv : n / batchMax * batchMax + n % batchMax = n := Nat.div_add_mod' n batchMax
  refine ⟨n / batchMax, List.mem_iff_getElem.mpr ⟨n % batchMax, ?_, ?_⟩⟩
  · simp only [window, List.length_take, List.length_drop]
    omega
  · simp only [window, List.getElem_take, List.getElem_drop, hdiv]

/-! ### Linking -/

/-- What the ledger stores of a transfer, under its id. -/
def entry (t : LedgerTransfer) : Id × StoredTransfer := (t.id, .of t)

theorem link_entries : ∀ ts : List LedgerTransfer, (link ts).map entry = ts.map entry
  | [] => rfl
  | [_] => rfl
  | t :: u :: ts => by
    have ih := link_entries (u :: ts)
    simp only [link, List.map_cons] at ih ⊢
    rw [ih]
    rfl

@[simp] theorem link_length : ∀ ts : List LedgerTransfer, (link ts).length = ts.length
  | [] => rfl
  | [_] => rfl
  | t :: u :: ts => by
    have ih := link_length (u :: ts)
    simp only [link, List.length_cons] at ih ⊢
    omega

theorem link_ids (ts : List LedgerTransfer) :
    (link ts).map LedgerTransfer.id = ts.map LedgerTransfer.id := by
  have h := congrArg (List.map Prod.fst) (link_entries ts)
  simpa [entry, Function.comp_def] using h

theorem mem_link {t : LedgerTransfer} (h : t ∈ link ts) : ∃ u ∈ ts, entry u = entry t := by
  have : entry t ∈ (link ts).map entry := List.mem_map.mpr ⟨t, h, rfl⟩
  rw [link_entries] at this
  obtain ⟨u, hu, he⟩ := List.mem_map.mp this
  exact ⟨u, hu, he⟩

theorem mem_link' {u : LedgerTransfer} (h : u ∈ ts) : ∃ t ∈ link ts, entry t = entry u := by
  have : entry u ∈ ts.map entry := List.mem_map.mpr ⟨u, h, rfl⟩
  rw [← link_entries] at this
  obtain ⟨t, ht, he⟩ := List.mem_map.mp this
  exact ⟨t, ht, he⟩

theorem splitRuns_link : ∀ {ts : List LedgerTransfer}, ts ≠ [] →
    Ledger.splitRuns (·.linked) (link ts) = some [link ts]
  | [], h => absurd rfl h
  | [t], _ => by simp [link, Ledger.splitRuns]
  | t :: u :: ts, _ => by
    have ih := splitRuns_link (List.cons_ne_nil u ts)
    simp [link, Ledger.splitRuns, ih]

/-- The ledger takes a chain as one linked run. -/
theorem createTransfers_link {l : Ledger} (hne : ts ≠ []) (hlen : ts.length ≤ batchMax) :
    l.createTransfers (link ts) =
      (.ok (l.createTransferRun (link ts)).1, (l.createTransferRun (link ts)).2) := by
  have hsize : Ledger.checkBatchSize ts.length = .ok () := by
    simp [Ledger.checkBatchSize, hlen]
  simp [Ledger.createTransfers, hsize, Ledger.linkedRuns, splitRuns_link hne,
    Ledger.createTransferRuns]

/-! ### Cutting -/

theorem cut_cons {n : Nat} (h : batch ≠ []) :
    cut (n + 1) batch = link (batch.take batchMax) :: cut n (batch.drop batchMax) := by
  cases batch with
  | nil => exact absurd rfl h
  | cons t ts => rfl

theorem cut_get : ∀ {n : Nat} {batch : List LedgerTransfer} {c : Nat} {chain : List LedgerTransfer},
    (cut n batch)[c]? = some chain → chain = link (window batch c) ∧ window batch c ≠ []
  | 0, _, _, _, h => by simp [cut] at h
  | _ + 1, [], _, _, h => by simp [cut] at h
  | n + 1, t :: ts, 0, chain, h => by
    rw [cut_cons (by simp)] at h
    simp only [List.getElem?_cons_zero, Option.some.injEq] at h
    refine ⟨by simp [← h, window], ?_⟩
    simp [window, batchMax_pos.ne']
  | n + 1, t :: ts, c + 1, chain, h => by
    rw [cut_cons (by simp), List.getElem?_cons_succ] at h
    have ih := cut_get h
    rwa [window_drop] at ih

theorem cut_length {n : Nat} (h : batch.length ≤ n) (hw : window batch c ≠ []) :
    c < (cut n batch).length := by
  induction n generalizing batch c with
  | zero =>
    obtain rfl : batch = [] := by simpa using h
    simp [window] at hw
  | succ n ih =>
    have hne : batch ≠ [] := by
      rintro rfl
      simp [window] at hw
    rw [cut_cons hne, List.length_cons]
    cases c with
    | zero => omega
    | succ c =>
      have hlen : (batch.drop batchMax).length ≤ n := by
        have hpos := batchMax_pos
        rw [List.length_drop]
        omega
      rw [← window_drop] at hw
      have := ih hlen hw
      omega

/-- Chain `c` of a batch is its `c`-th window, linked. -/
theorem chains_get {chain : List LedgerTransfer} (h : (chains batch)[c]? = some chain) :
    chain = link (window batch c) ∧ window batch c ≠ [] :=
  cut_get h

end MoneyFlow.Transfer
