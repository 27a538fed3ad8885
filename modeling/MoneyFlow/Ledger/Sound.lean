import MoneyFlow.Ledger

/-!
# MoneyFlow.Ledger.Sound

What holds of the ledger whatever is asked of it, as long as no request names
an id twice: an id is applied at most once, a refused id never, and a
reservation is settled at most once, by a post or by a void.

`createTransferRun_sound` is the one step; it is proved by running the commits
of a linked run beside the tentative state that judged them (`Tracks`).
-/

namespace MoneyFlow

variable {l : Ledger} {t : LedgerTransfer} {i : Id} {run : List LedgerTransfer}
  {st : StoredTransfer}

/-- The reservation state a transfer of this kind leaves behind, if it settles
one. -/
def TransferKind.settles : TransferKind → Option PendingStatus
  | .postPending => some .posted
  | .voidPending => some .voided
  | _ => none

namespace Ledger

/-- The ids applied so far. -/
def ids (l : Ledger) : List Id := l.transfers.map Prod.fst

/-- The transfer is applied, with these fields. -/
def Applied (l : Ledger) (t : LedgerTransfer) : Prop := (t.id, StoredTransfer.of t) ∈ l.transfers

theorem Applied.grow {l' : Ledger} (h : l.Applied t) (hg : l.Grows l') :
    l'.Applied t := hg.transfers.subset h

theorem Applied.mem_ids (h : l.Applied t) : t.id ∈ l.ids :=
  List.mem_map.mpr ⟨_, h, rfl⟩

/-- What holds of every ledger. -/
structure Sound (l : Ledger) : Prop where
  /-- An id is applied at most once. -/
  nodup : l.ids.Nodup
  /-- A refused id never is. -/
  refused : ∀ i ∈ l.refused, i ∉ l.ids
  /-- A reservation is on record as long as it is applied. -/
  reserved : ∀ i st, (i, st) ∈ l.transfers → st.kind = .pending →
    ∃ rec, l.pending i = some rec ∧ rec.debitAccountID = st.debitAccountID ∧
      rec.creditAccountID = st.creditAccountID ∧ rec.minorUnits = st.minorUnits
  reservation : ∀ i rec, l.pending i = some rec → ∃ st, (i, st) ∈ l.transfers ∧ st.kind = .pending
  /-- A settled reservation is no longer open. -/
  settled : ∀ i st s, (i, st) ∈ l.transfers → st.kind.settles = some s →
    ∃ rec, l.pending st.pendingID = some rec ∧ rec.status = s
  /-- A reservation is settled at most once. -/
  once : ∀ i st j st' s s', (i, st) ∈ l.transfers → (j, st') ∈ l.transfers →
    st.kind.settles = some s → st'.kind.settles = some s' → st.pendingID = st'.pendingID → i = j

theorem sound_empty : Ledger.empty.Sound where
  nodup := List.nodup_nil
  refused := by simp [Ledger.empty]
  reserved := by simp [Ledger.empty]
  reservation := by simp [Ledger.empty]
  settled := by simp [Ledger.empty]
  once := by simp [Ledger.empty]

theorem Sound.accounts (h : l.Sound) (m : Id → Option StoredAccount) :
    Sound { l with accounts := m } :=
  ⟨h.nodup, h.refused, h.reserved, h.reservation, h.settled, h.once⟩

/-- Two applied transfers of one id are the same. -/
theorem Sound.unique (h : l.Sound) {st' : StoredTransfer} (h1 : (i, st) ∈ l.transfers)
    (h2 : (i, st') ∈ l.transfers) : st = st' := by
  have := List.inj_on_of_nodup_map h.nodup h1 h2 rfl
  exact congrArg Prod.snd this

theorem mem_ids_of_mem (h : (i, st) ∈ l.transfers) : i ∈ l.ids :=
  List.mem_map.mpr ⟨_, h, rfl⟩

theorem lookup_none_iff : l.transfers.lookup i = none ↔ i ∉ l.ids := by
  unfold ids
  induction l.transfers with
  | nil => simp
  | cons e es ih =>
    rw [List.lookup_cons]
    by_cases h : i = e.1
    · simp [h]
    · simp [beq_false_of_ne h, ih, h]

theorem mem_of_lookup (h : l.transfers.lookup i = some st) : (i, st) ∈ l.transfers := by
  revert h
  induction l.transfers with
  | nil => simp
  | cons e es ih =>
    rw [List.lookup_cons]
    by_cases h : i = e.1
    · simp only [h, beq_self_eq_true]
      rintro ⟨rfl⟩
      exact List.mem_cons_self
    · simp only [beq_false_of_ne h]
      exact fun hl => List.mem_cons_of_mem _ (ih hl)

/-! ### Committing one transfer -/

theorem mem_commit : (i, st) ∈ (l.commit t).transfers ↔
    (i, st) ∈ l.transfers ∨ i = t.id ∧ st = .of t := by
  simp

theorem commit_pending_other (l : Ledger) (t : LedgerTransfer) {p : Id}
    (hid : t.kind = .pending → p ≠ t.id) (hp : t.kind.settles.isSome = true → p ≠ t.pendingID) :
    (l.commit t).pending p = l.pending p := by
  cases hk : t.kind with
  | unspecified | regular => simp [commit, hk]
  | pending => simp [commit, hk, Function.update_of_ne (hid hk)]
  | postPending | voidPending =>
    simp [commit, hk, Function.update_of_ne (hp (by simp [hk, TransferKind.settles]))]

/-- Committing a settlement sets the state of its reservation and nothing else. -/
theorem commit_pending_settles {s : PendingStatus} (hs : t.kind.settles = some s) :
    (l.commit t).pending =
      Function.update l.pending t.pendingID
        ((l.pending t.pendingID).map fun rec => { rec with status := s }) := by
  cases hk : t.kind <;> simp [hk, TransferKind.settles] at hs <;> subst hs <;> simp [commit, hk]

/-- What was never applied is not reserved. -/
theorem Sound.pending_none (h : l.Sound) (hnew : i ∉ l.ids) : l.pending i = none := by
  cases hl : l.pending i with
  | none => rfl
  | some rec =>
    obtain ⟨st, hst, -⟩ := h.reservation _ _ hl
    exact absurd (mem_ids_of_mem hst) hnew

/-- A fresh transfer keeps the ledger sound: its id is new and not refused, and
a reservation it settles is open. -/
theorem Sound.commit (h : l.Sound) (hnew : t.id ∉ l.ids) (href : t.id ∉ l.refused)
    (hopen : t.kind.settles.isSome = true →
      ∃ rec, l.pending t.pendingID = some rec ∧ rec.status = .open) : (l.commit t).Sound := by
  have hfresh {i : Id} {st : StoredTransfer} (hm : (i, st) ∈ l.transfers) : i ≠ t.id :=
    fun heq => hnew (heq ▸ mem_ids_of_mem hm)
  -- no transfer applied so far settles what `t` settles
  have hunsettled {i : Id} {st : StoredTransfer} {s : PendingStatus}
      (hm : (i, st) ∈ l.transfers) (hs : st.kind.settles = some s)
      (ht : t.kind.settles.isSome = true) : st.pendingID ≠ t.pendingID := by
    intro hp
    obtain ⟨rec, hrec, hst⟩ := hopen ht
    obtain ⟨rec', hrec', rfl⟩ := h.settled i st s hm hs
    rw [hp, hrec] at hrec'
    cases hrec'
    cases hk : st.kind <;> simp [hk, TransferKind.settles, hst] at hs
  refine ⟨?_, ?_, ?_, ?_, ?_, ?_⟩
  · simpa [ids, List.concat_eq_append] using h.nodup.concat hnew
  · intro i hi hm
    simp only [ids, commit_transfers, List.map_append, List.mem_append, List.map_cons,
      List.map_nil, List.mem_singleton] at hm
    rcases hm with hm | rfl
    · exact h.refused i hi hm
    · exact href hi
  · intro i st hm hk
    rcases mem_commit.mp hm with hm | ⟨rfl, rfl⟩
    · obtain ⟨rec, hrec, hfields⟩ := h.reserved i st hm hk
      by_cases hp : t.kind.settles.isSome = true ∧ i = t.pendingID
      · obtain ⟨s, hs⟩ := Option.isSome_iff_exists.mp hp.1
        rw [commit_pending_settles hs, ← hp.2]
        exact ⟨{ rec with status := s }, by simp [hrec], hfields⟩
      · rw [commit_pending_other l t (fun _ => hfresh hm) (not_and.mp hp)]
        exact ⟨rec, hrec, hfields⟩
    · have hk' : t.kind = .pending := hk
      exact ⟨_, by simp only [Ledger.commit, hk', Function.update_self]; rfl, rfl, rfl, rfl⟩
  · intro i rec hrec
    by_cases hown : t.kind = .pending ∧ i = t.id
    · exact ⟨.of t, mem_commit.mpr (Or.inr ⟨hown.2, rfl⟩), hown.1⟩
    · have hold : ∃ r, l.pending i = some r := by
        by_cases hp : t.kind.settles.isSome = true ∧ i = t.pendingID
        · obtain ⟨r, hr, -⟩ := hopen hp.1
          exact ⟨r, hp.2 ▸ hr⟩
        · rw [commit_pending_other l t (not_and.mp hown) (not_and.mp hp)] at hrec
          exact ⟨rec, hrec⟩
      obtain ⟨r, hr⟩ := hold
      obtain ⟨st, hst, hk⟩ := h.reservation i r hr
      exact ⟨st, mem_commit.mpr (Or.inl hst), hk⟩
  · intro i st s hm hs
    rcases mem_commit.mp hm with hm | ⟨rfl, rfl⟩
    · obtain ⟨rec, hrec, hst⟩ := h.settled i st s hm hs
      obtain ⟨r, hr, -⟩ := h.reservation _ _ hrec
      rw [commit_pending_other l t (fun _ => hfresh hr) (hunsettled hm hs)]
      exact ⟨rec, hrec, hst⟩
    · have hs : t.kind.settles = some s := hs
      obtain ⟨rec, hrec, -⟩ := hopen (by simp [hs])
      rw [commit_pending_settles hs]
      exact ⟨{ rec with status := s }, by simp [StoredTransfer.of, hrec], rfl⟩
  · intro i st j st' s s' hi hj hs hs' hp
    rcases mem_commit.mp hi with hi | ⟨rfl, rfl⟩ <;> rcases mem_commit.mp hj with hj | ⟨rfl, rfl⟩
    · exact h.once i st j st' s s' hi hj hs hs' hp
    · exact absurd hp (hunsettled hi hs (Option.isSome_of_eq_some hs'))
    · exact absurd hp.symm (hunsettled hj hs' (Option.isSome_of_eq_some hs))
    · rfl

/-! ### Committing a run -/

@[simp] theorem fresh_nil (rs : List TransferResultCode) : fresh [] rs = [] := by
  simp [fresh]

theorem fresh_cons (t : LedgerTransfer) (ts : List LedgerTransfer) (r : TransferResultCode)
    (rs : List TransferResultCode) :
    fresh (t :: ts) (r :: rs) = if r = .ok then t :: fresh ts rs else fresh ts rs := by
  by_cases h : r = .ok <;> simp [fresh, h]

/-- The tentative reservation states are those the commits so far would leave,
for every reservation the run found on record. -/
def Tracks (l : Ledger) (sh : Shadow) (lk : Ledger) : Prop :=
  ∀ p rec, l.pending p = some rec →
    ∃ status, lk.pending p = some { rec with status := status } ∧ sh.pendingStatus p = some status

theorem tracks_shadow (l : Ledger) : Tracks l l.shadow l := by
  intro p rec h
  exact ⟨rec.status, h, by simp [shadow, h]⟩

theorem moveStatus_settles {s : PendingStatus} (hs : t.kind.settles = some s)
    (status : Id → Option PendingStatus) :
    moveStatus t status = Function.update status t.pendingID (some s) := by
  cases hk : t.kind <;> simp [hk, TransferKind.settles] at hs <;> subst hs <;>
    simp [moveStatus, hk]

theorem moveStatus_other {p : Id} (hp : t.kind.settles.isSome = true → p ≠ t.pendingID)
    (status : Id → Option PendingStatus) : moveStatus t status p = status p := by
  cases hs : t.kind.settles with
  | none => cases hk : t.kind <;> simp [hk, TransferKind.settles] at hs <;> simp [moveStatus, hk]
  | some s => rw [moveStatus_settles hs, Function.update_of_ne (hp (by simp [hs]))]

theorem Tracks.commit {lk : Ledger} {sh : Shadow} (h : Tracks l sh lk)
    (hnew : l.pending t.id = none) {sh' : Shadow}
    (hsh : sh'.pendingStatus = moveStatus t sh.pendingStatus) : Tracks l sh' (lk.commit t) := by
  intro p rec hp
  obtain ⟨status, hrec, hst⟩ := h p rec hp
  rw [hsh]
  by_cases hown : t.kind.settles.isSome = true ∧ p = t.pendingID
  · obtain ⟨s, hs⟩ := Option.isSome_iff_exists.mp hown.1
    rw [commit_pending_settles hs, moveStatus_settles hs, ← hown.2]
    exact ⟨s, by simp [hrec], by simp⟩
  · have hid : p ≠ t.id := by
      rintro rfl
      simp [hnew] at hp
    rw [commit_pending_other lk t (fun _ => hid) (not_and.mp hown),
      moveStatus_other (not_and.mp hown)]
    exact ⟨status, hrec, hst⟩

theorem settles_iff {k : TransferKind} :
    k.settles.isSome = true ↔ k = .postPending ∨ k = .voidPending := by
  cases k <;> simp [TransferKind.settles]

/-- The reservation that `t` settles is open, and is of `t`'s accounts and amount. -/
def Reserves (l : Ledger) (t : LedgerTransfer) : Prop :=
  l.pending t.pendingID = some ⟨t.debitAccountID, t.creditAccountID, t.minorUnits, .open⟩

theorem Tracks.reserves {lk : Ledger} {sh : Shadow} (h : Tracks l sh lk)
    (hm : l.matchesPending sh t = true) : lk.Reserves t := by
  unfold matchesPending at hm
  split at hm
  · rename_i status rec hstatus hrec
    obtain ⟨status', hlk, hst⟩ := h _ _ hrec
    cases hstatus.symm.trans hst
    simp only [Bool.and_eq_true, beq_iff_eq] at hm
    obtain ⟨⟨⟨rfl, hd⟩, hc⟩, hamount⟩ := hm
    rw [Reserves, hlk, hd, hc, hamount]
  · simp at hm

/-- Committing the fresh transfers of an accepted run, one after another: each has a new
id, and settles an open reservation if it settles one. -/
theorem commitRun_rule {P : Ledger → Prop} (hl : l.Sound)
    (hP : ∀ lk t, lk.Sound → P lk → t.id ∉ lk.ids →
      (t.kind.settles.isSome = true → lk.Reserves t) → P (lk.commit t)) :
    ∀ (run : List LedgerTransfer) (sh : Shadow)
    (lk : Ledger), (l.judgeRun sh run).1.all TransferResultCode.accepted = true → lk.Sound → P lk →
    lk.refused = l.refused → Tracks l sh lk → (run.map LedgerTransfer.id).Nodup →
    (∀ t ∈ run, t.id ∉ l.ids → t.id ∉ lk.ids) →
    ((fresh run (l.judgeRun sh run).1).foldl Ledger.commit lk).Sound ∧
      P ((fresh run (l.judgeRun sh run).1).foldl Ledger.commit lk)
  | [], _, lk, _, hlk, hp, _, _, _, _ => by simpa using ⟨hlk, hp⟩
  | t :: ts, sh, lk, hacc, hlk, hp, href, htr, hnd, hnew => by
    simp only [judgeRun, List.all_cons, Bool.and_eq_true] at hacc
    obtain ⟨hhead, htail⟩ := hacc
    rw [List.map_cons, List.nodup_cons] at hnd
    simp only [judgeRun, fresh_cons]
    rcases judge_accepted hhead with ⟨hr, -, hsh⟩ | ⟨hr, hlook, hnref, hmatch, hsh⟩
    · -- already there: nothing is committed for it
      rw [hr]
      simp only [reduceCtorEq, if_false]
      rw [hsh] at htail ⊢
      exact commitRun_rule hl hP ts sh lk htail hlk hp href htr hnd.2
        fun u hu => hnew u (List.mem_cons_of_mem _ hu)
    · rw [hr]
      simp only [if_true, List.foldl_cons]
      have hidl : t.id ∉ l.ids := lookup_none_iff.mp hlook
      have hid : t.id ∉ lk.ids := hnew t List.mem_cons_self hidl
      have hopen (hk : t.kind.settles.isSome = true) : lk.Reserves t :=
        htr.reserves (hmatch (settles_iff.mp hk))
      have hlk' := hlk.commit hid (href ▸ hnref) fun hk => ⟨_, hopen hk, rfl⟩
      refine commitRun_rule hl hP ts _ _ htail hlk' (hP lk t hlk hp hid hopen) href
        (htr.commit (hl.pending_none hidl) hsh) hnd.2 ?_
      intro u hu hul hmem
      simp only [ids, commit_transfers, List.map_append, List.mem_append, List.map_cons,
        List.map_nil, List.mem_singleton] at hmem
      rcases hmem with hmem | heq
      · exact hnew u (List.mem_cons_of_mem _ hu) hul hmem
      · exact hnd.1 (heq ▸ List.mem_map.mpr ⟨u, hu, rfl⟩)

/-! ### The outcome of a run -/

theorem judgeRun_zip (l : Ledger) : ∀ (run : List LedgerTransfer) (sh : Shadow)
    (t : LedgerTransfer) (r : TransferResultCode), (t, r) ∈ run.zip (l.judgeRun sh run).1 →
    t ∈ run ∧ ∃ sh', (l.judge sh' t).1 = r
  | u :: us, sh, t, r, h => by
    simp only [judgeRun, List.zip_cons_cons, List.mem_cons, Prod.mk.injEq] at h
    rcases h with ⟨rfl, rfl⟩ | h
    · exact ⟨List.mem_cons_self, sh, rfl⟩
    · obtain ⟨hm, hsh⟩ := judgeRun_zip l us _ t r h
      exact ⟨List.mem_cons_of_mem _ hm, hsh⟩

theorem mem_refusedIDs {l : Ledger} {sh : Shadow} {run : List LedgerTransfer} {i : Id}
    (h : i ∈ refusedIDs run (l.judgeRun sh run).1) : i ∉ l.ids := by
  obtain ⟨⟨t, r⟩, hm, rfl⟩ := List.mem_map.mp h
  obtain ⟨hzip, hr⟩ := List.mem_filter.mp hm
  obtain ⟨-, sh', rfl⟩ := judgeRun_zip l run sh t _ hzip
  simp only [Bool.and_eq_true, Bool.not_eq_true', bne_iff_ne, ne_eq] at hr
  rcases judge_refused hr.1 with ⟨heq, -⟩ | ⟨-, hlook⟩
  · exact absurd heq hr.2
  · exact lookup_none_iff.mp hlook

/-- What every commit keeps, and what does not depend on accounts and refusals, a linked
run keeps; and it keeps the ledger sound. -/
theorem createTransferRun_rule {P : Ledger → Prop} (h : l.Sound) (hp : P l)
    (hnd : (run.map LedgerTransfer.id).Nodup)
    (hP : ∀ lk t, lk.Sound → P lk → t.id ∉ lk.ids →
      (t.kind.settles.isSome = true → lk.Reserves t) → P (lk.commit t))
    (hcongr : ∀ lk m refused, P lk → P { lk with accounts := m, refused := refused }) :
    (l.createTransferRun run).2.Sound ∧ P (l.createTransferRun run).2 := by
  cases hacc : (l.judgeRun l.shadow run).1.all TransferResultCode.accepted with
  | true =>
    rw [createTransferRun_of_accepted hacc]
    obtain ⟨hs, hp'⟩ := commitRun_rule h hP run l.shadow l hacc h hp rfl (tracks_shadow l) hnd
      fun _ _ hn => hn
    exact ⟨hs.accounts _, hcongr _ _ _ hp'⟩
  | false =>
    rw [createTransferRun_of_refused hacc]
    refine ⟨⟨h.nodup, ?_, h.reserved, h.reservation, h.settled, h.once⟩, hcongr _ _ _ hp⟩
    intro i hi
    rcases List.mem_append.mp hi with hi | hi
    · exact h.refused i hi
    · exact @mem_refusedIDs l l.shadow run i hi

theorem createTransferRun_sound (h : l.Sound) (hnd : (run.map LedgerTransfer.id).Nodup) :
    (l.createTransferRun run).2.Sound :=
  (createTransferRun_rule (P := fun _ => True) h trivial hnd (fun _ _ _ _ _ _ => trivial)
    fun _ _ _ _ => trivial).1

theorem mem_fresh_or_applied : ∀ {run : List LedgerTransfer} {sh : Shadow},
    (l.judgeRun sh run).1.all TransferResultCode.accepted = true → ∀ t ∈ run,
      t ∈ fresh run (l.judgeRun sh run).1 ∨ l.Applied t
  | u :: us, sh, hacc, t, ht => by
    simp only [judgeRun, List.all_cons, Bool.and_eq_true] at hacc
    simp only [judgeRun, fresh_cons]
    rcases List.mem_cons.mp ht with rfl | ht
    · rcases judge_accepted hacc.1 with ⟨-, hlook, -⟩ | ⟨hr, -⟩
      · exact Or.inr (mem_of_lookup hlook)
      · left
        simp [hr]
    · rcases mem_fresh_or_applied hacc.2 t ht with hf | ha
      · left
        split
        · exact List.mem_cons_of_mem _ hf
        · exact hf
      · exact Or.inr ha

/-- A run that was accepted is applied as a whole. -/
theorem createTransferRun_applied
    (h : (l.createTransferRun run).1.all TransferResultCode.accepted = true) :
    ∀ t ∈ run, (l.createTransferRun run).2.Applied t := by
  cases hacc : (l.judgeRun l.shadow run).1.all TransferResultCode.accepted with
  | true =>
    intro t ht
    rw [createTransferRun_of_accepted hacc]
    simp only [Applied, commitAll_transfers]
    rcases mem_fresh_or_applied hacc t ht with hf | ha
    · exact List.mem_append_right _ (List.mem_map.mpr ⟨t, hf, rfl⟩)
    · exact List.mem_append_left _ ha
  | false =>
    -- turning an OK into a failed link does not make a refused run accepted
    rw [createTransferRun_of_refused hacc] at h
    exfalso
    rw [List.all_map] at h
    have : (l.judgeRun l.shadow run).1.all TransferResultCode.accepted = true := by
      refine List.all_eq_true.mpr fun r hr => ?_
      have := List.all_eq_true.mp h r hr
      by_cases hok : r = .ok
      · subst hok
        rfl
      · simpa [hok] using this
    rw [this] at hacc
    simp at hacc

/-- A run that was refused applies nothing, and either some id of it is refused
for good or some id was already used for a different transfer. -/
theorem createTransferRun_refused
    (h : (l.createTransferRun run).1.all TransferResultCode.accepted = false) :
    (l.createTransferRun run).2.transfers = l.transfers ∧
      ((∃ t ∈ run, t.id ∈ (l.createTransferRun run).2.refused) ∨
        ∃ t ∈ run, ∃ st, (t.id, st) ∈ l.transfers ∧ st ≠ .of t) := by
  cases hacc : (l.judgeRun l.shadow run).1.all TransferResultCode.accepted with
  | true =>
    rw [createTransferRun_of_accepted hacc] at h
    simp only at h
    rw [hacc] at h
    simp at h
  | false =>
    rw [createTransferRun_of_refused hacc]
    refine ⟨rfl, ?_⟩
    obtain ⟨r, hr, hna⟩ : ∃ r ∈ (l.judgeRun l.shadow run).1, r.accepted = false := by
      simpa using hacc
    obtain ⟨n, hn, rfl⟩ := List.mem_iff_getElem.mp hr
    have hn' : n < run.length := by simpa using hn
    have hzip : (run.get ⟨n, hn'⟩, (l.judgeRun l.shadow run).1[n]) ∈
        run.zip (l.judgeRun l.shadow run).1 := by
      refine List.mem_iff_getElem.mpr ⟨n, by simp [hn'], by simp⟩
    obtain ⟨hmem, sh', hjudge⟩ := judgeRun_zip l run _ _ _ hzip
    rw [← hjudge] at hna
    rcases judge_refused hna with ⟨-, st, hlook, hne⟩ | ⟨hne, -⟩
    · exact Or.inr ⟨_, hmem, st, mem_of_lookup hlook, hne⟩
    · left
      refine ⟨_, hmem, List.mem_append_right _ (List.mem_map.mpr
        ⟨(run.get ⟨n, hn'⟩, (l.judgeRun l.shadow run).1[n]),
          List.mem_filter.mpr ⟨hzip, ?_⟩, rfl⟩)⟩
      rw [← hjudge]
      exact Bool.and_eq_true_iff.mpr ⟨by simpa using hna, by simpa using hne⟩

/-- A run adds no transfer but its own. -/
theorem createTransferRun_mem {e : Id × StoredTransfer}
    (h : e ∈ (l.createTransferRun run).2.transfers) :
    e ∈ l.transfers ∨ (l.createTransferRun run).1.all TransferResultCode.accepted = true ∧
      ∃ t ∈ run, e = (t.id, .of t) := by
  cases hacc : (l.judgeRun l.shadow run).1.all TransferResultCode.accepted with
  | true =>
    rw [createTransferRun_of_accepted hacc] at h ⊢
    simp only [commitAll_transfers, List.mem_append, List.mem_map] at h
    rcases h with h | ⟨t, ht, rfl⟩
    · exact Or.inl h
    · refine Or.inr ⟨hacc, t, ?_, rfl⟩
      obtain ⟨⟨u, r⟩, hp, rfl⟩ := List.mem_map.mp ht
      exact (List.of_mem_zip (List.mem_of_mem_filter hp)).1
  | false =>
    rw [createTransferRun_of_refused hacc] at h
    exact Or.inl h

/-! ### Reservations that are no longer open -/

/-- A reservation that is no longer open was settled by some transfer. -/
def Traced (l : Ledger) : Prop :=
  ∀ i rec, l.pending i = some rec → rec.status ≠ .open →
    ∃ e ∈ l.transfers, e.2.kind.settles.isSome = true ∧ e.2.pendingID = i

theorem traced_empty : Ledger.empty.Traced := fun _ _ h => nomatch h

theorem Traced.commit (h : l.Traced) (t : LedgerTransfer) : (l.commit t).Traced := by
  intro i rec hrec hst
  by_cases hsettled : t.kind.settles.isSome = true ∧ i = t.pendingID
  · exact ⟨_, List.mem_append_right _ List.mem_cons_self, hsettled.1, hsettled.2.symm⟩
  · have hother : t.kind.settles.isSome = true → i ≠ t.pendingID := not_and.mp hsettled
    by_cases hid : t.kind = .pending ∧ i = t.id
    · -- a reservation made just now is open
      obtain ⟨hk, rfl⟩ := hid
      simp only [Ledger.commit, hk, Function.update_self, Option.some.injEq] at hrec
      rw [← hrec] at hst
      exact absurd rfl hst
    · rw [commit_pending_other l t (not_and.mp hid) hother] at hrec
      obtain ⟨e, he, hs⟩ := h i rec hrec hst
      exact ⟨e, List.mem_append_left _ he, hs⟩

theorem Traced.commitAll {l : Ledger} (h : l.Traced) : ∀ ts : List LedgerTransfer,
    (ts.foldl Ledger.commit l).Traced
  | [] => h
  | t :: ts => Traced.commitAll (h.commit t) ts

theorem createTransferRun_traced (h : l.Traced) (run : List LedgerTransfer) :
    (l.createTransferRun run).2.Traced := by
  cases hacc : (l.judgeRun l.shadow run).1.all TransferResultCode.accepted with
  | true =>
    rw [createTransferRun_of_accepted hacc]
    exact h.commitAll _
  | false =>
    rw [createTransferRun_of_refused hacc]
    exact h

/-! ### Accounts -/

/-- Creating accounts touches nothing but accounts. -/
theorem createAccounts_accounts (l : Ledger) (as : List Account) :
    ∃ m, (l.createAccounts as).2 = { l with accounts := m } := by
  refine createAccounts_rule (P := fun l' => ∃ m, l' = { l with accounts := m }) ⟨l.accounts, rfl⟩
    fun l' run _ _ h => ?_
  obtain ⟨m, rfl⟩ := h
  exact ⟨_, rfl⟩

/-- A result its caller may treat as an account that exists. -/
def accountAccepted (r : AccountResultCode) : Bool := r == .ok || r == .existsAlready

theorem storeAccounts_exist (l : Ledger) (run : List Account) :
    ∀ a ∈ run, ((l.storeAccounts run).accounts a.id).isSome = true := by
  intro a ha
  rcases l.storeAccounts_accounts run a.id with ⟨heq, hnew⟩ | ⟨-, b, -, -, heq⟩
  · rw [heq, Option.isSome_iff_ne_none]
    exact fun hnone => hnew hnone a ha rfl
  · rw [heq]
    rfl

theorem createAccountRun_exist {run : List Account}
    (h : (l.createAccountRun run).1.all accountAccepted = true) :
    ∀ a ∈ run, ((l.createAccountRun run).2.accounts a.id).isSome = true := by
  simp only [createAccountRun] at h ⊢
  split at h
  · rename_i hall
    rw [if_pos hall]
    exact l.storeAccounts_exist run
  · rename_i hall
    -- what kept the run from being accepted is still among its results
    refine absurd ?_ hall
    rw [List.all_eq_true] at h ⊢
    intro r hr
    have := h _ (List.mem_map_of_mem hr)
    by_cases hok : r = .ok
    · simp [hok, accountAccepted] at this
    · simpa [hok, accountAccepted] using this

theorem createAccountRuns_exist : ∀ {runs : List (List Account)} {l : Ledger},
    (l.createAccountRuns runs).1.all accountAccepted = true → ∀ a ∈ runs.flatten,
      ((l.createAccountRuns runs).2.accounts a.id).isSome = true
  | run :: rest, l, h, a, ha => by
    have hcodes : (l.createAccountRun run).1.all accountAccepted = true ∧
        ((l.createAccountRun run).2.createAccountRuns rest).1.all accountAccepted = true := by
      simpa [createAccountRuns, List.all_append] using h
    rw [List.flatten_cons] at ha
    change (((l.createAccountRun run).2.createAccountRuns rest).2.accounts a.id).isSome = true
    rcases List.mem_append.mp ha with ha | ha
    · obtain ⟨b, hb⟩ := Option.isSome_iff_exists.mp (createAccountRun_exist hcodes.1 a ha)
      obtain ⟨b', hb', -⟩ := (createAccountRuns_grows _ rest).accounts _ b hb
      exact Option.isSome_iff_exists.mpr ⟨b', hb'⟩
    · exact createAccountRuns_exist hcodes.2 a ha

/-- Accounts all of whose creations were accepted exist. -/
theorem createAccounts_exist {as : List Account} {results : List AccountResultCode}
    (h : (l.createAccounts as).1 = .ok results) (hall : results.all accountAccepted = true) :
    ∀ a ∈ as, ((l.createAccounts as).2.accounts a.id).isSome = true := by
  unfold createAccounts at h ⊢
  split at h
  · simp at h
  · split at h
    · simp at h
    · rename_i runs hruns
      cases h
      intro a ha
      exact createAccountRuns_exist hall a ((linkedRuns_flatten hruns).symm ▸ ha)

@[simp] theorem createAccountRun_length (l : Ledger) (run : List Account) :
    (l.createAccountRun run).1.length = run.length := by
  simp only [createAccountRun]
  split <;> simp

theorem createAccountRuns_length : ∀ (runs : List (List Account)) (l : Ledger),
    (l.createAccountRuns runs).1.length = runs.flatten.length
  | [], _ => rfl
  | run :: rest, l => by
    simp [createAccountRuns, createAccountRuns_length rest]

theorem createAccounts_length {as : List Account} {results : List AccountResultCode}
    (h : (l.createAccounts as).1 = .ok results) : results.length = as.length := by
  unfold createAccounts at h
  split at h
  · simp at h
  · split at h
    · simp at h
    · rename_i runs hruns
      cases h
      rw [createAccountRuns_length, linkedRuns_flatten hruns]

end Ledger

end MoneyFlow
