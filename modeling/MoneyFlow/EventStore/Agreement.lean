import MoneyFlow.EventStore.Postgres

/-!
# MoneyFlow.EventStore.Agreement

When the two event stores are one store.

A table mirrors a `MemoryStore` when it holds the same events under the same
sequences. As long as every stream is numbered from 1 without a gap and no writer
expects a position past its end, the sequences a write computes are free exactly
when the stream is where the writer expects it, so both stores refuse the same
writes and land the same events.

What they do not share is the order of their checks. `MemoryStore` goes write by
write, position first; `PostgresStore` marshals everything before it looks at any
position. A call with an event that does not marshal and a position that has moved
is refused by both, with different errors (`marshal_or_conflict`).
-/

namespace MoneyFlow

variable {now : Nat} {a : Aggregate} {id : Id} {w : StreamWrite} {E : Type}

/-! ### The table -/

namespace PostgresStore

theorem insertAll_fresh : ∀ {t : Table} {rs : List EventRow},
    (∀ r ∈ rs, r.key ∉ t.map EventRow.key) → (rs.map EventRow.key).Nodup →
      insertAll t rs = some (t ++ rs)
  | t, [], _, _ => by simp [insertAll]
  | t, r :: rs, hfree, hnd => by
    rw [List.map_cons, List.nodup_cons] at hnd
    have hr : r.key ∉ t.map EventRow.key := hfree r List.mem_cons_self
    have hinsert : insert t r = some (t ++ [r]) := by
      unfold insert
      rw [if_neg (by simpa using hr)]
    have hrest : ∀ r' ∈ rs, r'.key ∉ (t ++ [r]).map EventRow.key := by
      intro r' hr' hk
      rw [List.map_append] at hk
      rcases List.mem_append.mp hk with hk | hk
      · exact hfree r' (List.mem_cons_of_mem _ hr') hk
      · exact hnd.1 (List.mem_map.mpr ⟨r', hr', List.mem_singleton.mp hk⟩)
    unfold insertAll
    rw [hinsert]
    simpa using insertAll_fresh hrest hnd.2

theorem insertAll_taken {r : EventRow} : ∀ {t : Table} {rs : List EventRow}, r ∈ rs →
    r.key ∈ t.map EventRow.key → insertAll t rs = none
  | t, r' :: rs, hr, hk => by
    unfold insertAll insert
    rcases List.mem_cons.mp hr with rfl | hr
    · rw [if_pos (by simpa using hk)]
    · split
      · rfl
      · rename_i t' ht
        split at ht
        · simp at ht
        · cases ht
          refine insertAll_taken hr ?_
          rw [List.map_append]
          exact List.mem_append_left _ hk

theorem stream_append (t t' : Table) (a : Aggregate) (id : Id) :
    stream (t ++ t') a id = stream t a id ++ stream t' a id :=
  List.filterMap_append

theorem mem_keys {t : Table} {n : Nat} :
    ((a, id), n) ∈ t.map EventRow.key ↔ n ∈ (stream t a id).map Row.sequence := by
  simp only [List.mem_map, stream, List.mem_filterMap]
  constructor
  · rintro ⟨⟨a', id', seq, e, now⟩, hr, hk⟩
    obtain ⟨⟨rfl, rfl⟩, rfl⟩ : (a' = a ∧ id' = id) ∧ seq = n := by
      simpa [EventRow.key] using hk
    exact ⟨⟨seq, e, now⟩, ⟨_, hr, by simp [EventRow.rowFor]⟩, rfl⟩
  · rintro ⟨row, ⟨r, hr, hrow⟩, rfl⟩
    refine ⟨r, hr, ?_⟩
    unfold EventRow.rowFor at hrow
    split at hrow
    · rename_i ha
      split at hrow
      · rename_i hid
        cases hrow
        simp [EventRow.key, ha, hid]
      · simp at hrow
    · simp at hrow

@[simp] theorem stream_rowsOf_same (now : Nat) (w : StreamWrite) :
    stream (rowsOf now w) w.aggregateType w.aggregateID = rowsFrom now w.expectedSeq w.events := by
  unfold stream rowsOf
  rw [List.filterMap_map]
  refine (List.filterMap_congr fun r _ => ?_).trans List.filterMap_some
  simp [EventRow.rowFor]

theorem stream_rowsOf_other (h : w.key ≠ (a, id)) : stream (rowsOf now w) a id = [] := by
  unfold stream rowsOf
  refine List.filterMap_eq_nil_iff.mpr fun r hr => ?_
  obtain ⟨row, -, rfl⟩ := List.mem_map.mp hr
  unfold EventRow.rowFor
  split
  · rename_i ha
    rw [if_neg]
    exact fun hid => h (Prod.ext ha hid)
  · rfl

theorem stream_batch_other : ∀ {ws : List StreamWrite},
    (∀ w ∈ ws, w.key ≠ (a, id)) → stream (ws.flatMap (rowsOf now)) a id = []
  | [], _ => rfl
  | w :: ws, h => by
    rw [List.flatMap_cons, stream_append, stream_rowsOf_other (h w List.mem_cons_self),
      stream_batch_other fun v hv => h v (List.mem_cons_of_mem _ hv)]
    rfl

theorem stream_batch_same : ∀ {ws : List StreamWrite},
    (ws.map StreamWrite.key).Nodup → w ∈ ws →
      stream (ws.flatMap (rowsOf now)) w.aggregateType w.aggregateID =
        rowsFrom now w.expectedSeq w.events
  | v :: ws, hnd, hw => by
    rw [List.map_cons, List.nodup_cons] at hnd
    rw [List.flatMap_cons, stream_append]
    rcases List.mem_cons.mp hw with rfl | hw
    · rw [stream_rowsOf_same, stream_batch_other, List.append_nil]
      exact fun u hu hk => hnd.1 (List.mem_map.mpr ⟨u, hu, hk⟩)
    · rw [stream_rowsOf_other, stream_batch_same hnd.2 hw, List.nil_append]
      exact fun hk => hnd.1 (List.mem_map.mpr ⟨w, hw, hk.symm⟩)

theorem rowsFrom_sequence (now : Nat) : ∀ (seq : Nat) (es : List E),
    (rowsFrom now seq es).map Row.sequence = List.range' (seq + 1) es.length
  | _, [] => rfl
  | seq, _ :: es => by
    rw [rowsFrom_cons, List.map_cons, rowsFrom_sequence now (seq + 1) es]
    rfl

theorem mem_rowsOf {r : EventRow} (h : r ∈ rowsOf now w) :
    r.key.1 = w.key ∧ r.key.2 ∈ List.range' (w.expectedSeq + 1) w.events.length := by
  obtain ⟨row, hrow, rfl⟩ := List.mem_map.mp h
  refine ⟨rfl, ?_⟩
  rw [← rowsFrom_sequence now]
  exact List.mem_map_of_mem hrow

/-- No two rows of a batch to distinct streams have the same key. -/
theorem batch_nodup {ws : List StreamWrite} (h : (ws.map StreamWrite.key).Nodup) :
    ((ws.flatMap (rowsOf now)).map EventRow.key).Nodup := by
  induction ws with
  | nil => exact List.nodup_nil
  | cons w ws ih =>
    rw [List.map_cons, List.nodup_cons] at h
    rw [List.flatMap_cons, List.map_append]
    refine List.nodup_append.mpr ⟨?_, ih h.2, ?_⟩
    · have hseq : (rowsOf now w).map EventRow.key =
          (List.range' (w.expectedSeq + 1) w.events.length).map (Prod.mk w.key) := by
        rw [← rowsFrom_sequence now, rowsOf, List.map_map, List.map_map]
        rfl
      rw [hseq]
      exact (List.nodup_range' ..).map fun _ _ heq => (Prod.mk.inj heq).2
    · rintro k hk _ hk' rfl
      obtain ⟨r, hr, rfl⟩ := List.mem_map.mp hk
      obtain ⟨r', hr', heq⟩ := List.mem_map.mp hk'
      obtain ⟨v, hv, hr'⟩ := List.mem_flatMap.mp hr'
      refine h.1 (List.mem_map.mpr ⟨v, hv, ?_⟩)
      rw [← (mem_rowsOf hr').1, heq, (mem_rowsOf hr).1]

end PostgresStore

/-! ### One store in two -/

/-- Every stream is numbered 1, 2, …, n. -/
def GapFree (st : Store) : Prop :=
  ∀ a id, (st a id).map Row.sequence = List.range' 1 (st a id).length

/-- The table holds the same events under the same sequences. -/
def Mirrors (st : Store) (t : Table) : Prop :=
  ∀ a id, (PostgresStore.stream t a id).map Row.fact = (st a id).map Row.fact

section

variable {st : Store} {t : Table}

theorem rowsFrom_fact (now now' : Nat) : ∀ (seq : Nat) (es : List E),
    (rowsFrom now seq es).map Row.fact = (rowsFrom now' seq es).map Row.fact
  | _, [] => rfl
  | seq, _ :: es => congrArg (List.cons _) (rowsFrom_fact now now' (seq + 1) es)

theorem map_sequence_of_facts {rows rows' : List (Row E)}
    (h : rows.map Row.fact = rows'.map Row.fact) :
    rows.map Row.sequence = rows'.map Row.sequence := by
  have hfst := congrArg (List.map Prod.fst) h
  simpa [List.map_map, Function.comp_def, Row.fact] using hfst

/-- Rows already in order are loaded as they are. -/
theorem Mirrors.load_eq (h : Mirrors st t) (hg : GapFree st) (a : Aggregate) (id : Id) :
    PostgresStore.load t a id = PostgresStore.stream t a id := by
  refine List.mergeSort_of_pairwise ?_
  have hsorted : ((PostgresStore.stream t a id).map Row.sequence).Pairwise (· ≤ ·) := by
    rw [map_sequence_of_facts (h a id), hg a id]
    exact (List.pairwise_lt_range' ..).imp Nat.le_of_lt
  exact (List.pairwise_map.mp hsorted).imp fun hle => by simpa using hle

/-- A sequence is taken exactly when it lies within the stream. -/
theorem Mirrors.mem_keys (h : Mirrors st t) (hg : GapFree st) {n : Nat} :
    ((a, id), n) ∈ t.map EventRow.key ↔ 1 ≤ n ∧ n ≤ (st a id).length := by
  rw [PostgresStore.mem_keys, map_sequence_of_facts (h a id), hg a id, List.mem_range'_1]
  omega

variable {ws : List StreamWrite} {now now' : Nat}

/-- Writes that find their streams where they expect them are inserted. -/
theorem Mirrors.insertAll_expected (h : Mirrors st t) (hg : GapFree st)
    (hnd : (ws.map StreamWrite.key).Nodup) (hexp : ∀ w ∈ ws, w.expected st = true) :
    PostgresStore.insertAll t (ws.flatMap (PostgresStore.rowsOf now)) =
      some (t ++ ws.flatMap (PostgresStore.rowsOf now)) := by
  refine PostgresStore.insertAll_fresh (fun r hr hk => ?_) (PostgresStore.batch_nodup hnd)
  obtain ⟨w, hw, hr⟩ := List.mem_flatMap.mp hr
  obtain ⟨hkey, hseq⟩ := PostgresStore.mem_rowsOf hr
  have hlen : (st w.aggregateType w.aggregateID).length = w.expectedSeq := by
    simpa [StreamWrite.expected] using hexp w hw
  have hk' : ((w.aggregateType, w.aggregateID), r.key.2) ∈ t.map EventRow.key := by
    rw [show ((w.aggregateType, w.aggregateID), r.key.2) = r.key from Prod.ext hkey.symm rfl]
    exact hk
  have hle := ((h.mem_keys hg).mp hk').2
  have hge := (List.mem_range'_1.mp hseq).1
  omega

/-- A write that expects its stream to be shorter than it is is refused. -/
theorem Mirrors.insertAll_stale (h : Mirrors st t) (hg : GapFree st) (hw : w ∈ ws)
    (hne : w.events ≠ []) (hlt : w.expectedSeq < (st w.aggregateType w.aggregateID).length) :
    PostgresStore.insertAll t (ws.flatMap (PostgresStore.rowsOf now)) = none := by
  obtain ⟨e, es, hes⟩ := List.exists_cons_of_ne_nil hne
  have hr : (⟨w.aggregateType, w.aggregateID, w.expectedSeq + 1, e, now⟩ : EventRow) ∈
      PostgresStore.rowsOf now w := by
    unfold PostgresStore.rowsOf
    rw [hes, rowsFrom_cons]
    exact List.mem_cons_self
  refine PostgresStore.insertAll_taken (List.mem_flatMap.mpr ⟨w, hw, hr⟩) ?_
  exact (h.mem_keys hg).mpr ⟨Nat.succ_pos _, hlt⟩

/-- The same writes, landed in both, leave one mirroring the other. -/
theorem Mirrors.landed (h : Mirrors st t) (hnd : (ws.map StreamWrite.key).Nodup) :
    Mirrors (ws.foldl (fun st w => w.land now st) st)
      (t ++ ws.flatMap (PostgresStore.rowsOf now')) := by
  intro a id
  rw [PostgresStore.stream_append, List.map_append, h a id]
  by_cases hex : ∃ w ∈ ws, w.key = (a, id)
  · obtain ⟨w, hw, hk⟩ := hex
    cases hk
    rw [PostgresStore.stream_batch_same hnd hw, landAll_same hnd hw, List.map_append,
      rowsFrom_fact now' now]
  · rw [PostgresStore.stream_batch_other fun w hw hk => hex ⟨w, hw, hk⟩,
      landAll_other fun w hw hk => hex ⟨w, hw, hk⟩]
    simp

theorem GapFree.landed (hg : GapFree st) (hnd : (ws.map StreamWrite.key).Nodup)
    (hexp : ∀ w ∈ ws, w.expected st = true) :
    GapFree (ws.foldl (fun st w => w.land now st) st) := by
  intro a id
  by_cases hex : ∃ w ∈ ws, w.key = (a, id)
  · obtain ⟨w, hw, hk⟩ := hex
    cases hk
    have hlen : (st w.aggregateType w.aggregateID).length = w.expectedSeq := by
      simpa [StreamWrite.expected] using hexp w hw
    rw [landAll_same hnd hw, List.map_append, hg, PostgresStore.rowsFrom_sequence, hlen,
      List.length_append, hlen, rowsFrom_length, Nat.add_comm w.expectedSeq 1,
      List.range'_append_1]
  · rw [landAll_other fun w hw hk => hex ⟨w, hw, hk⟩]
    exact hg a id

/-! ### One append -/

variable {marshal : Marshal}

/-- Every event marshals. -/
def Marshals (marshal : Marshal) (ws : List StreamWrite) : Prop :=
  ∀ w ∈ ws, marshalError marshal w.aggregateType w.events = none

theorem stageError_of_marshals : ∀ {ws : List StreamWrite}, Marshals marshal ws →
    MemoryStore.stageError marshal st ws =
      if ws.all (·.expected st) then none else some .concurrencyConflict
  | [], _ => rfl
  | w :: ws, h => by
    unfold MemoryStore.stageError
    rw [h w List.mem_cons_self, stageError_of_marshals fun v hv => h v (List.mem_cons_of_mem _ hv)]
    cases hw : w.expected st <;> simp [hw]

theorem stageError_of_expected : ∀ {ws : List StreamWrite}, (∀ w ∈ ws, w.expected st = true) →
    MemoryStore.stageError marshal st ws =
      ws.findSome? fun w => marshalError marshal w.aggregateType w.events
  | [], _ => rfl
  | w :: ws, h => by
    unfold MemoryStore.stageError
    rw [h w List.mem_cons_self, stageError_of_expected fun v hv => h v (List.mem_cons_of_mem _ hv),
      List.findSome?_cons, if_neg (by simp)]
    cases marshalError marshal w.aggregateType w.events <;> rfl

/-- No writer expects a stream to be longer than it is. -/
def Behind (st : Store) (ws : List StreamWrite) : Prop :=
  ∀ w ∈ liveWrites ws, w.expectedSeq ≤ (st w.aggregateType w.aggregateID).length

/-- The events all marshal, or every stream is where its writer expects it. -/
def Sound (marshal : Marshal) (st : Store) (ws : List StreamWrite) : Prop :=
  Marshals marshal (liveWrites ws) ∨ ∀ w ∈ liveWrites ws, w.expected st = true

/-- How one append went: refused by both with one error, or landed in both. -/
inductive Appends (marshal : Marshal) (st : Store) (t : Table) (now now' : Nat)
    (ws : List StreamWrite) : Prop
  | refused (e : Err) (hm : MemoryStore.appendAtomic marshal now st ws = .error e)
      (hp : PostgresStore.appendAtomic marshal now' t ws = .error e)
  | landed (hnd : ((liveWrites ws).map StreamWrite.key).Nodup)
      (hexp : ∀ w ∈ liveWrites ws, w.expected st = true)
      (hm : MemoryStore.appendAtomic marshal now st ws =
        .ok ((liveWrites ws).foldl (fun st w => w.land now st) st))
      (hp : PostgresStore.appendAtomic marshal now' t ws =
        .ok (t ++ (liveWrites ws).flatMap (PostgresStore.rowsOf now')))

/-- **The two stores take the same append the same way.** -/
theorem Mirrors.appends (h : Mirrors st t) (hg : GapFree st) (hb : Behind st ws)
    (hs : Sound marshal st ws) : Appends marshal st t now now' ws := by
  cases hv : validateWrites (liveWrites ws) with
  | error e =>
    exact .refused e (by simp only [MemoryStore.appendAtomic, hv])
      (by simp only [PostgresStore.appendAtomic, hv])
  | ok u =>
    have hnd := validateWrites_nodup hv
    by_cases hexp : ∀ w ∈ liveWrites ws, w.expected st = true
    · have hstage := @stageError_of_expected st marshal (liveWrites ws) hexp
      cases hf : (liveWrites ws).findSome? fun w =>
          marshalError marshal w.aggregateType w.events with
      | some e =>
        exact .refused e (by simp only [MemoryStore.appendAtomic, hv, hstage, hf])
          (by simp only [PostgresStore.appendAtomic, hv, hf])
      | none =>
        exact .landed hnd hexp (by simp only [MemoryStore.appendAtomic, hv, hstage, hf])
          (by simp only [PostgresStore.appendAtomic, hv, hf, h.insertAll_expected hg hnd hexp])
    · -- a stream has moved: by assumption nothing else is wrong with the call
      have hmarshals := hs.resolve_right hexp
      have hf : (liveWrites ws).findSome? (fun w =>
          marshalError marshal w.aggregateType w.events) = none :=
        List.findSome?_eq_none_iff.mpr hmarshals
      have hall : (liveWrites ws).all (·.expected st) = false := by
        simpa [List.all_eq_true] using hexp
      obtain ⟨w, hw, hmoved⟩ : ∃ w ∈ liveWrites ws, ¬ w.expected st = true := by
        simpa using hexp
      have hlt : w.expectedSeq < (st w.aggregateType w.aggregateID).length := by
        have hle := hb w hw
        have hne : (st w.aggregateType w.aggregateID).length ≠ w.expectedSeq := by
          simpa [StreamWrite.expected] using hmoved
        omega
      have hne : w.events ≠ [] := by simpa using (List.mem_filter.mp hw).2
      refine .refused .concurrencyConflict ?_ ?_
      · simp only [MemoryStore.appendAtomic, hv, stageError_of_marshals hmarshals, hall]
        rfl
      · simp only [PostgresStore.appendAtomic, hv, hf, h.insertAll_stale hg hw hne hlt]

end

/-! ### Any sequence of calls -/

section

variable {marshal : Marshal} {st st' : Store} {t : Table}

/-- The lengths that Loads have returned so far, each with its stream. -/
abbrev Lengths := List ((Aggregate × Id) × Nat)

variable {seen : Lengths}

/-- The length a call returns, if it is a Load. -/
def lengthsRead (st : Store) : StoreCall → Lengths
  | .load a id => [((a, id), (st a id).length)]
  | .appendAtomic _ _ _ => []

/-- Each write expects a length that some earlier Load of its stream returned. -/
def Reread (seen : Lengths) : StoreCall → Prop
  | .load _ _ => True
  | .appendAtomic _ _ ws => ∀ w ∈ ws, (w.key, w.expectedSeq) ∈ seen

/-- The events of an append all marshal, or each of its streams is where its writer
expects it. -/
def SoundCall (marshal : Marshal) (st : Store) : StoreCall → Prop
  | .load _ _ => True
  | .appendAtomic _ _ ws => Sound marshal st ws

/-- The two stores after the same calls. -/
inductive Together (marshal : Marshal) : Store → Table → Lengths → Prop
  | empty : Together marshal .empty [] []
  | call {st : Store} {t : Table} {seen : Lengths} (h : Together marshal st t seen) (c : StoreCall)
      (hread : Reread seen c) (hsound : SoundCall marshal st c) :
      Together marshal (MemoryStore.call marshal st c).2 (PostgresStore.call marshal t c).2
        (lengthsRead st c ++ seen)

/-- A call leaves every stream as it was, or it is an append and extends each stream
it names by the events it carries for it, and no other. -/
def AllOrNothing (before after : Store) (c : StoreCall) : Prop :=
  (∀ a id, after a id = before a id) ∨ ∃ now now' ws, c = .appendAtomic now now' ws ∧
    (∀ w ∈ liveWrites ws, ∃ rows, eventsOf rows = w.events ∧
      after w.aggregateType w.aggregateID = before w.aggregateType w.aggregateID ++ rows) ∧
    ∀ a id, (∀ w ∈ liveWrites ws, w.key ≠ (a, id)) → after a id = before a id

theorem AllOrNothing.grows {before after : Store} {c : StoreCall} (h : AllOrNothing before after c)
    (a : Aggregate) (id : Id) : before a id <+: after a id := by
  rcases h with hsame | ⟨now, now', ws, -, hland, hother⟩
  · rw [hsame]
  · by_cases hex : ∃ w ∈ liveWrites ws, w.key = (a, id)
    · obtain ⟨w, hw, hk⟩ := hex
      cases hk
      obtain ⟨rows, -, hrows⟩ := hland w hw
      rw [hrows]
      exact List.prefix_append _ _
    · rw [hother a id fun w hw hk => hex ⟨w, hw, hk⟩]

/-- What holds of the two stores between calls. -/
structure Paired (st : Store) (t : Table) (seen : Lengths) : Prop where
  mirrors : Mirrors st t
  gapFree : GapFree st
  behind : ∀ a id n, ((a, id), n) ∈ seen → n ≤ (st a id).length

theorem paired_empty : Paired .empty [] [] where
  mirrors _ _ := rfl
  gapFree _ _ := rfl
  behind _ _ _ h := absurd h List.not_mem_nil

/-- How a call is taken by both stores. -/
structure Taken (marshal : Marshal) (st : Store) (t : Table) (seen : Lengths) (c : StoreCall) :
    Prop where
  answer : (MemoryStore.call marshal st c).1 = (PostgresStore.call marshal t c).1
  paired : Paired (MemoryStore.call marshal st c).2 (PostgresStore.call marshal t c).2
    (lengthsRead st c ++ seen)
  memory : AllOrNothing st (MemoryStore.call marshal st c).2 c
  postgres : AllOrNothing (PostgresStore.load t)
    (PostgresStore.load (PostgresStore.call marshal t c).2) c

theorem Paired.load_facts (h : Paired st t seen) (a : Aggregate) (id : Id) :
    (PostgresStore.load t a id).map Row.fact = (st a id).map Row.fact := by
  rw [h.mirrors.load_eq h.gapFree, h.mirrors a id]

/-- What was read of a stream is behind it however it grows. -/
theorem Paired.behind_landed (h : Paired st t seen) (now : Nat) (ws : List StreamWrite) :
    ∀ a id n, ((a, id), n) ∈ seen →
      n ≤ (ws.foldl (fun st w => w.land now st) st a id).length :=
  fun a id n hm => (h.behind a id n hm).trans (landAll_grows now a id ws st).length_le

/-- An append that both stores land. -/
theorem Paired.taken_landed {now' : Nat} {ws : List StreamWrite} (h : Paired st t seen)
    (hnd : ((liveWrites ws).map StreamWrite.key).Nodup)
    (hexp : ∀ w ∈ liveWrites ws, w.expected st = true)
    (hm : MemoryStore.appendAtomic marshal now st ws =
      .ok ((liveWrites ws).foldl (fun st w => w.land now st) st))
    (hp : PostgresStore.appendAtomic marshal now' t ws =
      .ok (t ++ (liveWrites ws).flatMap (PostgresStore.rowsOf now'))) :
    Taken marshal st t seen (.appendAtomic now now' ws) := by
  have hmc : MemoryStore.call marshal st (.appendAtomic now now' ws) =
      (.appended (.ok ()), (liveWrites ws).foldl (fun st w => w.land now st) st) := by
    simp only [MemoryStore.call, hm]
  have hpc : PostgresStore.call marshal t (.appendAtomic now now' ws) =
      (.appended (.ok ()), t ++ (liveWrites ws).flatMap (PostgresStore.rowsOf now')) := by
    simp only [PostgresStore.call, hp]
  have hpaired : Paired ((liveWrites ws).foldl (fun st w => w.land now st) st)
      (t ++ (liveWrites ws).flatMap (PostgresStore.rowsOf now')) seen :=
    ⟨h.mirrors.landed hnd, h.gapFree.landed hnd hexp, h.behind_landed now _⟩
  refine ⟨?_, ?_, ?_, ?_⟩ <;> simp only [hmc, hpc]
  · exact hpaired
  · refine Or.inr ⟨now, now', ws, rfl, fun w hw => ?_, fun a id hno => landAll_other hno⟩
    exact ⟨_, rowsFrom_event now _ _, landAll_same hnd hw⟩
  · refine Or.inr ⟨now, now', ws, rfl, fun w hw => ?_, fun a id hno => ?_⟩
    · rw [hpaired.mirrors.load_eq hpaired.gapFree, h.mirrors.load_eq h.gapFree,
        PostgresStore.stream_append, PostgresStore.stream_batch_same hnd hw]
      exact ⟨_, rowsFrom_event now' _ _, rfl⟩
    · rw [hpaired.mirrors.load_eq hpaired.gapFree, h.mirrors.load_eq h.gapFree,
        PostgresStore.stream_append, PostgresStore.stream_batch_other hno, List.append_nil]

theorem Paired.gapFree_load (h : Paired st t seen) : GapFree (PostgresStore.load t) := by
  intro a id
  have hfacts := h.load_facts a id
  have hlen := congrArg List.length hfacts
  rw [List.length_map, List.length_map] at hlen
  rw [map_sequence_of_facts hfacts, h.gapFree a id, hlen]

/-- **One call.** -/
theorem Paired.taken (h : Paired st t seen) {c : StoreCall} (hread : Reread seen c)
    (hsound : SoundCall marshal st c) : Taken marshal st t seen c := by
  cases c with
  | load a id =>
    refine ⟨?_, ⟨h.mirrors, h.gapFree, fun a' id' n hm => ?_⟩, Or.inl fun _ _ => rfl,
      Or.inl fun _ _ => rfl⟩
    · simp only [MemoryStore.call, PostgresStore.call, h.load_facts]
    · rcases List.mem_cons.mp hm with heq | hm
      · obtain ⟨hk, rfl⟩ := Prod.mk.inj heq
        cases hk
        exact Nat.le_refl _
      · exact h.behind a' id' n hm
  | appendAtomic now now' ws =>
    have hb : Behind st ws := fun w hw =>
      h.behind _ _ _ (hread w (List.mem_of_mem_filter hw))
    have happends : Appends marshal st t now now' ws := h.mirrors.appends h.gapFree hb hsound
    cases happends with
    | refused e hm hp =>
      have hmc : MemoryStore.call marshal st (.appendAtomic now now' ws) =
          (.appended (.error e), st) := by
        simp only [MemoryStore.call, hm]
      have hpc : PostgresStore.call marshal t (.appendAtomic now now' ws) =
          (.appended (.error e), t) := by
        simp only [PostgresStore.call, hp]
      refine ⟨?_, ?_, ?_, ?_⟩ <;> simp only [hmc, hpc]
      · exact h
      · exact Or.inl fun _ _ => rfl
      · exact Or.inl fun _ _ => rfl
    | landed hnd hexp hm hp => exact h.taken_landed hnd hexp hm hp

theorem Together.paired (h : Together marshal st t seen) : Paired st t seen := by
  induction h with
  | empty => exact paired_empty
  | call _ c hread hsound ih => exact (ih.taken hread hsound).paired

/-- **The two event stores are one store**: after any sequence of calls, in which each
write expects a length some earlier Load returned, the next such call is answered
alike by both, lands in both as a whole or not at all, and leaves every stream of
both numbered without a gap and extended only at its end. -/
theorem stores_are_one {seen : Lengths} (h : Together marshal st t seen) {c : StoreCall}
    (hread : Reread seen c) (hsound : SoundCall marshal st c) :
    (MemoryStore.call marshal st c).1 = (PostgresStore.call marshal t c).1 ∧
    AllOrNothing st (MemoryStore.call marshal st c).2 c ∧
    AllOrNothing (PostgresStore.load t) (PostgresStore.load (PostgresStore.call marshal t c).2) c ∧
    (GapFree st ∧ GapFree (PostgresStore.load t)) ∧
    ∀ a id, st a id <+: (MemoryStore.call marshal st c).2 a id ∧
      PostgresStore.load t a id <+: PostgresStore.load (PostgresStore.call marshal t c).2 a id := by
  have hpaired : Paired st t seen := h.paired
  have htaken := hpaired.taken hread hsound
  exact ⟨htaken.answer, htaken.memory, htaken.postgres, ⟨hpaired.gapFree, hpaired.gapFree_load⟩,
    fun a id => ⟨htaken.memory.grows a id, htaken.postgres.grows a id⟩⟩

/-- A write that opens Wallet `uuid 0` under this name, by a writer who found no
Wallet. -/
def openingNamed (name : String) : StreamWrite :=
  ⟨.wallet, .uuid 0, 0, [WalletEvent.walletOpened (.uuid 0) (.uuid 1) name .none]⟩

/-- The Wallet is loaded, and opened. -/
def openedCalls : List StoreCall :=
  [.load .wallet (.uuid 0), .appendAtomic 0 0 [openingNamed "main"]]

/-- A `MemoryStore` after the calls. -/
def MemoryStore.after (marshal : Marshal) (cs : List StoreCall) : Store :=
  cs.foldl (fun st c => (MemoryStore.call marshal st c).2) .empty

/-- A `PostgresStore` after the calls. -/
def PostgresStore.after (marshal : Marshal) (cs : List StoreCall) : Table :=
  cs.foldl (fun t c => (PostgresStore.call marshal t c).2) []

theorem together_opened
    (hm : marshal .wallet (.walletOpened (.uuid 0) (.uuid 1) "main" .none) = none) :
    Together marshal (MemoryStore.after marshal openedCalls)
      (PostgresStore.after marshal openedCalls) [((.wallet, .uuid 0), 0)] := by
  have hload := (@Together.empty marshal).call (.load .wallet (.uuid 0)) trivial trivial
  refine hload.call (.appendAtomic 0 0 [openingNamed "main"]) ?_ (Or.inl ?_)
  · intro w hw
    obtain rfl := List.mem_singleton.mp hw
    exact List.mem_singleton.mpr rfl
  · intro w hw
    obtain rfl := List.mem_singleton.mp hw
    simp [openingNamed, marshalError, hm]

/-- Another writer who found no Wallet: both stores answer that it lost. -/
theorem stores_are_one_opened :
    (MemoryStore.call (fun _ _ => none) (MemoryStore.after (fun _ _ => none) openedCalls)
        (.appendAtomic 1 1 [openingNamed "other"])).1 =
      (PostgresStore.call (fun _ _ => none) (PostgresStore.after (fun _ _ => none) openedCalls)
        (.appendAtomic 1 1 [openingNamed "other"])).1 := by
  have hread : Reread [((.wallet, .uuid 0), 0)] (.appendAtomic 1 1 [openingNamed "other"]) := by
    intro w hw
    obtain rfl := List.mem_singleton.mp hw
    exact List.mem_singleton.mpr rfl
  refine (stores_are_one (together_opened rfl) hread (Or.inl fun w hw => ?_)).1
  obtain rfl := List.mem_singleton.mp hw
  rfl

/-- `proto.Marshal` on a Wallet's name that is not valid UTF-8, `bad` standing for
such a name. -/
def refusesName (bad : String) : Marshal
  | .wallet, .walletOpened _ _ name _ =>
    if name = bad then some [.lit "*walletv1.WalletOpened: string field contains invalid UTF-8"]
    else none
  | _, _ => none

/-- **Two errors for one call**: the writer lost, and its event does not marshal.
`MemoryStore` answers the one, `PostgresStore` the other. -/
theorem marshal_or_conflict :
    let marshal := refusesName "bad"
    let st := MemoryStore.after marshal openedCalls
    let t := PostgresStore.after marshal openedCalls
    let c : StoreCall := .appendAtomic 1 1 [openingNamed "bad"]
    Together marshal st t [((.wallet, .uuid 0), 0)] ∧ Reread [((.wallet, .uuid 0), 0)] c ∧
      (MemoryStore.call marshal st c).1 = .appended (.error .concurrencyConflict) ∧
      (PostgresStore.call marshal t c).1 = .appended (.error (.plain [.lit "eventstore: marshal ",
        .lit "*walletv1.WalletOpened: string field contains invalid UTF-8"])) := by
  refine ⟨together_opened (by decide), fun w hw => ?_, rfl, rfl⟩
  obtain rfl := List.mem_singleton.mp hw
  exact List.mem_singleton.mpr rfl

end

end MoneyFlow
