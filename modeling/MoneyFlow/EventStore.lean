import MoneyFlow.Events

/-!
# MoneyFlow.EventStore

The append-only log, as `eventstore.MemoryStore` keeps it: one stream of rows
per aggregate, written only by `appendAtomic`, which checks every stream it
names against the position its writer loaded and then lands all writes or
none.

The one fact everything else rests on is `appendAtomic_stream`: a landed append
extends each stream it names, found exactly as long as its writer expected,
and leaves every other stream alone.
-/

namespace MoneyFlow

variable {now : Nat} {E : Type}

/-- Every aggregate's stream. -/
abbrev Store := (a : Aggregate) → Id → List (Row a.Event)

variable {st st' : Store}

namespace Store

/-- The log before anything happened. -/
def empty : Store := fun _ _ => []

end Store

/-- The rows events land as, sequenced right after position `seq`. -/
def rowsFrom {E : Type} (now : Nat) : Nat → List E → List (Row E)
  | _, [] => []
  | seq, e :: es =>
    { sequence := seq + 1, event := e, occurredAt := now } :: rowsFrom now (seq + 1) es

/-- `eventstore.StreamWrite`: one aggregate's part of an atomic append. -/
structure StreamWrite where
  aggregateType : Aggregate
  aggregateID : Id
  expectedSeq : Nat
  events : List aggregateType.Event

variable {ws : List StreamWrite} {w : StreamWrite}

namespace StreamWrite

/-- The stream a write names. -/
def key (w : StreamWrite) : Aggregate × Id := (w.aggregateType, w.aggregateID)

/-- Whether the stream is where the writer expects it. -/
def expected (w : StreamWrite) (st : Store) : Bool :=
  (st w.aggregateType w.aggregateID).length == w.expectedSeq

/-- Land one write. -/
def land (w : StreamWrite) (now : Nat) (st : Store) : Store :=
  Function.update st w.aggregateType
    (Function.update (st w.aggregateType) w.aggregateID
      (st w.aggregateType w.aggregateID ++ rowsFrom now w.expectedSeq w.events))

end StreamWrite

/-- `eventstore.liveWrites`: writes that would insert nothing are dropped. -/
def liveWrites (writes : List StreamWrite) : List StreamWrite :=
  writes.filter fun w => !w.events.isEmpty

/-- The loop of `validateWrites`, `seen` the streams named so far. -/
def validateWritesFrom (seen : List (Aggregate × Id)) : List StreamWrite → Except Err Unit
  | [] => .ok ()
  | w :: rest =>
    if w.aggregateID = Id.empty then
      .error (.plain [.lit "eventstore: stream write is missing aggregate identity"])
    else if seen.contains w.key then .error (.duplicateStream w.aggregateType.name w.aggregateID)
    else validateWritesFrom (w.key :: seen) rest

/-- `eventstore.validateWrites`: every write names an aggregate, and no stream
twice. A position is a natural number here, so none is negative. -/
def validateWrites (writes : List StreamWrite) : Except Err Unit := validateWritesFrom [] writes

/-- `MemoryStore.AppendAtomic`. -/
def appendAtomic (now : Nat) (st : Store) (writes : List StreamWrite) : Except Err Store :=
  match validateWrites (liveWrites writes) with
  | .error e => .error e
  | .ok () =>
    if (liveWrites writes).all (·.expected st) then
      .ok ((liveWrites writes).foldl (fun st w => w.land now st) st)
    else .error .concurrencyConflict

/-! ### What an append does -/

@[simp] theorem rowsFrom_nil (now seq : Nat) : rowsFrom now seq ([] : List E) = [] := rfl

@[simp] theorem rowsFrom_cons (now seq : Nat) (e : E) (es : List E) : rowsFrom now seq (e :: es) =
      { sequence := seq + 1, event := e, occurredAt := now } :: rowsFrom now (seq + 1) es := rfl

@[simp] theorem rowsFrom_length (now : Nat) :
    ∀ (seq : Nat) (es : List E), (rowsFrom now seq es).length = es.length
  | _, [] => rfl
  | seq, _ :: es => by simp [rowsFrom_length now (seq + 1) es]

@[simp] theorem rowsFrom_event (now : Nat) :
    ∀ (seq : Nat) (es : List E), (rowsFrom now seq es).map Row.event = es
  | _, [] => rfl
  | seq, _ :: es => by simp [rowsFrom_event now (seq + 1) es]

@[simp] theorem StreamWrite.land_same (w : StreamWrite) (now : Nat) (st : Store) :
    w.land now st w.aggregateType w.aggregateID =
      st w.aggregateType w.aggregateID ++ rowsFrom now w.expectedSeq w.events := by
  simp [land]

theorem StreamWrite.land_other {a : Aggregate} {id : Id} (h : w.key ≠ (a, id)) :
    w.land now st a id = st a id := by
  unfold land
  by_cases ha : a = w.aggregateType
  · subst ha
    have hid : id ≠ w.aggregateID := fun h' => h (by simp [key, h'])
    simp [Function.update_of_ne hid]
  · simp [Function.update_of_ne ha]

/-- Landing a write only ever extends a stream. -/
theorem StreamWrite.land_grows (w : StreamWrite) (now : Nat) (st : Store) (a : Aggregate)
    (id : Id) : st a id <+: w.land now st a id := by
  by_cases h : w.key = (a, id)
  · cases h
    simp
  · rw [land_other h]

theorem landAll_grows (now : Nat) (a : Aggregate) (id : Id) :
    ∀ (ws : List StreamWrite) (st : Store),
      st a id <+: ws.foldl (fun st w => w.land now st) st a id
  | [], _ => List.prefix_rfl
  | w :: ws, st => (w.land_grows now st a id).trans (landAll_grows now a id ws _)

theorem landAll_other {a : Aggregate} {id : Id} :
    ∀ {ws : List StreamWrite} {st : Store}, (∀ w ∈ ws, w.key ≠ (a, id)) →
      ws.foldl (fun st w => w.land now st) st a id = st a id
  | [], _, _ => rfl
  | w :: ws, st, h => by
    rw [List.foldl_cons, landAll_other fun v hv => h v (List.mem_cons_of_mem _ hv)]
    exact StreamWrite.land_other (h w List.mem_cons_self)

theorem validateWritesFrom_nodup : ∀ {seen : List (Aggregate × Id)} {ws : List StreamWrite},
    validateWritesFrom seen ws = .ok () →
      (ws.map StreamWrite.key).Nodup ∧ ∀ k ∈ ws.map StreamWrite.key, k ∉ seen
  | _, [], _ => ⟨List.nodup_nil, nofun⟩
  | seen, w :: ws, h => by
    unfold validateWritesFrom at h
    split at h
    · simp at h
    · split at h
      · simp at h
      · rename_i hc
        obtain ⟨hnd, hnew⟩ := validateWritesFrom_nodup h
        rw [List.map_cons]
        refine ⟨List.nodup_cons.mpr ⟨fun hk => hnew _ hk List.mem_cons_self, hnd⟩, ?_⟩
        intro k hk hs
        rcases List.mem_cons.mp hk with rfl | hk
        · exact hc (by simpa using hs)
        · exact hnew k hk (List.mem_cons_of_mem _ hs)

/-- Writes that pass validation name distinct streams. -/
theorem validateWrites_nodup (h : validateWrites ws = .ok ()) : (ws.map StreamWrite.key).Nodup :=
  (validateWritesFrom_nodup h).1

theorem landAll_same :
    ∀ {ws : List StreamWrite} {st : Store}, (ws.map StreamWrite.key).Nodup → w ∈ ws →
      ws.foldl (fun st w => w.land now st) st w.aggregateType w.aggregateID =
        st w.aggregateType w.aggregateID ++ rowsFrom now w.expectedSeq w.events
  | v :: ws, st, hnd, hw => by
    rw [List.map_cons, List.nodup_cons] at hnd
    rw [List.foldl_cons]
    rcases List.mem_cons.mp hw with rfl | hw
    · have hother : ∀ u ∈ ws, u.key ≠ (w.aggregateType, w.aggregateID) := by
        intro u hu hk
        exact hnd.1 (List.mem_map.mpr ⟨u, hu, hk⟩)
      rw [landAll_other hother, StreamWrite.land_same]
    · have hne : v.key ≠ (w.aggregateType, w.aggregateID) := by
        intro hk
        exact hnd.1 (hk ▸ List.mem_map.mpr ⟨w, hw, rfl⟩)
      rw [landAll_same hnd.2 hw, StreamWrite.land_other hne]

/-- An append never shortens a stream. -/
theorem appendAtomic_grows (h : appendAtomic now st ws = .ok st') (a : Aggregate) (id : Id) :
    st a id <+: st' a id := by
  unfold appendAtomic at h
  split at h
  · simp at h
  · split at h
    · cases h
      exact landAll_grows now a id _ st
    · simp at h

/-- **What a landed append did to one stream**: nothing, or it was named by a
write that found it at the position it expected and extended it by its events. -/
theorem appendAtomic_stream (h : appendAtomic now st ws = .ok st') (a : Aggregate) (id : Id) :
    st' a id = st a id ∨
      ∃ events, StreamWrite.mk a id (st a id).length events ∈ ws ∧
        st' a id = st a id ++ rowsFrom now (st a id).length events := by
  unfold appendAtomic at h
  split at h
  · simp at h
  · rename_i hv
    split at h
    · rename_i hall
      cases h
      by_cases hex : ∃ w ∈ liveWrites ws, w.key = (a, id)
      · obtain ⟨⟨a', id', seq, events⟩, hw, hk⟩ := hex
        cases hk
        have hexp := List.all_eq_true.mp hall _ hw
        simp only [StreamWrite.expected, beq_iff_eq] at hexp
        subst hexp
        exact Or.inr ⟨events, List.mem_of_mem_filter hw,
          landAll_same (validateWrites_nodup hv) hw⟩
      · exact Or.inl (landAll_other fun w hw hk => hex ⟨w, hw, hk⟩)
    · simp at h

/-- Every write of a landed append that carries events has landed. -/
theorem appendAtomic_landed (h : appendAtomic now st ws = .ok st') (hw : w ∈ ws)
    (hne : w.events ≠ []) : (st w.aggregateType w.aggregateID).length = w.expectedSeq ∧
      st' w.aggregateType w.aggregateID =
        st w.aggregateType w.aggregateID ++ rowsFrom now w.expectedSeq w.events := by
  have hlive : w ∈ liveWrites ws := List.mem_filter.mpr ⟨hw, by simpa using hne⟩
  unfold appendAtomic at h
  split at h
  · simp at h
  · rename_i hv
    split at h
    · rename_i hall
      cases h
      have hexp := List.all_eq_true.mp hall _ hlive
      exact ⟨by simpa [StreamWrite.expected] using hexp,
        landAll_same (validateWrites_nodup hv) hlive⟩
    · simp at h

/-- The writes name streams, each once, and find them where they expect them. -/
structure Due (st : Store) (ws : List StreamWrite) : Prop where
  named : ∀ w ∈ ws, w.aggregateID ≠ Id.empty
  distinct : (ws.map StreamWrite.key).Nodup
  expected : ∀ w ∈ ws, w.expected st = true

theorem validateWritesFrom_of_distinct : ∀ {seen : List (Aggregate × Id)} {ws : List StreamWrite},
    (∀ w ∈ ws, w.aggregateID ≠ Id.empty) → (ws.map StreamWrite.key).Nodup →
      (∀ k ∈ ws.map StreamWrite.key, k ∉ seen) → validateWritesFrom seen ws = .ok ()
  | _, [], _, _, _ => rfl
  | seen, w :: ws, hne, hnd, hnew => by
    rw [List.map_cons] at hnd hnew
    obtain ⟨hw, hnd⟩ := List.nodup_cons.mp hnd
    have hseen : w.key ∉ seen := hnew w.key List.mem_cons_self
    unfold validateWritesFrom
    rw [if_neg (hne w List.mem_cons_self), if_neg (by simpa using hseen)]
    refine validateWritesFrom_of_distinct (fun v hv => hne v (List.mem_cons_of_mem _ hv)) hnd ?_
    intro k hk hs
    rcases List.mem_cons.mp hs with rfl | hs
    · exact hw hk
    · exact hnew k (List.mem_cons_of_mem _ hk) hs

theorem validateWrites_of_distinct (hne : ∀ w ∈ ws, w.aggregateID ≠ Id.empty)
    (hnd : (ws.map StreamWrite.key).Nodup) : validateWrites ws = .ok () :=
  validateWritesFrom_of_distinct hne hnd fun _ _ => List.not_mem_nil

/-- Writes that are due land. -/
theorem Due.lands (h : Due st ws) (now : Nat) : ∃ st', appendAtomic now st ws = .ok st' := by
  have hsub : (liveWrites ws).Sublist ws := List.filter_sublist
  have hvalid : validateWrites (liveWrites ws) = .ok () :=
    validateWrites_of_distinct (fun w hw => h.named w (hsub.subset hw))
      (h.distinct.sublist (hsub.map _))
  have hexp : (liveWrites ws).all (·.expected st) = true :=
    List.all_eq_true.mpr fun w hw => h.expected w (hsub.subset hw)
  exact ⟨_, by rw [appendAtomic, hvalid]; simp only [hexp, if_true]; rfl⟩

end MoneyFlow
