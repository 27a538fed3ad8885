import MoneyFlow.Concurrent.History
import MoneyFlow.Transaction.Dag

/-!
# MoneyFlow.Transaction.DagSound

What `validateDAG` guarantees of a DAG it accepts: every child is filed under
its own id, every dependency is between children, and **the dependencies can be
ranked** (`validateDAG_ranked`), so that no child waits on itself.

The last is Kahn's algorithm. `Kahn done degrees queue` is the invariant of its
loop, with the ids processed so far as a ghost: they are in topological order,
and `degrees` counts the edges that still lead in from an id not among them.
-/

namespace MoneyFlow

open Concurrent

variable {done : List Id} {id : Id}

namespace GoMap

variable {α : Type}

theorem nodup_keys (m : GoMap α) : m.keys.Nodup := m.nodup

theorem length_keys (m : GoMap α) : m.keys.length = m.size := List.length_map _

theorem mem_of_get? {m : GoMap α} {k : Id} {a : α} (h : m.get? k = some a) :
    (k, a) ∈ m.entries := by
  obtain ⟨l1, l2, heq, -⟩ := List.lookup_eq_some_iff.mp h
  rw [heq]
  exact List.mem_append_right _ List.mem_cons_self

theorem get?_of_mem {m : GoMap α} {k : Id} {a : α} (h : (k, a) ∈ m.entries) :
    m.get? k = some a := by
  obtain ⟨l1, l2, heq⟩ := List.append_of_mem h
  refine List.lookup_eq_some_iff.mpr ⟨l1, l2, heq, fun e he => ?_⟩
  have hnd := m.nodup
  rw [heq, List.map_append, List.map_cons, List.nodup_append] at hnd
  simpa using (hnd.2.2 e.1 (List.mem_map.mpr ⟨e, he, rfl⟩) k List.mem_cons_self).symm

theorem exists_get? {m : GoMap α} {k : Id} (h : k ∈ m.keys) : ∃ a, m.get? k = some a := by
  obtain ⟨e, hm, rfl⟩ := List.mem_map.mp h
  cases hl : m.get? e.1 with
  | some a => exact ⟨a, rfl⟩
  | none => exact absurd (List.lookup_eq_none_iff.mp hl _ hm) (by simp)

end GoMap

namespace Transaction

variable {transfers : GoMap TransferSpec} {deps : GoMap (List Id)}

/-! ### Children and references -/

theorem validateChildren_id : ∀ {entries : List (Id × TransferSpec)},
    validateChildren entries = .ok () → ∀ e ∈ entries, e.2.id = e.1
  | [], _, e, he => absurd he List.not_mem_nil
  | (key, spec) :: rest, h, e, he => by
    unfold validateChildren at h
    split at h
    · simp at h
    · rename_i hid
      split at h
      · simp at h
      · rcases List.mem_cons.mp he with rfl | he
        · simpa using hid
        · exact validateChildren_id h e he

theorem validateParents_mem {c : Id} : ∀ {parents : List Id},
    validateParents transfers c parents = .ok () → ∀ p ∈ parents, p ∈ transfers.keys
  | [], _, p, hp => absurd hp List.not_mem_nil
  | q :: rest, h, p, hp => by
    unfold validateParents at h
    split at h
    · rename_i hq
      rcases List.mem_cons.mp hp with rfl | hp
      · exact hq
      · exact validateParents_mem h p hp
    · simp at h

theorem validateReferences_mem : ∀ {entries : List (Id × List Id)},
    validateReferences transfers entries = .ok () →
      ∀ d ∈ entries, d.1 ∈ transfers.keys ∧ ∀ p ∈ d.2, p ∈ transfers.keys
  | [], _, d, hd => absurd hd List.not_mem_nil
  | (c, parents) :: rest, h, d, hd => by
    unfold validateReferences at h
    split at h
    · rename_i hc
      split at h
      · simp at h
      · rename_i hp
        rcases List.mem_cons.mp hd with rfl | hd
        · exact ⟨hc, validateParents_mem hp⟩
        · exact validateReferences_mem h d hd
    · simp at h

/-- The checks of `validateDAG`, one by one. -/
theorem validateDAG_ok (h : validateDAG transfers deps = .ok ()) :
    transfers.size ≠ 0 ∧ transfers.size ≤ maxTransfersPerTransaction ∧
      validateChildren transfers.entries = .ok () ∧
      validateReferences transfers deps.entries = .ok () ∧
      processQueue deps transfers.size (inDegrees deps)
        (transfers.keys.filter fun id => inDegrees deps id = 0) = transfers.size := by
  unfold validateDAG at h
  split at h
  · simp at h
  · rename_i hsize
    split at h
    · simp at h
    · rename_i hmax
      split at h
      · simp at h
      · rename_i hchildren
        split at h
        · simp at h
        · rename_i hrefs
          split at h
          · rename_i hcount
            exact ⟨hsize, Nat.not_lt.mp hmax, hchildren, hrefs, hcount⟩
          · simp at h

theorem mem_edges {p c : Id} :
    (p, c) ∈ edges deps ↔ ∃ parents, (c, parents) ∈ deps.entries ∧ p ∈ parents := by
  simp only [edges, List.mem_flatMap, List.mem_map, Prod.mk.injEq, Prod.exists]
  constructor
  · rintro ⟨c', parents, hm, p', hp, rfl, rfl⟩
    exact ⟨parents, hm, hp⟩
  · rintro ⟨parents, hm, hp⟩
    exact ⟨c, parents, hm, p, hp, rfl, rfl⟩

theorem mem_edges_of_parentsOf {p c : Id} (h : p ∈ parentsOf deps c) : (p, c) ∈ edges deps := by
  unfold parentsOf at h
  cases hg : deps.get? c with
  | none => simp [hg] at h
  | some parents => exact mem_edges.mpr ⟨parents, GoMap.mem_of_get? hg, by simpa [hg] using h⟩

/-! ### Kahn's algorithm -/

/-- Every id comes after its parents. -/
abbrev Topological (deps : GoMap (List Id)) : List Id → Prop :=
  History fun done id => ∀ p, (p, id) ∈ edges deps → p ∈ done

/-- How many edges lead into `id` from outside `done`. -/
def openEdges (deps : GoMap (List Id)) (done : List Id) (id : Id) : Nat :=
  (edges deps).countP fun e => e.2 = id ∧ e.1 ∉ done

/-- The invariant of `processQueue`'s loop. -/
structure Kahn (transfers : GoMap TransferSpec) (deps : GoMap (List Id)) (done : List Id)
    (degrees : Id → Nat) (queue : List Id) : Prop where
  topological : Topological deps done
  nodup : (done ++ queue).Nodup
  keys : ∀ id ∈ done ++ queue, id ∈ transfers.keys
  counted : ∀ id, degrees id = openEdges deps done id
  queued : ∀ id ∈ queue, degrees id = 0

theorem openEdges_eq_zero : openEdges deps done id = 0 ↔ ∀ p, (p, id) ∈ edges deps → p ∈ done := by
  simp only [openEdges, List.countP_eq_zero, decide_eq_true_eq, not_and, not_not, Prod.forall]
  exact ⟨fun h p hm => h p id hm rfl, fun h p _ hm hc => h p (hc ▸ hm)⟩

/-- Processing an id closes the edges that lead out of it. -/
theorem openEdges_snoc (hid : id ∉ done) (x : Id) :
    openEdges deps done x = openEdges deps (done ++ [id]) x + (childrenOf deps id).count x := by
  unfold openEdges childrenOf
  induction edges deps with
  | nil => simp
  | cons e es ih =>
    obtain ⟨p, c⟩ := e
    by_cases hp : p = id
    · subst hp
      by_cases hc : c = x <;> simp [hc, hid] at ih ⊢ <;> omega
    · by_cases hc : c = x <;> by_cases hd : p ∈ done <;>
        simp [hc, hp, hd] at ih ⊢ <;> omega

/-- `release` takes one edge from each child it is given, and queues those left
with none, each once. -/
theorem release_eq (base : Id → Nat) : ∀ (cs : List Id) (degrees : Id → Nat) (queue : List Id),
    (∀ x, degrees x = base x + cs.count x) →
      ∃ pushed, release cs degrees queue = (base, queue ++ pushed) ∧ pushed.Nodup ∧
        ∀ x, x ∈ pushed ↔ x ∈ cs ∧ base x = 0
  | [], degrees, queue, h => ⟨[], by simp [release, funext h], by simp, by simp⟩
  | c :: rest, degrees, queue, h => by
    have hdeg (x : Id) : Function.update degrees c (degrees c - 1) x = base x + rest.count x := by
      by_cases hx : x = c
      · subst hx
        rw [Function.update_self, h, List.count_cons_self]
        omega
      · rw [Function.update_of_ne hx, h, List.count_cons_of_ne (Ne.symm hx)]
    obtain ⟨pushed, heq, hnd, hmem⟩ := release_eq base rest _
      (if Function.update degrees c (degrees c - 1) c = 0 then queue ++ [c] else queue) hdeg
    have hc : Function.update degrees c (degrees c - 1) c = 0 ↔ base c = 0 ∧ c ∉ rest := by
      rw [hdeg, Nat.add_eq_zero_iff, List.count_eq_zero]
    by_cases hzero : base c = 0 ∧ c ∉ rest
    · rw [if_pos (hc.mpr hzero)] at heq
      refine ⟨c :: pushed, ?_, ?_, fun x => ?_⟩
      · simp only [release, if_pos (hc.mpr hzero)]
        rw [heq, List.append_assoc, List.singleton_append]
      · exact List.nodup_cons.mpr ⟨fun hm => hzero.2 ((hmem c).mp hm).1, hnd⟩
      · rw [List.mem_cons, hmem, List.mem_cons]
        constructor
        · rintro (rfl | hx)
          · exact ⟨Or.inl rfl, hzero.1⟩
          · exact ⟨Or.inr hx.1, hx.2⟩
        · rintro ⟨rfl | hx, hb⟩
          · exact Or.inl rfl
          · exact Or.inr ⟨hx, hb⟩
    · rw [if_neg (mt hc.mp hzero)] at heq
      refine ⟨pushed, ?_, hnd, fun x => ?_⟩
      · simp only [release, if_neg (mt hc.mp hzero)]
        exact heq
      · rw [hmem, List.mem_cons]
        constructor
        · rintro ⟨hx, hb⟩
          exact ⟨Or.inr hx, hb⟩
        · rintro ⟨rfl | hx, hb⟩
          · exact ⟨by_contra fun hx => hzero ⟨hb, hx⟩, hb⟩
          · exact ⟨hx, hb⟩

/-- What is processed or queued has no edge open. -/
theorem Kahn.degree_zero {queue : List Id} {degrees : Id → Nat}
    (h : Kahn transfers deps done degrees queue) (hid : id ∈ done ++ queue) : degrees id = 0 := by
  rcases List.mem_append.mp hid with hid | hid
  · rw [h.counted, openEdges_eq_zero]
    intro p hp
    obtain ⟨pre, hpre, hparents⟩ := h.topological.of_mem hid
    exact hpre.subset (List.mem_append_left _ (hparents p hp))
  · exact h.queued id hid

/-- One round of the loop. -/
theorem Kahn.step {done queue : List Id} {degrees : Id → Nat} {id : Id}
    (href : validateReferences transfers deps.entries = .ok ())
    (h : Kahn transfers deps done degrees (id :: queue)) :
    Kahn transfers deps (done ++ [id]) (release (childrenOf deps id) degrees queue).1
      (release (childrenOf deps id) degrees queue).2 := by
  have hid : id ∉ done := fun hm =>
    (List.nodup_append.mp h.nodup).2.2 id hm id List.mem_cons_self rfl
  obtain ⟨pushed, heq, hnd, hmem⟩ := release_eq (openEdges deps (done ++ [id]))
    (childrenOf deps id) degrees queue fun x => by rw [h.counted, openEdges_snoc hid]
  rw [heq]
  have hchild {x : Id} (hx : x ∈ pushed) : (id, x) ∈ edges deps := by
    simpa [childrenOf] using ((hmem x).mp hx).1
  -- a child just released had an edge open, so it was neither processed nor queued
  have hfresh {x : Id} (hx : x ∈ pushed) : x ∉ done ++ id :: queue := fun hm => by
    have hzero := h.degree_zero hm
    rw [h.counted, openEdges_eq_zero] at hzero
    exact hid (hzero id (hchild hx))
  refine ⟨h.topological.snoc ?_, ?_, ?_, fun _ => rfl, ?_⟩
  · have hzero := h.queued id List.mem_cons_self
    rw [h.counted, openEdges_eq_zero] at hzero
    exact hzero
  · rw [List.append_assoc, List.singleton_append, ← List.cons_append, ← List.append_assoc]
    exact List.nodup_append.mpr ⟨h.nodup, hnd, fun x hx y hy hxy => hfresh hy (hxy ▸ hx)⟩
  · intro x hx
    rw [List.append_assoc, List.singleton_append, ← List.cons_append, ← List.append_assoc] at hx
    rcases List.mem_append.mp hx with hx | hx
    · exact h.keys x hx
    · obtain ⟨parents, hentry, -⟩ := mem_edges.mp (hchild hx)
      exact (validateReferences_mem href _ hentry).1
  · intro x hx
    rcases List.mem_append.mp hx with hx | hx
    · have hzero := h.degree_zero (List.mem_append_right _ (List.mem_cons_of_mem _ hx))
      rw [h.counted, openEdges_snoc hid] at hzero
      exact (Nat.add_eq_zero_iff.mp hzero).1
    · exact ((hmem x).mp hx).2

/-- Kahn's loop processes its ids in topological order. -/
theorem Kahn.run (href : validateReferences transfers deps.entries = .ok ()) :
    ∀ (rounds : Nat) {done queue : List Id} {degrees : Id → Nat},
      Kahn transfers deps done degrees queue →
      ∃ order, order.length = done.length + processQueue deps rounds degrees queue ∧
        Topological deps order ∧ order.Nodup ∧ order ⊆ transfers.keys
  | 0, done, _, _, h =>
    ⟨done, rfl, h.topological, (List.nodup_append.mp h.nodup).1,
      fun x hx => h.keys x (List.mem_append_left _ hx)⟩
  | _ + 1, done, [], _, h =>
    ⟨done, rfl, h.topological, (List.nodup_append.mp h.nodup).1,
      fun x hx => h.keys x (List.mem_append_left _ hx)⟩
  | rounds + 1, _, _ :: _, _, h => by
    obtain ⟨order, hlen, hrest⟩ := Kahn.run href rounds (h.step href)
    refine ⟨order, ?_, hrest⟩
    rw [hlen, List.length_append, List.length_singleton, processQueue]
    omega

/-- Where Kahn's loop starts. -/
theorem Kahn.init (transfers : GoMap TransferSpec) (deps : GoMap (List Id)) :
    Kahn transfers deps [] (inDegrees deps)
    (transfers.keys.filter fun id => inDegrees deps id = 0) where
  topological := History.nil
  nodup := transfers.nodup_keys.filter _
  keys _ hid := (List.mem_filter.mp hid).1
  counted id := by simp [inDegrees, openEdges, List.countP_eq_length_filter]
  queued _ hid := by simpa using (List.mem_filter.mp hid).2

/-- **The dependencies of an accepted DAG can be ranked**, parents below their
children. -/
theorem validateDAG_ranked (h : validateDAG transfers deps = .ok ()) :
    ∃ rank : Id → Nat, ∀ c, ∀ p ∈ parentsOf deps c, rank p < rank c := by
  obtain ⟨-, -, -, href, hcount⟩ := validateDAG_ok h
  obtain ⟨order, hlen, htopo, hnd, hsub⟩ :=
    Kahn.run href transfers.size (Kahn.init transfers deps)
  -- as many ids were processed as there are children, so all of them were
  have hall : transfers.keys ⊆ order := by
    refine (hnd.subperm hsub).perm_of_length_le ?_ |>.symm.subset
    rw [hlen, hcount, transfers.length_keys, List.length_nil, Nat.zero_add]
  refine ⟨fun id => order.idxOf id, fun c p hp => ?_⟩
  have hedge := mem_edges_of_parentsOf hp
  obtain ⟨parents, hentry, -⟩ := mem_edges.mp hedge
  obtain ⟨pre, hpre, hparents⟩ := htopo.of_mem (hall (validateReferences_mem href _ hentry).1)
  obtain ⟨rest, rfl⟩ := hpre
  have hc : c ∉ pre := by
    rw [List.append_assoc] at hnd
    exact fun hm => (List.nodup_append.mp hnd).2.2 c hm c List.mem_cons_self rfl
  have hpm := hparents p hedge
  dsimp only
  rw [List.append_assoc, List.idxOf_append_of_mem hpm, List.idxOf_append_of_notMem hc]
  have := List.idxOf_lt_length_of_mem hpm
  omega

end Transaction

end MoneyFlow
