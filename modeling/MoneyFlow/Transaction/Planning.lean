import MoneyFlow.Transaction.DagSound
import MoneyFlow.Transaction.Saga

/-!
# MoneyFlow.Transaction.Planning

Which DAGs `validateDAG` accepts, exactly, and that planning over an accepted
DAG is never stuck.

`MoneyFlow.Transaction.DagSound` has one half of the first: Kahn's loop
processes ids in topological order. The other half is that it stops only when
nothing is left. `Kahn.step` keeps one more thing, that an id with no open edge
is processed or queued (`Kahn.step_queues`), so an id left over when the queue
is empty has an open edge, and its parent is left over as well: over finitely
many children that is a cycle (`acyclic_induction`).

The same induction, from parents to dependents, is what a rollback rests on: with
nothing left to undo and nothing in flight, a child that is not resolved goes back
to one whose rollback failed (`unresolved_failed`).
-/

namespace MoneyFlow

variable {id c : Id}

/-! ### Induction over a finite acyclic relation -/

/-- What holds of an element whenever it holds of all elements before it holds
of every element of a finite set with no cycle. -/
theorem acyclic_induction {α : Type} {r : α → α → Prop} (hr : ∀ x, ¬ Relation.TransGen r x x)
    (xs : List α) {P : α → Prop} (step : ∀ x ∈ xs, (∀ y ∈ xs, r y x → P y) → P x) :
    ∀ x ∈ xs, P x := by
  have hwf : WellFounded fun x y : {x // x ∈ xs} => Relation.TransGen r x.1 y.1 := by
    have : Finite {x // x ∈ xs} := List.finite_toSet xs
    have : IsTrans {x // x ∈ xs} fun x y => Relation.TransGen r x.1 y.1 := ⟨fun _ _ _ => .trans⟩
    have : Std.Irrefl fun x y : {x // x ∈ xs} => Relation.TransGen r x.1 y.1 := ⟨fun x => hr x.1⟩
    exact Finite.wellFounded_of_trans_of_irrefl _
  intro x hx
  refine hwf.induction (C := fun z => P z.1) ⟨x, hx⟩ fun z ih => ?_
  exact step z.1 z.2 fun y hy hyz => ih ⟨y, hy⟩ (.single hyz)

open Concurrent

namespace Transaction

variable {transfers : GoMap TransferSpec} {deps : GoMap (List Id)}

/-! ### The checks, one by one -/

/-- An amount a Transfer accepts: present, with a currency, above zero. -/
def ValidAmount (amount : Option Money) : Prop :=
  ∃ a, amount = some a ∧ a.currency ≠ "" ∧ 0 < a.minorUnits

theorem validateChildAmount_ok_iff (key : Id) {spec : TransferSpec} :
    validateChildAmount key spec = .ok () ↔ ValidAmount spec.amount := by
  unfold validateChildAmount ValidAmount
  cases spec.amount with
  | none => simp [validateMoney]
  | some a =>
    by_cases hc : a.currency = ""
    · simp [validateMoney, hc]
    · by_cases hz : a.minorUnits = 0
      · simp [validateMoney, hc, hz]
      · have hpos : 0 < a.minorUnits := by
          rw [UInt64.lt_iff_toNat_lt]
          exact Nat.pos_of_ne_zero fun h0 => hz (UInt64.toNat_inj.mp h0)
        simp [validateMoney, hc, hz, hpos]

theorem validateChildren_ok_iff : ∀ entries : List (Id × TransferSpec),
    validateChildren entries = .ok () ↔
      ∀ e ∈ entries, e.2.id = e.1 ∧ ValidAmount e.2.amount
  | [] => by simp [validateChildren]
  | (key, spec) :: rest => by
    rw [List.forall_mem_cons, ← validateChildren_ok_iff rest, validateChildren]
    by_cases hid : spec.id = key
    · rw [if_neg (not_not.mpr hid), ← validateChildAmount_ok_iff key]
      cases validateChildAmount key spec <;> simp [hid]
    · simp [hid]

theorem validateParents_ok_iff (c : Id) : ∀ parents : List Id,
    validateParents transfers c parents = .ok () ↔ ∀ p ∈ parents, p ∈ transfers.keys
  | [] => by simp [validateParents]
  | q :: rest => by
    rw [List.forall_mem_cons, ← validateParents_ok_iff c rest, validateParents]
    by_cases hq : q ∈ transfers.keys <;> simp [hq]

theorem validateReferences_ok_iff : ∀ entries : List (Id × List Id),
    validateReferences transfers entries = .ok () ↔
      ∀ d ∈ entries, d.1 ∈ transfers.keys ∧ ∀ p ∈ d.2, p ∈ transfers.keys
  | [] => by simp [validateReferences]
  | (c, parents) :: rest => by
    rw [List.forall_mem_cons, ← validateReferences_ok_iff rest, validateReferences,
      ← validateParents_ok_iff c]
    by_cases hc : c ∈ transfers.keys
    · cases validateParents transfers c parents <;> simp [hc]
    · simp [hc]

/-- The converse of `validateDAG_ok`. -/
theorem validateDAG_of_checks (hsize : transfers.size ≠ 0)
    (hmax : transfers.size ≤ maxTransfersPerTransaction)
    (hchildren : validateChildren transfers.entries = .ok ())
    (hrefs : validateReferences transfers deps.entries = .ok ())
    (hcount : processQueue deps transfers.size (inDegrees deps)
      (transfers.keys.filter fun id => inDegrees deps id = 0) = transfers.size) :
    validateDAG transfers deps = .ok () := by
  simp only [validateDAG, if_neg hsize, if_neg (Nat.not_lt.mpr hmax), hchildren, hrefs, hcount,
    if_true]

theorem mem_parentsOf_iff {p : Id} : p ∈ parentsOf deps c ↔ (p, c) ∈ edges deps := by
  refine ⟨mem_edges_of_parentsOf, fun h => ?_⟩
  obtain ⟨parents, hm, hp⟩ := mem_edges.mp h
  simpa [parentsOf, GoMap.get?_of_mem hm] using hp

/-! ### Kahn's algorithm leaves nothing behind -/

/-- An id with no edge open is processed or queued: kept by one round. -/
theorem Kahn.step_queues {done queue : List Id} {degrees : Id → Nat}
    (h : Kahn transfers deps done degrees (id :: queue))
    (hq : ∀ x ∈ transfers.keys, openEdges deps done x = 0 → x ∈ done ++ id :: queue) :
    ∀ x ∈ transfers.keys, openEdges deps (done ++ [id]) x = 0 →
      x ∈ (done ++ [id]) ++ (release (childrenOf deps id) degrees queue).2 := by
  have hid : id ∉ done := fun hm =>
    (List.nodup_append.mp h.nodup).2.2 id hm id List.mem_cons_self rfl
  obtain ⟨pushed, heq, -, hmem⟩ := release_eq (openEdges deps (done ++ [id]))
    (childrenOf deps id) degrees queue fun x => by rw [h.counted, openEdges_snoc hid]
  rw [heq]
  intro x hx hzero
  by_cases hc : x ∈ childrenOf deps id
  · have hp : x ∈ pushed := (hmem x).mpr ⟨hc, hzero⟩
    simp [hp]
  · -- no edge leads from `id` to `x`, so none was open before either
    have hbefore : openEdges deps done x = 0 := by
      rw [openEdges_snoc hid, hzero, List.count_eq_zero.mpr hc]
    have := hq x hx hbefore
    simp only [List.mem_append, List.mem_cons, List.not_mem_nil, or_false] at this ⊢
    tauto

/-- The loop processes every id whose parents it processes. -/
theorem Kahn.run_queues (href : validateReferences transfers deps.entries = .ok ()) :
    ∀ (rounds : Nat) {done queue : List Id} {degrees : Id → Nat},
      Kahn transfers deps done degrees queue → done.length + rounds = transfers.size →
      (∀ x ∈ transfers.keys, openEdges deps done x = 0 → x ∈ done ++ queue) →
      ∃ order, order.length = done.length + processQueue deps rounds degrees queue ∧
        order.Nodup ∧ order ⊆ transfers.keys ∧
        ∀ x ∈ transfers.keys, openEdges deps order x = 0 → x ∈ order
  | 0, done, _, _, h, hlen, _ => by
    have hnd := (List.nodup_append.mp h.nodup).1
    have hsub : done ⊆ transfers.keys := fun x hx => h.keys x (List.mem_append_left _ hx)
    -- every child has had its round
    have hall : transfers.keys ⊆ done := by
      refine (hnd.subperm hsub).perm_of_length_le ?_ |>.symm.subset
      rw [transfers.length_keys, ← hlen, Nat.add_zero]
    exact ⟨done, rfl, hnd, hsub, fun x hx _ => hall hx⟩
  | _ + 1, done, [], _, h, _, hq => by
    rw [List.append_nil] at hq
    exact ⟨done, rfl, (List.nodup_append.mp h.nodup).1,
      fun x hx => h.keys x (List.mem_append_left _ hx), hq⟩
  | rounds + 1, done, id :: queue, degrees, h, hlen, hq => by
    have hlen' : (done ++ [id]).length + rounds = transfers.size := by
      rw [List.length_append, List.length_singleton]
      omega
    obtain ⟨order, heq, hrest⟩ :=
      Kahn.run_queues href rounds (h.step href) hlen' (h.step_queues hq)
    refine ⟨order, ?_, hrest⟩
    rw [heq, List.length_append, List.length_singleton, processQueue]
    omega

/-- Without a cycle, Kahn's loop processes every child. -/
theorem processQueue_of_acyclic (href : validateReferences transfers deps.entries = .ok ())
    (hacyclic : ∀ id, ¬ Relation.TransGen (fun p c => p ∈ parentsOf deps c) id id) :
    processQueue deps transfers.size (inDegrees deps)
      (transfers.keys.filter fun id => inDegrees deps id = 0) = transfers.size := by
  have hinit := Kahn.init transfers deps
  obtain ⟨order, hlen, hnd, hsub, hqueues⟩ := Kahn.run_queues href transfers.size hinit
    (Nat.zero_add _) fun x hx hzero => by
      rw [← hinit.counted] at hzero
      exact List.mem_filter.mpr ⟨hx, by simpa using hzero⟩
  have hall : ∀ x ∈ transfers.keys, x ∈ order := by
    refine acyclic_induction hacyclic transfers.keys fun x hx ih => ?_
    refine hqueues x hx (openEdges_eq_zero.mpr fun p hp => ?_)
    obtain ⟨parents, hentry, hmem⟩ := mem_edges.mp hp
    exact ih p ((validateReferences_mem href _ hentry).2 p hmem) (mem_parentsOf_iff.mpr hp)
  have hperm : order.Perm transfers.keys :=
    (List.perm_ext_iff_of_nodup hnd transfers.nodup_keys).mpr fun x => ⟨@hsub x, hall x⟩
  have hsize : order.length = transfers.size := hperm.length_eq.trans transfers.length_keys
  rwa [hlen, List.length_nil, Nat.zero_add] at hsize

/-! ### What `validateDAG` accepts -/

/-- What the children and dependencies of a Transaction have to be. -/
structure WellFormedSpec (transfers : GoMap TransferSpec) (deps : GoMap (List Id)) : Prop where
  /-- Between 1 and 64 transfers. -/
  size_pos : 1 ≤ transfers.size
  size_le : transfers.size ≤ 64
  /-- Every key is its spec's id. -/
  ids : ∀ e ∈ transfers.entries, e.2.id = e.1
  amounts : ∀ e ∈ transfers.entries, ValidAmount e.2.amount
  /-- Every id the dependencies mention is a key of `transfers`. -/
  references : ∀ d ∈ deps.entries, d.1 ∈ transfers.keys ∧ ∀ p ∈ d.2, p ∈ transfers.keys
  /-- Nobody is reached from itself by listing parents. -/
  acyclic : ∀ id, ¬ Relation.TransGen (fun p c => p ∈ parentsOf deps c) id id

/-- A relation that raises a rank has no cycle. -/
theorem acyclic_of_ranked {rank : Id → Nat}
    (hrank : ∀ c, ∀ p ∈ parentsOf deps c, rank p < rank c) (id : Id) :
    ¬ Relation.TransGen (fun p c => p ∈ parentsOf deps c) id id := by
  have hlt {x y : Id} (h : Relation.TransGen (fun p c => p ∈ parentsOf deps c) x y) :
      rank x < rank y := by
    induction h with
    | single h => exact hrank _ _ h
    | tail _ h ih => exact ih.trans (hrank _ _ h)
  exact fun h => (hlt h).false

theorem WellFormedSpec.of_ok (h : validateDAG transfers deps = .ok ()) :
    WellFormedSpec transfers deps := by
  obtain ⟨hsize, hmax, hchildren, hrefs, -⟩ := validateDAG_ok h
  obtain ⟨rank, hrank⟩ := validateDAG_ranked h
  exact ⟨Nat.one_le_iff_ne_zero.mpr hsize, hmax,
    fun e he => ((validateChildren_ok_iff _).mp hchildren e he).1,
    fun e he => ((validateChildren_ok_iff _).mp hchildren e he).2,
    (validateReferences_ok_iff _).mp hrefs, acyclic_of_ranked hrank⟩

theorem WellFormedSpec.ok (h : WellFormedSpec transfers deps) :
    validateDAG transfers deps = .ok () := by
  have hrefs := (validateReferences_ok_iff _).mpr h.references
  exact validateDAG_of_checks (Nat.one_le_iff_ne_zero.mp h.size_pos) h.size_le
    ((validateChildren_ok_iff _).mpr fun e he => ⟨h.ids e he, h.amounts e he⟩) hrefs
    (processQueue_of_acyclic hrefs h.acyclic)

/-- **`validateDAG` accepts exactly the well-formed specs.** -/
theorem validateDAG_accepts_exactly (transfers : GoMap TransferSpec) (deps : GoMap (List Id)) :
    validateDAG transfers deps = .ok () ↔ WellFormedSpec transfers deps :=
  ⟨WellFormedSpec.of_ok, WellFormedSpec.ok⟩

theorem WellFormedSpec.parent_mem (h : WellFormedSpec transfers deps) {p : Id}
    (hp : p ∈ parentsOf deps c) : p ∈ transfers.keys ∧ c ∈ transfers.keys := by
  obtain ⟨parents, hentry, hmem⟩ := mem_edges.mp (mem_parentsOf_iff.mp hp)
  exact ⟨(h.references _ hentry).2 p hmem, (h.references _ hentry).1⟩

/-- Going from dependents to dependents never comes back either. -/
theorem WellFormedSpec.acyclic_swap (h : WellFormedSpec transfers deps) (id : Id) :
    ¬ Relation.TransGen (fun d c => c ∈ parentsOf deps d) id id := fun hc =>
  h.acyclic id (Relation.transGen_swap.mp hc)

/-! ### Rolling back -/

variable {children : Children} {order : List Id}

theorem Children.state_mem (h : children.touched id = true) :
    (id, children.state id) ∈ children := by
  obtain ⟨st, hst⟩ := Option.isSome_iff_exists.mp h
  obtain ⟨l1, l2, heq, -⟩ := List.lookup_eq_some_iff.mp hst
  have hstate : children.state id = st := by rw [Children.state, hst, Option.getD_some]
  rw [hstate, heq]
  exact List.mem_append_right _ List.mem_cons_self

theorem not_rollbackRequested (h : (planRollback order deps children).inFlight = false)
    (hid : children.touched id = true) : children.state id ≠ .rollbackRequested := by
  intro hst
  have := List.any_eq_false.mp h _ (Children.state_mem hid)
  simp [hst] at this

theorem not_rollbackFailed (h : (planRollback order deps children).anyFailed = false)
    (hid : children.touched id = true) : children.state id ≠ .rollbackFailed := by
  intro hst
  have := List.any_eq_false.mp h _ (Children.state_mem hid)
  simp [hst] at this

/-- `d` is touched and lists `c` as a parent. -/
def TouchedDependent (deps : GoMap (List Id)) (children : Children) (c d : Id) : Prop :=
  c ∈ parentsOf deps d ∧ children.touched d = true

/-- A child that is not ready has a dependent still active. -/
theorem exists_active_dependent (hc : c ∈ order) (ht : children.touched c = true)
    (hr : children.resolved c = false) (hcand : (planRollback order deps children).candidates = [])
    (hwait : (planRollback order deps children).inFlight = false)
    (hfail : children.state c ≠ .rollbackFailed) :
    ∃ d, TouchedDependent deps children c d ∧ children.resolved d = false := by
  have hnot : c ∉ (planRollback order deps children).candidates := by simp [hcand]
  have hflight := not_rollbackRequested hwait ht
  simp only [planRollback, readyToRollback, List.mem_filter, hc, ht, hr, true_and,
    Bool.and_eq_true, bne_iff_ne, beq_eq_false_iff_ne.mpr hflight, Bool.not_false, hfail,
    ne_eq, not_false_eq_true, and_true, Bool.not_eq_true', Bool.not_eq_false] at hnot
  obtain ⟨d, hd, hactive⟩ := List.any_eq_true.mp hnot
  simp only [Bool.and_eq_true, Bool.not_eq_true', List.contains_iff_mem] at hactive
  exact ⟨d.1, ⟨by simpa [parentsOf, GoMap.get?_of_mem hd] using hactive.2, hactive.1.1⟩,
    hactive.1.2⟩

/-- Nothing to roll back and nothing in flight leaves an unresolved child only
where some rollback failed: its own, or one it waits for. -/
theorem unresolved_failed (h : WellFormedSpec transfers deps) (horder : order.Perm transfers.keys)
    (hcand : (planRollback order deps children).candidates = [])
    (hwait : (planRollback order deps children).inFlight = false) :
    ∀ c ∈ transfers.keys, children.touched c = true → children.resolved c = false →
      children.state c = .rollbackFailed ∨ ∃ d,
        Relation.TransGen (TouchedDependent deps children) c d ∧
          children.touched d = true ∧ children.state d = .rollbackFailed := by
  refine acyclic_induction h.acyclic_swap transfers.keys fun c hc ih ht hr => ?_
  by_cases hfail : children.state c = .rollbackFailed
  · exact .inl hfail
  · obtain ⟨d, hd, hrd⟩ :=
      exists_active_dependent (horder.mem_iff.mpr hc) ht hr hcand hwait hfail
    rcases ih d (h.parent_mem hd.1).2 hd.1 hd.2 hrd with hfd | ⟨x, hx, htx, hfx⟩
    · exact .inr ⟨d, .single hd, hd.2, hfd⟩
    · exact .inr ⟨x, .head hd hx, htx, hfx⟩

/-! ### Running -/

/-- As long as every child touched has completed, some child is ready. -/
theorem exists_ready (h : WellFormedSpec transfers deps) (horder : order.Perm transfers.keys)
    (hcompleted : ∀ c ∈ transfers.keys, children.touched c = true → children.state c = .completed)
    (hsome : ∃ c ∈ transfers.keys, children.state c ≠ .completed) :
    readyToRun order deps children.touched children.completed ≠ [] := by
  intro hnone
  obtain ⟨c, hc, hst⟩ := hsome
  refine hst (acyclic_induction h.acyclic transfers.keys
    (P := fun x => children.state x = .completed) (fun x hx ih => ?_) c hc)
  -- were `x` the first child not completed, it would be ready
  by_contra hnot
  have hready : x ∈ readyToRun order deps children.touched children.completed := by
    refine List.mem_filter.mpr ⟨horder.mem_iff.mpr hx, ?_⟩
    have htouched : children.touched x = false :=
      Bool.eq_false_iff.mpr fun ht => hnot (hcompleted x hx ht)
    have hparents : (parentsOf deps x).all children.completed = true :=
      List.all_eq_true.mpr fun p hp => by
        simpa [Children.completed] using ih p (h.parent_mem hp).1 hp
    rw [htouched, hparents]
    rfl
  rw [hnone] at hready
  exact List.not_mem_nil hready

/-! ### A rollback that is done is concluded -/

/-- With nothing to roll back and nothing in flight, a rollback has a
conclusion. -/
theorem consequence_of_idle {es : List TransactionEvent} {tid : Id} {spec : Spec}
    (htop : topLevelState es = .rollbackStarted) (hspec : decodeSpec es = .ok spec)
    (hcand : (planRollback spec.transfers.keys spec.transferDependency
      (foldChildStates es)).candidates = [])
    (hwait : (planRollback spec.transfers.keys spec.transferDependency
      (foldChildStates es)).inFlight = false) :
    ∃ e, consequence es tid = .ok (some e) := by
  unfold consequence
  simp only [htop, hspec, hcand, hwait, List.isEmpty_nil, Bool.not_true, Bool.or_false,
    Bool.false_eq_true, if_false]
  split
  · exact ⟨_, rfl⟩
  · exact ⟨_, rfl⟩

/-- The order the map is ranged in does not decide whether a rollback has
candidates. -/
theorem candidates_perm (deps : GoMap (List Id)) (children : Children) {order order' : List Id}
    (h : order.Perm order') :
    (planRollback order deps children).candidates.Perm
      (planRollback order' deps children).candidates :=
  (h.filter _).filter _

/-- Whatever runs in between, a sweep that finds a rollback done finds it with a
conclusion. -/
theorem rollbackNext_done {fuel : Nat} {es : List TransactionEvent} {tid : Id} {spec : Spec}
    (htop : topLevelState es = .rollbackStarted) (hspec : decodeSpec es = .ok spec) (w : World) :
    Ensures Contract.free (rollbackNext fuel tid spec (foldChildStates es))
      (fun r _ => ∀ blocked, r = .done blocked → ∃ e, consequence es tid = .ok (some e)) w := by
  refine Ensures.request fun w1 _ _ => ⟨trivial, ?_⟩
  rintro order w2 ⟨hperm, rfl⟩
  dsimp only
  split
  · rename_i hempty
    refine Ensures.pure fun _ _ blocked hdone => ?_
    split at hdone
    · simp at hdone
    · rename_i hflight
      have hcand := candidates_perm spec.transferDependency (foldChildStates es) hperm
      rw [List.isEmpty_iff.mp hempty] at hcand
      exact consequence_of_idle htop hspec hcand.nil_eq.symm (Bool.eq_false_iff.mpr hflight)
  · refine Ensures.seq (Q := fun _ _ => True) (Safe.free (fun _ _ _ _ => trivial) _ _)
      fun _ w3 _ _ => Ensures.pure fun _ _ blocked hdone => ?_
    split at hdone <;> simp at hdone

/-! ### Planning is never stuck -/

/-- **Planning is never stuck.** Over an accepted DAG, however the map is
ranged: a rollback with no candidate and nothing in flight has an unresolved
child only behind a failed rollback, a Transaction whose touched children have
all completed has a child ready unless it is complete, and a rollback sweep
that answers done has a conclusion. -/
theorem planning_never_stuck (transfers : GoMap TransferSpec) (deps : GoMap (List Id))
    (hdag : validateDAG transfers deps = .ok ()) (children : Children)
    (horder : order.Perm transfers.keys) :
    ((planRollback order deps children).candidates = [] →
      (planRollback order deps children).inFlight = false →
        (∀ c ∈ transfers.keys, children.touched c = true → children.state c ≠ .rolledBack →
          children.state c ≠ .failed →
            children.state c = .rollbackFailed ∨ ∃ d,
              Relation.TransGen (TouchedDependent deps children) c d ∧
                children.touched d = true ∧ children.state d = .rollbackFailed) ∧
        ((planRollback order deps children).anyFailed = false →
          ∀ c ∈ transfers.keys, children.touched c = true →
            children.state c = .rolledBack ∨ children.state c = .failed)) ∧
    ((∀ c ∈ transfers.keys, children.touched c = true → children.state c = .completed) →
      (∃ c ∈ transfers.keys, children.state c ≠ .completed) →
        readyToRun order deps children.touched children.completed ≠ []) ∧
    ∀ (fuel : Nat) (es : List TransactionEvent) (tid : Id) (spec : Spec) (w : World),
      topLevelState es = .rollbackStarted → decodeSpec es = .ok spec →
        Ensures Contract.free (rollbackNext fuel tid spec (foldChildStates es))
          (fun r _ => ∀ blocked, r = .done blocked →
            ∃ concluded, consequence es tid = .ok (some concluded)) w := by
  have hwf := WellFormedSpec.of_ok hdag
  refine ⟨fun hcand hwait => ?_, exists_ready hwf horder, fun _ _ _ _ w htop hspec =>
    rollbackNext_done htop hspec w⟩
  have hleft : ∀ c ∈ transfers.keys, children.touched c = true → children.state c ≠ .rolledBack →
      children.state c ≠ .failed → children.state c = .rollbackFailed ∨ ∃ d,
        Relation.TransGen (TouchedDependent deps children) c d ∧
          children.touched d = true ∧ children.state d = .rollbackFailed := by
    intro c hc ht hrolled hfailed
    exact unresolved_failed hwf horder hcand hwait c hc ht (by simp [Children.resolved, *])
  refine ⟨hleft, fun hnone c hc ht => ?_⟩
  by_contra hres
  obtain ⟨hrolled, hfailed⟩ := not_or.mp hres
  rcases hleft c hc ht hrolled hfailed with hst | ⟨d, -, htd, hst⟩
  · exact not_rollbackFailed hnone ht hst
  · exact not_rollbackFailed hnone htd hst

/-- A child of five dollars. -/
def fiveDollars (id : Id) : Id × TransferSpec :=
  (id, { zeroSpec with id := id, amount := some ⟨500, "USD"⟩ })

/-- Behind a child that could not be rolled back its parent waits, and nothing
else is to be done. -/
theorem planning_behind_failed :
    let transfers : GoMap TransferSpec :=
      ⟨[fiveDollars (.uuid 0), fiveDollars (.uuid 1)], by decide⟩
    let deps : GoMap (List Id) := ⟨[(.uuid 1, [.uuid 0])], by decide⟩
    let children : Children := [(.uuid 0, .completed), (.uuid 1, .rollbackFailed)]
    (planRollback transfers.keys deps children).candidates = [] ∧
      (children.state (.uuid 0) = .rollbackFailed ∨ ∃ d,
        Relation.TransGen (TouchedDependent deps children) (.uuid 0) d ∧
          children.touched d = true ∧ children.state d = .rollbackFailed) := by
  intro transfers deps children
  have hplan := planning_never_stuck transfers deps (by decide) children (List.Perm.refl _)
  exact ⟨by decide, (hplan.1 (by decide) (by decide)).1 (.uuid 0) (by decide) (by decide)
    (by decide) (by decide)⟩

/-- A child rolled back is touched, neither Requested nor Failed, and not
ready, so it is only while nothing is undone that something is always ready. -/
theorem nothing_ready_rolled_back :
    let transfers : GoMap TransferSpec := ⟨[fiveDollars (.uuid 0)], by decide⟩
    let deps : GoMap (List Id) := ⟨[], by decide⟩
    let children : Children := [(.uuid 0, .rolledBack)]
    validateDAG transfers deps = .ok () ∧
      (∀ c ∈ transfers.keys, children.touched c = true → ∀ p ∈ parentsOf deps c,
        children.state p = .completed) ∧
      (∀ c ∈ transfers.keys, children.state c ≠ .requested ∧ children.state c ≠ .failed) ∧
      (∃ c ∈ transfers.keys, children.state c ≠ .completed) ∧
      readyToRun transfers.keys deps children.touched children.completed = [] := by
  decide

end Transaction

end MoneyFlow
