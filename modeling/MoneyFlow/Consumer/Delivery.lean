import MoneyFlow.Consumer.Lanes

/-!
# MoneyFlow.Consumer.Delivery

The consumer never commits past unhandled work.

Every lane is in order, no two are of one partition, and the committer only ever
holds messages that were handled, whatever it merges. The messages handled on a
partition are the first ones fetched, so with a reader that fetches in order
nothing up to a committed offset is left unhandled.
-/

namespace MoneyFlow.Consumer

variable {cfg : Config} {s s' : State} {l l' : Lane} {m : Message} {p : Int}

/-! ### The invariant -/

/-- The batch a committer is committing. -/
def Committer.batch : Committer → List Message
  | .committing b | .refused b | .lastCommit b => b
  | _ => []

/-- `Run` has joined the workers. -/
def Main.joined : Main → Bool
  | .awaiting | .returned _ => true
  | _ => false

structure Inv (s : State) : Prop where
  lanes : ∀ l ∈ s.lanes, LaneOk s l
  distinct : (s.lanes.map Lane.partition).Nodup
  fresh : ∀ p, p ∉ s.lanes.map Lane.partition → onPartition p s.fetched = [] ∧
    onPartition p s.begun = [] ∧ onPartition p s.succeeded = []
  queued : ∀ m ∈ s.handled ++ s.pending ++ s.committer.batch, m ∈ s.succeeded
  joined : s.main.joined = true → ∀ l ∈ s.lanes, l.worker = .stopped
  awaited : ∀ o, s.main = .returned o → s.committer = .stopped

theorem inv_init : Inv .init where
  lanes _ hl := absurd hl List.not_mem_nil
  distinct := List.nodup_nil
  fresh _ _ := ⟨rfl, rfl, rfl⟩
  queued _ hm := absurd hm List.not_mem_nil
  joined h := absurd h Bool.false_ne_true
  awaited _ h := nomatch h

theorem Inv.shutdown (h : Inv s) : Inv { s with ctxDone := true } where
  lanes l hl := (h.lanes l hl).elsewhere
    ⟨rfl, rfl, rfl, fun _ => id, fun hg => absurd hg.2 (by simp), fun hc => absurd hc (by simp)⟩
  distinct := h.distinct
  fresh := h.fresh
  queued := h.queued
  joined := h.joined
  awaited := h.awaited

theorem placing_fetching (hm : s.main = .fetching) (p : Int) : s.placing p = [] := by
  rw [State.placing, hm]

/-- A lane sees a message fetched. -/
theorem LaneOk.fetch (h : LaneOk s l) (hmain : s.main = .fetching) (lanes : List Lane) :
    LaneOk { s with fetched := s.fetched ++ [m], lanes := lanes, main := .placing m } l := by
  have hf : onPartition l.partition (s.fetched ++ [m]) =
      onPartition l.partition s.fetched ++ onPartition l.partition [m] := onPartition_append ..
  refine ⟨h.mine, fun hg => ?_, h.order.frame (hf ▸ List.prefix_append _ _) rfl rfl
    (fun _ => id) id⟩
  have hall := h.all hg
  rw [placing_fetching hmain, List.append_nil] at hall
  change _ ++ onPartition l.partition [m] = onPartition l.partition (s.fetched ++ [m])
  rw [hf, hall]

theorem openLane_partitions (lanes : List Lane) (p : Int) :
    (openLane lanes p).map Lane.partition =
      if p ∈ lanes.map Lane.partition then lanes.map Lane.partition
      else lanes.map Lane.partition ++ [p] := by
  unfold openLane
  by_cases h : p ∈ lanes.map Lane.partition
  · rw [if_pos h, if_pos]
    simpa using h
  · rw [if_neg h, if_neg, List.map_append]
    · rfl
    · simpa using h

theorem Inv.fetch (h : Inv s) (hmain : s.main = .fetching) (m : Message) :
    Inv { s with
      fetched := s.fetched ++ [m]
      lanes := openLane s.lanes m.partition
      main := .placing m } where
  lanes l hl := by
    rw [openLane] at hl
    split at hl
    · exact (h.lanes l hl).fetch hmain _
    · rename_i hnew
      rcases List.mem_append.mp hl with hl | hl
      · exact (h.lanes l hl).fetch hmain _
      · obtain rfl := List.mem_singleton.mp hl
        -- the first message of its partition
        obtain ⟨hf, hb, hs⟩ := h.fresh m.partition (by simpa using hnew)
        have hf' : onPartition m.partition (s.fetched ++ [m]) = [m] := by
          rw [onPartition_same _ rfl, hf]
          rfl
        refine ⟨fun _ hx => absurd hx List.not_mem_nil, fun _ => ?_, hb.trans hs.symm, ?_⟩
        · change onPartition m.partition s.succeeded ++ [] ++ [] ++ onPartition m.partition [m] =
            onPartition m.partition (s.fetched ++ [m])
          rw [hs, hf']
          simp [onPartition]
        · change onPartition m.partition s.succeeded <+: _
          rw [hs]
          exact List.nil_prefix
  distinct := by
    change ((openLane s.lanes m.partition).map Lane.partition).Nodup
    rw [openLane_partitions]
    split
    · exact h.distinct
    · rename_i hnew
      rw [List.nodup_append]
      refine ⟨h.distinct, List.nodup_singleton _, fun a ha b hb hab => hnew ?_⟩
      rw [← List.mem_singleton.mp hb, ← hab]
      exact ha
  fresh p hp := by
    change p ∉ (openLane s.lanes m.partition).map Lane.partition at hp
    rw [openLane_partitions] at hp
    have hold : p ∉ s.lanes.map Lane.partition ∧ m.partition ≠ p := by
      split at hp
      · rename_i hin
        exact ⟨hp, fun heq => hp (heq ▸ hin)⟩
      · exact ⟨fun hin => hp (List.mem_append_left _ hin),
          fun heq => hp (List.mem_append_right _ (List.mem_singleton.mpr heq.symm))⟩
    obtain ⟨hf, hb, hs⟩ := h.fresh p hold.1
    exact ⟨(onPartition_other _ hold.2).trans hf, hb, hs⟩
  queued := h.queued
  joined hj := absurd hj Bool.false_ne_true
  awaited _ ho := nomatch ho

/-- Placing a message on its backlog. -/
theorem LaneOk.placed (h : LaneOk s l) (hmain : s.main = .placing m) (lanes : List Lane) :
    LaneOk { s with lanes := lanes, main := .fetching } (l.place m) := by
  have hplacing : s.placing l.partition = onPartition l.partition [m] := by
    rw [State.placing, hmain]
  unfold Lane.place
  split
  · rename_i hp
    refine ⟨fun x hx => ?_, fun hg => ?_, h.order⟩
    · rcases List.mem_append.mp hx with hx | hx
      · exact h.mine x (List.mem_append_left _ hx)
      · rcases List.mem_append.mp hx with hx | hx
        · exact h.mine x (List.mem_append_right _ hx)
        · exact List.mem_singleton.mp hx ▸ hp.symm
    · have hall := h.all hg
      rw [hplacing] at hall
      rw [← hall]
      change _ ++ (l.backlog ++ [m]) ++ [] = _
      simp [onPartition, hp]
  · rename_i hp
    refine ⟨h.mine, fun hg => ?_, h.order⟩
    have hall := h.all hg
    rw [hplacing] at hall
    rw [← hall]
    change _ ++ [] = _
    simp [onPartition, Ne.symm hp]

theorem place_partitions (lanes : List Lane) (m : Message) :
    (lanes.map (Lane.place m)).map Lane.partition = lanes.map Lane.partition := by
  rw [List.map_map]
  refine List.map_congr_left fun l _ => ?_
  simp only [Function.comp, Lane.place]
  split <;> rfl

theorem Inv.place (h : Inv s) (hmain : s.main = .placing m) :
    Inv { s with lanes := s.lanes.map (Lane.place m), main := .fetching } where
  lanes l hl := by
    obtain ⟨l0, hl0, rfl⟩ := List.mem_map.mp hl
    exact (h.lanes l0 hl0).placed hmain _
  distinct := (place_partitions s.lanes m).symm ▸ h.distinct
  fresh p hp := h.fresh p ((place_partitions s.lanes m) ▸ hp)
  queued := h.queued
  joined hj := absurd hj Bool.false_ne_true
  awaited _ ho := nomatch ho

theorem Inv.drop (h : Inv s) (hstop : ¬ s.going) : Inv { s with main := .fetching } where
  lanes l hl := (h.lanes l hl).elsewhere
    ⟨rfl, rfl, rfl, fun _ => id, fun hg => absurd hg hstop, id⟩
  distinct := h.distinct
  fresh := h.fresh
  queued := h.queued
  joined hj := absurd hj Bool.false_ne_true
  awaited _ ho := nomatch ho

/-- `Run` moves on past the fetch loop. -/
theorem Inv.advance (h : Inv s) {main : Main} (closed : Bool)
    (hold : ∀ p, s.placing p = []) (hnew : ∀ m, main ≠ .placing m)
    (hj : main.joined = true → ∀ l ∈ s.lanes, l.worker = .stopped)
    (ha : ∀ o, main = .returned o → s.committer = .stopped) :
    Inv { s with main := main, handledClosed := closed } where
  lanes l hl := by
    refine (h.lanes l hl).elsewhere ⟨rfl, rfl, rfl, fun _ => id, fun hg => ⟨hg, ?_⟩, id⟩
    rw [hold]
    cases main with
    | placing m => exact absurd rfl (hnew m)
    | _ => rfl
  distinct := h.distinct
  fresh := h.fresh
  queued := h.queued
  joined := hj
  awaited := ha

theorem Inv.close (h : Inv s) (i : Nat) (hmain : s.main = .closing) :
    Inv { s with lanes := s.lanes.modify i fun l => { l with closed := true } } := by
  have hmem : ∀ l ∈ s.lanes.modify i fun l => { l with closed := true },
      ∃ l0 ∈ s.lanes, l = l0 ∨ l = { l0 with closed := true } := by
    intro l hl
    obtain ⟨j, hj⟩ := List.getElem?_of_mem hl
    rw [List.getElem?_modify] at hj
    obtain ⟨l0, hl0, rfl⟩ := Option.map_eq_some_iff.mp hj
    refine ⟨l0, List.mem_of_getElem? hl0, ?_⟩
    split
    · exact Or.inr rfl
    · exact Or.inl rfl
  have hpart : (s.lanes.modify i fun l => { l with closed := true }).map Lane.partition =
      s.lanes.map Lane.partition := by
    refine List.ext_getElem? fun j => ?_
    rw [List.getElem?_map, List.getElem?_map, List.getElem?_modify, Option.map_eq_map,
      Option.map_map]
    refine Option.map_congr fun l _ => ?_
    simp only [Function.comp]
    split <;> rfl
  refine ⟨fun l hl => ?_, hpart.symm ▸ h.distinct, fun p hp => h.fresh p (hpart ▸ hp), h.queued,
    fun hj => ?_, h.awaited⟩
  · obtain ⟨l0, hl0, rfl | rfl⟩ := hmem l hl
    · exact ⟨(h.lanes _ hl0).mine, (h.lanes _ hl0).all, (h.lanes _ hl0).order⟩
    · exact ⟨(h.lanes l0 hl0).mine, (h.lanes l0 hl0).all, (h.lanes l0 hl0).order⟩
  · rw [show ({ s with lanes := _ } : State).main = .closing from hmain] at hj
    exact absurd hj Bool.false_ne_true

/-- A worker that has stopped takes no further action. -/
theorem laneStep_stopped {w : WorkerMove} (hl : l.worker = .stopped) :
    laneStep cfg s l w = none := by
  cases w <;> simp [laneStep, hl]

theorem Inv.worker (h : Inv s) {i : Nat} {w : WorkerMove} (hi : s.lanes[i]? = some l)
    (hx : laneStep cfg s l w = some (s', l')) : Inv { s' with lanes := s.lanes.set i l' } := by
  have hl := List.mem_of_getElem? hi
  obtain ⟨hok, hpart, hwithin⟩ := laneStep_ok (h.lanes l hl) hx
  have hparts : (s.lanes.set i l').map Lane.partition = s.lanes.map Lane.partition := by
    rw [List.map_set, hpart]
    refine List.ext_getElem? fun j => ?_
    rw [List.getElem?_set]
    split
    · rename_i hij
      subst hij
      rw [List.getElem?_map, hi]
      simp [(List.getElem?_eq_some_iff.mp hi).1]
    · rfl
  -- another lane is of another partition
  have hother : ∀ (j : Nat) l1, s.lanes[j]? = some l1 → j ≠ i → l1.partition ≠ l.partition := by
    intro j l1 hj hne heq
    have hj' : (s.lanes.map Lane.partition)[j]? = some l.partition := by
      rw [List.getElem?_map, hj, Option.map_some, heq]
    have hi' : (s.lanes.map Lane.partition)[i]? = some l.partition := by
      rw [List.getElem?_map, hi, Option.map_some]
    obtain ⟨hlt, -⟩ := List.getElem?_eq_some_iff.mp hj'
    exact hne ((List.getElem?_inj hlt h.distinct).mp (hj'.trans hi'.symm))
  have hframe {l1 : Lane} {s1 : State} (hl1 : LaneOk s1 l1) (lanes : List Lane) :
      LaneOk { s1 with lanes := lanes } l1 := ⟨hl1.mine, hl1.all, hl1.order⟩
  refine ⟨fun l1 hl1 => ?_, hparts.symm ▸ h.distinct, fun p hp => ?_, fun m hm => ?_, fun hj => ?_,
    fun o ho => ?_⟩
  · obtain ⟨j, hj⟩ := List.getElem?_of_mem hl1
    rw [List.getElem?_set] at hj
    split at hj
    · split at hj
      · exact hframe (Option.some.inj hj ▸ hok) _
      · cases hj
    · rename_i hne
      have hold := h.lanes l1 (List.mem_of_getElem? hj)
      exact hframe (hold.elsewhere (hwithin.elsewhere _ (hother j l1 hj (Ne.symm hne)))) _
  · have hne : p ≠ l.partition := by
      rintro rfl
      exact hp (hparts.symm ▸ List.mem_map.mpr ⟨l, hl, rfl⟩)
    obtain ⟨hf, hb, hs⟩ := h.fresh p (hparts ▸ hp)
    have he := hwithin.elsewhere p hne
    exact ⟨he.fetched.trans hf, he.begun.trans hb, he.succeeded.trans hs⟩
  · have hsub : ∀ x ∈ s.succeeded, x ∈ s'.succeeded :=
      (hwithin.elsewhere (l.partition + 1) (by omega)).subset
    change m ∈ s'.handled ++ s'.pending ++ s'.committer.batch at hm
    rw [hwithin.pending, hwithin.committer] at hm
    rcases List.mem_append.mp hm with hm | hm
    · rcases List.mem_append.mp hm with hm | hm
      · rcases hwithin.handled m hm with hm | hm
        · exact hsub m (h.queued m (List.mem_append_left _ (List.mem_append_left _ hm)))
        · exact hm
      · exact hsub m (h.queued m (List.mem_append_left _ (List.mem_append_right _ hm)))
    · exact hsub m (h.queued m (List.mem_append_right _ hm))
  · rw [show ({ s' with lanes := _ } : State).main = s.main from hwithin.main] at hj
    rw [laneStep_stopped (h.joined hj l hl)] at hx
    cases hx
  · exact hwithin.committer.trans (h.awaited o (hwithin.main ▸ ho))

/-! ### The committer -/

/-- A high-water mark is a message that was taken. -/
theorem mem_take {x : Message} : ∀ {pending : List Message}, x ∈ take pending m →
    x ∈ pending ∨ x = m
  | [], h => Or.inr (List.mem_singleton.mp h)
  | prev :: rest, h => by
    unfold take at h
    split at h
    · rcases List.mem_cons.mp h with rfl | h
      · split
        · exact Or.inr rfl
        · exact Or.inl List.mem_cons_self
      · exact Or.inl (List.mem_cons_of_mem _ h)
    · rcases List.mem_cons.mp h with rfl | h
      · exact Or.inl List.mem_cons_self
      · exact (mem_take h).imp_left (List.mem_cons_of_mem _)

/-- An action of the committer that has not stopped. -/
theorem Inv.committed (h : Inv s) (failure : Option Failure) (handled pending : List Message)
    {committer : Committer} (hfail : failure = none → s.failure = none)
    (hq : ∀ m ∈ handled ++ pending ++ committer.batch,
      m ∈ s.handled ++ s.pending ++ s.committer.batch)
    (hrun : s.committer ≠ .stopped) :
    Inv { s with
      failure := failure
      handled := handled
      pending := pending
      committer := committer } where
  lanes l hl := (h.lanes l hl).elsewhere
    ⟨rfl, rfl, rfl, fun _ => id, fun hg => ⟨⟨hfail hg.1, hg.2⟩, rfl⟩, id⟩
  distinct := h.distinct
  fresh := h.fresh
  queued m hm := h.queued m (hq m hm)
  joined := h.joined
  awaited o ho := absurd (h.awaited o ho) hrun

theorem Inv.received (h : Inv s) {rest : List Message} {committer : Committer}
    (hh : s.handled = m :: rest) (hb : committer.batch = []) (hrun : s.committer ≠ .stopped) :
    Inv { s with handled := rest, pending := take s.pending m, committer := committer } := by
  refine h.committed s.failure rest (take s.pending m) id
    (fun x hx => List.mem_append_left _ ?_) hrun
  rw [hb, List.append_nil] at hx
  rw [hh]
  rcases List.mem_append.mp hx with hx | hx
  · exact List.mem_append_left _ (List.mem_cons_of_mem _ hx)
  · rcases mem_take hx with hx | rfl
    · exact List.mem_append_right _ hx
    · exact List.mem_append_left _ List.mem_cons_self

/-- The committer moves on with what it holds. -/
theorem Inv.holding (h : Inv s) {committer : Committer}
    (hb : ∀ m ∈ committer.batch, m ∈ s.pending ++ s.committer.batch)
    (hrun : s.committer ≠ .stopped) : Inv { s with committer := committer } := by
  refine h.committed s.failure s.handled s.pending id (fun x hx => ?_) hrun
  rcases List.mem_append.mp hx with hx | hx
  · exact List.mem_append_left _ hx
  · rw [List.append_assoc]
    exact List.mem_append_right _ (hb x hx)

/-- A commit has gone through. -/
theorem Inv.cleared (h : Inv s) {committer : Committer} (hb : committer.batch = [])
    (hrun : s.committer ≠ .stopped) : Inv { s with pending := [], committer := committer } := by
  refine h.committed s.failure s.handled [] id (fun x hx => ?_) hrun
  rw [hb, List.append_nil, List.append_nil] at hx
  exact List.mem_append_left _ (List.mem_append_left _ hx)

theorem Inv.committer {c : CommitterMove} (h : Inv s) (hx : committerStep s c = some s') :
    Inv s' := by
  have hrun {c0 : Committer} (hc : s.committer = c0) (hne : c0 ≠ .stopped) :
      s.committer ≠ .stopped := hc ▸ hne
  cases c with
  | receive =>
    simp only [committerStep] at hx
    split at hx
    · rename_i m rest hc hh
      cases hx
      exact h.received hh rfl (hrun hc nofun)
    · rename_i hc hh
      split at hx
      · cases hx
        exact h.holding (fun _ hm => absurd hm List.not_mem_nil) (hrun hc nofun)
      · cases hx
    · rename_i m rest hc hh
      cases hx
      exact h.received hh (by rw [hc]; rfl) (hrun hc nofun)
    · rename_i m rest hc hh
      cases hx
      exact h.received hh (by rw [hc]; rfl) (hrun hc nofun)
    · cases hx
  | commit batch =>
    have hperm (hb : batch.isPerm s.pending = true) :
        ∀ m ∈ batch, m ∈ s.pending ++ s.committer.batch := fun m hm =>
      List.mem_append_left _ ((List.isPerm_iff.mp hb).subset hm)
    simp only [committerStep] at hx
    split at hx
    · rename_i hc hh
      split at hx
      · cases hx
        exact h.holding (fun _ hm => absurd hm List.not_mem_nil) (hrun hc nofun)
      · split at hx
        · rename_i hb
          cases hx
          exact h.holding (hperm hb) (hrun hc nofun)
        · cases hx
    · rename_i hc hh
      split at hx
      · split at hx
        · cases hx
          exact h.holding (fun _ hm => absurd hm List.not_mem_nil) (hrun hc nofun)
        · split at hx
          · rename_i hb
            cases hx
            exact h.holding (hperm hb) (hrun hc nofun)
          · cases hx
      · cases hx
    · cases hx
  | returns ok =>
    simp only [committerStep] at hx
    split at hx
    · rename_i batch hc
      split at hx
      · cases hx
        exact h.cleared rfl (hrun hc nofun)
      · cases hx
        refine h.holding (fun m hm => List.mem_append_right _ ?_) (hrun hc nofun)
        rw [hc]
        exact hm
    · rename_i batch hc
      split at hx
      · cases hx
        exact h.cleared rfl (hrun hc nofun)
      · cases hx
        exact h.holding (fun _ hm => absurd hm List.not_mem_nil) (hrun hc nofun)
    · cases hx
  | check =>
    simp only [committerStep] at hx
    split at hx
    · rename_i batch hc
      split at hx
      · cases hx
        exact h.holding (fun _ hm => absurd hm List.not_mem_nil) (hrun hc nofun)
      · cases hx
        refine h.committed _ s.handled s.pending (fun hnone => ?_)
          (fun x hx => ?_) (hrun hc nofun)
        · cases hf : s.failure with
          | none => rfl
          | some g => simp [State.fail, hf] at hnone
        · rw [show (Committer.stopped).batch = [] from rfl, List.append_nil] at hx
          exact List.mem_append_left _ hx
    · cases hx

/-! ### Runs -/

/-- One action keeps the invariant. -/
theorem Inv.step {mv : Move} (h : Inv s) (hx : step cfg s mv = some s') : Inv s' := by
  cases mv with
  | shutdown =>
    cases hx
    exact h.shutdown
  | fetch m =>
    simp only [Consumer.step] at hx
    split at hx
    · rename_i hmain
      cases hx
      exact h.fetch hmain m
    · cases hx
  | fetchError =>
    simp only [Consumer.step] at hx
    split at hx
    · rename_i hmain
      cases hx
      exact h.advance s.handledClosed (placing_fetching hmain) (by simp) (by rintro ⟨⟩) (by simp)
    · cases hx
  | place =>
    simp only [Consumer.step] at hx
    split at hx
    · rename_i m hmain
      split at hx
      · cases hx
        exact h.place hmain
      · cases hx
    · cases hx
  | drop =>
    simp only [Consumer.step] at hx
    split at hx
    · split at hx
      · rename_i hstop
        cases hx
        refine h.drop fun hg => ?_
        rcases hstop with hf | hc
        · simp [hg.1] at hf
        · simp [hg.2] at hc
      · cases hx
    · cases hx
  | close i =>
    simp only [Consumer.step] at hx
    split at hx
    · rename_i hmain
      cases hx
      exact h.close i hmain
    · cases hx
  | proceed =>
    simp only [Consumer.step] at hx
    split at hx
    · rename_i hmain
      split at hx
      · cases hx
        exact h.advance s.handledClosed (fun p => by rw [State.placing, hmain]) (by simp)
          (by rintro ⟨⟩) (by simp)
      · cases hx
    · rename_i hmain
      split at hx
      · rename_i hall
        cases hx
        refine h.advance true (fun p => by rw [State.placing, hmain]) (by simp)
          (fun _ l hl => ?_) (by simp)
        simpa using List.all_eq_true.mp hall l hl
      · cases hx
    · rename_i hmain
      split at hx
      · rename_i hcom
        cases hx
        exact h.advance s.handledClosed (fun p => by rw [State.placing, hmain]) (by simp)
          (fun _ => h.joined (by rw [hmain]; rfl)) fun _ _ => hcom
      · cases hx
    · cases hx
  | worker i w =>
    simp only [Consumer.step] at hx
    split at hx
    · rename_i l hi
      split at hx
      · rename_i s1 l1 hl
        cases hx
        exact h.worker hi hl
      · cases hx
    · cases hx
  | committer c => exact h.committer hx

theorem Inv.run {moves : List Move} (h : Inv s) (hx : run cfg s moves = some s') : Inv s' := by
  induction moves generalizing s with
  | nil => exact Option.some.inj hx ▸ h
  | cons mv moves ih =>
    obtain ⟨s1, hs, hrest⟩ := Option.bind_eq_some_iff.mp hx
    exact ih (h.step hs) hrest

theorem inv_of_reachable (h : Reachable cfg s) : Inv s := by
  obtain ⟨moves, hx⟩ := h
  exact inv_init.run hx

/-- What is assumed of the reader: each partition's messages are fetched in the order
of their offsets. -/
def Ordered (ms : List Message) : Prop :=
  ms.Pairwise fun a b => a.partition = b.partition → a.offset < b.offset

instance {ms : List Message} : Decidable (Ordered ms) :=
  inferInstanceAs (Decidable (ms.Pairwise _))

/-- What `Handle` was called with and returned nil for, partition by partition. -/
theorem Inv.prefixes (h : Inv s) (p : Int) :
    onPartition p s.succeeded <+: onPartition p s.begun ∧
      onPartition p s.begun <+: onPartition p s.fetched := by
  by_cases hp : p ∈ s.lanes.map Lane.partition
  · obtain ⟨l, hl, rfl⟩ := List.mem_map.mp hp
    exact (h.lanes l hl).order.begun
  · obtain ⟨hf, hb, hs⟩ := h.fresh p hp
    rw [hf, hb, hs]
    exact ⟨List.prefix_rfl, List.prefix_rfl⟩

/-- Whatever was fetched up to a handled message of the same partition was handled. -/
theorem Inv.handled_before (h : Inv s) (hord : Ordered s.fetched) (hm : m ∈ s.succeeded)
    {m' : Message} (hm' : m' ∈ s.fetched) (hp : m'.partition = m.partition)
    (ho : m'.offset ≤ m.offset) : m' ∈ s.succeeded := by
  obtain ⟨hsb, hbf⟩ := h.prefixes m.partition
  obtain ⟨rest, hrest⟩ := hsb.trans hbf
  have hin : m' ∈ onPartition m.partition s.succeeded ++ rest :=
    hrest ▸ List.mem_filter.mpr ⟨hm', by simpa using hp⟩
  rcases List.mem_append.mp hin with hin | hin
  · exact (List.mem_filter.mp hin).1
  · -- fetched after `m`, so at a greater offset
    have hpair := List.Pairwise.filter (fun x => decide (x.partition = m.partition)) hord
    rw [show s.fetched.filter _ = _ from hrest.symm, List.pairwise_append] at hpair
    have hlt := hpair.2.2 m (List.mem_filter.mpr ⟨hm, by simp⟩) m' hin hp.symm
    omega

/-- **The consumer never commits past unhandled work.** In every state of every run,
if the reader fetches each partition in order: when `Commit` runs, every message
fetched up to the ones it is called with has been handled; each partition's
messages are handled in the order they were fetched, one at a time; and once `Run`
has returned neither a handler nor a commit is running. -/
theorem commits_only_handled (h : Reachable cfg s) (hord : Ordered s.fetched) :
    (∀ batch, s.committer = .committing batch ∨ s.committer = .lastCommit batch →
      ∀ m ∈ batch, ∀ m' ∈ s.fetched, m'.partition = m.partition → m'.offset ≤ m.offset →
        m' ∈ s.succeeded) ∧
    (∀ p, onPartition p s.begun <+: onPartition p s.fetched) ∧
    (∀ l ∈ s.lanes, ∀ m n, l.worker = .handling m n →
      onPartition m.partition s.begun = onPartition m.partition s.succeeded ++ [m] ∧
      ∀ l' ∈ s.lanes, ∀ m' n', l'.worker = .handling m' n' → m'.partition = m.partition → l' = l) ∧
    ∀ o, s.main = .returned o →
      (∀ l ∈ s.lanes, ∀ m n, l.worker ≠ .handling m n) ∧
      ∀ batch, s.committer ≠ .committing batch ∧ s.committer ≠ .lastCommit batch := by
  have hinv := inv_of_reachable h
  refine ⟨?_, fun p => (hinv.prefixes p).2, ?_, ?_⟩
  · intro batch hc m hm m' hm' hp ho
    have hbatch : s.committer.batch = batch := by
      rcases hc with hc | hc <;> rw [hc] <;> rfl
    exact hinv.handled_before hord
      (hinv.queued m (List.mem_append_right _ (hbatch.symm ▸ hm))) hm' hp ho
  · intro l hl m n hw
    have hok := hinv.lanes l hl
    have hmine : m.partition = l.partition := hok.current_mine (by rw [hw]; rfl)
    have horder := hok.order
    rw [hw] at horder
    refine ⟨hmine ▸ horder.1, fun l' hl' m' n' hw' hp => ?_⟩
    have hmine' : m'.partition = l'.partition := (hinv.lanes l' hl').current_mine (by rw [hw']; rfl)
    exact List.inj_on_of_nodup_map hinv.distinct hl' hl (hmine'.symm.trans (hp.trans hmine))
  · intro o ho
    refine ⟨fun l hl m n hw => ?_, fun batch => ?_⟩
    · rw [hinv.joined (by rw [ho]; rfl) l hl] at hw
      cases hw
    · rw [hinv.awaited o ho]
      exact ⟨nofun, nofun⟩

/-- Two messages of one partition and one of another, by their offsets. -/
def sample (p offset : Int) : Message := ⟨"transfer", p, offset, [1], [1]⟩

/-- A worker handles a message and hands it over. -/
def handles (i : Nat) : List Move :=
  [.worker i .receive, .worker i .check, .worker i .check, .worker i (.returns true),
    .worker i .hand]

/-- Two partitions are consumed side by side, the second message of the first fails
once and is retried, and everything is committed in one call. -/
def mergedCommit : List Move :=
  [.fetch (sample 0 7), .place, .fetch (sample 1 3), .place, .fetch (sample 0 8), .place] ++
  handles 0 ++ handles 1 ++ [.worker 0 .receive, .worker 0 .check, .worker 0 .check,
    .worker 0 (.returns false), .worker 0 (.wakes true), .worker 0 (.returns true), .worker 0 .hand,
    .committer .receive, .committer .receive, .committer .receive,
    .committer (.commit [sample 1 3, sample 0 8])]

theorem commits_only_handled_merged :
    let s := (run ⟨3, fun _ => true⟩ .init mergedCommit).getD .init
    Reachable ⟨3, fun _ => true⟩ s ∧ s.committer = .committing [sample 1 3, sample 0 8] ∧
      sample 0 7 ∈ s.fetched ∧ sample 0 7 ∈ s.succeeded := by
  intro s
  have hreach : Reachable ⟨3, fun _ => true⟩ s := ⟨mergedCommit, by decide +kernel⟩
  have hc : s.committer = .committing [sample 1 3, sample 0 8] := by decide +kernel
  have hf : sample 0 7 ∈ s.fetched := by decide +kernel
  have hord : Ordered s.fetched := by decide +kernel
  refine ⟨hreach, hc, hf, ?_⟩
  exact (commits_only_handled hreach hord).1 _ (Or.inl hc) (sample 0 8) (by decide) _ hf rfl
    (by decide)

end MoneyFlow.Consumer
