import MoneyFlow.Consumer

/-!
# MoneyFlow.Consumer.Lanes

What one partition's worker does, whatever the other goroutines do.

A partition's messages reach its worker in the order they were fetched, until
the first failure or the shutdown: from then on the fetch loop may drop a message
and place a later one. So everything fetched is accounted for while the consumer
is `going` (`LaneOk.all`), and a worker looks at the failure and at the context
after it has taken a message and before it handles it. What it handles is
therefore always the next message of its partition (`LaneOrder`): the messages
handled are the first ones fetched.
-/

namespace MoneyFlow.Consumer

variable {w : Worker}

variable {cfg : Config} {s s' : State} {l l' : Lane} {m : Message} {p : Int}

/-- The messages of one partition. -/
def onPartition (p : Int) (ms : List Message) : List Message := ms.filter (·.partition = p)

theorem onPartition_append (p : Int) (ms ms' : List Message) :
    onPartition p (ms ++ ms') = onPartition p ms ++ onPartition p ms' :=
  List.filter_append ..

theorem onPartition_same (ms : List Message) (h : m.partition = p) :
    onPartition p (ms ++ [m]) = onPartition p ms ++ [m] := by
  simp [onPartition, List.filter_append, h]

theorem onPartition_other (ms : List Message) (h : m.partition ≠ p) :
    onPartition p (ms ++ [m]) = onPartition p ms := by
  simp [onPartition, List.filter_append, h]

/-- Nothing has failed and the context is not done. -/
def State.going (s : State) : Prop := s.failure = none ∧ s.ctxDone = false

/-- The message about to be placed, if it is of this partition. -/
def State.placing (s : State) (p : Int) : List Message :=
  match s.main with
  | .placing m => onPartition p [m]
  | _ => []

/-- The message a worker has taken and not yet handled. -/
def Worker.current : Worker → List Message
  | .taken m | .unfailed m | .handling m _ | .sleeping m _ | .errored m _ | .halting m _ => [m]
  | _ => []

/-- What a worker's place says about its partition: what `Handle` was called with and
what it returned nil for are the first messages fetched. -/
def LaneOrder (s : State) (p : Int) : Worker → Prop
  | .ranging | .taken _ =>
    onPartition p s.begun = onPartition p s.succeeded ∧
      onPartition p s.succeeded <+: onPartition p s.fetched
  | .unfailed m =>
    onPartition p s.begun = onPartition p s.succeeded ∧
      onPartition p s.succeeded <+: onPartition p s.fetched ∧
      (s.ctxDone = false → onPartition p s.succeeded ++ [m] <+: onPartition p s.fetched)
  | .handling m _ | .sleeping m _ =>
    onPartition p s.begun = onPartition p s.succeeded ++ [m] ∧
      onPartition p s.succeeded ++ [m] <+: onPartition p s.fetched
  | .handing m | .blocked m =>
    onPartition p s.begun = onPartition p s.succeeded ∧
      onPartition p s.succeeded <+: onPartition p s.fetched ∧ m ∈ s.succeeded
  | .errored _ _ | .halting _ _ | .stopped =>
    onPartition p s.succeeded <+: onPartition p s.begun ∧
      onPartition p s.begun <+: onPartition p s.fetched

/-- One lane's part of the invariant. -/
structure LaneOk (s : State) (l : Lane) : Prop where
  mine : ∀ m ∈ l.worker.current ++ l.backlog, m.partition = l.partition
  all : s.going → onPartition l.partition s.succeeded ++ l.worker.current ++ l.backlog ++
    s.placing l.partition = onPartition l.partition s.fetched
  order : LaneOrder s l.partition l.worker

theorem LaneOrder.begun (h : LaneOrder s p w) :
    onPartition p s.succeeded <+: onPartition p s.begun ∧
      onPartition p s.begun <+: onPartition p s.fetched := by
  cases w with
  | ranging | taken => exact ⟨h.1 ▸ List.prefix_rfl, h.1 ▸ h.2⟩
  | unfailed | handing | blocked => exact ⟨h.1 ▸ List.prefix_rfl, h.1 ▸ h.2.1⟩
  | handling | sleeping => exact ⟨h.1 ▸ List.prefix_append _ _, h.1 ▸ h.2⟩
  | errored | halting | stopped => exact h

/-- What changes elsewhere leaves a lane's order alone. -/
theorem LaneOrder.frame (h : LaneOrder s p w)
    (hf : onPartition p s.fetched <+: onPartition p s'.fetched)
    (hb : onPartition p s'.begun = onPartition p s.begun)
    (hs : onPartition p s'.succeeded = onPartition p s.succeeded)
    (hsub : ∀ m ∈ s.succeeded, m ∈ s'.succeeded) (hctx : s'.ctxDone = false → s.ctxDone = false) :
    LaneOrder s' p w := by
  cases w with
  | ranging | taken => exact ⟨hb.trans (h.1.trans hs.symm), hs ▸ h.2.trans hf⟩
  | unfailed =>
    exact ⟨hb.trans (h.1.trans hs.symm), hs ▸ h.2.1.trans hf,
      fun hc => hs ▸ (h.2.2 (hctx hc)).trans hf⟩
  | handling | sleeping => exact ⟨hb.trans (hs ▸ h.1), hs ▸ h.2.trans hf⟩
  | handing | blocked => exact ⟨hb.trans (h.1.trans hs.symm), hs ▸ h.2.1.trans hf, hsub _ h.2.2⟩
  | errored | halting | stopped => exact ⟨hs ▸ hb ▸ h.1, hb ▸ h.2.trans hf⟩

/-- What an action elsewhere may do to the state, as a lane of partition `p` sees
it. -/
structure Elsewhere (p : Int) (s s' : State) : Prop where
  fetched : onPartition p s'.fetched = onPartition p s.fetched
  begun : onPartition p s'.begun = onPartition p s.begun
  succeeded : onPartition p s'.succeeded = onPartition p s.succeeded
  subset : ∀ m ∈ s.succeeded, m ∈ s'.succeeded
  going : s'.going → s.going ∧ s'.placing p = s.placing p
  ctx : s'.ctxDone = false → s.ctxDone = false

theorem LaneOk.elsewhere (h : LaneOk s l) (he : Elsewhere l.partition s s') : LaneOk s' l where
  mine := h.mine
  all hg := by
    obtain ⟨hg0, hp⟩ := he.going hg
    rw [he.succeeded, he.fetched, hp]
    exact h.all hg0
  order := h.order.frame (he.fetched ▸ List.prefix_rfl) he.begun he.succeeded he.subset he.ctx

/-! ### One action of a worker -/

/-- What a worker's action leaves alone. -/
structure Within (p : Int) (s s' : State) : Prop where
  main : s'.main = s.main
  lanes : s'.lanes = s.lanes
  committer : s'.committer = s.committer
  pending : s'.pending = s.pending
  handled : ∀ m ∈ s'.handled, m ∈ s.handled ∨ m ∈ s'.succeeded
  elsewhere : ∀ q, q ≠ p → Elsewhere q s s'

/-- Nothing shared changes but the failure and what waits for the committer. -/
theorem Within.of_history (hmain : s'.main = s.main) (hlanes : s'.lanes = s.lanes)
    (hcom : s'.committer = s.committer) (hpend : s'.pending = s.pending)
    (hhand : ∀ m ∈ s'.handled, m ∈ s.handled ∨ m ∈ s'.succeeded)
    (hf : s'.fetched = s.fetched) (hb : s'.begun = s.begun) (hs : s'.succeeded = s.succeeded)
    (hfail : s'.failure = none → s.failure = none) (hctx : s'.ctxDone = s.ctxDone) :
    Within p s s' := by
  refine ⟨hmain, hlanes, hcom, hpend, hhand, fun q _ => ⟨by rw [hf], by rw [hb], by rw [hs],
    fun m hm => hs ▸ hm, fun hg => ⟨⟨hfail hg.1, hctx ▸ hg.2⟩, ?_⟩, fun hc => hctx ▸ hc⟩⟩
  rw [State.placing, State.placing, hmain]

theorem Within.refl : Within p s s :=
  .of_history rfl rfl rfl rfl (fun _ => Or.inl) rfl rfl rfl id rfl

/-- A failure counts whoever reports it. -/
theorem not_going_fail {f : Failure} : ¬ (s.fail f).going := by
  rintro ⟨h, -⟩
  cases hf : s.failure <;> simp [State.fail, hf] at h

theorem fail_within {f : Failure} : Within p s (s.fail f) := by
  refine .of_history rfl rfl rfl rfl (fun _ => Or.inl) rfl rfl rfl (fun h => ?_) rfl
  cases hf : s.failure with
  | none => rfl
  | some g => simp [State.fail, hf] at h

theorem hand_within (h : s.hand m = some s') (hm : m ∈ s.succeeded) : Within p s s' := by
  unfold State.hand at h
  split at h
  · cases h
    refine .of_history rfl rfl rfl rfl (fun x hx => ?_) rfl rfl rfl id rfl
    rcases List.mem_append.mp hx with hx | hx
    · exact Or.inl hx
    · exact Or.inr (List.mem_singleton.mp hx ▸ hm)
  · cases h

/-- A worker that stops where the consumer is not going. -/
theorem LaneOk.stop (h : LaneOk s l) (hg : ¬ s.going) :
    LaneOk s { l with worker := .stopped } where
  mine m hm := h.mine m (List.mem_append_right _ hm)
  all hgo := absurd hgo hg
  order := h.order.begun

/-- A worker that moves on with the message it has, if the order allows. -/
theorem LaneOk.moveOn (h : LaneOk s l) (hcur : w.current = l.worker.current)
    (horder : LaneOrder s l.partition w) : LaneOk s { l with worker := w } where
  mine m hm := h.mine m (hcur ▸ hm)
  all hg := by
    have := h.all hg
    rwa [← hcur] at this
  order := horder

/-- The message a worker has is the next of its partition, if the consumer is still
going. -/
theorem LaneOk.next (h : LaneOk s l) (hcur : l.worker.current = [m]) (hg : s.going) :
    onPartition l.partition s.succeeded ++ [m] <+: onPartition l.partition s.fetched := by
  rw [← h.all hg, hcur, List.append_assoc]
  exact List.prefix_append _ _

theorem receive_ok (h : LaneOk s l) (hx : laneStep cfg s l .receive = some (s', l')) :
    LaneOk s' l' ∧ l'.partition = l.partition ∧ Within l.partition s s' := by
  simp only [laneStep] at hx
  split at hx
  · rename_i m rest hw hb
    cases hx
    refine ⟨⟨fun x hx => ?_, fun hg => ?_, ?_⟩, rfl, .refl⟩
    · exact h.mine x (by rw [hw, hb]; exact hx)
    · have hall := h.all hg
      rw [hw, hb] at hall
      simpa [Worker.current] using hall
    · have horder := h.order
      rw [hw] at horder
      exact horder
  · rename_i hw hb
    split at hx
    · cases hx
      refine ⟨⟨fun x hx => ?_, fun hg => ?_, h.order.begun⟩, rfl, .refl⟩
      · exact h.mine x (by rw [hw]; exact hx)
      · have hall := h.all hg
        rw [hw] at hall
        exact hall
    · cases hx
  · cases hx

theorem begun_within (hm : m.partition = p) : Within p s { s with begun := s.begun ++ [m] } := by
  refine ⟨rfl, rfl, rfl, rfl, fun _ => Or.inl, fun q hq => ?_⟩
  exact ⟨rfl, onPartition_other _ (hm ▸ hq.symm), rfl, fun _ => id, fun hg => ⟨hg, rfl⟩, id⟩

theorem succeeded_within (hm : m.partition = p) :
    Within p s { s with succeeded := s.succeeded ++ [m] } := by
  refine ⟨rfl, rfl, rfl, rfl, fun _ => Or.inl, fun q hq => ?_⟩
  exact ⟨rfl, rfl, onPartition_other _ (hm ▸ hq.symm), fun _ => List.mem_append_left _,
    fun hg => ⟨hg, rfl⟩, id⟩

/-- The message a worker has is of its partition. -/
theorem LaneOk.current_mine (h : LaneOk s l) (hcur : l.worker.current = [m]) :
    m.partition = l.partition :=
  h.mine m (List.mem_append_left _ (hcur ▸ List.mem_singleton.mpr rfl))

/-- `Handle` is called with the next message of the partition. -/
theorem beginProcess_ok (cfg : Config) (h : LaneOk s l) (hw : l.worker = .unfailed m)
    (hctx : s.ctxDone = false) :
    LaneOk (beginProcess cfg s m).1 { l with worker := (beginProcess cfg s m).2 } ∧
      Within l.partition s (beginProcess cfg s m).1 := by
  have horder := h.order
  rw [hw] at horder
  unfold beginProcess
  split
  · have hm := h.current_mine (m := m) (by rw [hw]; rfl)
    refine ⟨⟨fun x hx => ?_, fun hg => ?_, ?_, horder.2.2 hctx⟩, begun_within hm⟩
    · exact h.mine x (by rw [hw]; exact hx)
    · have hall := h.all hg
      rw [hw] at hall
      exact hall
    · exact (onPartition_same _ hm).trans (by rw [horder.1])
  · exact ⟨h.moveOn (by rw [hw]; rfl) h.order.begun, .refl⟩

theorem check_ok (h : LaneOk s l) (hx : laneStep cfg s l .check = some (s', l')) :
    LaneOk s' l' ∧ l'.partition = l.partition ∧ Within l.partition s s' := by
  simp only [laneStep] at hx
  split at hx
  · rename_i m hw
    cases hx
    refine ⟨?_, rfl, .refl⟩
    split
    · rename_i hf
      exact h.stop fun hg => by simp [hg.1] at hf
    · rename_i hf
      have horder := h.order
      rw [hw] at horder
      refine h.moveOn (by rw [hw]; rfl) ⟨horder.1, horder.2, fun hctx => ?_⟩
      exact h.next (by rw [hw]; rfl) ⟨by simpa using hf, hctx⟩
  · rename_i m hw
    split at hx
    · rename_i hctx
      cases hx
      exact ⟨h.stop fun hg => by simp [hg.2] at hctx, rfl, .refl⟩
    · rename_i hctx
      cases hx
      obtain ⟨hok, hwithin⟩ := beginProcess_ok cfg h hw (by simpa using hctx)
      exact ⟨hok, rfl, hwithin⟩
  · rename_i m n hw
    cases hx
    refine ⟨?_, rfl, .refl⟩
    split
    · rename_i hctx
      exact h.stop fun hg => by simp [hg.2] at hctx
    · exact h.moveOn (by rw [hw]; rfl) h.order.begun
  · cases hx

/-- `Handle` returns nil. -/
theorem succeed_ok {n : Nat} (h : LaneOk s l) (hw : l.worker = .handling m n) :
    LaneOk { s with succeeded := s.succeeded ++ [m] } { l with worker := .handing m } := by
  have hm := h.current_mine (m := m) (by rw [hw]; rfl)
  have horder := h.order
  rw [hw] at horder
  have hsame := onPartition_same s.succeeded hm
  refine ⟨fun x hx => h.mine x (List.mem_append_right _ hx), fun hg => ?_, ?_⟩
  · have hall := h.all hg
    rw [hw] at hall
    change onPartition l.partition (s.succeeded ++ [m]) ++ [] ++ l.backlog ++ _ = _
    rw [hsame, List.append_nil]
    exact hall
  · refine ⟨?_, ?_, List.mem_append_right _ (List.mem_singleton.mpr rfl)⟩
    · exact horder.1.trans hsame.symm
    · exact hsame.symm ▸ horder.2

theorem returns_ok {ok : Bool} (h : LaneOk s l)
    (hx : laneStep cfg s l (.returns ok) = some (s', l')) :
    LaneOk s' l' ∧ l'.partition = l.partition ∧ Within l.partition s s' := by
  simp only [laneStep] at hx
  split at hx
  · rename_i m n hw
    have hsame {w : Worker} (hcur : w.current = [m]) (hw' : LaneOrder s l.partition w) :
        LaneOk s { l with worker := w } := h.moveOn (by rw [hw, hcur]; rfl) hw'
    split at hx
    · cases hx
      exact ⟨succeed_ok h hw, rfl, succeeded_within (h.current_mine (by rw [hw]; rfl))⟩
    · split at hx
      · cases hx
        exact ⟨hsame rfl h.order.begun, rfl, .refl⟩
      · split at hx
        · cases hx
          have horder := h.order
          rw [hw] at horder
          exact ⟨hsame rfl horder, rfl, .refl⟩
        · cases hx
          exact ⟨hsame rfl h.order.begun, rfl, .refl⟩
  · cases hx

theorem wakes_ok {timer : Bool} (h : LaneOk s l)
    (hx : laneStep cfg s l (.wakes timer) = some (s', l')) :
    LaneOk s' l' ∧ l'.partition = l.partition ∧ Within l.partition s s' := by
  simp only [laneStep] at hx
  split at hx
  · rename_i m n hw
    have horder := h.order
    rw [hw] at horder
    split at hx
    · cases hx
      exact ⟨h.moveOn (by rw [hw]; rfl) horder, rfl, .refl⟩
    · split at hx
      · cases hx
        exact ⟨h.moveOn (by rw [hw]; rfl) h.order.begun, rfl, .refl⟩
      · cases hx
  · cases hx

theorem fail_ok (h : LaneOk s l) (hx : laneStep cfg s l .fail = some (s', l')) :
    LaneOk s' l' ∧ l'.partition = l.partition ∧ Within l.partition s s' := by
  simp only [laneStep] at hx
  split at hx
  · cases hx
    refine ⟨⟨fun x hx => h.mine x (List.mem_append_right _ hx), fun hg => ?_, h.order.begun⟩, rfl,
      fail_within⟩
    exact absurd hg not_going_fail
  · cases hx

/-- Handing over what was handled. -/
theorem handOver_ok (h : LaneOk s l) (hw : l.worker = .handing m ∨ l.worker = .blocked m)
    (hx : s.hand m = some s') :
    LaneOk s' { l with worker := .ranging } ∧ Within l.partition s s' := by
  have horder : LaneOrder s l.partition (.handing m) := by
    rcases hw with hw | hw
    · exact hw ▸ h.order
    · exact (hw ▸ h.order : LaneOrder s l.partition (.blocked m))
  have hcur : l.worker.current = [] := by
    rcases hw with hw | hw <;> rw [hw] <;> rfl
  refine ⟨?_, hand_within hx horder.2.2⟩
  unfold State.hand at hx
  split at hx
  · cases hx
    refine ⟨fun x hx => h.mine x (List.mem_append_right _ hx), fun hg => ?_, horder.1, horder.2.1⟩
    have hall := h.all hg
    rw [hcur] at hall
    exact hall
  · cases hx

theorem hand_ok (h : LaneOk s l) (hx : laneStep cfg s l .hand = some (s', l')) :
    LaneOk s' l' ∧ l'.partition = l.partition ∧ Within l.partition s s' := by
  simp only [laneStep] at hx
  split at hx
  · rename_i m hw
    split at hx
    · rename_i s1 hs
      cases hx
      obtain ⟨hok, hwithin⟩ := handOver_ok h (Or.inl hw) hs
      exact ⟨hok, rfl, hwithin⟩
    · cases hx
      have horder := h.order
      rw [hw] at horder
      exact ⟨h.moveOn (by rw [hw]; rfl) horder, rfl, .refl⟩
  · rename_i m hw
    split at hx
    · rename_i s1 hs
      cases hx
      obtain ⟨hok, hwithin⟩ := handOver_ok h (Or.inr hw) hs
      exact ⟨hok, rfl, hwithin⟩
    · cases hx
  · cases hx

theorem giveUp_ok (h : LaneOk s l) (hx : laneStep cfg s l .giveUp = some (s', l')) :
    LaneOk s' l' ∧ l'.partition = l.partition ∧ Within l.partition s s' := by
  simp only [laneStep] at hx
  split at hx
  · split at hx
    · rename_i hf
      cases hx
      exact ⟨h.stop fun hg => by simp [hg.1] at hf, rfl, .refl⟩
    · cases hx
  · cases hx

/-- **A worker's action keeps its lane in order** and concerns no other. -/
theorem laneStep_ok {w : WorkerMove} (h : LaneOk s l) (hx : laneStep cfg s l w = some (s', l')) :
    LaneOk s' l' ∧ l'.partition = l.partition ∧ Within l.partition s s' := by
  cases w with
  | receive => exact receive_ok h hx
  | check => exact check_ok h hx
  | returns => exact returns_ok h hx
  | wakes => exact wakes_ok h hx
  | fail => exact fail_ok h hx
  | hand => exact hand_ok h hx
  | giveUp => exact giveUp_ok h hx

end MoneyFlow.Consumer
