import MoneyFlow.Openings

/-!
# MoneyFlow.Transfer.Reversals

How often a Transfer is undone.

A Reversal is a Transfer of its own, under an id of its own, and nothing ties the
Reversals of one Transfer together: `RequestReversal` asks whether the original is
Committed, not whether it was reversed before. Between Wallets whose accounts
carry no cap, a Transfer is moved back as often as somebody asks
(`reversed_twice`). Where a Reversal is accepted only once every earlier one has
ended without moving money, a Transfer is undone at most once (`undone_once`).
-/

namespace MoneyFlow.Transfer

open Concurrent

variable {d : Driver}

variable {R : Prop} {w w' : World} {id X : Id}

/-- `id` is a Reversal that was accepted for `X`. -/
def ReversalOf (w : World) (id X : Id) : Prop :=
  ∃ a, w.opening id = some (.reversalRequestAccepted a) ∧ a.transferID = X

/-- `id` is a Committed Reversal of `X`. -/
def Reverses (w : World) (id X : Id) : Prop :=
  ReversalOf w id X ∧ w.outcome id = .committed

mutual

/-- Some Committed Reversal of `X` stands. -/
inductive NetReversed (w : World) : Id → Prop
  | intro {X Q : Id} (hq : Reverses w Q X) (hs : Standing w Q) : NetReversed w X

/-- Every Committed Reversal of `X` is itself net-reversed. -/
inductive Standing (w : World) : Id → Prop
  | intro {X : Id} (h : ∀ Q, Reverses w Q X → NetReversed w Q) : Standing w X

end

/-- The Committed Reversals of `X`. -/
def undoings (w : World) (X : Id) : Set Id := {Q | Reverses w Q X}

/-- The Reversal of `X` that a driver may open, if it may: there is one at most. -/
theorem opening_reversal_unique {Q Q' : Id} {a a' : ReversalAccepted}
    (h : Opening w d Q (.reversalRequestAccepted a))
    (h' : Opening w d Q' (.reversalRequestAccepted a')) (hX : a.transferID = a'.transferID) :
    Q = Q' := by
  cases h with
  | reversal =>
    cases h' with
    | reversal => rfl
  | undo _ _ _ =>
    cases h' with
    | undo _ _ _ => exact congrArg _ hX

/-- How a Reversal comes to be accepted. -/
theorem reversalOf_step {o : Op} {r : Resp o} (hlegal : Legal R o w) (hopens : (opens d).ensure o w)
    (hx : w.Exec o r w') (h : ReversalOf w' id X) : ReversalOf w id X ∨ (w.transfer id = [] ∧
      (∃ a, Opening w d id (.reversalRequestAccepted a) ∧ a.transferID = X) ∧
      ∃ ws, o = .appendAtomic ws ∧ ∃ x ∈ ws, (id, X) ∈ reversedBy x) := by
  obtain ⟨a, hopen, rfl⟩ := h
  rcases opening_step hlegal hopens hx hopen with hold | ⟨hempty, hnew, ws, happ⟩
  · exact Or.inl ⟨a, hold, rfl⟩
  · exact Or.inr ⟨hempty, ⟨a, hnew, rfl⟩, ws, happ.op, _, happ.mem, by simp [reversedBy]⟩

theorem not_reversalOf_of_nil (h : w.transfer id = []) : ¬ ReversalOf w id X := by
  rintro ⟨a, hopen, -⟩
  unfold World.opening at hopen
  rw [h] at hopen
  cases hopen

/-! ### One Reversal at a time -/

/-- A Reversal is accepted only if every Reversal accepted for the same Transfer
before has ended without moving money. -/
def OneReversal (_ : Driver) : Op → World → Prop
  | .appendAtomic ws, w => ∀ x ∈ ws, ∀ p ∈ reversedBy x, w.transfer p.1 = [] →
      ∀ Q, ReversalOf w Q p.2 → (w.outcome Q).ended = true
  | _, _ => True

/-- Of two Reversals of one Transfer, one has ended without moving money. -/
def ReversalsExclude (w : World) : Prop :=
  ∀ X Q Q', ReversalOf w Q X → ReversalOf w Q' X → Q ≠ Q' →
    (w.outcome Q).ended = true ∨ (w.outcome Q').ended = true

theorem reversalsExclude_step {o : Op} {r : Resp o} (hinv' : Inv R w') (h : ReversalsExclude w)
    (hlegal : Legal R o w) (hopens : (opens d).ensure o w) (hg : OneReversal d o w)
    (hx : w.Exec o r w') : ReversalsExclude w' := by
  have hle : w ≤ w' := World.le_of_exec hx
  have hgrow {Q : Id} (hQ : (w.outcome Q).ended = true) : (w'.outcome Q).ended = true :=
    Transaction.ended_grow hle hinv'.lifecycle hQ
  -- a new Reversal comes when those before it have ended
  have hnew {X Q Q' : Id} (hempty : w.transfer Q' = [])
      (hws : ∃ ws, o = .appendAtomic ws ∧ ∃ x ∈ ws, (Q', X) ∈ reversedBy x)
      (hQ : ReversalOf w Q X) : (w'.outcome Q).ended = true := by
    obtain ⟨ws, rfl, x, hx, hp⟩ := hws
    exact hgrow (hg x hx _ hp hempty Q hQ)
  intro X Q Q' hQ hQ' hne
  rcases reversalOf_step hlegal hopens hx hQ with hold | ⟨hempty, ⟨a, ha, haX⟩, hws⟩
  · rcases reversalOf_step hlegal hopens hx hQ' with hold' | ⟨hempty', -, hws'⟩
    · exact (h X Q Q' hold hold' hne).imp hgrow hgrow
    · exact Or.inl (hnew hempty' hws' hold)
  · rcases reversalOf_step hlegal hopens hx hQ' with hold' | ⟨-, ⟨a', ha', haX'⟩, -⟩
    · exact Or.inr (hnew hempty hws hold')
    · exact absurd (opening_reversal_unique ha ha' (haX.trans haX'.symm)) hne

theorem reversals_upheld : Upholds True (fun _ => True) OneReversal opens ReversalsExclude where
  init _ Q _ hQ := absurd hQ (not_reversalOf_of_nil rfl)
  safe d fuel w _ := d.opens fuel w
  step d o w r w' _ hinv' h hg hlegal hd hx := reversalsExclude_step hinv' h hlegal hd hg hx

/-- **A Transfer is undone at most once**, where a second Reversal waits for the
first to fail: the Committed Reversals of a Transfer, less those that are
themselves net-reversed, are one at most. -/
theorem undone_once {c : System} (h : Pool.Reachable (freeRun OneReversal) .init c) (X : Id) :
    (undoings c.state X).Finite ∧ ((undoings c.state X).ncard : ℤ) -
      (undoings c.state X ∩ {Q | NetReversed c.state Q}).ncard ≤ 1 := by
  have hexclude : ReversalsExclude c.state :=
    (reachable_upheld refusals_true reversals_upheld h).1.2
  have hone : (undoings c.state X).Subsingleton := by
    rintro Q ⟨hQ, hc⟩ Q' ⟨hQ', hc'⟩
    by_contra hne
    rcases hexclude X Q Q' hQ hQ' hne with hend | hend
    · rw [hc] at hend
      exact Bool.false_ne_true hend
    · rw [hc'] at hend
      exact Bool.false_ne_true hend
  have hcard : (undoings c.state X).ncard ≤ 1 :=
    (Set.ncard_le_one hone.finite).mpr hone
  exact ⟨hone.finite, by omega⟩

/-! ### Runs with these Reversals only -/

/-- The Reversals accepted are among these, each with the Transfer it reverses. -/
def ReversalsAmong (ps : List (Id × Id)) (_ : Driver) : Op → World → Prop
  | .appendAtomic ws, _ => ∀ x ∈ ws, ∀ p ∈ reversedBy x, p ∈ ps
  | _, _ => True

instance (ps : List (Id × Id)) : ∀ d o w, Decidable (ReversalsAmong ps d o w) := by
  rintro d ⟨⟩ w <;> delta ReversalsAmong <;> infer_instance

theorem among_upheld (ps : List (Id × Id)) : Upholds True (fun _ => True) (ReversalsAmong ps) opens
    (fun w => ∀ Q X, ReversalOf w Q X → (Q, X) ∈ ps) where
  init Q _ hQ := absurd hQ (not_reversalOf_of_nil rfl)
  safe d fuel w _ := d.opens fuel w
  step d o w r w' _ _ h hg hlegal hd hx Q X hQ := by
    rcases reversalOf_step hlegal hd hx hQ with hold | ⟨-, -, ws, rfl, x, hx, hp⟩
    · exact h Q X hold
    · exact hg x hx _ hp

theorem reversalOf_among {ps : List (Id × Id)} {c : System}
    (h : Pool.Reachable (freeRun (ReversalsAmong ps)) .init c) {Q : Id}
    (hQ : ReversalOf c.state Q X) : (Q, X) ∈ ps :=
  (reachable_upheld refusals_true (among_upheld ps) h).1.2 Q X hQ

/-- Where no Transfer has two of them, one Reversal at a time is accepted. -/
theorem oneReversal_of_among {ps : List (Id × Id)} {c : System}
    (hps : ∀ p ∈ ps, ∀ q ∈ ps, p.2 = q.2 → p.1 = q.1)
    (h : Pool.Reachable (freeRun (ReversalsAmong ps)) .init c) :
    Pool.Reachable (freeRun OneReversal) .init c := by
  refine h.mono (fun _ _ hs => hs) (fun c d o hr hg => ?_) fun _ _ ht => ht
  cases o with
  | appendAtomic ws =>
    intro x hx p hp hempty Q hQ
    obtain rfl : p.1 = Q := hps _ (hg x hx p hp) _ (reversalOf_among hr hQ) rfl
    exact absurd hQ (not_reversalOf_of_nil hempty)
  | _ => trivial

/-- The deposit, and a Reversal of its child. -/
def reversedDeposit : List (Move (freeRun (ReversalsAmong [(.uuid 9, .uuid 3)]))) :=
  inTurn 0 (deposit ++ [.requestReversal ⟨.uuid 9, .uuid 3, false, Id.empty⟩,
    .resumeTransfer (.uuid 9)])

theorem undone_once_deposit :
    .uuid 9 ∈ undoings (playedUnder reversedDeposit).state (.uuid 3) ∧
      (undoings (playedUnder reversedDeposit).state (.uuid 3)).Finite ∧
      ((undoings (playedUnder reversedDeposit).state (.uuid 3)).ncard : ℤ) -
        (undoings (playedUnder reversedDeposit).state (.uuid 3) ∩
          {Q | NetReversed (playedUnder reversedDeposit).state Q}).ncard ≤ 1 := by
  refine ⟨⟨⟨⟨.uuid 9, .uuid 3, ⟨100, "USD"⟩, false, Id.empty⟩, by decide +kernel, rfl⟩,
    by decide +kernel⟩, undone_once (oneReversal_of_among ?_ (playedUnder_reachable _)) (.uuid 3)⟩
  decide

/-- Two Wallets without caps; 100 is brought in to `uuid 1` by `uuid 3`, which is
then reversed under two ids. -/
def reversedTwice : List (Move (freeRun (ReversalsAmong
    [(.uuid 8, .uuid 3), (.uuid 9, .uuid 3)]))) :=
  inTurn 0 [.openWallet ⟨.uuid 0, .uuid 100, "bank", .onrampAndOfframp⟩,
    .openWallet ⟨.uuid 1, .uuid 100, "payer", .onrampAndOfframp⟩,
    .startInitializingTransaction (.uuid 2)
      (depositSpec (.uuid 3) (.uuid 0) (.uuid 1) ⟨100, "USD"⟩),
    .resumeTransaction (.uuid 2), .resumeTransfer (.uuid 3), .resumeTransaction (.uuid 2),
    .requestReversal ⟨.uuid 8, .uuid 3, false, Id.empty⟩, .resumeTransfer (.uuid 8),
    .requestReversal ⟨.uuid 9, .uuid 3, false, Id.empty⟩, .resumeTransfer (.uuid 9)]

/-- **A Transfer is undone twice**: both Reversals of `uuid 3` are Committed, and
neither is itself reversed. -/
theorem reversed_twice :
    Pool.Reachable anyRun .init (playedUnder reversedTwice) ∧
      (undoings (playedUnder reversedTwice).state (.uuid 3)).Finite ∧
      ((undoings (playedUnder reversedTwice).state (.uuid 3)).ncard : ℤ) -
        (undoings (playedUnder reversedTwice).state (.uuid 3) ∩
          {Q | NetReversed (playedUnder reversedTwice).state Q}).ncard = 2 := by
  have hreach := playedUnder_reachable reversedTwice
  have hundoings : undoings (playedUnder reversedTwice).state (.uuid 3) = {.uuid 8, .uuid 9} := by
    ext Q
    constructor
    · intro hQ
      have := reversalOf_among hreach hQ.1
      simpa using this
    · rintro (rfl | rfl)
      · exact ⟨⟨⟨.uuid 8, .uuid 3, ⟨100, "USD"⟩, false, Id.empty⟩, by decide +kernel, rfl⟩,
          by decide +kernel⟩
      · exact ⟨⟨⟨.uuid 9, .uuid 3, ⟨100, "USD"⟩, false, Id.empty⟩, by decide +kernel, rfl⟩,
          by decide +kernel⟩
  have hnone : undoings (playedUnder reversedTwice).state (.uuid 3) ∩
      {Q | NetReversed (playedUnder reversedTwice).state Q} = ∅ := by
    refine Set.eq_empty_of_forall_notMem ?_
    rintro Q ⟨hQ, hnet⟩
    cases hnet with
    | intro hq _ =>
      -- a Reversal of `Q` would be one of the two, and they are of `uuid 3`
      have hmem := reversalOf_among hreach hq.1
      rw [hundoings] at hQ
      rcases hQ with rfl | rfl <;> simp at hmem
  rw [hnone, hundoings]
  refine ⟨reachable_any hreach, Set.toFinite _, ?_⟩
  rw [Set.ncard_pair (by decide), Set.ncard_empty]
  rfl

end MoneyFlow.Transfer
