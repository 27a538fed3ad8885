import MoneyFlow.Transfer.Figures
import MoneyFlow.Transfer.Reversals
import MoneyFlow.Transfer.Routes

/-!
# MoneyFlow.Transfer.Inverse

A Reversal is the exact inverse of what it reverses.

Its legs are its original's turned around, so Token by Token they take back what
was brought in (`tokenFlow_turned`). What a Transfer was accepted for is what its
legs amount to, in their currency (`accepted_amount`): a forward Transfer is
planned that way, and a Reversal states the sum of its original's legs, which by
the same law is the amount the original was accepted for. The sum is thus an amount
that was accepted as a word, and no addition of it wraps around.
-/

namespace MoneyFlow.Transfer

open Concurrent

variable {amount : Money}

variable {R : Prop} {w : World} {id : Id} {legs : List TransferLeg}

/-! ### Token by Token -/

/-- What the legs bring in to a Token, less what they take out. -/
def tokenFlow (legs : List TransferLeg) (tok : Id) : ℤ :=
  (legs.map fun leg => share (leg.destTokenID = tok) leg.amount.minorUnits.toNat -
    share (leg.sourceTokenID = tok) leg.amount.minorUnits.toNat).sum

/-- Legs turned around take back what was brought in. -/
theorem tokenFlow_turned {original : List TransferLeg} (h : legs.map plain = original.map turned)
    (tok : Id) : tokenFlow legs tok = -tokenFlow original tok := by
  induction original generalizing legs with
  | nil =>
    obtain rfl := List.map_eq_nil_iff.mp h
    rfl
  | cons m original ih =>
    cases legs with
    | nil => cases h
    | cons leg legs =>
      obtain ⟨hleg, hlegs⟩ := List.cons.inj h
      have ih := ih hlegs
      rw [plain, turned, Leg.mk.injEq] at hleg
      obtain ⟨hsource, hdest, hamount⟩ := hleg
      unfold tokenFlow at ih ⊢
      rw [List.map_cons, List.sum_cons, ih, List.map_cons, List.sum_cons, hsource, hdest, hamount]
      omega

/-! ### What was accepted -/

/-- The amount a request was accepted for. -/
def amountOf : TransferEvent → Option Money
  | .transferRequestAccepted a => some a.amount
  | .reversalRequestAccepted a => some a.amount
  | _ => none

/-- The amount the Transfer was accepted for. -/
def acceptedAmount (w : World) (id : Id) : Option Money := (w.opening id).bind amountOf

/-- The legs amount to it, and are in its currency. -/
def AmountsTo (legs : List TransferLeg) (amount : Money) : Prop :=
  legTotal legs = amount.minorUnits.toNat ∧ ∀ leg ∈ legs, leg.amount.currency = amount.currency

theorem AmountsTo.fits (h : AmountsTo legs amount) : legTotal legs < 2 ^ 64 := by
  rw [h.1]
  exact amount.minorUnits.toNat_lt

/-- Adding up word by word is adding up, where the sum is a word. -/
theorem foldl_add_toNat (plan : List Leg) (start : UInt64)
    (h : start.toNat + (plan.map fun leg => leg.amount.minorUnits.toNat).sum < 2 ^ 64) :
    (plan.foldl (fun total leg => total + leg.amount.minorUnits) start).toNat =
      start.toNat + (plan.map fun leg => leg.amount.minorUnits.toNat).sum := by
  induction plan generalizing start with
  | nil => rfl
  | cons leg plan ih =>
    rw [List.map_cons, List.sum_cons] at h
    have hword : (start + leg.amount.minorUnits).toNat =
        start.toNat + leg.amount.minorUnits.toNat := toNat_add_of_lt (by omega)
    rw [List.foldl_cons, ih _ (by rw [hword]; omega), hword, List.map_cons, List.sum_cons]
    omega

/-- **The sum a Reversal states is the amount the legs were accepted for.** -/
theorem statedAmount_eq (h : AmountsTo legs amount) (hne : legs ≠ []) :
    statedAmount (legs.map turned) = amount := by
  have hsum : ((legs.map turned).map fun leg => leg.amount.minorUnits.toNat).sum =
      legTotal legs := by
    rw [List.map_map]
    rfl
  have hfold := foldl_add_toNat (legs.map turned) 0 (by rw [hsum]; simpa using h.fits)
  rw [hsum, h.1] at hfold
  obtain ⟨units, currency⟩ := amount
  unfold statedAmount
  congr 1
  · exact UInt64.toNat_inj.mp (by simpa using hfold)
  · rw [List.getLast?_map, List.getLast?_eq_some_getLast hne]
    exact h.2 _ (List.getLast_mem hne)

theorem acceptedAmount_of_opening {e : TransferEvent} (h : w.opening id = some e) :
    acceptedAmount w id = amountOf e := by
  unfold acceptedAmount
  rw [h]
  rfl

/-- Legs that move something are some. -/
theorem ne_nil_of_amount (h : 0 < legTotal legs) : legs ≠ [] := by
  rintro rfl
  exact absurd h (Nat.lt_irrefl 0)

/-- A Reversal is accepted for the amount its original was accepted for. -/
theorem reversal_amount (hinv : Inv R w) (hp : PlansOk w) (hf : FiguresOk w) {a : ReversalAccepted}
    {r : Route} {original : List TransferLeg}
    (hopen : w.opening id = some (.reversalRequestAccepted a)) (hr : Routed w a.transferID r)
    (hlegs : w.legs a.transferID = .ok original) (hamount : AmountsTo original amount) :
    a.amount = amount := by
  obtain ⟨original', horiginal', hstated⟩ := hf id _ (List.mem_of_mem_head? hopen)
  obtain rfl := Except.ok.inj (hlegs.symm.trans horiginal')
  obtain ⟨hpos, hsum⟩ := routed_amount hinv hp hr hlegs
  have hne : original ≠ [] := ne_nil_of_amount (hpos.trans_eq hsum.symm)
  rw [hstated, statedAmount_eq hamount hne]

/-- **What a Transfer is accepted for is what its legs amount to.** By induction on
the Transfers it goes back to. -/
theorem accepted_amount (hinv : Inv R w) (hp : PlansOk w) (hf : FiguresOk w) {r : Route}
    (hr : Routed w id r) (hlegs : w.legs id = .ok legs) :
    ∃ amount, acceptedAmount w id = some amount ∧ AmountsTo legs amount := by
  induction hr generalizing legs with
  | @transfer id a h =>
    have hsum := (routed_amount hinv hp (.transfer h) hlegs).2
    obtain ⟨-, hcurrency⟩ := (hp.planned id a legs h hlegs).1
    exact ⟨a.amount, acceptedAmount_of_opening h, hsum,
      fun leg hleg => hcurrency (plain leg) (List.mem_map_of_mem hleg)⟩
  | @reversal id a r h ho ih =>
    obtain ⟨original, horiginal, hplan⟩ := legs_of_reversal hinv h hlegs
    obtain ⟨amount, -, hamount⟩ := ih horiginal
    have hsame := reversal_amount hinv hp hf h ho horiginal hamount
    refine ⟨amount, ?_, ?_, fun leg hleg => ?_⟩
    · rw [acceptedAmount_of_opening h, ← hsame]
      rfl
    · rw [← hamount.1]
      have hmap := congrArg (List.map fun leg : Leg => leg.amount.minorUnits.toNat) hplan
      rw [List.map_map, List.map_map] at hmap
      exact congrArg List.sum hmap
    · have hturned : plain leg ∈ original.map turned := hplan ▸ List.mem_map_of_mem hleg
      obtain ⟨m, hm, heq⟩ := List.mem_map.mp hturned
      rw [show leg.amount = m.amount from (congrArg Leg.amount heq).symm]
      exact hamount.2 m hm

/-! ### In every run -/

theorem figures_upheld : Upholds True (fun _ => True) (fun _ _ _ => True)
    (fun d => (plans True).both ((driverContract True (fun _ _ _ => True) d).both (figures True)))
    (fun w => PlansOk w ∧ LogOk w ∧ FiguresOk w) where
  init := ⟨plansOk_init, logOk_init, figuresOk_init⟩
  tick _ _ ht h := ⟨h.1.tick ht, h.2.1.tick ht, h.2.2.tick ht⟩
  safe d fuel w _ := ((d.plans fuel w).both (d.figures refusals_true fuel w)).mono
    fun _ _ _ _ => trivial
  assume _ _ _ _ hinv _ := ⟨hinv, ⟨trivial, hinv⟩, hinv⟩
  step _ _ _ _ _ hinv hinv' h _ hlegal hd hx :=
    ⟨plans_step hinv hinv' h.1 hlegal hd.1 hx, log_step hinv h.2.1 hlegal hd.1 hx,
      figures_step h.2.2 hlegal hd.2.2 hx⟩

/-- The Reversal `Q` undoes exactly what `X` did. -/
structure Inverse (w : World) (Q X : Id) : Prop where
  flow : ∃ legs back, w.legs X = .ok legs ∧ w.legs Q = .ok back ∧
    ∀ tok, tokenFlow back tok = -tokenFlow legs tok
  amount : ∃ amount, acceptedAmount w X = some amount ∧ acceptedAmount w Q = some amount

/-- What is on record as received by each Token is what the legs brought to it,
and together it is what was accepted. -/
def Received (w : World) (id : Id) : Prop :=
  ∃ legs amount, w.legs id = .ok legs ∧ acceptedAmount w id = some amount ∧
    (∃ i ds, .transferCommitted i ds ∈ eventsOf (w.transfer id)) ∧
    ∀ i ds, .transferCommitted i ds ∈ eventsOf (w.transfer id) → Gathers legs ds ∧
      (ds.map fun d => d.amount.minorUnits.toNat).sum = amount.minorUnits.toNat

/-- **A Reversal is the exact inverse**, in every state of every run: Token by
Token a Committed Reversal takes back what its original brought in, it was
accepted for the same amount, and the destinations on record for a Committed
Transfer are what its legs brought to each Token and add up to what was
accepted. -/
theorem reversal_is_inverse {c : System} (h : Pool.Reachable anyRun .init c) :
    (∀ X Q, c.state.outcome X = .committed → Reverses c.state Q X → Inverse c.state Q X) ∧
      ∀ id, c.state.outcome id = .committed → Received c.state id := by
  obtain ⟨hinv, hp, hl, hf⟩ := (reachable_upheld refusals_true figures_upheld h).1
  have hcommitted {id : Id} (hc : c.state.outcome id = .committed) :
      ∃ legs amount, c.state.legs id = .ok legs ∧ acceptedAmount c.state id = some amount ∧
        AmountsTo legs amount := by
    obtain ⟨legs, hlegs, -⟩ := moved_of_committed hinv (outcome_eq_committed.mp hc).2
    obtain ⟨e, he, ha⟩ := accepted_of_committed hinv hc
    obtain ⟨r, hr⟩ := hl.routed id e he ha
    obtain ⟨amount, haccepted, hamount⟩ := accepted_amount hinv hp hf hr hlegs
    exact ⟨legs, amount, hlegs, haccepted, hamount⟩
  refine ⟨fun X Q hX hQ => ?_, fun id hc => ?_⟩
  · obtain ⟨⟨a, hopen, rfl⟩, hQ⟩ := hQ
    obtain ⟨legs, amount, hlegs, haccepted, hamount⟩ := hcommitted hX
    obtain ⟨back, -, hback, -⟩ := hcommitted hQ
    obtain ⟨original, horiginal, hplan⟩ := legs_of_reversal hinv hopen hback
    obtain rfl := Except.ok.inj (hlegs.symm.trans horiginal)
    refine ⟨⟨legs, back, hlegs, hback, tokenFlow_turned hplan⟩, amount, haccepted, ?_⟩
    obtain ⟨e, he, ha⟩ := accepted_of_committed hinv hX
    obtain ⟨r, hr⟩ := hl.routed _ e he ha
    rw [acceptedAmount_of_opening hopen, ← reversal_amount hinv hp hf hopen hr hlegs hamount]
    rfl
  · obtain ⟨legs, amount, hlegs, haccepted, hamount⟩ := hcommitted hc
    obtain ⟨e, hm, he⟩ := exists_of_currentState (outcome_eq_committed.mp hc).2 (by simp)
    refine ⟨legs, amount, hlegs, haccepted, ?_, fun i ds hds => ?_⟩
    · cases e <;> simp [stateByEventType, TransferEvent.eventType] at he
      exact ⟨_, _, hm⟩
    · obtain ⟨legs', hlegs', rfl⟩ := hf id _ hds
      obtain rfl := Except.ok.inj (hlegs.symm.trans hlegs')
      have hgathers := gathers_buildDestinations hamount.fits
      exact ⟨hgathers, hgathers.total.trans hamount.1⟩

/-- The legs carry what was accepted, along the Transfer's route. -/
def Carries (w : World) (id : Id) (legs : List TransferLeg) : Prop :=
  (∃ amount, acceptedAmount w id = some amount ∧ AmountsTo legs amount) ∧
    ∃ r, Routed w id r ∧ ∀ W, ((legs.map plain).map (legFlow w W)).sum = r.flow W

/-- **Whatever is prepared carries what was accepted**, a Reversal of any depth
included. -/
theorem prepared_carries {c : System} (h : Pool.Reachable anyRun .init c)
    (hlegs : c.state.legs id = .ok legs) : Carries c.state id legs := by
  obtain ⟨hinv, hp, hl, hf⟩ := (reachable_upheld refusals_true figures_upheld h).1
  obtain ⟨e, -, he, ha, -⟩ := manifest_of_legs hinv hlegs
  obtain ⟨r, hr⟩ := hl.routed id e he ha
  exact ⟨accepted_amount hinv hp hf hr hlegs, r, hr, legFlow_sum hinv hp hl hr hlegs⟩

/-- The deposit is reversed, and the Reversal is. -/
def reversedBack : List (Move anyRun) :=
  inTurn 0 (deposit ++ [.requestReversal ⟨.uuid 8, .uuid 3, false, Id.empty⟩,
    .resumeTransfer (.uuid 8), .requestReversal ⟨.uuid 9, .uuid 8, false, Id.empty⟩,
    .resumeTransfer (.uuid 9)])

theorem reversed_back_inverse :
    Inverse (played reversedBack).state (.uuid 8) (.uuid 3) ∧
      Inverse (played reversedBack).state (.uuid 9) (.uuid 8) ∧
      Received (played reversedBack).state (.uuid 9) := by
  have hfirst : Reverses (played reversedBack).state (.uuid 8) (.uuid 3) :=
    ⟨⟨⟨.uuid 8, .uuid 3, ⟨100, "USD"⟩, false, Id.empty⟩, by decide +kernel, rfl⟩,
      by decide +kernel⟩
  have hsecond : Reverses (played reversedBack).state (.uuid 9) (.uuid 8) :=
    ⟨⟨⟨.uuid 9, .uuid 8, ⟨100, "USD"⟩, false, Id.empty⟩, by decide +kernel, rfl⟩,
      by decide +kernel⟩
  obtain ⟨hinverse, hreceived⟩ := reversal_is_inverse (played_reachable reversedBack)
  exact ⟨hinverse _ _ (by decide +kernel) hfirst, hinverse _ _ hfirst.2 hsecond,
    hreceived _ hsecond.2⟩

theorem prepared_carries_back : ∃ legs, (played reversedBack).state.legs (.uuid 9) = .ok legs ∧
    Carries (played reversedBack).state (.uuid 9) legs := by
  have hok : ((played reversedBack).state.legs (.uuid 9)).toBool = true := by decide +kernel
  cases hlegs : (played reversedBack).state.legs (.uuid 9) with
  | ok legs => exact ⟨legs, rfl, prepared_carries (played_reachable _) hlegs⟩
  | error e => exact nomatch hlegs ▸ hok

end MoneyFlow.Transfer
