import MoneyFlow.Concurrent.Run
import MoneyFlow.Transfer.Rebuild

/-!
# MoneyFlow.Transfer.Overdraft

Whether a Token is ever overdrawn.

Selection reads what a Token has posted, and the debit is asked for later, with
nothing held in between: two Transfers may select the same Token, and where its
account carries no cap the second overdraws it (`selected_twice`). Where the
Transfers out of a Wallet come one after another, none of its Tokens is overdrawn,
whatever the caps (`never_overdrawn`):

* what a Transfer is prepared to take of a Token was posted to it when the thread
  that prepared it asked the ledger (`selecting`), by `takeTokens`;
* from then until the leg is posted nobody else takes of the Token, since the
  Transfer was accepted before the thread asked and has not come to its end.
-/

namespace MoneyFlow.Transfer

open Concurrent Ledger Service

variable {R : Prop} {w w' : World} {id x W : Id} {V : Op → World → Prop}

/-! ### What a selection was told -/

/-- The loop takes of a Token no more than is posted to it. -/
theorem takeTokens_bounded {currency : String} {bs : Id → Option Ledger.Balance} {toks : List Id}
    {remaining short : UInt64} {legs : List Leg}
    (h : takeTokens currency bs toks remaining = .ok (legs, short)) : ∀ leg ∈ legs,
      ∃ b, bs leg.sourceTokenID = some b ∧
        b.debitsPosted.toNat + leg.amount.minorUnits.toNat ≤ b.creditsPosted.toNat := by
  refine takeTokens_induction (P := fun _ _ legs _ => ∀ leg ∈ legs, ∃ b,
    bs leg.sourceTokenID = some b ∧
      b.debitsPosted.toNat + leg.amount.minorUnits.toNat ≤ b.creditsPosted.toNat) ?_ ?_ ?_ h
  · simp
  · exact fun _ _ _ _ _ ih => ih
  · exact fun _ _ _ _ _ _ b hb _ hposted ih => List.forall_mem_cons.mpr ⟨⟨b, hb, hposted⟩, ih⟩

/-- The thread was told, when the Transfer had been accepted, that what the leg
takes is posted to its Token. -/
def Told (V : Op → World → Prop) (w : World) (id : Id) (leg : Leg) : Prop :=
  ∃ ids w0, V (.balances ids) w0 ∧ w0 ≤ w ∧ (w0.opening id).isSome = true ∧
    ∃ a, w0.ledger.accounts leg.sourceTokenID = some a ∧
      a.debitsPosted.toNat + leg.amount.minorUnits.toNat ≤ a.creditsPosted.toNat

theorem Told.grow {leg : Leg} (h : Told V w id leg) (hle : w ≤ w') : Told V w' id leg := by
  obtain ⟨ids, w0, hv, h0, htold⟩ := h
  exact ⟨ids, w0, hv, h0.trans hle, htold⟩

/-- A Transfer that mints no source is prepared to take of distinct Tokens, of each
what the thread was told it has. -/
def Selected (V : Op → World → Prop) (w : World) : StreamWrite → Prop
  | ⟨.transfer, id, _, events⟩ => ∀ i legs, .transferPrepared i legs ∈ events →
      ∀ a, w.opening id = some (.transferRequestAccepted a) → a.mintSource = false →
        (legs.map TransferLeg.sourceTokenID).Nodup ∧ ∀ leg ∈ legs, Told V w id (plain leg)
  | _ => True

/-- A thread only prepares what it was told is there. -/
def selecting (V : Op → World → Prop) : Contract World Op where
  assume := V
  ensure
    | .appendAtomic ws, w => ∀ x ∈ ws, Selected V w x
    | _, _ => True

/-- Writes that prepare no Transfer. -/
def unprepared : Scope where
  transfer _ events := ∀ e ∈ events, (e.eventType == .transferPrepared) = false
  wallet _ _ := True

theorem selected_of_within {x : StreamWrite} (h : x.Within unprepared ∨ x.Publishes) :
    Selected V w x := by
  obtain ⟨a, id, seq, events⟩ := x
  cases a with
  | transfer =>
    have hnone : unprepared.transfer id events := h.resolve_right not_false
    intro i legs hm
    exact absurd (hnone _ hm) (by simp [TransferEvent.eventType])
  | _ => trivial

theorem selecting_lenient : Lenient (selecting V) unprepared :=
  Open.lenient ⟨fun o _ w _ => by cases o <;> trivial, fun _ hws _ _ x hx =>
    selected_of_within (hws x hx)⟩

theorem selecting_indifferent : Indifferent (selecting V) unprepared where
  lenient := selecting_lenient
  transfer _ _ he _ hm := List.mem_singleton.mp hm ▸ he
  opened _ _ _ _ := trivial
  untagged _ _ _ := trivial
  ledger _ _ _ := trivial
  transaction _ _ _ _ _ _ hx := List.mem_singleton.mp hx ▸ trivial

section

variable (hV : ∀ o w, V o w → LogOk w)
include hV

theorem selectSourceTokens_selects {calling : Id} {amount : Money} {e : TransferEvent}
    (hopen : w.opening id = some e) :
    Ensures (selecting V) (selectSourceTokens W amount calling) (fun r w' => ∀ legs, r = .ok legs →
      (legs.map Leg.sourceTokenID).Nodup ∧ ∀ leg ∈ legs, Told V w' id leg) w := by
  have htokens : Ensures (selecting V) (Wallet.tokensOfVisibleTo W calling Transaction.isOpen)
      (fun toks _ => toks.Nodup) w := by
    refine selecting_lenient.load fun w1 _ hv => ?_
    refine (Wallet.visibleTo_returns (Transaction.isOpen_obeys selecting_lenient.reads) _ w1).mono
      fun toks w2 _ hsub => ?_
    exact hsub.nodup ((hV _ _ hv).nodup W)
  refine htokens.seq fun toks w1 hle1 hnd => ?_
  refine Ensures.request fun w2 hle2 hv => ⟨trivial, fun bs w3 hx => ?_⟩
  obtain ⟨rfl, rfl⟩ := Prod.mk.inj hx
  refine check_bind_obeys ?_
  rintro ⟨legs, short⟩ htake
  dsimp only
  split
  · exact Ensures.pure fun _ _ legs h => by simp at h
  · refine Ensures.pure fun w4 hle4 legs' h => ?_
    cases h
    refine ⟨(takeTokens_sublist htake).nodup hnd, fun leg hleg => ?_⟩
    obtain ⟨b, hb, hle⟩ := takeTokens_bounded htake leg hleg
    unfold Ledger.balances at hb
    split at hb
    · obtain ⟨a, ha, rfl⟩ := Option.map_eq_some_iff.mp hb
      refine ⟨toks, w3, hv, hle4, ?_, a, ha, hle⟩
      rw [World.opening_grow hopen (hle1.trans hle2)]
      rfl
    · simp at hb

theorem planForward_selects {a : TransferAccepted} (ha : a.mintSource = false)
    {e : TransferEvent} (hopen : w.opening id = some e) :
    Ensures (selecting V) (planForward id a) (fun r w' => ∀ plan ws, r = .ok (plan, ws) →
      (plan.map Leg.sourceTokenID).Nodup ∧ ∀ leg ∈ plan, Told V w' id leg) w := by
  have hsources : Ensures (selecting V) (planSources id a) (fun r w' => ∀ plan ws,
      r = .ok (plan, ws) → (plan.map Leg.sourceTokenID).Nodup ∧
        ∀ leg ∈ plan, Told V w' id leg) w := by
    unfold planSources
    rw [if_neg (by simp [ha])]
    refine (selectSourceTokens_selects hV hopen).seq fun r w1 _ hr => ?_
    cases r with
    | error reason => exact Ensures.pure fun _ _ _ _ h => by simp at h
    | ok legs =>
      refine Ensures.pure fun w2 hle plan ws h => ?_
      cases h
      obtain ⟨hnd, htold⟩ := hr legs rfl
      exact ⟨hnd, fun leg hleg => (htold leg hleg).grow hle⟩
  refine hsources.seq fun r w1 _ hr => ?_
  cases r with
  | error reason => exact Ensures.pure fun _ _ _ _ h => by simp at h
  | ok sources =>
    obtain ⟨plan, srcWs⟩ := sources
    obtain ⟨hnd, htold⟩ := hr plan srcWs rfl
    refine Obeys.request (selecting_lenient.free _ rfl) fun rows => ?_
    refine (Token.mintWrites_returns selecting_lenient w1).seq fun r w2 hle2 _ => ?_
    cases r with
    | error reason => exact Ensures.throw
    | ok writes =>
      refine Ensures.pure fun w3 hle3 plan' ws h => ?_
      cases h
      refine ⟨by simpa [Function.comp_def] using hnd, fun leg hleg => ?_⟩
      obtain ⟨m, hm, rfl⟩ := List.mem_map.mp hleg
      exact (htold m hm).grow (hle2.trans hle3)

/-- Every driver only prepares what it was told is there. -/
theorem driver_selects (d : Driver) (fuel : Nat) (w : World) :
    Safe (selecting V) (fun _ _ => True) (d.service fuel).run w := by
  refine d.obeys selecting_indifferent (fun id => ?_) fuel
  -- what else is landed with the plan prepares nothing
  have hland {w1 w2 : World} {e : TransferEvent} {r : Except Text (List Leg × List StreamWrite)}
      (hopen : w1.opening id = some e) (hle : w1 ≤ w2) (hws : PlanWithin unprepared r)
      (hplan : ∀ a, e = .transferRequestAccepted a → a.mintSource = false → ∀ plan ws,
        r = .ok (plan, ws) → (plan.map Leg.sourceTokenID).Nodup ∧
          ∀ leg ∈ plan, Told V w2 id leg) :
      Landable (selecting V) id (w1.transfer id) w2 r := by
    intro plan ws hr legs stage hlegs w3 hle3 _ x hx
    rcases List.mem_append.mp hx with hx | hx
    · exact selected_of_within (Or.inl (hws _ hr x hx))
    · obtain rfl := List.mem_singleton.mp hx
      intro i legs' hm a ha hmint
      obtain rfl := legs_of_landed hm
      have hforward := Option.some.inj ((World.opening_grow hopen (hle.trans hle3)).symm.trans ha)
      obtain ⟨hnd, htold⟩ := hplan a hforward hmint plan ws hr
      subst hlegs
      refine ⟨by simpa [Function.comp_def, plain] using hnd, fun leg hleg => ?_⟩
      exact (htold _ (List.mem_map_of_mem hleg)).grow hle3
  refine tryPrepare_obeys selecting_lenient
    (fun _ => (selecting_indifferent (V := V)).transfer _ _ rfl) ?_ ?_
  · intro w1 a rest _ _ hes
    have hopen := World.opening_of_events hes
    have hwithin : Ensures (selecting V) (planForward id a)
        (fun r _ => PlanWithin unprepared r) w1 :=
      planForward_obeys selecting_lenient a (fun _ _ => trivial) (fun _ _ => trivial) w1
    cases hmint : a.mintSource with
    | false =>
      refine (hwithin.and (planForward_selects hV hmint hopen)).mono fun r w2 hle hr => ?_
      exact hland hopen hle hr.1 fun _ _ _ => hr.2
    | true =>
      refine hwithin.mono fun r w2 hle hr => hland hopen hle hr fun a' ha' hmint' => ?_
      obtain rfl := TransferEvent.transferRequestAccepted.inj ha'
      exact absurd (hmint.symm.trans hmint') (by decide)
  · intro w1 a rest _ _ hes
    refine (planReversal_returns selecting_lenient a w1).mono fun r w2 hle hr => ?_
    refine hland (World.opening_of_events hes) hle ?_ fun _ h => by simp at h
    intro plan hplan x hx
    rw [hr plan hplan] at hx
    cases hx

end

/-! ### One Transfer out of a Wallet at a time -/

/-- An ordinary Transfer out of the Wallet was accepted: it mints no source. -/
def TakesFrom (W : Id) (w : World) (id : Id) : Prop :=
  ∃ a, w.opening id = some (.transferRequestAccepted a) ∧ a.mintSource = false ∧
    a.fromWalletID = W

theorem TakesFrom.grow (h : TakesFrom W w id) (hle : w ≤ w') : TakesFrom W w' id := by
  obtain ⟨a, hopen, ha⟩ := h
  exact ⟨a, World.opening_grow hopen hle, ha⟩

/-- What has opened already opened as it does later. -/
theorem TakesFrom.earlier (h : TakesFrom W w' id) (hle : w ≤ w')
    (hopened : (w.opening id).isSome = true) : TakesFrom W w id := by
  obtain ⟨a, hopen, ha⟩ := h
  obtain ⟨e, he⟩ := Option.isSome_iff_exists.mp hopened
  obtain rfl := Option.some.inj ((World.opening_grow he hle).symm.trans hopen)
  exact ⟨a, he, ha⟩

/-- The write accepts an ordinary Transfer out of the Wallet. -/
def takesOut (W : Id) : StreamWrite → Bool
  | ⟨.transfer, _, _, events⟩ => events.any fun (e : TransferEvent) =>
    match e with
    | .transferRequestAccepted a => !a.mintSource && a.fromWalletID == W
    | _ => false
  | _ => false

/-- An ordinary Transfer out of the Wallet is accepted only when every other one has
come to its end. -/
def OneOut (W : Id) (_ : Driver) : Op → World → Prop
  | .appendAtomic ws, w => ∀ x ∈ ws, takesOut W x = true → ∀ id, id ≠ x.aggregateID →
      TakesFrom W (w.append ws).2 id → (w.outcome id).final = true
  | _, _ => True

/-- Of two Transfers out of the Wallet, one has come to its end. -/
def OneUnderWay (W : Id) (w : World) : Prop :=
  ∀ id id', id ≠ id' → TakesFrom W w id → TakesFrom W w id' →
    (w.outcome id).final = true ∨ (w.outcome id').final = true

theorem final_grow (hinv' : Inv R w') (hle : w ≤ w') (h : (w.outcome id).final = true) :
    (w'.outcome id).final = true := by
  rw [World.outcome_grow hle (hinv'.lifecycle id) h]
  exact h

/-- How a Transfer out of the Wallet comes to be accepted. -/
theorem takesFrom_step {d : Driver} {o : Op} {r : Resp o} (hlegal : Legal R o w)
    (hg : OneOut W d o w) (hx : w.Exec o r w') (h : TakesFrom W w' id) :
    TakesFrom W w id ∨
      ∀ id', id' ≠ id → TakesFrom W w' id' → (w.outcome id').final = true := by
  obtain ⟨a, hopen, hmint, hfrom⟩ := h
  rcases opened_step hlegal hx hopen with hold | ⟨-, -, -, ws, happ⟩
  · exact Or.inl ⟨a, hold, hmint, hfrom⟩
  · right
    obtain rfl := happ.op
    have hw : w' = (w.append ws).2 := congrArg Prod.snd hx
    subst hw
    intro id' hne
    exact hg _ happ.mem (by simp [takesOut, hmint, hfrom]) id' hne

theorem underWay_upheld (W : Id) : Upholds True (fun _ => True) (OneOut W)
    (fun _ => Contract.free) (OneUnderWay W) where
  init _ _ _ h := by
    obtain ⟨a, hopen, -⟩ := h
    cases hopen
  safe d fuel w _ := Safe.free (fun _ _ => trivial) _ w
  step d o w r w' _ hinv' h hg hlegal _ hx id id' hne htakes htakes' := by
    have hle : w ≤ w' := World.le_of_exec hx
    rcases takesFrom_step hlegal hg hx htakes with hold | hothers
    · rcases takesFrom_step hlegal hg hx htakes' with hold' | hothers
      · exact (h id id' hne hold hold').imp (final_grow hinv' hle) (final_grow hinv' hle)
      · exact Or.inl (final_grow hinv' hle (hothers id hne htakes))
    · exact Or.inr (final_grow hinv' hle (hothers id' hne.symm htakes'))

/-! ### Who takes of a Token -/

section

variable {e e' : Id × StoredTransfer} {leg : TransferLeg}

theorem amount_append (p : StoredTransfer → Bool) (es es' : List (Id × StoredTransfer)) :
    amount p (es ++ es') = amount p es + amount p es' := by
  simp [amount, List.filter_append]

/-- What one transfer amounts to bounds what they all do, if no other meets `p`. -/
theorem amount_le_of_unique {p : StoredTransfer → Bool} {es : List (Id × StoredTransfer)}
    (hnd : es.Nodup) (h : ∀ e' ∈ es, p e'.2 = true → e' = e) :
    amount p es ≤ e.2.minorUnits.toNat := by
  have hall : ∀ e' ∈ es.filter fun e => p e.2, e' = e := fun e' he' =>
    h e' (List.mem_filter.mp he').1 (List.mem_filter.mp he').2
  have hnd := hnd.filter fun e => p e.2
  unfold amount
  cases hf : es.filter fun e => p e.2 with
  | nil => exact Nat.zero_le _
  | cons a rest =>
    rw [hf] at hall hnd
    obtain rfl := hall a List.mem_cons_self
    have hrest : rest = [] := List.eq_nil_iff_forall_not_mem.mpr fun b hb =>
      (List.nodup_cons.mp hnd).1 (hall b (List.mem_cons_of_mem _ hb) ▸ hb)
    simp [hrest]

/-- A leg is posted at most once. -/
theorem postings_unique {l : Ledger} (hl : l.Sound) (he : e ∈ postings l leg)
    (he' : e' ∈ postings l leg) : e = e' := by
  -- what is moved was not reserved
  have hmixed {e e' : Id × StoredTransfer} (hm : e ∈ l.transfers)
      (hi : e.1 = leg.ledgerTransferID) (hk : e.2.kind = .regular) (hm' : e' ∈ l.transfers)
      (hk' : e'.2.kind = .postPending) (hp' : e'.2.pendingID = leg.ledgerTransferID) : False := by
    obtain ⟨rec, hrec, -⟩ := hl.settled e'.1 e'.2 _ hm' (by rw [hk']; rfl)
    obtain ⟨st, hst, hpending⟩ := hl.reservation _ rec hrec
    rw [hp', ← hi] at hst
    rw [hl.unique hst hm, hk] at hpending
    simp at hpending
  obtain ⟨hm, ⟨hi, hk⟩ | ⟨hk, hp⟩⟩ := mem_postings.mp he
  · obtain ⟨hm', ⟨hi', hk'⟩ | ⟨hk', hp'⟩⟩ := mem_postings.mp he'
    · exact List.inj_on_of_nodup_map hl.nodup hm hm' (hi.trans hi'.symm)
    · exact (hmixed hm hi hk hm' hk' hp').elim
  · obtain ⟨hm', ⟨hi', hk'⟩ | ⟨hk', hp'⟩⟩ := mem_postings.mp he'
    · exact (hmixed hm' hi' hk' hm hk hp).elim
    · have hid := hl.once e.1 e.2 e'.1 e'.2 _ _ hm hm' (by rw [hk]; rfl) (by rw [hk']; rfl)
        (hp.trans hp'.symm)
      exact List.inj_on_of_nodup_map hl.nodup hm hm' hid

theorem postings_grow (hle : w ≤ w') (h : e ∈ postings w.ledger leg) :
    e ∈ postings w'.ledger leg := by
  obtain ⟨hm, hposts⟩ := mem_postings.mp h
  exact mem_postings.mpr ⟨hle.ledger.transfers.subset hm, hposts⟩

/-- What is posted from now on is of a Transfer that has not come to its end. -/
theorem underWay_of_posted (hinv : Inv R w) (hinv' : Inv R w') (hle : w ≤ w')
    (he : e ∈ w'.ledger.transfers) (hp : e.2.posts = true) (hnew : e ∉ w.ledger.transfers) :
    ∃ id, ∃ leg ∈ preparedOf w' id, e ∈ postings w'.ledger leg ∧ entryLeg e = plain leg ∧
      ¬ (w.outcome id).final = true := by
  obtain ⟨id, leg, hleg, hpost, hentry⟩ := leg_of_posted hinv' he hp
  refine ⟨id, leg, hleg, hpost, hentry, fun hfinal => ?_⟩
  have hsame : w'.outcome id = w.outcome id :=
    World.outcome_grow hle (hinv'.lifecycle id) hfinal
  obtain ⟨legs, hlegs, hleg⟩ := mem_preparedOf.mp hleg
  by_cases hc : w.outcome id = .committed
  · -- each of its legs was posted before
    obtain ⟨ls, hls, hone⟩ := postings_of_committed hinv hc
    obtain rfl := Except.ok.inj ((World.legs_grow hle hls).symm.trans hlegs)
    have hlength := congrArg List.length (hone leg hleg)
    rw [List.length_map, List.length_singleton] at hlength
    obtain ⟨e', he'⟩ := List.exists_mem_of_length_pos (Nat.lt_of_lt_of_eq Nat.one_pos hlength.symm)
    obtain rfl := postings_unique hinv'.ledger.sound hpost (postings_grow hle he')
    exact hnew (mem_postings.mp he').1
  · rw [postings_of_ended hinv' (hsame ▸ hfinal) (hsame ▸ hc) hlegs hleg] at hpost
    cases hpost

end

/-! ### Runs -/

section

variable {run : Run (freeRun fun d o w => OneOut W d o w ∧ NoOverflow d o w) .init}
  {k : Nat} {legs : List TransferLeg}

/-- What holds in every state of such a run. -/
theorem state_ok (hk : k ≤ run.length) : Inv True (run.state k) ∧ Balanced (run.state k) ∧
    LogOk (run.state k) ∧ Fits (run.state k) ∧ OneUnderWay W (run.state k) := by
  have hreach := run.reachable hk
  have hfits : Pool.Reachable (freeRun NoOverflow) .init (run.pool k) :=
    hreach.mono (fun _ _ hs => hs) (fun _ _ _ _ hg => hg.2) fun _ _ ht => ht
  have hone : Pool.Reachable (freeRun (OneOut W)) .init (run.pool k) :=
    hreach.mono (fun _ _ hs => hs) (fun _ _ _ _ hg => hg.1) fun _ _ ht => ht
  obtain ⟨hinv, hb, hl, hf⟩ := (reachable_upheld refusals_true rebuilt_upheld hfits).1
  exact ⟨hinv, hb, hl, hf, (reachable_upheld refusals_true (underWay_upheld W) hone).1.2⟩

theorem state_mono {r : Nat} (hrk : r ≤ k) (hk : k ≤ run.length) : run.state r ≤ run.state k :=
  run.state_mono (fun _ _ => World.le_of_tick) hrk hk

/-- What a step of such a run may be: time passes, or a thread performs an operation. -/
theorem state_step (hk : k < run.length) : (run.state k).Tick (run.state (k + 1)) ∨
    ∃ i d o r, run.Performs i o k ∧ OneOut W d o (run.state k) ∧ Legal True o (run.state k) ∧
      (run.state k).Exec o r (run.state (k + 1)) := by
  rcases run.step_cases hk with ⟨hsame, -⟩ | ⟨i, o, hp⟩ | ⟨ht, -⟩
  · exact Or.inl ⟨0, hsame⟩
  · obtain ⟨-, d, next, r, hi, hg, hx, -⟩ := id hp
    refine Or.inr ⟨i, d, o, r, hp, hg.1, ?_, hx⟩
    exact reachable_legal refusals_true (run.reachable hk.le) (List.mem_of_getElem? hi) hg
  · exact Or.inl ht

/-- What a Transfer out of the Wallet is prepared to take was posted, at a time when
the Transfer had been accepted. -/
theorem told_of_prepared (hk : k ≤ run.length) (h : TakesFrom W (run.state k) id)
    (hlegs : (run.state k).legs id = .ok legs) :
    (legs.map TransferLeg.sourceTokenID).Nodup ∧ ∀ leg ∈ legs, ∃ r < k,
      TakesFrom W (run.state r) id ∧
      ∃ a, (run.state r).ledger.accounts leg.sourceTokenID = some a ∧
        a.debitsPosted.toNat + leg.amount.minorUnits.toNat ≤ a.creditsPosted.toNat := by
  obtain ⟨p, hp, hno, hyes⟩ := run.exists_step (P := fun w => w.legs id = .ok legs)
    (fun h => by cases h) hlegs
  have hpk : p < run.length := Nat.lt_of_lt_of_le hp hk
  rcases state_step hpk with ⟨d, ht⟩ | ⟨i, d, o, r, hperf, -, hlegal, hx⟩
  · rw [ht] at hyes
    exact absurd hyes hno
  · rcases legs_step hlegal hx hyes with hold | ⟨ws, events, j, happ, hm, hsame⟩
    · exact absurd hold hno
    · obtain rfl := happ.op
      -- the thread that lands the plan was told so
      have hselected : ∀ x ∈ ws,
          Selected (fun o w => run.Performed i o w ∧ LogOk w) (run.state p) x := by
        refine run.ensures (fun _ _ => World.le_of_tick)
          (C := fun i => selecting fun o w => run.Performed i o w ∧ LogOk w)
          (Q := fun _ _ => True) ?_ ?_ hperf
        · rintro i d q w ⟨-, fuel, rfl⟩
          exact driver_selects (fun _ _ hv => hv.2) d fuel w
        · exact fun i o k hp => ⟨⟨k, hp, rfl⟩, (state_ok hp.1.le).2.2.1⟩
      obtain ⟨e, -, he, -, -⟩ := manifest_of_legs (state_ok hpk).1 hyes
      have hthen : TakesFrom W (run.state p) id := by
        refine h.earlier (state_mono hp.le hk) ?_
        rw [← hsame, he]
        rfl
      obtain ⟨a, hopen, hmint, -⟩ := hthen
      obtain ⟨hnd, htold⟩ := hselected _ happ.mem j legs hm a hopen hmint
      refine ⟨hnd, fun leg hleg => ?_⟩
      obtain ⟨ids, w0, ⟨⟨r, hr, rfl⟩, -⟩, hle, hopened, hposted⟩ := htold leg hleg
      -- it was told before the plan landed
      have hrp : r ≤ p := by
        by_contra hlt
        have hback := (state_mono (Nat.lt_of_not_le hlt) hr.1.le).trans hle
        exact hno (World.legs_grow hback hyes)
      have hrk : r < k := Nat.lt_of_le_of_lt hrp hp
      exact ⟨r, hrk, h.earlier (state_mono hrk.le hk) hopened, hposted⟩

theorem told_of_leg (hk : k ≤ run.length) {leg : TransferLeg}
    (h : TakesFrom W (run.state k) id) (hleg : leg ∈ preparedOf (run.state k) id) :
    ∃ r < k, TakesFrom W (run.state r) id ∧
      ∃ a, (run.state r).ledger.accounts leg.sourceTokenID = some a ∧
        a.debitsPosted.toNat + leg.amount.minorUnits.toNat ≤ a.creditsPosted.toNat := by
  obtain ⟨legs, hlegs, hleg⟩ := mem_preparedOf.mp hleg
  exact (told_of_prepared hk h hlegs).2 leg hleg

theorem underWay_unique {id' : Id} (hk : k ≤ run.length) (h : TakesFrom W (run.state k) id)
    (h' : TakesFrom W (run.state k) id') (hunder : ¬ ((run.state k).outcome id).final = true)
    (hunder' : ¬ ((run.state k).outcome id').final = true) : id = id' := by
  by_contra hne
  exact ((state_ok hk).2.2.2.2 id id' hne h h').elim hunder hunder'

/-- The ledger's transfers since step `r`. -/
theorem transfers_since {r : Nat} (hrk : r ≤ k) (hk : k ≤ run.length) :
    ∃ new, (run.state k).ledger.transfers = (run.state r).ledger.transfers ++ new ∧
      new.Nodup ∧ ∀ e ∈ new, e ∉ (run.state r).ledger.transfers := by
  obtain ⟨new, hnew⟩ := (state_mono hrk hk).ledger.transfers
  have hnd := (state_ok hk).1.ledger.sound.nodup.of_map
  rw [← hnew] at hnd
  obtain ⟨-, hnd, hdisjoint⟩ := List.nodup_append.mp hnd
  exact ⟨new, hnew.symm, hnd, fun e he he' => hdisjoint e he' e he rfl⟩

/-- While a Transfer out of the Wallet is under way, no other is accepted. -/
theorem takesFrom_before {r : Nat} {id' : Id} (hrk : r ≤ k) (hk : k ≤ run.length)
    (h : TakesFrom W (run.state r) id) (hunder : ¬ ((run.state k).outcome id).final = true)
    (h' : TakesFrom W (run.state k) id') : TakesFrom W (run.state r) id' := by
  induction hrk with
  | refl => exact h'
  | @step k hrk ih =>
    have hunder' : ¬ ((run.state k).outcome id).final = true := fun hfinal =>
      hunder (final_grow (state_ok hk).1 (state_mono (Nat.le_succ k) hk) hfinal)
    have ih := ih (Nat.le_of_succ_le hk) hunder'
    rcases state_step hk with ⟨d, ht⟩ | ⟨i, d, o, r', -, hg, hlegal, hx⟩
    · rw [ht] at h'
      exact ih h'
    · rcases takesFrom_step hlegal hg hx h' with hold | hothers
      · exact ih hold
      · by_cases hid : id = id'
        · exact hid ▸ h
        · exact absurd (hothers id hid (h.grow (state_mono (Nat.le_succ_of_le hrk) hk))) hunder'

/-- `id` is a Transfer like any other: it is no Reversal and mints no source. -/
def ordinary (w : World) (id : Id) : Bool :=
  match w.opening id with
  | some (.transferRequestAccepted a) => !a.mintSource
  | _ => false

/-- Only ordinary Transfers take of the Token. -/
def OrdinarySource (w : World) (x : Id) : Prop :=
  ∀ id, ∀ leg ∈ preparedOf w id, leg.sourceTokenID = x → ordinary w id = true

variable (hx : run.final.MintedInto x W) (hordinary : OrdinarySource run.final x)
include hx hordinary

/-- Who takes of the Token takes from its Wallet. -/
theorem takesFrom_of_leg (hk : k ≤ run.length) {leg : TransferLeg}
    (hleg : leg ∈ preparedOf (run.state k) id) (hsource : leg.sourceTokenID = x) :
    TakesFrom W (run.state k) id := by
  have hle : run.state k ≤ run.final := state_mono hk le_rfl
  obtain ⟨legs, hlegs, hleg⟩ := mem_preparedOf.mp hleg
  obtain ⟨e, es, he, -, hman⟩ := manifest_of_legs (state_ok hk).1 hlegs
  have hord := hordinary id leg (mem_preparedOf.mpr ⟨legs, World.legs_grow hle hlegs, hleg⟩) hsource
  unfold ordinary at hord
  rw [World.opening_grow he hle] at hord
  cases e with
  | transferRequestAccepted a =>
    obtain ⟨-, -, hminted, -⟩ := hman _ (List.mem_map_of_mem hleg)
    rw [show (plain leg).sourceTokenID = x from hsource] at hminted
    exact ⟨a, he, by simpa using hord, (hminted.grow hle).wallet_unique hx⟩
  | _ => simp at hord

/-- A debit of the Token posted since step `j` is a leg of a Transfer out of its
Wallet that had not come to its end then. -/
theorem taker_of_debit {j : Nat} (hjk : j ≤ k) (hk : k ≤ run.length) {e : Id × StoredTransfer}
    (he : e ∈ (run.state k).ledger.transfers) (hdebit : postsTo .debit x e.2 = true)
    (hnew : e ∉ (run.state j).ledger.transfers) :
    ∃ id, ∃ leg ∈ preparedOf (run.state k) id, leg.sourceTokenID = x ∧
      e ∈ postings (run.state k).ledger leg ∧ e.2.minorUnits = leg.amount.minorUnits ∧
      TakesFrom W (run.state k) id ∧ ¬ ((run.state j).outcome id).final = true := by
  simp only [postsTo, Bool.and_eq_true, beq_iff_eq] at hdebit
  obtain ⟨id, leg, hleg, hpost, hentry, hunder⟩ := underWay_of_posted
    (state_ok (hjk.trans hk)).1 (state_ok hk).1 (state_mono hjk hk) he hdebit.2 hnew
  have hsource : leg.sourceTokenID = x :=
    (congrArg Leg.sourceTokenID hentry).symm.trans hdebit.1
  refine ⟨id, leg, hleg, hsource, hpost, ?_, takesFrom_of_leg hx hordinary hk hleg hsource, hunder⟩
  exact congrArg (fun leg => leg.amount.minorUnits) hentry

/-- A Transfer debits the Token once. -/
theorem debit_unique (hk : k ≤ run.length) {e e' : Id × StoredTransfer} {leg leg' : TransferLeg}
    (hleg : leg ∈ preparedOf (run.state k) id) (hleg' : leg' ∈ preparedOf (run.state k) id)
    (hsource : leg.sourceTokenID = x) (hsource' : leg'.sourceTokenID = x)
    (he : e ∈ postings (run.state k).ledger leg) (he' : e' ∈ postings (run.state k).ledger leg') :
    e = e' := by
  have htakes := takesFrom_of_leg hx hordinary hk hleg hsource
  obtain ⟨legs, hlegs, hleg⟩ := mem_preparedOf.mp hleg
  obtain ⟨legs', hlegs', hleg'⟩ := mem_preparedOf.mp hleg'
  obtain rfl := Except.ok.inj (hlegs.symm.trans hlegs')
  obtain rfl := List.inj_on_of_nodup_map (told_of_prepared hk htakes hlegs).1 hleg hleg'
    (hsource.trans hsource'.symm)
  exact postings_unique (state_ok hk).1.ledger.sound he he'

/-- Nobody takes of the Token from when a Transfer was told what is there until its
leg is posted. -/
theorem debits_since {r : Nat} (hrk : r ≤ k) (hk : k < run.length)
    (hthen : TakesFrom W (run.state r) id) (hunder : ¬ ((run.state k).outcome id).final = true)
    {leg : TransferLeg} (hleg : leg ∈ preparedOf (run.state (k + 1)) id)
    (hsource : leg.sourceTokenID = x) {e : Id × StoredTransfer}
    (hpost : e ∈ postings (run.state (k + 1)).ledger leg)
    (hnew : e ∉ (run.state k).ledger.transfers) :
    amount (postsTo .debit x) (run.state k).ledger.transfers =
      amount (postsTo .debit x) (run.state r).ledger.transfers := by
  obtain ⟨since, hsince, -, hlater⟩ := transfers_since hrk hk.le
  rw [hsince, amount_append, Nat.add_eq_left]
  refine amount_eq_zero fun e' he' => ?_
  by_contra hdebit
  have hmem : e' ∈ (run.state k).ledger.transfers := hsince ▸ List.mem_append_right _ he'
  obtain ⟨id', leg', hleg', hsource', hpost', -, htakes', hunder'⟩ :=
    taker_of_debit hx hordinary hrk hk.le hmem (by simpa using hdebit) (hlater e' he')
  have hunder0 : ¬ ((run.state r).outcome id).final = true := fun hfinal =>
    hunder (final_grow (state_ok hk.le).1 (state_mono hrk hk.le) hfinal)
  obtain rfl := underWay_unique (hrk.trans hk.le) hthen
    (takesFrom_before hrk hk.le hthen hunder htakes') hunder0 hunder'
  -- so it is the same leg, which was not posted yet
  have hle : run.state k ≤ run.state (k + 1) := state_mono (Nat.le_succ k) hk
  obtain ⟨legs, hlegs, hleg'⟩ := mem_preparedOf.mp hleg'
  have heq := debit_unique hx hordinary hk hleg
    (mem_preparedOf.mpr ⟨legs, World.legs_grow hle hlegs, hleg'⟩) hsource hsource' hpost
    (postings_grow hle hpost')
  exact hnew (heq ▸ hmem)

/-- One step posts from the Token no more than is there. -/
theorem debits_step (hk : k < run.length)
    (h : amount (postsTo .debit x) (run.state k).ledger.transfers ≤
      amount (postsTo .credit x) (run.state k).ledger.transfers) :
    amount (postsTo .debit x) (run.state (k + 1)).ledger.transfers ≤
      amount (postsTo .credit x) (run.state (k + 1)).ledger.transfers := by
  obtain ⟨new, hnew, hnd, hfresh⟩ := transfers_since (Nat.le_succ k) hk
  rw [hnew, amount_append, amount_append]
  by_cases hany : ∃ e ∈ new, postsTo .debit x e.2 = true
  · have htaker {e : Id × StoredTransfer} (he : e ∈ new) (hdebit : postsTo .debit x e.2 = true) :=
      taker_of_debit hx hordinary (Nat.le_succ k) hk (hnew ▸ List.mem_append_right _ he) hdebit
        (hfresh e he)
    obtain ⟨e, he, hdebit⟩ := hany
    obtain ⟨id, leg, hleg, hsource, hpost, hamount, htakes, hunder⟩ := htaker he hdebit
    obtain ⟨r, hr, hthen, a, ha, hroom⟩ := told_of_leg hk htakes hleg
    have hrk : r ≤ k := Nat.le_of_lt_succ hr
    have hone : amount (postsTo .debit x) new ≤ e.2.minorUnits.toNat := by
      refine amount_le_of_unique hnd fun e' he' hdebit' => ?_
      obtain ⟨id', leg', hleg', hsource', hpost', -, htakes', hunder'⟩ := htaker he' hdebit'
      obtain ⟨r', hr', hthen', -⟩ := told_of_leg hk htakes' hleg'
      obtain rfl := underWay_unique hk.le (hthen.grow (state_mono hrk hk.le))
        (hthen'.grow (state_mono (Nat.le_of_lt_succ hr') hk.le)) hunder hunder'
      exact debit_unique hx hordinary hk hleg' hleg hsource' hsource hpost' hpost
    have hsince := debits_since hx hordinary hrk hk hthen hunder hleg hsource hpost (hfresh e he)
    obtain ⟨later, hlater, -⟩ := transfers_since hrk hk.le
    have hcredits : amount (postsTo .credit x) (run.state k).ledger.transfers =
        amount (postsTo .credit x) (run.state r).ledger.transfers +
          amount (postsTo .credit x) later := by
      rw [hlater, amount_append]
    obtain ⟨-, hb, -, hfits, -⟩ := state_ok (hrk.trans hk.le)
    rw [hsource] at ha
    have hposted : a.creditsPosted.toNat = _ := posted_toNat hb hfits ha .credit
    have htaken : a.debitsPosted.toNat = _ := posted_toNat hb hfits ha .debit
    rw [hamount] at hone
    omega
  · have hzero : amount (postsTo .debit x) new = 0 :=
      amount_eq_zero fun e he => by simpa using fun hdebit => hany ⟨e, he, hdebit⟩
    omega

end

/-- **A Token is never overdrawn where the Transfers out of its Wallet come one after
another**, whatever the Wallet allows: if only ordinary Transfers take of it, no
more was ever taken than was posted to it. -/
theorem never_overdrawn {c : System}
    (h : Pool.Reachable (freeRun fun d o w => OneOut W d o w ∧ NoOverflow d o w) .init c)
    (hx : c.state.MintedInto x W) (hordinary : OrdinarySource c.state x)
    {a : StoredAccount} (ha : c.state.ledger.accounts x = some a) :
    (0 : ℤ) ≤ a.creditsPosted.toNat - a.debitsPosted.toNat := by
  obtain ⟨run, rfl⟩ := Run.of_reachable h
  have hle : ∀ k ≤ run.length, amount (postsTo .debit x) (run.state k).ledger.transfers ≤
      amount (postsTo .credit x) (run.state k).ledger.transfers := by
    intro k
    induction k with
    | zero =>
      intro _
      rw [Run.state, run.first]
      exact Nat.zero_le _
    | succ k ih => exact fun hk => debits_step hx hordinary hk (ih (Nat.le_of_succ_le hk))
  obtain ⟨-, hb, -, hfits, -⟩ := state_ok (le_refl run.length)
  have hcredits : a.creditsPosted.toNat = _ := posted_toNat hb hfits ha .credit
  have hdebits : a.debitsPosted.toNat = _ := posted_toNat hb hfits ha .debit
  have := hle run.length le_rfl
  omega

/-! ### Runs with these Transfers only -/

/-- The same condition, asked of these Transfers only. -/
def OneOutAmong (ids : List Id) (W : Id) (_ : Driver) : Op → World → Prop
  | .appendAtomic ws, w => ∀ x ∈ ws, takesOut W x = true → ∀ id ∈ ids, id ≠ x.aggregateID →
      ((w.append ws).2.transfer id).isEmpty = true ∨ (w.outcome id).final = true
  | _, _ => True

instance (ids : List Id) (W : Id) : ∀ d o w, Decidable (OneOutAmong ids W d o w) := by
  rintro d ⟨⟩ w <;> delta OneOutAmong <;> infer_instance

/-- Where no other Transfer begins, it is the condition. -/
theorem oneOut_of_among {ids : List Id} {c : System} (h : Pool.Reachable (freeRun fun d o w =>
      NoOverflow d o w ∧ TransfersAmong ids d o w ∧ OneOutAmong ids W d o w) .init c) :
    Pool.Reachable (freeRun fun d o w => OneOut W d o w ∧ NoOverflow d o w) .init c := by
  refine h.mono (fun _ _ hs => hs) (fun c d o hr hg => ⟨?_, hg.1⟩) fun _ _ ht => ht
  have hamong : Pool.Reachable (freeRun (TransfersAmong ids)) .init c :=
    hr.mono (fun _ _ hs => hs) (fun _ _ _ _ hg => hg.2.1) fun _ _ ht => ht
  cases o with
  | appendAtomic ws =>
    rintro x hx htakes id hne ⟨a, hopen, -⟩
    have hbegun : (c.state.append ws).2.transfer id ≠ [] := by
      intro hnil
      rw [World.opening, hnil] at hopen
      cases hopen
    have hid : id ∈ ids := by
      unfold World.append at hbegun
      split at hbegun
      · exact mem_of_transfersAmong hamong hbegun
      · rename_i st hst
        rcases appendAtomic_stream hst .transfer id with hsame | ⟨events, hmem, -⟩
        · exact mem_of_transfersAmong hamong fun hnil => hbegun (hsame.trans hnil)
        · exact hg.2.1 _ hmem rfl
    refine (hg.2.2 x hx htakes id hid hne).resolve_left fun hempty => ?_
    exact hbegun (List.isEmpty_iff.mp hempty)
  | _ => trivial

/-- The Token 100 was brought in to. -/
abbrev deposited : Id := .destinationToken (.uuid 3)

/-- 100 is brought in to a Wallet without caps. Then 60 are taken of them, and once
that Transfer is through, the other 40, by one that is staged. -/
def takenInTurn : List (Move (freeRun fun d o w => NoOverflow d o w ∧
    TransfersAmong [.uuid 3, .uuid 5, .uuid 6] d o w ∧
    OneOutAmong [.uuid 3, .uuid 5, .uuid 6] (.uuid 1) d o w)) :=
  inTurn 0 [.openWallet ⟨.uuid 0, .uuid 100, "bank", .onrampAndOfframp⟩,
    .openWallet ⟨.uuid 1, .uuid 100, "payer", .onrampAndOfframp⟩,
    .startInitializingTransaction (.uuid 2)
      (depositSpec (.uuid 3) (.uuid 0) (.uuid 1) ⟨100, "USD"⟩),
    .resumeTransaction (.uuid 2), .resumeTransfer (.uuid 3), .resumeTransaction (.uuid 2),
    .openWallet ⟨.uuid 4, .uuid 100, "payee", .none⟩,
    .requestTransfer ⟨.uuid 5, .uuid 1, .uuid 4, some ⟨60, "USD"⟩, false, false, Id.empty⟩,
    .resumeTransfer (.uuid 5),
    .requestTransfer ⟨.uuid 6, .uuid 1, .uuid 4, some ⟨40, "USD"⟩, true, false, Id.empty⟩,
    .resumeTransfer (.uuid 6), .confirmStagedTransfer (.uuid 6), .postPendingTransfer (.uuid 6)]

theorem never_overdrawn_taken :
    ∃ a, (playedUnder takenInTurn).state.ledger.accounts deposited = some a ∧
      a.debitsMustNotExceedCredits = false ∧ a.debitsPosted = 100 ∧
      (0 : ℤ) ≤ a.creditsPosted.toNat - a.debitsPosted.toNat := by
  have hreach := playedUnder_reachable takenInTurn
  have hamong : Pool.Reachable (freeRun (TransfersAmong [.uuid 3, .uuid 5, .uuid 6])) .init
      (playedUnder takenInTurn) :=
    hreach.mono (fun _ _ hs => hs) (fun _ _ _ _ hg => hg.2.1) fun _ _ ht => ht
  have hlisted : ∀ id ∈ [Id.uuid 3, .uuid 5, .uuid 6],
      ∀ leg ∈ preparedOf (playedUnder takenInTurn).state id,
        leg.sourceTokenID = deposited → ordinary (playedUnder takenInTurn).state id = true := by
    decide +kernel
  have hordinary : OrdinarySource (playedUnder takenInTurn).state deposited := by
    intro id leg hleg
    refine hlisted id ?_ leg hleg
    refine mem_of_transfersAmong hamong fun hnil => ?_
    obtain ⟨legs, hlegs, -⟩ := mem_preparedOf.mp hleg
    rw [World.legs, hnil] at hlegs
    cases hlegs
  have ha : (playedUnder takenInTurn).state.ledger.accounts deposited =
      some ⟨"USD", false, false, 100, 100, 0, 0⟩ := by decide +kernel
  exact ⟨_, ha, rfl, rfl, never_overdrawn (oneOut_of_among hreach)
    ⟨⟨100, "USD"⟩, by decide +kernel⟩ hordinary ha⟩

/-- 100 is brought in to a Wallet without caps. Two Transfers of 100 out of it are
accepted; the first has read the balances when the second begins, and both go
through. -/
def selectedTwice : List (Move anyRun) :=
  inTurn 0 [.openWallet ⟨.uuid 0, .uuid 100, "bank", .onrampAndOfframp⟩,
    .openWallet ⟨.uuid 1, .uuid 100, "payer", .onrampAndOfframp⟩,
    .startInitializingTransaction (.uuid 2)
      (depositSpec (.uuid 3) (.uuid 0) (.uuid 1) ⟨100, "USD"⟩),
    .resumeTransaction (.uuid 2), .resumeTransfer (.uuid 3), .resumeTransaction (.uuid 2),
    .openWallet ⟨.uuid 4, .uuid 100, "payee", .none⟩,
    .requestTransfer ⟨.uuid 5, .uuid 1, .uuid 4, some ⟨100, "USD"⟩, false, false, Id.empty⟩,
    .requestTransfer ⟨.uuid 6, .uuid 1, .uuid 4, some ⟨100, "USD"⟩, false, false, Id.empty⟩] ++
  [start (.resumeTransfer (.uuid 5)) 20, .run 9 10, start (.resumeTransfer (.uuid 6)) 20,
    .run 10 1000, .run 9 1000]

/-- **A Token is overdrawn by two ordinary Transfers**: 100 was posted to it, 200
were taken, all of them by legs of the two. -/
theorem selected_twice :
    Pool.Reachable anyRun .init (played selectedTwice) ∧
      (∀ e ∈ (played selectedTwice).state.ledger.transfers, e.2.debitAccountID = deposited →
        ∃ id ∈ [Id.uuid 5, .uuid 6], ordinary (played selectedTwice).state id = true ∧
          e.1 ∈ (((played selectedTwice).state.legs id).toOption.getD []).map
            TransferLeg.ledgerTransferID) ∧
      ∃ a, (played selectedTwice).state.ledger.accounts deposited = some a ∧
        ¬ (0 : ℤ) ≤ a.creditsPosted.toNat - a.debitsPosted.toNat := by
  refine ⟨played_reachable _, by decide +kernel, ⟨"USD", false, false, 200, 100, 0, 0⟩,
    by decide +kernel, by decide⟩

end MoneyFlow.Transfer
