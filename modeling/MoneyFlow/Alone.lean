import MoneyFlow.Concurrent.Alone
import MoneyFlow.Token
import MoneyFlow.Transfer.Lifecycle

/-!
# MoneyFlow.Alone

Service code run with nothing else going on.

A `LedgerRule` says what the ledger answers a request of transfers; `World.ExecBy`
is the meaning of the operations with a rule in place of the in-memory ledger's
own. What follows is what each operation, and the code that publishes balances,
does on its own: an append whose writes are due lands, and reading, waiting and
publishing leave the ledger alone.
-/

namespace MoneyFlow

open Concurrent

variable {tok : Id} {toks : List Id} {bs : Id → Option Ledger.Balance} {fuel : Nat}

/-- What a ledger answers a request of transfers, and the ledger after it. -/
abbrev LedgerRule := Ledger → List LedgerTransfer → Except Err (List TransferResultCode) × Ledger

/-- What an operation may answer, and the state it may leave, over a ledger that
follows the rule. -/
def World.ExecBy (rule : LedgerRule) (w : World) : (o : Op) → Resp o → World → Prop
  | .createTransfers ts, r, w' =>
    (r, w') = ((rule w.ledger ts).1, { w with ledger := (rule w.ledger ts).2 })
  | o, r, w' => w.Exec o r w'

variable {rule : LedgerRule} {w w' : World} {id : Id} {α β : Type}

/-! ### Operations -/

namespace Concurrent.Yields

variable {Q : Except Err β → World → Prop}

theorem load {a : Aggregate} {f : List (Row a.Event) → Service β}
    (h : Yields (World.ExecBy rule) (f (w.store a id)) Q w) :
    Yields (World.ExecBy rule) (Service.load a id >>= f) Q w :=
  request_one (fun _ _ => Iff.rfl) h

theorem load_transfer {f : List (Row TransferEvent) → Service β}
    (h : Yields (World.ExecBy rule) (f (w.transfer id)) Q w) :
    Yields (World.ExecBy rule) (Service.load .transfer id >>= f) Q w :=
  load h

theorem now {f : Nat → Service β} (h : Yields (World.ExecBy rule) (f w.clock) Q w) :
    Yields (World.ExecBy rule) (Service.now >>= f) Q w :=
  request_one (fun _ _ => Iff.rfl) h

theorem balances {ids : List Id} {f : (Id → Option Ledger.Balance) → Service β}
    (h : Yields (World.ExecBy rule) (f (w.ledger.balances ids)) Q w) :
    Yields (World.ExecBy rule) (Service.balances ids >>= f) Q w :=
  request_one (fun _ _ => Iff.rfl) h

theorem createTransfers {ts : List LedgerTransfer}
    {f : Except Err (List TransferResultCode) → Service β}
    (h : Yields (World.ExecBy rule) (f (rule w.ledger ts).1) Q
      { w with ledger := (rule w.ledger ts).2 }) :
    Yields (World.ExecBy rule) (Service.createTransfers ts >>= f) Q w :=
  request_one (fun _ _ => Iff.rfl) h

theorem wait {ms : Nat} {f : Unit → Service β}
    (h : ∀ d, ms ≤ d → Yields (World.ExecBy rule) (f ()) Q { w with clock := w.clock + d }) :
    Yields (World.ExecBy rule) (Service.wait ms >>= f) Q w := by
  refine request ⟨(), _, ms, le_rfl, rfl⟩ fun r w' hx => ?_
  obtain ⟨d, hd, rfl⟩ := hx
  exact h d hd

/-- An append that is due lands. -/
theorem appendWrites {ws : List StreamWrite} {f : Except Err Unit → Service β}
    (hdue : Due w.store ws) (h : ∀ st, appendAtomic w.clock w.store ws = .ok st →
      Yields (World.ExecBy rule) (f (.ok ())) Q { w with store := st }) :
    Yields (World.ExecBy rule) (Service.appendWrites ws >>= f) Q w := by
  obtain ⟨st, hst⟩ := hdue.lands w.clock
  have happend : w.append ws = (.ok (), { w with store := st }) := by
    unfold World.append
    rw [hst]
  refine request ⟨.ok (), { w with store := st }, happend.symm⟩ fun r w' hx => ?_
  have hx' : (r, w') = w.append ws := hx
  rw [happend] at hx'
  cases hx'
  exact h st hst

theorem check {r : Except Err α} {a : α} {f : α → Service β} (hr : r = .ok a)
    (h : Yields (World.ExecBy rule) (f a) Q w) :
    Yields (World.ExecBy rule) (Service.check r >>= f) Q w := by
  rw [hr]
  exact h

end Concurrent.Yields

/-! ### Publishing balances -/

namespace Token

/-- The Token was minted and has an account. -/
structure Kept (w : World) (tok : Id) : Prop where
  named : tok ≠ Id.empty
  stream : ∃ s, tokenStreamOf tok (w.token tok) = .ok s
  account : (w.ledger.accounts tok).isSome = true

/-- The posted totals of the Token's account fit the words they are published in. -/
def Fits (w : World) (tok : Id) : Prop :=
  ∀ a ∈ w.ledger.accounts tok,
    a.creditsPosted.toNat ≤ Ledger.maxInt64 ∧ a.debitsPosted.toNat ≤ Ledger.maxInt64

theorem mem_distinct : ∀ {toks : List Id}, tok ∈ distinct toks ↔ tok ∈ toks
  | [] => Iff.rfl
  | t :: toks => by
    have ih : tok ∈ distinct toks ↔ tok ∈ toks := mem_distinct
    by_cases h : tok = t <;> simp [distinct, h, ih]

theorem distinct_nodup : ∀ toks : List Id, (distinct toks).Nodup
  | [] => List.nodup_nil
  | t :: toks => by
    rw [distinct, List.nodup_cons]
    exact ⟨by simp, (distinct_nodup toks).filter _⟩

/-- The streams of minted Tokens, as they stand. -/
theorem loadStreams_alone : ∀ {toks : List Id}, (∀ tok ∈ toks, Kept w tok) →
    Returns (World.ExecBy rule) (loadStreams toks)
      (fun streams w' => w' = w ∧ streams.map Prod.fst = toks ∧
        ∀ p ∈ streams, p.2.seq = (w.token p.1).length) w
  | [], _ => Returns.pure ⟨rfl, rfl, nofun⟩
  | tok :: toks, h => by
    obtain ⟨s, hs⟩ := (h tok List.mem_cons_self).stream
    have hload : Returns (World.ExecBy rule) (loadTokenStream tok)
        (fun a w' => w' = w ∧ a = s) w := by
      refine Yields.load ?_
      rw [show tokenStreamOf tok (w.store .token tok) = .ok s from hs]
      exact ⟨s, rfl, rfl, rfl⟩
    refine Yields.seq hload fun a w1 ha => ?_
    obtain ⟨hw, rfl⟩ := ha
    rw [hw]
    refine Yields.seq (loadStreams_alone fun t ht => h t (List.mem_cons_of_mem _ ht)) ?_
    intro streams w2 hstreams
    obtain ⟨hw2, hfst, hseq⟩ := hstreams
    refine Returns.pure ⟨hw2, by simp [hfst], fun p hp => ?_⟩
    rcases List.mem_cons.mp hp with rfl | hp
    · exact tokenStreamOf_seq hs
    · exact hseq p hp

/-- Writes of balances, each to a Token's stream where it stands. -/
structure BalancesDue (w : World) (toks : List Id) (ws : List StreamWrite) : Prop where
  keys : (ws.map StreamWrite.key).Sublist (toks.map fun tok => (Aggregate.token, tok))
  expected : ∀ x ∈ ws, x.expected w.store = true

theorem balanceWritesOf_due :
    ∀ {streams : List (Id × TokenStream)}, (∀ p ∈ streams, p.2.seq = (w.token p.1).length) →
      (∀ p ∈ streams, ∃ b n, bs p.1 = some b ∧ b.postedNet = .ok n) →
      ∃ ws, balanceWritesOf bs streams = .ok ws ∧ BalancesDue w (streams.map Prod.fst) ws
  | [], _, _ => ⟨[], rfl, List.Sublist.slnil, nofun⟩
  | (tok, stream) :: streams, hseq, hbs => by
    obtain ⟨b, n, hb, hn⟩ := hbs _ List.mem_cons_self
    obtain ⟨ws, hws, hdue⟩ := balanceWritesOf_due
      (fun p hp => hseq p (List.mem_cons_of_mem _ hp))
      (fun p hp => hbs p (List.mem_cons_of_mem _ hp))
    simp only [balanceWritesOf, balanceRecorded, hb, hn, hws]
    split
    · exact ⟨ws, rfl, hdue.keys.cons _, hdue.expected⟩
    · refine ⟨_, rfl, hdue.keys.cons_cons _, fun x hx => ?_⟩
      rcases List.mem_cons.mp hx with rfl | hx
      · exact beq_iff_eq.mpr (hseq _ List.mem_cons_self).symm
      · exact hdue.expected x hx

theorem postedNet_of_fits (hkept : Kept w tok) (hfits : Fits w tok) (hm : tok ∈ toks) :
    ∃ b n, w.ledger.balances toks tok = some b ∧ b.postedNet = .ok n := by
  obtain ⟨a, ha⟩ := Option.isSome_iff_exists.mp hkept.account
  obtain ⟨hc, hd⟩ := hfits a ha
  have hbal : w.ledger.balances toks tok = some ⟨a.currency, a.debitsPosted, a.creditsPosted,
      a.debitsPending, a.creditsPending⟩ := by
    simp [Ledger.balances, hm, ha]
  refine ⟨_, (a.creditsPosted.toNat : ℤ) - a.debitsPosted.toNat, hbal, ?_⟩
  exact if_neg (not_or.mpr ⟨Nat.not_lt.mpr hc, Nat.not_lt.mpr hd⟩)

theorem balanceWritesOf_error :
    ∀ {streams : List (Id × TokenStream)} {p : Id × TokenStream}, p ∈ streams →
      (∀ walletID, ∃ e, balanceRecorded p.1 walletID bs = .error e) →
      ∃ e, balanceWritesOf bs streams = .error e
  | q :: streams, p, hp, he => by
    rw [balanceWritesOf]
    cases hq : balanceRecorded q.1 q.2.walletID bs with
    | error e => exact ⟨e, rfl⟩
    | ok event =>
      have hp' : p ∈ streams := by
        rcases List.mem_cons.mp hp with rfl | hp
        · obtain ⟨e, he⟩ := he p.2.walletID
          rw [hq] at he
          cases he
        · exact hp
      obtain ⟨e, he⟩ := balanceWritesOf_error hp' he
      exact ⟨e, by simp only [he]⟩

theorem balanceRecorded_of_not_fits (hfits : ¬ Fits w tok) (toks : List Id) (walletID : Id) :
    ∃ e, balanceRecorded tok walletID (w.ledger.balances toks) = .error e := by
  unfold Fits at hfits
  simp only [not_forall] at hfits
  obtain ⟨a, ha, hun⟩ := hfits
  have hover : Ledger.maxInt64 < a.creditsPosted.toNat ∨
      Ledger.maxInt64 < a.debitsPosted.toNat := by
    rcases not_and_or.mp hun with h | h
    · exact Or.inl (Nat.not_le.mp h)
    · exact Or.inr (Nat.not_le.mp h)
  have ha : w.ledger.accounts tok = some a := ha
  unfold balanceRecorded Ledger.balances
  by_cases hm : tok ∈ toks
  · simp only [if_pos hm, ha, Option.map_some, Ledger.Balance.postedNet, if_pos hover]
    exact ⟨_, rfl⟩
  · simp only [if_neg hm]
    exact ⟨_, rfl⟩

/-- `observe` of Tokens that are kept. -/
theorem observe_alone (hkept : ∀ tok ∈ toks, Kept w tok) :
    Returns (World.ExecBy rule) (observe toks) (fun p w' => w' = w ∧
      p.1.map Prod.fst = distinct toks ∧ (∀ q ∈ p.1, q.2.seq = (w.token q.1).length) ∧
      p.2 = w.ledger.balances (distinct toks)) w := by
  refine Yields.seq (loadStreams_alone fun tok h => hkept tok (mem_distinct.mp h)) ?_
  intro streams w1 hstreams
  obtain ⟨hw, hfst, hseq⟩ := hstreams
  rw [hw]
  exact Yields.balances (Returns.pure ⟨rfl, hfst, hseq, rfl⟩)

/-- `BalanceWrites` of Tokens that are kept and whose totals fit. -/
theorem balanceWrites_alone (hkept : ∀ tok ∈ toks, Kept w tok) (hfits : ∀ tok ∈ toks, Fits w tok) :
    Returns (World.ExecBy rule) (balanceWrites toks)
      (fun ws w' => w' = w ∧ BalancesDue w (distinct toks) ws) w := by
  refine Yields.seq (observe_alone hkept) fun p w1 hp => ?_
  obtain ⟨streams, bs⟩ := p
  obtain ⟨hw, hfst, hseq, hbs⟩ := hp
  obtain rfl : bs = w.ledger.balances (distinct toks) := hbs
  obtain ⟨ws, hws, hdue⟩ := balanceWritesOf_due (w := w) hseq fun q hq => by
    have hq' : q.1 ∈ distinct toks := hfst ▸ List.mem_map_of_mem hq
    exact postedNet_of_fits (hkept _ (mem_distinct.mp hq')) (hfits _ (mem_distinct.mp hq')) hq'
  rw [show streams.map Prod.fst = _ from hfst] at hdue
  change Yields _ (Service.check (balanceWritesOf _ streams)) _ w1
  rw [hws]
  exact ⟨ws, rfl, hw, hdue⟩

/-- `BalanceWrites` of a Token whose totals do not fit. -/
theorem balanceWrites_unfit (hkept : ∀ tok ∈ toks, Kept w tok) (hm : tok ∈ toks)
    (hfits : ¬ Fits w tok) :
    Yields (World.ExecBy rule) (balanceWrites toks) (fun r w' => w' = w ∧ ∃ e, r = .error e) w := by
  refine Yields.seq (observe_alone hkept) fun p w1 hp => ?_
  obtain ⟨streams, bs⟩ := p
  obtain ⟨hw, hfst, -, hbs⟩ := hp
  obtain rfl : bs = w.ledger.balances (distinct toks) := hbs
  obtain ⟨q, hq, rfl⟩ : ∃ q ∈ streams, q.1 = tok := by
    rw [← List.mem_map, show streams.map Prod.fst = _ from hfst]
    exact mem_distinct.mpr hm
  obtain ⟨e, he⟩ := balanceWritesOf_error hq
    (balanceRecorded_of_not_fits hfits (distinct toks))
  change Yields _ (Service.check (balanceWritesOf _ streams)) _ w1
  rw [he]
  exact ⟨hw, e, rfl⟩

/-- Balances of `toks` may have been recorded, and nothing else was written. -/
structure Published (w : World) (toks : List Id) (w' : World) : Prop where
  others : ∀ a i, a ≠ .token ∨ i ∉ toks → w'.store a i = w.store a i
  ledger : w'.ledger = w.ledger

theorem recordBalance_alone {stream : TokenStream} (hnamed : tok ≠ Id.empty)
    (hseq : stream.seq = (w.token tok).length)
    (hbs : ∃ b n, bs tok = some b ∧ b.postedNet = .ok n) :
    Returns (World.ExecBy rule) (recordBalance tok (fuel + 1) stream bs)
      (fun _ w' => Published w [tok] w') w := by
  obtain ⟨b, n, hb, hn⟩ := hbs
  simp only [recordBalance, balanceRecorded, hb, hn]
  split
  · exact Returns.pure ⟨fun _ _ _ => rfl, rfl⟩
  · have hdue : Due w.store [⟨.token, tok, stream.seq, [.tokenBalanceRecorded tok
        stream.walletID b.currency n b.debitsPending b.creditsPending]⟩] := by
      refine ⟨?_, by simp, ?_⟩
      · intro x hx
        obtain rfl := List.mem_singleton.mp hx
        exact hnamed
      · intro x hx
        obtain rfl := List.mem_singleton.mp hx
        exact beq_iff_eq.mpr hseq.symm
    refine Yields.appendWrites hdue fun st hst => Returns.pure ⟨fun a i hai => ?_, rfl⟩
    rcases appendAtomic_stream hst a i with hsame | ⟨events, hm, -⟩
    · exact hsame
    · obtain ⟨ha, hi⟩ := Prod.mk.inj (congrArg StreamWrite.key (List.mem_singleton.mp hm))
      exact (hai.elim (fun h => h ha) fun h => h (List.mem_singleton.mpr hi)).elim

theorem recordEach_alone :
    ∀ {streams : List (Id × TokenStream)} {w : World}, (streams.map Prod.fst).Nodup →
      (∀ p ∈ streams, p.1 ≠ Id.empty ∧ p.2.seq = (w.token p.1).length) →
      (∀ p ∈ streams, ∃ b n, bs p.1 = some b ∧ b.postedNet = .ok n) →
      Returns (World.ExecBy rule) (recordEach (fuel + 1) bs streams)
        (fun _ w' => Published w (streams.map Prod.fst) w') w
  | [], _, _, _, _ => Returns.pure ⟨fun _ _ _ => rfl, rfl⟩
  | (tok, stream) :: streams, w, hnd, hseq, hbs => by
    obtain ⟨hnew, hnd⟩ := List.nodup_cons.mp hnd
    obtain ⟨hnamed, hlen⟩ := hseq _ List.mem_cons_self
    refine Yields.seq (recordBalance_alone hnamed hlen (hbs _ List.mem_cons_self)) ?_
    intro _ w1 hw1
    -- the other Tokens' streams stand where they were observed
    have hseq1 : ∀ p ∈ streams, p.1 ≠ Id.empty ∧ p.2.seq = (w1.token p.1).length := by
      intro p hp
      obtain ⟨hp1, hp2⟩ := hseq p (List.mem_cons_of_mem _ hp)
      have hmem : p.1 ∈ streams.map Prod.fst := List.mem_map_of_mem hp
      have hne : p.1 ∉ [tok] := fun h => hnew (List.mem_singleton.mp h ▸ hmem)
      have hsame : w1.token p.1 = w.token p.1 := hw1.others .token p.1 (Or.inr hne)
      exact ⟨hp1, by rw [hsame, hp2]⟩
    refine (recordEach_alone hnd hseq1 fun p hp => hbs p (List.mem_cons_of_mem _ hp)).mono ?_
    intro _ w2 hw2
    refine ⟨fun a i hai => ?_, hw2.ledger.trans hw1.ledger⟩
    simp only [List.map_cons, List.mem_cons, not_or] at hai
    rw [hw2.others a i (hai.imp_right And.right),
      hw1.others a i (hai.imp_right fun h => by simpa using h.1)]

/-- `RecordBalances` of Tokens that are kept and whose totals fit. -/
theorem recordBalances_alone (hkept : ∀ tok ∈ toks, Kept w tok) (hfits : ∀ tok ∈ toks, Fits w tok) :
    Returns (World.ExecBy rule) (recordBalances (fuel + 1) toks)
      (fun _ w' => Published w toks w') w := by
  refine Yields.seq (observe_alone hkept) fun p w1 hp => ?_
  obtain ⟨streams, bs⟩ := p
  obtain ⟨rfl, hfst, hseq, hbs⟩ := hp
  obtain rfl : bs = w1.ledger.balances (distinct toks) := hbs
  have hfst : streams.map Prod.fst = distinct toks := hfst
  have hmem : ∀ q ∈ streams, q.1 ∈ distinct toks := fun q hq => hfst ▸ List.mem_map_of_mem hq
  refine (recordEach_alone (hfst ▸ distinct_nodup toks) (fun q hq => ?_) fun q hq => ?_).mono ?_
  · exact ⟨(hkept _ (mem_distinct.mp (hmem q hq))).named, hseq q hq⟩
  · exact postedNet_of_fits (hkept _ (mem_distinct.mp (hmem q hq)))
      (hfits _ (mem_distinct.mp (hmem q hq))) (hmem q hq)
  · intro _ w' hw'
    refine ⟨fun a i hai => hw'.others a i ?_, hw'.ledger⟩
    rw [hfst]
    exact hai.imp_right (mt mem_distinct.mp)

end Token

end MoneyFlow
