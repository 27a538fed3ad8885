import MoneyFlow.Concurrent.Alone
import MoneyFlow.Greedy
import MoneyFlow.Transfer.Routes

/-!
# MoneyFlow.Transfer.Selection

`selectSourceTokens` is exact: it covers an amount whenever the Tokens visible to
the caller have it posted, oldest first, and otherwise says by how much they fall
short (`selection_is_exact`).

The loop is `Greedy.take` on what the Tokens hold (`takeTokens_eq`); here is what
its words mean, that the Tokens are distinct because a Token is minted once, and
which of them a caller sees.
-/

namespace MoneyFlow.Transfer

open Concurrent Service

variable {n : Nat}

/-! ### What the Tokens hold -/

/-- What `takeTokens` counts of a balance. -/
def holding (b : Ledger.Balance) : Nat := b.creditsPosted.toNat - b.debitsPosted.toNat

/-- The Tokens, each with what is posted to it if that is positive. -/
def holdings (bs : Id → Option Ledger.Balance) (toks : List Id) : List (Id × Nat) :=
  toks.map fun tok => (tok, ((bs tok).map holding).getD 0)

/-- Both posted totals fit an int64. -/
def Fitting64 (b : Ledger.Balance) : Prop :=
  b.creditsPosted.toNat ≤ Ledger.maxInt64 ∧ b.debitsPosted.toNat ≤ Ledger.maxInt64

theorem postedNet_of_fitting {b : Ledger.Balance} (h : Fitting64 b) :
    b.postedNet = .ok ((b.creditsPosted.toNat : Int) - b.debitsPosted.toNat) := by
  have hnot : ¬ (Ledger.maxInt64 < b.creditsPosted.toNat ∨
      Ledger.maxInt64 < b.debitsPosted.toNat) := by
    rw [not_or, Nat.not_lt, Nat.not_lt]
    exact h
  rw [Ledger.Balance.postedNet, if_neg hnot]

/-- A leg that debits so much of a Token. -/
def legOf (currency : String) (taken : Id × Nat) : Leg :=
  { sourceTokenID := taken.1, amount := ⟨UInt64.ofNat taken.2, currency⟩ }

theorem toNat_word (h : n < 2 ^ 64) : (UInt64.ofNat n).toNat = n :=
  UInt64.toNat_ofNat_of_lt' h

/-- The smaller of two amounts, as words. -/
theorem word_min {remaining : UInt64} (hn : n < 2 ^ 64) :
    (if remaining < UInt64.ofNat n then remaining else UInt64.ofNat n) =
      UInt64.ofNat (min remaining.toNat n) := by
  have hword : (UInt64.ofNat n).toNat = n := toNat_word hn
  split
  · rename_i hlt
    rw [UInt64.lt_iff_toNat_lt, hword] at hlt
    rw [Nat.min_eq_left hlt.le, UInt64.ofNat_toNat]
  · rename_i hle
    rw [UInt64.lt_iff_toNat_lt, hword] at hle
    rw [Nat.min_eq_right (Nat.not_lt.mp hle)]

/-- Taking away a part of it, as words. -/
theorem word_sub {remaining : UInt64} (hn : n ≤ remaining.toNat) :
    remaining - UInt64.ofNat n = UInt64.ofNat (remaining.toNat - n) := by
  have hlt := remaining.toNat_lt
  have hword : (UInt64.ofNat n).toNat = n := toNat_word (by omega)
  apply UInt64.toNat_inj.mp
  rw [UInt64.toNat_sub_of_le _ _ (UInt64.le_iff_toNat_le.mpr (hword.le.trans hn)), hword,
    toNat_word (by omega)]

/-- The loop of `selectSourceTokens` takes greedily. -/
theorem takeTokens_eq {currency : String} {bs : Id → Option Ledger.Balance} {toks : List Id}
    (h : ∀ tok ∈ toks, ∀ b, bs tok = some b → Fitting64 b) (remaining : UInt64) :
    takeTokens currency bs toks remaining =
      .ok ((Greedy.take (holdings bs toks) remaining.toNat).map (legOf currency),
        UInt64.ofNat (remaining.toNat - Greedy.total (holdings bs toks))) := by
  induction toks generalizing remaining with
  | nil => simp [takeTokens, holdings, Greedy.take]
  | cons tok rest ih =>
    have ih := ih fun t ht => h t (List.mem_cons_of_mem _ ht)
    have hcons : holdings bs (tok :: rest) =
      (tok, ((bs tok).map holding).getD 0) :: holdings bs rest := rfl
    rw [takeTokens, hcons]
    by_cases hzero : remaining = 0
    · simp [hzero, Greedy.take_zero]
    · have hpos : remaining.toNat ≠ 0 := fun h0 => hzero (UInt64.toNat_inj.mp h0)
      rw [if_neg hzero]
      cases hb : bs tok with
      | none => simp [Greedy.take, hpos, ih]
      | some b =>
        obtain ⟨hcredits, hdebits⟩ := h tok List.mem_cons_self b hb
        simp only [postedNet_of_fitting ⟨hcredits, hdebits⟩, Option.map_some, Option.getD_some]
        by_cases hnone : holding b = 0
        · have hle : ((b.creditsPosted.toNat : Int) - b.debitsPosted.toNat) ≤ 0 := by
            unfold holding at hnone
            omega
          simp [hle, hnone, Greedy.take, hpos, ih]
        · have hgt : ¬ ((b.creditsPosted.toNat : Int) - b.debitsPosted.toNat) ≤ 0 := by
            unfold holding at hnone
            omega
          have hnat : ((b.creditsPosted.toNat : Int) - b.debitsPosted.toNat).toNat = holding b := by
            unfold holding
            omega
          have hlt : holding b < 2 ^ 64 := by
            have := b.creditsPosted.toNat_lt
            unfold holding
            omega
          have hword : (UInt64.ofNat (remaining.toNat - min remaining.toNat (holding b))).toNat =
              remaining.toNat - min remaining.toNat (holding b) := by
            have := remaining.toNat_lt
            exact toNat_word (by omega)
          simp only [if_neg hgt, hnat, word_min hlt, word_sub (Nat.min_le_left _ _), ih, hword,
            Greedy.take, if_neg hpos, if_neg hnone, List.map_cons, Greedy.total_cons, legOf]
          congr 3
          omega

/-! ### What is answered -/

/-- Every operation is answered by `answer`: what the store holds, what the ledger
says the balances are. -/
def answering (answer : (o : Op) → Resp o) (_ : Unit) (o : Op) (r : Resp o) (_ : Unit) : Prop :=
  r = answer o

section

variable {answer : (o : Op) → Resp o}

theorem answering_request {α : Type} {o : Op} {f : Resp o → Service α}
    {Q : Except Err α → Unit → Prop}
    (h : Yields (answering answer) (f (answer o)) Q ()) :
    Yields (answering answer) (request o >>= f) Q () := by
  refine Yields.request ⟨answer o, (), rfl⟩ ?_
  rintro r ⟨⟩ rfl
  exact h

/-- What `IsOpen` answers of a Transaction. -/
def opens (answer : (o : Op) → Resp o) (transactionID : Id) : Bool :=
  match Transaction.topLevelState (eventsOf (answer (.load .transaction transactionID))) with
  | .completed | .rolledBack | .rejected => false
  | _ => true

theorem isOpen_answers (transactionID : Id) :
    Returns (answering answer) (Transaction.isOpen transactionID)
      (fun b _ => b = opens answer transactionID) () := by
  refine answering_request ?_
  unfold opens
  cases Transaction.topLevelState (eventsOf (answer (.load .transaction transactionID))) <;>
    exact Returns.pure rfl

/-- The Tokens of a Wallet that a caller sees: untagged, its own, or tagged with a
Transaction that has closed. -/
def visibleTokens (callingTransactionID : Id) (isOpen : Id → Bool) (minted : List (Id × Id)) :
    List Id :=
  (minted.filter fun p =>
    p.2 = Id.empty ∨ p.2 = callingTransactionID ∨ isOpen p.2 = false).map Prod.fst

theorem visibleTo_answers (calling : Id) (minted : List (Id × Id)) :
    Returns (answering answer) (Wallet.visibleTo calling Transaction.isOpen minted)
      (fun toks _ => toks = visibleTokens calling (opens answer) minted) () := by
  induction minted with
  | nil => exact Returns.pure rfl
  | cons p rest ih =>
    obtain ⟨tok, tag⟩ := p
    rw [Wallet.visibleTo]
    split
    · rename_i hown
      refine Yields.seq ih fun toks _ htoks => Returns.pure ?_
      have hsees : tag = Id.empty ∨ tag = calling ∨ opens answer tag = false := by tauto
      simp [visibleTokens, hsees, htoks]
    · rename_i hown
      refine Yields.seq (isOpen_answers tag) fun b _ hb => ?_
      refine Yields.seq ih fun toks _ htoks => Returns.pure ?_
      rw [not_or] at hown
      cases hopen : opens answer tag <;>
        simp [visibleTokens, hown.1, hown.2, hb, hopen, htoks]

/-- The Tokens of Wallet `walletID` the answers let the caller see. -/
def seen (answer : (o : Op) → Resp o) (walletID callingTransactionID : Id) : List Id :=
  visibleTokens callingTransactionID (opens answer)
    (Wallet.mintedTokens (answer (.load .wallet walletID)))

/-- What the loop finds decides the answer of `selectSourceTokens`. -/
theorem selectSourceTokens_answers {walletID calling : Id} {amount : Money}
    {Q : Except Err (Except Text (List Leg)) → Unit → Prop}
    (h : match takeTokens amount.currency (answer (.balances (seen answer walletID calling)))
        (seen answer walletID calling) amount.minorUnits with
      | .error e => Q (.error e) ()
      | .ok (legs, short) =>
        if 0 < short then
          Q (.ok (.error [.lit "wallet ", .id walletID, .lit " has insufficient Token capacity: ",
            .num short.toNat, .lit " ", .lit amount.currency, .lit " short"])) ()
        else Q (.ok (.ok legs)) ()) :
    Yields (answering answer) (selectSourceTokens walletID amount calling) Q () := by
  have hseen : Returns (answering answer)
      (Wallet.tokensOfVisibleTo walletID calling Transaction.isOpen)
      (fun toks _ => toks = seen answer walletID calling) () :=
    answering_request (visibleTo_answers calling _)
  refine Yields.seq hseen fun toks _ htoks => ?_
  subst htoks
  refine answering_request ?_
  cases htake : takeTokens amount.currency (answer (.balances (seen answer walletID calling)))
      (seen answer walletID calling) amount.minorUnits with
  | error e =>
    rw [htake] at h
    exact h
  | ok found =>
    obtain ⟨legs, short⟩ := found
    rw [htake] at h
    dsimp only at h
    change Yields _ (if 0 < short then _ else _) Q ()
    split at h
    · rename_i hshort
      rw [if_pos hshort]
      exact h
    · rename_i hshort
      rw [if_neg hshort]
      exact h

end

/-! ### Selection is exact -/

/-- The legs that take `amount` from the Tokens seen, oldest first. -/
structure Selects (seen : List (Id × Nat)) (amount : Money) (legs : List Leg) : Prop where
  distinct : (legs.map fun leg => leg.sourceTokenID).Nodup
  /-- In the order the Tokens were minted. -/
  in_order : (legs.map fun leg => leg.sourceTokenID).Sublist (seen.map Prod.fst)
  bounded : ∀ leg ∈ legs, 0 < leg.amount.minorUnits.toNat ∧
    ∃ b, (leg.sourceTokenID, b) ∈ seen ∧ leg.amount.minorUnits.toNat ≤ b
  /-- Every Token with something posted before the last one is taken in full. -/
  full : ∀ first last, legs = first ++ [last] → ∃ before b after,
    seen = before ++ (last.sourceTokenID, b) :: after ∧
      first.map (fun leg => (leg.sourceTokenID, leg.amount.minorUnits.toNat)) =
        before.filter fun x => 0 < x.2
  total : (legs.map fun leg => leg.amount.minorUnits.toNat).sum = amount.minorUnits.toNat

/-- What is taken from a list of holdings is no more than a word each, so the legs
say what was taken. -/
theorem legOf_toNat (currency : String) {seen : List (Id × Nat)} {amount : UInt64}
    {taken : Id × Nat} (h : taken ∈ Greedy.take seen amount.toNat) :
    (legOf currency taken).amount.minorUnits.toNat = taken.2 := by
  have hsum := Greedy.sum_take seen amount.toNat
  have hle : taken.2 ≤ Greedy.total (Greedy.take seen amount.toNat) :=
    List.single_le_sum (fun _ _ => Nat.zero_le _) _ (List.mem_map.mpr ⟨taken, h, rfl⟩)
  have := amount.toNat_lt
  exact toNat_word (by omega)

theorem selects_take {seen : List (Id × Nat)} {amount : Money} (hnd : (seen.map Prod.fst).Nodup)
    (hcovers : amount.minorUnits.toNat ≤ Greedy.total seen) :
    Selects seen amount
      ((Greedy.take seen amount.minorUnits.toNat).map (legOf amount.currency)) := by
  have hids (xs : List (Id × Nat)) :
      (xs.map (legOf amount.currency)).map (fun leg => leg.sourceTokenID) = xs.map Prod.fst := by
    rw [List.map_map]
    rfl
  have hsub := Greedy.take_sublist seen amount.minorUnits.toNat
  refine ⟨?_, ?_, ?_, ?_, ?_⟩
  · rw [hids]
    exact hsub.nodup hnd
  · rw [hids]
    exact hsub
  · intro leg hleg
    obtain ⟨t, ht, rfl⟩ := List.mem_map.mp hleg
    rw [legOf_toNat _ ht]
    exact Greedy.mem_take ht
  · intro first last heq
    obtain ⟨first', rest, htake, rfl, hrest⟩ := List.map_eq_append_iff.mp heq
    obtain ⟨t, rfl, rfl⟩ : ∃ t, rest = [t] ∧ legOf amount.currency t = last := by
      cases rest with
      | nil => simp at hrest
      | cons t ts =>
        obtain ⟨rfl, hts⟩ := List.cons.inj hrest
        exact ⟨t, by rw [List.map_eq_nil_iff.mp hts], rfl⟩
    obtain ⟨before, b, after, hseen, -, hfirst⟩ := Greedy.take_eq htake
    refine ⟨before, b, after, hseen, ?_⟩
    rw [← hfirst, List.map_map]
    refine (List.map_congr_left fun x hx => ?_).trans (List.map_id first')
    have hx' : x ∈ Greedy.take seen amount.minorUnits.toNat := by
      rw [htake]
      exact List.mem_append_left _ hx
    exact Prod.ext rfl (legOf_toNat amount.currency hx')
  · rw [List.map_map]
    have hsum := Greedy.sum_take seen amount.minorUnits.toNat
    rw [Nat.min_eq_left hcovers] at hsum
    refine Eq.trans ?_ hsum
    exact congrArg List.sum (List.map_congr_left fun t ht => legOf_toNat amount.currency ht)

theorem log_upheld : Upholds True (fun _ => True) (fun _ _ _ => True)
    (fun _ => plans True) LogOk where
  init := logOk_init
  tick _ _ ht h := h.tick ht
  safe d fuel w _ := d.plans fuel w
  assume _ _ _ _ hinv _ := hinv
  step _ _ _ _ _ hinv _ h _ hlegal hd hx := log_step hinv h hlegal hd hx

/-- A Wallet's stream names no Token twice. -/
theorem minted_nodup {c : System} (h : Pool.Reachable anyRun .init c) (wid : Id) :
    ((Wallet.mintedTokens (c.state.wallet wid)).map Prod.fst).Nodup :=
  (reachable_upheld refusals_true log_upheld h).1.2.nodup wid

/-- One Wallet lists the Token, and once; the Token's stream and the ledger agree. -/
def HeldOnce (w : World) (wid tok : Id) : Prop :=
  (w.tokensOf wid).count tok = 1 ∧ (∀ wid', tok ∈ w.tokensOf wid' → wid = wid') ∧
    w.MintedInto tok wid ∧ (w.ledger.accounts tok).isSome = true

/-- **Wallets, Tokens and the ledger agree on every mint.** -/
theorem held_once {c : System} (h : Pool.Reachable anyRun .init c) {wid tok : Id}
    (ht : tok ∈ c.state.tokensOf wid) : HeldOnce c.state wid tok := by
  obtain ⟨hinv, hlog⟩ := (reachable_upheld refusals_true log_upheld h).1
  obtain ⟨i, capacity, tag, hm⟩ := mem_tokensOf.mp ht
  obtain ⟨capacity', hopened⟩ := (hinv.wallet wid).minted _ _ _ _ hm
  exact ⟨List.count_eq_one_of_mem (hlog.nodup wid) ht,
    fun wid' => (mem_tokensOf_iff hinv ⟨wid, i, capacity, hm⟩ ⟨capacity', hopened⟩).mp,
    ⟨capacity', hopened⟩, ((hinv.token tok).opened _ hopened).2⟩

theorem held_once_deposit :
    HeldOnce (played (inTurn 0 deposit)).state (.uuid 1) (.destinationToken (.uuid 3)) :=
  held_once (played_reachable _) (by decide +kernel)

/-- **FIFO selection is exact.** Over any stream a Wallet can have, whatever
`IsOpen` and the ledger answer, `selectSourceTokens` answers with legs exactly when
the Tokens the caller sees have the amount posted, and they are the right ones;
otherwise it answers with the shortfall. -/
theorem selection_is_exact {c : System} (h : Pool.Reachable anyRun .init c)
    (walletID callingTransactionID : Id) (answer : (o : Op) → Resp o)
    (hrows : answer (.load .wallet walletID) = c.state.wallet walletID)
    (hfits : ∀ tok ∈ seen answer walletID callingTransactionID, ∀ b,
      answer (.balances (seen answer walletID callingTransactionID)) tok = some b → Fitting64 b)
    (amount : Money) :
    let held := holdings (answer (.balances (seen answer walletID callingTransactionID)))
      (seen answer walletID callingTransactionID)
    Returns (answering answer) (selectSourceTokens walletID amount callingTransactionID)
      (fun r _ =>
        ((∃ legs, r = .ok legs) ↔ amount.minorUnits.toNat ≤ Greedy.total held) ∧
        (∀ legs, r = .ok legs → Selects held amount legs) ∧
        (Greedy.total held < amount.minorUnits.toNat →
          r = .error [.lit "wallet ", .id walletID, .lit " has insufficient Token capacity: ",
            .num (amount.minorUnits.toNat - Greedy.total held), .lit " ", .lit amount.currency,
            .lit " short"])) () := by
  intro held
  have hlt := amount.minorUnits.toNat_lt
  have hnd : (held.map Prod.fst).Nodup := by
    have hids : held.map Prod.fst = seen answer walletID callingTransactionID := by
      simp only [held, holdings, List.map_map]
      exact List.map_id _
    rw [hids, seen, visibleTokens, hrows]
    exact ((List.filter_sublist).map Prod.fst).nodup (minted_nodup h walletID)
  refine selectSourceTokens_answers ?_
  rw [takeTokens_eq hfits]
  change if 0 < UInt64.ofNat (amount.minorUnits.toNat - Greedy.total held) then _ else _
  have hshort : 0 < UInt64.ofNat (amount.minorUnits.toNat - Greedy.total held) ↔
      Greedy.total held < amount.minorUnits.toNat := by
    rw [UInt64.lt_iff_toNat_lt, toNat_word (by omega)]
    exact Nat.sub_pos_iff_lt
  split
  · rename_i hlack
    rw [hshort] at hlack
    rw [toNat_word (by omega)]
    refine ⟨_, rfl, ?_, fun _ heq => (nomatch heq), fun _ => rfl⟩
    simp [Nat.not_le.mpr hlack]
  · rename_i hcovers
    rw [hshort, Nat.not_lt] at hcovers
    refine ⟨_, rfl, ?_, ?_, fun hlack => absurd hlack (Nat.not_lt.mpr hcovers)⟩
    · simp [hcovers]
    · rintro legs ⟨⟩
      exact selects_take hnd hcovers

/-- Answers as the state `w` gives them, with balances of one's own. -/
def answersOf (w : World) (bs : Id → Option Ledger.Balance) (o : Op) : Resp o :=
  match o with
  | .balances _ => bs
  | o => (w.perform o).1

/-- Two deposits, and so two Tokens in the payer's Wallet. -/
def twoDeposits : List Driver :=
  deposit ++ [.startInitializingTransaction (.uuid 12)
      (depositSpec (.uuid 13) (.uuid 0) (.uuid 1) ⟨100, "USD"⟩),
    .resumeTransaction (.uuid 12), .resumeTransfer (.uuid 13), .resumeTransaction (.uuid 12)]

/-- With 100 posted to each of them, 150 are taken from both. -/
theorem twoDeposits_selection :
    let w := (played (inTurn 0 twoDeposits)).state
    let answer := answersOf w fun _ => some ⟨"USD", 0, 100, 0, 0⟩
    let held := [(Id.destinationToken (.uuid 3), 100), (.destinationToken (.uuid 13), 100)]
    seen answer (.uuid 1) Id.empty = held.map Prod.fst ∧
      Returns (answering answer) (selectSourceTokens (.uuid 1) ⟨150, "USD"⟩ Id.empty)
        (fun r _ => (∃ legs, r = .ok legs) ∧ ∀ legs, r = .ok legs → Selects held ⟨150, "USD"⟩ legs)
        () := by
  intro w answer held
  have hseen : seen answer (.uuid 1) Id.empty = held.map Prod.fst := by decide +kernel
  refine ⟨hseen, ?_⟩
  have hfits : ∀ tok ∈ seen answer (.uuid 1) Id.empty, ∀ b,
      answer (.balances (seen answer (.uuid 1) Id.empty)) tok = some b → Fitting64 b := by
    intro _ _ b hb
    cases hb
    exact ⟨by decide, by decide⟩
  have hexact := selection_is_exact (played_reachable (inTurn 0 twoDeposits)) (.uuid 1) Id.empty
    answer rfl hfits ⟨150, "USD"⟩
  rw [hseen] at hexact
  exact Returns.mono hexact fun r _ hr => ⟨hr.1.mpr (by decide), hr.2.1⟩

/-- 2^63 credits and one debit posted. -/
def largeTotals : Ledger.Balance := ⟨"USD", 1, 9223372036854775808, 0, 0⟩

theorem largeTotals_refused : ∃ e, largeTotals.postedNet = .error e :=
  ⟨_, if_pos (Or.inl (by decide +kernel))⟩

/-- A Token with 2^63 credits and one debit posted has a net that fits an int64, and
still `PostedNet` refuses it: selection neither finds legs nor rejects. -/
theorem selection_refuses_large_totals :
    let w := (played (inTurn 0 deposit)).state
    let answer := answersOf w fun _ => some largeTotals
    Pool.Reachable anyRun .init (played (inTurn 0 deposit)) ∧
      answer (.load .wallet (.uuid 1)) = w.wallet (.uuid 1) ∧
      seen answer (.uuid 1) Id.empty = [.destinationToken (.uuid 3)] ∧
      largeTotals.creditsPosted.toNat - largeTotals.debitsPosted.toNat = Ledger.maxInt64 ∧
      Yields (answering answer) (selectSourceTokens (.uuid 1) ⟨60, "USD"⟩ Id.empty)
        (fun r _ => ∃ e, r = .error e) () := by
  intro w answer
  have hseen : seen answer (.uuid 1) Id.empty = [.destinationToken (.uuid 3)] := by decide +kernel
  refine ⟨played_reachable _, rfl, hseen, by decide +kernel, selectSourceTokens_answers ?_⟩
  rw [hseen]
  obtain ⟨e, he⟩ := largeTotals_refused
  have hbalance : answer (.balances [.destinationToken (.uuid 3)]) (.destinationToken (.uuid 3)) =
      some largeTotals := rfl
  simp [takeTokens, hbalance, he]

end MoneyFlow.Transfer
