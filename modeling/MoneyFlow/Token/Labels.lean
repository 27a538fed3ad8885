import MoneyFlow.Token.Recording

/-!
# MoneyFlow.Token.Labels

A recorded balance says whose it is and in what currency.

The Wallet is read off the Token's stream, where `loadTokenStream` refuses one
that names none, and the currency off the ledger, which opens accounts in
currencies it knows only (`Denominated`).
-/

namespace MoneyFlow

open Concurrent Service

variable {l : Ledger}

namespace Ledger

/-- Every account is in some currency. -/
def Denominated (m : Id → Option StoredAccount) : Prop := ∀ id a, m id = some a → a.currency ≠ ""

theorem Denominated.update {m : Id → Option StoredAccount} (h : Denominated m) {id : Id}
    {a : StoredAccount} (ha : a.currency ≠ "") : Denominated (Function.update m id (some a)) := by
  intro j b hb
  by_cases hj : j = id
  · subst hj
    obtain rfl : a = b := by simpa using hb
    exact ha
  · exact h j b (by simpa [Function.update_of_ne hj] using hb)

theorem ledgerID_empty : ledgerID "" = none := by decide

theorem judge_denominated (l : Ledger) {sh : Shadow} (t : LedgerTransfer)
    (h : Denominated sh.accounts) : Denominated (l.judge sh t).2.accounts := by
  have hmoved {debit credit : StoredAccount} :
      (moveTotals t debit credit).1.currency = debit.currency ∧
        (moveTotals t debit credit).2.currency = credit.currency := by
    unfold moveTotals
    cases t.kind <;> exact ⟨rfl, rfl⟩
  unfold judge
  split
  · exact h
  · split
    · exact h
    · split
      · rename_i debit credit hd hc
        split
        · exact h
        · dsimp only
          split
          · exact h
          · split
            · exact h
            · have hdebit : (moveTotals t debit credit).1.currency ≠ "" := by
                rw [hmoved.1]
                exact h _ _ hd
              have hcredit : (moveTotals t debit credit).2.currency ≠ "" := by
                rw [hmoved.2]
                exact h _ _ hc
              exact (h.update hdebit).update hcredit
      · exact h

theorem judgeRun_denominated (l : Ledger) : ∀ (run : List LedgerTransfer) {sh : Shadow},
    Denominated sh.accounts → Denominated (l.judgeRun sh run).2.accounts
  | [], _, h => h
  | t :: ts, _, h => judgeRun_denominated l ts (l.judge_denominated t h)

theorem createTransfers_denominated (ts : List LedgerTransfer) (h : Denominated l.accounts) :
    Denominated (l.createTransfers ts).2.accounts := by
  refine createTransfers_rule (P := fun l => Denominated l.accounts) h fun run _ l h => ?_
  simp only [createTransferRun]
  split
  · exact l.judgeRun_denominated run h
  · exact h

theorem createAccounts_denominated (as : List Account) (h : Denominated l.accounts) :
    Denominated (l.createAccounts as).2.accounts := by
  refine createAccounts_rule (P := fun l => Denominated l.accounts) h
    fun l run _ hknown h x b hx => ?_
  rcases l.storeAccounts_accounts run x with ⟨heq, -⟩ | ⟨hnone, a, ha, rfl, heq⟩
  · exact h x b (heq.symm.trans hx)
  · obtain rfl := Option.some.inj (heq.symm.trans hx)
    intro hempty
    have hsome := hknown a ha hnone
    rw [show a.currency = "" from hempty, ledgerID_empty] at hsome
    cases hsome

/-- What is read off such a ledger is in some currency. -/
theorem balances_denominated (h : Denominated l.accounts) {ids : List Id} {id : Id} {b : Balance}
    (hb : l.balances ids id = some b) : b.currency ≠ "" := by
  unfold balances at hb
  split at hb
  · obtain ⟨a, ha, rfl⟩ := Option.map_eq_some_iff.mp hb
    exact h id a ha
  · cases hb

end Ledger

namespace Token

variable {R : Prop} {w w' : World}

/-- A balance says whose it is and in what currency. -/
def Labelled : TokenEvent → Prop
  | .tokenBalanceRecorded _ walletID currency _ _ _ => walletID ≠ Id.empty ∧ currency ≠ ""
  | .tokenMinted _ _ _ => True

/-- The same of all events of a write. -/
def LabelledWrite : StreamWrite → Prop
  | ⟨.token, _, _, events⟩ => ∀ e ∈ events, Labelled e
  | _ => True

/-- What is recorded is labelled. -/
def labels : Contract World Op where
  assume _ w := Ledger.Denominated w.ledger.accounts
  ensure
    | .appendAtomic ws, _ => ∀ x ∈ ws, LabelledWrite x
    | _, _ => True

theorem labels_free (o : Op) (ho : o.isFree = true) : Permits labels o := by
  intro w _
  cases o with
  | appendAtomic => exact absurd ho Bool.false_ne_true
  | _ => trivial

theorem labelled_of_within {x : StreamWrite} (h : x.Within elsewhere) : LabelledWrite x := by
  obtain ⟨a, id, seq, events⟩ := x
  cases a with
  | token =>
    intro e he
    have hb := (show ∀ e : TokenEvent, e ∈ events → e.isBalance = false from h) e he
    cases e with
    | tokenMinted => trivial
    | tokenBalanceRecorded => cases hb
  | _ => trivial

/-! ### What is observed -/

/-- The balances are in some currency. -/
def InCurrencies (bs : Id → Option Ledger.Balance) : Prop :=
  ∀ id b, bs id = some b → b.currency ≠ ""

/-- A balance is labelled with the Token's Wallet and the ledger's currency. -/
theorem labelled_of_records {w : World} {x : StreamWrite} (h : Records
    (fun _ bs _ stream => stream.walletID ≠ Id.empty ∧ InCurrencies bs) w x) :
    LabelledWrite x := by
  obtain ⟨bs, tok, stream, e, ⟨hwid, hbs⟩, he, rfl⟩ := h
  intro e' he'
  obtain rfl := List.mem_singleton.mp he'
  unfold balanceRecorded at he
  split at he
  · cases he
  · rename_i b hb
    split at he
    · cases he
    · cases he
      exact ⟨hwid, hbs tok b hb⟩

theorem tokenStreamOf_wallet {tok : Id} {rows : List (Row TokenEvent)} {stream : TokenStream}
    (h : tokenStreamOf tok rows = .ok stream) : stream.walletID ≠ Id.empty := by
  cases rows with
  | nil => cases h
  | cons row rows =>
    simp only [tokenStreamOf] at h
    split at h
    · cases h
    · rename_i hne
      cases h
      exact hne

theorem labels_observing : Observing labels (fun _ _ stream => stream.walletID ≠ Id.empty)
    (fun _ bs _ stream => stream.walletID ≠ Id.empty ∧ InCurrencies bs) where
  reads o ho := labels_free o (Op.isFree_of_isRead ho)
  read h := tokenStreamOf_wallet h
  readLater h _ := h
  seen hdenominated _ h := ⟨h, fun _ _ hb => Ledger.balances_denominated hdenominated hb⟩
  seenLater h _ := h
  record h _ _ _ _ hx := List.mem_singleton.mp hx ▸ labelled_of_records h

theorem labels_lenient : Lenient labels elsewhere :=
  labels_observing.lenient labels_free fun hws _ _ _ x hx =>
    (hws x hx).elim labelled_of_within labelled_of_records

/-- Every driver labels what it records. -/
theorem driver_labels (d : Driver) (fuel : Nat) (w : World) :
    Safe labels (fun _ _ => True) (d.service fuel).run w :=
  have hledger (ts : List LedgerTransfer) : Permits labels (.createTransfers ts) := fun _ _ => trivial
  labels_lenient.driver hledger d fun _ hd =>
    (labels_lenient.regular hledger).onTransaction hd fun _ _ _ _ _ hx =>
      List.mem_singleton.mp hx ▸ trivial

/-! ### In every state -/

/-- Every balance on record is labelled. -/
def LabelsOk (w : World) : Prop :=
  Ledger.Denominated w.ledger.accounts ∧ ∀ tok, ∀ e ∈ eventsOf (w.token tok), Labelled e

theorem denominated_step {o : Op} {r : Resp o} (h : Ledger.Denominated w.ledger.accounts)
    (hx : w.Exec o r w') : Ledger.Denominated w'.ledger.accounts := by
  cases o with
  | createAccounts as =>
    cases hx
    exact Ledger.createAccounts_denominated as h
  | createTransfers ts =>
    cases hx
    exact Ledger.createTransfers_denominated ts h
  | appendAtomic ws =>
    have hx' : (r, w') = w.append ws := hx
    unfold World.append at hx'
    split at hx'
    · obtain ⟨-, rfl⟩ := Prod.mk.inj hx'
      exact h
    · obtain ⟨-, rfl⟩ := Prod.mk.inj hx'
      exact h
  | wait ms =>
    obtain ⟨d, -, rfl⟩ := hx
    exact h
  | rangeMap keys =>
    obtain ⟨-, rfl⟩ := hx
    exact h
  | _ =>
    obtain ⟨-, rfl⟩ := Prod.mk.inj hx
    exact h

theorem labels_step {o : Op} {r : Resp o} (h : LabelsOk w) (hlegal : Legal R o w)
    (hlabels : labels.ensure o w) (hx : w.Exec o r w') : LabelsOk w' := by
  refine ⟨denominated_step h.1 hx, fun tok e hm => ?_⟩
  rcases exec_stream hlegal hx .token tok with hsame | ⟨ws, events, happ⟩
  · rw [show w'.token tok = w.token tok from hsame] at hm
    exact h.2 tok e hm
  · rw [show eventsOf (w'.token tok) = _ from happ.events] at hm
    rcases List.mem_append.mp hm with hm | hm
    · exact h.2 tok e hm
    · obtain rfl := happ.op
      exact hlabels _ happ.mem e hm

theorem labels_upheld :
    Upholds True (fun _ => True) (fun _ _ _ => True) (fun _ => labels) LabelsOk where
  init := ⟨nofun, fun _ _ h => absurd h List.not_mem_nil⟩
  safe d fuel w _ := driver_labels d fuel w
  assume _ _ _ _ _ h := h.1
  step _ _ _ _ _ _ _ h _ hlegal hd hx := labels_step h hlegal hd hx

end Token

end MoneyFlow
