import MoneyFlow.Concurrent.Obeys
import MoneyFlow.Holder
import MoneyFlow.Transfer.Server

/-!
# MoneyFlow.Footprint

What each function of the Wallet, Token and Transfer services can ever write.

A `Scope` says which writes to Transfer and Wallet streams are of no concern to
a contract, and the contract is `Lenient` when it lets pass every append that
stays in scope and leaves Transactions alone, and every other operation but
ledger transfers. Each lemma names the events a function may append by what it
needs of the scope; what the function is answered plays no part.

Balances are recorded by one rule, `Token.Observing`: whoever records one has read
the Token's stream, and the ledger after it, and the contract says what that is
worth.
-/

namespace MoneyFlow

open Concurrent Service

variable {walletID transactionID : Id} {bs : Id → Option Ledger.Balance}

/-- Everything but an append and a ledger transfer. -/
def Op.isFree : Op → Bool
  | .appendAtomic _ | .createTransfers _ => false
  | _ => true

/-- Reading a stream, balances, a map or the clock, and waiting. -/
def Op.isRead : Op → Bool
  | .load _ _ | .balances _ | .rangeMap _ | .now | .wait _ => true
  | _ => false

theorem Op.isFree_of_isRead {o : Op} (h : o.isRead = true) : o.isFree = true := by
  cases o <;> first | rfl | exact absurd h Bool.false_ne_true

/-- The contract lets everything be read. -/
abbrev Reads (C : Contract World Op) : Prop := ∀ o : Op, o.isRead = true → Permits C o

/-- Writes to Transfer and Wallet streams. -/
structure Scope where
  transfer : Id → List TransferEvent → Prop
  wallet : Id → List WalletEvent → Prop

/-- The event publishes a Token's balance. -/
def TokenEvent.isBalance : TokenEvent → Bool
  | .tokenBalanceRecorded _ _ _ _ _ _ => true
  | .tokenMinted _ _ _ => false

/-- The write publishes a Token's balance. -/
def StreamWrite.Publishes : StreamWrite → Prop
  | ⟨.token, _, _, events⟩ => ∃ e : TokenEvent, events = [e] ∧ e.isBalance = true
  | _ => False

/-- A write in scope, or one that mints a Token or concerns a Holder. -/
def StreamWrite.Within (S : Scope) : StreamWrite → Prop
  | ⟨.transfer, id, _, events⟩ => S.transfer id events
  | ⟨.wallet, id, _, events⟩ => S.wallet id events
  | ⟨.token, _, _, events⟩ => ∀ e : TokenEvent, e ∈ events → e.isBalance = false
  | ⟨.holder, _, _, _⟩ => True
  | ⟨.transaction, _, _, _⟩ => False

/-- Recording that `tokenID` was minted under `tag` is in scope. -/
def Scope.Mints (S : Scope) (tokenID tag : Id) : Prop :=
  ∀ walletID capacity, S.wallet walletID [.tokenMintedForWallet walletID tokenID capacity tag]

/-- The contract lets pass what has nothing to do with it. How balances are
published is left to the contract. -/
structure Lenient (C : Contract World Op) (S : Scope) : Prop where
  free : ∀ o : Op, o.isFree = true → Permits C o
  append : ∀ ws, (∀ x ∈ ws, x.Within S) → Permits C (.appendAtomic ws)
  balances : ∀ ids w, Ensures C (Token.balanceWrites ids)
    (fun ws w' => ∀ x : StreamWrite, x.Within S → PermitsFrom C (.appendAtomic (ws ++ [x])) w') w
  record : ∀ fuel ids w, Obeys C (Token.recordBalances fuel ids) w

/-- The contract lets balances pass too. -/
structure Open (C : Contract World Op) (S : Scope) : Prop where
  free : ∀ o : Op, o.isFree = true → Permits C o
  append : ∀ ws, (∀ x ∈ ws, x.Within S ∨ x.Publishes) → Permits C (.appendAtomic ws)

variable {C : Contract World Op} {S : Scope} {w : World} {id : Id}

/-- Reading a stream. -/
theorem load_obeys {β : Type} {Q : β → World → Prop} {a : Aggregate}
    (hload : Permits C (.load a id)) {f : List (Row a.Event) → Service β}
    (h : ∀ w1, w ≤ w1 → C.assume (.load a id) w1 → Ensures C (f (w1.store a id)) Q w1) :
    Ensures C (Service.load a id >>= f) Q w := by
  refine Ensures.request fun w1 hle ha => ⟨hload w1 ha, fun rows w2 hx => ?_⟩
  obtain ⟨rfl, rfl⟩ := Prod.mk.inj hx
  exact h w2 hle ha

namespace Lenient

theorem reads (hC : Lenient C S) : Reads C := fun o ho => hC.free o (Op.isFree_of_isRead ho)

variable {β : Type} {Q : β → World → Prop}

theorem transfer (hC : Lenient C S) {seq : Nat} {events : List TransferEvent}
    {f : Except Err Unit → Service β} (hS : S.transfer id events) (h : ∀ r, Ensures C (f r) Q w) :
    Ensures C (Service.append .transfer id seq events >>= f) Q w :=
  Obeys.request (hC.append _ fun _ hx => List.mem_singleton.mp hx ▸ hS) h

theorem load (hC : Lenient C S) {a : Aggregate} {f : List (Row a.Event) → Service β}
    (h : ∀ w1, w ≤ w1 → C.assume (.load a id) w1 → Ensures C (f (w1.store a id)) Q w1) :
    Ensures C (Service.load a id >>= f) Q w :=
  load_obeys (hC.free _ rfl) h

end Lenient

theorem check_obeys {α : Type} (r : Except Err α) (w : World) : Obeys C (check r) w := by
  cases r with
  | ok a => exact Obeys.pure
  | error e => exact Ensures.throw

theorem check_bind_obeys {α β : Type} {r : Except Err α} {f : α → Service β}
    {Q : β → World → Prop} (h : ∀ a, r = .ok a → Ensures C (f a) Q w) :
    Ensures C (check r >>= f) Q w := by
  cases r with
  | ok a => exact h a rfl
  | error e => exact Ensures.throw

/-! ### Wallets -/

namespace Wallet

theorem opened_obeys (hC : Reads C) (id : Id) (w : World) : Obeys C (opened id) w :=
  Obeys.request (hC _ rfl) fun _ => check_obeys _ w

theorem openWallet_obeys (hC : Lenient C S) {req : OpenRequest}
    (hS : S.wallet req.id [.walletOpened req.id req.holderID req.name req.allows]) (w : World) :
    Obeys C (openWallet req) w := by
  refine check_bind_obeys fun _ _ => ?_
  refine Obeys.bind_option (opened_obeys hC.reads req.id w) ?_ fun _ => Obeys.pure
  refine Obeys.request (hC.append _ fun x hx => ?_) fun r => ?_
  · exact List.mem_singleton.mp hx ▸ hS
  · split
    · exact Obeys.pure
    · exact Obeys.bind_option (opened_obeys hC.reads req.id w) Ensures.throw fun _ => Obeys.pure
    · exact Ensures.throw

/-- What is visible was minted, in this order. -/
theorem visibleTo_returns {calling : Id} {isOpen : Id → Service Bool}
    (h : ∀ tag w, Obeys C (isOpen tag) w) : ∀ (minted : List (Id × Id)) (w : World),
    Ensures C (visibleTo calling isOpen minted)
      (fun toks _ => toks.Sublist (minted.map Prod.fst)) w
  | [], _ => Ensures.pure fun _ _ => List.Sublist.refl _
  | (tokenID, tag) :: rest, w => by
    unfold visibleTo
    split
    · refine (visibleTo_returns h rest w).seq fun toks _ _ hsub => Ensures.pure fun _ _ => ?_
      exact hsub.cons_cons _
    · refine (h tag w).seq fun isTagOpen w1 _ _ => ?_
      refine (visibleTo_returns h rest w1).seq fun toks _ _ hsub => Ensures.pure fun _ _ => ?_
      split
      · exact hsub.cons _
      · exact hsub.cons_cons _

theorem tokensOfVisibleTo_obeys (hC : Reads C) {calling : Id} {isOpen : Id → Service Bool}
    (h : ∀ tag w, Obeys C (isOpen tag) w) (w : World) :
    Obeys C (tokensOfVisibleTo walletID calling isOpen) w :=
  Obeys.request (hC _ rfl) fun _ => Obeys.of_ensures (visibleTo_returns h _ w)

end Wallet

/-! ### Holders -/

namespace Holder

theorem established_obeys (hC : Reads C) (id : Id) (w : World) : Obeys C (established id) w := by
  refine Obeys.request (hC _ rfl) fun rows => ?_
  cases rows with
  | nil => exact Obeys.pure
  | cons first rows => exact check_bind_obeys fun _ _ => Obeys.pure

variable (hC : Lenient C S)
include hC

theorem establish_obeys {req : EstablishRequest} (w : World) : Obeys C (establish req) w := by
  refine check_bind_obeys fun _ _ => Obeys.bind (established_obeys hC.reads req.id w)
    fun existing => ?_
  cases existing with
  | some existing => exact Obeys.pure
  | none =>
    refine Obeys.request (hC.append _ fun x hx => ?_) fun r => ?_
    · exact List.mem_singleton.mp hx ▸ trivial
    · split
      · exact Obeys.pure
      · exact Obeys.bind_option (established_obeys hC.reads req.id w) Ensures.throw fun _ =>
          Obeys.pure
      · exact Ensures.throw

variable (hS : ∀ id holderID name allows, S.wallet id [.walletOpened id holderID name allows])
include hS

theorem walletDelta_obeys {recorded : List Id} (w : World) : ∀ specs : List WalletSpec,
    Ensures C (walletDelta id recorded specs)
      (fun r _ => ∀ delta, r = .ok delta → ∀ x ∈ delta.1, x.Within S) w
  | [] => by
    refine Ensures.pure fun _ _ delta heq => ?_
    rw [← Except.ok.inj heq]
    exact fun x hx => absurd hx List.not_mem_nil
  | spec :: specs => by
    refine Ensures.seq (Wallet.opened_obeys hC.reads spec.walletID w) fun opened w1 _ _ => ?_
    dsimp only
    split
    · exact Ensures.pure fun _ _ _ heq => by simp at heq
    · refine Ensures.seq (walletDelta_obeys w1 specs) fun r w2 _ hrest => ?_
      cases r with
      | error rejection => exact Ensures.pure fun _ _ _ heq => by simp at heq
      | ok rest =>
        refine Ensures.pure fun _ _ delta heq x hx => ?_
        rw [← Except.ok.inj heq] at hx
        rcases List.mem_append.mp hx with hx | hx
        · cases opened with
          | none => exact List.mem_singleton.mp hx ▸ hS spec.walletID id spec.name spec.allows
          | some o => cases hx
        · exact hrest _ rfl x hx

omit hC hS in
theorem holderWrites_within {seq : Nat} {events : List HolderEvent} :
    ∀ x ∈ holderWrites id seq events, x.Within S := by
  intro x hx
  unfold holderWrites at hx
  split at hx
  · cases hx
  · exact List.mem_singleton.mp hx ▸ trivial

theorem walletWrites_obeys {rows : List (Row HolderEvent)} {specs : List WalletSpec} (w : World) :
    Ensures C (walletWrites id rows specs)
      (fun r _ => ∀ ws, r = .ok ws → ∀ x ∈ ws, x.Within S) w := by
  refine Ensures.seq (walletDelta_obeys hC hS w specs) fun r w1 _ hdelta => ?_
  cases r with
  | error rejection => exact Ensures.pure fun _ _ _ heq => by simp at heq
  | ok delta =>
    refine Ensures.pure fun _ _ ws heq x hx => ?_
    rw [← Except.ok.inj heq] at hx
    rcases List.mem_append.mp hx with hx | hx
    · exact hdelta _ rfl x hx
    · exact holderWrites_within x hx

omit hS in
theorem appendConverging_obeys {ws : List StreamWrite} (h : ∀ x ∈ ws, x.Within S) (w : World) :
    Obeys C (appendConverging ws) w := by
  refine Obeys.request (hC.append ws h) fun r => ?_
  split
  · exact Obeys.pure
  · exact Obeys.pure
  · exact Ensures.throw

theorem addWallet_obeys {req : AddWalletRequest} (w : World) : Obeys C (addWallet req) w := by
  refine check_bind_obeys fun _ _ => check_bind_obeys fun _ _ => ?_
  refine Obeys.request (hC.free _ rfl) fun rows => ?_
  split
  · exact Ensures.throw
  · refine Ensures.seq (walletWrites_obeys hC hS w) fun r w1 _ hws => ?_
    cases r with
    | error rejection => exact Obeys.pure
    | ok ws =>
      dsimp only
      split
      · exact Obeys.pure
      · exact Obeys.bind (appendConverging_obeys hC (hws ws rfl) w1) fun _ => Obeys.pure

theorem provision_obeys {req : ProvisionRequest} (w : World) : Obeys C (provision req) w := by
  refine check_bind_obeys fun _ _ => ?_
  split
  · exact Ensures.throw
  · refine check_bind_obeys fun _ _ => Obeys.request (hC.free _ rfl) fun rows => ?_
    refine check_bind_obeys fun origin _ => ?_
    refine Ensures.seq (walletWrites_obeys hC hS w) fun r w1 _ hws => ?_
    cases r with
    | error rejection => exact Obeys.pure
    | ok ws =>
      have hwithin : ∀ x ∈ ws.filter (fun x => x.aggregateType ≠ .holder) ++
          holderWrites req.id rows.length (origin ++ ws.flatMap holderEvents), x.Within S := by
        intro x hx
        rcases List.mem_append.mp hx with hx | hx
        · exact hws ws rfl x (List.mem_filter.mp hx).1
        · exact holderWrites_within x hx
      dsimp only
      split
      · exact Obeys.pure
      · exact Obeys.bind (appendConverging_obeys hC hwithin w1) fun _ => Obeys.pure

end Holder

/-! ### Tokens -/

namespace Token

theorem mintStreamWrites_within {seq : Nat} {spec : MintSpec}
    (hS : S.Mints spec.tokenID transactionID) :
    ∀ x ∈ mintStreamWrites walletID seq [spec] transactionID, x.Within S := by
  intro x hx
  rcases List.mem_append.mp hx with hx | hx
  · obtain rfl := List.mem_singleton.mp hx
    exact fun e he => List.mem_singleton.mp he ▸ rfl
  · exact List.mem_singleton.mp hx ▸ hS walletID spec.capacity

theorem minted_obeys (hC : Reads C) (id : Id) (w : World) : Obeys C (minted id) w :=
  Obeys.request (hC _ rfl) fun _ => check_obeys _ w

variable (hC : Lenient C S)
include hC

/-- The writes a mint hands back. -/
theorem mintWrites_returns {rows : List (Row WalletEvent)} {specs : List MintSpec} (w : World) :
    Ensures C (mintWrites walletID rows specs transactionID) (fun r _ => ∀ ws, r = .ok ws →
      ws = mintStreamWrites walletID rows.length specs transactionID) w := by
  unfold mintWrites
  split
  · exact Ensures.throw
  · exact Ensures.pure fun _ _ ws h => by simp at h
  · split
    · exact Ensures.throw
    · refine Obeys.request (hC.free _ rfl) fun r => ?_
      split
      · exact Ensures.throw
      · split
        · exact Ensures.pure fun _ _ ws h => by simp at h
        · exact Ensures.pure fun _ _ ws h => (Except.ok.inj h).symm

theorem mintWrites_obeys {rows : List (Row WalletEvent)} {spec : MintSpec}
    (hS : S.Mints spec.tokenID transactionID) :
    Ensures C (mintWrites walletID rows [spec] transactionID)
      (fun r _ => ∀ ws, r = .ok ws → ∀ x ∈ ws, x.Within S) w := by
  refine (mintWrites_returns hC w).mono fun r _ _ hr ws h => ?_
  obtain rfl := hr ws h
  exact mintStreamWrites_within hS

theorem mintAttempts_obeys {req : MintRequest} (hS : S.Mints req.id Id.empty) (capacity : Money)
    (w : World) : ∀ attempts, Obeys C (mintAttempts req capacity attempts) w
  | 0 => Ensures.throw
  | attempts + 1 => by
    refine Obeys.request (hC.free _ rfl) fun rows => ?_
    refine (mintWrites_obeys hC hS).seq fun r w1 hle hr => ?_
    cases r with
    | error reason => exact Obeys.pure
    | ok writes =>
      refine Obeys.request (hC.append _ (hr writes rfl)) fun r => ?_
      split
      · exact Obeys.pure
      · exact Obeys.bind_option (minted_obeys hC.reads req.id w1)
          ((mintAttempts_obeys hS capacity w attempts).grow hle) fun _ => Obeys.pure
      · exact Ensures.throw

theorem mint_obeys {req : MintRequest} (hS : S.Mints req.id Id.empty) (w : World) :
    Obeys C (mint req) w := by
  refine check_bind_obeys fun _ _ => check_bind_obeys fun _ _ => check_bind_obeys fun c _ => ?_
  exact Obeys.bind_option (minted_obeys hC.reads req.id w) (mintAttempts_obeys hC hS c w 5) fun _
    => Obeys.pure

end Token

/-! ### Balances -/

namespace Token

variable {Read : World → Id → TokenStream → Prop}
  {Seen : World → (Id → Option Ledger.Balance) → Id → TokenStream → Prop}

/-- The write records a balance where the stream was seen to end. -/
def Records (Seen : World → (Id → Option Ledger.Balance) → Id → TokenStream → Prop) (w : World)
    (x : StreamWrite) : Prop :=
  ∃ bs tok stream e, Seen w bs tok stream ∧ balanceRecorded tok stream.walletID bs = .ok e ∧
    x = ⟨.token, tok, stream.seq, [e]⟩

theorem Records.publishes {x : StreamWrite} (h : Records Seen w x) : x.Publishes := by
  obtain ⟨bs, tok, stream, e, -, he, rfl⟩ := h
  obtain ⟨_, _, _, _, rfl⟩ := balanceRecorded_ok he
  exact ⟨_, rfl, rfl⟩

/-- How a contract sees balances recorded. `Read` is known of a Token's stream once it
is read, and `Seen` of that stream and the balances the ledger answers after it. -/
structure Observing (C : Contract World Op) (Read : World → Id → TokenStream → Prop)
    (Seen : World → (Id → Option Ledger.Balance) → Id → TokenStream → Prop) : Prop where
  reads : Reads C
  read : ∀ {w tok stream}, tokenStreamOf tok (w.token tok) = .ok stream → Read w tok stream
  readLater : ∀ {w w' tok stream}, Read w tok stream → w ≤ w' → Read w' tok stream
  seen : ∀ {w ids tok stream}, C.assume (.balances ids) w → tok ∈ ids → Read w tok stream →
    Seen w (w.ledger.balances ids) tok stream
  seenLater : ∀ {w w' bs tok stream}, Seen w bs tok stream → w ≤ w' → Seen w' bs tok stream
  record : ∀ {w x}, Records Seen w x → PermitsFrom C (.appendAtomic [x]) w

namespace Observing

variable (h : Observing C Read Seen)
include h

theorem loadTokenStream (tok : Id) :
    Ensures C (loadTokenStream tok) (fun stream w' => Read w' tok stream) w := by
  refine load_obeys (h.reads _ rfl) fun w1 _ _ => ?_
  cases hs : tokenStreamOf tok (w1.store .token tok) with
  | error e => exact Ensures.throw
  | ok stream => exact Ensures.pure fun w2 hle => h.readLater (h.read hs) hle

theorem loadStreams : ∀ (toks : List Id) {w : World}, Ensures C (loadStreams toks)
    (fun streams w' => ∀ p ∈ streams, p.1 ∈ toks ∧ Read w' p.1 p.2) w
  | [], _ => Ensures.pure fun _ _ _ hp => absurd hp List.not_mem_nil
  | tok :: rest, w => by
    refine (h.loadTokenStream tok).seq fun stream w1 _ htok => ?_
    refine (loadStreams rest).seq fun streams w2 hle hrest => ?_
    refine Ensures.pure fun w3 hle3 p hp => ?_
    rcases List.mem_cons.mp hp with rfl | hp
    · exact ⟨List.mem_cons_self, h.readLater htok (hle.trans hle3)⟩
    · exact ⟨List.mem_cons_of_mem _ (hrest p hp).1, h.readLater (hrest p hp).2 hle3⟩

/-- What the ledger answers is seen with every stream that was read before. -/
theorem balances {β : Type} {Q : β → World → Prop} {ids : List Id}
    {f : (Id → Option Ledger.Balance) → Service β}
    (hf : ∀ bs w1, (∀ tok stream, tok ∈ ids → Read w tok stream → Seen w1 bs tok stream) →
      Ensures C (f bs) Q w1) : Ensures C (Service.balances ids >>= f) Q w := by
  refine Ensures.request fun w1 hle ha => ⟨h.reads _ rfl w1 ha, fun bs w2 hx => ?_⟩
  obtain ⟨rfl, rfl⟩ := Prod.mk.inj hx
  exact hf _ _ fun tok stream hin hread => h.seen ha hin (h.readLater hread hle)

/-- `observe` reads every stream before the ledger. -/
theorem observe (toks : List Id) :
    Ensures C (observe toks) (fun r w' => ∀ p ∈ r.1, Seen w' r.2 p.1 p.2) w := by
  refine (h.loadStreams _).seq fun streams w1 _ hs => ?_
  refine h.balances fun bs w2 hbs => Ensures.pure fun w3 hle p hp => ?_
  exact h.seenLater (hbs p.1 p.2 (hs p hp).1 (hs p hp).2) hle

theorem balanceWrites (toks : List Id) (w : World) :
    Ensures C (balanceWrites toks) (fun ws w' => ∀ x ∈ ws, Records Seen w' x) w := by
  refine (h.observe toks).seq ?_
  rintro ⟨streams, bs⟩ w1 _ hs
  change Ensures C (check (balanceWritesOf bs streams)) _ w1
  cases hws : balanceWritesOf bs streams with
  | error e => exact Ensures.throw
  | ok ws =>
    refine Ensures.pure fun w2 hle x hx => ?_
    obtain ⟨p, hp, e, he, rfl⟩ := mem_balanceWritesOf hws hx
    exact ⟨bs, p.1, p.2, e, h.seenLater (hs p hp) hle, he, rfl⟩

/-- Each retry reads the stream again, and the ledger after it. -/
theorem recordBalance (tok : Id) : ∀ (fuel : Nat) {stream : TokenStream}
    {bs : Id → Option Ledger.Balance} {w : World}, Seen w bs tok stream →
      Obeys C (recordBalance tok fuel stream bs) w
  | 0, _, _, _, _ => Ensures.halted
  | fuel + 1, stream, bs, w, hseen => by
    unfold Token.recordBalance
    split
    · exact Ensures.throw
    · rename_i e he
      split
      · exact Obeys.pure
      · refine Obeys.request_from (h.record ⟨bs, tok, stream, e, hseen, he, rfl⟩) fun r => ?_
        split
        · exact Obeys.pure
        · refine Obeys.request (h.reads _ rfl) fun _ => ?_
          refine (h.loadTokenStream tok).seq fun stream' w1 _ hread => ?_
          split
          · exact Ensures.throw
          · exact h.balances fun bs' w2 hbs =>
              recordBalance tok fuel (hbs tok stream' (List.mem_singleton.mpr rfl) hread)
        · exact Ensures.throw

theorem recordEach (fuel : Nat) (bs : Id → Option Ledger.Balance) :
    ∀ {streams : List (Id × TokenStream)} {w : World}, (∀ p ∈ streams, Seen w bs p.1 p.2) →
      Obeys C (recordEach fuel bs streams) w
  | [], _, _ => Obeys.pure
  | (tok, stream) :: rest, w, hs => by
    refine (h.recordBalance tok fuel (hs _ List.mem_cons_self)).seq fun _ w1 hle _ => ?_
    exact recordEach fuel bs fun p hp => h.seenLater (hs p (List.mem_cons_of_mem _ hp)) hle

theorem recordBalances (fuel : Nat) (toks : List Id) (w : World) :
    Obeys C (recordBalances fuel toks) w :=
  (h.observe toks).seq fun r _ _ hs => h.recordEach fuel r.2 hs

/-- A contract that lets such balances pass with what is in scope is lenient. -/
theorem lenient (hfree : ∀ o : Op, o.isFree = true → Permits C o)
    (hp : ∀ {ws w}, (∀ x ∈ ws, x.Within S ∨ Records Seen w x) →
      PermitsFrom C (.appendAtomic ws) w) : Lenient C S where
  free := hfree
  append ws hws w ha := hp (fun x hx => Or.inl (hws x hx)) w le_rfl ha
  balances ids w := by
    refine (h.balanceWrites ids w).mono fun ws w1 _ hws x hx => hp fun y hy => ?_
    rcases List.mem_append.mp hy with hy | hy
    · exact Or.inr (hws y hy)
    · exact Or.inl (List.mem_singleton.mp hy ▸ hx)
  record := h.recordBalances

end Observing

end Token

/-- A contract that lets balances pass asks nothing of what was observed. -/
theorem Open.observing (hC : Open C S) :
    Token.Observing C (fun _ _ _ => True) (fun _ _ _ _ => True) where
  reads o ho := hC.free o (Op.isFree_of_isRead ho)
  read _ := trivial
  readLater _ _ := trivial
  seen _ _ _ := trivial
  seenLater _ _ := trivial
  record hx := (hC.append _ fun _ hy => Or.inr (List.mem_singleton.mp hy ▸ hx.publishes)).from _

theorem Open.lenient (hC : Open C S) : Lenient C S :=
  hC.observing.lenient hC.free fun hws =>
    (hC.append _ fun x hx => (hws x hx).imp_right Token.Records.publishes).from _

end MoneyFlow
