import MoneyFlow.Wallet

/-!
# MoneyFlow.Token

`go/internal/token`: minting Tokens, each backed by one ledger account, and
publishing the balances the ledger holds for them.
-/

namespace MoneyFlow.Token

open MoneyFlow.Service

/-! ### Minting -/

/-- `token.MintSpec`. -/
structure MintSpec where
  tokenID : Id
  capacity : Money
  deriving DecidableEq, Repr

/-- `token.v1.MintRequest`. -/
structure MintRequest where
  id : Id
  walletID : Id
  capacity : Option Money
  deriving DecidableEq, Repr

/-- `token.v1.MintResponse`. -/
inductive MintResponse
  | tokenMinted (id walletID : Id) (capacity : Money)
  | tokenMintRejected (id walletID : Id) (reason : Text)
  deriving DecidableEq, Repr

/-- The number of an `Allows` value, as `%v` prints it. -/
def allowsName : Allows → Text
  | .unspecified => [.lit "ALLOWS_UNSPECIFIED"]
  | .onramp => [.lit "ALLOWS_ONRAMP"]
  | .offramp => [.lit "ALLOWS_OFFRAMP"]
  | .onrampAndOfframp => [.lit "ALLOWS_ONRAMP_AND_OFFRAMP"]
  | .none => [.lit "ALLOWS_NONE"]
  | .unrecognized n => [.num n]

/-- `token.AllowsToAccountFlags`. -/
def allowsToAccountFlags : Allows → Except Err AccountFlags
  | .onrampAndOfframp => .ok {}
  | .onramp => .ok { creditsMustNotExceedDebits := true }
  | .offramp | .none => .ok { debitsMustNotExceedCredits := true }
  | allows => .error (.plain ([.lit "token: wallet allows "] ++ allowsName allows ++
      [.lit " is not set"]))

/-- The `TokenMinted` a stream begins with, as the response that replays it. -/
def mintedOf (tokenID : Id) : List (Row TokenEvent) → Except Err (Option MintResponse)
  | [] => .ok none
  | ⟨_, .tokenMinted id walletID capacity, _⟩ :: _ => .ok (some (.tokenMinted id walletID capacity))
  | ⟨_, .tokenBalanceRecorded _ _ _ _ _ _, _⟩ :: _ =>
    .error (.twirp .internal [.lit "token ", .id tokenID,
      .lit ": stream starts with token.v1.TokenBalanceRecorded, want TokenMinted"])

/-- `token.Minted`. -/
def minted (tokenID : Id) : Service (Option MintResponse) := do
  let events ← load .token tokenID
  check (mintedOf tokenID events)

/-- The accounts a mint creates, chained into one linked run. -/
def mintAccounts (flags : AccountFlags) : List MintSpec → List Account
  | [] => []
  | spec :: rest =>
    { id := spec.tokenID, currency := spec.capacity.currency,
      flags := { flags with linked := !rest.isEmpty } } :: mintAccounts flags rest

/-- The first account a mint was refused, if any. -/
def mintRejection : List MintSpec → List AccountResultCode → Option Text
  | spec :: specs, r :: rs =>
    if r = .ok ∨ r = .existsAlready then mintRejection specs rs
    else some [.lit "tigerbeetle rejected token ", .id spec.tokenID, .lit ": ", .lit r.string]
  | _, _ => none

/-- The writes a mint lands: one new stream per Token, and the Wallet's record
of all of them. -/
def mintStreamWrites (walletID : Id) (walletSeq : Nat) (specs : List MintSpec)
    (transactionID : Id) : List StreamWrite :=
  specs.map (fun spec => ⟨.token, spec.tokenID, 0,
      [TokenEvent.tokenMinted spec.tokenID walletID spec.capacity]⟩) ++
    [⟨.wallet, walletID, walletSeq, specs.map fun spec =>
      WalletEvent.tokenMintedForWallet walletID spec.tokenID spec.capacity transactionID⟩]

/-- `token.MintWrites`. A rejection is handed back as its reason. -/
def mintWrites (walletID : Id) (walletEvents : List (Row WalletEvent)) (specs : List MintSpec)
    (transactionID : Id) : Service (Except Text (List StreamWrite)) :=
  match Wallet.openedOf walletID walletEvents with
  | .error e => throw e
  | .ok none => pure (.error [.lit "wallet ", .id walletID, .lit " has not been opened"])
  | .ok (some wallet) =>
    match allowsToAccountFlags wallet.allows with
    | .error e => throw (.twirp .internal ([.lit "wallet ", .id walletID, .lit ": "] ++ e.msg))
    | .ok flags => do
      -- the account comes first: a TokenMinted without one could never be taken back
      match ← createAccounts (mintAccounts flags specs) with
      | .error e => throw (.twirp .internal (.lit "ledger: " :: e.msg))
      | .ok results =>
        match mintRejection specs results with
        | some reason => pure (.error reason)
        | none => pure (.ok (mintStreamWrites walletID walletEvents.length specs transactionID))

/-- The attempts of `Server.Mint`. -/
def mintAttempts (req : MintRequest) (capacity : Money) : Nat → Service MintResponse
  | 0 => throw (.twirp .internal
      [.lit "token: mint could not converge after repeated concurrency conflicts"])
  | attempts + 1 => do
    let walletEvents ← load .wallet req.walletID
    match ← mintWrites req.walletID walletEvents [⟨req.id, capacity⟩] Id.empty with
    | .error reason => pure (.tokenMintRejected req.id req.walletID reason)
    | .ok writes =>
      match ← appendWrites writes with
      | .ok () => pure (.tokenMinted req.id req.walletID capacity)
      | .error .concurrencyConflict =>
        match ← minted req.id with
        | some existing => pure existing
        | none => mintAttempts req capacity attempts
      | .error e => throw e.internalWith

/-- `token.Server.Mint`. -/
def mint (req : MintRequest) : Service MintResponse := do
  check (validateId "id" req.id)
  check (validateId "wallet_id" req.walletID)
  let capacity ← check (validateMoney "capacity" req.capacity)
  match ← minted req.id with
  | some existing => pure existing
  | none => mintAttempts req capacity 5

/-! ### Balances -/

/-- `token.tokenStream`: where to append next, whose Token it is, and the last
balance published. -/
structure TokenStream where
  seq : Nat
  walletID : Id
  last : Option TokenEvent
  deriving DecidableEq, Repr

/-- The Wallet and the last balance a stream records. -/
def foldTokenStream : List (Row TokenEvent) → Id × Option TokenEvent → Id × Option TokenEvent
  | [], acc => acc
  | ⟨_, .tokenMinted _ walletID _, _⟩ :: rest, acc => foldTokenStream rest (walletID, acc.2)
  | ⟨_, e@(.tokenBalanceRecorded _ _ _ _ _ _), _⟩ :: rest, acc =>
    foldTokenStream rest (acc.1, some e)

/-- The name of a Token event's message, as error texts print it. -/
def eventName : TokenEvent → String
  | .tokenMinted _ _ _ => "token.v1.TokenMinted"
  | .tokenBalanceRecorded _ _ _ _ _ _ => "token.v1.TokenBalanceRecorded"

/-- `token.loadTokenStream`, over a loaded stream. -/
def tokenStreamOf (tokenID : Id) (events : List (Row TokenEvent)) : Except Err TokenStream :=
  match events with
  | [] => .error (.twirp .internal [.lit "token ", .id tokenID, .lit " has not been minted"])
  | first :: _ =>
    let (walletID, last) := foldTokenStream events (Id.empty, none)
    if walletID = Id.empty then
      .error (.twirp .internal [.lit "token ", .id tokenID, .lit ": stream starts with ",
        .lit (eventName first.event), .lit ", want TokenMinted"])
    else .ok ⟨events.length, walletID, last⟩

/-- `token.loadTokenStream`. -/
def loadTokenStream (tokenID : Id) : Service TokenStream := do
  let events ← load .token tokenID
  check (tokenStreamOf tokenID events)

/-- `token.distinct`: drop repeats, keeping first-seen order. -/
def distinct : List Id → List Id
  | [] => []
  | id :: rest => id :: (distinct rest).filter (· ≠ id)

/-- Load each Token's stream, in order. -/
def loadStreams : List Id → Service (List (Id × TokenStream))
  | [] => pure []
  | id :: rest => do
    let stream ← loadTokenStream id
    let streams ← loadStreams rest
    pure ((id, stream) :: streams)

/-- `token.observe`: each distinct Token's stream first, then every balance. -/
def observe (tokenIDs : List Id) :
    Service (List (Id × TokenStream) × (Id → Option Ledger.Balance)) := do
  let streams ← loadStreams (distinct tokenIDs)
  let bs ← balances (distinct tokenIDs)
  pure (streams, bs)

/-- `token.balanceRecorded`. -/
def balanceRecorded (tokenID walletID : Id) (bs : Id → Option Ledger.Balance) :
    Except Err TokenEvent :=
  match bs tokenID with
  | none => .error (.twirp .internal [.lit "token ", .id tokenID,
      .lit " has no TigerBeetle account"])
  | some b =>
    match b.postedNet with
    | .error e => .error (.twirp .internal ([.lit "token ", .id tokenID, .lit ": "] ++ e.msg))
    | .ok posted => .ok (.tokenBalanceRecorded tokenID walletID b.currency posted
        b.debitsPending b.creditsPending)

/-- The writes of `BalanceWrites`: a balance equal to the last recorded gets
none. -/
def balanceWritesOf (bs : Id → Option Ledger.Balance) :
    List (Id × TokenStream) → Except Err (List StreamWrite)
  | [] => .ok []
  | (id, stream) :: rest =>
    match balanceRecorded id stream.walletID bs with
    | .error e => .error e
    | .ok event =>
      match balanceWritesOf bs rest with
      | .error e => .error e
      | .ok writes =>
        if stream.last = some event then .ok writes
        else .ok (⟨.token, id, stream.seq, [event]⟩ :: writes)

/-- `token.BalanceWrites`. -/
def balanceWrites (tokenIDs : List Id) : Service (List StreamWrite) := do
  let (streams, bs) ← observe tokenIDs
  check (balanceWritesOf bs streams)

/-- `token.recordBalance`: it keeps trying for as long as it keeps losing to a
write that landed. -/
def recordBalance (tokenID : Id) : Nat → TokenStream → (Id → Option Ledger.Balance) → Service Unit
  | 0, _, _ => Concurrent.halted
  | fuel + 1, stream, bs =>
    match balanceRecorded tokenID stream.walletID bs with
    | .error e => throw e
    | .ok event =>
      if stream.last = some event then pure ()
      else do
        match ← append .token tokenID stream.seq [event] with
        | .ok () => pure ()
        | .error .concurrencyConflict => do
          contentionWait
          let stream' ← loadTokenStream tokenID
          if stream'.seq = stream.seq then
            throw (.twirp .internal ([.lit "token ", .id tokenID, .lit ": recording balance: "] ++
              Err.concurrencyConflict.msg ++ [.lit ", yet its stream has not moved"]))
          else do
            let bs' ← balances [tokenID]
            recordBalance tokenID fuel stream' bs'
        | .error e => throw e.internalWith

/-- Record each observed Token's balance, in order. -/
def recordEach (fuel : Nat) (bs : Id → Option Ledger.Balance) :
    List (Id × TokenStream) → Service Unit
  | [] => pure ()
  | (id, stream) :: rest => do
    recordBalance id fuel stream bs
    recordEach fuel bs rest

/-- `token.RecordBalances`. -/
def recordBalances (fuel : Nat) (tokenIDs : List Id) : Service Unit := do
  let (streams, bs) ← observe tokenIDs
  recordEach fuel bs streams

theorem tokenStreamOf_seq {tok : Id} {rows : List (Row TokenEvent)} {stream : TokenStream}
    (h : tokenStreamOf tok rows = .ok stream) : stream.seq = rows.length := by
  cases rows with
  | nil => simp [tokenStreamOf] at h
  | cons row rows =>
    simp only [tokenStreamOf] at h
    split at h
    · simp at h
    · rw [← Except.ok.inj h]

theorem balanceRecorded_ok {tok wid : Id} {bs : Id → Option Ledger.Balance} {e : TokenEvent}
    (h : balanceRecorded tok wid bs = .ok e) : ∃ currency posted outgoing incoming,
      e = .tokenBalanceRecorded tok wid currency posted outgoing incoming := by
  unfold balanceRecorded at h
  split at h
  · simp at h
  · split at h
    · simp at h
    · exact ⟨_, _, _, _, (Except.ok.inj h).symm⟩

/-- What `BalanceWrites` writes: the balance of an observed Token, where its stream
was seen to end. -/
theorem mem_balanceWritesOf {bs : Id → Option Ledger.Balance} :
    ∀ {streams : List (Id × TokenStream)} {ws : List StreamWrite} {x : StreamWrite},
      balanceWritesOf bs streams = .ok ws → x ∈ ws → ∃ p ∈ streams, ∃ e,
        balanceRecorded p.1 p.2.walletID bs = .ok e ∧ x = ⟨.token, p.1, p.2.seq, [e]⟩
  | [], ws, x, h, hx => by
    obtain rfl : [] = ws := Except.ok.inj h
    simp at hx
  | (tok, stream) :: rest, ws, x, h, hx => by
    unfold balanceWritesOf at h
    split at h
    · simp at h
    · rename_i e he
      split at h
      · simp at h
      · rename_i ws' hws'
        have hrest (hx : x ∈ ws') : ∃ p ∈ (tok, stream) :: rest, ∃ e,
            balanceRecorded p.1 p.2.walletID bs = .ok e ∧ x = ⟨.token, p.1, p.2.seq, [e]⟩ := by
          obtain ⟨p, hp, e', he', rfl⟩ := mem_balanceWritesOf hws' hx
          exact ⟨p, List.mem_cons_of_mem _ hp, e', he', rfl⟩
        split at h
        · cases h
          exact hrest hx
        · cases h
          rcases List.mem_cons.mp hx with rfl | hx
          · exact ⟨_, List.mem_cons_self, e, he, rfl⟩
          · exact hrest hx

end MoneyFlow.Token
