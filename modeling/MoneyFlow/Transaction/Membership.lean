import MoneyFlow.Plans
import MoneyFlow.Transaction.Outcomes

/-!
# MoneyFlow.Transaction.Membership

Who belongs to a Transaction.

A Transfer names its Transaction in `transaction_id`, and that id is what lets it
mint a source Token and draw on the Tokens kept for the Transaction. Nothing
checks that the Transaction knows the Transfer: `Exists` asks for a stream only,
so a client can mint in the name of a Transaction that was rejected
(`minted_for_rejected`), and a Transfer opened under a child's id first is taken
for the child (`foreign_child_completes`). Where clients are kept from doing so,
membership is what it says.
-/

namespace MoneyFlow.Transaction

open Concurrent Transfer

variable {child : TransferSpec} {o : Op} {d : Driver}

variable {R : Prop} {w w' : World} {tid id : Id}

/-- Transaction `tid` was initialized with a DAG that has `id` as a child, with
this `mint_source` flag. -/
def Member (w : World) (tid id : Id) (mintSource : Bool) : Prop :=
  ∃ i spec child, (w.log tid).head? = some (.transactionInitialized i spec) ∧
    spec.transfers.get? id = some child ∧ child.mintSource = mintSource

/-- The child `id` of the DAG that Transaction `tid` was initialized with. -/
def childOfSpec (w : World) (tid id : Id) : Option TransferSpec :=
  match decodeSpec (w.log tid) with
  | .ok spec => spec.transfers.get? id
  | .error _ => none

theorem childOfSpec_some : childOfSpec w tid id = some child ↔
      ∃ spec, decodeSpec (w.log tid) = .ok spec ∧ spec.transfers.get? id = some child := by
  unfold childOfSpec
  cases decodeSpec (w.log tid) with
  | ok spec =>
    constructor
    · exact fun h => ⟨spec, rfl, h⟩
    · rintro ⟨spec', hspec', h⟩
      cases hspec'
      exact h
  | error e => simp

theorem childOfSpec_grow (h : childOfSpec w tid id = some child) (hle : w ≤ w') :
    childOfSpec w' tid id = some child := by
  obtain ⟨spec, hspec, hget⟩ := childOfSpec_some.mp h
  exact childOfSpec_some.mpr ⟨spec, decodeSpec_grow hspec (World.log_grow hle tid), hget⟩

theorem member_of_child (h : childOfSpec w tid id = some child) :
    Member w tid id child.mintSource := by
  obtain ⟨spec, hspec, hget⟩ := childOfSpec_some.mp h
  obtain ⟨i, rest, hlog⟩ := decodeSpec_mem hspec
  exact ⟨i, spec, child, by rw [hlog]; rfl, hget, rfl⟩

/-! ### Authentic membership -/

/-- The write records an accepted Transfer. -/
def acceptsTransfer : StreamWrite → Bool
  | ⟨.transfer, _, _, events⟩ =>
    events.any fun (e : TransferEvent) => e.eventType == .transferRequestAccepted
  | _ => false

/-- A client's own request is accepted only for no Transaction, or for one whose
recorded spec has the request's id as a child with the request's `mint_source`
flag. -/
def Authorised : Driver → Op → World → Prop
  | .requestTransfer req, .appendAtomic ws, w => (∃ x ∈ ws, acceptsTransfer x = true) →
      req.transactionID = Id.empty ∨
        (childOfSpec w req.transactionID req.id).map TransferSpec.mintSource = some req.mintSource
  | _, _, _ => True

instance : ∀ d o w, Decidable (Authorised d o w) := by
  rintro ⟨⟩ ⟨⟩ w <;> delta Authorised <;> infer_instance

/-- Every accepted Transfer that names a Transaction is one of its children. -/
def Members (w : World) : Prop :=
  ∀ id a, w.opening id = some (.transferRequestAccepted a) → a.transactionID ≠ Id.empty →
    ∃ child, childOfSpec w a.transactionID id = some child ∧ child.mintSource = a.mintSource

theorem members_init : Members .init := fun _ _ h => nomatch h

/-- An accepted Transfer that a step lands. -/
theorem accepts_of_appended {ws : List StreamWrite} {a : TransferAccepted}
    (happ : Appended R w w' o .transfer id ws [.transferRequestAccepted a]) :
    ∃ x ∈ ws, acceptsTransfer x = true :=
  ⟨_, happ.mem, by simp [acceptsTransfer, TransferEvent.eventType]⟩

theorem members_step {r : Resp o} (hinv : Inv R w) (h : Members w) (hlegal : Legal R o w)
    (hopens : (opens d).ensure o w) (hg : Authorised d o w) (hx : w.Exec o r w') : Members w' := by
  have hle : w ≤ w' := World.le_of_exec hx
  intro id a hopen hne
  rcases opening_step hlegal hopens hx hopen with hold | ⟨-, hnew, ws, happ⟩
  · obtain ⟨child, hchild, hmint⟩ := h id a hold hne
    exact ⟨child, childOfSpec_grow hchild hle, hmint⟩
  · cases hnew with
    | @transfer req amount hreq =>
      obtain rfl := happ.op
      rcases hg (accepts_of_appended happ) with hempty | hmember
      · exact absurd hempty hne
      · obtain ⟨child, hchild, hmint⟩ := Option.map_eq_some_iff.mp hmember
        exact ⟨child, childOfSpec_grow hchild hle, hmint⟩
    | @child tid childID spec child amount hspec hchild hreq =>
      obtain rfl := child_id hinv hspec hchild
      exact ⟨child, childOfSpec_grow (childOfSpec_some.mpr ⟨spec, hspec, hchild⟩) hle, rfl⟩

/-- What the drivers owe about openings and plans. -/
def dealings (R : Prop) (d : Driver) : Contract World Op := (opens d).both (plans R)

theorem Driver.dealings (d : Driver) (fuel : Nat) (w : World) :
    Safe (dealings R d) (fun _ _ => True) (d.service fuel).run w :=
  ((d.opens fuel w).both (d.plans fuel w)).mono fun _ _ _ _ => trivial

/-! ### Calls that keep apart -/

/-- Calls on the Transaction service name one of these Transactions, and a client's
own request for a Transfer names none, or another for which it wants to mint. -/
def Apart (real : Id → Prop) : Driver → Op → World → Prop
  | .requestTransfer req, _, _ =>
    req.transactionID = Id.empty ∨ (req.mintSource = true ∧ ¬ real req.transactionID)
  | d, _, _ => ∀ tid ∈ d.onTransaction, real tid

instance (real : Id → Prop) [DecidablePred real] : ∀ d o w, Decidable (Apart real d o w) := by
  rintro ⟨⟩ o w <;> delta Apart <;> infer_instance

theorem Apart.real {real : Id → Prop} (h : Apart real d o w) (ht : d.onTransaction = some tid) :
    real tid := by
  cases d with
  | requestTransfer req => cases ht
  | _ => exact h tid ht

/-- Only the streams of these Transactions are written to, and where a client is
to mint for a Transaction its request is accepted only if that has a stream. -/
def vouches (real : Id → Prop) (d : Driver) : Contract World Op where
  assume := Apart real d
  ensure
    | .appendAtomic ws, w => (∀ x ∈ ws, x.aggregateType = .transaction → real x.aggregateID) ∧
        ∀ req, d = .requestTransfer req → req.mintSource = true →
          (∃ x ∈ ws, acceptsTransfer x = true) → w.log req.transactionID ≠ []
    | _, _ => True

section

variable {real : Id → Prop} {req : RequestTransferRequest}

theorem vouches_lenient {S : Scope} (hS : ∀ req, d = .requestTransfer req →
      req.mintSource = true → ∀ id events, S.transfer id events →
        (∃ e ∈ events, e.eventType = .transferRequestAccepted) → w.log req.transactionID ≠ []) :
    Lenient ((vouches real d).from w) S := by
  refine Open.lenient ⟨fun o _ _ _ => by cases o <;> trivial, fun ws hws w1 hw1 => ⟨?_, ?_⟩⟩
  · rintro ⟨a, id, seq, events⟩ hx rfl
    exact (hws _ hx).elim False.elim False.elim
  · rintro req hd hmint ⟨⟨a, id, seq, events⟩, hx, haccepts⟩
    cases a with
    | transfer =>
      have hin : S.transfer id events := (hws _ hx).resolve_right not_false
      obtain ⟨e, he, htype⟩ := List.any_eq_true.mp haccepts
      have hne := hS req hd hmint id events hin ⟨e, he, beq_iff_eq.mp htype⟩
      exact fun hnil => hne (List.prefix_nil.mp (hnil ▸ World.log_grow hw1.1 _))
    | _ => simp [acceptsTransfer] at haccepts

/-- What is not rejected has a stream to mint for. -/
theorem acceptRejection_vouches (amount : Money) (w : World) :
    Ensures (vouches real d) (acceptRejection req amount)
      (fun r w' => r = none → req.mintSource = true → w'.log req.transactionID ≠ []) w := by
  have hreads : Reads (vouches real d) := fun o _ w _ => by cases o <;> trivial
  unfold acceptRejection
  split
  · refine load_obeys (hreads _ rfl) fun w1 _ _ => ?_
    cases hrows : w1.store .transaction req.transactionID with
    | nil => exact Ensures.pure fun _ _ h => by simp at h
    | cons row rows =>
      refine (Wallet.opened_obeys hreads _ w1).seq fun wallet w2 hle _ => ?_
      have hne {w3 : World} (hle3 : w2 ≤ w3) : w3.log req.transactionID ≠ [] := by
        intro hnil
        have hprefix := World.log_grow (hle.trans hle3) req.transactionID
        rw [hnil, World.log, World.transaction, hrows] at hprefix
        exact absurd (List.prefix_nil.mp hprefix) (by simp [eventsOf])
      cases wallet with
      | none => exact Ensures.pure fun _ _ h => by simp at h
      | some wallet =>
        dsimp only
        split
        · exact Ensures.pure fun w3 hle3 _ _ => hne hle3
        · exact Ensures.pure fun w3 hle3 _ _ => hne hle3
        · exact Ensures.pure fun _ _ h => by simp at h
  · rename_i hmint
    exact (wouldAcceptTransfer_obeys hreads _ _ _ w).mono fun _ _ _ _ _ h => absurd h hmint

theorem requestTransfer_vouches (w : World) :
    Obeys (vouches real (.requestTransfer req)) (requestTransfer req) w := by
  refine check_bind_obeys fun amount _ => requestTransferAttempts_obeys (fun _ _ => trivial)
    (fun w1 => ?_) (fun reason w1 => ?_) _ w
  · refine (acceptRejection_vouches amount w1).mono fun r w2 _ hr hnone => ?_
    refine Ensures.of_from (tryAppend_obeys (S := elsewhere) (vouches_lenient ?_) trivial w2)
    rintro req' ⟨⟩ hmint _ _ _ _
    exact hr hnone hmint
  · refine Ensures.of_from (tryAppend_obeys (S := ⟨fun _ events => ∀ e ∈ events,
      e.eventType ≠ .transferRequestAccepted, fun _ _ => True⟩) (vouches_lenient ?_) ?_ w1)
    · rintro req' _ _ _ events hnone ⟨e, he, htype⟩
      exact absurd htype (hnone e he)
    · intro e he
      obtain rfl := List.mem_singleton.mp he
      simp [TransferEvent.eventType]

theorem Driver.vouches (d : Driver) (fuel : Nat) (w : World) :
    Safe (vouches real d) (fun _ _ => True) (d.service fuel).run w := by
  by_cases hreq : ∃ req, d = .requestTransfer req
  · obtain ⟨req, rfl⟩ := hreq
    have h : Obeys (Transaction.vouches real (.requestTransfer req))
      (Driver.service fuel (.requestTransfer req)) w := (requestTransfer_vouches w).map
    exact Safe.mono h fun _ _ _ _ => trivial
  · have hC : Lenient ((Transaction.vouches real d).from w) elsewhere :=
      vouches_lenient fun req hd => absurd ⟨req, hd⟩ hreq
    refine Safe.of_from (hC.driver (fun _ _ _ => trivial) d fun tid htid => ?_) le_rfl
    refine (hC.regular fun _ _ _ => trivial).onTransaction htid fun seq events w1 hw1 => ⟨?_, ?_⟩
    · intro x hx _
      rw [List.mem_singleton.mp hx]
      exact hw1.2.real htid
    · exact fun req hd => absurd ⟨req, hd⟩ hreq

end

/-- What mints a source names a Transaction. -/
def MintsNamed (w : World) : Prop :=
  ∀ id a, w.opening id = some (.transferRequestAccepted a) → a.mintSource = true →
    a.transactionID ≠ Id.empty

theorem mintsNamed_step {r : Resp o} (h : MintsNamed w) (hlegal : Legal R o w)
    (hopens : (opens d).ensure o w) (hx : w.Exec o r w') : MintsNamed w' := by
  intro id a hopen hmint hempty
  rcases opening_step hlegal hopens hx hopen with hold | ⟨-, hnew, -⟩
  · exact h id a hold hmint hempty
  · cases hnew with
    | transfer hreq | child _ _ hreq => exact (validateRequest_parts hreq).2 ⟨hmint, hempty⟩

theorem apart_upheld (real : Id → Prop) : Upholds True (fun _ => True) (Apart real)
    (fun d => (dealings True d).both (vouches real d))
    (fun w => PlansOk w ∧ Members w ∧ MintsNamed w ∧ ∀ tid, w.log tid ≠ [] → real tid) where
  init := ⟨plansOk_init, members_init, (fun _ _ h => by cases h), fun _ h => absurd rfl h⟩
  tick w w' ht h := by
    refine ⟨h.1.tick ht, ?_⟩
    obtain ⟨d, rfl⟩ := ht
    exact h.2
  safe d fuel w _ :=
    ((Driver.dealings d fuel w).both (Driver.vouches d fuel w)).mono fun _ _ _ _ => trivial
  assume d o w hg hinv _ := ⟨⟨trivial, hinv⟩, hg⟩
  step d o w r w' hinv hinv' h hg hlegal hd hx := by
    obtain ⟨hplans, hmembers, hnamed, hreal⟩ := h
    -- a client that names a Transaction names one without a stream, and is rejected
    have hauthorised : Authorised d o w := by
      cases d with
      | requestTransfer req =>
        cases o with
        | appendAtomic ws =>
          intro haccepts
          refine hg.imp_right fun hother => ?_
          obtain ⟨hmint, hnot⟩ := hother
          exact absurd (hreal _ (hd.2.2 req rfl hmint haccepts)) hnot
        | _ => trivial
      | _ => trivial
    refine ⟨plans_step hinv hinv' hplans hlegal hd.1.2 hx,
      members_step hinv hmembers hlegal hd.1.1 hauthorised hx,
      mintsNamed_step hnamed hlegal hd.1.1 hx, fun tid hne => ?_⟩
    rcases exec_stream hlegal hx .transaction tid with hsame | ⟨ws, events, happ⟩
    · refine hreal tid fun hnil => hne ?_
      rwa [World.log, World.transaction, hsame]
    · obtain rfl := happ.op
      exact hd.2.1 _ happ.mem rfl

/-- **Membership is authentic where clients name no Transaction that is dealt with**:
every accepted Transfer that mints a source or names a Transaction is a child of
the DAG that Transaction was initialized with, `mint_source` included, and every
tagged Token was minted for such a Transfer. -/
theorem membership_authentic {real : Id → Prop} {c : System}
    (h : Pool.Reachable (freeRun (Apart real)) .init c) :
    (∀ id a, c.state.opening id = some (.transferRequestAccepted a) →
      a.mintSource = true ∨ a.transactionID ≠ Id.empty →
        Member c.state a.transactionID id a.mintSource) ∧
    ∀ tok tag, c.state.Tagged tok tag → tag ≠ Id.empty →
      ∃ id a, c.state.opening id = some (.transferRequestAccepted a) ∧ a.transactionID = tag ∧
        (tok = .destinationToken id ∨ tok = .sourceToken id) ∧
        Member c.state tag id a.mintSource := by
  obtain ⟨hplans, hmembers, hnamed, -⟩ :=
    (reachable_upheld refusals_true (apart_upheld real) h).1.2
  have hmember (id : Id) (a : TransferAccepted)
      (hopen : c.state.opening id = some (.transferRequestAccepted a))
      (hne : a.transactionID ≠ Id.empty) : Member c.state a.transactionID id a.mintSource := by
    obtain ⟨child, hchild, hmint⟩ := hmembers id a hopen hne
    exact hmint ▸ member_of_child hchild
  refine ⟨fun id a hopen hnames => hmember id a hopen ?_, fun tok tag htag hne => ?_⟩
  · exact hnames.elim (hnamed id a hopen) fun hne => hne
  · obtain ⟨id, a, hopen, rfl, htok⟩ := (hplans.minted tok tag htag).resolve_left hne
    exact ⟨id, a, hopen, rfl, htok, hmember id a hopen hne⟩

/-- After the deposit a client asks to mint for Transaction `uuid 9`, which there is
not, and moves 40 on by a Transfer of its own. -/
def keptApart : List (Move (freeRun (Apart (· = .uuid 2)))) :=
  inTurn 0 (deposit ++ [
    .requestTransfer ⟨.uuid 5, .uuid 0, .uuid 1, some ⟨100, "USD"⟩, false, true, .uuid 9⟩,
    .openWallet ⟨.uuid 4, .uuid 100, "payee", .none⟩,
    .requestTransfer ⟨.uuid 6, .uuid 1, .uuid 4, some ⟨40, "USD"⟩, false, false, Id.empty⟩])

/-- The request to mint is rejected, the other accepted, and the deposit's child is
a member. -/
theorem membership_authentic_apart :
    (playedUnder keptApart).state.outcome (.uuid 5) = .rejected ∧
      ((playedUnder keptApart).state.opening (.uuid 6)).map TransferEvent.eventType =
        some .transferRequestAccepted ∧
      Member (playedUnder keptApart).state (.uuid 2) (.uuid 3) true := by
  have hopen : (playedUnder keptApart).state.opening (.uuid 3) =
      some (.transferRequestAccepted ⟨.uuid 3, .uuid 0, .uuid 1, ⟨100, "USD"⟩, false, .uuid 2,
        true⟩) := by
    decide +kernel
  exact ⟨by decide +kernel, by decide +kernel,
    (membership_authentic (playedUnder_reachable keptApart)).1 (.uuid 3) _ hopen (Or.inl rfl)⟩

/-- A DAG without children, which `StartInitializingTransaction` rejects. -/
def emptySpec : Spec where
  transfers := ⟨[], List.nodup_nil⟩
  transferDependency := ⟨[], List.nodup_nil⟩

/-- Transaction `uuid 2` is rejected, and then a client requests Transfer `uuid 3`
in its name, to mint 100 in Wallet `uuid 0`. -/
def mintForRejected : List (Move anyRun) :=
  inTurn 0 [.openWallet ⟨.uuid 0, .uuid 100, "bank", .onramp⟩,
    .openWallet ⟨.uuid 1, .uuid 100, "payee", .none⟩,
    .startInitializingTransaction (.uuid 2) emptySpec,
    .requestTransfer ⟨.uuid 3, .uuid 0, .uuid 1, some ⟨100, "USD"⟩, false, true, .uuid 2⟩,
    .resumeTransfer (.uuid 3)]

/-- **A client mints in the name of a rejected Transaction**: the Transfer is
accepted and commits, though the Transaction's stream opens with
`TransactionRejected` and has no children at all. -/
theorem minted_for_rejected :
    Pool.Reachable anyRun .init (played mintForRejected) ∧
      (played mintForRejected).state.opening (.uuid 3) = some (.transferRequestAccepted
        ⟨.uuid 3, .uuid 0, .uuid 1, ⟨100, "USD"⟩, false, .uuid 2, true⟩) ∧
      ((played mintForRejected).state.log (.uuid 2)).map TransactionEvent.eventType =
        [.transactionRejected] ∧
      ¬ Member (played mintForRejected).state (.uuid 2) (.uuid 3) true ∧
      (played mintForRejected).state.Tagged (.destinationToken (.uuid 3)) (.uuid 2) ∧
      (played mintForRejected).state.outcome (.uuid 3) = .committed := by
  have hlog : ((played mintForRejected).state.log (.uuid 2)).map TransactionEvent.eventType =
      [.transactionRejected] := by
    decide +kernel
  refine ⟨played_reachable _, by decide +kernel, hlog, ?_, ⟨.uuid 1, .uuid 1, ⟨100, "USD"⟩, ?_⟩,
    by decide +kernel⟩
  · rintro ⟨i, spec, child, hhead, -⟩
    cases hes : (played mintForRejected).state.log (.uuid 2) with
    | nil => simp [hes] at hlog
    | cons e es =>
      rw [hes] at hhead hlog
      cases hhead
      simp [TransactionEvent.eventType] at hlog
  · decide +kernel

/-! ### A Transaction runs its own children -/

/-- The driver is a run of the Transaction's saga. -/
def runsSaga (tid : Id) : Driver → Bool
  | .resumeTransaction i => i == tid
  | _ => false

/-- Nobody but Transaction `tid` itself opens the stream of a child its spec
records, and the streams of its children are still empty when it is
initialized. -/
def Exclusive (d : Driver) (tid : Id) (w : World) : StreamWrite → Prop
  | ⟨.transfer, id, _, events⟩ =>
    (events.any fun (e : TransferEvent) => opensStream e.eventType) = true →
      (w.transfer id).isEmpty = true → (childOfSpec w tid id).isSome = true → runsSaga tid d = true
  | ⟨.transaction, i, _, events⟩ => i = tid → ∀ spec, decodeSpec events = .ok spec →
      ∀ id ∈ spec.transfers.keys, (w.transfer id).isEmpty = true
  | _ => True

/-- The steps considered: those that leave the children of these Transactions to
them. -/
def OwnChildren (tids : List Id) (d : Driver) : Op → World → Prop
  | .appendAtomic ws, w => ∀ x ∈ ws, ∀ tid ∈ tids, Exclusive d tid w x
  | _, _ => True

instance : ∀ d tid w x, Decidable (Exclusive d tid w x) := by
  rintro d tid w ⟨a, id, seq, events⟩
  cases a with
  | transfer => exact inferInstanceAs (Decidable (_ → _ → _ → _))
  | transaction =>
    cases hspec : decodeSpec events with
    | ok spec =>
      refine decidable_of_iff (id = tid → ∀ i ∈ spec.transfers.keys,
        (w.transfer i).isEmpty = true) ⟨fun h hid spec' hs => ?_, fun h hid => ?_⟩
      · obtain rfl := Except.ok.inj (hspec.symm.trans hs)
        exact h hid
      · exact h hid spec hspec
    | error e =>
      refine isTrue fun _ spec hs => ?_
      rw [hspec] at hs
      simp at hs
  | _ => exact isTrue trivial

instance (tids : List Id) : ∀ d o w, Decidable (OwnChildren tids d o w) := by
  rintro d ⟨⟩ w <;> delta OwnChildren <;> infer_instance

/-- The child's stream opens as its Transaction's spec has it, if it was
accepted; unless the Transaction is rolling back. -/
def AsSpecified (w : World) (tid id : Id) (child : TransferSpec) : Prop :=
  ∀ e, w.opening id = some e → RollbackBegun (w.log tid) ∨
    (∃ i reason, e = .transferRequestRejected i reason) ∨
    ∃ amount, child.amount = some amount ∧
      e = .transferRequestAccepted (acceptedOf (requestFor tid child) amount)

/-- So it is with every child. -/
def ChildrenAsSpecified (w : World) (tid : Id) : Prop :=
  ∀ id child, childOfSpec w tid id = some child → AsSpecified w tid id child

theorem childrenAsSpecified_init (tid : Id) : ChildrenAsSpecified .init tid := by
  intro id child h
  obtain ⟨spec, hspec, -⟩ := childOfSpec_some.mp h
  cases hspec

/-- What a Transaction's own saga opens. -/
theorem asSpecified_of_opening (hinv : Inv R w) {e : TransferEvent} (hd : runsSaga tid d = true)
    (hchild : childOfSpec w tid id = some child) (ho : Opening w d id e) :
    RollbackBegun (w.log tid) ∨
      (∃ i reason, e = .transferRequestRejected i reason) ∨
      ∃ amount, child.amount = some amount ∧
        e = .transferRequestAccepted (acceptedOf (requestFor tid child) amount) := by
  cases d with
  | resumeTransaction i =>
    obtain rfl : i = tid := by simpa [runsSaga] using hd
    cases ho with
    | @child _ childID spec child' amount hspec hget hreq =>
      obtain rfl := child_id hinv hspec hget
      obtain rfl : child' = child :=
        Option.some.inj ((childOfSpec_some.mpr ⟨spec, hspec, hget⟩).symm.trans hchild)
      exact Or.inr (Or.inr ⟨amount, (validateMoney_ok (validateRequest_money hreq)).1, rfl⟩)
    | childRejected => exact Or.inr (Or.inl ⟨_, _, rfl⟩)
    | undo _ _ hroll | undoRejected _ _ hroll => exact Or.inl hroll
  | _ => simp [runsSaga] at hd

/-- How a Transaction comes to have its spec. -/
theorem decodeSpec_step {r : Resp o} {spec : Spec} (hlegal : Legal R o w) (hx : w.Exec o r w')
    (h : decodeSpec (w'.log tid) = .ok spec) :
    decodeSpec (w.log tid) = .ok spec ∨ ∃ ws events, w.log tid = [] ∧
      decodeSpec events = .ok spec ∧ Appended R w w' o .transaction tid ws events := by
  rcases exec_stream hlegal hx .transaction tid with hsame | ⟨ws, events, happ⟩
  · left
    unfold World.log at h ⊢
    rwa [show w'.transaction tid = w.transaction tid from hsame] at h
  · rw [show w'.log tid = w.log tid ++ events from happ.events] at h
    cases hes : w.log tid with
    | nil =>
      rw [hes] at h
      exact Or.inr ⟨ws, events, rfl, h, happ⟩
    | cons e es =>
      left
      rw [hes] at h
      rw [← h]
      cases e <;> rfl

theorem childrenAsSpecified_step {tids : List Id} {r : Resp o} (hinv : Inv R w) (ht : tid ∈ tids)
    (h : ChildrenAsSpecified w tid) (hlegal : Legal R o w) (hopens : (opens d).ensure o w)
    (hg : OwnChildren tids d o w) (hx : w.Exec o r w') : ChildrenAsSpecified w' tid := by
  have hle : w ≤ w' := World.le_of_exec hx
  intro id child hchild e hopen
  obtain ⟨spec, hspec, hget⟩ := childOfSpec_some.mp hchild
  rcases decodeSpec_step hlegal hx hspec with hold | ⟨ws, events, hnil, hnew, happ⟩
  · have hbefore : childOfSpec w tid id = some child := childOfSpec_some.mpr ⟨spec, hold, hget⟩
    have hkeep (hw : RollbackBegun (w.log tid) ∨
        (∃ i reason, e = .transferRequestRejected i reason) ∨
        ∃ amount, child.amount = some amount ∧
          e = .transferRequestAccepted (acceptedOf (requestFor tid child) amount)) :
        RollbackBegun (w'.log tid) ∨ (∃ i reason, e = .transferRequestRejected i reason) ∨
          ∃ amount, child.amount = some amount ∧
            e = .transferRequestAccepted (acceptedOf (requestFor tid child) amount) :=
      hw.imp_left fun hb => hb.mono (World.log_grow hle tid).subset
    rcases opening_step hlegal hopens hx hopen with hold | ⟨hempty, hnew, ws, happ⟩
    · exact hkeep (h id child hbefore e hold)
    · obtain rfl := happ.op
      refine hkeep (asSpecified_of_opening hinv ?_ hbefore hnew)
      have hex : Exclusive d tid w ⟨.transfer, id, _, [e]⟩ := hg _ happ.mem tid ht
      refine hex ?_ (by rw [hempty]; rfl) (by rw [hbefore]; rfl)
      simpa using Opening.opensStream hnew
  · -- the streams of its children were empty, and stay so in this step
    exfalso
    obtain rfl := happ.op
    have hex : Exclusive d tid w ⟨.transaction, tid, _, events⟩ := hg _ happ.mem tid ht
    have hempty := hex rfl spec hnew id (List.mem_map_of_mem (GoMap.mem_of_get? hget))
    have halone : ws = [⟨.transaction, tid, _, events⟩] := hopens.2 _ happ.mem rfl
    rcases exec_stream hlegal hx .transfer id with hsame | ⟨ws', events', happ'⟩
    · unfold World.opening at hopen
      rw [show w'.transfer id = w.transfer id from hsame, List.isEmpty_iff.mp hempty] at hopen
      simp at hopen
    · have hws : ws' = ws := by simpa using happ'.op.symm
      have hm := happ'.mem
      rw [hws, halone] at hm
      simp at hm

theorem children_upheld (tids : List Id) : Upholds True (fun _ => True) (OwnChildren tids) opens
    (fun w => ∀ tid ∈ tids, ChildrenAsSpecified w tid) where
  init tid _ := childrenAsSpecified_init tid
  safe d fuel w _ := d.opens fuel w
  step d o w r w' hinv _ h hg hlegal hd hx tid ht :=
    childrenAsSpecified_step hinv ht (h tid ht) hlegal hd hg hx

/-- A Completed Transaction never began to roll back. -/
theorem WellFormed.completed_not_begun {es : List TransactionEvent} (h : WellFormed tid es)
    (hs : topLevelState es = .completed) : ¬ RollbackBegun es := by
  rintro ⟨i, reason, hm⟩
  obtain ⟨pre, e, e', rfl, he, hdec, htype⟩ := h.concluded hs (Or.inl rfl)
  have hwf : WellFormed tid pre := h.earlier (List.prefix_append _ _)
  cases e <;> simp [stateOf] at he
  have hbegun : RollbackBegun pre := by
    rcases List.mem_append.mp hm with hm | hm
    · exact ⟨i, reason, hm⟩
    · simp at hm
  have hrank := hwf.begun_rank hbegun
  rcases consequence_cases hdec with ⟨htop, -⟩ | ⟨-, _, -, -, -, ⟨r, rfl, -⟩ | ⟨r, rfl, -⟩⟩
  · rw [htop] at hrank
    simp [State.rank] at hrank
  · simp [TransactionEvent.eventType] at htype
  · simp [TransactionEvent.eventType] at htype

theorem outcome_of_rejected {i : Id} {reason : Text}
    (h : w.opening id = some (.transferRequestRejected i reason)) : w.outcome id = .rejected := by
  unfold World.opening at h
  obtain ⟨rest, hes⟩ := List.head?_eq_some_iff.mp h
  simp [World.outcome, hes, outcome, rejectedRequest]

/-- An accepted event carries exactly what the spec has of the child, for this
Transaction. -/
structure FollowsSpec (tid : Id) (child : TransferSpec) (a : TransferAccepted) : Prop where
  fromWalletID : a.fromWalletID = child.fromWalletID
  toWalletID : a.toWalletID = child.toWalletID
  amount : some a.amount = child.amount
  stage : a.stage = child.stage
  mintSource : a.mintSource = child.mintSource
  transactionID : a.transactionID = tid

/-- **A Completed Transaction ran exactly its spec**, where its children are left
to it: each one's stream opens with an acceptance that carries what the spec has.
So two such Transactions share no child. -/
theorem completed_ran_spec {tids : List Id} {c : System}
    (h : Pool.Reachable (freeRun (OwnChildren tids)) .init c) :
    (∀ tid ∈ tids, topLevelState (c.state.log tid) = .completed →
      ∃ i spec, (c.state.log tid).head? = some (.transactionInitialized i spec) ∧
        ∀ id child, spec.transfers.get? id = some child →
          ∃ a, c.state.opening id = some (.transferRequestAccepted a) ∧ FollowsSpec tid child a) ∧
    ∀ tid ∈ tids, ∀ tid' ∈ tids, topLevelState (c.state.log tid) = .completed →
      topLevelState (c.state.log tid') = .completed →
      ∀ id, (childOfSpec c.state tid id).isSome = true →
        (childOfSpec c.state tid' id).isSome = true → tid = tid' := by
  obtain ⟨hinv, hchildren⟩ := (reachable_upheld refusals_true (children_upheld tids) h).1
  have hcarries (tid : Id) (ht : tid ∈ tids) (hs : topLevelState (c.state.log tid) = .completed)
      (id : Id) (child : TransferSpec) (hchild : childOfSpec c.state tid id = some child) :
      ∃ a, c.state.opening id = some (.transferRequestAccepted a) ∧ FollowsSpec tid child a := by
    have hwf := (hinv.transaction tid).wellFormed
    obtain ⟨spec, hspec, hget⟩ := childOfSpec_some.mp hchild
    have hcommitted : c.state.outcome id = .committed := by
      obtain ⟨spec', hspec', hall⟩ := hwf.completed_children hs
      obtain rfl := Except.ok.inj (hspec.symm.trans hspec')
      obtain ⟨i, hm⟩ := hall id (List.mem_map_of_mem (GoMap.mem_of_get? hget))
      exact (hinv.transaction tid).backed _ hm
    have hne : c.state.transfer id ≠ [] := fun hnil => by
      simp [World.outcome, hnil, outcome] at hcommitted
    obtain ⟨e, he⟩ := World.opening_of_ne_nil hne
    rcases hchildren tid ht id child hchild e he with hroll | ⟨i, reason, rfl⟩ | ⟨amount, ha, rfl⟩
    · exact absurd hroll (hwf.completed_not_begun hs)
    · rw [outcome_of_rejected he] at hcommitted
      simp at hcommitted
    · exact ⟨_, he, rfl, rfl, ha.symm, rfl, rfl, rfl⟩
  refine ⟨fun tid ht hs => ?_, fun tid ht tid' ht' hs hs' id hc hc' => ?_⟩
  · obtain ⟨spec, hspec, -⟩ := (hinv.transaction tid).wellFormed.completed_children hs
    obtain ⟨i, rest, hlog⟩ := decodeSpec_mem hspec
    refine ⟨i, spec, by rw [hlog]; rfl, fun id child hget => ?_⟩
    exact hcarries tid ht hs id child (childOfSpec_some.mpr ⟨spec, hspec, hget⟩)
  · obtain ⟨child, hchild⟩ := Option.isSome_iff_exists.mp hc
    obtain ⟨child', hchild'⟩ := Option.isSome_iff_exists.mp hc'
    obtain ⟨a, ha, hcar⟩ := hcarries tid ht hs id child hchild
    obtain ⟨a', ha', hcar'⟩ := hcarries tid' ht' hs' id child' hchild'
    obtain rfl : a = a' := by simpa using ha.symm.trans ha'
    exact hcar.transactionID.symm.trans hcar'.transactionID

/-- The deposit, its child left to it. -/
def ownDeposit : List (Move (freeRun (OwnChildren [.uuid 2]))) := inTurn 0 deposit

theorem completed_ran_spec_deposit :
    topLevelState ((playedUnder ownDeposit).state.log (.uuid 2)) = .completed ∧
      ∃ i spec, ((playedUnder ownDeposit).state.log (.uuid 2)).head? =
          some (.transactionInitialized i spec) ∧
        ∀ id child, spec.transfers.get? id = some child →
          ∃ a, (playedUnder ownDeposit).state.opening id = some (.transferRequestAccepted a) ∧
            FollowsSpec (.uuid 2) child a := by
  have hs : topLevelState ((playedUnder ownDeposit).state.log (.uuid 2)) = .completed := by
    decide +kernel
  exact ⟨hs, (completed_ran_spec (playedUnder_reachable ownDeposit)).1 (.uuid 2)
    List.mem_cons_self hs⟩

/-- After the deposit a client moves the 100 on to Wallet `uuid 4`, by a Transfer
`uuid 6` of its own. Then two Transactions, `uuid 5` and `uuid 7`, are initialized
whose one child goes by that id, to bring 50 in to Wallet `uuid 1`. -/
def foreignChild : List (Move anyRun) :=
  inTurn 0 (deposit ++ [.openWallet ⟨.uuid 4, .uuid 100, "payee", .none⟩,
    .requestTransfer ⟨.uuid 6, .uuid 1, .uuid 4, some ⟨100, "USD"⟩, false, false, Id.empty⟩,
    .resumeTransfer (.uuid 6),
    .startInitializingTransaction (.uuid 5) (depositSpec (.uuid 6) (.uuid 0) (.uuid 1) ⟨50, "USD"⟩),
    .startInitializingTransaction (.uuid 7) (depositSpec (.uuid 6) (.uuid 0) (.uuid 1) ⟨50, "USD"⟩),
    .resumeTransaction (.uuid 5), .resumeTransaction (.uuid 7)])

/-- **A Transaction completes on a Transfer it never asked for**: both
Transactions are Completed, and the stream of their child opens with another
request, of other Wallets, another amount and no Transaction. -/
theorem foreign_child_completes :
    Pool.Reachable anyRun .init (played foreignChild) ∧
      topLevelState ((played foreignChild).state.log (.uuid 5)) = .completed ∧
      topLevelState ((played foreignChild).state.log (.uuid 7)) = .completed ∧
      childOfSpec (played foreignChild).state (.uuid 5) (.uuid 6) =
        some ⟨.uuid 6, some ⟨50, "USD"⟩, .uuid 0, .uuid 1, false, true⟩ ∧
      childOfSpec (played foreignChild).state (.uuid 7) (.uuid 6) =
        some ⟨.uuid 6, some ⟨50, "USD"⟩, .uuid 0, .uuid 1, false, true⟩ ∧
      (played foreignChild).state.opening (.uuid 6) = some (.transferRequestAccepted
        ⟨.uuid 6, .uuid 1, .uuid 4, ⟨100, "USD"⟩, false, Id.empty, false⟩) :=
  ⟨played_reachable _, by decide +kernel, by decide +kernel, by decide +kernel, by decide +kernel,
    by decide +kernel⟩

end MoneyFlow.Transaction
