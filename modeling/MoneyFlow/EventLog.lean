import Mathlib

/-!
# MoneyFlow.EventLog

What the event log promises: the module `spec/eventlog.tla`, over any ids,
commands, events and requests, finite or not.

A request asks for a command on an id. It is answered by deciding the command,
by replaying an earlier decision, or with `unknown`, which promises nothing.
`Promises` are the specification's invariants about decisions and answers, and
`promises_of_reachable` says that `Next` keeps them; a design that refines `Next`
inherits them.
-/

namespace MoneyFlow.EventLog

open Function

variable {Ids Commands Events Requests : Type}

/-- What a request is told. -/
inductive Answer (Events : Type)
  | event (e : Events)
  | unknown

/-- Each id's stream of events, what each request asked for, and what it was
told. -/
structure State (Ids Commands Events Requests : Type) where
  log : Ids → List Events
  request : Requests → Option (Ids × Commands)
  answer : Requests → Option (Answer Events)

/-- Every command has an event, and no two share one. -/
structure HandlersAreWellFormed (Handlers : Commands → Set Events) : Prop where
  nonempty : ∀ c, (Handlers c).Nonempty
  disjoint : ∀ c d, c ≠ d → Handlers c ∩ Handlers d = ∅

/-- The positions in stream `s` holding the decision of `c`. -/
def DecidedAt (Handlers : Commands → Set Events) (s : List Events) (c : Commands) : Set Nat :=
  {i | ∃ e ∈ Handlers c, s[i]? = some e}

def Init (st : State Ids Commands Events Requests) : Prop :=
  (∀ id, st.log id = []) ∧ (∀ r, st.request r = none) ∧ ∀ r, st.answer r = none

section Actions

variable [DecidableEq Ids] [DecidableEq Requests] (Handlers : Commands → Set Events)
variable (st st' : State Ids Commands Events Requests) (r : Requests)

def Submit : Prop :=
  st.request r = none ∧
    ∃ id c, st' = { st with request := update st.request r (some (id, c)) }

/-- The command of `r` is undecided, so it is decided now. -/
def Decide : Prop :=
  ∃ id c, st.request r = some (id, c) ∧ st.answer r = none ∧
    DecidedAt Handlers (st.log id) c = ∅ ∧
    ∃ e ∈ Handlers c, ∃ a, (a = .event e ∨ a = .unknown) ∧
      st' = { st with
        log := update st.log id (st.log id ++ [e])
        answer := update st.answer r (some a) }

/-- The command of `r` was already decided, and `r` is told as what. -/
def Replay : Prop :=
  ∃ id c, st.request r = some (id, c) ∧ st.answer r = none ∧
    ∃ i ∈ DecidedAt Handlers (st.log id) c, ∃ e, (st.log id)[i]? = some e ∧
      st' = { st with answer := update st.answer r (some (.event e)) }

/-- `r` is told `unknown`, and nothing is decided. -/
def GiveUp : Prop :=
  st.request r ≠ none ∧ st.answer r = none ∧
    st' = { st with answer := update st.answer r (some .unknown) }

def Done : Prop := (∀ r, st.answer r ≠ none) ∧ st' = st

def Next : Prop :=
  (∃ r, Submit st st' r ∨ Decide Handlers st st' r ∨ Replay Handlers st st' r ∨ GiveUp st st' r) ∨
    Done st st'

/-- `[Next]_vars`: a step, or nothing changes. -/
def Steps : Prop := Next Handlers st st' ∨ st' = st

end Actions

/-! ### The promises -/

/-- What holds in every state. -/
structure Promises (Handlers : Commands → Set Events) (st : State Ids Commands Events Requests) :
    Prop where
  /-- `AtMostOneDecisionPerCommand` -/
  once : ∀ id c i j, i ∈ DecidedAt Handlers (st.log id) c → j ∈ DecidedAt Handlers (st.log id) c →
    i = j
  /-- `AnswersAreRecordedDecisions` -/
  recorded : ∀ r e, st.answer r = some (.event e) →
    ∃ id c, st.request r = some (id, c) ∧ e ∈ Handlers c ∧ e ∈ st.log id

variable {Handlers : Commands → Set Events} {st st' : State Ids Commands Events Requests}

theorem Promises.init (h : Init st) : Promises Handlers st where
  once id c i j hi _ := by
    obtain ⟨e, -, hi⟩ := hi
    simp [h.1 id] at hi
  recorded r e ha := by
    rw [h.2.2 r] at ha
    cases ha

/-- Answering one request with what is on record keeps the promises. -/
theorem Promises.answered [DecidableEq Requests] (h : Promises Handlers st)
    {r : Requests} {a : Answer Events}
    (hrec : ∀ e, a = .event e →
      ∃ id c, st.request r = some (id, c) ∧ e ∈ Handlers c ∧ e ∈ st.log id) :
    Promises Handlers { st with answer := update st.answer r (some a) } where
  once := h.once
  recorded r' e ha := by
    by_cases hr : r' = r
    · subst hr
      exact hrec e (by simpa using ha)
    · exact h.recorded r' e (by simpa [hr] using ha)

/-- Deciding an undecided command keeps the promises, before anyone is told. -/
theorem Promises.decided [DecidableEq Ids] (hH : HandlersAreWellFormed Handlers)
    (h : Promises Handlers st) {id : Ids} {c : Commands} {e : Events} (he : e ∈ Handlers c)
    (hno : DecidedAt Handlers (st.log id) c = ∅) :
    Promises Handlers { st with log := update st.log id (st.log id ++ [e]) } where
  once id' d i j hi hj := by
    by_cases hid : id' = id
    · subst hid
      -- a position decided for `d` is the new one, or an old one of another command
      have hsplit : ∀ k ∈ DecidedAt Handlers (st.log id' ++ [e]) d,
          k ∈ DecidedAt Handlers (st.log id') d ∨ (k = (st.log id').length ∧ d = c) := by
        rintro k ⟨e', he', hk⟩
        rw [List.getElem?_append] at hk
        split at hk
        · exact Or.inl ⟨e', he', hk⟩
        · obtain rfl := List.mem_singleton.mp (List.mem_of_getElem? hk)
          have hlt := (List.getElem?_eq_some_iff.mp hk).1
          rw [List.length_singleton] at hlt
          refine Or.inr ⟨by omega, ?_⟩
          by_contra hne
          exact absurd ⟨he', he⟩ (hH.disjoint d c hne ▸ Set.notMem_empty e')
      simp only [update_self] at hi hj
      rcases hsplit i hi with hi | ⟨rfl, rfl⟩
      · rcases hsplit j hj with hj | ⟨rfl, rfl⟩
        · exact h.once _ _ i j hi hj
        · exact absurd hi (hno ▸ Set.notMem_empty i)
      · rcases hsplit j hj with hj | ⟨rfl, -⟩
        · exact absurd hj (hno ▸ Set.notMem_empty j)
        · rfl
    · simp only [update_of_ne hid] at hi hj
      exact h.once id' d i j hi hj
  recorded r e' ha := by
    obtain ⟨id', d, hr, he', hin⟩ := h.recorded r e' ha
    refine ⟨id', d, hr, he', ?_⟩
    by_cases hid : id' = id
    · subst hid
      simpa using Or.inl hin
    · simpa [update_of_ne hid] using hin

variable [DecidableEq Ids] [DecidableEq Requests]

/-- Every step keeps the promises. -/
theorem Promises.next (hH : HandlersAreWellFormed Handlers) (h : Promises Handlers st)
    (hs : Next Handlers st st') : Promises Handlers st' := by
  rcases hs with ⟨r, hsub | hdec | hrep | hgive⟩ | ⟨-, rfl⟩
  · obtain ⟨hnone, id, c, rfl⟩ := hsub
    refine ⟨h.once, fun r' e ha => ?_⟩
    obtain ⟨id', d, hr, he⟩ := h.recorded r' e ha
    have hne : r' ≠ r := by
      rintro rfl
      exact nomatch hnone.symm.trans hr
    exact ⟨id', d, by simpa [update_of_ne hne] using hr, he⟩
  · obtain ⟨id, c, hr, -, hno, e, he, a, ha, rfl⟩ := hdec
    refine (h.decided hH he hno).answered fun e' he' => ⟨id, c, hr, ?_⟩
    obtain rfl : e = e' := by
      rcases ha with rfl | rfl
      · exact Answer.event.inj he'
      · cases he'
    exact ⟨he, by simp⟩
  · obtain ⟨id, c, hr, -, i, ⟨e, he, hi⟩, e', hi', rfl⟩ := hrep
    refine h.answered fun e'' he'' => ⟨id, c, hr, ?_⟩
    obtain rfl := Answer.event.inj he''
    obtain rfl := Option.some.inj (hi.symm.trans hi')
    exact ⟨he, List.mem_of_getElem? hi⟩
  · obtain ⟨-, -, rfl⟩ := hgive
    exact h.answered fun e he => nomatch he
  · exact h

/-- In every state of every behaviour the promises hold. -/
theorem promises_of_reachable (hH : HandlersAreWellFormed Handlers)
    {s0 : State Ids Commands Events Requests} (h0 : Init s0)
    (h : Relation.ReflTransGen (Steps Handlers) s0 st) : Promises Handlers st := by
  induction h with
  | refl => exact .init h0
  | tail _ hs ih =>
    rcases hs with hs | rfl
    · exact ih.next hH hs
    · exact ih

end MoneyFlow.EventLog
