import MoneyFlow.Books.Accounting

/-!
# MoneyFlow.Books.Lifecycle

How far a Transaction is, as Go has it and as Ruby's read model shows it.

`ruby/app/consumer/projector.rb` applies an event only above the row's high-water mark,
so what the read model shows is a state Go reached, and never one before what it showed.
-/

namespace MoneyFlow.Books

variable {s t : Option TransactionState} {b : State} {x : Running}

/-! ### The order of states -/

/-- Every state on the way to one, itself included. -/
def path : TransactionState → List TransactionState
  | .initialized => [.initialized]
  | .started => [.initialized, .started]
  | .completed => [.initialized, .started, .completed]
  | .rollbackStarted => [.initialized, .started, .rollbackStarted]
  | .rolledBack => [.initialized, .started, .rollbackStarted, .rolledBack]
  | .rollbackFailed => [.initialized, .started, .rollbackStarted, .rollbackFailed]
  | .rejected => [.initialized, .rejected]

/-- The first is no further than the second; `none` is a Transaction not seen yet. -/
def Upto : Option TransactionState → Option TransactionState → Prop
  | none, _ => True
  | some s, some t => s ∈ path t
  | some _, none => False

instance : ∀ s t, Decidable (Upto s t)
  | none, _ => inferInstanceAs (Decidable True)
  | some s, some t => inferInstanceAs (Decidable (s ∈ path t))
  | some _, none => inferInstanceAs (Decidable False)

theorem mem_path_self (s : TransactionState) : s ∈ path s := by
  cases s <;> decide

theorem path_trans {s t u : TransactionState} (h : s ∈ path t) (h' : t ∈ path u) : s ∈ path u := by
  revert h h'
  cases s <;> cases t <;> cases u <;> decide

theorem Upto.refl (s : Option TransactionState) : Upto s s := by
  cases s with
  | none => trivial
  | some s => exact mem_path_self s

theorem Upto.trans {u : Option TransactionState} (h : Upto s t) (h' : Upto t u) : Upto s u := by
  match s, t, u, h, h' with
  | none, _, _, _, _ => trivial
  | some _, some _, some _, h, h' => exact path_trans h h'

/-- It completed, or it ended with nothing moved. -/
def concluded : Option TransactionState → Bool
  | some .completed | some .rejected | some .rolledBack => true
  | _ => false

/-- It completed, or may still. -/
def mayComplete : Option TransactionState → Bool
  | none | some .initialized | some .started | some .completed => true
  | _ => false

/-- What has concluded stays as it is. -/
theorem Upto.eq_of_concluded (h : Upto s t) (hs : concluded s = true) : t = s := by
  match s, t, h, hs with
  | some s, some t, h, hs =>
    change s ∈ path t at h
    revert h hs
    cases s <;> cases t <;> decide

/-- What may still complete could before. -/
theorem Upto.mayComplete (h : Upto s t) (ht : Books.mayComplete t = true) :
    Books.mayComplete s = true := by
  match s, t, h, ht with
  | none, _, _, _ => rfl
  | some s, some t, h, ht =>
    change s ∈ path t at h
    revert h ht
    cases s <;> cases t <;> decide

/-- Of what has concluded, only what completed may complete. -/
theorem mayComplete_of_concluded (h : concluded s = true) :
    mayComplete s = decide (s = some .completed) := by
  cases s with
  | none => cases h
  | some s =>
    revert h
    cases s <;> decide

/-! ### Where Go is -/

/-- How far Go is with a Transaction. -/
def State.stateOf (b : State) (id : Uuid) : Option TransactionState :=
  (b.txns.find? fun x => x.origin.request.id = id).map (·.state)

theorem State.Sound.stateOf_eq (h : b.Sound) (hx : x ∈ b.txns) :
    b.stateOf x.origin.request.id = some x.state := by
  unfold State.stateOf
  cases hfind : b.txns.find? fun y => y.origin.request.id = x.origin.request.id with
  | none =>
    have hne := List.find?_eq_none.mp hfind x hx
    simp at hne
  | some y =>
    have hid : y.origin.request.id = x.origin.request.id := by
      simpa using List.find?_some hfind
    have hyx : y = x := List.inj_on_of_nodup_map h.ids (List.mem_of_find?_eq_some hfind) hx hid
    rw [hyx]
    rfl

theorem State.exists_of_stateOf {id : Uuid} {state : TransactionState}
    (h : b.stateOf id = some state) : ∃ x ∈ b.txns, x.origin.request.id = id ∧ x.state = state := by
  obtain ⟨x, hfind, hstate⟩ := Option.map_eq_some_iff.mp h
  exact ⟨x, List.mem_of_find?_eq_some hfind, by simpa using List.find?_some hfind, hstate⟩

/-- A state the Transaction may go on to is after the one it is in. -/
theorem Running.May.mem_path {state : TransactionState} (h : x.May state) :
    x.state ∈ path state := by
  cases state with
  | initialized | rejected => exact h.elim
  | started => rw [show x.state = .initialized from h]; decide
  | completed | rollbackStarted | rolledBack | rollbackFailed => rw [h.1]; decide

/-- A Transaction stays, and only goes on. -/
theorem Step.advances {b' : State} {m : Move} (hstep : Step b m b') (hx : x ∈ b.txns) :
    ∃ x' ∈ b'.txns, x'.origin = x.origin ∧ x.state ∈ path x'.state := by
  cases hstep with
  | add origin state hnew hm => exact ⟨x, List.mem_append_left _ hx, rfl, mem_path_self _⟩
  | become i y state hy hmay =>
    by_cases hxy : x = y
    · subst hxy
      refine ⟨{ x with state := state }, ?_, rfl, hmay.mem_path⟩
      exact List.mem_set (List.getElem?_eq_some_iff.mp hy).1 _
    · exact ⟨x, Concurrent.mem_set_of_ne _ hx hy hxy, rfl, mem_path_self _⟩
  | leg i j y leg c hy hleg hc =>
    by_cases hxy : x = y
    · subst hxy
      refine ⟨x.setLeg j leg c.state, ?_, rfl, mem_path_self _⟩
      exact List.mem_set (List.getElem?_eq_some_iff.mp hy).1 _
    · exact ⟨x, Concurrent.mem_set_of_ne _ hx hy hxy, rfl, mem_path_self _⟩

/-- Go only ever gets further. -/
theorem Step.upto {b' : State} {m : Move} (hstep : Step b m b') (h : b.Sound) (id : Uuid) :
    Upto (b.stateOf id) (b'.stateOf id) := by
  cases hs : b.stateOf id with
  | none => trivial
  | some state =>
    obtain ⟨x, hx, rfl, rfl⟩ := State.exists_of_stateOf hs
    obtain ⟨x', hx', horigin, hpath⟩ := hstep.advances hx
    have hx'' := (hstep.sound h).stateOf_eq hx'
    rw [horigin] at hx''
    rw [hx'']
    exact hpath

end MoneyFlow.Books
