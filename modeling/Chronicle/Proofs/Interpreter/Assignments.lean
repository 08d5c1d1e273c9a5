import Chronicle.Proofs.Interpreter.Selection

/-!
# What an assignment can come to

An assignment grows its target, asks its term, and mutates; each of the three can end it
(`Assignment.Comes`). What is proved of assignments is proved of these five ends, each of which
says what the store is then.

A sound term that has nothing to ask reads an event field: the field is forced to a kind and is
no numeral of that kind, or it is to be added and is no number (`Term.fails_of_mutation?`).
-/

namespace Chronicle

/-! ### Terms -/

namespace Value

/-- Forcing a value to a kind fails for a text only, and not if a text is asked for. -/
theorem coerce_eq_error {v : Value} {k : Kind} {e : CoercionError} (h : v.coerce k = .error e) :
    v = .text e.text ∧ e.kind = k ∧ k ≠ .string := by
  have hread : ∀ (bits : Nat) (kind : Kind) (s : String) (f : Int → Value),
      (readNumeral bits kind s).map f = .error e → e.text = s ∧ e.kind = kind := by
    intro bits kind s f h
    unfold readNumeral at h
    cases hr : Numeral.read bits (Text.trim s.toList) with
    | ok n =>
        rw [hr] at h
        cases h
    | error fault =>
        rw [hr] at h
        obtain rfl := Except.error.inj h
        exact ⟨rfl, rfl⟩
  cases v with
  | null =>
      rw [coerce_null] at h
      cases h
  | int n => cases k <;> cases h
  | long n => cases k <;> cases h
  | text s =>
      cases k with
      | int =>
          obtain ⟨rfl, hk⟩ := hread _ _ _ _ h
          exact ⟨rfl, hk, by decide⟩
      | long =>
          obtain ⟨rfl, hk⟩ := hread _ _ _ _ h
          exact ⟨rfl, hk, by decide⟩
      | string => cases h

/-- The value is an integer of 32 or 64 bits. -/
def isNumeric (v : Value) : Bool :=
  v.int?.isSome || v.long?.isSome

end Value

namespace Event

/-- The value of a field, forced to a kind if one is given. -/
def forced (e : Event) (name : String) : Option Kind → Except CoercionError Value
  | none => .ok (e.value name)
  | some kind => (e.value name).coerce kind

theorem forced_eq_error {e : Event} {name : String} {kind : Option Kind} {fault : CoercionError}
    (h : e.forced name kind = .error fault) :
    e.value name = .text fault.text ∧ kind = some fault.kind ∧ fault.kind ≠ .string := by
  cases kind with
  | none => cases h
  | some k =>
      obtain ⟨hv, rfl, hk⟩ := Value.coerce_eq_error h
      exact ⟨hv, rfl, hk⟩

end Event

namespace Source

variable {scope : Scope} {s : Store}

theorem val_evaluate_eventField (name : String) (kind : Option Kind) :
    (evaluate scope s (.eventField name kind)).val = scope.event.forced name kind := by
  cases kind <;> rfl

theorem val_evaluate_query (path : List Locator) :
    (evaluate scope s (.query path)).val = .ok ((scope.valueAt s path).val.getD .null) := by
  rw [evaluate, Observed.val_bind]
  cases (scope.valueAt s path).val <;> rfl

end Source

/-- What a value asks for with a stack action. -/
def StackAction.mutation? (v : Value) : StackAction → Option Mutation
  | .none => some (.set v)
  | .push => some (.push v)
  | .pop => some .pop
  | .peek => Option.none

namespace Term

/-- Why a sound term has nothing to ask, for an event. -/
inductive Fails (e : Event) (m : Term) : ChangeError → Prop
  | uncoercible {name : String} {kind : Option Kind} {fault : CoercionError} :
      m.source = .eventField name kind → e.forced name kind = .error fault →
        Fails e m (.uncoercible fault)
  | fieldDelta {name : String} {kind : Option Kind} {v : Value} :
      m.source = .eventField name kind → m.increment = true → e.forced name kind = .ok v →
        v.isNumeric = false → Fails e m (.fieldDelta name v)

variable {t : Table} {m : Term} {scope : Scope} {s : Store} {q : Quark} {error : ChangeError}

theorem fails_of_delta (hm : m.Sound t) (hi : m.increment = true) {e : Event}
    (h : m.source.delta e = .error error) : m.Fails e error := by
  have hcan := hm.increment hi
  cases hs : m.source with
  | literal v =>
      have hv := hm.literal v hs hi
      rw [hs] at h
      cases v with
      | int n => cases h
      | null => cases hv
      | long n => cases hv
      | text s => cases hv
  | eventField name kind =>
      cases hf : e.forced name kind with
      | error fault =>
          obtain ⟨-, rfl, -⟩ := Event.forced_eq_error hf
          rw [Event.forced] at hf
          simp only [hs, Source.delta, hf] at h
          obtain rfl := Except.error.inj h
          exact .uncoercible hs hf
      | ok v =>
          have hv : v.isNumeric = false ∧ error = .fieldDelta name v := by
            cases kind with
            | none =>
                rw [Event.forced] at hf
                obtain rfl := Except.ok.inj hf
                simp only [hs, Source.delta] at h
                cases hval : e.value name <;> simp only [hval] at h <;> cases h <;> exact ⟨rfl, rfl⟩
            | some k =>
                rw [Event.forced] at hf
                simp only [hs, Source.delta, hf] at h
                cases v <;> cases h <;> exact ⟨rfl, rfl⟩
          obtain ⟨hv, rfl⟩ := hv
          exact .fieldDelta hs hi hf hv
  | query path => rw [hs] at hcan; cases hcan
  | eventName => rw [hs] at hcan; cases hcan
  | delete => rw [hs] at hcan; cases hcan

theorem fails_of_evaluate {fault : CoercionError}
    (h : (m.source.evaluate scope s).val = .error fault) :
    m.Fails scope.event (.uncoercible fault) := by
  cases hs : m.source with
  | eventField name kind =>
      rw [hs, Source.val_evaluate_eventField] at h
      exact .uncoercible hs h
  | query path =>
      rw [hs, Source.val_evaluate_query] at h
      cases h
  | literal v => rw [hs] at h; cases h
  | eventName => rw [hs] at h; cases h
  | delete => rw [hs] at h; cases h

/-- A term that removes asks for nothing else, one that increments adds what its source gives, and
all others use the value of their source. -/
theorem val_mutation? : (m.mutation? scope s q).val =
    if m.source.isDelete then .ok (some .remove)
    else if m.increment then (m.source.delta scope.event).map fun n => some (.increment n)
    else match (m.source.evaluate scope s).val with
      | .error fault => .error (.uncoercible fault)
      | .ok v => .ok (m.stack.mutation? v) := by
  unfold mutation?
  split
  · rfl
  · split
    · rfl
    · rw [Observed.val_bind]
      cases (m.source.evaluate scope s).val with
      | error fault => rfl
      | ok v => cases m.stack <;> rfl

/-- What makes a term ask for a mutation. -/
inductive Wants (scope : Scope) (s : Store) (m : Term) : Mutation → Prop
  | remove : m.source.isDelete = true → Wants scope s m .remove
  | increment {delta : Int32} : m.increment = true → m.source.delta scope.event = .ok delta →
      Wants scope s m (.increment delta)
  | set {v : Value} : m.stack = .none → (m.source.evaluate scope s).val = .ok v →
      Wants scope s m (.set v)
  | push {v : Value} : m.stack = .push → (m.source.evaluate scope s).val = .ok v →
      Wants scope s m (.push v)
  | pop {v : Value} : m.stack = .pop → (m.source.evaluate scope s).val = .ok v →
      Wants scope s m .pop

theorem wants_of_mutation? {mutation : Mutation}
    (h : (m.mutation? scope s q).val = .ok (some mutation)) : m.Wants scope s mutation := by
  rw [val_mutation?] at h
  split at h
  · next hd =>
    obtain rfl := Option.some.inj (Except.ok.inj h)
    exact .remove hd
  · split at h
    · next hi =>
      cases hd : m.source.delta scope.event with
      | error e => rw [hd] at h; cases h
      | ok delta =>
          rw [hd] at h
          obtain rfl := Option.some.inj (Except.ok.inj h)
          exact .increment hi hd
    · split at h
      · cases h
      · next v he =>
        cases hs : m.stack with
        | peek => rw [hs] at h; cases h
        | none => rw [hs] at h; cases h; exact .set hs he
        | push => rw [hs] at h; cases h; exact .push hs he
        | pop => rw [hs] at h; cases h; exact .pop hs he

/-- **A sound term has nothing to ask for one of two reasons.** -/
theorem fails_of_mutation? (hm : m.Sound t)
    (h : (m.mutation? scope s q).val = .error error) : m.Fails scope.event error := by
  rw [val_mutation?] at h
  split at h
  · cases h
  · split at h
    · next hi =>
      cases hd : m.source.delta scope.event with
      | ok n => rw [hd] at h; cases h
      | error e =>
          rw [hd] at h
          obtain rfl := Except.error.inj h
          exact fails_of_delta hm hi hd
    · split at h
      · next fault he =>
        obtain rfl := Except.error.inj h
        exact fails_of_evaluate he
      · cases h

end Term

/-! ### Assignments -/

namespace Assignment

/-- What an assignment comes to: whether it fails, the store that it leaves, and the attributes
that it tried to mutate. -/
inductive Comes (scope : Scope) (s : Store) (a : Assignment) :
    Except ChangeError Unit → Store → List Quark → Prop
  | lost {u : Unresolved} : (scope.grow s Quark.root a.target).result = .error u →
      Comes scope s a (.error (.attributeNotFound a.target))
        (scope.grow s Quark.root a.target).store []
  | failed {q : Quark} {e : ChangeError} : (scope.grow s Quark.root a.target).result = .ok q →
      (a.term.mutation? scope (scope.grow s Quark.root a.target).store q).val = .error e →
        Comes scope s a (.error e) (scope.grow s Quark.root a.target).store []
  | looked {q : Quark} : (scope.grow s Quark.root a.target).result = .ok q →
      (a.term.mutation? scope (scope.grow s Quark.root a.target).store q).val = .ok none →
        Comes scope s a (.ok ()) (scope.grow s Quark.root a.target).store []
  | done {q : Quark} {m : Mutation} {after : Store} :
      (scope.grow s Quark.root a.target).result = .ok q →
      (a.term.mutation? scope (scope.grow s Quark.root a.target).store q).val = .ok (some m) →
      (scope.grow s Quark.root a.target).store.mutate q scope.event.timestamp m = .ok after →
        Comes scope s a (.ok ()) after [q]
  | refused {q : Quark} {m : Mutation} {r : Store.Refusal} :
      (scope.grow s Quark.root a.target).result = .ok q →
      (a.term.mutation? scope (scope.grow s Quark.root a.target).store q).val = .ok (some m) →
      (scope.grow s Quark.root a.target).store.mutate q scope.event.timestamp m = .error r →
        Comes scope s a (.error (.refused r)) (scope.grow s Quark.root a.target).store [q]

variable (scope : Scope) (s : Store) (a : Assignment)

/-- **An assignment ends in one of five ways.** -/
theorem comes : a.Comes scope s (perform scope s (some a)).failures
    (perform scope s (some a)).store (perform scope s (some a)).tried := by
  unfold perform Change.assignTo
  cases hq : (scope.grow s Quark.root a.target).result with
  | error u => simpa only [hq] using .lost hq
  | ok q =>
      cases ha : (a.term.mutation? scope (scope.grow s Quark.root a.target).store q).val with
      | error e => simpa only [hq, ha] using .failed hq ha
      | ok asked =>
          cases asked with
          | none => simpa only [hq, ha] using .looked hq ha
          | some m =>
              cases hm : (scope.grow s Quark.root a.target).store.mutate q
                scope.event.timestamp m with
              | ok after => simpa only [hq, ha, hm] using .done hq ha hm
              | error r => simpa only [hq, ha, hm] using .refused hq ha hm

variable {scope s a}

/-- Each end tells what was done. -/
theorem Comes.eq {result : Except ChangeError Unit} {after : Store} {tried : List Quark}
    (h : a.Comes scope s result after tried) :
    (perform scope s (some a)).failures = result ∧ (perform scope s (some a)).store = after ∧
      (perform scope s (some a)).tried = tried := by
  unfold perform Change.assignTo
  cases h with
  | lost hq => simp only [hq, and_self]
  | failed hq ha => simp only [hq, ha, and_self]
  | looked hq ha => simp only [hq, ha, and_self]
  | done hq ha hm => simp only [hq, ha, hm, and_self]
  | refused hq ha hm => simp only [hq, ha, hm, and_self]

end Assignment
end Chronicle
