import ThreeAddress.Error
import ThreeAddress.Event

/-!
# Outcomes

Operations are functions. One that cannot fail returns its value with the events it caused
(`Logged`). One that can fail returns an `Outcome`: a result, the state it left behind and the
events. The state is there after a failure too, because some work may have been done by then. Outcomes
that differ in their events at most are said to agree (`Outcome.Agrees`).
-/

namespace ThreeAddress

/-- A value with the events that producing it caused. -/
structure Logged (α : Type) where
  value : α
  log : List Event
deriving DecidableEq, Repr

namespace Logged

instance : Monad Logged where
  pure a := ⟨a, []⟩
  bind x f := ⟨(f x.value).value, x.log ++ (f x.value).log⟩

@[simp] theorem value_pure {α : Type} (a : α) : (pure a : Logged α).value = a := rfl

@[simp] theorem log_pure {α : Type} (a : α) : (pure a : Logged α).log = [] := rfl

@[simp] theorem value_bind {α β : Type} (x : Logged α) (f : α → Logged β) :
    (x >>= f).value = (f x.value).value := rfl

@[simp] theorem log_bind {α β : Type} (x : Logged α) (f : α → Logged β) :
    (x >>= f).log = x.log ++ (f x.value).log := rfl

end Logged

/-- What an operation on a state comes to: its result, the state after it, and the events in
order. -/
structure Outcome (σ α : Type) where
  result : Except Error α
  state : σ
  log : List Event

namespace Outcome

variable {σ τ α β γ : Type}

/-- Success, with the state it leaves and the events it caused. -/
def ok (a : α) (state : σ) (log : List Event) : Outcome σ α := ⟨.ok a, state, log⟩

/-- Failure, with the state it leaves and the events it caused. -/
def fail (e : Error) (state : σ) (log : List Event) : Outcome σ α := ⟨.error e, state, log⟩

/-- One operation after another. The second starts from the state and the result of the first,
and is left out if the first failed. -/
def andThen (first : Outcome σ α) (next : α → σ → Outcome σ β) : Outcome σ β :=
  match first.result with
  | .error e => ⟨.error e, first.state, first.log⟩
  | .ok a =>
    let second := next a first.state
    ⟨second.result, second.state, first.log ++ second.log⟩

/-- The outcome with events put in front of its own. -/
def after (events : List Event) (o : Outcome σ α) : Outcome σ α := { o with log := events ++ o.log }

/-- The outcome as one of an operation on a larger state, of which `embed` sets the part. -/
def within (o : Outcome σ α) (embed : σ → τ) : Outcome τ α := ⟨o.result, embed o.state, o.log⟩

@[simp] theorem result_ok (a : α) (s : σ) (log : List Event) : (ok a s log).result = .ok a := rfl

@[simp] theorem state_ok (a : α) (s : σ) (log : List Event) : (ok a s log).state = s := rfl

@[simp] theorem result_fail (e : Error) (s : σ) (log : List Event) :
    (fail e s log : Outcome σ α).result = .error e := rfl

@[simp] theorem state_fail (e : Error) (s : σ) (log : List Event) :
    (fail e s log : Outcome σ α).state = s := rfl

@[simp] theorem ok_andThen (a : α) (s : σ) (log : List Event) (next : α → σ → Outcome σ β) :
    (ok a s log).andThen next = (next a s).after log := rfl

@[simp] theorem fail_andThen (e : Error) (s : σ) (log : List Event)
    (next : α → σ → Outcome σ β) : (fail e s log).andThen next = fail e s log := rfl

@[simp] theorem result_after (events : List Event) (o : Outcome σ α) :
    (o.after events).result = o.result := rfl

@[simp] theorem state_after (events : List Event) (o : Outcome σ α) :
    (o.after events).state = o.state := rfl

@[simp] theorem result_within (o : Outcome σ α) (embed : σ → τ) :
    (o.within embed).result = o.result := rfl

@[simp] theorem state_within (o : Outcome σ α) (embed : σ → τ) :
    (o.within embed).state = embed o.state := rfl

/-! ## One operation after another -/

variable {o : Outcome σ α}

theorem andThen_of_ok {a : α} (h : o.result = .ok a) (next : α → σ → Outcome σ β) :
    (o.andThen next).result = (next a o.state).result ∧
      (o.andThen next).state = (next a o.state).state := by
  unfold andThen
  rw [h]; exact ⟨rfl, rfl⟩

theorem andThen_of_error {e : Error} (h : o.result = .error e) (next : α → σ → Outcome σ β) :
    (o.andThen next).result = .error e ∧ (o.andThen next).state = o.state := by
  unfold andThen
  rw [h]; exact ⟨rfl, rfl⟩

theorem andThen_assoc (o : Outcome σ α) (f : α → σ → Outcome σ β) (g : β → σ → Outcome σ γ) :
    (o.andThen f).andThen g = o.andThen fun a s => (f a s).andThen g := by
  obtain ⟨result, state, log⟩ := o
  cases result with
  | error e => rfl
  | ok a =>
    unfold andThen
    simp only
    cases (f a state).result with
    | error e => rfl
    | ok b => simp only [List.append_assoc]

theorem after_andThen (events : List Event) (o : Outcome σ α) (next : α → σ → Outcome σ β) :
    (o.after events).andThen next = (o.andThen next).after events := by
  obtain ⟨result, state, log⟩ := o
  cases result with
  | error e => rfl
  | ok a => simp only [after, andThen, List.append_assoc]

/-- Two outcomes **agree** if they differ in their journals at most. -/
structure Agrees (o o' : Outcome σ α) : Prop where
  result : o.result = o'.result
  state : o.state = o'.state

namespace Agrees

variable {o' o'' : Outcome σ α}

theorem symm (h : o.Agrees o') : o'.Agrees o := ⟨h.result.symm, h.state.symm⟩

theorem trans (h : o.Agrees o') (h' : o'.Agrees o'') : o.Agrees o'' :=
  ⟨h.result.trans h'.result, h.state.trans h'.state⟩

/-- Operations in sequence agree if the first ones do, and the second ones do from there. -/
theorem andThen {f g : α → σ → Outcome σ β} (h : o.Agrees o')
    (hnext : ∀ a, o.result = .ok a → (f a o.state).Agrees (g a o.state)) :
    (o.andThen f).Agrees (o'.andThen g) := by
  cases hr : o.result with
  | error e =>
    obtain ⟨h1, h2⟩ := andThen_of_error hr f
    obtain ⟨h1', h2'⟩ := andThen_of_error (h.result.symm.trans hr) g
    exact ⟨h1.trans h1'.symm, h2.trans (h.state.trans h2'.symm)⟩
  | ok a =>
    obtain ⟨h1, h2⟩ := andThen_of_ok hr f
    obtain ⟨h1', h2'⟩ := andThen_of_ok (h.result.symm.trans hr) g
    rw [← h.state] at h1' h2'
    have hrest := hnext a hr
    exact ⟨h1.trans (hrest.result.trans h1'.symm), h2.trans (hrest.state.trans h2'.symm)⟩

end Agrees

end Outcome

end ThreeAddress
