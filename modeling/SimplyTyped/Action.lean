import SimplyTyped.Failure

/-!
# SimplyTyped.Action — operations on a state that print and may fail

An action maps a state to a reply: the state after it, what it printed, and its answer.  State and printed text survive
a failure.
-/

namespace SimplyTyped

/-- What comes back from an action. -/
structure Reply (σ α : Type) where
  state : σ
  printed : String
  answer : Except Failure α

/-- An operation on a state. -/
def Action (σ α : Type) := σ → Reply σ α

namespace Action

variable {σ α β : Type}

/-- The action that does nothing. -/
def done (a : α) : Action σ α := fun s => ⟨s, "", .ok a⟩

/-- One action after the other, unless the first one fails. -/
def andThen (act : Action σ α) (next : α → Action σ β) : Action σ β := fun s =>
  let r := act s
  match r.answer with
  | .error e => ⟨r.state, r.printed, .error e⟩
  | .ok a =>
    let r' := next a r.state
    ⟨r'.state, r.printed ++ r'.printed, r'.answer⟩

instance : Monad (Action σ) where
  pure := done
  bind := andThen

@[simp] theorem pure_apply (a : α) (s : σ) : (pure a : Action σ α) s = ⟨s, "", .ok a⟩ := rfl

/-- After an answer the next action goes on from the state that the first one left. -/
theorem bind_of_ok {act : Action σ α} {next : α → Action σ β} {s : σ} {a : α} (h : (act s).answer = .ok a) :
    (act >>= next) s = ⟨(next a (act s).state).state, (act s).printed ++ (next a (act s).state).printed,
      (next a (act s).state).answer⟩ := by
  show andThen act next s = _
  simp only [andThen, h]

/-- A failure hides the next action and keeps state and printed text. -/
theorem bind_of_error {act : Action σ α} {next : α → Action σ β} {s : σ} {e : Failure}
    (h : (act s).answer = .error e) : (act >>= next) s = ⟨(act s).state, (act s).printed, .error e⟩ := by
  show andThen act next s = _
  simp only [andThen, h]

/-- The state. -/
def get : Action σ σ := fun s => ⟨s, "", .ok s⟩

/-- Changes the state. -/
def modify (f : σ → σ) : Action σ Unit := fun s => ⟨f s, "", .ok ()⟩

/-- Prints a line. -/
def print (line : String) : Action σ Unit := fun s => ⟨s, line ++ "\n", .ok ()⟩

/-- Fails. -/
def fail (e : Failure) : Action σ α := fun s => ⟨s, "", .error e⟩

/-- Takes an answer that was found without the state. -/
def ofExcept : Except Failure α → Action σ α
  | .ok a => done a
  | .error e => fail e

/-- An action on a part of the state. -/
def onPart {τ : Type} (part : σ → τ) (withPart : τ → σ → σ) (act : Action τ α) : Action σ α := fun s =>
  let r := act (part s)
  ⟨withPart r.state s, r.printed, r.answer⟩

/-- Changes the failure of an action. -/
def mapFailure (f : Failure → Failure) (act : Action σ α) : Action σ α := fun s =>
  let r := act s
  ⟨r.state, r.printed, r.answer.mapError f⟩

/-- An action with another one behind it, whether or not it fails. -/
def afterwards (act : Action σ α) (change : σ → σ) : Action σ α := fun s =>
  let r := act s
  ⟨change r.state, r.printed, r.answer⟩

/-! ## What a sequence begins with -/

theorem get_bind (next : σ → Action σ β) (s : σ) : (get >>= next) s = next s s := by
  rw [bind_of_ok (a := s) rfl]
  simp [get]

theorem modify_bind (f : σ → σ) (next : Unit → Action σ β) (s : σ) : (modify f >>= next) s = next () (f s) := by
  rw [bind_of_ok (a := ()) rfl]
  simp [modify]

theorem print_bind (line : String) (next : Unit → Action σ β) (s : σ) :
    (print line >>= next) s = ⟨(next () s).state, line ++ "\n" ++ (next () s).printed, (next () s).answer⟩ :=
  bind_of_ok rfl

theorem fail_bind (e : Failure) (next : α → Action σ β) (s : σ) : (fail e >>= next) s = ⟨s, "", .error e⟩ :=
  bind_of_error rfl

theorem ofExcept_ok_bind (a : α) (next : α → Action σ β) (s : σ) : (ofExcept (.ok a) >>= next) s = next a s := by
  rw [bind_of_ok (a := a) rfl]
  simp [ofExcept, done]

theorem ofExcept_error_bind (e : Failure) (next : α → Action σ β) (s : σ) :
    (ofExcept (.error e) >>= next) s = ⟨s, "", .error e⟩ := bind_of_error rfl

end Action

end SimplyTyped
