namespace LineShell
namespace Steps

/-!
# What runs of steps come to

Reading a line and acting on a session are steps that carry a state along and
may stop at a fault.  A statement about such a step speaks of its result on one
state, or compares its results on two.  Both kinds of statement are built up
along the sequence of steps, so the rule for a sequence is the one that every
proof about a longer step uses.
-/

variable {ε σ α β γ δ : Type}

/-! ## One run -/

theorem get_bind (next : σ -> EStateM ε σ α) (state : σ) :
    ((get : EStateM ε σ σ) >>= next) state = next state state := rfl

theorem modify_bind (change : σ -> σ) (next : PUnit -> EStateM ε σ α) (state : σ) :
    ((modify change : EStateM ε σ PUnit) >>= next) state = next () (change state) := rfl

theorem pure_apply (value : α) (state : σ) :
    (pure value : EStateM ε σ α) state = .ok value state := rfl

theorem bind_of_ok {step : EStateM ε σ α} {state after : σ} {value : α}
    (ran : step state = .ok value after) (next : α -> EStateM ε σ β) :
    (step >>= next) state = next value after := by
  simp only [bind, EStateM.bind, ran]

theorem bind_of_error {step : EStateM ε σ α} {state after : σ} {fault : ε}
    (ran : step state = .error fault after) (next : α -> EStateM ε σ β) :
    (step >>= next) state = .error fault after := by
  simp only [bind, EStateM.bind, ran]

/-- A sequence depends on what its first step comes to, and on nothing else. -/
theorem bind_of_same {step step' : EStateM ε σ α} {state state' : σ}
    (same : step state = step' state') (next : α -> EStateM ε σ β) :
    (step >>= next) state = (step' >>= next) state' := by
  simp only [bind, EStateM.bind, same]

theorem discard_bind (step : EStateM ε σ α) (next : Unit -> EStateM ε σ β) (state : σ) :
    (discard step >>= next) state = (step >>= fun _ => next ()) state := by
  simp only [discard, Functor.discard, Functor.mapConst, bind, EStateM.bind, EStateM.map,
    Function.comp]
  cases step state <;> rfl

/-- The result of a run has the first property if it is a value, and the second
one if it is a fault. -/
def Ensures (onValue : α -> σ -> Prop) (onFault : ε -> σ -> Prop) :
    EStateM.Result ε σ α -> Prop
  | .ok value after => onValue value after
  | .error fault after => onFault fault after

namespace Ensures

variable {onFault : ε -> σ -> Prop}

/-- A sequence of two steps ensures what the second one ensures after
everything that the first one can come to. -/
theorem bind {between : α -> σ -> Prop} {onValue : β -> σ -> Prop} {step : EStateM ε σ α}
    {next : α -> EStateM ε σ β} {state : σ} (first : Ensures between onFault (step state))
    (second : ∀ value after, between value after -> Ensures onValue onFault (next value after)) :
    Ensures onValue onFault ((step >>= next) state) := by
  cases ran : step state with
  | ok value after =>
      rw [bind_of_ok ran]
      rw [ran] at first
      exact second value after first
  | error fault after =>
      rw [bind_of_error ran]
      rw [ran] at first
      exact first

theorem mono {onValue weaker : α -> σ -> Prop} {onFault weakerFault : ε -> σ -> Prop}
    {result : EStateM.Result ε σ α} (strong : Ensures onValue onFault result)
    (values : ∀ value after, onValue value after -> weaker value after)
    (faults : ∀ fault after, onFault fault after -> weakerFault fault after) :
    Ensures weaker weakerFault result := by
  cases result with
  | ok value after => exact values value after strong
  | error fault after => exact faults fault after strong

end Ensures

/-! ## Two runs -/

/-- Two results correspond: they are both values or both faults, and are
related as asked, together with the states that they come with. -/
def Related (onValues : α -> σ -> β -> σ -> Prop) (onFaults : ε -> σ -> ε -> σ -> Prop) :
    EStateM.Result ε σ α -> EStateM.Result ε σ β -> Prop
  | .ok value after, .ok value' after' => onValues value after value' after'
  | .error fault after, .error fault' after' => onFaults fault after fault' after'
  | _, _ => False

namespace Related

variable {onFaults : ε -> σ -> ε -> σ -> Prop}

/-- Two sequences correspond if their first steps do, and their second steps do
after everything that the first ones can come to. -/
theorem bind {between : α -> σ -> β -> σ -> Prop} {onValues : γ -> σ -> δ -> σ -> Prop}
    {step : EStateM ε σ α} {step' : EStateM ε σ β} {next : α -> EStateM ε σ γ}
    {next' : β -> EStateM ε σ δ} {state state' : σ}
    (first : Related between onFaults (step state) (step' state'))
    (second : ∀ value after value' after', between value after value' after' ->
      Related onValues onFaults (next value after) (next' value' after')) :
    Related onValues onFaults ((step >>= next) state) ((step' >>= next') state') := by
  cases ran : step state <;> cases ran' : step' state' <;> rw [ran, ran'] at first
  · rw [bind_of_ok ran, bind_of_ok ran']
    exact second _ _ _ _ first
  · cases first
  · cases first
  · rw [bind_of_error ran, bind_of_error ran']
    exact first

theorem mono {onValues weaker : α -> σ -> β -> σ -> Prop}
    {onFaults weakerFaults : ε -> σ -> ε -> σ -> Prop} {result : EStateM.Result ε σ α}
    {result' : EStateM.Result ε σ β} (strong : Related onValues onFaults result result')
    (values : ∀ value after value' after', onValues value after value' after' ->
      weaker value after value' after')
    (faults : ∀ fault after fault' after', onFaults fault after fault' after' ->
      weakerFaults fault after fault' after') :
    Related weaker weakerFaults result result' := by
  cases result <;> cases result'
  · exact values _ _ _ _ strong
  · cases strong
  · cases strong
  · exact faults _ _ _ _ strong

/-- What the second of two runs comes to is related to what the first one does. -/
theorem second {onValues : α -> σ -> β -> σ -> Prop} {result : EStateM.Result ε σ α}
    {result' : EStateM.Result ε σ β} (related : Related onValues onFaults result result') :
    Ensures (fun value' after' => ∃ value after, onValues value after value' after')
      (fun fault' after' => ∃ fault after, onFaults fault after fault' after') result' := by
  cases result <;> cases result'
  · exact ⟨_, _, related⟩
  · cases related
  · cases related
  · exact ⟨_, _, related⟩

end Related

/-! ## Results without a state -/

section Results

variable {onOk : α -> Prop} {onError : ε -> Prop}

/-- To speak of both ways in which something can come out, it is enough to speak
of the one in which it does. -/
theorem outcomes_of_ok {value : α} (holds : onOk value) :
    (∀ found, (.ok value : Except ε α) = .ok found -> onOk found)
      ∧ ∀ fault, (.ok value : Except ε α) = .error fault -> onError fault := by
  constructor
  · intro found same
    cases same
    exact holds
  · intro fault same
    cases same

theorem outcomes_of_error {fault : ε} (holds : onError fault) :
    (∀ found, (.error fault : Except ε α) = .ok found -> onOk found)
      ∧ ∀ other, (.error fault : Except ε α) = .error other -> onError other := by
  constructor
  · intro found same
    cases same
  · intro other same
    cases same
    exact holds

end Results
end Steps
end LineShell
