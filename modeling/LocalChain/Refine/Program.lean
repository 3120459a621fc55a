import LocalChain.Refine.Client

/-! Programs that may also stop for a reason of their own. -/
namespace LocalChain.Refine

abbrev Program (κ : Type) (ω : κ → Type) (ρ : Type) := ExceptT ρ (Client κ ω)

variable {κ ρ ε σ τ α β : Type} {ω : κ → Type}

namespace Program

def ask (command : κ) : Program κ ω ρ (ω command) := ExceptT.lift (Client.ask command)

/-- Run a program on a component. Its own reasons are among the faults. -/
def run (step : (command : κ) → StateT σ (Except ε) (ω command)) (stop : ρ → ε) (program : Program κ ω ρ α) :
    StateT σ (Except ε) α := do
  match ← Client.run step (ExceptT.run program) with
  | .ok value => return value
  | .error reason => throw (stop reason)

/-- `while (condition) body`, cut off for `deadline` when there is no fuel left. -/
def loop (deadline : ρ) (condition : Program κ ω ρ Bool) (body : Program κ ω ρ Unit) : Nat → Program κ ω ρ Unit
  | 0 => do
    if ← condition then throw deadline
  | fuel + 1 => do
    if ← condition then
      body
      loop deadline condition body fuel

/-- A program for a part of a component. -/
def embed {κ' : Type} {ω' : κ' → Type} (into : κ → κ') (program : Program κ (fun command => ω' (into command)) ρ α) :
    Program κ' ω' ρ α :=
  ExceptT.mk (Client.embed into (ExceptT.run program))

/-- The program gives such commands only. -/
def Only (allowed : κ → Prop) (program : Program κ ω ρ α) : Prop := Client.Only allowed (ExceptT.run program)

theorem Only.all {allowed : κ → Prop} (every : ∀ command, allowed command) (program : Program κ ω ρ α) :
    program.Only allowed := Client.Only.all every _

variable {step : (command : κ) → StateT σ (Except ε) (ω command)} {stop : ρ → ε} {state later middle : σ}

theorem run_ask (command : κ) : (ask command : Program κ ω ρ (ω command)).run step stop = step command := by
  change (Client.ask command >>= fun answer => Client.done (Except.ok answer)).run step >>= _ = _
  rw [Client.run_bind, Client.run_ask, bind_assoc]
  exact bind_pure (step command)

theorem run_bind (program : Program κ ω ρ α) (next : α → Program κ ω ρ β) :
    (program >>= next).run step stop = program.run step stop >>= fun value => (next value).run step stop := by
  change Client.run step (ExceptT.run program >>= ExceptT.bindCont next) >>= _ =
    (Client.run step (ExceptT.run program) >>= _) >>= _
  rw [Client.run_bind, bind_assoc, bind_assoc]
  refine congrArg (Client.run step (ExceptT.run program) >>= ·) (funext fun outcome => ?_)
  cases outcome with
  | ok value => rfl
  | error reason => rfl

theorem run_lift_ok {outcome : Except ρ α} {value : α} (met : outcome = .ok value) (next : α → Program κ ω ρ β) :
    (liftM outcome >>= next).run step stop = (next value).run step stop := by
  subst met
  rfl

theorem run_lift_error {outcome : Except ρ α} {reason : ρ} (unmet : outcome = .error reason) (next : α → Program κ ω ρ β) :
    (liftM outcome >>= next).run step stop = throw (stop reason) := by
  subst unmet
  rfl

/-- A program cannot tell a component from its specification either. -/
theorem refines {codeStep : (command : κ) → StateT τ (Except ε) (ω command)} {related : σ → τ → Prop} {undefined : ε}
    (each : ∀ command, Refines undefined related (step command) (codeStep command)) (program : Program κ ω ρ α) :
    Refines undefined related (program.run step stop) (program.run codeStep stop) := by
  refine (Client.refines each (ExceptT.run program)).bind fun outcome => ?_
  cases outcome with
  | ok value => exact .pure value
  | error reason => exact fun _ _ _ => .fails (stop reason)

/-- A part of a component does for its programs what a specification of the part does. -/
theorem embed_refines {κ' : Type} {ω' : κ' → Type} (into : κ → κ')
    (partStep : (command : κ) → StateT σ (Except ε) (ω' (into command)))
    (wholeStep : (command : κ') → StateT τ (Except ε) (ω' command)) {allowed : κ → Prop}
    {program : Program κ (fun command => ω' (into command)) ρ α} {related : σ → τ → Prop} {undefined : ε}
    (only : program.Only allowed)
    (each : ∀ command, allowed command → Refines undefined related (partStep command) (wholeStep (into command))) :
    Refines undefined related (program.run partStep stop) ((program.embed into).run wholeStep stop) := by
  refine (Client.embed_refines only each).bind fun outcome => ?_
  cases outcome with
  | ok value => exact .pure value
  | error reason => exact fun _ _ _ => .fails (stop reason)

/-! Rounds of a loop. -/

variable {deadline : ρ} {condition : Program κ ω ρ Bool} {body : Program κ ω ρ Unit} {fuel : Nat}

theorem run_loop_stop (ended : (condition.run step stop).run state = .ok (false, later)) :
    ((loop deadline condition body fuel).run step stop).run state = .ok ((), later) := by
  cases fuel with
  | zero => exact (congrArg (StateT.run · state) (run_bind condition _)).trans (run_bind_ok ended)
  | succ fuel => exact (congrArg (StateT.run · state) (run_bind condition _)).trans (run_bind_ok ended)

theorem run_loop_deadline (goes : (condition.run step stop).run state = .ok (true, later)) :
    ((loop deadline condition body 0).run step stop).run state = .error (stop deadline) :=
  (congrArg (StateT.run · state) (run_bind condition _)).trans (run_bind_ok goes)

theorem run_loop_round (goes : (condition.run step stop).run state = .ok (true, middle)) :
    ((loop deadline condition body (fuel + 1)).run step stop).run state =
      (body.run step stop >>= fun _ => (loop deadline condition body fuel).run step stop).run middle := by
  rw [← run_bind]
  exact (congrArg (StateT.run · state) (run_bind condition _)).trans (run_bind_ok goes)

end Program

end LocalChain.Refine
