import LocalChain.Inery.Serialize

namespace LocalChain.Inery

open LocalChain.Wire

/-- Why a call stops: the stream of its arguments, or the action itself. -/
inductive Stop where
  | stream (reason : StreamError)
  | action (reason : Abort)
deriving DecidableEq, Repr

variable {α β : Type}

/-- The arguments are read off the front of the action data, and `func` is called with them. -/
def executeAction (args : Reading StreamError α) (func : α → Except Abort β) (data : List UInt8) :
    Except Stop β :=
  match args.run data with
  | .error reason => .error (.stream reason)
  | .ok (args, _) => (func args).mapError .action

theorem executeAction_ok {args : Reading StreamError α} {func : α → Except Abort β} {data rest : List UInt8}
    {value : α} (read : args.run data = .ok (value, rest)) :
    executeAction args func data = (func value).mapError .action := by
  rw [executeAction, read]

theorem executeAction_error {args : Reading StreamError α} {func : α → Except Abort β} {data : List UInt8}
    {reason : StreamError} (short : args.run data = .error reason) :
    executeAction args func data = .error (.stream reason) := by
  rw [executeAction, short]

end LocalChain.Inery
