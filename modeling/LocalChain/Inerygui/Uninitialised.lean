import LocalChain.Inerygui.Step
import LocalChain.K2ultra.Uninitialised

namespace LocalChain.Inerygui

open LocalChain.Inery LocalChain.Store
open LocalChain.K2ultra (Host)

/-- Every node ends in the same state, whatever the memory holds that the rows are allocated in. -/
def MemoryFree (host : Host) (state : State) (tx : Tx) : Prop :=
  ∀ first second : Memory,
    step host state { tx with memory := first } = step host state { tx with memory := second }

/-- The lambdas of this contract set every member that has no constructor of its own. -/
theorem memoryFree (host : Host) (state : State) (tx : Tx) : MemoryFree host state tx := by
  intro first second
  obtain ⟨auth, now, memory, action⟩ := tx
  cases action <;> rfl

end LocalChain.Inerygui

namespace LocalChain

open LocalChain.K2ultra (Host)

/-- In every state, what the actions of the two contracts store depends on uninitialised memory exactly if
an action stores rows whose members it does not all set: a contact by `sendrequest` or `forcerequest`, or a
message by `sendmsg` or `pushmsg` that replies to none. -/
theorem rows_determined_iff (host : Host) :
    (∀ (state : K2ultra.State) (tx : K2ultra.Tx),
      K2ultra.MemoryFree host state tx ↔ ¬ K2ultra.StoresUnset tx.auth state tx.action) ∧
      ∀ (state : Inerygui.State) (tx : Inerygui.Tx), Inerygui.MemoryFree host state tx :=
  ⟨fun _ _ => K2ultra.memoryFree_iff, Inerygui.memoryFree host⟩

end LocalChain
