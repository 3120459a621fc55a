import LocalChain.Inery.TableProgram
import LocalChain.K2ultra.Wire

/-! The actions on profiles, as calls on the object `_profiles`. -/
namespace LocalChain.K2ultra

open LocalChain.Inery LocalChain.Store LocalChain.Refine
open TableProgram (call itr notEnd lookup addRow changeRow removeRow eraseAll)

/-- `profiles_t`, indexed by the hash of the recovery words. -/
abbrev profilesSchema : Schema where
  Row := Profiles
  primaryKey := Profiles.primaryKey
  indices := 1
  Secondary _ := UInt64
  extractSecondaryKey _ := Profiles.byTwords

/-- `get_index<"twordhash"_n>()` -/
def twordsIndex : Fin profilesSchema.indices := 0

def newProfile : Nat := 2

/-- The profile of an account must be there. -/
def requireProfile (owner : Name) (missing : String) : TableProgram profilesSchema Unit := do
  let there ← lookup owner.value
  check there missing

/-- The part of `getuserbyhash` that reads the table. -/
def ownerByHash (stivalue : UInt64) : TableProgram profilesSchema Name := do
  call (.find itr (.index twordsIndex stivalue))
  let there ← notEnd itr
  check there "User not found"
  let row ← call (.read itr)
  let foundUser ← call (.get (.primary row.owner.value) "unable to find key")
  return foundUser.owner

/-! The table of profiles on the host. -/

variable {labelling : Labelling UInt64} {α : Type}

abbrev ProfileTable (labelling : Labelling UInt64) := Db profilesSchema labelling

namespace ProfileTable

variable (table : ProfileTable labelling)

/-- An action that prints nothing. -/
def silently (context : Context) (signer : Name) (program : TableProgram profilesSchema Unit) :
    Except Fault (List Printed × ProfileTable labelling) := do
  View.lift (context.requireAuth signer)
  Prod.map (fun _ => []) id <$> program.onObject context.self table

def getuserbyhash (context : Context) (s : ByteString) : Except Fault (List Printed × ProfileTable labelling) := do
  View.lift (context.requireAuth context.self)
  let stivalue := context.stringToUInt64 s
  Prod.map (fun owner => [.name owner]) id <$> (ownerByHash stivalue).onObject context.self table

/-- An action on profiles, as far as it works on `_profiles`. The others do not write to the object. -/
def dispatch (context : Context) : Action → Except Fault (List Printed × ProfileTable labelling)
  | .reguser owner password twordhash rsaPub =>
    let stivalue := context.stringToUInt64 twordhash
    table.silently context owner (addRow newProfile owner.value "Account with that name is already registered!"
      (Profiles.fresh (context.heap 0)) (Profiles.registered owner password stivalue rsaPub))
  | .login owner => table.silently context owner (requireProfile owner "Account is not registered")
  | .getuserbyhash s => table.getuserbyhash context s
  | .deleteuser owner => table.silently context context.self (removeRow owner.value "User doesn't exist")
  | .changersa owner rsaPub =>
    table.silently context owner (changeRow owner.value "Account with that name is already registered!"
      fun row => { row with rsaPub })
  | .setoffname owner officialName =>
    table.silently context owner (changeRow owner.value "Owner account is not registered"
      fun row => { row with officialName })
  | .changepsw owner password =>
    table.silently context owner (changeRow owner.value "Owner account is not registered"
      fun row => { row with password })
  | .rrprofiles =>
    Prod.map (fun _ => []) id <$> (eraseAll table.primary.rows.rows.length).onObject context.self table
  | _ => return ([], table)

/-- A transaction, as far as the profiles go. -/
def step (host : Host) (table : ProfileTable labelling) (tx : Tx) : Option (ProfileTable labelling) :=
  match table.dispatch (tx.context host) tx.action with
  | .ok (_, next) => some next
  | .error _ => none

/-- The profiles that the host has after a list of transactions from empty tables. -/
def reached (host : Host) (numbers : labelling.State) (txs : List Tx) : ProfileTable labelling :=
  run (step host) (.empty numbers) txs

end ProfileTable

end LocalChain.K2ultra
