import LocalChain.K2ultra.Brief
import LocalChain.K2ultra.ContractObject
import LocalChain.K2ultra.ProfilesRun

/-! The actions do on their objects what they do on the tables. -/
namespace LocalChain.K2ultra

open LocalChain.Inery LocalChain.Inery.MultiIndex LocalChain.Store LocalChain.Refine
open TableProgram

variable {context : Context} {state next : State} {owner contact : Name} {missing : String} {α : Type}

/-! The tables of a state. -/

/-- Every table under its name. -/
def State.table (state : State) : (name : TableName) → Table name.schema.primaryKey
  | .adresses => state.adresses
  | .profiles => state.profiles
  | .requests scope => state.requests scope
  | .messages scope => state.messages scope

theorem State.table_adresses (state : State) (adresses : AdressesTable) :
    { state with adresses }.table = Function.update state.table .adresses adresses := by
  funext name
  cases name <;> rfl

theorem State.table_profiles (state : State) (profiles : ProfilesTable) :
    { state with profiles }.table = Function.update state.table .profiles profiles := by
  funext name
  cases name <;> rfl

theorem State.table_setRequests (state : State) (scope : UInt64) (requests : RequestsTable) :
    (state.setRequests scope requests).table = Function.update state.table (.requests scope) requests := by
  funext name
  cases name with
  | requests other =>
    obtain rfl | apart := eq_or_ne other scope
    · rw [Function.update_self]
      exact Function.update_self ..
    · rw [Function.update_of_ne fun same => apart (TableName.requests.inj same)]
      exact Function.update_of_ne apart ..
  | _ => rfl

theorem State.table_setMessages (state : State) (scope : UInt64) (messages : MessagesTable) :
    (state.setMessages scope messages).table = Function.update state.table (.messages scope) messages := by
  funext name
  cases name with
  | messages other =>
    obtain rfl | apart := eq_or_ne other scope
    · rw [Function.update_self]
      exact Function.update_self ..
    · rw [Function.update_of_ne fun same => apart (TableName.messages.inj same)]
      exact Function.update_of_ne apart ..
  | _ => rfl

/-! What a program has to do. -/

/-- The program does on the tables what an action does on the state. -/
def Performs (state : State) (program : ContractProgram α) (outcome : Except Abort (α × State)) : Prop :=
  program.onTables state.table = View.lift (Prod.map id State.table <$> outcome)

/-- The action checks something first. -/
theorem Performs.guard {program : Unit → ContractProgram α} {checked : Except Abort Unit}
    {outcome : Unit → Except Abort (α × State)} (rest : checked = .ok () → Performs state (program ()) (outcome ())) :
    Performs state (liftM checked >>= program) (checked >>= outcome) := by
  cases checked with
  | error reason => rfl
  | ok _ => exact rest rfl

/-- An action that prints nothing. -/
def quietly (outcome : Except Abort State) : Except Abort (Unit × State) := Prod.mk () <$> outcome

theorem Performs.guardQuietly {program : Unit → ContractProgram Unit} {checked : Except Abort Unit}
    {outcome : Unit → Except Abort State}
    (rest : checked = .ok () → Performs state (program ()) (quietly (outcome ()))) :
    Performs state (liftM checked >>= program) (quietly (checked >>= outcome)) := by
  cases checked with
  | error reason => rfl
  | ok _ => exact rest rfl

/-- The action answers something else. -/
theorem Performs.map {β : Type} {program : ContractProgram α} {outcome : Except Abort (α × State)}
    (performs : Performs state program outcome) (answer : α → β) :
    Performs state (program >>= fun value => pure (answer value)) (Prod.map answer id <$> outcome) := by
  rw [Performs, ObjectProgram.onTables_map, performs]
  cases outcome <;> rfl

/-- An action on a single table. -/
theorem Performs.single {name : TableName} {object : Nat} {program : TableProgram name.schema α}
    {ran : Except Fault (α × Table name.schema.primaryKey)} {outcome : Except Abort (α × State)}
    {put : Table name.schema.primaryKey → State} (ended : program.onTable (state.table name) = ran)
    (table_put : ∀ rows, (put rows).table = Function.update state.table name rows)
    (same : Prod.map id put <$> ran = View.lift outcome) :
    Performs state (ObjectProgram.on name object program) outcome := by
  cases ran with
  | error fault =>
    cases outcome with
    | error reason =>
      have failed : program.onTable (state.table name) = View.lift (.error reason) :=
        ended.trans (congrArg Except.error (Except.error.inj same))
      exact ObjectProgram.onTables_on failed
    | ok result => cases same
  | ok result =>
    have done : program.onTable (state.table name) = View.lift (.ok result) := ended
    cases outcome with
    | error reason => cases same
    | ok last =>
      obtain rfl := Except.ok.inj same
      refine (ObjectProgram.onTables_on done).trans ?_
      exact congrArg (fun tables => Except.ok (result.1, tables)) (table_put result.2).symm

section Profiles

variable {password twordhash rsaPub : ByteString}

theorem reguser_performs (brief : Brief password) (also : Brief rsaPub) :
    Performs state (ContractProgram.reguser context owner password twordhash rsaPub)
      (quietly (reguser context owner password twordhash rsaPub state)) := by
  refine .guardQuietly fun _ => ?_
  have keyed : profilesSchema.primaryKey ((Profiles.fresh (context.heap 0)).registered owner password
    (context.stringToUInt64 twordhash) rsaPub) = owner.value := rfl
  have small : ((Profiles.fresh (context.heap 0)).registered owner password (context.stringToUInt64 twordhash)
    rsaPub).Small := .registered brief also
  refine Performs.single (addRow_onTable keyed fun _ => small.packSize_lt) state.table_profiles ?_
  change Prod.map id _ <$> (Prod.mk () <$> View.lift (check (state.profiles.find? owner.value).isNone _ >>= fun _ =>
    emplace state.profiles _ _)) = View.lift (quietly (check (state.profiles.find? owner.value).isNone _ >>= fun _ =>
      emplace state.profiles _ _ >>= fun profiles => return { state with profiles := profiles }))
  generalize check (state.profiles.find? owner.value).isNone _ = checked
  generalize emplace state.profiles _ _ = stored
  cases checked <;> cases stored <;> rfl

theorem login_performs : Performs state (ContractProgram.login context owner) (quietly (login context owner state)) := by
  refine .guardQuietly fun _ => ?_
  refine Performs.single (requireProfile_onTable state.profiles "Account is not registered") state.table_profiles ?_
  change _ = View.lift (quietly (check (state.profiles.find? owner.value).isSome _ >>= fun _ => return state))
  cases check (state.profiles.find? owner.value).isSome "Account is not registered" <;> rfl

theorem getuserbyhash_performs (s : ByteString) :
    Performs state (ContractProgram.getuserbyhash context s) (Prod.swap <$> getuserbyhash context s state) := by
  have ended : (ownerByHash (context.stringToUInt64 s)).onTable (state.table .profiles) = _ :=
    ownerByHash_onTable state.profiles (context.stringToUInt64 s)
  have performs : Performs state (ContractProgram.onProfiles (ownerByHash (context.stringToUInt64 s)))
      ((fun owner => (owner, state)) <$> foundOwner state.profiles (context.stringToUInt64 s)) := by
    refine Performs.single ended state.table_profiles ?_
    cases foundOwner state.profiles (context.stringToUInt64 s) <;> rfl
  rw [getuserbyhash_eq, map_bind]
  refine .guard fun _ => ?_
  have answered := performs.map fun owner => [Printed.name owner]
  rw [Functor.map_map] at answered ⊢
  exact answered

theorem editProfile_performs (neat : state.Neat) (updater : Profiles → Profiles)
    (same : ∀ row, Profiles.primaryKey row = Profiles.primaryKey (updater row))
    (small : ∀ row : Profiles, row.Small → (updater row).Small) :
    Performs state (ContractProgram.editProfile context owner missing updater)
      (quietly (editProfile context owner missing updater state)) := by
  refine .guardQuietly fun _ => ?_
  have short (row : Profiles) (held : state.profiles.find? owner.value = some row) : packSize (updater row) < 2 ^ 31 :=
    (small row (neat.profiles row (Table.find?_eq_some.mp held).1)).packSize_lt
  refine Performs.single (changeRow_onTable same short) state.table_profiles ?_
  change Prod.map id _ <$> (Prod.mk () <$> View.lift (check (state.profiles.find? owner.value).isSome missing >>= fun _ =>
    modify state.profiles (state.profiles.find? owner.value) updater)) = View.lift (quietly
      (check (state.profiles.find? owner.value).isSome missing >>= fun _ =>
        modify state.profiles _ updater >>= fun profiles =>
        return { state with profiles := profiles }))
  generalize check (state.profiles.find? owner.value).isSome missing = checked
  generalize modify state.profiles (state.profiles.find? owner.value) updater = written
  cases checked <;> cases written <;> rfl

theorem rrprofiles_performs {rows : TableName → Nat} (counted : rows .profiles = state.profiles.rows.length) :
    Performs state (ContractProgram.onProfiles (eraseAll (rows .profiles))) (quietly (rrprofiles state)) := by
  have ended : (eraseAll (rows .profiles) : TableProgram profilesSchema Unit).onTable (state.table .profiles) =
      .ok ((), .empty) := by
    rw [counted]
    exact eraseAll_onTable (state.table .profiles)
  refine Performs.single ended state.table_profiles ?_
  rw [rrprofiles, eraseAll_eq_ok]
  rfl

end Profiles

/-! Messages. -/

section Messages

variable {scope replyTo seen : UInt64} {sender : Name} {data : ByteString}

theorem post_performs (brief : Brief data) :
    Performs state (ContractProgram.onMessages scope (postMessage context sender data replyTo seen))
      (Prod.swap <$> post context scope sender data replyTo seen state) := by
  have short (newId : UInt64) (_ : newMessageId (state.messages scope) = .ok newId) :
      packSize ((Messages.fresh (context.heap 0)).posted newId context.now sender data replyTo seen) < 2 ^ 31 := by
    have bound := packSize_messages_le ((Messages.fresh (context.heap 0)).posted newId context.now sender data replyTo seen)
    have small : data.bytes.length < 2 ^ 28 := brief
    change _ ≤ 45 + data.bytes.length at bound
    omega
  have ended : (postMessage context sender data replyTo seen).onTable (state.table (.messages scope)) =
      View.lift (do
        let newId ← newMessageId (state.messages scope)
        let result ← emplace (state.messages scope) (Messages.fresh (context.heap 0))
          (Messages.posted newId context.now sender data replyTo seen)
        return (newId, result)) := postMessage_onTable short
  refine Performs.single ended (state.table_setMessages scope) ?_
  rw [post]
  cases newMessageId (state.messages scope) with
  | error reason => rfl
  | ok newId =>
    change Prod.map id _ <$> View.lift (emplace (state.messages scope) _ _ >>= _) =
      View.lift (Prod.swap <$> (emplace (state.messages scope) _ _ >>= _))
    cases emplace (state.messages scope) (Messages.fresh (context.heap 0))
      (Messages.posted newId context.now sender data replyTo seen) <;> rfl

theorem sendmsg_performs (brief : Brief data) :
    Performs state (ContractProgram.sendmsg context scope sender data replyTo)
      (Prod.swap <$> sendmsg context scope sender data replyTo state) := by
  rw [sendmsg, map_bind]
  refine .guard fun _ => ?_
  have posted : Performs state (ContractProgram.onMessages scope (postMessage context sender data replyTo 0))
      (Prod.swap <$> post context scope sender data replyTo 0 state) := post_performs brief
  have shown := posted.map fun newId => [Printed.string ("\x7b\"time\": \"" ++
    toString context.now.secSinceEpoch ++ "\", \"id\":" ++ toString newId ++ "\x7d")]
  generalize post context scope sender data replyTo 0 state = outcome at shown ⊢
  cases outcome <;> exact shown

theorem pushmsg_performs {scope : Name} (brief : Brief data) :
    Performs state (ContractProgram.pushmsg context scope sender data replyTo)
      (quietly (pushmsg context scope sender data replyTo state)) := by
  have posted : Performs state (ContractProgram.onMessages scope.value (postMessage context sender data replyTo 1))
      (Prod.swap <$> post context scope.value sender data replyTo 1 state) := post_performs brief
  have silenced := posted.map fun _ => ()
  rw [pushmsg]
  generalize post context scope.value sender data replyTo 1 state = outcome at silenced ⊢
  cases outcome <;> exact silenced

theorem getunseen_performs : Performs state (ContractProgram.getunseen scope sender)
    (Prod.swap <$> getunseen scope sender state) := by
  obtain ⟨total, answered, counted⟩ := countUnseen_onTable scope sender state
  have ended : (countUnseen sender).onTable (state.table (.messages scope)) = .ok (total, state.messages scope) := counted
  have performs : Performs state (ContractProgram.onMessages scope (countUnseen sender)) (.ok (total, state)) := by
    refine Performs.single ended (state.table_setMessages scope) ?_
    exact congrArg (fun state => Except.ok (total, state)) (state.setMessages_self scope)
  rw [answered]
  exact performs.map fun total => [Printed.int total]

theorem seenmsg_performs (short : state.ShortMessages) :
    Performs state (ContractProgram.onMessages scope markSeen) (Prod.swap <$> seenmsg scope state) := by
  obtain ⟨printed, result, marked, answered⟩ := markSeen_onTable scope state (short scope)
  have ended : markSeen.onTable (state.table (.messages scope)) = .ok (printed, result) := marked
  rw [answered]
  exact Performs.single ended (state.table_setMessages scope) rfl

theorem deletemesgs_performs {rows : TableName → Nat}
    (counted : rows (.messages scope) = (state.messages scope).rows.length) :
    Performs state (ContractProgram.onMessages scope (eraseAll (rows (.messages scope))))
      (quietly (deletemesgs scope state)) := by
  have ended : (eraseAll (rows (.messages scope)) : TableProgram messagesSchema Unit).onTable
      (state.table (.messages scope)) = .ok ((), .empty) := by
    rw [counted]
    exact eraseAll_onTable (state.table (.messages scope))
  rw [deletemesgs, eraseAll_eq_ok]
  exact Performs.single ended (state.table_setMessages scope) rfl

end Messages

/-! Conversation ids. -/

section Adresses

variable {view : View adressesSchema} {scope : UInt64}

/-- A conversation id is stored, or is there already. -/
theorem run_storeAdress (own : view.own = true) (fresh : Adresses) (scope : UInt64) :
    ((storeAdress fresh scope).run View.step .abort).run view =
      (View.lift (emplace view.table fresh fun row => { row with scope := scope }) >>= fun adresses =>
        .ok ((), View.place { view with table := adresses, next := View.pass view.next scope } newRow
          (some { fresh with scope := scope }))) := by
  rw [storeAdress, call, Program.run_ask]
  exact run_store own (packSize_adresses_lt { fresh with scope := scope })

theorem run_pumpRows (rounds : Nat) (own : view.own = true) :
    outcome (((pumpRows context rounds scope).run View.step .abort).run view) =
      Prod.mk () <$> View.lift (pumpLoop context rounds scope view.table) := by
  induction rounds generalizing view scope with
  | zero => rfl
  | succ rounds ih =>
    rw [pumpRows, pumpLoop, Program.run_bind]
    have stored := run_storeAdress own (Adresses.fresh (context.heap scope.toNat)) scope
    generalize emplace view.table _ _ = written at stored ⊢
    cases written with
    | error reason => 
      rw [run_bind_error stored]
      rfl
    | ok adresses =>
      rw [run_bind_ok stored]
      exact ih own

theorem outcome_written {schema : Schema} {written : Except Abort (Table schema.primaryKey)}
    {later : Table schema.primaryKey → View schema} (same : ∀ table, (later table).table = table) :
    outcome (View.lift written >>= fun table => .ok ((), later table)) = Prod.mk () <$> View.lift written := by
  cases written with
  | error reason => rfl
  | ok table => exact congrArg (fun table => Except.ok ((), table)) (same table)

theorem storeAvailable_onTable (adresses : AdressesTable) :
    (storeAvailable context).onTable adresses = Prod.mk () <$> View.lift (
      availablePrimaryKey unsetNextPrimaryKey adresses >>= fun available =>
        emplace adresses (Adresses.fresh (context.heap 0)) fun row => { row with scope := available }) := by
  generalize started : (View.start adresses true : View adressesSchema) = view
  have own : view.own = true := by rw [← started]; rfl
  have start : view.next = unsetNextPrimaryKey := by rw [← started]; rfl
  obtain rfl : view.table = adresses := by rw [← started]; rfl
  rw [onTable, started, storeAvailable]
  cases granted : availablePrimaryKey unsetNextPrimaryKey view.table with
  | error reason =>
    have refused : (View.step .availablePrimaryKey).run view = .error (.abort reason) :=
      run_available_error (by rw [start, granted])
    rw [run_call_error refused]
    rfl
  | ok available =>
    have asked : (View.step .availablePrimaryKey).run view = .ok (available, { view with next := available }) :=
      run_available (by rw [start, granted])
    let later : View adressesSchema := { view with next := available }
    have stored := run_storeAdress (show later.own = true from own) (Adresses.fresh (context.heap 0)) available
    rw [run_call asked, stored]
    exact outcome_written fun _ => rfl

theorem addadr_eq : addadr context state = (fun adresses => { state with adresses }) <$>
    (availablePrimaryKey unsetNextPrimaryKey state.adresses >>= fun available =>
      emplace state.adresses (Adresses.fresh (context.heap 0)) fun row => { row with scope := available }) := by
  rw [addadr, map_bind]
  rfl

theorem addadr_performs : Performs state (ContractProgram.addadr context) (quietly (addadr context state)) := by
  have ended : (storeAvailable context).onTable (state.table .adresses) = _ := storeAvailable_onTable state.adresses
  refine Performs.single ended state.table_adresses ?_
  rw [addadr_eq]
  generalize (availablePrimaryKey unsetNextPrimaryKey state.adresses >>= fun available =>
    emplace state.adresses (Adresses.fresh (context.heap 0)) fun row => { row with scope := available }) = stored
  cases stored <;> rfl

theorem pump_performs (max : UInt64) :
    Performs state (ContractProgram.onAdresses (pumpRows context max.toNat 0)) (quietly (pump context max state)) := by
  have ended : (pumpRows context max.toNat 0).onTable (state.table .adresses) =
      Prod.mk () <$> View.lift (pumpLoop context max.toNat 0 state.adresses) := run_pumpRows max.toNat rfl
  refine Performs.single ended state.table_adresses ?_
  rw [pump]
  cases pumpLoop context max.toNat 0 state.adresses <;> rfl

theorem rraddr_performs {rows : TableName → Nat} (counted : rows .adresses = state.adresses.rows.length) :
    Performs state (ContractProgram.onAdresses (eraseAll (rows .adresses))) (quietly (rraddr state)) := by
  have ended : (eraseAll (rows .adresses) : TableProgram adressesSchema Unit).onTable (state.table .adresses) =
      .ok ((), .empty) := by
    rw [counted]
    exact eraseAll_onTable (state.table .adresses)
  rw [rraddr, eraseAll_eq_ok]
  exact Performs.single ended state.table_adresses rfl

end Adresses

end LocalChain.K2ultra
