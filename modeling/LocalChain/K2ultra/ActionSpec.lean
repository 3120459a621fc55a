import LocalChain.K2ultra.Actions

namespace LocalChain.K2ultra

open LocalChain.Inery LocalChain.Inery.MultiIndex LocalChain.Store

variable {context : Context} {state next : State} {owner contact : Name}

/-! What the lambdas leave alone. -/

@[simp] theorem Requests.primaryKey_eq (row : Requests) : row.primaryKey = row.scope := rfl

@[simp] theorem Adresses.primaryKey_eq (row : Adresses) : row.primaryKey = row.scope := rfl

@[simp] theorem Messages.primaryKey_eq (row : Messages) : row.primaryKey = row.id := rfl

@[simp] theorem Profiles.primaryKey_eq (row : Profiles) : row.primaryKey = row.owner.value := rfl

section Lambdas

variable (scope : UInt64) (account : Name) (key : ByteString) (status : Bool) (row : Requests)

@[simp] theorem Requests.received_scope : (row.received scope account key).scope = scope := rfl

@[simp] theorem Requests.received_contact : (row.received scope account key).contact = account := rfl

@[simp] theorem Requests.received_key : (row.received scope account key).key = key := rfl

@[simp] theorem Requests.sent_scope : (row.sent scope account).scope = scope := rfl

@[simp] theorem Requests.sent_contact : (row.sent scope account).contact = account := rfl

@[simp] theorem Requests.sent_key : (row.sent scope account).key = row.key := rfl

@[simp] theorem Requests.forced_scope : (row.forced scope account key).scope = scope := rfl

@[simp] theorem Requests.forced_contact : (row.forced scope account key).contact = account := rfl

@[simp] theorem Requests.answered_scope : (row.answered key).scope = row.scope := rfl

@[simp] theorem Requests.answered_contact : (row.answered key).contact = row.contact := rfl

@[simp] theorem Requests.answered_key : (row.answered key).key = key := rfl

@[simp] theorem Requests.confirmed_scope : row.confirmed.scope = row.scope := rfl

@[simp] theorem Requests.confirmed_contact : row.confirmed.contact = row.contact := rfl

@[simp] theorem Requests.confirmed_key : row.confirmed.key = row.key := rfl

@[simp] theorem Requests.fresh_key (memory : Memory) : (Requests.fresh memory).key = "" := rfl

@[simp] theorem Messages.setSeen_id (message : Messages) : message.setSeen.id = message.id := rfl

@[simp] theorem Messages.setSeen_seen (message : Messages) : message.setSeen.seen = 1 := rfl

end Lambdas

/-- An update that leaves a row with the same scope, contact and key. -/
structure Requests.Annotates (updater : Requests → Requests) : Prop where
  scope : ∀ row, (updater row).scope = row.scope
  contact : ∀ row, (updater row).contact = row.contact
  key : ∀ row, (updater row).key = row.key

theorem Requests.annotates_setBlocked (status : Bool) : Annotates (setBlocked status) := by
  constructor <;> intro row <;> cases status <;> rfl

theorem Requests.annotates_setFavorite (status : Bool) : Annotates (setFavorite status) := by
  constructor <;> intro row <;> cases status <;> rfl

theorem Requests.annotates_setMuted (status : Bool) : Annotates (setMuted status) := by
  constructor <;> intro row <;> cases status <;> rfl

theorem Requests.annotates_setAlias (newAlias : ByteString) : Annotates (setAlias newAlias) := by
  constructor <;> intro row <;> rfl

/-! The tables an action writes. -/

section Tables

variable (scope : UInt64)

@[simp] theorem State.setRequests_adresses (table : RequestsTable) :
    (state.setRequests scope table).adresses = state.adresses := rfl

@[simp] theorem State.setRequests_messages (table : RequestsTable) :
    (state.setRequests scope table).messages = state.messages := rfl

@[simp] theorem State.setRequests_profiles (table : RequestsTable) :
    (state.setRequests scope table).profiles = state.profiles := rfl

@[simp] theorem State.setMessages_adresses (table : MessagesTable) :
    (state.setMessages scope table).adresses = state.adresses := rfl

@[simp] theorem State.setMessages_requests (table : MessagesTable) :
    (state.setMessages scope table).requests = state.requests := rfl

@[simp] theorem State.setMessages_profiles (table : MessagesTable) :
    (state.setMessages scope table).profiles = state.profiles := rfl

theorem State.setRequests_requests (table : RequestsTable) (other : UInt64) :
    (state.setRequests scope table).requests other =
      if other = scope then table else state.requests other := by
  simp [State.setRequests, Function.update_apply]

theorem State.setMessages_messages (table : MessagesTable) (other : UInt64) :
    (state.setMessages scope table).messages other =
      if other = scope then table else state.messages other := by
  simp [State.setMessages, Function.update_apply]

end Tables

/-! What each action leaves behind when it commits. -/

theorem reguser_ok {password twordhash rsaPub : ByteString}
    (committed : reguser context owner password twordhash rsaPub state = .ok next) :
    owner ∈ context.auth ∧ state.profiles.find? owner.value = none ∧
      next = { state with profiles := state.profiles.put ((Profiles.fresh (context.heap 0)).registered
        owner password (context.stringToUInt64 twordhash) rsaPub) } := by
  simp only [reguser, bind_eq_ok, check_eq_ok, Context.requireAuth_eq_ok, emplace_eq_ok, pure_eq_ok,
    Option.isNone_iff_eq_none] at committed
  obtain ⟨_, authorised, _, absent, _, ⟨_, rfl⟩, rfl⟩ := committed
  exact ⟨authorised, absent, rfl⟩

theorem login_ok (committed : login context owner state = .ok next) : next = state := by
  simp only [login, bind_eq_ok, pure_eq_ok] at committed
  obtain ⟨_, _, _, _, rfl⟩ := committed
  rfl

theorem getuserbyhash_ok {s : ByteString} {printed : List Printed}
    (committed : getuserbyhash context s state = .ok (next, printed)) : next = state := by
  simp only [getuserbyhash, bind_eq_ok] at committed
  obtain ⟨_, _, looked⟩ := committed
  split at looked
  · simp at looked
  · split at looked
    · simp at looked
    · simp only [pure_eq_ok, Prod.mk.injEq] at looked
      exact looked.1.symm

theorem deleteuser_ok (committed : deleteuser context owner state = .ok next) :
    context.self ∈ context.auth ∧ (state.profiles.find? owner.value).isSome ∧
      next = { state with profiles := state.profiles.erase owner.value }.setRequests
        owner.value .empty := by
  simp only [deleteuser, bind_eq_ok, check_eq_ok, Context.requireAuth_eq_ok, eraseAll_eq_ok,
    pure_eq_ok, Except.ok.injEq, Prod.exists] at committed
  obtain ⟨_, authorised, _, present, _, profiles, erased, _, rfl, rfl⟩ := committed
  obtain ⟨row, found⟩ := Option.isSome_iff_exists.mp present
  rw [found, erase_some] at erased
  obtain ⟨_, rfl⟩ := Prod.mk.inj erased.2
  rw [Table.key_of_find? found]
  exact ⟨authorised, present, rfl⟩

theorem editProfile_ok {missing : String} {updater : Profiles → Profiles}
    (committed : editProfile context owner missing updater state = .ok next) :
    owner ∈ context.auth ∧ ∃ row, state.profiles.find? owner.value = some row ∧
      Profiles.primaryKey row = Profiles.primaryKey (updater row) ∧
      next = { state with profiles := state.profiles.put (updater row) } := by
  simp only [editProfile, bind_eq_ok, check_eq_ok, Context.requireAuth_eq_ok, pure_eq_ok] at committed
  obtain ⟨_, authorised, _, present, profiles, modified, rfl⟩ := committed
  obtain ⟨row, found⟩ := Option.isSome_iff_exists.mp present
  rw [found, modify_some] at modified
  obtain ⟨same, _, rfl⟩ := modified
  exact ⟨authorised, row, found, same, rfl⟩

theorem rrprofiles_ok (committed : rrprofiles state = .ok next) :
    next = { state with profiles := .empty } := by
  simp only [rrprofiles, bind_eq_ok, eraseAll_eq_ok, Except.ok.injEq, pure_eq_ok] at committed
  obtain ⟨_, rfl, rfl⟩ := committed
  rfl

theorem deletereqs2_ok (committed : deletereqs2 owner contact state = .ok next) :
    ∃ row, (state.requests contact.value).indexFind Requests.byContact owner.value = some row ∧
      next = state.setRequests contact.value ((state.requests contact.value).erase row.scope) := by
  simp only [deletereqs2, bind_eq_ok, check_eq_ok, pure_eq_ok, Prod.exists] at committed
  obtain ⟨_, present, _, result, erased, rfl⟩ := committed
  obtain ⟨row, found⟩ := Option.isSome_iff_exists.mp present
  rw [found, erase_some] at erased
  obtain ⟨_, rfl⟩ := Prod.mk.inj erased.2
  exact ⟨row, found, rfl⟩

theorem editContact_ok {missing : String} {updater : Requests → Requests}
    (committed : editContact owner contact missing updater state = .ok next) :
    ∃ row, (state.requests owner.value).indexFind Requests.byContact contact.value = some row ∧
      next = state.setRequests owner.value ((state.requests owner.value).put (updater row)) := by
  simp only [editContact] at committed
  split at committed
  · simp at committed
  · rename_i row found
    have stored : (state.requests owner.value).find? row.scope = some row :=
      Table.find?_self (Table.indexFind_eq_some.mp found).1
    simp only [stored, bind_eq_ok, modify_some, pure_eq_ok] at committed
    obtain ⟨_, ⟨_, _, rfl⟩, rfl⟩ := committed
    exact ⟨row, found, rfl⟩

theorem flagContact_ok {updater : Requests → Requests}
    (committed : flagContact context owner contact updater state = .ok next) :
    owner ∈ context.auth ∧ editContact owner contact "Contact not found" updater state = .ok next := by
  simp only [flagContact, bind_eq_ok, Context.requireAuth_eq_ok] at committed
  obtain ⟨_, _, _, authorised, edited⟩ := committed
  exact ⟨authorised, edited⟩

theorem changealias_ok {newAlias : ByteString}
    (committed : changealias context owner contact newAlias state = .ok next) :
    owner ∈ context.auth ∧ editContact owner contact "Owner and Contact are not connected"
      (Requests.setAlias newAlias) state = .ok next := by
  simp only [changealias, bind_eq_ok, Context.requireAuth_eq_ok] at committed
  obtain ⟨_, authorised, edited⟩ := committed
  exact ⟨authorised, edited⟩

theorem addadr_ok (committed : addadr context state = .ok next) :
    ∃ scope, availablePrimaryKey unsetNextPrimaryKey state.adresses = .ok scope ∧
      next = { state with adresses := state.adresses.put ⟨scope⟩ } := by
  simp only [addadr, bind_eq_ok, emplace_eq_ok, pure_eq_ok] at committed
  obtain ⟨scope, granted, _, ⟨_, rfl⟩, rfl⟩ := committed
  exact ⟨scope, granted, rfl⟩

theorem pumpLoop_keeps {rounds : Nat} {i : UInt64} {adrs result : AdressesTable}
    (pumped : pumpLoop context rounds i adrs = .ok result) {k : UInt64}
    (present : (adrs.find? k).isSome) : (result.find? k).isSome := by
  induction rounds generalizing i adrs with
  | zero =>
    obtain rfl : adrs = result := by simpa [pumpLoop] using pumped
    exact present
  | succ rounds ih =>
    simp only [pumpLoop, bind_eq_ok, emplace_eq_ok] at pumped
    obtain ⟨_, ⟨_, rfl⟩, rest⟩ := pumped
    exact ih rest (Table.find?_put_isSome _ present)

theorem pump_ok {max : UInt64} (committed : pump context max state = .ok next) :
    ∃ adrs, pumpLoop context max.toNat 0 state.adresses = .ok adrs ∧
      next = { state with adresses := adrs } := by
  simp only [pump, bind_eq_ok, pure_eq_ok] at committed
  obtain ⟨adrs, pumped, rfl⟩ := committed
  exact ⟨adrs, pumped, rfl⟩

theorem rraddr_ok (committed : rraddr state = .ok next) :
    next = { state with adresses := .empty } := by
  simp only [rraddr, bind_eq_ok, eraseAll_eq_ok, Except.ok.injEq, pure_eq_ok] at committed
  obtain ⟨_, rfl, rfl⟩ := committed
  rfl

theorem newMessageId_ok {messages : MessagesTable} {newId : UInt64}
    (chosen : newMessageId messages = .ok newId) :
    messages.rows = [] ∧ newId = 1 ∨
      messages.rows ≠ [] ∧ availablePrimaryKey unsetNextPrimaryKey messages = .ok newId := by
  simp only [newMessageId, bind_eq_ok] at chosen
  obtain ⟨next, granted, chosen⟩ := chosen
  cases last : messages.last? with
  | none =>
    have empty := Table.last?_eq_none.mp last
    obtain ⟨rfl, _⟩ := availablePrimaryKey_eq_ok.mp granted
    simp only [nextPrimaryKey, last, ↓reduceIte, pure_eq_ok] at chosen
    exact .inl ⟨empty, chosen.symm⟩
  | some top =>
    have present := Table.last?_mem last
    have positive : next ≠ 0 := by
      rintro rfl
      exact absurd (lt_availablePrimaryKey granted present) UInt64.not_lt_zero
    rw [if_neg positive, availablePrimaryKey_cached granted] at chosen
    exact .inr ⟨List.ne_nil_of_mem present, Except.ok.inj chosen ▸ granted⟩

/-- The second question of `new_id` has an answer whenever the first one has. -/
theorem newMessageId_isOk {messages : MessagesTable} :
    (∃ newId, newMessageId messages = .ok newId) ↔
      ∃ next, availablePrimaryKey unsetNextPrimaryKey messages = .ok next := by
  constructor
  · rintro ⟨newId, chosen⟩
    obtain ⟨next, granted, _⟩ := bind_eq_ok.mp chosen
    exact ⟨next, granted⟩
  · rintro ⟨next, granted⟩
    by_cases zero : next = 0
    · exact ⟨1, bind_eq_ok.mpr ⟨next, granted, by rw [if_pos zero]; rfl⟩⟩
    · refine ⟨next, bind_eq_ok.mpr ⟨next, granted, ?_⟩⟩
      rw [if_neg zero]
      exact availablePrimaryKey_cached granted

theorem newMessageId_fresh {messages : MessagesTable} {newId : UInt64}
    (chosen : newMessageId messages = .ok newId) : messages.find? newId = none := by
  rcases newMessageId_ok chosen with ⟨empty, _⟩ | ⟨_, granted⟩
  · simp [Table.find?, empty]
  · exact find?_availablePrimaryKey granted

theorem post_ok {scope : UInt64} {sender : Name} {data : ByteString} {replyTo seen newId : UInt64}
    (committed : post context scope sender data replyTo seen state = .ok (next, newId)) :
    newMessageId (state.messages scope) = .ok newId ∧
      next = state.setMessages scope ((state.messages scope).put ((Messages.fresh (context.heap 0)).posted
        newId context.now sender data replyTo seen)) := by
  simp only [post, bind_eq_ok, emplace_eq_ok, pure_eq_ok, Prod.mk.injEq] at committed
  obtain ⟨_, chosen, _, ⟨_, rfl⟩, rfl, rfl⟩ := committed
  exact ⟨chosen, rfl⟩

/-- A post needs an id and nothing else: the id it gets is free. -/
theorem post_isOk {scope : UInt64} {sender : Name} {data : ByteString} {replyTo seen : UInt64} :
    (∃ result, post context scope sender data replyTo seen state = .ok result) ↔
      ∃ newId, newMessageId (state.messages scope) = .ok newId := by
  constructor
  · rintro ⟨⟨next, newId⟩, committed⟩
    exact ⟨newId, (post_ok committed).1⟩
  · rintro ⟨newId, chosen⟩
    have stored := emplace_eq_ok.mpr (show _ ∧ (state.messages scope).put ((Messages.fresh
      (context.heap 0)).posted newId context.now sender data replyTo seen) = _ from
        ⟨newMessageId_fresh chosen, rfl⟩)
    exact ⟨_, bind_eq_ok.mpr ⟨newId, chosen, bind_eq_ok.mpr ⟨_, stored, rfl⟩⟩⟩

theorem sendmsg_ok {scope : UInt64} {sender : Name} {data : ByteString} {replyTo : UInt64}
    {printed : List Printed}
    (committed : sendmsg context scope sender data replyTo state = .ok (next, printed)) :
    sender ∈ context.auth ∧ ∃ newId, post context scope sender data replyTo 0 state = .ok (next, newId) := by
  simp only [sendmsg, bind_eq_ok, Context.requireAuth_eq_ok, pure_eq_ok, Prod.exists,
    Prod.mk.injEq] at committed
  obtain ⟨_, authorised, _, newId, posted, rfl, _⟩ := committed
  exact ⟨authorised, newId, posted⟩

theorem sendmsg_isOk {scope : UInt64} {sender : Name} {data : ByteString} {replyTo : UInt64} :
    (∃ result, sendmsg context scope sender data replyTo state = .ok result) ↔
      sender ∈ context.auth ∧ ∃ newId, newMessageId (state.messages scope) = .ok newId := by
  constructor
  · rintro ⟨⟨next, printed⟩, committed⟩
    obtain ⟨authorised, newId, posted⟩ := sendmsg_ok committed
    exact ⟨authorised, newId, (post_ok posted).1⟩
  · rintro ⟨authorised, chosen⟩
    obtain ⟨result, posted⟩ := post_isOk.mpr chosen
    have required : context.requireAuth sender = .ok () := Context.requireAuth_eq_ok.mpr authorised
    exact ⟨_, bind_eq_ok.mpr ⟨(), required, bind_eq_ok.mpr ⟨result, posted, rfl⟩⟩⟩

theorem pushmsg_ok {scope sender : Name} {data : ByteString} {replyTo : UInt64}
    (committed : pushmsg context scope sender data replyTo state = .ok next) :
    ∃ newId, post context scope.value sender data replyTo 1 state = .ok (next, newId) := by
  simp only [pushmsg, bind_eq_ok, pure_eq_ok, Prod.exists] at committed
  obtain ⟨_, newId, posted, rfl⟩ := committed
  exact ⟨newId, posted⟩

theorem pushmsg_isOk {scope sender : Name} {data : ByteString} {replyTo : UInt64} :
    (∃ next, pushmsg context scope sender data replyTo state = .ok next) ↔
      ∃ newId, newMessageId (state.messages scope.value) = .ok newId := by
  constructor
  · rintro ⟨next, committed⟩
    obtain ⟨newId, posted⟩ := pushmsg_ok committed
    exact ⟨newId, (post_ok posted).1⟩
  · intro chosen
    obtain ⟨result, posted⟩ := post_isOk.mpr chosen
    exact ⟨_, bind_eq_ok.mpr ⟨result, posted, rfl⟩⟩

theorem getunseen_ok {scope : UInt64} {sender : Name} {printed : List Printed}
    (committed : getunseen scope sender state = .ok (next, printed)) : next = state := by
  simp only [getunseen] at committed
  split at committed
  · simp only [bind_eq_ok, pure_eq_ok, Prod.mk.injEq] at committed
    obtain ⟨_, _, _, _, rfl, _⟩ := committed
    rfl
  · simp only [pure_eq_ok, Prod.mk.injEq] at committed
    exact committed.1.symm

/-- The walk of `seenmsg` in a table that has rows left to visit. -/
theorem seenmsg_ok {scope : UInt64} {printed : List Printed}
    (committed : seenmsg scope state = .ok (next, printed)) :
    next = state ∧ (∀ row, (state.messages scope).indexLowerBound Messages.bySeen 0 = some row →
        row.seen = 1) ∨
      ∃ itr left result, (state.messages scope).indexLowerBound Messages.bySeen 0 = some itr ∧
        itr.seen ≠ 1 ∧ seenmsgLoop 1000 (some itr) (state.messages scope) = .ok (left, result) ∧
        next = state.setMessages scope result := by
  simp only [seenmsg] at committed
  split at committed
  · rename_i empty
    simp only [pure_eq_ok, Prod.mk.injEq] at committed
    exact .inl ⟨committed.1.symm, by simp [empty]⟩
  · rename_i itr first
    split at committed
    · rename_i seen
      simp only [pure_eq_ok, Prod.mk.injEq] at committed
      refine .inl ⟨committed.1.symm, fun row same => ?_⟩
      rw [first] at same
      exact Option.some.inj same ▸ seen
    · rename_i unseen
      simp only [bind_eq_ok, pure_eq_ok, Prod.exists, Prod.mk.injEq] at committed
      obtain ⟨left, result, walked, rfl, _⟩ := committed
      exact .inr ⟨itr, left, result, first, unseen, walked, rfl⟩

theorem deletemesgs_ok {scope : UInt64} (committed : deletemesgs scope state = .ok next) :
    next = state.setMessages scope .empty := by
  simp only [deletemesgs, bind_eq_ok, eraseAll_eq_ok, Except.ok.injEq, pure_eq_ok] at committed
  obtain ⟨_, rfl, rfl⟩ := committed
  rfl

end LocalChain.K2ultra
