import LocalChain.Inerygui.Actions
import LocalChain.Store.IndexOrder

namespace LocalChain.Inerygui

open LocalChain.Inery LocalChain.Inery.MultiIndex LocalChain.Store

variable {context : Context} {contract next : Contract} {guiname version : ByteString}
  {printed : List Printed} {pluginId : UInt64} {plugins : List UserPlugin} {user : UserTable}

@[simp] theorem User.primaryKey_eq (row : User) : row.primaryKey = row.id := rfl

@[simp] theorem History.primaryKey_eq (row : History) : row.primaryKey = row.composition.value := rfl

@[simp] theorem Permissions.primaryKey_eq (row : Permissions) :
    row.primaryKey = row.composition.value := rfl

@[simp] theorem User.setVersion_id (row : User) : (row.setVersion version).id = row.id := rfl

theorem Contract.setHistory_history (scope : UInt64) (table : HistoryTable) (other : UInt64) :
    (contract.setHistory scope table).history other =
      if other = scope then table else contract.history other := by
  simp [Contract.setHistory, Function.update_apply]

theorem Contract.setPermissions_permissions (scope : UInt64) (table : PermissionsTable)
    (other : UInt64) :
    (contract.setPermissions scope table).permissions other =
      if other = scope then table else contract.permissions other := by
  simp [Contract.setPermissions, Function.update_apply]

/-! The loop of `rmpluginu`. -/

/-- What the loop has collected after some rounds: the buffer holds it in front, and the cells behind
it are still those of the start. Only before the first round the size is the old one. -/
theorem Removal.after_eq {rounds : Nat} (short : rounds ≤ plugins.length) :
    Removal.after pluginId plugins rounds =
      let kept := (plugins.take rounds).filter (·.id ≠ pluginId)
      ⟨kept, kept ++ plugins.drop kept.length, if rounds = 0 then plugins.length else kept.length⟩ := by
  induction rounds with
  | zero => rfl
  | succ rounds ih =>
    have within : rounds < plugins.length := short
    rw [Removal.after, List.range_succ, List.foldl_append, ← Removal.after, ih within.le]
    have taken : plugins.take (rounds + 1) = plugins.take rounds ++ [plugins[rounds]] := by
      rw [List.take_add_one, List.getElem?_eq_getElem within, Option.toList_some]
    set kept := (plugins.take rounds).filter (·.id ≠ pluginId) with collected
    have lags : kept.length ≤ rounds :=
      (List.length_filter_le _ _).trans (by simp)
    -- the cell read in this round has not been written yet
    have read : (kept ++ plugins.drop kept.length)[rounds]? = some plugins[rounds] := by
      rw [List.getElem?_append_right lags, List.getElem?_drop, Nat.add_sub_cancel' lags,
        List.getElem?_eq_getElem within]
    simp only [List.foldl_cons, List.foldl_nil, Removal.round, read, taken, List.filter_append,
      ← collected, List.filter_cons, List.filter_nil]
    by_cases gone : plugins[rounds].id = pluginId
    · simp [gone]
    · simp [gone, List.drop_append]

/-- The loop leaves the plugins of other ids, in their order. -/
theorem User.rmpluginu_eq (row : User) :
    row.rmpluginu pluginId = .ok { row with plugins := row.plugins.filter (·.id ≠ pluginId) } := by
  have done : Removal.after pluginId row.plugins row.plugins.length = _ := Removal.after_eq le_rfl
  rw [List.take_length] at done
  simp only [User.rmpluginu, done]
  cases plugins : row.plugins with
  | nil => rfl
  | cons first rest => simp [pure, Except.pure]

/-! The switches of a plugin. -/

theorem User.turnonplugin_eq_ok {row updated : User} :
    row.turnonplugin pluginId = .ok updated ↔
      (∃ it, row.plugin? pluginId = some it ∧ it.active = false) ∧
        row.setActive true pluginId = updated := by
  unfold turnonplugin
  cases row.plugin? pluginId <;> simp

theorem User.turnofplugin_eq_ok {row updated : User} :
    row.turnofplugin pluginId = .ok updated ↔
      (∃ it, row.plugin? pluginId = some it ∧ it.active = true) ∧
        row.setActive false pluginId = updated := by
  unfold turnofplugin
  cases row.plugin? pluginId <;> simp

/-! What each action leaves behind when it commits. -/

/-- The walk of `waversion` reaches every row once. -/
theorem waversionLoop_rows (version : ByteString) {front back : List User}
    (split : user.rows = front ++ back) :
    ∃ result, waversionLoop version back.length back.head? user = .ok result ∧
      result.rows = front ++ back.map (User.setVersion version) := by
  induction back generalizing front user with
  | nil => exact ⟨user, rfl, split⟩
  | cons row rest ih =>
    have present : row ∈ user.rows := by simp [split]
    have written : (user.put (row.setVersion version)).rows = front ++ row.setVersion version :: rest :=
      Table.put_rows split rfl
    have modified : modify user (some row) (User.setVersion version) =
        .ok (user.put (row.setVersion version)) := by
      refine modify_some.mpr ⟨rfl, ?_, rfl⟩
      rw [User.primaryKey_eq, User.setVersion_id, ← User.primaryKey_eq, Table.find?_self present]
      rfl
    have following : (user.put (row.setVersion version)).next? (row.setVersion version).primaryKey =
        rest.head? := Table.next?_of_split written
    rw [User.primaryKey_eq, User.setVersion_id] at following
    have split' : (user.put (row.setVersion version)).rows =
        (front ++ [row.setVersion version]) ++ rest := by
      rw [written, List.append_assoc, List.singleton_append]
    obtain ⟨result, walked, rows⟩ := ih split'
    refine ⟨result, ?_, by simpa using rows⟩
    simp only [List.length_cons, List.head?_cons, waversionLoop]
    exact bind_eq_ok.mpr ⟨_, modified, following ▸ walked⟩

theorem waversion_ok (committed : waversion context contract = .ok next) :
    context.self ∈ context.auth ∧ ∃ user,
      user.rows = contract.user.rows.map (User.setVersion contract.gstate.version) ∧
        next = { contract with user := user } := by
  simp only [waversion, bind_eq_ok, Context.requireAuth_eq_ok, pure_eq_ok] at committed
  obtain ⟨_, authorised, user, walked, rfl⟩ := committed
  obtain ⟨result, walked', rows⟩ := waversionLoop_rows contract.gstate.version
    (List.nil_append contract.user.rows).symm
  cases walked.symm.trans walked'
  exact ⟨authorised, user, rows, rfl⟩

theorem adduser_ok {password : Checksum256}
    (committed : adduser context guiname password version contract = .ok (next, printed)) :
    context.self ∈ context.auth ∧ contract.user.find? (context.stringToUInt64 guiname) = none ∧
      next = { contract with user := contract.user.put ((User.fresh context.memory).registered
        (context.stringToUInt64 guiname) guiname password version) } := by
  simp only [adduser, bind_eq_ok, check_eq_ok, Context.requireAuth_eq_ok, emplace_eq_ok, pure_eq_ok,
    Option.isNone_iff_eq_none, Prod.mk.injEq] at committed
  obtain ⟨_, authorised, _, absent, _, ⟨_, rfl⟩, rfl, _⟩ := committed
  exact ⟨authorised, absent, rfl⟩

theorem rmusers_ok (committed : rmusers context contract = .ok (next, printed)) :
    context.self ∈ context.auth ∧ next = { contract with user := .empty } := by
  simp only [rmusers, bind_eq_ok, Context.requireAuth_eq_ok, eraseAll_eq_ok, Except.ok.injEq,
    pure_eq_ok, Prod.mk.injEq] at committed
  obtain ⟨_, authorised, _, rfl, rfl, _⟩ := committed
  exact ⟨authorised, rfl⟩

/-- An action on one user commits if the contract account signs, the lookup by the hash of the name finds
a row, and the updater accepts it and leaves it its id. -/
theorem editUser_eq_ok {missing : String} {updater : User → Except Abort User} :
    (∃ printed, editUser context guiname missing updater contract = .ok (next, printed)) ↔
      context.self ∈ context.auth ∧ ∃ row updated,
        contract.user.find? (context.stringToUInt64 guiname) = some row ∧
          updater row = .ok updated ∧ updated.id = row.id ∧
            next = { contract with user := contract.user.put updated } := by
  simp only [editUser, bind_eq_ok, Context.requireAuth_eq_ok]
  cases found : contract.user.find? (context.stringToUInt64 guiname) with
  | none => simp
  | some row =>
    have held : (contract.user.find? row.id).isSome := by
      rw [← User.primaryKey_eq, Table.find?_self (Table.find?_eq_some.mp found).1]
      rfl
    simp only [bind_eq_ok, modify_some, pure_eq_ok, Prod.mk.injEq, User.primaryKey_eq,
      Option.some.injEq]
    constructor
    · rintro ⟨_, _, authorised, updated, edits, _, ⟨same, _, rfl⟩, rfl, _⟩
      exact ⟨authorised, row, updated, rfl, edits, same.symm, rfl⟩
    · rintro ⟨authorised, _, updated, rfl, edits, same, rfl⟩
      exact ⟨_, (), authorised, updated, edits, _, ⟨same.symm, same ▸ held, rfl⟩, rfl, rfl⟩

/-- The row that `addhistory` leaves in place of the one it found, if it found one. -/
def History.grown (composition : Name) (object : HistoryObject) (type : ByteString) :
    Option History → History
  | none => History.fresh.opened composition object type
  | some row => row.record object type

theorem addhistory_ok {owner composition : Name} {object : HistoryObject} {type : ByteString}
    (committed : addhistory context owner composition object type contract = .ok next) :
    (((contract.history owner.value).find? composition.value).elim 0 History.packSize <
        (History.grown composition object type
          ((contract.history owner.value).find? composition.value)).packSize →
      owner ∈ context.auth) ∧
      next = contract.setHistory owner.value ((contract.history owner.value).put
        (History.grown composition object type
          ((contract.history owner.value).find? composition.value))) := by
  simp only [addhistory] at committed
  split at committed
  · rename_i absent
    simp only [bind_eq_ok, Context.bill_eq_ok, emplace_eq_ok, pure_eq_ok] at committed
    obtain ⟨_, paid, _, ⟨_, rfl⟩, rfl⟩ := committed
    rw [absent]
    exact ⟨paid, rfl⟩
  · rename_i row found
    simp only [bind_eq_ok, Context.bill_eq_ok, modify_some, pure_eq_ok] at committed
    obtain ⟨_, paid, _, ⟨_, _, rfl⟩, rfl⟩ := committed
    rw [found]
    exact ⟨paid, rfl⟩

/-- The row that `linkperm` leaves in place of the one it found, if it found one. -/
def Permissions.relinked (composition permName : Name) : Option Permissions → Permissions
  | none => Permissions.fresh.linked composition permName
  | some row => row.setPermName permName

theorem linkperm_ok {owner composition permName : Name}
    (committed : linkperm context owner composition permName contract = .ok next) :
    ((contract.permissions owner.value).find? composition.value = none → owner ∈ context.auth) ∧
      next = contract.setPermissions owner.value ((contract.permissions owner.value).put
        (Permissions.relinked composition permName
          ((contract.permissions owner.value).find? composition.value))) := by
  simp only [linkperm] at committed
  split at committed
  · rename_i absent
    simp only [bind_eq_ok, Context.bill_eq_ok, emplace_eq_ok, pure_eq_ok] at committed
    obtain ⟨_, paid, _, ⟨_, rfl⟩, rfl⟩ := committed
    rw [absent]
    exact ⟨fun _ => paid (by simp [Permissions.packSize]), rfl⟩
  · rename_i row found
    simp only [bind_eq_ok, Context.bill_eq_ok, modify_some, pure_eq_ok] at committed
    obtain ⟨_, _, _, ⟨_, _, rfl⟩, rfl⟩ := committed
    rw [found]
    exact ⟨fun absent => absurd absent (by simp), rfl⟩

end LocalChain.Inerygui
