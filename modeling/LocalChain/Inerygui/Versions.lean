import LocalChain.Inerygui.Users

namespace LocalChain.Inerygui

open LocalChain.Inery LocalChain.Store
open LocalChain.K2ultra (Host)

/-- The version that rows are upgraded to. -/
def State.version (state : State) : ByteString := (state.global.getD {}).version

/-- The users whose rows have another version, in the order of the table. -/
def State.outdated (state : State) : List User :=
  state.user.rows.filter (fun row => row.version ≠ state.version)

/-- A call of `upversionu` for one user by the contract. -/
structure Tx.Upgrades (host : Host) (row : User) (tx : Tx) : Prop where
  called : tx.action = .upversionu row.guiname
  signed : host.self ∈ tx.auth

variable {host : Host} {state next : State} {tx bulk : Tx} {row : User} {guiname : ByteString}
  {order : List User} {singles : List Tx}

theorem step_upversionu (called : tx.action = .upversionu guiname) :
    step host state tx = some next ↔ host.self ∈ tx.auth ∧ ∃ row,
      state.user.find? (host.stringToUInt64 guiname) = some row ∧ row.version ≠ state.version ∧
        next = { state with user := state.user.put (row.setVersion state.version),
                            global := some (state.global.getD {}) } := by
  rw [step_edit (by rw [called]; rfl)]
  refine and_congr_right fun _ => exists_congr fun row => ?_
  simp only [User.upversionu, bind_eq_ok, check_eq_ok, pure_eq_ok, decide_eq_true_eq]
  constructor
  · rintro ⟨_, found, ⟨_, other, rfl⟩, _, rfl⟩
    exact ⟨found, other, rfl⟩
  · rintro ⟨found, other, rfl⟩
    exact ⟨_, found, ⟨(), other, rfl⟩, rfl, rfl⟩

theorem step_waversion (called : tx.action = .waversion) (signed : host.self ∈ tx.auth) :
    ∃ next, step host state tx = some next ∧ next.version = state.version ∧
      next.user.rows = state.user.rows.map (User.setVersion state.version) := by
  obtain ⟨user, walked, rows⟩ := waversionLoop_rows state.version
    (List.nil_append state.user.rows).symm
  have done : waversion (tx.context host) (Contract.construct state) =
      .ok { Contract.construct state with user := user } := by
    simp only [waversion, bind_eq_ok, Context.requireAuth_eq_ok, pure_eq_ok]
    exact ⟨(), signed, user, walked, rfl⟩
  refine ⟨_, step_eq_some.mpr ⟨{ Contract.construct state with user := user }, [], ?_, rfl⟩, rfl, rows⟩
  rw [called, dispatch, done]
  rfl

/-- Where every row has the version, there is nothing left to upgrade. -/
theorem upversionu_aborts (current : ∀ row ∈ state.user.rows, row.version = state.version)
    (called : tx.action = .upversionu guiname) : step host state tx = none := by
  apply Option.eq_none_iff_forall_ne_some.mpr
  intro next committed
  obtain ⟨_, row, found, other, _⟩ := (step_upversionu called).mp committed
  exact other (current row (Table.find?_eq_some.mp found).1)

/-- Single upgrades of different users all commit, and they set the versions of these users and nothing
else. -/
theorem upgrades_run (calls : List.Forall₂ (Tx.Upgrades host) order singles)
    (wellFormed : state.WellFormed host) (distinct : order.Nodup)
    (waiting : ∀ row ∈ order, row ∈ state.user.rows ∧ row.version ≠ state.version) :
    ∃ last, singles.foldlM (step host) state = some last ∧ last.version = state.version ∧
      ∀ k, last.user.find? k = (state.user.find? k).map fun row =>
        if row ∈ order then row.setVersion state.version else row := by
  induction calls generalizing state with
  | nil => exact ⟨state, rfl, rfl, fun k => by simp⟩
  | @cons row tx rest singles upgrades calls ih =>
    obtain ⟨fresh, distinct⟩ := List.nodup_cons.mp distinct
    obtain ⟨present, other⟩ := waiting row List.mem_cons_self
    have found : state.user.find? (host.stringToUInt64 row.guiname) = some row := by
      rw [← (wellFormed row present).named]
      exact Table.find?_self present
    obtain ⟨next, committed, version, written⟩ : ∃ next, step host state tx = some next ∧
        next.version = state.version ∧ next.user = state.user.put (row.setVersion state.version) :=
      ⟨_, (step_upversionu upgrades.called).mpr ⟨upgrades.signed, row, found, other, rfl⟩, rfl, rfl⟩
    have waiting' (later : User) (member : later ∈ rest) :
        later ∈ next.user.rows ∧ later.version ≠ next.version := by
      obtain ⟨stays, other'⟩ := waiting later (List.mem_cons_of_mem _ member)
      have apart : later.id ≠ row.id := fun same =>
        fresh (state.user.key_injective stays present same ▸ member)
      rw [written, version]
      exact ⟨Table.mem_put.mpr (.inr ⟨stays, apart⟩), other'⟩
    obtain ⟨last, ran, version', rows⟩ := ih (wellFormed.step committed) distinct waiting'
    refine ⟨last, ?_, version'.trans version, fun k => ?_⟩
    · rw [List.foldlM_cons, committed]
      exact ran
    · rw [rows, written, version, Table.find?_put, User.primaryKey_eq, User.setVersion_id]
      by_cases here : k = row.id
      · have current : row.setVersion state.version ∉ rest := fun member =>
          (waiting _ (List.mem_cons_of_mem _ member)).2 rfl
        have held : state.user.find? k = some row := here ▸ Table.find?_self present
        rw [if_pos here, held, Option.map_some, Option.map_some, if_neg current,
          if_pos List.mem_cons_self]
      · rw [if_neg here]
        refine Option.map_congr fun other held => ?_
        have different : other ≠ row := fun same => here (same ▸ (Table.key_of_find? held).symm)
        simp only [List.mem_cons, different, false_or]

/-- From every reachable state `waversion` and the single upgrades of all users that need one, in any order,
all commit and lead to the same users, and no name can be upgraded once more. -/
theorem upgrades_agree (host : Host) (txs : List Tx) (called : bulk.action = .waversion)
    (signed : host.self ∈ bulk.auth) (every : order.Perm (reached host txs).outdated)
    (calls : List.Forall₂ (Tx.Upgrades host) order singles) :
    ∃ next last, step host (reached host txs) bulk = some next ∧
      singles.foldlM (step host) (reached host txs) = some last ∧ last.user = next.user ∧
      ∀ tx guiname, tx.action = .upversionu guiname → step host next tx = none ∧ step host last tx = none := by
  have member (row : User) : row ∈ order ↔
      row ∈ (reached host txs).user.rows ∧ row.version ≠ (reached host txs).version := by
    rw [every.mem_iff]
    simp [State.outdated]
  have distinct : order.Nodup := every.nodup_iff.mpr ((reached host txs).user.nodup.filter _)
  obtain ⟨next, committed, version, rows⟩ := step_waversion called signed
  obtain ⟨last, ran, version', found⟩ := upgrades_run calls (reached_wellFormed host txs) distinct
    fun row waiting => (member row).mp waiting
  have same : last.user = next.user := by
    refine Table.ext_find? fun k => ?_
    rw [found, Table.find?_map (f := User.setVersion _) (fun _ => rfl) rows]
    refine Option.map_congr fun row held => ?_
    split
    · rfl
    · rename_i settled
      have current : row.version = (reached host txs).version := by
        by_contra other
        exact settled ((member row).mpr ⟨(Table.find?_eq_some.mp held).1, other⟩)
      rw [User.setVersion, ← current]
  have current : ∀ row ∈ next.user.rows, row.version = next.version := by
    intro row present
    rw [rows] at present
    obtain ⟨_, _, rfl⟩ := List.mem_map.mp present
    exact version.symm
  refine ⟨next, last, committed, ran, same, fun tx guiname call => ⟨upversionu_aborts current call, ?_⟩⟩
  refine upversionu_aborts (fun row present => ?_) call
  rw [version', ← version]
  exact current row (same ▸ present)

/-- Two users have registered before the version went up, and one after. -/
def superseded : List Tx :=
  [.signed registry.self (.adduser gui password "V-1.0.0"), .signed registry.self (.adduser second password "V-1.5.0"),
    .signed registry.self (.upversiong "V-2.0.0"), .signed registry.self (.adduser third otherPassword "V-2.0.0")]

/-- A row as it was registered. -/
def early (guiname version : ByteString) : User :=
  (User.fresh ⟨0⟩).registered (registry.stringToUInt64 guiname) guiname password version

/-- The two can be upgraded in either order. -/
theorem superseded_upgrades :
    (reached registry superseded).user.rows.length = 3 ∧
      ∀ names ∈ [[gui, second], [second, gui]], ∃ next last,
        step registry (reached registry superseded) (.signed registry.self .waversion) = some next ∧
          (names.map fun guiname => Tx.signed registry.self (.upversionu guiname)).foldlM (step registry)
            (reached registry superseded) = some last ∧
          last.user = next.user ∧ ∀ tx guiname, tx.action = .upversionu guiname →
            step registry next tx = none ∧ step registry last tx = none := by
  have signed (action : Action) : registry.self ∈ (Tx.signed registry.self action).auth := List.mem_singleton_self _
  have waiting : (reached registry superseded).outdated = [early second "V-1.5.0", early gui "V-1.0.0"] := by
    decide +kernel
  have single (guiname version : ByteString) :
      (Tx.signed registry.self (.upversionu guiname)).Upgrades registry (early guiname version) := ⟨rfl, signed _⟩
  have agree {order : List User} {singles : List Tx} (every : order.Perm (reached registry superseded).outdated)
      (calls : List.Forall₂ (Tx.Upgrades registry) order singles) :=
    upgrades_agree registry superseded rfl (signed .waversion) every calls
  refine ⟨by decide +kernel, fun names member => ?_⟩
  rcases List.mem_pair.mp member with rfl | rfl
  · refine agree ?_ (.cons (single gui "V-1.0.0") (.cons (single second "V-1.5.0") .nil))
    rw [waiting]
    exact .swap ..
  · refine agree ?_ (.cons (single second "V-1.5.0") (.cons (single gui "V-1.0.0") .nil))
    rw [waiting]

end LocalChain.Inerygui
