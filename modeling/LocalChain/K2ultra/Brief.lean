import LocalChain.K2ultra.MessagesRun
import LocalChain.K2ultra.Recovery

/-! Runs whose rows stay small enough to be packed, whatever the order of the actions. -/
namespace LocalChain.K2ultra

open LocalChain.Inery LocalChain.Inery.MultiIndex LocalChain.Store

variable {host : Host} {context : Context} {action : Action} {state next : State} {txs : List Tx}

/-- Far below what a contract can pack at once. -/
def Brief (s : ByteString) : Prop := s.bytes.length < 2 ^ 28

instance : DecidablePred Brief := fun s => inferInstanceAs (Decidable (s.bytes.length < 2 ^ 28))

/-- The byte strings that an action writes to a table. -/
def Action.written : Action → List ByteString
  | .reguser _ password _ rsaPub => [password, rsaPub]
  | .changersa _ rsaPub => [rsaPub]
  | .sendrequest _ _ key => [key]
  | .resprequest _ _ key _ => [key]
  | .sendmsg _ _ data _ => [data]
  | .pushmsg _ _ data _ => [data]
  | .changealias _ _ newAlias => [newAlias]
  | .changepsw _ password => [password]
  | .setoffname _ officialName => [officialName]
  | .forcerequest _ _ _ key1 key2 => [key1, key2]
  | _ => []

def Action.brief (action : Action) : Prop := ∀ s ∈ action.written, Brief s

instance : DecidablePred Action.brief := fun action => inferInstanceAs (Decidable (∀ s ∈ action.written, Brief s))

/-! Rows. -/

structure Requests.Small (row : Requests) : Prop where
  «alias» : Brief row.alias
  key : Brief row.key

/-- No action writes to the lists of a profile. -/
structure Profiles.Small (row : Profiles) : Prop where
  officialName : Brief row.officialName
  password : Brief row.password
  rsaPub : Brief row.rsaPub
  lists : row.requests = [] ∧ row.contacts = [] ∧ row.favorites = [] ∧ row.blocked = [] ∧ row.pending = []

theorem packSizeString_lt {s : ByteString} (brief : Brief s) : packSizeString s < 2 ^ 28 + 5 := by
  have count : packSizeUnsignedInt s.bytes.length.toUInt32 ≤ 5 := varintSize_le _ _
  rw [Brief] at brief
  rw [packSizeString]
  omega

theorem Requests.Small.packSize_lt {row : Requests} (small : row.Small) : packSize row < 2 ^ 31 := by
  have tuple : packSize row = packSize (row.scope, row.contact, row.alias, row.key, row.cntct, row.favorite,
    row.blocked, row.muted, row.pending) := rfl
  have bool (value : Bool) : packSize value = 1 := rfl
  have first := packSizeString_lt small.alias
  have second := packSizeString_lt small.key
  simp only [tuple, packSize_pair, packSize_uint64, packSize_name, packSize_string, bool]
  omega

theorem Profiles.Small.packSize_lt {row : Profiles} (small : row.Small) : packSize row < 2 ^ 31 := by
  have tuple : packSize row = packSize (row.owner, row.officialName, row.password, row.twordhash, row.rsaPub,
    row.requests, row.contacts, row.favorites, row.blocked, row.pending) := rfl
  have empty : packSize ([] : List Name) = 1 := rfl
  have first := packSizeString_lt small.officialName
  have second := packSizeString_lt small.password
  have third := packSizeString_lt small.rsaPub
  obtain ⟨requests, contacts, favorites, blocked, pending⟩ := small.lists
  rw [tuple, requests, contacts, favorites, blocked, pending]
  simp only [packSize_pair, packSize_uint64, packSize_name, packSize_string, empty]
  omega

theorem packSize_adresses_lt (row : Adresses) : packSize row < 2 ^ 31 := by
  have field : packSize row = packSize row.scope := rfl
  rw [field, packSize_uint64]
  decide

theorem brief_empty : Brief "" := by decide

section Lambdas

variable {row : Requests} {memory : Memory} {scope : UInt64} {account : Name} {key : ByteString}

theorem Requests.Small.received (brief : Brief key) : ((Requests.fresh memory).received scope account key).Small :=
  ⟨brief_empty, brief⟩

theorem Requests.Small.sent : ((Requests.fresh memory).sent scope account).Small := ⟨brief_empty, brief_empty⟩

theorem Requests.Small.forced (brief : Brief key) : ((Requests.fresh memory).forced scope account key).Small :=
  ⟨brief_empty, brief⟩

theorem Requests.Small.answered (small : row.Small) (brief : Brief key) : (row.answered key).Small :=
  ⟨small.alias, brief⟩

theorem Requests.Small.confirmed (small : row.Small) : row.confirmed.Small := ⟨small.alias, small.key⟩

/-- An edit changes the alias at most. -/
theorem Requests.Small.edited {owner contact : Name} {updater : Requests → Requests} (small : row.Small)
    (called : action.edit? = some (owner, contact, updater)) (brief : action.brief) : (updater row).Small := by
  refine ⟨?_, (annotates_of_edit called).key row ▸ small.key⟩
  cases action <;> simp only [Action.edit?, reduceCtorEq, Option.some.injEq, Prod.mk.injEq] at called <;>
    obtain ⟨rfl, rfl, rfl⟩ := called
  case changealias => exact brief _ (List.mem_singleton.mpr rfl)
  all_goals
    rename_i status
    cases status <;> exact small.alias

theorem Profiles.Small.registered {owner : Name} {password rsaPub : ByteString} {twordhash : UInt64}
    (brief : Brief password) (also : Brief rsaPub) :
    ((Profiles.fresh memory).registered owner password twordhash rsaPub).Small :=
  ⟨brief_empty, brief, also, rfl, rfl, rfl, rfl, rfl⟩

end Lambdas

/-! Runs. -/

/-- No account names itself, and every row can be packed. -/
structure State.Neat (state : State) : Prop where
  apart : ∀ x s row, state.book x s = some row → row.contact ≠ x
  requests : ∀ x s row, state.book x s = some row → row.Small
  profiles : ∀ row ∈ state.profiles.rows, row.Small
  messages : state.ShortMessages

/-- What an action adds to the book names another account, in a row that can be packed. -/
theorem BookStep.neat {x : Name} {s : UInt64} {row : Requests} (moved : BookStep context action state next)
    (apart : ∀ x s row, state.book x s = some row → row.contact ≠ x)
    (small : ∀ x s row, state.book x s = some row → row.Small) (brief : action.brief)
    (held : next.book x s = some row) : row.contact ≠ x ∧ row.Small := by
  have old {x : Name} {s : UInt64} {row : Requests} (held : state.book x s = some row) :
      row.contact ≠ x ∧ row.Small := ⟨apart x s row held, small x s row held⟩
  cases moved with
  | opened called effect =>
    subst called
    have written := brief _ (List.mem_singleton.mpr rfl)
    rw [effect.book] at held
    rcases Book.put_eq_some.mp held with ⟨rfl, _, rfl⟩ | ⟨_, held⟩
    · exact ⟨effect.distinct.symm, .sent⟩
    rcases Book.put_eq_some.mp held with ⟨rfl, _, rfl⟩ | ⟨_, held⟩
    · exact ⟨effect.distinct, .received written⟩
    · exact old held
  | accepted called _ effect =>
    subst called
    have written := brief _ (List.mem_singleton.mpr rfl)
    rw [effect.book] at held
    rcases Book.put_eq_some.mp held with ⟨rfl, _, rfl⟩ | ⟨_, held⟩
    · have mine := old (State.book_of_lookup effect.found).1
      exact ⟨mine.1, mine.2.confirmed⟩
    rcases Book.put_eq_some.mp held with ⟨rfl, _, rfl⟩ | ⟨_, held⟩
    · have theirs := old effect.counterpart
      exact ⟨theirs.1, theirs.2.answered written⟩
    · exact old held
  | dissolved _ _ effect =>
    rw [effect.book] at held
    exact old (Book.drop_sub (Book.drop_sub held))
  | @edited _ _ updater mine called _ effect =>
    rw [effect.book] at held
    rcases Book.put_eq_some.mp held with ⟨rfl, _, rfl⟩ | ⟨_, held⟩
    · have mine := old (State.book_of_lookup effect.found).1
      rw [(Requests.annotates_of_edit called).contact]
      exact ⟨mine.1, mine.2.edited called brief⟩
    · exact old held
  | deleted _ _ book => exact old (Book.clear_sub (book ▸ held))
  | cascaded _ book => exact old (Book.cascade_sub (book ▸ held))
  | dropped _ _ book => exact old (Book.drop_sub (book ▸ held))
  | forced called effect =>
    subst called
    have first := brief _ List.mem_cons_self
    have second := brief _ (List.mem_cons_of_mem _ (List.mem_singleton.mpr rfl))
    rw [effect.book] at held
    rcases Book.put_eq_some.mp held with ⟨rfl, _, rfl⟩ | ⟨_, held⟩
    · exact ⟨effect.distinct, .forced first⟩
    rcases Book.put_eq_some.mp held with ⟨rfl, _, rfl⟩ | ⟨_, held⟩
    · exact ⟨effect.distinct.symm, .forced second⟩
    · exact old held
  | untouched _ book => exact old (book ▸ held)

theorem editProfile_small {owner : Name} {missing : String} {updater : Profiles → Profiles}
    (small : ∀ row ∈ state.profiles.rows, row.Small)
    (committed : editProfile context owner missing updater state = .ok next)
    (updated : ∀ row : Profiles, row.Small → (updater row).Small) : ∀ row ∈ next.profiles.rows, row.Small := by
  obtain ⟨_, row, found, _, rfl⟩ := editProfile_ok committed
  intro other present
  rcases Table.mem_put.mp present with rfl | ⟨old, _⟩
  · exact updated row (small row (Table.find?_eq_some.mp found).1)
  · exact small other old

theorem dispatch_profilesSmall {printed : List Printed} (small : ∀ row ∈ state.profiles.rows, row.Small)
    (committed : dispatch context state action = .ok (next, printed)) (brief : action.brief) :
    ∀ row ∈ next.profiles.rows, row.Small := by
  have effect := dispatch_effect committed
  cases action
  case reguser owner password twordhash rsaPub =>
    obtain ⟨_, _, rfl⟩ := reguser_ok (silent_eq_ok.mp committed).1
    intro row present
    rcases Table.mem_put.mp present with rfl | ⟨old, _⟩
    · exact .registered (brief _ List.mem_cons_self) (brief _ (List.mem_cons_of_mem _ (List.mem_singleton.mpr rfl)))
    · exact small row old
  case changersa =>
    exact editProfile_small small (silent_eq_ok.mp committed).1 fun row small =>
      ⟨small.officialName, small.password, brief _ (List.mem_singleton.mpr rfl), small.lists⟩
  case setoffname =>
    exact editProfile_small small (silent_eq_ok.mp committed).1 fun row small =>
      ⟨brief _ (List.mem_singleton.mpr rfl), small.password, small.rsaPub, small.lists⟩
  case changepsw =>
    exact editProfile_small small (silent_eq_ok.mp committed).1 fun row small =>
      ⟨small.officialName, brief _ (List.mem_singleton.mpr rfl), small.rsaPub, small.lists⟩
  case deleteuser =>
    obtain ⟨_, _, rfl⟩ := deleteuser_ok (silent_eq_ok.mp committed).1
    exact fun row present => small row (Table.mem_erase.mp present).1
  case rrprofiles =>
    obtain rfl := rrprofiles_ok (silent_eq_ok.mp committed).1
    exact fun row present => absurd present List.not_mem_nil
  all_goals
    rw [effect.profiles rfl]
    exact small

theorem Action.brief.posts (brief : action.brief) : action.postsShort := by
  have below {data : ByteString} (brief : Brief data) : data.bytes.length < 2 ^ 31 - 45 := by
    rw [Brief] at brief
    omega
  cases action
  case sendmsg => exact decide_eq_true (below (brief _ (List.mem_singleton.mpr rfl)))
  case pushmsg => exact decide_eq_true (below (brief _ (List.mem_singleton.mpr rfl)))
  all_goals rfl

theorem step_neat {tx : Tx} (neat : state.Neat) (committed : step host state tx = some next) (brief : tx.action.brief) :
    next.Neat := by
  have moved := (step_effect committed).book
  obtain ⟨_, done⟩ := step_eq_some.mp committed
  exact {
    apart := fun x s row held => (moved.neat neat.apart neat.requests brief held).1
    requests := fun x s row held => (moved.neat neat.apart neat.requests brief held).2
    profiles := dispatch_profilesSmall neat.profiles done brief
    messages := step_shortMessages neat.messages committed brief.posts
  }

theorem reached_neat (brief : ∀ tx ∈ txs, tx.action.brief) : (reached host txs).Neat := by
  refine run_invariant (fun (entry : Transition State Tx) => entry.tx.action.brief) ⟨nofun, nofun, nofun, nofun⟩
    (fun _ _ _ neat committed brief => step_neat neat committed brief) ?_
  intro entry member
  exact brief _ (step_of_mem_journal member).1

end LocalChain.K2ultra
