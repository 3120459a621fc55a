import LocalChain.K2ultra.Run
import LocalChain.Store.Since

namespace LocalChain.K2ultra

open LocalChain.Inery LocalChain.Inery.MultiIndex LocalChain.Store

/-! Whom the lookup by a recovery phrase finds. -/

variable {host : Host} {txs : List Tx} {tx : Tx} {context : Context} {action : Action}
  {state next : State} {x owner : Name} {row : Profiles} {phrase : ByteString}
  {past : List (Transition State Tx)} {auth : List Name}
  {now : TimePoint} {heap : Nat → Memory}

/-- The actions that can write the profiles. -/
def Action.writesProfiles : Action → Bool
  | .reguser .. | .changersa .. | .setoffname .. | .changepsw .. => true
  | .deleteuser .. | .rrprofiles => true
  | _ => false

theorem Effect.profiles (effect : Effect context action state next)
    (quiet : action.writesProfiles = false) : next.profiles = state.profiles := by
  cases effect with
  | registered called => rw [called] at quiet; cases quiet
  | profiled called => cases action <;> cases called <;> cases quiet
  | deleted called => rw [called] at quiet; cases quiet
  | unprofiled called => rw [called] at quiet; cases quiet
  | opened _ effect => exact effect.profiles
  | accepted _ _ effect => exact effect.elsewhere.profiles
  | dissolved _ _ effect => exact effect.elsewhere.profiles
  | edited _ _ effect => exact effect.elsewhere.profiles
  | cascaded _ _ elsewhere => exact elsewhere.profiles
  | forced _ effect => exact effect.elsewhere.profiles
  | _ => subst next; rfl

/-- Where the phrase hash of a profile comes from when an action commits. -/
inductive PhraseSource (context : Context) (action : Action) (state : State) (x : Name)
    (row : Profiles) : Prop where
  | kept (old : Profiles) (found : state.profiles.find? x.value = some old)
      (same : row.twordhash = old.twordhash)
  | registered (password phrase rsaPub : ByteString)
      (called : action = .reguser x password phrase rsaPub)
      (hashed : row.twordhash = context.stringToUInt64 phrase)

private theorem editProfile_source {missing : String} {updater : Profiles → Profiles}
    (committed : editProfile context owner missing updater state = .ok next)
    (found : next.profiles.find? x.value = some row)
    (keeps : ∀ old, (updater old).twordhash = old.twordhash) : PhraseSource context action state x row := by
  obtain ⟨_, old, held, place, rfl⟩ := editProfile_ok committed
  rw [Table.find?_put] at found
  split at found
  · rename_i same
    cases found
    refine .kept old ?_ (keeps old)
    rw [same, ← place, Table.key_of_find? held, held]
  · exact .kept row found rfl

theorem phrase_source {printed : List Printed}
    (committed : dispatch context state action = .ok (next, printed))
    (found : next.profiles.find? x.value = some row) : PhraseSource context action state x row := by
  have quiet := (dispatch_effect committed).profiles
  cases action with
  | reguser owner password twordhash rsaPub =>
    obtain ⟨_, _, rfl⟩ := reguser_ok (silent_eq_ok.mp committed).1
    rw [Table.find?_put] at found
    split at found
    · rename_i same
      cases found
      obtain rfl := Name.value_inj.mp same
      exact .registered password twordhash rsaPub rfl rfl
    · exact .kept row found rfl
  | changersa => exact editProfile_source (silent_eq_ok.mp committed).1 found fun _ => rfl
  | setoffname => exact editProfile_source (silent_eq_ok.mp committed).1 found fun _ => rfl
  | changepsw => exact editProfile_source (silent_eq_ok.mp committed).1 found fun _ => rfl
  | deleteuser owner =>
    obtain ⟨_, _, rfl⟩ := deleteuser_ok (silent_eq_ok.mp committed).1
    rw [State.setRequests_profiles, Table.find?_erase] at found
    split at found
    · cases found
    · exact .kept row found rfl
  | rrprofiles =>
    obtain rfl := rrprofiles_ok (silent_eq_ok.mp committed).1
    cases found
  | _ => exact .kept row (quiet rfl ▸ found) rfl

/-- A registration is refused while the account has a profile. -/
theorem reguser_absent (committed : step host state tx = some next) {password rsaPub : ByteString}
    (called : tx.action = .reguser x password phrase rsaPub) :
    state.profiles.find? x.value = none ∧
      ∃ row, next.profiles.find? x.value = some row ∧ row.twordhash = host.stringToUInt64 phrase := by
  obtain ⟨_, done⟩ := step_eq_some.mp committed
  rw [called] at done
  obtain ⟨_, absent, rfl⟩ := reguser_ok (silent_eq_ok.mp done).1
  exact ⟨absent, _, Table.find?_put_self _ _, rfl⟩

/-- The current profile of an account was created by a registration with the phrase: it has been
there ever since. -/
def Registered (past : List (Transition State Tx)) (owner : Name) (phrase : ByteString) : Prop :=
  Since (fun entry => ∃ password rsaPub, entry.tx.action = .reguser owner password phrase rsaPub)
    (fun entry => (entry.after.profiles.find? owner.value).isSome) past

/-- Every profile carries the hash of the phrase its account registered with. -/
structure PhrasesKept (host : Host) (past : List (Transition State Tx)) (state : State) : Prop where
  source : ∀ x row, state.profiles.find? x.value = some row →
    ∃ phrase, Registered past x phrase ∧ row.twordhash = host.stringToUInt64 phrase
  stored : ∀ x phrase, Registered past x phrase →
    ∃ row, state.profiles.find? x.value = some row ∧ row.twordhash = host.stringToUInt64 phrase

theorem PhrasesKept.step (kept : PhrasesKept host past state) (committed : step host state tx = some next) :
    PhrasesKept host (past ++ [⟨state, tx, next⟩]) next where
  source x row found := by
    obtain ⟨_, done⟩ := step_eq_some.mp committed
    cases phrase_source done found with
    | kept old held same =>
      obtain ⟨phrase, registered, hashed⟩ := kept.source x old held
      have stays : (next.profiles.find? x.value).isSome := by simp [found]
      exact ⟨phrase, registered.extend stays, same.trans hashed⟩
    | registered password phrase rsaPub called hashed =>
      exact ⟨phrase, .now ⟨password, rsaPub, called⟩, hashed⟩
  stored x phrase registered := by
    rcases since_append.mp registered with ⟨password, rsaPub, called⟩ | ⟨earlier, current⟩
    · exact (reguser_absent committed called).2
    · obtain ⟨old, held, hashed⟩ := kept.stored x phrase earlier
      obtain ⟨row, found⟩ := Option.isSome_iff_exists.mp current
      obtain ⟨_, done⟩ := step_eq_some.mp committed
      refine ⟨row, found, ?_⟩
      cases phrase_source done found with
      | kept old' held' same =>
        cases held.symm.trans held'
        exact same.trans hashed
      | registered password phrase' rsaPub called _ =>
        cases (reguser_absent committed called).1.symm.trans held

theorem reached_phrases (host : Host) (txs : List Tx) :
    PhrasesKept host (history host txs) (reached host txs) := by
  refine reached_history ⟨?_, ?_⟩ (fun past state next tx kept committed _ => kept.step committed)
    (Without.nothing txs)
  · intro x row found
    cases found
  · exact fun x phrase registered => absurd registered not_since_nil

/-- The lookup prints the smallest account name whose profile carries the hash. -/
theorem getuserbyhash_prints :
    dispatch context state (.getuserbyhash phrase) = .ok (state, [.name owner]) ↔
      context.self ∈ context.auth ∧
        ∃ row, state.profiles.indexFind Profiles.byTwords (context.stringToUInt64 phrase) = some row ∧
          row.owner = owner := by
  simp only [dispatch, getuserbyhash, bind_eq_ok, Context.requireAuth_eq_ok]
  constructor
  · rintro ⟨_, authorised, looked⟩
    refine ⟨authorised, ?_⟩
    split at looked
    · simp at looked
    · rename_i itr found
      have held : state.profiles.find? itr.owner.value = some itr :=
        Table.find?_self (Table.indexFind_eq_some.mp found).1
      refine ⟨itr, found, ?_⟩
      simpa [held] using looked
  · rintro ⟨authorised, row, found, rfl⟩
    have held : state.profiles.find? row.owner.value = some row :=
      Table.find?_self (Table.indexFind_eq_some.mp found).1
    exact ⟨(), authorised, by simp [found, held, pure, Except.pure]⟩

/-- After every run the lookup by the phrase of a registered account prints that account exactly if
no account of a smaller name is registered with a phrase of the same hash. -/
theorem recovery_iff (mine : Registered (history host txs) owner phrase) (authorised : host.self ∈ auth) :
    dispatch ⟨host, auth, now, heap⟩ (reached host txs) (.getuserbyhash phrase) =
        .ok (reached host txs, [.name owner]) ↔
      ∀ other phrase', Registered (history host txs) other phrase' →
        host.stringToUInt64 phrase' = host.stringToUInt64 phrase → owner.value ≤ other.value := by
  have phrases := reached_phrases host txs
  rw [getuserbyhash_prints]
  constructor
  · rintro ⟨_, row, found, rfl⟩ other phrase' registered collides
    obtain ⟨_, _, least⟩ := Table.indexFind_eq_some.mp found
    obtain ⟨theirs, held, hashed⟩ := phrases.stored other phrase' registered
    obtain ⟨present, place⟩ := Table.find?_eq_some.mp held
    exact (least theirs present (hashed.trans collides)).trans_eq place
  · intro least
    obtain ⟨row, held, hashed⟩ := phrases.stored owner phrase mine
    obtain ⟨present, place⟩ := Table.find?_eq_some.mp held
    refine ⟨authorised, row, Table.indexFind_eq_some.mpr ⟨present, hashed, ?_⟩, Name.value_inj.mp place⟩
    intro other member same
    obtain ⟨phrase', registered, hashed'⟩ := phrases.source other.owner other (Table.find?_self member)
    exact place.trans_le (least other.owner phrase' registered (hashed'.symm.trans same))

/-- Alice and Bob have registered with one phrase, and the lookup prints Alice. -/
theorem alice_recovered :
    dispatch ⟨chain, [chain.self], ⟨0⟩, fun _ => .zeroed⟩ (reached chain registered) (.getuserbyhash "") =
      .ok (reached chain registered, [.name alice]) := by
  have mine : Registered (history chain registered) alice "" := by
    refine ⟨[], _, _, rfl, ⟨"", "", rfl⟩, ?_⟩
    decide +kernel
  refine (recovery_iff mine (by decide)).mpr fun other phrase' theirs _ => ?_
  obtain ⟨row, found, _⟩ := (reached_phrases chain registered).stored other phrase' theirs
  obtain ⟨present, place⟩ := Table.find?_eq_some.mp found
  have smallest : ∀ row ∈ (reached chain registered).profiles.rows, alice.value ≤ row.owner.value := by
    decide +kernel
  exact (smallest row present).trans_eq place

/-- The lookup does not print Bob, who has registered with that phrase too. -/
theorem bob_not_recovered :
    Registered (history chain registered) bob "" ∧
      dispatch ⟨chain, [chain.self], ⟨0⟩, fun _ => .zeroed⟩ (reached chain registered) (.getuserbyhash "") ≠
        .ok (reached chain registered, [.name bob]) := by
  refine ⟨⟨[_], _, [], rfl, ⟨"", "", rfl⟩, by simp⟩, fun printed => ?_⟩
  obtain ⟨_, row, found, named⟩ := getuserbyhash_prints.mp printed
  have first : (reached chain registered).profiles.indexFind Profiles.byTwords
      (chain.stringToUInt64 "") = some (.registered alice "" (chain.stringToUInt64 "") "" (.fresh .zeroed)) := by
    decide +kernel
  cases first.symm.trans found
  revert named
  decide

end LocalChain.K2ultra
