import LocalChain.Inerygui.Run

namespace LocalChain.Inerygui

open LocalChain.Inery LocalChain.Store
open LocalChain.K2ultra (Host)

/-- What a successful `addhistory` was given. -/
structure Event where
  object : HistoryObject
  type : ByteString
deriving DecidableEq

def event? (owner composition : Name) (entry : Transition State Tx) : Option Event :=
  match entry.tx.action with
  | .addhistory owner' composition' object type =>
    if owner' = owner ∧ composition' = composition then some ⟨object, type⟩ else none
  | _ => none

/-- The events that a run has added for a composition of an owner, oldest first. -/
def events (host : Host) (txs : List Tx) (owner composition : Name) : List Event :=
  (history host txs).filterMap (event? owner composition)

/-- The types that name a list of the row. -/
def knownTypes : List ByteString := ["cr", "up", "dl"]

def ofType (type : ByteString) (events : List Event) : List HistoryObject :=
  (events.filter (fun event => event.type = type)).map Event.object

/-- The row of a composition, if it has one, holds its events and nothing else, each in the list that its
type names. -/
structure Complete (events : List Event) (row? : Option History) : Prop where
  present : row?.isSome ↔ events ≠ []
  created : ∀ row, row? = some row → row.createhistory = ofType "cr" events
  updated : ∀ row, row? = some row → row.updatehistory = ofType "up" events
  deleted : ∀ row, row? = some row → row.deletehistory = ofType "dl" events
  whole : ∀ row, row? = some row →
    (row.createhistory ++ row.updatehistory ++ row.deletehistory).Perm (events.map Event.object)

/-- The row that the events of a composition lead to. -/
def replay (composition : Name) (events : List Event) : Option History :=
  events.foldl (fun row? event => some (History.grown composition event.object event.type row?)) none

variable {host : Host} {txs : List Tx} {tx : Tx} {state next : State} {owner composition : Name}
  {log : List Event} {event : Event} {row : History}

theorem replay_concat (composition : Name) (log : List Event) (event : Event) :
    replay composition (log ++ [event]) =
      some (History.grown composition event.object event.type (replay composition log)) := by
  simp [replay]

theorem ofType_concat (type : ByteString) (log : List Event) (event : Event) :
    ofType type (log ++ [event]) =
      ofType type log ++ if event.type = type then [event.object] else [] := by
  by_cases same : event.type = type <;> simp [ofType, same]

@[simp] theorem History.record_composition {object : HistoryObject} {type : ByteString} :
    (row.record object type).composition = row.composition := by
  unfold record
  split_ifs <;> rfl

/-- An event goes to the end of the list that its type names. -/
theorem History.record_lists (row : History) (object : HistoryObject) (type : ByteString) :
    (row.record object type).createhistory =
        row.createhistory ++ (if type = "cr" then [object] else []) ∧
      (row.record object type).updatehistory =
        row.updatehistory ++ (if type = "up" then [object] else []) ∧
      (row.record object type).deletehistory =
        row.deletehistory ++ (if type = "dl" then [object] else []) := by
  unfold record
  split_ifs <;> simp_all

/-- The branch for the first event and the one for later ones do the same to the lists. -/
theorem History.grown_eq {object : HistoryObject} {type : ByteString} (row? : Option History) :
    History.grown composition object type row? =
      (row?.getD { History.fresh with composition := composition }).record object type := by
  cases row? <;> rfl

/-- The row that an event leads to takes the place of the one before. -/
theorem History.grown_composition {histories : HistoryTable} {object : HistoryObject} {type : ByteString} :
    (History.grown composition object type (histories.find? composition.value)).composition =
      composition := by
  cases held : histories.find? composition.value with
  | none => exact History.record_composition
  | some row =>
    have place := Table.key_of_find? held
    exact History.record_composition.trans (Name.value_inj.mp place)

/-- Only `addhistory` writes histories. -/
theorem Effect.history_kept {context : Context} {action : Action} {contract after : Contract}
    (effect : Effect context action contract after)
    (other : ∀ owner composition object type, action ≠ .addhistory owner composition object type) :
    after.history = contract.history := by
  cases effect with
  | recorded called => exact absurd called (other _ _ _ _)
  | upgraded _ _ _ result | cleared _ _ result | configured _ _ result | idle _ result =>
    subst result
    rfl
  | registered _ _ _ result | edited _ _ _ _ _ result | linked _ _ result =>
    subst result
    rfl

/-- A step leaves the row of a composition alone or adds to it the event that it was given. -/
theorem step_history (committed : step host state tx = some next) :
    (next.history owner.value).find? composition.value =
      match event? owner composition ⟨state, tx, next⟩ with
      | none => (state.history owner.value).find? composition.value
      | some event => some (History.grown composition event.object event.type
          ((state.history owner.value).find? composition.value)) := by
  cases called : tx.action with
  | addhistory owner' composition' object type =>
    obtain ⟨contract, printed, done, rfl⟩ := step_eq_some.mp committed
    rw [called] at done
    obtain ⟨_, rfl⟩ := addhistory_ok (silent_eq_ok.mp done).1
    simp only [event?, called, Contract.destruct, Contract.setHistory_history]
    by_cases here : owner' = owner
    · subst here
      rw [if_pos rfl, Table.find?_put, History.primaryKey_eq, History.grown_composition]
      by_cases same : composition' = composition
      · subst same
        simp [Contract.construct]
      · have apart : composition.value ≠ composition'.value :=
          fun equal => same (Name.value_inj.mp equal).symm
        simp [same, apart, Contract.construct]
    · have apart : owner.value ≠ owner'.value := fun equal => here (Name.value_inj.mp equal).symm
      simp [here, apart, Contract.construct]
  | _ =>
    obtain ⟨contract, effect, rfl⟩ := step_effect committed
    have kept := effect.history_kept (by simp [called])
    simp only [event?, called]
    exact congrArg (fun history => (history owner.value).find? composition.value) kept

/-- After every run the row of a composition is what its events lead to. -/
theorem reached_replay (host : Host) (txs : List Tx) (owner composition : Name) :
    ((reached host txs).history owner.value).find? composition.value =
      replay composition (events host txs owner composition) := by
  refine run_induction
    (motive := fun past (state : State) => (state.history owner.value).find? composition.value =
      replay composition (past.filterMap (event? owner composition))) rfl ?_ txs
  intro past state tx next ih committed
  rw [step_history committed, List.filterMap_append]
  cases added : event? owner composition ⟨state, tx, next⟩ with
  | none => simpa [added] using ih
  | some event =>
    rw [List.filterMap_cons_some added, List.filterMap_nil, replay_concat, ih]

theorem replay_isSome : (replay composition log).isSome ↔ log ≠ [] := by
  induction log using List.reverseRecOn with
  | nil => simp [replay]
  | append_singleton log event _ => simp [replay_concat]

private theorem replay_lists (built : replay composition log = some row) :
    row.createhistory = ofType "cr" log ∧ row.updatehistory = ofType "up" log ∧
      row.deletehistory = ofType "dl" log := by
  have started : (replay composition log).getD { History.fresh with composition := composition } = row := by
    rw [built]
    rfl
  subst started
  clear built
  induction log using List.reverseRecOn with
  | nil => exact ⟨rfl, rfl, rfl⟩
  | append_singleton log event ih =>
    obtain ⟨created, updated, deleted⟩ := ih
    obtain ⟨created', updated', deleted'⟩ := History.record_lists
      ((replay composition log).getD { History.fresh with composition := composition })
      event.object event.type
    rw [replay_concat, Option.getD_some, History.grown_eq, created', updated', deleted', created,
      updated, deleted]
    simp only [ofType_concat, and_self]

theorem ofType_cons (type : ByteString) (event : Event) (log : List Event) :
    ofType type (event :: log) =
      if event.type = type then event.object :: ofType type log else ofType type log := by
  by_cases same : event.type = type <;> simp [ofType, same]

/-- The three lists share out the events of known types. -/
theorem ofType_perm (log : List Event) :
    (ofType "cr" log ++ ofType "up" log ++ ofType "dl" log).Perm
      ((log.filter (fun event => event.type ∈ knownTypes)).map Event.object) := by
  induction log with
  | nil => exact .refl _
  | cons event rest ih =>
    simp only [ofType_cons]
    by_cases known : event.type ∈ knownTypes
    · rw [List.filter_cons_of_pos (by simpa using known), List.map_cons]
      simp only [knownTypes, List.mem_cons, List.not_mem_nil, or_false] at known
      rcases known with type | type | type
      · simpa [type] using ih
      · have moved : (ofType "cr" rest ++ event.object :: ofType "up" rest ++ ofType "dl" rest).Perm
            (event.object :: (ofType "cr" rest ++ ofType "up" rest ++ ofType "dl" rest)) := by
          simp
        simpa [type] using moved.trans (ih.cons _)
      · have moved : (ofType "cr" rest ++ ofType "up" rest ++ event.object :: ofType "dl" rest).Perm
            (event.object :: (ofType "cr" rest ++ ofType "up" rest ++ ofType "dl" rest)) :=
          List.perm_middle
        simpa [type] using moved.trans (ih.cons _)
    · rw [List.filter_cons_of_neg (by simpa using known)]
      simp only [knownTypes, List.mem_cons, List.not_mem_nil, or_false, not_or] at known
      simpa [known] using ih

/-- After every run the history of a composition is complete exactly if every event that was added for it
has a type that names a list. -/
theorem history_complete_iff (host : Host) (txs : List Tx) (owner composition : Name) :
    Complete (events host txs owner composition)
        (((reached host txs).history owner.value).find? composition.value) ↔
      ∀ event ∈ events host txs owner composition, event.type ∈ knownTypes := by
  rw [reached_replay]
  set log := events host txs owner composition
  have shared := ofType_perm log
  constructor
  · intro complete event member
    obtain ⟨row, built⟩ := Option.isSome_iff_exists.mp
      (replay_isSome.mpr (List.ne_nil_of_mem member) : (replay composition log).isSome)
    obtain ⟨created, updated, deleted⟩ := replay_lists built
    have whole := complete.whole row built
    rw [created, updated, deleted] at whole
    have lengths := (shared.symm.trans whole).length_eq
    rw [List.length_map, List.length_map] at lengths
    simpa using List.length_filter_eq_length_iff.mp lengths event member
  · intro known
    have all : log.filter (fun event => event.type ∈ knownTypes) = log :=
      List.filter_eq_self.mpr (by simpa using known)
    rw [all] at shared
    refine ⟨replay_isSome, fun row built => (replay_lists built).1,
      fun row built => (replay_lists built).2.1, fun row built => (replay_lists built).2.2,
      fun row built => ?_⟩
    obtain ⟨created, updated, deleted⟩ := replay_lists built
    rwa [created, updated, deleted]

/-- Alice adds an event of an unknown type. -/
def mistyped : List Tx :=
  [.signed alice (.addhistory alice ⟨1⟩ ⟨5, "transaction", ⟨0⟩⟩ "del")]

theorem mistyped_not_complete :
    events chain mistyped alice ⟨1⟩ = [⟨⟨5, "transaction", ⟨0⟩⟩, "del"⟩] ∧
      ¬ Complete (events chain mistyped alice ⟨1⟩)
        (((reached chain mistyped).history alice.value).find? (⟨1⟩ : Name).value) := by
  have added : events chain mistyped alice ⟨1⟩ = [⟨⟨5, "transaction", ⟨0⟩⟩, "del"⟩] := by
    decide +kernel
  have held : ((reached chain mistyped).history alice.value).find? (⟨1⟩ : Name).value =
      some ⟨⟨1⟩, "", [], [], []⟩ := by decide +kernel
  refine ⟨added, fun complete => ?_⟩
  have whole := complete.whole _ held
  rw [added] at whole
  simp at whole

end LocalChain.Inerygui
