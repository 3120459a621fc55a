import LocalChain.K2ultra.MessagesHosted
import LocalChain.K2ultra.Reading

/-! Every run leaves the host with the messages of the run on tables, and answers alike. -/
namespace LocalChain.K2ultra

open LocalChain.Inery LocalChain.Inery.MultiIndex LocalChain.Store LocalChain.Refine
open TableObject (Represents)
open TableProgram

variable {labelling : Labelling UInt64} {host : Host} {context : Context} {action : Action} {state next : State}
  {tables : MessageTables labelling} {scope : UInt64} {α : Type}

/-- The host keeps the messages of every scope. -/
def HostsMessages (state : State) (tables : MessageTables labelling) : Prop :=
  ∀ scope, Represents (tables scope) (state.messages scope)

/-- Every message can be packed. -/
def State.ShortMessages (state : State) : Prop :=
  ∀ scope, ∀ row ∈ (state.messages scope).rows, packSize row < 2 ^ 31

/-- The actions that work on a `messages_t` object. -/
def Action.onMessages : Action → Bool
  | .sendmsg .. | .pushmsg .. | .getunseen .. | .seenmsg .. | .deletemesgs .. => true
  | _ => false

theorem HostsMessages.put (hosts : HostsMessages state tables) {result : MessagesTable} {db : Db messagesSchema labelling}
    (represents : Represents db result) :
    HostsMessages (state.setMessages scope result) (Function.update tables scope db) := by
  intro other
  by_cases same : other = scope
  · subst same
    rw [Function.update_self, State.setMessages_messages, if_pos rfl]
    exact represents
  · rw [Function.update_of_ne same, State.setMessages_messages, if_neg same]
    exact hosts other

theorem HostsMessages.onScope (hosts : HostsMessages state tables) (program : TableProgram messagesSchema α) :
    Matches .undefined HostsMessages (Prod.map id (state.setMessages scope) <$> program.onTable (state.messages scope))
      (tables.onScope context scope program) :=
  (onObject_matches (hosts scope) program context.self).project id fun _ _ represents => hosts.put represents

theorem State.setMessages_self (state : State) (scope : UInt64) :
    state.setMessages scope (state.messages scope) = state := by
  rw [State.setMessages, Function.update_eq_self]

/-! The five actions. -/

theorem post_hosted (hosts : HostsMessages state tables) {sender : Name} {data : ByteString} {replyTo seen : UInt64}
    (short : ∀ next newId, post context scope sender data replyTo seen state = .ok (next, newId) → next.ShortMessages) :
    Matches .undefined HostsMessages (Prod.swap <$> View.lift (post context scope sender data replyTo seen state))
      (tables.onScope context scope (postMessage context sender data replyTo seen)) := by
  have small (newId : UInt64) (chosen : newMessageId (state.messages scope) = .ok newId) :
      packSize ((Messages.fresh (context.heap 0)).posted newId context.now sender data replyTo seen) < 2 ^ 31 := by
    have stored := emplace_eq_ok.mpr (show _ ∧ (state.messages scope).put ((Messages.fresh
      (context.heap 0)).posted newId context.now sender data replyTo seen) = _ from
        ⟨newMessageId_fresh chosen, rfl⟩)
    have posted : post context scope sender data replyTo seen state = .ok (_, newId) :=
      bind_eq_ok.mpr ⟨newId, chosen, bind_eq_ok.mpr ⟨_, stored, rfl⟩⟩
    apply short _ _ posted scope
    rw [State.setMessages_messages, if_pos rfl]
    exact Table.mem_put.mpr (.inl rfl)
  have matched : Matches .undefined HostsMessages _
      (tables.onScope context scope (postMessage context sender data replyTo seen)) := hosts.onScope _
  rw [postMessage_onTable small] at matched
  rw [post]
  cases chosen : newMessageId (state.messages scope) with
  | error reason =>
    rw [chosen] at matched
    exact matched
  | ok newId =>
    rw [chosen] at matched
    change Matches _ _ (Prod.map id _ <$> View.lift (emplace (state.messages scope) _ _ >>= _)) _ at matched
    change Matches _ _ (Prod.swap <$> View.lift (emplace (state.messages scope) _ _ >>= _)) _
    cases stored : emplace (state.messages scope) (Messages.fresh (context.heap 0))
        (Messages.posted newId context.now sender data replyTo seen) with
    | error reason =>
      rw [stored] at matched
      exact matched
    | ok result =>
      rw [stored] at matched
      exact matched

theorem sendmsg_hosted (hosts : HostsMessages state tables) {sender : Name} {data : ByteString} {replyTo : UInt64}
    (short : ∀ next printed, sendmsg context scope sender data replyTo state = .ok (next, printed) →
      next.ShortMessages) :
    Matches .undefined HostsMessages (Prod.swap <$> View.lift (sendmsg context scope sender data replyTo state))
      (tables.sendmsg context scope sender data replyTo) := by
  rw [MessageTables.sendmsg, sendmsg]
  rw [sendmsg] at short
  cases signed : context.requireAuth sender with
  | error reason => exact .fails _
  | ok _ =>
    rw [signed] at short
    have posted : Matches .undefined HostsMessages _ (tables.onScope context scope _) :=
      post_hosted hosts fun next newId committed =>
        short next _ (bind_eq_ok.mpr ⟨(), rfl, bind_eq_ok.mpr ⟨_, committed, rfl⟩⟩)
    have shown := posted.project (fun newId : UInt64 => [Printed.string ("\x7b\"time\": \"" ++
      toString context.now.secSinceEpoch ++ "\", \"id\":" ++ toString newId ++ "\x7d")]) fun _ _ hosts => hosts
    change Matches _ _ (Prod.swap <$> View.lift (post context scope sender data replyTo 0 state >>= _))
      (tables.onScope context scope _ >>= _)
    generalize post context scope sender data replyTo 0 state = outcome at shown ⊢
    generalize tables.onScope context scope (postMessage context sender data replyTo 0) = copy at shown ⊢
    cases outcome <;> cases copy <;> exact shown

theorem pushmsg_hosted (hosts : HostsMessages state tables) {scope sender : Name} {data : ByteString} {replyTo : UInt64}
    (short : ∀ next, pushmsg context scope sender data replyTo state = .ok next → next.ShortMessages) :
    Matches .undefined HostsMessages
      (Prod.swap <$> View.lift (silent (pushmsg context scope sender data replyTo state)))
      (tables.pushmsg context scope sender data replyTo) := by
  rw [MessageTables.pushmsg, pushmsg]
  rw [pushmsg] at short
  have posted : Matches .undefined HostsMessages _ (tables.onScope context scope.value _) :=
    post_hosted hosts fun next newId committed => short next (bind_eq_ok.mpr ⟨_, committed, rfl⟩)
  have shown := posted.project (fun _ : UInt64 => ([] : List Printed)) fun _ _ hosts => hosts
  generalize post context scope.value sender data replyTo 1 state = outcome at shown ⊢
  generalize tables.onScope context scope.value (postMessage context sender data replyTo 1) = copy at shown ⊢
  cases outcome <;> cases copy <;> exact shown

theorem getunseen_hosted (hosts : HostsMessages state tables) (sender : Name) :
    Matches .undefined HostsMessages (Prod.swap <$> View.lift (getunseen scope sender state))
      (tables.getunseen context scope sender) := by
  obtain ⟨total, answered, counted⟩ := countUnseen_onTable scope sender state
  have matched : Matches .undefined HostsMessages _ (tables.onScope context scope (countUnseen sender)) := hosts.onScope _
  rw [counted] at matched
  have shown := matched.project (fun total : Nat => [Printed.int total]) fun _ _ hosts => hosts
  change Matches _ _ (.ok ([Printed.int total], state.setMessages scope (state.messages scope))) _ at shown
  rw [State.setMessages_self] at shown
  rw [answered, MessageTables.getunseen]
  exact shown

theorem seenmsg_hosted (hosts : HostsMessages state tables) (short : state.ShortMessages) :
    Matches .undefined HostsMessages (Prod.swap <$> View.lift (seenmsg scope state)) (tables.seenmsg context scope) := by
  obtain ⟨printed, result, marked, answered⟩ := markSeen_onTable scope state (short scope)
  have matched : Matches .undefined HostsMessages _ (tables.onScope context scope markSeen) := hosts.onScope _
  rw [marked] at matched
  rw [answered]
  exact matched

theorem deletemesgs_hosted (hosts : HostsMessages state tables) :
    Matches .undefined HostsMessages (Prod.swap <$> View.lift (silent (deletemesgs scope state)))
      (tables.deletemesgs context scope) := by
  have matched : Matches .undefined HostsMessages _
      (tables.onScope context scope (eraseAll (tables scope).primary.rows.rows.length)) := hosts.onScope _
  rw [(hosts scope).length_rows, eraseAll_onTable] at matched
  rw [MessageTables.deletemesgs, (hosts scope).length_rows, deletemesgs, eraseAll_eq_ok]
  exact matched.project (fun _ => ([] : List Printed)) fun _ _ hosts => hosts

theorem dispatch_messages (hosts : HostsMessages state tables) (concerned : action.onMessages) (small : state.ShortMessages)
    (short : ∀ next printed, dispatch context state action = .ok (next, printed) → next.ShortMessages) :
    Matches .undefined HostsMessages (Prod.swap <$> View.lift (dispatch context state action))
      (tables.dispatch context action) := by
  cases action
  case sendmsg => exact sendmsg_hosted hosts short
  case pushmsg scope sender data replyTo =>
    refine pushmsg_hosted hosts fun next committed => short next [] ?_
    rw [dispatch, committed]
    rfl
  case getunseen scope sender => exact getunseen_hosted hosts sender
  case seenmsg => exact seenmsg_hosted hosts small
  case deletemesgs => exact deletemesgs_hosted hosts
  all_goals cases concerned

/-! Runs. -/

theorem Action.onMessages_of_post? {posting : UInt64 × Name × ByteString × UInt64} (called : action.post? = some posting) :
    action.onMessages = true := by
  cases action <;> first | rfl | cases called

/-- The other actions leave the messages alone. -/
theorem step_elsewhere {tx : Tx} (committed : step host state tx = some next) (elsewhere : tx.action.onMessages = false) :
    next.messages = state.messages := by
  funext scope
  cases step_messages committed scope with
  | untouched _ same => exact same
  | posted called =>
    rw [Action.onMessages_of_post? called] at elsewhere
    cases elsewhere
  | marked called | unmarked called | wiped called =>
    rw [called] at elsewhere
    cases elsewhere

/-- A transaction whose action matches leaves matching states, also where it aborts. -/
theorem exec_of_matches {ω : Type} {related : State → ω → Prop} {world : ω} {worldStep : ω → Tx → Option ω} {tx : Tx}
    {result : Except Fault (List Printed × ω)} (steps : worldStep world tx = Prod.snd <$> result.toOption)
    (matched : Matches .undefined related (Prod.swap <$> View.lift (dispatch (tx.context host) state tx.action)) result)
    (held : related state world) : related (exec (step host) state tx) (exec worldStep world tx) := by
  rw [exec, exec, steps, step]
  cases outcome : dispatch (tx.context host) state tx.action with
  | error reason =>
    rw [outcome] at matched
    rw [matched.of_error Fault.noConfusion]
    exact held
  | ok next =>
    rw [outcome] at matched
    obtain ⟨later, ran, kept⟩ := matched.of_ok
    rw [ran]
    exact kept

theorem MessageTables.step_eq (host : Host) (tables : MessageTables labelling) (tx : Tx) :
    MessageTables.step host tables tx = Prod.snd <$> (tables.dispatch (tx.context host) tx.action).toOption := by
  rw [MessageTables.step]
  cases tables.dispatch (tx.context host) tx.action <;> rfl

theorem exec_hosted (hosts : HostsMessages state tables) (tx : Tx) (small : state.ShortMessages)
    (short : ∀ next, step host state tx = some next → next.ShortMessages) :
    HostsMessages (exec (step host) state tx) (exec (MessageTables.step host) tables tx) := by
  cases concerned : tx.action.onMessages with
  | true =>
    exact exec_of_matches (MessageTables.step_eq host tables tx) (dispatch_messages hosts concerned small
      fun next printed committed => short next (step_eq_some.mpr ⟨printed, committed⟩)) hosts
  | false =>
    have ignored : tables.dispatch (tx.context host) tx.action = .ok ([], tables) := by
      cases action : tx.action <;> rw [action] at concerned <;> first | rfl | cases concerned
    rw [exec, exec, MessageTables.step_eq, ignored]
    cases committed : step host state tx with
    | none => exact hosts
    | some next =>
      intro scope
      change Represents (tables scope) (next.messages scope)
      rw [step_elsewhere committed concerned]
      exact hosts scope

theorem reached_messages (host : Host) (numbers : labelling.State) (txs : List Tx)
    (short : ∀ earlier, earlier <+: txs → (reached host earlier).ShortMessages) :
    HostsMessages (reached host txs) (MessageTables.reached host numbers txs) := by
  rw [reached, MessageTables.reached]
  exact run_alongside HostsMessages State.ShortMessages
    (fun _ _ tx hosts small short => exec_hosted hosts tx small short) (fun _ => .empty numbers) short

/-- In every run the objects leave the host with the messages of the tables, and an action on messages
prints what it prints on the tables or stops with the same message. -/
theorem messages_on_objects (host : Host) (numbers : labelling.State) (txs : List Tx)
    (short : ∀ earlier, earlier <+: txs → (reached host earlier).ShortMessages) :
    HostsMessages (reached host txs) (MessageTables.reached host numbers txs) ∧
      ∀ tx : Tx, tx.action.onMessages → (∀ next, step host (reached host txs) tx = some next → next.ShortMessages) →
        Matches .undefined HostsMessages
          (Prod.swap <$> View.lift (dispatch (tx.context host) (reached host txs) tx.action))
          ((MessageTables.reached host numbers txs).dispatch (tx.context host) tx.action) := by
  have hosts := reached_messages host numbers txs short
  refine ⟨hosts, fun tx concerned small => ?_⟩
  exact dispatch_messages hosts concerned (short txs List.prefix_rfl) fun next printed committed =>
    small next (step_eq_some.mpr ⟨printed, committed⟩)

/-! Runs whose messages stay short. -/

/-- A message that is posted leaves room for the other fields of its row. -/
def Action.postsShort (action : Action) : Bool :=
  action.post?.all fun (_, _, data, _) => data.bytes.length < 2 ^ 31 - 45

theorem packSize_messages_le (row : Messages) : packSize row ≤ 45 + row.data.bytes.length := by
  have tuple : packSize row = packSize (row.id, row.time, row.sender, row.replyTo, row.seen, row.data) := rfl
  have count : packSizeUnsignedInt row.data.bytes.length.toUInt32 ≤ 5 := varintSize_le _ _
  simp only [tuple, packSize_pair, packSize_uint64, packSize_timePoint, packSize_name, packSize_string, packSizeString]
  omega

theorem step_shortMessages {tx : Tx} (short : state.ShortMessages) (committed : step host state tx = some next)
    (posts : tx.action.postsShort) : next.ShortMessages := by
  intro scope row member
  cases step_messages committed scope with
  | @posted sender data newId replyTo seen called _ _ result =>
    rw [result] at member
    rcases Table.mem_put.mp member with rfl | ⟨old, _⟩
    · simp only [Action.postsShort, called, Option.all_some, decide_eq_true_eq] at posts
      have bound := packSize_messages_le ((Messages.fresh (tx.heap 0)).posted newId tx.now sender data replyTo seen)
      exact bound.trans_lt (Nat.add_lt_of_lt_sub' posts)
    · exact short scope row old
  | marked _ _ _ marks =>
    have held := Table.find?_self member
    rcases marks row.id with same | marked
    · exact short scope row (Table.find?_eq_some.mp (same.symm.trans held)).1
    · obtain ⟨old, found, rfl⟩ := Option.map_eq_some_iff.mp (marked.symm.trans held)
      rw [packSize_setSeen]
      exact short scope old (Table.find?_eq_some.mp found).1
  | unmarked _ _ same => exact short scope row (same ▸ member)
  | wiped _ result =>
    rw [result] at member
    exact absurd member List.not_mem_nil
  | untouched _ same => exact short scope row (same ▸ member)

theorem reached_shortMessages (posts : ∀ tx ∈ txs, tx.action.postsShort) : (reached host txs).ShortMessages := by
  refine run_invariant (fun (entry : Transition State Tx) => entry.tx.action.postsShort)
    (fun _ _ member => absurd member List.not_mem_nil) (fun _ _ _ short committed => step_shortMessages short committed) ?_
  intro entry member
  exact posts _ (step_of_mem_journal member).1

/-- The host that Alice and Bob leave tells Bob that three messages of his are unseen. -/
theorem resumed_counted :
    ∃ tables, (MessageTables.reached chain noNumbers resumed).dispatch
        ((Tx.unsigned (.getunseen 0 bob)).context chain) (.getunseen 0 bob) = .ok ([.int 3], tables) ∧
      HostsMessages (reached chain resumed) tables := by
  have short (earlier : List Tx) (first : earlier <+: resumed) : (reached chain earlier).ShortMessages :=
    reached_shortMessages fun tx member =>
      (by decide : ∀ tx ∈ resumed, tx.action.postsShort) tx (first.subset member)
  have number : counted bob (unseen ((reached chain resumed).messages 0).rows).reverse = 3 := by decide +kernel
  have counts : dispatch ((Tx.unsigned (.getunseen 0 bob)).context chain) (reached chain resumed) (.getunseen 0 bob) =
      .ok (reached chain resumed, [.int 3]) := by
    have answer : getunseen 0 bob (reached chain resumed) = .ok (_, [.int _]) :=
      getunseen_eq (reached_binary chain resumed 0)
    rwa [number] at answer
  have unchanged (next : State)
      (committed : step chain (reached chain resumed) (.unsigned (.getunseen 0 bob)) = some next) :
      next.ShortMessages := by
    obtain ⟨_, done⟩ := step_eq_some.mp committed
    obtain ⟨rfl, _⟩ := Prod.mk.inj (Except.ok.inj (counts.symm.trans done))
    exact short resumed List.prefix_rfl
  have answered : Matches .undefined HostsMessages
      (Prod.swap <$> View.lift (dispatch _ (reached chain resumed) (.getunseen 0 bob))) _ :=
    (messages_on_objects chain noNumbers resumed short).2 (.unsigned (.getunseen 0 bob)) rfl unchanged
  have shown (state : State) : Prod.swap <$> View.lift (.ok (state, [.int 3]) : Except Abort (State × List Printed)) =
      .ok ([.int 3], state) := rfl
  rw [counts, shown] at answered
  exact answered.of_ok

end LocalChain.K2ultra
