import LocalChain.K2ultra.Conversation

namespace LocalChain.K2ultra

open LocalChain.Graph LocalChain.Inery LocalChain.Store

variable {host : Host} {before after : List Tx} {tx : Tx} {state next : State}
  {action : Action} {conversation : Opening} {x : Name} {row : Requests}

/-- The actions that set `cntct` on the caller's row for another account. -/
def Action.connects? : Action → Option (Name × Name)
  | .resprequest owner from' _ true => some (owner, from')
  | .blockcontact owner contact false => some (owner, contact)
  | _ => none

def Action.accepts : Action → Bool
  | .resprequest _ _ _ true => true
  | _ => false

/-- A step that sets `cntct` in a conversation whose first request is not answered as far as the
tables show, and that is not its addressee's acceptance. -/
def Premature (conversation : Opening) (state : State) (action : Action) : Bool :=
  match action.connects? with
  | none => false
  | some (owner, contact) =>
    ((state.requests owner.value).indexFind Requests.byContact contact.value).any fun mine =>
      mine.scope = conversation.scope && !mine.cntct &&
        (state.book conversation.from' conversation.scope).all Requests.pending &&
        !(owner = conversation.to' && action.accepts)

/-- The addressee of the conversation accepts it. -/
def AcceptedBy (conversation : Opening) (action : Action) : Prop :=
  ∃ key, action = .resprequest conversation.to' conversation.from' key true

/-- From `next` on, a row of the conversation becomes a contact only after its addressee accepted. -/
def Consented (host : Host) (next : State) (after : List Tx) (conversation : Opening) : Prop :=
  ∀ (x : Name) (row : Requests), x = conversation.from' ∨ x = conversation.to' →
    row ∈ ((run (step host) next after).requests x.value).rows →
    row.scope = conversation.scope → row.cntct = true →
    ∃ entry ∈ journal (step host) next after, AcceptedBy conversation entry.tx.action

/-- Until the addressee has accepted, no step is premature. -/
def Timely (host : Host) (next : State) (after : List Tx) (conversation : Opening) : Prop :=
  ∀ past entry later, journal (step host) next after = past ++ entry :: later →
    (∀ earlier ∈ past, ¬ AcceptedBy conversation earlier.tx.action) →
    Premature conversation entry.before entry.tx.action = false

/-- A conversation that its addressee has not accepted yet. -/
structure Awaiting (conversation : Opening) (state : State) : Prop where
  distinct : conversation.from' ≠ conversation.to'
  given : state.given conversation.scope
  only : ∀ x row, state.book x conversation.scope = some row →
    Links.SamePair x row.contact conversation.from' conversation.to'
  unanswered : ∀ x row, state.book x conversation.scope = some row → row.cntct = false
  asking : ∀ row, state.book conversation.from' conversation.scope = some row → row.pending = true

/-- What an edit can do to the flags of a contact. -/
theorem Requests.edit_flags {contact : Name} {updater : Requests → Requests}
    (called : action.edit? = some (x, contact, updater)) :
    (∀ row, (updater row).pending = row.pending) ∧
      ((∀ row, row.cntct = false → (updater row).cntct = false) ∨
        action = .blockcontact x contact false) := by
  cases action <;> simp only [Action.edit?, reduceCtorEq, Option.some.injEq, Prod.mk.injEq] at called <;>
    obtain ⟨rfl, rfl, rfl⟩ := called
  case blockcontact status =>
    cases status with
    | true => exact ⟨fun _ => rfl, .inl fun _ _ => rfl⟩
    | false => exact ⟨fun _ => rfl, .inr rfl⟩
  case favcontact status => cases status <;> exact ⟨fun _ => rfl, .inl fun _ unset => unset⟩
  case mutecontact status => cases status <;> exact ⟨fun _ => rfl, .inl fun _ unset => unset⟩
  case changealias => exact ⟨fun _ => rfl, .inl fun _ unset => unset⟩

/-- While a conversation waits, whoever sets `cntct` without being its addressee is premature. -/
theorem Awaiting.premature (awaiting : Awaiting conversation state) (action : Action)
    {owner contact : Name} {mine : Requests} (called : action.connects? = some (owner, contact))
    (found : (state.requests owner.value).indexFind Requests.byContact contact.value = some mine)
    (place : mine.scope = conversation.scope)
    (other : ¬ (owner = conversation.to' ∧ action.accepts)) :
    Premature conversation state action := by
  have held := (State.book_of_lookup found).1
  rw [place] at held
  have unset := awaiting.unanswered owner mine held
  have waiting : (state.book conversation.from' conversation.scope).all Requests.pending := by
    cases asked : state.book conversation.from' conversation.scope with
    | none => rfl
    | some row => exact awaiting.asking row asked
  simpa [Premature, called, found, place, unset, waiting] using not_and_or.mp other

/-- A committed step keeps a conversation waiting, unless it is the addressee's acceptance. -/
theorem Awaiting.step (awaiting : Awaiting conversation state)
    (committed : step host state tx = some next) (permitted : tx.action.name ∉ reusing)
    (timely : Premature conversation state tx.action = false) :
    Awaiting conversation next ∨ AcceptedBy conversation tx.action := by
  by_cases answered : AcceptedBy conversation tx.action
  · exact .inr answered
  have unaccepted {owner from' : Name} {key : ByteString} {mine theirs : Requests}
      (called : tx.action = .resprequest owner from' key true)
      (place : mine.scope = conversation.scope)
      (effect : Accepted owner from' key mine theirs state next) : False := by
    obtain ⟨held, names⟩ := State.book_of_lookup effect.found
    rw [place] at held
    have pair := awaiting.only owner mine held
    rw [names] at pair
    have early := awaiting.premature tx.action (by rw [called]; rfl) effect.found place ?_
    · rw [timely] at early
      cases early
    · rintro ⟨rfl, _⟩
      rcases pair with ⟨same, _⟩ | ⟨_, same⟩
      · exact awaiting.distinct same.symm
      · exact answered ⟨key, same ▸ called⟩
  have rows (x : Name) (row : Requests) (held : next.book x conversation.scope = some row) :
      Links.SamePair x row.contact conversation.from' conversation.to' ∧ row.cntct = false ∧
        (x = conversation.from' → row.pending = true) := by
    cases (step_effect committed).book.origin held with
    | kept old =>
      exact ⟨awaiting.only x row old, awaiting.unanswered x row old,
        fun same => awaiting.asking row (same ▸ old)⟩
    | received _ effect => exact absurd awaiting.given effect.fresh
    | sent _ effect => exact absurd awaiting.given effect.fresh
    | forced called => exact absurd called (ne_forcerequest permitted)
    | answered called place effect => exact (unaccepted called place effect).elim
    | confirmed called place effect => exact (unaccepted called place effect).elim
    | @edited contact updater mine called place effect result =>
      subst result
      obtain ⟨old, names⟩ := State.book_of_lookup effect.found
      rw [place] at old
      obtain ⟨pending, flag⟩ := Requests.edit_flags called
      refine ⟨?_, ?_, fun same => ?_⟩
      · rw [(Requests.annotates_of_edit called).contact]
        exact awaiting.only x mine old
      · rcases flag with unset | unblocks
        · exact unset mine (awaiting.unanswered x mine old)
        · have early := awaiting.premature tx.action (by rw [unblocks]; rfl)
            effect.found place (by simp [unblocks, Action.accepts])
          rw [timely] at early
          cases early
      · rw [pending]
        exact awaiting.asking mine (same ▸ old)
  exact .inl ⟨awaiting.distinct, given_step committed (ne_rraddr permitted) awaiting.given,
    fun x row held => (rows x row held).1, fun x row held => (rows x row held).2.1,
    fun row held => (rows _ row held).2.2 rfl⟩

/-- Just after its request a conversation waits: under a fresh id there are only the two new rows. -/
theorem Opened.awaiting {context : Context} {a b : Name} {key : ByteString} {s : UInt64}
    (effect : Opened context a b key s state next) (exclusive : state.Exclusive)
    (zeroed : context.heap = fun _ => .zeroed) : Awaiting ⟨a, b, s⟩ next := by
  have rows (x : Name) (row : Requests) (held : next.book x s = some row) :
      Links.SamePair x row.contact a b ∧ row.cntct = false ∧ (x = a → row.pending = true) := by
    rw [effect.book, zeroed] at held
    rcases Book.put_eq_some.mp held with ⟨rfl, _, rfl⟩ | ⟨_, held⟩
    · exact ⟨.inl ⟨rfl, rfl⟩, rfl, fun _ => rfl⟩
    · rcases Book.put_eq_some.mp held with ⟨rfl, _, rfl⟩ | ⟨_, old⟩
      · exact ⟨.inr ⟨rfl, rfl⟩, rfl, fun same => absurd same.symm effect.distinct⟩
      · exact absurd (exclusive.within x s row.contact (State.links_of_book old)) effect.fresh
  exact ⟨effect.distinct, effect.given, fun x row held => (rows x row held).1,
    fun x row held => (rows x row held).2.1, fun row held => (rows _ row held).2.2 rfl⟩

theorem Action.connects?_eq_some {owner contact : Name} (called : action.connects? = some (owner, contact)) :
    (∃ key, action = .resprequest owner contact key true) ∨ action = .blockcontact owner contact false := by
  cases action <;> simp only [Action.connects?, reduceCtorEq] at called
  case resprequest accept =>
    cases accept <;> simp only [reduceCtorEq, Option.some.injEq, Prod.mk.injEq] at called
    obtain ⟨rfl, rfl⟩ := called
    exact .inl ⟨_, rfl⟩
  case blockcontact status =>
    cases status <;> simp only [reduceCtorEq, Option.some.injEq, Prod.mk.injEq] at called
    obtain ⟨rfl, rfl⟩ := called
    exact .inr rfl

/-- A committed acceptance or unblocking leaves `cntct` set on the caller's row. -/
theorem connected_of_connects {owner contact : Name} {mine : Requests}
    (committed : step host state tx = some next) (called : tx.action.connects? = some (owner, contact))
    (found : (state.requests owner.value).indexFind Requests.byContact contact.value = some mine) :
    ∃ row, next.book owner mine.scope = some row ∧ row.cntct = true := by
  rcases Action.connects?_eq_some called with ⟨key, accepts⟩ | unblocks
  · obtain ⟨_, own, theirs, effect⟩ := (step_effect committed).book.accepted_of accepts
    obtain rfl := Option.some.inj (effect.found.symm.trans found)
    exact ⟨own.confirmed, by simp [effect.book, Book.put], rfl⟩
  · have edits : tx.action.edit? = some (owner, contact, Requests.setBlocked false) := by rw [unblocks]; rfl
    obtain ⟨own, effect⟩ := (step_effect committed).book.edited_of edits
    obtain rfl := Option.some.inj (effect.found.symm.trans found)
    exact ⟨own.setBlocked false, by simp [effect.book, Book.put, Requests.setBlocked], rfl⟩

/-- While a conversation waits, a premature step makes a contact of one of its rows. -/
theorem premature_connects (awaiting : Awaiting conversation state)
    (committed : step host state tx = some next) (early : Premature conversation state tx.action) :
    ¬ AcceptedBy conversation tx.action ∧ ∃ x row, (x = conversation.from' ∨ x = conversation.to') ∧
      next.book x conversation.scope = some row ∧ row.cntct = true := by
  cases connects : tx.action.connects? with
  | none => simp [Premature, connects] at early
  | some pair =>
    obtain ⟨owner, contact⟩ := pair
    simp only [Premature, connects, Option.any_eq_true, Bool.and_eq_true, decide_eq_true_eq] at early
    obtain ⟨mine, found, ⟨⟨place, _⟩, _⟩, other⟩ := early
    refine ⟨?_, ?_⟩
    · rintro ⟨key, accepts⟩
      rw [accepts] at connects other
      cases connects
      simp [Action.accepts] at other
    · obtain ⟨row, held, connected⟩ := connected_of_connects committed connects found
      have pair := awaiting.only owner mine (place ▸ (State.book_of_lookup found).1)
      exact ⟨owner, row, pair.imp And.left And.left, place ▸ held, connected⟩

theorem consented_nil (awaiting : Awaiting conversation next) : Consented host next [] conversation := by
  intro x row _ present same connected
  have held := State.mem_rows.mp present
  rw [run_nil, same] at held
  rw [awaiting.unanswered x row held] at connected
  cases connected

theorem consented_aborted (aborted : step host state tx = none) :
    Consented host state (tx :: after) conversation ↔ Consented host state after conversation := by
  simp [Consented, journal, aborted, exec_of_aborted aborted]

theorem consented_cons (committed : step host state tx = some next) :
    Consented host state (tx :: after) conversation ↔
      AcceptedBy conversation tx.action ∨ Consented host next after conversation := by
  by_cases accepted : AcceptedBy conversation tx.action <;>
    simp [Consented, journal, committed, exec_of_committed committed, accepted]

theorem timely_aborted (aborted : step host state tx = none) :
    Timely host state (tx :: after) conversation ↔ Timely host state after conversation := by
  simp [Timely, journal, aborted]

theorem timely_cons (committed : step host state tx = some next) :
    Timely host state (tx :: after) conversation ↔ Premature conversation state tx.action = false ∧
      (AcceptedBy conversation tx.action ∨ Timely host next after conversation) := by
  have entries : journal (step host) state (tx :: after) = ⟨state, tx, next⟩ :: journal (step host) next after := by
    simp [journal, committed]
  constructor
  · intro timely
    refine ⟨timely [] _ _ entries (by simp), or_iff_not_imp_left.mpr fun unaccepted => ?_⟩
    intro past entry later split earlier
    exact timely (_ :: past) entry later (by rw [entries, split]; rfl)
      (List.forall_mem_cons.mpr ⟨unaccepted, earlier⟩)
  · rintro ⟨first, rest⟩ past entry later split unaccepted
    rw [entries] at split
    cases past with
    | nil =>
      obtain ⟨rfl, _⟩ := List.cons.inj split
      exact first
    | cons head past =>
      obtain ⟨rfl, tail⟩ := List.cons.inj split
      obtain ⟨before, between⟩ := List.forall_mem_cons.mp unaccepted
      exact rest.resolve_left before past entry later tail between

/-- From a state in which the conversation waits. By induction on the run: an acceptance settles it, a premature
step breaks it at once, and after every other step it waits as before. -/
theorem consented_iff_timely (awaiting : Awaiting conversation state)
    (permitted : ∀ later ∈ after, later.action.name ∉ reusing) :
    (∀ earlier, earlier <+: after → Consented host state earlier conversation) ↔
      Timely host state after conversation := by
  induction after generalizing state with
  | nil => simp [consented_nil awaiting, Timely, journal]
  | cons tx rest ih =>
    obtain ⟨here, later⟩ := List.forall_mem_cons.mp permitted
    have split : (∀ earlier, earlier <+: tx :: rest → Consented host state earlier conversation) ↔
        ∀ earlier, earlier <+: rest → Consented host state (tx :: earlier) conversation := by
      simp only [List.prefix_cons_iff, or_imp, forall_and, forall_eq, consented_nil awaiting, true_and]
      constructor
      · intro every earlier first
        exact every _ ⟨earlier, rfl, first⟩
      · rintro every _ ⟨earlier, rfl, first⟩
        exact every earlier first
    rw [split]
    cases outcome : step host state tx with
    | none => simpa only [consented_aborted outcome, timely_aborted outcome] using ih awaiting later
    | some next =>
      simp only [consented_cons outcome, timely_cons outcome]
      cases early : Premature conversation state tx.action with
      | true =>
        obtain ⟨unaccepted, x, row, party, held, connected⟩ := premature_connects awaiting outcome early
        refine iff_of_false (fun consented => ?_) (by simp)
        have now := (consented [] List.nil_prefix).resolve_left unaccepted
        obtain ⟨entry, member, _⟩ := now x row party
          (Table.find?_eq_some.mp held).1 (State.book_scope held) connected
        cases member
      | false =>
        rcases awaiting.step outcome here early with still | accepted
        · by_cases accepted : AcceptedBy conversation tx.action <;> simp [accepted, ih still later]
        · simp [accepted]

/-- In every state of a run the rows of a conversation are contacts only once its addressee has accepted,
exactly if no step before that acceptance is premature. -/
theorem consent_iff {conversation : Opening}
    (without : Without [.forcerequest, .deletereqs2, .rraddr] (before ++ tx :: after))
    (zeroed : ∀ other ∈ before ++ tx :: after, other.heap = fun _ => .zeroed)
    (committed : step host (reached host before) tx = some next)
    (opens : opening? ⟨reached host before, tx, next⟩ = some conversation) :
    (∀ earlier, earlier <+: after → Consented host next earlier conversation) ↔
      Timely host next after conversation := by
  have unreused : Without reusing (before ++ tx :: after) := without.mono (by decide)
  obtain ⟨_, _, effect⟩ := opening_committed committed opens
  have initial : Awaiting conversation next := by
    refine effect.awaiting (reached_exclusive fun other member => ?_) (zeroed tx (by simp))
    exact unreused other (by simp [member])
  exact consented_iff_timely initial fun later member => unreused later (by simp [member])

/-- Bob accepts and blocks Alice, she is deleted and registers anew, and Bob unblocks her again. -/
def restored : List Tx :=
  [.signed bob (.resprequest bob alice "kb" true), .signed bob (.blockcontact bob alice true),
    .signed chain.self (.deleteuser alice), .signed alice (.reguser alice "" "" ""),
    .signed bob (.blockcontact bob alice false)]

/-- After his acceptance Bob makes a contact of Alice once more, by unblocking her. -/
theorem restored_consented :
    (∀ earlier, earlier <+: restored →
        Consented chain (exec (step chain) (reached chain registered) asking) earlier ⟨alice, bob, 0⟩) ∧
      (run (step chain) (exec (step chain) (reached chain registered) asking) restored).book alice 0 = none ∧
      ((run (step chain) (exec (step chain) (reached chain registered) asking) restored).book bob 0).map
        (fun row => (row.contact, row.cntct)) = some (alice, true) := by
  have committed : step chain (reached chain registered) asking =
      some (exec (step chain) (reached chain registered) asking) := committed_exec (by decide +kernel)
  have answered : (step chain (exec (step chain) (reached chain registered) asking)
      (.signed bob (.resprequest bob alice "kb" true))).isSome := by decide +kernel
  refine ⟨(consent_iff (by decide) ?_ committed (by decide +kernel)).mpr ?_, by decide +kernel⟩
  · simp [registered, asking, restored, Tx.signed]
  · exact (timely_cons (committed_exec answered)).mpr ⟨by decide +kernel, .inl ⟨"kb", rfl⟩⟩

/-- Alice answers her own request. -/
def selfAccepted : List Tx := [.signed alice (.resprequest alice bob "kb" true)]

theorem selfAccepted_not_consented :
    Without [.forcerequest, .deletereqs2, .rraddr] (registered ++ asking :: selfAccepted) ∧
      (∀ other ∈ registered ++ asking :: selfAccepted, other.heap = fun _ => .zeroed) ∧
      ∃ next, step chain (reached chain registered) asking = some next ∧
        opening? ⟨reached chain registered, asking, next⟩ = some ⟨alice, bob, 0⟩ ∧
        ¬ Consented chain next selfAccepted ⟨alice, bob, 0⟩ := by
  refine ⟨by decide, by simp [registered, asking, selfAccepted, Tx.signed],
    exec (step chain) (reached chain registered) asking, committed_exec (by decide +kernel), by decide +kernel,
    fun consented => ?_⟩
  have present : ((Requests.fresh .zeroed).sent 0 bob).confirmed ∈
      ((run (step chain) (exec (step chain) (reached chain registered) asking)
        selfAccepted).requests alice.value).rows := by decide +kernel
  obtain ⟨entry, member, key, called⟩ := consented alice _ (.inl rfl) present rfl rfl
  have same := List.mem_singleton.mp (step_of_mem_journal member).1
  rw [same] at called
  cases called

end LocalChain.K2ultra
