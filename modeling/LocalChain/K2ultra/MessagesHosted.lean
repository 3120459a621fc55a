import LocalChain.K2ultra.MessagesObject
import LocalChain.K2ultra.SeenWalk

/-! The actions on messages do on their objects what they do on tables. -/
namespace LocalChain.K2ultra

open LocalChain.Inery LocalChain.Inery.MultiIndex LocalChain.Store LocalChain.Refine
open TableObject (Represents)
open TableProgram

variable {view : View messagesSchema} {messages : MessagesTable} {row : Messages} {left cnt : Nat}

/-! Walks backwards never leave the index. -/

theorem exists_before (present : row ∈ messages.rows) (later : messages.indexLowerBound Messages.bySeen 0 ≠ some row) :
    ∃ before, messages.indexPrevious Messages.bySeen (some row) = some before := by
  cases least : messages.indexLowerBound Messages.bySeen 0 with
  | none =>
    have above := Table.leastWhere_eq_none.mp least row present
    exact absurd (decide_eq_true (UInt64.le_iff_toNat_le.mpr (Nat.zero_le _))) above
  | some first =>
    obtain ⟨inside, _, lowest⟩ := Table.leastWhere_eq_some.mp least
    have below := lowest row present (decide_eq_true (UInt64.le_iff_toNat_le.mpr (Nat.zero_le _)))
    have apart : first ≠ row := fun same => later (by rw [least, same])
    have lower : Table.place Messages.primaryKey Messages.bySeen first <
        Table.place Messages.primaryKey Messages.bySeen row :=
      below.lt_of_ne fun same => apart (Table.place_injective inside present same)
    refine Option.ne_none_iff_exists'.mp fun none => ?_
    exact Table.greatestWhere_eq_none.mp none first inside (decide_eq_true lower)

theorem exists_before_bound
    (later : messages.indexUpperBound Messages.bySeen 0 ≠ messages.indexLowerBound Messages.bySeen 0) :
    ∃ before, messages.indexPrevious Messages.bySeen (messages.indexUpperBound Messages.bySeen 0) = some before := by
  cases upper : messages.indexUpperBound Messages.bySeen 0 with
  | some row =>
    refine exists_before (Table.leastWhere_eq_some.mp upper).1 fun same => ?_
    exact later (upper.trans same.symm)
  | none =>
    obtain ⟨first, least⟩ := Option.ne_none_iff_exists'.mp fun none => later (upper.trans none.symm)
    refine Option.ne_none_iff_exists'.mp fun none => ?_
    exact Table.greatestWhere_eq_none.mp none first (Table.leastWhere_eq_some.mp least).1 rfl

theorem decrement_of_before {row? : Option Messages} {before : Messages}
    (found : messages.indexPrevious Messages.bySeen row? = some before) :
    decrement messages Messages.bySeen row? = .ok before ∧ before ∈ messages.rows := by
  constructor
  · unfold decrement
    rw [found]
    rfl
  · cases row? with
    | none => exact (Table.greatestWhere_eq_some.mp found).1
    | some row => exact (Table.greatestWhere_eq_some.mp found).1

/-! Posting. -/

theorem run_askMessageId (view : View messagesSchema) (start : view.next = unsetNextPrimaryKey) :
    (∃ newId next, newMessageId view.table = .ok newId ∧
      ((askMessageId).run View.step .abort).run view = .ok (newId, { view with next })) ∨
    ∃ reason, newMessageId view.table = .error reason ∧
      ((askMessageId).run View.step .abort).run view = .error (.abort reason) := by
  rw [newMessageId, askMessageId]
  cases granted : availablePrimaryKey unsetNextPrimaryKey view.table with
  | error reason =>
    refine .inr ⟨reason, rfl, run_call_error (run_available_error ?_)⟩
    rw [start, granted]
  | ok next =>
    have asked : (View.step .availablePrimaryKey).run view = .ok (next, { view with next }) :=
      run_available (by rw [start, granted])
    refine .inl ?_
    change ∃ newId after, (if next = 0 then return 1 else availablePrimaryKey next view.table) = .ok newId ∧ _
    by_cases zero : next = 0
    · refine ⟨1, next, by rw [if_pos zero]; rfl, ?_⟩
      rw [run_call asked, if_pos zero]
      rfl
    · have again := availablePrimaryKey_cached granted
      refine ⟨next, next, by rw [if_neg zero, again], ?_⟩
      rw [run_call asked, if_neg zero, call, Program.run_ask]
      exact run_available again

theorem postMessage_onTable {context : Context} {sender : Name} {data : ByteString} {replyTo seen : UInt64}
    (short : ∀ newId, newMessageId messages = .ok newId → packSize ((Messages.fresh (context.heap 0)).posted newId
      context.now sender data replyTo seen) < 2 ^ 31) :
    (postMessage context sender data replyTo seen).onTable messages = View.lift (do
      let newId ← newMessageId messages
      let result ← emplace messages (Messages.fresh (context.heap 0))
        (Messages.posted newId context.now sender data replyTo seen)
      return (newId, result)) := by
  rw [onTable, postMessage, Program.run_bind]
  obtain ⟨newId, next, chosen, asked⟩ | ⟨reason, refused, stopped⟩ := run_askMessageId (View.start messages true) rfl
  · have chosen' : newMessageId messages = .ok newId := chosen
    have free : messages.find? newId = none := newMessageId_fresh chosen
    let asked' : View messagesSchema := { View.start messages true with next := next }
    have absent : asked'.table.find? (messagesSchema.primaryKey ((Messages.fresh (context.heap 0)).posted newId
      context.now sender data replyTo seen)) = none := free
    have owned : asked'.own = true := rfl
    have created : (View.step (.emplace newRow (Messages.fresh (context.heap 0))
        (Messages.posted newId context.now sender data replyTo seen))).run asked' = _ :=
      run_emplace owned absent (short newId chosen)
    have stored : emplace messages (Messages.fresh (context.heap 0))
        (Messages.posted newId context.now sender data replyTo seen) = .ok (messages.put ((Messages.fresh
          (context.heap 0)).posted newId context.now sender data replyTo seen)) := emplace_eq_ok.mpr ⟨free, rfl⟩
    rw [run_bind_ok asked, run_call created, chosen']
    change _ = View.lift (emplace messages (Messages.fresh (context.heap 0)) _ >>= _)
    rw [stored]
    rfl
  · have refused' : newMessageId messages = .error reason := refused
    rw [run_bind_error stopped, refused']
    rfl

/-! Counting. -/

theorem run_notBegin {row? : Option Messages} (here : At view itr row?) :
    (notBegin.run View.step .abort).run view =
      .ok (decide (view.table.indexLowerBound Messages.bySeen 0 ≠ row?),
        view.place theBegin (view.table.indexLowerBound Messages.bySeen 0)) := by
  generalize first : view.table.indexLowerBound Messages.bySeen 0 = first?
  have found : (View.step (.lowerBound theBegin (.index seenIndex (0 : UInt64)))).run view =
      .ok ((), view.place theBegin first?) := by
    rw [← first]
    rfl
  have there : At (view.place theBegin first?) theBegin first? :=
    At.place fun row same => (Table.leastWhere_eq_some.mp (first.trans same)).1
  have moved : At (view.place theBegin first?) itr row? := here.elsewhere (by decide)
  rw [notBegin, run_call found, run_call (moved.equal there), decide_eq_decide.mpr ((moved.same_iff there).trans eq_comm),
    decide_not]
  rfl

theorem run_walksOn (here : At view itr (some row)) :
    ((walksOn left cnt).run View.step .abort).run view =
      .ok (decide (view.table.indexLowerBound Messages.bySeen 0 ≠ some row ∧ row.seen = 0 ∧ 0 < left ∧ cnt < 100),
        view.place theBegin (view.table.indexLowerBound Messages.bySeen 0)) := by
  rw [walksOn, Program.run_bind, run_bind_ok (run_notBegin here)]
  by_cases first : view.table.indexLowerBound Messages.bySeen 0 = some row
  · rw [decide_eq_false fun apart => apart first, decide_eq_false fun all => all.1 first]
    rfl
  · have moved : At (view.place theBegin (view.table.indexLowerBound Messages.bySeen 0)) itr (some row) :=
      here.elsewhere (by decide)
    rw [decide_eq_true first, if_pos rfl, run_call moved.read, decide_eq_decide.mpr (and_iff_right first)]
    rfl

/-- The walk over the index takes the rounds of the walk over the table. -/
theorem run_unseenLoop (sender : Name) (left cnt : Nat) (here : At view itr (some row)) :
    ∃ rest total last later, getunseenLoop sender view.table left cnt row = .ok (rest, total, last) ∧
      ((unseenLoop sender left cnt).run View.step .abort).run view = .ok ((rest, total), later) ∧
      later.table = view.table ∧ At later itr (some last) := by
  induction left generalizing view row cnt with
  | zero =>
    refine ⟨0, cnt, row, view.place theBegin (view.table.indexLowerBound Messages.bySeen 0), rfl, ?_, rfl,
      here.elsewhere (by decide)⟩
    rw [unseenLoop, Program.run_bind, run_bind_ok (run_walksOn here)]
    rfl
  | succ left ih =>
    have asked : At (view.place theBegin (view.table.indexLowerBound Messages.bySeen 0)) itr (some row) :=
      here.elsewhere (by decide)
    rw [unseenLoop, Program.run_bind, run_bind_ok (run_walksOn here), getunseenLoop]
    by_cases goes : view.table.indexLowerBound Messages.bySeen 0 ≠ some row ∧ row.seen = 0 ∧ cnt < 100
    · obtain ⟨before, found⟩ := exists_before (here.inside row rfl) goes.1
      obtain ⟨back, inside⟩ := decrement_of_before found
      have stepped : (View.step (.decrement itr (.index seenIndex))).run _ = _ := asked.decrement found
      have reached : At ((view.place theBegin (view.table.indexLowerBound Messages.bySeen 0)).place itr (some before)) itr
          (some before) := At.place fun other same => Option.some.inj same ▸ inside
      rw [decide_eq_true ⟨goes.1, goes.2.1, Nat.succ_pos left, goes.2.2⟩, if_pos rfl, if_pos goes, run_call asked.read,
        run_call stepped, back]
      exact ih (if row.sender = sender then cnt + 1 else cnt) reached
    · rw [decide_eq_false fun all => goes ⟨all.1, all.2.1, all.2.2.2⟩, if_neg goes]
      exact ⟨left + 1, cnt, row, _, rfl, rfl, rfl, asked⟩

theorem countUnseen_onTable (scope : UInt64) (sender : Name) (state : State) :
    ∃ total : Nat, getunseen scope sender state = .ok (state, [.int total]) ∧
      (countUnseen sender).onTable (state.messages scope) = .ok (total, state.messages scope) := by
  generalize table : state.messages scope = messages
  let view : View messagesSchema := View.start messages true
  have found : (View.step (.upperBound itr (.index seenIndex (0 : UInt64)))).run view =
      .ok ((), view.place itr (messages.indexUpperBound Messages.bySeen 0)) := rfl
  have here : At (view.place itr (messages.indexUpperBound Messages.bySeen 0)) itr
      (messages.indexUpperBound Messages.bySeen 0) := At.place fun row same => (Table.leastWhere_eq_some.mp same).1
  have begun : (notBegin.run View.step .abort).run (view.place itr (messages.indexUpperBound Messages.bySeen 0)) =
      .ok (decide (messages.indexLowerBound Messages.bySeen 0 ≠ messages.indexUpperBound Messages.bySeen 0),
        (view.place itr (messages.indexUpperBound Messages.bySeen 0)).place theBegin
          (messages.indexLowerBound Messages.bySeen 0)) := run_notBegin here
  rw [onTable, countUnseen, run_call found, Program.run_bind, run_bind_ok begun, getunseen, table]
  by_cases start : messages.indexUpperBound Messages.bySeen 0 ≠ messages.indexLowerBound Messages.bySeen 0
  · obtain ⟨before, previous⟩ := exists_before_bound start
    obtain ⟨back, inside⟩ := decrement_of_before previous
    have asked : At ((view.place itr (messages.indexUpperBound Messages.bySeen 0)).place theBegin
        (messages.indexLowerBound Messages.bySeen 0)) itr (messages.indexUpperBound Messages.bySeen 0) :=
      here.elsewhere (by decide)
    have stepped : (View.step (.decrement itr (.index seenIndex))).run _ = _ := asked.decrement previous
    have reached : At (((view.place itr (messages.indexUpperBound Messages.bySeen 0)).place theBegin
        (messages.indexLowerBound Messages.bySeen 0)).place itr (some before)) itr (some before) :=
      At.place fun other same => Option.some.inj same ▸ inside
    obtain ⟨left, cnt, last, later, walked, ran, kept, there⟩ := run_unseenLoop sender 1000 0 reached
    have walked' : getunseenLoop sender messages 1000 0 before = .ok (left, cnt, last) := walked
    refine ⟨if last.seen = 0 ∧ last.sender = sender ∧ 0 < left then cnt + 1 else cnt, ?_, ?_⟩
    · rw [if_pos start, back]
      change (getunseenLoop sender messages 1000 0 before >>= _) = _
      rw [walked']
      rfl
    · rw [decide_eq_true start.symm, if_pos rfl, run_call stepped, Program.run_bind, run_bind_ok ran,
        run_call there.read]
      exact congrArg (fun table => Except.ok (_, table)) kept
  · refine ⟨0, by rw [if_neg start]; rfl, ?_⟩
    rw [decide_eq_false fun apart => start fun same => apart same.symm, if_neg Bool.false_ne_true]
    rfl

/-! Marking. -/

theorem packSize_setSeen (row : Messages) : packSize row.setSeen = packSize row := by
  have tuple (row : Messages) : packSize row =
      packSize (row.id, row.time, row.sender, row.replyTo, row.seen, row.data) := rfl
  rw [tuple, tuple row]
  simp only [packSize_pair, packSize_uint64]
  rfl

/-- The row after another one stays when that one is marked. -/
theorem indexNext_stays (row : Messages) {next : Messages} (present : row ∈ messages.rows)
    (follows : messages.indexNext Messages.bySeen row = some next) : next ∈ (messages.put row.setSeen).rows := by
  obtain ⟨inside, above, _⟩ := Table.leastWhere_eq_some.mp follows
  refine Table.mem_put.mpr (.inr ⟨inside, fun same => ?_⟩)
  rw [messages.key_injective inside present same] at above
  exact lt_irrefl _ (of_decide_eq_true above)

/-- The object when a round is about to mark the row. -/
def seeking (view : View messagesSchema) (row : Messages) : View messagesSchema :=
  (((view.place itrModify (some row)).place theEnd none).copy nextItr itr).place nextItr
    (view.table.indexNext Messages.bySeen row)

theorem run_seeking (here : At view itr (some row)) {next : TableProgram messagesSchema Unit} :
    ((do
        let row ← call (.read itr)
        call (.find itrModify (.primary row.id))
        if ← notEnd itrModify then
          call (.assign nextItr itr)
          call (.increment nextItr (.index seenIndex))
          next
        else call (.increment itr (.index seenIndex)) : TableProgram messagesSchema Unit).run View.step .abort).run
      view = (next.run View.step .abort).run (seeking view row) := by
  have found : (View.step (.find itrModify (.primary row.id))).run view = .ok ((), view.place itrModify (some row)) := by
    have held : view.table.find? row.id = some row := Table.find?_self (here.inside row rfl)
    change Except.ok ((), view.place itrModify (view.table.find? row.id)) = _
    rw [held]
  have sought : At (view.place itrModify (some row)) itrModify (some row) := At.place here.inside
  have still : At ((view.place itrModify (some row)).place theEnd none) itr (some row) :=
    At.elsewhere (here.elsewhere (by decide)) (by decide)
  have copied : At (((view.place itrModify (some row)).place theEnd none).copy nextItr itr) nextItr (some row) :=
    still.copy
  rw [run_call here.read, run_call found, Program.run_bind, run_bind_ok (run_notEnd sought (by decide)),
    Option.isSome_some, if_pos rfl, run_call (run_assign nextItr itr), run_call (copied.increment (.index seenIndex))]
  rfl

theorem at_seeking (here : At view itr (some row)) :
    At (seeking view row) itrModify (some row) ∧
      At (seeking view row) nextItr (view.table.indexNext Messages.bySeen row) := by
  have sought : At (view.place itrModify (some row)) itrModify (some row) := At.place here.inside
  exact ⟨((sought.elsewhere (by decide)).besideCopy (by decide)).elsewhere (by decide),
    At.place fun next follows => (Table.leastWhere_eq_some.mp follows).1⟩

theorem run_markOne (here : At view itr (some row)) (own : view.own = true)
    (short : ∀ row ∈ view.table.rows, packSize row < 2 ^ 31) :
    ∃ later, (markOne.run View.step .abort).run view = .ok ((), later) ∧
      later.table = view.table.put row.setSeen ∧ later.own = true ∧
      At later itr (view.table.indexNext Messages.bySeen row) := by
  have present := here.inside row rfl
  obtain ⟨sought, ahead⟩ := at_seeking here
  have wrote : (View.step (.modify itrModify Messages.setSeen)).run (seeking view row) =
      .ok ((), (seeking view row).rewrite row Messages.setSeen) :=
    sought.modify own rfl (by rw [packSize_setSeen]; exact short row present)
  have stays : At ((seeking view row).rewrite row Messages.setSeen) nextItr (view.table.indexNext Messages.bySeen row) :=
    ahead.carry rfl fun next follows => indexNext_stays row present follows
  refine ⟨((seeking view row).rewrite row Messages.setSeen).copy itr nextItr, ?_, rfl, own, stays.copy⟩
  rw [markOne, run_seeking here, run_call wrote, call, Program.run_ask, run_assign]

theorem run_seenLoop {row? : Option Messages} (left : Nat) (here : At view itr row?) (own : view.own = true)
    (short : ∀ row ∈ view.table.rows, packSize row < 2 ^ 31) :
    ∃ rest result, seenmsgLoop left row? view.table = .ok (rest, result) ∧
      outcome (((seenLoop left).run View.step .abort).run view) = .ok (rest, result) := by
  induction left generalizing view row? with
  | zero =>
    refine ⟨0, view.table, by cases row? <;> rfl, ?_⟩
    rw [seenLoop, Program.run_bind, run_bind_ok (run_notEnd here (by decide))]
    rfl
  | succ left ih =>
    rw [seenLoop, Program.run_bind, run_bind_ok (run_notEnd here (by decide))]
    cases row? with
    | none => exact ⟨left + 1, view.table, rfl, rfl⟩
    | some row =>
      have present := here.inside row rfl
      have asked : At (view.place theEnd none) itr (some row) := here.elsewhere (by decide)
      obtain ⟨later, marked, table, kept, there⟩ := run_markOne asked own short
      have small : ∀ other ∈ later.table.rows, packSize other < 2 ^ 31 := by
        rw [table]
        intro other member
        rcases Table.mem_put.mp member with rfl | ⟨old, _⟩
        · rw [packSize_setSeen]
          exact short row present
        · exact short other old
      rw [seenmsgLoop_succ present, Option.isSome_some, if_pos rfl, Program.run_bind, run_bind_ok marked]
      have rest := ih there kept small
      rw [table] at rest
      exact rest

/-- The state after `seenmsg` marks the rows that its object marks. -/
theorem markSeen_onTable (scope : UInt64) (state : State)
    (short : ∀ row ∈ (state.messages scope).rows, packSize row < 2 ^ 31) :
    ∃ printed result, markSeen.onTable (state.messages scope) = .ok (printed, result) ∧
      seenmsg scope state = .ok (state.setMessages scope result, printed) := by
  let view : View messagesSchema := View.start (state.messages scope) true
  have found : (View.step (.lowerBound itr (.index seenIndex (0 : UInt64)))).run view =
      .ok ((), view.place itr ((state.messages scope).indexLowerBound Messages.bySeen 0)) := rfl
  have unchanged : state.setMessages scope (state.messages scope) = state := by
    rw [State.setMessages, Function.update_eq_self]
  rw [onTable, markSeen, run_call found, Program.run_bind, seenmsg]
  generalize least : (state.messages scope).indexLowerBound Messages.bySeen 0 = first?
  have here : At (view.place itr first?) itr first? :=
    At.place fun row same => (Table.leastWhere_eq_some.mp (least.trans same)).1
  rw [run_bind_ok (run_notEnd here (by decide))]
  cases first? with
  | none => exact ⟨[.int 0], state.messages scope, rfl, by rw [unchanged]; rfl⟩
  | some row =>
    have asked : At ((view.place itr (some row)).place theEnd none) itr (some row) := here.elsewhere (by decide)
    rw [Option.isSome_some, if_pos rfl, run_call asked.read]
    dsimp only
    by_cases seen : row.seen = 1
    · rw [if_pos seen, if_pos seen]
      exact ⟨[.int 0], state.messages scope, rfl, by rw [unchanged]; rfl⟩
    · obtain ⟨left, result, walked, ran⟩ := run_seenLoop 1000 asked rfl short
      have walked' : seenmsgLoop 1000 (some row) (state.messages scope) = .ok (left, result) := walked
      rw [if_neg seen, if_neg seen, walked', Program.run_bind]
      obtain ⟨later, looped, rfl⟩ := outcome_eq_ok.mp ran
      rw [run_bind_ok looped]
      exact ⟨_, _, rfl, rfl⟩

end LocalChain.K2ultra
