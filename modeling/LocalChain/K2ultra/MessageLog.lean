import LocalChain.K2ultra.Messages
import LocalChain.K2ultra.Run

namespace LocalChain.K2ultra

open LocalChain.Inery LocalChain.Inery.MultiIndex LocalChain.Store

/-- A message as it was posted. -/
structure Posting where
  sender : Name
  data : ByteString
  time : TimePoint
  seen : UInt64
deriving DecidableEq

/-- What a committed action adds to the log of a scope. A wipe starts it anew. -/
def logged (scope : UInt64) (log : List Posting) (entry : Transition State Tx) : List Posting :=
  match entry.tx.action with
  | .sendmsg target sender data _ =>
    if target = scope then log ++ [⟨sender, data, entry.tx.now, 0⟩] else log
  | .pushmsg target sender data _ =>
    if target.value = scope then log ++ [⟨sender, data, entry.tx.now, 1⟩] else log
  | .deletemesgs target => if target = scope then [] else log
  | _ => log

/-- The messages posted to a scope since it was last wiped, oldest first. -/
def messageLog (host : Host) (scope : UInt64) (txs : List Tx) : List Posting :=
  (history host txs).foldl (logged scope) []

/-- Ids count from 1. -/
def postingAt (log : List Posting) (id : UInt64) : Option Posting :=
  if id = 0 then none else log[id.toNat - 1]?

/-- A row carries what was posted. It is seen if it was posted so, and may be seen otherwise. -/
structure Carries (posting : Posting) (row : Messages) : Prop where
  sender : row.sender = posting.sender
  data : row.data = posting.data
  time : row.time = posting.time
  seen : row.seen = 1 ∨ posting.seen = 0 ∧ row.seen = 0

/-- The rows of a table are the entries of a log, numbered from 1. -/
structure Recorded (log : List Posting) (messages : MessagesTable) : Prop where
  bounded : log.length < UInt64.size
  rows : ∀ id, Option.Rel Carries (postingAt log id) (messages.find? id)

variable {host : Host} {txs more : List Tx} {tx : Tx} {state next : State} {scope id newId seen : UInt64}
  {sender : Name} {data : ByteString} {log : List Posting} {posting : Posting} {row : Messages}
  {messages : MessagesTable}

theorem postingAt_eq_some :
    postingAt log id = some posting ↔ id ≠ 0 ∧ log[id.toNat - 1]? = some posting := by
  unfold postingAt
  split <;> simp_all

theorem postingAt_ofNat {n : Nat} (within : n < log.length) (bounded : log.length < UInt64.size) :
    postingAt log (.ofNat (n + 1)) = some log[n] := by
  have value : (UInt64.ofNat (n + 1)).toNat = n + 1 := by
    unfold UInt64.size at bounded
    rw [UInt64.toNat_ofNat']
    omega
  refine postingAt_eq_some.mpr ⟨?_, ?_⟩
  · intro zero
    rw [zero] at value
    simp at value
  · rw [value, Nat.add_sub_cancel]
    exact List.getElem?_eq_getElem within

/-- A row has the number of a log entry. -/
theorem Recorded.found (recorded : Recorded log messages) (held : messages.find? id = some row) :
    ∃ posting, postingAt log id = some posting ∧ Carries posting row := by
  have rel := recorded.rows id
  rw [held] at rel
  cases posted : postingAt log id with
  | none => rw [posted] at rel; cases rel
  | some posting =>
    rw [posted] at rel
    cases rel with
    | some carries => exact ⟨posting, rfl, carries⟩

theorem Recorded.present (recorded : Recorded log messages)
    (posted : postingAt log id = some posting) :
    ∃ row, messages.find? id = some row ∧ Carries posting row := by
  have rel := recorded.rows id
  rw [posted] at rel
  cases held : messages.find? id with
  | none => rw [held] at rel; cases rel
  | some row =>
    rw [held] at rel
    cases rel with
    | some carries => exact ⟨row, rfl, carries⟩

/-- The last row has the number of the last entry. -/
theorem Recorded.top (recorded : Recorded log messages) {top : Messages}
    (last : messages.last? = some top) : top.id.toNat = log.length := by
  have short := recorded.bounded
  have held : messages.find? top.id = some top := Table.find?_self (Table.last?_mem last)
  obtain ⟨posting, posted, _⟩ := recorded.found held
  obtain ⟨positive, numbered⟩ := postingAt_eq_some.mp posted
  have within : top.id.toNat - 1 < log.length := (List.getElem?_eq_some_iff.mp numbered).1
  have nonzero : top.id.toNat ≠ 0 := fun zero => positive (UInt64.toNat_inj.mp zero)
  have above : log.length ≤ top.id.toNat := by
    obtain ⟨row, newest, _⟩ := recorded.present
      (postingAt_ofNat (n := log.length - 1) (by omega) short)
    obtain ⟨member, place⟩ := Table.find?_eq_some.mp newest
    have order : row.id ≤ top.id := Table.le_last? last member
    rw [Messages.primaryKey_eq] at place
    rw [place, UInt64.le_iff_toNat_le, UInt64.toNat_ofNat'] at order
    unfold UInt64.size at short
    omega
  omega

theorem Recorded.eq_nil (recorded : Recorded log messages) : messages.rows = [] ↔ log = [] := by
  constructor
  · intro empty
    cases log with
    | nil => rfl
    | cons first rest =>
      obtain ⟨row, held, _⟩ := recorded.present
        (postingAt_ofNat (n := 0) (by simp) recorded.bounded)
      simp [Table.find?, empty] at held
  · rintro rfl
    refine List.eq_nil_iff_forall_not_mem.mpr fun row present => ?_
    obtain ⟨posting, posted, _⟩ := recorded.found (Table.find?_self present)
    simp [postingAt] at posted

/-- The id of the next message counts on from the log. -/
theorem Recorded.next_id (recorded : Recorded log messages)
    (chosen : newMessageId messages = .ok newId) : newId.toNat = log.length + 1 := by
  rcases newMessageId_ok chosen with ⟨empty, rfl⟩ | ⟨filled, granted⟩
  · rw [recorded.eq_nil.mp empty]
    rfl
  · cases last : messages.last? with
    | none => exact absurd (Table.last?_eq_none.mp last) filled
    | some top =>
      have counted := availablePrimaryKey_toNat granted last
      rw [Messages.primaryKey_eq, recorded.top last] at counted
      exact counted

/-- One more posting: the row put under the next id carries it. -/
theorem Recorded.post (recorded : Recorded log messages)
    (chosen : newMessageId messages = .ok newId) (place : row.id = newId)
    (carries : Carries posting row) : Recorded (log ++ [posting]) (messages.put row) := by
  have numbered := recorded.next_id chosen
  have range := newId.toNat_lt
  refine ⟨by simp [UInt64.size]; omega, fun id => ?_⟩
  rw [Table.find?_put, Messages.primaryKey_eq, place]
  by_cases here : id = newId
  · have last : postingAt (log ++ [posting]) id = some posting := by
      refine postingAt_eq_some.mpr ⟨?_, ?_⟩
      · rintro rfl
        rw [← here] at numbered
        simp at numbered
      · rw [here, numbered]
        simp
    rw [last, if_pos here]
    exact .some carries
  · have earlier : postingAt (log ++ [posting]) id = postingAt log id := by
      unfold postingAt
      by_cases zero : id = 0
      · rw [if_pos zero, if_pos zero]
      · have other : id.toNat ≠ newId.toNat := fun same => here (UInt64.toNat_inj.mp same)
        have positive : id.toNat ≠ 0 := fun none => zero (UInt64.toNat_inj.mp none)
        rw [if_neg zero, if_neg zero]
        by_cases old : id.toNat - 1 < log.length
        · rw [List.getElem?_append_left old]
        · rw [List.getElem?_eq_none (by simp; omega), List.getElem?_eq_none (by omega)]
    rw [earlier, if_neg here]
    exact recorded.rows id

theorem Recorded.mark (recorded : Recorded log messages) {result : MessagesTable}
    (marks : Marks messages result) : Recorded log result := by
  refine ⟨recorded.bounded, fun id => ?_⟩
  have rel := recorded.rows id
  rcases marks id with same | marked
  · rwa [same]
  · rw [marked]
    generalize postingAt log id = posted at rel ⊢
    generalize messages.find? id = held at rel ⊢
    cases rel with
    | none => exact .none
    | some carries => exact .some ⟨carries.sender, carries.data, carries.time, .inl rfl⟩

theorem logged_posted {entry : Transition State Tx}
    (called : entry.tx.action.post? = some (scope, sender, data, seen)) :
    logged scope log entry = log ++ [⟨sender, data, entry.tx.now, seen⟩] := by
  unfold logged
  cases action : entry.tx.action <;> rw [action] at called <;> cases called <;> simp

theorem logged_wiped {entry : Transition State Tx} (called : entry.tx.action = .deletemesgs scope) :
    logged scope log entry = [] := by
  simp [logged, called]

theorem logged_untouched {entry : Transition State Tx}
    (quiet : entry.tx.action.mailbox? ≠ some scope) : logged scope log entry = log := by
  unfold logged
  split
  case h_4 => rfl
  all_goals
    rename_i called
    rw [if_neg (fun same => quiet (by rw [called, ← same]; rfl))]

theorem logged_seenmsg {entry : Transition State Tx} {receiver : Name}
    (called : entry.tx.action = .seenmsg scope receiver) : logged scope log entry = log := by
  simp [logged, called]

private theorem carries_posted (fresh : Messages) (time : TimePoint) (replyTo : UInt64)
    (binary : seen = 0 ∨ seen = 1) :
    Carries ⟨sender, data, time, seen⟩ (fresh.posted newId time sender data replyTo seen) :=
  ⟨rfl, rfl, rfl, binary.elim (fun zero => .inr ⟨zero, zero⟩) .inl⟩

theorem Action.post?_seen {action : Action}
    (called : action.post? = some (scope, sender, data, seen)) : seen = 0 ∨ seen = 1 := by
  cases action <;> cases called
  · exact .inl rfl
  · exact .inr rfl

theorem Recorded.step (recorded : Recorded log (state.messages scope))
    (committed : step host state tx = some next) :
    Recorded (logged scope log ⟨state, tx, next⟩) (next.messages scope) := by
  cases step_messages committed scope with
  | posted called _ chosen result =>
    rw [logged_posted called, result]
    exact recorded.post chosen rfl (carries_posted _ _ _ (Action.post?_seen called))
  | marked called _ _ marks =>
    rw [logged_seenmsg called]
    exact recorded.mark marks
  | unmarked called _ same =>
    rw [logged_seenmsg called, same]
    exact recorded
  | wiped called result =>
    rw [logged_wiped called, result]
    exact ⟨by decide, fun id => by simp [postingAt]⟩
  | untouched quiet same =>
    rw [logged_untouched quiet, same]
    exact recorded

theorem reached_recorded (host : Host) (txs : List Tx) (scope : UInt64) :
    Recorded (messageLog host scope txs) ((reached host txs).messages scope) := by
  refine run_induction
    (motive := fun (past : List (Transition State Tx)) (state : State) =>
      Recorded (past.foldl (logged scope) []) (state.messages scope)) ⟨by simp, ?_⟩ ?_ txs
  · intro id
    simp [postingAt, State.initial]
  · intro past state tx next recorded committed
    rw [List.foldl_append]
    exact recorded.step committed

/-- The row of a message that was just posted. -/
theorem posted_row (recorded : Recorded log (state.messages scope))
    (committed : step host state tx = some next)
    (called : tx.action.post? = some (scope, sender, data, seen)) :
    ∃ row, (next.messages scope).find? (.ofNat (log.length + 1)) = some row ∧ row.seen = seen := by
  obtain ⟨newId, replyTo, chosen, result⟩ := step_posted committed called
  have numbered : UInt64.ofNat (log.length + 1) = newId := by
    rw [← recorded.next_id chosen, UInt64.ofNat_toNat]
  rw [result, numbered, Table.find?_put]
  exact ⟨_, if_pos rfl, rfl⟩

/-- There is an id for one more message as long as the table stays short of the reserved keys. -/
theorem Recorded.room (recorded : Recorded log messages) :
    (∃ newId, newMessageId messages = .ok newId) ↔ log.length < UInt64.size - 3 := by
  rw [newMessageId_isOk, availablePrimaryKey_isOk]
  have limit : noAvailablePrimaryKey.toNat = UInt64.size - 2 := rfl
  unfold UInt64.size at limit ⊢
  constructor
  · intro room
    cases last : messages.last? with
    | none =>
      rw [recorded.eq_nil.mp (Table.last?_eq_none.mp last)]
      decide
    | some top =>
      have below := room top last
      rw [Messages.primaryKey_eq, recorded.top last] at below
      omega
  · intro short top last
    rw [Messages.primaryKey_eq, recorded.top last]
    omega

/-- Every row of the first table stays in the second one, where it may have been marked as seen. -/
def Keeps (messages result : MessagesTable) : Prop :=
  ∀ id row, messages.find? id = some row →
    result.find? id = some row ∨ result.find? id = some row.setSeen

theorem Keeps.step {start : MessagesTable} (keeps : Keeps start (state.messages scope))
    (committed : step host state tx = some next) (unwiped : tx.action ≠ .deletemesgs scope) :
    Keeps start (next.messages scope) := by
  intro id row held
  have before := keeps id row held
  cases step_messages committed scope with
  | posted _ _ chosen result =>
    rw [result, Table.find?_put]
    split
    · rename_i same
      have free := newMessageId_fresh chosen
      rw [same] at before
      change (state.messages scope).find? _ = none at free
      rcases before with old | old <;> cases free.symm.trans old
    · exact before
  | marked _ _ _ marks =>
    rcases marks id with same | marked
    · rwa [same]
    · rw [marked]
      refine .inr ?_
      rcases before with old | old <;> rw [old] <;> rfl
  | wiped called => exact absurd called unwiped
  | unmarked _ _ same => rwa [same]
  | untouched _ same => rwa [same]

/-- The messages of a scope are a log: its rows are what was posted since the last wipe, numbered from
1, each starts unseen or seen as it was posted, and none changes but for the mark until the next wipe. -/
theorem message_log (host : Host) (txs : List Tx) (scope : UInt64) :
    Recorded (messageLog host scope txs) ((reached host txs).messages scope) ∧
      (∀ (tx : Tx) (next : State) (sender : Name) (data : ByteString) (seen : UInt64),
        step host (reached host txs) tx = some next →
        tx.action.post? = some (scope, sender, data, seen) →
        ∃ row, (next.messages scope).find? (.ofNat ((messageLog host scope txs).length + 1)) = some row ∧
          row.seen = seen) ∧
      ∀ more, (∀ entry ∈ journal (step host) (reached host txs) more,
          entry.tx.action ≠ .deletemesgs scope) →
        Keeps ((reached host txs).messages scope) ((reached host (txs ++ more)).messages scope) := by
  have recorded := reached_recorded host txs scope
  refine ⟨recorded, fun tx next sender data seen => posted_row recorded, fun more unwiped => ?_⟩
  rw [reached_append]
  exact run_invariant
    (motive := fun (state : State) => Keeps ((reached host txs).messages scope) (state.messages scope))
    (fun (entry : Transition State Tx) => entry.tx.action ≠ .deletemesgs scope)
    (fun _ _ held => .inl held) (fun _ _ _ keeps => keeps.step) unwiped

/-- Alice and Bob write to one scope, which is wiped once, while Bob also writes to another. -/
def corresponded : List Tx :=
  [.signed alice (.sendmsg alice.value alice "old" 0), .unsigned (.deletemesgs alice.value),
    .signed alice (.sendmsg alice.value alice "hi" 0), .signed bob (.sendmsg 7 bob "elsewhere" 0),
    .unsigned (.pushmsg alice bob "yo" 1), .unsigned (.seenmsg alice.value bob),
    .signed bob (.sendmsg alice.value bob "later" 2)]

example : (messageLog chain alice.value corresponded).map (fun posting => (posting.data, posting.seen)) =
      ([("hi", 0), ("yo", 1), ("later", 0)] : List (ByteString × UInt64)) ∧
    ((reached chain corresponded).messages alice.value).rows.map (fun row => (row.id, row.data, row.seen)) =
      ([(1, "hi", 1), (2, "yo", 1), (3, "later", 0)] : List (UInt64 × ByteString × UInt64)) := by
  decide +kernel

end LocalChain.K2ultra
