import LocalChain.K2ultra.MessageLog
import LocalChain.K2ultra.UnseenCount

namespace LocalChain.K2ultra

open LocalChain.Inery LocalChain.Inery.MultiIndex LocalChain.Store

variable {host : Host} {txs : List Tx} {tx : Tx} {state next : State} {scope : UInt64}
  {receiver : Name} {messages result : MessagesTable}

/-- Reading a scope leaves what the other side has not read of the reader's messages as it was: only
messages of others are marked, and the number of unread own ones is printed as before. -/
structure SparesOwn (scope : UInt64) (receiver : Name) (state next : State) : Prop where
  flags : ∀ s id row marked, (state.messages s).find? id = some row →
    (next.messages s).find? id = some marked → marked.seen ≠ row.seen →
      s = scope ∧ row.sender ≠ receiver
  counts : (unseen (state.messages scope).rows).countP (fun row => row.sender = receiver) < 100 →
    (unseen (state.messages scope).rows).length ≤ 1000 →
      ∃ printed, getunseen scope receiver state = .ok (state, printed) ∧
        getunseen scope receiver next = .ok (next, printed)

theorem Recorded.binary {log : List Posting} (recorded : Recorded log messages) : Binary messages := by
  intro row present
  obtain ⟨_, _, carries⟩ := recorded.found (Table.find?_self present)
  rcases carries.seen with one | ⟨_, zero⟩
  · exact .inr one
  · exact .inl zero

theorem reached_binary (host : Host) (txs : List Tx) (scope : UInt64) :
    Binary ((reached host txs).messages scope) :=
  (reached_recorded host txs scope).binary

/-- The rows that are marked are the first 1000 unseen ones. -/
private theorem marked_iff (rows : result.rows = markFirst 1000 messages.rows) :
    (∀ id row marked, messages.find? id = some row → result.find? id = some marked →
        marked.seen ≠ row.seen → row.sender ≠ receiver) ↔
      ∀ row ∈ (unseen messages.rows).take 1000, row.sender ≠ receiver := by
  constructor
  · intro spared row first
    obtain ⟨present, zero⟩ := mem_unseen.mp (List.mem_of_mem_take first)
    have written : row.setSeen ∈ result.rows := rows ▸ setSeen_mem_markFirst first
    refine spared row.id row row.setSeen (Table.find?_self present) (Table.find?_self written) ?_
    simp [zero]
  · intro others id row marked held found changed
    obtain ⟨present, place⟩ := Table.find?_eq_some.mp held
    obtain ⟨member, place'⟩ := Table.find?_eq_some.mp found
    rw [rows] at member
    rcases mem_markFirst member with old | ⟨old, first, rfl⟩
    · rw [messages.key_injective old present (place'.trans place.symm)] at changed
      exact absurd rfl changed
    · have stored := (mem_unseen.mp (List.mem_of_mem_take first)).1
      obtain rfl := messages.key_injective stored present (place'.trans place.symm)
      exact others old first

/-- If none of the unseen rows is the reader's, there are none of his to count before and after. -/
private theorem counts_kept (binary : Binary (state.messages scope))
    (rows : result.rows = markFirst 1000 (state.messages scope).rows) (marked : Binary result)
    (others : ∀ row ∈ (unseen (state.messages scope).rows).take 1000, row.sender ≠ receiver)
    (few : (unseen (state.messages scope).rows).countP (fun row => row.sender = receiver) < 100)
    (short : (unseen (state.messages scope).rows).length ≤ 1000) :
    ∃ printed, getunseen scope receiver state = .ok (state, printed) ∧
      getunseen scope receiver (state.setMessages scope result) =
        .ok (state.setMessages scope result, printed) := by
  have written : (state.setMessages scope result).messages scope = result := by
    rw [State.setMessages_messages, if_pos rfl]
  have nothing : unseen result.rows = [] := by
    rw [rows, unseen_markFirst, List.drop_eq_nil_of_le short]
  rw [List.take_of_length_le short] at others
  have none : (unseen (state.messages scope).rows).countP (fun row => row.sender = receiver) = 0 := by
    simpa [List.countP_eq_zero] using others
  refine ⟨[.int 0], ?_, ?_⟩
  · rw [getunseen_eq binary, counted_eq (by rwa [List.countP_reverse]) (by rwa [List.length_reverse]),
      List.countP_reverse, none]
    rfl
  · rw [getunseen_eq (by rwa [written]), written, nothing]
    rfl

/-- In every reachable state `seenmsg` commits, and it spares the reader's own messages exactly if none
of them is among the first 1000 unseen ones. -/
theorem seenmsg_spares_iff (host : Host) (txs : List Tx) (called : tx.action = .seenmsg scope receiver) :
    ∃ next, step host (reached host txs) tx = some next ∧
      (SparesOwn scope receiver (reached host txs) next ↔
        ∀ row ∈ (unseen ((reached host txs).messages scope).rows).take 1000, row.sender ≠ receiver) := by
  have binary := reached_binary host txs scope
  obtain ⟨printed, result, committed, rows, _⟩ := seenmsg_eq binary
  have stepped : step host (reached host txs) tx = some ((reached host txs).setMessages scope result) := by
    simp only [step, called, dispatch, committed]
  refine ⟨_, stepped, ?_⟩
  rw [← marked_iff rows]
  constructor
  · intro spares id row marked held found changed
    refine (spares.flags scope id row marked held ?_ changed).2
    rwa [State.setMessages_messages, if_pos rfl]
  · intro spared
    refine ⟨fun s id row marked held found changed => ?_, fun few short => ?_⟩
    · rw [State.setMessages_messages] at found
      split at found
      · rename_i here
        subst here
        exact ⟨rfl, spared id row marked held found changed⟩
      · rw [held] at found
        cases found
        exact absurd rfl changed
    · refine counts_kept binary rows ?_ ((marked_iff rows).mp spared) few short
      have after := reached_binary host (txs ++ [tx]) scope
      rw [reached_append, run_cons, run_nil, exec_of_committed stepped, State.setMessages_messages,
        if_pos rfl] at after
      exact after

/-- Bob writes to Alice. -/
def greeted : List Tx := accepted ++ [.signed bob (.sendmsg 0 bob "hello" 0)]

/-- Alice and Bob write to each other while Carol writes elsewhere. Bob has read Alice's first message, and her
second one was pushed as seen. -/
def conversed : List Tx := accepted ++
  [.signed alice (.sendmsg 0 alice "hi" 0), .unsigned (.seenmsg 0 bob), .signed bob (.sendmsg 0 bob "hello" 1),
    .unsigned (.pushmsg ⟨0⟩ alice "note" 0), .signed carol (.sendmsg 7 carol "elsewhere" 0),
    .signed bob (.sendmsg 0 bob "well?" 3)]

/-- Alice reads what Bob wrote. -/
theorem conversed_spares :
    ∃ next, step chain (reached chain conversed) (.unsigned (.seenmsg 0 alice)) = some next ∧
      SparesOwn 0 alice (reached chain conversed) next ∧
      ((reached chain conversed).messages 0).rows.map (fun row => (row.sender, row.seen)) =
        [(alice, 1), (bob, 0), (alice, 1), (bob, 0)] ∧
      ((next.messages 0).rows.map fun row => row.seen) = [1, 1, 1, 1] := by
  have called : (Tx.unsigned (.seenmsg 0 alice)).action = .seenmsg 0 alice := rfl
  obtain ⟨next, committed, spares⟩ := seenmsg_spares_iff chain conversed called
  refine ⟨next, committed, spares.mpr (by decide +kernel), by decide +kernel, ?_⟩
  rw [← exec_of_committed committed]
  decide +kernel

/-- Alice and Bob write once more. -/
def resumed : List Tx := conversed ++
  [.signed alice (.sendmsg 0 alice "again" 4), .signed bob (.sendmsg 0 bob "yes" 5)]

/-- Bob reads, and what he wrote himself counts as read by Alice. -/
theorem greeted_not_spares :
    ∃ next, step chain (reached chain greeted) (.unsigned (.seenmsg 0 bob)) = some next ∧
      ¬ SparesOwn 0 bob (reached chain greeted) next := by
  have committed : step chain (reached chain greeted) (.unsigned (.seenmsg 0 bob)) =
      some (exec (step chain) (reached chain greeted) (.unsigned (.seenmsg 0 bob))) :=
    committed_exec (by decide +kernel)
  refine ⟨_, committed, fun spares => ?_⟩
  have held : ((reached chain greeted).messages 0).find? 1 =
      some ((Messages.fresh .zeroed).posted 1 ⟨0⟩ bob "hello" 0 0) := by decide +kernel
  have marked : ((exec (step chain) (reached chain greeted)
      (.unsigned (.seenmsg 0 bob))).messages 0).find? 1 =
        some ((Messages.fresh .zeroed).posted 1 ⟨0⟩ bob "hello" 0 0).setSeen := by decide +kernel
  exact (spares.flags 0 1 _ _ held marked (by decide)).2 rfl

end LocalChain.K2ultra
