import LocalChain.K2ultra.Conversation
import LocalChain.K2ultra.MessageLog

namespace LocalChain.K2ultra

open LocalChain.Inery LocalChain.Inery.MultiIndex LocalChain.Store

variable {host : Host} {txs : List Tx} {tx : Tx} {state next : State} {scope : UInt64}
  {sender : Name} {data : ByteString} {replyTo : UInt64} {log : List Posting} {posting : Posting}

/-- `sendmsg` reads no requests table: it asks for the sender's authority and for an id. -/
theorem sendmsg_isSome_iff (called : tx.action = .sendmsg scope sender data replyTo) :
    (step host state tx).isSome ↔
      sender ∈ tx.auth ∧ ∃ newId, newMessageId (state.messages scope) = .ok newId := by
  rw [step_isSome, called]
  exact sendmsg_isOk

private theorem mem_posted {there : UInt64} {added : Posting}
    (member : posting ∈ if there = scope then log ++ [added] else log) :
    posting ∈ log ∨ there = scope ∧ posting = added := by
  split at member
  · rename_i here
    rcases List.mem_append.mp member with old | new
    · exact .inl old
    · exact .inr ⟨here, List.mem_singleton.mp new⟩
  · exact .inl member

theorem mem_logged {entry : Transition State Tx} (member : posting ∈ logged scope log entry) :
    posting ∈ log ∨ entry.tx.action.post? = some (scope, posting.sender, posting.data, posting.seen) ∧
      posting.time = entry.tx.now := by
  unfold logged at member
  split at member
  · rename_i called
    refine (mem_posted member).imp_right fun ⟨here, new⟩ => ?_
    subst here new
    exact ⟨by rw [called]; rfl, rfl⟩
  · rename_i called
    refine (mem_posted member).imp_right fun ⟨here, new⟩ => ?_
    subst here new
    exact ⟨by rw [called]; rfl, rfl⟩
  · split at member
    · cases member
    · exact .inl member
  · exact .inl member

/-- A posting of a sender's own. -/
def SentBy (posting : Posting) (scope : UInt64) (entry : Transition State Tx) : Prop :=
  (∃ replyTo, entry.tx.action = .sendmsg scope posting.sender posting.data replyTo) ∧
    posting.sender ∈ entry.tx.auth ∧ posting.time = entry.tx.now

theorem posting_sent (without : Without [.pushmsg] txs)
    (member : posting ∈ messageLog host scope txs) :
    ∃ entry ∈ history host txs, SentBy posting scope entry := by
  revert posting
  refine reached_history
    (motive := fun (past : List (Transition State Tx)) _ =>
      ∀ {posting}, posting ∈ past.foldl (logged scope) [] → ∃ entry ∈ past, SentBy posting scope entry)
    (fun member => by cases member) ?_ without
  intro past state next tx ih committed permitted posting member
  rw [List.foldl_append] at member
  rcases mem_logged member with old | ⟨called, time⟩
  · obtain ⟨entry, present, sent⟩ := ih old
    exact ⟨entry, List.mem_append_left _ present, sent⟩
  · refine ⟨_, List.mem_append_right _ (List.mem_singleton_self _), ?_⟩
    cases action : tx.action with
    | sendmsg target sender data replyTo =>
      simp only [action, Action.post?, Option.some.injEq, Prod.mk.injEq] at called
      obtain ⟨rfl, rfl, rfl, _⟩ := called
      have sends := (sendmsg_isSome_iff action).mp (Option.isSome_iff_exists.mpr ⟨next, committed⟩)
      exact ⟨⟨replyTo, action⟩, sends.1, time⟩
    | pushmsg => exact absurd (by simp [action, Action.name]) permitted
    | _ => simp [action, Action.post?] at called

/-- Opening a conversation leaves every messages table alone. -/
theorem opening_messages {conversation : Opening} (committed : step host state tx = some next)
    (opens : opening? ⟨state, tx, next⟩ = some conversation) : next.messages = state.messages := by
  obtain ⟨_, _, effect⟩ := opening_committed committed opens
  exact effect.messages

/-- Who may write to a scope: anyone, in his own name, as long as there is an id left. What a scope
holds when it is given out is what was sent to it until then. -/
theorem sending (without : Without [.forcerequest, .pushmsg, .rraddr] txs) (scope : UInt64) :
    (∀ (tx : Tx) (sender : Name) (data : ByteString) (replyTo : UInt64),
      tx.action = .sendmsg scope sender data replyTo →
      ((step host (reached host txs) tx).isSome ↔
        sender ∈ tx.auth ∧ (messageLog host scope txs).length < UInt64.size - 3)) ∧
      Recorded (messageLog host scope txs) ((reached host txs).messages scope) ∧
      (∀ posting ∈ messageLog host scope txs,
        ∃ entry ∈ history host txs, SentBy posting scope entry) ∧
      ∀ (tx : Tx) (next : State) (conversation : Opening),
        step host (reached host txs) tx = some next →
        opening? ⟨reached host txs, tx, next⟩ = some conversation →
        ((next.messages conversation.scope).rows = [] ↔
          messageLog host conversation.scope txs = []) := by
  have recorded := reached_recorded host txs scope
  refine ⟨?_, recorded, fun posting => posting_sent (without.mono (by decide)), ?_⟩
  · intro tx sender data replyTo called
    rw [sendmsg_isSome_iff called, recorded.room]
  · intro tx next conversation committed opens
    rw [opening_messages committed opens]
    exact (reached_recorded host txs conversation.scope).eq_nil

/-- Carol writes to a scope before Alice and Bob register. -/
def visited : List Tx := .signed carol (.sendmsg 0 carol "hello" 0) :: registered

/-- Bob can write there too, Carol's message is in the log as her own, and the scope is not empty when Alice's
request takes it. -/
theorem visited_sending :
    (step chain (reached chain visited) (.signed bob (.sendmsg 0 bob "hello" 0))).isSome ∧
      Recorded (messageLog chain 0 visited) ((reached chain visited).messages 0) ∧
      messageLog chain 0 visited = [⟨carol, "hello", ⟨0⟩, 0⟩] ∧
      (∃ entry ∈ history chain visited, SentBy ⟨carol, "hello", ⟨0⟩, 0⟩ 0 entry) ∧
      ((exec (step chain) (reached chain visited) asking).messages 0).rows ≠ [] := by
  have written : messageLog chain 0 visited = [⟨carol, "hello", ⟨0⟩, 0⟩] := by decide +kernel
  have committed : step chain (reached chain visited) asking =
      some (exec (step chain) (reached chain visited) asking) := committed_exec (by decide +kernel)
  have opens : opening? ⟨reached chain visited, asking, exec (step chain) (reached chain visited) asking⟩ =
      some ⟨alice, bob, 0⟩ := by decide +kernel
  obtain ⟨sends, recorded, sent, starts⟩ := @sending chain visited (by decide) 0
  refine ⟨(sends _ bob "hello" 0 rfl).mpr ⟨by decide, by decide +kernel⟩, recorded, written, ?_, fun empty => ?_⟩
  · exact sent ⟨carol, "hello", ⟨0⟩, 0⟩ (written ▸ List.mem_singleton_self _)
  · cases written.symm.trans ((starts asking _ _ committed opens).mp empty)

/-- Carol writes to the id that Alice and Bob are given next. -/
def intruded : List Tx := .signed carol (.sendmsg 0 carol "hello" 0) :: requested

/-- She holds no row at all, and their conversation does not start empty. -/
theorem intruded_not_private :
    Without [.forcerequest, .pushmsg, .rraddr] intruded ∧
      (step chain (reached chain []) (.signed carol (.sendmsg 0 carol "hello" 0))).isSome ∧
      ((reached chain []).requests carol.value).rows = [] ∧
      openings chain intruded = [⟨alice, bob, 0⟩] ∧
      ((reached chain intruded).messages 0).rows ≠ [] := by
  decide +kernel

end LocalChain.K2ultra
