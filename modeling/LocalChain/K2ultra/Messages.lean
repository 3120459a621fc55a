import LocalChain.K2ultra.Step

namespace LocalChain.K2ultra

open LocalChain.Inery LocalChain.Inery.MultiIndex LocalChain.Store

variable {host : Host} {tx : Tx} {context : Context} {action : Action} {state next : State}
  {scope id : UInt64} {row : Messages} {messages middle result : MessagesTable}

/-- Every row of the first table is in the second one as it was or marked as seen. -/
def Marks (messages result : MessagesTable) : Prop :=
  ∀ id, result.find? id = messages.find? id ∨
    result.find? id = (messages.find? id).map Messages.setSeen

theorem Marks.refl (messages : MessagesTable) : Marks messages messages := fun _ => .inl rfl

theorem Marks.trans (first : Marks messages middle) (second : Marks middle result) :
    Marks messages result := by
  intro id
  rcases second id with same | marked
  · rw [same]
    exact first id
  · rw [marked]
    rcases first id with same | marked
    · rw [same]
      exact .inr rfl
    · rw [marked, Option.map_map]
      exact .inr rfl

theorem Marks.put_setSeen (held : messages.find? row.id = some row) :
    Marks messages (messages.put row.setSeen) := by
  intro id
  rw [Table.find?_put]
  split
  · rename_i same
    have place : id = row.id := same
    rw [place, held]
    exact .inr rfl
  · exact .inl rfl

/-- A row that is marked stays so. -/
theorem Marks.setSeen (marks : Marks messages result)
    (held : messages.find? id = some row.setSeen) : result.find? id = some row.setSeen := by
  rcases marks id with same | marked
  · rw [same, held]
  · rw [marked, held]
    rfl

/-- The walk of `seenmsg` marks the row it starts from, and nothing else than rows it meets. -/
theorem seenmsgLoop_step {left rest : Nat} {itr : Messages}
    (held : messages.find? itr.id = some itr)
    (walked : seenmsgLoop (left + 1) (some itr) messages = .ok (rest, result)) :
    seenmsgLoop left (messages.indexNext Messages.bySeen itr) (messages.put itr.setSeen) =
      .ok (rest, result) := by
  simp only [seenmsgLoop, held, bind_eq_ok, modify_some] at walked
  obtain ⟨_, ⟨_, _, rfl⟩, walked⟩ := walked
  exact walked

theorem seenmsgLoop_marks {left rest : Nat} {itr : Option Messages}
    (walked : seenmsgLoop left itr messages = .ok (rest, result)) : Marks messages result := by
  induction left generalizing itr messages with
  | zero =>
    cases itr <;>
      · obtain ⟨_, rfl⟩ : 0 = rest ∧ messages = result := by simpa [seenmsgLoop] using walked
        exact .refl messages
  | succ left ih =>
    cases itr with
    | none =>
      obtain ⟨_, rfl⟩ : left + 1 = rest ∧ messages = result := by simpa [seenmsgLoop] using walked
      exact .refl messages
    | some itr =>
      cases held : messages.find? itr.id with
      | none =>
        simp only [seenmsgLoop, held] at walked
        exact ih walked
      | some row =>
        have place : row.id = itr.id := Table.key_of_find? held
        simp only [seenmsgLoop, held, bind_eq_ok, modify_some] at walked
        obtain ⟨_, ⟨_, _, rfl⟩, walked⟩ := walked
        exact (Marks.put_setSeen (by rw [place, held])).trans (ih walked)

/-- The scope whose messages an action may write. -/
def Action.mailbox? : Action → Option UInt64
  | .sendmsg scope .. => some scope
  | .pushmsg scope .. => some scope.value
  | .seenmsg scope _ => some scope
  | .deletemesgs scope => some scope
  | _ => none

theorem Action.mailbox?_of_post? {sender : Name} {data : ByteString} {seen : UInt64}
    (called : action.post? = some (scope, sender, data, seen)) : action.mailbox? = some scope := by
  cases action <;> cases called <;> rfl

/-- What a committed action can do to the messages of one scope. -/
inductive MessageStep (context : Context) (action : Action) (state next : State) (scope : UInt64) :
    Prop where
  | posted {sender : Name} {data : ByteString} {newId replyTo seen : UInt64}
      (called : action.post? = some (scope, sender, data, seen))
      (authorised : seen = 0 → sender ∈ context.auth)
      (chosen : newMessageId (state.messages scope) = .ok newId)
      (result : next.messages scope = (state.messages scope).put
        ((Messages.fresh (context.heap 0)).posted newId context.now sender data replyTo seen))
  | marked {receiver : Name} {itr : Messages} (called : action = .seenmsg scope receiver)
      (first : (state.messages scope).indexLowerBound Messages.bySeen 0 = some itr)
      (unseen : itr.seen ≠ 1) (marks : Marks (state.messages scope) (next.messages scope))
      (start : (next.messages scope).find? itr.id = some itr.setSeen)
  | unmarked {receiver : Name} (called : action = .seenmsg scope receiver)
      (seen : ∀ row, (state.messages scope).indexLowerBound Messages.bySeen 0 = some row → row.seen = 1)
      (same : next.messages scope = state.messages scope)
  | wiped (called : action = .deletemesgs scope) (result : next.messages scope = .empty)
  | untouched (quiet : action.mailbox? ≠ some scope)
      (same : next.messages scope = state.messages scope)

private theorem Effect.onMessages_posted {target newId replyTo seen : UInt64} {sender : Name}
    {data : ByteString} (called : action.post? = some (target, sender, data, seen))
    (authorised : seen = 0 → sender ∈ context.auth)
    (chosen : newMessageId (state.messages target) = .ok newId)
    (result : next = state.setMessages target ((state.messages target).put
      ((Messages.fresh (context.heap 0)).posted newId context.now sender data replyTo seen)))
    (scope : UInt64) : MessageStep context action state next scope := by
  by_cases here : scope = target
  · subst here
    have written := congrArg (fun state => State.messages state scope) result
    simp only [State.setMessages_messages, ↓reduceIte] at written
    exact .posted called authorised chosen written
  · refine .untouched ?_ (by rw [result, State.setMessages_messages, if_neg here])
    rw [Action.mailbox?_of_post? called]
    intro same
    exact here (Option.some.inj same).symm

private theorem Effect.onMessages_marked {target : UInt64} {receiver : Name} {itr : Messages} {left : Nat}
    (called : action = .seenmsg target receiver)
    (first : (state.messages target).indexLowerBound Messages.bySeen 0 = some itr)
    (unseen : itr.seen ≠ 1)
    (walked : seenmsgLoop 1000 (some itr) (state.messages target) = .ok (left, result))
    (written : next = state.setMessages target result) (scope : UInt64) :
    MessageStep context action state next scope := by
  by_cases here : scope = target
  · subst here
    have held : (state.messages scope).find? itr.id = some itr :=
      Table.find?_self (Table.leastWhere_eq_some.mp first).1
    have place : next.messages scope = result := by
      rw [written, State.setMessages_messages, if_pos rfl]
    refine .marked called first unseen ?_ ?_
    · rw [place]
      exact seenmsgLoop_marks walked
    · rw [place]
      refine (seenmsgLoop_marks (seenmsgLoop_step held walked)).setSeen ?_
      simp
  · refine .untouched ?_ (by rw [written, State.setMessages_messages, if_neg here])
    rw [called]
    intro same
    exact here (Option.some.inj same).symm

theorem Effect.onMessages (effect : Effect context action state next) (scope : UInt64) :
    MessageStep context action state next scope := by
  have silent (quiet : action.mailbox? = none) (same : next.messages = state.messages) :
      MessageStep context action state next scope :=
    .untouched (by simp [quiet]) (by rw [same])
  cases effect with
  | posted called authorised chosen result =>
    exact Effect.onMessages_posted called authorised chosen result scope
  | marked called first unseen walked result =>
    exact Effect.onMessages_marked called first unseen walked result scope
  | @unmarked target receiver called seen result =>
    by_cases here : scope = target
    · subst here
      exact .unmarked called seen (by rw [result])
    · refine .untouched ?_ (by rw [result])
      rw [called]
      intro same
      exact here (Option.some.inj same).symm
  | @wiped target called result =>
    by_cases here : scope = target
    · subst here
      exact .wiped called (by rw [result, State.setMessages_messages, if_pos rfl])
    · refine .untouched ?_ (by rw [result, State.setMessages_messages, if_neg here])
      rw [called]
      intro same
      exact here (Option.some.inj same).symm
  | opened called effect => exact silent (called ▸ rfl) effect.messages
  | accepted called _ effect => exact silent (called ▸ rfl) effect.elsewhere.messages
  | dissolved called _ effect =>
    refine silent ?_ effect.elsewhere.messages
    cases action <;> first | rfl | cases called
  | edited called _ effect =>
    refine silent ?_ effect.elsewhere.messages
    cases action <;> first | rfl | cases called
  | deleted called _ result => exact silent (called ▸ rfl) (by rw [result]; rfl)
  | cascaded called _ elsewhere => exact silent (called ▸ rfl) elsewhere.messages
  | dropped called _ result => exact silent (called ▸ rfl) (by rw [result]; rfl)
  | forced called effect => exact silent (called ▸ rfl) effect.elsewhere.messages
  | registered called _ _ _ result => exact silent (called ▸ rfl) (by rw [result])
  | profiled called _ _ _ result =>
    refine silent ?_ (by rw [result])
    cases action <;> first | rfl | cases called
  | unprofiled called result => exact silent (called ▸ rfl) (by rw [result])
  | numbered called _ result =>
    rcases called with rfl | ⟨_, rfl⟩ <;> exact silent rfl (by rw [result])
  | unnumbered called result => exact silent (called ▸ rfl) (by rw [result])
  | idle called result =>
    refine silent ?_ (by rw [result])
    cases action <;> first | rfl | cases called

theorem step_messages (committed : step host state tx = some next) (scope : UInt64) :
    MessageStep (tx.context host) tx.action state next scope :=
  (step_effect committed).onMessages scope

/-- A committed post stores its message under the next id. -/
theorem step_posted {sender : Name} {data : ByteString} {seen : UInt64}
    (committed : step host state tx = some next)
    (called : tx.action.post? = some (scope, sender, data, seen)) :
    ∃ newId replyTo, newMessageId (state.messages scope) = .ok newId ∧
      next.messages scope = (state.messages scope).put
        ((Messages.fresh (tx.heap 0)).posted newId tx.now sender data replyTo seen) := by
  cases step_messages committed scope with
  | posted called' _ chosen result =>
    cases called.symm.trans called'
    exact ⟨_, _, chosen, result⟩
  | marked called' => rw [called'] at called; cases called
  | unmarked called' => rw [called'] at called; cases called
  | wiped called' => rw [called'] at called; cases called
  | untouched quiet => exact absurd (Action.mailbox?_of_post? called) quiet

end LocalChain.K2ultra
