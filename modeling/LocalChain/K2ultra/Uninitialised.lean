import LocalChain.K2ultra.Commits

namespace LocalChain.K2ultra

open LocalChain.Inery LocalChain.Inery.MultiIndex LocalChain.Store

/-- The same transaction, with other contents of the memory that its rows are allocated in. -/
def Tx.onHeap (tx : Tx) (heap : Nat → Memory) : Tx := { tx with heap := heap }

/-- Every node ends in the same state, whatever its memory holds. -/
def MemoryFree (host : Host) (state : State) (tx : Tx) : Prop :=
  ∀ first second : Nat → Memory, step host state (tx.onHeap first) = step host state (tx.onHeap second)

/-- The actions whose lambdas do not set every member of the rows they store: the flags of a contact, or
what a message replies to. -/
def Action.leavesUnset : Action → Bool
  | .sendrequest .. | .forcerequest .. => true
  | .sendmsg _ _ _ replyTo | .pushmsg _ _ _ replyTo => replyTo = 0
  | _ => false

/-- The action is one of these, and it finds what it needs to store its rows. -/
def StoresUnset (auth : List Name) (state : State) : Action → Prop
  | .sendrequest from' to' _ => Askable auth from' to' state ∧
      ∃ scope, availablePrimaryKey unsetNextPrimaryKey state.adresses = .ok scope ∧
        state.book to' scope = none ∧ state.book from' scope = none
  | .forcerequest scope cnt1 cnt2 _ _ =>
    cnt1 ≠ cnt2 ∧ state.book cnt1 scope = none ∧ state.book cnt2 scope = none
  | .sendmsg scope sender _ replyTo => replyTo = 0 ∧ sender ∈ auth ∧
      ∃ next, availablePrimaryKey unsetNextPrimaryKey (state.messages scope) = .ok next
  | .pushmsg scope _ _ replyTo => replyTo = 0 ∧
      ∃ next, availablePrimaryKey unsetNextPrimaryKey (state.messages scope.value) = .ok next
  | _ => False

def Memory.ones : Memory := ⟨1, true, true, true, true, true, 1, 1, 1, 1⟩

variable {host : Host} {state next : State} {tx : Tx} {context : Context} {heap : Nat → Memory}
  {a : Name} {scope : UInt64}

/-- The ids that `pump` stores are all that their rows hold. -/
theorem pumpLoop_congr (context other : Context) (rounds : Nat) (i : UInt64) (adrs : AdressesTable) :
    pumpLoop context rounds i adrs = pumpLoop other rounds i adrs := by
  induction rounds generalizing i adrs with
  | zero => rfl
  | succ rounds ih =>
    have stored : emplace adrs (Adresses.fresh (context.heap i.toNat)) (fun row => { row with scope := i }) =
        emplace adrs (Adresses.fresh (other.heap i.toNat)) (fun row => { row with scope := i }) := rfl
    simp only [pumpLoop, stored, ih]

/-- A message that replies to another one has all its members set. -/
theorem post_congr {context other : Context} {replyTo seen : UInt64} {data : ByteString}
    (time : context.now = other.now) (replies : replyTo ≠ 0) :
    post context scope a data replyTo seen state = post other scope a data replyTo seen state := by
  have posted (newId : UInt64) :
      (Messages.fresh (context.heap 0)).posted newId context.now a data replyTo seen =
        (Messages.fresh (other.heap 0)).posted newId other.now a data replyTo seen := by
    simp [Messages.posted, replies, time]
  simp only [post, emplace, posted]

theorem step_congr {tx' : Tx}
    (same : dispatch (tx.context host) state tx.action = dispatch (tx'.context host) state tx'.action) :
    step host state tx = step host state tx' := by
  unfold step
  rw [same]

/-- Where the lambdas set every member, nothing of the memory is left. -/
theorem memoryFree_of_set (sets : tx.action.leavesUnset = false) : MemoryFree host state tx := by
  intro first second
  have same : dispatch ((tx.onHeap first).context host) state tx.action =
      dispatch ((tx.onHeap second).context host) state tx.action := by
    cases called : tx.action with
    | sendrequest | forcerequest => rw [called] at sets; cases sets
    | sendmsg scope sender data replyTo =>
      rw [called] at sets
      have posted : post ((tx.onHeap first).context host) scope sender data replyTo 0 state =
          post ((tx.onHeap second).context host) scope sender data replyTo 0 state :=
        post_congr rfl (by simpa [Action.leavesUnset] using sets)
      simp only [dispatch, sendmsg, posted]
      rfl
    | pushmsg scope sender data replyTo =>
      rw [called] at sets
      have posted : post ((tx.onHeap first).context host) scope.value sender data replyTo 1 state =
          post ((tx.onHeap second).context host) scope.value sender data replyTo 1 state :=
        post_congr rfl (by simpa [Action.leavesUnset] using sets)
      simp only [dispatch, pushmsg, posted]
    | pump max =>
      have pumped := pumpLoop_congr ((tx.onHeap first).context host) ((tx.onHeap second).context host)
        max.toNat 0 state.adresses
      simp only [dispatch, pump, pumped]
    | _ => rfl
  exact step_congr same

/-- Whether the other actions commit does not depend on the memory. -/
theorem step_onHeap_isSome (leaves : tx.action.leavesUnset) (heap : Nat → Memory) :
    (step host state (tx.onHeap heap)).isSome ↔ StoresUnset tx.auth state tx.action := by
  have action : (tx.onHeap heap).action = tx.action := rfl
  cases called : tx.action with
  | sendrequest from' to' key =>
    rw [step_isSome_of_silent (by rw [action, called, dispatch]), sendrequest_isOk]
    rfl
  | forcerequest scope cnt1 cnt2 key1 key2 =>
    rw [step_isSome_of_silent (by rw [action, called, dispatch]), forcerequest_isOk]
    rfl
  | sendmsg scope sender data replyTo =>
    rw [called] at leaves
    rw [step_isSome, action, called, dispatch, sendmsg_isOk, newMessageId_isOk]
    exact (and_iff_right (by simpa [Action.leavesUnset] using leaves)).symm
  | pushmsg scope sender data replyTo =>
    rw [called] at leaves
    rw [step_isSome_of_silent (by rw [action, called, dispatch]), pushmsg_isOk, newMessageId_isOk]
    exact (and_iff_right (by simpa [Action.leavesUnset] using leaves)).symm
  | _ => rw [called] at leaves; cases leaves

/-- If something of the state after the action shows the memory, two nodes can end in different states. -/
theorem not_memoryFree {α : Type} (observe : State → α) (value : (Nat → Memory) → α)
    (stores : StoresUnset tx.auth state tx.action) (leaves : tx.action.leavesUnset)
    (shows : ∀ heap next, step host state (tx.onHeap heap) = some next → observe next = value heap)
    (differ : value (fun _ => .zeroed) ≠ value (fun _ => .ones)) : ¬ MemoryFree host state tx := by
  intro free
  have same := free (fun _ => .zeroed) (fun _ => .ones)
  have stored : (step host state (tx.onHeap fun _ => .zeroed)).isSome :=
    (step_onHeap_isSome leaves _).mpr stores
  obtain ⟨next, committed⟩ := Option.isSome_iff_exists.mp stored
  refine differ ?_
  rw [← shows _ next committed, ← shows _ next (same ▸ committed)]

/-- A message that replies to none shows what its memory held for the reply. -/
theorem post_shows {seen newId newId' : UInt64} {data : ByteString}
    (chosen : newMessageId (state.messages scope) = .ok newId)
    (committed : post context scope a data 0 seen state = .ok (next, newId')) :
    ((next.messages scope).find? newId).map Messages.replyTo = some (context.heap 0).replyTo := by
  obtain ⟨chosen', rfl⟩ := post_ok committed
  obtain rfl := Except.ok.inj (chosen.symm.trans chosen')
  have stored : ((state.messages scope).put ((Messages.fresh (context.heap 0)).posted newId context.now a
      data 0 seen)).find? newId = some _ := Table.find?_put_of_key _ rfl
  rw [State.setMessages_messages, if_pos rfl, stored]
  rfl

theorem dispatch_onHeap {action : Action} (called : tx.action = action)
    (committed : step host state (tx.onHeap heap) = some next) :
    ∃ printed, dispatch ((tx.onHeap heap).context host) state action = .ok (next, printed) := by
  subst called
  exact step_eq_some.mp committed

/-- So does every action that posts such a message. -/
theorem post_not_memoryFree {seen : UInt64} {data : ByteString} (stores : StoresUnset tx.auth state tx.action)
    (leaves : tx.action.leavesUnset)
    (room : ∃ next, availablePrimaryKey unsetNextPrimaryKey (state.messages scope) = .ok next)
    (posts : ∀ heap next, step host state (tx.onHeap heap) = some next →
      ∃ newId, post ((tx.onHeap heap).context host) scope a data 0 seen state = .ok (next, newId)) :
    ¬ MemoryFree host state tx := by
  obtain ⟨newId, chosen⟩ := newMessageId_isOk.mpr room
  refine not_memoryFree (fun next => ((next.messages scope).find? newId).map Messages.replyTo)
    (fun heap => some (heap 0).replyTo) stores leaves ?_ (by decide)
  intro heap next committed
  obtain ⟨_, posted⟩ := posts heap next committed
  exact post_shows chosen posted

/-- So does every action that stores a contact whose favorite flag is the second row's memory. -/
theorem contact_not_memoryFree (holder : Name) (place : UInt64)
    (stores : StoresUnset tx.auth state tx.action) (leaves : tx.action.leavesUnset)
    (shows : ∀ heap next, step host state (tx.onHeap heap) = some next →
      (next.book holder place).map Requests.favorite = some (heap 1).favorite) :
    ¬ MemoryFree host state tx :=
  not_memoryFree (fun next => (next.book holder place).map Requests.favorite)
    (fun heap => some (heap 1).favorite) stores leaves shows (by decide)

theorem not_memoryFree_of_unset (stores : StoresUnset tx.auth state tx.action) :
    ¬ MemoryFree host state tx := by
  cases called : tx.action with
  | sendrequest from' to' key =>
    apply contact_not_memoryFree from' (nextPrimaryKey unsetNextPrimaryKey state.adresses) stores
      (by rw [called]; rfl)
    intro heap next committed
    obtain ⟨_, done⟩ := dispatch_onHeap called committed
    obtain ⟨scope, effect⟩ := sendrequest_opened (silent_eq_ok.mp done).1
    simp only [effect.next_key, effect.book_new, if_pos]
    rfl
  | forcerequest scope cnt1 cnt2 key1 key2 =>
    apply contact_not_memoryFree cnt2 scope stores (by rw [called]; rfl)
    intro heap next committed
    obtain ⟨_, done⟩ := dispatch_onHeap called committed
    have effect := forcerequest_forced (silent_eq_ok.mp done).1
    simp only [effect.book, Book.put, Requests.forced_scope, and_self, if_true]
    rfl
  | sendmsg scope sender data replyTo =>
    have parts := stores
    rw [called] at parts
    obtain ⟨rfl, _, room⟩ := parts
    have posts (heap : Nat → Memory) (next : State)
        (committed : step host state (tx.onHeap heap) = some next) :
        ∃ newId, post ((tx.onHeap heap).context host) scope sender data 0 0 state = .ok (next, newId) := by
      obtain ⟨_, done⟩ := dispatch_onHeap called committed
      exact (sendmsg_ok done).2
    exact post_not_memoryFree stores (by rw [called]; rfl) room posts
  | pushmsg scope sender data replyTo =>
    have parts := stores
    rw [called] at parts
    obtain ⟨rfl, room⟩ := parts
    have posts (heap : Nat → Memory) (next : State)
        (committed : step host state (tx.onHeap heap) = some next) :
        ∃ newId, post ((tx.onHeap heap).context host) scope.value sender data 0 1 state =
          .ok (next, newId) := by
      obtain ⟨_, done⟩ := dispatch_onHeap called committed
      exact pushmsg_ok (silent_eq_ok.mp done).1
    exact post_not_memoryFree stores (by rw [called]; rfl) room posts
  | _ => rw [called] at stores; exact stores.elim

/-- The state after an action depends on the memory exactly if the action stores rows that it leaves partly
unset. -/
theorem memoryFree_iff : MemoryFree host state tx ↔ ¬ StoresUnset tx.auth state tx.action := by
  constructor
  · intro free stores
    exact not_memoryFree_of_unset stores free
  · intro nothing first second
    by_cases leaves : tx.action.leavesUnset
    · have aborted (heap : Nat → Memory) : step host state (tx.onHeap heap) = none :=
        Option.not_isSome_iff_eq_none.mp fun stored => nothing ((step_onHeap_isSome leaves heap).mp stored)
      rw [aborted, aborted]
    · exact memoryFree_of_set (by simpa using leaves) first second

/-- Two nodes store different rows when Alice asks Bob. -/
theorem asking_not_memoryFree : ¬ MemoryFree chain (reached chain registered) asking := by
  intro free
  have same := congrArg (Option.map fun (next : State) => (next.book alice 0).map Requests.favorite)
    (free (fun _ => .zeroed) (fun _ => .ones))
  revert same
  decide +kernel

end LocalChain.K2ultra
