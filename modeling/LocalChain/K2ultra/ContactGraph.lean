import LocalChain.Graph.Links
import LocalChain.K2ultra.Run

namespace LocalChain.K2ultra

open LocalChain.Graph LocalChain.Inery LocalChain.Inery.MultiIndex LocalChain.Store

/-! The graph of contacts under the book: each row is a half-edge labelled with its id. -/

def Book.links (book : Book) : Links Name UInt64 := fun owner scope =>
  (book owner scope).map Requests.contact

def State.links (state : State) : Links Name UInt64 := state.book.links

/-- Following the contact index of the owner and erasing both sides. -/
def State.cut (state : State) (owner contact : Name) : Links.Move Name UInt64 :=
  match (state.requests owner.value).indexFind Requests.byContact contact.value with
  | some mine => .cut owner contact mine.scope
  | none => .keep

/-- What an action that commits does to the graph of contacts. -/
def Action.move (state : State) : Action → Links.Move Name UInt64
  | .sendrequest from' to' _ =>
    .join to' from' (nextPrimaryKey unsetNextPrimaryKey state.adresses)
  | .forcerequest scope cnt1 cnt2 _ _ => .join cnt1 cnt2 scope
  | .resprequest owner from' _ false => state.cut owner from'
  | .rmcontact owner contact => state.cut owner contact
  | .deleteuser owner => .clear owner
  | .deletereqs owner => .cascade owner
  | .deletereqs2 owner contact =>
    match (state.requests contact.value).indexFind Requests.byContact owner.value with
    | some row => .drop contact row.scope
    | none => .keep
  | _ => .keep

variable {host : Host} {tx : Tx} {context : Context} {action : Action} {state next : State}
  {book : Book} {owner contact : Name} {scope : UInt64} {row : Requests}

theorem Book.links_eq_some :
    book.links owner scope = some contact ↔ ∃ row, book owner scope = some row ∧ row.contact = contact := by
  simp [Book.links]

theorem Book.links_eq_none : book.links owner scope = none ↔ book owner scope = none := by
  simp [Book.links]

theorem State.links_of_book (held : state.book owner scope = some row) :
    state.links owner scope = some row.contact :=
  Book.links_eq_some.mpr ⟨row, held, rfl⟩

theorem Book.links_put (row : Requests) (holder : Name) (s : UInt64) :
    (book.put owner row).links holder s =
      if holder = owner ∧ s = row.scope then some row.contact else book.links holder s := by
  simp only [Book.links, Book.put]
  split <;> rfl

/-- Rewriting a row without changing whom it names leaves the graph alone. -/
theorem Book.links_put_same {old : Requests} (held : book owner row.scope = some old)
    (same : row.contact = old.contact) : (book.put owner row).links = book.links := by
  funext holder s
  rw [Book.links_put]
  split
  · rename_i hit
    rw [hit.1, hit.2, Book.links, held, Option.map_some, same]
  · rfl

theorem Book.links_join {first second : Requests} {a b : Name} (distinct : a ≠ b)
    (firstScope : first.scope = scope) (secondScope : second.scope = scope)
    (firstContact : first.contact = b) (secondContact : second.contact = a) :
    ((book.put a first).put b second).links = book.links.join a b scope := by
  funext holder s
  simp only [Book.links_put, Links.join, firstScope, secondScope, firstContact, secondContact]
  by_cases here : holder = a ∧ s = scope
  · have other : ¬ (holder = b ∧ s = scope) := fun same => distinct (here.1.symm.trans same.1)
    rw [if_neg other, if_pos here, if_pos here]
  · simp only [if_neg here]

theorem Book.links_drop (owner : Name) (gone : UInt64) :
    (book.drop owner gone).links = book.links.drop owner gone := by
  funext holder s
  simp only [Book.links, Book.drop, Links.drop]
  split <;> rfl

theorem Book.links_clear (owner : Name) : (book.clear owner).links = book.links.clear owner := by
  funext holder s
  simp only [Book.links, Book.clear, Links.clear]
  split <;> rfl

theorem Book.links_cascade (owner : Name) : (book.cascade owner).links = book.links.cascade owner := by
  funext holder s
  simp only [Links.cascade, Book.links_eq_some]
  simp only [Book.links, Book.cascade]
  split <;> rfl

theorem State.cut_of_lookup {mine : Requests}
    (found : (state.requests owner.value).indexFind Requests.byContact contact.value = some mine) :
    state.cut owner contact = .cut owner contact mine.scope := by
  rw [State.cut, found]

theorem State.links_of_lookup {mine : Requests}
    (found : (state.requests owner.value).indexFind Requests.byContact contact.value = some mine) :
    state.links owner mine.scope = some contact :=
  Book.links_eq_some.mpr ⟨mine, State.book_of_lookup found⟩

private theorem Opened.links {from' to' : Name} {key : ByteString}
    (effect : Opened context from' to' key scope state next) :
    (Links.Move.join to' from' scope).Legal state.links ∧
      next.links = state.links.join to' from' scope := by
  refine ⟨⟨effect.distinct.symm, ?_, ?_⟩, ?_⟩
  · exact Book.links_eq_none.mpr effect.freeTo
  · exact Book.links_eq_none.mpr effect.freeFrom
  · rw [State.links, effect.book]
    exact Book.links_join effect.distinct.symm rfl rfl rfl rfl

private theorem Forced.links {cnt1 cnt2 : Name} {key1 key2 : ByteString}
    (effect : Forced context scope cnt1 cnt2 key1 key2 state next) :
    (Links.Move.join cnt1 cnt2 scope).Legal state.links ∧
      next.links = state.links.join cnt1 cnt2 scope := by
  refine ⟨⟨effect.distinct, ?_, ?_⟩, ?_⟩
  · exact Book.links_eq_none.mpr effect.freeFirst
  · exact Book.links_eq_none.mpr effect.freeSecond
  · rw [State.links, effect.book]
    exact Book.links_join effect.distinct rfl rfl rfl rfl

private theorem Accepted.links {from' : Name} {key : ByteString} {mine theirs : Requests}
    (effect : Accepted owner from' key mine theirs state next) : next.links = state.links := by
  have same := State.book_scope effect.counterpart
  have counterpart : state.book from' (theirs.answered key).scope = some theirs :=
    (congrArg (state.book from') same).trans effect.counterpart
  have held := (State.book_of_lookup effect.found).1
  obtain ⟨old, found, agrees⟩ : ∃ old, (state.book.put from' (theirs.answered key)) owner
      mine.confirmed.scope = some old ∧ mine.confirmed.contact = old.contact := by
    by_cases hit : owner = from' ∧ mine.scope = theirs.scope
    · obtain rfl : mine = theirs := by
        obtain ⟨rfl, _⟩ := hit
        exact Option.some.inj (held.symm.trans effect.counterpart)
      exact ⟨mine.answered key, by simp [Book.put, hit.1], rfl⟩
    · exact ⟨mine, by simp [Book.put, hit, held], rfl⟩
  rw [State.links, effect.book, Book.links_put_same found agrees,
    Book.links_put_same counterpart (by rfl)]
  rfl

private theorem Edited.links {updater : Requests → Requests} {mine : Requests}
    (annotates : Requests.Annotates updater)
    (effect : Edited owner contact updater mine state next) : next.links = state.links := by
  have held := (State.book_of_lookup effect.found).1
  have found : state.book owner (updater mine).scope = some mine := by
    rw [annotates.scope, held]
  rw [State.links, effect.book, Book.links_put_same found (annotates.contact mine)]
  rfl

theorem BookStep.links (moved : BookStep context action state next) :
    (action.move state).Legal state.links ∧ next.links = (action.move state).apply state.links := by
  cases moved with
  | opened called effect =>
    subst called
    simp only [Action.move, effect.next_key]
    exact effect.links
  | forced called effect =>
    subst called
    exact effect.links
  | accepted called _ effect =>
    subst called
    exact ⟨trivial, effect.links⟩
  | @dissolved owner contact mine _ called _ effect =>
    have moves : action.move state = .cut owner contact mine.scope := by
      rw [← State.cut_of_lookup effect.found]
      cases action with
      | resprequest _ _ _ accept =>
        cases accept with
        | true => cases called
        | false => cases called; rfl
      | rmcontact => cases called; rfl
      | _ => cases called
    rw [moves]
    refine ⟨State.links_of_lookup effect.found, ?_⟩
    rw [State.links, effect.book, Book.links_drop, Book.links_drop]
    rfl
  | edited called _ effect =>
    have moves : action.move state = .keep := by
      cases action <;> first | rfl | cases called
    rw [moves]
    exact ⟨trivial, effect.links (Requests.annotates_of_edit called)⟩
  | deleted called _ book =>
    subst called
    refine ⟨trivial, ?_⟩
    rw [State.links, book, Book.links_clear]
    rfl
  | cascaded called book =>
    subst called
    refine ⟨trivial, ?_⟩
    rw [State.links, book, Book.links_cascade]
    rfl
  | @dropped _ contact row called found book =>
    subst called
    simp only [Action.move, found]
    refine ⟨trivial, ?_⟩
    rw [State.links, book, Book.links_drop]
    rfl
  | untouched quiet book =>
    have moves : action.move state = .keep := by
      cases action <;> first | rfl | cases quiet
    rw [moves]
    exact ⟨trivial, congrArg Book.links book⟩

/-- Every committed action is a legal move of the graph of contacts. -/
theorem step_links (committed : step host state tx = some next) :
    (tx.action.move state).Legal state.links ∧ next.links = (tx.action.move state).apply state.links :=
  (step_effect committed).book.links

theorem State.cut_ne_join (state : State) (owner contact a b : Name) (s : UInt64) :
    state.cut owner contact ≠ .join a b s := by
  unfold State.cut
  split <;> simp

/-- Only a `sendrequest` that commits opens a conversation, unless one is forced. -/
theorem BookStep.joined {a b : Name} {s : UInt64} (moved : BookStep context action state next)
    (unforced : action.name ≠ .forcerequest) (joins : action.move state = .join a b s) :
    ∃ key, action = .sendrequest b a key ∧ Opened context b a key s state next := by
  cases action with
  | sendrequest from' to' key =>
    cases moved with
    | opened called effect =>
      cases called
      simp only [Action.move, effect.next_key, Links.Move.join.injEq] at joins
      obtain ⟨rfl, rfl, rfl⟩ := joins
      exact ⟨key, rfl, effect⟩
    | _ => contradiction
  | forcerequest => exact absurd rfl unforced
  | resprequest owner from' key accept =>
    cases accept with
    | true => cases joins
    | false => exact absurd joins (State.cut_ne_join _ _ _ _ _ _)
  | rmcontact => exact absurd joins (State.cut_ne_join _ _ _ _ _ _)
  | deletereqs2 =>
    simp only [Action.move] at joins
    split at joins <;> cases joins
  | _ => cases joins

/-- The ids that have been given out. -/
def State.given (state : State) (scope : UInt64) : Prop := (state.adresses.find? scope).isSome

theorem Opened.fresh {from' to' : Name} {key : ByteString}
    (effect : Opened context from' to' key scope state next) : ¬ state.given scope := by
  simp [State.given, find?_availablePrimaryKey effect.granted]

theorem Opened.given {from' to' : Name} {key : ByteString}
    (effect : Opened context from' to' key scope state next) : next.given scope := by
  simp [State.given, effect.adresses]

theorem given_step (committed : step host state tx = some next) (kept : tx.action.name ≠ .rraddr)
    (given : state.given scope) : next.given scope := by
  refine (step_effect committed).adresses ?_ given
  rintro called
  exact kept (by rw [called]; rfl)

theorem reached_irreflexive (host : Host) (txs : List Tx) :
    (reached host txs).links.Irreflexive := by
  refine reached_invariant (motive := fun state => state.links.Irreflexive)
    (fun _ _ held => by cases held) ?_ (Without.nothing txs)
  intro state next tx irreflexive committed _
  obtain ⟨legal, moved⟩ := step_links committed
  exact moved ▸ irreflexive.apply legal

/-- The actions that drop rows on one side only. -/
def oneSided : List ActionName := [.deleteuser, .deletereqs2]

theorem Action.move_twoSided (permitted : action.name ∉ oneSided) : (action.move state).TwoSided := by
  have cut (owner contact : Name) : (state.cut owner contact).TwoSided := by
    unfold State.cut
    split <;> trivial
  cases action with
  | deleteuser => exact absurd (by simp [Action.name, oneSided]) permitted
  | deletereqs2 => exact absurd (by simp [Action.name, oneSided]) permitted
  | resprequest owner from' key accept =>
    cases accept with
    | true => trivial
    | false => exact cut owner from'
  | rmcontact owner contact => exact cut owner contact
  | _ => trivial

theorem reached_mirrored {txs : List Tx} (without : Without oneSided txs) :
    (reached host txs).links.Mirrored := by
  refine reached_invariant (motive := fun state => state.links.Mirrored)
    (fun _ _ _ held => by cases held) ?_ without
  intro state next tx mirrored committed permitted
  obtain ⟨legal, moved⟩ := step_links committed
  exact moved ▸ mirrored.apply legal (Action.move_twoSided permitted)

/-- A request opens a conversation only between accounts that hold no row for each other. -/
theorem unlinked_step (committed : step host state tx = some next)
    (unforced : tx.action.name ≠ .forcerequest) : (tx.action.move state).Unlinked state.links := by
  cases joins : tx.action.move state with
  | join a b s =>
    obtain ⟨key, _, effect⟩ := (step_effect committed).book.joined unforced joins
    constructor
    · intro t held
      obtain ⟨row, present, same⟩ := Book.links_eq_some.mp held
      exact effect.unasked t row present same
    · intro t held
      obtain ⟨row, present, same⟩ := Book.links_eq_some.mp held
      exact effect.unasking t row present same
  | _ => trivial

theorem simple_step (simple : state.links.Simple) (committed : step host state tx = some next)
    (unforced : tx.action.name ≠ .forcerequest) : next.links.Simple := by
  rw [(step_links committed).2]
  exact simple.apply (unlinked_step committed unforced)

theorem reached_simple {txs : List Tx} (without : Without [.forcerequest] txs) :
    (reached host txs).links.Simple :=
  reached_invariant (motive := fun state => state.links.Simple)
    (fun _ _ _ _ held => by cases held)
    (fun _ _ _ simple committed unforced => simple_step simple committed (by simpa using unforced))
    without

theorem reached_twinned {txs : List Tx} (without : Without [.forcerequest] txs) :
    (reached host txs).links.Twinned := by
  refine reached_invariant (motive := fun state => state.links.Twinned)
    (fun _ _ _ _ held => by cases held) ?_ without
  intro state next tx twinned committed unforced
  rw [(step_links committed).2]
  exact twinned.apply (unlinked_step committed (by simpa using unforced))

/-- The actions that let an id stand for more than one pair. -/
def reusing : List ActionName := [.forcerequest, .rraddr]

theorem ne_forcerequest (permitted : action.name ∉ reusing) : action.name ≠ .forcerequest :=
  fun same => permitted (by simp [same, reusing])

theorem ne_rraddr (permitted : action.name ∉ reusing) : action.name ≠ .rraddr :=
  fun same => permitted (by simp [same, reusing])

/-- Every id in use has been given out and belongs to one pair. -/
structure State.Exclusive (state : State) : Prop where
  within : state.links.Within state.given
  unshared : state.links.Unshared

theorem State.Exclusive.step (exclusive : state.Exclusive) (committed : step host state tx = some next)
    (permitted : tx.action.name ∉ reusing) : next.Exclusive := by
  have moved := (step_links committed).2
  have opened {a b : Name} {s : UInt64} (joins : tx.action.move state = .join a b s) :=
    (step_effect committed).book.joined (ne_forcerequest permitted) joins
  constructor
  · rw [moved]
    refine exclusive.within.apply (fun s => given_step committed (ne_rraddr permitted)) fun a b s joins => ?_
    obtain ⟨_, _, effect⟩ := opened joins
    exact effect.given
  · rw [moved]
    refine exclusive.unshared.apply exclusive.within ?_
    cases joins : tx.action.move state with
    | join a b s =>
      obtain ⟨_, _, effect⟩ := opened joins
      exact effect.fresh
    | _ => trivial

theorem initial_exclusive : State.initial.Exclusive where
  within _ _ _ held := by cases held
  unshared _ _ _ _ _ held := by cases held

theorem reached_exclusive {txs : List Tx} (without : Without reusing txs) :
    (reached host txs).Exclusive :=
  reached_invariant initial_exclusive (fun _ _ _ exclusive => exclusive.step) without

end LocalChain.K2ultra
