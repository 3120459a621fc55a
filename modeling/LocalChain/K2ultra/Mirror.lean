import LocalChain.K2ultra.ContactGraph

namespace LocalChain.K2ultra

open LocalChain.Graph LocalChain.Inery LocalChain.Store

variable {host : Host} {txs : List Tx} {a : Name} {row : Requests}

/-- The mirror invariant: a row of one account has its counterpart, under the same id, in the table
of the account it names, and no account names itself. -/
theorem requests_mirrored (without : Without oneSided txs)
    (present : row ∈ ((reached host txs).requests a.value).rows) :
    row.contact ≠ a ∧ ∃ back ∈ ((reached host txs).requests row.contact.value).rows,
      back.scope = row.scope ∧ back.contact = a := by
  have edge := State.links_of_book (State.mem_rows.mp present)
  obtain ⟨apart, reverse⟩ := reached_mirrored without a row.scope row.contact edge
  obtain ⟨back, held, names⟩ := Book.links_eq_some.mp reverse
  have same := State.book_scope held
  refine ⟨apart, back, State.mem_rows.mpr ?_, same, names⟩
  rw [same, held]

/-- Bob's row under Alice's id is the counterpart of hers. -/
theorem requested_mirrored :
    ∃ row ∈ ((reached chain requested).requests alice.value).rows,
      row.contact = bob ∧ row.contact ≠ alice ∧
        ∃ back ∈ ((reached chain requested).requests row.contact.value).rows,
          back.scope = row.scope ∧ back.contact = alice := by
  have present : Requests.sent 0 bob (Requests.fresh .zeroed) ∈
      ((reached chain requested).requests alice.value).rows := by decide +kernel
  exact ⟨_, present, rfl, requests_mirrored (by decide) present⟩

/-- One row per contact, which is the one that the contact index names. -/
theorem contact_unique (without : Without [.forcerequest] txs)
    (present : row ∈ ((reached host txs).requests a.value).rows) :
    ((reached host txs).requests a.value).indexFind Requests.byContact row.contact.value = some row ∧
      ∀ other ∈ ((reached host txs).requests a.value).rows, other.contact = row.contact →
        other = row := by
  have held := State.mem_rows.mp present
  have unique (other : Requests) (member : other ∈ ((reached host txs).requests a.value).rows)
      (same : other.contact = row.contact) : other = row := by
    have edge := State.links_of_book (State.mem_rows.mp member)
    rw [same] at edge
    have label := reached_simple without a _ _ _ edge (State.links_of_book held)
    have stored := State.mem_rows.mp member
    rw [label, held] at stored
    exact (Option.some.inj stored).symm
  refine ⟨?_, unique⟩
  cases found : ((reached host txs).requests a.value).indexFind Requests.byContact
      row.contact.value with
  | none => exact absurd rfl (State.lookup_eq_none.mp found row.scope row held)
  | some first =>
    obtain ⟨member, names, _⟩ := Table.indexFind_eq_some.mp found
    rw [unique first member (Name.value_inj.mp names)]

/-- Carol registers and asks Bob too, who has accepted Alice by then. -/
def courted : List Tx := accepted ++
  [.signed carol (.reguser carol "" "" ""), .signed carol (.sendrequest carol bob "kc")]

/-- Bob has a row for Alice and one for Carol, and the index finds each of them. -/
theorem courted_unique :
    (((reached chain courted).requests bob.value).rows.map fun row => (row.scope, row.contact)) =
        [(0, alice), (1, carol)] ∧
      ∀ row ∈ ((reached chain courted).requests bob.value).rows,
        ((reached chain courted).requests bob.value).indexFind Requests.byContact row.contact.value = some row ∧
          ∀ other ∈ ((reached chain courted).requests bob.value).rows,
            other.contact = row.contact → other = row :=
  ⟨by decide +kernel, fun _ present => contact_unique (by decide) present⟩

end LocalChain.K2ultra
