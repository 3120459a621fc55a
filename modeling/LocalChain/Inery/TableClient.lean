import LocalChain.Inery.TableRun

/-! Whole programs on `multi_index` objects. -/
namespace LocalChain.Inery

open LocalChain.Store
open LocalChain.Refine
open TableObject (Represents record entry record_primary entry_primary)

variable {schema : Schema} {labelling : Labelling UInt64} {α : Type}

/-- A table as the host keeps it. -/
structure Stored (schema : Schema) (labelling : Labelling UInt64) where
  table : Table schema.primaryKey
  db : Db schema labelling
  represents : Represents db table

/-- Any table can be kept, when its rows can be packed. -/
def Stored.ofTable (table : Table schema.primaryKey) (short : ∀ row ∈ table.rows, packSize row < 2 ^ 31)
    (numbers : labelling.State) : Stored schema labelling where
  table := table
  db := ⟨⟨table.image record record_primary, numbers⟩, fun i => ⟨table.image (entry i) (entry_primary i), numbers⟩⟩
  represents := ⟨rfl, fun _ => rfl, short⟩

/-- The action of `receiver` starts, with a fresh object for the table of `code`. -/
def Machine.start (db : Db schema labelling) (receiver code : Name) : Machine schema labelling where
  world := db.object receiver code
  iterators _ := none

def View.start (table : Table schema.primaryKey) (own : Bool) : View schema where
  table := table
  next := MultiIndex.unsetNextPrimaryKey
  own := own
  cursors _ := .finish

theorem Related.start {db : Db schema labelling} {table : Table schema.primaryKey} (represents : Represents db table)
    (receiver code : Name) : Related (View.start table (code = receiver)) (Machine.start db receiver code) where
  coherent := represents.object receiver code
  next := rfl
  own := decide_eq_true_iff.symm
  cursors _ := rfl

theorem Related.run {view : View schema} {machine : Machine schema labelling} (related : Related view machine)
    (client : Client (Command schema) Command.Output α) :
    Matches .undefined (fun view machine => Represents machine.world.db view.table)
      ((client.run View.step).run view) ((client.run Machine.step).run machine) :=
  (client.refines step_refines view machine related).weaken fun _ _ held => held.coherent.toRepresents

/-- A program on a `multi_index` object returns what it returns on the table, stops where it stops, and
leaves the host with the rows of the table. -/
theorem client_on_object (stored : Stored schema labelling) (receiver code : Name)
    (client : Client (Command schema) Command.Output α) :
    Matches .undefined (fun view machine => Represents machine.world.db view.table)
      ((client.run View.step).run (View.start stored.table (code = receiver)))
      ((client.run Machine.step).run (Machine.start stored.db receiver code)) :=
  (Related.start stored.represents receiver code).run client

/-! What a command can do to the table. -/

/-- The table and the next free key after a command. -/
inductive View.Effect (view later : View schema) : Prop where
  | walked (table : later.table = view.table) (next : later.next = view.next)
  | constructed (table : later.table = view.table) (next : later.next = MultiIndex.unsetNextPrimaryKey)
  | granted (table : later.table = view.table)
      (next : MultiIndex.availablePrimaryKey view.next view.table = .ok later.next)
  | written (own : view.own = true) (row : schema.Row) (table : later.table = view.table.put row)
      (next : later.next = View.pass view.next (schema.primaryKey row))
  | erased (own : view.own = true) (row : schema.Row) (table : later.table = view.table.erase (schema.primaryKey row))
      (next : later.next = view.next)

theorem View.owned_eq_ok {view : View schema} {message : String} {done : Unit} :
    view.owned message = .ok done ↔ view.own = true := by
  rw [View.owned]
  split
  · rename_i own
    exact iff_of_true rfl own
  · rename_i foreign
    exact iff_of_false (fun same => by cases same) foreign

theorem View.lift_eq_ok {outcome : Except Abort α} {value : α} :
    View.lift outcome = .ok value ↔ outcome = .ok value := by
  cases outcome <;> simp [View.lift, Except.mapError]

theorem View.remove_effect {view later : View schema} {row : schema.Row} (removed : view.remove row = .ok later) :
    View.Effect view later ∧ later.own = view.own := by
  obtain ⟨_, owned, rest⟩ := bind_eq_ok.mp removed
  obtain ⟨⟨itr, table⟩, erased, same⟩ := bind_eq_ok.mp rest
  obtain ⟨_, rows⟩ := MultiIndex.erase_some.mp (View.lift_eq_ok.mp erased)
  obtain ⟨rfl, rfl⟩ := Prod.mk.inj rows
  obtain rfl := Except.ok.inj same
  exact ⟨.erased (View.owned_eq_ok.mp owned) row rfl rfl, rfl⟩

/-- Where the cursors are does not matter. -/
theorem View.Effect.placed {view later : View schema} (effect : View.Effect view later) {itr : Nat}
    {row? : Option schema.Row} : View.Effect view (later.place itr row?) := by
  cases effect with
  | walked table next => exact .walked table next
  | constructed table next => exact .constructed table next
  | granted table next => exact .granted table next
  | written own row table next => exact .written own row table next
  | erased own row table next => exact .erased own row table next

theorem View.step_effect {view later : View schema} {command : Command schema} {output : command.Output}
    (stepped : (View.step command).run view = .ok (output, later)) :
    View.Effect view later ∧ later.own = view.own := by
  cases command with
  | construct =>
    obtain ⟨_, rfl⟩ := Prod.mk.inj (Except.ok.inj stepped)
    exact ⟨.constructed rfl rfl, rfl⟩
  | assign itr other | finish itr | find itr target | lowerBound itr target | upperBound itr target =>
    obtain ⟨_, rfl⟩ := Prod.mk.inj (Except.ok.inj stepped)
    exact ⟨.walked rfl rfl, rfl⟩
  | requireFind itr target errorMsg | get target errorMsg =>
    obtain ⟨_, _, same⟩ := bind_eq_ok.mp stepped
    obtain ⟨_, rfl⟩ := Prod.mk.inj (Except.ok.inj same)
    exact ⟨.walked rfl rfl, rfl⟩
  | increment itr path | decrement itr path | read itr | equal itr other =>
    obtain ⟨_, _, rest⟩ := bind_eq_ok.mp stepped
    obtain ⟨_, _, same⟩ := bind_eq_ok.mp rest
    obtain ⟨_, rfl⟩ := Prod.mk.inj (Except.ok.inj same)
    exact ⟨.walked rfl rfl, rfl⟩
  | availablePrimaryKey =>
    obtain ⟨key, granted, same⟩ := bind_eq_ok.mp stepped
    obtain ⟨_, rfl⟩ := Prod.mk.inj (Except.ok.inj same)
    exact ⟨.granted rfl (View.lift_eq_ok.mp granted), rfl⟩
  | emplace itr fresh constructor =>
    obtain ⟨_, owned, rest⟩ := bind_eq_ok.mp stepped
    obtain ⟨_, _, rest⟩ := bind_eq_ok.mp rest
    obtain ⟨table, stored, same⟩ := bind_eq_ok.mp rest
    obtain ⟨_, rfl⟩ := MultiIndex.emplace_eq_ok.mp (View.lift_eq_ok.mp stored)
    obtain ⟨_, rfl⟩ := Prod.mk.inj (Except.ok.inj same)
    exact ⟨.written (View.owned_eq_ok.mp owned) (constructor fresh) rfl rfl, rfl⟩
  | modify itr updater =>
    obtain ⟨row?, _, rest⟩ := bind_eq_ok.mp stepped
    cases row? with
    | none => cases rest
    | some row =>
      obtain ⟨_, owned, rest⟩ := bind_eq_ok.mp rest
      obtain ⟨table, updated, rest⟩ := bind_eq_ok.mp rest
      obtain ⟨_, _, same⟩ := bind_eq_ok.mp rest
      obtain ⟨kept, _, rfl⟩ := MultiIndex.modify_some.mp (View.lift_eq_ok.mp updated)
      obtain ⟨_, rfl⟩ := Prod.mk.inj (Except.ok.inj same)
      exact ⟨.written (View.owned_eq_ok.mp owned) (updater row) rfl (by rw [kept]), rfl⟩
  | erase itr path =>
    obtain ⟨row?, _, rest⟩ := bind_eq_ok.mp stepped
    cases row? with
    | none => cases rest
    | some row =>
      obtain ⟨later, removed, same⟩ := bind_eq_ok.mp rest
      obtain ⟨_, rfl⟩ := Prod.mk.inj (Except.ok.inj same)
      obtain ⟨effect, own⟩ := View.remove_effect removed
      exact ⟨effect.placed, own⟩
  | eraseObject itr =>
    obtain ⟨row?, _, rest⟩ := bind_eq_ok.mp stepped
    cases row? with
    | none => cases rest
    | some row =>
      obtain ⟨later, removed, same⟩ := bind_eq_ok.mp rest
      obtain ⟨_, rfl⟩ := Prod.mk.inj (Except.ok.inj same)
      exact View.remove_effect removed

/-! What holds on every run. -/

/-- The next free key is a tag, or above every key. -/
def View.Fresh (view : View schema) : Prop :=
  MultiIndex.noAvailablePrimaryKey ≤ view.next ∨ ∀ row ∈ view.table.rows, schema.primaryKey row < view.next

theorem View.Fresh.granted {view : View schema} {key : UInt64} (fresh : view.Fresh)
    (granted : MultiIndex.availablePrimaryKey view.next view.table = .ok key) :
    ∀ row ∈ view.table.rows, schema.primaryKey row < key := by
  obtain ⟨next, below⟩ := MultiIndex.availablePrimaryKey_eq_ok.mp granted
  by_cases unset : view.next = MultiIndex.unsetNextPrimaryKey
  · rw [unset] at granted
    exact fun row present => MultiIndex.lt_availablePrimaryKey granted present
  · rw [MultiIndex.nextPrimaryKey, if_neg unset] at next
    subst next
    exact fresh.resolve_left (not_le.mpr below)

theorem View.lt_pass {next pk : UInt64} (room : ¬ MultiIndex.noAvailablePrimaryKey ≤ View.pass next pk) :
    pk < View.pass next pk ∧ next ≤ View.pass next pk := by
  rw [View.pass] at room ⊢
  split
  · rename_i above
    rw [if_pos above] at room
    by_cases top : MultiIndex.noAvailablePrimaryKey ≤ pk
    · rw [if_pos top] at room
      exact absurd le_rfl room
    · rw [if_neg top]
      have grown : pk.toNat < (pk + 1).toNat := by
        rw [UInt64.le_iff_toNat_le] at top
        rw [UInt64.toNat_add]
        simp [MultiIndex.noAvailablePrimaryKey] at top ⊢
        omega
      exact ⟨UInt64.lt_iff_toNat_lt.mpr grown, above.trans (UInt64.le_iff_toNat_le.mpr grown.le)⟩
  · rename_i below
    exact ⟨not_le.mp below, le_rfl⟩

theorem View.Fresh.step {view later : View schema} (fresh : view.Fresh) (effect : View.Effect view later) :
    later.Fresh := by
  cases effect with
  | walked table next =>
    rw [View.Fresh, table, next]
    exact fresh
  | constructed table next =>
    rw [View.Fresh, next]
    exact .inl (by decide)
  | granted table next =>
    rw [View.Fresh, table]
    exact .inr (fresh.granted next)
  | written own row table next =>
    rw [View.Fresh, table, next]
    by_cases room : MultiIndex.noAvailablePrimaryKey ≤ View.pass view.next (schema.primaryKey row)
    · exact .inl room
    · obtain ⟨above, grown⟩ := View.lt_pass room
      refine .inr fun other present => ?_
      rcases Table.mem_put.mp present with rfl | ⟨old, _⟩
      · exact above
      · have lower := fresh.resolve_left fun tagged => room (tagged.trans grown)
        exact (lower other old).trans_le grown
  | erased own row table next =>
    rw [View.Fresh, table, next]
    exact fresh.imp id fun lower other present => lower other (Table.mem_erase.mp present).1

theorem View.start_fresh (table : Table schema.primaryKey) (own : Bool) : (View.start table own).Fresh := by
  refine .inl ?_
  change MultiIndex.noAvailablePrimaryKey ≤ MultiIndex.unsetNextPrimaryKey
  decide

/-- The key that `available_primary_key` returns is above every key of the table. -/
theorem available_on_object (stored : Stored schema labelling) (receiver code : Name)
    (client : Client (Command schema) Command.Output α) {key : UInt64} {view : View schema}
    (ran : ((client >>= fun _ => Client.ask Command.availablePrimaryKey).run View.step).run
      (View.start stored.table (code = receiver)) = .ok (key, view)) :
    ∃ machine, ((client >>= fun _ => Client.ask Command.availablePrimaryKey).run Machine.step).run
        (Machine.start stored.db receiver code) = .ok (key, machine) ∧
      ∀ row ∈ machine.world.db.primary.rows.rows, row.primary < key := by
  have matched := (Related.start stored.represents receiver code).run
      (client >>= fun _ => Client.ask Command.availablePrimaryKey)
  rw [ran] at matched
  obtain ⟨machine, answered, represents⟩ := matched.of_ok
  refine ⟨machine, answered, fun row member => ?_⟩
  rw [Client.run_bind] at ran
  obtain ⟨_, middle, walked, asked⟩ := run_bind_eq_ok.mp ran
  have kept : Keeps View.Fresh (client.run View.step) :=
    Client.keeps (fun command view _ later fresh stepped => fresh.step (View.step_effect stepped).1) client
  have fresh : middle.Fresh := kept _ _ _ (View.start_fresh _ _) walked
  rw [Client.run_ask] at asked
  obtain ⟨granted, allowed, same⟩ := bind_eq_ok.mp asked
  obtain ⟨rfl, rfl⟩ := Prod.mk.inj (Except.ok.inj same)
  rw [represents.records] at member
  obtain ⟨other, present, rfl⟩ := Table.mem_image.mp member
  exact fresh.granted (View.lift_eq_ok.mp allowed) other present

/-- Rows that are their own keys, in one index. -/
def keysOnly : Schema where
  Row := UInt64
  primaryKey := id
  indices := 1
  Secondary _ := UInt64
  extractSecondaryKey _ := id

/-- A host that has not handed out a number yet. -/
def noNumbers : (Labelling.counting UInt64).State := Given.none

def nothingStored : Stored keysOnly (Labelling.counting UInt64) :=
  .ofTable Table.empty (fun _ present => absurd present List.not_mem_nil) noNumbers

def storeFive : Client (Command keysOnly) Command.Output Unit :=
  Client.ask (Command.emplace 0 (0 : UInt64) fun _ => (5 : UInt64))

theorem available_after_five :
    ∃ machine, ((storeFive >>= fun _ => Client.ask Command.availablePrimaryKey).run Machine.step).run
        (Machine.start nothingStored.db ⟨1⟩ ⟨1⟩) = .ok (6, machine) ∧
      ∀ row ∈ machine.world.db.primary.rows.rows, row.primary < 6 :=
  available_on_object nothingStored ⟨1⟩ ⟨1⟩ storeFive rfl

/-- A contract cannot change the table of another one. -/
theorem foreign_on_object (stored : Stored schema labelling) {receiver code : Name} (foreign : code ≠ receiver)
    (client : Client (Command schema) Command.Output α) :
    Matches .undefined (fun _ machine => Represents machine.world.db stored.table)
      ((client.run View.step).run (View.start stored.table (code = receiver)))
      ((client.run Machine.step).run (Machine.start stored.db receiver code)) := by
  have matched := (Related.start stored.represents receiver code).run client
  have untouched : Keeps (fun view : View schema => view.own = false ∧ view.table = stored.table)
      (client.run View.step) := by
    refine Client.keeps (fun command view output later held stepped => ?_) client
    obtain ⟨foreign, same⟩ := held
    obtain ⟨effect, own⟩ := View.step_effect stepped
    refine ⟨own.trans foreign, ?_⟩
    cases effect with
    | walked table _ | constructed table _ | granted table _ => exact table.trans same
    | written own _ _ _ | erased own _ _ _ =>
      rw [foreign] at own
      cases own
  have known := matched.knowing fun value view ran =>
    untouched _ value view ⟨decide_eq_false foreign, rfl⟩ ran
  exact known.weaken fun view machine held => held.1.2 ▸ held.2

def threeAndEight : Stored keysOnly (Labelling.counting UInt64) :=
  .ofTable ⟨([3, 8] : List UInt64), (by decide : [(3 : UInt64), 8].Pairwise fun earlier later => earlier < later)⟩
    (by decide) noNumbers

/-- The first row from 4 on. -/
def readAboveFour : Client (Command keysOnly) Command.Output UInt64 := do
  Client.ask (Command.lowerBound 0 (.primary 4))
  Client.ask (Command.read 0)

/-- The other contract may read the rows and leaves them as they are, and it stops when it stores one. -/
theorem foreign_five :
    (∃ machine, (readAboveFour.run Machine.step).run (Machine.start threeAndEight.db ⟨1⟩ ⟨2⟩) =
        .ok ((8 : UInt64), machine) ∧
        Represents machine.world.db threeAndEight.table) ∧
      ((do let _ ← readAboveFour; storeFive).run Machine.step).run (Machine.start threeAndEight.db ⟨1⟩ ⟨2⟩) =
        fail "cannot create objects in table of another contract" := by
  constructor
  · have matched := foreign_on_object threeAndEight (by decide : Name.mk 2 ≠ Name.mk 1) readAboveFour
    exact matched.of_ok
  · have matched := foreign_on_object threeAndEight (by decide : Name.mk 2 ≠ Name.mk 1)
      (do let _ ← readAboveFour; storeFive)
    exact matched.of_error fun same => by cases same

end LocalChain.Inery
