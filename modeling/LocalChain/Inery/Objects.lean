import LocalChain.Inery.TableProgram

/-! Several `multi_index` objects at once, for several tables, some for the same table. -/
namespace LocalChain.Inery

open LocalChain.Store LocalChain.Refine
open TableObject (Represents)

variable {ι : Type} {schema : ι → Schema} {labelling : Labelling UInt64} {α : Type}

def Command.renews {schema : Schema} : Command schema → Bool
  | .construct => true
  | _ => false

/-- A call on one of the objects that a contract has for a table. -/
structure ObjectCall (schema : ι → Schema) where
  table : ι
  object : Nat
  command : Command (schema table)

abbrev ObjectCall.Output (call : ObjectCall schema) : Type := call.command.Output

/-! The objects of a contract. -/

/-- The tables of the host, and the objects of a contract with their iterators. -/
structure Objects (schema : ι → Schema) (labelling : Labelling UInt64) where
  tables : (table : ι) → Db (schema table) labelling
  machines : (table : ι) → Nat → Machine (schema table) labelling

/-- The object works on the table as the host has it by then. -/
def Machine.over {schema : Schema} (machine : Machine schema labelling) (db : Db schema labelling) :
    Machine schema labelling :=
  { machine with world := { machine.world with db } }

/-- An action of the contract starts. -/
def Objects.start (tables : (table : ι) → Db (schema table) labelling) (self : Name) : Objects schema labelling :=
  ⟨tables, fun table _ => .start (tables table) self self⟩

/-! What the objects are for. -/

/-- What an object remembers beside the rows it has loaded. -/
structure Standing where
  next : UInt64
  cursors : Nat → Cursor
  /-- The table has been written through another object. -/
  stale : Bool

structure Views (schema : ι → Schema) where
  tables : (table : ι) → Table (schema table).primaryKey
  standings : ι → Nat → Standing

namespace Views

def start (tables : (table : ι) → Table (schema table).primaryKey) : Views schema :=
  ⟨tables, fun _ _ => ⟨MultiIndex.unsetNextPrimaryKey, fun _ => .finish, false⟩⟩

/-- A table as one object has it. -/
def view (views : Views schema) (table : ι) (object : Nat) : View (schema table) where
  table := views.tables table
  next := (views.standings table object).next
  own := true
  cursors := (views.standings table object).cursors

def stale (views : Views schema) (table : ι) (object : Nat) : Bool := (views.standings table object).stale

/-- What a stale object does. The host refuses to store a key twice; nothing is known of the rest. -/
def refuse (views : Views schema) : ObjectCall schema → Fault
  | ⟨table, _, .emplace _ fresh constructor⟩ =>
    if packSize (constructor fresh) < 2 ^ 31 ∧
        ((views.tables table).find? ((schema table).primaryKey (constructor fresh))).isSome then .abort .duplicateKey
    else .undefined
  | _ => .undefined

end Views

/-! How the two belong together. -/

structure Attends (views : Views schema) (objects : Objects schema labelling) : Prop where
  represents : ∀ table, Represents (objects.tables table) (views.tables table)
  own : ∀ table object, (objects.machines table object).world.code = (objects.machines table object).world.receiver
  current : ∀ table object, views.stale table object = false →
    Related (views.view table object) ((objects.machines table object).over (objects.tables table))

theorem Attends.start {tables : (table : ι) → Table (schema table).primaryKey}
    {dbs : (table : ι) → Db (schema table) labelling} (represents : ∀ table, Represents (dbs table) (tables table))
    (self : Name) : Attends (Views.start tables) (Objects.start dbs self) where
  represents := represents
  own _ _ := rfl
  current table _ _ := by
    have related := Related.start (represents table) self self
    rwa [decide_eq_true rfl] at related

/-- Another object has the host number more rows. -/
theorem Related.beside {schema : Schema} {view : View schema} {machine : Machine schema labelling}
    {db : Db schema labelling} (related : Related view machine) (represents : Represents db view.table)
    (grown : machine.world.db.Extends db) : Related view (machine.over db) where
  coherent := {
    toRepresents := represents
    loaded := fun ptr member =>
      let loaded := related.coherent.loaded ptr member
      ⟨loaded.stored, loaded.shared, loaded.primaryItr.extends grown.primary,
        fun i known => (loaded.iters i known).extends (grown.secondary i)⟩
    keys := related.coherent.keys
    addresses := related.coherent.addresses
    allocated := related.coherent.allocated
  }
  next := related.next
  own := related.own
  cursors := related.cursors

/-! Calls. -/

variable [DecidableEq ι]

namespace Objects

def settle (objects : Objects schema labelling) (table : ι) (object : Nat) (machine : Machine (schema table) labelling) :
    Objects schema labelling where
  tables := Function.update objects.tables table machine.world.db
  machines := Function.update objects.machines table (Function.update (objects.machines table) object machine)

def step (call : ObjectCall schema) : StateT (Objects schema labelling) (Except Fault) call.Output := fun objects =>
  Prod.map id (objects.settle call.table call.object) <$>
    Machine.step call.command ((objects.machines call.table call.object).over (objects.tables call.table))

end Objects

namespace Views

/-- An object has worked on its table, and the others for the table miss what it has written. -/
def settle (views : Views schema) (table : ι) (object : Nat) (writes : Bool)
    (later : View (schema table)) : Views schema where
  tables := Function.update views.tables table later.table
  standings := Function.update views.standings table fun other =>
    if other = object then ⟨later.next, later.cursors, false⟩
    else { views.standings table other with stale := views.stale table other || writes }

def step (call : ObjectCall schema) : StateT (Views schema) (Except Fault) call.Output := fun views =>
  if views.stale call.table call.object && !call.command.renews then .error (views.refuse call)
  else Prod.map id (views.settle call.table call.object call.command.writes) <$>
    View.step call.command (views.view call.table call.object)

end Views

variable {views : Views schema} {objects : Objects schema labelling} {table : ι} {object : Nat} {writes : Bool}
  {later : View (schema table)}

theorem Views.step_current (current : views.stale table object = false) (command : Command (schema table)) :
    (Views.step ⟨table, object, command⟩).run views =
      Prod.map id (views.settle table object command.writes) <$> (View.step command).run (views.view table object) := by
  change (if views.stale table object && !command.renews then .error (views.refuse ⟨table, object, command⟩)
    else Prod.map id _ <$> (View.step command).run (views.view table object)) = _
  rw [current, Bool.false_and, if_neg Bool.false_ne_true]

theorem Views.step_stale (stale : views.stale table object = true) {command : Command (schema table)}
    (kept : command.renews = false) :
    (Views.step ⟨table, object, command⟩).run views = .error (views.refuse ⟨table, object, command⟩) := by
  change (if views.stale table object && !command.renews then .error (views.refuse ⟨table, object, command⟩)
    else Prod.map id _ <$> (View.step command).run (views.view table object)) = _
  rw [stale, kept, Bool.not_false, Bool.and_true, if_pos rfl]

theorem Views.view_settle (own : later.own = true) :
    (views.settle table object writes later).view table object = later := by
  obtain ⟨rows, next, _, cursors⟩ := later
  obtain rfl := own
  simp [Views.view, Views.settle]

theorem Views.stale_settle : (views.settle table object writes later).stale table object = false := by
  simp [Views.stale, Views.settle]

/-- The object works on. -/
theorem Views.settle_settle (first : View (schema table)) (more : Bool) (second : View (schema table)) :
    (views.settle table object writes first).settle table object more second =
      views.settle table object (writes || more) second := by
  rw [Views.settle, Views.settle, Views.settle, Function.update_idem, Function.update_idem]
  refine congrArg (fun standing => Views.mk _ (Function.update views.standings table standing)) (funext fun other => ?_)
  by_cases same : other = object <;> simp [same, Views.stale, Bool.or_assoc]

theorem Views.settle_view (current : views.stale table object = false) :
    views.settle table object false (views.view table object) = views := by
  obtain ⟨tables, standings⟩ := views
  refine congrArg₂ Views.mk (Function.update_eq_self ..) ?_
  refine (congrArg (Function.update standings table) (funext fun other => ?_)).trans (Function.update_eq_self ..)
  by_cases same : other = object
  · subst same
    rw [if_pos rfl, ← current]
    rfl
  · rw [if_neg same, Bool.or_false]
    rfl

theorem Views.view_settle_apart {other : ι} (apart : other ≠ table) (place : Nat) :
    (views.settle table object writes later).view other place = views.view other place := by
  simp [Views.view, Views.settle, apart]

theorem Views.stale_settle_apart {other : ι} (apart : other ≠ table) (place : Nat) :
    (views.settle table object writes later).stale other place = views.stale other place := by
  simp [Views.stale, Views.settle, apart]

/-- The other objects for the table. -/
theorem Views.view_settle_beside {place : Nat} (beside : place ≠ object) (same : later.table = views.tables table) :
    (views.settle table object writes later).view table place = views.view table place := by
  simp [Views.view, Views.settle, beside, same]

theorem Views.stale_settle_beside {place : Nat} (beside : place ≠ object) :
    (views.settle table object writes later).stale table place = (views.stale table place || writes) := by
  simp [Views.stale, Views.settle, beside]

/-- An object has worked, and the others for its table either are stale or have missed nothing. -/
theorem Attends.settle (attends : Attends views objects) {machine : Machine (schema table) labelling}
    (related : Related later machine) (own : later.own = true)
    (missed : writes = false → later.table = views.tables table ∧ (objects.tables table).Extends machine.world.db) :
    Attends (views.settle table object writes later) (objects.settle table object machine) where
  represents other := by
    obtain rfl | apart := eq_or_ne other table
    · simpa [Views.settle, Objects.settle] using related.coherent.toRepresents
    · simpa [Views.settle, Objects.settle, apart] using attends.represents other
  own other place := by
    obtain rfl | apart := eq_or_ne other table
    · obtain rfl | beside := eq_or_ne place object
      · simpa [Objects.settle] using related.own.mpr own
      · simpa [Objects.settle, beside] using attends.own other place
    · simpa [Objects.settle, apart] using attends.own other place
  current other place current := by
    obtain rfl | apart := eq_or_ne other table
    · obtain rfl | beside := eq_or_ne place object
      · rw [Views.view_settle own]
        simp only [Objects.settle, Function.update_self]
        exact related
      · rw [Views.stale_settle_beside beside, Bool.or_eq_false_iff] at current
        obtain ⟨same, grown⟩ := missed current.2
        have represents : Represents machine.world.db (views.tables other) := same ▸ related.coherent.toRepresents
        rw [Views.view_settle_beside beside same]
        simp only [Objects.settle, Function.update_self, Function.update_of_ne beside]
        exact (attends.current other place current.1).beside represents grown
    · rw [Views.view_settle_apart apart]
      rw [Views.stale_settle_apart apart] at current
      simp only [Objects.settle, Function.update_of_ne apart]
      exact attends.current other place current

/-- What an object does that has missed something. -/
theorem Attends.refused (attends : Attends views objects) (call : ObjectCall schema) :
    Matches .undefined Attends (.error (views.refuse call)) ((Objects.step call).run objects) := by
  obtain ⟨table, object, command⟩ := call
  cases command with
  | emplace itr fresh constructor =>
    rw [Views.refuse]
    split
    · rename_i held
      let machine := (objects.machines table object).over (objects.tables table)
      have represents : Represents machine.world.db (views.tables table) := attends.represents table
      have refused := represents.emplace_taken (attends.own table object) held.1 held.2
      have stopped : (Machine.step (.emplace itr fresh constructor)).run machine = .error (.abort .duplicateKey) :=
        Machine.run_keep_error refused
      change Matches _ _ _ (Prod.map id _ <$> (Machine.step (.emplace itr fresh constructor)).run machine)
      rw [stopped]
      exact .fails _
    · exact .free _
  | _ => exact .free _

/-- What an object does that has missed nothing. -/
theorem Attends.follows (attends : Attends views objects) (current : views.stale table object = false)
    (command : Command (schema table)) :
    Matches .undefined Attends
      (Prod.map id (views.settle table object command.writes) <$> (View.step command).run (views.view table object))
      ((Objects.step ⟨table, object, command⟩).run objects) := by
  have related := attends.current table object current
  have followed : Matches .undefined (fun later machine => Related later machine ∧ (command.writes = false →
      later.table = views.tables table ∧ (objects.tables table).Extends machine.world.db))
      ((View.step command).run (views.view table object))
      ((Machine.step command).run ((objects.machines table object).over (objects.tables table))) := by
    cases written : command.writes with
    | false =>
      exact (step_walks command written related).weaken fun _ _ walks =>
        ⟨walks.toRelated, fun _ => ⟨walks.table, walks.grown⟩⟩
    | true => exact (Inery.step_refines command _ _ related).weaken fun _ _ related => ⟨related, nofun⟩
  have known := followed.knowing fun output later stepped => (View.step_effect stepped).2
  exact known.project id fun later machine held => attends.settle held.2.1 held.1 held.2.2

theorem Views.step_refines (call : ObjectCall schema) :
    Refines .undefined (Attends : Views schema → Objects schema labelling → Prop)
      (Views.step call) (Objects.step call) := by
  intro views objects attends
  obtain ⟨table, object, command⟩ := call
  cases missed : views.stale table object with
  | false =>
    rw [Views.step_current missed]
    exact attends.follows missed command
  | true =>
    cases renewed : command.renews with
    | false =>
      rw [Views.step_stale missed renewed]
      exact attends.refused _
    | true =>
      cases command with
      | construct =>
        change Matches _ _ (if _ && !true then _ else _) _
        rw [Bool.not_true, Bool.and_false, if_neg Bool.false_ne_true]
        have own := iff_of_true (attends.own table object) (rfl : (views.view table object).own = true)
        exact .answers _ (attends.settle (.construct (attends.represents table) own) rfl fun _ => ⟨rfl, .refl _⟩)
      | _ => cases renewed

end LocalChain.Inery
