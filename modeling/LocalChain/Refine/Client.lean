import LocalChain.Refine.Run

/-! Components that answer commands, the programs that use them, and what such a program can tell. -/
namespace LocalChain.Refine

/-- A program that goes on with what a component answers. The command tells the type of the answer. -/
inductive Client (κ : Type) (ω : κ → Type) (α : Type) where
  | done (value : α)
  | call (command : κ) (next : ω command → Client κ ω α)

variable {κ ε σ τ α β : Type} {ω : κ → Type}

def Client.bind (client : Client κ ω α) (following : α → Client κ ω β) : Client κ ω β :=
  match client with
  | done value => following value
  | call command next => call command fun answer => (next answer).bind following

instance : Monad (Client κ ω) where
  pure := .done
  bind := Client.bind

/-- Ask for one answer. -/
def Client.ask (command : κ) : Client κ ω (ω command) := .call command .done

/-- Run a program on a component. -/
def Client.run (step : (command : κ) → StateT σ (Except ε) (ω command)) : Client κ ω α → StateT σ (Except ε) α
  | done value => pure value
  | call command next => do
    let answer ← step command
    (next answer).run step

/-- A program for a part of a component. -/
def Client.embed {κ' : Type} {ω' : κ' → Type} (into : κ → κ') :
    Client κ (fun command => ω' (into command)) α → Client κ' ω' α
  | done value => done value
  | call command next => call (into command) fun answer => (next answer).embed into

/-- The program gives such commands only. -/
def Client.Only (allowed : κ → Prop) : Client κ ω α → Prop
  | done _ => True
  | call command next => allowed command ∧ ∀ answer, (next answer).Only allowed

/-- Any program does, when all commands are allowed. -/
theorem Client.Only.all {allowed : κ → Prop} (every : ∀ command, allowed command) (client : Client κ ω α) :
    client.Only allowed := by
  induction client with
  | done value => trivial
  | call command next ih => exact ⟨every command, ih⟩

variable {step : (command : κ) → StateT σ (Except ε) (ω command)}
  {codeStep : (command : κ) → StateT τ (Except ε) (ω command)} {related : σ → τ → Prop} {undefined : ε}
  {good : σ → Prop} {state later : σ} {world : τ}

theorem Client.run_ask (command : κ) : (Client.ask command : Client κ ω (ω command)).run step = step command := by
  funext state
  change (step command >>= fun answer => pure answer) state = _
  rw [bind_pure]

theorem Client.run_bind (client : Client κ ω α) (following : α → Client κ ω β) :
    (client >>= following).run step = client.run step >>= fun value => (following value).run step := by
  induction client with
  | done value => exact (pure_bind value fun value => (following value).run step).symm
  | call command next ih =>
    change (step command >>= fun answer => (next answer >>= following).run step) =
      (step command >>= fun answer => (next answer).run step) >>= _
    rw [bind_assoc]
    exact congrArg (step command >>= ·) (funext ih)

/-! What holds after every step holds after every run. -/

def Keeps (good : σ → Prop) (program : StateT σ (Except ε) α) : Prop :=
  ∀ state value later, good state → program.run state = .ok (value, later) → good later

theorem Client.keeps (kept : ∀ command, Keeps good (step command)) (client : Client κ ω α) :
    Keeps good (client.run step) := by
  induction client with
  | done value =>
    intro state result later held ran
    obtain ⟨_, rfl⟩ := Prod.mk.inj (Except.ok.inj ran)
    exact held
  | call command next ih =>
    intro state result later held ran
    cases stepped : (step command).run state with
    | error fault =>
      rw [Client.run, run_bind_error stepped] at ran
      cases ran
    | ok outcome =>
      rw [Client.run, run_bind_ok stepped] at ran
      exact ih _ _ _ _ (kept command state _ _ held stepped) ran

/-! Refinement. -/

/-- How a run of the code compares with the run of its specification. What the specification leaves
undefined may end in any way. -/
inductive Matches (undefined : ε) (related : σ → τ → Prop) :
    Except ε (α × σ) → Except ε (α × τ) → Prop where
  | free (outcome : Except ε (α × τ)) : Matches undefined related (.error undefined) outcome
  | fails (fault : ε) : Matches undefined related (.error fault) (.error fault)
  | answers (value : α) {state : σ} {world : τ} (held : related state world) :
      Matches undefined related (.ok (value, state)) (.ok (value, world))

theorem Matches.of_ok {value : α} {result : Except ε (α × τ)}
    (matched : Matches undefined related (.ok (value, state)) result) :
    ∃ world, result = .ok (value, world) ∧ related state world := by
  cases matched with
  | answers _ held => exact ⟨_, rfl, held⟩

theorem Matches.of_error {fault : ε} {result : Except ε (α × τ)} (matched : Matches undefined related (.error fault) result)
    (defined : fault ≠ undefined) : result = .error fault := by
  cases matched with
  | free => exact absurd rfl defined
  | fails => rfl

theorem Matches.weaken {weaker : σ → τ → Prop} {outcome : Except ε (α × σ)} {result : Except ε (α × τ)}
    (matched : Matches undefined related outcome result)
    (implied : ∀ state world, related state world → weaker state world) :
    Matches undefined weaker outcome result := by
  cases matched with
  | free => exact .free _
  | fails fault => exact .fails fault
  | answers value held => exact .answers value (implied _ _ held)

theorem Matches.trans {υ : Type} {further : τ → υ → Prop} {outcome : Except ε (α × σ)} {middle : Except ε (α × τ)}
    {result : Except ε (α × υ)} (first : Matches undefined related outcome middle)
    (second : Matches undefined further middle result) :
    Matches undefined (fun state last => ∃ world, related state world ∧ further world last) outcome result := by
  cases first with
  | free => exact .free _
  | fails fault =>
    cases second with
    | free => exact .free _
    | fails => exact .fails fault
  | answers value held =>
    cases second with
    | answers _ also => exact .answers value ⟨_, held, also⟩

/-- Seen from outside, where less of the values and states shows. -/
theorem Matches.project {σ' τ' : Type} {shown : σ' → τ' → Prop} {outcome : Except ε (α × σ)} {result : Except ε (α × τ)}
    (matched : Matches undefined related outcome result) (e : α → β) {f : σ → σ'} {g : τ → τ'}
    (implied : ∀ state world, related state world → shown (f state) (g world)) :
    Matches undefined shown (Prod.map e f <$> outcome) (Prod.map e g <$> result) := by
  cases matched with
  | free => exact .free _
  | fails fault => exact .fails fault
  | answers value held => exact .answers (e value) (implied _ _ held)

/-- What is known of the specification's run besides. -/
theorem Matches.knowing {outcome : Except ε (α × σ)} {result : Except ε (α × τ)}
    (matched : Matches undefined related outcome result)
    (known : ∀ value state, outcome = .ok (value, state) → good state) :
    Matches undefined (fun state world => good state ∧ related state world) outcome result := by
  cases matched with
  | free => exact .free _
  | fails fault => exact .fails fault
  | answers value held => exact .answers value ⟨known _ _ rfl, held⟩

def Refines (undefined : ε) (related : σ → τ → Prop) (program : StateT σ (Except ε) α)
    (code : StateT τ (Except ε) α) : Prop :=
  ∀ state world, related state world → Matches undefined related (program.run state) (code.run world)

theorem Refines.pure (value : α) : Refines undefined related (pure value) (pure value) :=
  fun _ _ held => .answers value held

theorem Refines.bind {program : StateT σ (Except ε) α} {code : StateT τ (Except ε) α}
    {next : α → StateT σ (Except ε) β} {codeNext : α → StateT τ (Except ε) β}
    (first : Refines undefined related program code)
    (following : ∀ value, Refines undefined related (next value) (codeNext value)) :
    Refines undefined related (program >>= next) (code >>= codeNext) := by
  intro state world held
  have compared := first state world held
  cases ran : program.run state with
  | error fault =>
    rw [run_bind_error ran]
    rw [ran] at compared
    cases compared' : code.run world with
    | error other =>
      rw [run_bind_error compared']
      rw [compared'] at compared
      cases compared with
      | free => exact .free _
      | fails => exact .fails _
    | ok outcome =>
      rw [compared'] at compared
      cases compared
      exact .free _
  | ok outcome =>
    rw [run_bind_ok ran]
    rw [ran] at compared
    generalize answered : code.run world = result at compared
    cases compared with
    | answers value later =>
      rw [run_bind_ok answered]
      exact following value _ _ later

/-- A program cannot tell a component from its specification, when no single command can. -/
theorem Client.refines (each : ∀ command, Refines undefined related (step command) (codeStep command))
    (client : Client κ ω α) : Refines undefined related (client.run step) (client.run codeStep) := by
  induction client with
  | done value => exact .pure value
  | call command next ih => exact .bind (each command) ih

theorem Client.embed_refines {κ' : Type} {ω' : κ' → Type} {into : κ → κ'} {allowed : κ → Prop}
    {partStep : (command : κ) → StateT σ (Except ε) (ω' (into command))}
    {wholeStep : (command : κ') → StateT τ (Except ε) (ω' command)} {client : Client κ (fun command => ω' (into command)) α}
    (only : client.Only allowed)
    (each : ∀ command, allowed command → Refines undefined related (partStep command) (wholeStep (into command))) :
    Refines undefined related (client.run partStep) ((client.embed into).run wholeStep) := by
  induction client with
  | done value => exact .pure value
  | call command next ih => exact .bind (each command only.1) fun answer => ih answer (only.2 answer)

end LocalChain.Refine
