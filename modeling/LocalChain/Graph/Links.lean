import Mathlib.Logic.Basic

namespace LocalChain.Graph

/-- Half-edges between accounts: what `links a s` holds is the account that `a` is linked to under
label `s`. Nothing ties the two halves of an edge together. -/
abbrev Links (α κ : Type) := α → κ → Option α

namespace Links

variable {α κ : Type} [DecidableEq α] [DecidableEq κ]

def join (links : Links α κ) (a b : α) (s : κ) : Links α κ := fun x t =>
  if x = a ∧ t = s then some b else if x = b ∧ t = s then some a else links x t

def drop (links : Links α κ) (a : α) (s : κ) : Links α κ := fun x t =>
  if x = a ∧ t = s then none else links x t

def clear (links : Links α κ) (a : α) : Links α κ := fun x t =>
  if x = a then none else links x t

/-- Clear an account and whatever the accounts it is linked to hold under the same labels. -/
def cascade (links : Links α κ) (a : α) : Links α κ := fun x t =>
  if x = a ∨ links a t = some x then none else links x t

/-- Every half-edge of the first graph is one of the second. -/
def Sub (smaller larger : Links α κ) : Prop :=
  ∀ a s b, smaller a s = some b → larger a s = some b

def Irreflexive (links : Links α κ) : Prop := ∀ a s, links a s ≠ some a

/-- Both halves of every edge are there, and no account is linked to itself. -/
def Mirrored (links : Links α κ) : Prop :=
  ∀ a s b, links a s = some b → b ≠ a ∧ links b s = some a

/-- No account is linked to another twice. -/
def Simple (links : Links α κ) : Prop :=
  ∀ a s t b, links a s = some b → links a t = some b → s = t

/-- Where two accounts are linked both ways, the labels agree. -/
def Twinned (links : Links α κ) : Prop :=
  ∀ a b s t, links a s = some b → links b t = some a → s = t

/-- The two ways to read one pair. -/
def SamePair (a b c d : α) : Prop := a = c ∧ b = d ∨ a = d ∧ b = c

/-- A label belongs to one pair of accounts. -/
def Unshared (links : Links α κ) : Prop :=
  ∀ a b c d s, links a s = some b → links c s = some d → SamePair a b c d

/-- No account holds a label outside the given set. -/
def Within (links : Links α κ) (labels : κ → Prop) : Prop :=
  ∀ a s b, links a s = some b → labels s

/-- Some account holds the label. -/
def Used (links : Links α κ) (s : κ) : Prop := ∃ a b, links a s = some b

/-- The steps that a graph of half-edges can take. -/
inductive Move (α κ : Type) where
  | join (a b : α) (s : κ)
  | cut (a b : α) (s : κ)
  | clear (a : α)
  | cascade (a : α)
  | drop (a : α) (s : κ)
  | keep

def Move.apply (links : Links α κ) : Move α κ → Links α κ
  | .join a b s => links.join a b s
  | .cut a b s => (links.drop a s).drop b s
  | .clear a => links.clear a
  | .cascade a => links.cascade a
  | .drop a s => links.drop a s
  | .keep => links

/-- A join overwrites nothing and links two accounts; a cut follows an edge. -/
def Move.Legal (links : Links α κ) : Move α κ → Prop
  | .join a b s => a ≠ b ∧ links a s = none ∧ links b s = none
  | .cut a b s => links a s = some b
  | _ => True

/-- The moves that treat the two halves of an edge alike. -/
def Move.TwoSided : Move α κ → Prop
  | .clear _ => False
  | .drop _ _ => False
  | _ => True

/-- The joined accounts are not linked yet. -/
def Move.Unlinked (links : Links α κ) : Move α κ → Prop
  | .join a b _ => (∀ t, links a t ≠ some b) ∧ ∀ t, links b t ≠ some a
  | _ => True

/-- The label of a join is outside the given set. -/
def Move.Fresh (labels : κ → Prop) : Move α κ → Prop
  | .join _ _ s => ¬ labels s
  | _ => True

variable {links smaller : Links α κ} {a b c d x y : α} {s t : κ} {move : Move α κ}

omit [DecidableEq α] in
theorem SamePair.symm (same : SamePair a b c d) : SamePair c d a b :=
  same.imp (fun pair => ⟨pair.1.symm, pair.2.symm⟩) fun pair => ⟨pair.2.symm, pair.1.symm⟩

omit [DecidableEq α] in
theorem SamePair.flip (same : SamePair a b c d) : SamePair b a c d :=
  same.symm.elim (fun pair => .inr ⟨pair.2.symm, pair.1.symm⟩) fun pair => .inl ⟨pair.1.symm, pair.2.symm⟩

omit [DecidableEq α] in
theorem SamePair.trans (first : SamePair a b c d) (second : SamePair c d x y) : SamePair a b x y := by
  rcases first with ⟨rfl, rfl⟩ | ⟨rfl, rfl⟩
  · exact second
  · exact second.flip

theorem drop_eq_some : links.drop a s x t = some y ↔ ¬ (x = a ∧ t = s) ∧ links x t = some y := by
  by_cases hit : x = a ∧ t = s <;> simp [drop, hit]

theorem drop_sub (links : Links α κ) (a : α) (s : κ) : Sub (links.drop a s) links :=
  fun _ _ _ held => (drop_eq_some.mp held).2

omit [DecidableEq κ] in
theorem clear_sub (links : Links α κ) (a : α) : Sub (links.clear a) links := by
  intro x t y held
  unfold clear at held
  split at held
  · cases held
  · exact held

omit [DecidableEq κ] in
theorem cascade_sub (links : Links α κ) (a : α) : Sub (links.cascade a) links := by
  intro x t y held
  unfold cascade at held
  split at held
  · cases held
  · exact held

/-- A half-edge after a join is one of the two new ones or an old one. -/
theorem join_cases (held : links.join a b s x t = some y) :
    t = s ∧ SamePair x y a b ∨ links x t = some y := by
  unfold join at held
  split at held
  · rename_i hit
    exact .inl ⟨hit.2, .inl ⟨hit.1, (Option.some.inj held).symm⟩⟩
  · split at held
    · rename_i hit
      exact .inl ⟨hit.2, .inr ⟨hit.1, (Option.some.inj held).symm⟩⟩
    · exact .inr held

/-- A join overwrites nothing. -/
theorem join_old (freeFirst : links a s = none) (freeSecond : links b s = none)
    (held : links x t = some y) : links.join a b s x t = some y := by
  have first : ¬ (x = a ∧ t = s) := by
    rintro ⟨rfl, rfl⟩
    rw [freeFirst] at held
    cases held
  have second : ¬ (x = b ∧ t = s) := by
    rintro ⟨rfl, rfl⟩
    rw [freeSecond] at held
    cases held
  rw [join, if_neg first, if_neg second, held]

/-- Only a join adds half-edges. -/
theorem Move.apply_cases (held : move.apply links x t = some y) :
    (∃ a b, move = .join a b t ∧ SamePair x y a b) ∨ links x t = some y := by
  cases move with
  | join a b s =>
    rcases join_cases held with ⟨rfl, pair⟩ | old
    · exact .inl ⟨a, b, rfl, pair⟩
    · exact .inr old
  | cut a b s => exact .inr (drop_sub links a s x t y (drop_sub _ b s x t y held))
  | clear a => exact .inr (clear_sub links a x t y held)
  | cascade a => exact .inr (cascade_sub links a x t y held)
  | drop a s => exact .inr (drop_sub links a s x t y held)
  | keep => exact .inr held

theorem Irreflexive.apply (irreflexive : Irreflexive links) (legal : move.Legal links) :
    Irreflexive (move.apply links) := by
  intro x t held
  rcases Move.apply_cases held with ⟨a, b, rfl, pair⟩ | old
  · rcases pair with ⟨first, second⟩ | ⟨first, second⟩
    · exact legal.1 (first.symm.trans second)
    · exact legal.1 (second.symm.trans first)
  · exact irreflexive x t old

omit [DecidableEq α] [DecidableEq κ] in
/-- A mirrored graph may be read from either end of an edge. -/
theorem Mirrored.flip (mirrored : Mirrored links) : links a s = some b ↔ links b s = some a :=
  ⟨fun edge => (mirrored a s b edge).2, fun edge => (mirrored b s a edge).2⟩

private theorem Mirrored.join (mirrored : Mirrored links) (distinct : a ≠ b)
    (freeFirst : links a s = none) (freeSecond : links b s = none) :
    Mirrored (links.join a b s) := by
  intro x t y held
  rcases join_cases held with ⟨rfl, ⟨rfl, rfl⟩ | ⟨rfl, rfl⟩⟩ | old
  · exact ⟨distinct.symm, by simp [Links.join, distinct.symm]⟩
  · exact ⟨distinct, by simp [Links.join]⟩
  · obtain ⟨apart, back⟩ := mirrored x t y old
    exact ⟨apart, join_old freeFirst freeSecond back⟩

/-- Cutting an edge takes both its halves and, an account holding a label once, no other. -/
private theorem Mirrored.cut (mirrored : Mirrored links) (edge : links a s = some b) :
    Mirrored ((links.drop a s).drop b s) := by
  intro x t y held
  obtain ⟨second, kept⟩ := drop_eq_some.mp held
  obtain ⟨first, old⟩ := drop_eq_some.mp kept
  obtain ⟨apart, back⟩ := mirrored x t y old
  refine ⟨apart, drop_eq_some.mpr ⟨?_, drop_eq_some.mpr ⟨?_, back⟩⟩⟩
  · rintro ⟨rfl, rfl⟩
    have other := (mirrored a t y edge).2
    exact first ⟨Option.some.inj (back.symm.trans other), rfl⟩
  · rintro ⟨rfl, rfl⟩
    exact second ⟨Option.some.inj (back.symm.trans edge), rfl⟩

omit [DecidableEq κ] in
private theorem Mirrored.cascade (mirrored : Mirrored links) (a : α) :
    Mirrored (links.cascade a) := by
  intro x t y held
  have old := cascade_sub links a x t y held
  have spared : ¬ (x = a ∨ links a t = some x) := by
    intro reached
    simp [Links.cascade, reached] at held
  obtain ⟨apart, back⟩ := mirrored x t y old
  refine ⟨apart, ?_⟩
  have untouched : ¬ (y = a ∨ links a t = some y) := by
    rintro (rfl | reached)
    · exact spared (.inr back)
    · have other := (mirrored a t y reached).2
      exact spared (.inl (Option.some.inj (back.symm.trans other)))
  rw [Links.cascade, if_neg untouched, back]

theorem Mirrored.apply (mirrored : Mirrored links) (legal : move.Legal links)
    (twoSided : move.TwoSided) : Mirrored (move.apply links) := by
  cases move with
  | join a b s => exact mirrored.join legal.1 legal.2.1 legal.2.2
  | cut a b s => exact mirrored.cut legal
  | cascade a => exact mirrored.cascade a
  | keep => exact mirrored
  | clear a => exact twoSided.elim
  | drop a s => exact twoSided.elim

omit [DecidableEq α] [DecidableEq κ] in
theorem Move.Unlinked.apart (unlinked : (Move.join a b s).Unlinked links) (ends : SamePair x y a b)
    (t : κ) : links x t ≠ some y := by
  rcases ends with ⟨rfl, rfl⟩ | ⟨rfl, rfl⟩
  · exact unlinked.1 t
  · exact unlinked.2 t

/-- After a move that joins no linked accounts, half-edges of one pair carry one label or are both old. -/
theorem Move.apply_pair {u : κ} (unlinked : move.Unlinked links) (pair : SamePair c d x y)
    (first : move.apply links x t = some y) (second : move.apply links c u = some d) :
    t = u ∨ links x t = some y ∧ links c u = some d := by
  rcases Move.apply_cases first with ⟨a, b, rfl, ends⟩ | old
  · rcases Move.apply_cases second with ⟨_, _, same, _⟩ | old'
    · cases same
      exact .inl rfl
    · exact absurd old' (unlinked.apart (pair.trans ends) u)
  · rcases Move.apply_cases second with ⟨a, b, rfl, ends⟩ | old'
    · exact absurd old (unlinked.apart (pair.symm.trans ends) t)
    · exact .inr ⟨old, old'⟩

theorem Simple.apply (simple : Simple links) (unlinked : move.Unlinked links) :
    Simple (move.apply links) := by
  intro x t u y first second
  rcases Move.apply_pair unlinked (.inl ⟨rfl, rfl⟩) first second with same | ⟨old, old'⟩
  · exact same
  · exact simple x t u y old old'

theorem Twinned.apply (twinned : Twinned links) (unlinked : move.Unlinked links) :
    Twinned (move.apply links) := by
  intro x y t u first second
  rcases Move.apply_pair unlinked (.inr ⟨rfl, rfl⟩) first second with same | ⟨old, old'⟩
  · exact same
  · exact twinned x y t u old old'

theorem Within.apply {before after : κ → Prop} (within : Within links before)
    (kept : ∀ s, before s → after s) (joined : ∀ a b s, move = .join a b s → after s) :
    Within (move.apply links) after := by
  intro x t y held
  rcases Move.apply_cases held with ⟨a, b, same, _⟩ | old
  · exact joined a b t same
  · exact kept t (within x t y old)

/-- If every label in use is registered and a join takes an unregistered one, no label is shared. -/
theorem Unshared.apply {labels : κ → Prop} (unshared : Unshared links) (within : Within links labels)
    (fresh : move.Fresh labels) : Unshared (move.apply links) := by
  intro x y z w t first second
  rcases Move.apply_cases first with ⟨a, b, rfl, pair⟩ | old <;>
    rcases Move.apply_cases second with ⟨a', b', same, pair'⟩ | old'
  · cases same
    rcases pair with ⟨rfl, rfl⟩ | ⟨rfl, rfl⟩
    · exact pair'.elim (fun same => .inl ⟨same.1.symm, same.2.symm⟩)
        (fun same => .inr ⟨same.2.symm, same.1.symm⟩)
    · exact pair'.elim (fun same => .inr ⟨same.2.symm, same.1.symm⟩)
        (fun same => .inl ⟨same.1.symm, same.2.symm⟩)
  · exact absurd (within z t w old') fresh
  · subst same
    exact absurd (within x t y old) fresh
  · exact unshared x y z w t old old'

theorem join_new (links : Links α κ) (s : κ) (distinct : a ≠ b) :
    links.join a b s a s = some b ∧ links.join a b s b s = some a := by
  simp [join, distinct.symm]

/-- A legal move keeps a simple graph simple exactly if it does not join accounts that are linked. -/
theorem Simple.apply_iff (simple : Simple links) (legal : move.Legal links) :
    Simple (move.apply links) ↔ move.Unlinked links := by
  refine ⟨fun after => ?_, simple.apply⟩
  cases move with
  | join a b s =>
    obtain ⟨distinct, freeFirst, freeSecond⟩ := legal
    obtain ⟨first, second⟩ := join_new links s distinct
    constructor
    · intro t held
      rw [← after a s t b first (join_old freeFirst freeSecond held), freeFirst] at held
      cases held
    · intro t held
      rw [← after b s t a second (join_old freeFirst freeSecond held), freeSecond] at held
      cases held
  | _ => trivial

/-- A legal move keeps labels to one pair each exactly if it does not join under a label in use. -/
theorem Unshared.apply_iff (unshared : Unshared links) (legal : move.Legal links) :
    Unshared (move.apply links) ↔ move.Fresh links.Used := by
  refine ⟨fun after => ?_, unshared.apply fun a s b held => ⟨a, b, held⟩⟩
  cases move with
  | join a b s =>
    obtain ⟨distinct, freeFirst, freeSecond⟩ := legal
    obtain ⟨first, _⟩ := join_new links s distinct
    rintro ⟨x, y, held⟩
    rcases after a b x y s first (join_old freeFirst freeSecond held) with ⟨rfl, _⟩ | ⟨_, rfl⟩
    · rw [freeFirst] at held
      cases held
    · rw [freeSecond] at held
      cases held
  | _ => trivial

end Links

end LocalChain.Graph
