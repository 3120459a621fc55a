import Mathlib.Data.List.Infix

/-! Python's strings, as lists of characters. -/
namespace LocalChain.Python

/-- What `str.isspace` accepts. -/
def isSpace (c : Char) : Bool :=
  c.toNat ∈ [9, 10, 11, 12, 13, 28, 29, 30, 31, 32, 0x85, 0xa0, 0x1680, 0x2000, 0x2001, 0x2002, 0x2003,
    0x2004, 0x2005, 0x2006, 0x2007, 0x2008, 0x2009, 0x200a, 0x2028, 0x2029, 0x202f, 0x205f, 0x3000]

/-- `text.find(c)`, or nothing where that is -1. -/
def find (c : Char) (text : List Char) : Option Nat := text.findIdx? (· = c)

/-- `text.rfind(c)`, or nothing where that is -1. -/
def rfind (c : Char) (text : List Char) : Option Nat :=
  (text.reverse.findIdx? (· = c)).map (text.length - 1 - ·)

/-- `text[start:stop]`, for bounds that are not negative. -/
def slice (text : List Char) (start stop : Nat) : List Char := (text.take stop).drop start

/-- `text.replace(c, "")`. -/
def remove (c : Char) (text : List Char) : List Char := text.filter (· ≠ c)

/-- `text.split()`. -/
def split (text : List Char) : List (List Char) := (text.splitOnP isSpace).filter (· ≠ [])

/-- `part in text`. -/
def contains (part text : List Char) : Bool := decide (part <:+: text)

/-- How a byte is written in a bytes literal. -/
def byteText (quote : Char) (byte : UInt8) : List Char :=
  let c := Char.ofNat byte.toNat
  if c = quote ∨ c = '\\' then ['\\', c]
  else if c = '\t' then ['\\', 't']
  else if c = '\n' then ['\\', 'n']
  else if c = '\r' then ['\\', 'r']
  else if byte < 32 ∨ 127 ≤ byte then
    ['\\', 'x', Nat.digitChar (byte.toNat / 16), Nat.digitChar (byte.toNat % 16)]
  else [c]

/-- `str(data)` for bytes: the literal, not the text. -/
def bytesStr (data : List UInt8) : List Char :=
  let quote := if '\''.toNat.toUInt8 ∈ data ∧ '"'.toNat.toUInt8 ∉ data then '"' else '\''
  'b' :: quote :: data.flatMap (byteText quote) ++ [quote]

variable {c : Char} {front middle back text word : List Char}

/-- The characters of a fixed text are checked one by one. -/
theorem forall_mem_of_all {good : Char → Prop} [DecidablePred good] (all : text.all fun c => good c) :
    ∀ c ∈ text, good c := fun c member => of_decide_eq_true (List.all_eq_true.mp all c member)

private theorem findIdx?_first (absent : c ∉ front) :
    (front ++ c :: back).findIdx? (· = c) = some front.length := by
  have missing : front.findIdx? (· = c) = none := by
    simp only [List.findIdx?_eq_none_iff, decide_eq_false_iff_not]
    intro other member same
    exact absent (same ▸ member)
  simp [List.findIdx?_append, missing, List.findIdx?_cons]

theorem find_first (absent : c ∉ front) : find c (front ++ c :: back) = some front.length :=
  findIdx?_first absent

theorem rfind_last (absent : c ∉ back) : rfind c (front ++ c :: back) = some front.length := by
  have reversed : (front ++ c :: back).reverse = back.reverse ++ c :: front.reverse := by simp
  rw [rfind, reversed, findIdx?_first (by simpa using absent)]
  simp

/-- Between two positions stands what comes between them. -/
theorem slice_middle (front middle back : List Char) :
    slice (front ++ (middle ++ back)) front.length (front.length + middle.length) = middle := by
  rw [slice, List.take_length_add_append, List.drop_left, List.take_left]

theorem split_nil : split [] = [] := by
  simp [split]

/-- White space ends a word. -/
theorem split_append (space : isSpace c) : split (front ++ c :: back) = split front ++ split back := by
  rw [split, List.splitOnP_append_cons front back space, List.filter_append, split, split]

theorem split_cons (space : isSpace c) : split (c :: text) = split text := by
  have whole : split ([] ++ c :: text) = split [] ++ split text := split_append space
  simpa [split_nil] using whole

theorem split_blank (blank : ∀ c ∈ front, isSpace c) : split (front ++ text) = split text := by
  induction front with
  | nil => rfl
  | cons c front ih =>
    rw [List.cons_append, split_cons (blank c List.mem_cons_self)]
    exact ih fun other member => blank other (List.mem_cons_of_mem _ member)

theorem split_word (present : word ≠ []) (solid : ∀ c ∈ word, isSpace c = false) : split word = [word] := by
  rw [split, List.splitOnP_eq_singleton solid]
  simp [present]

private theorem solid_of_mem_splitOnP (member : word ∈ text.splitOnP isSpace) :
    ∀ c ∈ word, isSpace c = false := by
  induction text generalizing word with
  | nil =>
    rw [List.splitOnP_nil, List.mem_singleton] at member
    simp [member]
  | cons first text ih =>
    rw [List.splitOnP_cons_eq_if_modifyHead] at member
    split at member
    · rcases List.mem_cons.mp member with rfl | later
      · simp
      · exact ih later
    · rename_i solid
      obtain ⟨head, tail, pieces⟩ := List.exists_cons_of_ne_nil (List.splitOnP_ne_nil isSpace text)
      rw [pieces, List.modifyHead_cons] at member
      rcases List.mem_cons.mp member with rfl | later
      · intro c present
        rcases List.mem_cons.mp present with rfl | inner
        · simpa using solid
        · exact ih (pieces ▸ List.mem_cons_self) c inner
      · exact ih (pieces ▸ List.mem_cons_of_mem _ later)

/-- Words have no white space. -/
theorem solid_of_mem_split (member : word ∈ split text) : ∀ c ∈ word, isSpace c = false :=
  solid_of_mem_splitOnP (List.mem_filter.mp member).1

end LocalChain.Python
