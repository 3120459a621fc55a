import LocalChain.TestChain.Wallet

namespace LocalChain.TestChain

open LocalChain.Python

/-! What `check_default_wallet` makes of the wallet list. -/

structure Wallet where
  name : List Char
  unlocked : Bool
  plain : ∀ c ∈ name, c.isAlphanum ∨ c ∈ ['-', '_', '.', ' ']

/-- The name, with a mark if the wallet is unlocked. -/
def Wallet.entry (wallet : Wallet) : List Char :=
  if wallet.unlocked then wallet.name ++ [' ', '*'] else wallet.name

/-- How the wallet tool prints a list: a heading, then an array with one string on a line. -/
structure Layout where
  heading : List Char
  indent : List Char
  bare : '[' ∉ heading
  blank : ∀ c ∈ indent, c = ' '

def Layout.line (layout : Layout) (wallet : Wallet) : List Char :=
  layout.indent ++ ('"' :: wallet.entry ++ ['"'])

def Layout.lines (layout : Layout) (wallets : List Wallet) : List Char :=
  List.intercalate [',', '\n'] (wallets.map layout.line)

def Layout.array (layout : Layout) (wallets : List Wallet) : List Char :=
  if wallets = [] then [] else '\n' :: layout.lines wallets ++ ['\n']

def Layout.print (layout : Layout) (wallets : List Wallet) : List Char :=
  layout.heading ++ ('[' :: layout.array wallets ++ [']', '\n'])

def defaultName : List Char := "default".toList

/-- A wallet named exactly `default` is listed with the mark or without it. -/
def DefaultListed (unlocked : Bool) (wallets : List Wallet) : Prop :=
  ∃ wallet ∈ wallets, wallet.name = defaultName ∧ wallet.unlocked = unlocked

/-- `check_default_wallet` does what each branch does exactly where the default wallet is listed as the branch
assumes. When it has read the list, the machine is as `listed` tells. -/
structure ReadFaithfully (env : Env) (chain : TestChain) (world listed : World) (wallets : List Wallet) : Prop where
  unlocked : checkDefaultWallet env chain world = takeBranch env chain .unlocked listed ↔ DefaultListed true wallets
  unlock : checkDefaultWallet env chain world = takeBranch env chain .unlock listed ↔ DefaultListed false wallets
  create : checkDefaultWallet env chain world = takeBranch env chain .create listed ↔
    ∀ wallet ∈ wallets, wallet.name ≠ defaultName

/-- What is left of a wallet's line after the split. -/
def Wallet.words (wallet : Wallet) : List (List Char) :=
  split wallet.name ++ if wallet.unlocked then [['*']] else []

variable {layout : Layout} {wallets : List Wallet} {wallet : Wallet} {front back : List Char}

/-- Without quotes and commas. -/
def clean (text : List Char) : List Char := remove ',' (remove '"' text)

theorem clean_append : clean (front ++ back) = clean front ++ clean back := by
  simp [clean, remove]

theorem clean_eq_self (quotes : '"' ∉ front) (commas : ',' ∉ front) : clean front = front := by
  have unquoted : remove '"' front = front :=
    List.filter_eq_self.mpr fun c member => decide_eq_true fun same => quotes (same ▸ member)
  rw [clean, unquoted]
  exact List.filter_eq_self.mpr fun c member => decide_eq_true fun same => commas (same ▸ member)

theorem Wallet.clean_entry (wallet : Wallet) : clean wallet.entry = wallet.entry := by
  have absent (c : Char) (other : ¬ (c.isAlphanum ∨ c ∈ ['-', '_', '.', ' '])) (unmarked : c ∉ [' ', '*']) :
      c ∉ wallet.entry := by
    have outside : c ∉ wallet.name := fun member => other (wallet.plain c member)
    unfold Wallet.entry
    split
    · exact fun member => (List.mem_append.mp member).elim outside unmarked
    · exact outside
  exact clean_eq_self (absent _ (by decide) (by decide)) (absent _ (by decide) (by decide))

theorem Layout.clean_line (layout : Layout) (wallet : Wallet) :
    clean (layout.line wallet) = layout.indent ++ wallet.entry := by
  have blank (c : Char) (other : c ≠ ' ') : c ∉ layout.indent := fun member => other (layout.blank c member)
  have quote : clean ['"'] = [] := rfl
  have opened : '"' :: wallet.entry = ['"'] ++ wallet.entry := rfl
  rw [Layout.line, opened, clean_append, clean_append, clean_append, quote, wallet.clean_entry,
    clean_eq_self (blank _ (by decide)) (blank _ (by decide))]
  simp

theorem Wallet.split_entry (wallet : Wallet) : split wallet.entry = wallet.words := by
  unfold Wallet.entry Wallet.words
  split
  · have mark : split ['*'] = [['*']] := split_word (by decide) (forall_mem_of_all (by decide))
    rw [split_append (by decide), mark]
  · rw [List.append_nil]

/-- A line is read as the words of the name and perhaps the mark. -/
theorem Layout.split_line (layout : Layout) (wallet : Wallet) :
    split (clean (layout.line wallet)) = wallet.words := by
  have blank : ∀ c ∈ layout.indent, isSpace c := fun c member => layout.blank c member ▸ by decide
  rw [layout.clean_line, split_blank blank, wallet.split_entry]

theorem Layout.split_lines (layout : Layout) (wallets : List Wallet) :
    split (clean (layout.lines wallets)) = wallets.flatMap Wallet.words := by
  induction wallets with
  | nil => exact split_nil
  | cons wallet rest ih =>
    cases rest with
    | nil => simp [Layout.lines, layout.split_line]
    | cons next rest =>
      have joined : layout.lines (wallet :: next :: rest) =
          layout.line wallet ++ ([',', '\n'] ++ layout.lines (next :: rest)) := by
        simp [Layout.lines, List.intercalate_cons_cons]
      have comma : clean [',', '\n'] = ['\n'] := rfl
      rw [joined, clean_append, clean_append, comma, List.singleton_append, split_append (by decide),
        layout.split_line, ih]
      rfl

/-- The slice between the brackets lacks the line end before the last one. -/
theorem Layout.slice_print (layout : Layout) (wallets : List Wallet) :
    slice (layout.print wallets) (layout.heading.length + 1)
        ((layout.heading ++ '[' :: layout.array wallets).length - 1) =
      if wallets = [] then [] else '\n' :: layout.lines wallets := by
  cases wallets with
  | nil =>
    have bare : (layout.heading ++ '[' :: layout.array []).length = layout.heading.length + 1 := by
      rw [Layout.array, if_pos rfl, List.length_append, List.length_singleton]
    rw [bare, if_pos rfl, slice]
    apply List.drop_eq_nil_of_le
    exact (List.length_take_le _ _).trans (by omega)
  | cons wallet rest =>
    have text : layout.print (wallet :: rest) = (layout.heading ++ ['[']) ++
        (('\n' :: layout.lines (wallet :: rest)) ++ ['\n', ']', '\n']) := by
      simp [Layout.print, Layout.array]
    have start : layout.heading.length + 1 = (layout.heading ++ ['[']).length := by simp
    have stop : (layout.heading ++ '[' :: layout.array (wallet :: rest)).length - 1 =
        (layout.heading ++ ['[']).length + ('\n' :: layout.lines (wallet :: rest)).length := by
      simp [Layout.array]
      omega
    rw [text, start, stop, slice_middle, if_neg (List.cons_ne_nil _ _)]

theorem listedNames_print (layout : Layout) (wallets : List Wallet) :
    listedNames (layout.print wallets) = some (wallets.flatMap Wallet.words) := by
  have first : find '[' (layout.print wallets) = some layout.heading.length := find_first layout.bare
  have last : rfind ']' (layout.print wallets) =
      some (layout.heading ++ '[' :: layout.array wallets).length := by
    have text : layout.print wallets = (layout.heading ++ '[' :: layout.array wallets) ++ ']' :: ['\n'] := by
      simp [Layout.print]
    rw [text, rfind_last (by decide)]
  have ordered : layout.heading.length < (layout.heading ++ '[' :: layout.array wallets).length := by
    simp
  have names : split (clean (if wallets = [] then [] else '\n' :: layout.lines wallets)) =
      wallets.flatMap Wallet.words := by
    split
    · rename_i empty
      rw [empty]
      exact split_nil
    · have opened : '\n' :: layout.lines wallets = ['\n'] ++ layout.lines wallets := rfl
      have kept : clean ['\n'] = ['\n'] := rfl
      rw [opened, clean_append, kept, List.singleton_append, split_cons (by decide), layout.split_lines]
  simp only [listedNames, first, last, Option.bind_eq_bind, Option.bind_some, if_pos ordered,
    layout.slice_print, ← names]
  rfl

/-- The split leaves no word with a blank. -/
theorem not_marked : "default *".toList ∉ wallets.flatMap Wallet.words := by
  intro member
  obtain ⟨wallet, _, word⟩ := List.mem_flatMap.mp member
  rcases List.mem_append.mp word with named | mark
  · have solid := solid_of_mem_split named ' ' (by decide)
    revert solid
    decide
  · split at mark <;> revert mark <;> decide

/-- A name has `default` as one of its words. -/
def Mentioned (wallets : List Wallet) : Prop := ∃ wallet ∈ wallets, defaultName ∈ split wallet.name

theorem default_mem_iff : defaultName ∈ wallets.flatMap Wallet.words ↔ Mentioned wallets := by
  simp only [Mentioned, List.mem_flatMap, Wallet.words, List.mem_append]
  refine exists_congr fun wallet => and_congr_right fun _ => or_iff_left ?_
  split <;> decide

theorem mentioned_of_named (member : wallet ∈ wallets) (named : wallet.name = defaultName) :
    Mentioned wallets := by
  have word : split defaultName = [defaultName] := split_word (by decide) (forall_mem_of_all (by decide))
  refine ⟨wallet, member, ?_⟩
  rw [named, word]
  exact List.mem_singleton_self _

/-- The wallet is unlocked if a name mentions it, created otherwise, and never found unlocked. -/
theorem branch_words (wallets : List Wallet) :
    walletBranch (wallets.flatMap Wallet.words) ≠ .unlocked ∧
      (walletBranch (wallets.flatMap Wallet.words) = .unlock ↔ Mentioned wallets) ∧
      (walletBranch (wallets.flatMap Wallet.words) = .create ↔ ¬ Mentioned wallets) := by
  have branch : walletBranch (wallets.flatMap Wallet.words) =
      if defaultName ∈ wallets.flatMap Wallet.words then .unlock else .create := if_neg not_marked
  rw [branch, ← default_mem_iff]
  by_cases found : defaultName ∈ wallets.flatMap Wallet.words
  · rw [if_pos found]
    exact ⟨WalletBranch.noConfusion, iff_of_true rfl found,
      iff_of_false WalletBranch.noConfusion fun absent => absent found⟩
  · rw [if_neg found]
    exact ⟨WalletBranch.noConfusion, iff_of_false WalletBranch.noConfusion found, iff_of_true rfl found⟩

section Checked

variable {env : Env} {chain : TestChain} {world listed : World} {s : Reply}

theorem checkDefaultWallet_print (read : popen env [chain.clinePath, "wallet", "list"] "" world = (.ok s, listed))
    (printed : s.out.toList = layout.print wallets) (branch : WalletBranch) :
    checkDefaultWallet env chain world = takeBranch env chain branch listed ↔
      walletBranch (wallets.flatMap Wallet.words) = branch :=
  checkDefaultWallet_iff read (printed ▸ listedNames_print layout wallets)

/-- The wallet list is read faithfully exactly if the default wallet is not listed as unlocked, and no name
mentions it unless it is listed as locked. -/
theorem readFaithfully_iff (read : popen env [chain.clinePath, "wallet", "list"] "" world = (.ok s, listed))
    (printed : s.out.toList = layout.print wallets) :
    ReadFaithfully env chain world listed wallets ↔
      ¬ DefaultListed true wallets ∧ (Mentioned wallets → DefaultListed false wallets) := by
  obtain ⟨unlocked, unlock, create⟩ := branch_words wallets
  have taken := checkDefaultWallet_print read printed
  constructor
  · intro faithful
    refine ⟨fun listed => unlocked ((taken _).mp (faithful.unlocked.mpr listed)), fun mentioned => ?_⟩
    exact faithful.unlock.mp ((taken _).mpr (unlock.mpr mentioned))
  · intro ⟨notUnlocked, locked⟩
    constructor
    · rw [taken]
      exact iff_of_false unlocked notUnlocked
    · rw [taken, unlock]
      refine ⟨locked, ?_⟩
      intro ⟨wallet, member, named, _⟩
      exact mentioned_of_named member named
    · rw [taken, create]
      constructor
      · intro absent wallet member named
        exact absent (mentioned_of_named member named)
      · intro other mentioned
        obtain ⟨wallet, member, named, _⟩ := locked mentioned
        exact other wallet member named

end Checked

def plainLayout : Layout := ⟨"Wallets:\n".toList, "  ".toList, by decide, forall_mem_of_all (by decide)⟩

/-- The wallet tool prints the wallets. -/
def listing (wallets : List Wallet) : Reply := ⟨String.ofList (plainLayout.print wallets), "", 0⟩

def showing (wallets : List Wallet) : Env := { quietEnv with reply := fun _ _ => listing wallets }

def afterListing : World := { World.initial with issued := [.popen ["cline", "wallet", "list"] ""] }

def lockedDefault : Wallet := ⟨defaultName, false, forall_mem_of_all (by decide)⟩

def myDefault : Wallet := ⟨"my default".toList, true, forall_mem_of_all (by decide)⟩

def backup : Wallet := ⟨"back-up_2".toList, true, forall_mem_of_all (by decide)⟩

/-- Other wallets, before the default wallet and after it, do no harm where that one is locked. -/
theorem lockedDefault_readFaithfully :
    ReadFaithfully (showing [backup, myDefault, lockedDefault, backup]) (oneMaster 0) .initial afterListing
      [backup, myDefault, lockedDefault, backup] := by
  have printed : (listing [backup, myDefault, lockedDefault, backup]).out.toList =
      plainLayout.print [backup, myDefault, lockedDefault, backup] := String.toList_ofList
  refine (readFaithfully_iff rfl printed).mpr ⟨?_, fun _ => ?_⟩
  · intro ⟨wallet, member, named, unlocked⟩
    simp only [List.mem_cons, List.not_mem_nil, or_false] at member
    rcases member with rfl | rfl | rfl | rfl <;> revert named unlocked <;> decide
  · exact ⟨lockedDefault, by simp, rfl, rfl⟩

def unlockedDefault : Wallet := ⟨defaultName, true, forall_mem_of_all (by decide)⟩

/-- The default wallet, listed as unlocked, is taken for a locked one. -/
theorem unlocked_not_readFaithfully :
    popen (showing [unlockedDefault]) [(oneMaster 0).clinePath, "wallet", "list"] "" .initial =
        (.ok (listing [unlockedDefault]), afterListing) ∧
      (listing [unlockedDefault]).out.toList = plainLayout.print [unlockedDefault] ∧
      checkDefaultWallet (showing [unlockedDefault]) (oneMaster 0) .initial =
        takeBranch (showing [unlockedDefault]) (oneMaster 0) .unlock afterListing ∧
      ¬ ReadFaithfully (showing [unlockedDefault]) (oneMaster 0) .initial afterListing [unlockedDefault] := by
  have read : popen (showing [unlockedDefault]) [(oneMaster 0).clinePath, "wallet", "list"] "" .initial =
      (.ok (listing [unlockedDefault]), afterListing) := rfl
  have printed : (listing [unlockedDefault]).out.toList = plainLayout.print [unlockedDefault] := String.toList_ofList
  have words : [unlockedDefault].flatMap Wallet.words = [defaultName, ['*']] := by decide +kernel
  have branch : walletBranch ([unlockedDefault].flatMap Wallet.words) = .unlock := by rw [words]; decide
  refine ⟨read, printed, (checkDefaultWallet_print read printed .unlock).mpr branch, fun faithful => ?_⟩
  have listed : DefaultListed true [unlockedDefault] := ⟨_, List.mem_singleton_self _, rfl, rfl⟩
  have taken := (checkDefaultWallet_print read printed .unlocked).mp (faithful.unlocked.mpr listed)
  rw [branch] at taken
  cases taken

end LocalChain.TestChain
