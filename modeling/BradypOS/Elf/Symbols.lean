import BradypOS.Elf.Inside
import BradypOS.Theory.Chain
import BradypOS.Theory.CString

/-!
# Symbol lookup (`lib/elf/elf.c`)

`locate_elf_symbol` looks a name up in the hash table that the dynamic section names: it follows the chain
of the name's bucket to a symbol of that name or to `STN_UNDEF`. It knows how many chains there are but
does not look at that, so that the indices it follows are those of the file.
-/

namespace BradypOS.Elf
open Boot Theory

/-! ### The program -/

def dtHash : Word := 4#32
def dtStrtab : Word := 5#32
def dtSymtab : Word := 6#32

def stnUndef : Word := 0#32

/-- A round of the loop of `elf_hash`. -/
def elfHashChar (h : Word) (c : Byte) : Word :=
  let h := (h <<< 4) + c.setWidth 32
  let g := h &&& 0xF0000000#32
  let h := if g ≠ 0#32 then h ^^^ (g >>> 24) else h
  h &&& ~~~g

def elfHash (name : List Byte) : Word := name.foldl elfHashChar 0#32

/-- `strcmp`; the string on the right has no terminator of its own. -/
def strcmp (lhs : Nat → Byte) : List Byte → Int
  | [] => (lhs 0).toNat
  | c :: rhs => if lhs 0 ≠ 0#8 ∧ lhs 0 = c then strcmp (fun i => lhs (i + 1)) rhs else (lhs 0).toNat - c.toNat

/-- The tables that the dynamic section names. -/
structure SymTables where
  strtab : Word
  syms : Word
  hashMap : Word

def SymTables.read (l : Loader) (tables : SymTables) (tag value : Word) : SymTables :=
  if tag = dtHash then { tables with hashMap := l.linkedToLoaded value }
  else if tag = dtSymtab then { tables with syms := l.linkedToLoaded value }
  else if tag = dtStrtab then { tables with strtab := l.linkedToLoaded value }
  else tables

def scanTables (l : Loader) : Nat → Word → SymTables → Option SymTables
  | 0, _, _ => none
  | fuel + 1, dyn, tables =>
    if l.wordAt dyn = dtNull then some tables
    else scanTables l fuel (dyn + 8#32) (tables.read l (l.wordAt dyn) (l.wordAt (dyn + 4#32)))

namespace Loader

/-- The tables of an image; as for relocation, a dynamic section without an end is scanned for ever. -/
def symTables (l : Loader) : Option SymTables := scanTables l (2 ^ 29) l.phdrs ⟨0, 0, 0⟩

section
variable (l : Loader) (tables : SymTables)

def nbucket : Word := l.wordAt tables.hashMap
def nchain : Word := l.wordAt (tables.hashMap + 4#32)
def bucket (i : Word) : Word := l.wordAt (tables.hashMap + 8#32 + 4#32 * i)
def chain (i : Word) : Word := l.wordAt (tables.hashMap + 8#32 + 4#32 * l.nbucket tables + 4#32 * i)

/-- `&strtab[sym->st_name]` of the symbol `i`. -/
def symName (i : Word) (k : Nat) : Byte := l.byte (tables.strtab + l.wordAt (tables.syms + 16#32 * i) + BitVec.ofNat 32 k)

def stValue (i : Word) : Word := l.wordAt (tables.syms + 16#32 * i + 4#32)

/-- Where the chain of a name begins. -/
def firstSym (symbol : List Byte) : Word := l.bucket tables (elfHash symbol % l.nbucket tables)

/-- A round of the loop of `locate_elf_symbol`; it ends with the symbol that was found. -/
def symRound (symbol : List Byte) (symidx : Word) : Turn Word (Option Word) :=
  if symidx = stnUndef then .exit none
  else if strcmp (l.symName tables symidx) symbol = 0 then .exit (some symidx)
  else .next (l.chain tables symidx)

end

end Loader

/-- How a lookup ends, with what is at `value` then. -/
inductive Located where
  | running
  | returned (code : LibelfError) (value : Word)
  | fault (f : Fault)

/-- What is returned behind the loop. -/
def Loader.located (l : Loader) (tables : SymTables) (value : Word) : Option Word → Located
  | none => .returned .nosym value
  | some symidx => .returned .ok (l.linkedToLoaded (l.stValue tables symidx))

def locateElfSymbol (fuel : Nat) (l : Loader) (symbol : List Byte) (value : Word) : Located :=
  if l.phdrs = 0#32 then .returned .nodyn value
  else
    match l.symTables with
    | none => .running
    | some tables =>
      if tables.strtab = 0#32 ∨ tables.syms = 0#32 ∨ tables.hashMap = 0#32 then .returned .nodyn value
      else if l.nbucket tables = 0#32 then .fault .divideByZero
      else
        match loop (l.symRound tables symbol) fuel (l.firstSym tables symbol) with
        | .next _ => .running
        | .exit found => l.located tables value found

/-! ### The search through a table -/

/-- The dynamic section names the three tables. -/
structure Loader.HasTables (l : Loader) (tables : SymTables) : Prop where
  dynamic : l.phdrs ≠ 0#32
  named : l.symTables = some tables
  strtab : tables.strtab ≠ 0#32
  syms : tables.syms ≠ 0#32
  hashMap : tables.hashMap ≠ 0#32

/-- A symbol of a table of `count` symbols, of which the first is none. -/
def IsSymbol (count i : Word) : Prop := i ≠ stnUndef ∧ i < count

instance (count : Word) : DecidablePred (IsSymbol count) := fun _ => inferInstanceAs (Decidable (_ ∧ _))

/-- A table of `count` symbols with different names, each of them in the chain of its bucket, where all chains end. -/
structure HashTable (l : Loader) (tables : SymTables) (count : Word) (names : Word → List Byte) : Prop where
  strings : ∀ i, IsSymbol count i → Terminated 0#8 (l.symName tables i) (names i)
  distinct : ∀ i j, IsSymbol count i → IsSymbol count j → names i = names j → i = j
  buckets : l.nbucket tables ≠ 0#32
  chains : ∀ b < l.nbucket tables, ∃ is, Chain (l.chain tables) stnUndef (l.bucket tables b) is ∧ ∀ i ∈ is, IsSymbol count i
  reachable : ∀ i, IsSymbol count i → ∀ is, Chain (l.chain tables) stnUndef (l.firstSym tables (names i)) is → i ∈ is

/-- The symbols one after another. -/
def symbolsOf (count : Word) : List Word := ((List.range count.toNat).map (BitVec.ofNat 32)).filter (IsSymbol count ·)

/-- The first symbol of the name. -/
def linearSearch (count : Word) (names : Word → List Byte) (symbol : List Byte) : Option Word :=
  (symbolsOf count).find? fun i => names i = symbol

/-! ### Names -/

theorem compares_strcmp : Theory.Compares 0#8 strcmp where
  nil s := by
    rw [strcmp, Int.natCast_eq_zero]
    exact BitVec.toNat_inj (y := 0#8)
  agree s c rest same live := by rw [strcmp, if_pos ⟨by rwa [same], same⟩]
  differ s c rest other := by
    rw [strcmp, if_neg fun both => other both.2]
    exact fun equal => other (BitVec.eq_of_toNat_eq (by omega))

section
variable {l : Loader} {tables : SymTables} {count : Word} {names : Word → List Byte} {symbol : List Byte} {value i p : Word}

theorem mem_symbolsOf : i ∈ symbolsOf count ↔ IsSymbol count i := by
  rw [symbolsOf, List.mem_filter, decide_eq_true_eq, and_iff_right_iff_imp]
  intro isSymbol
  refine List.mem_map.mpr ⟨i.toNat, List.mem_range.mpr isSymbol.2, ?_⟩
  exact BitVec.ofNat_toNat 32 i

theorem find_only {is : List Word} (member : i ∈ is) (here : names i = symbol) (only : ∀ j ∈ is, names j = symbol → j = i) :
    (is.find? fun i => names i = symbol) = some i := by
  have some_ : (is.find? fun i => names i = symbol).isSome := List.find?_isSome.mpr ⟨i, member, decide_eq_true here⟩
  obtain ⟨j, first⟩ := Option.isSome_iff_exists.mp some_
  have named := List.find?_some first
  rw [first, only j (List.mem_of_find?_eq_some first) (of_decide_eq_true named)]

theorem find_none {is : List Word} (none_ : ∀ i ∈ is, names i ≠ symbol) : (is.find? fun i => names i = symbol) = none :=
  List.find?_eq_none.mpr fun i member named => none_ i member (of_decide_eq_true named)

/-- The chain of the name's bucket has what the whole table has for it. -/
theorem HashTable.find_chain (h : HashTable l tables count names) {is : List Word}
    (chain : Chain (l.chain tables) stnUndef (l.firstSym tables symbol) is) (symbols : ∀ i ∈ is, IsSymbol count i) :
    (is.find? fun i => names i = symbol) = linearSearch count names symbol := by
  by_cases known : ∃ i, IsSymbol count i ∧ names i = symbol
  · obtain ⟨i, isSymbol, rfl⟩ := known
    have only : ∀ j, IsSymbol count j → names j = names i → j = i := fun j other same => h.distinct j i other isSymbol same
    rw [find_only (h.reachable i isSymbol is chain) rfl fun j member => only j (symbols j member), linearSearch,
      find_only (mem_symbolsOf.mpr isSymbol) rfl fun j member => only j (mem_symbolsOf.mp member)]
  · push Not at known
    rw [find_none fun i member => known i (symbols i member), linearSearch, find_none fun i member => known i (mem_symbolsOf.mp member)]

/-! ### The walk -/

theorem symRound_symbol (h : HashTable l tables count names) (noNul : 0#8 ∉ symbol) (isSymbol : IsSymbol count i) :
    l.symRound tables symbol i = if names i = symbol then .exit (some i) else .next (l.chain tables i) := by
  have same : strcmp (l.symName tables i) symbol = 0 ↔ names i = symbol := by
    rw [compares_strcmp.eq_zero_iff noNul]
    constructor
    · exact (h.strings i isSymbol).unique
    · rintro rfl
      exact h.strings i isSymbol
  rw [Loader.symRound, if_neg isSymbol.1]
  simp only [same]

/-- Along a chain the walk comes to the first symbol of the name, or to the end. -/
theorem chain_finds (h : HashTable l tables count names) (noNul : 0#8 ∉ symbol) {is : List Word}
    (path : Path (l.chain tables) p is stnUndef) (symbols : ∀ i ∈ is, IsSymbol count i) :
    ∃ n t, n ≤ is.length ∧ Reaches (l.symRound tables symbol) n p t ∧
      l.symRound tables symbol t = .exit (is.find? fun i => names i = symbol) := by
  induction is generalizing p with
  | nil =>
    obtain rfl : p = stnUndef := path
    exact ⟨0, stnUndef, Nat.le_refl _, Reaches.refl _, if_pos rfl⟩
  | cons i is ih =>
    obtain ⟨rfl, rest⟩ := path
    obtain ⟨isSymbol, others⟩ := List.forall_mem_cons.mp symbols
    have round := symRound_symbol h noNul isSymbol
    by_cases here : names p = symbol
    · rw [if_pos here] at round
      refine ⟨0, p, Nat.zero_le _, Reaches.refl p, ?_⟩
      rw [round, List.find?_cons_of_pos (by simpa using here)]
    · rw [if_neg here] at round
      obtain ⟨n, t, short, reached, step⟩ := ih rest others
      refine ⟨n + 1, t, Nat.succ_le_succ short, (loop_next round n).trans reached, ?_⟩
      rw [step, List.find?_cons_of_neg (by simpa using here)]

/-- The words below a bound. -/
def wordsBelow (bound : Word) : Finset Word := (Finset.range bound.toNat).image (BitVec.ofNat 32)

theorem card_wordsBelow (bound : Word) : (wordsBelow bound).card ≤ bound.toNat :=
  Finset.card_image_le.trans_eq (Finset.card_range _)

theorem mem_wordsBelow {bound : Word} (below : i < bound) : i ∈ wordsBelow bound :=
  Finset.mem_image.mpr ⟨i.toNat, Finset.mem_range.mpr below, BitVec.ofNat_toNat 32 i⟩

/-- A chain of symbols is no longer than the table. -/
theorem chain_short {next : Word → Word} {is : List Word} (chain : Chain next stnUndef p is) (symbols : ∀ i ∈ is, IsSymbol count i) :
    is.length ≤ count.toNat := by
  have part : is.toFinset ⊆ wordsBelow count := fun i member => mem_wordsBelow (symbols i (List.mem_toFinset.mp member)).2
  calc is.length = is.toFinset.card := (List.toFinset_card_of_nodup chain.nodup).symm
    _ ≤ (wordsBelow count).card := Finset.card_le_card part
    _ ≤ count.toNat := card_wordsBelow count

theorem Loader.HasTables.locate (has : l.HasTables tables) (buckets : l.nbucket tables ≠ 0#32) (fuel : Nat) (symbol : List Byte)
    (value : Word) : locateElfSymbol fuel l symbol value =
      match loop (l.symRound tables symbol) fuel (l.firstSym tables symbol) with
      | .next _ => .running
      | .exit found => l.located tables value found := by
  have present : ¬ (tables.strtab = 0#32 ∨ tables.syms = 0#32 ∨ tables.hashMap = 0#32) := by
    rintro (none_ | none_ | none_)
    · exact has.strtab none_
    · exact has.syms none_
    · exact has.hashMap none_
  unfold locateElfSymbol
  rw [if_neg has.dynamic, has.named]
  dsimp only
  rw [if_neg present, if_neg buckets]

/-- A lookup comes back with what a search through all symbols finds. -/
theorem locate_agrees (has : l.HasTables tables) (table : HashTable l tables count names) (noNul : 0#8 ∉ symbol) (value : Word) {fuel : Nat}
    (enough : count.toNat < fuel) : locateElfSymbol fuel l symbol value = l.located tables value (linearSearch count names symbol) := by
  have some_ := table.buckets
  have inside : elfHash symbol % l.nbucket tables < l.nbucket tables := BitVec.umod_lt _ (by bv_omega)
  obtain ⟨is, chain, symbols⟩ := table.chains _ inside
  obtain ⟨n, t, short, reached, step⟩ := chain_finds table noNul chain.path symbols
  have limit := chain_short chain symbols
  rw [has.locate table.buckets, Loader.firstSym, reached.exits step (by omega)]
  dsimp only
  rw [table.find_chain chain symbols]

end

/-- An image with a table of the symbols `a` and `b` in one bucket. -/
def hashedImage : Loader where
  entryPoint := 0#32
  phdrs := 0x10000000#32
  segments := [⟨0x8000#32, 0x10000000#32, 256#32, 5#32⟩]
  byte a :=
    let words := [4#32, 0x8020#32, 5#32, 0x8068#32, 6#32, 0x8038#32, 0#32, 0#32, 1#32, 3#32, 1#32, 0#32, 2#32, 0#32,
      0#32, 0#32, 0#32, 0#32, 1#32, 0x8010#32, 0#32, 0#32, 3#32, 0x8014#32, 0#32, 0#32]
    (words.flatMap wordBytes ++ [0#8, 0x61#8, 0#8, 0x62#8]).getD (a - 0x10000000#32).toNat 0#8
  trace := []

def hashedTables : SymTables := ⟨0x10000068#32, 0x10000038#32, 0x10000020#32⟩

theorem hashedImage_hasTables : hashedImage.HasTables hashedTables := ⟨by decide, rfl, by decide, by decide, by decide⟩

theorem hashedImage_chain : Chain (hashedImage.chain hashedTables) stnUndef (hashedImage.bucket hashedTables 0#32) [1#32, 2#32] := by
  have ends : hashedImage.chain hashedTables 2#32 = stnUndef := by decide
  exact ⟨⟨by decide, by decide, ends⟩, by decide⟩

theorem hashedImage_table : HashTable hashedImage hashedTables 3#32 fun i => if i = 1#32 then [0x61#8] else [0x62#8] := by
  have symbols : ∀ i, IsSymbol 3#32 i → i = 1#32 ∨ i = 2#32 := by
    rintro i ⟨live, below⟩
    simp only [stnUndef] at live
    bv_omega
  have one : hashedImage.nbucket hashedTables = 1#32 := by decide
  refine ⟨?_, ?_, by decide, ?_, ?_⟩
  · intro i isSymbol
    rcases symbols i isSymbol with rfl | rfl <;> exact ⟨by decide, by decide, by decide⟩
  · intro i j first second
    rcases symbols i first with rfl | rfl <;> rcases symbols j second with rfl | rfl <;> decide
  · intro b below
    rw [one] at below
    obtain rfl : b = 0#32 := BitVec.eq_of_toNat_eq (Nat.lt_one_iff.mp below)
    refine ⟨[1#32, 2#32], hashedImage_chain, fun i member => ?_⟩
    rcases List.mem_pair.mp member with rfl | rfl <;> decide
  · intro i isSymbol is chain
    rw [Loader.firstSym, one, BitVec.umod_one] at chain
    rw [chain.unique hashedImage_chain]
    rcases symbols i isSymbol with rfl | rfl <;> decide

theorem locate_agrees_hashed :
    locateElfSymbol 4 hashedImage [0x62#8] 7#32 = .returned .ok 0x10000014#32 ∧
      locateElfSymbol 4 hashedImage [0x63#8] 7#32 = .returned .nosym 7#32 :=
  ⟨locate_agrees hashedImage_hasTables hashedImage_table (by decide) 7#32 (by decide),
    locate_agrees hashedImage_hasTables hashedImage_table (by decide) 7#32 (by decide)⟩

/-! ### Any table -/

/-- One of the three tables is not named. -/
def SymTables.Missing (tables : SymTables) : Prop := tables.strtab = 0#32 ∨ tables.syms = 0#32 ∨ tables.hashMap = 0#32

/-- There is nothing to search through, or there are buckets, and the walk from the one of the name does not go round in a circle. -/
def Searchable (l : Loader) (symbol : List Byte) : Prop :=
  l.phdrs = 0#32 ∨ ∃ tables, l.symTables = some tables ∧
    (tables.Missing ∨ l.nbucket tables ≠ 0#32 ∧ ¬ ComesBack (l.symRound tables symbol) (l.firstSym tables symbol))

section
variable {l : Loader} {tables : SymTables} {symbol : List Byte} {t : Word} {n : Nat}

theorem symRound_next (step : l.symRound tables symbol t = .next p) : t ≠ stnUndef ∧ p = l.chain tables t := by
  unfold Loader.symRound at step
  split at step
  · cases step
  · rename_i live
    split at step
    · cases step
    · cases step
      exact ⟨live, rfl⟩

/-- Among the words a walk that does not come back ends. -/
theorem walk_ends (fresh : ¬ ComesBack (l.symRound tables symbol) t) :
    ∃ n u found, Reaches (l.symRound tables symbol) n t u ∧ l.symRound tables symbol u = .exit found := by
  have bound : ∀ n u, Reaches (l.symRound tables symbol) n t u → n < 2 ^ 32 + 1 := by
    intro n u reached
    have few := reached.le_card fresh ((Finset.range (2 ^ 32)).image (BitVec.ofNat 32)) fun _ _ v _ =>
      Finset.mem_image.mpr ⟨v.toNat, Finset.mem_range.mpr v.isLt, BitVec.ofNat_toNat 32 v⟩
    have card := Finset.card_image_le (s := Finset.range (2 ^ 32)) (f := BitVec.ofNat 32)
    rw [Finset.card_range] at card
    omega
  exact exits_of_bounded bound

/-- A table whose words are all below the number of its chains keeps the walk inside. -/
theorem walk_inside (first : l.firstSym tables symbol < l.nchain tables)
    (links : ∀ i < l.nchain tables, l.chain tables i < l.nchain tables)
    (reached : Reaches (l.symRound tables symbol) n (l.firstSym tables symbol) t) : t < l.nchain tables := by
  refine reached.invariant (I := fun _ t => t < l.nchain tables) first ?_
  intro _ u v _ step inside
  obtain ⟨-, rfl⟩ := symRound_next step
  exact links u inside

theorem walk_short (first : l.firstSym tables symbol < l.nchain tables)
    (links : ∀ i < l.nchain tables, l.chain tables i < l.nchain tables)
    (fresh : ¬ ComesBack (l.symRound tables symbol) (l.firstSym tables symbol))
    (reached : Reaches (l.symRound tables symbol) n (l.firstSym tables symbol) t) : n ≤ (l.nchain tables).toNat :=
  (reached.le_card fresh _ fun _ _ _ there => mem_wordsBelow (walk_inside first links there)).trans (card_wordsBelow _)

theorem locate_missing (dynamic : l.phdrs ≠ 0#32) (named : l.symTables = some tables) (missing : tables.Missing) (fuel : Nat) (value : Word) :
    locateElfSymbol fuel l symbol value = .returned .nodyn value := by
  unfold locateElfSymbol
  rw [if_neg dynamic, named]
  exact if_pos missing

theorem locate_buckets (dynamic : l.phdrs ≠ 0#32) (named : l.symTables = some tables) (complete : ¬ tables.Missing) :
    l.nbucket tables = 0#32 ∧ (∀ fuel value, locateElfSymbol fuel l symbol value = .fault .divideByZero) ∨
      l.nbucket tables ≠ 0#32 ∧ l.HasTables tables := by
  obtain ⟨strtab, syms, hashMap⟩ := (not_or.trans (and_congr_right fun _ => not_or)).mp complete
  by_cases none_ : l.nbucket tables = 0#32
  · refine .inl ⟨none_, fun fuel value => ?_⟩
    unfold locateElfSymbol
    rw [if_neg dynamic, named]
    exact (if_neg complete).trans (if_pos none_)
  · exact .inr ⟨none_, dynamic, named, strtab, syms, hashMap⟩

/-- With buckets a lookup comes back if the walk does not. -/
theorem Loader.HasTables.returns_iff (has : l.HasTables tables) (buckets : l.nbucket tables ≠ 0#32) (value : Word) :
    (∃ fuel code result, locateElfSymbol fuel l symbol value = .returned code result) ↔
      ¬ ComesBack (l.symRound tables symbol) (l.firstSym tables symbol) := by
  constructor
  · rintro ⟨fuel, code, result, returns⟩
    rw [has.locate buckets] at returns
    cases ends : loop (l.symRound tables symbol) fuel (l.firstSym tables symbol) with
    | next t =>
      rw [ends] at returns
      cases returns
    | exit found =>
      obtain ⟨n, t, _, reached, step⟩ := exits_of_loop ends
      exact reached.not_comesBack step
  · intro fresh
    obtain ⟨n, t, found, reached, step⟩ := walk_ends fresh
    have ends := has.locate buckets (n + 1) symbol value
    rw [reached.exits step (Nat.lt_succ_self n)] at ends
    cases found with
    | none => exact ⟨n + 1, _, _, ends⟩
    | some symidx => exact ⟨n + 1, _, _, ends⟩

end

theorem locate_returns (l : Loader) (symbol : List Byte) (value : Word) :
    (∃ fuel code result, locateElfSymbol fuel l symbol value = .returned code result) ↔ Searchable l symbol := by
  by_cases dynamic : l.phdrs = 0#32
  · exact iff_of_true ⟨0, _, _, if_pos dynamic⟩ (.inl dynamic)
  cases named : l.symTables with
  | none =>
    refine iff_of_false ?_ ?_
    · rintro ⟨fuel, code, result, returns⟩
      unfold locateElfSymbol at returns
      rw [if_neg dynamic, named] at returns
      cases returns
    · rintro (none_ | ⟨tables, some_, _⟩)
      · exact dynamic none_
      · rw [named] at some_
        cases some_
  | some tables =>
    have searchable : Searchable l symbol ↔ tables.Missing ∨ l.nbucket tables ≠ 0#32 ∧
        ¬ ComesBack (l.symRound tables symbol) (l.firstSym tables symbol) := by
      simp only [Searchable, dynamic, named, false_or, Option.some.injEq, exists_eq_left']
    rw [searchable]
    by_cases missing : tables.Missing
    · exact iff_of_true ⟨0, _, _, locate_missing dynamic named missing 0 value⟩ (.inl missing)
    · rcases locate_buckets dynamic named missing with ⟨none_, faults⟩ | ⟨some_, has⟩
      · refine iff_of_false ?_ ?_
        · rintro ⟨fuel, code, result, returns⟩
          rw [faults] at returns
          cases returns
        · rintro (absent | ⟨some_, _⟩)
          · exact missing absent
          · exact some_ none_
      · rw [has.returns_iff some_, or_iff_right missing, and_iff_right some_]

/-- The division by the number of buckets faults exactly where there are none, however long the search may take. -/
theorem locate_faults_iff (fuel : Nat) (l : Loader) (symbol : List Byte) (value : Word) :
    locateElfSymbol fuel l symbol value = .fault .divideByZero ↔ ∃ tables, l.HasTables tables ∧ l.nbucket tables = 0#32 := by
  constructor
  · intro faults
    by_cases dynamic : l.phdrs = 0#32
    · unfold locateElfSymbol at faults
      rw [if_pos dynamic] at faults
      cases faults
    cases named : l.symTables with
    | none =>
      unfold locateElfSymbol at faults
      rw [if_neg dynamic, named] at faults
      cases faults
    | some tables =>
      by_cases missing : tables.Missing
      · rw [locate_missing dynamic named missing] at faults
        cases faults
      obtain ⟨strtab, syms, hashMap⟩ := (not_or.trans (and_congr_right fun _ => not_or)).mp missing
      have has : l.HasTables tables := ⟨dynamic, named, strtab, syms, hashMap⟩
      refine ⟨tables, has, ?_⟩
      by_contra buckets
      rw [has.locate buckets] at faults
      cases ends : loop (l.symRound tables symbol) fuel (l.firstSym tables symbol) with
      | next t =>
        rw [ends] at faults
        cases faults
      | exit found =>
        rw [ends] at faults
        cases found <;> cases faults
  · rintro ⟨tables, has, none_⟩
    have complete : ¬ tables.Missing := not_or.mpr ⟨has.strtab, not_or.mpr ⟨has.syms, has.hashMap⟩⟩
    rcases locate_buckets has.dynamic has.named complete with ⟨_, faults⟩ | ⟨some_, _⟩
    · exact faults fuel value
    · exact absurd none_ some_

/-- A lookup comes back exactly in a searchable image, whatever the tables hold, and without a bucket it divides by zero. Where the
words of the hash table are all below the number of its chains, it looks at symbols and chains below that number only, and follows
no more links than that if it comes back. -/
theorem locate_bounded (l : Loader) (symbol : List Byte) (value : Word) :
    ((∃ fuel code result, locateElfSymbol fuel l symbol value = .returned code result) ↔ Searchable l symbol) ∧
      (∀ fuel, locateElfSymbol fuel l symbol value = .fault .divideByZero ↔ ∃ tables, l.HasTables tables ∧ l.nbucket tables = 0#32) ∧
      ∀ tables, l.HasTables tables → l.firstSym tables symbol < l.nchain tables →
        (∀ i < l.nchain tables, l.chain tables i < l.nchain tables) →
        ∀ n t, Reaches (l.symRound tables symbol) n (l.firstSym tables symbol) t →
          t < l.nchain tables ∧ (Searchable l symbol → n ≤ (l.nchain tables).toNat) := by
  refine ⟨locate_returns l symbol value, fun fuel => locate_faults_iff fuel l symbol value, ?_⟩
  intro tables has first links n t reached
  refine ⟨walk_inside first links reached, ?_⟩
  rintro (none_ | ⟨others, named, missing | ⟨-, fresh⟩⟩)
  · exact absurd none_ has.dynamic
  · obtain rfl := Option.some.inj (has.named.symm.trans named)
    rcases missing with none_ | none_ | none_
    · exact absurd none_ has.strtab
    · exact absurd none_ has.syms
    · exact absurd none_ has.hashMap
  · obtain rfl := Option.some.inj (has.named.symm.trans named)
    exact walk_short first links fresh reached

theorem locate_bounded_hashed : ∀ n t,
    Reaches (hashedImage.symRound hashedTables [0x62#8]) n (hashedImage.firstSym hashedTables [0x62#8]) t → t < 3#32 ∧ n ≤ 3 := by
  obtain ⟨returns, _, inside⟩ := locate_bounded hashedImage [0x62#8] 7#32
  have searchable : Searchable hashedImage [0x62#8] :=
    returns.mp ⟨4, .ok, 0x10000014#32, rfl⟩
  have links : ∀ i < hashedImage.nchain hashedTables, hashedImage.chain hashedTables i < hashedImage.nchain hashedTables := by
    have three : hashedImage.nchain hashedTables = 3#32 := by decide
    intro i below
    rw [three] at below
    have cases_ : i = 0#32 ∨ i = 1#32 ∨ i = 2#32 := by bv_omega
    rcases cases_ with rfl | rfl | rfl <;> decide
  intro n t reached
  obtain ⟨below, short⟩ := inside hashedTables hashedImage_hasTables (by decide) links n t reached
  exact ⟨below, short searchable⟩

/-- The dynamic section, an empty table of relocations, and at its end a hash table that has no bucket. -/
def textWithoutBuckets (a : Word) : Byte :=
  ([17#32, 0x8028#32, 4#32, 0x8030#32, 5#32, 0x8030#32, 6#32, 0x8030#32, 0#32, 0#32].flatMap wordBytes).getD (a - 0x10000000#32).toNat 0#8

def withDynamic : List Phdr := textAndData ++ [⟨ptDynamic, 0x1000#32, 0x8000#32, 40#32, 40#32, pfR, 4#32⟩]

theorem locate_divides : ∃ image, loadElfFile (smallFile withDynamic) 1 (.fresh textWithoutBuckets) = .returned .ok image ∧
    ∀ fuel, locateElfSymbol fuel image [0x61#8] 0#32 = .fault .divideByZero := by
  refine ⟨_, rfl, fun fuel => ?_⟩
  rfl

end BradypOS.Elf
