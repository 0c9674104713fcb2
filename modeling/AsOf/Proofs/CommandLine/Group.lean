import AsOf.CommandLine.Arguments
import AsOf.Proofs.Resource.Step
import AsOf.Proofs.Text.Basic
import AsOf.Tree.KeySet
import Mathlib.Data.List.Sort

/-!
# Groups of nodes

The value of `--group` is a list of keys, which is read piece by piece.

## Main definitions

* `IsKeyNumeral`: a numeral of a key
* `HoldsKey`, `Accepted`: pieces with a key in them, and pieces that are accepted
* `FirstOffender`: what is in the first piece that is not accepted
* `SameCores`: pieces with the same in them
* `KeySet.text`: the keys of a set, joined by commas
* `UsageError.invalidKey`: why a value is refused

## Main results

* `readKey?_eq_some_iff`: numerals are read
* `pieces_eq_splitOn`: the pieces are those between commas
* `KeySet.read_eq_ok_iff`, `KeySet.read_eq_error_iff`: what a list of keys stands for
* `KeySet.read_of_sameCores`: lists with the same in their pieces stand for the same set
* `KeySet.read_text`: the text of a set stands for the set
* `readGroup_keys_eq_ok_iff`, `readGroup_eq_error_iff`: what a value stands for, and why one stands for nothing
* `readGroup_grammar`: which values are accepted, what they stand for, which of them stand for the same, and
  that each set has a value
-/

namespace AsOf

/-! ## The grammar of key lists

A list of keys is read piece by piece. A piece is accepted if nothing but blanks is in it, or a numeral of a
key. The list is accepted if all of its pieces are, and then it stands for the set of the keys that are in it,
in whatever order, however often and however padded they come. Otherwise it is refused for the first piece
that is not accepted. -/

section KeyList

open Text

variable {cs core piece : List Char} {ps qs rest : List (List Char)} {key k : Nat}

/-! ### Numerals -/

/-- The text is at least one digit, with at most one plus sign in front, and the number below the bound of
keys that the digits denote is the key. -/
def IsKeyNumeral (cs : List Char) (key : Nat) : Prop :=
  ∃ ds, (cs = ds ∨ cs = '+' :: ds) ∧ ds ≠ [] ∧ (∀ d ∈ ds, d.isDigit = true) ∧
    Nat.ofDigits 10 (ds.reverse.map digitValue) = key ∧ key < 2 ^ 64

/-- The text without a plus sign in front. -/
def unsigned : List Char → List Char
  | '+' :: ds => ds
  | ds => ds

theorem eq_unsigned_or (cs : List Char) : cs = unsigned cs ∨ cs = '+' :: unsigned cs := by
  unfold unsigned
  split
  · exact .inr rfl
  · exact .inl rfl

/-- Digits have no sign in front. -/
theorem unsigned_eq_self (h : ∀ d ∈ cs, d.isDigit = true) : unsigned cs = cs := by
  unfold unsigned
  split
  · exact absurd (h '+' List.mem_cons_self) (by decide)
  · rfl

theorem isKeyNumeral_iff : IsKeyNumeral cs key ↔ unsigned cs ≠ [] ∧
    (∀ d ∈ unsigned cs, d.isDigit = true) ∧ numeralValue (unsigned cs) = key ∧ key < 2 ^ 64 := by
  constructor
  · rintro ⟨ds, hcs, hne, hdigits, hvalue, hlt⟩
    have hunsigned : unsigned cs = ds := by
      rcases hcs with rfl | rfl
      · exact unsigned_eq_self hdigits
      · rfl
    rw [hunsigned, numeralValue_eq_ofDigits]
    exact ⟨hne, hdigits, hvalue, hlt⟩
  · rintro ⟨hne, hdigits, hvalue, hlt⟩
    exact ⟨unsigned cs, eq_unsigned_or cs, hne, hdigits, numeralValue_eq_ofDigits _ ▸ hvalue, hlt⟩

/-- Numerals are read. -/
theorem readKey?_eq_some_iff : readKey? cs = some key ↔ IsKeyNumeral cs key := by
  have hread : readKey? cs = if (unsigned cs).isEmpty ∨ ¬(unsigned cs).all Char.isDigit then none
      else if numeralValue (unsigned cs) < nodeKeyBound then some (numeralValue (unsigned cs)) else none :=
    rfl
  rw [hread, isKeyNumeral_iff, ← List.all_eq_true]
  split
  · next h => grind
  · next h =>
    rw [not_or, not_not, List.isEmpty_iff] at h
    split
    · next hlt =>
      rw [Option.some.injEq]
      constructor
      · rintro rfl
        exact ⟨h.1, h.2, rfl, hlt⟩
      · exact fun hkey => hkey.2.2.1
    · next hlt =>
      constructor
      · nofun
      · rintro ⟨-, -, rfl, hkey⟩
        exact absurd hkey hlt

theorem IsKeyNumeral.ne_nil (h : IsKeyNumeral cs key) : cs ≠ [] := by
  obtain ⟨ds, rfl | rfl, hne, -⟩ := h
  · exact hne
  · exact List.cons_ne_nil _ _

theorem isBlank_of_isDigit {c : Char} (h : c.isDigit = true) : isBlank c = false := by
  simp only [Char.isDigit, Bool.and_eq_true, decide_eq_true_eq] at h
  have hlow : 48 ≤ c.toNat := h.1
  have hhigh : c.toNat ≤ 57 := h.2
  unfold isBlank
  grind

/-- No blank is in a numeral. -/
theorem IsKeyNumeral.trims (h : IsKeyNumeral cs key) : Trims cs cs := by
  have hblank : ∀ c ∈ cs, isBlank c = false := by
    intro c hc
    obtain ⟨ds, rfl | rfl, -, hdigits, -⟩ := h
    · exact isBlank_of_isDigit (hdigits c hc)
    · rcases List.mem_cons.mp hc with rfl | hc
      · rfl
      · exact isBlank_of_isDigit (hdigits c hc)
  exact trims_self (fun c hc => hblank c (List.mem_of_mem_head? hc))
    fun c hc => hblank c (List.mem_of_mem_getLast? hc)

/-- The numeral of a number below the bound. -/
theorem isKeyNumeral_digits (h : key < 2 ^ 64) : IsKeyNumeral (digits key) key := by
  have hne : digits key ≠ [] := by
    rw [digits]
    split <;> simp
  refine ⟨digits key, .inl rfl, hne, fun d hd => isDigit_of_mem_digits hd, ?_, h⟩
  rw [← numeralValue_eq_ofDigits, numeralValue_digits]

/-! ### Pieces -/

/-- The key is in the piece, with blanks around it. -/
def HoldsKey (piece : List Char) (key : Nat) : Prop :=
  ∃ core, Trims piece core ∧ IsKeyNumeral core key

/-- Nothing but blanks is in the piece, or a key. -/
def Accepted (piece : List Char) : Prop :=
  Trims piece [] ∨ ∃ key, HoldsKey piece key

/-- What is in the first piece that is not accepted. -/
inductive FirstOffender : List (List Char) → List Char → Prop where
  | here {piece core : List Char} {rest : List (List Char)} :
      Trims piece core → ¬Accepted piece → FirstOffender (piece :: rest) core
  | later {piece core : List Char} {rest : List (List Char)} :
      Accepted piece → FirstOffender rest core → FirstOffender (piece :: rest) core

/-- The same is in the pieces, apart from blanks, order and repetition. -/
def SameCores (ps qs : List (List Char)) : Prop :=
  ∀ core, core ≠ [] → ((∃ p ∈ ps, Trims p core) ↔ ∃ q ∈ qs, Trims q core)

/-- What is in the pieces that are not blank. -/
def cores (ps : List (List Char)) : List (List Char) :=
  (ps.map trim).filter (!·.isEmpty)

/-- No other key is in a piece. -/
theorem HoldsKey.iff_eq (h : HoldsKey piece key) : HoldsKey piece k ↔ k = key := by
  constructor
  · rintro ⟨core', htrims', hnumeral'⟩
    obtain ⟨core, htrims, hnumeral⟩ := h
    obtain rfl := htrims.unique htrims'
    rw [← readKey?_eq_some_iff] at hnumeral hnumeral'
    exact Option.some.inj (hnumeral'.symm.trans hnumeral)
  · rintro rfl
    exact h

theorem holdsKey_digits (h : key < 2 ^ 64) : HoldsKey (digits key) key :=
  ⟨digits key, (isKeyNumeral_digits h).trims, isKeyNumeral_digits h⟩

/-- No key is in a blank piece. -/
theorem not_holdsKey_of_blank (h : Trims piece []) : ¬HoldsKey piece key := by
  rintro ⟨core, htrims, hnumeral⟩
  exact hnumeral.ne_nil (htrims.unique h)

/-- Blank pieces count for nothing. -/
theorem cores_cons_of_blank (h : Trims piece []) : cores (piece :: rest) = cores rest := by
  rw [cores, List.map_cons, h.trim_eq]
  rfl

theorem cores_cons_of_ne_nil (h : Trims piece core) (hne : core ≠ []) :
    cores (piece :: rest) = core :: cores rest := by
  rw [cores, List.map_cons, h.trim_eq, List.filter_cons_of_pos (by simpa using hne)]
  rfl

theorem readKeys_cons_of_holdsKey (h : HoldsKey piece key) :
    readKeys (cores (piece :: rest)) = (readKeys (cores rest)).map (key :: ·) := by
  obtain ⟨core, htrims, hnumeral⟩ := h
  rw [cores_cons_of_ne_nil htrims hnumeral.ne_nil, readKeys, readKey?_eq_some_iff.mpr hnumeral]

theorem readKeys_cons_of_not_accepted (h : Trims piece core) (hbad : ¬Accepted piece) :
    readKeys (cores (piece :: rest)) = .error core := by
  have hne : core ≠ [] := by
    rintro rfl
    exact hbad (.inl h)
  have hread : readKey? core = none := by
    rw [Option.eq_none_iff_forall_ne_some]
    intro key hkey
    exact hbad (.inr ⟨key, core, h, readKey?_eq_some_iff.mp hkey⟩)
  rw [cores_cons_of_ne_nil h hne, readKeys, hread]

/-- The keys that are in accepted pieces are read. -/
theorem readKeys_of_accepted (h : ∀ p ∈ ps, Accepted p) :
    ∃ keys, readKeys (cores ps) = .ok keys ∧ ∀ key, key ∈ keys ↔ ∃ p ∈ ps, HoldsKey p key := by
  induction ps with
  | nil => exact ⟨[], rfl, by simp⟩
  | cons piece rest ih =>
    obtain ⟨hpiece, hrest⟩ := List.forall_mem_cons.mp h
    obtain ⟨keys, hread, hkeys⟩ := ih hrest
    rcases hpiece with hblank | ⟨key, hkey⟩
    · refine ⟨keys, by rw [cores_cons_of_blank hblank, hread], fun k => ?_⟩
      simp only [hkeys, List.mem_cons, exists_eq_or_imp, not_holdsKey_of_blank hblank, false_or]
    · refine ⟨key :: keys, by rw [readKeys_cons_of_holdsKey hkey, hread]; rfl, fun k => ?_⟩
      simp only [hkeys, List.mem_cons, exists_eq_or_imp, hkey.iff_eq]

/-- What is in the first piece that is not accepted is told, even if there are more of them. -/
theorem FirstOffender.readKeys (h : FirstOffender ps core) : readKeys (cores ps) = .error core := by
  induction h with
  | here htrims hbad => exact readKeys_cons_of_not_accepted htrims hbad
  | later haccepted _ ih =>
    rcases haccepted with hblank | ⟨key, hkey⟩
    · rw [cores_cons_of_blank hblank, ih]
    · rw [readKeys_cons_of_holdsKey hkey, ih]
      rfl

theorem FirstOffender.exists_not_accepted (h : FirstOffender ps core) : ∃ p ∈ ps, ¬Accepted p := by
  induction h with
  | here _ hbad => exact ⟨_, List.mem_cons_self, hbad⟩
  | later _ _ ih =>
    obtain ⟨p, hp, hbad⟩ := ih
    exact ⟨p, List.mem_cons_of_mem _ hp, hbad⟩

theorem accepted_or_offender (ps : List (List Char)) :
    (∀ p ∈ ps, Accepted p) ∨ ∃ core, FirstOffender ps core := by
  induction ps with
  | nil => exact .inl nofun
  | cons piece rest ih =>
    by_cases haccepted : Accepted piece
    · rcases ih with hrest | ⟨core, hfirst⟩
      · exact .inl (List.forall_mem_cons.mpr ⟨haccepted, hrest⟩)
      · exact .inr ⟨core, .later haccepted hfirst⟩
    · exact .inr ⟨trim piece, .here (trims_trim piece) haccepted⟩

theorem mem_cores_iff : core ∈ cores ps ↔ core ≠ [] ∧ ∃ p ∈ ps, Trims p core := by
  simp [cores, trim_eq_iff, and_comm]

/-- The same is in pieces if the same is left of them. -/
theorem sameCores_of_mem_cores_iff (h : ∀ core, core ∈ cores ps ↔ core ∈ cores qs) : SameCores ps qs := by
  intro core hne
  have hcore := h core
  rwa [mem_cores_iff, mem_cores_iff, and_iff_right hne, and_iff_right hne] at hcore

theorem SameCores.symm (h : SameCores ps qs) : SameCores qs ps :=
  fun core hne => (h core hne).symm

/-- Whether pieces are accepted depends on what is in them only. -/
theorem SameCores.accepted (h : SameCores ps qs) (haccepted : ∀ p ∈ ps, Accepted p) :
    ∀ q ∈ qs, Accepted q := by
  intro q hq
  by_cases hne : trim q = []
  · exact .inl (trim_eq_iff.mp hne)
  · obtain ⟨p, hp, htrims⟩ := (h _ hne).mpr ⟨q, hq, trims_trim q⟩
    rcases haccepted p hp with hblank | ⟨key, core, htrims', hnumeral⟩
    · exact absurd (htrims.unique hblank) hne
    · obtain rfl := htrims'.unique htrims
      exact .inr ⟨key, trim q, trims_trim q, hnumeral⟩

/-- Which keys are in pieces depends on what is in them only. -/
theorem SameCores.holdsKey (h : SameCores ps qs) (hkey : ∃ p ∈ ps, HoldsKey p key) :
    ∃ q ∈ qs, HoldsKey q key := by
  obtain ⟨p, hp, core, htrims, hnumeral⟩ := hkey
  obtain ⟨q, hq, htrims'⟩ := (h core hnumeral.ne_nil).mp ⟨p, hp, htrims⟩
  exact ⟨q, hq, core, htrims', hnumeral⟩

/-! ### Sets -/

theorem pieces_eq_splitOn (cs : List Char) : pieces cs = cs.splitOn ',' := by
  induction cs with
  | nil => rfl
  | cons c cs ih =>
    rw [pieces, ih, List.splitOn_cons_eq_if_modifyHead]
    by_cases hcomma : c = ','
    · rw [if_pos hcomma, if_pos (beq_iff_eq.mpr hcomma)]
    · rw [if_neg hcomma, if_neg (by simpa using hcomma)]
      cases hsplit : cs.splitOn ',' with
      | nil => exact absurd hsplit (List.splitOnP_ne_nil _ _)
      | cons piece rest => rfl

namespace KeySet

variable {set other : KeySet} {s : String}

/-- A set is determined by the keys that are in it. -/
theorem eq_of_mem_iff (h : ∀ key, key ∈ set.keys ↔ key ∈ other.keys) : set = other := by
  have hkeys : set.keys = other.keys := set.ascending.eq_of_mem_iff other.ascending h
  cases set
  cases other
  congr

theorem mem_keys_ofList {keys : List Nat} : key ∈ (ofList keys).keys ↔ key ∈ keys := by
  -- The set that the keys come to is general, for the induction.
  have hfold : ∀ set : KeySet, key ∈ (keys.foldl insert set).keys ↔ key ∈ keys ∨ key ∈ set.keys := by
    induction keys with
    | nil => simp
    | cons k keys ih =>
      intro set
      rw [List.foldl_cons, ih, mem_keys_insert, List.mem_cons]
      grind
  rw [ofList, hfold]
  simp [empty]

theorem read_of_readKeys_ok {keys : List Nat}
    (h : readKeys (cores (s.toList.splitOn ',')) = .ok keys) : read s = .ok (ofList keys) := by
  rw [read, pieces_eq_splitOn, ← cores, h]

theorem read_of_offender (h : FirstOffender (s.toList.splitOn ',') core) :
    read s = .error (String.ofList core) := by
  rw [read, pieces_eq_splitOn, ← cores, h.readKeys]

/-- A text that is accepted stands for the set of the keys in it. -/
theorem read_eq_ok_iff : read s = .ok set ↔ (∀ p ∈ s.toList.splitOn ',', Accepted p) ∧
    ∀ key, key ∈ set.keys ↔ ∃ p ∈ s.toList.splitOn ',', HoldsKey p key := by
  rcases accepted_or_offender (s.toList.splitOn ',') with haccepted | ⟨core, hfirst⟩
  · obtain ⟨keys, hread, hkeys⟩ := readKeys_of_accepted haccepted
    have hset : ∀ key, key ∈ (ofList keys).keys ↔ ∃ p ∈ s.toList.splitOn ',', HoldsKey p key :=
      fun key => mem_keys_ofList.trans (hkeys key)
    rw [read_of_readKeys_ok hread, Except.ok.injEq, and_iff_right haccepted]
    constructor
    · rintro rfl
      exact hset
    · exact fun hmem => eq_of_mem_iff fun key => (hset key).trans (hmem key).symm
  · rw [read_of_offender hfirst]
    obtain ⟨p, hp, hbad⟩ := hfirst.exists_not_accepted
    exact ⟨nofun, fun h => absurd (h.1 p hp) hbad⟩

/-- Any other text is refused for the first piece that is not accepted. -/
theorem read_eq_error_iff {text : String} : read s = .error text ↔
    ∃ core, FirstOffender (s.toList.splitOn ',') core ∧ text = String.ofList core := by
  constructor
  · intro herror
    rcases accepted_or_offender (s.toList.splitOn ',') with haccepted | ⟨core, hfirst⟩
    · obtain ⟨keys, hread, -⟩ := readKeys_of_accepted haccepted
      rw [read_of_readKeys_ok hread] at herror
      nomatch herror
    · rw [read_of_offender hfirst, Except.error.injEq] at herror
      exact ⟨core, hfirst, herror.symm⟩
  · rintro ⟨core, hfirst, rfl⟩
    exact read_of_offender hfirst

/-- Texts with the same in their pieces stand for the same set. -/
theorem read_of_sameCores {s' : String} (h : SameCores (s.toList.splitOn ',') (s'.toList.splitOn ','))
    (hread : read s = .ok set) : read s' = .ok set := by
  obtain ⟨haccepted, hkeys⟩ := read_eq_ok_iff.mp hread
  exact read_eq_ok_iff.mpr ⟨h.accepted haccepted, fun key => (hkeys key).trans ⟨h.holdsKey, h.symm.holdsKey⟩⟩

/-- The keys of a set between commas. -/
def text (set : KeySet) : String := ",".intercalate (set.keys.map decimal)

/-- The pieces are the numerals of the keys. -/
theorem splitOn_text (h : set.keys ≠ []) : set.text.toList.splitOn ',' = set.keys.map digits := by
  have htoList : set.text.toList = [','].intercalate (set.keys.map digits) := by
    have hdigits : String.toList ∘ decimal = digits := funext fun key => String.toList_ofList
    rw [text, String.toList_intercalate, List.map_map, hdigits]
    rfl
  rw [htoList]
  apply List.splitOn_intercalate
  · intro ds hds hcomma
    obtain ⟨key, -, rfl⟩ := List.mem_map.mp hds
    exact absurd (isDigit_of_mem_digits hcomma) (by decide)
  · simpa using h

/-- The text of a set stands for the set. -/
theorem read_text (h : ∀ key ∈ set.keys, key < 2 ^ 64) : read set.text = .ok set := by
  rw [read_eq_ok_iff]
  by_cases hkeys : set.keys = []
  · have hpieces : set.text.toList.splitOn ',' = [[]] := by
      rw [text, hkeys]
      rfl
    have hblank : Trims [] [] := trims_self nofun nofun
    simp [hpieces, hkeys, Accepted, hblank, not_holdsKey_of_blank]
  · rw [splitOn_text hkeys]
    constructor
    · exact List.forall_mem_map.mpr fun key hkey => .inr ⟨key, holdsKey_digits (h key hkey)⟩
    · intro k
      simp only [List.mem_map, exists_exists_and_eq_and]
      constructor
      · exact fun hk => ⟨k, hk, holdsKey_digits (h k hk)⟩
      · rintro ⟨key, hkey, hk⟩
        rwa [(holdsKey_digits (h key hkey)).iff_eq.mp hk]

end KeySet

end KeyList

/-! ## Groups of nodes on the command line

The value of `--group` is a list of keys. It is accepted if each of its pieces is, and then it stands for the
set of the keys in it, in ascending order and each of them once. Otherwise the first piece that is not
accepted is named. -/

section Group

open Text

variable {s : String} {set : KeySet} {e : UsageError}

/-- Why a piece that is not accepted stands for nothing. -/
def UsageError.invalidKey (core : List Char) : UsageError :=
  ⟨.valueValidation, some ("invalid node key '" ++ String.ofList core ++ "'")⟩

theorem readGroup_eq_ok_iff : readGroup s = .ok set ↔ KeySet.read s = .ok set :=
  except_mapError_eq_ok_iff

theorem readGroup_eq_error_iff : readGroup s = .error e ↔
    ∃ core, FirstOffender (s.toList.splitOn ',') core ∧ e = .invalidKey core := by
  rw [readGroup, except_mapError_eq_error_iff]
  constructor
  · rintro ⟨text, hread, rfl⟩
    obtain ⟨core, hfirst, rfl⟩ := KeySet.read_eq_error_iff.mp hread
    exact ⟨core, hfirst, rfl⟩
  · rintro ⟨core, hfirst, rfl⟩
    exact ⟨String.ofList core, KeySet.read_eq_error_iff.mpr ⟨core, hfirst, rfl⟩, rfl⟩

theorem readGroup_keys_eq_ok_iff {keys : List Nat} : (readGroup s).map KeySet.keys = .ok keys ↔
    (∀ p ∈ s.toList.splitOn ',', Accepted p) ∧ keys.Pairwise (· < ·) ∧
      ∀ key, key ∈ keys ↔ ∃ p ∈ s.toList.splitOn ',', HoldsKey p key := by
  have hmap : (readGroup s).map KeySet.keys = .ok keys ↔
      ∃ set, readGroup s = .ok set ∧ set.keys = keys := by
    cases readGroup s with
    | error e => simp [Except.map]
    | ok found => simp [Except.map]
  simp only [hmap, readGroup_eq_ok_iff, KeySet.read_eq_ok_iff]
  constructor
  · rintro ⟨set, ⟨haccepted, hkeys⟩, rfl⟩
    exact ⟨haccepted, set.ascending, hkeys⟩
  · rintro ⟨haccepted, hascending, hkeys⟩
    exact ⟨⟨keys, hascending⟩, ⟨haccepted, hkeys⟩, rfl⟩

theorem exists_readGroup_eq_ok_iff :
    (∃ set, readGroup s = .ok set) ↔ ∀ p ∈ s.toList.splitOn ',', Accepted p := by
  constructor
  · rintro ⟨set, hset⟩
    exact (KeySet.read_eq_ok_iff.mp (readGroup_eq_ok_iff.mp hset)).1
  · intro haccepted
    obtain ⟨keys, hread, -⟩ := readKeys_of_accepted haccepted
    exact ⟨.ofList keys, readGroup_eq_ok_iff.mpr (KeySet.read_of_readKeys_ok hread)⟩

/-- **The grammar of groups.** A value is accepted if and only if each piece between commas is blank or has the
numeral of a key in it, with blanks around it. Then it stands for the keys in its pieces, in ascending order
and each of them once. A value that is not accepted is refused for what is in its first offending piece. Values
with the same in their pieces stand for the same set, in whatever order and however often it is in them, and
every set has a value: its keys between commas. -/
theorem readGroup_grammar (s : String) :
    ((∃ set, readGroup s = .ok set) ↔ ∀ p ∈ s.toList.splitOn ',', Accepted p) ∧
    (∀ keys, (readGroup s).map KeySet.keys = .ok keys ↔
      (∀ p ∈ s.toList.splitOn ',', Accepted p) ∧ keys.Pairwise (· < ·) ∧
        ∀ key, key ∈ keys ↔ ∃ p ∈ s.toList.splitOn ',', HoldsKey p key) ∧
    (∀ e, readGroup s = .error e ↔
      ∃ core, FirstOffender (s.toList.splitOn ',') core ∧ e = .invalidKey core) ∧
    (∀ s' : String, SameCores (s.toList.splitOn ',') (s'.toList.splitOn ',') →
      ∀ set, readGroup s = .ok set ↔ readGroup s' = .ok set) ∧
    ∀ set : KeySet, (∀ key ∈ set.keys, key < 2 ^ 64) → readGroup set.text = .ok set := by
  refine ⟨exists_readGroup_eq_ok_iff, fun _ => readGroup_keys_eq_ok_iff, fun _ => readGroup_eq_error_iff,
    fun s' hsame set => ?_, fun set hbound => readGroup_eq_ok_iff.mpr (KeySet.read_text hbound)⟩
  simp only [readGroup_eq_ok_iff]
  exact ⟨KeySet.read_of_sameCores hsame, KeySet.read_of_sameCores hsame.symm⟩

/-- Five and seven, in the other order, padded and repeated. -/
theorem readGroup_grammar_five_seven :
    SameCores ("5,7".toList.splitOn ',') (" 7,,5 ,7".toList.splitOn ',') ∧
      (∀ set, readGroup "5,7" = .ok set ↔ readGroup " 7,,5 ,7" = .ok set) ∧
      (∀ key ∈ (KeySet.ofList [5, 7]).keys, key < 2 ^ 64) ∧
      readGroup (KeySet.ofList [5, 7]).text = .ok (.ofList [5, 7]) := by
  have hsame : SameCores ("5,7".toList.splitOn ',') (" 7,,5 ,7".toList.splitOn ',') := by
    have hcores : cores ("5,7".toList.splitOn ',') = [['5'], ['7']] := by decide
    have hcores' : cores (" 7,,5 ,7".toList.splitOn ',') = [['7'], ['5'], ['7']] := by decide
    apply sameCores_of_mem_cores_iff
    rw [hcores, hcores']
    grind
  have hbound : ∀ key ∈ (KeySet.ofList [5, 7]).keys, key < 2 ^ 64 := by decide
  obtain ⟨-, -, -, hindependent, hback⟩ := readGroup_grammar "5,7"
  exact ⟨hsame, hindependent _ hsame, hbound, hback _ hbound⟩

example : readGroup " +7,,05 , x" = .error (.invalidKey ['x']) := by decide

end Group

end AsOf
