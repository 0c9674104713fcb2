import AsOf.Text.Basic
import AsOf.Tree.Basic

/-!
# Sets of node keys

Finite sets of node keys, listed in ascending order, and the texts that stand for them.

## Main definitions

* `KeySet`: an ascending list of keys
* `KeySet.insert`, `KeySet.erase`, `KeySet.ofList`: adding, removing, collecting
* `pieces`: the parts of a text between commas
* `readKey?`: the key that a piece stands for
* `KeySet.read`: the set that a text stands for, or the first piece that stands for no key
-/

namespace AsOf

open Text

/-! ## Ascending lists -/

/-- A set of node keys in ascending order. -/
structure KeySet where
  keys : List Nat
  ascending : keys.Pairwise (· < ·)

namespace KeySet

/-- The set without keys. -/
def empty : KeySet := ⟨[], .nil⟩

instance : Inhabited KeySet := ⟨empty⟩

/-- An ascending list with one more key. -/
def insertKey (key : Nat) : List Nat → List Nat
  | [] => [key]
  | k :: ks =>
    if key < k then key :: k :: ks else if key = k then k :: ks else k :: insertKey key ks

theorem mem_insertKey {key k : Nat} {ks : List Nat} :
    k ∈ insertKey key ks ↔ k = key ∨ k ∈ ks := by
  induction ks with
  | nil => simp [insertKey]
  | cons x xs ih =>
    unfold insertKey
    split
    · simp
    · split
      · next h => simp [h]
      · simp only [List.mem_cons, ih]
        grind

theorem pairwise_insertKey {key : Nat} {ks : List Nat} (h : ks.Pairwise (· < ·)) :
    (insertKey key ks).Pairwise (· < ·) := by
  induction ks with
  | nil => simp [insertKey]
  | cons x xs ih =>
    rw [List.pairwise_cons] at h
    unfold insertKey
    split
    · next hlt =>
      refine List.pairwise_cons.mpr ⟨fun y hy => ?_, List.pairwise_cons.mpr h⟩
      rcases List.mem_cons.mp hy with rfl | hy
      · exact hlt
      · exact Nat.lt_trans hlt (h.1 y hy)
    · split
      · exact List.pairwise_cons.mpr h
      · refine List.pairwise_cons.mpr ⟨fun y hy => ?_, ih h.2⟩
        rcases mem_insertKey.mp hy with rfl | hy
        · omega
        · exact h.1 y hy

/-- The set with one more key. -/
def insert (s : KeySet) (key : Nat) : KeySet :=
  ⟨insertKey key s.keys, pairwise_insertKey s.ascending⟩

/-- The set without a key. -/
def erase (s : KeySet) (key : Nat) : KeySet :=
  ⟨s.keys.filter (· != key), s.ascending.filter _⟩

/-- Whether the key is in the set. -/
def contains (s : KeySet) (key : Nat) : Bool := s.keys.contains key

/-- How many keys there are. -/
def size (s : KeySet) : Nat := s.keys.length

/-- Whether there is no key. -/
def isEmpty (s : KeySet) : Bool := s.keys.isEmpty

/-- The set of the keys in a list. -/
def ofList (keys : List Nat) : KeySet := keys.foldl insert empty

instance : DecidableEq KeySet := fun s t =>
  decidable_of_iff (s.keys = t.keys) (by cases s; cases t; simp)

@[simp]
theorem mem_keys_insert {s : KeySet} {key k : Nat} :
    k ∈ (s.insert key).keys ↔ k = key ∨ k ∈ s.keys :=
  mem_insertKey

@[simp]
theorem mem_keys_erase {s : KeySet} {key k : Nat} :
    k ∈ (s.erase key).keys ↔ k ∈ s.keys ∧ k ≠ key := by
  simp [erase]

end KeySet

/-! ## Lists of node keys

Sets of node keys as text: numerals between commas, with blanks around them as one likes. Pieces
without a numeral count for nothing. -/

/-- The parts of a text between commas, at least one. -/
def pieces : List Char → List (List Char)
  | [] => [[]]
  | c :: cs =>
    if c = ',' then [] :: pieces cs
    else
      match pieces cs with
      | [] => [[c]]
      | piece :: rest => (c :: piece) :: rest

/-- The key that a numeral stands for, a plus sign allowed in front of it. -/
def readKey? (cs : List Char) : Option Nat :=
  let ds := match cs with
    | '+' :: ds => ds
    | ds => ds
  if ds.isEmpty ∨ ¬ds.all Char.isDigit then none
  else
    let key := numeralValue ds
    if key < nodeKeyBound then some key else none

/-- The keys that pieces stand for, or the first piece that stands for none. -/
def readKeys : List (List Char) → Except (List Char) (List Nat)
  | [] => .ok []
  | piece :: rest =>
    match readKey? piece with
    | none => .error piece
    | some key => (readKeys rest).map (key :: ·)

/-- The set of keys that a text stands for, or the first piece that stands for no key. -/
def KeySet.read (s : String) : Except String KeySet :=
  match readKeys (((pieces s.toList).map trim).filter (!·.isEmpty)) with
  | .ok keys => .ok (.ofList keys)
  | .error piece => .error (String.ofList piece)

end AsOf
