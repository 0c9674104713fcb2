import AsOf.Text.Basic
import Mathlib.Algebra.Ring.Nat
import Mathlib.Data.List.Induction
import Mathlib.Data.Nat.Digits.Defs

/-!
# Cores and numerals

What is left of a text without the blanks around it, and which numbers numerals denote.

## Main definitions

* `Text.Trims`: the core of a text

## Main results

* `Text.trim_eq_iff`: trimming leaves the core
* `length_padded`, `isDigit_of_mem_padded`, `numeralValue_padded`: padded numerals
* `numeralValue_lt`: the bound of a run of digits
* `numeralValue_eq_ofDigits`: a numeral to the base of ten
-/

namespace AsOf

/-! ## Texts without the blanks around them

A text is blanks, a core and blanks again, and the core neither starts nor ends with a blank. There is one such
core in every text, which is empty if the text is blank, and it is what trimming leaves. -/

namespace Text

variable {cs core left right : List Char}

/-- The text is the core with blanks around it, and the core neither starts nor ends with a blank. -/
structure Trims (cs core : List Char) : Prop where
  around : ∃ left right, cs = left ++ core ++ right ∧ (∀ c ∈ left, isBlank c = true) ∧
    ∀ c ∈ right, isBlank c = true
  head : ∀ c ∈ core.head?, isBlank c = false
  last : ∀ c ∈ core.getLast?, isBlank c = false

/-! ### One end -/

/-- What is cut off in front is blank. -/
theorem exists_append_trimStart (cs : List Char) :
    ∃ left, cs = left ++ trimStart cs ∧ ∀ c ∈ left, isBlank c = true :=
  ⟨cs.takeWhile isBlank, List.takeWhile_append_dropWhile.symm, List.all_eq_true.mp List.all_takeWhile⟩

/-- What is left does not start with a blank. -/
theorem head_trimStart (cs : List Char) : ∀ c ∈ (trimStart cs).head?, isBlank c = false := by
  intro c hc
  have h := List.head?_dropWhile_not isBlank cs
  rw [← trimStart, hc] at h
  exact h

theorem trimStart_append (h : ∀ c ∈ left, isBlank c = true) (cs : List Char) :
    trimStart (left ++ cs) = trimStart cs :=
  List.dropWhile_append_of_pos h

theorem trimStart_eq_self (h : ∀ c ∈ cs.head?, isBlank c = false) : trimStart cs = cs := by
  cases cs with
  | nil => rfl
  | cons c cs => exact trimStart_of_not_blank (h c rfl) cs

/-! ### Both ends -/

theorem trims_trim (cs : List Char) : Trims cs (trim cs) := by
  obtain ⟨left, hleft, hblank⟩ := exists_append_trimStart cs
  obtain ⟨right, hright, hblank'⟩ := exists_append_trimStart (trimStart cs).reverse
  have hsplit : trimStart cs = trim cs ++ right.reverse := by
    rw [trim, ← List.reverse_append, ← hright, List.reverse_reverse]
  refine ⟨⟨left, right.reverse, ?_, hblank, fun c hc => hblank' c (List.mem_reverse.mp hc)⟩, ?_, ?_⟩
  · rw [List.append_assoc, ← hsplit]
    exact hleft
  · intro c hc
    apply head_trimStart cs
    rw [hsplit, List.head?_append, Option.mem_def.mp hc]
    rfl
  · intro c hc
    rw [trim, List.getLast?_reverse] at hc
    exact head_trimStart _ c hc

/-- There is nothing else that trimming could leave. -/
theorem Trims.trim_eq (h : Trims cs core) : trim cs = core := by
  obtain ⟨left, right, rfl, hleft, hright⟩ := h.around
  have hreversed : ∀ c ∈ right.reverse, isBlank c = true := fun c hc => hright c (List.mem_reverse.mp hc)
  rw [trim, List.append_assoc, trimStart_append hleft]
  cases core with
  | nil =>
    have hnil : trimStart right = [] := by
      have hright' := trimStart_append hright []
      rwa [List.append_nil] at hright'
    rw [List.nil_append, hnil]
    rfl
  | cons c cs =>
    have hhead : trimStart (c :: cs ++ right) = c :: cs ++ right := trimStart_eq_self h.head
    have hlast : trimStart (c :: cs).reverse = (c :: cs).reverse := by
      apply trimStart_eq_self
      rw [List.head?_reverse]
      exact h.last
    rw [hhead, List.reverse_append, trimStart_append hreversed, hlast, List.reverse_reverse]

/-- Trimming leaves the core. -/
theorem trim_eq_iff : trim cs = core ↔ Trims cs core := by
  constructor
  · rintro rfl
    exact trims_trim cs
  · exact Trims.trim_eq

theorem Trims.unique {other : List Char} (h : Trims cs core) (h' : Trims cs other) : core = other :=
  h.trim_eq.symm.trans h'.trim_eq

/-- A text without blanks at its ends is its own core. -/
theorem trims_self (hhead : ∀ c ∈ cs.head?, isBlank c = false)
    (hlast : ∀ c ∈ cs.getLast?, isBlank c = false) : Trims cs cs :=
  ⟨⟨[], [], by simp, nofun, nofun⟩, hhead, hlast⟩

end Text

/-! ## Numerals of a fixed width

A number that fits a width is padded to that width exactly, with digits only, and a run of digits
denotes a number that fits its length: the sum of its digits, each times a power of ten. -/

namespace Text

theorem isDigit_digit {d : Nat} (h : d < 10) : (digit d).isDigit = true := by
  have all : ∀ d : Fin 10, (digit d).isDigit = true := by decide
  exact all ⟨d, h⟩

theorem digitValue_lt {c : Char} (h : c.isDigit = true) : digitValue c < 10 := by
  have hc : c.toNat ≤ 57 := by
    simp only [Char.isDigit, Bool.and_eq_true, decide_eq_true_eq] at h
    exact h.2
  rw [digitValue]
  omega

theorem isDigit_of_mem_digits {n : Nat} {c : Char} (hc : c ∈ digits n) : c.isDigit = true := by
  induction n using Nat.strongRecOn with
  | _ n ih =>
    rw [digits] at hc
    split at hc
    · next h => exact List.mem_singleton.mp hc ▸ isDigit_digit h
    · rcases List.mem_append.mp hc with hc | hc
      · exact ih (n / 10) (by omega) hc
      · exact List.mem_singleton.mp hc ▸ isDigit_digit (Nat.mod_lt _ (by decide))

/-- A number below a power of ten has no more digits than the exponent. -/
theorem length_digits_le {w n : Nat} (hw : 0 < w) (h : n < 10 ^ w) : (digits n).length ≤ w := by
  induction w generalizing n with
  | zero => exact absurd hw (Nat.lt_irrefl 0)
  | succ w ih =>
    rw [digits]
    split
    · exact Nat.succ_pos w
    · next hn =>
      rw [Nat.pow_succ] at h
      have hpos : 0 < w := by
        rcases Nat.eq_zero_or_pos w with rfl | hpos
        · omega
        · exact hpos
      rw [List.length_append]
      exact Nat.succ_le_succ (ih hpos (by omega))

theorem numeralValue_replicate_zero_append (k : Nat) (ds : List Char) :
    numeralValue (List.replicate k '0' ++ ds) = numeralValue ds := by
  induction k with
  | zero => rfl
  | succ k ih => exact ih

variable {w n : Nat}

theorem length_padded (hw : 0 < w) (h : n < 10 ^ w) : (padded w n).length = w := by
  have hle := length_digits_le hw h
  rw [padded, List.length_append, List.length_replicate]
  omega

theorem isDigit_of_mem_padded {c : Char} (hc : c ∈ padded w n) : c.isDigit = true := by
  rcases List.mem_append.mp hc with hc | hc
  · rw [List.eq_of_mem_replicate hc]
    decide
  · exact isDigit_of_mem_digits hc

theorem numeralValue_padded (w n : Nat) : numeralValue (padded w n) = n := by
  rw [padded, numeralValue_replicate_zero_append, numeralValue_digits]

/-- A run of digits denotes a number that fits its length. -/
theorem numeralValue_lt {ds : List Char} (h : ∀ c ∈ ds, c.isDigit = true) :
    numeralValue ds < 10 ^ ds.length := by
  induction ds using List.reverseRecOn with
  | nil => exact Nat.one_pos
  | append_singleton ds c ih =>
    have hc := digitValue_lt (h c (by simp))
    have hds := ih fun d hd => h d (List.mem_append_left _ hd)
    rw [numeralValue_append_singleton, List.length_append, List.length_singleton, Nat.pow_succ]
    omega

/-- A run of digits is a numeral to the base of ten, the digits of which count from the end. -/
theorem numeralValue_eq_ofDigits (ds : List Char) :
    numeralValue ds = Nat.ofDigits 10 (ds.reverse.map digitValue) := by
  induction ds using List.reverseRecOn with
  | nil => rfl
  | append_singleton ds c ih =>
    rw [numeralValue_append_singleton, ih, List.reverse_append, List.reverse_singleton, List.singleton_append,
      List.map_cons, Nat.ofDigits_cons, Nat.add_comm]

end Text

end AsOf
