/-!
# Blanks and numerals

What every grammar of texts needs: which characters are blank, and how natural numbers are written.

## Main definitions

* `isBlank`: the property
* `trimStart`, `trim`: a text without leading blanks, without blanks at either end
* `digits`: the numeral of a number, without leading zeros
* `numeralValue`: the number that a sequence of digits denotes
* `padded`: a numeral of at least a given width, filled with zeros on the left
* `spanDigits`: the run of digits that a text starts with, and the rest
-/

namespace AsOf

/-! ## Blank characters

The characters with the Unicode property `White_Space`, and the removal of a run of them from
the ends of a text. -/

namespace Text

/-- Whether a character has the Unicode property `White_Space`. -/
def isBlank (c : Char) : Bool :=
  let n := c.toNat
  (9 ≤ n && n ≤ 13) || n == 0x20 || n == 0x85 || n == 0xA0 || n == 0x1680 ||
    (0x2000 ≤ n && n ≤ 0x200A) || n == 0x2028 || n == 0x2029 || n == 0x202F ||
    n == 0x205F || n == 0x3000

/-- The text without its leading blanks. -/
def trimStart (cs : List Char) : List Char :=
  cs.dropWhile isBlank

/-- The text without its blanks at either end. -/
def trim (cs : List Char) : List Char :=
  (trimStart (trimStart cs).reverse).reverse

theorem trimStart_of_not_blank {c : Char} (h : isBlank c = false) (cs : List Char) :
    trimStart (c :: cs) = c :: cs := by
  simp [trimStart, h]

theorem isBlank_of_isWhitespace {c : Char} (h : c.isWhitespace = true) : isBlank c = true := by
  simp only [Char.isWhitespace, Bool.or_eq_true, decide_eq_true_eq] at h
  rcases h with ((rfl | rfl) | rfl) | rfl <;> decide

/-! ## Decimal numerals

Natural numbers as sequences of the digits `0` to `9`. -/

/-- The digit of a number below ten. -/
def digit (d : Nat) : Char := Char.ofNat (48 + d)

/-- The number that a digit denotes. -/
def digitValue (c : Char) : Nat := c.toNat - 48

/-- The decimal numeral of `n`, without leading zeros. -/
def digits (n : Nat) : List Char :=
  if n < 10 then [digit n] else digits (n / 10) ++ [digit (n % 10)]
termination_by n

/-- The number that a sequence of digits denotes, leading zeros allowed. -/
def numeralValue (ds : List Char) : Nat :=
  ds.foldl (fun v c => 10 * v + digitValue c) 0

/-- The decimal numeral of `n`, filled with zeros on the left up to `width` digits. -/
def padded (width n : Nat) : List Char :=
  List.replicate (width - (digits n).length) '0' ++ digits n

/-- The digits that a text starts with, and what follows them. -/
def spanDigits (cs : List Char) : List Char × List Char :=
  (cs.takeWhile Char.isDigit, cs.dropWhile Char.isDigit)

/-- The numeral of `n` as a string. -/
def decimal (n : Nat) : String := String.ofList (digits n)

/-- The numeral of an integer, a minus sign first if it is negative. -/
def signedDecimal : Int → String
  | .ofNat n => decimal n
  | .negSucc n => "-" ++ decimal (n + 1)

theorem numeralValue_append_singleton (ds : List Char) (c : Char) :
    numeralValue (ds ++ [c]) = 10 * numeralValue ds + digitValue c := by
  simp [numeralValue, List.foldl_append]

theorem digitValue_digit {d : Nat} (h : d < 10) : digitValue (digit d) = d := by
  have all : ∀ d : Fin 10, digitValue (digit d) = d := by decide
  exact all ⟨d, h⟩

/-- Reading the numeral of a number gives the number back. -/
theorem numeralValue_digits (n : Nat) : numeralValue (digits n) = n := by
  induction n using Nat.strongRecOn with
  | _ n ih =>
    rw [digits]
    split
    · next h => simp [numeralValue, digitValue_digit h]
    · rw [numeralValue_append_singleton, ih (n / 10) (by omega),
        digitValue_digit (Nat.mod_lt _ (by decide))]
      omega

end Text

end AsOf
