import AsOf.Text.Basic
import AsOf.Text.Quoted

/-!
# JSON

Values as they are written, their text, the grammar in which a text is read, and the ways in which records
and alternatives are told from values.

## Main definitions

* `Numeral`: a number as written
* `Json`: a value
* `Json.depth`, `Json.representable`: how deep a value nests, and whether all its texts and numbers
  have a content
* `Json.print`: the text of a value
* `Json.ofNat`, `Json.ofInt`, `Json.ofString`: plain values
* `Json.Reader.numeral`, `Json.Reader.text`, `Json.Reader.value`: the parts of the grammar
* `Json.read?`: a whole text as one value
* `Json.fields?`: the values of the fields of a record
* `Json.alternative?`: the name of an alternative and what belongs to it
* `Json.string?`, `Json.bool?`, `Json.list?`: plain values
-/

namespace AsOf

open Text

/-! ## JSON values

A value as it is written: members keep their order and their repetitions, numbers keep their
digits. Escapes can spell half of a surrogate pair, which no string holds; such a text is present
in a value but has no content. -/

/-- A number as it is written: sign, digits before the point, digits behind it, exponent. -/
structure Numeral where
  negative : Bool
  whole : List Char
  fraction : Option (List Char)
  exponent : Option Int
deriving DecidableEq, Repr

namespace Numeral

/-- The natural number that a plain run of digits denotes; a sign, a point or an exponent make it
something else. -/
def natural? (n : Numeral) : Option Nat :=
  if n.negative || n.fraction.isSome || n.exponent.isSome then none
  else some (numeralValue n.whole)

/-- A natural number rounded to the 53 binary digits of double precision, a tie to the even one. -/
def roundDouble (n : Nat) : Nat :=
  let unit := 1 <<< (n.log2 - 52)
  let quotient := n / unit
  let twice := 2 * (n % unit)
  if twice < unit ∨ (twice = unit ∧ quotient % 2 = 0) then quotient * unit
  else (quotient + 1) * unit

/-- What fits 53 binary digits is not changed. -/
theorem roundDouble_of_lt {n : Nat} (h : n < 1 <<< 53) : roundDouble n = n := by
  rw [Nat.one_shiftLeft] at h
  have exact : n.log2 - 52 = 0 := by
    by_cases h0 : n = 0
    · simp [h0]
    · have := (Nat.log2_lt h0).mpr h
      omega
  simp [roundDouble, exact, Nat.mod_one]

/-- The value of the first digits, as many as a word of 64 bits holds, and how many are left. -/
def significand (value : Nat) : List Char → Nat × Nat
  | [] => (value, 0)
  | d :: ds =>
    let next := 10 * value + digitValue d
    if next < 1 <<< 64 then significand next ds else (value, ds.length + 1)

/-- Whether the number is finite in double precision: the first digits and the power of ten that
they are multiplied by are rounded each, and their product once more. -/
def isFinite (n : Numeral) : Bool :=
  let fraction := n.fraction.getD []
  let (value, left) := significand 0 (n.whole ++ fraction)
  let exponent : Int := n.exponent.getD 0 + left - fraction.length
  if value = 0 ∨ exponent < 0 then true
  else if 308 < exponent then false
  else roundDouble (roundDouble value * roundDouble (Nat.pow 10 exponent.toNat)) < 1 <<< 1024

end Numeral

/-- A JSON value as it is written. A text without content, `none`, is one that spells half of a
surrogate pair. -/
inductive Json where
  | null
  | bool (value : Bool)
  | number (value : Numeral)
  | text (content : Option String)
  | array (items : List Json)
  | object (members : List (Option String × Json))

namespace Json

mutual

/-- How many arrays and objects lie around the innermost value, the outermost one included. -/
def depth : Json → Nat
  | array items => depthOfItems items + 1
  | object members => depthOfMembers members + 1
  | _ => 0

/-- The depth of the deepest item. -/
def depthOfItems : List Json → Nat
  | [] => 0
  | item :: rest => max (depth item) (depthOfItems rest)

/-- The depth of the deepest member. -/
def depthOfMembers : List (Option String × Json) → Nat
  | [] => 0
  | (_, value) :: rest => max (depth value) (depthOfMembers rest)

end

mutual

/-- Whether every text in the value has a content and every number is finite. -/
def representable : Json → Bool
  | number value => value.isFinite
  | text content => content.isSome
  | array items => representableItems items
  | object members => representableMembers members
  | _ => true

/-- Whether every item is representable. -/
def representableItems : List Json → Bool
  | [] => true
  | item :: rest => representable item && representableItems rest

/-- Whether every member is representable, its key included. -/
def representableMembers : List (Option String × Json) → Bool
  | [] => true
  | (key, value) :: rest => key.isSome && representable value && representableMembers rest

end

end Json

/-! ## Writing JSON

A value as one line without blanks, members in the order in which they are given. -/

/-- A number as it is written. -/
def Numeral.print (n : Numeral) : List Char :=
  (if n.negative then ['-'] else []) ++ n.whole ++
    (match n.fraction with
      | some ds => '.' :: ds
      | none => []) ++
    match n.exponent with
      | some e => 'e' :: (signedDecimal e).toList
      | none => []

namespace Json

/-- A natural number. -/
def ofNat (n : Nat) : Json := number ⟨false, digits n, none, none⟩

/-- A text. -/
def ofString (s : String) : Json := text (some s)

mutual

/-- The text of a value. -/
def print : Json → List Char
  | null => ['n', 'u', 'l', 'l']
  | bool true => ['t', 'r', 'u', 'e']
  | bool false => ['f', 'a', 'l', 's', 'e']
  | number value => value.print
  | text content => quoted (content.getD "")
  | array items => '[' :: printItems items ++ [']']
  | object members => '\x7b' :: printMembers members ++ ['\x7d']

/-- The texts of the items, a comma between each two. -/
def printItems : List Json → List Char
  | [] => []
  | [item] => print item
  | item :: rest => print item ++ ',' :: printItems rest

/-- The texts of the members, a comma between each two. -/
def printMembers : List (Option String × Json) → List Char
  | [] => []
  | [(key, value)] => quoted (key.getD "") ++ ':' :: print value
  | (key, value) :: rest => quoted (key.getD "") ++ ':' :: print value ++ ',' :: printMembers rest

end

/-- An object with the given members. -/
def record (members : List (String × Json)) : Json :=
  object (members.map fun (key, value) => (some key, value))

end Json

/-! ## Reading JSON

The grammar of JSON text: one value between blanks, where a blank is a space, a tab, a line feed
or a carriage return. Every reader takes a text and gives what it read and the rest of the text. -/

namespace Json

namespace Reader

/-- The text without the blanks at its start. -/
def skipBlanks (cs : List Char) : List Char :=
  cs.dropWhile fun c => c == ' ' || c == '\t' || c == '\n' || c == '\r'

/-! ### Texts

A text is read in two steps, since an escape can spell half of a character: first to code points and
surrogate halves, which every well-formed text has, and then to characters, which not every one
has. -/

/-- The value of a hexadecimal digit of either case. -/
def hexValue? (c : Char) : Option Nat :=
  if '0' ≤ c ∧ c ≤ '9' then some (c.toNat - 48)
  else if 'a' ≤ c ∧ c ≤ 'f' then some (c.toNat - 87)
  else if 'A' ≤ c ∧ c ≤ 'F' then some (c.toNat - 55)
  else none

/-- The number that four hexadecimal digits denote. -/
def unit? (a b c d : Char) : Option Nat := do
  return (((← hexValue? a) * 16 + (← hexValue? b)) * 16 + (← hexValue? c)) * 16 + (← hexValue? d)

/-- The character that a backslash and one letter stand for. -/
def shortEscape? : Char → Option Nat
  | '"' => some 0x22
  | '\\' => some 0x5C
  | '/' => some 0x2F
  | 'b' => some 0x08
  | 'f' => some 0x0C
  | 'n' => some 0x0A
  | 'r' => some 0x0D
  | 't' => some 0x09
  | _ => none

/-- The code points and surrogate halves up to the closing quote. Control characters below U+0020
have to be escaped. -/
def units : List Char → Option (List Nat × List Char)
  | [] => none
  | '"' :: rest => some ([], rest)
  | '\\' :: 'u' :: a :: b :: c :: d :: rest => do
    let unit ← unit? a b c d
    let (us, rest) ← units rest
    return (unit :: us, rest)
  | '\\' :: e :: rest => do
    let unit ← shortEscape? e
    let (us, rest) ← units rest
    return (unit :: us, rest)
  | c :: rest => do
    if c.toNat < 0x20 ∨ c = '\\' then none
    else
      let (us, rest) ← units rest
      return (c.toNat :: us, rest)

/-- The characters that code points and surrogate halves spell; a half without its partner spells
nothing. -/
def characters? : List Nat → Option (List Char)
  | [] => some []
  | [u] => if 0xD800 ≤ u ∧ u < 0xE000 then none else some [Char.ofNat u]
  | u :: v :: rest =>
    if 0xD800 ≤ u ∧ u < 0xDC00 then
      if 0xDC00 ≤ v ∧ v < 0xE000 then
        (characters? rest).map (Char.ofNat (0x10000 + (u - 0xD800) * 0x400 + (v - 0xDC00)) :: ·)
      else none
    else if 0xDC00 ≤ u ∧ u < 0xE000 then none
    else (characters? (v :: rest)).map (Char.ofNat u :: ·)

/-- A text behind its opening quote: its content, if it has one, and the rest. -/
def text (cs : List Char) : Option (Option String × List Char) := do
  let (us, rest) ← units cs
  return ((characters? us).map String.ofList, rest)

/-! ### Numbers -/

/-- The digits behind a point, if there is a point. -/
def fraction : List Char → Option (Option (List Char) × List Char)
  | '.' :: cs =>
    let (ds, rest) := spanDigits cs
    if ds.isEmpty then none else some (some ds, rest)
  | cs => some (none, cs)

/-- The exponent, if there is one. -/
def exponent : List Char → Option (Option Int × List Char)
  | c :: cs =>
    if c = 'e' ∨ c = 'E' then
      let (negative, cs) := match cs with
        | '+' :: cs => (false, cs)
        | '-' :: cs => (true, cs)
        | cs => (false, cs)
      let (ds, rest) := spanDigits cs
      if ds.isEmpty then none
      else
        let magnitude : Int := numeralValue ds
        some (some (if negative then -magnitude else magnitude), rest)
    else some (none, c :: cs)
  | [] => some (none, [])

/-- A number: digits without leading zeros, with an optional sign, fraction and exponent. -/
def numeral (cs : List Char) : Option (Numeral × List Char) := do
  let (negative, cs) := match cs with
    | '-' :: cs => (true, cs)
    | cs => (false, cs)
  let (ds, cs) := spanDigits cs
  if ds.isEmpty ∨ (ds.head? = some '0' ∧ ds.length ≠ 1) then none
  else
    let (fraction, cs) ← fraction cs
    let (exponent, cs) ← exponent cs
    return (⟨negative, ds, fraction, exponent⟩, cs)

/-! ### Values

Every item and every nesting takes a character of the text, so a fuel of twice its length is never
used up. -/

/-- The rest of a text behind a given word. -/
def word : List Char → List Char → Option (List Char)
  | [], cs => some cs
  | w :: ws, c :: cs => if w = c then word ws cs else none
  | _ :: _, [] => none

mutual

/-- One value at the start of a text. The fuel bounds the depth of the recursion. -/
def value (fuel : Nat) (cs : List Char) : Option (Json × List Char) :=
  match fuel with
  | 0 => none
  | fuel + 1 =>
    match skipBlanks cs with
    | '"' :: cs => (text cs).map fun (content, rest) => (.text content, rest)
    | '[' :: cs =>
      match skipBlanks cs with
      | ']' :: rest => some (.array [], rest)
      | cs => (items fuel cs).map fun (items, rest) => (.array items, rest)
    | '\x7b' :: cs =>
      match skipBlanks cs with
      | '\x7d' :: rest => some (.object [], rest)
      | cs => (members fuel cs).map fun (members, rest) => (.object members, rest)
    | 'n' :: cs => (word ['u', 'l', 'l'] cs).map (.null, ·)
    | 't' :: cs => (word ['r', 'u', 'e'] cs).map (.bool true, ·)
    | 'f' :: cs => (word ['a', 'l', 's', 'e'] cs).map (.bool false, ·)
    | cs => (numeral cs).map fun (n, rest) => (.number n, rest)

/-- The items of an array up to its closing bracket, at least one. -/
def items (fuel : Nat) (cs : List Char) : Option (List Json × List Char) :=
  match fuel with
  | 0 => none
  | fuel + 1 => do
    let (item, cs) ← value fuel cs
    match skipBlanks cs with
    | ',' :: cs =>
      let (rest, cs) ← items fuel cs
      return (item :: rest, cs)
    | ']' :: cs => return ([item], cs)
    | _ => none

/-- The members of an object up to its closing brace, at least one. -/
def members (fuel : Nat) (cs : List Char) : Option (List (Option String × Json) × List Char) :=
  match fuel with
  | 0 => none
  | fuel + 1 => do
    let '"' :: cs := skipBlanks cs | none
    let (key, cs) ← text cs
    let ':' :: cs := skipBlanks cs | none
    let (item, cs) ← value fuel cs
    match skipBlanks cs with
    | ',' :: cs =>
      let (rest, cs) ← members fuel cs
      return ((key, item) :: rest, cs)
    | '\x7d' :: cs => return ([(key, item)], cs)
    | _ => none

end

end Reader

/-- The value that a text holds, blanks around it allowed. -/
def read? (s : String) : Option Json := do
  let cs := s.toList
  let (value, rest) ← Reader.value (2 * cs.length + 2) cs
  if (Reader.skipBlanks rest).isEmpty then some value else none

end Json

/-! ## Records and alternatives in JSON

The two ways in which a record is written, by the names of its fields or as an array in the order
of its fields, and the two ways in which one of several alternatives is written, as its name or as
an object whose only member it is. -/

namespace Json

/-- The content of a text that has one. -/
def string? : Json → Option String
  | text content => content
  | _ => none

/-- A truth value. -/
def bool? : Json → Option Bool
  | bool value => some value
  | _ => none

/-- A natural number below a bound, written as digits alone. -/
def natural? (bound : Nat) : Json → Option Nat
  | number value => value.natural?.filter (· < bound)
  | _ => none

/-- An array all of whose items are read. -/
def list? {α : Type} (item? : Json → Option α) : Json → Option (List α)
  | array items => items.mapM item?
  | _ => none

/-- The values of one field among the members of an object: none, one, or no answer if the field is
repeated. -/
def member? (name : String) (members : List (Option String × Json)) : Option (Option Json) :=
  match members.filter (·.1 == some name) with
  | [] => some none
  | [(_, value)] => some (some value)
  | _ => none

/-- The values of the fields of a record in the order of `names`, `none` for one that is missing.
An object may have further members but must not repeat a field; an array may leave out the last
fields but must not have more items than there are fields. -/
def fields? (names : List String) : Json → Option (List (Option Json))
  | object members =>
    if members.all (·.1.isSome) then names.mapM (member? · members) else none
  | array items =>
    if items.length ≤ names.length then
      some (items.map some ++ List.replicate (names.length - items.length) none)
    else none
  | _ => none

/-- The name of an alternative, and what belongs to it unless the name stands alone. -/
def alternative? : Json → Option (String × Option Json)
  | text (some name) => some (name, none)
  | object [(some name, value)] => some (name, some value)
  | _ => none

/-- Whether nothing belongs to an alternative: its name stands alone or goes with `null`. -/
def isBare : Option Json → Bool
  | none => true
  | some null => true
  | some _ => false

end Json

end AsOf
