import AsOf.Journal.Record
import AsOf.Json.Basic
import Mathlib.Data.List.Nodup
import Mathlib.Data.List.Perm.Basic
import Mathlib.Data.String.Basic
import Mathlib.Tactic.SplitIfs

/-!
# The line of a record

A record is written as one line that tells what the record says and nothing else. Three facts carry this: the
order of texts is that of their bytes, a quoted text is read as itself, and fields have exactly one order by
their names.

## Main definitions

* `Text.bytes`: the bytes of a text in UTF-8
* `Json.Reader.Escapes`: the three ways in which a character is escaped
* `Record.SortsTo`: fields in the order of their names, equal names as they were
* `Record.read?`: the record that a line tells of

## Main results

* `Text.encode_lt`: the smaller of two characters has the smaller bytes, whatever follows them
* `Text.le_iff_bytes_le`: the order of texts is the order of their bytes
* `Json.Reader.not_mem_quoted`: no control character is left in a quoted text
* `Json.Reader.text_escaped`, `Json.Reader.value_quoted`: a quoted text is read as itself
* `Record.sortsTo_iff`: there is exactly one such order, the one in which the fields are written
* `Record.json_read?_line`: the JSON object that the line holds
* `Record.line_canonical_and_lossless`: one line feed, no dependence on the order of distinct names,
  and nothing lost
-/

namespace AsOf

/-! ## The order of texts by their bytes

Texts are compared character by character. In UTF-8 this is the comparison of their bytes, since
the bytes of the smaller of two characters are smaller already before the shorter of the two forms
ends. -/

namespace Text

/-- The bytes of a text in UTF-8. -/
def bytes (s : String) : List UInt8 := s.toByteArray.data.toList

theorem bytes_eq_flatMap (s : String) : bytes s = s.toList.flatMap String.utf8EncodeChar := by
  rw [bytes, ← String.utf8Encode_toList, List.utf8Encode, List.data_toByteArray]

theorem encode_lt {c d : Char} (h : c < d) (xs ys : List UInt8) :
    String.utf8EncodeChar c ++ xs < String.utf8EncodeChar d ++ ys := by
  have lt : c.val.toNat < d.val.toNat := h
  have bound : d.val.toNat < 0x110000 := by
    rcases d.valid with h | h <;> simp at h ⊢ <;> omega
  unfold String.utf8EncodeChar
  generalize c.val.toNat = m at *
  generalize d.val.toNat = n at *
  dsimp only
  -- no remainder that stands in a byte reaches 256, so that the bytes are compared as numbers
  split_ifs <;>
    simp (disch := omega) only [List.cons_append, List.nil_append, List.cons_lt_cons_iff,
      UInt8.lt_iff_toNat_lt, ← UInt8.toNat_inj, UInt8.toNat_ofNat', Nat.mod_eq_of_lt] <;>
    omega

theorem encodeAll_lt {xs ys : List Char} (h : xs < ys) :
    xs.flatMap String.utf8EncodeChar < ys.flatMap String.utf8EncodeChar := by
  induction h with
  | @nil d ys =>
    rw [List.flatMap_nil, List.flatMap_cons]
    obtain ⟨byte, bytes, form⟩ := List.exists_cons_of_ne_nil (String.utf8EncodeChar_ne_nil (c := d))
    rw [form]
    exact List.nil_lt_cons _ _
  | rel h => exact encode_lt h _ _
  | cons h ih => exact List.append_left_lt ih

theorem bytes_lt_of_lt {s t : String} (h : s < t) : bytes s < bytes t := by
  rw [bytes_eq_flatMap, bytes_eq_flatMap]
  exact encodeAll_lt (String.lt_iff_toList_lt.mp h)

/-- Texts are ordered as their bytes are. -/
theorem le_iff_bytes_le {s t : String} : s ≤ t ↔ bytes s ≤ bytes t := by
  constructor
  · intro h
    rcases Std.le_iff_lt_or_eq.mp h with lt | rfl
    · exact Std.le_of_lt (bytes_lt_of_lt lt)
    · exact Std.le_refl _
  · intro h
    by_contra not_le
    exact Std.not_lt.mpr h (bytes_lt_of_lt (String.not_le.mp not_le))

end Text

/-! ## Quoted texts read back

A text between quotes is read as itself, whatever characters it has and whatever follows the closing
quote, and no character between the quotes is a control character. -/

namespace Json.Reader

open Text

/-- A character as it stands between quotes: behind a backslash as a letter that is short for it or
as its number, or as itself. -/
inductive Escapes (c : Char) : List Char → Prop where
  | short (e : Char) (letter : e.toNat ≥ 0x20) (other : e ≠ 'u')
      (stands : shortEscape? e = some c.toNat) : Escapes c ['\\', e]
  | numbered (control : c.toNat < 0x20) :
      Escapes c ['\\', 'u', '0', '0', hexDigit (c.toNat / 16), hexDigit (c.toNat % 16)]
  | plain (shown : c.toNat ≥ 0x20) (quote : c ≠ '"') (backslash : c ≠ '\\') : Escapes c [c]

theorem escapes_escape (c : Char) : Escapes c (escape c) := by
  unfold escape
  split_ifs with h h h h h h h h
  iterate 7
    · subst h
      exact .short _ (by decide) (by decide) rfl
  · exact .numbered h
  · exact .plain (Nat.le_of_not_lt h) ‹_› ‹_›

theorem hexDigit_ge {d : Nat} (h : d < 16) : (hexDigit d).toNat ≥ 0x20 := by
  have all : ∀ d : Fin 16, (hexDigit d).toNat ≥ 0x20 := by decide
  exact all ⟨d, h⟩

theorem hexValue?_hexDigit {d : Nat} (h : d < 16) : hexValue? (hexDigit d) = some d := by
  have all : ∀ d : Fin 16, hexValue? (hexDigit d) = some d.val := by decide
  exact all ⟨d, h⟩

theorem Escapes.ge_of_mem {c d : Char} {form : List Char} (h : Escapes c form) (hd : d ∈ form) :
    d.toNat ≥ 0x20 := by
  cases h with
  | short e letter =>
    simp only [List.mem_cons, List.not_mem_nil, or_false] at hd
    rcases hd with rfl | rfl
    · decide
    · exact letter
  | numbered control =>
    simp only [List.mem_cons, List.not_mem_nil, or_false] at hd
    rcases hd with rfl | rfl | rfl | rfl | rfl | rfl
    iterate 4
      · decide
    · exact hexDigit_ge (by omega)
    · exact hexDigit_ge (by omega)
  | plain shown => exact List.mem_singleton.mp hd ▸ shown

/-- A quoted text holds no control character, so that it stays on its line. -/
theorem not_mem_quoted {d : Char} (control : d.toNat < 0x20) (s : String) : d ∉ quoted s := by
  intro hd
  simp only [quoted, quote, List.cons_append, List.mem_cons, List.mem_append, List.mem_flatMap,
    List.not_mem_nil, or_false] at hd
  rcases hd with rfl | ⟨c, -, hd⟩ | rfl
  · exact absurd control (by decide)
  · exact absurd ((escapes_escape c).ge_of_mem hd) (Nat.not_le_of_lt control)
  · exact absurd control (by decide)

/-- An escaped character is read as its number. -/
theorem Escapes.units_append {c : Char} {form : List Char} (h : Escapes c form) (cs : List Char) :
    units (form ++ cs) = (units cs).map fun read => (c.toNat :: read.1, read.2) := by
  cases h with
  | short e _ other stands =>
    rw [List.cons_append, List.cons_append, List.nil_append, units]
    · rw [stands]
      cases units cs <;> rfl
    · rintro a b c d rest rfl
      contradiction
  | numbered control =>
    have number : unit? '0' '0' (hexDigit (c.toNat / 16)) (hexDigit (c.toNat % 16)) =
        some c.toNat := by
      have zero : hexValue? '0' = some 0 := rfl
      simp only [unit?, zero, hexValue?_hexDigit (show c.toNat / 16 < 16 by omega),
        hexValue?_hexDigit (show c.toNat % 16 < 16 by omega)]
      exact congrArg some (by omega)
    simp only [List.cons_append, List.nil_append]
    rw [units, number]
    cases units cs <;> rfl
  | plain shown quote backslash =>
    rw [List.cons_append, List.nil_append, units]
    · rw [if_neg (fun h => h.elim (Nat.not_lt_of_le shown) backslash)]
      cases units cs <;> rfl
    · exact fun h => quote h
    · rintro a b d e rest rfl
      contradiction
    · rintro e rest rfl
      contradiction

/-- The escaped characters up to the closing quote are read as their numbers. -/
theorem units_escaped (cs rest : List Char) :
    units (cs.flatMap escape ++ '"' :: rest) = some (cs.map Char.toNat, rest) := by
  induction cs with
  | nil => rw [List.flatMap_nil, List.nil_append, units]; rfl
  | cons c cs ih =>
    rw [List.flatMap_cons, List.append_assoc, (escapes_escape c).units_append, ih]
    rfl

/-- No character is half of a pair, so that numbers of characters spell these characters. -/
theorem characters?_toNat (cs : List Char) : characters? (cs.map Char.toNat) = some cs := by
  have whole (c : Char) : ¬(0xD800 ≤ c.toNat ∧ c.toNat < 0xE000) := by
    have valid : c.toNat < 0xD800 ∨ 0xDFFF < c.toNat ∧ c.toNat < 0x110000 := c.valid
    omega
  induction cs with
  | nil => rfl
  | cons c cs ih =>
    have := whole c
    cases cs with
    | nil => simp [characters?, whole c]
    | cons d cs =>
      rw [List.map_cons, List.map_cons, characters?, if_neg (by omega), if_neg (by omega),
        ← List.map_cons, ih]
      simp

/-- A text is read back from its escaped characters. -/
theorem text_escaped (s : String) (rest : List Char) :
    text (s.toList.flatMap escape ++ '"' :: rest) = some (some s, rest) := by
  rw [text, units_escaped]
  simp [characters?_toNat]

theorem quoted_append (s : String) (rest : List Char) :
    quoted s ++ rest = '"' :: (s.toList.flatMap escape ++ '"' :: rest) := by
  simp [quoted, quote]

theorem skipBlanks_of_shown {c : Char} (h : c ∉ [' ', '\t', '\n', '\r']) (cs : List Char) :
    skipBlanks (c :: cs) = c :: cs := by
  rw [skipBlanks, List.dropWhile_cons_of_neg]
  simpa [and_assoc] using h

/-- A quoted text is the value of that text. -/
theorem value_quoted (fuel : Nat) (s : String) (rest : List Char) :
    value (fuel + 1) (quoted s ++ rest) = some (ofString s, rest) := by
  rw [quoted_append, value, skipBlanks_of_shown (by decide)]
  simp only [text_escaped, Option.map_some]
  rfl

end Json.Reader

/-! ## Canonical and lossless lines

A record is written as one line that tells what the record says and nothing else: which severity,
which event, and which fields, the latter in the order of the bytes of their names. No name or value
can end the line or be taken for another field. -/

namespace Record

open Text Json.Reader

/-! ### The order of the fields -/

/-- The fields of a record in the order of the bytes of their names; fields with the same name stay
in the order in which they were. -/
structure SortsTo (fields sorted : Fields) : Prop where
  perm : sorted.Perm fields
  ordered : sorted.Pairwise fun a b => bytes a.1 ≤ bytes b.1
  stable : ∀ name, sorted.filter (·.1 == name) = fields.filter (·.1 == name)

theorem fieldLe_trans (a b c : String × String) (hab : decide (a.1 ≤ b.1) = true)
    (hbc : decide (b.1 ≤ c.1) = true) : decide (a.1 ≤ c.1) = true :=
  decide_eq_true (String.le_trans (of_decide_eq_true hab) (of_decide_eq_true hbc))

theorem fieldLe_total (a b : String × String) : (decide (a.1 ≤ b.1) || decide (b.1 ≤ a.1)) = true := by
  simpa using String.le_total a.1 b.1

/-- The fields of a record are written in the order of their names. -/
theorem sortsTo_sortFields (fields : Fields) : SortsTo fields (sortFields fields) where
  perm := List.mergeSort_perm ..
  ordered := (List.pairwise_mergeSort fieldLe_trans fieldLe_total fields).imp fun h =>
    le_iff_bytes_le.mp (of_decide_eq_true h)
  stable name := by
    have alike : (fields.filter (·.1 == name)).Pairwise fun a b => decide (a.1 ≤ b.1) = true := by
      refine List.pairwise_of_forall_mem_list fun a ha b hb => ?_
      have ha : a.1 = name := by simpa using (List.mem_filter.mp ha).2
      have hb : b.1 = name := by simpa using (List.mem_filter.mp hb).2
      rw [ha, hb]
      exact decide_eq_true (String.le_refl name)
    have kept : (fields.filter (·.1 == name)).Sublist ((sortFields fields).filter (·.1 == name)) := by
      have := List.sublist_mergeSort fieldLe_trans fieldLe_total alike List.filter_sublist
      simpa [sortFields] using this.filter (·.1 == name)
    exact (kept.eq_of_length ((List.mergeSort_perm ..).filter _).length_eq.symm).symm

theorem mem_iff_of_filter_eq {xs ys : Fields}
    (same : ∀ name, xs.filter (·.1 == name) = ys.filter (·.1 == name)) (f : String × String) :
    f ∈ xs ↔ f ∈ ys := by
  simpa using congrArg (f ∈ ·) (same f.1)

/-- Lists in the order of their names that agree on every single name are equal. -/
theorem eq_of_filter_eq {xs ys : Fields} (hx : xs.Pairwise fun a b => a.1 ≤ b.1)
    (hy : ys.Pairwise fun a b => a.1 ≤ b.1)
    (same : ∀ name, xs.filter (·.1 == name) = ys.filter (·.1 == name)) : xs = ys := by
  have mem_iff := mem_iff_of_filter_eq same
  induction xs generalizing ys with
  | nil => exact (List.eq_nil_iff_forall_not_mem.mpr fun f hf => by simpa using (mem_iff f).mpr hf).symm
  | cons x xs ih =>
    cases ys with
    | nil => simpa using (mem_iff x).mp List.mem_cons_self
    | cons y ys =>
      have hxy : x.1 ≤ y.1 := by
        rcases List.mem_cons.mp ((mem_iff y).mpr List.mem_cons_self) with rfl | later
        · exact String.le_refl _
        · exact (List.pairwise_cons.mp hx).1 y later
      have hyx : y.1 ≤ x.1 := by
        rcases List.mem_cons.mp ((mem_iff x).mp List.mem_cons_self) with rfl | later
        · exact String.le_refl _
        · exact (List.pairwise_cons.mp hy).1 x later
      have first : x.1 = y.1 := String.le_antisymm hxy hyx
      obtain ⟨rfl, -⟩ : x = y ∧ _ := by simpa [first] using same y.1
      have rest (name : String) : xs.filter (·.1 == name) = ys.filter (·.1 == name) := by
        by_cases named : x.1 = name
        · simpa [named] using same name
        · simpa [named] using same name
      exact congrArg (x :: ·) (ih hx.of_cons hy.of_cons rest (mem_iff_of_filter_eq rest))

/-- There is exactly one order that keeps fields with the same name as they are. -/
theorem sortsTo_iff {fields sorted : Fields} : SortsTo fields sorted ↔ sorted = sortFields fields := by
  constructor
  · intro h
    have h' := sortsTo_sortFields fields
    refine eq_of_filter_eq (h.ordered.imp le_iff_bytes_le.mpr) (h'.ordered.imp le_iff_bytes_le.mpr) ?_
    exact fun name => (h.stable name).trans (h'.stable name).symm
  · rintro rfl
    exact sortsTo_sortFields fields

/-- With distinct names it does not matter in which order the fields are given. -/
theorem sortFields_eq_of_perm {fields fields' : Fields} (h : fields'.Perm fields)
    (distinct : (fields.map Prod.fst).Nodup) : sortFields fields' = sortFields fields := by
  have sorts := sortsTo_sortFields fields
  have sorts' := sortsTo_sortFields fields'
  refine List.Perm.eq_of_pairwise (fun f f' hf hf' le le' => ?_) sorts'.ordered sorts.ordered
    (sorts'.perm.trans (h.trans sorts.perm.symm))
  have name : f.1 = f'.1 := String.le_antisymm (le_iff_bytes_le.mpr le) (le_iff_bytes_le.mpr le')
  exact List.inj_on_of_nodup_map distinct ((sorts'.perm.trans h).subset hf) (sorts.perm.subset hf') name

/-! ### The object that a line holds -/

/-- The member of an object that a field is written as. -/
def toMember (field : String × String) : Option String × Json := (some field.1, .ofString field.2)

/-- The fields of a record as they are written, its event and its severity in front. -/
def writtenFields (r : Record) : Fields :=
  ("event", r.event) :: ("severity", r.severity.name) :: sortFields r.fields

theorem printField_append (field : String × String) (cs : List Char) :
    printField field ++ cs =
      '"' :: (field.1.toList.flatMap escape ++ '"' :: ':' :: (quoted field.2 ++ cs)) := by
  rw [printField, List.append_assoc, List.cons_append, quoted_append]

theorem members_printField_comma (fuel : Nat) (field : String × String) (cs : List Char) :
    members (fuel + 2) (printField field ++ ',' :: cs) =
      (members (fuel + 1) cs).map fun read => (toMember field :: read.1, read.2) := by
  rw [printField_append, members]
  simp (disch := decide) only [skipBlanks_of_shown, text_escaped, value_quoted,
    Option.bind_eq_bind, Option.bind_some]
  cases members (fuel + 1) cs <;> rfl

theorem members_printField_brace (fuel : Nat) (field : String × String) (cs : List Char) :
    members (fuel + 2) (printField field ++ '\x7d' :: cs) = some ([toMember field], cs) := by
  rw [printField_append, members]
  simp (disch := decide) only [skipBlanks_of_shown, text_escaped, value_quoted,
    Option.bind_eq_bind, Option.bind_some]
  rfl

/-- Fields are read as members, in order, up to the brace behind the last one. -/
theorem members_printFields {fuel : Nat} (field : String × String) {fields : Fields}
    (enough : fields.length + 2 ≤ fuel) (rest : List Char) :
    members fuel (printField field ++ (fields.flatMap (fun f => ',' :: printField f) ++ '\x7d' :: rest)) =
      some ((field :: fields).map toMember, rest) := by
  obtain ⟨fuel, rfl⟩ : ∃ n, fuel = n + 2 := ⟨fuel - 2, by omega⟩
  induction fields generalizing fuel field with
  | nil => exact members_printField_brace fuel field rest
  | cons next fields ih =>
    rw [List.length_cons] at enough
    obtain ⟨fuel, rfl⟩ := Nat.exists_eq_add_of_le' (show 1 ≤ fuel by omega)
    rw [List.flatMap_cons, List.cons_append, List.cons_append, List.append_assoc,
      members_printField_comma, ih next fuel (by omega)]
    rfl

/-- An object of texts is read with all its members. -/
theorem value_printFields {fuel : Nat} (field : String × String) {fields : Fields}
    (enough : fields.length + 2 ≤ fuel) (rest : List Char) :
    value (fuel + 1) ('\x7b' :: (printField field ++
        (fields.flatMap (fun f => ',' :: printField f) ++ '\x7d' :: rest))) =
      some (.object ((field :: fields).map toMember), rest) := by
  have read := members_printFields field enough rest
  rw [printField_append] at read ⊢
  rw [value]
  simp (disch := decide) only [skipBlanks_of_shown]
  split
  · next brace => simp at brace
  · rw [read, Option.map_some]

theorem length_le_length_flatMap (fields : Fields) :
    fields.length ≤ (fields.flatMap fun f => ',' :: printField f).length := by
  induction fields with
  | nil => exact Nat.le_refl 0
  | cons f fields ih =>
    rw [List.length_cons, List.flatMap_cons, List.length_append, List.length_cons]
    omega

/-- A line is one JSON object with the event, the severity and the fields as members. -/
theorem json_read?_line (r : Record) :
    Json.read? r.line = some (.object (r.writtenFields.map toMember)) := by
  have form : r.printLine = '\x7b' :: (printField ("event", r.event) ++
      (r.writtenFields.tail.flatMap (fun f => ',' :: printField f) ++ ['\x7d', '\n'])) := by
    simp [printLine, writtenFields]
  have enough : r.writtenFields.tail.length + 2 ≤ 2 * r.printLine.length + 1 := by
    have := length_le_length_flatMap r.writtenFields.tail
    simp only [form, List.length_cons, List.length_append]
    omega
  have read := value_printFields ("event", r.event) enough ['\n']
  rw [← form] at read
  rw [Json.read?, line, String.toList_ofList]
  simp only [read, Option.bind_eq_bind, Option.bind_some]
  rfl

/-! ### The record that a line tells of -/

/-- The field that a member of an object is. -/
def ofMember? : Option String × Json → Option (String × String)
  | (some name, .text (some value)) => some (name, value)
  | _ => none

/-- The record that an object tells of: the event and the severity first, then the fields. -/
def ofJson? : Json → Option Record
  | .object members => do
    let (_, event) :: (_, severity) :: fields ← members.mapM ofMember? | none
    return ⟨← Severity.ofName? severity, event, fields⟩
  | _ => none

/-- The record that a line tells of. -/
def read? (line : String) : Option Record := (Json.read? line).bind ofJson?

theorem mapM_ofMember? (fields : Fields) : (fields.map toMember).mapM ofMember? = some fields := by
  induction fields with
  | nil => rfl
  | cons f fields ih => simp [ih, toMember, Json.ofString, ofMember?]

/-- Reading a line gives the record with its fields in order. -/
theorem read?_line (r : Record) : read? r.line = some { r with fields := sortFields r.fields } := by
  rw [read?, json_read?_line, Option.bind_some, ofJson?, mapM_ofMember?]
  simp only [writtenFields, Option.bind_eq_bind, Option.bind_some, Severity.ofName?_name]
  rfl

/-- A line tells the severity, the event and the fields in order, and these alone make the line. -/
theorem line_eq_iff {r r' : Record} : r.line = r'.line ↔
    r.severity = r'.severity ∧ r.event = r'.event ∧ sortFields r.fields = sortFields r'.fields := by
  constructor
  · intro h
    have same : read? r.line = read? r'.line := congrArg read? h
    rw [read?_line, read?_line] at same
    simpa using same
  · rintro ⟨severity, event, fields⟩
    rw [line, line, printLine, printLine, severity, event, fields]

/-- The only line feed of a line is its last character. -/
theorem exists_printLine_eq (r : Record) :
    ∃ shown, '\n' ∉ shown ∧ r.printLine = shown ++ ['\n'] := by
  have unbroken (f : String × String) : '\n' ∉ printField f := by
    simp [printField, not_mem_quoted (show '\n'.toNat < 0x20 by decide)]
  refine ⟨'\x7b' :: printField ("event", r.event) ++ ',' :: printField ("severity", r.severity.name) ++
    (sortFields r.fields).flatMap (fun field => ',' :: printField field) ++ ['\x7d'], ?_, ?_⟩
  · simp [unbroken]
  · simp [printLine]

/-- A line has one line feed, at its end. It is the same in whatever order fields with distinct names
are given. It is the same for two records only if they have the same severity, the same event and,
in the one order by the bytes of the names that keeps repeated names as they are, the same fields;
as it is a JSON object, all of these can be read back from it. -/
theorem line_canonical_and_lossless (r : Record) :
    (r.line.toList.count '\n' = 1 ∧ r.line.toList.getLast? = some '\n') ∧
      (∀ fields : Fields, fields.Perm r.fields → (r.fields.map Prod.fst).Nodup →
        { r with fields := fields }.line = r.line) ∧
      (∀ sorted, SortsTo r.fields sorted ↔ sorted = sortFields r.fields) ∧
      (∀ r' : Record, r.line = r'.line ↔ r.severity = r'.severity ∧ r.event = r'.event ∧
        sortFields r.fields = sortFields r'.fields) ∧
      Json.read? r.line = some (.object (r.writtenFields.map toMember)) ∧
      read? r.line = some { r with fields := sortFields r.fields } := by
  obtain ⟨shown, unbroken, form⟩ := exists_printLine_eq r
  refine ⟨?_, fun fields perm distinct => ?_, fun sorted => sortsTo_iff, fun r' => line_eq_iff,
    json_read?_line r, read?_line r⟩
  · rw [line, String.toList_ofList, form]
    simp [List.count_eq_zero.mpr unbroken]
  · exact line_eq_iff.mpr ⟨rfl, rfl, sortFields_eq_of_perm perm distinct⟩

end Record

end AsOf
