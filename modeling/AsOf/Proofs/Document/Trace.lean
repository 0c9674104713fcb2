import AsOf.Proofs.Document.Draining
import AsOf.Proofs.Resource.Planted

/-!
# The trace of a stream

What the calls of `next` on a stream yield is fixed by the groups and the tree: group by group, one
result for each key, and one pause for a group without keys. Behind the last group there are pauses
only, even if the source of groups would go on behind the end that it reported. A key that names no
node is refused; the next call goes on with the next key.

The proof goes call by call. What is still to come of the trace is what the keys at hand are owed, and
behind that the trace of the groups that have not been drawn. A call takes the first result off, and
it draws a group only if no key is at hand.

## Main definitions

* `Transaction.owed`: the result that is owed for a key
* `ItemStream.source`, `ItemStream.trace`: groups, and the results of the calls that serve them
* `ItemStream.called`: the stream after some calls
* `ItemStream.Progress`: where a stream is after some calls

## Main results

* `ItemStream.advance_eq`: a key is served with what is owed for it
* `ItemStream.Progress.step`: what one more call yields, and where the stream is behind it
* `ItemStream.progress_called`: where a stream is after any number of calls
* `next_follows_trace`: what the calls yield and leave
-/

namespace AsOf

open Observed

/-- The result that is owed for a key: the node with the key as an item, or the error for a node that
the tree does not have. -/
def Transaction.owed (t : Transaction) (collection key : Nat) : Except StoreError (Option Item) :=
  match t.tree.get? key with
  | some node => .ok (some ⟨collection, key, t.base.number, node.kind⟩)
  | none => .error (.nodeNotFound key t.base.number)

namespace ItemStream

/-- A source that yields groups and reports its end; it may resume behind that. -/
def source (groups : List (List Nat)) (resumed : Option (List (Option (List Nat)))) :
    List (Option (List Nat)) :=
  groups.map some ++ resumed.elim [] (none :: ·)

/-- The results of the calls that serve a group: one for each key, or one pause where there is no
key. -/
def groupTrace (t : Transaction) (collection : Nat) :
    List Nat → List (Except StoreError (Option Item))
  | [] => [.ok none]
  | key :: keys => t.owed collection key :: keys.map (t.owed collection)

/-- The results of the calls that serve all groups. -/
def trace (t : Transaction) (collection : Nat) (groups : List (List Nat)) :
    List (Except StoreError (Option Item)) :=
  groups.flatMap (groupTrace t collection)

/-- The keys of the items among some results. -/
def servedKeys (results : List (Except StoreError (Option Item))) : List Nat :=
  results.filterMap fun
    | .ok (some item) => some item.nodeKey
    | _ => none

/-- The stream, and what is counted and written, after some calls of `next`. -/
def called (o : Observed ItemStream) : Nat → Observed ItemStream
  | 0 => o
  | calls + 1 => (next (called o calls)).2

/-- The stream behind a result: an item is counted, and the cursor is on its node. -/
def behind (s : ItemStream) (result : Except StoreError (Option Item)) : ItemStream :=
  { s with
    yielded := s.yielded + (servedKeys [result]).length
    cursor := { s.cursor with cursor := (servedKeys [result]).getLastD s.cursor.cursor } }

variable {s : ItemStream} {o : Observed ItemStream} {key : Nat} {keys : List Nat}
  {results : List (Except StoreError (Option Item))} {result : Except StoreError (Option Item)}

theorem servedKeys_append (results more : List (Except StoreError (Option Item))) :
    servedKeys (results ++ more) = servedKeys results ++ servedKeys more := by
  simp only [servedKeys, List.filterMap_append]

/-! ## One call -/

/-- The next key at hand is served with what is owed for it. -/
theorem advance_eq (keyed : s.cursor.tree.Keyed) (hopen : s.cursor.closed = false) (c : Counters)
    (j : Journal) (key : Nat) :
    advance ⟨{ s with keys := key :: s.keys }, c, j⟩ =
      (s.cursor.owed s.collection key, ⟨s.behind (s.cursor.owed s.collection key), c, j⟩) := by
  cases hnode : s.cursor.tree.get? key with
  | some node =>
    have hmove := Transaction.moveTo_of_contains hopen (Tree.contains_of_get? hnode)
    have hitem := Transaction.item_of_get? (t := { s.cursor with cursor := key }) hopen hnode s.collection
    rw [keyed.key_eq hnode] at hitem
    simp only [advance, serve, hmove, hitem, Transaction.owed, hnode]
    rfl
  | none =>
    have hmove := Transaction.moveTo_of_not_contains hopen (Tree.contains_eq_false_iff.mpr hnode)
    simp only [advance, serve, hmove, Transaction.owed, hnode]
    rfl

theorem next_of_exhausted (h : o.state.exhausted = true) : next o = (.ok none, o) := by
  unfold next
  rw [if_pos h]

/-- A key that is at hand is taken. -/
theorem next_of_keys (keyed : o.state.cursor.tree.Keyed) (hopen : o.state.cursor.closed = false)
    (hs : o.state.exhausted = false) (hkeys : o.state.keys = key :: keys)
    (hresult : o.state.cursor.owed o.state.collection key = result) :
    next o = (result, { o with state := behind { o.state with keys } result }) := by
  have hadvance := advance_eq (s := { o.state with keys }) keyed hopen o.counters o.journal key
  rw [hresult, ← hkeys] at hadvance
  unfold next
  rw [if_neg (by simp [hs]), if_neg (by simp [hkeys])]
  exact hadvance

/-- Where no key is at hand, the next group is drawn, and its first key is taken if it has one. -/
theorem next_of_group {group : List Nat} {groups : List (Option (List Nat))}
    (keyed : o.state.cursor.tree.Keyed) (hopen : o.state.cursor.closed = false)
    (hs : o.state.exhausted = false) (hkeys : o.state.keys = [])
    (hgroups : o.state.groups = some group :: groups)
    (htrace : groupTrace o.state.cursor o.state.collection group = result :: results) :
    ∃ keys, results = keys.map (o.state.cursor.owed o.state.collection) ∧
      next o = (result, { o with state := behind { o.state with groups, keys } result }) := by
  have hnext : next o = advance { o with state := { o.state with groups, keys := group } } := by
    unfold next
    simp [hs, hkeys, hgroups]
  cases group with
  | nil =>
    obtain ⟨rfl, rfl⟩ := List.cons.inj htrace
    exact ⟨[], rfl, hnext⟩
  | cons key keys =>
    obtain ⟨rfl, rfl⟩ := List.cons.inj htrace
    refine ⟨keys, rfl, hnext.trans ?_⟩
    exact advance_eq (s := { o.state with groups, keys }) keyed hopen o.counters o.journal key

/-- Where no group is left, the stream comes to its end. -/
theorem next_of_end {resumed : Option (List (Option (List Nat)))} (hs : o.state.exhausted = false)
    (hkeys : o.state.keys = []) (hgroups : o.state.groups = source [] resumed) :
    (next o).1 = .ok none ∧ (next o).2.state.exhausted = true ∧
      (next o).2.state.collection = o.state.collection ∧
      (next o).2.state.yielded = o.state.yielded ∧ (next o).2.state.cursor = o.state.cursor := by
  unfold next
  cases resumed <;> simp [hs, hkeys, hgroups, source, finish, finished]

/-! ## Where a stream is after some calls -/

section Progress

variable {t : Transaction} {collection : Nat} {groups : List (List Nat)}
  {resumed : Option (List (Option (List Nat)))} {calls : Nat}

theorem trace_cons (group : List Nat) (groups : List (List Nat)) :
    trace t collection (group :: groups) = groupTrace t collection group ++ trace t collection groups :=
  List.flatMap_cons

/-- Every group has a result. -/
theorem exists_groupTrace (t : Transaction) (collection : Nat) (group : List Nat) :
    ∃ result results, groupTrace t collection group = result :: results := by
  cases group with
  | nil => exact ⟨_, [], rfl⟩
  | cons key keys => exact ⟨_, _, rfl⟩

theorem eq_nil_of_trace (h : trace t collection groups = []) : groups = [] := by
  cases groups with
  | nil => rfl
  | cons group groups =>
    obtain ⟨result, results, hgroup⟩ := exists_groupTrace t collection group
    rw [trace_cons, hgroup] at h
    cases h

theorem length_trace_take_add (groups : List (List Nat)) (n : Nat) :
    (trace t collection (groups.take n)).length + (trace t collection (groups.drop n)).length =
      (trace t collection groups).length := by
  rw [← List.length_append, trace, trace, ← List.flatMap_append, List.take_append_drop]
  rfl

/-- Where the stream is that passes through groups, after some calls: so many items were yielded, and
the cursor is on the last of them. Up to the end of the trace, the results still to come are those for
the keys at hand and those for the groups that have not been drawn, and all results for the groups
drawn earlier were among those of the calls. Behind it, the stream is exhausted. -/
structure Progress (t : Transaction) (collection : Nat) (groups : List (List Nat))
    (resumed : Option (List (Option (List Nat)))) (calls : Nat) (s : ItemStream) : Prop where
  collection_eq : s.collection = collection
  yielded_eq : s.yielded = (servedKeys ((trace t collection groups).take calls)).length
  cursor_eq : s.cursor =
    { t with cursor := (servedKeys ((trace t collection groups).take calls)).getLastD t.cursor }
  pending : calls ≤ (trace t collection groups).length → s.exhausted = false ∧
    ∃ drawn, s.groups = source (groups.drop drawn) resumed ∧
      (trace t collection groups).drop calls =
        s.keys.map (t.owed collection) ++ trace t collection (groups.drop drawn) ∧
      ∀ i < drawn, (trace t collection (groups.take i)).length < calls
  ended : (trace t collection groups).length < calls → s.exhausted = true

theorem progress_new : Progress t collection groups resumed 0 (.new collection (source groups resumed) t) where
  collection_eq := rfl
  yielded_eq := rfl
  cursor_eq := rfl
  pending _ := ⟨rfl, 0, rfl, rfl, fun i hi => absurd hi (Nat.not_lt_zero i)⟩
  ended h := absurd h (Nat.not_lt_zero _)

/-- A stream that took the next result off the trace has made progress. -/
theorem Progress.behind {s' : ItemStream} (h : Progress t collection groups resumed calls s)
    (drawn : Nat)
    (hresult : (trace t collection groups)[calls]? = some result) (hs : s'.exhausted = false)
    (hcollection : s'.collection = s.collection) (hyielded : s'.yielded = s.yielded)
    (hcursor : s'.cursor = s.cursor) (hgroups : s'.groups = source (groups.drop drawn) resumed)
    (hdrop : (trace t collection groups).drop (calls + 1) =
      s'.keys.map (t.owed collection) ++ trace t collection (groups.drop drawn))
    (hdrawn : ∀ i < drawn, (trace t collection (groups.take i)).length < calls + 1) :
    Progress t collection groups resumed (calls + 1) (s'.behind result) := by
  have htake : (trace t collection groups).take (calls + 1) =
      (trace t collection groups).take calls ++ [result] := by
    rw [List.take_add_one, hresult]
    rfl
  have hlt : calls < (trace t collection groups).length := (List.getElem?_eq_some_iff.mp hresult).1
  refine ⟨hcollection.trans h.collection_eq, ?_, ?_, fun _ => ?_, fun hgt => ?_⟩
  · rw [htake, servedKeys_append, List.length_append, ← h.yielded_eq, ← hyielded]
    rfl
  · rw [htake, servedKeys_append, ItemStream.behind]
    simp only [hcursor, h.cursor_eq, List.getLastD_eq_getLast?, List.getLast?_append, Option.getD_or]
  · exact ⟨hs, drawn, hgroups, hdrop, hdrawn⟩
  · omega

/-- As long as results are still to come, a call yields the next one. -/
theorem Progress.serves (keyed : t.tree.Keyed) (hopen : t.closed = false)
    (h : Progress t collection groups resumed calls o.state)
    (hlt : calls < (trace t collection groups).length) :
    (next o).1 = (trace t collection groups)[calls] ∧
      Progress t collection groups resumed (calls + 1) (next o).2.state := by
  have hcursor : o.state.cursor.tree.Keyed ∧ o.state.cursor.closed = false := by
    rw [h.cursor_eq]
    exact ⟨keyed, hopen⟩
  have howed : o.state.cursor.owed o.state.collection = t.owed collection := by
    rw [h.cursor_eq, h.collection_eq]
    rfl
  have hresult := List.getElem?_eq_getElem hlt
  obtain ⟨hs, drawn, hgroups, hdrop, hdrawn⟩ := h.pending (Nat.le_of_lt hlt)
  rw [List.drop_eq_getElem_cons hlt] at hdrop
  have hearlier (i : Nat) (hi : i < drawn) :
      (trace t collection (groups.take i)).length < calls + 1 :=
    Nat.lt_succ_of_lt (hdrawn i hi)
  cases hkeys : o.state.keys with
  | cons key keys =>
    rw [hkeys, List.map_cons, List.cons_append] at hdrop
    obtain ⟨hfirst, hrest⟩ := List.cons.inj hdrop
    rw [next_of_keys hcursor.1 hcursor.2 hs hkeys ((congrFun howed key).trans hfirst.symm)]
    exact ⟨rfl, h.behind drawn hresult hs rfl rfl rfl hgroups hrest hearlier⟩
  | nil =>
    rw [hkeys, List.map_nil, List.nil_append] at hdrop
    cases hdrawing : groups.drop drawn with
    | nil =>
      rw [hdrawing] at hdrop
      cases hdrop
    | cons group rest =>
      rw [hdrawing] at hgroups
      obtain ⟨first, results, hgroup⟩ := exists_groupTrace t collection group
      have hdropped := hdrop
      rw [hdrawing, trace_cons, hgroup, List.cons_append] at hdropped
      obtain ⟨hfirst, hrest⟩ := List.cons.inj hdropped
      have hgroup' : groupTrace o.state.cursor o.state.collection group =
          (trace t collection groups)[calls] :: results := by
        rw [hfirst, ← hgroup, h.collection_eq, h.cursor_eq]
        cases group <;> rfl
      obtain ⟨keys, hkeys', hnext⟩ := next_of_group hcursor.1 hcursor.2 hs hkeys hgroups hgroup'
      have hbehind : groups.drop (drawn + 1) = rest := by
        rw [← List.drop_drop, hdrawing]
        rfl
      rw [hnext]
      refine ⟨rfl, h.behind (drawn + 1) hresult hs rfl rfl rfl ?_ ?_ fun i hi => ?_⟩
      · rw [hbehind]
        rfl
      · rw [hrest, hkeys', howed, hbehind]
      · rcases Nat.lt_succ_iff_lt_or_eq.mp hi with hi | rfl
        · exact hearlier i hi
        · have hlength := congrArg List.length hdrop
          rw [← List.drop_eq_getElem_cons hlt, List.length_drop] at hlength
          have hsplit := @length_trace_take_add t collection groups i
          omega

/-- When all results were taken, a call finds the end of the groups. -/
theorem Progress.ends (h : Progress t collection groups resumed calls o.state)
    (heq : calls = (trace t collection groups).length) :
    (next o).1 = .ok none ∧ Progress t collection groups resumed (calls + 1) (next o).2.state := by
  obtain ⟨hs, drawn, hgroups, hdrop, -⟩ := h.pending (Nat.le_of_eq heq)
  rw [List.drop_eq_nil_of_le (Nat.le_of_eq heq.symm)] at hdrop
  obtain ⟨hkeys, hrest⟩ := List.append_eq_nil_iff.mp hdrop.symm
  rw [eq_nil_of_trace hrest] at hgroups
  obtain ⟨hfirst, hexhausted, hcollection, hyielded, hcursor⟩ :=
    next_of_end hs (List.map_eq_nil_iff.mp hkeys) hgroups
  have htake : (trace t collection groups).take (calls + 1) =
      (trace t collection groups).take calls := by
    rw [heq, List.take_length, List.take_of_length_le (Nat.le_succ _)]
  refine ⟨hfirst, hcollection.trans h.collection_eq, ?_, ?_, fun hle => ?_, fun _ => hexhausted⟩
  · rw [htake, hyielded, h.yielded_eq]
  · rw [htake, hcursor, h.cursor_eq]
  · omega

/-- Behind the end, a call changes nothing. -/
theorem Progress.stays (h : Progress t collection groups resumed calls o.state)
    (hgt : (trace t collection groups).length < calls) :
    (next o).1 = .ok none ∧ Progress t collection groups resumed (calls + 1) (next o).2.state := by
  have hexhausted := h.ended hgt
  have htake : (trace t collection groups).take (calls + 1) =
      (trace t collection groups).take calls := by
    rw [List.take_of_length_le (Nat.le_of_lt hgt), List.take_of_length_le (by omega)]
  rw [next_of_exhausted hexhausted]
  refine ⟨rfl, h.collection_eq, ?_, ?_, fun hle => ?_, fun _ => hexhausted⟩
  · rw [htake, h.yielded_eq]
  · rw [htake, h.cursor_eq]
  · omega

/-- One more call yields the next result of the trace, and a pause behind its end. -/
theorem Progress.step (keyed : t.tree.Keyed) (hopen : t.closed = false)
    (h : Progress t collection groups resumed calls o.state) :
    (next o).1 = (trace t collection groups).getD calls (.ok none) ∧
      Progress t collection groups resumed (calls + 1) (next o).2.state := by
  rw [List.getD_eq_getElem?_getD]
  rcases Nat.lt_trichotomy calls (trace t collection groups).length with hlt | heq | hgt
  · rw [List.getElem?_eq_getElem hlt]
    exact h.serves keyed hopen hlt
  · rw [List.getElem?_eq_none (Nat.le_of_eq heq.symm)]
    exact h.ends heq
  · rw [List.getElem?_eq_none (Nat.le_of_lt hgt)]
    exact h.stays hgt

/-- Where a new stream is after any number of calls. -/
theorem progress_called (keyed : t.tree.Keyed) (hopen : t.closed = false) (c : Counters) (j : Journal)
    (calls : Nat) :
    Progress t collection groups resumed calls
      (called ⟨.new collection (source groups resumed) t, c, j⟩ calls).state := by
  induction calls with
  | zero => exact progress_new
  | succ calls ih => exact (ih.step keyed hopen).2

end Progress

end ItemStream

open ItemStream

/-- **What the calls on a stream yield.** Take any transaction that is not closed and that any resource
hands out, whatever happened to it: its write transaction, or a read transaction with the cursor
wherever it is. Take any groups of keys, also empty or repeating ones, from a source that may resume
behind the end that it reported. The calls of `next` yield the results of the trace in order: for each
group that has keys one result for each of them, which is the item with that key, the kind of the node,
the revision of the cursor and the collection, or the refusal of a key that names no node; for each
group without keys one pause. All further calls yield pauses. After any number of calls, as many items
were yielded as are among these results; the cursor is on the node of the last of them; the stream is
exhausted if a call found the end of the source, which is the first call behind the trace; and until
then, a group was drawn only when all groups before it had been served in full by earlier calls. -/
theorem next_follows_trace (name : String) (lookup : LookupPolicy) (created : Instant)
    (events : List ResourceEvent) {t : Transaction}
    (ht : ((Resource.create name lookup created).run events).HandsOut t) (collection : Nat)
    (groups : List (List Nat)) (resumed : Option (List (Option (List Nat)))) (c : Counters)
    (j : Journal) (calls : Nat) :
    let expected := trace t collection groups
    let o := called ⟨.new collection (source groups resumed) t, c, j⟩ calls
    (next o).1 = expected.getD calls (.ok none) ∧
      o.state.yielded = (servedKeys (expected.take calls)).length ∧
      o.state.cursor =
        { t with cursor := (servedKeys (expected.take calls)).getLastD t.cursor } ∧
      (o.state.exhausted = true ↔ expected.length < calls) ∧
      (calls ≤ expected.length → ∃ drawn, o.state.groups = source (groups.drop drawn) resumed ∧
        ∀ i < drawn, (trace t collection (groups.take i)).length < calls) := by
  intro expected o
  have keyed := (Resource.keyed_run name lookup created events).of_handsOut ht
  have h : Progress t collection groups resumed calls o.state :=
    progress_called keyed ht.closed_eq c j calls
  refine ⟨(h.step keyed ht.closed_eq).1, h.yielded_eq, h.cursor_eq, ⟨fun hexhausted => ?_, h.ended⟩, ?_⟩
  · refine Nat.not_le.mp fun hle => ?_
    obtain ⟨hs, -⟩ := h.pending hle
    cases hs.symm.trans hexhausted
  · intro hle
    obtain ⟨-, drawn, hgroups, -, hdrawn⟩ := h.pending hle
    exact ⟨drawn, hgroups, hdrawn⟩

/-- A text was inserted into the write transaction of a new resource. The groups name it twice, with a
key in between that names no node. The call for that key is refused, and leaves the cursor on the text. -/
theorem next_follows_trace_text :
    let r := (Resource.create "log" .floor (.second 10)).run
      [.startWriter, .edit 0 (.second 10) (.insert (.text "errata"))]
    ∃ t, r.HandsOut t ∧
      (next (called ⟨.new 1 (source [[1, 9], [], [1]] none) t, {}, {}⟩ 1)).1 =
        .error (.nodeNotFound 9 .first) ∧
      (called ⟨.new 1 (source [[1, 9], [], [1]] none) t, {}, {}⟩ 2).state.yielded = 1 ∧
      (called ⟨.new 1 (source [[1, 9], [], [1]] none) t, {}, {}⟩ 2).state.cursor.cursor = 1 := by
  intro r
  have live : r.liveWriter 0 = .ok ((r.writer? 0).getD default) :=
    Resource.liveWriter_eq_ok_iff.mpr ⟨by decide +kernel, by decide +kernel⟩
  have htrace := next_follows_trace "log" .floor (.second 10)
    [.startWriter, .edit 0 (.second 10) (.insert (.text "errata"))] (.writer live) 1 [[1, 9], [], [1]]
    none {} {}
  obtain ⟨hresult, -⟩ := htrace 1
  obtain ⟨-, hyielded, hcursor, -⟩ := htrace 2
  refine ⟨_, .writer live, hresult, hyielded.trans ?_, (congrArg Transaction.cursor hcursor).trans ?_⟩
  all_goals decide +kernel

end AsOf
