import AsOf.Proofs.Document.Passing
import AsOf.Proofs.Session.Footing
import AsOf.Proofs.Session.Writers

/-!
# The items of a document

Who asks a document for the items of groups of keys gets them all in one list, group by group, or the refusal
of the first key that names no node. Either way, what has changed is the cursor: it is on the last key that was
reached.

## Main definitions

* `Session.atKey`: a session with the cursor of a document on another key

## Main results

* `Session.atKey_self`, `Session.transaction_atKey`: what `Session.atKey` changes
* `Session.step_items`: the answer is that of the drained stream
* `items_of_groups`: what a document answers that is asked for the items of groups, and what it leaves
-/

namespace AsOf

open AsOf.Action Observed ItemStream

namespace Document

variable {st : Store} {d : Document} {r : Resource}
  (hr : st.resource? d.place = some r) (hbacks : r.Backs d.lease)
include hr hbacks

/-- A transaction that is put back leaves everything as it was. -/
theorem put_self : d.put st (d.transaction st) = (d, st) := by
  cases hlease : d.lease with
  | reader t =>
    simp only [put, transaction, hlease]
    rw [← hlease]
  | writer handle =>
    rw [hlease] at hbacks
    cases hbacks with
    | writer ht =>
      simp only [put, transaction, hlease, hr, Option.bind_some, ht, Option.getD_some,
        Resource.setWriter_self ht, Store.setResource_self hr]

/-- A document shows the transaction that was put into it. -/
theorem transaction_put (t : Transaction) : (d.put st t).1.transaction (d.put st t).2 = t := by
  cases hlease : d.lease with
  | reader => simp only [put, transaction, hlease]
  | writer handle =>
    rw [hlease] at hbacks
    cases hbacks with
    | writer ht =>
      simp only [put, transaction, hlease, hr, Store.resource?_setResource hr, if_true, Option.bind_some,
        Resource.writer?_setWriter ht, Option.getD_some]

end Document

namespace Session

/-- The session with the cursor of the document in a slot on a key. -/
def atKey (s : Session) (slot : Nat) (d : Document) (key : Nat) : Session :=
  let (d', store) := d.put s.store { d.transaction s.store with cursor := key }
  { s with store, documents := s.documents.setIfInBounds slot (some d') }

/-- The stream that passes through groups of keys with a document. -/
def passing (s : Session) (d : Document) (groups : List (List Nat)) : Observed ItemStream :=
  ⟨.new d.collection (groups.map some) (d.transaction s.store), s.countersOf 0, s.journal⟩

variable {s : Session} {slot : Nat} {d : Document} {r : Resource}

section Backed

variable (hd : s.documents[slot]? = some (some d)) (hr : s.store.resource? d.place = some r)
  (hbacks : r.Backs d.lease)
include hd hr hbacks

/-- Where the cursor stays where it is, nothing changes. -/
theorem atKey_self : s.atKey slot d (d.transaction s.store).cursor = s := by
  let putBack := d.put s.store (d.transaction s.store)
  show { s with store := putBack.2, documents := s.documents.setIfInBounds slot (some putBack.1) } = s
  simp only [putBack, Document.put_self hr hbacks, setIfInBounds_self hd]

/-- The document in the slot has its cursor on the key, and its transaction is otherwise what it was. -/
theorem transaction_atKey (key : Nat) :
    ∃ d', (s.atKey slot d key).documents[slot]? = some (some d') ∧
      d'.transaction (s.atKey slot d key).store = { d.transaction s.store with cursor := key } := by
  refine ⟨(d.put s.store { d.transaction s.store with cursor := key }).1, ?_, ?_⟩
  · exact Array.getElem?_setIfInBounds_self_of_lt (Array.getElem?_eq_some_iff.mp hd).1
  · exact Document.transaction_put hr hbacks _

end Backed

/-- A document answers what its stream yields when it is drained, and the session has the cursor and the
journal of the stream. -/
theorem step_items (hd : s.documents[slot]? = some (some d)) {groups : List (List Nat)} {st : ItemStream}
    {j : Journal} {key : Nat} (h : (drain (s.passing d groups)).2 = ⟨st, s.countersOf 0, j⟩)
    (hcursor : st.cursor = { d.transaction s.store with cursor := key }) :
    step (.document slot (.items (groups.map some))) s =
      (((groups.flatten.mapM ((d.transaction s.store).itemAt d.collection)).map Answer.items).mapError .store,
        { s.atKey slot d key with journal := j }) := by
  have hitems : (drain (s.passing d groups)).1 =
      groups.flatten.mapM ((d.transaction s.store).itemAt d.collection) :=
    d.fst_items groups ⟨s.store, s.countersOf 0, s.journal⟩
  generalize groups.flatten.mapM ((d.transaction s.store).itemAt d.collection) = answer at hitems ⊢
  have hdrain : drain (s.passing d groups) = (answer, ⟨st, s.countersOf 0, j⟩) := Prod.ext hitems h
  have hstream : streaming slot d (groups.map some) drain s =
      (.ok (answer, st), { s.atKey slot d key with journal := j }) := by
    unfold passing at hdrain
    simp only [streaming, bind_run, observing, Document.streaming, hdrain, hcursor, modify_countersOf]
    rfl
  rw [step, bind_run_ok (document_run (Option.join_eq_some_iff.mpr hd)), stepDocument, bind_run_ok hstream]
  cases answer <;> rfl

/-- The keys of groups are ahead of the stream that passes through them. -/
theorem ahead_passing (s : Session) (d : Document) (groups : List (List Nat)) :
    (s.passing d groups).state.ahead = groups.flatten := by
  show (groups.map some).flatMap (·.getD []) = groups.flatten
  rw [List.flatMap_map, List.flatten_eq_flatMap]
  rfl

theorem stepsAhead_passing (s : Session) (d : Document) (groups : List (List Nat)) :
    (s.passing d groups).state.stepsAhead = groups.flatten.length + groups.length + 1 := by
  have hkeys : keysAhead (groups.map some) = groups.flatten.length := by
    induction groups with
    | nil => rfl
    | cons group groups ih =>
      rw [List.map_cons, keysAhead, ih, List.flatten_cons, List.length_append]
  show 0 + keysAhead (groups.map some) + (groups.map some).length + 1 = _
  rw [hkeys, List.length_map, Nat.zero_add]

end Session

/-- **The items of groups of keys.** Take any document of any session whose transaction is not closed, and any
groups of keys. The stream that passes through them is drained by a number of calls, one for each key and one
for each group at most, and one for the end. If all keys name nodes, the answer has one item for each key, in
the order of the groups: with the collection of the document, the revision of its transaction and the kind of
the node. The cursor is on the last key, and the end is reported. Otherwise the answer is the refusal of the
first key that names no node, and the cursor is on the key before it. Nothing else changes: with its cursor on
a key, the document has the same transaction up to the cursor, and nothing at all has changed if the cursor
stays where it was. -/
theorem items_of_groups (clock : Instant) (lastId : Nat) (threshold : Severity) (commands : List Command)
    (slot : Nat) (d : Document) (groups : List (List Nat)) :
    let s := ((Session.begin clock lastId threshold).play commands).2
    let t := d.transaction s.store
    let keys := groups.flatten
    let answered := Session.step (.document slot (.items (groups.map some))) s
    s.documents[slot]? = some (some d) → t.closed = false →
    (∃ calls ≤ keys.length + groups.length + 1,
      (drain (s.passing d groups)).2 = called (s.passing d groups) calls ∧
      ∀ i < calls, (called (s.passing d groups) i).state.exhausted = false) ∧
    ((∀ key ∈ keys, t.tree.contains key = true) → ∃ items, t.Lists d.collection keys items ∧
      answered = (.ok (.items items), { s.atKey slot d (keys.getLastD t.cursor) with
        journal := s.journal.write (Event.itemStreamExhausted.record
          [("collection", Text.decimal d.collection), ("items", Text.decimal keys.length)]) })) ∧
    ((∃ key ∈ keys, t.tree.contains key = false) → ∃ before key after, keys = before ++ key :: after ∧
      (∀ key ∈ before, t.tree.contains key = true) ∧ t.tree.contains key = false ∧
      answered = (.error (.store (.nodeNotFound key t.base.number)),
        s.atKey slot d (before.getLastD t.cursor))) ∧
    s.atKey slot d t.cursor = s ∧
    ∀ key, ∃ d', (s.atKey slot d key).documents[slot]? = some (some d') ∧
      d'.transaction (s.atKey slot d key).store = { t with cursor := key } := by
  intro s t keys answered hd hopen
  obtain ⟨hplanted, hbacked⟩ := Session.backed_play clock lastId threshold commands
  obtain ⟨r, hr, hbacks⟩ := hbacked hd
  have keyed := ((hplanted hr).grounded_transaction hr hbacks).arises.keyed
  have hahead : (s.passing d groups).state.ahead = keys := s.ahead_passing d groups
  have hdrained : Drained (s.passing d groups) (drain (s.passing d groups)).2 :=
    drained_drain keyed hopen rfl (by simp [Session.passing, ItemStream.new])
  refine ⟨?_, fun hall => ?_, fun hmissing => ?_, Session.atKey_self hd hr hbacks,
    Session.transaction_atKey hd hr hbacks⟩
  · obtain ⟨calls, hcalls, hdrain, hgoing⟩ := exists_called_eq_drain (s.passing d groups)
    exact ⟨calls, s.stepsAhead_passing d groups ▸ hcalls, hdrain, hgoing⟩
  · obtain ⟨items, hlists, hitems⟩ := Transaction.exists_lists keyed hopen d.collection hall
    refine ⟨items, hlists, ?_⟩
    generalize hdrain : (drain (s.passing d groups)).2 = o' at hdrained
    cases hdrained with
    | @all st h =>
      rw [hahead] at h
      have hstep := Session.step_items hd hdrain h.cursor
      rw [hitems] at hstep
      have hrecord : st.finishRecord = Event.itemStreamExhausted.record
          [("collection", Text.decimal d.collection), ("items", Text.decimal keys.length)] := by
        rw [finishRecord, h.collection, h.yielded]
        simp only [Session.passing, ItemStream.new, Nat.zero_add]
      rw [← hrecord]
      exact hstep
    | missing hfirst _ hkey =>
      rw [hahead] at hfirst
      have hcontains := hall _ (hfirst ▸ List.mem_append_right _ List.mem_cons_self)
      cases hkey.symm.trans hcontains
  · generalize hdrain : (drain (s.passing d groups)).2 = o' at hdrained
    cases hdrained with
    | all _ hall =>
      obtain ⟨key, hmem, hkey⟩ := hmissing
      cases hkey.symm.trans (hall key (hahead ▸ hmem))
    | @missing st before after key hfirst hbefore hkey hcursor =>
      rw [hahead] at hfirst
      refine ⟨before, key, after, hfirst, hbefore, hkey, ?_⟩
      have hstep := Session.step_items hd hdrain hcursor
      have hrefused := Transaction.mapM_itemAt_of_missing keyed hopen d.collection after hbefore hkey
      rw [show groups.flatten = _ from hfirst, hrefused] at hstep
      exact hstep

/-- A text was inserted through a document to change. The groups name it, then nothing, then the root and the
text again. -/
theorem items_of_groups_text :
    let earlier : List Command :=
      [.session (.addDatabase "log" .floor), .database 0 (.create "page" {}), .database 0 (.locate "page"),
        .resource 0 (.take 0 .updatable (.revision .first)), .document 0 (.write [.insert (.text "errata")])]
    let s := ((Session.begin .epoch 0 .info).play earlier).2
    let d := s.documents[0]?.join.getD default
    s.documents[0]? = some (some d) ∧ (d.transaction s.store).closed = false ∧
      (d.transaction s.store).cursor = 1 ∧
      ∃ items, (Session.step (.document 0 (.items [some [1], some [], some [rootKey, 1]])) s).1 =
        .ok (.items items) ∧ items.map Item.nodeKey = [1, rootKey, 1] := by
  intro earlier s d
  have hd : s.documents[0]? = some (some d) := by decide +kernel
  have hopen : (d.transaction s.store).closed = false := by decide +kernel
  have hkeys : ∀ key ∈ [[1], [], [rootKey, 1]].flatten, (d.transaction s.store).tree.contains key = true := by
    decide +kernel
  obtain ⟨-, hfound, -⟩ :=
    items_of_groups .epoch 0 .info earlier 0 d [[1], [], [rootKey, 1]] hd hopen
  obtain ⟨items, hlists, hanswer⟩ := hfound hkeys
  exact ⟨hd, hopen, by decide +kernel, items, congrArg Prod.fst hanswer, hlists.keys_eq⟩

end AsOf
