import AsOf.Document.Basic
import AsOf.Proofs.Resource.Step
import AsOf.Proofs.Tree.Arising

/-!
# Draining a stream

What a stream is still to yield can be said before it is drained: the items of all keys ahead in the
groups, group by group, up to the first key that names no node. Every step takes the first item off, or
none at a pause. So groups without keys, and the borders between groups, leave no trace.

## Main definitions

* `Transaction.itemAt`: the item of a key
* `ItemStream.ahead`, `ItemStream.answer`: the keys that are ahead, and their items

## Main results

* `ItemStream.answer_of_next`: what a step takes off
* `ItemStream.fst_drain`: a stream that is drained yields what was ahead
* `Document.fst_items`: the items that groups of keys name in a document
* `Transaction.itemAt_of_get?`, `Transaction.itemAt_of_not_contains`: the item of a key, or its refusal
* `Transaction.itemAt_flat`, `Transaction.itemAt_flat_error`: the items of a flat tree
-/

namespace AsOf

/-- The item of a key; the cursor is of no account. -/
def Transaction.itemAt (t : Transaction) (collection key : Nat) : Except StoreError Item := do
  (← t.moveTo key).item collection

section Open

variable {t : Transaction} (hopen : t.closed = false) {key : Nat} {node : Node}
include hopen

/-- The item of the node under the cursor. -/
theorem Transaction.item_of_get? (hnode : t.tree.get? t.cursor = some node) (collection : Nat) :
    t.item collection = .ok ⟨collection, node.key, t.base.number, node.kind⟩ := by
  rw [item, node_eq_ok_iff.mpr ⟨hopen, hnode⟩]
  rfl

theorem Transaction.itemAt_of_get? (hnode : t.tree.get? key = some node) (collection : Nat) :
    t.itemAt collection key = .ok ⟨collection, node.key, t.base.number, node.kind⟩ := by
  rw [itemAt, moveTo_of_contains hopen (Tree.contains_of_get? hnode)]
  exact item_of_get? (t := { t with cursor := key }) hopen hnode collection

theorem Transaction.itemAt_of_not_contains (hkey : t.tree.contains key = false) (collection : Nat) :
    t.itemAt collection key = .error (.nodeNotFound key t.base.number) := by
  rw [itemAt, moveTo_of_not_contains hopen hkey]
  rfl

end Open

theorem Transaction.itemAt_of_moveTo {t u : Transaction} {key : Nat} (h : t.moveTo key = .ok u)
    (collection : Nat) : u.itemAt collection = t.itemAt collection := by
  obtain ⟨⟨⟩, -, h⟩ := except_bind_eq_ok_iff.mp h
  split at h
  · cases h
    rfl
  · cases h

namespace ItemStream

open Observed

/-- The keys that are ahead. -/
def ahead (s : ItemStream) : List Nat := s.keys ++ s.groups.flatMap (·.getD [])

/-- The items of the keys that are ahead, if all of them name nodes. A stream at its end has none. -/
def answer (s : ItemStream) : Except StoreError (List Item) :=
  if s.exhausted then .ok [] else s.ahead.mapM (s.cursor.itemAt s.collection)

variable {s s' : ItemStream} {key : Nat} {result : Except StoreError Item} {o o' : Observed ItemStream}

theorem answer_of_not_exhausted (hs : s.exhausted = false) :
    s.answer = s.ahead.mapM (s.cursor.itemAt s.collection) := by
  rw [answer, hs]
  rfl

/-- The items of one more key are its own and those behind it. -/
theorem answer_cons (hs : s.exhausted = false) (key : Nat) :
    answer { s with keys := key :: s.keys } =
      s.cursor.itemAt s.collection key >>= fun item => s.answer.map (item :: ·) := by
  have hcons : answer { s with keys := key :: s.keys } =
      (key :: s.ahead).mapM (s.cursor.itemAt s.collection) := answer_of_not_exhausted hs
  rw [hcons, List.mapM_cons, answer_of_not_exhausted hs]
  refine congrArg _ (funext fun item => ?_)
  cases s.ahead.mapM (s.cursor.itemAt s.collection) <;> rfl

/-- What a key is served with is its item, and the items of the other keys are what they were. -/
theorem serve_spec (h : serve s key = (result, s')) :
    s.cursor.itemAt s.collection key = result ∧
      ∀ item, result = .ok item → s'.exhausted = s.exhausted ∧ s'.answer = s.answer ∧
        s'.groups = s.groups := by
  rw [Transaction.itemAt]
  unfold serve at h
  split at h
  · next hmove =>
    cases h
    rw [hmove]
    exact ⟨rfl, fun item h => nomatch h⟩
  · next cursor hmove =>
    rw [hmove]
    split at h
    · next hitem =>
      cases h
      exact ⟨hitem, fun item h => nomatch h⟩
    · next hitem =>
      cases h
      refine ⟨hitem, fun item h => ⟨rfl, ?_, rfl⟩⟩
      simp only [answer, Transaction.itemAt_of_moveTo hmove]
      rfl

/-- The next key is taken off, with its item, or it is refused. -/
theorem answer_of_advance {keys : List Nat} {found : Except StoreError (Option Item)}
    (hs : o.state.exhausted = false) (hkeys : o.state.keys = key :: keys)
    (h : advance o = (found, o')) :
    match found with
    | .ok item => o'.state.exhausted = false ∧ o'.state.groups = o.state.groups ∧
        o.state.answer = o'.state.answer.map (item.toList ++ ·)
    | .error e => o.state.answer = .error e := by
  -- The stream without the key has the other keys ahead, and its cursor is of no account to them.
  let rest : ItemStream := { o.state with keys }
  have hsplit : o.state = { rest with keys := key :: rest.keys } := by
    rw [← hkeys]
  have hanswer := answer_cons (s := rest) hs key
  rw [← hsplit] at hanswer
  rw [hanswer]
  unfold advance at h
  rw [hkeys] at h
  dsimp only at h
  rcases hserve : serve rest key with ⟨e | item, s'⟩
  · obtain ⟨hitem, -⟩ := serve_spec hserve
    rw [show serve { o.state with keys } key = _ from hserve] at h
    cases h
    rw [hitem]
    rfl
  · obtain ⟨hitem, hrest⟩ := serve_spec hserve
    obtain ⟨hexhausted, hbehind, hgroups⟩ := hrest item rfl
    rw [show serve { o.state with keys } key = _ from hserve] at h
    cases h
    rw [hitem, hbehind]
    exact ⟨hexhausted.trans hs, hgroups, rfl⟩

/-- A step takes the next item off what is ahead, or nothing at a pause, or it is refused. -/
theorem answer_of_next {found : Except StoreError (Option Item)} (hs : o.state.exhausted = false)
    (hgroups : none ∉ o.state.groups) (h : next o = (found, o')) :
    match found with
    | .ok item => none ∉ o'.state.groups ∧ o.state.answer = o'.state.answer.map (item.toList ++ ·)
    | .error e => o.state.answer = .error e := by
  unfold next at h
  rw [if_neg (by simp [hs])] at h
  split at h
  · next hkeys =>
    have hkeys : o.state.keys = [] := List.isEmpty_iff.mp hkeys
    split at h
    · next hend =>
      cases h
      refine ⟨hgroups, ?_⟩
      rw [answer_of_not_exhausted hs, ahead, hkeys, hend]
      rfl
    · next hnone => exact absurd (hnone ▸ List.mem_cons_self) hgroups
    · next keys groups hnext =>
      let taken : Observed ItemStream := { o with state := { o.state with groups, keys } }
      have htaken : taken.state.answer = o.state.answer := by
        rw [answer_of_not_exhausted hs, answer_of_not_exhausted (s := taken.state) hs, ahead, ahead,
          hkeys, hnext]
        rfl
      have hrest : none ∉ taken.state.groups := fun hmem =>
        hgroups (hnext ▸ List.mem_cons_of_mem _ hmem)
      rw [← htaken]
      cases keys with
      | nil =>
        cases h
        refine ⟨hrest, ?_⟩
        cases taken.state.answer <;> rfl
      | cons key keys =>
        have hadvance := answer_of_advance (o := taken) hs rfl h
        cases found with
        | error e => exact hadvance
        | ok item => exact ⟨hadvance.2.1 ▸ hrest, hadvance.2.2⟩
  · next hkeys =>
    cases hcons : o.state.keys with
    | nil => exact absurd (List.isEmpty_iff.mpr hcons) hkeys
    | cons key keys =>
      have hadvance := answer_of_advance hs hcons h
      cases found with
      | error e => exact hadvance
      | ok item => exact ⟨hadvance.2.1 ▸ hgroups, hadvance.2.2⟩

/-- A stream that is drained yields what was ahead. -/
theorem fst_drain (hgroups : none ∉ o.state.groups) : (drain o).1 = o.state.answer := by
  -- Along the recursion: a refused step, an item before the others, before a refusal, and the end.
  fun_induction drain o with
  | case1 o hs e o' hnext => exact (answer_of_next hs hgroups hnext).symm
  | case2 o hs item o' hnext hless items o'' hdrain ih =>
    obtain ⟨hrest, hanswer⟩ := answer_of_next hs hgroups hnext
    have hitems := ih hrest
    rw [hdrain] at hitems
    rw [hanswer, ← hitems]
    rfl
  | case3 o hs item o' hnext hless e o'' hdrain ih =>
    obtain ⟨hrest, hanswer⟩ := answer_of_next hs hgroups hnext
    have hitems := ih hrest
    rw [hdrain] at hitems
    rw [hanswer, ← hitems]
    rfl
  | case4 o hs =>
    rw [answer, if_pos (by simpa using hs)]

end ItemStream

/-- The items that groups of keys name in a document. -/
theorem Document.fst_items (d : Document) (groups : List (List Nat)) (o : Observed Store) :
    (d.items (groups.map some) o).1.1 =
      groups.flatten.mapM ((d.transaction o.state).itemAt d.collection) := by
  have hgroups : none ∉ groups.map some := by simp
  have hahead : (groups.map some).flatMap (·.getD []) = groups.flatten := by
    rw [List.flatMap_map, List.flatten_eq_flatMap]
    rfl
  rw [← hahead]
  exact ItemStream.fst_drain
    (o := ⟨.new d.collection (groups.map some) (d.transaction o.state), o.counters, o.journal⟩) hgroups

/-! ## Flat trees -/

/-- The item of a key in a flat tree. -/
theorem Transaction.itemAt_flat {base : RevisionStamp} {nodes : List NodeKind} {key : Nat}
    (hle : key ≤ nodes.length) (collection : Nat) :
    itemAt { base, tree := .flat nodes } collection key =
      .ok ⟨collection, key, base.number, (NodeKind.documentRoot :: nodes).getD key .documentRoot⟩ := by
  obtain ⟨node, hnode⟩ := Tree.contains_iff_exists_get?.mp (Tree.contains_flat.mpr hle)
  obtain ⟨hkey, hkind⟩ := Tree.get?_flat hnode
  rw [itemAt_of_get? rfl hnode, List.getD_eq_getElem?_getD, hkind, hkey]
  rfl

/-- There is no item for a key that is too great. -/
theorem Transaction.itemAt_flat_error {base : RevisionStamp} {nodes : List NodeKind} {key : Nat}
    (hlt : nodes.length < key) (collection : Nat) :
    itemAt { base, tree := .flat nodes } collection key =
      .error (.nodeNotFound key base.number) := by
  have hcontains : (Tree.flat nodes).contains key = false :=
    Bool.eq_false_iff.mpr fun h => Nat.not_le.mpr hlt (Tree.contains_flat.mp h)
  exact itemAt_of_not_contains (t := { base, tree := .flat nodes }) rfl hcontains collection

end AsOf
