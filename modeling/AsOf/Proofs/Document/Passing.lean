import AsOf.Proofs.Document.Draining
import AsOf.Proofs.Document.Trace

/-!
# Passing through groups of keys

Draining a stream calls it until it reports its end or refuses a key. A call can only do four things: it
pauses, it yields the item of the first key ahead, it refuses that key, or it reports the end, where no key
is ahead. What a drained stream leaves behind follows call by call: it is behind all keys, or in front of
the first key that names no node, and the cursor is on the key before.

## Main definitions

* `Transaction.Lists`: the items of keys, one for each
* `ItemStream.Passes`: a stream that has come to another one by yielding some keys
* `ItemStream.Turn`: what a call can do
* `ItemStream.Drained`: where a stream is when it has been drained

## Main results

* `ItemStream.turn_next`: a call does nothing else
* `ItemStream.drained_drain`: a stream that is drained is where it should be
* `ItemStream.exists_called_eq_drain`: so many calls drain a stream
* `Transaction.exists_lists`, `Transaction.mapM_itemAt_of_missing`: the items of keys
-/

namespace AsOf

/-! ## Items of keys -/

/-- The items are those of the keys, one for each and in order: each has the collection, the revision of the
transaction and the kind of the node. -/
structure Transaction.Lists (t : Transaction) (collection : Nat) (keys : List Nat) (items : List Item) :
    Prop where
  keys_eq : items.map Item.nodeKey = keys
  of_node : ∀ item ∈ items, item.collection = collection ∧ item.revision = t.base.number ∧
    ∃ node, t.tree.get? item.nodeKey = some node ∧ item.kind = node.kind

namespace Transaction

variable {t : Transaction} {collection key : Nat} {keys before : List Nat}

theorem Lists.cons {items : List Item} {node : Node} (h : t.Lists collection keys items)
    (hnode : t.tree.get? key = some node) :
    t.Lists collection (key :: keys) (⟨collection, key, t.base.number, node.kind⟩ :: items) where
  keys_eq := congrArg (key :: ·) h.keys_eq
  of_node := List.forall_mem_cons.mpr ⟨⟨rfl, rfl, node, hnode, rfl⟩, h.of_node⟩

section Open

variable (keyed : t.tree.Keyed) (hopen : t.closed = false)
include keyed hopen

/-- Keys that all name nodes have their items. -/
theorem exists_lists (collection : Nat) (hall : ∀ key ∈ keys, t.tree.contains key = true) :
    ∃ items, t.Lists collection keys items ∧ keys.mapM (t.itemAt collection) = .ok items := by
  induction keys with
  | nil => exact ⟨[], ⟨rfl, nofun⟩, rfl⟩
  | cons key keys ih =>
    obtain ⟨hkey, hrest⟩ := List.forall_mem_cons.mp hall
    obtain ⟨node, hnode⟩ := Tree.contains_iff_exists_get?.mp hkey
    obtain ⟨items, hlists, hitems⟩ := ih hrest
    refine ⟨_, hlists.cons hnode, ?_⟩
    rw [List.mapM_cons, itemAt_of_get? hopen hnode, keyed.key_eq hnode, hitems]
    rfl

/-- The first key that names no node is refused. -/
theorem mapM_itemAt_of_missing (collection : Nat) (after : List Nat)
    (hbefore : ∀ key ∈ before, t.tree.contains key = true) (hkey : t.tree.contains key = false) :
    (before ++ key :: after).mapM (t.itemAt collection) = .error (.nodeNotFound key t.base.number) := by
  obtain ⟨items, -, hitems⟩ := exists_lists keyed hopen collection hbefore
  rw [List.mapM_append, hitems, List.mapM_cons, itemAt_of_not_contains hopen hkey]
  rfl

end Open

end Transaction

namespace ItemStream

open Observed

variable {s s' s'' : ItemStream} {o o' : Observed ItemStream} {key : Nat} {keys more : List Nat}

/-! ## Keys that were yielded -/

/-- The second stream is the first one behind some keys that were ahead: an item was counted for each, and
the cursor is on the last of them. -/
structure Passes (s : ItemStream) (keys : List Nat) (s' : ItemStream) : Prop where
  collection : s'.collection = s.collection
  going : s'.exhausted = s.exhausted
  groups : none ∉ s.groups → none ∉ s'.groups
  ahead : s.ahead = keys ++ s'.ahead
  yielded : s'.yielded = s.yielded + keys.length
  cursor : s'.cursor = { s.cursor with cursor := keys.getLastD s.cursor.cursor }

theorem Passes.refl (s : ItemStream) : s.Passes [] s where
  collection := rfl
  going := rfl
  groups h := h
  ahead := rfl
  yielded := rfl
  cursor := rfl

theorem Passes.trans (h : s.Passes keys s') (h' : s'.Passes more s'') : s.Passes (keys ++ more) s'' where
  collection := h'.collection.trans h.collection
  going := h'.going.trans h.going
  groups hs := h'.groups (h.groups hs)
  ahead := by rw [h.ahead, h'.ahead, List.append_assoc]
  yielded := by rw [h'.yielded, h.yielded, List.length_append, Nat.add_assoc]
  cursor := by
    rw [h'.cursor, h.cursor]
    simp only [List.getLastD_eq_getLast?, List.getLast?_append, Option.getD_or]

/-! ## One call -/

/-- What a call on a stream can do that is not at its end: it pauses, it yields the item of the first key
ahead, it refuses that key, or it reports the end where no key is ahead. -/
inductive Turn (o : Observed ItemStream) : Except StoreError (Option Item) × Observed ItemStream → Prop
  | pause {s : ItemStream} (h : o.state.Passes [] s) : Turn o (.ok none, { o with state := s })
  | item {s : ItemStream} {key : Nat} {item : Item} (h : o.state.Passes [key] s)
      (hkey : o.state.cursor.tree.contains key = true) : Turn o (.ok (some item), { o with state := s })
  | missing {s : ItemStream} {key : Nat} {after : List Nat} {e : StoreError}
      (hahead : o.state.ahead = key :: after) (hkey : o.state.cursor.tree.contains key = false)
      (hcursor : s.cursor = o.state.cursor) : Turn o (.error e, { o with state := s })
  | stop (hahead : o.state.ahead = []) : Turn o (finish o)

section Open

variable (keyed : o.state.cursor.tree.Keyed) (hopen : o.state.cursor.closed = false)
include keyed hopen

/-- A key that is served at the head of what is ahead is yielded or refused. -/
theorem turn_of_key (hcollection : s.collection = o.state.collection)
    (hgoing : s.exhausted = o.state.exhausted) (hgroups : none ∉ o.state.groups → none ∉ s.groups)
    (hahead : o.state.ahead = key :: s.ahead) (hyielded : s.yielded = o.state.yielded)
    (hcursor : s.cursor = o.state.cursor) :
    Turn o (advance { o with state := { s with keys := key :: s.keys } }) := by
  rw [advance_eq (hcursor ▸ keyed) (hcursor ▸ hopen), hcursor]
  cases hnode : o.state.cursor.tree.get? key with
  | some node =>
    simp only [Transaction.owed, hnode]
    refine .item ⟨hcollection, hgoing, hgroups, hahead, ?_, ?_⟩
      (Tree.contains_of_get? hnode)
    · exact congrArg (· + 1) hyielded
    · simp only [behind, hcursor]
      rfl
  | none =>
    simp only [Transaction.owed, hnode]
    refine .missing hahead (Tree.contains_eq_false_iff.mpr hnode) ?_
    simp only [behind, hcursor]
    rfl

/-- A call does one of the four things. -/
theorem turn_next (hs : o.state.exhausted = false) (hgroups : none ∉ o.state.groups) :
    Turn o (next o) := by
  unfold next
  rw [if_neg (by simp [hs])]
  split
  · next hkeys =>
    have hkeys : o.state.keys = [] := List.isEmpty_iff.mp hkeys
    split
    · next hend =>
      refine .stop ?_
      rw [ahead, hkeys, hend]
      rfl
    · next hnone => exact absurd (hnone ▸ List.mem_cons_self) hgroups
    · next group groups hnext =>
      have hbehind : none ∉ groups := fun h => hgroups (hnext ▸ List.mem_cons_of_mem _ h)
      have hahead : o.state.ahead = group ++ groups.flatMap (·.getD []) := by
        rw [ahead, hkeys, hnext]
        rfl
      cases group with
      | nil => exact .pause ⟨rfl, rfl, fun _ => hbehind, hahead, rfl, rfl⟩
      | cons key keys =>
        exact turn_of_key (s := { o.state with groups, keys }) keyed hopen rfl rfl (fun _ => hbehind)
          hahead rfl rfl
  · next hkeys =>
    cases hcons : o.state.keys with
    | nil => exact absurd (List.isEmpty_iff.mpr hcons) hkeys
    | cons key keys =>
      have hahead : o.state.ahead = key :: ItemStream.ahead { o.state with keys } := by
        rw [ahead, hcons]
        rfl
      have hturn := turn_of_key (s := { o.state with keys }) keyed hopen rfl rfl id hahead rfl rfl
      rwa [← hcons] at hturn

end Open

/-! ## All calls -/

theorem drain_of_exhausted (h : o.state.exhausted = true) : drain o = (.ok [], o) := by
  rw [drain, dif_neg (by simp [h])]

/-- Where a stream is when it has been drained: behind all keys, with the end reported, or with the cursor
where the first key that names no node was refused. -/
inductive Drained (o : Observed ItemStream) : Observed ItemStream → Prop
  | all {s : ItemStream} (h : o.state.Passes o.state.ahead s)
      (hall : ∀ key ∈ o.state.ahead, o.state.cursor.tree.contains key = true) :
      Drained o (finish { o with state := s }).2
  | missing {s : ItemStream} {before after : List Nat} {key : Nat}
      (hahead : o.state.ahead = before ++ key :: after)
      (hbefore : ∀ key ∈ before, o.state.cursor.tree.contains key = true)
      (hkey : o.state.cursor.tree.contains key = false)
      (hcursor : s.cursor = { o.state.cursor with cursor := before.getLastD o.state.cursor.cursor }) :
      Drained o { o with state := s }

/-- What holds of the drained stream behind some keys holds of the stream in front of them. -/
theorem Passes.drained (h : o.state.Passes keys s)
    (hkeys : ∀ key ∈ keys, o.state.cursor.tree.contains key = true)
    (hdrained : Drained { o with state := s } o') : Drained o o' := by
  have htree : s.cursor.tree = o.state.cursor.tree := by rw [h.cursor]
  have happend {front : List Nat} (hfront : ∀ key ∈ front, s.cursor.tree.contains key = true) :
      ∀ key ∈ keys ++ front, o.state.cursor.tree.contains key = true := by
    intro key hkey
    rcases List.mem_append.mp hkey with hkey | hkey
    · exact hkeys key hkey
    · exact htree ▸ hfront key hkey
  cases hdrained with
  | all hpasses hall =>
    have hahead : o.state.ahead = keys ++ s.ahead := h.ahead
    refine .all (hahead ▸ h.trans hpasses) ?_
    rw [hahead]
    exact happend hall
  | @missing _ before after key hahead hbefore hkey hcursor =>
    have hahead : o.state.ahead = (keys ++ before) ++ key :: after := by
      rw [h.ahead, List.append_assoc]
      exact congrArg (keys ++ ·) hahead
    refine .missing hahead (happend hbefore) (htree ▸ hkey) ?_
    rw [hcursor]
    simp only [h.cursor, List.getLastD_eq_getLast?, List.getLast?_append, Option.getD_or]

/-- After a call that is not refused, the rest is drained. -/
theorem snd_drain_of_ok {found : Option Item} (hs : o.state.exhausted = false)
    (h : next o = (.ok found, o')) : (drain o).2 = (drain o').2 := by
  rw [drain, dif_pos hs]
  split
  · next hnext => cases h.symm.trans hnext
  · next hnext =>
    obtain ⟨-, rfl⟩ := Prod.mk.inj (h.symm.trans hnext)
    split
    all_goals
      next hrest => rw [hrest]

theorem snd_drain_of_error {e : StoreError} (hs : o.state.exhausted = false)
    (h : next o = (.error e, o')) : (drain o).2 = o' := by
  rw [drain, dif_pos hs]
  split
  · next hnext => exact (Prod.mk.inj (hnext.symm.trans h)).2
  · next hnext => cases h.symm.trans hnext

/-- A stream that is drained is behind all keys, or in front of the first key that names no node. -/
theorem drained_drain (keyed : o.state.cursor.tree.Keyed) (hopen : o.state.cursor.closed = false)
    (hs : o.state.exhausted = false) (hgroups : none ∉ o.state.groups) : Drained o (drain o).2 := by
  -- The induction is on the work ahead, which every call makes less.
  induction hwork : o.state.stepsAhead using Nat.strongRecOn generalizing o with
  | _ work ih =>
    subst hwork
    have hless := stepsAhead_next hs
    have hbehind {s : ItemStream} {keys : List Nat} {found : Option Item}
        (hnext : next o = (.ok found, { o with state := s })) (h : o.state.Passes keys s)
        (hkeys : ∀ key ∈ keys, o.state.cursor.tree.contains key = true) : Drained o (drain o).2 := by
      rw [hnext] at hless
      rw [snd_drain_of_ok hs hnext]
      refine h.drained hkeys (ih _ hless ?_ ?_ (h.going.trans hs) (h.groups hgroups) rfl)
      · rw [show s.cursor = _ from h.cursor]
        exact keyed
      · rw [show s.cursor = _ from h.cursor]
        exact hopen
    have hturn := turn_next keyed hopen hs hgroups
    rcases hnext : next o with ⟨found, o'⟩
    rw [hnext] at hturn
    cases hturn with
    | pause h => exact hbehind hnext h nofun
    | item h hkey => exact hbehind hnext h (List.forall_mem_singleton.mpr hkey)
    | missing hahead hkey hcursor =>
      rw [snd_drain_of_error hs hnext]
      exact .missing (show o.state.ahead = [] ++ _ from hahead) nofun hkey hcursor
    | stop hahead =>
      rw [snd_drain_of_ok hs hnext, drain_of_exhausted rfl]
      refine .all (s := o.state) ?_ ?_
      · rw [hahead]
        exact .refl _
      · rw [hahead]
        nofun

/-! ## The number of calls -/

theorem called_succ (o : Observed ItemStream) (calls : Nat) :
    called o (calls + 1) = called (next o).2 calls := by
  induction calls with
  | zero => rfl
  | succ calls ih => exact congrArg (fun o => (next o).2) ih

/-- A stream is drained by some calls, none of which is made at its end: one for each key and one for each
group at most, and one for the end. -/
theorem exists_called_eq_drain (o : Observed ItemStream) :
    ∃ calls ≤ o.state.stepsAhead, (drain o).2 = called o calls ∧
      ∀ i < calls, (called o i).state.exhausted = false := by
  induction hwork : o.state.stepsAhead using Nat.strongRecOn generalizing o with
  | _ work ih =>
    subst hwork
    cases hs : o.state.exhausted with
    | true => exact ⟨0, Nat.zero_le _, congrArg Prod.snd (drain_of_exhausted hs), nofun⟩
    | false =>
      have hless := stepsAhead_next hs
      rcases hnext : next o with ⟨e | found, o'⟩
      · rw [hnext] at hless
        refine ⟨1, Nat.one_le_of_lt hless, ?_, fun i hi => ?_⟩
        · rw [snd_drain_of_error hs hnext, called, called, hnext]
        · rw [Nat.lt_one_iff.mp hi]
          exact hs
      · rw [hnext] at hless
        obtain ⟨calls, hcalls, hdrain, hgoing⟩ := ih _ hless o' rfl
        refine ⟨calls + 1, Nat.lt_of_le_of_lt hcalls hless, ?_, fun i hi => ?_⟩
        · rw [snd_drain_of_ok hs hnext, hdrain, called_succ, hnext]
        · cases i with
          | zero => exact hs
          | succ i =>
            rw [called_succ, hnext]
            exact hgoing i (Nat.lt_of_succ_lt_succ hi)

end ItemStream

end AsOf
