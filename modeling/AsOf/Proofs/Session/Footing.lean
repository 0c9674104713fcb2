import AsOf.Proofs.Resource.Planted
import AsOf.Proofs.Session.Account

/-!
# Cursors never dangle

Whoever has an open transaction stands on a node of its tree. So the node can be read, a node can be inserted
below it, and the way up ends at the document root. Being moved is refused exactly for keys that the tree
does not have, going up exactly on the document root, and nothing changes then. This holds for read
transactions in documents and for write transactions in resources, whatever was inserted, sealed and taken
back before, through whichever document.

## Main definitions

* `Tree.Appends`: a tree with one more node below one of its nodes
* `Transaction.Footing`: what a caller finds who moves the cursor of a transaction
* `Session.withWriter`: a session with another state of a write transaction
* `Session.Footing`: what a caller finds who edits through a write transaction

## Main results

* `Transaction.Grounded.footing`, `Session.footing_of_grounded`: transactions on a node have their footing
* `Session.backed_play`: resources have what the documents of a session lease
* `cursors_never_dangle`: in every session, all open transactions have their footing
-/

namespace AsOf

open AsOf.Action

/-! ## One more node -/

/-- The second tree has one more node than the first one: it has the next key and no child, and it is the last
child of a node that was there. All other nodes are what they were. -/
structure Tree.Appends (t : Tree) (parent : Nat) (kind : NodeKind) (u : Tree) : Prop where
  size : u.size = t.size + 1
  child : u.get? t.size = some ⟨t.size, some parent, kind, []⟩
  above : ∃ node, t.get? parent = some node ∧
    u.get? parent = some { node with children := node.children ++ [t.size] }
  others : ∀ {key : Nat}, key ≠ parent → key ≠ t.size → u.get? key = t.get? key

/-- Below a node that is there, another one can be appended. -/
theorem Tree.exists_appends {t : Tree} {parent : Nat} (h : t.contains parent = true) (kind : NodeKind) :
    ∃ u, t.append parent kind = some (t.size, u) ∧ t.Appends parent kind u := by
  have hparent : parent < t.size := Tree.contains_iff.mp h
  cases happend : t.append parent kind with
  | none => exact absurd (Tree.append_eq_none.mp happend) (Nat.not_le.mpr hparent)
  | some grown =>
    obtain ⟨key, u⟩ := grown
    obtain ⟨rfl, hsize⟩ := Tree.size_of_append happend
    have hget := Tree.get?_append happend
    refine ⟨u, rfl, hsize, ?_, ?_, ?_⟩
    · rw [hget, if_pos rfl]
    · obtain ⟨node, hnode⟩ := Tree.contains_iff_exists_get?.mp h
      refine ⟨node, hnode, ?_⟩
      rw [hget, if_neg (Nat.ne_of_lt hparent), if_pos rfl, hnode]
      rfl
    · intro key hne hnew
      rw [hget, if_neg hnew, if_neg hne]

/-! ## Transactions -/

namespace Transaction

/-- What a caller finds who moves the cursor of an open transaction: it is on the node that carries its key,
and it goes to the nodes of the tree and nowhere else. -/
structure Footing (t : Transaction) : Prop where
  node : ∃ node, t.tree.get? t.cursor = some node ∧ node.key = t.cursor ∧
    Session.moveCursor t .readNode = (.ok (.node node), t)
  found : ∀ {key : Nat}, t.tree.contains key = true →
    Session.moveCursor t (.moveTo key) = (.ok .done, { t with cursor := key })
  missing : ∀ {key : Nat}, t.tree.contains key = false →
    Session.moveCursor t (.moveTo key) = (.error (.nodeNotFound key t.base.number), t)

variable {t : Transaction} (hopen : t.closed = false)
include hopen

/-- The node under the cursor is the one with the key of the cursor. -/
theorem Grounded.exists_node (h : t.Grounded) :
    ∃ node, t.tree.get? t.cursor = some node ∧ node.key = t.cursor ∧ t.node = .ok node := by
  obtain ⟨node, hnode⟩ := Tree.contains_iff_exists_get?.mp h.contains
  exact ⟨node, hnode, h.arises.keyed.key_eq hnode, node_eq_ok_iff.mpr ⟨hopen, hnode⟩⟩

/-- A node can be inserted wherever the cursor is. -/
theorem Grounded.exists_insert (h : t.Grounded) (kind : NodeKind) :
    ∃ tree, t.tree.Appends t.cursor kind tree ∧
      t.insert kind = .ok (t.tree.size, { t with tree, cursor := t.tree.size }) := by
  obtain ⟨tree, happend, happends⟩ := Tree.exists_appends h.contains kind
  exact ⟨tree, happends, insert_eq_ok_iff.mpr ⟨hopen, tree, happend, rfl⟩⟩

/-- On the document root there is no way up. -/
theorem Grounded.ascend_of_root (h : t.Grounded) (hroot : t.cursor = rootKey) :
    t.ascend = .error (.nodeNotFound rootKey t.base.number) := by
  obtain ⟨node, hnode, -, hread⟩ := h.exists_node hopen
  have hparent := (h.arises.parented.parent_eq_none_iff hnode).mpr hroot
  rw [← hroot]
  simp only [ascend, hread, bind, Except.bind, hparent]
  rfl

/-- From every other node the way up leads to its parent, which has a smaller key. -/
theorem Grounded.exists_ascend (h : t.Grounded) (hroot : t.cursor ≠ rootKey) :
    ∃ node parent, t.tree.get? t.cursor = some node ∧ node.parent = some parent ∧ parent < t.cursor ∧
      t.ascend = .ok { t with cursor := parent } := by
  obtain ⟨node, hnode, -, -⟩ := h.exists_node hopen
  obtain ⟨parent, hparent, hlt⟩ := h.arises.parented.parent hnode hroot
  exact ⟨node, parent, hnode, hparent, hlt,
    ascend_eq_ok_iff.mpr ⟨hopen, node, parent, hnode, hparent, rfl⟩⟩

/-- A transaction on a node has its footing. -/
theorem Grounded.footing (h : t.Grounded) : t.Footing := by
  constructor
  case node =>
    obtain ⟨node, hnode, hkey, hread⟩ := h.exists_node hopen
    refine ⟨node, hnode, hkey, ?_⟩
    simp only [Session.moveCursor, hread, Except.map]
  case found =>
    intro key hkey
    simp only [Session.moveCursor, moveTo_of_contains hopen hkey]
  case missing =>
    intro key hkey
    simp only [Session.moveCursor, moveTo_of_not_contains hopen hkey]

end Transaction

/-! ## Write transactions in sessions -/

namespace Session

/-- The session with another state of a write transaction of the resource at a place. -/
def withWriter (s : Session) (place : Nat) (r : Resource) (handle : Nat) (t : Transaction) : Session :=
  { s with store := s.store.setResource place (r.setWriter handle t) }

/-- What a caller finds who edits through an open write transaction. Its node can be read, and a node can be
inserted below it, where the cursor goes. It goes to the nodes of the tree and nowhere else, and up from every
node but the document root; what is refused changes nothing at all. From every node, going up as often as
the key of the node says, or less often, leads to the document root. -/
structure Footing (s : Session) (place : Nat) (r : Resource) (handle : Nat) (t : Transaction) : Prop where
  node : ∃ node, t.tree.get? t.cursor = some node ∧ node.key = t.cursor ∧
    writeOne ⟨place, handle⟩ .readNode s = (.ok (.ok (.node node)), s)
  inserted : ∀ kind : NodeKind, ∃ tree, t.tree.Appends t.cursor kind tree ∧
    writeOne ⟨place, handle⟩ (.insert kind) s = (.ok (.ok (.key t.tree.size)),
      s.withWriter place r handle { t with tree, cursor := t.tree.size })
  found : ∀ {key : Nat}, t.tree.contains key = true →
    writeOne ⟨place, handle⟩ (.moveTo key) s =
      (.ok (.ok .done), s.withWriter place r handle { t with cursor := key })
  missing : ∀ {key : Nat}, t.tree.contains key = false →
    writeOne ⟨place, handle⟩ (.moveTo key) s = (.ok (.error (.nodeNotFound key t.base.number)), s)
  below : t.cursor ≠ rootKey → ∃ node parent, t.tree.get? t.cursor = some node ∧
    node.parent = some parent ∧ t.tree.contains parent = true ∧ writeOne ⟨place, handle⟩ .toParent s =
      (.ok (.ok .done), s.withWriter place r handle { t with cursor := parent })
  root : t.cursor = rootKey →
    writeOne ⟨place, handle⟩ .toParent s = (.ok (.error (.nodeNotFound rootKey t.base.number)), s)
  climbs : ∀ {key : Nat}, t.tree.contains key = true → ∃ n ≤ key, ∃ answers,
    writeAll ⟨place, handle⟩ (.moveTo key :: List.replicate n .toParent) s =
      (.ok answers, s.withWriter place r handle { t with cursor := rootKey }) ∧
    ∀ answer ∈ answers, answer.1.isOk = true

variable {s : Session} {place handle : Nat} {r r' : Resource} {t t' : Transaction} {e : Edit}

/-- An edit that is not refused and does not set the clock. -/
theorem writeOne_of_edit {answer : EditAnswer} (hr : s.store.resource? place = some r)
    (hclock : e.clockBehind s.store.clock = s.store.clock)
    (h : r.edit handle s.store.clock e = .ok (answer, r')) :
    writeOne ⟨place, handle⟩ e s =
      (.ok (.ok answer), { s with store := s.store.setResource place r' }) := by
  simp only [writeOne, Store.edit_eq_of_ok (w := ⟨place, handle⟩) hr h, hclock]
  rfl

theorem writeOne_of_edit_error {reason : StoreError} (hr : s.store.resource? place = some r)
    (h : r.edit handle s.store.clock e = .error reason) :
    writeOne ⟨place, handle⟩ e s = (.ok (.error reason), s) := by
  simp only [writeOne, Store.edit_eq_of_error (w := ⟨place, handle⟩) hr h]

/-- A write transaction in a new state is found in that state, and may be put into another one. -/
theorem withWriter_spec (t' : Transaction) (hr : s.store.resource? place = some r)
    (live : r.liveWriter handle = .ok t) (hopen : t'.closed = false) :
    (s.withWriter place r handle t').store.resource? place = some (r.setWriter handle t') ∧
      (r.setWriter handle t').liveWriter handle = .ok t' ∧
      ∀ u : Transaction, (s.withWriter place r handle t').withWriter place (r.setWriter handle t') handle u =
        s.withWriter place r handle u := by
  refine ⟨(Store.resource?_setResource hr _ _).trans (if_pos rfl), Resource.liveWriter_setWriter live hopen,
    fun u => ?_⟩
  simp only [withWriter, Store.setResource_setResource, Resource.setWriter_setWriter]

section Live

variable (hr : s.store.resource? place = some r) (live : r.liveWriter handle = .ok t)
include hr live

theorem writeOne_moveTo {key : Nat} (hmove : t.moveTo key = .ok t') :
    writeOne ⟨place, handle⟩ (.moveTo key) s = (.ok (.ok .done), s.withWriter place r handle t') := by
  refine writeOne_of_edit hr rfl ?_
  rw [Resource.edit_moveTo live, hmove]
  rfl

theorem writeOne_toParent (hup : t.ascend = .ok t') :
    writeOne ⟨place, handle⟩ .toParent s = (.ok (.ok .done), s.withWriter place r handle t') := by
  refine writeOne_of_edit hr rfl ?_
  rw [Resource.edit_toParent live, hup]
  rfl

theorem writeOne_insert {kind : NodeKind} {key : Nat} (hinsert : t.insert kind = .ok (key, t')) :
    writeOne ⟨place, handle⟩ (.insert kind) s =
      (.ok (.ok (.key key)), s.withWriter place r handle t') := by
  refine writeOne_of_edit hr rfl ?_
  rw [Resource.edit_insert live, hinsert]
  rfl

/-- Going up and up from a node leads to the document root: each parent has a smaller key. -/
theorem exists_climb (hgrounded : t.Grounded) :
    ∃ n ≤ t.cursor, ∃ answers, writeAll ⟨place, handle⟩ (List.replicate n .toParent) s =
      (.ok answers, s.withWriter place r handle { t with cursor := rootKey }) ∧
      ∀ answer ∈ answers, answer.1.isOk = true := by
  have hopen := (Resource.liveWriter_eq_ok_iff.mp live).2
  -- The induction is on the key under the cursor, over whatever session has the transaction there.
  induction hkey : t.cursor using Nat.strongRecOn generalizing s r t with
  | _ key ih =>
    subst hkey
    by_cases hroot : t.cursor = rootKey
    · refine ⟨0, Nat.zero_le _, [], ?_, nofun⟩
      have hsame : s.withWriter place r handle { t with cursor := rootKey } = s := by
        rw [← hroot]
        show { s with store := s.store.setResource place (r.setWriter handle t) } = s
        rw [Resource.setWriter_self (Resource.liveWriter_eq_ok_iff.mp live).1, Store.setResource_self hr]
      rw [hsame]
      rfl
    · obtain ⟨node, parent, hnode, hparent, hlt, hup⟩ := hgrounded.exists_ascend hopen hroot
      have hstep := writeOne_toParent hr live hup
      obtain ⟨hr', live', hagain⟩ := withWriter_spec { t with cursor := parent } hr live hopen
      have hgrounded' : Transaction.Grounded { t with cursor := parent } :=
        ⟨hgrounded.arises, (hgrounded.arises.parented.contains_parent hnode hparent).1⟩
      obtain ⟨n, hn, answers, hall, hok⟩ := ih parent hlt hr' live' hgrounded' hopen rfl
      rw [hagain] at hall
      refine ⟨n + 1, Nat.lt_of_le_of_lt hn hlt, (.ok .done, t.base.number, parent) :: answers, ?_, ?_⟩
      · have ht' := (Resource.liveWriter_eq_ok_iff.mp live').1
        rw [List.replicate_succ, writeAll, bind_run_ok hstep]
        simp only [bind_run, Action.get, hall, hr', Option.bind_some, ht', Option.getD_some]
        rfl
      · exact List.forall_mem_cons.mpr ⟨rfl, hok⟩

/-- An open write transaction on a node has its footing. -/
theorem footing_of_grounded (hgrounded : t.Grounded) : s.Footing place r handle t := by
  have hopen := (Resource.liveWriter_eq_ok_iff.mp live).2
  constructor
  case node =>
    obtain ⟨node, hnode, hkey, hread⟩ := hgrounded.exists_node hopen
    refine ⟨node, hnode, hkey, ?_⟩
    have hedit : r.edit handle s.store.clock .readNode = .ok (.node node, r) := by
      rw [Resource.edit_readNode live, hread]
      rfl
    rw [writeOne_of_edit hr rfl hedit, Store.setResource_self hr]
  case inserted =>
    intro kind
    obtain ⟨tree, happends, hinsert⟩ := hgrounded.exists_insert hopen kind
    exact ⟨tree, happends, writeOne_insert hr live hinsert⟩
  case found =>
    intro key hkey
    exact writeOne_moveTo hr live (Transaction.moveTo_of_contains hopen hkey)
  case missing =>
    intro key hkey
    refine writeOne_of_edit_error hr ?_
    rw [Resource.edit_moveTo live, Transaction.moveTo_of_not_contains hopen hkey]
    rfl
  case below =>
    intro hne
    obtain ⟨node, parent, hnode, hparent, -, hup⟩ := hgrounded.exists_ascend hopen hne
    refine ⟨node, parent, hnode, hparent, ?_, writeOne_toParent hr live hup⟩
    exact (hgrounded.arises.parented.contains_parent hnode hparent).1
  case root =>
    intro hroot
    refine writeOne_of_edit_error hr ?_
    rw [Resource.edit_toParent live, hgrounded.ascend_of_root hopen hroot]
    rfl
  case climbs =>
    intro key hkey
    have hmove := writeOne_moveTo hr live (Transaction.moveTo_of_contains hopen hkey)
    obtain ⟨hr', live', hagain⟩ := withWriter_spec { t with cursor := key } hr live hopen
    obtain ⟨n, hn, answers, hall, hok⟩ := exists_climb hr' live' ⟨hgrounded.arises, hkey⟩
    rw [hagain] at hall
    refine ⟨n, hn, (.ok .done, t.base.number, key) :: answers, ?_, List.forall_mem_cons.mpr ⟨rfl, hok⟩⟩
    have ht' := (Resource.liveWriter_eq_ok_iff.mp live').1
    rw [writeAll, bind_run_ok hmove]
    simp only [bind_run, Action.get, hall, hr', Option.bind_some, ht', Option.getD_some]
    rfl

end Live

end Session

/-! ## Documents in sessions -/

/-- A document on a resource that backs it stands on a node. -/
theorem Resource.Planted.grounded_transaction {st : Store} {d : Document} {r : Resource} (h : r.Planted)
    (hr : st.resource? d.place = some r) (hbacks : r.Backs d.lease) : (d.transaction st).Grounded := by
  unfold Document.transaction
  cases hlease : d.lease with
  | reader t =>
    rw [hlease] at hbacks
    cases hbacks with
    | reader hs hcursor => exact ⟨h.sealed hs, hcursor⟩
  | writer handle =>
    rw [hlease] at hbacks
    cases hbacks with
    | writer ht =>
      simp only [hr, Option.bind_some, ht, Option.getD_some]
      exact h.working ht

/-- Every resource of a session is well planted and has what the documents on it lease. -/
theorem Session.backed_play (clock : Instant) (lastId : Nat) (threshold : Severity)
    (commands : List Command) :
    let s := ((Session.begin clock lastId threshold).play commands).2
    (∀ {place : Nat} {r : Resource}, s.store.resource? place = some r → r.Planted) ∧
      ∀ {slot : Nat} {d : Document}, s.documents[slot]? = some (some d) →
        ∃ r, s.store.resource? d.place = some r ∧ r.Backs d.lease := by
  intro s
  have haccounts : s.store.Accounts _ s.held :=
    Session.accounts_play Resource.account_backs clock lastId threshold commands
  refine ⟨fun hr => (haccounts.resource hr).planted, ?_⟩
  intro slot d hd
  have hheld := Session.hold_mem_held hd
  obtain ⟨r, hr⟩ := haccounts.placed hheld
  exact ⟨r, hr, (haccounts.resource hr).backs _ (Hold.mem_leasesAt hheld)⟩

/-- **Cursors never dangle.** In every session, the open transaction of a document, which is its own read
transaction or a write transaction of its resource, and each open write transaction of a resource has its
footing: its cursor is on a node of its tree, from where it goes to all nodes of the tree and nowhere else,
and a write transaction gets a new node wherever it is and finds its way up to the document root. A document
that may be changed stands on one of the write transactions of its resource. -/
theorem cursors_never_dangle (clock : Instant) (lastId : Nat) (threshold : Severity)
    (commands : List Command) :
    let s := ((Session.begin clock lastId threshold).play commands).2
    (∀ {slot : Nat} {d : Document}, s.documents[slot]? = some (some d) →
      (d.transaction s.store).closed = false → (d.transaction s.store).Footing) ∧
    (∀ {slot handle : Nat} {d : Document}, s.documents[slot]? = some (some d) →
      d.lease = .writer handle → ∃ r t, s.store.resource? d.place = some r ∧ r.writer? handle = some t) ∧
    ∀ {place handle : Nat} {r : Resource} {t : Transaction}, s.store.resource? place = some r →
      r.liveWriter handle = .ok t → s.Footing place r handle t := by
  intro s
  obtain ⟨hplanted, hbacked⟩ := Session.backed_play clock lastId threshold commands
  refine ⟨?_, ?_, ?_⟩
  · intro slot d hd hopen
    obtain ⟨r, hr, hbacks⟩ := hbacked hd
    exact ((hplanted hr).grounded_transaction hr hbacks).footing hopen
  · intro slot handle d hd hlease
    obtain ⟨r, hr, hbacks⟩ := hbacked hd
    rw [hlease] at hbacks
    cases hbacks with
    | writer ht => exact ⟨r, _, hr, ht⟩
  · intro place handle r t hr live
    have hgrounded := (hplanted hr).working (Resource.liveWriter_eq_ok_iff.mp live).1
    exact Session.footing_of_grounded hr live hgrounded

end AsOf
