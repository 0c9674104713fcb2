import AsOf.Proofs.Tree.Arising
import Mathlib.Data.List.Induction
import Mathlib.Data.List.Nodup
import Mathlib.Data.List.Perm.Subperm

/-!
# Trees and walks

Nodes that arise one after the other are one tree: parents and children tell the same, and a walk from the
document root visits every node once. As a table, the tree is what the same appends make of a table.

## Main definitions

* `Tree.ParentOf`: which node a node names as its parent
* `Tree.Linked`: every node lists the nodes that name it as their parent, in ascending order
* `Tree.keys`, `Tree.childKeys`: the keys that nodes carry, and those that they list
* `Tree.Walks`: a depth-first walk from some nodes, and the nodes that it visits
* `Tree.Underway`: where a walk from the document root is
* `Tree.IsTree`: all that makes nodes one tree
* `Tree.ofAppends`: the tree that arises by appends
* `NodeTable`: nodes under keys, and the next key
* `NodeTable.append`, `NodeTable.ofAppends`: appending step by step
* `Tree.table`: what a tree is as a table

## Main results

* `Tree.Arises.linked`: trees that arise are linked
* `Tree.Keyed.keys_eq`: the nodes carry the keys from zero on
* `Tree.Linked.nodup_flatMap_children`: different nodes list different children
* `Tree.Arises.childKeys_perm`: every key but that of the document root is listed once
* `Tree.Underway.step`: a walk goes on
* `Tree.Arises.walks`, `Tree.Arises.preorder_perm`: it visits every node once
* `Tree.Arises.isTree`: trees that arise are trees
* `Tree.arises_iff`: they are those that arise by appends
* `Tree.table_append`: appending to a tree is appending to its table
* `Tree.table_ofAppends`: the table of a tree is what the same appends make of a table
-/

namespace AsOf

/-! ## Parents and children

A tree tells twice how its nodes hang together: each node names its parent, and each node lists its
children. In a tree that arises both say the same: a node is listed by its parent, once, and by nobody else.
Children are listed in the order in which they came, and that is the order of their keys. -/

namespace Tree

/-- The child is there and names the parent. -/
def ParentOf (t : Tree) (parent child : Nat) : Prop :=
  ∃ node, t.get? child = some node ∧ node.parent = some parent

/-- Every node lists the nodes that name it as their parent, in ascending order. -/
structure Linked (t : Tree) : Prop where
  mem_children_iff : ∀ {key child : Nat} {node : Node}, t.get? key = some node →
    (child ∈ node.children ↔ t.ParentOf key child)
  ascending : ∀ {key : Nat} {node : Node}, t.get? key = some node → node.children.Pairwise (· < ·)

/-- The keys that the nodes carry, in the order in which the nodes came. -/
def keys (t : Tree) : List Nat := t.nodes.toList.map Node.key

/-- The children that the nodes list, one list after the other. -/
def childKeys (t : Tree) : List Nat := t.nodes.toList.flatMap Node.children

variable {t u : Tree} {parent key child : Nat} {kind : NodeKind} {node : Node}

/-! ### Parents -/

theorem ParentOf.contains (h : t.ParentOf parent child) : t.contains child = true := by
  obtain ⟨node, hnode, -⟩ := h
  exact contains_of_get? hnode

theorem ParentOf.unique {other : Nat} (h : t.ParentOf parent child) (h' : t.ParentOf other child) :
    parent = other := by
  obtain ⟨a, ha, hparent⟩ := h
  obtain ⟨b, hb, hother⟩ := h'
  obtain rfl := Option.some.inj (ha.symm.trans hb)
  exact Option.some.inj (hparent.symm.trans hother)

/-- The document root is nobody's child. -/
theorem Parented.not_parentOf_root (ht : t.Parented) : ¬t.ParentOf parent rootKey := by
  rintro ⟨node, hnode, hparent⟩
  cases ((ht.parent_eq_none_iff hnode).mpr rfl).symm.trans hparent

/-- Every node but the document root is the child of one with a smaller key. -/
theorem Parented.exists_parentOf (ht : t.Parented) (hkey : t.contains key = true) (hne : key ≠ rootKey) :
    ∃ p, t.ParentOf p key ∧ p < key := by
  obtain ⟨node, hnode⟩ := contains_iff_exists_get?.mp hkey
  obtain ⟨p, hp, hlt⟩ := ht.parent hnode hne
  exact ⟨p, ⟨node, hnode, hp⟩, hlt⟩

theorem Parented.contains_of_parentOf (ht : t.Parented) (h : t.ParentOf parent child) :
    t.contains parent = true := by
  obtain ⟨node, hnode, hparent⟩ := h
  exact (ht.contains_parent hnode hparent).1

/-- An append adds one child of one parent. -/
theorem parentOf_append (h : t.append parent kind = some (key, u)) (p child : Nat) :
    u.ParentOf p child ↔ child = t.size ∧ p = parent ∨ t.ParentOf p child := by
  constructor
  · rintro ⟨node, hnode, hparent⟩
    rcases get?_append_cases h hnode with ⟨hnew, rfl⟩ | ⟨before, hbefore, -, hsame⟩
    · exact .inl ⟨hnew, (Option.some.inj hparent).symm⟩
    · exact .inr ⟨before, hbefore, hsame.symm.trans hparent⟩
  · rintro (⟨rfl, rfl⟩ | ⟨a, ha, hparent⟩)
    · exact ⟨_, (get?_append h _).trans (if_pos rfl), rfl⟩
    · obtain ⟨b, hb, hgrew⟩ := (growsTo_of_append h).node ha
      exact ⟨b, hb, hgrew.parent_eq.trans hparent⟩

/-! ### Children -/

theorem linked_new : new.Linked where
  mem_children_iff {key child node} h := by
    obtain ⟨-, rfl⟩ := get?_new h
    constructor
    · nofun
    · rintro ⟨c, hc, hparent⟩
      obtain ⟨-, rfl⟩ := get?_new hc
      cases hparent
  ascending h := by
    obtain ⟨-, rfl⟩ := get?_new h
    exact .nil

/-- The new node has no children yet and is behind those that its parent had. -/
theorem Linked.append (hp : t.Parented) (ht : t.Linked) (h : t.append parent kind = some (key, u)) :
    u.Linked := by
  have hget := get?_append h
  have hparent := contains_iff.mp (contains_of_append h)
  constructor
  · intro k child node hk
    rw [parentOf_append h]
    rw [hget] at hk
    split at hk
    · next hnew =>
      obtain rfl := Option.some.inj hk
      subst hnew
      refine ⟨nofun, ?_⟩
      rintro (⟨-, rfl⟩ | hold)
      · exact absurd hparent (Nat.lt_irrefl _)
      · exact absurd (contains_iff.mp (hp.contains_of_parentOf hold)) (Nat.lt_irrefl _)
    · split at hk
      · next hk' =>
        obtain ⟨before, hbefore, rfl⟩ := Option.map_eq_some_iff.mp hk
        rw [List.mem_append, List.mem_singleton, ht.mem_children_iff hbefore, hk', or_comm]
        simp only [and_true]
      · next hk' =>
        rw [ht.mem_children_iff hk]
        simp only [hk', and_false, false_or]
  · intro k node hk
    rw [hget] at hk
    split at hk
    · obtain rfl := Option.some.inj hk
      exact .nil
    · split at hk
      · obtain ⟨before, hbefore, rfl⟩ := Option.map_eq_some_iff.mp hk
        refine List.pairwise_append.mpr ⟨ht.ascending hbefore, List.pairwise_singleton _ _, ?_⟩
        intro a ha b hb
        obtain rfl := List.mem_singleton.mp hb
        exact contains_iff.mp ((ht.mem_children_iff hbefore).mp ha).contains
      · exact ht.ascending hk

theorem Arises.linked (h : t.Arises) : t.Linked := by
  induction h with
  | new => exact linked_new
  | append ht h ih => exact ih.append ht.parented h

/-! ### All keys -/

theorem Keyed.mem_nodes_iff (ht : t.Keyed) : node ∈ t.nodes.toList ↔ t.get? node.key = some node := by
  rw [Array.mem_toList_iff, Array.mem_iff_getElem?]
  constructor
  · rintro ⟨i, hi⟩
    have hkey : node.key = i := ht.key_eq hi
    rw [hkey]
    exact hi
  · exact fun h => ⟨_, h⟩

/-- The nodes carry the keys from zero on. -/
theorem Keyed.keys_eq (ht : t.Keyed) : t.keys = List.range t.size := by
  apply List.ext_getElem?
  intro i
  rw [keys, List.getElem?_map, Array.getElem?_toList]
  by_cases hi : i < t.size
  · have hnode : t.get? i = some _ := Array.getElem?_eq_getElem hi
    rw [List.getElem?_range hi, show t.nodes[i]? = _ from hnode, Option.map_some, ht.key_eq hnode]
  · have hi := Nat.le_of_not_lt hi
    rw [Array.getElem?_eq_none hi, List.getElem?_eq_none (by simpa using hi), Option.map_none]

theorem Keyed.nodup_keys (ht : t.Keyed) : t.keys.Nodup := ht.keys_eq ▸ List.nodup_range

/-- Different nodes list different children, and no node lists one twice. -/
theorem Linked.nodup_flatMap_children (ht : t.Linked) {nodes : List Node}
    (hnodes : ∀ node ∈ nodes, t.get? node.key = some node) (hnodup : (nodes.map Node.key).Nodup) :
    (nodes.flatMap Node.children).Nodup := by
  rw [List.nodup_flatMap]
  constructor
  · intro node hnode
    exact (ht.ascending (hnodes node hnode)).imp Nat.ne_of_lt
  · refine (List.pairwise_map.mp hnodup).imp_of_mem fun {a b} ha hb hne => ?_
    -- A child of both would name two parents.
    intro child hca hcb
    have hpa := (ht.mem_children_iff (hnodes a ha)).mp hca
    have hpb := (ht.mem_children_iff (hnodes b hb)).mp hcb
    exact hne (hpa.unique hpb)

/-- The nodes that are listed are those that name a parent. -/
theorem Arises.mem_childKeys_iff (h : t.Arises) :
    child ∈ t.childKeys ↔ t.contains child = true ∧ child ≠ rootKey := by
  have hp := h.parented
  rw [childKeys, List.mem_flatMap]
  constructor
  · rintro ⟨node, hnode, hmem⟩
    have hparent := (h.linked.mem_children_iff (h.keyed.mem_nodes_iff.mp hnode)).mp hmem
    exact ⟨hparent.contains, fun hroot => hp.not_parentOf_root (hroot ▸ hparent)⟩
  · rintro ⟨hchild, hne⟩
    obtain ⟨p, hparent, -⟩ := hp.exists_parentOf hchild hne
    obtain ⟨node, hnode⟩ := contains_iff_exists_get?.mp (hp.contains_of_parentOf hparent)
    have hmem := (h.linked.mem_children_iff hnode).mpr hparent
    rw [← h.keyed.key_eq hnode] at hnode
    exact ⟨node, h.keyed.mem_nodes_iff.mpr hnode, hmem⟩

/-- Every key but that of the document root is listed once. -/
theorem Arises.childKeys_perm (h : t.Arises) : t.childKeys.Perm (List.range' 1 (t.size - 1)) := by
  have hnodup : t.childKeys.Nodup :=
    h.linked.nodup_flatMap_children (fun _ => h.keyed.mem_nodes_iff.mp) h.keyed.nodup_keys
  rw [List.perm_ext_iff_of_nodup hnodup List.nodup_range']
  intro child
  rw [h.mem_childKeys_iff, contains_iff, List.mem_range'_1, rootKey]
  omega

end Tree

/-! ## Walks through a tree

A depth-first walk visits a node, then everything below it, and then what is left to visit. Through a tree
that arises it comes to an end by itself: the nodes that it visited and those that lie ahead are, taken
together, the document root and the children of the visited nodes, so nothing is met twice. When nothing lies
ahead any more, every child of a visited node was visited, and so was every node. -/

namespace Tree

/-- A depth-first walk from the nodes with the given keys, and the nodes that it visits, in their order. -/
inductive Walks (t : Tree) : List Nat → List Node → Prop
  | done : Walks t [] []
  | visit {key : Nat} {rest : List Nat} {node : Node} {visited : List Node}
      (hnode : t.get? key = some node) (h : Walks t (node.children ++ rest) visited) :
      Walks t (key :: rest) (node :: visited)

variable {t u : Tree} {visited : List Node} {ahead rest : List Nat} {key parent : Nat} {node : Node}

/-- A walk has only one way to go. -/
theorem Walks.unique {other : List Node} (h : t.Walks ahead visited) (h' : t.Walks ahead other) :
    visited = other := by
  induction h generalizing other with
  | done =>
    cases h'
    rfl
  | visit hnode _ ih =>
    cases h' with
    | visit hnode' h' =>
      obtain rfl := Option.some.inj (hnode.symm.trans hnode')
      rw [ih h']

theorem visit_nil (t : Tree) (fuel : Nat) : t.visit fuel [] = [] := by
  cases fuel <;> rfl

/-! ### Where a walk is -/

/-- Some nodes were visited, each of them once, and some keys lie ahead. Together they are the document root
and the children of the visited nodes. -/
structure Underway (t : Tree) (visited : List Node) (ahead : List Nat) : Prop where
  node : ∀ node ∈ visited, t.get? node.key = some node
  nodup : (visited.map Node.key).Nodup
  perm : (visited.map Node.key ++ ahead).Perm (rootKey :: visited.flatMap Node.children)

theorem underway_start : t.Underway [] [rootKey] := ⟨nofun, .nil, .refl _⟩

/-- What was visited or lies ahead is the document root, or the child of a visited node. -/
theorem Underway.mem_iff (h : t.Underway visited ahead) (ht : t.Linked) :
    key ∈ visited.map Node.key ++ ahead ↔ key = rootKey ∨ ∃ node ∈ visited, t.ParentOf node.key key := by
  rw [h.perm.mem_iff, List.mem_cons, List.mem_flatMap]
  refine or_congr_right (exists_congr fun node => and_congr_right fun hnode => ?_)
  exact ht.mem_children_iff (h.node node hnode)

/-- Nothing is met twice. -/
theorem Underway.nodup_append (h : t.Underway visited ahead) (ht : t.Arises) :
    (visited.map Node.key ++ ahead).Nodup := by
  rw [h.perm.nodup_iff, List.nodup_cons, List.mem_flatMap]
  refine ⟨?_, ht.linked.nodup_flatMap_children h.node h.nodup⟩
  rintro ⟨node, hnode, hroot⟩
  exact ht.parented.not_parentOf_root ((ht.linked.mem_children_iff (h.node node hnode)).mp hroot)

/-- Everything that is met is a node. -/
theorem Underway.contains (h : t.Underway visited ahead) (ht : t.Arises)
    (hkey : key ∈ visited.map Node.key ++ ahead) : t.contains key = true := by
  rcases (h.mem_iff ht.linked).mp hkey with rfl | ⟨node, -, hparent⟩
  · exact ht.parented.contains_root
  · exact hparent.contains

/-- A walk does not meet more nodes than there are. -/
theorem Underway.length_le (h : t.Underway visited ahead) (ht : t.Arises) :
    visited.length + ahead.length ≤ t.size := by
  have hsubset : visited.map Node.key ++ ahead ⊆ List.range t.size := fun key hkey =>
    List.mem_range.mpr (contains_iff.mp (h.contains ht hkey))
  simpa using ((h.nodup_append ht).subperm hsubset).length_le

/-- A walk goes on: the next node is there, and its children come before the rest. -/
theorem Underway.step (h : t.Underway visited (key :: rest)) (ht : t.Arises) :
    ∃ node, t.get? key = some node ∧ t.Underway (visited ++ [node]) (node.children ++ rest) := by
  have hmem : key ∈ visited.map Node.key ++ key :: rest := by simp
  obtain ⟨node, hnode⟩ := contains_iff_exists_get?.mp (h.contains ht hmem)
  have hkey : node.key = key := ht.keyed.key_eq hnode
  refine ⟨node, hnode, fun other hother => ?_, ?_, ?_⟩
  · rcases List.mem_append.mp hother with hother | hother
    · exact h.node other hother
    · obtain rfl := List.mem_singleton.mp hother
      rw [hkey]
      exact hnode
  · have hnodup := h.nodup_append ht
    rw [List.append_cons] at hnodup
    rw [List.map_append, List.map_singleton, hkey]
    exact hnodup.of_append_left
  · have hmoved : (visited.map Node.key ++ key :: (node.children ++ rest)).Perm
        (visited.map Node.key ++ key :: rest ++ node.children) := by
      rw [List.append_assoc, List.cons_append]
      exact (List.perm_append_comm.cons key).append_left _
    rw [List.map_append, List.map_singleton, hkey, List.append_assoc, List.singleton_append,
      List.flatMap_append, List.flatMap_singleton]
    exact hmoved.trans (h.perm.append_right _)

/-- When nothing lies ahead, every node was visited: its parent was, which has a smaller key. -/
theorem Underway.mem_of_contains (h : t.Underway visited []) (ht : t.Arises)
    (hkey : t.contains key = true) : key ∈ visited.map Node.key := by
  induction key using Nat.strongRecOn with
  | _ key ih =>
    rw [← List.append_nil (visited.map Node.key), h.mem_iff ht.linked]
    by_cases hroot : key = rootKey
    · exact .inl hroot
    · obtain ⟨p, hparent, hlt⟩ := ht.parented.exists_parentOf hkey hroot
      have hvisited := ih p hlt (ht.parented.contains_of_parentOf hparent)
      obtain ⟨node, hnode, rfl⟩ := List.mem_map.mp hvisited
      exact .inr ⟨node, hnode, hparent⟩

theorem Underway.perm_nodes (h : t.Underway visited []) (ht : t.Arises) :
    visited.Perm t.nodes.toList := by
  have hnodes : t.nodes.toList.Nodup := .of_map _ ht.keyed.nodup_keys
  rw [List.perm_ext_iff_of_nodup (.of_map _ h.nodup) hnodes]
  intro node
  rw [ht.keyed.mem_nodes_iff]
  constructor
  · exact h.node node
  · intro hnode
    obtain ⟨other, hother, hkey⟩ := List.mem_map.mp (h.mem_of_contains ht (contains_of_get? hnode))
    have hsame := h.node other hother
    rw [hkey, hnode] at hsame
    exact Option.some.inj hsame ▸ hother

/-- With enough fuel for the nodes that are left, a walk comes to its end. -/
theorem Underway.walks_visit (ht : t.Arises) {fuel : Nat} (h : t.Underway visited ahead)
    (hfuel : t.size ≤ visited.length + fuel) :
    t.Walks ahead (t.visit fuel ahead) ∧ (visited ++ t.visit fuel ahead).Perm t.nodes.toList := by
  induction fuel generalizing visited ahead with
  | zero =>
    have hle := h.length_le ht
    have hnil : ahead = [] := List.length_eq_zero_iff.mp (by omega)
    subst hnil
    rw [visit_nil, List.append_nil]
    exact ⟨.done, h.perm_nodes ht⟩
  | succ fuel ih =>
    cases ahead with
    | nil =>
      rw [visit_nil, List.append_nil]
      exact ⟨.done, h.perm_nodes ht⟩
    | cons key rest =>
      obtain ⟨node, hnode, hstep⟩ := h.step ht
      have hlength : t.size ≤ (visited ++ [node]).length + fuel := by
        rw [List.length_append, List.length_singleton]
        omega
      obtain ⟨hwalks, hperm⟩ := ih hstep hlength
      simp only [visit, hnode]
      rw [← List.append_cons] at hperm
      exact ⟨.visit hnode hwalks, hperm⟩

theorem Arises.walks (h : t.Arises) : t.Walks [rootKey] t.preorder :=
  (underway_start.walks_visit h (Nat.le_add_left _ _)).1

/-- A walk from the document root visits every node once. -/
theorem Arises.preorder_perm (h : t.Arises) : t.preorder.Perm t.nodes.toList :=
  (underway_start.walks_visit h (Nat.le_add_left _ _)).2

/-! ### Trees that are trees -/

/-- The nodes carry the keys from zero on, by which they are found. The document root has the key zero and no
parent. Every other node has a parent with a smaller key, which lists it, and is listed nowhere else. Children
are listed in ascending order. A walk from the document root comes to an end and visits every node once. -/
structure IsTree (t : Tree) : Prop where
  keys_eq : t.keys = List.range t.size
  keyed : t.Keyed
  found : ∀ {key : Nat}, (∃ node, t.get? key = some node) ↔ key < t.size
  root : ∃ node, t.get? rootKey = some node ∧ node.kind = .documentRoot ∧ node.parent = none
  parent : ∀ {key : Nat} {node : Node}, t.get? key = some node → key ≠ rootKey →
    ∃ p above, node.parent = some p ∧ p < key ∧ t.get? p = some above ∧ key ∈ above.children
  listed : t.childKeys.Perm (List.range' 1 (t.size - 1))
  ascending : ∀ {key : Nat} {node : Node}, t.get? key = some node → node.children.Pairwise (· < ·)
  walks : t.Walks [rootKey] t.preorder
  visited : t.preorder.Perm t.nodes.toList

/-- A tree that arises grew from the document root. -/
theorem Arises.growsTo (h : t.Arises) : Tree.new.GrowsTo t := by
  induction h with
  | new => exact .refl _
  | append _ h ih => exact ih.trans (growsTo_of_append h)

theorem Arises.exists_root (h : t.Arises) :
    ∃ node, t.get? rootKey = some node ∧ node.kind = .documentRoot ∧ node.parent = none := by
  have hroot : Tree.new.get? rootKey = some ⟨rootKey, none, .documentRoot, []⟩ := rfl
  obtain ⟨node, hnode, hgrew⟩ := h.growsTo.node hroot
  exact ⟨node, hnode, hgrew.kind_eq, hgrew.parent_eq⟩

/-- The parent that a node names is there and lists it. -/
theorem Arises.exists_above (h : t.Arises) (hnode : t.get? key = some node) (hne : key ≠ rootKey) :
    ∃ p above, node.parent = some p ∧ p < key ∧ t.get? p = some above ∧ key ∈ above.children := by
  obtain ⟨p, hp, hlt⟩ := h.parented.parent hnode hne
  obtain ⟨above, habove⟩ := contains_iff_exists_get?.mp (h.parented.contains_parent hnode hp).1
  exact ⟨p, above, hp, hlt, habove, (h.linked.mem_children_iff habove).mpr ⟨node, hnode, hp⟩⟩

/-- Trees that arise are trees. -/
theorem Arises.isTree (h : t.Arises) : t.IsTree where
  keys_eq := h.keyed.keys_eq
  keyed := h.keyed
  found := contains_iff_exists_get?.symm.trans contains_iff
  root := h.exists_root
  parent := h.exists_above
  listed := h.childKeys_perm
  ascending := h.linked.ascending
  walks := h.walks
  visited := h.preorder_perm

/-! ### Appends -/

/-- The tree after a node of some kind was to be appended below a node; it stays as it is if that node is not
there. -/
def appended (t : Tree) (below : Nat × NodeKind) : Tree := (t.append below.1 below.2).elim t (·.2)

/-- The tree after nodes were to be appended one after the other. -/
def ofAppends (below : List (Nat × NodeKind)) : Tree := below.foldl appended new

theorem ofAppends_append_singleton (before : List (Nat × NodeKind)) (below : Nat × NodeKind) :
    ofAppends (before ++ [below]) = (ofAppends before).appended below :=
  List.foldl_concat ..

theorem Arises.appended (h : t.Arises) (below : Nat × NodeKind) : (t.appended below).Arises := by
  unfold Tree.appended
  cases happend : t.append below.1 below.2 with
  | none => exact h
  | some grown => exact h.append happend

/-- The trees that arise are those that arise by appends. -/
theorem arises_iff : t.Arises ↔ ∃ below, t = ofAppends below := by
  constructor
  · intro h
    induction h with
    | new => exact ⟨[], rfl⟩
    | @append t u parent key kind _ h ih =>
      obtain ⟨before, rfl⟩ := ih
      refine ⟨before ++ [(parent, kind)], ?_⟩
      rw [ofAppends_append_singleton, Tree.appended, h, Option.elim_some]
  · rintro ⟨below, rfl⟩
    induction below using List.reverseRecOn with
    | nil => exact .new
    | append_singleton before below ih =>
      rw [ofAppends_append_singleton]
      exact ih.appended below

/-- Where there is no parent, nothing is appended. -/
theorem append_eq_none_iff {kind : NodeKind} : t.append parent kind = none ↔ t.contains parent = false := by
  rw [append_eq_none, ← Bool.not_eq_true, contains_iff, Nat.not_lt]

theorem appended_of_not_contains {kind : NodeKind} (h : t.contains parent = false) :
    t.appended (parent, kind) = t := by
  rw [Tree.appended, append_eq_none_iff.mpr h, Option.elim_none]

end Tree

/-! ## Trees as tables

A tree may be looked at as a table of nodes under keys, together with the key that the next node gets.
Appending is then done in steps: the parent is looked up, its child is entered there, and the new node is
entered under the next key. What a tree keeps in a row is this table, and the next key is the number of nodes. -/

/-- Nodes under keys, and the key that the next node gets. -/
structure NodeTable where
  node? : Nat → Option Node
  nextKey : Nat

namespace NodeTable

/-- The table with a node under a key, instead of what was there. -/
def put (t : NodeTable) (key : Nat) (node : Node) : NodeTable :=
  { t with node? := fun k => if k = key then some node else t.node? k }

/-- The table with the document root. -/
def new : NodeTable :=
  NodeTable.put ⟨fun _ => none, rootKey + 1⟩ rootKey ⟨rootKey, none, .documentRoot, []⟩

/-- The key of a new last child of the node `parent`, and the table with it, unless the parent is missing. -/
def append (t : NodeTable) (parent : Nat) (kind : NodeKind) : Option (Nat × NodeTable) := do
  let node ← t.node? parent
  let linked := t.put parent { node with children := node.children ++ [t.nextKey] }
  let grown := linked.put t.nextKey ⟨t.nextKey, some parent, kind, []⟩
  return (t.nextKey, { grown with nextKey := t.nextKey + 1 })

/-- The table after a node of some kind was to be appended below a node. -/
def appended (t : NodeTable) (below : Nat × NodeKind) : NodeTable :=
  (t.append below.1 below.2).elim t (·.2)

/-- The table after nodes were to be appended one after the other. -/
def ofAppends (below : List (Nat × NodeKind)) : NodeTable := below.foldl appended new

end NodeTable

namespace Tree

variable {t u : Tree} {parent key : Nat} {kind : NodeKind}

/-- The nodes of a tree under their keys, and its next key. -/
def table (t : Tree) : NodeTable := ⟨t.get?, t.nextKey⟩

theorem table_new : new.table = .new := by
  have hget : new.get? = NodeTable.new.node? := by
    funext k
    cases k with
    | zero => rfl
    | succ k => rfl
  rw [table, hget]
  rfl

/-- Appending to a tree is appending to its table. -/
theorem table_append (t : Tree) (parent : Nat) (kind : NodeKind) :
    t.table.append parent kind = (t.append parent kind).map (Prod.map id table) := by
  cases happend : t.append parent kind with
  | none =>
    have hmissing := contains_eq_false_iff.mp (append_eq_none_iff.mp happend)
    simp only [NodeTable.append, table, hmissing, Option.map_none]
    rfl
  | some grown =>
    obtain ⟨key, u⟩ := grown
    obtain ⟨rfl, hsize⟩ := size_of_append happend
    obtain ⟨node, hnode⟩ := contains_iff_exists_get?.mp (contains_of_append happend)
    have hget : u.get? = ((t.table.put parent { node with children := node.children ++ [t.size] }).put t.size
        ⟨t.size, some parent, kind, []⟩).node? := by
      funext k
      rw [get?_append happend]
      by_cases hparent : k = parent
      · simp [NodeTable.put, table, hparent, hnode]
      · simp [NodeTable.put, table, hparent]
    have htable : u.table = ⟨_, t.size + 1⟩ := congrArg₂ NodeTable.mk hget hsize
    rw [Option.map_some, Prod.map_apply, htable]
    simp only [NodeTable.append, show t.table.node? parent = some node from hnode]
    rfl

theorem table_appended (t : Tree) (below : Nat × NodeKind) :
    (t.appended below).table = t.table.appended below := by
  rw [appended, NodeTable.appended, table_append]
  cases t.append below.1 below.2 <;> rfl

/-- The table of a tree is what the same appends make of a table. -/
theorem table_ofAppends (below : List (Nat × NodeKind)) :
    (ofAppends below).table = .ofAppends below := by
  have hfold : ∀ t : Tree, (below.foldl appended t).table = below.foldl NodeTable.appended t.table := by
    induction below with
    | nil => exact fun _ => rfl
    | cons b below ih => exact fun t => (ih _).trans (by rw [table_appended, List.foldl_cons])
  rw [ofAppends, hfold, table_new]
  rfl

end Tree

end AsOf
