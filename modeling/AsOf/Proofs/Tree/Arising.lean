import AsOf.Tree.Basic

/-!
# Trees that arise

A tree is the document root at first, and from then on it gets one node after the other. It only ever grows,
and where it grows at the root alone, it is flat.

## Main definitions

* `Node.GrowsTo`, `Tree.GrowsTo`: a node, and a tree, behind some growth
* `Node.SameAs`: two states of one node
* `Tree.flat`: the document root with children of given kinds
* `Tree.Arises`: the trees that come about in this way
* `Tree.Keyed`: every node carries the key that it is found by
* `Tree.Parented`: every node but the document root has a parent with a smaller key

## Main results

* `Tree.growsTo_of_append`: a tree grows by a node
* `Tree.GrowsTo.trans`: growing is transitive
* `Tree.GrowsTo.sameAs`: trees that grew from one tree agree about its nodes
* `Tree.append_flat`: a flat tree that grows at its root is flat
* `Tree.get?_flat`: which node has which key
* `Tree.Arises.keyed`, `Tree.Arises.parented`: trees that arise are keyed and parented
* `Tree.Parented.contains_parent`: the parent of a node is there
-/

namespace AsOf

/-! ## Trees that grew from another

A tree only grows: no node leaves it, and a node that is there keeps its place and its kind and gets
further children behind those it has. So all trees that grew from one tree agree about its nodes,
however they grew. -/

/-- The node keeps its key, its parent and its kind, and its children stay in front. -/
structure Node.GrowsTo (a b : Node) : Prop where
  key_eq : b.key = a.key
  parent_eq : b.parent = a.parent
  kind_eq : b.kind = a.kind
  children : a.children <+: b.children

/-- The nodes are one node in two states: they have the same key, parent and kind. -/
structure Node.SameAs (a b : Node) : Prop where
  key_eq : a.key = b.key
  parent_eq : a.parent = b.parent
  kind_eq : a.kind = b.kind

/-- Every node of the tree is a node of the other one and grew there. -/
structure Tree.GrowsTo (t u : Tree) : Prop where
  node : ∀ {key : Nat} {a : Node}, t.get? key = some a → ∃ b, u.get? key = some b ∧ a.GrowsTo b

theorem Node.GrowsTo.refl (a : Node) : a.GrowsTo a := ⟨rfl, rfl, rfl, List.prefix_refl _⟩

theorem Node.GrowsTo.trans {a b c : Node} (h : a.GrowsTo b) (h' : b.GrowsTo c) : a.GrowsTo c where
  key_eq := h'.key_eq.trans h.key_eq
  parent_eq := h'.parent_eq.trans h.parent_eq
  kind_eq := h'.kind_eq.trans h.kind_eq
  children := h.children.trans h'.children

theorem Node.GrowsTo.sameAs {a b c : Node} (h : a.GrowsTo b) (h' : a.GrowsTo c) : b.SameAs c where
  key_eq := h.key_eq.trans h'.key_eq.symm
  parent_eq := h.parent_eq.trans h'.parent_eq.symm
  kind_eq := h.kind_eq.trans h'.kind_eq.symm

namespace Tree

variable {t u v : Tree} {key parent : Nat} {kind : NodeKind} {a b c : Node}

theorem contains_iff_exists_get? : t.contains key = true ↔ ∃ a, t.get? key = some a := by
  rw [contains_iff, size, get?]
  constructor
  · exact fun h => ⟨_, Array.getElem?_eq_getElem h⟩
  · rintro ⟨a, h⟩
    exact (Array.getElem?_eq_some_iff.mp h).1

theorem contains_of_get? (h : t.get? key = some a) : t.contains key = true :=
  contains_iff_exists_get?.mpr ⟨a, h⟩

theorem contains_eq_false_iff : t.contains key = false ↔ t.get? key = none := by
  rw [← Bool.not_eq_true, contains_iff_exists_get?, not_exists, Option.eq_none_iff_forall_ne_some]

theorem GrowsTo.refl (t : Tree) : t.GrowsTo t := ⟨fun h => ⟨_, h, .refl _⟩⟩

theorem GrowsTo.trans (h : t.GrowsTo u) (h' : u.GrowsTo v) : t.GrowsTo v := by
  refine ⟨fun ha => ?_⟩
  obtain ⟨b, hb, hab⟩ := h.node ha
  obtain ⟨c, hc, hbc⟩ := h'.node hb
  exact ⟨c, hc, hab.trans hbc⟩

/-- A tree grows by a node: its parent gets a child behind the others, all other nodes stay as they
are. -/
theorem growsTo_of_append (h : t.append parent kind = some (key, u)) : t.GrowsTo u := by
  refine ⟨fun {k a} ha => ?_⟩
  have hk : k ≠ t.size := Nat.ne_of_lt (contains_iff.mp (contains_of_get? ha))
  have hu := get?_append h k
  rw [if_neg hk, ha] at hu
  split at hu
  · exact ⟨_, hu, rfl, rfl, rfl, List.prefix_append _ _⟩
  · exact ⟨a, hu, .refl a⟩

/-- Two trees that grew from one tree agree about its nodes. -/
theorem GrowsTo.sameAs (h : t.GrowsTo u) (h' : t.GrowsTo v) (ht : t.contains key = true)
    (hb : u.get? key = some b) (hc : v.get? key = some c) : b.SameAs c := by
  obtain ⟨a, ha⟩ := contains_iff_exists_get?.mp ht
  obtain ⟨b', hb', hab⟩ := h.node ha
  obtain ⟨c', hc', hac⟩ := h'.node ha
  obtain rfl := Option.some.inj (hb.symm.trans hb')
  obtain rfl := Option.some.inj (hc.symm.trans hc')
  exact hab.sameAs hac

/-- A tree has the keys of the tree it grew from. -/
theorem GrowsTo.contains (h : t.GrowsTo u) (ht : t.contains key = true) : u.contains key = true := by
  obtain ⟨a, ha⟩ := contains_iff_exists_get?.mp ht
  obtain ⟨b, hb, -⟩ := h.node ha
  exact contains_of_get? hb

end Tree

/-! ## Flat trees

A tree that only ever grew at its document root: all other nodes are children of the root, in the order
in which they came, and their keys count on from that of the root. -/

namespace Tree

/-- The document root with children of the given kinds, in their order. -/
def flat (kinds : List NodeKind) : Tree :=
  ⟨(⟨rootKey, none, .documentRoot, List.range' 1 kinds.length⟩ ::
    kinds.mapIdx fun i kind => ⟨i + 1, some rootKey, kind, []⟩).toArray⟩

@[simp]
theorem size_flat (kinds : List NodeKind) : (flat kinds).size = kinds.length + 1 := by
  simp [flat, size]

theorem contains_flat {kinds : List NodeKind} {key : Nat} :
    (flat kinds).contains key = true ↔ key ≤ kinds.length := by
  rw [contains_iff, size_flat, Nat.lt_succ_iff]

/-- A flat tree that grows at its root is flat. -/
theorem append_flat (kinds : List NodeKind) (kind : NodeKind) :
    (flat kinds).append rootKey kind = some (kinds.length + 1, flat (kinds ++ [kind])) := by
  have hroot : (flat kinds).contains rootKey = true := contains_flat.mpr (Nat.zero_le _)
  rw [append, if_pos hroot, nextKey]
  simp [flat, rootKey, List.mapIdx_append, List.range'_concat, Nat.add_comm]

/-- The key zero is that of the root, and every other key that of the child in its place. -/
theorem get?_flat {kinds : List NodeKind} {key : Nat} {node : Node}
    (h : (flat kinds).get? key = some node) :
    node.key = key ∧ (NodeKind.documentRoot :: kinds)[key]? = some node.kind := by
  cases key with
  | zero =>
    obtain rfl := Option.some.inj h
    exact ⟨rfl, rfl⟩
  | succ i =>
    simp only [flat, get?, List.getElem?_toArray, List.getElem?_cons_succ, List.getElem?_mapIdx] at h
    obtain ⟨kind, hkind, rfl⟩ := Option.map_eq_some_iff.mp h
    exact ⟨rfl, hkind⟩

/-! ## Keys and parents

A tree is the document root at first, and from then on it gets one node after the other, each below a node
that is there already. So a node is found by the key that it carries, and the way from any node to the
document root leads through smaller and smaller keys. -/

/-- The tree is the document root, or arose by appending a node to a tree that arose. -/
inductive Arises : Tree → Prop
  | new : Arises .new
  | append {t u : Tree} {parent key : Nat} {kind : NodeKind} (ht : Arises t)
      (h : t.append parent kind = some (key, u)) : Arises u

/-- Every node carries the key that it is found by. -/
structure Keyed (t : Tree) : Prop where
  key_eq : ∀ {key : Nat} {node : Node}, t.get? key = some node → node.key = key

/-- The document root is there and has no parent; every other node has one, with a smaller key. -/
structure Parented (t : Tree) : Prop where
  root : ∃ node, t.get? rootKey = some node ∧ node.parent = none
  parent : ∀ {key : Nat} {node : Node}, t.get? key = some node → key ≠ rootKey →
    ∃ p, node.parent = some p ∧ p < key

variable {t u : Tree} {parent key : Nat} {kind : NodeKind} {node : Node}

/-- In a new tree there is nothing but the document root. -/
theorem get?_new (h : new.get? key = some node) :
    key = rootKey ∧ node = ⟨rootKey, none, .documentRoot, []⟩ := by
  cases key with
  | zero => exact ⟨rfl, (Option.some.inj h).symm⟩
  | succ key => cases h

/-- What is found behind an append: the new node, or one that was there with the same key and the same
parent. -/
theorem get?_append_cases (h : t.append parent kind = some (key, u)) {k : Nat} (hk : u.get? k = some node) :
    (k = t.size ∧ node = ⟨t.size, some parent, kind, []⟩) ∨
      ∃ before, t.get? k = some before ∧ node.key = before.key ∧ node.parent = before.parent := by
  rw [get?_append h] at hk
  split at hk
  · next hnew => exact .inl ⟨hnew, (Option.some.inj hk).symm⟩
  · right
    split at hk
    · obtain ⟨before, hbefore, rfl⟩ := Option.map_eq_some_iff.mp hk
      exact ⟨before, hbefore, rfl, rfl⟩
    · exact ⟨node, hk, rfl, rfl⟩

/-- A node is appended below a node that is there. -/
theorem contains_of_append (h : t.append parent kind = some (key, u)) : t.contains parent = true := by
  rw [contains_iff]
  refine Nat.not_le.mp fun hle => ?_
  have hnone : t.append parent kind = none := append_eq_none.mpr hle
  cases hnone.symm.trans h

theorem keyed_new : new.Keyed := by
  constructor
  intro key node h
  obtain ⟨rfl, rfl⟩ := get?_new h
  rfl

theorem Keyed.append (ht : t.Keyed) (h : t.append parent kind = some (key, u)) : u.Keyed := by
  constructor
  intro k node hk
  rcases get?_append_cases h hk with ⟨rfl, rfl⟩ | ⟨before, hbefore, hkey, -⟩
  · rfl
  · rw [hkey]
    exact ht.key_eq hbefore

theorem parented_new : new.Parented := by
  constructor
  · exact ⟨_, rfl, rfl⟩
  · intro key node h hne
    obtain ⟨rfl, -⟩ := get?_new h
    exact absurd rfl hne

/-- The new node has the greatest key, so that its parent has a smaller one. -/
theorem Parented.append (ht : t.Parented) (h : t.append parent kind = some (key, u)) : u.Parented := by
  constructor
  · obtain ⟨a, ha, hroot⟩ := ht.root
    obtain ⟨b, hb, hgrew⟩ := (growsTo_of_append h).node ha
    exact ⟨b, hb, hgrew.parent_eq.trans hroot⟩
  · intro k node hk hne
    rcases get?_append_cases h hk with ⟨rfl, rfl⟩ | ⟨before, hbefore, -, hparent⟩
    · exact ⟨parent, rfl, contains_iff.mp (contains_of_append h)⟩
    · rw [hparent]
      exact ht.parent hbefore hne

theorem Arises.keyed (h : t.Arises) : t.Keyed := by
  induction h with
  | new => exact keyed_new
  | append _ h ih => exact ih.append h

theorem Arises.parented (h : t.Arises) : t.Parented := by
  induction h with
  | new => exact parented_new
  | append _ h ih => exact ih.append h

theorem Parented.contains_root (ht : t.Parented) : t.contains rootKey = true := by
  obtain ⟨node, hnode, -⟩ := ht.root
  exact contains_of_get? hnode

/-- Only the document root has no parent. -/
theorem Parented.parent_eq_none_iff (ht : t.Parented) (hnode : t.get? key = some node) :
    node.parent = none ↔ key = rootKey := by
  constructor
  · intro hnone
    refine Decidable.byContradiction fun hne => ?_
    obtain ⟨p, hp, -⟩ := ht.parent hnode hne
    cases hnone.symm.trans hp
  · rintro rfl
    obtain ⟨root, hroot, hnone⟩ := ht.root
    obtain rfl := Option.some.inj (hnode.symm.trans hroot)
    exact hnone

/-- The parent of a node is there, and nearer to the document root. -/
theorem Parented.contains_parent (ht : t.Parented) (hnode : t.get? key = some node) {p : Nat}
    (hp : node.parent = some p) : t.contains p = true ∧ p < key := by
  have hne : key ≠ rootKey := fun hroot => by
    cases ((ht.parent_eq_none_iff hnode).mpr hroot).symm.trans hp
  obtain ⟨q, hq, hlt⟩ := ht.parent hnode hne
  obtain rfl := Option.some.inj (hq.symm.trans hp)
  have hkey := contains_iff.mp (contains_of_get? hnode)
  exact ⟨contains_iff.mpr (Nat.lt_trans hlt hkey), hlt⟩

end Tree

end AsOf
