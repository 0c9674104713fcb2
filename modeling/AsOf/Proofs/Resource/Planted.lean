import AsOf.Proofs.Resource.Account
import AsOf.Proofs.Tree.Arising

/-!
# Keys, cursors and nodes

Every tree of a resource arose by growth. So the node with a key carries that key, and no cursor is ever
without a node.

## Main definitions

* `Transaction.Grounded`: the tree of a transaction arose, and its cursor is on a node of it
* `Resource.Planted`: all trees of a resource arose, and its write transactions are grounded
* `Resource.Backs`: a lease is a grounded transaction of a resource
* `Resource.Keyed`: all trees of a resource are keyed
* `Resource.HandsOut`: the open transactions that a resource hands out

## Main results

* `Transaction.Grounded.moves`: a move goes from a node to a node
* `Resource.Planted.step`: whatever is done to a resource, it remains planted
* `Resource.account_backs`: whatever is given out is backed, and remains so
* `Resource.keyed_run`: whatever happens to a resource, its trees remain keyed
* `Resource.Keyed.of_handsOut`: what is handed out shows a keyed tree
-/

namespace AsOf

/-! ## Cursors on nodes

A cursor is a key, and what it points into may be replaced: a tree grows, is sealed, or gives way to that of
an earlier revision, which may be far smaller. No cursor is left without a node for all that. Whatever
happens, every tree of a resource arose by growth, and every write transaction has its cursor on a node of
its own tree; a read transaction shows the tree of a sealed revision, which stays what it is. -/

/-! ### Transactions -/

/-- The tree of the transaction arose by growth, and its cursor is on one of its nodes. -/
structure Transaction.Grounded (t : Transaction) : Prop where
  arises : t.tree.Arises
  contains : t.tree.contains t.cursor = true

namespace Transaction

variable {t t' : Transaction}

/-- On the document root, every transaction on a tree that arose is grounded. -/
theorem grounded_root {base : RevisionStamp} {tree : Tree} (h : tree.Arises) :
    Transaction.Grounded { base, tree } :=
  ⟨h, h.parented.contains_root⟩

/-- A move goes from a node to a node. -/
theorem Grounded.moves (h : t.Grounded) (hm : t.Moves t') : t'.Grounded := by
  cases hm with
  | moveTo hkey => exact ⟨h.arises, hkey⟩
  | ascend hnode hparent => exact ⟨h.arises, (h.arises.parented.contains_parent hnode hparent).1⟩
  | insert happend =>
    refine ⟨h.arises.append happend, ?_⟩
    obtain ⟨rfl, hsize⟩ := Tree.size_of_append happend
    rw [Tree.contains_iff, hsize]
    exact Nat.lt_succ_self _

end Transaction

namespace Resource

/-! ### Resources -/

/-- The trees of all sealed revisions arose by growth, and every write transaction is grounded. -/
structure Planted (r : Resource) : Prop where
  sealed : ∀ {n : RevisionNumber} {s : RevisionStamp} {tree : Tree},
    r.history.revision? n = some (s, tree) → tree.Arises
  working : ∀ {handle : Nat} {t : Transaction}, r.writer? handle = some t → t.Grounded

variable {r r' : Resource} {handle : Nat} {t t' : Transaction} {l : Lease}

theorem planted_create (name : String) (lookup : LookupPolicy) (now : Instant) :
    (create name lookup now).Planted where
  sealed {n s tree} h := by
    obtain ⟨-, htree⟩ := History.revision?_eq_some_iff.mp h
    have hmem : tree ∈ #[Tree.new] := Array.mem_of_getElem? htree
    obtain rfl := Array.mem_singleton.mp hmem
    exact .new
  working h := by simp [create, writer?] at h

/-- A change of one write transaction keeps a resource planted if that transaction is grounded behind it, and
the trees of all sealed revisions arose. -/
theorem Planted.change (hp : r.Planted) (live : r.liveWriter handle = .ok t)
    (sealed : ∀ {n s tree}, r'.history.revision? n = some (s, tree) → tree.Arises)
    (hw : r'.writers = r.writers.setIfInBounds handle t') (ht' : t'.Grounded) : r'.Planted := by
  refine ⟨sealed, fun hu => ?_⟩
  rw [writer?_set hw (liveWriter_eq_ok_iff.mp live).1] at hu
  split at hu
  · obtain rfl := Option.some.inj hu
    exact ht'
  · exact hp.working hu

/-- Whatever is done to a resource, it remains planted. -/
theorem Planted.step (hr : r.Sound) (hp : r.Planted) (h : r.Step r') : r'.Planted := by
  cases h with
  | stay => exact hp
  | countOpen | countClose => exact ⟨hp.sealed, hp.working⟩
  | opened idle hs =>
    refine ⟨hp.sealed, fun hu => ?_⟩
    rw [writer?_opened] at hu
    split at hu
    · obtain rfl := Option.some.inj hu
      exact Transaction.grounded_root (hp.sealed hs)
    · exact hp.working hu
  | ended =>
    refine ⟨hp.sealed, fun hu => ?_⟩
    rw [writer?_ended] at hu
    split at hu
    · obtain ⟨v, hv, rfl⟩ := Option.map_eq_some_iff.mp hu
      have hgrounded := hp.working hv
      exact ⟨hgrounded.arises, hgrounded.contains⟩
    · exact hp.working hu
  | moved live h =>
    have ht := hp.working (liveWriter_eq_ok_iff.mp live).1
    exact hp.change live hp.sealed rfl (ht.moves h)
  | @committed handle t live now =>
    have ht := hp.working (liveWriter_eq_ok_iff.mp live).1
    refine hp.change live (fun {n s tree} hs => ?_) rfl ⟨ht.arises, ht.contains⟩
    rcases hr.history.revision?_append_cases hs with hnew | hold
    · obtain ⟨-, rfl⟩ := Prod.mk.inj hnew
      exact ht.arises
    · exact hp.sealed hold
  | rewound live _ hs =>
    -- The earlier tree may be smaller, but the cursor goes to its root.
    exact hp.change live hp.sealed rfl ⟨hp.sealed hs, (hp.sealed hs).parented.contains_root⟩

/-- Whatever happened to a new resource, it is planted. -/
theorem planted_run (name : String) (lookup : LookupPolicy) (created : Instant)
    (events : List ResourceEvent) : ((create name lookup created).run events).Planted :=
  (sound_create name lookup created).keeps_run Planted.step (planted_create name lookup created) events

/-! ### Leases -/

/-- The lease is a transaction of the resource: a read transaction on a sealed revision, with its cursor on
one of the nodes, or a write transaction that was opened at some time. -/
inductive Backs (r : Resource) : Lease → Prop
  | reader {n : RevisionNumber} {t : Transaction} (h : r.history.revision? n = some (t.base, t.tree))
      (hcursor : t.tree.contains t.cursor = true) : Backs r (.reader t)
  | writer {handle : Nat} {t : Transaction} (h : r.writer? handle = some t) : Backs r (.writer handle)

/-- No sealed revision is lost. -/
theorem Step.revision?_eq (hr : r.Sound) (h : r.Step r') {n : RevisionNumber} {found : RevisionStamp × Tree}
    (hs : r.history.revision? n = some found) : r'.history.revision? n = some found := by
  cases h with
  | stay | countOpen | countClose | opened | ended | moved | rewound => exact hs
  | @committed handle t live now => exact hr.history.revision?_append_of_eq_some t.tree now hs

/-- No write transaction is forgotten. -/
theorem Step.exists_writer? (h : r.Step r') (ht : r.writer? handle = some t) :
    ∃ t', r'.writer? handle = some t' := by
  have hlt := (Array.getElem?_eq_some_iff.mp ht).1
  suffices hsize : r.writers.size ≤ r'.writers.size by
    exact ⟨_, Array.getElem?_eq_getElem (Nat.lt_of_lt_of_le hlt hsize)⟩
  cases h with
  | stay | countOpen | countClose => exact Nat.le_refl _
  | opened => simp [Resource.opened]
  | ended => simp [Resource.ended]
  | moved => simp [setWriter]
  | committed => simp [Resource.committed]
  | rewound => simp [Resource.rewound]

/-- Whatever is done to a resource, it backs the leases that it backed. -/
theorem Backs.step (hr : r.Sound) (hl : r.Backs l) (h : r.Step r') : r'.Backs l := by
  cases hl with
  | reader hs hcursor => exact .reader (h.revision?_eq hr hs) hcursor
  | writer ht =>
    obtain ⟨t', ht'⟩ := h.exists_writer? ht
    exact .writer ht'

/-- The resource is sound and planted, and backs the leases. -/
structure BacksAll (ls : List Lease) (r : Resource) : Prop where
  sound : r.Sound
  planted : r.Planted
  backs : ∀ l ∈ ls, r.Backs l

theorem BacksAll.step {ls : List Lease} (hr : r.BacksAll ls) (h : r.Step r') : r'.BacksAll ls :=
  ⟨hr.sound.step h, hr.planted.step hr.sound h, fun l hl => (hr.backs l hl).step hr.sound h⟩

/-- One more lease. -/
theorem BacksAll.cons {ls : List Lease} (hr : r.BacksAll ls) (h : r.Backs l) : r.BacksAll (l :: ls) :=
  ⟨hr.sound, hr.planted, List.forall_mem_cons.mpr ⟨h, hr.backs⟩⟩

/-- Whatever is given out is backed, and remains so: read transactions start on the document root, and go to
nodes of their tree only. -/
theorem account_backs : Account fun ls r => r.BacksAll ls where
  create name lookup now := ⟨sound_create name lookup now, planted_create name lookup now, nofun⟩
  perm hp hr := ⟨hr.sound, hr.planted, fun l hl => hr.backs l (hp.mem_iff.mpr hl)⟩
  step hr h _ := hr.step h
  opened hr hs :=
    (hr.step .countOpen).cons (.reader hs (hr.planted.sealed hs).parented.contains_root)
  shared hr hrun := by
    obtain ⟨t, ht, -⟩ := hr.sound.running hrun
    exact hr.cons (.writer ht)
  visited hr hkey := by
    obtain ⟨hfirst, hrest⟩ := List.forall_mem_cons.mp hr.backs
    cases hfirst with
    | reader hs => exact BacksAll.cons ⟨hr.sound, hr.planted, hrest⟩ (.reader hs hkey)
  closed _ hr := by
    obtain ⟨hfirst, hrest⟩ := List.forall_mem_cons.mp hr.backs
    have hcounted := BacksAll.step ⟨hr.sound, hr.planted, hrest⟩ .countClose
    cases hfirst with
    | reader hs hcursor => exact hcounted.cons (.reader hs hcursor)
  struck _ hr := ⟨hr.sound, hr.planted, (List.forall_mem_cons.mp hr.backs).2⟩

end Resource

/-! ## Keys are places

In every tree that a resource has or had, the node with a key carries that key. Trees arise by growth
only, and a node that is appended gets its place as its key. -/

namespace Resource

/-- The trees of all sealed revisions and of all write transactions are keyed. -/
structure Keyed (r : Resource) : Prop where
  sealed : ∀ {n : RevisionNumber} {s : RevisionStamp} {tree : Tree},
    r.history.revision? n = some (s, tree) → tree.Keyed
  working : ∀ {handle : Nat} {t : Transaction}, r.writer? handle = some t → t.tree.Keyed

/-- The open transactions that a resource hands out, the cursor of a read transaction wherever it is:
write transactions that are not closed, and read transactions on sealed revisions. -/
inductive HandsOut (r : Resource) : Transaction → Prop
  | writer {handle : Nat} {t : Transaction} (live : r.liveWriter handle = .ok t) : HandsOut r t
  | reader {n : RevisionNumber} {s : RevisionStamp} {tree : Tree}
      (h : r.history.revision? n = some (s, tree)) (cursor : Nat) :
      HandsOut r { base := s, tree, cursor }

variable {r : Resource} {t : Transaction}

theorem Planted.keyed (hr : r.Planted) : r.Keyed where
  sealed hs := (hr.sealed hs).keyed
  working ht := (hr.working ht).arises.keyed

/-- Whatever happened to a new resource, its trees are keyed. -/
theorem keyed_run (name : String) (lookup : LookupPolicy) (created : Instant)
    (events : List ResourceEvent) : ((create name lookup created).run events).Keyed :=
  (planted_run name lookup created events).keyed

theorem Keyed.of_handsOut (hk : r.Keyed) (h : r.HandsOut t) : t.tree.Keyed := by
  cases h with
  | writer live => exact hk.working (liveWriter_eq_ok_iff.mp live).1
  | reader hs => exact hk.sealed hs

theorem HandsOut.closed_eq (h : r.HandsOut t) : t.closed = false := by
  cases h with
  | writer live => exact (liveWriter_eq_ok_iff.mp live).2
  | reader => rfl

end Resource

end AsOf
