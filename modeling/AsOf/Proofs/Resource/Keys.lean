import AsOf.Proofs.Resource.Lineage

/-!
# What keys denote

A new node gets the least key that the working tree does not use. Other revisions may use it: a
transaction that went back has forgotten the nodes behind the revision it went back to, and gives
their keys again. So a key denotes one node along a line of descent, and in all revisions as long as
no transaction ever went back.

## Main definitions

* `History.AgreeOn`: two revisions do not have different nodes under a key
* `Resource.Unbranched`: every revision grew from all revisions before it

## Main results

* `Resource.Unbranched.step`: a resource stays unbranched unless a transaction goes back
* `Resource.key_of_insert`: the key that a new node gets
* `key_denotes_one_node`: which revisions agree about a key, and when a key is given again
-/

namespace AsOf

/-- If both revisions have a node under a key, it is the same node. -/
def History.AgreeOn (h : History) (m n : RevisionNumber) (key : Nat) : Prop :=
  ∀ s u tree tree' a b, h.revision? m = some (s, tree) → h.revision? n = some (u, tree') →
    tree.get? key = some a → tree'.get? key = some b → a.SameAs b

namespace Resource

variable {r r' : Resource} {handle : Nat} {t : Transaction}

/-! ## Resources without branches -/

/-- The write transaction is based on the most recent revision, and every revision grew from all
revisions before it. -/
structure Unbranched (r : Resource) : Prop where
  base : ∀ {handle : Nat} {t : Transaction}, r.liveWriter handle = .ok t → t.base = r.history.latest
  growsTo : ∀ {m n : RevisionNumber} {s u : RevisionStamp} {tree tree' : Tree}, m ≤ n →
    r.history.revision? m = some (s, tree) → r.history.revision? n = some (u, tree') →
    tree.GrowsTo tree'

theorem unbranched_create (name : String) (lookup : LookupPolicy) (now : Instant) :
    (create name lookup now).Unbranched where
  base live := by simp [liveWriter, writer?, create] at live
  growsTo {m n s u tree tree'} _ hs hu := by
    rw [History.revision?_eq_entries] at hs hu
    have hm := List.mem_of_getElem? hs
    have hn := List.mem_of_getElem? hu
    rw [show (create name lookup now).history = .start now from rfl, History.entries_start,
      List.mem_singleton] at hm hn
    obtain ⟨-, rfl⟩ := Prod.mk.inj hm
    obtain ⟨-, rfl⟩ := Prod.mk.inj hn
    exact .refl _

/-- A resource without branches gets a revision that grew from all before. -/
theorem Unbranched.committed (hr : r.Sound) (hg : r.Grown) (hu : r.Unbranched)
    (live : r.liveWriter handle = .ok t) (now : Instant) :
    (r.committed handle t now).Unbranched := by
  have happend := hr.history.revision?_append t.tree now
  obtain ⟨ht, hopen⟩ := liveWriter_eq_ok_iff.mp live
  refine ⟨fun {k v} hv => ?_, fun {m n s u tree tree'} hmn hs hu' => ?_⟩
  · obtain ⟨hv, hvo⟩ := liveWriter_eq_ok_iff.mp hv
    rw [writer?_set rfl ht] at hv
    split at hv
    · obtain rfl := Option.some.inj hv
      rfl
    · next hk =>
      exact absurd (Option.some.inj ((hr.running_eq hv hvo).symm.trans (hr.running_eq ht hopen))) hk
  · have hs := (happend m).symm.trans hs
    have hu' := (happend n).symm.trans hu'
    split at hu'
    · obtain ⟨-, rfl⟩ := Prod.mk.inj (Option.some.inj hu')
      split at hs
      · obtain ⟨-, rfl⟩ := Prod.mk.inj (Option.some.inj hs)
        exact .refl _
      · obtain ⟨base, hbase, hgrew⟩ := hg.base ht
        rw [hu.base live] at hbase
        have hle := hr.history.exists_revision?_iff.mp ⟨s, tree, hs⟩
        exact (hu.growsTo hle hs hbase).trans hgrew
    · have hle := hr.history.exists_revision?_iff.mp ⟨u, tree', hu'⟩
      have hne : m ≠ r.history.latest.number.next := by
        rintro rfl
        rw [RevisionNumber.le_def, RevisionNumber.val_next] at hmn
        rw [RevisionNumber.le_def] at hle
        omega
      rw [if_neg hne] at hs
      exact hu.growsTo hmn hs hu'

/-- A resource stays without branches, whatever is done to it, unless a transaction goes back. -/
theorem Unbranched.step (hr : r.Sound) (hg : r.Grown) (hu : r.tally.reverts = 0 → r.Unbranched)
    (h : r.Step r') (hzero : r'.tally.reverts = 0) : r'.Unbranched := by
  cases h with
  | stay => exact hu hzero
  | countOpen | countClose => exact ⟨(hu hzero).base, (hu hzero).growsTo⟩
  | opened =>
    refine ⟨fun {k v} live => ?_, (hu hzero).growsTo⟩
    obtain ⟨hv, hvo⟩ := liveWriter_eq_ok_iff.mp live
    rw [writer?_opened] at hv
    split at hv
    · obtain rfl := Option.some.inj hv
      rfl
    · exact (hu hzero).base (liveWriter_eq_ok_iff.mpr ⟨hv, hvo⟩)
  | ended =>
    refine ⟨fun {k v} live => ?_, (hu hzero).growsTo⟩
    obtain ⟨hv, hvo⟩ := liveWriter_eq_ok_iff.mp live
    rw [writer?_ended] at hv
    split at hv
    · obtain ⟨w, -, rfl⟩ := Option.map_eq_some_iff.mp hv
      cases hvo
    · exact (hu hzero).base (liveWriter_eq_ok_iff.mpr ⟨hv, hvo⟩)
  | @moved k t t' live h =>
    refine ⟨fun {k' v} live' => ?_, (hu hzero).growsTo⟩
    obtain ⟨hv, hvo⟩ := liveWriter_eq_ok_iff.mp live'
    rw [writer?_set rfl (liveWriter_eq_ok_iff.mp live).1] at hv
    split at hv
    · obtain rfl := Option.some.inj hv
      exact h.base_eq.trans ((hu hzero).base live)
    · exact (hu hzero).base (liveWriter_eq_ok_iff.mpr ⟨hv, hvo⟩)
  | committed live now => exact (hu hzero).committed hr hg live now
  | rewound => cases hzero

theorem unbranched_run (name : String) (lookup : LookupPolicy) (created : Instant)
    (events : List ResourceEvent)
    (hzero : ((create name lookup created).run events).tally.reverts = 0) :
    ((create name lookup created).run events).Unbranched := by
  have hrun := (sound_create name lookup created).keeps_run
    (Q := fun r => r.Grown ∧ (r.tally.reverts = 0 → r.Unbranched))
    (fun hr h hs => ⟨h.1.step hr hs, Unbranched.step hr h.1 h.2 hs⟩)
    ⟨grown_create .., fun _ => unbranched_create ..⟩ events
  exact hrun.2 hzero

/-! ## Keys of new nodes -/

/-- A new node gets the least key that the working tree does not use. -/
theorem key_of_insert {now : Instant} {kind : NodeKind} {key : Nat}
    (live : r.liveWriter handle = .ok t)
    (h : r.edit handle now (.insert kind) = .ok (.key key, r')) : key = t.tree.size := by
  obtain ⟨t', live', h⟩ := except_bind_eq_ok_iff.mp h
  obtain rfl := Except.ok.inj (live.symm.trans live')
  obtain ⟨⟨k, u⟩, hinsert, h⟩ := except_bind_eq_ok_iff.mp h
  cases h
  obtain ⟨-, tree, happend, -⟩ := Transaction.insert_eq_ok_iff.mp hinsert
  exact (Tree.size_of_append happend).1

/-- The revisions that descend from a revision agree about its nodes. -/
theorem agreeOn_of_descends (hr : r.Sound) (hg : r.Grown) {events : List ResourceEvent}
    {ancestor m n : RevisionNumber} {s : RevisionStamp} {tree : Tree} {key : Nat}
    (hm : Descends (r.sealings events) ancestor m) (hn : Descends (r.sealings events) ancestor n)
    (hs : (r.run events).history.revision? ancestor = some (s, tree))
    (hkey : tree.contains key = true) : (r.run events).history.AgreeOn m n key := by
  intro v w left right a b hv hw ha hb
  exact (growsTo_of_descends hr hg hm hs hv).sameAs (growsTo_of_descends hr hg hn hs hw) hkey ha hb

/-- Revisions of a resource without branches agree about all keys. -/
theorem Unbranched.agreeOn (hu : r.Unbranched) (m n : RevisionNumber) (key : Nat) :
    r.history.AgreeOn m n key := by
  intro s u tree tree' a b hs hu' ha hb
  rcases Nat.le_total m.val n.val with hle | hle
  · exact (Tree.GrowsTo.refl tree).sameAs (hu.growsTo hle hs hu')
      (Tree.contains_of_get? ha) ha hb
  · exact (hu.growsTo hle hu' hs).sameAs (.refl tree') (Tree.contains_of_get? hb) ha hb

end Resource

/-- **A key denotes one node along a line of descent.** Whatever happened to a resource, two of its
revisions agree about the keys of every revision that both descend from; and if no transaction ever
went back, all its revisions agree about all keys. A new node gets a key that some revision uses
already exactly if there is a revision with more nodes than the working tree. -/
theorem key_denotes_one_node (name : String) (lookup : LookupPolicy) (created : Instant)
    (events : List ResourceEvent) :
    let new := Resource.create name lookup created
    let r := new.run events
    (∀ ancestor m n s tree key, Descends (new.sealings events) ancestor m →
      Descends (new.sealings events) ancestor n → r.history.revision? ancestor = some (s, tree) →
      tree.contains key = true → r.history.AgreeOn m n key) ∧
    (r.tally.reverts = 0 → ∀ m n key, r.history.AgreeOn m n key) ∧
    (∀ handle t now kind key r', r.liveWriter handle = .ok t →
      r.edit handle now (.insert kind) = .ok (.key key, r') →
      ((∃ n s tree, r.history.revision? n = some (s, tree) ∧ tree.contains key = true) ↔
        ∃ n s tree, r.history.revision? n = some (s, tree) ∧ t.tree.size < tree.size)) := by
  intro new r
  refine ⟨?_, ?_, ?_⟩
  · intro ancestor m n s tree key hm hn hs hkey
    exact Resource.agreeOn_of_descends (Resource.sound_create ..) (Resource.grown_create ..) hm hn hs
      hkey
  · intro hzero m n key
    exact (Resource.unbranched_run name lookup created events hzero).agreeOn m n key
  · intro handle t now kind key r' live h
    rw [Resource.key_of_insert live h]
    simp only [Tree.contains_iff]

/-- Behind a revert the key of an element is given again, to a text. -/
theorem key_denotes_two_nodes :
    let r := (Resource.create "log" .floor (.second 10)).run
      [.startWriter, .edit 0 (.second 10) (.insert (.element "a")), .edit 0 (.second 10) .commit,
        .edit 0 (.second 10) (.revert .first), .edit 0 (.second 10) (.insert (.text "b")),
        .edit 0 (.second 10) .commit]
    ¬r.history.AgreeOn ⟨2, by decide⟩ ⟨3, by decide⟩ 1 := by
  intro r hagree
  let revision (n : RevisionNumber) := (r.history.revision? n).getD default
  have helement : r.history.revision? ⟨2, by decide⟩ = some (revision ⟨2, by decide⟩) ∧
      (revision ⟨2, by decide⟩).2.get? 1 = some ⟨1, some rootKey, .element "a", []⟩ := by
    decide +kernel
  have htext : r.history.revision? ⟨3, by decide⟩ = some (revision ⟨3, by decide⟩) ∧
      (revision ⟨3, by decide⟩).2.get? 1 = some ⟨1, some rootKey, .text "b", []⟩ := by
    decide +kernel
  have hsame := hagree _ _ _ _ _ _ helement.1 htext.1 helement.2 htext.2
  exact absurd hsame.kind_eq (by decide)

end AsOf
