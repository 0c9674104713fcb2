import AsOf.HistoryFile.Replay
import AsOf.Proofs.Session.Footing
import AsOf.Proofs.Store.Account
import AsOf.Proofs.Tree.Walk

/-!
# Trees everywhere

Whatever holds of all trees that arise by appends holds of every tree in the store of a history file and in a
session.

## Main definitions

* `Resource.HasTrees`: all trees of a resource arose by appends, and are trees

## Main results

* `HistoryFile.accounts_replay`: all accounts hold in the store that a replay leaves
* `Resource.Planted.hasTrees`: where all trees arose, they are trees
* `node_trees_are_trees`: every node tree is a tree
-/

namespace AsOf

/-! ## Accounts of a replay

A replay creates resources, opens a write transaction on each, runs a script for every revision and closes the
transaction. So every account of resources holds of what it leaves, and nobody holds a lease. -/

namespace HistoryFile

variable {R : List Lease → Resource → Prop} (hR : Resource.Account R) {s s' : Store} {hs : List Hold}
  {lookup : LookupPolicy}

include hR

/-- The write transaction of a resource is closed. -/
theorem accounts_endWriter (ha : s.Accounts R hs) (place : Nat) : (s.endWriter place).Accounts R hs := by
  refine ⟨fun {k r'} hr' => ?_, fun {x} hx => ?_⟩
  · rw [Store.resource?, Store.endWriter, Array.getElem?_modify] at hr'
    split at hr'
    · obtain ⟨r, hr, rfl⟩ := Option.map_eq_some_iff.mp hr'
      exact hR.step (ha.resource hr) (Resource.step_endWriter r) (Resource.readsAs_endWriter r)
    · exact ha.resource hr'
  · obtain ⟨r, hr⟩ := ha.placed hx
    rw [Store.resource?, Store.endWriter, Array.getElem?_modify]
    split
    · exact ⟨r.endWriter.2, Option.map_eq_some_iff.mpr ⟨r, hr, rfl⟩⟩
    · exact ⟨r, hr⟩

/-- Scripts are run, up to the first revision that goes back in time. -/
theorem accounts_sealListed {name : String} {w : WriterRef} {previous : Instant}
    {revisions : List ListedRevision} (ha : s.Accounts R hs)
    (h : sealListed name w s previous revisions = .ok s') : s'.Accounts R hs := by
  induction revisions generalizing s previous with
  | nil =>
    obtain rfl := Except.ok.inj h
    exact ha
  | cons r rest ih =>
    unfold sealListed at h
    split at h
    · cases h
    · have hscript : (s.runScript w r.script).2.Accounts R hs := ha.runScript hR
      split at h
      · next u hrun =>
        rw [hrun] at hscript
        exact ih hscript h
      · cases h

/-- A resource is created at a time, gets a write transaction, and loses it behind the last revision. -/
theorem accounts_addListed {l : ListedResource} (ha : s.Accounts R hs) (h : addListed s l = .ok s') :
    s'.Accounts R hs := by
  have hclock : ({ s with clock := l.created } : Store).Accounts R hs :=
    ha.global hR (e := .setClock l.created) trivial
  unfold addListed at h
  obtain ⟨u, hcreate, h⟩ := except_bind_eq_ok_iff.mp h
  have hcreated : u.Accounts R hs := by
    have hafter := hclock.global hR (e := .create database l.name {}) trivial
    simpa only [Store.after, except_mapError_eq_ok_iff.mp hcreate] using hafter
  obtain ⟨place, -, h⟩ := except_bind_eq_ok_iff.mp h
  obtain ⟨r, hplace, h⟩ := except_bind_eq_ok_iff.mp h
  have hr : u.resource? place = some r := by
    rw [orRefused, except_mapError_eq_ok_iff] at hplace
    cases hfound : u.resource? place with
    | none =>
      rw [hfound] at hplace
      cases hplace
    | some found =>
      rw [hfound] at hplace
      exact congrArg some (Except.ok.inj hplace)
  obtain ⟨⟨handle, r'⟩, hstart, h⟩ := except_bind_eq_ok_iff.mp h
  have hstep := Resource.writerStep_of_startWriter (except_mapError_eq_ok_iff.mp hstart)
  have hopened := hcreated.step hR hr hstep.step hstep.readsAs
  obtain ⟨v, hseal, h⟩ := except_bind_eq_ok_iff.mp h
  obtain rfl := Except.ok.inj h
  exact accounts_endWriter hR (accounts_sealListed hR hopened hseal) place

/-- All accounts hold in the store that a replay leaves, and nobody holds a lease there. -/
theorem accounts_replay {f : HistoryFile} (h : f.replay lookup = .ok s) : s.Accounts R [] := by
  have hempty : (emptyStore lookup).Accounts R [] :=
    (Store.accounts_empty .epoch).global hR (e := .addDatabase "history" lookup) trivial
  suffices hfold : ∀ {listed : List ListedResource} {u : Store}, u.Accounts R [] →
      listed.foldlM addListed u = .ok s → s.Accounts R [] from hfold hempty h
  intro listed
  induction listed with
  | nil =>
    intro u hu h
    obtain rfl := Except.ok.inj h
    exact hu
  | cons l rest ih =>
    intro u hu h
    rw [List.foldlM_cons] at h
    obtain ⟨v, hadd, h⟩ := except_bind_eq_ok_iff.mp h
    exact ih (accounts_addListed hR hu hadd) h

end HistoryFile

/-! ## Every node tree

Resources never make up a tree: they start with the document root, append to the trees that they have, and
keep or fetch back what they had before. So whatever holds of all trees that arise by appends holds of every
sealed and of every working tree, in a session, in the store of a history file, and wherever else resources
are used. -/

namespace Resource

/-- The trees of all sealed revisions and of all write transactions arose by appends, and are trees. -/
structure HasTrees (r : Resource) : Prop where
  sealed : ∀ {n : RevisionNumber} {s : RevisionStamp} {tree : Tree},
    r.history.revision? n = some (s, tree) → (∃ below, tree = .ofAppends below) ∧ tree.IsTree
  working : ∀ {handle : Nat} {t : Transaction}, r.writer? handle = some t →
    (∃ below, t.tree = .ofAppends below) ∧ t.tree.IsTree

/-- Where all trees arose, they are trees. -/
theorem Planted.hasTrees {r : Resource} (hr : r.Planted) : r.HasTrees where
  sealed hs := ⟨Tree.arises_iff.mp (hr.sealed hs), (hr.sealed hs).isTree⟩
  working ht := ⟨Tree.arises_iff.mp (hr.working ht).arises, (hr.working ht).arises.isTree⟩

end Resource

/-- **Every node tree is a tree.** Whatever is appended below whatever nodes, there or not: what arises is the
table of nodes under keys that the same appends make, entry by entry. The nodes carry the keys from zero on, the
document root is the only one without a parent, every other node has a parent with a smaller key and is listed
there and nowhere else, children are listed in ascending order, and a walk from the document root visits every
node once. Below a node that is not there nothing can be appended, and the tree stays as it is. All sealed and
all working trees are such trees: those of resources that are used directly, those of a session, and those of
the store that a history file is replayed into. -/
theorem node_trees_are_trees :
    (∀ below, (Tree.ofAppends below).IsTree ∧ (Tree.ofAppends below).table = .ofAppends below) ∧
    (∀ before parent kind,
      ((Tree.ofAppends before).append parent kind = none ↔
        (Tree.ofAppends before).contains parent = false) ∧
      ((Tree.ofAppends before).contains parent = false →
        Tree.ofAppends (before ++ [(parent, kind)]) = Tree.ofAppends before)) ∧
    (∀ name lookup created events, ((Resource.create name lookup created).run events).HasTrees) ∧
    (∀ clock lastId threshold commands place r,
      ((Session.begin clock lastId threshold).play commands).2.store.resource? place = some r →
        r.HasTrees) ∧
    ∀ (f : HistoryFile) lookup s place r, f.replay lookup = .ok s → s.resource? place = some r →
      r.HasTrees := by
  refine ⟨fun below => ?_, fun before parent kind => ⟨Tree.append_eq_none_iff, fun hmissing => ?_⟩,
    fun name lookup created events => ?_, fun clock lastId threshold commands place r hr => ?_,
    fun f lookup s place r hreplay hr => ?_⟩
  · exact ⟨(Tree.arises_iff.mpr ⟨below, rfl⟩).isTree, Tree.table_ofAppends below⟩
  · rw [Tree.ofAppends_append_singleton, Tree.appended_of_not_contains hmissing]
  · exact (Resource.planted_run name lookup created events).hasTrees
  · exact ((Session.backed_play clock lastId threshold commands).1 hr).hasTrees
  · have haccounts := HistoryFile.accounts_replay Resource.account_backs hreplay
    exact (haccounts.resource hr).planted.hasTrees

end AsOf
