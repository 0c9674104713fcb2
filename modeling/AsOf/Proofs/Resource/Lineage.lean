import AsOf.Proofs.History.Floor
import AsOf.Proofs.Resource.Run
import AsOf.Proofs.Tree.Arising

/-!
# Lineage

A write transaction starts with the tree of the revision it is based on and only adds nodes to it.
When it is sealed, its tree is that of the new revision, and it is based on this one from then on. So
every revision but the first descends from the one its transaction was based on, and its tree grew
from that of every revision it descends from. This need not be the revision before: a transaction may
have gone back in between.

## Main definitions

* `ResourceEvent.IsCommit`: the event is to seal a revision
* `Sealing`, `Resource.sealing?`, `Resource.sealings`: what an event seals, and what a run seals
* `Resource.Grown`: every write transaction grew from the revision it is based on
* `Descends`: a revision descends from another one

## Main results

* `Resource.Sound.entries_after`, `Resource.Sound.entries_run`: a history grows by what is sealed, and
  at its end only
* `Resource.Grown.step`: what is done to a resource keeps its write transactions grown
* `Resource.growsTo_of_sealing`: what is sealed grew from what it was based on
* `Resource.growsTo_of_descends`: trees grow along a line of descent
-/

namespace AsOf

/-- The event is a commit, whether it is refused or not. -/
def ResourceEvent.IsCommit : ResourceEvent → Prop
  | .edit _ _ .commit => True
  | _ => False

/-- What sealing a write transaction yields: the revision that the transaction was based on, the new
revision, and its tree. -/
structure Sealing where
  base : RevisionStamp
  stamp : RevisionStamp
  tree : Tree

/-- The new revision with its tree. -/
def Sealing.entry (s : Sealing) : RevisionStamp × Tree := (s.stamp, s.tree)

/-- A revision is another one, or was sealed from a revision that descends from it. -/
inductive Descends (sealings : List Sealing) (ancestor : RevisionNumber) : RevisionNumber → Prop
  | refl : Descends sealings ancestor ancestor
  | sealed {s : Sealing} (hs : s ∈ sealings) (h : Descends sealings ancestor s.base.number) :
      Descends sealings ancestor s.stamp.number

namespace Resource

variable {r r' : Resource} {handle : Nat} {t t' : Transaction}

/-! ## What is sealed -/

/-- What an event seals. -/
def sealing? (r : Resource) : ResourceEvent → Option Sealing
  | .edit handle now .commit =>
    match r.liveWriter handle with
    | .ok t => some ⟨t.base, r.history.nextStamp now, t.tree⟩
    | .error _ => none
  | _ => none

/-- What a run of events seals, in order. -/
def sealings (r : Resource) : List ResourceEvent → List Sealing
  | [] => []
  | event :: events => (r.sealing? event).toList ++ (r.after event).sealings events

theorem sealing?_eq_some_iff {event : ResourceEvent} {s : Sealing} :
    r.sealing? event = some s ↔ ∃ handle now t, event = .edit handle now .commit ∧
      r.liveWriter handle = .ok t ∧ s = ⟨t.base, r.history.nextStamp now, t.tree⟩ := by
  constructor
  · intro h
    unfold sealing? at h
    split at h
    · next handle now =>
      split at h
      · next t live => exact ⟨handle, now, t, rfl, live, (Option.some.inj h).symm⟩
      · cases h
    · cases h
  · rintro ⟨handle, now, t, rfl, live, rfl⟩
    simp only [sealing?, live]

/-- An event that is no commit leaves the history as it is. -/
theorem history_after {event : ResourceEvent} (h : ¬event.IsCommit) :
    (r.after event).history = r.history := by
  cases event with
  | startWriter => exact orKeep_of_step (Q := fun u => u.history = r.history) rfl history_of_startWriter
  | endWriter =>
    simp only [after, endWriter]
    split <;> rfl
  | startReader number =>
    refine orKeep_of_step (Q := fun u => u.history = r.history) rfl fun h => ?_
    obtain ⟨-, -, -, -, rfl⟩ := startReader_eq_ok_iff.mp h
    rfl
  | endReader trx =>
    simp only [after, endReader]
    split <;> rfl
  | edit handle now e =>
    refine orKeep_of_step (Q := fun u => u.history = r.history) rfl fun hedit => ?_
    by_cases he : e.IsLocal
    · rcases moved_of_edit he hedit with rfl | ⟨t, t', -, -, rfl⟩ <;> rfl
    · cases e with
      | commit => exact absurd trivial h
      | revert target =>
        obtain ⟨u, hu, hedit⟩ := except_bind_eq_ok_iff.mp hedit
        cases hedit
        exact history_of_revert hu
      | _ => exact absurd trivial he
  | lookUp q access =>
    exact keeps_resolve (Q := fun u => u.history = r.history) (fun hu h => h.history_eq.trans hu) q
      ⟨r, {}, {}⟩ rfl

/-- A run without commits leaves the history as it is. -/
theorem history_run {events : List ResourceEvent} (h : ∀ event ∈ events, ¬event.IsCommit) :
    (r.run events).history = r.history := by
  induction events generalizing r with
  | nil => rfl
  | cons event events ih =>
    refine (ih fun e he => h e (List.mem_cons_of_mem event he)).trans ?_
    exact history_after (h event List.mem_cons_self)

theorem after_commit (live : r.liveWriter handle = .ok t) (now : Instant) :
    r.after (.edit handle now .commit) = r.committed handle t now := by
  have hcommit : r.commit handle now = .ok ((r.history.nextStamp now).number, _) :=
    commit_eq_ok_iff.mpr ⟨t, live, rfl, rfl⟩
  simp only [after, edit, hcommit]
  rfl

/-- An event adds to the history what it seals, and nothing else. -/
theorem Sound.entries_after (hr : r.Sound) (event : ResourceEvent) :
    (r.after event).history.entries =
      r.history.entries ++ ((r.sealing? event).map Sealing.entry).toList := by
  cases hs : r.sealing? event with
  | some s =>
    obtain ⟨handle, now, t, rfl, live, rfl⟩ := sealing?_eq_some_iff.mp hs
    rw [after_commit live]
    exact hr.history.entries_append t.tree now
  | none =>
    rw [Option.map_none, Option.toList_none, List.append_nil]
    by_cases h : event.IsCommit
    · unfold ResourceEvent.IsCommit at h
      split at h
      · next handle now =>
        cases live : r.liveWriter handle with
        | ok t => simp only [sealing?, live] at hs; cases hs
        | error e =>
          simp only [after, edit, commit, live]
          rfl
      · cases h
    · rw [history_after h]

/-- A run adds to the history what it seals, in order. -/
theorem Sound.entries_run (hr : r.Sound) (events : List ResourceEvent) :
    (r.run events).history.entries =
      r.history.entries ++ (r.sealings events).map Sealing.entry := by
  induction events generalizing r with
  | nil => exact (List.append_nil _).symm
  | cons event events ih =>
    have hafter : (r.after event).Sound := hr.after_event event
    show ((r.after event).run events).history.entries = _
    rw [ih hafter, hr.entries_after, sealings, List.map_append, List.append_assoc]
    cases r.sealing? event <;> rfl

theorem Sound.entries_prefix_run (hr : r.Sound) (events : List ResourceEvent) :
    r.history.entries <+: (r.run events).history.entries :=
  ⟨_, (hr.entries_run events).symm⟩

/-! ## Write transactions grow from what they are based on -/

/-- The tree of every write transaction grew from that of the revision it is based on. -/
structure Grown (r : Resource) : Prop where
  base : ∀ {handle : Nat} {t : Transaction}, r.writer? handle = some t →
    ∃ tree, r.history.revision? t.base.number = some (t.base, tree) ∧ tree.GrowsTo t.tree

theorem grown_create (name : String) (lookup : LookupPolicy) (now : Instant) :
    (create name lookup now).Grown where
  base h := by simp [create, writer?] at h

/-- A change of one write transaction keeps a resource grown, if that transaction grew from what it is
based on behind the change, and no sealed revision is lost. -/
theorem Grown.change (hg : r.Grown) (live : r.liveWriter handle = .ok t)
    (kept : ∀ {n s tree}, r.history.revision? n = some (s, tree) →
      r'.history.revision? n = some (s, tree))
    (hw : r'.writers = r.writers.setIfInBounds handle t')
    (grew : ∃ tree, r'.history.revision? t'.base.number = some (t'.base, tree) ∧
      tree.GrowsTo t'.tree) : r'.Grown := by
  refine ⟨fun hu => ?_⟩
  rw [writer?_set hw (liveWriter_eq_ok_iff.mp live).1] at hu
  split at hu
  · obtain rfl := Option.some.inj hu
    exact grew
  · obtain ⟨tree, hs, htree⟩ := hg.base hu
    exact ⟨tree, kept hs, htree⟩

theorem tree_growsTo_of_moves (h : t.Moves t') : t.tree.GrowsTo t'.tree := by
  cases h with
  | moveTo | ascend => exact .refl _
  | insert h => exact Tree.growsTo_of_append h

/-- Whatever is done to a resource, its write transactions remain grown. -/
theorem Grown.step (hr : r.Sound) (hg : r.Grown) (h : r.Step r') : r'.Grown := by
  cases h with
  | stay => exact hg
  | countOpen | countClose => exact ⟨hg.base⟩
  | @opened s tree idle hs =>
    refine ⟨fun hu => ?_⟩
    rw [writer?_opened] at hu
    split at hu
    · obtain rfl := Option.some.inj hu
      obtain ⟨tree', hlatest⟩ := hr.exists_revision?_mostRecent
      obtain ⟨rfl, rfl⟩ := Prod.mk.inj (Option.some.inj (hlatest.symm.trans hs))
      exact ⟨tree', hlatest, .refl tree'⟩
    · exact hg.base hu
  | ended =>
    refine ⟨fun hu => ?_⟩
    rw [writer?_ended] at hu
    split at hu
    · obtain ⟨v, hv, rfl⟩ := Option.map_eq_some_iff.mp hu
      exact hg.base (t := v) hv
    · exact hg.base hu
  | @moved k t t' live h =>
    obtain ⟨tree, hs, htree⟩ := hg.base (liveWriter_eq_ok_iff.mp live).1
    refine hg.change live id rfl ⟨tree, ?_, htree.trans (tree_growsTo_of_moves h)⟩
    exact h.base_eq ▸ hs
  | @committed k t live now =>
    refine hg.change live (fun hs => History.revision?_of_isPrefix ?_ hs) rfl ⟨t.tree, ?_, .refl _⟩
    · exact ⟨_, (hr.history.entries_append t.tree now).symm⟩
    · exact (hr.history.revision?_append t.tree now _).trans (if_pos rfl)
  | @rewound k t target info tree live earlier hs =>
    refine hg.change live id rfl ⟨tree, ?_, .refl tree⟩
    exact (hr.history.number_of_revision? hs).symm ▸ hs

theorem sound_grown_run (name : String) (lookup : LookupPolicy) (created : Instant)
    (events : List ResourceEvent) :
    ((create name lookup created).run events).Sound ∧
      ((create name lookup created).run events).Grown :=
  ⟨sound_run name lookup created events,
    (sound_create name lookup created).keeps_run Grown.step (grown_create name lookup created) events⟩

/-! ## Revisions grow from what they descend from -/

/-- What is sealed along a run is held by its history, and it grew from what it was based on. -/
theorem growsTo_of_sealing (hr : r.Sound) (hg : r.Grown) {events : List ResourceEvent} {s : Sealing}
    (hs : s ∈ r.sealings events) :
    (r.run events).history.revision? s.stamp.number = some (s.stamp, s.tree) ∧
      ∃ tree, (r.run events).history.revision? s.base.number = some (s.base, tree) ∧
        tree.GrowsTo s.tree := by
  induction events generalizing r with
  | nil => cases hs
  | cons event events ih =>
    have hr' : (r.after event).Sound := hr.after_event event
    have hg' : (r.after event).Grown := hr.keeps_after Grown.step hg event
    rcases List.mem_append.mp hs with hs | hs
    · obtain ⟨handle, now, t, rfl, live, rfl⟩ := sealing?_eq_some_iff.mp (Option.mem_toList.mp hs)
      obtain ⟨tree, hbase, htree⟩ := hg.base (liveWriter_eq_ok_iff.mp live).1
      have happend := hr.history.entries_append t.tree now
      have hrun : (r.committed handle t now).history.entries <+:
          (r.run (.edit handle now .commit :: events)).history.entries :=
        after_commit live now ▸ hr'.entries_prefix_run events
      refine ⟨History.revision?_of_isPrefix hrun ?_, tree, History.revision?_of_isPrefix hrun ?_, htree⟩
      · exact (hr.history.revision?_append t.tree now _).trans (if_pos rfl)
      · exact History.revision?_of_isPrefix ⟨_, happend.symm⟩ hbase
    · exact ih hr' hg' hs

/-- Trees grow along a line of descent. -/
theorem growsTo_of_descends (hr : r.Sound) (hg : r.Grown) {events : List ResourceEvent}
    {m n : RevisionNumber} {s u : RevisionStamp} {tree tree' : Tree}
    (h : Descends (r.sealings events) m n)
    (hs : (r.run events).history.revision? m = some (s, tree))
    (hu : (r.run events).history.revision? n = some (u, tree')) : tree.GrowsTo tree' := by
  induction h generalizing u tree' with
  | refl =>
    obtain ⟨rfl, rfl⟩ := Prod.mk.inj (Option.some.inj (hs.symm.trans hu))
    exact .refl tree
  | @sealed x hx _ ih =>
    obtain ⟨hstamp, base, hbase, hgrew⟩ := growsTo_of_sealing hr hg hx
    obtain ⟨rfl, rfl⟩ := Prod.mk.inj (Option.some.inj (hstamp.symm.trans hu))
    exact (ih hbase).trans hgrew

end Resource

end AsOf
