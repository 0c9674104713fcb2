import AsOf.Proofs.History.Floor
import AsOf.Proofs.Resource.Step

/-!
# Sound resources

A resource has one write transaction that is not closed, or none, and knows which; every write
transaction that it ever opened is based on one of its sealed revisions. Whatever is done to a
resource, through whichever handle, this remains.

## Main definitions

* `Resource.Sound`: the history is sound, the running write transaction is the one that is not
  closed, and all write transactions are based on sealed revisions

## Main results

* `Resource.sound_create`, `Resource.Sound.step`: resources are sound, whatever is done to them
* `Resource.Sound.exists_startWriter`: a write transaction can be opened where none is running
* `Resource.Sound.standsFor_candidate`: what the store offers for a time stands for it
-/

namespace AsOf.Resource

/-- The history is sound, the running write transaction is the one that is not closed, and every
write transaction is based on a sealed revision. -/
structure Sound (r : Resource) : Prop where
  history : r.history.Sound
  running : ∀ {handle : Nat}, r.running = some handle →
    ∃ t, r.writer? handle = some t ∧ t.closed = false
  running_eq : ∀ {handle : Nat} {t : Transaction}, r.writer? handle = some t →
    t.closed = false → r.running = some handle
  base : ∀ {handle : Nat} {t : Transaction}, r.writer? handle = some t →
    ∃ tree, r.history.revision? t.base.number = some (t.base, tree)

variable {r r' : Resource} {handle : Nat} {t t' : Transaction}

theorem sound_create (name : String) (lookup : LookupPolicy) (now : Instant) :
    (create name lookup now).Sound where
  history := History.sound_start now
  running h := by cases h
  running_eq h := by simp [create, writer?] at h
  base h := by simp [create, writer?] at h

/-! ## Changes of one write transaction -/

theorem writer?_set (hw : r'.writers = r.writers.setIfInBounds handle t')
    (ht : r.writer? handle = some t) (k : Nat) :
    r'.writer? k = if k = handle then some t' else r.writer? k := by
  have hlt := (Array.getElem?_eq_some_iff.mp ht).1
  rw [writer?, hw, Array.getElem?_setIfInBounds]
  by_cases hk : handle = k
  · simp [hk ▸ hlt, hk]
  · simp [hk, Ne.symm hk, writer?]

theorem setWriter_self (ht : r.writer? handle = some t) : r.setWriter handle t = r := by
  simp only [setWriter, setIfInBounds_self ht]

theorem setWriter_setWriter (r : Resource) (handle : Nat) (t t' : Transaction) :
    (r.setWriter handle t).setWriter handle t' = r.setWriter handle t' := by
  simp only [setWriter, Array.setIfInBounds_setIfInBounds]

theorem writer?_setWriter (ht : r.writer? handle = some t) :
    (r.setWriter handle t').writer? handle = some t' :=
  (writer?_set rfl ht handle).trans (if_pos rfl)

theorem liveWriter_setWriter (live : r.liveWriter handle = .ok t) (hopen : t'.closed = false) :
    (r.setWriter handle t').liveWriter handle = .ok t' :=
  liveWriter_eq_ok_iff.mpr ⟨writer?_setWriter (liveWriter_eq_ok_iff.mp live).1, hopen⟩

/-- A change of one write transaction that is not closed keeps a resource sound, if it is not closed
behind the change either, is based on a sealed revision, and no sealed revision is lost. -/
theorem Sound.change (hr : r.Sound) (live : r.liveWriter handle = .ok t)
    (hh : r'.history.Sound)
    (kept : ∀ {n s tree}, r.history.revision? n = some (s, tree) →
      r'.history.revision? n = some (s, tree))
    (hrun : r'.running = r.running) (hw : r'.writers = r.writers.setIfInBounds handle t')
    (hc : t'.closed = false)
    (hb : ∃ tree, r'.history.revision? t'.base.number = some (t'.base, tree)) : r'.Sound := by
  obtain ⟨ht, hopen⟩ := liveWriter_eq_ok_iff.mp live
  have hset := writer?_set hw ht
  refine ⟨hh, ?_, ?_, ?_⟩
  · intro k hk
    rw [hrun] at hk
    obtain ⟨u, hu, huo⟩ := hr.running hk
    rw [hset]
    split
    · exact ⟨t', rfl, hc⟩
    · exact ⟨u, hu, huo⟩
  · intro k u hu huo
    rw [hset] at hu
    rw [hrun]
    split at hu
    · next hk => exact hk ▸ hr.running_eq ht hopen
    · exact hr.running_eq hu huo
  · intro k u hu
    rw [hset] at hu
    split at hu
    · obtain rfl := Option.some.inj hu
      exact hb
    · obtain ⟨tree, hs⟩ := hr.base hu
      exact ⟨tree, kept hs⟩

theorem Sound.moved (hr : r.Sound) (live : r.liveWriter handle = .ok t) (h : t.Moves t') :
    (r.setWriter handle t').Sound := by
  obtain ⟨ht, hopen⟩ := liveWriter_eq_ok_iff.mp live
  exact hr.change live hr.history id rfl rfl (h.closed_eq.trans hopen)
    (h.base_eq ▸ hr.base ht)

theorem Sound.committed (hr : r.Sound) (live : r.liveWriter handle = .ok t) (now : Instant) :
    (r.committed handle t now).Sound := by
  obtain ⟨ht, hopen⟩ := liveWriter_eq_ok_iff.mp live
  refine hr.change live (hr.history.append t.tree now)
    (fun hs => hr.history.revision?_append_of_eq_some t.tree now hs) rfl rfl hopen ⟨t.tree, ?_⟩
  exact (hr.history.revision?_append t.tree now _).trans (if_pos rfl)

theorem Sound.rewound {target : RevisionNumber} {info : RevisionStamp} {tree : Tree} (hr : r.Sound)
    (live : r.liveWriter handle = .ok t) (h : r.history.revision? target = some (info, tree))
    (times : Nat) : (r.rewound handle t times info tree).Sound := by
  obtain ⟨-, hopen⟩ := liveWriter_eq_ok_iff.mp live
  exact hr.change live hr.history id rfl rfl hopen
    ⟨tree, hr.history.number_of_revision? h ▸ h⟩

/-! ## Opening and closing -/

theorem Sound.exists_revision?_mostRecent (hr : r.Sound) :
    ∃ tree, r.history.revision? r.mostRecent = some (r.history.latest, tree) :=
  hr.history.exists_revision?_latest

theorem writer?_opened (r : Resource) (tree : Tree) (k : Nat) :
    (r.opened tree).writer? k =
      if k = r.writers.size then some { base := r.history.latest, tree } else r.writer? k :=
  Array.getElem?_push

theorem Sound.opened (hr : r.Sound) (idle : r.running = none) (tree : Tree) :
    (r.opened tree).Sound := by
  refine ⟨hr.history, ?_, ?_, ?_⟩
  · intro k hk
    obtain rfl := Option.some.inj hk
    exact ⟨_, (writer?_opened r tree _).trans (if_pos rfl), rfl⟩
  · intro k u hu huo
    rw [writer?_opened] at hu
    split at hu
    · next hk => exact congrArg some hk.symm
    · exact nomatch idle.symm.trans (hr.running_eq hu huo)
  · intro k u hu
    rw [writer?_opened] at hu
    split at hu
    · obtain rfl := Option.some.inj hu
      exact hr.history.exists_revision?_latest
    · exact hr.base hu

theorem writer?_ended (r : Resource) (handle k : Nat) :
    (r.ended handle).writer? k =
      if handle = k then (r.writer? k).map Transaction.close else r.writer? k :=
  Array.getElem?_modify

theorem Sound.ended (hr : r.Sound) (h : r.running = some handle) : (r.ended handle).Sound := by
  refine ⟨hr.history, ?_, ?_, ?_⟩
  · intro k hk
    cases hk
  · intro k u hu huo
    rw [writer?_ended] at hu
    split at hu
    · obtain ⟨v, -, rfl⟩ := Option.map_eq_some_iff.mp hu
      cases huo
    · next hk => exact absurd (Option.some.inj (h.symm.trans (hr.running_eq hu huo))) hk
  · intro k u hu
    rw [writer?_ended] at hu
    split at hu
    · obtain ⟨v, hv, rfl⟩ := Option.map_eq_some_iff.mp hu
      obtain ⟨tree, hs⟩ := hr.base hv
      exact ⟨tree, hs⟩
    · exact hr.base hu

/-- Whatever is done to a resource, it remains sound. -/
theorem Sound.step (hr : r.Sound) (h : r.Step r') : r'.Sound := by
  cases h with
  | stay => exact hr
  | countOpen | countClose => exact ⟨hr.history, hr.running, hr.running_eq, hr.base⟩
  | opened idle => exact hr.opened idle _
  | ended h => exact hr.ended h
  | moved live h => exact hr.moved live h
  | committed live now => exact hr.committed live now
  | rewound live _ h => exact hr.rewound live h 1

/-- A write transaction can be opened where none is running. -/
theorem Sound.exists_startWriter (hr : r.Sound) (idle : r.running = none) :
    ∃ tree, r.history.revision? r.mostRecent = some (r.history.latest, tree) ∧
      r.startWriter = .ok (r.writers.size, r.opened tree) := by
  obtain ⟨tree, hs⟩ := hr.exists_revision?_mostRecent
  exact ⟨tree, hs, startWriter_eq_ok_iff.mpr ⟨idle, rfl, _, tree, hs, rfl⟩⟩

/-! ## What the store offers for a time -/

/-- What the store offers for a time stands for it, under either policy, and also if revisions share
a time. -/
theorem Sound.standsFor_candidate (hr : r.Sound) (time : Instant) :
    r.history.StandsFor (r.candidate time) time := by
  unfold candidate
  cases r.lookup with
  | floor => exact hr.history.standsFor_floor rfl
  | nearest => exact hr.history.standsFor_nearest rfl

/-- What the store offers for a time is a sealed revision. -/
theorem Sound.candidate_le (hr : r.Sound) (time : Instant) : r.candidate time ≤ r.mostRecent := by
  rcases hr.standsFor_candidate time with ⟨s, tree, floor, hc | ⟨hc, hle⟩⟩ | ⟨-, hc⟩
  · rw [hc]
    exact hr.history.exists_revision?_iff.mp ⟨s, tree, floor.sealed⟩
  · rw [hc]
    exact hle
  · rw [hc]
    exact RevisionNumber.first_le _

end AsOf.Resource
