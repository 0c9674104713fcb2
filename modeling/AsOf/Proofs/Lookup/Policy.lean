import AsOf.Proofs.Lookup.Reader
import AsOf.Proofs.Lookup.Writer
import AsOf.Proofs.Resource.Leeway

/-!
# Lookups under two policies

Looking up a revision asks for no policy. Looking up a time for reading does, but comes to the floor of
the time in any case. Looking up a time for changing need not: whether the running write transaction is
moved depends on the offered revision itself, and the policies may offer the floor, or the revision right
behind it.

There are two ways in which this shows. If the floor lies right before the most recent revision, and the
transaction is based on an older one, then it is moved forth to the floor where the floor is offered, and
stays where the most recent revision is. If the floor lies further back, and the transaction is based on
it, then it stays where the floor is offered, and goes back twice where the revision behind it is: what
was written since is gone.

## Main definitions

* `Resource.Diverges`: a lookup of a time for changing is not the same on two resources

## Main results

* `Resource.Agrees.snapshotAsOf_of_readOnly`: lookups of times for reading
* `Resource.Agrees.snapshotAsOf_of_updatable`: lookups of times for changing
-/

namespace AsOf

open Observed

namespace Resource

/-! ## Times for reading -/

variable {r r' u u' : Resource} {handle times times' : Nat} {t : Transaction} {time : Instant}
  {found found' : Option Nat} {s : RevisionStamp} {tree : Tree}

/-- A lookup of a time for reading comes to the floor under every policy. -/
theorem Agrees.snapshotAsOf_of_readOnly (h : r.Agrees r') (hr : r.Sound) (hr' : r'.Sound)
    (time : Instant) (c c' : Counters) (j j' : Journal) :
    let answer := snapshotAsOf .none time .readOnly ⟨r, c, j⟩
    let answer' := snapshotAsOf .none time .readOnly ⟨r', c', j'⟩
    answer.1 = answer'.1 ∧ answer.2.state.Agrees answer'.2.state := by
  intro answer answer'
  obtain ⟨found, u, _, _, _, hreading, hdoes⟩ := hr.does_snapshotAsOf_readOnly time
  obtain ⟨found', u', _, _, _, hreading', hdoes'⟩ := hr'.does_snapshotAsOf_readOnly time
  have hanswer : answer = _ := hdoes c j
  have hanswer' : answer' = _ := hdoes' c' j'
  rw [hanswer, hanswer']
  have hfound : found' = found := hreading.found_eq hr hr' hreading'
    (fun floor => h.history_eq.symm ▸ floor) fun starts => h.history_eq.symm ▸ starts
  refine ⟨by rw [hfound], ?_⟩
  show u.Agrees u'
  rw [hreading.state_eq, hreading'.state_eq]
  obtain ⟨lookup, tally⟩ := h
  exact .mk lookup _

/-! ## Times for changing -/

/-- A lookup of a time for changing is not the same on two resources that agree. The policies offer
different revisions: the floor, and the one behind it. -/
inductive Diverges (r r' : Resource) (time : Instant) : Prop
  /-- The transaction is moved forth to the floor, or stays on an older revision. -/
  | moved {handle : Nat} {t : Transaction} {s : RevisionStamp} {tree : Tree}
      (running : r.running = some handle) (live : r.liveWriter handle = .ok t)
      (floor : r.history.IsFloor time s tree) (offers : r.candidate time ≠ r'.candidate time)
      (last : s.number.next = r.mostRecent) (older : t.base.number < s.number)
  /-- The transaction stays as it is on the floor, or what was done on it since is discarded. -/
  | discarded {handle : Nat} {t : Transaction} {s : RevisionStamp} {tree : Tree}
      (running : r.running = some handle) (live : r.liveWriter handle = .ok t)
      (floor : r.history.IsFloor time s tree) (offers : r.candidate time ≠ r'.candidate time)
      (further : s.number.next < r.mostRecent) (there : t.base.number = s.number)
      (changed : t.revert s tree ≠ t)

/-- A lookup does not diverge where the running transaction is based on the most recent revision. -/
theorem not_diverges_of_latest (hlatest : ∀ {handle t}, r.running = some handle →
    r.liveWriter handle = .ok t → t.base.number = r.mostRecent) : ¬r.Diverges r' time := by
  rintro (⟨running, live, -, -, last, older⟩ | ⟨running, live, -, -, further, there, -⟩)
  · have hm := hlatest running live
    exact RevisionNumber.ne_of_lt (Nat.lt_succ_of_lt older) (hm.trans last.symm)
  · have hm := hlatest running live
    exact RevisionNumber.ne_of_lt (Nat.lt_of_succ_lt further) (there.symm.trans hm)

theorem Landing.name_eq (h : r.Landing handle t time found u times) : u.name = r.name := by
  cases h <;> rfl

/-- Where the floor is offered, the transaction is replaced by the floor, unless it is based on it or the
floor is the most recent revision. -/
theorem Landing.writers_of_floor (hr : r.Sound) (h : r.Landing handle t time found u times)
    (floor : r.history.IsFloor time s tree) (hc : r.candidate time = s.number) :
    u.writers = if t.base.number ≠ s.number ∧ s.number < r.mostRecent then
        r.writers.setIfInBounds handle (t.revert s tree)
      else r.writers := by
  cases h with
  | there _ hthere =>
    rw [if_neg]
    exact fun h => h.1 (hthere.symm.trans hc)
  | older hm =>
    rw [if_neg]
    exact fun h => RevisionNumber.ne_of_lt h.2 (hc.symm.trans hm)
  | back floor' earlier hne =>
    obtain ⟨rfl, rfl⟩ := floor.unique floor'
    rw [if_pos ⟨hne, earlier⟩]
    rfl
  | backTwice floor' hc' =>
    obtain ⟨rfl, rfl⟩ := floor.unique floor'
    exact absurd (hc'.symm.trans hc) (RevisionNumber.next_ne _)
  | absent starts | absentBack starts => exact absurd starts (floor.not_startsAfter hr.history)

/-- Where the revision behind the floor is offered, the transaction is replaced by the floor, unless that
revision is the most recent one and the transaction is based on an older one. -/
theorem Landing.writers_of_next (hr : r.Sound) (h : r.Landing handle t time found u times)
    (floor : r.history.IsFloor time s tree) (hc : r.candidate time = s.number.next) :
    u.writers = if t.base.number = s.number.next ∨ s.number.next < r.mostRecent then
        r.writers.setIfInBounds handle (t.revert s tree)
      else r.writers := by
  cases h with
  | there floor' hthere =>
    obtain ⟨rfl, -⟩ := floor.unique floor'
    exact absurd (hc.symm.trans hthere) (RevisionNumber.next_ne _)
  | older hm hlt =>
    have hlast := hc.symm.trans hm
    rw [if_neg]
    rintro (h | h)
    · exact RevisionNumber.ne_of_lt hlt (h.trans hlast)
    · exact RevisionNumber.ne_of_lt h hlast
  | back floor' _ _ hc' =>
    obtain ⟨rfl, rfl⟩ := floor.unique floor'
    rcases hc' with hc' | ⟨-, hnext⟩
    · exact absurd (hc.symm.trans hc') (RevisionNumber.next_ne _)
    · rw [if_pos (.inl hnext)]
      rfl
  | backTwice floor' _ further =>
    obtain ⟨rfl, rfl⟩ := floor.unique floor'
    rw [if_pos (.inr further)]
    rfl
  | absent starts | absentBack starts => exact absurd starts (floor.not_startsAfter hr.history)

/-- Where the time lies before the first revision, the transaction is on that one in the end. -/
theorem Landing.writers_of_startsAfter (hr : r.Sound) (h : r.Landing handle t time found u times)
    (live : r.liveWriter handle = .ok t) (starts : r.history.StartsAfter time)
    (hs : r.history.revision? .first = some (s, tree)) :
    u.writers = if t.base.number = .first then r.writers
      else r.writers.setIfInBounds handle (t.revert s tree) := by
  cases h with
  | there floor | back floor | backTwice floor =>
    exact absurd starts (floor.not_startsAfter hr.history)
  | older _ _ hle =>
    obtain ⟨_, hbase⟩ := hr.base (liveWriter_eq_ok_iff.mp live).1
    exact absurd hle (Instant.not_le.mpr (starts.lt hr.history hbase))
  | absent _ hfirst => rw [if_pos hfirst]
  | absentBack _ hne hs' =>
    obtain ⟨rfl, rfl⟩ := Prod.mk.inj (Option.some.inj (hs.symm.trans hs'))
    rw [if_neg hne]
    rfl

/-- Where the policies offer the same, the transactions land on the same. -/
theorem Landing.writers_eq (h : r.Agrees r') (hr : r.Sound) (hr' : r'.Sound)
    (live : r.liveWriter handle = .ok t) (hc : r'.candidate time = r.candidate time)
    (hl : r.Landing handle t time found u times)
    (hl' : r'.Landing handle t time found' u' times') : u'.writers = u.writers := by
  have live' : r'.liveWriter handle = .ok t := (h.liveWriter_eq handle).trans live
  rcases hr.standsFor_candidate time with ⟨s, tree, floor, hs | ⟨hs, -⟩⟩ | ⟨starts, -⟩
  · rw [hl.writers_of_floor hr floor hs,
      hl'.writers_of_floor hr' (h.history_eq.symm ▸ floor) (hc.trans hs), h.mostRecent_eq, h.writers_eq]
  · rw [hl.writers_of_next hr floor hs,
      hl'.writers_of_next hr' (h.history_eq.symm ▸ floor) (hc.trans hs), h.mostRecent_eq, h.writers_eq]
  · obtain ⟨s, tree, hs, -⟩ := id starts
    rw [hl.writers_of_startsAfter hr live starts hs,
      hl'.writers_of_startsAfter hr' live' (h.history_eq.symm ▸ starts) (h.history_eq.symm ▸ hs),
      h.writers_eq]

/-- What it takes to diverge, where the policies offer the floor and the revision behind it. -/
theorem diverges_iff (running : r.running = some handle) (live : r.liveWriter handle = .ok t)
    (floor : r.history.IsFloor time s tree) (offers : r.candidate time ≠ r'.candidate time) :
    r.Diverges r' time ↔ s.number.next = r.mostRecent ∧ t.base.number < s.number ∨
      s.number.next < r.mostRecent ∧ t.base.number = s.number ∧ t.revert s tree ≠ t := by
  constructor
  · rintro (⟨running', live', floor', -, last, older⟩ | ⟨running', live', floor', -, further, there, changed⟩)
    all_goals
      obtain rfl := Option.some.inj (running.symm.trans running')
      obtain rfl := Except.ok.inj (live.symm.trans live')
      obtain ⟨rfl, rfl⟩ := floor.unique floor'
    · exact .inl ⟨last, older⟩
    · exact .inr ⟨further, there, changed⟩
  · rintro (⟨last, older⟩ | ⟨further, there, changed⟩)
    · exact .moved running live floor offers last older
    · exact .discarded running live floor offers further there changed

/-- Where one policy offers the floor, and the other one the revision behind it, the transaction is
replaced under both or under none, unless the lookups diverge. -/
theorem writers_eq_iff (hr : r.Sound) (live : r.liveWriter handle = .ok t)
    (hle : s.number.next ≤ r.mostRecent) :
    (if t.base.number ≠ s.number ∧ s.number < r.mostRecent then
        r.writers.setIfInBounds handle (t.revert s tree) else r.writers) =
      (if t.base.number = s.number.next ∨ s.number.next < r.mostRecent then
        r.writers.setIfInBounds handle (t.revert s tree) else r.writers) ↔
    ¬(s.number.next = r.mostRecent ∧ t.base.number < s.number ∨
      s.number.next < r.mostRecent ∧ t.base.number = s.number ∧ t.revert s tree ≠ t) := by
  obtain ⟨ht, -⟩ := liveWriter_eq_ok_iff.mp live
  obtain ⟨_, hbase⟩ := hr.base ht
  have hb : t.base.number ≤ r.mostRecent := hr.history.exists_revision?_iff.mp ⟨_, _, hbase⟩
  have earlier : s.number < r.mostRecent := hle
  have hset : r.writers.setIfInBounds handle (t.revert s tree) = r.writers ↔ t.revert s tree = t :=
    setIfInBounds_eq_self_iff ht
  by_cases there : t.base.number = s.number
  · rw [if_neg fun h => h.1 there]
    by_cases further : s.number.next < r.mostRecent
    · rw [if_pos (.inr further), eq_comm, hset]
      constructor
      · rintro h (⟨last, -⟩ | ⟨-, -, changed⟩)
        · exact RevisionNumber.ne_of_lt further last
        · exact changed h
      · exact fun h => Classical.not_not.mp fun changed => h (.inr ⟨further, there, changed⟩)
    · have hnext : t.base.number ≠ s.number.next := there ▸ (RevisionNumber.next_ne _).symm
      rw [if_neg (not_or.mpr ⟨hnext, further⟩)]
      refine iff_of_true rfl ?_
      rintro (⟨-, older⟩ | ⟨h, -⟩)
      · exact RevisionNumber.ne_of_lt older there
      · exact further h
  · rw [if_pos ⟨there, earlier⟩]
    by_cases behind : t.base.number = s.number.next ∨ s.number.next < r.mostRecent
    · rw [if_pos behind]
      refine iff_of_true rfl ?_
      rintro (⟨last, older⟩ | ⟨-, h, -⟩)
      · rcases behind with hnext | further
        · exact RevisionNumber.ne_of_lt (Nat.lt_succ_of_lt older) hnext
        · exact RevisionNumber.ne_of_lt further last
      · exact there h
    · obtain ⟨hnext, further⟩ := not_or.mp behind
      have last := RevisionNumber.le_antisymm hle (RevisionNumber.not_lt.mp further)
      have before : t.base.number < s.number.next :=
        RevisionNumber.lt_of_le_of_ne (last.symm ▸ hb) hnext
      have older := RevisionNumber.lt_of_le_of_ne (Nat.le_of_lt_succ before) there
      rw [if_neg behind, hset]
      refine iff_of_false (fun h => there ?_) fun h => h (.inl ⟨last, older⟩)
      exact (congrArg (·.base.number) h).symm

/-- Where the policies offer different revisions, the transactions land on the same exactly if the
lookups do not diverge. -/
theorem Landing.writers_eq_iff (h : r.Agrees r') (hr : r.Sound) (hr' : r'.Sound)
    (running : r.running = some handle) (live : r.liveWriter handle = .ok t)
    (offers : r.candidate time ≠ r'.candidate time) (hl : r.Landing handle t time found u times)
    (hl' : r'.Landing handle t time found' u' times') :
    u'.writers = u.writers ↔ ¬r.Diverges r' time := by
  have hh := h.history_eq
  rcases hr.standsFor_candidate time with ⟨s, tree, floor, hs⟩ | ⟨starts, hfirst⟩
  · have floor' : r'.history.IsFloor time s tree := hh.symm ▸ floor
    rw [diverges_iff running live floor offers]
    -- Under the other policy the floor is the same, and the other one of the two is offered.
    rcases hr'.standsFor_candidate time with ⟨s', tree', hfloor, hs'⟩ | ⟨starts, -⟩
    · obtain ⟨rfl, rfl⟩ := floor'.unique hfloor
      rcases hs with hs | ⟨hs, hle⟩ <;> rcases hs' with hs' | ⟨hs', hle'⟩
      · exact absurd (hs.trans hs'.symm) offers
      · have hle : s.number.next ≤ r.mostRecent := h.mostRecent_eq ▸ hle'
        rw [hl.writers_of_floor hr floor hs, hl'.writers_of_next hr' floor' hs', h.mostRecent_eq,
          h.writers_eq, eq_comm]
        exact Resource.writers_eq_iff hr live hle
      · rw [hl.writers_of_next hr floor hs, hl'.writers_of_floor hr' floor' hs', h.mostRecent_eq,
          h.writers_eq]
        exact Resource.writers_eq_iff hr live hle
      · exact absurd (hs.trans hs'.symm) offers
    · exact absurd (hh ▸ starts) (floor.not_startsAfter hr.history)
  · rcases hr'.standsFor_candidate time with ⟨s, tree, floor, -⟩ | ⟨-, hfirst'⟩
    · exact absurd (hh.symm ▸ starts) (floor.not_startsAfter hr'.history)
    · exact absurd (hfirst.trans hfirst'.symm) offers

variable {r₁ r₁' : Resource} {handle' : Nat} {t' : Transaction} {k k' : Counter}

/-- Of resources that agree the same transaction is taken, which leaves them in agreement. -/
theorem Taken.agrees (h : r.Agrees r') (htaken : r.Taken handle t r₁ k)
    (htaken' : r'.Taken handle' t' r₁' k') : handle' = handle ∧ t' = t ∧ r₁.Agrees r₁' := by
  have hrunning := (agrees_iff.mp h).2.2.2
  cases htaken with
  | reused hrun live =>
    cases htaken' with
    | reused hrun' live' =>
      obtain rfl := Option.some.inj (hrun'.symm.trans (hrunning.trans hrun))
      exact ⟨rfl, Except.ok.inj (live'.symm.trans ((h.liveWriter_eq _).trans live)), h⟩
    | opened idle => exact nomatch idle.symm.trans (hrunning.trans hrun)
  | opened idle hs =>
    cases htaken' with
    | reused hrun' => exact nomatch hrun'.symm.trans (hrunning.trans idle)
    | opened idle' hs' =>
      obtain ⟨lookup, tally⟩ := h
      obtain ⟨-, rfl⟩ := Prod.mk.inj (Option.some.inj (hs'.symm.trans hs))
      exact ⟨rfl, rfl, .mk _ _⟩

/-- A transaction that was opened for a lookup does not make it diverge. -/
theorem Taken.diverges_iff (h : r.Agrees r') (htaken : r.Taken handle t r₁ k)
    (htaken' : r'.Taken handle t r₁' k') : r₁.Diverges r₁' time ↔ r.Diverges r' time := by
  have hrunning := (agrees_iff.mp h).2.2.2
  cases htaken with
  | reused hrun =>
    cases htaken' with
    | reused => rfl
    | opened idle => exact nomatch idle.symm.trans (hrunning.trans hrun)
  | @opened tree idle hs =>
    have live : (r.opened tree).liveWriter r.writers.size = .ok { base := r.history.latest, tree } :=
      (Taken.opened idle hs).live
    refine iff_of_false (not_diverges_of_latest fun running live' => ?_)
      (not_diverges_of_latest fun running => nomatch idle.symm.trans running)
    obtain rfl := Option.some.inj running
    obtain rfl := Except.ok.inj (live.symm.trans live')
    rfl

/-- What is found is a matter of the time and the history. -/
theorem Landing.found_eq (h : r.Agrees r') (hr : r.Sound) (hr' : r'.Sound)
    (live : r.liveWriter handle = .ok t) (hl : r.Landing handle t time found u times)
    (hl' : r'.Landing handle t time found' u' times') : found' = found := by
  have hnone := hl.eq_none_iff hr live
  have hnone' := hl'.eq_none_iff hr' ((h.liveWriter_eq handle).trans live)
  rw [h.history_eq, ← hnone] at hnone'
  cases found with
  | none => exact hnone'.mpr rfl
  | some landed =>
    cases found' with
    | none => exact nomatch hnone'.mp rfl
    | some landed' =>
      rw [(hl.exists_live live).1, (hl'.exists_live ((h.liveWriter_eq handle).trans live)).1]

/-- **When the policy shows.** On two resources that differ in their policies, a lookup of a time for
changing finds the same transaction, or none on either; and it leaves them alike, up to policies and
statistics, exactly if it does not diverge. -/
theorem Agrees.snapshotAsOf_of_updatable (h : r.Agrees r') (hr : r.Sound) (hr' : r'.Sound)
    (time : Instant) (c c' : Counters) (j j' : Journal) :
    let answer := snapshotAsOf .none time .updatable ⟨r, c, j⟩
    let answer' := snapshotAsOf .none time .updatable ⟨r', c', j'⟩
    answer.1 = answer'.1 ∧ (answer.2.state.Agrees answer'.2.state ↔ ¬r.Diverges r' time) := by
  intro answer answer'
  obtain ⟨handle, t, r₁, _, found, u, times, htaken, hl, hlease⟩ := hr.reports_leaseAsOf time
  obtain ⟨handle', t', r₁', _, found', u', times', htaken', hl', hlease'⟩ :=
    hr'.reports_leaseAsOf time
  obtain ⟨_, hdoes⟩ := hlease.snapshotAsOf
  obtain ⟨_, hdoes'⟩ := hlease'.snapshotAsOf
  have hanswer : answer = _ := hdoes c j
  have hanswer' : answer' = _ := hdoes' c' j'
  obtain ⟨rfl, rfl, h₁⟩ := htaken.agrees h htaken'
  have hr₁ := htaken.sound hr
  have hr₁' := htaken'.sound hr'
  have hfound : found' = found := hl.found_eq h₁ hr₁ hr₁' htaken.live hl'
  rw [hanswer, hanswer', hfound]
  refine ⟨rfl, ?_⟩
  show u.Agrees u' ↔ _
  have hwriters : u.Agrees u' ↔ u'.writers = u.writers := by
    obtain ⟨hname, hhistory, -, hrunning⟩ := agrees_iff.mp h₁
    rw [agrees_iff, hl.name_eq, hl'.name_eq, hl.history_eq, hl'.history_eq, hl.running_eq,
      hl'.running_eq]
    exact ⟨fun h => h.2.2.1, fun h => ⟨hname, hhistory, h, hrunning⟩⟩
  rw [hwriters, ← htaken.diverges_iff h htaken']
  by_cases offers : r₁.candidate time = r₁'.candidate time
  · refine iff_of_true (hl.writers_eq h₁ hr₁ hr₁' htaken.live offers.symm hl') ?_
    rintro (⟨-, -, -, hne⟩ | ⟨-, -, -, hne⟩) <;> exact hne offers
  · exact hl.writers_eq_iff h₁ hr₁ hr₁' htaken.running htaken.live offers hl'

end Resource

end AsOf
