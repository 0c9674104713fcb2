import AsOf.Proofs.Lookup.Writer

/-!
# The write transactions of a resource

A resource knows which write transaction is running, and it is the only one that is not closed. Opening
and closing move the slot and the two counts of write transactions together. Whoever holds a write
transaction that was closed holds it forever as it was: it is refused whatever it is used for, and nothing
that happens to the resource brings it back.

## Main definitions

* `Resource.OneWriter`: the slot, the write transactions and their counts agree
* `Resource.Leases`: what asking for a write transaction does
* `Resource.Serves`: all lookups for changing yield the same write transaction
* `Edit.Uses`: the edits that work with a write transaction
* `Resource.ReadersOnly`: two resources differ in their counts of read transactions at most

## Main results

* `Resource.oneWriter_run`, `Resource.Sound.leases`: what holds of every resource
* `Resource.running_run`: the slot keeps its write transaction until one is closed
* `Resource.closed_run`: a write transaction that was closed stays as it is
* `Resource.edit_of_closed`: it is refused
* `Resource.Sound.readersOnly_run`: where none is running and none is opened, nothing is written
-/

namespace AsOf

open Observed

/-- The edit works with the write transaction, instead of asking about it or of acting on what lies
around it. -/
def Edit.Uses : Edit → Prop
  | .toRoot | .toParent | .moveTo _ | .insert _ | .commit | .revert _ | .readNode => True
  | .readClosed | .readResource | .setClock _ | .giveUp _ => False

namespace Resource

variable {r r' : Resource} {handle k : Nat} {t : Transaction} {now : Instant}

/-! ## One at a time -/

/-- One more write transaction was opened than closed if one is running, and as many if none is. -/
def WritersCounted (r : Resource) : Prop :=
  r.tally.writeOpened = r.tally.writeClosed + if r.running.isSome then 1 else 0

/-- The slot, the write transactions and their counts agree: a write transaction is not closed exactly if
it is the one in the slot, what is in the slot is based on a sealed revision with its recorded time, and
one more write transaction was opened than closed exactly if the slot is filled. -/
structure OneWriter (r : Resource) : Prop where
  open_iff : ∀ {handle t}, r.writer? handle = some t → (t.closed = false ↔ r.running = some handle)
  filled : ∀ {handle}, r.running = some handle → ∃ t tree, r.writer? handle = some t ∧
    r.history.revision? t.base.number = some (t.base, tree)
  counted : r.WritersCounted

theorem WritersCounted.step (hr : r.WritersCounted) (h : r.Step r') : r'.WritersCounted := by
  unfold WritersCounted at hr ⊢
  cases h with
  | stay | countOpen | countClose | moved | committed | rewound => exact hr
  | opened idle =>
    rw [idle] at hr
    exact congrArg (· + 1) hr
  | ended hrun =>
    rw [hrun] at hr
    exact hr

theorem Sound.oneWriter (hr : r.Sound) (hcounted : r.WritersCounted) : r.OneWriter where
  open_iff := by
    intro handle t ht
    refine ⟨hr.running_eq ht, fun hrun => ?_⟩
    obtain ⟨u, hu, hopen⟩ := hr.running hrun
    obtain rfl := Option.some.inj (ht.symm.trans hu)
    exact hopen
  filled := by
    intro handle hrun
    obtain ⟨t, ht, -⟩ := hr.running hrun
    obtain ⟨tree, hbase⟩ := hr.base ht
    exact ⟨t, tree, ht, hbase⟩
  counted := hcounted

theorem writersCounted_run (name : String) (lookup : LookupPolicy) (created : Instant)
    (events : List ResourceEvent) : ((create name lookup created).run events).WritersCounted :=
  have hcreate : (create name lookup created).WritersCounted := rfl
  keeps_run WritersCounted.step hcreate events

/-- Whatever happened to a new resource, one write transaction is not closed at most. -/
theorem oneWriter_run (name : String) (lookup : LookupPolicy) (created : Instant)
    (events : List ResourceEvent) : ((create name lookup created).run events).OneWriter :=
  (sound_run name lookup created events).oneWriter (writersCounted_run name lookup created events)

/-! ## Asking for it -/

theorem startWriter_of_running (hrun : r.running = some handle) :
    r.startWriter = .error (.writeTrxRunning r.name) := by
  rw [startWriter, hrun]
  rfl

/-- What asking for a write transaction does. It is said to be running exactly if its handle is given
away, so the running one is taken over and nothing changes, or a new one is opened, and nothing else is
reported. Opening one is refused exactly if one is running. -/
structure Leases (r : Resource) : Prop where
  shown : Faults.none.hasRunning r = (Faults.none.runningHandle r).isSome
  taken : ∀ {handle}, r.running = some handle →
    Does (takeWriter .none) r (.ok handle) r [.writeTrxReused]
      [Event.writeTrxReused.record [("resource", r.name)]]
  fresh : r.running = none → ∃ tree,
    r.history.revision? r.mostRecent = some (r.history.latest, tree) ∧
    Does (takeWriter .none) r (.ok r.writers.size) (r.opened tree) [.writeTrxOpened]
      [Event.writeTrxOpened.record [("resource", r.name)]]
  refused_iff : ∀ e, r.startWriter = .error e ↔ r.running.isSome ∧ e = .writeTrxRunning r.name

theorem Sound.leases (hr : r.Sound) : r.Leases where
  shown := rfl
  taken := does_takeWriter_of_running
  fresh := by
    intro idle
    obtain ⟨tree, hs, hstart⟩ := hr.exists_startWriter idle
    exact ⟨tree, hs, does_takeWriter_of_idle idle hstart⟩
  refused_iff := by
    intro e
    cases hrun : r.running with
    | some handle =>
      rw [startWriter_of_running hrun, Except.error.injEq, Option.isSome_some]
      exact ⟨fun h => ⟨rfl, h.symm⟩, fun h => h.2.symm⟩
    | none =>
      obtain ⟨tree, -, hstart⟩ := hr.exists_startWriter hrun
      rw [hstart]
      constructor
      · intro h
        cases h
      · rintro ⟨h, -⟩
        cases h

/-- The write transaction with a handle is what all lookups for changing yield; only the lookup as of a
time before the first revision yields nothing. -/
structure Serves (r : Resource) (handle : Nat) : Prop where
  take : ∀ target c j, (takeLease .none .updatable target ⟨r, c, j⟩).1 = .ok (.writer handle)
  asOf : ∀ time c j, ∃ found, (snapshotAsOf .none time .updatable ⟨r, c, j⟩).1 = .ok found ∧
    (found = none ∨ found = some (.writer handle)) ∧ (found = none → r.history.StartsAfter time)
  revision : ∀ choice c j, (snapshotOf .none choice .updatable ⟨r, c, j⟩).1 = .ok (.writer handle)

/-- Whoever asks while a write transaction is running, gets that one. -/
theorem Sound.serves (hr : r.Sound) (hrun : r.running = some handle) : r.Serves handle := by
  obtain ⟨t, ht, hopen⟩ := hr.running hrun
  have live := liveWriter_eq_ok_iff.mpr ⟨ht, hopen⟩
  refine ⟨fun target c j => ?_, fun time c j => ?_, fun choice c j => ?_⟩
  · have htake := hr.leases.taken hrun c j
    rw [takeLease, Action.bind_run_ok htake]
    rfl
  · obtain ⟨found, r', counted, written, hlanding, hdoes⟩ := hr.does_snapshotAsOf_running hrun live time
    refine ⟨found.map .writer, congrArg Prod.fst (hdoes c j), ?_, fun h => ?_⟩
    · cases found with
      | none => exact .inl rfl
      | some landed =>
        obtain rfl := (hlanding.exists_live live).1
        exact .inr rfl
    · exact (hlanding.eq_none_iff hr live).mp (Option.map_eq_none_iff.mp h)
  · obtain ⟨r', counted, written, -, hdoes⟩ := hr.does_snapshotOf_running hrun live choice
    exact congrArg Prod.fst (hdoes c j)

/-! ## From its opening to its closing -/

/-- Since a time when so many write transactions were closed, the slot has kept its write transaction or
one was closed. -/
def SlotKept (closed handle : Nat) (r : Resource) : Prop :=
  closed ≤ r.tally.writeClosed ∧ (r.tally.writeClosed = closed → r.running = some handle)

theorem SlotKept.step {closed : Nat} (hr : r.SlotKept closed handle) (h : r.Step r') :
    r'.SlotKept closed handle := by
  cases h with
  | stay | countOpen | countClose | moved | committed | rewound => exact hr
  | opened idle =>
    refine ⟨hr.1, fun h => ?_⟩
    cases idle.symm.trans (hr.2 h)
  | ended =>
    have hlt : closed < r.tally.writeClosed + 1 := Nat.lt_succ_of_le hr.1
    exact ⟨Nat.le_of_lt hlt, fun h => absurd h (Nat.ne_of_gt hlt)⟩

/-- The slot keeps its write transaction until one is closed. -/
theorem running_run (hrun : r.running = some handle) (events : List ResourceEvent)
    (hclosed : (r.run events).tally.writeClosed = r.tally.writeClosed) :
    (r.run events).running = some handle :=
  (keeps_run SlotKept.step (r := r) ⟨Nat.le_refl _, fun _ => hrun⟩ events).2 hclosed

/-! ## After its closing -/

/-- Nothing that is done to the resource touches a write transaction that was closed. -/
theorem closed_step (ht : r.writer? handle = some t) (hclosed : t.closed = true) (h : r.Step r') :
    r'.writer? handle = some t := by
  have hset {k : Nat} {u u' : Transaction} (live : r.liveWriter k = .ok u)
      (hw : r'.writers = r.writers.setIfInBounds k u') : r'.writer? handle = some t := by
    obtain ⟨hu, hopen⟩ := liveWriter_eq_ok_iff.mp live
    rw [writer?_set hw hu, if_neg]
    · exact ht
    · rintro rfl
      obtain rfl := Option.some.inj (ht.symm.trans hu)
      cases hclosed.symm.trans hopen
  cases h with
  | stay | countOpen | countClose => exact ht
  | opened =>
    rw [writer?_opened, if_neg (Nat.ne_of_lt (Array.getElem?_eq_some_iff.mp ht).1)]
    exact ht
  | ended =>
    have hclose : t.close = t := by rw [Transaction.close, ← hclosed]
    rw [writer?_ended, ht, Option.map_some, hclose, ite_self]
  | moved live | committed live | rewound live => exact hset live rfl

theorem closed_run (ht : r.writer? handle = some t) (hclosed : t.closed = true)
    (events : List ResourceEvent) : (r.run events).writer? handle = some t :=
  keeps_run (fun hu h => closed_step hu hclosed h) ht events

theorem liveWriter_of_closed (ht : r.writer? handle = some t) (hclosed : t.closed = true) :
    r.liveWriter handle = .error .trxClosed := by
  rw [liveWriter, ht]
  exact if_pos hclosed

/-- A write transaction that was closed is refused whatever it is used for. -/
theorem edit_of_closed (ht : r.writer? handle = some t) (hclosed : t.closed = true) {e : Edit}
    (he : e.Uses) (now : Instant) : r.edit handle now e = .error .trxClosed := by
  have hlive := liveWriter_of_closed ht hclosed
  cases e with
  | toRoot | toParent | moveTo | insert | readNode => simp only [edit, hlive, bind, Except.bind]
  | commit => simp only [edit, commit, hlive, bind, Except.bind]
  | revert => simp only [edit, revert, hlive, bind, Except.bind]
  | readClosed | readResource | setClock | giveUp => cases he

/-! ## Where none is running -/

/-- The resources differ in their counts of read transactions at most. -/
inductive ReadersOnly (r : Resource) : Resource → Prop
  | mk (opened closed : Nat) :
    ReadersOnly r { r with tally := { r.tally with readOpened := opened, readClosed := closed } }

theorem ReadersOnly.refl (r : Resource) : r.ReadersOnly r := .mk r.tally.readOpened r.tally.readClosed

theorem ReadersOnly.trans {r'' : Resource} (h : r.ReadersOnly r') (h' : r'.ReadersOnly r'') :
    r.ReadersOnly r'' := by
  cases h
  cases h'
  exact .mk _ _

theorem ReadersOnly.running_eq (h : r.ReadersOnly r') : r'.running = r.running := by
  cases h
  rfl

theorem ReadersOnly.countedOpen (h : r.ReadersOnly r') : r.ReadersOnly r'.countedOpen := by
  cases h
  exact .mk _ _

theorem ReadersOnly.countedClose (h : r.ReadersOnly r') : r.ReadersOnly r'.countedClose := by
  cases h
  exact .mk _ _

/-- Where none is running, none is open. -/
theorem Sound.liveWriter_ne (hr : r.Sound) (idle : r.running = none) : r.liveWriter handle ≠ .ok t := by
  intro live
  obtain ⟨ht, hopen⟩ := liveWriter_eq_ok_iff.mp live
  cases idle.symm.trans (hr.running_eq ht hopen)

/-- No edit changes a resource without a write transaction. -/
theorem Sound.eq_of_edit (hr : r.Sound) (idle : r.running = none) {e : Edit} {answer : EditAnswer}
    (h : r.edit handle now e = .ok (answer, r')) : r' = r := by
  by_cases he : e.IsLocal
  · rcases moved_of_edit he h with rfl | ⟨t, t', live, -, -⟩
    · rfl
    · exact absurd live (hr.liveWriter_ne idle)
  · cases e with
    | commit =>
      obtain ⟨_, hcommit, -⟩ := except_bind_eq_ok_iff.mp h
      obtain ⟨t, live, -⟩ := commit_eq_ok_iff.mp hcommit
      exact absurd live (hr.liveWriter_ne idle)
    | revert target =>
      obtain ⟨_, hrevert, -⟩ := except_bind_eq_ok_iff.mp h
      obtain ⟨t, info, tree, live, -⟩ := revert_eq_ok_iff.mp hrevert
      exact absurd live (hr.liveWriter_ne idle)
    | _ => exact absurd trivial he

/-- What happens to a resource without a write transaction, and opens none, is of no account but to the
counts of read transactions. -/
theorem Sound.readersOnly_after (hr : r.Sound) (idle : r.running = none) {event : ResourceEvent}
    (h : ¬event.Opens) : r.ReadersOnly (r.after event) := by
  cases event with
  | startWriter => exact absurd trivial h
  | endWriter =>
    simp only [after, endWriter, idle]
    exact .refl r
  | startReader number =>
    refine orKeep_of_step (.refl r) fun hstart => ?_
    obtain ⟨-, -, -, -, rfl⟩ := startReader_eq_ok_iff.mp hstart
    exact (ReadersOnly.refl r).countedOpen
  | endReader trx =>
    simp only [after, endReader]
    split
    · exact .refl r
    · exact (ReadersOnly.refl r).countedClose
  | edit handle now e =>
    exact orKeep_of_step (.refl r) fun hedit => hr.eq_of_edit idle hedit ▸ .refl r
  | lookUp q access =>
    cases access with
    | updatable => exact absurd trivial h
    | readOnly =>
      exact keeps_resolve_readOnly (Q := r.ReadersOnly) (fun _ hu => hu.countedOpen)
        (fun _ hu => hu.countedClose) q ⟨r, {}, {}⟩ (.refl r)

theorem Sound.readersOnly_run (hr : r.Sound) (idle : r.running = none) {events : List ResourceEvent}
    (h : ∀ event ∈ events, ¬event.Opens) : r.ReadersOnly (r.run events) := by
  induction events generalizing r with
  | nil => exact .refl r
  | cons event events ih =>
    have hafter := hr.readersOnly_after idle (h event List.mem_cons_self)
    have hidle : (r.after event).running = none := by
      rw [hafter.running_eq]
      exact idle
    have hsound : (r.after event).Sound := hr.after_event event
    exact hafter.trans (ih hsound hidle fun e he => h e (List.mem_cons_of_mem event he))

end Resource

end AsOf
