import AsOf.Proofs.Store.Keep

/-!
# Scripts

A script sees nothing of a store but the resource of its write transaction and the clock, and changes
nothing else. So what it does can be told from the resource alone. A script cannot close its write
transaction either: what it leaves can be sealed, and shown from the document root.

## Main definitions

* `Resource.runScript`: a script on a write transaction of a resource
* `Resource.Rooted`: every revision has a document root

## Main results

* `Store.runScript_eq`: a script on a store is a script on one of its resources
* `Resource.runScript_sealed`: what a script leaves can be sealed
-/

namespace AsOf

/-- Whether the edit seals a revision. -/
def Edit.isCommit : Edit → Bool
  | .commit => true
  | _ => false

/-- What the clock shows behind an edit. -/
def Edit.clockBehind (now : Instant) : Edit → Instant
  | .setClock time => time
  | _ => now

namespace Resource

variable {r r' : Resource} {handle : Nat} {now now' : Instant}

/-- A script on the write transaction with a handle: why it ended before its end, if it did, the
resource that it leaves, and what the clock shows then. -/
def runScript (r : Resource) (handle : Nat) (now : Instant) :
    List Edit → Except StoreError Unit × Resource × Instant
  | [] => (.ok (), r, now)
  | e :: rest =>
    match r.edit handle now e with
    | .ok (_, r') => r'.runScript handle (e.clockBehind now) rest
    | .error reason => (.error reason, r, now)

/-- A script that is followed by another one. -/
theorem runScript_append {edits : List Edit} (h : r.runScript handle now edits = (.ok (), r', now'))
    (more : List Edit) :
    r.runScript handle now (edits ++ more) = r'.runScript handle now' more := by
  induction edits generalizing r now with
  | nil =>
    cases h
    rfl
  | cons e rest ih =>
    rw [List.cons_append, runScript]
    rw [runScript] at h
    split at h
    · exact ih h
    · cases h

/-- A script that is refused does not get to what follows it. -/
theorem runScript_append_of_error {edits : List Edit} {reason : StoreError}
    (h : r.runScript handle now edits = (.error reason, r', now')) (more : List Edit) :
    r.runScript handle now (edits ++ more) = (.error reason, r', now') := by
  induction edits generalizing r now with
  | nil => cases h
  | cons e rest ih =>
    rw [List.cons_append, runScript]
    rw [runScript] at h
    split at h
    · exact ih h
    · exact h

end Resource

namespace Store

variable {s : Store} {w : WriterRef} {r r' : Resource} {e : Edit}

theorem edit_eq_of_ok {answer : EditAnswer} (hr : s.resource? w.resource = some r)
    (h : r.edit w.handle s.clock e = .ok (answer, r')) :
    s.edit w e =
      .ok (answer, { s.setResource w.resource r' with clock := e.clockBehind s.clock }) := by
  simp only [edit, hr, h, bind, Except.bind]
  cases e <;> rfl

theorem edit_eq_of_error {reason : StoreError} (hr : s.resource? w.resource = some r)
    (h : r.edit w.handle s.clock e = .error reason) : s.edit w e = .error reason := by
  simp only [edit, hr, h, bind, Except.bind]

/-- A script on a store is a script on the resource of its write transaction. -/
theorem runScript_eq (hr : s.resource? w.resource = some r) (edits : List Edit) :
    s.runScript w edits = ((r.runScript w.handle s.clock edits).1,
      { s.setResource w.resource (r.runScript w.handle s.clock edits).2.1 with
        clock := (r.runScript w.handle s.clock edits).2.2 }) := by
  induction edits generalizing s r with
  | nil => simp only [runScript, Resource.runScript, setResource_self hr]
  | cons e rest ih =>
    rw [runScript, Resource.runScript]
    cases hedit : r.edit w.handle s.clock e with
    | error reason =>
      simp only [edit_eq_of_error hr hedit, setResource_self hr]
    | ok p =>
      obtain ⟨answer, r'⟩ := p
      let s' := { s.setResource w.resource r' with clock := e.clockBehind s.clock }
      have hr' : s'.resource? w.resource = some r' :=
        (resource?_setResource hr r' w.resource).trans (if_pos rfl)
      simp only [edit_eq_of_ok hr hedit]
      refine (ih hr').trans (Prod.ext rfl ?_)
      rw [← setResource_setResource s w.resource r']
      rfl

end Store

namespace Resource

variable {r r' : Resource} {handle : Nat} {now now' : Instant}

/-! ## What scripts leave -/

/-- Every revision has a document root. -/
structure Rooted (r : Resource) : Prop where
  root : ∀ {n : RevisionNumber} {s : RevisionStamp} {tree : Tree},
    r.history.revision? n = some (s, tree) → tree.contains rootKey = true

theorem rooted_create (name : String) (lookup : LookupPolicy) (now : Instant) :
    (create name lookup now).Rooted := by
  refine ⟨fun {n s tree} hs => ?_⟩
  rw [History.revision?_eq_entries] at hs
  have hmem := List.mem_of_getElem? hs
  rw [show (create name lookup now).history = .start now from rfl, History.entries_start,
    List.mem_singleton] at hmem
  obtain ⟨-, rfl⟩ := Prod.mk.inj hmem
  rfl

/-- A write transaction has a document root if all revisions have one. -/
theorem Rooted.contains {t : Transaction} (h : r.Rooted) (hg : r.Grown)
    (ht : r.writer? handle = some t) : t.tree.contains rootKey = true := by
  obtain ⟨tree, hs, hgrew⟩ := hg.base ht
  exact hgrew.contains (h.root hs)

theorem Rooted.step (h : r.Rooted) (hr : r.Sound) (hg : r.Grown) (hstep : r.Step r') :
    r'.Rooted := by
  cases hstep with
  | stay | countOpen | countClose | opened | ended | moved | rewound => exact ⟨h.root⟩
  | @committed handle t live now =>
    refine ⟨fun {n s tree} hs => ?_⟩
    rcases hr.history.revision?_append_cases hs with hnew | hold
    · obtain ⟨-, rfl⟩ := Prod.mk.inj hnew
      exact h.contains hg (liveWriter_eq_ok_iff.mp live).1
    · exact h.root hold

/-- No edit opens or closes a write transaction. -/
theorem running_of_edit {e : Edit} {answer : EditAnswer}
    (h : r.edit handle now e = .ok (answer, r')) : r'.running = r.running := by
  by_cases he : e.IsLocal
  · rcases moved_of_edit he h with rfl | ⟨t, t', -, -, rfl⟩ <;> rfl
  · cases e with
    | commit =>
      obtain ⟨⟨number, u⟩, hu, h⟩ := except_bind_eq_ok_iff.mp h
      obtain ⟨t, -, -, rfl⟩ := commit_eq_ok_iff.mp hu
      cases h
      rfl
    | revert target =>
      obtain ⟨u, hu, h⟩ := except_bind_eq_ok_iff.mp h
      obtain ⟨t, info, tree, -, -, -, rfl⟩ := revert_eq_ok_iff.mp hu
      cases h
      rfl
    | _ => exact absurd trivial he

/-- An edit seals one revision if it is a commit, and none if it is not. -/
theorem mostRecent_of_edit {e : Edit} {answer : EditAnswer}
    (h : r.edit handle now e = .ok (answer, r')) :
    r'.mostRecent.val = r.mostRecent.val + if e.isCommit then 1 else 0 := by
  by_cases he : e.IsLocal
  · have hnot : e.isCommit = false := by cases e <;> first | rfl | exact he.elim
    rw [hnot]
    rcases moved_of_edit he h with rfl | ⟨t, t', -, -, rfl⟩ <;> rfl
  · cases e with
    | commit =>
      obtain ⟨⟨number, u⟩, hu, h⟩ := except_bind_eq_ok_iff.mp h
      obtain ⟨t, -, -, rfl⟩ := commit_eq_ok_iff.mp hu
      cases h
      rfl
    | revert target =>
      obtain ⟨u, hu, h⟩ := except_bind_eq_ok_iff.mp h
      obtain ⟨t, info, tree, -, -, -, rfl⟩ := revert_eq_ok_iff.mp hu
      cases h
      rfl
    | _ => exact absurd trivial he

/-- A script that runs to its end seals as many revisions as there are commits in it. -/
theorem mostRecent_runScript {edits : List Edit}
    (h : r.runScript handle now edits = (.ok (), r', now')) :
    r'.mostRecent.val = r.mostRecent.val + edits.countP Edit.isCommit := by
  induction edits generalizing r now with
  | nil =>
    cases h
    rfl
  | cons e rest ih =>
    rw [runScript] at h
    split at h
    · next hedit =>
      rw [ih h, mostRecent_of_edit hedit, List.countP_cons]
      omega
    · cases h

/-- The write transaction with a handle is running in a resource of good shape. -/
structure Writing (r : Resource) (handle : Nat) : Prop where
  sound : r.Sound
  grown : r.Grown
  rooted : r.Rooted
  running : r.running = some handle

/-- The first write transaction of a new resource is running. -/
theorem writing_of_startWriter {name : String} {lookup : LookupPolicy} {created : Instant}
    (h : (create name lookup created).startWriter = .ok (handle, r)) : r.Writing handle := by
  have hstep := step_of_startWriter h
  have hsound := sound_create name lookup created
  have hgrown := grown_create name lookup created
  obtain ⟨-, rfl, s, tree, -, rfl⟩ := startWriter_eq_ok_iff.mp h
  exact ⟨hsound.step hstep, hgrown.step hsound hstep,
    (rooted_create name lookup created).step hsound hgrown hstep, rfl⟩

theorem Writing.edit {e : Edit} {answer : EditAnswer} (h : r.Writing handle)
    (hedit : r.edit handle now e = .ok (answer, r')) : r'.Writing handle where
  sound := h.sound.step (step_of_edit hedit)
  grown := h.grown.step h.sound (step_of_edit hedit)
  rooted := h.rooted.step h.sound h.grown (step_of_edit hedit)
  running := (running_of_edit hedit).trans h.running

theorem Writing.runScript (h : r.Writing handle) {edits : List Edit}
    (hscript : r.runScript handle now edits = (.ok (), r', now')) :
    r'.Writing handle ∧ r'.name = r.name := by
  induction edits generalizing r now with
  | nil =>
    cases hscript
    exact ⟨h, rfl⟩
  | cons e rest ih =>
    rw [Resource.runScript] at hscript
    split at hscript
    · next hedit =>
      obtain ⟨hwriting, hname⟩ := ih (h.edit hedit) hscript
      exact ⟨hwriting, hname.trans (step_of_edit hedit).name_eq⟩
    · cases hscript

/-- What a script leaves can be sealed. Its tree is that of the new revision, on which the transaction goes
on, from the document root. -/
theorem runScript_sealed (h : r.Writing handle) {edits : List Edit}
    (hscript : r.runScript handle now edits = (.ok (), r', now')) :
    ∃ r'' t, r'.liveWriter handle = .ok t ∧
      r.runScript handle now (edits ++ [.commit, .toRoot]) = (.ok (), r'', now') ∧
      r''.name = r.name ∧ r''.running = some handle ∧ r''.history = r'.history.append t.tree now' ∧
      r''.liveWriter handle = .ok { t with base := r'.history.nextStamp now', cursor := rootKey } := by
  obtain ⟨hwriting, hname⟩ := h.runScript hscript
  obtain ⟨t, ht, hopen⟩ := hwriting.sound.running hwriting.running
  have live := liveWriter_eq_ok_iff.mpr ⟨ht, hopen⟩
  have hcommit : r'.edit handle now' .commit =
      .ok (.revision (r'.history.nextStamp now').number, r'.committed handle t now') :=
    except_bind_eq_ok_iff.mpr ⟨_, commit_eq_ok_iff.mpr ⟨t, live, rfl, rfl⟩, rfl⟩
  have hsealed := hwriting.edit hcommit
  let u := t.rebase (r'.history.nextStamp now')
  have hu : (r'.committed handle t now').writer? handle = some u :=
    (writer?_set rfl ht handle).trans (if_pos rfl)
  have huopen : u.closed = false := hopen
  have hlive : (r'.committed handle t now').liveWriter handle = .ok u :=
    liveWriter_eq_ok_iff.mpr ⟨hu, huopen⟩
  have hmove : u.moveTo rootKey = .ok { u with cursor := rootKey } :=
    Transaction.moveTo_of_contains huopen (hsealed.rooted.contains hsealed.grown hu)
  have hroot : (r'.committed handle t now').edit handle now' .toRoot =
      .ok (.done, (r'.committed handle t now').setWriter handle { u with cursor := rootKey }) := by
    rw [edit_toRoot hlive, hmove]
    rfl
  refine ⟨(r'.committed handle t now').setWriter handle { u with cursor := rootKey }, t, live, ?_, hname,
    (hsealed.edit hroot).running, rfl, liveWriter_setWriter hlive huopen⟩
  rw [runScript_append hscript]
  simp only [Resource.runScript, hcommit, Edit.clockBehind, hroot]

end Resource

end AsOf
