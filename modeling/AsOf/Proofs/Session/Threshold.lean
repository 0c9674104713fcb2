import AsOf.Proofs.Session.Follow
import AsOf.Proofs.Session.Leeway

/-!
# Sessions under two thresholds

A journal keeps the records from a threshold of severity on, and nothing that a session does depends on
what it keeps. So under a higher threshold a session gives the same answers and goes on to hold the same,
and its journal is the other one without the records below that threshold.

## Main definitions

* `Journal.raised`, `Session.raised`: a journal, and a session, under a higher threshold
* `Leeway.threshold`: journals differ in what was written below a higher threshold

## Main results

* `Session.step_raised`: one command under a higher threshold
* `play_raised`: a session under a higher threshold
-/

namespace AsOf

/-- The records that reach a threshold, under this threshold. -/
def Journal.raised (threshold : Severity) (j : Journal) : Journal :=
  ⟨threshold, j.records.filter (threshold ≤ ·.severity)⟩

/-- The session as it would be if its journal had a threshold. -/
def Session.raised (threshold : Severity) (s : Session) : Session :=
  { s with journal := s.journal.raised threshold }

/-! ## What thresholds make different -/

/-- Since the same records were written to both, under a lower and a higher threshold, the journals kept
the same but for those below the higher one. -/
structure Journal.KeepsAbove (low high : Severity) (base base' : List Record) (j j' : Journal) :
    Prop where
  low_eq : j.threshold = low
  high_eq : j'.threshold = high
  written : ∃ kept, j.records = base ++ kept ∧ j'.records = base' ++ kept.filter (high ≤ ·.severity)

theorem Journal.KeepsAbove.write {low high : Severity} {base base' : List Record} {j j' : Journal}
    (h : j.KeepsAbove low high base base' j') (hle : low ≤ high) (w : Record) :
    (j.write w).KeepsAbove low high base base' (j'.write w) := by
  obtain ⟨rfl, rfl, kept, hkept, hkept'⟩ := h
  refine ⟨j.threshold_write w, j'.threshold_write w, kept ++ [w].filter (j.keeps ·.severity), ?_, ?_⟩
  · rw [Journal.records_write, hkept, List.append_assoc]
  · have hreaches : (j'.threshold ≤ w.severity) → j.threshold ≤ w.severity := Nat.le_trans hle
    have hnew : ([w].filter (j.keeps ·.severity)).filter (j'.threshold ≤ ·.severity) =
        [w].filter (j'.keeps ·.severity) := by
      by_cases hw : j'.threshold ≤ w.severity
      · simp [Journal.keeps, hw, hreaches hw]
      · simp [Journal.keeps, hw, List.filter_filter]
    rw [Journal.records_write, hkept', List.filter_append, hnew, List.append_assoc]

/-- If before one journal was the other one under the higher threshold, it still is. -/
theorem Journal.KeepsAbove.eq_raised {low high : Severity} {base : List Record} {j j' : Journal}
    (h : j.KeepsAbove low high base (base.filter (high ≤ ·.severity)) j') : j' = j.raised high := by
  obtain ⟨threshold, records⟩ := j'
  obtain ⟨-, hhigh, kept, hkept, hkept'⟩ := h
  have hhigh : threshold = high := hhigh
  have hkept' : records = _ := hkept'
  rw [raised, hkept, List.filter_append, hhigh, hkept']

/-- Only the journals differ, in what was written below a higher threshold. -/
def Leeway.threshold {low high : Severity} (hle : low ≤ high) (base base' : List Record) : Leeway where
  lookup policy policy' := policy' = policy
  tally t t' := t' = t
  counters c c' := c' = c
  journal := Journal.KeepsAbove low high base base'
  faults _ := True
  lookup_refl _ := rfl
  tally_new := rfl
  tally_plus h _ := by rw [h]
  counters_new := rfl
  counters_count h _ := by rw [h]
  journal_write h w := h.write hle w

section

variable {low high : Severity} {hle : low ≤ high} {base base' : List Record}

theorem Leeway.strict_threshold : (threshold hle base base').Strict := ⟨id, fun _ => trivial⟩

theorem Resource.Like.eq_of_threshold {r r' : Resource} (h : r.Like (.threshold hle base base') r') :
    r' = r := by
  obtain ⟨hlookup, htally⟩ := h
  obtain rfl : _ = r.lookup := hlookup
  obtain rfl : _ = r.tally := htally
  rfl

theorem Store.Like.eq_of_threshold {s s' : Store} (h : s.Like (.threshold hle base base') s') :
    s' = s := by
  obtain ⟨clock, resources, databases⟩ := s
  obtain ⟨clock', resources', databases'⟩ := s'
  obtain rfl : clock' = clock := h.clock_eq
  obtain rfl : resources' = resources := h.resources.eq_of fun hr => hr.eq_of_threshold
  obtain rfl : databases' = databases := h.databases.eq_of fun hd => by
    obtain ⟨hlookup⟩ := hd
    obtain rfl : _ = _ := hlookup
    rfl
  rfl

end

/-- Where only journals differ, answers are the same. -/
theorem Answer.Like.eq_of_threshold {low high : Severity} {hle : low ≤ high} {base base' : List Record}
    {a a' : Answer} (h : a.Like (.threshold hle base base') [] a') : a' = a := by
  cases h with
  | same h => rw [h, a.renumbered_nil]
  | counters h => exact congrArg Answer.counters h
  | resource h => rw [h.eq_of_threshold]

namespace Session

variable {s s' : Session}

/-- A session is like itself under a higher threshold, where nothing was written since. -/
theorem like_raised {high : Severity} (hle : s.journal.threshold ≤ high) :
    s.Like (.threshold hle s.journal.records (s.journal.records.filter (high ≤ ·.severity))) []
      (s.raised high) where
  store := ⟨rfl, .refl fun _ => .mk rfl rfl, .refl fun _ => .mk rfl⟩
  lastId_eq := rfl
  registries := .refl fun _ => ⟨rfl, rfl⟩
  collections_eq := rfl
  resources_eq := rfl
  documents := .refl _
  faults_eq := rfl
  faults := trivial
  journal := ⟨rfl, rfl, [], (List.append_nil _).symm, (List.append_nil _).symm⟩

/-- Sessions that differ in their journals only. -/
theorem Like.eq_of_threshold {low high : Severity} {hle : low ≤ high} {base base' : List Record}
    (h : s.Like (.threshold hle base base') [] s') : s' = { s with journal := s'.journal } := by
  obtain ⟨store, lastId, registries, collections, resources, documents, faults, journal⟩ := s'
  obtain rfl : registries = s.registries := h.registries.eq_of fun {r r'} hr => by
    obtain ⟨settings, counters⟩ := r'
    obtain ⟨rfl, hcounters⟩ := hr
    obtain rfl : counters = r.counters := hcounters
    rfl
  obtain rfl : store = s.store := h.store.eq_of_threshold
  obtain rfl : lastId = s.lastId := h.lastId_eq
  obtain rfl : collections = s.collections := h.collections_eq
  obtain rfl : resources = s.resources := h.resources_eq
  obtain rfl : documents = s.documents := h.documents.eq_of_nil
  obtain rfl : faults = s.faults := h.faults_eq
  rfl

/-- One command under a higher threshold: the answer and what the session holds are the same, and of the
records that are written those below the threshold are not kept. -/
theorem step_raised {high : Severity} (hle : s.journal.threshold ≤ high) (c : Command) :
    step c (s.raised high) = ((step c s).1, (step c s).2.raised high) ∧
      (step c s).2.journal.threshold = s.journal.threshold ∧
      ∃ kept, (step c s).2.journal.records = s.journal.records ++ kept := by
  obtain ⟨ha, hs⟩ := matches_step_of_strict Leeway.strict_threshold c (fun _ _ => List.not_mem_nil)
    s (s.raised high) (like_raised hle)
  rw [c.renumbered_nil] at ha hs
  obtain ⟨hlow, -, kept, hkept, -⟩ := hs.journal
  refine ⟨Prod.ext ?_ ?_, hlow, kept, hkept⟩
  · generalize (step c s).1 = a, (step c (s.raised high)).1 = b at ha
    cases ha with
    | ok h => exact congrArg Except.ok h.eq_of_threshold
    | error e => rfl
  · rw [hs.eq_of_threshold, hs.journal.eq_raised]
    rfl

end Session

/-- **A threshold only filters.** Take two sessions that begin alike, but for the threshold of their
journals, and whatever is asked of them. They give the same answers, and each command writes the same
records, of which the session with the higher threshold keeps those that reach it. In the end they hold
the same, the counts of all registries included, and the one journal is the other one without the records
below the higher threshold. -/
theorem play_raised {low high : Severity} (h : low ≤ high) (clock : Instant) (lastId : Nat)
    (commands : List Command) :
    let played := (Session.begin clock lastId low).play commands
    (Session.begin clock lastId high).play commands =
      (played.1.map fun (answer, records) => (answer, records.filter (high ≤ ·.severity)),
        played.2.raised high) := by
  intro played
  have hplay (s : Session) (hle : s.journal.threshold ≤ high) : (s.raised high).play commands =
      ((s.play commands).1.map fun (answer, records) => (answer, records.filter (high ≤ ·.severity)),
        (s.play commands).2.raised high) := by
    induction commands generalizing s with
    | nil => rfl
    | cons c rest ih =>
      obtain ⟨hstep, hthreshold, kept, hkept⟩ := Session.step_raised hle c
      have hrest := ih (Session.step c s).2 (hthreshold ▸ hle)
      have hdrop : (((Session.step c s).2.raised high).journal.records.drop
            (s.raised high).journal.records.length) =
          ((Session.step c s).2.journal.records.drop s.journal.records.length).filter
            (high ≤ ·.severity) := by
        simp only [Session.raised, Journal.raised, hkept, List.filter_append, List.drop_left]
      simp only [Session.play, hstep, hrest, hdrop, List.map_cons]
  exact hplay (Session.begin clock lastId low) h

/-- A document that is made twice under one name: of what a session writes, the records of the refusal are
errors. -/
theorem play_raised_to_error :
    let commands : List Command :=
      [.session (.addDatabase "log" .floor), .session (.openCollection 0 0 "log"),
        .collection 0 (.addAs "log" []), .collection 0 (.addAs "log" [])]
    let played := (Session.begin (.second 10) 0 .info).play commands
    Severity.info ≤ .error ∧
      (Session.begin (.second 10) 0 .error).play commands =
        (played.1.map fun (answer, records) => (answer, records.filter (.error ≤ ·.severity)),
          played.2.raised .error) ∧
      (played.2.raised .error).journal.records.map (·.event) =
        ["INGEST_FAILED", "DOCUMENT_INGESTION_FAILED"] := by
  intro commands played
  exact ⟨by decide, play_raised (by decide) (.second 10) 0 commands, by decide +kernel⟩

end AsOf
