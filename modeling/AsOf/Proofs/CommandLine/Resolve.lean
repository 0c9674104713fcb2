import AsOf.Proofs.CommandLine.Opening

/-!
# What resolving answers and finds

Resolving answers from the history file alone, with one line or a refusal.

## Main definitions

* `ListedResource.foundLine`: the line that describes a revision of a resource
* `ListedResource.answerAsOf`: the answer as of a time
* `HistoryFile.Designates`: the resource that an optional name stands for
* `HistoryFile.Finds`: an answer finds no revision, or a listed one

## Main results

* `resolve_answers_file`: what the command answers
* `exists_answers_resolveLines`: resolving has an answer, which finds no revision or a listed one
-/

namespace AsOf

/-! ## What resolving answers

Resolving answers from the history file alone: as of a time it counts the listed revisions up to that
time, and otherwise it takes the number that it was given. How the store looks times up, and whether the
document is to be changed, is of no account to the revision that is found, although four different ways
lead to it. -/

section Resolve

open Observed

/-- The line that describes the revision with a number. -/
def ListedResource.foundLine (l : ListedResource) (n : Nat) (updatable : Bool) : Json :=
  .record [("collection", .ofNat 1), ("resource", .ofString l.name), ("revision", .ofNat n),
    ("timestamp", .ofString ((l.timeOf n).rfc3339 .seconds)), ("updatable", .bool updatable)]

/-- The answer as of a time: nothing before the creation, and otherwise the last revision that does not
lie behind the time. -/
def ListedResource.answerAsOf (l : ListedResource) (time : Instant) (updatable : Bool) : Json :=
  if time < l.created then .null else l.foundLine (l.asOf time) updatable

/-- The name, or that there is none where only one resource is listed, stands for the resource. -/
def HistoryFile.Designates (f : HistoryFile) (name : Option String) (l : ListedResource) : Prop :=
  l ∈ f.resources ∧ (name = some l.name ∨ name = none ∧ f.resources = [l])

variable {files : FileReader} {f : HistoryFile} {s s' : Store} {l : ListedResource}
  {source : HistorySource} {settings : CollectionSettings} {lookup : LookupPolicy}
  {name : Option String}

/-- The line of a document that shows a listed revision. -/
theorem documentLine_eq {lease : Lease} {place n : Nat} {r : Resource} {updatable : Bool}
    (hr : s.resource? place = some r) (hnumber : (lease.base r).number.val = n)
    (htime : (lease.base r).time = l.timeOf n) (hflag : lease.isUpdatable = updatable) :
    documentLine s ⟨1, l.name, place, lease⟩ = l.foundLine n updatable := by
  have hbase : Document.base s ⟨1, l.name, place, lease⟩ = lease.base r := by
    simp only [Document.base, hr]
  simp only [documentLine, hbase, hnumber, RevisionStamp.timeJson, htime, Document.isUpdatable, hflag,
    ListedResource.foundLine]

/-! ### The only name -/

theorem names_of_sole (hs : s.IsReplayOf f lookup) (hsole : f.resources = [l]) :
    s.names HistoryFile.database = [l.name] := by
  rw [hs.names_eq, HistoryFile.names, hsole]
  rfl

theorem yields_nameForTime (hs : s.IsReplayOf f lookup) (hsole : f.resources = [l]) :
    Yields (nameForTime (source.collection settings)) s (.ok l.name) s := by
  refine (yields_current s).bind ?_
  rw [show s.names (source.collection settings).database = _ from names_of_sole hs hsole]
  exact yields_pure s l.name

theorem yields_soleName (hs : s.IsReplayOf f lookup) (hsole : f.resources = [l]) :
    Yields (source.collection settings).soleName s (.ok l.name) s := by
  refine (yields_current s).bind ?_
  rw [show s.names (source.collection settings).database = _ from names_of_sole hs hsole]
  exact yields_pure s l.name

/-! ### The document -/

/-- A document as of a time is found by the name that is designated. -/
theorem yields_documentAsOf (hs : s.IsReplayOf f lookup) (hl : f.Designates name l) {time : Instant}
    {access : Access} {a : Except CollectionError (Option Document)}
    (h : Yields ((source.collection settings).namedAsOf .none l.name time access) s a s') :
    Yields (documentAsOf (source.collection settings) name time access) s
      (a.mapError CommandError.document) s' := by
  have hnamed := h.mapError CommandError.document
  rcases hl.2 with rfl | ⟨rfl, hsole⟩
  · exact (yields_pure s l.name).bind hnamed
  · exact (yields_nameForTime hs hsole).bind hnamed

/-- An integer that is read as a choice of a revision leads on to the document. -/
theorem yields_documentAtRevision_of_read {c : Collection} {revision : Option Int}
    {choice : RevisionChoice} {access : Access} {a : Except CommandError Document}
    (hread : RevisionChoice.read (revision.getD (-1)) = .ok choice)
    (h : Yields (match name with
      | some name => orEnd (c.namedRevision .none name choice access)
      | none => orEnd (c.atRevision .none choice access)) s a s') :
    Yields (documentAtRevision c name revision access) s a s' := by
  have hchoice := yields_orEnd_ofExcept (RevisionChoice.read (revision.getD (-1))) s
  rw [hread] at hchoice
  rw [documentAtRevision, hread]
  exact Yields.bind (a := choice) hchoice h

/-- A document as of a revision is found by the name that is designated. -/
theorem yields_documentAtRevision (hs : s.IsReplayOf f lookup) (hl : f.Designates name l)
    {revision : Option Int} {choice : RevisionChoice} {access : Access}
    {a : Except CollectionError Document}
    (hread : RevisionChoice.read (revision.getD (-1)) = .ok choice)
    (h : Yields ((source.collection settings).namedRevision .none l.name choice access) s a s') :
    Yields (documentAtRevision (source.collection settings) name revision access) s
      (a.mapError CommandError.document) s' := by
  refine yields_documentAtRevision_of_read hread ?_
  rcases hl.2 with rfl | ⟨rfl, hsole⟩
  · exact h.mapError CommandError.document
  · exact ((yields_soleName hs hsole).bind h).mapError CommandError.document

/-- The answer as of a time. -/
theorem answers_resolveLines_asOf (hreplay : f.replay lookup = .ok s) (hl : f.Designates name l)
    (time : Instant) (revision : Option Int) (updatable : Bool) :
    Answers (resolveLines (source.collection settings) name (some time) revision
      (.ofUpdatable updatable)) s (.ok [l.answerAsOf time updatable]) := by
  have hs := HistoryFile.isReplayOf_of_replay hreplay
  obtain ⟨place, hplace⟩ := List.getElem?_of_mem hl.1
  have hlocate := HistoryFile.locate_of_replay hreplay hplace
  obtain ⟨r, hr, hrl⟩ := hs.resources hplace
  obtain ⟨found, r', counted, written, hdoes, hnone, hsome⟩ :=
    hrl.sound.does_snapshotAsOf_of_idle hrl.running time (.ofUpdatable updatable)
  have hdocument := yields_documentAsOf hs hl <|
    Collection.yields_namedAsOf (c := source.collection settings) hlocate hr hdoes.yields
  cases found with
  | none =>
    have hlt : time < l.created := hrl.startsAfter_iff.mp (hnone.mp rfl)
    rw [ListedResource.answerAsOf, if_pos hlt]
    exact hdocument.bind_answers (yields_pure _ _).answers
  | some lease =>
    obtain ⟨haccess, tree, floor⟩ := hsome rfl
    obtain ⟨hnumber, htime⟩ := hrl.eq_of_isFloor floor
    have hnot : ¬time < l.created := fun hlt => nomatch hnone.mpr (hrl.startsAfter_iff.mpr hlt)
    have hr' : (s.setResource place r').resource? place = some r' :=
      (Store.resource?_setResource hr r' place).trans (if_pos rfl)
    have hline := documentLine_eq hr' hnumber htime (Lease.isUpdatable_of_access haccess)
    rw [ListedResource.answerAsOf, if_neg hnot, ← hline]
    exact hdocument.bind_answers (yields_describeFound _ _).answers

/-- The answer for a revision. -/
theorem answers_resolveLines_revision (hreplay : f.replay lookup = .ok s)
    (hl : f.Designates name l) {revision : Option Int} {n : Nat}
    (hn : l.Asks (revision.getD (-1)) n) (updatable : Bool) :
    Answers (resolveLines (source.collection settings) name none revision
      (.ofUpdatable updatable)) s (.ok [l.foundLine n updatable]) := by
  have hs := HistoryFile.isReplayOf_of_replay hreplay
  obtain ⟨place, hplace⟩ := List.getElem?_of_mem hl.1
  have hlocate := HistoryFile.locate_of_replay hreplay hplace
  obtain ⟨r, hr, hrl⟩ := hs.resources hplace
  obtain ⟨choice, hread, hresolve⟩ := hn.read
  have hnumber := hresolve r.mostRecent hrl.val_mostRecent
  have hrevision : r.history.revision? (choice.resolve r.mostRecent) = some (_, _) :=
    hrl.revision?_eq_some_iff.mpr ⟨hnumber ▸ hn.le, rfl, rfl⟩
  obtain ⟨lease, r', counted, written, hdoes, haccess, hbase⟩ :=
    hrl.sound.does_snapshotOf_of_idle hrl.running (.ofUpdatable updatable) hrevision
  have hdocument := yields_documentAtRevision hs hl hread <|
    Collection.yields_namedRevision (c := source.collection settings) hlocate hr hdoes.yields
  have hr' : (s.setResource place r').resource? place = some r' :=
    (Store.resource?_setResource hr r' place).trans (if_pos rfl)
  have htime : (lease.base r').time = l.timeOf n := by rw [hbase, hnumber]
  have hline := documentLine_eq hr' ((congrArg (·.number.val) hbase).trans hnumber) htime
    (Lease.isUpdatable_of_access haccess)
  rw [← hline]
  exact hdocument.bind_answers (yields_describeFound _ _).answers

/-- As of a time the command answers for the resource that is designated. -/
theorem Invocation.run_resolve_asOf {config : Option String} {conf : Configuration} {path : String}
    {time : Instant} {revision : Option Int} {updatable : Bool}
    (hconf : Invocation.configuration files
      ⟨config, .resolve ⟨path, lookup⟩ name (some time) revision updatable⟩ = .ok conf)
    (hcontent : HistorySource.content files ⟨path, lookup⟩ = .ok f)
    (hbuilds : ∃ lookup s, f.replay lookup = .ok s) (hl : f.Designates name l) :
    (Invocation.run files ⟨config, .resolve ⟨path, lookup⟩ name (some time) revision updatable⟩).1 =
      .ok [l.answerAsOf time updatable] := by
  obtain ⟨s, hreplay, hopen⟩ := HistorySource.exists_yields_openCollection hcontent hbuilds
  exact Invocation.run_eq hconf <|
    (hopen _).bind_answers (answers_resolveLines_asOf hreplay hl time revision updatable)

/-- **Resolving answers from the history file.** Take any history file that can be replayed, any
resource in it, by its name or as the only one, and any settings. As of a time before its creation there
is no revision. As of every other time the answer is the revision whose number is one more than the
number of listed revisions up to that time, and for a revision that was asked for it is that one. The
answer has the access that was asked for, and is otherwise the same for both policies of the store and
for both kinds of access. -/
theorem resolve_answers_file {config : Option String} {conf : Configuration} {path : String}
    (hconf : ∀ request, Invocation.configuration files ⟨config, request⟩ = .ok conf)
    (hcontent : ∀ lookup, HistorySource.content files ⟨path, lookup⟩ = .ok f)
    (hbuilds : ∃ lookup s, f.replay lookup = .ok s) (hl : f.Designates name l) :
    (∀ time lookup revision updatable,
      (Invocation.run files
        ⟨config, .resolve ⟨path, lookup⟩ name (some time) revision updatable⟩).1 =
          .ok [if time < l.created then .null else l.foundLine (l.asOf time) updatable]) ∧
      ∀ revision n lookup updatable, l.Asks (Option.getD revision (-1)) n →
        (Invocation.run files
          ⟨config, .resolve ⟨path, lookup⟩ name none revision updatable⟩).1 =
            .ok [l.foundLine n updatable] := by
  refine ⟨fun time lookup revision updatable => ?_, fun revision n lookup updatable hn => ?_⟩
  · exact Invocation.run_resolve_asOf (hconf _) (hcontent lookup) hbuilds hl
  · obtain ⟨s, hreplay, hopen⟩ :=
      HistorySource.exists_yields_openCollection (hcontent lookup) hbuilds
    exact Invocation.run_eq (hconf _) <|
      (hopen _).bind_answers (answers_resolveLines_revision hreplay hl hn updatable)

/-- The second revision of the small file is the one as of a time before the third, and the third is the
latest. -/
theorem resolve_answers_small :
    HistoryFile.small.Designates (some "doc") .small ∧
      (Invocation.run .small ⟨none, .resolve ⟨"h.json", .nearest⟩ (some "doc")
        (some (.second 29)) none true⟩).1 = .ok [ListedResource.foundLine .small 2 true] ∧
      (Invocation.run .small ⟨none, .resolve ⟨"h.json", .floor⟩ (some "doc")
        none (some (-1)) false⟩).1 = .ok [ListedResource.foundLine .small 3 false] := by
  have hl : HistoryFile.small.Designates (some "doc") .small :=
    ⟨List.mem_singleton_self _, .inl rfl⟩
  obtain ⟨s, hs, -⟩ := HistoryFile.consistent_small.replay .floor
  have hconf (request : Request) :
      Invocation.configuration .small ⟨none, request⟩ = .ok ({} : Configuration) := rfl
  obtain ⟨hasOf, hrevision⟩ := resolve_answers_file hconf
    (fun lookup => HistorySource.content_small ⟨"h.json", lookup⟩) ⟨.floor, s, hs⟩ hl
  exact ⟨hl, hasOf (.second 29) .nearest none true,
    hrevision (some (-1)) 3 .floor false (.inl ⟨rfl, rfl⟩)⟩

end Resolve

/-! ## What resolving can find

Whatever is asked for, resolving answers with one line, which says that there is no revision or describes
one that is listed; or it is refused. In particular a number that no revision has is refused for reading,
while a document that is to be changed shows a sealed revision all the same. -/

section Found

open Observed

/-- The answer is an error, says that there is no revision, or describes a listed one. -/
def HistoryFile.Finds (f : HistoryFile) (updatable : Bool)
    (a : Except CommandError (List Json)) : Prop :=
  ∀ lines, a = .ok lines → lines = [.null] ∨ ∃ l ∈ f.resources, ∃ n, 1 ≤ n ∧
    n ≤ l.revisions.length + 1 ∧ lines = [l.foundLine n updatable]

variable {f : HistoryFile} {s : Store} {l : ListedResource} {source : HistorySource}
  {settings : CollectionSettings} {lookup : LookupPolicy} {name : Option String}

theorem HistoryFile.finds_error (f : HistoryFile) (updatable : Bool) (e : CommandError) :
    f.Finds updatable (.error e) :=
  fun _ h => nomatch h

theorem HistoryFile.finds_answerAsOf (hl : l ∈ f.resources) (time : Instant) (updatable : Bool) :
    f.Finds updatable (.ok [l.answerAsOf time updatable]) := by
  intro lines hlines
  obtain rfl := Except.ok.inj hlines
  unfold ListedResource.answerAsOf
  split
  · exact .inl rfl
  · exact .inr ⟨l, hl, l.asOf time, Nat.le_add_right 1 _, l.asOf_le time, rfl⟩

/-! ### Refusals -/

theorem HistoryFile.names_ne_singleton (h : ¬∃ l, f.Designates none l) (name : String) :
    f.names ≠ [name] := by
  intro hname
  obtain ⟨l, hl, -⟩ := List.map_eq_singleton_iff.mp hname
  exact h ⟨l, hl ▸ List.mem_singleton_self l, .inr ⟨rfl, hl⟩⟩

theorem HistoryFile.not_mem_names {name : String} (h : ¬∃ l, f.Designates (some name) l) :
    name ∉ f.names := by
  intro hname
  obtain ⟨l, hl, rfl⟩ := List.mem_map.mp hname
  exact h ⟨l, hl, .inl rfl⟩

/-- What is refused in the state that was read is refused. -/
theorem exists_yields_current_error {ε α : Type} {k : Store → Action (Observed Store) ε α}
    (h : ∃ e, Yields (k s) s (.error e) s) : ∃ e, Yields (current >>= k) s (.error e) s :=
  h.imp fun _ he => (yields_current s).bind he

/-- Without a name there has to be exactly one resource. -/
theorem exists_yields_nameForTime_error (hs : s.IsReplayOf f lookup)
    (h : ¬∃ l, f.Designates none l) :
    ∃ e, Yields (nameForTime (source.collection settings)) s (.error e) s := by
  refine exists_yields_current_error ?_
  split
  · next name hname =>
    exact absurd (hs.names_eq.symm.trans hname) (HistoryFile.names_ne_singleton h name)
  · exact ⟨_, yields_fail s _⟩

theorem exists_yields_soleName_error (hs : s.IsReplayOf f lookup)
    (h : ¬∃ l, f.Designates none l) :
    ∃ e, Yields (source.collection settings).soleName s (.error e) s := by
  refine exists_yields_current_error ?_
  split
  · exact ⟨_, yields_fail s _⟩
  · next name hname =>
    exact absurd (hs.names_eq.symm.trans hname) (HistoryFile.names_ne_singleton h name)
  · exact ⟨_, (yields_report s _ _).bind (yields_fail s _)⟩

/-- As of a time there is no document without a resource. -/
theorem exists_yields_documentAsOf_error (hs : s.IsReplayOf f lookup)
    (h : ¬∃ l, f.Designates name l) (time : Instant) (access : Access) :
    ∃ e, Yields (documentAsOf (source.collection settings) name time access) s (.error e) s := by
  cases name with
  | none =>
    obtain ⟨e, he⟩ := exists_yields_nameForTime_error hs h
    exact ⟨e, he.bind_error⟩
  | some name =>
    have hlocate : s.locate (source.collection settings).database name = _ :=
      HistoryFile.locate_of_not_mem hs (HistoryFile.not_mem_names h)
    have hnamed : Yields ((source.collection settings).namedAsOf .none name time access) s _ s :=
      Collection.yields_namedAsOf_of_locate hlocate
    exact ⟨_, (yields_pure s name).bind (hnamed.mapError CommandError.document)⟩

/-- An integer that is not read as a choice of a revision leads to no document. -/
theorem yields_documentAtRevision_of_read_error (s : Store) (c : Collection) (name : Option String)
    {revision : Option Int} (access : Access) {e : CollectionError}
    (hread : RevisionChoice.read (revision.getD (-1)) = .error e) :
    Yields (documentAtRevision c name revision access) s (.error (.document e)) s := by
  have hchoice := yields_orEnd_ofExcept (RevisionChoice.read (revision.getD (-1))) s
  rw [hread] at hchoice
  rw [documentAtRevision, hread]
  exact Yields.bind_error (e := CommandError.document e) hchoice

/-- As of a revision there is no document without a resource. -/
theorem exists_yields_documentAtRevision_error (hs : s.IsReplayOf f lookup)
    (h : ¬∃ l, f.Designates name l) (revision : Option Int) (access : Access) :
    ∃ e, Yields (documentAtRevision (source.collection settings) name revision access) s (.error e)
      s := by
  cases hread : RevisionChoice.read (revision.getD (-1)) with
  | error e => exact ⟨_, yields_documentAtRevision_of_read_error s _ name access hread⟩
  | ok choice =>
    cases name with
    | none =>
      obtain ⟨e, he⟩ := exists_yields_soleName_error hs h
      have hsole : Yields (orEnd ((source.collection settings).atRevision .none choice access)) s _ s :=
        Yields.mapError (a := .error e) he.bind_error CommandError.document
      exact ⟨_, yields_documentAtRevision_of_read hread hsole⟩
    | some name =>
      have hlocate : s.locate (source.collection settings).database name = _ :=
        HistoryFile.locate_of_not_mem hs (HistoryFile.not_mem_names h)
      have hnamed : Yields ((source.collection settings).namedRevision .none name choice access) s _
          s := Collection.yields_namedRevision_of_locate hlocate
      exact ⟨_, yields_documentAtRevision_of_read hread (hnamed.mapError CommandError.document)⟩

/-! ### All answers -/

/-- What is found of a designated resource is a listed revision. -/
theorem exists_answers_designated (hreplay : f.replay lookup = .ok s) (hl : f.Designates name l)
    (revision : Option Int) (updatable : Bool) :
    ∃ a, Answers (resolveLines (source.collection settings) name none revision
      (.ofUpdatable updatable)) s a ∧ f.Finds updatable a := by
  have hs := HistoryFile.isReplayOf_of_replay hreplay
  cases hread : RevisionChoice.read (revision.getD (-1)) with
  | error e =>
    have hdocument := yields_documentAtRevision_of_read_error s (source.collection settings) name
      (.ofUpdatable updatable) hread
    exact ⟨_, (Yields.bind_error hdocument).answers, f.finds_error updatable _⟩
  | ok choice =>
    obtain ⟨place, hplace⟩ := List.getElem?_of_mem hl.1
    have hlocate := HistoryFile.locate_of_replay hreplay hplace
    obtain ⟨r, hr, hrl⟩ := hs.resources hplace
    obtain ⟨found, r', counted, written, hdoes, hsealed⟩ :=
      hrl.sound.exists_revision?_of_snapshotOf hrl.running choice (.ofUpdatable updatable)
    cases found with
    | error e =>
      have hdocument := yields_documentAtRevision hs hl hread <|
        Collection.yields_namedRevision_of_error (c := source.collection settings) hlocate hr
          hdoes.yields
      exact ⟨_, (Yields.bind_error hdocument).answers, f.finds_error updatable _⟩
    | ok lease =>
      have hdocument := yields_documentAtRevision hs hl hread <|
        Collection.yields_namedRevision (c := source.collection settings) hlocate hr hdoes.yields
      refine ⟨_, hdocument.bind_answers (yields_describeFound _ _).answers, ?_⟩
      obtain ⟨haccess, n, tree, hn⟩ := hsealed rfl
      obtain ⟨hle, hbase, -⟩ := hrl.revision?_eq_some_iff.mp hn
      have hr' : (s.setResource place r').resource? place = some r' :=
        (Store.resource?_setResource hr r' place).trans (if_pos rfl)
      have hline := documentLine_eq hr' (congrArg (·.number.val) hbase) (congrArg (·.time) hbase)
        (Lease.isUpdatable_of_access haccess)
      intro lines hlines
      obtain rfl := Except.ok.inj hlines
      exact .inr ⟨l, hl.1, n.val, n.pos, hle, congrArg (fun line => [line]) hline⟩

/-- As of a revision the command answers with a listed one, if at all. -/
theorem exists_answers_revision (hreplay : f.replay lookup = .ok s) (name : Option String)
    (revision : Option Int) (updatable : Bool) :
    ∃ a, Answers (resolveLines (source.collection settings) name none revision
      (.ofUpdatable updatable)) s a ∧ f.Finds updatable a := by
  have hs := HistoryFile.isReplayOf_of_replay hreplay
  by_cases hl : ∃ l, f.Designates name l
  · obtain ⟨l, hl⟩ := hl
    exact exists_answers_designated hreplay hl revision updatable
  · obtain ⟨e, he⟩ := exists_yields_documentAtRevision_error hs hl revision (.ofUpdatable updatable)
    exact ⟨_, (Yields.bind_error he).answers, f.finds_error updatable e⟩

/-- Resolving has an answer, which finds no revision or a listed one. -/
theorem exists_answers_resolveLines (source : HistorySource) (settings : CollectionSettings)
    (hreplay : f.replay lookup = .ok s) (name : Option String) (time : Option Instant)
    (revision : Option Int) (updatable : Bool) :
    ∃ a, Answers (resolveLines (source.collection settings) name time revision
      (.ofUpdatable updatable)) s a ∧ f.Finds updatable a := by
  cases time with
  | none => exact exists_answers_revision hreplay name revision updatable
  | some time =>
    by_cases hl : ∃ l, f.Designates name l
    · obtain ⟨l, hl⟩ := hl
      exact ⟨_, answers_resolveLines_asOf hreplay hl time revision updatable,
        HistoryFile.finds_answerAsOf hl.1 time updatable⟩
    · obtain ⟨e, he⟩ := exists_yields_documentAsOf_error (HistoryFile.isReplayOf_of_replay hreplay) hl
        time (.ofUpdatable updatable)
      exact ⟨_, (Yields.bind_error he).answers, f.finds_error updatable e⟩

end Found

end AsOf
