import AsOf.Proofs.Collection.Keep
import AsOf.Proofs.CommandLine.Opening
import AsOf.Proofs.Document.Draining
import AsOf.Proofs.Session.Cursor
import AsOf.Proofs.Store.Account

/-!
# What scanning answers

Scanning answers from the history file alone: the document root has the key zero, and the other nodes
have the keys that count on in the order in which they are listed. So a key names a node of a revision
exactly if it is not greater than the number of nodes that are listed up to it.

## Main definitions

* `ListedResource.nodesAt`, `ListedResource.itemLine`: the nodes of a revision, and the line of one
* `ListedResource.HasAll`: all keys of groups name nodes of a revision

## Main results

* `scan_tells_file`: when the command answers, and what
-/

namespace AsOf

open Observed

namespace ListedResource

/-- The nodes of the revision with a number, behind the document root. -/
def nodesAt (l : ListedResource) (n : Nat) : List NodeKind := (l.upTo (n - 1)).nodes

/-- The line of the node with a key in the revision with a number. -/
def itemLine (l : ListedResource) (n key : Nat) : Json :=
  .record [("collection", .ofNat 1),
    ("kind", ((NodeKind.documentRoot :: l.nodesAt n).getD key .documentRoot).json),
    ("node_key", .ofNat key), ("revision", .ofNat n)]

/-- All keys of the groups name nodes of the revision with a number. -/
def HasAll (l : ListedResource) (n : Nat) (groups : List KeySet) : Prop :=
  ∀ group ∈ groups, ∀ key ∈ group.keys, key ≤ (l.nodesAt n).length

end ListedResource

variable {files : FileReader} {f : HistoryFile} {s : Store} {l : ListedResource}
  {source : HistorySource} {settings : CollectionSettings} {lookup : LookupPolicy} {name : String}
  {raw : Int} {n : Nat} {groups : List KeySet}

/-! ## Items of a revision -/

/-- The read transaction on the revision with a number. -/
def ListedResource.reader (l : ListedResource) (n : RevisionNumber) : Transaction :=
  { base := ⟨n, l.timeOf n.val⟩, tree := .flat (l.nodesAt n.val) }

/-- The items of keys that all name nodes. -/
theorem ListedResource.HasAll.exists_items {n : RevisionNumber} (h : l.HasAll n.val groups) :
    ∃ items, (groups.map (·.keys)).flatten.mapM ((l.reader n).itemAt 1) = .ok items ∧
      items.map Item.json = groups.flatMap fun group => group.keys.map (l.itemLine n.val) := by
  have hitems : (groups.map (·.keys)).flatten.mapM ((l.reader n).itemAt 1) = .ok _ :=
    mapM_eq_ok fun key hkey => by
      obtain ⟨keys, hkeys, hkey⟩ := List.mem_flatten.mp hkey
      obtain ⟨group, hgroup, rfl⟩ := List.mem_map.mp hkeys
      exact Transaction.itemAt_flat (h group hgroup key hkey) 1
  refine ⟨_, hitems, ?_⟩
  rw [List.map_map, List.map_flatten, List.map_map, ← List.flatMap_def]
  rfl

/-- A key that names no node stands in the way. -/
theorem exists_mapM_itemAt_eq_error {n : RevisionNumber} (h : ¬l.HasAll n.val groups) :
    ∃ e, (groups.map (·.keys)).flatten.mapM ((l.reader n).itemAt 1) = .error e := by
  simp only [ListedResource.HasAll, not_forall, Nat.not_le] at h
  obtain ⟨group, hgroup, key, hkey, hlt⟩ := h
  exact exists_mapM_eq_error (List.mem_flatten.mpr ⟨_, List.mem_map_of_mem hgroup, hkey⟩)
    (Transaction.itemAt_flat_error hlt 1)

/-! ## The document -/

/-- The lines of the items in a document, which is given up. -/
def itemLines (d : Document) (groups : List KeySet) : CommandStep (List Json) := do
  let (items, d) ← scanItems d groups
  releaseDocument d
  match items with
  | .ok items => return items.map Item.json
  | .error e => Action.fail (.ofStore e)

theorem scanLines_eq (c : Collection) (name : String) (raw : Int) (groups : List KeySet) :
    scanLines c name raw groups = (do
      let revision ← orEnd (Action.ofExcept (RevisionChoice.read raw))
      let d ← orEnd (c.namedRevision .none name revision .readOnly)
      itemLines d groups) :=
  rfl

/-- The lines are those of the items in its transaction. -/
theorem answers_itemLines (d : Document) (groups : List KeySet) (s : Store) :
    Answers (itemLines d groups) s
      ((((groups.map (·.keys)).flatten.mapM ((d.transaction s).itemAt d.collection)).mapError
        CommandError.ofStore).map (·.map Item.json)) := by
  intro c j
  have hitems := d.fst_items (groups.map (·.keys)) ⟨s, c, j⟩
  rw [List.map_map] at hitems
  rw [← hitems]
  rcases h : d.items (groups.map (some ∘ (·.keys))) ⟨s, c, j⟩ with ⟨⟨result, d'⟩, o⟩
  have hscan : scanItems d groups ⟨s, c, j⟩ = (.ok (result, d'), o) := by
    unfold scanItems
    rw [show d.items (groups.map fun group => some group.keys) ⟨s, c, j⟩ = _ from h]
  rw [itemLines, Action.bind_run_ok hscan, h]
  cases result <;> rfl

/-- The answer for a revision of a listed resource. -/
theorem answers_scanLines (hreplay : f.replay lookup = .ok s) (hl : l ∈ f.resources)
    {n : RevisionNumber} (hn : l.Asks raw n.val) (groups : List KeySet) :
    Answers (scanLines (source.collection settings) l.name raw groups) s
      ((((groups.map (·.keys)).flatten.mapM ((l.reader n).itemAt 1)).mapError
        CommandError.ofStore).map (·.map Item.json)) := by
  obtain ⟨place, hplace⟩ := List.getElem?_of_mem hl
  have hlocate := HistoryFile.locate_of_replay hreplay hplace
  obtain ⟨r, hr, hrl⟩ := (HistoryFile.isReplayOf_of_replay hreplay).resources hplace
  obtain ⟨choice, hread, hresolve⟩ := hn.read
  have hnumber : choice.resolve r.mostRecent = n :=
    RevisionNumber.ext (hresolve r.mostRecent hrl.val_mostRecent)
  have hrevision : r.history.revision? (choice.resolve r.mostRecent) =
      some ((l.reader n).base, (l.reader n).tree) :=
    hrl.revision?_eq_some_iff.mpr (by rw [hnumber]; exact ⟨hn.le, rfl, rfl⟩)
  obtain ⟨counted, written, hdoes⟩ := Resource.does_snapshotOf_readOnly hrevision
  have hchoice := yields_orEnd_ofExcept (RevisionChoice.read raw) s
  rw [hread] at hchoice
  have hnamed :=
    Collection.yields_namedRevision (c := source.collection settings) hlocate hr hdoes.yields
  have hnamed := Yields.mapError (a := .ok _) hnamed CommandError.document
  rw [scanLines_eq, hread]
  exact Yields.bind_answers (a := choice) hchoice
    (hnamed.bind_answers (answers_itemLines _ groups _))

theorem answers_scanLines_of_hasAll (hreplay : f.replay lookup = .ok s) (hl : l ∈ f.resources)
    (hn : l.Asks raw n) (hkeys : l.HasAll n groups) :
    Answers (scanLines (source.collection settings) l.name raw groups) s
      (.ok (groups.flatMap fun group => group.keys.map (l.itemLine n))) := by
  obtain ⟨items, hitems, hlines⟩ :=
    ListedResource.HasAll.exists_items (n := ⟨n, hn.pos⟩) hkeys
  have hanswer : Answers (scanLines (source.collection settings) l.name raw groups) s _ :=
    answers_scanLines (n := ⟨n, hn.pos⟩) hreplay hl hn groups
  rw [hitems] at hanswer
  exact hlines ▸ hanswer

theorem exists_answers_scanLines_of_not_hasAll (hreplay : f.replay lookup = .ok s)
    (hl : l ∈ f.resources) (hn : l.Asks raw n) (hkeys : ¬l.HasAll n groups) :
    ∃ e, Answers (scanLines (source.collection settings) l.name raw groups) s (.error e) := by
  obtain ⟨e, he⟩ := exists_mapM_itemAt_eq_error (n := ⟨n, hn.pos⟩) hkeys
  have hanswer : Answers (scanLines (source.collection settings) l.name raw groups) s _ :=
    answers_scanLines (n := ⟨n, hn.pos⟩) hreplay hl hn groups
  rw [he] at hanswer
  exact ⟨.ofStore e, hanswer⟩

/-- An integer that stands for no revision, a name that is not listed and a number that no revision of
the resource has are refused. -/
theorem exists_answers_scanLines_error (hreplay : f.replay lookup = .ok s)
    (h : ¬∃ l ∈ f.resources, l.name = name ∧ ∃ n, l.Asks raw n) (groups : List KeySet) :
    ∃ e, Answers (scanLines (source.collection settings) name raw groups) s (.error e) := by
  rw [scanLines_eq]
  cases hread : RevisionChoice.read raw with
  | error e =>
    exact ⟨_, (Yields.bind_error (e := .document e) (yields_orEnd_ofExcept (.error e) s)).answers⟩
  | ok choice =>
    have hchoice : Yields _ s (.ok choice) s := yields_orEnd_ofExcept (.ok choice) s
    suffices hnamed : ∃ e s', Yields ((source.collection settings).namedRevision .none name choice
        .readOnly) s (.error e) s' by
      obtain ⟨e, s', hnamed⟩ := hnamed
      have hnamed := Yields.mapError (a := .error e) hnamed CommandError.document
      exact ⟨_, (hchoice.bind (Yields.bind_error hnamed)).answers⟩
    have hs := HistoryFile.isReplayOf_of_replay hreplay
    -- A listed resource has no revision with the number, or else the integer would ask for it.
    by_cases hname : name ∈ f.names
    · obtain ⟨l, hl, rfl⟩ := List.mem_map.mp hname
      obtain ⟨place, hplace⟩ := List.getElem?_of_mem hl
      obtain ⟨r, hr, hrl⟩ := hs.resources hplace
      have hrevision : r.history.revision? (choice.resolve r.mostRecent) = none := by
        refine Option.eq_none_iff_forall_ne_some.mpr fun entry hentry => h ?_
        have hle := hrl.sound.history.exists_revision?_iff.mp ⟨_, _, hentry⟩
        exact ⟨l, hl, rfl, _, ListedResource.asks_of_read hread hrl.val_mostRecent hle⟩
      obtain ⟨written, hdoes⟩ := Resource.does_snapshotOf_readOnly_error hrevision
      exact ⟨_, _, Collection.yields_namedRevision_of_error (c := source.collection settings)
        (HistoryFile.locate_of_replay hreplay hplace) hr hdoes.yields⟩
    · exact ⟨_, _, Collection.yields_namedRevision_of_locate (c := source.collection settings)
        (HistoryFile.locate_of_not_mem hs hname)⟩

/-! ## Read transactions -/

/-- Nobody has read what was replayed. -/
theorem Store.IsReplayOf.accounts (h : s.IsReplayOf f lookup) : s.Accounts Resource.Counts [] := by
  refine ⟨fun {place r} hr => ?_, nofun⟩
  have hlt := (Array.getElem?_eq_some_iff.mp hr).1
  rw [h.size_resources] at hlt
  obtain ⟨u, hu, hul⟩ := h.resources (List.getElem?_eq_getElem hlt)
  obtain rfl := Option.some.inj (hr.symm.trans hu)
  rw [Resource.Counts, Resource.Balanced, hul.tally]
  rfl

section Account

variable {R : List Lease → Resource → Prop} (hR : Resource.Account R)
include hR

/-- Passing through groups of keys gives the same read transaction back. -/
theorem accounts_scanItems {hs : List Hold} (d : Document) (groups : List KeySet) :
    Ensures (Store.Accounts R (d.hold :: hs)) (scanItems d groups)
      (fun p => Store.Accounts R (p.2.hold :: hs)) (Store.Accounts R hs) := by
  intro o ha
  let pairs := groups.map fun group => some group.keys
  let stream : Observed ItemStream :=
    ⟨.new d.collection pairs (d.transaction o.state), o.counters, o.journal⟩
  have hvisits : (d.transaction o.state).Visits (ItemStream.drain stream).2.state.cursor :=
    ItemStream.visits_drain stream .stay
  exact Store.Accounts.put hR ha hvisits

theorem accounts_itemLines {hs : List Hold} (d : Document) (groups : List KeySet) :
    Ensures (Store.Accounts R (d.hold :: hs)) (itemLines d groups) (fun _ => Store.Accounts R hs)
      (Store.Accounts R hs) := by
  refine (accounts_scanItems hR d groups).bind fun p => ?_
  have hrelease : Ensures (Store.Accounts R (p.2.hold :: hs)) (releaseDocument p.2)
      (fun _ => Store.Accounts R hs) (Store.Accounts R hs) := fun o ha => Store.Accounts.release hR ha
  refine hrelease.bind fun _ => ?_
  cases p.1 with
  | ok items => exact ensures_pure fun _ h => h
  | error e => exact ensures_fail fun _ h => h

/-- A command that scans gives the document up that it opened. -/
theorem keeps_scanLines (c : Collection) (name : String) (raw : Int) (groups : List KeySet) :
    Keeps (Store.Accounts R []) (scanLines c name raw groups) := by
  have hread : Keeps (Store.Accounts R [])
      (orEnd (Action.ofExcept (RevisionChoice.read raw))) := (keeps_ofExcept _).mapError _
  refine Action.Ensures.preserves (hread.bind_ensures fun choice => ?_)
  have hnamed : Ensures (Store.Accounts R [])
      (orEnd (c.namedRevision .none name choice .readOnly)) _ _ :=
    Action.Ensures.mapError (Collection.accounts_namedRevision hR .none c name choice .readOnly) _
  exact hnamed.bind fun d => accounts_itemLines hR d groups

end Account

/-- A command that scans leaves no read transaction open, whatever it answers. -/
theorem balanced_scan (files : FileReader) (config : Option String) (source : HistorySource)
    (name : String) (raw : Int) (groups : List KeySet) :
    (Invocation.action files ⟨config, .scan source name raw groups⟩
      { state := {} }).2.state.Balanced fun _ => 0 := by
  have happly (conf : Configuration) : Keeps (Store.Accounts Resource.Counts []) conf.apply := fun _ h => h
  have hload : Keeps (Store.Accounts Resource.Counts []) (source.load files) := by
    intro o ho
    unfold HistorySource.load
    cases hreplay : source.replay files with
    | error e => exact ho
    | ok s =>
      obtain ⟨f, -, hs⟩ := except_bind_eq_ok_iff.mp hreplay
      exact (HistoryFile.isReplayOf_of_replay hs).accounts
  have hopen (settings : CollectionSettings) :
      Keeps (Store.Accounts Resource.Counts []) (source.openCollection files settings) :=
    hload.bind fun _ => (keeps_report _ _).bind fun _ => keeps_pure _
  have haction : Keeps (Store.Accounts Resource.Counts [])
      (Invocation.action files ⟨config, .scan source name raw groups⟩) :=
    (keeps_ofExcept _).bind fun conf => (happly conf).bind fun _ =>
      (hopen conf.collection).bind fun c => keeps_scanLines Resource.account_balanced c name raw groups
  have hscanned : Store.Accounts Resource.Counts (([] : List Document).map Document.hold) _ :=
    haction { state := {} } (Store.accounts_empty .epoch)
  exact hscanned.balanced

/-- **Scanning answers from the history file.** Take any history file that can be replayed and any
settings, and let any resource, any revision and any groups of keys be asked for. The command answers
exactly if the resource is listed, the integer stands for one of its revisions, and no key is greater
than the number of nodes that are listed up to that revision. Then the lines are those of the items,
group by group, in the ascending order of the keys of each group: the document root has the key zero, and
the others count on as they are listed. Otherwise there is an error and no line. Either way every read
transaction that was opened was closed again. -/
theorem scan_tells_file {config : Option String} {conf : Configuration}
    (name : String) (raw : Int) (groups : List KeySet)
    (hconf : Invocation.configuration files ⟨config, .scan source name raw groups⟩ = .ok conf)
    (hcontent : source.content files = .ok f) (hbuilds : ∃ policy s, f.replay policy = .ok s) :
    let action := Invocation.action files ⟨config, .scan source name raw groups⟩ { state := {} }
    let answer := (Invocation.run files ⟨config, .scan source name raw groups⟩).1
    ((∃ lines, answer = .ok lines) ↔ ∃ l ∈ f.resources, l.name = name ∧
      ∃ n, l.Asks raw n ∧ ∀ group ∈ groups, ∀ key ∈ group.keys, key ≤ (l.nodesAt n).length) ∧
    (∀ l ∈ f.resources, l.name = name → ∀ n, l.Asks raw n → l.HasAll n groups →
      answer = .ok (groups.flatMap fun group => group.keys.map (l.itemLine n))) ∧
    (∀ group ∈ groups, group.keys.Pairwise (· < ·)) ∧
    ∀ place r, action.2.state.resource? place = some r → r.tally.readOpened = r.tally.readClosed := by
  intro action answer
  obtain ⟨s, hreplay, hopen⟩ := HistorySource.exists_yields_openCollection hcontent hbuilds
  have hrun {a : Except CommandError (List Json)}
      (h : Answers (scanLines (source.collection conf.collection) name raw groups) s a) :
      answer = a :=
    Invocation.run_eq hconf ((hopen _).bind_answers h)
  have hfound {l : ListedResource} (hl : l ∈ f.resources) (hname : l.name = name) {n : Nat}
      (hn : l.Asks raw n) (hkeys : l.HasAll n groups) :
      answer = .ok (groups.flatMap fun group => group.keys.map (l.itemLine n)) := by
    subst hname
    exact hrun (answers_scanLines_of_hasAll hreplay hl hn hkeys)
  refine ⟨⟨?_, ?_⟩, fun l hl hname n hn hkeys => hfound hl hname hn hkeys,
    fun group _ => group.ascending, fun place r hr => ?_⟩
  · rintro ⟨lines, hlines⟩
    have hanswered {e : CommandError} (he : answer = .error e) : False := nomatch he.symm.trans hlines
    -- Everything else is refused: either there is no such revision, or a key is too great for it.
    by_contra hnot
    by_cases hasks : ∃ l ∈ f.resources, l.name = name ∧ ∃ n, l.Asks raw n
    · obtain ⟨l, hl, rfl, n, hn⟩ := hasks
      have hkeys : ¬l.HasAll n groups := fun hkeys => hnot ⟨l, hl, rfl, n, hn, hkeys⟩
      obtain ⟨e, he⟩ := exists_answers_scanLines_of_not_hasAll hreplay hl hn hkeys
      exact hanswered (hrun he)
    · obtain ⟨e, he⟩ := exists_answers_scanLines_error hreplay hasks groups
      exact hanswered (hrun he)
  · rintro ⟨l, hl, hname, n, hn, hkeys⟩
    exact ⟨_, hfound hl hname hn hkeys⟩
  · exact (balanced_scan files config source name raw groups).counted hr

/-- The second revision of the small file has three nodes, and nothing behind them is found in it. -/
theorem scan_tells_small :
    (HistorySource.content FileReader.small ⟨"h.json", .floor⟩ = .ok HistoryFile.small ∧
      ∃ policy s, HistoryFile.small.replay policy = .ok s) ∧
    (Invocation.run .small ⟨none, .scan ⟨"h.json", .floor⟩ "doc" 2
      [.ofList [2, 0], .empty, .ofList [1]]⟩).1 =
        .ok [ListedResource.itemLine .small 2 0, ListedResource.itemLine .small 2 2,
          ListedResource.itemLine .small 2 1] ∧
    ¬∃ lines, (Invocation.run .small ⟨none, .scan ⟨"h.json", .floor⟩ "doc" 2
      [.ofList [3]]⟩).1 = .ok lines := by
  have hcontent := HistorySource.content_small ⟨"h.json", .floor⟩
  have hbuilds : ∃ policy s, HistoryFile.small.replay policy = .ok s := by
    obtain ⟨s, hs, -⟩ := HistoryFile.consistent_small.replay .floor
    exact ⟨.floor, s, hs⟩
  have hconf (groups : List KeySet) : Invocation.configuration .small
      ⟨none, .scan ⟨"h.json", .floor⟩ "doc" 2 groups⟩ = .ok ({} : Configuration) := rfl
  have hasks : ListedResource.Asks .small 2 2 := .inr ⟨rfl, by decide, by decide⟩
  refine ⟨⟨hcontent, hbuilds⟩, ?_, ?_⟩
  · obtain ⟨-, hlines, -⟩ := scan_tells_file "doc" 2 [.ofList [2, 0], .empty, .ofList [1]]
      (hconf _) hcontent hbuilds
    have hkeys : ListedResource.HasAll .small 2 [.ofList [2, 0], .empty, .ofList [1]] := by
      unfold ListedResource.HasAll
      decide
    exact hlines .small (List.mem_singleton_self _) rfl 2 hasks hkeys
  · obtain ⟨hanswers, -⟩ := scan_tells_file "doc" 2 [.ofList [3]] (hconf _) hcontent hbuilds
    rw [hanswers]
    rintro ⟨l, hl, -, n, hn, hkeys⟩
    obtain rfl := List.mem_singleton.mp hl
    have htwo : n = 2 := by rcases hn with ⟨hraw, -⟩ | ⟨hraw, -⟩ <;> omega
    subst htwo
    exact absurd (hkeys _ (List.mem_singleton_self _) 3 (by decide)) (by decide)

end AsOf
