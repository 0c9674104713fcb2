import AsOf.CommandLine.Run
import AsOf.Proofs.Collection.Add
import AsOf.Proofs.HistoryFile.Numbering
import AsOf.Proofs.Lookup.Idle

/-!
# Commands on replayed files

What a command yields, given what the store of its history file is.

## Main definitions

* `ListedResource.printedTime`, `ListedResource.historyLine`: what is printed of a resource

## Main results

* `Invocation.run_eq`: a command answers what its request asks for
* `HistorySource.yields_openCollection`: the collection over a history file
* `Invocation.run_history`: what the command prints
-/

namespace AsOf

open Observed

/-! ## Settings and collections

What a command yields, given what the store of its history file is: the settings change what is written
to the journal and nothing else, and the collection is the first one over the only database. -/

namespace HistorySource

variable {files : FileReader} {source : HistorySource} {f : HistoryFile} {s : Store}

theorem content_eq {text : String} (h : files source.path = .ok text)
    (hread : HistoryFile.read? text = some f) : source.content files = .ok f := by
  rw [content, h]
  simp only [hread]

theorem replay_eq (h : source.content files = .ok f) :
    source.replay files = f.replay source.lookup := by
  rw [replay, h]
  rfl

/-- The collection over a history file. -/
def collection (source : HistorySource) (settings : CollectionSettings) : Collection :=
  ⟨1, source.collectionName, HistoryFile.database, settings, 0⟩

theorem yields_load (h : source.replay files = .ok s) (s₀ : Store) :
    Yields (source.load files) s₀ (.ok ()) s := by
  have hreplay : Yields (Action.ofExcept (source.replay files) : CommandStep Store) s₀ (.ok s) s₀ :=
    h ▸ yields_ofExcept s₀ _
  exact hreplay.bind fun c j => ⟨c, j, rfl⟩

theorem yields_openCollection (h : source.replay files = .ok s) (settings : CollectionSettings)
    (s₀ : Store) :
    Yields (source.openCollection files settings) s₀ (.ok (source.collection settings)) s :=
  (yields_load h s₀).bind <| (yields_report s _ _).bind (yields_pure s _)

/-- A file that can be replayed for one policy is opened for every policy. -/
theorem exists_yields_openCollection {path : String} {lookup : LookupPolicy}
    (hcontent : HistorySource.content files ⟨path, lookup⟩ = .ok f)
    (hbuilds : ∃ policy s, f.replay policy = .ok s) :
    ∃ s, f.replay lookup = .ok s ∧ ∀ settings,
      Yields (openCollection files settings ⟨path, lookup⟩) ({} : Store)
        (.ok (collection ⟨path, lookup⟩ settings)) s := by
  obtain ⟨policy, s₀, hs₀⟩ := hbuilds
  obtain ⟨s, hreplay, -⟩ := (HistoryFile.exists_replay_iff.mp ⟨s₀, hs₀⟩).replay lookup
  exact ⟨s, hreplay, fun settings =>
    yields_openCollection ((replay_eq hcontent).trans hreplay) settings {}⟩

end HistorySource

namespace Invocation

variable {files : FileReader} {i : Invocation} {conf : Configuration}
  {a : Except CommandError (List Json)}

/-- A command answers what its request asks for. -/
theorem run_eq (hconf : i.configuration files = .ok conf)
    (h : Answers (i.request.run files conf.collection) ({} : Store) a) : (i.run files).1 = a := by
  have hread : Yields (Action.ofExcept (i.configuration files) : CommandStep Configuration)
      ({} : Store) (.ok conf) {} := hconf ▸ yields_ofExcept _ _
  have happly : Yields conf.apply ({} : Store) (.ok ()) {} := fun c j => ⟨_, _, rfl⟩
  exact hread.bind_answers (happly.bind_answers h) {} {}

end Invocation

theorem yields_orEnd_ofExcept {α : Type} (x : Except CollectionError α) (s : Store) :
    Yields (orEnd (Action.ofExcept x)) s (x.mapError .document) s :=
  (yields_ofExcept s x).mapError CommandError.document

theorem yields_releaseDocument (d : Document) (s : Store) :
    Yields (releaseDocument d) s (.ok ()) (d.release s) :=
  fun c j => ⟨c, j, rfl⟩

/-- A document that was found is described, and given up. -/
theorem yields_describeFound (d : Document) (s : Store) :
    Yields (describeFound (some d)) s (.ok [documentLine s d]) (d.release s) :=
  (yields_current s).bind <| (yields_releaseDocument d s).bind (yields_pure _ _)

/-! ### A small file -/

/-- The text of a file with one resource, whose last revision lies between two seconds. -/
def HistoryFile.smallText : String :=
  "\x7b\"resources\":[\x7b\"name\":\"doc\",\"created\":\"1970-01-01T00:00:10Z\",\"revisions\":[" ++
    "\x7b\"timestamp\":\"1970-01-01T00:00:20Z\",\"nodes\":" ++
    "[\x7b\"element\":\"a\"\x7d,\x7b\"element\":\"b\"\x7d]\x7d," ++
    "\x7b\"timestamp\":\"1970-01-01T00:00:30.5Z\",\"nodes\":[\x7b\"text\":\"c\"\x7d]\x7d]\x7d]\x7d"

/-- The resource that the small file lists. -/
def ListedResource.small : ListedResource :=
  ⟨"doc", .second 10, [⟨.second 20, [.element "a", .element "b"]⟩,
    ⟨{ secs := 30, nanos := 500000000 }, [.text "c"]⟩]⟩

/-- What the small file lists. -/
def HistoryFile.small : HistoryFile := ⟨[.small]⟩

theorem HistoryFile.read?_smallText : HistoryFile.read? smallText = some small := by decide +kernel

/-- The small file is found under every path. -/
def FileReader.small : FileReader := fun _ => .ok HistoryFile.smallText

theorem HistorySource.content_small (source : HistorySource) :
    source.content .small = .ok .small :=
  content_eq rfl HistoryFile.read?_smallText

theorem HistoryFile.consistent_small : small.Consistent where
  names := by decide
  inOrder l hl := by
    obtain rfl := List.mem_singleton.mp hl
    unfold ListedResource.InOrder
    decide

/-! ## What the history command prints

The history command prints a line for each resource of the history file, in their order, with the number
and the time of each revision. Times are printed without digits of the second. -/

section History

open Observed

namespace ListedResource

/-- The time of the revision with a number as it is printed. -/
def printedTime (l : ListedResource) (n : Nat) : String := (l.timeOf n).rfc3339 .seconds

/-- The line of the history of a resource. -/
def historyLine (l : ListedResource) : Json :=
  .record [("resource", .ofString l.name),
    ("revisions", .array ((List.range (l.revisions.length + 1)).map fun i =>
      .record [("revision", .ofNat (i + 1)), ("timestamp", .ofString (l.printedTime (i + 1)))]))]

end ListedResource

variable {files : FileReader} {f : HistoryFile} {s : Store} {l : ListedResource} {r : Resource}
  {lookup : LookupPolicy}

/-- The timeline of a replayed resource has the numbers and times that were listed. -/
theorem Resource.IsReplayOf.timeline (h : r.IsReplayOf l lookup) :
    r.history.timeline.toList = (List.range (l.revisions.length + 1)).map fun i =>
      ⟨⟨i + 1, Nat.succ_pos i⟩, l.timeOf (i + 1)⟩ := by
  have hlength : r.history.timeline.toList.length ≤ r.history.trees.toList.length :=
    Nat.le_of_eq h.sound.history.size_trees.symm
  rw [← List.map_fst_zip hlength]
  show r.history.entries.map Prod.fst = _
  refine List.ext_getElem? fun i => ?_
  rw [h.entries, List.getElem?_map, l.getElem?_entries, List.getElem?_map]
  by_cases hi : i ≤ l.revisions.length
  · rw [l.getElem?_times hi, List.getElem?_range (Nat.lt_succ_of_le hi)]
    rfl
  · rw [List.getElem?_eq_none (by rw [l.length_times]; omega),
      List.getElem?_eq_none (by rw [List.length_range]; omega)]
    rfl

theorem historyLine_eq (h : r.IsReplayOf l lookup) : historyLine r = l.historyLine := by
  rw [historyLine, h.name_eq, h.timeline, List.map_map]
  rfl

theorem historyLines_of_replay (h : f.replay lookup = .ok s) :
    historyLines s = .ok (f.resources.map (·.historyLine)) := by
  have hs := HistoryFile.isReplayOf_of_replay h
  rw [historyLines, hs.names_eq, HistoryFile.names, List.mapM_map]
  refine mapM_eq_ok fun l hl => ?_
  obtain ⟨place, hplace⟩ := List.getElem?_of_mem hl
  obtain ⟨r, hr, hrl⟩ := hs.resources hplace
  simp only [Function.comp, HistoryFile.locate_of_replay h hplace, hr, Option.getD_some,
    historyLine_eq hrl]

/-- The history command prints the lines of all resources. -/
theorem Invocation.run_history {config : Option String} {conf : Configuration} {source : HistorySource}
    (hconf : Invocation.configuration files ⟨config, .history source⟩ = .ok conf)
    (hcontent : source.content files = .ok f) (h : f.replay source.lookup = .ok s) :
    (Invocation.run files ⟨config, .history source⟩).1 = .ok (f.resources.map (·.historyLine)) := by
  have hload := HistorySource.yields_load ((HistorySource.replay_eq hcontent).trans h) {}
  have hlines : Yields (Action.ofExcept (historyLines s) : CommandStep (List Json)) s
      (.ok (f.resources.map (·.historyLine))) s := historyLines_of_replay h ▸ yields_ofExcept s _
  exact Invocation.run_eq hconf (hload.bind ((yields_current s).bind hlines)).answers

end History

end AsOf
