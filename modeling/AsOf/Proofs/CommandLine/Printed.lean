import AsOf.CommandLine.Arguments
import AsOf.Proofs.CommandLine.Opening
import AsOf.Proofs.CommandLine.Resolve
import AsOf.Proofs.HistoryFile.Contents
import Mathlib.Data.List.TakeDrop

/-!
# Printed times

A time that was printed can be asked for, and leads back to a revision.

## Main definitions

* `Flag.joined`: an option with its value
* `resolveOptions`, `resolveArguments`: the options, and all arguments, that ask for a resource as of a
  time
* `ListedResource.LeadsBackTo`, `ListedResource.LeadsBehind`: where a printed time can lead

## Main results

* `readArguments_joined`: how an option with its value is read
* `read_resolveArguments`: what the arguments are read as
* `printed_times_lead_back`: what is printed, and where it leads
-/

namespace AsOf

/-! ## Asking for a document

Options whose values are joined to them are read one by one, whatever the values are: the first equals
sign ends the name of an option, and all that stands behind it is the value. So every time of a named
resource can be asked for. -/

/-- An option as an argument, with its value joined to it. -/
def Flag.joined (flag : Flag) (value : String) : String := "--" ++ flag.name ++ "=" ++ value

/-- The word for a policy. -/
def LookupPolicy.word : LookupPolicy → String
  | floor => "floor"
  | nearest => "nearest"

/-- The options that ask for a resource as of the time that a text stands for. -/
def resolveOptions (source : HistorySource) (name text : String) (updatable : Bool) : List String :=
  Flag.history.joined source.path :: Flag.lookup.joined source.lookup.word ::
    Flag.resource.joined name :: Flag.asOf.joined text ::
      if updatable then ["--" ++ Flag.updatable.name] else []

/-- The arguments that ask for a resource as of the time that a text stands for. -/
def resolveArguments (source : HistorySource) (name text : String) (updatable : Bool) : List String :=
  Verb.resolve.name :: resolveOptions source name text updatable

/-- The first equals sign ends the name of the option. -/
theorem Shape.of_joined (flag : Flag) (value : String) :
    Shape.of (flag.joined value) = .long flag.name (some value) := by
  have hname : ∀ c ∈ flag.name.toList, (c != '=') = true :=
    List.all_eq_true.mp (by cases flag <;> rfl)
  have hspan : (flag.name.toList ++ '=' :: value.toList).span (· != '=') =
      (flag.name.toList, '=' :: value.toList) := by
    rw [List.span_eq_takeWhile_dropWhile, List.takeWhile_append_of_pos hname,
      List.dropWhile_append_of_pos hname]
    simp
  have htext : (flag.joined value).toList = '-' :: '-' :: (flag.name.toList ++ '=' :: value.toList) := by
    simp [Flag.joined]
  obtain ⟨c, cs, hcons⟩ : ∃ c cs, flag.name.toList ++ '=' :: value.toList = c :: cs :=
    List.exists_cons_of_ne_nil (by simp)
  rw [Shape.of, htext]
  rw [hcons] at hspan ⊢
  simp only [hspan, String.ofList_toList]

/-- An option with its value joined to it is examined at once. -/
theorem readArguments_joined {v : Verb} {flag : Flag} {given : Given}
    (hknown : Flag.ofName? (some v) flag.name = some flag) (htakes : flag.takesValue = true)
    (hfree : given.has flag = false) (value : String) (rest : List String) :
    readArguments (some v) { given } (flag.joined value :: rest) =
      (given.set flag value).bind fun given => readArguments (some v) { given } rest := by
  have htake : given.take flag (some value) = given.set flag value := by
    rw [Given.take, if_neg (by simp), if_neg (by simp [hfree])]
    rfl
  have hlong : readLong (some v) { given } flag.name (some value) =
      (given.set flag value).bind fun given => .ok { given } := by
    rw [readLong, hknown, ← htake]
    simp only [htakes, if_true]
    rfl
  have hstop : Stop.of? (some v) (flag.joined value) rest = none := rfl
  rw [readArguments]
  simp only [Reading.waiting, Option.isNone_none, if_true, hstop, Shape.of_joined, hlong]
  cases given.set flag value <;> rfl

/-- The options behind a verb say what it is asked to do. -/
theorem read_verb (v : Verb) (rest : List String) :
    Invocation.read (v.name :: rest) = do
      let (inner, _) ← readArguments (some v) {} rest
      let given ← inner.settle
      let request ← v.request given
      return ⟨given.config <|> none, request⟩ := by
  cases v <;> rfl

theorem readArguments_resolveOptions {source : HistorySource} (hpath : source.path ≠ "")
    (name text : String) (updatable : Bool) :
    readArguments (some .resolve) {} (resolveOptions source name text updatable) =
      (readInstant text).map fun time =>
        ({ given := ⟨none, some source.path, some source.lookup, some name, some time, none, updatable,
          []⟩ }, .ended) := by
  obtain ⟨path, lookup⟩ := source
  have hhistory : Given.set {} .history path = .ok { history := some path } := by
    have hempty : path.isEmpty = false := by simpa using hpath
    simp only [Given.set, Given.path, hempty]
    rfl
  have hlookup : Given.set { history := some path } .lookup lookup.word =
      .ok { history := some path, lookup := some lookup } := by
    cases lookup <;> rfl
  have hresource : Given.set { history := some path, lookup := some lookup } .resource name =
      .ok { history := some path, lookup := some lookup, resource := some name } := rfl
  rw [resolveOptions, readArguments_joined rfl rfl rfl, hhistory, Except.bind,
    readArguments_joined rfl rfl rfl, hlookup, Except.bind, readArguments_joined rfl rfl rfl,
    hresource, Except.bind, readArguments_joined rfl rfl rfl, Given.set]
  cases readInstant text with
  | error e => rfl
  | ok time => cases updatable <;> rfl

/-- The arguments that ask for a resource as of a time are read as that, if the text stands for a
time. -/
theorem read_resolveArguments {source : HistorySource} (hpath : source.path ≠ "") (name text : String)
    (updatable : Bool) :
    Invocation.read (resolveArguments source name text updatable) =
      (readInstant text).map fun time =>
        ⟨none, .resolve source (some name) (some time) none updatable⟩ := by
  rw [resolveArguments, read_verb, readArguments_resolveOptions hpath]
  cases readInstant text <;> rfl

/-! ## What printed times lead back to

A time that was printed can be asked for. It is cut off to whole seconds, so the answer is the revision
that it was printed for, or a later one at the same time, exactly if nothing was cut off; otherwise it is
an earlier one. Times whose year has no four digits are printed with a sign and cannot be asked for. -/

section Printed

open Observed

variable {files : FileReader} {f : HistoryFile} {s : Store} {l : ListedResource}
  {n : Nat} {updatable : Bool}

/-! ### The times of a file that was read -/

theorem HistorySource.exists_read_of_content {source : HistorySource}
    (h : source.content files = .ok f) : ∃ text, HistoryFile.read? text = some f := by
  unfold content at h
  split at h
  · cases h
  · next text htext =>
    split at h
    · next file hread =>
      obtain rfl := Except.ok.inj h
      exact ⟨text, hread⟩
    · cases h

/-- A printed time can be asked for exactly if its year has four digits. -/
theorem readInstant_printedTime (h : (l.timeOf n).OnClock) :
    readInstant (l.printedTime n) =
      if 0 ≤ (l.timeOf n).date.year ∧ (l.timeOf n).date.year ≤ 9999 then
        .ok (l.timeOf n).wholeSecond
      else .error ⟨.valueValidation,
        some ("invalid RFC 3339 time '" ++ l.printedTime n ++ "'")⟩ := by
  rw [readInstant, ListedResource.printedTime]
  by_cases hyear : 0 ≤ (l.timeOf n).date.year ∧ (l.timeOf n).date.year ≤ 9999
  · rw [if_pos hyear, Instant.readExact?_rfc3339 h hyear]
  · rw [if_neg hyear, Instant.readExact?_rfc3339_eq_none hyear]

/-! ### Where times lead -/

namespace ListedResource

/-- The answer is the last revision that was sealed at the time of revision `n`. -/
def LeadsBackTo (l : ListedResource) (n : Nat) (updatable : Bool) (answer : Json) : Prop :=
  ∃ m, n ≤ m ∧ m ≤ l.revisions.length + 1 ∧ l.timeOf m = l.timeOf n ∧
    (∀ k, m < k → k ≤ l.revisions.length + 1 → l.timeOf k ≠ l.timeOf n) ∧
    answer = l.foundLine m updatable

/-- The answer is the last revision that was sealed by the start of the second of revision `n`, which is
an earlier one; or there is none. -/
def LeadsBehind (l : ListedResource) (n : Nat) (updatable : Bool) (answer : Json) : Prop :=
  (l.timeOf n).wholeSecond < l.created ∧ answer = .null ∨
    ∃ m, 1 ≤ m ∧ m < n ∧ l.timeOf m ≤ (l.timeOf n).wholeSecond ∧
      (l.timeOf n).wholeSecond < l.timeOf (m + 1) ∧ answer = l.foundLine m updatable

/-- As of the time of a revision the answer is the last one that was sealed then. -/
theorem InOrder.leadsBackTo (horder : l.InOrder) (hpos : 1 ≤ n) (hle : n ≤ l.revisions.length + 1) :
    l.LeadsBackTo n updatable (l.answerAsOf (l.timeOf n) updatable) := by
  have hcreated := horder.created_le (l.timeOf_mem_times hpos hle)
  have hlast := l.asOf_le (l.timeOf n)
  have hnm : n ≤ l.asOf (l.timeOf n) :=
    (horder.le_asOf_iff hcreated hpos hle).mpr (Instant.le_refl _)
  refine ⟨l.asOf (l.timeOf n), hnm, hlast, ?_, fun k hk hkle htime => ?_, ?_⟩
  · exact Instant.le_antisymm
      ((horder.le_asOf_iff hcreated (Nat.le_trans hpos hnm) hlast).mp (Nat.le_refl _))
      (horder.timeOf_le hpos hnm hlast)
  · have hkm := (horder.le_asOf_iff hcreated (by omega) hkle).mpr (htime ▸ Instant.le_refl _)
    omega
  · rw [answerAsOf, if_neg (Instant.not_lt.mpr hcreated)]

/-- As of a start of a second behind which a revision was sealed the answer is an earlier one. -/
theorem InOrder.leadsBehind (horder : l.InOrder) (hpos : 1 ≤ n) (hle : n ≤ l.revisions.length + 1)
    (hcut : (l.timeOf n).wholeSecond < l.timeOf n) :
    l.LeadsBehind n updatable (l.answerAsOf (l.timeOf n).wholeSecond updatable) := by
  by_cases hlt : (l.timeOf n).wholeSecond < l.created
  · exact .inl ⟨hlt, if_pos hlt⟩
  · have hcreated := Instant.not_lt.mp hlt
    have hlast := l.asOf_le (l.timeOf n).wholeSecond
    have hmpos : 1 ≤ l.asOf (l.timeOf n).wholeSecond := Nat.le_add_right 1 _
    have hmn : l.asOf (l.timeOf n).wholeSecond < n := by
      refine Nat.not_le.mp fun hnm => Instant.not_lt.mpr ?_ hcut
      exact (horder.le_asOf_iff hcreated hpos hle).mp hnm
    refine .inr ⟨_, hmpos, hmn, ?_, ?_, if_neg hlt⟩
    · exact (horder.le_asOf_iff hcreated hmpos hlast).mp (Nat.le_refl _)
    · refine Instant.not_le.mp fun hbehind => ?_
      have := (horder.le_asOf_iff hcreated (Nat.succ_pos _) (by omega)).mpr hbehind
      omega

end ListedResource

/-- **Where printed times lead.** Take any history file that can be replayed and any settings. The
history command prints the number and the time of every revision of every resource, and resolving
describes no other revisions. Ask for a resource as of the time that was printed for one of its
revisions. If the year has four digits, this is understood, and the time is the start of the second that
the revision was sealed in. If the revision was sealed at that very time, the answer is the last revision
that was, and otherwise it is an earlier one, or none. If the year has more or fewer digits, or lies before
the year 0, it is refused. -/
theorem printed_times_lead_back {config : Option String} {conf : Configuration} {path : String}
    (hconf : ∀ request, Invocation.configuration files ⟨config, request⟩ = .ok conf)
    (hcontent : ∀ lookup, HistorySource.content files ⟨path, lookup⟩ = .ok f) (hpath : path ≠ "")
    (hbuilds : ∃ lookup s, f.replay lookup = .ok s) :
    (∀ lookup, (Invocation.run files ⟨config, .history ⟨path, lookup⟩⟩).1 =
      .ok (f.resources.map (·.historyLine))) ∧
    (∀ lookup name time revision updatable, f.Finds updatable
      (Invocation.run files ⟨config, .resolve ⟨path, lookup⟩ name time revision updatable⟩).1) ∧
    ∀ l ∈ f.resources, ∀ n, 1 ≤ n → n ≤ l.revisions.length + 1 → ∀ lookup updatable,
      let time := l.timeOf n
      let arguments := resolveArguments ⟨path, lookup⟩ l.name (l.printedTime n) updatable
      let request := Request.resolve ⟨path, lookup⟩ (some l.name) (some time.wholeSecond) none updatable
      if 0 ≤ time.date.year ∧ time.date.year ≤ 9999 then
        Invocation.read arguments = .ok ⟨none, request⟩ ∧
          ∃ answer, (Invocation.run files ⟨config, request⟩).1 = .ok [answer] ∧
            (time.wholeSecond = time → l.LeadsBackTo n updatable answer) ∧
            (time.wholeSecond ≠ time → l.LeadsBehind n updatable answer)
      else
        Invocation.read arguments = .error ⟨.valueValidation,
          some ("invalid RFC 3339 time '" ++ l.printedTime n ++ "'")⟩ := by
  have hopen (lookup : LookupPolicy) :=
    HistorySource.exists_yields_openCollection (hcontent lookup) hbuilds
  refine ⟨fun lookup => ?_, fun lookup name time revision updatable => ?_,
    fun l hl n hpos hle lookup updatable => ?_⟩
  · obtain ⟨s, hreplay, -⟩ := hopen lookup
    exact Invocation.run_history (hconf _) (hcontent lookup) hreplay
  · obtain ⟨s, hreplay, hopen⟩ := hopen lookup
    obtain ⟨a, ha, hfinds⟩ := exists_answers_resolveLines ⟨path, lookup⟩ conf.collection hreplay name
      time revision updatable
    rw [Invocation.run_eq (hconf _) ((hopen _).bind_answers ha)]
    exact hfinds
  · obtain ⟨s, hreplay, -⟩ := hopen lookup
    have horder : l.InOrder := (HistoryFile.exists_replay_iff.mp ⟨s, hreplay⟩).inOrder l hl
    obtain ⟨text, hread⟩ := HistorySource.exists_read_of_content (hcontent lookup)
    -- Leap seconds are read again only because the file was read from a text.
    have hclock := HistoryFile.onClock_of_read? hread hl (l.timeOf_mem_times hpos hle)
    intro time arguments request
    have hread : Invocation.read arguments = (readInstant (l.printedTime n)).map _ :=
      read_resolveArguments hpath l.name (l.printedTime n) updatable
    rw [readInstant_printedTime hclock] at hread
    by_cases hyear : 0 ≤ time.date.year ∧ time.date.year ≤ 9999
    · rw [if_pos hyear] at hread ⊢
      have hrun : (Invocation.run files ⟨config, request⟩).1 =
          .ok [l.answerAsOf time.wholeSecond updatable] :=
        Invocation.run_resolve_asOf (hconf _) (hcontent lookup) hbuilds ⟨hl, .inl rfl⟩
      refine ⟨hread, _, hrun, fun hwhole => ?_, fun hcut => horder.leadsBehind hpos hle ?_⟩
      · rw [hwhole]
        exact horder.leadsBackTo hpos hle
      · exact Instant.not_le.mp fun hback =>
          hcut (Instant.le_antisymm time.wholeSecond_le hback)
    · rw [if_neg hyear] at hread ⊢
      exact hread

/-- The second revision of the small file is the only one that was sealed at its time. -/
theorem printed_times_lead_back_small :
    ∃ request, Invocation.read (resolveArguments ⟨"h.json", .nearest⟩ "doc"
      (ListedResource.printedTime .small 2) true) = .ok ⟨none, request⟩ ∧
      (Invocation.run .small ⟨none, request⟩).1 = .ok [ListedResource.foundLine .small 2 true] := by
  have hconf (request : Request) :
      Invocation.configuration .small ⟨none, request⟩ = .ok ({} : Configuration) := rfl
  obtain ⟨s, hs, -⟩ := HistoryFile.consistent_small.replay .floor
  obtain ⟨-, -, hleads⟩ := printed_times_lead_back hconf
    (fun lookup => HistorySource.content_small ⟨"h.json", lookup⟩) (by decide) ⟨.floor, s, hs⟩
  have hyear : 0 ≤ (ListedResource.timeOf .small 2).date.year ∧
      (ListedResource.timeOf .small 2).date.year ≤ 9999 := by decide
  have hleads := hleads .small (List.mem_singleton_self _) 2 (by decide) (by decide) .nearest true
  dsimp only at hleads
  rw [if_pos hyear] at hleads
  obtain ⟨hread, answer, hrun, hsame, -⟩ := hleads
  refine ⟨_, hread, ?_⟩
  obtain ⟨m, hle, hlast, htime, -, rfl⟩ := hsame (by decide)
  have htwo : m = 2 := by
    have hthree : m ≠ 3 := by
      rintro rfl
      exact absurd htime (by decide)
    have hlast : m ≤ 3 := hlast
    omega
  rw [hrun, htwo]

/-! ### Times that mislead -/

/-- The text of a file with one resource, which was created in the year 10000. -/
def HistoryFile.farText : String :=
  "\x7b\"resources\":[\x7b\"name\":\"doc\",\"created\":\"+10000-01-01T00:00:00Z\"\x7d]\x7d"

/-- The resource that it lists. -/
def ListedResource.far : ListedResource := ⟨"doc", .second 253402300800, []⟩

/-- What the file lists. -/
def HistoryFile.far : HistoryFile := ⟨[.far]⟩

theorem HistoryFile.read?_farText : HistoryFile.read? farText = some far := by decide +kernel

/-- The file is found under every path. -/
def FileReader.far : FileReader := fun _ => .ok HistoryFile.farText

theorem HistoryFile.consistent_far : far.Consistent where
  names := by decide
  inOrder l hl := by
    obtain rfl := List.mem_singleton.mp hl
    exact ListedResource.inOrder_nil _ _

/-- The time that is printed for the third revision of the small file, which was sealed half a second
later, leads to the second one. And the time that is printed for a creation in the year 10000 is
refused. -/
theorem printed_times_mislead :
    ((Invocation.run .small ⟨none, .history ⟨"h.json", .floor⟩⟩).1 =
        .ok [ListedResource.historyLine .small] ∧
      ListedResource.printedTime .small 3 = "1970-01-01T00:00:30Z" ∧
      (∃ request, Invocation.read (resolveArguments ⟨"h.json", .floor⟩ "doc" "1970-01-01T00:00:30Z"
        false) = .ok ⟨none, request⟩ ∧
        (Invocation.run .small ⟨none, request⟩).1 = .ok [ListedResource.foundLine .small 2 false]) ∧
      ListedResource.timeOf .small 2 ≠ ListedResource.timeOf .small 3) ∧
    (Invocation.run .far ⟨none, .history ⟨"h.json", .floor⟩⟩).1 =
        .ok [ListedResource.historyLine .far] ∧
      ListedResource.printedTime .far 1 = "+10000-01-01T00:00:00Z" ∧
      Invocation.read (resolveArguments ⟨"h.json", .floor⟩ "doc" "+10000-01-01T00:00:00Z" false) =
        .error ⟨.valueValidation, some "invalid RFC 3339 time '+10000-01-01T00:00:00Z'"⟩ := by
  have hasOf : readInstant "1970-01-01T00:00:30Z" = .ok (.second 30) := rfl
  have hrefused : readInstant "+10000-01-01T00:00:00Z" =
    .error ⟨.valueValidation, some "invalid RFC 3339 time '+10000-01-01T00:00:00Z'"⟩ := rfl
  have hpath : (HistorySource.mk "h.json" .floor).path ≠ "" := by decide
  have hconf (files : FileReader) (request : Request) :
      Invocation.configuration files ⟨none, request⟩ = .ok ({} : Configuration) := rfl
  have hsmall := HistorySource.content_small ⟨"h.json", .floor⟩
  have hfar : HistorySource.content .far ⟨"h.json", .floor⟩ = .ok .far :=
    HistorySource.content_eq rfl HistoryFile.read?_farText
  obtain ⟨s, hs, -⟩ := HistoryFile.consistent_small.replay .floor
  obtain ⟨t, ht, -⟩ := HistoryFile.consistent_far.replay .floor
  refine ⟨⟨Invocation.run_history (hconf _ _) hsmall hs, by decide +kernel, ?_, by decide⟩,
    Invocation.run_history (hconf _ _) hfar ht, by decide +kernel, ?_⟩
  · refine ⟨_, (read_resolveArguments hpath "doc" "1970-01-01T00:00:30Z" false).trans
      (by rw [hasOf]; rfl), ?_⟩
    exact Invocation.run_resolve_asOf (hconf _ _) hsmall ⟨.floor, s, hs⟩
      ⟨List.mem_singleton_self _, .inl rfl⟩
  · rw [read_resolveArguments hpath, hrefused]
    rfl

end Printed

end AsOf
