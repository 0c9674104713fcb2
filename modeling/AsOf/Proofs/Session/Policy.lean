import AsOf.Proofs.Session.Agreement
import AsOf.Proofs.Session.Follow

/-!
# Sessions under two policies

Whatever is asked of two sessions whose databases differ in their policies, they answer the same and go
on to agree, as long as no lookup of a time for changing diverges; and from one that does they do not
agree any more.

## Main definitions

* `Command.under`: the command, where it adds a database, with a policy for it
* `Command.LooksUp`: the resource and the time that a command looks up for changing
* `Command.Betrays`: the lookup of a command diverges

## Main results

* `Session.step_agrees_iff`: when one command is answered alike
* `policy_unseen_iff`: when the policy of the databases is not seen
-/

namespace AsOf

open AsOf.Action

/-- The command as it is where all databases have a policy. -/
def Command.under (policy : LookupPolicy) : Command → Command
  | .session (.addDatabase name _) => .session (.addDatabase name policy)
  | c => c

/-- What a collection is asked for as of a time: by which name, as of when, and how. Its own name stands
for that of the resource where none is given. -/
def CollectionCommand.asOf? (c : Collection) :
    CollectionCommand → Option (String × Instant × Access)
  | .asOf time access => some (c.name, time, access)
  | .namedAsOf name time access => some (name, time, access)
  | _ => none

/-- The command looks up a resource as of a time for changing. -/
inductive Command.LooksUp (s : Session) : Command → Nat → Instant → Prop
  | collection {n place : Nat} {c : Collection} {command : CollectionCommand} {name : String}
      {time : Instant} (hc : s.collections[n]? = some c)
      (hasks : command.asOf? c = some (name, time, .updatable))
      (hplace : s.store.locate c.database name = .ok place) :
      LooksUp s (.collection n command) place time
  | resource {n registry place : Nat} {time : Instant} (hplace : s.resources[n]? = some place) :
      LooksUp s (.resource n (.asOf registry time .updatable)) place time

/-- The command is not the same in two sessions, since its lookup diverges. -/
def Command.Betrays (c : Command) (s s' : Session) : Prop :=
  ∃ place time, c.LooksUp s place time ∧ s.store.Diverges s'.store place time

namespace Session

variable {α β : Type} {s s' : Session} {c : Command} {p q : LookupPolicy}

/-! ## One command -/

theorem giveOrNone_store (d : Option Document) (u : Session) : (giveOrNone d u).2.store = u.store := by
  cases d <;> rfl

theorem giveLease_store (place : Nat) (lease : Lease) (u : Session) :
    (giveLease place lease u).2.store = u.store := by
  show ((orClosed (u.store.resource? place) >>= fun r => _) u).2.store = _
  cases u.store.resource? place <;> rfl

/-- A lookup whose answer is given out in step: the sessions answer the same and agree behind it exactly
if the stores agree behind the lookup. -/
theorem observing_bind_agrees_iff {x : Action (Observed Store) CollectionError α} {g : α → Step β}
    {registry : Nat} {unseen : Prop} (h : s.Agrees s')
    (hx : ∀ (c c' : Counters) (j j' : Journal),
      (x ⟨s.store, c, j⟩).1 = (x ⟨s'.store, c', j'⟩).1 ∧
        ((x ⟨s.store, c, j⟩).2.state.Agrees (x ⟨s'.store, c', j'⟩).2.state ↔ unseen))
    (hg : ∀ a, InStep Agrees (g a) (g a)) (hstore : ∀ a u, (g a u).2.store = u.store) :
    ((observing registry x >>= g) s).1 = ((observing registry x >>= g) s').1 ∧
      ((observing registry x >>= g) s).2.Agrees ((observing registry x >>= g) s').2 ↔ unseen := by
  obtain ⟨ha, hiff⟩ := hx (s.countersOf registry) (s'.countersOf registry) s.journal s'.journal
  have hafter (u : Session) : ((observing registry x >>= g) u).2.store =
      (x ⟨u.store, u.countersOf registry, u.journal⟩).2.state := by
    rw [bind_run, observing]
    rcases x ⟨u.store, u.countersOf registry, u.journal⟩ with ⟨_ | a, v⟩
    · rfl
    · exact hstore a _
  constructor
  · rintro ⟨-, hagrees⟩
    have hstores := hagrees.store
    rw [hafter, hafter] at hstores
    exact hiff.mp hstores
  · intro hunseen
    exact bind_inStep ⟨ha, h.observing (hiff.mpr hunseen) registry⟩ hg

/-- A document that a collection finds. -/
theorem stepCollection_agrees_iff (h : s.Agrees s') (hs : s.store.Arose) (hs' : s'.store.Arose)
    {c : Collection} {command : CollectionCommand} {name : String} {time : Instant} {access : Access}
    (hasks : command.asOf? c = some (name, time, access)) :
    let x := stepCollection c .none command
    (x s).1 = (x s').1 ∧ (x s).2.Agrees (x s').2 ↔
      ∀ place, s.store.locate c.database name = .ok place → access = .updatable →
        ¬s.store.Diverges s'.store place time := by
  have hnamed : stepCollection c .none command =
      stepCollection c .none (.namedAsOf name time access) := by
    cases command <;> cases hasks <;> rfl
  rw [hnamed]
  refine observing_bind_agrees_iff h (fun c c' j j' => ?_) inStep_giveOrNone giveOrNone_store
  let o : Observed Store := ⟨s.store, c, j⟩
  let o' : Observed Store := ⟨s'.store, c', j'⟩
  have hstores : o.state.Agrees o'.state := h.store
  exact Collection.namedAsOf_agrees hstores hs hs' name time access

/-- A snapshot of a resource. -/
theorem stepResource_agrees_iff (h : s.Agrees s') (hs : s.store.Arose) (hs' : s'.store.Arose)
    (place registry : Nat) (time : Instant) (access : Access) :
    let x := stepResource place .none (.asOf registry time access)
    (x s).1 = (x s').1 ∧ (x s).2.Agrees (x s').2 ↔
      (access = .updatable → ¬s.store.Diverges s'.store place time) := by
  let lookup := Observed.onResource place (snapshotAsOf .none time access)
  have hlift (o : Observed Store) :
      Collection.liftStore lookup o = ((lookup o).1.mapError .store, (lookup o).2) := by
    unfold Collection.liftStore Action.mapError
    rcases lookup o with ⟨_ | _, _⟩ <;> rfl
  refine observing_bind_agrees_iff h (fun c c' j j' => ?_) (fun found => ?_) fun found u => ?_
  · let o : Observed Store := ⟨s.store, c, j⟩
    let o' : Observed Store := ⟨s'.store, c', j'⟩
    have hstores : o.state.Agrees o'.state := h.store
    obtain ⟨ha, hiff⟩ := hstores.snapshotAsOf hs hs' place time access
    rw [hlift, hlift]
    exact ⟨congrArg (Except.mapError CollectionError.store) ha, hiff⟩
  · cases found with
    | none => exact inStep_pure _
    | some lease => exact inStep_giveLease place lease
  · cases found with
    | none => rfl
    | some lease => exact giveLease_store place lease u

/-- Commands that look up no time are answered in step, whichever policies they give to databases. -/
theorem inStep_step_under (hc : c.Neutral) (htime : ¬c.IsAsOf) :
    InStep Agrees (step (c.under p)) (step (c.under q)) := by
  by_cases hadd : ∃ name lookup, c = .session (.addDatabase name lookup)
  · obtain ⟨name, lookup, rfl⟩ := hadd
    intro s s' h
    have hsize := h.store.databases.size_eq
    refine ⟨congrArg (fun n => Except.ok (Answer.number n)) hsize.symm, h.setStore ?_⟩
    exact ⟨h.store.clock_eq, h.store.resources, h.store.databases.push (.mk q)⟩
  · have hunder (policy : LookupPolicy) : c.under policy = c := by
      unfold Command.under
      split
      · exact absurd ⟨_, _, rfl⟩ hadd
      · rfl
    rw [hunder, hunder]
    exact inStep_step c hc htime

theorem step_collection {n : Nat} (command : CollectionCommand) (u : Session) :
    step (.collection n command) u = match u.collections[n]? with
      | none => (.error (.store .trxClosed), u)
      | some c => stepCollection c u.faults command u := by
  show (orClosed u.collections[n]? >>= _) u = _
  cases u.collections[n]? <;> rfl

theorem step_resource {n : Nat} (command : ResourceCommand) (u : Session) :
    step (.resource n command) u = match u.resources[n]? with
      | none => (.error (.store .trxClosed), u)
      | some place => stepResource place u.faults command u := by
  show (orClosed u.resources[n]? >>= _) u = _
  cases u.resources[n]? <;> rfl

/-- A command that is asked of a collection. -/
theorem step_collection_agrees_iff (h : s.Agrees s') (hs : s.store.Arose) (hs' : s'.store.Arose)
    {n : Nat} {command : CollectionCommand} (htime : command.IsAsOf) :
    (step (.collection n command) s).1 = (step (.collection n command) s').1 ∧
      (step (.collection n command) s).2.Agrees (step (.collection n command) s').2 ↔
        ¬(Command.collection n command).Betrays s s' := by
  rw [step_collection, step_collection, h.collections_eq, h.faults_eq, h.behaves]
  cases hn : s.collections[n]? with
  | none =>
    refine iff_of_true ⟨rfl, h⟩ ?_
    rintro ⟨place, time, ⟨hc⟩, -⟩
    cases hn.symm.trans hc
  | some c =>
    have hasks : ∃ name time access, command.asOf? c = some (name, time, access) := by
      cases command <;> first | exact htime.elim | exact ⟨_, _, _, rfl⟩
    obtain ⟨name, time, access, hasks⟩ := hasks
    refine (stepCollection_agrees_iff h hs hs' hasks).trans ?_
    constructor
    · rintro hunseen ⟨place, time', ⟨hc, hasks', hplace⟩, hdiverges⟩
      cases hn.symm.trans hc
      cases hasks.symm.trans hasks'
      exact hunseen place hplace rfl hdiverges
    · rintro hunseen place hplace rfl hdiverges
      exact hunseen ⟨place, time, .collection hn hasks hplace, hdiverges⟩

/-- A command that is asked of a resource. -/
theorem step_resource_agrees_iff (h : s.Agrees s') (hs : s.store.Arose) (hs' : s'.store.Arose)
    {n registry : Nat} {time : Instant} {access : Access} :
    (step (.resource n (.asOf registry time access)) s).1 =
        (step (.resource n (.asOf registry time access)) s').1 ∧
      (step (.resource n (.asOf registry time access)) s).2.Agrees
        (step (.resource n (.asOf registry time access)) s').2 ↔
      ¬(Command.resource n (.asOf registry time access)).Betrays s s' := by
  rw [step_resource, step_resource, h.resources_eq, h.faults_eq, h.behaves]
  cases hn : s.resources[n]? with
  | none =>
    refine iff_of_true ⟨rfl, h⟩ ?_
    rintro ⟨place, time', hlookup, -⟩
    cases hlookup with
    | resource hplace => cases hn.symm.trans hplace
  | some place =>
    refine (stepResource_agrees_iff h hs hs' place registry time access).trans ?_
    constructor
    · rintro hunseen ⟨place', time', hlookup, hdiverges⟩
      cases hlookup with
      | resource hplace =>
        cases hn.symm.trans hplace
        exact hunseen rfl hdiverges
    · rintro hunseen rfl hdiverges
      exact hunseen ⟨place, time, .resource hn, hdiverges⟩

/-- One command: the sessions answer the same and agree behind it exactly if its lookup does not
diverge. -/
theorem step_agrees_iff (hc : c.Neutral) (h : s.Agrees s') (hs : s.store.Arose)
    (hs' : s'.store.Arose) :
    (step (c.under p) s).1 = (step (c.under q) s').1 ∧
      (step (c.under p) s).2.Agrees (step (c.under q) s').2 ↔ ¬c.Betrays s s' := by
  by_cases htime : c.IsAsOf
  · cases c with
    | session | database | document => exact htime.elim
    | collection n command => exact step_collection_agrees_iff h hs hs' htime
    | resource n command =>
      cases command with
      | asOf registry time access => exact step_resource_agrees_iff h hs hs'
      | _ => exact htime.elim
  · refine iff_of_true (inStep_step_under hc htime s s' h) ?_
    rintro ⟨place, time, hlookup, -⟩
    refine htime ?_
    cases hlookup with
    | @collection _ _ _ command _ _ _ hasks =>
      cases command <;> trivial
    | resource => trivial

/-! ## Several commands -/

theorem play_append (s : Session) (commands more : List Command) :
    (s.play (commands ++ more)).2 = ((s.play commands).2.play more).2 := by
  induction commands generalizing s with
  | nil => rfl
  | cons c rest ih => exact ih (step c s).2

theorem arose_step (hs : s.store.Arose) (c : Command) : (step c s).2.store.Arose := by
  obtain ⟨events, -, hstore⟩ := (follows_play hs [c]).store
  exact hstore ▸ hs.run events

/-- The session behind commands, where all databases have a policy. -/
def playUnder (policy : LookupPolicy) (s : Session) (commands : List Command) : Session :=
  (s.play (commands.map (·.under policy))).2

theorem playUnder_append (policy : LookupPolicy) (s : Session) (commands : List Command)
    (c : Command) :
    s.playUnder policy (commands ++ [c]) = (step (c.under policy) (s.playUnder policy commands)).2 := by
  rw [playUnder, List.map_append, play_append]
  rfl

theorem arose_playUnder (hs : s.store.Arose) (policy : LookupPolicy) (commands : List Command) :
    (s.playUnder policy commands).store.Arose := by
  obtain ⟨events, -, hstore⟩ := (follows_play hs (commands.map (·.under policy))).store
  exact hstore ▸ hs.run events

/-- As long as no lookup diverges, the sessions agree. -/
theorem Agrees.playUnder (h : s.Agrees s') (hs : s.store.Arose) (hs' : s'.store.Arose)
    {commands : List Command} (hneutral : ∀ c ∈ commands, c.Neutral)
    (hunseen : ∀ before c, before ++ [c] <+: commands →
      ¬c.Betrays (s.playUnder p before) (s'.playUnder q before)) :
    (s.playUnder p commands).Agrees (s'.playUnder q commands) := by
  induction commands generalizing s s' with
  | nil => exact h
  | cons c rest ih =>
    have hfirst := hunseen [] c (List.prefix_append [c] rest)
    have hstep := (step_agrees_iff (p := p) (q := q) (hneutral c List.mem_cons_self) h hs hs').mpr hfirst
    refine ih hstep.2 (arose_step hs _) (arose_step hs' _)
      (fun c' hc' => hneutral c' (List.mem_cons_of_mem c hc')) fun before c' hp => ?_
    exact hunseen (c :: before) c' ((List.prefix_cons_inj c).mpr hp)

end Session

/-- **When a policy shows.** Take two sessions that begin alike, and whatever is asked of them, but for
policies, statistics and counts; in one all databases have one policy, and in the other one another
policy. Command by command they give the same answers, and go on to agree in all that they hold, up to
policies and statistics: names, sealed histories, transactions and documents. This is so exactly as long
as no lookup of a time for changing diverges. Reading as of a time, and looking up revisions, never does. -/
theorem policy_unseen_iff (p q : LookupPolicy) (clock : Instant) (lastId : Nat) (threshold : Severity)
    (commands : List Command) (hneutral : ∀ c ∈ commands, c.Neutral) :
    let s := Session.begin clock lastId threshold
    (∀ before c, before ++ [c] <+: commands →
      (Session.step (c.under p) (s.playUnder p before)).1 =
          (Session.step (c.under q) (s.playUnder q before)).1 ∧
        (s.playUnder p (before ++ [c])).Agrees (s.playUnder q (before ++ [c]))) ↔
    ∀ before c, before ++ [c] <+: commands →
      ¬c.Betrays (s.playUnder p before) (s.playUnder q before) := by
  intro s
  have hs : s.store.Arose := Store.arose_run clock []
  have hbegin : s.Agrees s := .refl rfl
  have hstep (before : List Command) (c : Command) (hp : before ++ [c] <+: commands)
      (h : (s.playUnder p before).Agrees (s.playUnder q before)) :=
    Session.step_agrees_iff (p := p) (q := q)
      (hneutral c (hp.subset (List.mem_append_right before List.mem_cons_self))) h
      (Session.arose_playUnder hs p before) (Session.arose_playUnder hs q before)
  simp only [Session.playUnder_append]
  constructor
  · intro hsame before c hp
    refine (hstep before c hp ?_).mp (hsame before c hp)
    rcases List.eq_nil_or_concat before with rfl | ⟨earlier, c', rfl⟩
    · exact hbegin
    · rw [List.concat_eq_append] at hp ⊢
      rw [Session.playUnder_append, Session.playUnder_append]
      exact (hsame earlier c' ((List.prefix_append _ [c]).trans hp)).2
  · intro hunseen before c hp
    refine (hstep before c hp (hbegin.playUnder hs hs ?_ ?_)).mpr (hunseen before c hp)
    · exact fun c' hc' => hneutral c' (hp.subset (List.mem_append_left [c] hc'))
    · exact fun before' c' hp' => hunseen before' c' (hp'.trans ((List.prefix_append before [c]).trans hp))

/-- Under both policies a collection makes a document and reads it as of a time, and neither answer nor
session shows which policy it was. -/
theorem policy_unseen_by_reader :
    let commands : List Command :=
      [.session (.addDatabase "log" .floor), .session (.openCollection 0 0 "log"),
        .collection 0 (.addAs "log" []), .collection 0 (.asOf (.second 15) .readOnly)]
    let s := Session.begin (.second 10) 0 .info
    (∀ c ∈ commands, c.Neutral) ∧ ∀ before c, before ++ [c] <+: commands →
      (Session.step (c.under .floor) (s.playUnder .floor before)).1 =
          (Session.step (c.under .nearest) (s.playUnder .nearest before)).1 ∧
        (s.playUnder .floor (before ++ [c])).Agrees (s.playUnder .nearest (before ++ [c])) := by
  intro commands s
  have hneutral : ∀ c ∈ commands, c.Neutral := by
    simp [commands, Command.Neutral, SessionCommand.Neutral]
  refine ⟨hneutral, ?_⟩
  refine (policy_unseen_iff .floor .nearest (.second 10) 0 .info commands hneutral).mpr ?_
  rintro before c hp ⟨place, time, hlookup, -⟩
  have hc : c ∈ commands := hp.subset (List.mem_append_right before List.mem_cons_self)
  have hreads : ∀ c ∈ commands, ∀ place time, ¬c.LooksUp (s.playUnder .floor before) place time := by
    simp only [commands, List.forall_mem_cons]
    refine ⟨?_, ?_, ?_, ?_, List.forall_mem_nil _⟩ <;> rintro place time ⟨_, hasks, _⟩ <;> cases hasks
  exact hreads c hc place time hlookup

/-- The revision of the document that was given out. -/
def Answer.base? : Answer → Option RevisionStamp
  | .document _ view => some view.base
  | _ => none

/-- A document was looked up for changing as of the twelfth second. As of the twenty-sixth, it is moved
forth to the revision of the twentieth second under one policy, and stays under the other one. -/
theorem policy_shows_to_writer :
    let commands : List Command :=
      [.session (.addDatabase "log" .floor), .session (.openCollection 0 0 "log"),
        .collection 0 (.addAs "log" []),
        .document 0 (.write [.setClock (.second 20), .commit, .setClock (.second 30), .commit]),
        .collection 0 (.namedAsOf "log" (.second 12) .updatable)]
    let c := Command.collection 0 (.namedAsOf "log" (.second 26) .updatable)
    let s := Session.begin (.second 10) 0 .info
    (∀ c' ∈ commands ++ [c], c'.Neutral) ∧
      (Session.step c (s.playUnder .floor commands)).1.toOption.bind Answer.base? =
        some ⟨⟨3, by decide⟩, .second 20⟩ ∧
      (Session.step c (s.playUnder .nearest commands)).1.toOption.bind Answer.base? =
        some ⟨⟨2, by decide⟩, .second 10⟩ := by
  intro commands c s
  refine ⟨?_, by decide +kernel, by decide +kernel⟩
  simp [commands, c, Command.Neutral, SessionCommand.Neutral]

end AsOf
