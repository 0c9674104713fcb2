import AsOf.Proofs.Collection.Events

/-!
# Names of new documents

A collection names a new document for the number of resources that its database has. That name is free
as long as resources were only added so, and only taken away all at once. When a single resource was
removed, or one was given another name, it need not be, and the collection does not look for another
one.

## Main definitions

* `Collection.numbered`: the names that a collection gives one after the other
* `Store.Numbered`: the resources of a database have the first of these names, in order
* `Collection.OnlyAdded`: how the stores arise in which this holds

## Main results

* `Store.Numbered.find?_eq_none`: then the next name is free
* `Collection.OnlyAdded.numbered`: adding and clearing keeps the names in order
* `add_eq_ok_iff_free`: when a collection makes a document, and what it leaves
-/

namespace AsOf

open Observed

/-- The names that a collection gives one after the other. -/
def Collection.numbered (resourcePrefix : String) (n : Nat) : List String :=
  (List.range n).map fun i => resourcePrefix ++ Text.decimal (i + 1)

theorem Text.decimal_injective {m n : Nat} (h : decimal m = decimal n) : m = n := by
  have hdigits : digits m = digits n := String.ofList_injective h
  rw [← numeralValue_digits m, hdigits, numeralValue_digits]

namespace Store

/-- The database is open, its resources are named in order, and the next id is not in use. -/
structure Numbered (s : Store) (db : Nat) (resourcePrefix : String) (d : Database) : Prop where
  isOpen : s.openDatabase db = .ok d
  names : d.names = Collection.numbered resourcePrefix d.entries.length
  ids : ∀ entry ∈ d.entries, entry.id < d.nextId

variable {s s' : Store} {db : Nat} {d : Database} {resourcePrefix name : String}

/-- The next name is free. -/
theorem Numbered.find?_eq_none (h : s.Numbered db resourcePrefix d) :
    d.find? (resourcePrefix ++ Text.decimal (d.entries.length + 1)) = none := by
  rw [Database.find?_eq_none_iff, h.names, Collection.numbered]
  intro hmem
  obtain ⟨i, hi, heq⟩ := List.mem_map.mp hmem
  have hnumber := Text.decimal_injective ((String.append_right_inj resourcePrefix).mp heq)
  have hlt := List.mem_range.mp hi
  omega

/-- Whether names are in order depends on the database only. -/
theorem Numbered.congr (h : s.Numbered db resourcePrefix d)
    (heq : s'.database? db = s.database? db) : s'.Numbered db resourcePrefix d :=
  ⟨(openDatabase_congr heq).trans h.isOpen, h.names, h.ids⟩

variable {options : ResourceOptions}

/-- A resource that is created under the next name keeps the names in order. -/
theorem Numbered.created (h : s.Numbered db resourcePrefix d)
    (hname : name = resourcePrefix ++ Text.decimal (d.entries.length + 1)) (options : ResourceOptions) :
    ∃ d', (s.created db d name options).Numbered db resourcePrefix d' := by
  refine ⟨_, openDatabase_setDatabase (s := { s with resources := _ }) h.isOpen
    (openDatabase_eq_ok_iff.mp h.isOpen).2, ?_, ?_⟩
  · rw [Database.names, List.map_append, List.length_append, Collection.numbered, List.length_singleton,
      List.range_succ, List.map_append, hname]
    exact congrArg (· ++ _) h.names
  · intro entry hentry
    rcases List.mem_append.mp hentry with hentry | hentry
    · exact Nat.lt_succ_of_lt (h.ids entry hentry)
    · obtain rfl := List.mem_singleton.mp hentry
      exact Nat.lt_succ_self _

/-- A resource that is taken away again right after it was created leaves the names as they were. -/
theorem Numbered.created_removed {found : Bool} {u u' : Store} (h : s.Numbered db resourcePrefix d)
    (hfree : d.find? name = none) (hu : u.databases = (s.created db d name options).databases)
    (hremove : u.remove db name = .ok (found, u')) : ∃ d', u'.Numbered db resourcePrefix d' := by
  obtain ⟨hdb, hclosed⟩ := openDatabase_eq_ok_iff.mp h.isOpen
  obtain ⟨-, rfl⟩ := Prod.mk.inj (Except.ok.inj ((remove_created h.isOpen hfree hu).symm.trans hremove))
  have hlt := (Array.getElem?_eq_some_iff.mp hdb).1
  refine ⟨{ d with nextId := d.nextId + 1 }, openDatabase_eq_ok_iff.mpr ⟨?_, hclosed⟩, h.names,
    fun entry hentry => Nat.lt_succ_of_lt (h.ids entry hentry)⟩
  rw [database?, databases_removed_created h.ids hu]
  exact Array.getElem?_setIfInBounds_self_of_lt hlt

/-- A database without resources has its names in order. -/
theorem numbered_of_entries_eq_nil (hopen : s.openDatabase db = .ok d) (hempty : d.entries = []) :
    s.Numbered db resourcePrefix d :=
  ⟨hopen, by rw [Database.names, hempty]; rfl, by simp [hempty]⟩

theorem Numbered.clear (h : s.Numbered db resourcePrefix d) :
    (s.clear db).Numbered db resourcePrefix { d with entries := [] } := by
  obtain ⟨hdb, hclosed⟩ := openDatabase_eq_ok_iff.mp h.isOpen
  refine numbered_of_entries_eq_nil ?_ rfl
  rw [Store.clear, hdb]
  refine openDatabase_setDatabase (d := d) ?_ hclosed
  exact (openDatabase_congr (congrArg (·[db]?) (databases_endWriters s _))).trans h.isOpen

end Store

namespace Collection

open Store

variable {s s' : Store} {c : Collection} {d : Database} {f : Faults} {edits : List Edit}

/-- Making a document under the next name keeps the names in order, also if it cannot be made. -/
theorem numbered_make (h : s.Numbered c.database c.settings.resourcePrefix d) (counters : Counters)
    (j : Journal) : ∃ d', (make f c (c.nextName s) edits ⟨s, counters, j⟩).2.state.Numbered
      c.database c.settings.resourcePrefix d' := by
  have hname : c.nextName s =
      c.settings.resourcePrefix ++ Text.decimal (d.entries.length + 1) := by
    rw [nextName, Store.names, (openDatabase_eq_ok_iff.mp h.isOpen).1, Option.elim_some, Database.names,
      List.length_map]
  obtain ⟨d', hcreated⟩ := h.created hname c.settings.resource
  have hkept {u : Store} (hu : u.databases =
      (s.created c.database d (c.nextName s) c.settings.resource).databases) :
      ∃ d', u.Numbered c.database c.settings.resourcePrefix d' :=
    ⟨d', hcreated.congr (congrArg (·[c.database]?) hu)⟩
  obtain ⟨result, ks, hmake, houtcome⟩ := exists_outcome f c s (c.nextName s) edits
  obtain ⟨_, _, hrun⟩ := hmake.yields counters j
  rw [hrun]
  generalize s.run (makeEvents f c s (c.nextName s) edits) = u at houtcome
  cases houtcome with
  | refused => exact ⟨d, h⟩
  | made _ hopen hfree hingests =>
    obtain rfl := Except.ok.inj (h.isOpen.symm.trans hopen)
    exact hkept hingests.databases
  | undone _ hopen hfree hu =>
    obtain rfl := Except.ok.inj (h.isOpen.symm.trans hopen)
    exact h.created_removed hfree hu (remove_created hopen hfree hu)
  | stranded _ hopen _ _ hu =>
    obtain rfl := Except.ok.inj (h.isOpen.symm.trans hopen)
    exact hkept hu

/-- A store with a database to which resources were only added by collections with one prefix, and
from which they were only taken away all at once. Whatever leaves the database as it is may have
happened in between. -/
inductive OnlyAdded (db : Nat) (resourcePrefix : String) : Store → Prop
  | start {s : Store} {d : Database} (hopen : s.openDatabase db = .ok d) (hempty : d.entries = []) :
    OnlyAdded db resourcePrefix s
  | add {s : Store} (f : Faults) (c : Collection) (edits : List Edit) (counters : Counters)
    (j : Journal) (h : OnlyAdded db resourcePrefix s) (hdb : c.database = db)
    (hresources : c.settings.resourcePrefix = resourcePrefix) :
    OnlyAdded db resourcePrefix (c.add f edits ⟨s, counters, j⟩).2.state
  | clear {s : Store} (h : OnlyAdded db resourcePrefix s) : OnlyAdded db resourcePrefix (s.clear db)
  | other {s s' : Store} (h : OnlyAdded db resourcePrefix s)
    (heq : s'.database? db = s.database? db) : OnlyAdded db resourcePrefix s'

/-- Adding and clearing keep the names in order. -/
theorem OnlyAdded.numbered {db : Nat} {resourcePrefix : String} (h : OnlyAdded db resourcePrefix s) :
    ∃ d, s.Numbered db resourcePrefix d := by
  induction h with
  | start hopen hempty => exact ⟨_, numbered_of_entries_eq_nil hopen hempty⟩
  | @add s f c edits counters j _ hdb hresources ih =>
    subst hdb hresources
    obtain ⟨d, hd⟩ := ih
    obtain ⟨j', -, hstate⟩ := exists_addAs f c (c.nextName s) edits ⟨s, counters, j⟩
    have hadd : (c.add f edits ⟨s, counters, j⟩).2.state = _ := hstate
    exact hadd ▸ numbered_make hd counters j'
  | clear _ ih =>
    obtain ⟨d, hd⟩ := ih
    exact ⟨_, hd.clear⟩
  | other _ heq ih =>
    obtain ⟨d, hd⟩ := ih
    exact ⟨d, hd.congr heq⟩

/-- The next name is free as long as resources were only added. -/
theorem OnlyAdded.find?_eq_none (h : OnlyAdded c.database c.settings.resourcePrefix s)
    (hopen : s.openDatabase c.database = .ok d) : d.find? (c.nextName s) = none := by
  obtain ⟨d', hd⟩ := h.numbered
  obtain rfl := Except.ok.inj (hopen.symm.trans hd.isOpen)
  obtain ⟨hdb, -⟩ := openDatabase_eq_ok_iff.mp hopen
  rw [nextName, Store.names, hdb, Option.elim_some, Database.names, List.length_map]
  exact hd.find?_eq_none

end Collection

/-- **When a collection finds a name for a document.** Take any store with an open database, any
collection over it and any script that runs to its end on the first write transaction of a new
resource. The collection makes a document exactly if no resource of the database has the name that
stands for the number of its resources, and this is so whenever resources were only added, or all
taken away at once. Then the resource is new, with what the script left sealed in it, and everything else
is as before: `Collection.Ingests` says it of the store, down to the sealed tree. If the name is in use,
the collection refuses, and the store is as before. -/
theorem add_eq_ok_iff_free (s : Store) (c : Collection) (d : Database) (edits : List Edit)
    (counters : Counters) (j : Journal) (hopen : s.openDatabase c.database = .ok d)
    (haccepts : (Resource.create (c.nextName s) d.lookup s.clock).Accepts s.clock edits) :
    let name := c.nextName s
    let answer := c.add .none edits ⟨s, counters, j⟩
    ((∃ document, answer.1 = .ok document) ↔ d.find? name = none) ∧
      (Collection.OnlyAdded c.database c.settings.resourcePrefix s → d.find? name = none) ∧
      (∀ document, answer.1 = .ok document →
        c.Ingests s d name edits document answer.2.state) ∧
      (d.find? name ≠ none →
        answer.1 = .error (.ingestion name (.resourceExists name)) ∧ answer.2.state = s) := by
  intro name answer
  have honly (h : Collection.OnlyAdded c.database c.settings.resourcePrefix s) :
      d.find? name = none := h.find?_eq_none hopen
  by_cases hfree : d.find? name = none
  · obtain ⟨document, s', hingests, hmake⟩ := Collection.reports_make hopen hfree haccepts
    obtain ⟨written, hdoes⟩ := Collection.does_addAs hmake
    have hanswer : answer = (.ok document, ⟨s', _, _⟩) := hdoes counters j
    rw [hanswer]
    refine ⟨⟨fun _ => hfree, fun _ => ⟨document, rfl⟩⟩, honly, fun other h => ?_,
      fun h => absurd hfree h⟩
    cases h
    exact hingests
  · have hmake : Observed.Reports (Collection.make .none c name edits) s _ s [] :=
      Collection.reports_make_of_refused (Store.create_of_taken hopen hfree)
    obtain ⟨written, hdoes⟩ := Collection.does_addAs_of_error hmake
    have hanswer : answer = (.error (.ingestion name (.resourceExists name)), ⟨s, _, _⟩) :=
      hdoes counters j
    rw [hanswer]
    refine ⟨⟨?_, fun h => absurd h hfree⟩, honly, fun document h => ?_, fun _ => ⟨rfl, rfl⟩⟩
    · rintro ⟨document, h⟩
      cases h
    · cases h

/-- A collection over an empty database makes a document of a script that inserts one text. -/
theorem add_to_empty_database :
    let c : Collection := { id := 1, name := "log", database := 0 }
    let s := ({} : Store).addDatabase { name := "log" }
    let edits := [Edit.insert (.text "first")]
    s.openDatabase 0 = .ok { name := "log" } ∧
      (Resource.create (c.nextName s) .default s.clock).Accepts s.clock edits ∧
      ∃ document, (c.add .none edits ⟨s, {}, {}⟩).1 = .ok document := by
  intro c s edits
  have haccepts : (Resource.create (c.nextName s) .default s.clock).Accepts s.clock edits :=
    ⟨0, _, rfl, rfl⟩
  have hadd := add_eq_ok_iff_free s c { name := "log" } edits {} {} rfl haccepts
  exact ⟨rfl, haccepts, hadd.1.mpr rfl⟩

/-- A collection to which two documents were added, and from which the first one was removed, finds no
name for the next one: the second one has it. -/
theorem add_fails_after_remove :
    let c : Collection := { id := 1, name := "log", database := 0 }
    let s := ({} : Store).addDatabase { name := "log" }
    let run : Action (Observed Store) CollectionError Bool := do
      let _ ← c.add .none []
      let _ ← c.add .none []
      c.remove .none 0
    let o := (run ⟨s, {}, {}⟩).2
    (run ⟨s, {}, {}⟩).1.toOption = some true ∧ o.state.names 0 = ["resource2"] ∧
      (o.state.openDatabase 0).toOption.isSome ∧
      (Resource.create (c.nextName o.state) .default o.state.clock).Accepts o.state.clock [] ∧
      ∀ document, (c.add .none [] o).1 ≠ .ok document := by
  intro c s run o
  have hnone : (c.add .none [] o).1.toOption = none := by decide +kernel
  refine ⟨by decide +kernel, by decide +kernel, by decide +kernel, ⟨0, _, rfl, rfl⟩,
    fun document h => ?_⟩
  rw [h] at hnone
  cases hnone

end AsOf
