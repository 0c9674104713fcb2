import AsOf.Proofs.Store.Event
import AsOf.Store.Database
import Mathlib.Data.List.Nodup

/-!
# What databases list

An event does one thing to one database, or none: it lists a new resource, takes an entry off, takes all
entries off, or closes the database. So the entries of a store name different resources, also across
databases, and no database lists an id that is still to be given.

## Main definitions

* `Store.Turns`: what an event does to a database
* `Store.Listed`: the entries of a store name different resources under ids that were given already

## Main results

* `Store.database?_after`: a database behind an event is new, or what became of the one before
* `Store.listed_run`: in every store that arose from an empty one, the entries are in order
* `Store.nextId_le_run`: a database never gives an id twice
-/

namespace AsOf

/-- The database with one more entry, under the next id. -/
def Database.extended (d : Database) (name : String) (options : ResourceOptions) (place : Nat) :
    Database :=
  { d with entries := d.entries ++ [⟨d.nextId, name, options, place⟩], nextId := d.nextId + 1 }

/-- The database without the entries that have the id of an entry. -/
def Database.without (d : Database) (entry : Entry) : Database :=
  { d with entries := d.entries.filter (·.id != entry.id) }

namespace Database

variable {d : Database} {name : String} {options : ResourceOptions} {place : Nat}

theorem find?_eq_none_iff : d.find? name = none ↔ name ∉ d.names := by
  simp [find?, names, List.find?_eq_none]

/-- Where no name is used twice, every entry is found under its own. -/
theorem find?_of_mem (hnames : d.names.Nodup) {entry : Entry} (hentry : entry ∈ d.entries) :
    d.find? entry.name = some entry := by
  have hsome : (d.find? entry.name).isSome := by
    rw [Option.isSome_iff_ne_none, Ne, find?_eq_none_iff, not_not]
    exact List.mem_map_of_mem hentry
  obtain ⟨found, hfound⟩ := Option.isSome_iff_exists.mp hsome
  have hname : found.name = entry.name := by simpa using List.find?_some hfound
  rw [hfound, List.inj_on_of_nodup_map hnames (List.mem_of_find?_eq_some hfound) hentry hname]

/-- The entry that a database was extended by is found under its name. -/
theorem find?_extended (hfree : d.find? name = none) :
    (d.extended name options place).find? name = some ⟨d.nextId, name, options, place⟩ := by
  rw [find?, extended, List.find?_append, show d.entries.find? (·.name == name) = none from hfree]
  simp

/-- Taking the entry off again leaves the entries as they were, since no other one has its id. -/
theorem without_extended (hids : ∀ entry ∈ d.entries, entry.id < d.nextId) :
    (d.extended name options place).without ⟨d.nextId, name, options, place⟩ =
      { d with nextId := d.nextId + 1 } := by
  have hold : d.entries.filter (·.id != d.nextId) = d.entries :=
    List.filter_eq_self.mpr fun entry hentry => by simpa using Nat.ne_of_lt (hids entry hentry)
  have hnew : [(⟨d.nextId, name, options, place⟩ : Entry)].filter (·.id != d.nextId) = [] := by simp
  rw [without, extended, List.filter_append, hold, hnew, List.append_nil]

end Database

namespace Store

variable {s s' : Store} {db place : Nat} {d d' : Database} {entry : Entry} {name : String}
  {options : ResourceOptions} {e : StoreEvent}

/-! ## Databases in their places -/

theorem openDatabase_eq_ok_iff :
    s.openDatabase db = .ok d ↔ s.database? db = some d ∧ d.closed = false := by
  unfold openDatabase
  cases s.database? db with
  | none => simp
  | some d' =>
    rw [except_bind_eq_ok_iff]
    constructor
    · rintro ⟨⟨⟩, hopen, h⟩
      cases h
      refine ⟨rfl, ?_⟩
      unfold Database.ensureOpen at hopen
      split at hopen
      · cases hopen
      · next h => exact Bool.eq_false_iff.mpr h
    · rintro ⟨h, hopen⟩
      cases h
      exact ⟨(), by simp [Database.ensureOpen, hopen], rfl⟩

theorem openDatabase_congr (h : s'.database? db = s.database? db) :
    s'.openDatabase db = s.openDatabase db := by
  rw [openDatabase, openDatabase, h]

theorem openDatabase_setDatabase {e : Database} (hopen : s.openDatabase db = .ok d)
    (he : e.closed = false) : (s.setDatabase db e).openDatabase db = .ok e := by
  obtain ⟨hdb, -⟩ := openDatabase_eq_ok_iff.mp hopen
  have hlt := (Array.getElem?_eq_some_iff.mp hdb).1
  exact openDatabase_eq_ok_iff.mpr ⟨Array.getElem?_setIfInBounds_self_of_lt hlt, he⟩

theorem databases_endWriters (s : Store) (ids : List Nat) :
    (s.endWriters ids).databases = s.databases := by
  induction ids generalizing s with
  | nil => rfl
  | cons id ids ih => exact ih (s.endWriter id)

theorem database?_setDatabase (hd : s.database? db = some d) (d' : Database) (k : Nat) :
    (s.setDatabase db d').database? k = if k = db then some d' else s.database? k := by
  have hlt := (Array.getElem?_eq_some_iff.mp hd).1
  rw [database?, setDatabase, Array.getElem?_setIfInBounds]
  by_cases hk : db = k
  · simp [hk ▸ hlt, hk]
  · simp [hk, Ne.symm hk, database?]

theorem database?_endWriters (s : Store) (ids : List Nat) (k : Nat) :
    (s.endWriters ids).database? k = s.database? k :=
  congrArg (·[k]?) (databases_endWriters s ids)

theorem database?_created (hd : s.database? db = some d) (name : String) (options : ResourceOptions)
    (k : Nat) : (s.created db d name options).database? k =
      if k = db then some (d.extended name options s.resources.size) else s.database? k :=
  database?_setDatabase (s := { s with resources := _ }) hd _ k

theorem openDatabase_created (hopen : s.openDatabase db = .ok d) (name : String)
    (options : ResourceOptions) : (s.created db d name options).openDatabase db =
      .ok (d.extended name options s.resources.size) :=
  openDatabase_setDatabase (s := { s with resources := _ }) hopen (openDatabase_eq_ok_iff.mp hopen).2

/-- A resource that was created is found under its name. -/
theorem locate_created (hopen : s.openDatabase db = .ok d) (hfree : d.find? name = none) :
    (s.created db d name options).locate db name = .ok s.resources.size := by
  refine except_bind_eq_ok_iff.mpr ⟨_, openDatabase_created hopen name options, ?_⟩
  rw [Database.find?_extended hfree]
  rfl

theorem database?_removed (hd : s.database? db = some d) (entry : Entry) (k : Nat) :
    (s.removed db d entry).database? k =
      if k = db then some (d.without entry) else s.database? k :=
  database?_setDatabase hd _ k

theorem database?_clear (hd : s.database? db = some d) (k : Nat) :
    (s.clear db).database? k = if k = db then some { d with entries := [] } else s.database? k := by
  simp only [clear, hd]
  rw [database?_setDatabase ((database?_endWriters s _ db).trans hd), database?_endWriters]

theorem database?_close (hd : s.database? db = some d) (k : Nat) :
    (s.close db).database? k = if k = db then some { d with closed := true } else s.database? k := by
  simp only [close, hd]
  rw [database?_setDatabase ((database?_endWriters s _ db).trans hd), database?_endWriters]

/-- A resource that was created is taken away again, whatever became of it. -/
theorem remove_created {u : Store} (hopen : s.openDatabase db = .ok d) (hfree : d.find? name = none)
    (hu : u.databases = (s.created db d name options).databases) :
    u.remove db name = .ok (true, u.removed db (d.extended name options s.resources.size)
      ⟨d.nextId, name, options, s.resources.size⟩) := by
  have hopen' : u.openDatabase db = .ok (d.extended name options s.resources.size) :=
    (openDatabase_congr (congrArg (·[db]?) hu)).trans (openDatabase_created hopen name options)
  refine remove_eq_ok_iff.mpr ⟨_, hopen', ?_⟩
  rw [Database.find?_extended hfree]
  exact ⟨rfl, rfl⟩

/-- Then the databases are as before, but for the id that was given. -/
theorem databases_removed_created {u : Store} (hids : ∀ entry ∈ d.entries, entry.id < d.nextId)
    (hu : u.databases = (s.created db d name options).databases) :
    (u.removed db (d.extended name options s.resources.size)
      ⟨d.nextId, name, options, s.resources.size⟩).databases =
      s.databases.setIfInBounds db { d with nextId := d.nextId + 1 } := by
  show u.databases.setIfInBounds db ((d.extended name options s.resources.size).without
    ⟨d.nextId, name, options, s.resources.size⟩) = _
  rw [hu, created, setDatabase, Array.setIfInBounds_setIfInBounds, Database.without_extended hids]

/-! ## Scripts do not touch databases -/

theorem databases_of_edit {w : WriterRef} {e : Edit} {answer : EditAnswer}
    (h : s.edit w e = .ok (answer, s')) : s'.databases = s.databases := by
  unfold edit at h
  split at h
  · cases h
  · obtain ⟨⟨a, r⟩, -, h⟩ := except_bind_eq_ok_iff.mp h
    cases h
    cases e <;> rfl

theorem databases_runScript (s : Store) (w : WriterRef) (edits : List Edit) :
    (s.runScript w edits).2.databases = s.databases := by
  induction edits generalizing s with
  | nil => rfl
  | cons e rest ih =>
    rw [runScript]
    split
    · next s' h => exact (ih s').trans (databases_of_edit h)
    · rfl

/-! ## What an event does to a database -/

/-- What an event does to a database of the store. -/
inductive Turns (s : Store) (db : Nat) (e : StoreEvent) (d : Database) : Database → Prop
  | kept : Turns s db e d d
  | created {name : String} {options : ResourceOptions} (he : e = .create db name options)
      (hopen : d.closed = false) (hfree : d.find? name = none) :
      Turns s db e d (d.extended name options s.resources.size)
  | removed {name : String} {entry : Entry} (he : e = .remove db name) (hopen : d.closed = false)
      (hfind : d.find? name = some entry) : Turns s db e d (d.without entry)
  | cleared (he : e = .clear db) : Turns s db e d { d with entries := [] }
  | closed (he : e = .close db) : Turns s db e d { d with closed := true }

/-- What an event makes of a database. -/
theorem exists_turns (hd : s.database? db = some d) (e : StoreEvent) :
    ∃ d', (s.after e).database? db = some d' ∧ s.Turns db e d d' := by
  cases e with
  | setClock => exact ⟨d, hd, .kept⟩
  | addDatabase name lookup =>
    have hlt := (Array.getElem?_eq_some_iff.mp hd).1
    exact ⟨d, (Array.getElem?_push_lt hlt).trans ((Array.getElem?_eq_getElem hlt).symm.trans hd), .kept⟩
  | create k name options =>
    simp only [after]
    split
    · next s' h =>
      obtain ⟨u, hopen, hfree, rfl⟩ := create_eq_ok_iff.mp h
      obtain ⟨hu, hclosed⟩ := openDatabase_eq_ok_iff.mp hopen
      rw [database?_created hu]
      split
      · next hk =>
        subst hk
        obtain rfl := Option.some.inj (hd.symm.trans hu)
        exact ⟨_, rfl, .created rfl hclosed hfree⟩
      · exact ⟨d, hd, .kept⟩
    · exact ⟨d, hd, .kept⟩
  | remove k name =>
    simp only [after]
    split
    · next found s' h =>
      obtain ⟨u, hopen, h⟩ := remove_eq_ok_iff.mp h
      obtain ⟨hu, hclosed⟩ := openDatabase_eq_ok_iff.mp hopen
      split at h
      · obtain ⟨-, rfl⟩ := h
        exact ⟨d, hd, .kept⟩
      · next entry hfind =>
        obtain ⟨-, rfl⟩ := h
        rw [database?_removed hu]
        split
        · next hk =>
          subst hk
          obtain rfl := Option.some.inj (hd.symm.trans hu)
          exact ⟨_, rfl, .removed rfl hclosed hfind⟩
        · exact ⟨d, hd, .kept⟩
    · exact ⟨d, hd, .kept⟩
  | clear k =>
    by_cases hk : db = k
    · subst hk
      exact ⟨_, (database?_clear hd db).trans (if_pos rfl), .cleared rfl⟩
    · cases hu : s.database? k with
      | none => exact ⟨d, by simpa only [after, clear, hu] using hd, .kept⟩
      | some u => exact ⟨d, (database?_clear hu db).trans ((if_neg hk).trans hd), .kept⟩
  | close k =>
    by_cases hk : db = k
    · subst hk
      exact ⟨_, (database?_close hd db).trans (if_pos rfl), .closed rfl⟩
    · cases hu : s.database? k with
      | none => exact ⟨d, by simpa only [after, close, hu] using hd, .kept⟩
      | some u => exact ⟨d, (database?_close hu db).trans ((if_neg hk).trans hd), .kept⟩
  | resource place event =>
    simp only [after]
    split <;> exact ⟨d, hd, .kept⟩

theorem size_databases_after (he : ∀ name lookup, e ≠ .addDatabase name lookup) :
    (s.after e).databases.size = s.databases.size := by
  cases e with
  | setClock => rfl
  | addDatabase name lookup => exact absurd rfl (he name lookup)
  | create k name options =>
    simp only [after]
    split
    · next h =>
      obtain ⟨d, -, -, rfl⟩ := create_eq_ok_iff.mp h
      exact Array.size_setIfInBounds
    · rfl
  | remove k name =>
    simp only [after]
    split
    · next h =>
      obtain ⟨d, -, h⟩ := remove_eq_ok_iff.mp h
      split at h
      · obtain ⟨-, rfl⟩ := h
        rfl
      · obtain ⟨-, rfl⟩ := h
        exact Array.size_setIfInBounds
    · rfl
  | clear k | close k =>
    simp only [after, clear, close]
    split
    · rfl
    · rw [setDatabase, Array.size_setIfInBounds, databases_endWriters]
  | resource place event =>
    simp only [after]
    split <;> rfl

/-- A database that an event brings about is empty. -/
theorem eq_of_after (hnone : s.database? db = none) (hd : (s.after e).database? db = some d) :
    ∃ name lookup, d = { name, lookup } := by
  by_cases he : ∃ name lookup, e = .addDatabase name lookup
  · obtain ⟨name, lookup, rfl⟩ := he
    rw [after, addDatabase, database?, Array.getElem?_push] at hd
    split at hd
    · exact ⟨name, lookup, (Option.some.inj hd).symm⟩
    · cases hnone.symm.trans hd
  · have hsize := size_databases_after (s := s) fun name lookup h => he ⟨name, lookup, h⟩
    have hlt := (Array.getElem?_eq_some_iff.mp hd).1
    have hle := Array.getElem?_eq_none_iff.mp hnone
    omega

/-- A database behind an event is empty, or the event made it of the one before. -/
theorem database?_after (hd : (s.after e).database? db = some d') :
    (∃ name lookup, d' = { name, lookup }) ∨
      ∃ d, s.database? db = some d ∧ s.Turns db e d d' := by
  cases hbefore : s.database? db with
  | none => exact .inl (eq_of_after hbefore hd)
  | some d =>
    obtain ⟨u, hu, hturns⟩ := exists_turns hbefore e
    obtain rfl := Option.some.inj (hu.symm.trans hd)
    exact .inr ⟨d, rfl, hturns⟩

/-- An entry behind an event was there before, or is that of a resource that the event creates. -/
theorem Turns.mem_entries (h : s.Turns db e d d') (hentry : entry ∈ d'.entries) :
    entry ∈ d.entries ∨ ∃ name options, e = .create db name options ∧ d.closed = false ∧
      d.find? name = none ∧ entry = ⟨d.nextId, name, options, s.resources.size⟩ := by
  cases h with
  | kept | closed => exact .inl hentry
  | @created name options he hopen hfree =>
    rcases List.mem_append.mp hentry with hold | hnew
    · exact .inl hold
    · exact .inr ⟨name, options, he, hopen, hfree, List.mem_singleton.mp hnew⟩
  | removed => exact .inl (List.mem_filter.mp hentry).1
  | cleared => cases hentry

/-- A database that was closed is not opened again. -/
theorem Turns.closed_eq_false (h : s.Turns db e d d') (hopen : d'.closed = false) : d.closed = false := by
  cases h with
  | kept => exact hopen
  | created _ hopen => exact hopen
  | removed _ hopen => exact hopen
  | cleared => exact hopen
  | closed => cases hopen

theorem Turns.nextId_le (h : s.Turns db e d d') : d.nextId ≤ d'.nextId := by
  cases h with
  | created => exact Nat.le_succ _
  | kept | removed | cleared | closed => exact Nat.le_refl _

/-- The id of a new resource is the last one that was given. -/
theorem Turns.id_lt (h : s.Turns db e d d') (hids : ∀ entry ∈ d.entries, entry.id < d.nextId)
    (hentry : entry ∈ d'.entries) : entry.id < d'.nextId := by
  rcases h.mem_entries hentry with hold | ⟨name, options, rfl, hopen, hfree, rfl⟩
  · exact Nat.lt_of_lt_of_le (hids entry hold) h.nextId_le
  · cases h with
    | created => exact Nat.lt_succ_self _
    | kept => exact absurd (hids _ hentry) (Nat.lt_irrefl _)
    | _ => contradiction

/-! ## Entries in order -/

/-- The entries of a store name different resources, which are there, under ids below the next one. -/
structure Listed (s : Store) : Prop where
  placed : ∀ {db d entry}, s.database? db = some d → entry ∈ d.entries →
    entry.resource < s.resources.size
  ids : ∀ {db d entry}, s.database? db = some d → entry ∈ d.entries → entry.id < d.nextId
  unique : ∀ {db d entry db' d' entry'}, s.database? db = some d → entry ∈ d.entries →
    s.database? db' = some d' → entry' ∈ d'.entries → entry.resource = entry'.resource →
    db = db' ∧ entry = entry'

theorem after_create (hd : s.database? db = some d) (hopen : d.closed = false)
    (hfree : d.find? name = none) :
    s.after (.create db name options) = s.created db d name options := by
  have hcreate : s.create db name options = .ok (s.created db d name options) :=
    create_eq_ok_iff.mpr ⟨d, openDatabase_eq_ok_iff.mpr ⟨hd, hopen⟩, hfree, rfl⟩
  simp only [after, hcreate]

theorem size_resources_le_after (s : Store) (e : StoreEvent) :
    s.resources.size ≤ (s.after e).resources.size := by
  rcases Nat.eq_zero_or_pos s.resources.size with hzero | hpos
  · exact hzero ▸ Nat.zero_le _
  · have hlast : s.resources.size - 1 < s.resources.size := Nat.sub_lt hpos Nat.one_pos
    have hr : s.resource? (s.resources.size - 1) = some _ := Array.getElem?_eq_getElem hlast
    obtain ⟨hlt, -⟩ := Array.getElem?_eq_some_iff.mp (resource?_after hr e)
    omega

/-- Every entry was there before the event, or is that of the resource that the event creates. -/
theorem mem_entries_of_after (hd' : (s.after e).database? db = some d') (hentry : entry ∈ d'.entries) :
    (∃ d, s.database? db = some d ∧ entry ∈ d.entries) ∨ ∃ d name options,
      s.database? db = some d ∧ e = .create db name options ∧
      s.after e = s.created db d name options ∧
      entry = ⟨d.nextId, name, options, s.resources.size⟩ := by
  rcases database?_after hd' with ⟨name, lookup, rfl⟩ | ⟨d, hd, hturns⟩
  · cases hentry
  · rcases hturns.mem_entries hentry with hold | ⟨name, options, rfl, hopen, hfree, hnew⟩
    · exact .inl ⟨d, hd, hold⟩
    · exact .inr ⟨d, name, options, hd, rfl, after_create hd hopen hfree, hnew⟩

theorem Listed.after (hs : s.Listed) (e : StoreEvent) : (s.after e).Listed := by
  refine ⟨?_, ?_, ?_⟩
  · intro db d entry hd hentry
    rcases mem_entries_of_after hd hentry with ⟨u, hu, hold⟩ | ⟨u, name, options, hu, -, hafter, rfl⟩
    · exact Nat.lt_of_lt_of_le (hs.placed hu hold) (size_resources_le_after s e)
    · rw [hafter]
      show s.resources.size < (s.resources.push _).size
      rw [Array.size_push]
      exact Nat.lt_succ_self _
  · intro db d entry hd hentry
    rcases database?_after hd with ⟨name, lookup, rfl⟩ | ⟨u, hu, hturns⟩
    · cases hentry
    · exact hturns.id_lt (fun _ => hs.ids hu) hentry
  · intro db d entry db' d' entry' hd hentry hd' hentry' heq
    rcases mem_entries_of_after hd hentry with ⟨u, hu, hold⟩ | ⟨u, name, options, hu, he, -, hnew⟩
    · rcases mem_entries_of_after hd' hentry' with ⟨u', hu', hold'⟩ | ⟨u', _, _, hu', _, -, rfl⟩
      · exact hs.unique hu hold hu' hold' heq
      · exact absurd heq (Nat.ne_of_lt (hs.placed hu hold))
    · rcases mem_entries_of_after hd' hentry' with ⟨u', hu', hold'⟩ | ⟨u', _, _, hu', he', -, hnew'⟩
      · rw [hnew] at heq
        exact absurd heq.symm (Nat.ne_of_lt (hs.placed hu' hold'))
      · -- There is one event, so there is one new resource.
        cases he.symm.trans he'
        obtain rfl := Option.some.inj (hu.symm.trans hu')
        exact ⟨rfl, hnew.trans hnew'.symm⟩

theorem Listed.run (hs : s.Listed) (events : List StoreEvent) : (s.run events).Listed := by
  induction events generalizing s with
  | nil => exact hs
  | cons e events ih => exact ih (hs.after e)

/-- In every store that arose from an empty one, the entries are in order. -/
theorem listed_run (clock : Instant) (events : List StoreEvent) : (run { clock } events).Listed := by
  have hnone (db : Nat) : ({ clock } : Store).database? db = none := by simp [database?]
  refine Listed.run ⟨?_, ?_, ?_⟩ events
  · intro db d entry hd
    cases (hnone db).symm.trans hd
  · intro db d entry hd
    cases (hnone db).symm.trans hd
  · intro db d entry db' d' entry' hd
    cases (hnone db).symm.trans hd

/-- A database stays in its place, and never takes an id back. -/
theorem nextId_le_run (hd : s.database? db = some d) (events : List StoreEvent) :
    ∃ d', (s.run events).database? db = some d' ∧ d.nextId ≤ d'.nextId := by
  induction events generalizing s d with
  | nil => exact ⟨d, hd, Nat.le_refl _⟩
  | cons e events ih =>
    obtain ⟨u, hu, hturns⟩ := exists_turns hd e
    obtain ⟨d', hd', hle⟩ := ih hu
    exact ⟨d', hd', Nat.le_trans hturns.nextId_le hle⟩

end Store

end AsOf
