import AsOf.Proofs.Lookup.Leeway
import AsOf.Store.Database

/-!
# Stores within a leeway

Two stores are alike if their resources are, one by one, and their databases differ in nothing but the
policy that they give to new resources, within the leeway. Whatever is done to both by way of databases
and scripts leaves them alike.

## Main definitions

* `Pointwise`: arrays whose items are related one by one
* `Database.Like`, `Store.Like`: the same but for a leeway

## Main results

* `Store.Like.create`, `Store.Like.remove`, `Store.Like.clear`, `Store.Like.close`: databases
* `Store.Like.edit`, `Store.Like.runScript`: scripts
* `Store.inStep_onResource`: actions on one resource
-/

namespace AsOf

/-! ## Arrays item by item -/

/-- The arrays are as long, and their items are related one by one. -/
def Pointwise {α : Type} (R : α → α → Prop) (xs ys : Array α) : Prop :=
  ∀ i : Nat, Option.Rel R xs[i]? ys[i]?

namespace Pointwise

variable {α : Type} {R : α → α → Prop} {xs ys : Array α} {x y : α}

theorem refl (h : ∀ x, R x x) : Pointwise R xs xs := by
  intro i
  cases xs[i]? with
  | none => exact .none
  | some x => exact .some (h x)

theorem mono {R' : α → α → Prop} (h : Pointwise R xs ys) (hmono : ∀ {x y}, R x y → R' x y) :
    Pointwise R' xs ys := by
  intro i
  have hi := h i
  generalize xs[i]? = a, ys[i]? = b at hi ⊢
  cases hi with
  | none => exact .none
  | some h => exact .some (hmono h)

theorem eq_of (h : Pointwise R xs ys) (heq : ∀ {x y}, R x y → y = x) : ys = xs := by
  refine Array.ext_getElem? fun i => ?_
  have hi := h i
  generalize xs[i]? = a, ys[i]? = b at hi
  cases hi with
  | none => rfl
  | some h => rw [heq h]

theorem size_eq (h : Pointwise R xs ys) : ys.size = xs.size := by
  have hnone (i : Nat) : xs.size ≤ i ↔ ys.size ≤ i := by
    rw [← Array.getElem?_eq_none_iff, ← Array.getElem?_eq_none_iff]
    have hi := h i
    generalize xs[i]? = a, ys[i]? = b at hi
    cases hi <;> simp
  exact Nat.le_antisymm ((hnone _).mp (Nat.le_refl _)) ((hnone _).mpr (Nat.le_refl _))

theorem push (h : Pointwise R xs ys) (hxy : R x y) : Pointwise R (xs.push x) (ys.push y) := by
  intro i
  rw [Array.getElem?_push, Array.getElem?_push, h.size_eq]
  split
  · exact .some hxy
  · exact h i

theorem setIfInBounds (h : Pointwise R xs ys) (hxy : R x y) (k : Nat) :
    Pointwise R (xs.setIfInBounds k x) (ys.setIfInBounds k y) := by
  intro i
  rw [Array.getElem?_setIfInBounds, Array.getElem?_setIfInBounds, h.size_eq]
  split
  · split
    · exact .some hxy
    · exact .none
  · exact h i

theorem modify {f g : α → α} (h : Pointwise R xs ys) (hfg : ∀ {x y}, R x y → R (f x) (g y))
    (k : Nat) : Pointwise R (xs.modify k f) (ys.modify k g) := by
  intro i
  have hi := h i
  rw [Array.getElem?_modify, Array.getElem?_modify]
  split
  · generalize xs[i]? = a, ys[i]? = b at hi
    cases hi with
    | none => exact .none
    | some h => exact .some (hfg h)
  · exact hi

theorem modify_left {f : α → α} (h : Pointwise R xs ys) (hf : ∀ {x y}, R x y → R (f x) y) (k : Nat) :
    Pointwise R (xs.modify k f) ys := by
  intro i
  have hi := h i
  rw [Array.getElem?_modify]
  split
  · generalize xs[i]? = a, ys[i]? = b at hi
    cases hi with
    | none => exact .none
    | some h => exact .some (hf h)
  · exact hi

end Pointwise

/-! ## Stores -/

/-- The databases differ in their policies only, and within the leeway. -/
inductive Database.Like (L : Leeway) (d : Database) : Database → Prop
  | mk {lookup : LookupPolicy} (hlookup : L.lookup d.lookup lookup) : Like L d { d with lookup }

/-- The stores are the same but for policies and statistics, which differ within the leeway. -/
structure Store.Like (L : Leeway) (s s' : Store) : Prop where
  clock_eq : s'.clock = s.clock
  resources : Pointwise (Resource.Like L) s.resources s'.resources
  databases : Pointwise (Database.Like L) s.databases s'.databases

namespace Store

open AsOf.Action

variable {L : Leeway} {s s' : Store} {place db : Nat} {name : String}

theorem Like.setResource {r r' : Resource} (h : s.Like L s') (hr : r.Like L r') (place : Nat) :
    (s.setResource place r).Like L (s'.setResource place r') :=
  ⟨h.clock_eq, h.resources.setIfInBounds hr place, h.databases⟩

theorem Like.setDatabase {d d' : Database} (h : s.Like L s') (hd : d.Like L d') (db : Nat) :
    (s.setDatabase db d).Like L (s'.setDatabase db d') :=
  ⟨h.clock_eq, h.resources, h.databases.setIfInBounds hd db⟩

theorem Like.addDatabase {d d' : Database} (h : s.Like L s') (hd : d.Like L d') :
    (s.addDatabase d).Like L (s'.addDatabase d') :=
  ⟨h.clock_eq, h.resources, h.databases.push hd⟩

theorem Like.setClock (h : s.Like L s') (time : Instant) :
    ({ s with clock := time } : Store).Like L { s' with clock := time } :=
  ⟨rfl, h.resources, h.databases⟩

theorem Like.database?_cases (h : s.Like L s') (db : Nat) :
    s.database? db = none ∧ s'.database? db = none ∨
      ∃ d lookup, s.database? db = some d ∧ s'.database? db = some { d with lookup } ∧
        L.lookup d.lookup lookup := by
  have hd := h.databases db
  unfold database?
  generalize s.databases[db]? = a, s'.databases[db]? = b at hd
  cases hd with
  | none => exact .inl ⟨rfl, rfl⟩
  | some hd =>
    obtain ⟨hlookup⟩ := hd
    exact .inr ⟨_, _, rfl, rfl, hlookup⟩

theorem Like.resource?_cases (h : s.Like L s') (place : Nat) :
    s.resource? place = none ∧ s'.resource? place = none ∨
      ∃ r r', s.resource? place = some r ∧ s'.resource? place = some r' ∧ r.Like L r' := by
  have hr := h.resources place
  unfold resource?
  generalize s.resources[place]? = a, s'.resources[place]? = b at hr
  cases hr with
  | none => exact .inl ⟨rfl, rfl⟩
  | some hr => exact .inr ⟨_, _, rfl, rfl, hr⟩

theorem Like.names_eq (h : s.Like L s') (db : Nat) : s'.names db = s.names db := by
  unfold names
  rcases h.database?_cases db with ⟨hd, hd'⟩ | ⟨d, lookup, hd, hd', hlookup⟩
  · rw [hd, hd']
  · rw [hd, hd']
    rfl

/-! ## Databases -/

/-- Both databases are refused with the same error, or both are open. -/
theorem Like.openDatabase (h : s.Like L s') (db : Nat) :
    (∃ e, s.openDatabase db = .error e ∧ s'.openDatabase db = .error e) ∨
      ∃ d lookup, s.openDatabase db = .ok d ∧ s'.openDatabase db = .ok { d with lookup } ∧
        L.lookup d.lookup lookup := by
  unfold Store.openDatabase
  rcases h.database?_cases db with ⟨hd, hd'⟩ | ⟨d, lookup, hd, hd', hlookup⟩ <;> rw [hd, hd']
  · exact .inl ⟨_, rfl, rfl⟩
  · simp only [Database.ensureOpen]
    by_cases hclosed : d.closed = true
    · rw [if_pos hclosed]
      exact .inl ⟨_, rfl, rfl⟩
    · rw [if_neg hclosed]
      exact .inr ⟨d, lookup, rfl, rfl, hlookup⟩

theorem Like.locate_eq (h : s.Like L s') (db : Nat) (name : String) :
    s'.locate db name = s.locate db name := by
  unfold locate
  rcases h.openDatabase db with ⟨e, ho, ho'⟩ | ⟨d, lookup, ho, ho', hlookup⟩
  · rw [ho, ho']
  · rw [ho, ho']
    rfl

theorem Like.create (h : s.Like L s') (db : Nat) (name : String) (options : ResourceOptions) :
    SameChange (Like L) (do return ((), ← s.create db name options))
      (do return ((), ← s'.create db name options)) := by
  unfold Store.create
  rcases h.openDatabase db with ⟨e, ho, ho'⟩ | ⟨d, lookup, ho, ho', hlookup⟩ <;> rw [ho, ho']
  · exact .error e
  · show SameChange (Like L) ((if (d.find? name).isSome then _ else _) >>= _)
      ((if (d.find? name).isSome then _ else _) >>= _)
    by_cases htaken : (d.find? name).isSome = true
    · rw [if_pos htaken, if_pos htaken]
      exact .error _
    · rw [if_neg htaken, if_neg htaken, h.resources.size_eq, h.clock_eq]
      have hcreated : ({ s with resources := s.resources.push (.create name d.lookup s.clock) } :
          Store).Like L
            { s' with clock := s.clock, resources := s'.resources.push (.create name lookup s.clock) } :=
        ⟨rfl, h.resources.push (.mk hlookup L.tally_new), h.databases⟩
      refine .ok (hcreated.setDatabase ?_ db)
      exact .mk hlookup

theorem Like.endWriter (h : s.Like L s') (place : Nat) :
    (s.endWriter place).Like L (s'.endWriter place) :=
  ⟨h.clock_eq, h.resources.modify (fun hr => hr.endWriter.2) place, h.databases⟩

theorem Like.endWriters (h : s.Like L s') (places : List Nat) :
    (s.endWriters places).Like L (s'.endWriters places) := by
  induction places generalizing s s' with
  | nil => exact h
  | cons place places ih => exact ih (h.endWriter place)

theorem Like.remove (h : s.Like L s') (db : Nat) (name : String) :
    SameChange (Like L) (s.remove db name) (s'.remove db name) := by
  unfold Store.remove
  rcases h.openDatabase db with ⟨e, ho, ho'⟩ | ⟨d, lookup, ho, ho', hlookup⟩ <;> rw [ho, ho']
  · exact .error e
  · simp only [bind, Except.bind, Database.find?]
    split
    · exact .ok h
    · refine .ok ((h.setDatabase ?_ db).endWriter _)
      exact .mk hlookup

theorem Like.clear (h : s.Like L s') (db : Nat) : (s.clear db).Like L (s'.clear db) := by
  unfold Store.clear
  rcases h.database?_cases db with ⟨hd, hd'⟩ | ⟨d, lookup, hd, hd', hlookup⟩ <;> rw [hd, hd']
  · exact h
  · refine (h.endWriters _).setDatabase ?_ db
    exact .mk hlookup

theorem Like.close (h : s.Like L s') (db : Nat) : (s.close db).Like L (s'.close db) := by
  unfold Store.close
  rcases h.database?_cases db with ⟨hd, hd'⟩ | ⟨d, lookup, hd, hd', hlookup⟩ <;> rw [hd, hd']
  · exact h
  · refine (h.endWriters _).setDatabase ?_ db
    exact .mk hlookup

/-! ## Scripts -/

theorem Like.edit (h : s.Like L s') (w : WriterRef) (e : Edit) :
    SameChange (Like L) (s.edit w e) (s'.edit w e) := by
  unfold Store.edit
  rw [h.clock_eq]
  rcases h.resource?_cases w.resource with ⟨hr, hr'⟩ | ⟨r, r', hr, hr', hlike⟩ <;> rw [hr, hr']
  · exact .error _
  · have hedit := hlike.edit w.handle s.clock e
    show SameChange (Like L) (r.edit w.handle s.clock e >>= _) (r'.edit w.handle s.clock e >>= _)
    generalize r.edit w.handle s.clock e = x, r'.edit w.handle s.clock e = y at hedit
    cases hedit with
    | error reason => exact .error reason
    | ok hu =>
      have hset := h.setResource hu w.resource
      cases e with
      | setClock time => exact .ok (hset.setClock time)
      | _ => exact .ok hset

theorem Like.runScript (h : s.Like L s') (w : WriterRef) (edits : List Edit) :
    (s.runScript w edits).1 = (s'.runScript w edits).1 ∧
      (s.runScript w edits).2.Like L (s'.runScript w edits).2 := by
  induction edits generalizing s s' with
  | nil => exact ⟨rfl, h⟩
  | cons e rest ih =>
    have hedit := h.edit w e
    unfold Store.runScript
    generalize s.edit w e = x, s'.edit w e = y at hedit
    cases hedit with
    | error reason => exact ⟨rfl, h⟩
    | ok hs => exact ih hs

/-! ## One resource -/

/-- Actions on resources in step are in step on the stores that hold them. -/
theorem inStep_onResource {α : Type} {x : Action (Observed Resource) StoreError α}
    (hx : InStep (L.Related (Resource.Like L)) x x) (place : Nat) :
    InStep (L.Related (Like L)) (Observed.onResource place x) (Observed.onResource place x) := by
  intro o o' h
  unfold Observed.onResource
  rcases h.state.resource?_cases place with ⟨hr, hr'⟩ | ⟨r, r', hr, hr', hlike⟩ <;> rw [hr, hr']
  · exact ⟨rfl, h⟩
  · obtain ⟨ha, hu⟩ := hx ⟨r, o.counters, o.journal⟩ ⟨r', o'.counters, o'.journal⟩
      ⟨hlike, h.counters, h.journal⟩
    exact ⟨ha, h.state.setResource hu.state place, hu.counters, hu.journal⟩

end Store

end AsOf
