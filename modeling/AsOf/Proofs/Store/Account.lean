import AsOf.Proofs.Resource.Account
import AsOf.Proofs.Store.Script

/-!
# Accounts of a store

What is out of the resources of a store is accounted for, and so each resource knows how many read transactions
are open.

## Main definitions

* `Hold`, `Document.hold`: a lease on the resource at a place
* `Hold.leasesAt`: the leases on one resource
* `Store.Accounts`: the account of every resource with the leases on it
* `Resource.Balanced`, `Resource.Counts`: how many open read transactions a resource counts
* `Document.holds`: the document is an open read transaction of the resource at a place
* `Store.Balanced`: every resource counts what is out

## Main results

* `Store.Accounts.global`, `Store.Accounts.runScript`: what leaves the leases as they are
* `Store.Accounts.ensures_onResource`: what an action on a resource finds is entered
* `Store.Accounts.put`, `Store.Accounts.endReader`, `Store.Accounts.releaseAll`: documents that move, are
  closed and are given up
* `Resource.account_balanced`: the counts of a resource are an account of the leases on it
* `Store.Accounts.balanced`: every resource counts the documents that read it
-/

namespace AsOf

open Observed

/-! ## Accounts of a store

The leases that are out are spread over the resources of a store. An account of the store is an account of
every resource with the leases on it, and there is a resource for every lease. Events of the store as a
whole and edits leave the leases as they are; what an action on a resource finds is entered; a document
that moves its cursor, is closed or is given up changes its own lease only. -/

/-- A lease on the resource at a place. -/
structure Hold where
  place : Nat
  lease : Lease

/-- What a document holds. -/
def Document.hold (d : Document) : Hold := ⟨d.place, d.lease⟩

/-- The leases on the resource at a place. -/
def Hold.leasesAt (place : Nat) (hs : List Hold) : List Lease :=
  (hs.filter fun h => h.place = place).map (·.lease)

namespace Hold

variable {place p : Nat} {l : Lease} {hs hs' : List Hold}

theorem leasesAt_cons_self (place : Nat) (l : Lease) (hs : List Hold) :
    leasesAt place (⟨place, l⟩ :: hs) = l :: leasesAt place hs := by
  simp [leasesAt]

theorem leasesAt_cons_ne (h : p ≠ place) (l : Lease) (hs : List Hold) :
    leasesAt p (⟨place, l⟩ :: hs) = leasesAt p hs := by
  simp [leasesAt, Ne.symm h]

theorem leasesAt_append (p : Nat) (hs hs' : List Hold) :
    leasesAt p (hs ++ hs') = leasesAt p hs ++ leasesAt p hs' := by
  simp [leasesAt]

theorem leasesAt_perm (h : hs.Perm hs') (p : Nat) : (leasesAt p hs).Perm (leasesAt p hs') :=
  (h.filter _).map _

theorem mem_leasesAt {h : Hold} (hmem : h ∈ hs) : h.lease ∈ leasesAt h.place hs :=
  List.mem_map_of_mem (List.mem_filter.mpr ⟨hmem, decide_eq_true rfl⟩)

/-- Where no lease is, none is found. -/
theorem leasesAt_eq_nil (h : ∀ x ∈ hs, x.place ≠ place) : leasesAt place hs = [] := by
  rw [leasesAt, List.map_eq_nil_iff, List.filter_eq_nil_iff]
  intro x hx hplace
  exact h x hx (of_decide_eq_true hplace)

/-- Leases on one resource are all of them there. -/
theorem leasesAt_map_self (place : Nat) (ls : List Lease) : leasesAt place (ls.map (Hold.mk place)) = ls := by
  induction ls with
  | nil => rfl
  | cons l ls ih => rw [List.map_cons, leasesAt_cons_self, ih]

theorem leasesAt_map_ne (h : p ≠ place) (ls : List Lease) : leasesAt p (ls.map (Hold.mk place)) = [] := by
  apply leasesAt_eq_nil
  intro x hx
  obtain ⟨l, -, rfl⟩ := List.mem_map.mp hx
  exact h.symm

end Hold

namespace Store

/-- Every resource has its account with the leases on it, and there is a resource for every lease. -/
structure Accounts (R : List Lease → Resource → Prop) (hs : List Hold) (s : Store) : Prop where
  resource : ∀ {place : Nat} {r : Resource}, s.resource? place = some r → R (Hold.leasesAt place hs) r
  placed : ∀ {h : Hold}, h ∈ hs → ∃ r, s.resource? h.place = some r

variable {R : List Lease → Resource → Prop} {s s' : Store} {hs hs' : List Hold} {place : Nat}
  {r r' : Resource} {l l' : Lease} {d : Document}

theorem accounts_empty (clock : Instant) : Accounts R [] { clock } where
  resource hr := by simp [resource?] at hr
  placed h := by cases h

/-- A change of one resource and the leases on it. -/
theorem Accounts.setResource (ha : s.Accounts R hs) (hr : s.resource? place = some r)
    (hr' : R (Hold.leasesAt place hs') r')
    (hother : ∀ p, p ≠ place → Hold.leasesAt p hs' = Hold.leasesAt p hs)
    (hplaced : ∀ h ∈ hs', h ∈ hs ∨ h.place = place) : (s.setResource place r').Accounts R hs' := by
  refine ⟨fun {p u} hu => ?_, fun {h} hh => ?_⟩
  · rw [resource?_setResource hr] at hu
    split at hu
    · next hp =>
      obtain rfl := Option.some.inj hu
      exact hp ▸ hr'
    · next hp => exact hother p hp ▸ ha.resource hu
  · rw [resource?_setResource hr]
    split
    · exact ⟨r', rfl⟩
    · next hne => exact ha.placed ((hplaced h hh).resolve_right hne)

/-- A change of one lease and of its resource. -/
theorem Accounts.change (ha : s.Accounts R (⟨place, l⟩ :: hs)) (hr : s.resource? place = some r)
    (h : ∀ ls, R (l :: ls) r → R (l' :: ls) r') :
    (s.setResource place r').Accounts R (⟨place, l'⟩ :: hs) := by
  refine ha.setResource hr ?_ (fun p hp => ?_) fun x hx => ?_
  · rw [Hold.leasesAt_cons_self]
    apply h
    rw [← Hold.leasesAt_cons_self place]
    exact ha.resource hr
  · rw [Hold.leasesAt_cons_ne hp, Hold.leasesAt_cons_ne hp]
  · rcases List.mem_cons.mp hx with rfl | hx
    · exact .inr rfl
    · exact .inl (List.mem_cons_of_mem _ hx)

section Account

variable (hR : Resource.Account R)
include hR

theorem Accounts.perm (ha : s.Accounts R hs) (h : hs.Perm hs') : s.Accounts R hs' where
  resource hr := hR.perm (Hold.leasesAt_perm h _) (ha.resource hr)
  placed hh := ha.placed (h.mem_iff.mpr hh)

/-- What is done to a resource apart from read transactions. -/
theorem Accounts.step (ha : s.Accounts R hs) (hr : s.resource? place = some r) (h : r.Step r')
    (hreads : r.ReadsAs r') : (s.setResource place r').Accounts R hs :=
  ha.setResource hr (hR.step (ha.resource hr) h hreads) (fun _ _ => rfl) fun _ => .inl

/-- What is no open read transaction may be struck out. -/
theorem Accounts.struck {h : Hold} (ha : s.Accounts R (h :: hs)) (hreads : h.lease.reads = 0) :
    s.Accounts R hs := by
  refine ⟨fun {p r} hr => ?_, fun hh => ha.placed (List.mem_cons_of_mem h hh)⟩
  have hp := ha.resource hr
  obtain ⟨place, l⟩ := h
  by_cases hplace : p = place
  · subst hplace
    rw [Hold.leasesAt_cons_self] at hp
    exact hR.struck hreads hp
  · rwa [Hold.leasesAt_cons_ne hplace] at hp

/-! ### What leaves the leases as they are -/

theorem account_run_ends {ls : List Lease} {events : List ResourceEvent} (hr : R ls r)
    (h : ∀ event ∈ events, event = .endWriter) : R ls (r.run events) := by
  induction events generalizing r with
  | nil => exact hr
  | cons event events ih =>
    have hevent : event = .endWriter := h event List.mem_cons_self
    have hafter : R ls (r.after event) := by
      rw [hevent]
      exact hR.step hr (Resource.step_endWriter r) (Resource.readsAs_endWriter r)
    exact ih hafter fun e he => h e (List.mem_cons_of_mem event he)

/-- An event of the store as a whole ends write transactions, and brings about resources that nobody has a
lease on. -/
theorem Accounts.global {e : StoreEvent} (ha : s.Accounts R hs) (he : e.IsGlobal) :
    (s.after e).Accounts R hs := by
  refine ⟨fun {place r'} hr' => ?_, fun {h} hh => ?_⟩
  · cases hr : s.resource? place with
    | some r =>
      obtain rfl := Option.some.inj ((resource?_after hr e).symm.trans hr')
      exact account_run_ends hR (ha.resource hr) fun _ => eq_endWriter_of_mem_eventsAt he
    | none =>
      obtain ⟨name, lookup, rfl⟩ := exists_create_of_after hr hr'
      have hnone : Hold.leasesAt place hs = [] := by
        apply Hold.leasesAt_eq_nil
        rintro x hx rfl
        obtain ⟨r, hr'⟩ := ha.placed hx
        cases hr.symm.trans hr'
      rw [hnone]
      exact hR.create name lookup s.clock
  · obtain ⟨r, hr⟩ := ha.placed hh
    exact ⟨_, resource?_after hr e⟩

theorem Accounts.edit {w : WriterRef} {e : Edit} {answer : EditAnswer} (ha : s.Accounts R hs)
    (h : s.edit w e = .ok (answer, s')) : s'.Accounts R hs := by
  cases hr : s.resource? w.resource with
  | none =>
    simp only [Store.edit, hr] at h
    cases h
  | some r =>
    cases hedit : r.edit w.handle s.clock e with
    | error reason => cases h.symm.trans (edit_eq_of_error hr hedit)
    | ok p =>
      obtain ⟨a, r'⟩ := p
      cases h.symm.trans (edit_eq_of_ok hr hedit)
      have hset := ha.step hR hr (Resource.step_of_edit hedit) (Resource.readsAs_of_edit hedit)
      exact ⟨hset.resource, hset.placed⟩

theorem Accounts.runScript {w : WriterRef} {edits : List Edit} (ha : s.Accounts R hs) :
    (s.runScript w edits).2.Accounts R hs := by
  induction edits generalizing s with
  | nil => exact ha
  | cons e rest ih =>
    rw [Store.runScript]
    split
    · next h => exact ih (ha.edit hR h)
    · exact ha

/-! ### What is found -/

omit hR in
/-- What an action on a resource finds is entered. -/
theorem Accounts.ensures_onResource {α : Type} {x : Action (Observed Resource) StoreError α}
    {g : α → List Lease} (hx : ∀ ls, Ensures (R ls) x (fun a => R (g a ++ ls)) (R ls)) (place : Nat)
    (hs : List Hold) :
    Ensures (Accounts R hs) (Observed.onResource place x)
      (fun a => Accounts R ((g a).map (Hold.mk place) ++ hs)) (Accounts R hs) := by
  intro o ha
  have ha : o.state.Accounts R hs := ha
  unfold Observed.onResource
  cases hr : o.state.resource? place with
  | none => exact ha
  | some r =>
    have hafter := hx _ ⟨r, o.counters, o.journal⟩ (ha.resource hr)
    rcases h : x ⟨r, o.counters, o.journal⟩ with ⟨reason | a, o'⟩
    · rw [h] at hafter
      simp only [h]
      exact ha.setResource hr hafter (fun _ _ => rfl) fun _ => .inl
    · rw [h] at hafter
      simp only [h]
      refine ha.setResource hr ?_ (fun p hp => ?_) fun x hx => ?_
      · rw [Hold.leasesAt_append, Hold.leasesAt_map_self]
        exact hafter
      · rw [Hold.leasesAt_append, Hold.leasesAt_map_ne hp, List.nil_append]
      · rcases List.mem_append.mp hx with hx | hx
        · obtain ⟨l, -, rfl⟩ := List.mem_map.mp hx
          exact .inr rfl
        · exact .inl hx

/-! ### Documents -/

/-- A document that moves its cursor. -/
theorem Accounts.put {t : Transaction} (ha : s.Accounts R (d.hold :: hs))
    (h : (d.transaction s).Visits t) : (d.put s t).2.Accounts R ((d.put s t).1.hold :: hs) := by
  cases hlease : d.lease with
  | writer handle =>
    have hsame : (d.put s t).1 = d := by
      simp only [Document.put, hlease]
      split <;> rfl
    rw [hsame]
    rcases step_of_put h with hput | ⟨r, r', hr, hstep, -, -, htally, hput⟩
    · rw [hput]
      exact ha
    · rw [hput]
      exact ha.step hR hr hstep ⟨congrArg _ htally, congrArg _ htally⟩
  | reader u =>
    have hu : d.transaction s = u := by simp only [Document.transaction, hlease]
    have hput : d.put s t = ({ d with lease := .reader t }, s) := by simp only [Document.put, hlease]
    rw [hput]
    rw [hu] at h
    have ha : s.Accounts R (⟨d.place, .reader u⟩ :: hs) := by
      rw [← hlease]
      exact ha
    cases h with
    | stay => exact ha
    | @moveTo key _ h =>
      obtain ⟨-, hkey, rfl⟩ := Transaction.moveTo_eq_ok_iff.mp h
      obtain ⟨r, hr⟩ := ha.placed List.mem_cons_self
      rw [← setResource_self hr]
      exact ha.change hr fun ls hls => hR.visited hls hkey

/-- A document that is closed; a write transaction is left to those who share it. -/
theorem Accounts.endReader (ha : s.Accounts R (d.hold :: hs)) :
    (d.endReader s).2.Accounts R ((d.endReader s).1.hold :: hs) ∧ (d.endReader s).1.lease.reads = 0 := by
  cases hlease : d.lease with
  | writer handle =>
    have hend : d.endReader s = (d, s) := by simp only [Document.endReader, hlease]
    rw [hend, hlease]
    exact ⟨ha, rfl⟩
  | reader t =>
    have ha : s.Accounts R (⟨d.place, .reader t⟩ :: hs) := by
      rw [← hlease]
      exact ha
    obtain ⟨r, hr⟩ := ha.placed List.mem_cons_self
    have hr : s.resource? d.place = some r := hr
    have hend : d.endReader s = ({ d with lease := .reader (r.endReader t).1 },
        s.setResource d.place (r.endReader t).2) := by
      simp only [Document.endReader, hlease, hr]
    rw [hend]
    exact ⟨ha.change hr fun ls hls => hR.endReader hls, Resource.reads_endReader r t⟩

theorem Accounts.release (ha : s.Accounts R (d.hold :: hs)) : (d.release s).Accounts R hs :=
  (ha.endReader hR).1.struck hR (ha.endReader hR).2

theorem Accounts.releaseAll {ds : List Document} (ha : s.Accounts R (ds.map Document.hold ++ hs)) :
    (ds.foldl (fun s d => d.release s) s).Accounts R hs := by
  induction ds generalizing s with
  | nil => exact ha
  | cons d ds ih => exact ih (ha.release hR)

end Account

end Store

/-! ## The account of read transactions

A resource does not know who holds its read transactions. It only counts how many were opened and how many
were closed, and the difference is what is held: whatever opens a read transaction gives it out or closes it
again, also if it fails half-way, and no other operation touches the two counts. So the counts of all
resources of a store agree with the documents that are out. -/

/-- The lease is an open read transaction. -/
def Lease.isReading (l : Lease) : Bool := l.reads == 1

namespace Resource

/-- The resource counts so many read transactions as opened and not closed. -/
def Balanced (n : Nat) (r : Resource) : Prop := r.tally.readOpened = r.tally.readClosed + n

theorem Balanced.liveRead_eq {n : Nat} {r : Resource} (h : r.Balanced n) : r.tally.liveRead = n := by
  rw [ResourceTally.liveRead, h, Nat.add_sub_cancel_left]

/-- The resource counts the open read transactions among the leases on it. -/
def Counts (ls : List Lease) (r : Resource) : Prop := r.Balanced (ls.countP Lease.isReading)

/-- The counts of a resource are an account of the leases on it. -/
theorem account_balanced : Account Counts := by
  constructor
  case create => exact fun _ _ _ => rfl
  case perm =>
    intro ls ms r hperm hr
    rw [Counts, ← hperm.countP_eq]
    exact hr
  case step =>
    intro ls r r' hr _ hreads
    rw [Counts, Balanced, hreads.opened, hreads.closed]
    exact hr
  case opened =>
    intro ls r n s tree hr _
    have hreading : (Lease.reader { base := s, tree }).isReading = true := rfl
    rw [Counts, List.countP_cons_of_pos hreading]
    exact congrArg (· + 1) hr
  case shared => exact fun hr _ => hr
  case visited => exact fun hr _ => hr
  case closed =>
    intro ls r t hopen hr
    have hreading : (Lease.reader t).isReading = true := by simp [Lease.isReading, Lease.reads, hopen]
    rw [Counts, Balanced, List.countP_cons_of_pos hreading] at hr
    show r.tally.readOpened = r.tally.readClosed + 1 + ls.countP Lease.isReading
    omega
  case struck =>
    intro ls r l hzero hr
    have hended : ¬l.isReading = true := by simp [Lease.isReading, hzero]
    rwa [Counts, List.countP_cons_of_neg hended] at hr

end Resource

/-- The document is an open read transaction of the resource at a place. -/
def Document.holds (place : Nat) (d : Document) : Bool := d.place == place && d.lease.reads == 1

/-- The open read transactions among the leases on a resource are documents. -/
theorem countP_leasesAt (place : Nat) (ds : List Document) :
    (Hold.leasesAt place (ds.map Document.hold)).countP Lease.isReading =
      ds.countP (Document.holds place) := by
  rw [Hold.leasesAt, List.countP_map, List.countP_filter, List.countP_map]
  refine List.countP_congr fun d _ => ?_
  simp only [Function.comp, Document.hold, Document.holds, Lease.isReading, Bool.and_eq_true, beq_iff_eq]
  rw [and_comm]
  exact and_congr_left' decide_eq_true_iff

namespace Store

/-- Every resource counts as many open read transactions as are out, and where no resource is, none is
out. -/
structure Balanced (out : Nat → Nat) (s : Store) : Prop where
  counted : ∀ {place : Nat} {r : Resource}, s.resource? place = some r → r.Balanced (out place)
  absent : ∀ {place : Nat}, s.resource? place = none → out place = 0

/-- Every resource counts the documents that read it. -/
theorem Accounts.balanced {s : Store} {ds : List Document}
    (ha : s.Accounts Resource.Counts (ds.map Document.hold)) :
    s.Balanced fun place => ds.countP (Document.holds place) := by
  constructor
  case counted =>
    intro place r hr
    rw [← countP_leasesAt]
    exact ha.resource hr
  case absent =>
    intro place hnone
    refine List.countP_eq_zero.mpr fun d hd hholds => ?_
    obtain ⟨r, hr⟩ := ha.placed (List.mem_map_of_mem hd)
    obtain ⟨hplace, -⟩ := Bool.and_eq_true_iff.mp hholds
    have hr : s.resource? d.place = some r := hr
    rw [beq_iff_eq.mp hplace, hnone] at hr
    cases hr

end Store

end AsOf
