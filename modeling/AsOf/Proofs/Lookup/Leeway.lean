import AsOf.Lookup.Snapshot
import AsOf.Proofs.Resource.Leeway

/-!
# Lookups within a leeway

Resources that are the same but for a leeway are looked up in step: what is found is the same, and the
resources remain alike. Only what asks for the revision that stands for a time asks for the policy, and
there the policies must be the same.

## Main results

* `Resource.inStep_takeWriter`, `Resource.inStep_steer`: taking the write transaction, and steering it
* `Resource.inStep_snapshotOf`: lookups of revisions
* `Resource.inStep_takeLease`, `Resource.inStep_snapshotAsOf`: leases, and lookups of times
-/

namespace AsOf.Resource

open AsOf.Action Leeway

variable {L : Leeway} (f : Faults)

/-! ## What asks for no policy -/

theorem inStep_newWriter : InStep (L.Related (Like L)) (newWriter f) (newWriter f) := by
  refine inStep_current_bind fun {r r'} h => (inStep_ofExcept _).bind fun _ => ?_
  obtain ⟨-, -⟩ := h
  refine (inStep_update fun h => h.startWriter).bind fun handle => ?_
  exact (inStep_count _).bind fun _ => (inStep_report _ _).bind fun _ => inStep_pure handle

theorem inStep_takeWriter : InStep (L.Related (Like L)) (takeWriter f) (takeWriter f) := by
  refine inStep_current_bind fun {r r'} h => ?_
  rw [h.hasRunning_eq, h.runningHandle_eq, h.name_eq]
  split
  · split
    · exact (inStep_count _).bind fun _ => (inStep_report _ _).bind fun _ => inStep_pure _
    · exact (inStep_report _ _).bind fun _ => inStep_newWriter f
  · exact inStep_newWriter f

theorem inStep_newReader (number : RevisionNumber) :
    InStep (L.Related (Like L)) (newReader f (.revision number)) (newReader f (.revision number)) :=
  (inStep_ofExcept _).bind fun _ => inStep_update fun h => h.startReader number

/-- A read transaction is reported alike. -/
theorem inStep_takeReader_of_newReader {target : ReadTarget}
    (h : InStep (L.Related (Like L)) (newReader f target) (newReader f target)) :
    InStep (L.Related (Like L)) (takeReader f target) (takeReader f target) := by
  refine h.bind fun trx => inStep_current_bind fun {r r'} hr => ?_
  obtain ⟨-, -⟩ := hr
  exact (inStep_count _).bind fun _ => (inStep_report _ _).bind fun _ => inStep_pure trx

theorem inStep_goBack (handle : Nat) (target : RevisionNumber) :
    InStep (L.Related (Like L)) (goBack handle target) (goBack handle target) := by
  refine (inStep_update fun h => h.revert handle target).bind fun _ => inStep_current_bind fun h => ?_
  obtain ⟨-, -⟩ := h
  exact (inStep_count _).bind fun _ => inStep_report _ _

theorem inStep_steer (handle : Nat) (target mostRecent : RevisionNumber) :
    InStep (L.Related (Like L)) (steer handle target mostRecent) (steer handle target mostRecent) := by
  refine inStep_current_bind fun {r r'} h => ?_
  rw [h.writerBase_eq]
  obtain ⟨-, -⟩ := h
  dsimp only
  split
  · exact inStep_pure _
  · split
    · exact inStep_goBack handle target
    · exact inStep_report _ _

theorem inStep_leaseRevision (target mostRecent : RevisionNumber) (access : Access) :
    InStep (L.Related (Like L)) (leaseRevision f target mostRecent access)
      (leaseRevision f target mostRecent access) := by
  cases access with
  | updatable =>
    exact (inStep_takeWriter f).bind fun _ => (inStep_steer _ _ _).bind fun _ => inStep_pure _
  | readOnly =>
    exact (inStep_takeReader_of_newReader f (inStep_newReader f target)).bind fun _ => inStep_pure _

theorem inStep_reportFound (about : Fields) (access : Access) (found : Lease) :
    InStep (L.Related (Like L)) (reportFound about access found) (reportFound about access found) := by
  refine inStep_current_bind fun {r r'} h => ?_
  have hbase : found.base r' = found.base r := by
    cases found with
    | reader trx => rfl
    | writer handle => exact h.writerBase_eq handle
  dsimp only
  rw [hbase]
  exact (inStep_count _).bind fun _ => (inStep_record _).bind fun _ => inStep_report _ _

/-- A lookup of a revision asks for no policy. -/
theorem inStep_snapshotOf (choice : RevisionChoice) (access : Access) :
    InStep (L.Related (Like L)) (snapshotOf f choice access) (snapshotOf f choice access) := by
  refine inStep_current_bind fun {r r'} h => ?_
  obtain ⟨-, -⟩ := h
  exact (inStep_within (inStep_leaseRevision f _ _ access) _ _).bind fun found =>
    (inStep_reportFound _ access found).bind fun _ => inStep_pure found

/-! ## What asks for the policy -/

variable (hL : L.Strict)
include hL

theorem inStep_newReader_of_strict (target : ReadTarget) :
    InStep (L.Related (Like L)) (newReader f target) (newReader f target) := by
  cases target with
  | revision number => exact inStep_newReader f number
  | time time =>
    refine (inStep_ofExcept _).bind fun _ => inStep_update fun h => ?_
    rw [h.candidate_eq hL]
    exact h.startReader _

theorem inStep_takeReader (target : ReadTarget) :
    InStep (L.Related (Like L)) (takeReader f target) (takeReader f target) :=
  inStep_takeReader_of_newReader f (inStep_newReader_of_strict f hL target)

theorem inStep_takeLease (access : Access) (target : ReadTarget) :
    InStep (L.Related (Like L)) (takeLease f access target) (takeLease f access target) := by
  cases access with
  | updatable => exact (inStep_takeWriter f).bind fun _ => inStep_pure _
  | readOnly => exact (inStep_takeReader f hL target).bind fun _ => inStep_pure _

omit hL in
theorem inStep_reportStep (offered previous : RevisionNumber) :
    InStep (L.Related (Like L)) (reportStep offered previous) (reportStep offered previous) := by
  refine inStep_current_bind fun h => ?_
  obtain ⟨-, -⟩ := h
  exact inStep_report _ _

theorem inStep_readerAsOf (time : Instant) :
    InStep (L.Related (Like L)) (readerAsOf f time) (readerAsOf f time) := by
  refine (inStep_takeReader f hL _).bind fun trx => ?_
  split
  · exact inStep_pure _
  · refine (inStep_update fun h => .ok (h.endReader trx).2).bind fun _ => ?_
    split
    · exact inStep_pure _
    · exact (inStep_takeReader f hL _).bind fun _ => (inStep_reportStep _ _).bind fun _ => inStep_pure _

omit f hL in
theorem inStep_settle (handle : Nat) (time : Instant) (offered : RevisionNumber) :
    InStep (L.Related (Like L)) (settle handle time offered) (settle handle time offered) := by
  refine inStep_current_bind fun {r r'} h => ?_
  dsimp only
  rw [h.writerBase_eq]
  split
  · exact inStep_pure _
  · split
    · exact inStep_pure _
    · exact (inStep_goBack handle _).bind fun _ => (inStep_reportStep _ _).bind fun _ => inStep_pure _

theorem inStep_writerAsOf (time : Instant) :
    InStep (L.Related (Like L)) (writerAsOf f time) (writerAsOf f time) := by
  refine (inStep_takeWriter f).bind fun handle => inStep_current_bind fun {r r'} h => ?_
  dsimp only
  rw [h.candidate_eq hL]
  obtain ⟨-, -⟩ := h
  exact (inStep_steer handle _ _).bind fun _ => inStep_settle handle time _

theorem inStep_leaseAsOf (time : Instant) (access : Access) :
    InStep (L.Related (Like L)) (leaseAsOf f time access) (leaseAsOf f time access) := by
  cases access with
  | updatable => exact (inStep_writerAsOf f hL time).bind fun _ => inStep_pure _
  | readOnly => exact (inStep_readerAsOf f hL time).bind fun _ => inStep_pure _

/-- A lookup of a time comes to the same under the same policy. -/
theorem inStep_snapshotAsOf (time : Instant) (access : Access) :
    InStep (L.Related (Like L)) (snapshotAsOf f time access) (snapshotAsOf f time access) := by
  refine inStep_current_bind fun {r r'} h => ?_
  obtain ⟨-, -⟩ := h
  refine (inStep_within (inStep_leaseAsOf f hL time access) _ _).bind fun found => ?_
  cases found with
  | some lease => exact (inStep_reportFound _ access lease).bind fun _ => inStep_pure _
  | none =>
    refine InStep.bind ?_ fun _ => inStep_pure _
    exact (inStep_count _).bind fun _ => (inStep_record _).bind fun _ => inStep_report _ _

end AsOf.Resource
