import AsOf.Session.Command
import Mathlib.Data.Nat.Count

/-!
# Slots that are not counted

A session counts the documents that it gives out. If some of them had not been given out, the others
would be in earlier slots: so a slot is renumbered by leaving those that are hidden uncounted, and with
it the commands that name it and the answers that give it out.

## Main definitions

* `renumber`: the number of a slot where hidden slots are not counted
* `Command.renumbered`, `Answer.renumbered`: commands and answers with other slots
* `SameShown`: documents that are the same but for hidden slots, which hold no write transaction

## Main results

* `SameShown.push`, `SameShown.set`: a change in slots that are shown
* `SameShown.hideNext`, `SameShown.setHidden`: a change in slots that are hidden
* `SameShown.eq_of_nil`: nothing is hidden
-/

namespace AsOf

/-! ## Numbers -/

/-- The number of a slot where those that are hidden are not counted. -/
def renumber (hidden : List Nat) (slot : Nat) : Nat := Nat.count (· ∉ hidden) slot

section Renumber

variable {hidden : List Nat} {slot other : Nat}

theorem renumber_nil (slot : Nat) : renumber [] slot = slot :=
  Nat.count_iff_forall.mpr fun _ _ => List.not_mem_nil

theorem renumber_succ_of_shown (h : slot ∉ hidden) :
    renumber hidden (slot + 1) = renumber hidden slot + 1 :=
  Nat.count_succ_eq_succ_count_iff.mpr h

theorem renumber_injective (h : slot ∉ hidden) (hother : other ∉ hidden)
    (heq : renumber hidden slot = renumber hidden other) : slot = other :=
  Nat.count_injective h hother heq

/-- Slots behind the one that is hidden in addition count one less. -/
theorem renumber_hideNext (hle : slot ≤ other) :
    renumber (hidden ++ [other]) slot = renumber hidden slot := by
  induction slot with
  | zero => rfl
  | succ slot ih =>
    have hne : slot ≠ other := by omega
    have hmem : slot ∉ hidden ++ [other] ↔ slot ∉ hidden := by
      rw [List.mem_append, List.mem_singleton, or_iff_left hne]
    have ih := ih (by omega)
    unfold renumber at ih ⊢
    simp only [Nat.count_succ, ih, hmem]

theorem renumber_hideNext_succ (slot : Nat) :
    renumber (hidden ++ [slot]) (slot + 1) = renumber hidden slot := by
  have hmem : ¬slot ∉ hidden ++ [slot] := not_not.mpr (List.mem_append_right _ List.mem_cons_self)
  exact (Nat.count_succ_eq_count_iff.mpr hmem).trans (renumber_hideNext (Nat.le_refl slot))

end Renumber

/-! ## Commands and answers -/

/-- The request with other slots. -/
def DocumentCommand.renumbered (hidden : List Nat) : DocumentCommand → DocumentCommand
  | .sameWriter other => .sameWriter (renumber hidden other)
  | c => c

/-- The command with other slots. -/
def Command.renumbered (hidden : List Nat) : Command → Command
  | .document slot c => .document (renumber hidden slot) (c.renumbered hidden)
  | c => c

/-- The slots that a command names. -/
def Command.slots : Command → List Nat
  | .document slot (.sameWriter other) => [slot, other]
  | .document slot _ => [slot]
  | _ => []

/-- A document that was given out, with another slot. -/
def renumberGiven (hidden : List Nat) (given : Nat × DocumentView) : Nat × DocumentView :=
  (renumber hidden given.1, given.2)

/-- What was given out on one request, with another slot. -/
def renumberPulled (hidden : List Nat) (pulled : Option (Option (Nat × DocumentView)) × Nat) :
    Option (Option (Nat × DocumentView)) × Nat :=
  (pulled.1.map (·.map (renumberGiven hidden)), pulled.2)

/-- The answer with other slots. -/
def Answer.renumbered (hidden : List Nat) : Answer → Answer
  | .document slot view => .document (renumber hidden slot) view
  | .documents remaining pulled => .documents remaining (pulled.map (renumberPulled hidden))
  | a => a

theorem Command.renumbered_nil (c : Command) : c.renumbered [] = c := by
  cases c with
  | document slot c => cases c <;> simp only [renumbered, DocumentCommand.renumbered, renumber_nil]
  | _ => rfl

theorem renumberPulled_nil (pulled : Option (Option (Nat × DocumentView)) × Nat) :
    renumberPulled [] pulled = pulled := by
  obtain ⟨_ | _ | ⟨slot, view⟩, n⟩ := pulled
  · rfl
  · rfl
  · simp only [renumberPulled, renumberGiven, Option.map_some, renumber_nil]

theorem Answer.renumbered_nil (a : Answer) : a.renumbered [] = a := by
  cases a with
  | document slot view => simp only [renumbered, renumber_nil]
  | documents remaining pulled =>
    have hid : renumberPulled [] = id := funext renumberPulled_nil
    simp only [renumbered, hid, List.map_id]
  | _ => rfl

/-! ## Documents in slots -/

/-- The documents are the same but for those in hidden slots, which the second ones lack. Nothing that
is hidden is a write transaction. -/
structure SameShown (hidden : List Nat) (ds ds' : Array (Option Document)) : Prop where
  hidden_lt : ∀ slot ∈ hidden, slot < ds.size
  reads : ∀ slot ∈ hidden, ∀ d, ds[slot]? = some (some d) → d.lease.access = .readOnly
  size_eq : ds'.size = renumber hidden ds.size
  shown : ∀ slot, slot ∉ hidden → ds'[renumber hidden slot]? = ds[slot]?

namespace SameShown

variable {hidden : List Nat} {ds ds' : Array (Option Document)} {slot : Nat} {d : Document}

theorem refl (ds : Array (Option Document)) : SameShown [] ds ds where
  hidden_lt _ h := absurd h List.not_mem_nil
  reads _ h := absurd h List.not_mem_nil
  size_eq := (renumber_nil _).symm
  shown _ _ := by rw [renumber_nil]

/-- Where nothing is hidden, the documents are the same. -/
theorem eq_of_nil (h : SameShown [] ds ds') : ds' = ds := by
  refine Array.ext_getElem? fun slot => ?_
  rw [← h.shown slot List.not_mem_nil, renumber_nil]

theorem size_not_mem (h : SameShown hidden ds ds') : ds.size ∉ hidden :=
  fun hmem => Nat.lt_irrefl _ (h.hidden_lt _ hmem)

/-! ### Slots that are shown -/

/-- The next slot is shown. -/
theorem push (h : SameShown hidden ds ds') (d : Option Document) :
    SameShown hidden (ds.push d) (ds'.push d) where
  hidden_lt slot hslot := by
    rw [Array.size_push]
    exact Nat.lt_succ_of_lt (h.hidden_lt slot hslot)
  reads slot hslot u hu := by
    rw [Array.getElem?_push_lt (h.hidden_lt slot hslot)] at hu
    rw [← Array.getElem?_eq_getElem (h.hidden_lt slot hslot)] at hu
    exact h.reads slot hslot u hu
  size_eq := by
    rw [Array.size_push, Array.size_push, h.size_eq, renumber_succ_of_shown h.size_not_mem]
  shown slot hslot := by
    rw [Array.getElem?_push, Array.getElem?_push, h.size_eq, h.shown slot hslot]
    have hlast : renumber hidden slot = renumber hidden ds.size ↔ slot = ds.size :=
      ⟨renumber_injective hslot h.size_not_mem, congrArg _⟩
    simp only [hlast]

/-- A slot that is shown is there in both. -/
theorem lt_iff (h : SameShown hidden ds ds') (hslot : slot ∉ hidden) :
    renumber hidden slot < ds'.size ↔ slot < ds.size := by
  have hnone : ds'[renumber hidden slot]? = none ↔ ds[slot]? = none := by rw [h.shown slot hslot]
  rw [Array.getElem?_eq_none_iff, Array.getElem?_eq_none_iff] at hnone
  omega

/-- A slot that is shown gets another document, or none. -/
theorem set (h : SameShown hidden ds ds') (hslot : slot ∉ hidden) (d : Option Document) :
    SameShown hidden (ds.setIfInBounds slot d) (ds'.setIfInBounds (renumber hidden slot) d) where
  hidden_lt other hother := by
    rw [Array.size_setIfInBounds]
    exact h.hidden_lt other hother
  reads other hother u hu := by
    have hne : slot ≠ other := fun heq => hslot (heq ▸ hother)
    rw [Array.getElem?_setIfInBounds_ne hne] at hu
    exact h.reads other hother u hu
  size_eq := by
    rw [Array.size_setIfInBounds, Array.size_setIfInBounds]
    exact h.size_eq
  shown other hother := by
    have hsame : renumber hidden slot = renumber hidden other ↔ slot = other :=
      ⟨renumber_injective hslot hother, congrArg _⟩
    rw [Array.getElem?_setIfInBounds, Array.getElem?_setIfInBounds, h.shown other hother]
    simp only [hsame, h.lt_iff hslot]

/-! ### Slots that are hidden -/

/-- The next slot is hidden, and has no counterpart. -/
theorem hideNext (h : SameShown hidden ds ds') (hd : d.lease.access = .readOnly) :
    SameShown (hidden ++ [ds.size]) (ds.push (some d)) ds' where
  hidden_lt slot hslot := by
    rw [Array.size_push]
    rcases List.mem_append.mp hslot with hslot | hslot
    · exact Nat.lt_succ_of_lt (h.hidden_lt slot hslot)
    · exact List.mem_singleton.mp hslot ▸ Nat.lt_succ_self _
  reads slot hslot u hu := by
    rw [Array.getElem?_push] at hu
    rcases List.mem_append.mp hslot with hslot | hslot
    · rw [if_neg (Nat.ne_of_lt (h.hidden_lt slot hslot))] at hu
      exact h.reads slot hslot u hu
    · rw [if_pos (List.mem_singleton.mp hslot)] at hu
      cases hu
      exact hd
  size_eq := by
    rw [Array.size_push, renumber_hideNext_succ]
    exact h.size_eq
  shown slot hslot := by
    obtain ⟨hshown, hne⟩ : slot ∉ hidden ∧ slot ≠ ds.size := by
      simpa only [List.mem_append, List.mem_singleton, not_or] using hslot
    rw [Array.getElem?_push, if_neg hne]
    rcases Nat.lt_or_gt_of_ne hne with hlt | hgt
    · rw [renumber_hideNext (Nat.le_of_lt hlt)]
      exact h.shown slot hshown
    · have hle : renumber (hidden ++ [ds.size]) (ds.size + 1) ≤ renumber (hidden ++ [ds.size]) slot :=
        Nat.count_monotone _ hgt
      rw [renumber_hideNext_succ, ← h.size_eq] at hle
      rw [Array.getElem?_eq_none hle, Array.getElem?_eq_none (Nat.le_of_lt hgt)]

/-- A slot that is hidden gets another document that is no write transaction, or none. -/
theorem setHidden (h : SameShown hidden ds ds') (hslot : slot ∈ hidden) {d : Option Document}
    (hd : ∀ u, d = some u → u.lease.access = .readOnly) :
    SameShown hidden (ds.setIfInBounds slot d) ds' where
  hidden_lt other hother := by
    rw [Array.size_setIfInBounds]
    exact h.hidden_lt other hother
  reads other hother u hu := by
    by_cases heq : slot = other
    · subst heq
      rw [Array.getElem?_setIfInBounds_self_of_lt (h.hidden_lt slot hslot)] at hu
      exact hd u (Option.some.inj hu)
    · rw [Array.getElem?_setIfInBounds_ne heq] at hu
      exact h.reads other hother u hu
  size_eq := by
    rw [Array.size_setIfInBounds]
    exact h.size_eq
  shown other hother := by
    have hne : slot ≠ other := fun heq => hother (heq ▸ hslot)
    rw [Array.getElem?_setIfInBounds_ne hne]
    exact h.shown other hother

end SameShown

end AsOf
