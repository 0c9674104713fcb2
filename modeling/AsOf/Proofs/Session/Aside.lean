import AsOf.Proofs.Session.Account

/-!
# Documents that were given out last

Some documents were given out, and from then on their caller uses these and nothing else. Nobody else
notices: the documents in earlier slots stay as they are. Once the caller has ended each of them, the
resources have as many open read transactions as there were before.

## Main definitions

* `Command.Uses`: the command concerns a document that was given out since some slot
* `Session.Aside`: the documents in earlier slots are as before, and some of the later ones read no longer

## Main results

* `Session.Aside.play`: this remains, and every document that is ended reads no longer
* `Session.Aside.readers_eq`: what all resources are read by, once the later documents are ended
* `Session.exists_liveRead_eq`: the open read transactions, once all that a command gave out is ended
-/

namespace AsOf

open AsOf.Action

/-- The command concerns a document in a slot from a first one on. -/
def Command.Uses (first : Nat) : Command → Prop
  | .document slot _ => first ≤ slot
  | _ => False

theorem Command.slot_eq_of_ends {slot k : Nat} {command : DocumentCommand}
    (h : (Command.document slot command).Ends k) : slot = k := by
  cases command with
  | endReader | release => exact h
  | _ => exact h.elim

theorem Lease.Continues.reads_eq {l l' : Lease} (h : l.Continues l') : l'.reads = l.reads := by
  cases h with
  | reader h => rw [h]; rfl
  | writer handle => rfl

theorem Document.reads_endReader {s : Store} {d : Document} {r : Resource}
    (hr : s.resource? d.place = some r) : (d.endReader s).1.lease.reads = 0 := by
  unfold Document.endReader
  cases hlease : d.lease with
  | writer handle =>
    dsimp only
    rw [hlease]
    rfl
  | reader t =>
    simp only [hr]
    exact r.reads_endReader t

namespace Session

/-- The documents before some slot are as they were. From there on, there are so many slots as before, and
what is in the spent ones is no open read transaction. -/
structure Aside (since : Array (Option Document)) (size : Nat) (spent : Nat → Prop) (s : Session) : Prop where
  size_eq : s.documents.size = size
  earlier : ∀ slot < since.size, s.documents[slot]? = since[slot]?
  spent : ∀ {slot : Nat} {d : Document}, spent slot → s.documents[slot]? = some (some d) → d.lease.reads = 0

variable {α : Type} {since : Array (Option Document)} {size slot : Nat} {spent : Nat → Prop}
  {s s' : Session} {d : Document}

/-- A later slot gets another document, or none. -/
theorem Aside.set {spent' : Nat → Prop} {d' : Option Document} (hs : s.Aside since size spent)
    (hslot : since.size ≤ slot) (hset : s'.documents = s.documents.setIfInBounds slot d')
    (hothers : ∀ k, k ≠ slot → spent' k → spent k)
    (hd' : ∀ e ∈ d', spent' slot → e.lease.reads = 0) : s'.Aside since size spent' := by
  refine ⟨?_, fun k hk => ?_, fun {k e} hspent he => ?_⟩
  · rw [hset, Array.size_setIfInBounds, hs.size_eq]
  · rw [hset, Array.getElem?_setIfInBounds_ne (Nat.ne_of_gt (Nat.lt_of_lt_of_le hk hslot))]
    exact hs.earlier k hk
  · rw [hset, Array.getElem?_setIfInBounds] at he
    split at he
    · next hk =>
      subst hk
      split at he
      · exact hd' e (Option.some.inj he) hspent
      · cases he
    · next hk => exact hs.spent (hothers k (Ne.symm hk) hspent) he

/-- Edits concern no slot. -/
theorem preserves_aside_writeAll (w : WriterRef) (edits : List Edit) :
    Preserves (Aside since size spent) (writeAll w edits) := by
  induction edits with
  | nil => exact preserves_pure _ _
  | cons e rest ih =>
    have hwrite : Preserves (Aside since size spent) (writeOne w e) := by
      intro s hs
      unfold writeOne
      split
      · exact ⟨hs.size_eq, hs.earlier, hs.spent⟩
      · exact hs
    refine hwrite.bind fun answer => preserves_get_bind fun s hs => ?_
    exact (ih.bind fun _ => preserves_pure _ _) s hs

/-- What is asked of a later document concerns its slot only. -/
theorem Aside.stepDocument (hs : s.Aside since size spent) (hslot : since.size ≤ slot)
    (hd : s.documents[slot]? = some (some d)) {r : Resource} (hr : s.store.resource? d.place = some r)
    (command : DocumentCommand) :
    (stepDocument slot d command s).2.Aside since size fun k =>
      spent k ∨ (Command.document slot command).Ends k := by
  let spent' (k : Nat) : Prop := spent k ∨ (Command.document slot command).Ends k
  have hothers (k : Nat) (hk : k ≠ slot) (h : spent' k) : spent k :=
    h.resolve_right fun hend => hk (Command.slot_eq_of_ends hend).symm
  have hput (hnone : ∀ k, ¬(Command.document slot command).Ends k) {u : Session} {e : Document}
      (he : d.Continues e) (hu : u.documents = s.documents.setIfInBounds slot (some e)) :
      u.Aside since size spent' := by
    refine hs.set hslot hu hothers fun v hv hspent => ?_
    cases hv
    rw [he.lease.reads_eq]
    exact hs.spent (hspent.resolve_right (hnone slot)) hd
  have hstay (hnone : ∀ k, ¬(Command.document slot command).Ends k) : s.Aside since size spent' :=
    ⟨hs.size_eq, hs.earlier, fun hspent => hs.spent (hspent.resolve_right (hnone _))⟩
  have hstreaming {α : Type} (hnone : ∀ k, ¬(Command.document slot command).Ends k)
      (groups : List (Option (List Nat))) {x : Action (Observed ItemStream) StoreError α}
      (hx : ∀ t : Transaction, Observed.Keeps (fun i => t.Visits i.cursor) x) :
      (streaming slot d groups x s).2.Aside since size spent' := by
    have hvisits := hx (d.transaction s.store)
      ⟨.new d.collection groups (d.transaction s.store), s.countersOf 0, s.journal⟩ .stay
    exact hput hnone (Document.continues_put hvisits) rfl
  cases command with
  | info | describe => exact hstay fun _ h => h
  | items groups =>
    refine holds_bind (hstreaming (fun _ h => h) groups fun _ => ItemStream.visits_drain) fun p => ?_
    cases p.1 with
    | ok items => exact preserves_pure _ _
    | error e => exact preserves_fail _
  | stream groups pulls =>
    exact holds_bind (hstreaming (fun _ h => h) groups fun _ => visits_streamAll pulls) fun p =>
      preserves_pure _ _
  | cursor moves =>
    have hvisits := visits_moveAll (d.transaction s.store) moves
    exact hput (fun _ h => h) (Document.continues_put hvisits) rfl
  | write edits =>
    unfold Session.stepDocument
    cases d.writerRef? with
    | none => exact hstay fun _ h => h
    | some w =>
      exact ((preserves_aside_writeAll w edits).bind fun _ => preserves_pure _ _) s (hstay fun _ h => h)
  | sameWriter other =>
    exact ((preserves_document other).bind fun _ => preserves_pure _ _) s (hstay fun _ h => h)
  | endReader =>
    refine hs.set hslot rfl hothers fun v hv _ => ?_
    cases hv
    exact Document.reads_endReader hr
  | release => exact hs.set hslot rfl hothers fun v hv _ => nomatch hv

theorem Aside.step {c : Command} (hs : s.Aside since size spent) (hbalanced : BalancedWith [] s)
    (hc : c.Uses since.size) :
    (step c s).2.Aside since size fun k => spent k ∨ c.Ends k := by
  cases c with
  | document slot command =>
    show ((orClosed s.documents[slot]?.join >>= fun d => Session.stepDocument slot d command) s).2.Aside _ _ _
    cases hd : s.documents[slot]?.join with
    | none =>
      refine ⟨hs.size_eq, hs.earlier, fun {k e} hspent he => hs.spent (hspent.resolve_right ?_) he⟩
      intro hend
      have hslot : s.documents[slot]? = some (some e) := Command.slot_eq_of_ends hend ▸ he
      rw [hslot] at hd
      cases hd
    | some d =>
      have hd : s.documents[slot]? = some (some d) := Option.join_eq_some_iff.mp hd
      obtain ⟨r, hr⟩ := hbalanced.placed (hold_mem_held hd)
      exact hs.stepDocument hc hd hr command
  | _ => exact hc.elim

/-- Whatever is asked of later documents, the earlier ones stay as they are, and those that are ended read no
longer. -/
theorem Aside.play (hs : s.Aside since size spent) (hbalanced : BalancedWith [] s)
    {commands : List Command} (huses : ∀ c ∈ commands, c.Uses since.size) :
    (s.play commands).2.Aside since size fun k => spent k ∨ ∃ c ∈ commands, c.Ends k := by
  induction commands generalizing s spent with
  | nil => exact ⟨hs.size_eq, hs.earlier, fun hspent => hs.spent (hspent.resolve_right (by simp))⟩
  | cons c rest ih =>
    obtain ⟨hc, hrest⟩ := List.forall_mem_cons.mp huses
    have hbalanced' := accounts_step Resource.account_balanced c s hbalanced
    have hplay := ih (hs.step hbalanced hc) hbalanced' hrest
    refine ⟨hplay.size_eq, hplay.earlier, fun {k d} hspent hd => hplay.spent ?_ hd⟩
    rcases hspent with hspent | ⟨c', hc', hend⟩
    · exact .inl (.inl hspent)
    · rcases List.mem_cons.mp hc' with rfl | hc'
      · exact .inl (.inr hend)
      · exact .inr ⟨c', hc', hend⟩

/-- Once all later documents are spent, every resource is read by the earlier ones. -/
theorem Aside.readers_eq {since : Session} (hs : s.Aside since.documents size spent)
    (hspent : ∀ slot, since.documents.size ≤ slot → slot < size → spent slot) (place : Nat) :
    s.readers place = since.readers place := by
  have hearlier : s.documents.toList.take since.documents.size = since.documents.toList := by
    refine List.ext_getElem? fun k => ?_
    rw [List.getElem?_take]
    split
    · next hk =>
      rw [Array.getElem?_toList, Array.getElem?_toList]
      exact hs.earlier k hk
    · next hk => exact (List.getElem?_eq_none (Nat.not_lt.mp hk)).symm
  have hlater : (s.documents.toList.drop since.documents.size).countP
      (fun d => d.any (Document.holds place)) = 0 := by
    refine List.countP_eq_zero.mpr fun d hd hholds => ?_
    obtain ⟨k, hk⟩ := List.mem_iff_getElem?.mp hd
    rw [List.getElem?_drop] at hk
    rw [Array.getElem?_toList] at hk
    cases d with
    | none => cases hholds
    | some e =>
      have hlt := (Array.getElem?_eq_some_iff.mp hk).1
      rw [hs.size_eq] at hlt
      have hzero := hs.spent (hspent _ (Nat.le_add_right _ _) hlt) hk
      simp [Document.holds, hzero] at hholds
  rw [readers, ← Array.countP_toList, ← List.take_append_drop since.documents.size s.documents.toList,
    List.countP_append, hearlier, hlater, Array.countP_toList]
  rfl

/-- A command gives out documents, and later each of them is ended. Whatever else is asked of them, every
resource then has as many open read transactions as it had before the command. -/
theorem exists_liveRead_eq (harose : s.store.Arose) (hbalanced : BalancedWith [] s) (c : Command)
    {given : Array (Option Document)} (hgiven : (step c s).2.documents = s.documents ++ given)
    {later : List Command} (huses : ∀ c' ∈ later, c'.Uses s.documents.size)
    (hends : ∀ slot, s.documents.size ≤ slot → slot < (step c s).2.documents.size →
      ∃ c' ∈ later, c'.Ends slot)
    {place : Nat} {r : Resource} (hr : s.store.resource? place = some r) :
    ∃ r', ((step c s).2.play later).2.store.resource? place = some r' ∧
      r'.tally.liveRead = r.tally.liveRead := by
  have hbalanced' : BalancedWith [] (step c s).2 := accounts_step Resource.account_balanced c s hbalanced
  have haside : (step c s).2.Aside s.documents (step c s).2.documents.size fun _ => False := by
    refine ⟨rfl, fun slot hslot => ?_, fun h => h.elim⟩
    rw [hgiven]
    exact Array.getElem?_append_left hslot
  have hreaders : ((step c s).2.play later).2.readers place = s.readers place := by
    apply (haside.play hbalanced' huses).readers_eq
    intro slot hfirst hlt
    exact .inr (hends slot hfirst hlt)
  -- The command and what is asked later are one run of the store, so the resource is still there.
  obtain ⟨events, -, hlater⟩ := (follows_play harose (c :: later)).store
  have hr' : ((step c s).2.play later).2.store.resource? place = some _ :=
    (congrArg (Store.resource? · place) hlater).trans (Store.resource?_run hr events)
  refine ⟨_, hr', ?_⟩
  have hbefore := hbalanced.balanced.counted hr
  have hbehind := (preserves_balanced_play later hbalanced').balanced.counted hr'
  rw [hbehind.liveRead_eq, hbefore.liveRead_eq, hreaders]

end Session

end AsOf
