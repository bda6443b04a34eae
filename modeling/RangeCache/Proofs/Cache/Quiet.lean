import RangeCache.Proofs.Store.Quiet

/-!
# Quiet operations

Every operation of a cache but those of a read updates its stores quietly (`Cache.Quiet`), and a read does so too
between its first step, in which it pins its blocks, and its last one, in which it takes the pins back
(`exists_readFrom`).
-/

namespace RangeCache.Cache

open Relation

/-- Every store was updated quietly, and there are no others. -/
def Quiet (c c' : Cache) : Prop :=
  (∀ ⦃i : Nat⦄ ⦃s : Store⦄, c.stores[i]? = some s → ∃ t, c'.stores[i]? = some t ∧ s.Quietly t) ∧
    ∀ ⦃i : Nat⦄, c.stores[i]? = none → c'.stores[i]? = none

section Quiet
variable {c c' c'' : Cache} {i : Nat} {s t : Store}

theorem Quiet.refl (c : Cache) : c.Quiet c := ⟨fun _ s hs => ⟨s, hs, .refl⟩, fun _ hs => hs⟩

theorem Quiet.trans (h : c.Quiet c') (h' : c'.Quiet c'') : c.Quiet c'' := by
  refine ⟨fun i s hs => ?_, fun i hs => h'.2 (h.2 hs)⟩
  obtain ⟨t, ht, hst⟩ := h.1 hs
  obtain ⟨u, hu, htu⟩ := h'.1 ht
  exact ⟨u, hu, hst.trans htu⟩

/-- A store after quiet operations is one of those before, updated. -/
theorem Quiet.exists_quietly (h : c.Quiet c') (ht : c'.stores[i]? = some t) :
    ∃ s, c.stores[i]? = some s ∧ s.Quietly t := by
  cases hs : c.stores[i]? with
  | none => cases (h.2 hs).symm.trans ht
  | some s =>
    obtain ⟨t', ht', hst⟩ := h.1 hs
    cases ht.symm.trans ht'
    exact ⟨s, rfl, hst⟩

theorem Quiet.lt_length (h : c.Quiet c') (hi : i < c.stores.length) : i < c'.stores.length := by
  obtain ⟨t, ht, -⟩ := h.1 (List.getElem?_eq_getElem hi)
  exact (List.getElem?_eq_some_iff.mp ht).1

theorem Quiet.storesSound (h : c.Quiet c') (hc : c.StoresSound) : c'.StoresSound := fun _ _ ht => by
  obtain ⟨s, hs, hst⟩ := h.exists_quietly ht
  exact hst.sound (hc hs)

theorem quiet_modifyStore {f : Store → Store} (hf : ∀ s, c.stores[i]? = some s → s.Quietly (f s)) :
    c.Quiet (c.modifyStore i f) := by
  constructor
  · intro k s hs
    by_cases hk : k = i
    · subst hk
      exact ⟨f s, getElem?_modifyStore_self hs, hf s hs⟩
    · exact ⟨s, (getElem?_modifyStore_ne hk).trans hs, .refl⟩
  · intro k hs
    by_cases hk : k = i
    · subst hk
      rwa [modifyStore_of_none hs]
    · exact (getElem?_modifyStore_ne hk).trans hs

end Quiet

/-! ### Operations -/

section Operations
variable {c : Cache}

theorem quiet_revertJob (j : Job) : c.Quiet (c.revertJob j) :=
  quiet_modifyStore (c := c) fun _ _ => .single (.revert j.id j.blocks)

theorem quiet_revertAll (l : List Job) : c.Quiet (l.foldl revertJob c) := by
  induction l generalizing c with
  | nil => exact .refl c
  | cons j r ih => exact (quiet_revertJob j).trans ih

theorem quiet_submit (jobs : List Job) (n : Nat) : c.Quiet (c.submit jobs n).1 := by
  induction jobs generalizing c n with
  | nil => exact .refl c
  | cons j r ih =>
    unfold submit
    have hmiss : c.Quiet (c.modifyStore j.store fun s => { s with misses := s.misses + j.blocks.length }) :=
      quiet_modifyStore fun s _ => .single (.count _ _ _ _)
    refine hmiss.trans ?_
    generalize c.modifyStore j.store (fun s => { s with misses := s.misses + j.blocks.length }) = c
    dsimp only
    split
    · have hreject : c.Quiet { c with queue := { c.queue with rejected := c.queue.rejected + 1 } } := .refl c
      cases j.priority with
      | speculative => exact hreject.trans ((quiet_revertJob j).trans (ih n))
      | immediate => exact hreject.trans (quiet_revertAll (j :: r))
    · have hfetch : c.Quiet (({ c with queue := c.queue.enqueue j }.pump).modifyStore j.store fun s =>
          { s with fetches := s.fetches + 1 }) :=
        quiet_modifyStore (c := { c with queue := c.queue.enqueue j }.pump) fun s _ => .single (.count _ _ _ _)
      exact hfetch.trans (ih (n + 1))

theorem quiet_claimRuns (i : Nat) (key : String) (priority : Priority) (owner : Option Nat)
    (runs : List (List Block)) : c.Quiet (c.claimRuns i key priority owner runs).1 := by
  induction runs generalizing c with
  | nil => exact .refl c
  | cons run r ih =>
    have hclaim : c.Quiet (c.claimRun i key priority owner run).1 :=
      quiet_modifyStore (c := { c with queue := c.queue.takeId.1 }) fun s _ => .single (.claim _ _)
    exact hclaim.trans ih

/-- A store in the place of which its blocks for some spans are made. -/
theorem quiet_fillAll (hc : c.StoresSound) {i : Nat} {s : Store} (hs : c.stores[i]? = some s) (fit : Fit)
    (spans : List Span) : c.Quiet (c.modifyStore i fun _ => s.fillAll fit spans) :=
  quiet_modifyStore fun s' hs' => by
    rw [hs] at hs'
    cases hs'
    exact .single (.grow (Store.grown_fillAll (hc hs) fit spans))

theorem quiet_claim (hc : c.StoresSound) (i : Nat) (spans : List Span) (fit : Fit) (priority : Priority)
    (owner : Option Nat) : c.Quiet (c.claim i spans fit priority owner).1 := by
  cases hs : c.stores[i]? with
  | none =>
    rw [claim_of_none hs]
    exact .refl c
  | some s =>
    rw [claim_eq hs]
    exact (quiet_fillAll hc hs fit spans).trans (quiet_claimRuns i _ priority owner _)

theorem quiet_dispatch (jobs : List Job) (others : List Nat) (priority : Priority) :
    c.Quiet (c.dispatch jobs others priority).1 := by
  unfold dispatch
  cases priority with
  | immediate => exact quiet_submit (c := { c with queue := others.foldl FetchQueue.promote c.queue }) jobs 0
  | speculative => exact quiet_submit jobs 0

theorem quiet_ensure (hc : c.StoresSound) (i : Nat) (spans : List Span) (fit : Fit) (priority : Priority)
    (owner : Option Nat) : c.Quiet (c.ensure i spans fit priority owner).1 :=
  (quiet_claim hc i spans fit priority owner).trans (quiet_dispatch _ _ priority)

theorem quiet_get (hc : c.StoresSound) (i : Nat) (span : Span) : c.Quiet (c.get i span).1 := by
  cases hs : c.stores[i]? with
  | none =>
    rw [get_of_none hs]
    exact .refl c
  | some s =>
    rw [get_eq hs]
    exact quiet_fillAll hc hs .grid [span]

theorem quiet_cancel (owner : Nat) : c.Quiet (c.cancel owner).1 :=
  quiet_revertAll (c := { c with queue := (c.queue.cancel owner).1 }) _

theorem quiet_evict (i : Nat) : c.Quiet (c.evict i).1 := by
  unfold evict
  cases c.stores[i]? with
  | none => exact .refl c
  | some _ => exact quiet_modifyStore fun s _ => .single .evict

theorem modifyStore_modifyStore (i : Nat) (f g : Store → Store) :
    (c.modifyStore i f).modifyStore i g = c.modifyStore i fun s => g (f s) := by
  simp only [modifyStore, List.modify_modify_eq, Function.comp_def]

theorem quiet_finish (j : Job) (attempts : Nat) (result : Except Fault Bytes) :
    c.Quiet (c.finish j attempts result) := by
  cases result with
  | error f =>
    have hfail : c.Quiet (c.modifyStore j.store (·.fail j.id j.blocks f)) :=
      quiet_modifyStore fun s _ => .single (.fail _ _ _)
    exact hfail
  | ok data =>
    have hdeliver : c.Quiet (c.modifyStore j.store fun s => (s.complete j.id j.blocks j.span.start data).evict) :=
      quiet_modifyStore fun s _ => .single (.deliver _ _ _ _)
    rw [← modifyStore_modifyStore j.store (fun s => s.complete j.id j.blocks j.span.start data) Store.evict] at hdeliver
    exact hdeliver

theorem quiet_poll (i id : Nat) (owner : Option Nat) : c.Quiet (c.poll i id owner).1 := by
  unfold poll
  cases hs : c.stores[i]? with
  | none => exact .refl c
  | some s =>
    dsimp only
    cases s.block? id with
    | none => exact .refl c
    | some b =>
      dsimp only
      cases b.state with
      | pending =>
        have hboth := (quiet_claimRuns (c := c) i s.handle.key .immediate owner [[b]]).trans
          (quiet_dispatch (c.claimRuns i s.handle.key .immediate owner [[b]]).2 [] .immediate)
        dsimp only
        split <;> rename_i heq <;> rw [heq] at hboth <;> exact hboth
      | _ => exact .refl c

theorem quiet_tick (i id : Nat) : c.Quiet (c.modifyStore i fun s => s.tick.touch id) :=
  quiet_modifyStore fun s _ =>
    (ReflTransGen.single (.count s.hits s.misses s.fetches (s.clock + 1))).tail (.touch id)

/-! ### Reads -/

/-- Going on with a read is quiet until it waits or ends. -/
theorem exists_readFrom (c : Cache) (r : Reading) (got : Bytes) (todo : List Nat) : ∃ c', c.Quiet c' ∧
    ((∃ rest bytes, rest <:+ todo ∧ c.readFrom r got todo = (c', .waiting { r with todo := rest, bytes })) ∨
      ∃ result, c.readFrom r got todo = (c'.endRead r result, .done result)) := by
  induction todo generalizing c got with
  | nil => exact ⟨c, .refl c, Or.inr ⟨.ok got, rfl⟩⟩
  | cons id rest ih =>
    have hpoll := quiet_poll (c := c) r.store id r.owner
    unfold readFrom
    generalize c.poll r.store id r.owner = polled at hpoll ⊢
    obtain ⟨c', p⟩ := polled
    cases p with
    | waiting _ => exact ⟨c', hpoll, Or.inl ⟨id :: rest, got, List.suffix_refl _, rfl⟩⟩
    | done result =>
      cases result with
      | error f => exact ⟨c', hpoll, Or.inr ⟨.error f, rfl⟩⟩
      | ok bytes =>
        dsimp only
        cases (c'.stores[r.store]?).bind (·.block? id) with
        | none => exact ⟨c', hpoll, Or.inr ⟨.error (.internal "no such block"), rfl⟩⟩
        | some b =>
          obtain ⟨c'', hquiet, hrest⟩ := ih (c'.modifyStore r.store fun s => s.tick.touch id) (got ++ r.part b bytes)
          refine ⟨c'', hpoll.trans ((quiet_tick r.store id).trans hquiet), hrest.imp_left ?_⟩
          rintro ⟨todo, bytes, hsuffix, he⟩
          exact ⟨todo, bytes, hsuffix.trans (List.suffix_cons _ _), he⟩

end Operations

end RangeCache.Cache
