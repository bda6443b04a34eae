import RangeCache.Proofs.Cache.Fetched
import RangeCache.Proofs.Cache.Pins
import RangeCache.Proofs.Fetch.Urgent

/-!
# What a waiting read is promised

When a read begins to wait, each of its blocks has its bytes or is in flight for an urgent job: one that runs, or
waits at immediate priority, and so is not cancelled (`promised_beginRead`). This stays so whatever happens, up to the
moment at which a job fails that fetches the block (`promised_acts`). After that anybody may claim the block, and then
it may be in flight for a job that waits at speculative priority, which is cancelled though a read waits for the block
(`inverted_after_failure`): a read promotes jobs when it begins, and not later.
-/

namespace RangeCache

open Relation

/-- The bytes of a block are there, or they were there and it was evicted, or a job owns it of which `U` holds. -/
def Store.Promises (s : Store) (U : Nat → Prop) (id : Nat) : Prop :=
  ∃ span, s.Had id span ∨ ∃ n, U n ∧ s.Owns n id span

theorem Store.Edits.had {s t : Store} (h : s.Edits t) (hs : s.Sound) {id : Nat} {span : Span} (hb : s.Had id span) :
    t.Had id span := by
  induction h with
  | refl => exact hb
  | tail hes he ih => exact he.had (Edits.sound hes hs) ih

theorem Store.Edits.owns_iff {s t : Store} (h : s.Edits t) (hs : s.Sound) {n id : Nat} {span : Span} :
    t.Owns n id span ↔ s.Owns n id span := by
  induction h with
  | refl => rfl
  | tail hes he ih => exact (he.owns_iff (Edits.sound hes hs)).trans ih

namespace Cache

/-- A store promises the bytes of a block. -/
def PromisedBy (c : Cache) (U : Nat → Prop) (i id : Nat) : Prop := ∃ s, c.stores[i]? = some s ∧ s.Promises U id

/-- The bytes of a block are there, or were, or an urgent job fetches them. -/
def Promised (c : Cache) (i id : Nat) : Prop := c.PromisedBy c.queue.Urgent i id

section PromisedBy
variable {c : Cache} {U V : Nat → Prop} {i id : Nat}

theorem PromisedBy.mono (h : c.PromisedBy U i id) (hU : ∀ n, U n → V n) : c.PromisedBy V i id := by
  obtain ⟨s, hs, span, hhad | ⟨n, hn, ho⟩⟩ := h
  · exact ⟨s, hs, span, Or.inl hhad⟩
  · exact ⟨s, hs, span, Or.inr ⟨n, hU n hn, ho⟩⟩

theorem PromisedBy.modifyStore (h : c.PromisedBy U i id) {k : Nat} {f : Store → Store}
    (hhad : ∀ {s : Store}, c.stores[k]? = some s → ∀ {span : Span}, s.Had id span → (f s).Had id span)
    (howns : ∀ {s : Store}, c.stores[k]? = some s →
      ∀ {n : Nat} {span : Span}, U n → s.Owns n id span → (f s).Owns n id span) :
    (c.modifyStore k f).PromisedBy U i id := by
  obtain ⟨s, hs, span, hp⟩ := h
  by_cases hi : i = k
  · subst hi
    exact ⟨f s, getElem?_modifyStore_self hs, span, hp.imp (hhad hs) fun ⟨n, hn, ho⟩ => ⟨n, hn, howns hs hn ho⟩⟩
  · exact ⟨s, (getElem?_modifyStore_ne hi).trans hs, span, hp⟩

theorem PromisedBy.edits (h : c.PromisedBy U i id) (hc : c.StoresSound) {k : Nat} {f : Store → Store}
    (hf : ∀ {s : Store}, c.stores[k]? = some s → s.Edits (f s)) : (c.modifyStore k f).PromisedBy U i id :=
  h.modifyStore (fun hs _ => (hf hs).had (hc hs)) fun hs _ _ _ => ((hf hs).owns_iff (hc hs)).mpr

/-- A block that is in flight for a job was not fetched before, so that the promise is about this job. -/
theorem PromisedBy.of_inFlight (h : c.PromisedBy U i id) (hc : c.StoresSound) {s : Store} (hs : c.stores[i]? = some s)
    {b : Block} (hb : b ∈ s.blocks ++ s.retired) (hid : b.id = id) {n : Nat} (hst : b.state = .inFlight n) : U n := by
  obtain ⟨t, ht, span, ⟨x, hxid, -, hx⟩ | ⟨m, hm, x, hx, hxid, -, hxst⟩⟩ := h <;> rw [hs] at ht <;> cases ht
  · rcases hx with ⟨hx, hready⟩ | hx
    · rw [(hc hs).eq_of_id (List.mem_append_left _ hx) hb (hxid.trans hid.symm), hst] at hready
      cases hready
    · have := (hc hs).retired x hx
      rw [(hc hs).eq_of_id (List.mem_append_right _ hx) hb (hxid.trans hid.symm), hst] at this
      cases this
  · rw [(hc hs).eq_of_id (List.mem_append_left _ hx) hb (hxid.trans hid.symm), hst] at hxst
    cases hxst
    exact hm

end PromisedBy

end Cache

/-! ### What moves keep -/

section Moves
variable {C : Contents} {A : Job → Except Fault Bytes → Prop} {w w' : Work} {i id : Nat}

/-- A move keeps a promise, unless it ends a job that fetches the block with a failure. -/
theorem Move.promised (h : Move A w w') (hw : w.Sound C) (hp : w.cache.Promised i id) :
    (∃ j f, A j (.error f) ∧ j.store = i ∧ id ∈ j.blocks) ∨ w'.cache.Promised i id := by
  cases h with
  | edit hs he =>
    refine Or.inr (Cache.PromisedBy.edits hp hw.stores fun ht => ?_)
    rw [hs] at ht
    cases ht
    exact .single he
  | claim priority owner hs hrun hin =>
    refine Or.inr (Cache.PromisedBy.modifyStore hp (fun {t} ht _ => Store.had_claim (hw.stores (s := t) ht)) ?_)
    exact fun {t} ht _ _ _ ho => (Store.owns_claim_iff (hw.stores (s := t) ht)).mpr (Or.inl ho)
  | @giveBack c L j =>
    refine Or.inr (Cache.PromisedBy.modifyStore hp (fun ht _ => Store.had_revert (hw.stores ht)) ?_)
    refine fun ht n span hurgent ho => (Store.owns_revert_iff (hw.stores ht)).mpr ⟨ho, fun he => ?_⟩
    -- The job in hand is not in the queue.
    obtain ⟨k, hk, hid⟩ := hurgent.exists_mem_jobs
    exact hw.id_not_mem (List.mem_map.mpr ⟨k, hk, hid.trans he.1⟩)
  | reject j hfull => exact Or.inr hp
  | enqueue j hroom => exact Or.inr (Cache.PromisedBy.mono hp fun n hn => (hn.enqueue j).pump)
  | promote job => exact Or.inr (Cache.PromisedBy.mono hp fun n hn => hn.promote hw.queue job)
  | withdraw owner => exact Or.inr (Cache.PromisedBy.mono hp fun n hn => hn.cancel hw.queue owner)
  | @settle c L j result attempts hj ha =>
    have hmem : j ∈ L ++ c.queue.jobs := List.mem_append_right _ (FetchQueue.mem_jobs.mpr (Or.inr hj))
    obtain ⟨s, hs, span, hp⟩ := hp
    by_cases hown : s.Owns j.id id span
    · obtain ⟨k, hk, hkj, rfl, hlist⟩ := hw.ledger.owned hs hown
      obtain rfl := hw.ledger.eq_of_id hk hmem hkj
      cases result with
      | error f => exact Or.inl ⟨k, f, ha, rfl, hlist⟩
      | ok data =>
        exact Or.inr ⟨_, Cache.getElem?_modifyStore_self hs, span,
          Or.inl (Store.had_complete (hw.stores hs) data hlist hown)⟩
    · -- The block is in flight for another job, if for any.
      have hother : c.PromisedBy (fun n => n ≠ j.id ∧ c.queue.Urgent n) i id :=
        ⟨s, hs, span, hp.imp_right fun ⟨n, hn, ho⟩ => ⟨n, ⟨fun he => hown (he ▸ ho), hn⟩, ho⟩⟩
      have hkept : (c.modifyStore j.store (Cache.settleBlocks j result)).PromisedBy
          (fun n => n ≠ j.id ∧ c.queue.Urgent n) i id :=
        hother.modifyStore (fun ht _ => Store.had_settleBlocks (hw.stores ht)) fun ht _ _ hn ho =>
          (Store.owns_settleBlocks_iff (hw.stores ht)).mpr ⟨ho, fun he => hn.1 he.1⟩
      exact Or.inr (hkept.mono fun n hn => (hn.2.finish hn.1 attempts (Cache.isFailure result)).pump)

theorem Moves.promised (h : Moves A w w') (hadm : ∀ k r, A k r → C.admits k r) (hw : w.Sound C)
    (hp : w.cache.Promised i id) :
    (∃ j f, A j (.error f) ∧ j.store = i ∧ id ∈ j.blocks) ∨ w'.cache.Promised i id := by
  induction h with
  | refl => exact Or.inr hp
  | tail hms hm ih =>
    rcases ih with hfail | hp'
    · exact Or.inl hfail
    · exact hm.promised ((Moves.mono hadm hms).sound hw) hp'

end Moves

namespace Cache

/-! ### Requests promise -/

section Requests
variable {C : Contents} {c : Cache} {i id : Nat}

/-- A request for immediate jobs that is granted makes them urgent. -/
theorem promised_submit {jobs : List Job} {n m : Nat} {c' : Cache} (hc : c.StoresSound)
    (him : ∀ j ∈ jobs, j.priority = .immediate) (hok : c.submit jobs n = (c', .ok m))
    (h : c.PromisedBy (fun k => c.queue.Urgent k ∨ ∃ j ∈ jobs, j.id = k) i id) : c'.Promised i id := by
  induction jobs generalizing c n with
  | nil =>
    simp only [submit, Prod.mk.injEq] at hok
    exact hok.1 ▸ h.mono fun k hk => hk.resolve_right (by simp)
  | cons j r ih =>
    have hcount : (c.modifyStore j.store fun s => { s with misses := s.misses + j.blocks.length }).PromisedBy
        (fun k => c.queue.Urgent k ∨ ∃ x ∈ j :: r, x.id = k) i id :=
      h.edits hc fun {s} _ => .single (.count s.hits (s.misses + j.blocks.length) s.fetches s.clock)
    have hc₁ : (c.modifyStore j.store fun s => { s with misses := s.misses + j.blocks.length }).StoresSound :=
      hc.modifyStore fun s _ hs => (Store.Edit.count _ _ _ _).sound hs
    have hqueue : (c.modifyStore j.store fun s => { s with misses := s.misses + j.blocks.length }).queue = c.queue := rfl
    unfold submit at hok
    rw [← hqueue] at hcount
    generalize c.modifyStore j.store (fun s => { s with misses := s.misses + j.blocks.length }) = c₁ at *
    dsimp only at hok
    split at hok
    · -- An immediate job that is rejected fails the request.
      rw [him j List.mem_cons_self] at hok
      simp at hok
    · have hstarted : ({ c₁ with queue := c₁.queue.enqueue j } : Cache).pump.PromisedBy (fun k =>
          ({ c₁ with queue := c₁.queue.enqueue j } : Cache).pump.queue.Urgent k ∨ ∃ x ∈ r, x.id = k) i id := by
        refine PromisedBy.mono (c := c₁) hcount fun k hk => ?_
        rcases hk with hk | ⟨x, hx, rfl⟩
        · exact Or.inl (hk.enqueue j).pump
        · rcases List.mem_cons.mp hx with rfl | hx
          · exact Or.inl (FetchQueue.urgent_enqueue c₁.queue (him x List.mem_cons_self)).pump
          · exact Or.inr ⟨x, hx, rfl⟩
      have hc₂ : ({ c₁ with queue := c₁.queue.enqueue j } : Cache).pump.StoresSound := hc₁
      refine ih (hc₂.modifyStore fun s _ hs => (Store.Edit.count _ _ _ _).sound hs)
        (fun x hx => him x (List.mem_cons_of_mem _ hx)) hok ?_
      exact hstarted.edits hc₂ fun {s} _ => .single (.count s.hits s.misses (s.fetches + 1) s.clock)

/-- An immediate request that is granted makes its own jobs urgent and those on which it depends. -/
theorem promised_dispatch {jobs : List Job} {others : List Nat} {m : Nat} {c' : Cache} (hc : c.StoresSound)
    (hq : c.queue.Sound) (him : ∀ j ∈ jobs, j.priority = .immediate)
    (hok : c.dispatch jobs others .immediate = (c', .ok m))
    (h : c.PromisedBy (fun n => (n ∈ others ∧ ∃ k ∈ c.queue.jobs, k.id = n) ∨ ∃ j ∈ jobs, j.id = n) i id) :
    c'.Promised i id := by
  refine promised_submit (c := { c with queue := others.foldl FetchQueue.promote c.queue }) hc him hok ?_
  exact PromisedBy.mono (c := c) h fun n hn => hn.imp_left fun hn => FetchQueue.urgent_promoteAll hq hn.1 hn.2

theorem priority_claim (c : Cache) (i : Nat) (spans : List Span) (fit : Fit) (priority : Priority) (owner : Option Nat) :
    ∀ j ∈ (c.claim i spans fit priority owner).2.1, j.priority = priority := by
  intro j hj
  cases hs : c.stores[i]? with
  | none =>
    rw [claim_of_none hs] at hj
    cases hj
  | some s =>
    rw [claim_eq hs] at hj
    obtain ⟨-, -, -, -, hpriority⟩ := (jobs_claimRuns ..).2 j hj
    exact hpriority

/-- After the claim of a span, a block of it that is in flight is so for a job that the claim names, or for one that
    it made. -/
theorem named_of_claim (h : Work.Sound C ⟨c, []⟩) {s t : Store} (hs : c.stores[i]? = some s) {span : Span}
    (hspan : (span.clamp s.handle.size).isEmpty = false) (fit : Fit) (priority : Priority) (owner : Option Nat)
    (ht : (c.claim i [span] fit priority owner).1.stores[i]? = some t) {b : Block}
    (hb : b ∈ t.overlapping (span.clamp s.handle.size)) {n : Nat} (hst : b.state = .inFlight n) :
    (n ∈ (c.claim i [span] fit priority owner).2.2 ∧
        ∃ k ∈ (c.claim i [span] fit priority owner).1.queue.jobs, k.id = n) ∨
      ∃ j ∈ (c.claim i [span] fit priority owner).2.1, j.id = n := by
  have hclaimed := Moves.sound (C := C) (moves_claim (A := C.admits) h.stores i [span] fit priority owner) h
  obtain ⟨hbm, hover⟩ := (Store.mem_overlapping_clamp (hclaimed.stores ht)).mp hb
  obtain ⟨j, hj, hjn, hji, hlist⟩ := hclaimed.ledger.owned ht ⟨b, hbm, rfl, rfl, hst⟩
  refine (List.mem_append.mp hj).symm.imp (fun hj => ⟨?_, j, hj, hjn⟩) fun hj => ⟨j, hj, hjn⟩
  have hgrown := Store.grown_fillAll (h.stores hs) fit [span]
  -- The job was there before the claim, and owned the block already.
  have hj : j ∈ c.queue.jobs := jobs_claim c i [span] fit priority owner ▸ hj
  obtain ⟨s', hs', hcar⟩ := h.ledger.carried j hj
  rw [hji, hs] at hs'
  cases hs'
  obtain ⟨span', ⟨x, hx, hxid, -, hxst⟩, -⟩ := hcar.owns hlist
  obtain ⟨u, g, hu, hg, -⟩ := exists_mapped_claim h.stores hs [span] fit priority owner
  cases ht.symm.trans hu
  obtain ⟨y, hy, rfl⟩ := hg.mem_iff.mp hbm
  obtain rfl := (hgrown.sound (h.stores hs)).eq_of_id_tracked (hgrown.mem hx) hy (hxid.trans (hg.id y))
  rw [hg.span] at hover
  rw [← hgrown.handle] at hspan hover
  rw [claim_of_sound h.stores hs]
  exact List.mem_filterMap.mpr ⟨x, (Store.mem_touched_singleton hspan).mpr ⟨hy, hover⟩, by rw [hxst, ← hjn]; rfl⟩

/-- After the claim of a span, each of its blocks has its bytes, or is in flight for a job that the claim names or
    made. -/
theorem promised_claim (h : Work.Sound C ⟨c, []⟩) {s t : Store} (hs : c.stores[i]? = some s) {span : Span}
    (hspan : (span.clamp s.handle.size).isEmpty = false) (fit : Fit) (priority : Priority) (owner : Option Nat)
    (ht : (c.claim i [span] fit priority owner).1.stores[i]? = some t) {b : Block}
    (hb : b ∈ t.overlapping (span.clamp s.handle.size)) :
    (c.claim i [span] fit priority owner).1.PromisedBy (fun n =>
      (n ∈ (c.claim i [span] fit priority owner).2.2 ∧
        ∃ k ∈ (c.claim i [span] fit priority owner).1.queue.jobs, k.id = n) ∨
      ∃ j ∈ (c.claim i [span] fit priority owner).2.1, j.id = n) i b.id := by
  have hsound := Moves.sound (C := C) (moves_claim (A := C.admits) h.stores i [span] fit priority owner) h
  have hclaimed := claimed_of_claim h.stores hs hspan fit priority owner ht hb
  have hbm := ((Store.mem_overlapping_clamp (hsound.stores ht)).mp hb).1
  refine ⟨t, ht, b.span, ?_⟩
  cases hst : b.state with
  | ready bytes => exact Or.inl ⟨b, rfl, rfl, Or.inl ⟨hbm, by rw [hst]; rfl⟩⟩
  | inFlight n => exact Or.inr ⟨n, named_of_claim h hs hspan fit priority owner ht hb hst, b, hbm, rfl, rfl, hst⟩
  | evicted => exact absurd hst ((hsound.stores ht).tracked b hbm)
  | pending => simp [hst, BlockState.isClaimable] at hclaimed
  | failed f => simp [hst, BlockState.isClaimable] at hclaimed

/-- When a read begins to wait, the bytes of all its blocks are promised. -/
theorem promised_beginRead (h : Work.Sound C ⟨c, []⟩) {span : Span} {fit : Fit} {owner : Option Nat} {r : Reading}
    (hr : (c.beginRead i span fit owner).2 = .waiting r) (hid : id ∈ r.pinned) :
    (c.beginRead i span fit owner).1.Promised i id := by
  cases hs : c.stores[i]? with
  | none =>
    rw [beginRead_of_none hs] at hr
    cases hr
  | some s =>
    by_cases hspan : (span.clamp s.handle.size).isEmpty = true
    · rw [beginRead_of_isEmpty hs hspan] at hr
      cases hr
    · have hspan : (span.clamp s.handle.size).isEmpty = false := by simpa using hspan
      have hclamp := span.clamp_clamp s.handle.size
      rcases hclaim : c.claim i [span.clamp s.handle.size] fit .immediate owner with ⟨c₁, jobs, others⟩
      have hmoves := moves_claim (A := C.admits) h.stores i [span.clamp s.handle.size] fit .immediate owner
      have hpromised := fun t b =>
        promised_claim (t := t) (b := b) h hs (by rw [hclamp]; exact hspan) fit .immediate owner
      have him := c.priority_claim i [span.clamp s.handle.size] fit .immediate owner
      rw [hclaim] at hmoves hpromised him
      rw [hclamp] at hpromised
      dsimp only at hmoves hpromised him
      obtain ⟨t, ht, -⟩ := hmoves.extends h.stores hs
      have hclaimed := Moves.sound hmoves h
      rw [beginRead_of_claim hs hspan hclaim ht] at hr ⊢
      have hpin := fun u (_ : c₁.stores[i]? = some u) => u.edits_pinFor (t.overlapping (span.clamp s.handle.size))
      have hpinned := Moves.sound (moves_modifyStore (A := C.admits) (L := jobs) hpin) hclaimed
      have hdispatched := Moves.sound (moves_dispatch (A := C.admits) jobs others .immediate) hpinned
      split at hr
      · rename_i c₂ n heq
        rw [heq] at hdispatched
        obtain ⟨rest, bytes, rfl, -⟩ := further_of_resumeRead hr
        obtain ⟨b, hb, rfl⟩ := List.mem_map.mp hid
        have hgranted := promised_dispatch hpinned.stores hpinned.queue him heq
          ((hpromised t b ht hb).edits hclaimed.stores fun hs => hpin _ hs)
        refine (Moves.promised (C := C) (moves_resumeRead (A := fun _ _ => False) hdispatched.stores _)
          (fun _ _ => False.elim) hdispatched hgranted).resolve_left ?_
        exact fun ⟨_, _, hfalse, _⟩ => hfalse
      · cases hr

/-! ### Runs of a cache -/

theorem promised_act (h : Work.Sound .any ⟨c, []⟩) (hp : c.Promised i id) (a : Action) :
    (∃ j n f, a = .finish j n (.error f) ∧ j ∈ c.queue.running ∧ j.store = i ∧ id ∈ j.blocks) ∨
      (c.act a).Promised i id := by
  rcases moves_act h.stores a with ⟨handle, config, he⟩ | hm
  · obtain ⟨s, hs, hpromises⟩ := hp
    exact Or.inr (he ▸ ⟨s, getElem?_addStore_of hs, hpromises⟩)
  · rcases Moves.promised (C := .any) hm (fun _ _ _ _ _ => trivial) h hp with ⟨j, f, hends, hstore, hlist⟩ | hp'
    · cases a with
      | finish k n result =>
        obtain ⟨rfl, rfl⟩ := hends
        by_cases hrun : j ∈ c.queue.running
        · exact Or.inl ⟨j, n, f, rfl, hrun, hstore, hlist⟩
        · refine Or.inr ?_
          simp only [act, if_neg hrun]
          exact hp
      | _ => exact hends.elim
    · exact Or.inr hp'

/-- Whatever is done after its bytes were promised, a block stays promised until a job fails that fetches it. -/
theorem promised_acts (h : Work.Sound .any ⟨c, []⟩) (hp : c.Promised i id) (l : List Action) :
    (∃ j, j.store = i ∧ id ∈ j.blocks ∧ c.Fails j l) ∨ (c.acts l).Promised i id := by
  induction l generalizing c with
  | nil => exact Or.inr hp
  | cons a r ih =>
    rcases promised_act h hp a with ⟨j, n, f, rfl, hrun, hstore, hlist⟩ | hp'
    · exact Or.inl ⟨j, hstore, hlist, [], n, f, r, rfl, hrun⟩
    · refine (ih (sound_act h a) hp').imp_left fun ⟨j, hstore, hlist, hfail⟩ => ?_
      exact ⟨j, hstore, hlist, hfail.prepend (l := [a])⟩

end Requests

end Cache

/-- No priority is inverted until a job fails. When a read waits that began at any time, then whatever is done since,
    each of its blocks that is in flight is so for a job that runs or waits at immediate priority; unless a job that
    fetched the block failed since the read began. -/
theorem urgent_of_waiting (config : QueueConfig) (l l' : List Cache.Action) (i : Nat) (span : Span) (fit : Fit)
    (owner : Option Nat) (r : Reading) :
    let c := (((Cache.new config).acts l).beginRead i span fit owner).1
    (((Cache.new config).acts l).beginRead i span fit owner).2 = .waiting r → ∀ id ∈ r.pinned,
      (∃ j, j.store = i ∧ id ∈ j.blocks ∧ c.Fails j l') ∨
        (c.acts l').Promised i id ∧ ∀ s, (c.acts l').stores[i]? = some s → ∀ b ∈ s.blocks ++ s.retired, b.id = id →
          ∀ n, b.state = .inFlight n → (c.acts l').queue.Urgent n := by
  intro c hr id hid
  have hsound := Cache.sound_acts (.new .any config) l
  have hbegun : Work.Sound .any ⟨c, []⟩ := Cache.sound_act hsound (.beginRead i span fit owner)
  refine (Cache.promised_acts hbegun (Cache.promised_beginRead hsound hr hid) l').imp_right fun hp => ⟨hp, ?_⟩
  intro s hs b hb hbid n hst
  exact Cache.PromisedBy.of_inFlight hp (Cache.sound_acts hbegun l').stores hs hb hbid hst

/-- After a failure nothing is promised. A read waits for the first of its two blocks when the job of the second one
    fails; a stream that plans ahead claims that block with a job that waits at speculative priority, and when the
    plan is cancelled, so is the job. -/
theorem inverted_after_failure :
    let c := (Cache.new { maxFetches := 2, maxFetchesPerObject := 2 }).act
      (.addStore ⟨"a", 30, none⟩ { blockSize := 10, maxRun := 1 })
    let read := c.beginRead 0 ⟨0, 20⟩ .grid none
    let j : Job := ⟨2, 0, "a", [1], ⟨10, 20⟩, .immediate, none⟩
    let d := read.1.acts [.finish j 1 (.error (.internal "lost")), .ensure 0 [⟨20, 30⟩] .grid .speculative (some 7),
      .ensure 0 [⟨10, 20⟩] .grid .speculative (some 8)]
    (match read.2 with
      | .waiting r => r.todo
      | .done _ => []) = [0, 1] ∧ j ∈ read.1.queue.running ∧
      d.stores.map (fun s => s.blocks.map (·.state)) = [[.inFlight 1, .inFlight 4, .inFlight 3]] ∧
      d.queue.waiting.map (fun w => (w.job.id, w.job.priority)) = [(4, .speculative)] ∧
      (d.cancel 8).1.stores.map (fun s => s.blocks.map (·.state)) = [[.inFlight 1, .pending, .inFlight 3]] := by
  decide +kernel

end RangeCache
