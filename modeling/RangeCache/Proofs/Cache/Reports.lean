import RangeCache.Proofs.Cache.Ledger

/-!
# What operations keep and tell

Whoever uses a cache has to rely on more than the ledger: that the objects of the stores, and what is known
of their blocks, do not change (`Cache.Extends`); that no job is left waiting that may run
(`Moves.next?_eq_none`); and that the notices tell of everything that others wait for, which is each block
that has no owner any longer and each job that was started (`Cache.Reports`).
-/

namespace RangeCache

open Relation

/-- The job that a notice says was started. -/
def Notice.job? : Notice → Option Job
  | .started j => some j
  | .settled _ _ => none

namespace Cache

/-- A job owns a block of a store. -/
def Flies (c : Cache) (i id : Nat) : Prop := ∃ s, c.stores[i]? = some s ∧ ∃ n span, s.Owns n id span

/-- The stores of a cache are there later, with the same objects, and what was known of their blocks is. -/
def Extends (c c' : Cache) : Prop :=
  ∀ ⦃i : Nat⦄ ⦃s : Store⦄, c.stores[i]? = some s → ∃ t, c'.stores[i]? = some t ∧ t.handle = s.handle ∧
    t.config = s.config ∧ ∀ ⦃id : Nat⦄ ⦃span : Span⦄, s.Knows id span → t.Knows id span

/-- The notices tell which jobs run besides those of a list, and which blocks have no owner any longer. -/
def Reports (c : Cache) (running : List Job) (c' : Cache) : Prop :=
  ∃ l, c'.notices = c.notices ++ l ∧ c'.queue.running = running ++ l.filterMap Notice.job? ∧
    ∀ ⦃i id : Nat⦄, c.Flies i id → c'.Flies i id ∨ .settled i id ∈ l

section Extends
variable {c c' c'' : Cache}

theorem Extends.refl (c : Cache) : c.Extends c := fun _ s hs => ⟨s, hs, rfl, rfl, fun _ _ hk => hk⟩

theorem Extends.trans (h : c.Extends c') (h' : c'.Extends c'') : c.Extends c'' := fun _ _ hs => by
  obtain ⟨t, ht, h1, h2, h3⟩ := h hs
  obtain ⟨u, hu, h4, h5, h6⟩ := h' ht
  exact ⟨u, hu, h4.trans h1, h5.trans h2, fun _ _ hk => h6 (h3 hk)⟩

theorem extends_modifyStore {i : Nat} {f : Store → Store}
    (hh : ∀ {s : Store}, c.stores[i]? = some s → (f s).handle = s.handle)
    (hc : ∀ {s : Store}, c.stores[i]? = some s → (f s).config = s.config)
    (hk : ∀ {s : Store}, c.stores[i]? = some s → ∀ {id : Nat} {span : Span}, s.Knows id span → (f s).Knows id span) :
    c.Extends (c.modifyStore i f) := fun k s hs => by
  by_cases hi : k = i
  · subst hi
    exact ⟨f s, getElem?_modifyStore_self hs, hh hs, hc hs, fun _ _ => hk hs⟩
  · exact ⟨s, (getElem?_modifyStore_ne hi).trans hs, rfl, rfl, fun _ _ h => h⟩

theorem extends_of_mapped {i : Nat} {f : Store → Store}
    (hf : ∀ {s : Store}, c.stores[i]? = some s → ∃ g, s.Mapped g (f s)) :
    c.Extends (c.modifyStore i f) := by
  refine extends_modifyStore (fun hs => ?_) (fun hs => ?_) fun hs _ _ hk => ?_ <;> obtain ⟨g, hg⟩ := hf hs
  · exact hg.handle
  · exact hg.config
  · exact hg.knows_iff.mpr hk

theorem extends_addStore (h : Handle) (config : StoreConfig) : c.Extends (c.addStore h config) := fun _ s hs =>
  ⟨s, getElem?_addStore_of hs, rfl, rfl, fun _ _ hk => hk⟩

end Extends

section Reports
variable {c c' c'' : Cache} {running : List Job}

theorem Reports.refl (c : Cache) : c.Reports c.queue.running c := ⟨[], by simp, by simp, fun _ _ => Or.inl⟩

theorem Reports.trans (h : c.Reports running c') (h' : c'.Reports c'.queue.running c'') : c.Reports running c'' := by
  obtain ⟨l, h1, h2, h3⟩ := h
  obtain ⟨l', h4, h5, h6⟩ := h'
  refine ⟨l ++ l', by rw [h4, h1, List.append_assoc], by rw [h5, h2, List.filterMap_append, List.append_assoc],
    fun _ _ hf => ?_⟩
  rcases h3 hf with hf | hl
  · exact (h6 hf).imp id (List.mem_append_right _)
  · exact Or.inr (List.mem_append_left _ hl)

theorem Flies.modifyStore {k id : Nat} (h : c.Flies k id) {i : Nat} {f : Store → Store}
    (hf : ∀ {s : Store}, c.stores[i]? = some s →
      ∀ {n id : Nat} {span : Span}, s.Owns n id span → (f s).Owns n id span) :
    (c.modifyStore i f).Flies k id := by
  obtain ⟨s, hs, n, span, ho⟩ := h
  by_cases hk : k = i
  · subst hk
    exact ⟨f s, getElem?_modifyStore_self hs, n, span, hf hs ho⟩
  · exact ⟨s, (getElem?_modifyStore_ne hk).trans hs, n, span, ho⟩

theorem reports_modifyStore {i : Nat} {f : Store → Store}
    (hf : ∀ {s : Store}, c.stores[i]? = some s →
      ∀ {n id : Nat} {span : Span}, s.Owns n id span → (f s).Owns n id span) :
    c.Reports c.queue.running (c.modifyStore i f) :=
  ⟨[], (List.append_nil _).symm, (List.append_nil _).symm, fun _ _ h => Or.inl (h.modifyStore hf)⟩

theorem reports_release (j : Job) {f : Store → Store}
    (hf : ∀ {s : Store}, c.stores[j.store]? = some s → ∀ {n id : Nat} {span : Span},
      (f s).Owns n id span ↔ s.Owns n id span ∧ ¬(n = j.id ∧ id ∈ j.blocks)) :
    c.Reports c.queue.running ((c.modifyStore j.store f).tellSettled j.store j.blocks) := by
  refine ⟨j.blocks.map (.settled j.store), rfl, ?_, fun k id h => ?_⟩
  · have : (j.blocks.map (Notice.settled j.store)).filterMap Notice.job? = [] := by
      rw [List.filterMap_map]
      exact List.filterMap_eq_nil_iff.mpr fun _ _ => rfl
    rw [this, List.append_nil]
    rfl
  · obtain ⟨s, hs, n, span, ho⟩ := h
    by_cases hk : k = j.store
    · subst hk
      by_cases hid : id ∈ j.blocks
      · exact Or.inr (List.mem_map_of_mem hid)
      · exact Or.inl ⟨f s, getElem?_modifyStore_self hs, n, span, (hf hs).mpr ⟨ho, fun h => hid h.2⟩⟩
    · exact Or.inl ⟨s, (getElem?_modifyStore_ne hk).trans hs, n, span, ho⟩

theorem reports_pump (c : Cache) : c.Reports c.queue.running c.pump := by
  refine ⟨c.queue.pump.2.map .started, rfl, ?_, fun _ _ => Or.inl⟩
  have : (c.queue.pump.2.map Notice.started).filterMap Notice.job? = c.queue.pump.2 := by
    rw [List.filterMap_map]
    exact List.filterMap_some
  rw [this]
  exact FetchQueue.running_pump c.queue

end Reports

/-! ### Claims -/

section Claims
variable {c : Cache} {i : Nat}

/-- The queue stays as it is until the jobs that claim runs are handed in. -/
theorem jobs_claimRuns (key : String) (priority : Priority) (owner : Option Nat) (runs : List (List Block)) :
    (c.claimRuns i key priority owner runs).1.queue.jobs = c.queue.jobs ∧
      ∀ j ∈ (c.claimRuns i key priority owner runs).2, ∃ run ∈ runs, j.store = i ∧ j.span = Store.runSpan run ∧
        j.priority = priority := by
  induction runs generalizing c with
  | nil => exact ⟨rfl, nofun⟩
  | cons run r ih =>
    obtain ⟨hjobs, hall⟩ := ih (c := (c.claimRun i key priority owner run).1)
    refine ⟨hjobs, fun j hj => ?_⟩
    rcases List.mem_cons.mp hj with rfl | hj
    · exact ⟨run, List.mem_cons_self, rfl, rfl, rfl⟩
    · obtain ⟨run', hrun', hrest⟩ := hall j hj
      exact ⟨run', List.mem_cons_of_mem _ hrun', hrest⟩

theorem jobs_claim (c : Cache) (i : Nat) (spans : List Span) (fit : Fit) (priority : Priority) (owner : Option Nat) :
    (c.claim i spans fit priority owner).1.queue.jobs = c.queue.jobs := by
  cases hs : c.stores[i]? with
  | none => rw [claim_of_none hs]
  | some s =>
    rw [claim_eq hs]
    exact (jobs_claimRuns ..).1

end Claims

end Cache

/-! ### Moves -/

section Move
variable {A : Job → Except Fault Bytes → Prop} {C : Contents} {w w' : Work}

theorem Move.extends (h : Move A w w') (hw : w.cache.StoresSound) : w.cache.Extends w'.cache := by
  cases h with
  | edit hs he =>
    refine Cache.extends_modifyStore (fun ht => ?_) (fun ht => ?_) fun ht _ _ => ?_ <;> rw [hs] at ht <;> cases ht
    · exact he.handle
    · exact he.config
    · exact he.knows (hw hs)
  | claim priority owner hs hrun hin =>
    exact Cache.extends_of_mapped fun {t} (ht : _ = some t) => ⟨_, Store.mapped_claim (hw ht) _ _⟩
  | giveBack j => exact Cache.extends_of_mapped fun {t} (ht : _ = some t) => ⟨_, Store.mapped_revert (hw ht) _ _⟩
  | reject => exact .refl _
  | enqueue j hfull => exact .refl _
  | promote job => exact .refl _
  | withdraw owner => exact .refl _
  | settle attempts hj ha =>
    exact Cache.extends_of_mapped fun {t} (ht : _ = some t) => Store.mapped_settleBlocks (hw ht) _ _

theorem Moves.extends (h : Moves A w w') (hw : w.cache.StoresSound) : w.cache.Extends w'.cache := by
  induction h with
  | refl => exact .refl _
  | tail hms hm ih => exact ih.trans (hm.extends (Moves.storesSound hms hw))

theorem Move.length_stores (h : Move A w w') : w'.cache.stores.length = w.cache.stores.length := by
  cases h <;> first | rfl | exact List.length_modify ..

theorem Moves.length_stores (h : Moves A w w') : w'.cache.stores.length = w.cache.stores.length := by
  induction h with
  | refl => rfl
  | tail _ hm ih => exact hm.length_stores.trans ih

theorem Move.queue_config (h : Move A w w') : w'.cache.queue.config = w.cache.queue.config := by
  cases h with
  | enqueue j hfull => exact FetchQueue.config_pump _
  | settle attempts hj ha => exact FetchQueue.config_pump _
  | promote job => exact FetchQueue.config_promote _ _
  | _ => rfl

theorem Moves.queue_config (h : Moves A w w') : w'.cache.queue.config = w.cache.queue.config := by
  induction h with
  | refl => rfl
  | tail _ hm ih => exact hm.queue_config.trans ih

/-- What was rejected is counted. -/
theorem Move.rejected_le (h : Move A w w') : w.cache.queue.rejected ≤ w'.cache.queue.rejected := by
  cases h with
  | reject => exact Nat.le_succ _
  | @enqueue c L j hfull => exact (FetchQueue.rejected_pump (c.queue.enqueue j)).ge
  | @settle c L j result attempts hj ha =>
    exact (FetchQueue.rejected_pump (c.queue.finish j attempts (Cache.isFailure result))).ge
  | promote job => exact (FetchQueue.rejected_promote _ _).ge
  | _ => exact Nat.le_refl _

theorem Moves.rejected_le (h : Moves A w w') : w.cache.queue.rejected ≤ w'.cache.queue.rejected := by
  induction h with
  | refl => exact Nat.le_refl _
  | tail _ hm ih => exact Nat.le_trans ih hm.rejected_le

/-- No move leaves a job waiting that may run. -/
theorem Move.next?_eq_none (h : Move A w w') (hq : w.cache.queue.Sound) (hn : w.cache.queue.next? = none) :
    w'.cache.queue.next? = none := by
  cases h with
  | enqueue j hfull => exact FetchQueue.next?_pump _
  | settle attempts hj ha => exact FetchQueue.next?_pump _
  | promote job => exact FetchQueue.next?_promote hq hn job
  | withdraw owner => exact FetchQueue.next?_cancel hq hn owner
  | _ => exact hn

theorem Moves.next?_eq_none (h : Moves C.admits w w') (hw : w.Sound C) (hn : w.cache.queue.next? = none) :
    w'.cache.queue.next? = none := by
  induction h with
  | refl => exact hn
  | tail hms hm ih => exact hm.next?_eq_none (Moves.sound hms hw).queue ih

/-- Every move but the end of a job tells of the blocks that have no owner any longer and of the jobs that were
    started. -/
theorem Move.reports (h : Move (fun _ _ => False) w w') (hw : w.cache.StoresSound) :
    w.cache.Reports w.cache.queue.running w'.cache := by
  cases h with
  | edit hs he =>
    refine Cache.reports_modifyStore fun ht _ _ _ => ?_
    rw [hs] at ht
    cases ht
    exact (he.owns_iff (hw hs)).mpr
  | claim priority owner hs hrun hin =>
    exact Cache.reports_modifyStore fun {t} ht _ _ _ ho => (Store.owns_claim_iff (hw (s := t) ht)).mpr (Or.inl ho)
  | giveBack j => exact Cache.reports_release j fun ht => Store.owns_revert_iff (hw ht)
  | reject => exact .refl _
  | enqueue j hfull => exact Cache.reports_pump _
  | promote job =>
    refine ⟨[], (List.append_nil _).symm, ?_, fun _ _ => Or.inl⟩
    rw [FetchQueue.running_promote]
    exact (List.append_nil _).symm
  | withdraw owner => exact ⟨[], (List.append_nil _).symm, (List.append_nil _).symm, fun _ _ => Or.inl⟩
  | settle attempts hj ha => exact ha.elim

theorem Moves.reports (h : Moves (fun _ _ => False) w w') (hw : w.cache.StoresSound) :
    w.cache.Reports w.cache.queue.running w'.cache := by
  induction h with
  | refl => exact .refl _
  | tail hms hm ih => exact ih.trans (hm.reports (Moves.storesSound hms hw))

end Move

/-- The end of a job tells of its blocks and of the jobs that are started in its place. -/
theorem Cache.reports_finish {c : Cache} (hc : c.StoresSound) (j : Job) (attempts : Nat) (result : Except Fault Bytes) :
    c.Reports (c.queue.running.filter fun x => x.id != j.id) (c.finish j attempts result) := by
  have hrel := Cache.reports_release (c := { c with queue := c.queue.finish j attempts (isFailure result) }) j
    (f := settleBlocks j result) fun ht => Store.owns_settleBlocks_iff (hc ht)
  have hsound : (c.settle j attempts result).pump.StoresSound :=
    Cache.StoresSound.modifyStore (c := c) hc fun s _ hs => hs.settleBlocks j result
  exact (hrel.trans (reports_pump _)).trans (Moves.reports (moves_of_settle hc j attempts result) hsound)

end RangeCache
