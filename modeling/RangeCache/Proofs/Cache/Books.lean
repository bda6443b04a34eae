import RangeCache.Proofs.Cache.Plans
import RangeCache.Proofs.Fetch.Turns

/-!
# The books of a cache

What becomes of the jobs of a cache can be written down as it happens. The books of a cache list the jobs that the queue
accepted, started, dropped and refused, and those that ended; `Booked` says how they agree with the cache and with its
counts. Every deed, and the end of a running job, only adds to them (`Booked.deed`, `Booked.finish`), so that the books
that are kept along a run are right at any time of it (`Booked.leads`).
-/

namespace RangeCache

/-! ### Books -/

/-- What became of the jobs of a cache so far, each in the order in which it did. -/
structure Books where
  accepted : List Job := []
  started : List Job := []
  finished : List (Job × Except Fault Bytes) := []
  dropped : List Job := []
  refused : List Job := []

/-- Books are kept: there may be more in them, but nothing else is different. -/
structure Books.Kept (b b' : Books) : Prop where
  accepted : b.accepted <+: b'.accepted
  started : b.started <+: b'.started
  finished : b.finished <+: b'.finished
  dropped : b.dropped <+: b'.dropped
  refused : b.refused <+: b'.refused

namespace Books.Kept
variable {b b' b'' : Books}

theorem refl (b : Books) : b.Kept b :=
  ⟨List.prefix_rfl, List.prefix_rfl, List.prefix_rfl, List.prefix_rfl, List.prefix_rfl⟩

theorem trans (h : b.Kept b') (h' : b'.Kept b'') : b.Kept b'' where
  accepted := h.accepted.trans h'.accepted
  started := h.started.trans h'.started
  finished := h.finished.trans h'.finished
  dropped := h.dropped.trans h'.dropped
  refused := h.refused.trans h'.refused

end Books.Kept

/-- The books of a cache are right, and nothing is known to them of the jobs in hand. -/
structure Booked (w : Work) (b : Books) : Prop where
  queue : w.cache.queue.Sound
  hand : ∀ j ∈ w.hand, j.store < w.cache.stores.length
  /-- No job is accepted or refused twice, nor is one that was accepted refused. -/
  ids : ((b.accepted ++ b.refused ++ w.hand).map (·.id)).Nodup
  fresh : ∀ j ∈ b.accepted ++ b.refused ++ w.hand, j.id < w.cache.queue.nextJob
  /-- Apart from their priorities, the jobs that were accepted are those that wait or run, ended or were dropped. -/
  accepted : (b.accepted.map Job.bare).Perm
    ((w.cache.queue.jobs ++ b.finished.map (·.1) ++ b.dropped).map Job.bare)
  started : b.started.Perm (w.cache.queue.running ++ b.finished.map (·.1))
  fetches : b.accepted.length = w.cache.fetches
  dispatched : b.started.length = w.cache.queue.dispatched
  cancelled : b.dropped.length = w.cache.queue.cancelled
  rejected : b.refused.length = w.cache.queue.rejected
  failed : b.finished.countP (fun e => Cache.isFailure e.2) = w.cache.queue.failed

/-! ### What starting jobs leaves alone -/

theorem FetchQueue.cancelled_pump (q : FetchQueue) : q.pump.1.cancelled = q.cancelled := by
  fun_induction pump q with
  | case1 | case2 => rfl
  | case3 q t ht w hw q' l hp ih =>
    rw [hp] at ih
    exact ih

theorem FetchQueue.failed_pump (q : FetchQueue) : q.pump.1.failed = q.failed := by
  fun_induction pump q with
  | case1 | case2 => rfl
  | case3 q t ht w hw q' l hp ih =>
    rw [hp] at ih
    exact ih

theorem FetchQueue.length_pump (q : FetchQueue) : q.pump.1.dispatched = q.dispatched + q.pump.2.length := by
  rw [dispatched_pump, pump_snd, List.length_map]

namespace Booked

variable {P : Job → Prop} {w w' : Work} {b : Books} {c d : Cache} {L : List Job} {j : Job}

theorem new (config : QueueConfig) : Booked ⟨Cache.new config, []⟩ {} where
  queue := (Work.Sound.new .any config).queue
  hand := nofun
  ids := List.nodup_nil
  fresh := nofun
  accepted := .refl _
  started := .refl _
  fetches := rfl
  dispatched := rfl
  cancelled := rfl
  rejected := rfl
  failed := rfl

/-! ### One deed -/

/-- A job in hand is none of those that wait or run. -/
theorem not_mem_jobs (h : Booked ⟨c, j :: L⟩ b) : j.id ∉ c.queue.jobs.map (·.id) := by
  intro hmem
  obtain ⟨k, hk, hid⟩ := List.mem_map.mp hmem
  have haccepted := h.accepted.mem_iff.mpr
    (List.mem_map_of_mem (List.mem_append_left _ (List.mem_append_left _ hk)))
  obtain ⟨k', hk', hbare⟩ := List.mem_map.mp haccepted
  have hids := h.ids
  rw [List.map_append, List.nodup_append] at hids
  refine hids.2.2 _ (List.mem_map_of_mem (List.mem_append_left _ hk')) _ (List.mem_map_of_mem List.mem_cons_self) ?_
  exact (Job.eq_of_bare hbare).1.trans hid

theorem make (h : Booked ⟨c, L⟩ b) (hid : j.id = c.queue.nextJob) (hstore : j.store < c.stores.length) :
    Booked ⟨{ c with queue := c.queue.takeId.1 }, L ++ [j]⟩ b := by
  refine { h with queue := { h.queue with }, hand := fun k hk => ?_, ids := ?_, fresh := fun k hk => ?_ }
  · rcases List.mem_append.mp hk with hk | hk
    · exact h.hand k hk
    · rwa [List.mem_singleton.mp hk]
  · rw [← List.append_assoc, List.map_append, List.nodup_append]
    refine ⟨h.ids, List.nodup_singleton _, fun n hn m hm => ?_⟩
    obtain ⟨k, hk, rfl⟩ := List.mem_map.mp hn
    have hfresh := (h.fresh k hk).ne
    rw [← hid] at hfresh
    exact List.mem_singleton.mp hm ▸ hfresh
  · rw [← List.append_assoc] at hk
    rcases List.mem_append.mp hk with hk | hk
    · exact Nat.lt_succ_of_lt (h.fresh k hk)
    · rw [List.mem_singleton.mp hk, hid]
      exact Nat.lt_succ_self _

theorem letGo (h : Booked ⟨c, j :: L⟩ b) : Booked ⟨c, L⟩ b := by
  have hsub : (b.accepted ++ b.refused ++ L).Sublist (b.accepted ++ b.refused ++ j :: L) :=
    (List.sublist_cons_self j L).append_left _
  refine { h with hand := fun k hk => ?_, ids := h.ids.sublist (hsub.map _), fresh := fun k hk => ?_ }
  · exact h.hand k (List.mem_cons_of_mem _ hk)
  · exact h.fresh k (hsub.subset hk)

theorem refuse (h : Booked ⟨c, j :: L⟩ b) :
    Booked ⟨{ c with queue := { c.queue with rejected := c.queue.rejected + 1 } }, L⟩
      { b with refused := b.refused ++ [j] } := by
  have hall : b.accepted ++ (b.refused ++ [j]) ++ L = b.accepted ++ b.refused ++ j :: L := by simp
  refine { h with
    queue := { h.queue with }, hand := fun k hk => ?_, ids := hall ▸ h.ids, fresh := hall ▸ h.fresh, rejected := ?_ }
  · exact h.hand k (List.mem_cons_of_mem _ hk)
  · rw [List.length_append, h.rejected]
    rfl

/-- Blocks change, or the counts of a store but that of its accepted jobs; or a store is added. -/
theorem tend (h : Booked ⟨c, L⟩ b) (hqueue : d.queue = c.queue) (hfetches : d.fetches = c.fetches)
    (hlength : c.stores.length ≤ d.stores.length) : Booked ⟨d, L⟩ b where
  queue := hqueue ▸ h.queue
  hand k hk := (h.hand k hk).trans_le hlength
  ids := h.ids
  fresh := hqueue ▸ h.fresh
  accepted := hqueue ▸ h.accepted
  started := hqueue ▸ h.started
  fetches := h.fetches.trans hfetches.symm
  dispatched := hqueue ▸ h.dispatched
  cancelled := hqueue ▸ h.cancelled
  rejected := hqueue ▸ h.rejected
  failed := hqueue ▸ h.failed

theorem pump (h : Booked ⟨c, L⟩ b) : Booked ⟨c.pump, L⟩ { b with started := b.started ++ c.queue.pump.2 } where
  queue := FetchQueue.Sound.pump h.queue
  hand := h.hand
  ids := h.ids
  fresh k hk := (h.fresh k hk).trans_eq (FetchQueue.nextJob_pump c.queue).symm
  accepted := by
    have hjobs := (FetchQueue.perm_jobs_pump h.queue).symm
    exact h.accepted.trans (((hjobs.append_right _).append_right _).map _)
  started := by
    show (b.started ++ c.queue.pump.2).Perm (c.queue.pump.1.running ++ b.finished.map (·.1))
    rw [FetchQueue.running_pump]
    refine (h.started.append_right _).trans ?_
    rw [List.append_assoc, List.append_assoc]
    exact List.perm_append_comm.append_left _
  fetches := h.fetches
  dispatched := by
    rw [List.length_append, h.dispatched]
    exact (FetchQueue.length_pump c.queue).symm
  cancelled := h.cancelled.trans (FetchQueue.cancelled_pump c.queue).symm
  rejected := h.rejected.trans (FetchQueue.rejected_pump c.queue).symm
  failed := h.failed.trans (FetchQueue.failed_pump c.queue).symm

theorem fetches_count (hstore : j.store < c.stores.length) :
    (c.modifyStore j.store fun s => { s with fetches := s.fetches + 1 }).fetches = c.fetches + 1 := by
  have hsplit : c.stores = c.stores.take j.store ++ c.stores[j.store] :: c.stores.drop (j.store + 1) := by
    rw [← List.drop_eq_getElem_cons hstore, List.take_append_drop]
  have hmodify := List.modify_eq_take_cons_drop (f := fun s : Store => { s with fetches := s.fetches + 1 }) hstore
  show ((c.stores.modify j.store _).map (·.fetches)).sum = (c.stores.map (·.fetches)).sum + 1
  rw [hmodify]
  conv_rhs => rw [hsplit]
  simp only [List.map_append, List.map_cons, List.sum_append, List.sum_cons]
  omega

theorem enqueue (h : Booked ⟨c, j :: L⟩ b) :
    Booked ⟨({ c with queue := c.queue.enqueue j }).modifyStore j.store fun s => { s with fetches := s.fetches + 1 }, L⟩
      { b with accepted := b.accepted ++ [j] } := by
  have hall : (b.accepted ++ [j] ++ b.refused ++ L).Perm (b.accepted ++ b.refused ++ j :: L) := by
    simp only [List.append_assoc, List.singleton_append]
    exact List.perm_middle.symm.append_left _
  refine { h with
    queue := h.queue.enqueue h.not_mem_jobs, hand := fun k hk => ?_, ids := ((hall.map _).nodup_iff).mpr h.ids,
    fresh := fun k hk => h.fresh k (hall.mem_iff.mp hk), accepted := ?_, fetches := ?_ }
  · rw [Cache.length_modifyStore]
    exact h.hand k (List.mem_cons_of_mem _ hk)
  · have hjobs := (FetchQueue.perm_jobs_enqueue c.queue j).symm
    have hnew := ((hjobs.append_right (b.finished.map (·.1))).append_right b.dropped).map Job.bare
    refine List.Perm.trans ?_ hnew
    rw [List.map_append]
    exact (List.perm_append_singleton _ _).trans (h.accepted.cons _)
  · rw [List.length_append, h.fetches]
    exact (fetches_count (c := { c with queue := c.queue.enqueue j }) (h.hand j List.mem_cons_self)).symm

theorem promote (h : Booked ⟨c, L⟩ b) (job : Nat) : Booked ⟨{ c with queue := c.queue.promote job }, L⟩ b where
  queue := h.queue.promote job
  hand := h.hand
  ids := h.ids
  fresh k hk := (h.fresh k hk).trans_eq (FetchQueue.nextJob_promote c.queue job).symm
  accepted := by
    have hjobs := FetchQueue.bare_jobs_promote h.queue job
    simpa only [List.map_append, hjobs] using h.accepted
  started := (FetchQueue.running_promote c.queue job).symm ▸ h.started
  fetches := h.fetches
  dispatched := h.dispatched.trans (FetchQueue.dispatched_promote c.queue job).symm
  cancelled := by
    obtain ⟨order, waiting, he⟩ := c.queue.exists_promote_eq job
    exact he ▸ h.cancelled
  rejected := h.rejected.trans (FetchQueue.rejected_promote c.queue job).symm
  failed := by
    obtain ⟨order, waiting, he⟩ := c.queue.exists_promote_eq job
    exact he ▸ h.failed

theorem withdraw (h : Booked ⟨c, L⟩ b) (owner : Nat) : Booked ⟨{ c with queue := (c.queue.cancel owner).1 }, L⟩
    { b with dropped := b.dropped ++ (c.queue.cancel owner).2 } := by
  have hjobs := FetchQueue.perm_jobs_cancel h.queue owner
  refine { h with queue := h.queue.cancel owner, accepted := h.accepted.trans (List.Perm.map _ ?_), cancelled := ?_ }
  · show (c.queue.jobs ++ b.finished.map (·.1) ++ b.dropped).Perm
      ((c.queue.cancel owner).1.jobs ++ b.finished.map (·.1) ++ (b.dropped ++ (c.queue.cancel owner).2))
    generalize c.queue.jobs = before, (c.queue.cancel owner).1.jobs = after, (c.queue.cancel owner).2 = gone,
      b.finished.map (·.1) = finished at hjobs ⊢
    calc (before ++ finished ++ b.dropped).Perm (gone ++ after ++ finished ++ b.dropped) :=
        (hjobs.append_right _).append_right _
      _ = gone ++ (after ++ finished ++ b.dropped) := by simp only [List.append_assoc]
      List.Perm _ (after ++ finished ++ b.dropped ++ gone) := List.perm_append_comm
      _ = after ++ finished ++ (b.dropped ++ gone) := List.append_assoc ..
  · rw [List.length_append, h.cancelled]
    rfl

/-- A deed is written down. No running job ends by it. -/
theorem deed (h : Booked w b) (hd : Deed P w w') :
    ∃ b' : Books, b.Kept b' ∧ b'.finished = b.finished ∧ Booked w' b' := by
  cases hd with
  | tend hqueue hfetches hlength => exact ⟨b, .refl b, rfl, h.tend hqueue hfetches hlength⟩
  | make j hj hid hstore => exact ⟨b, .refl b, rfl, h.make hid hstore⟩
  | letGo j => exact ⟨b, .refl b, rfl, h.letGo⟩
  | refuse j hfull =>
    exact ⟨{ b with refused := b.refused ++ [j] },
      { Books.Kept.refl b with refused := List.prefix_append _ _ }, rfl, h.refuse⟩
  | @accept c L j hfull =>
    exact ⟨{ b with accepted := b.accepted ++ [j], started := b.started ++ (c.queue.enqueue j).pump.2 },
      { Books.Kept.refl b with accepted := List.prefix_append _ _, started := List.prefix_append _ _ }, rfl,
      h.enqueue.pump⟩
  | promote job => exact ⟨b, .refl b, rfl, h.promote job⟩
  | @withdraw c L owner =>
    exact ⟨{ b with dropped := b.dropped ++ (c.queue.cancel owner).2 },
      { Books.Kept.refl b with dropped := List.prefix_append _ _ }, rfl, h.withdraw owner⟩

theorem deeds (h : Booked w b) (hd : Deeds P w w') :
    ∃ b' : Books, b.Kept b' ∧ b'.finished = b.finished ∧ Booked w' b' := by
  induction hd with
  | refl => exact ⟨b, .refl b, rfl, h⟩
  | tail _ hd ih =>
    obtain ⟨b₁, hkept, hfinished, hbooked⟩ := ih
    obtain ⟨b₂, hkept', hfinished', hbooked'⟩ := hbooked.deed hd
    exact ⟨b₂, hkept.trans hkept', hfinished'.trans hfinished, hbooked'⟩

/-! ### The end of a job -/

theorem fetches_settleBlocks (j : Job) (r : Except Fault Bytes) (s : Store) :
    (Cache.settleBlocks j r s).fetches = s.fetches := by
  cases r with
  | ok data => exact s.fetches_complete _ _ _ _
  | error f => exact Store.fetches_of_blocks (s.fail_eq _ _ f)

theorem modifyStore (h : Booked ⟨c, L⟩ b) (i : Nat) {f : Store → Store} (hf : ∀ s, (f s).fetches = s.fetches) :
    Booked ⟨c.modifyStore i f, L⟩ b :=
  h.tend rfl (Cache.fetches_modifyStore c i hf) (Cache.length_modifyStore c i f).ge

theorem settle (h : Booked ⟨c, []⟩ b) (hj : j ∈ c.queue.running) (n : Nat) (r : Except Fault Bytes) :
    Booked ⟨c.settle j n r, []⟩ { b with finished := b.finished ++ [(j, r)] } := by
  have hjobs := FetchQueue.perm_jobs_finish h.queue hj n (Cache.isFailure r)
  have hrunning := FetchQueue.perm_running_finish h.queue hj n (Cache.isFailure r)
  have hend : Booked ⟨{ c with queue := c.queue.finish j n (Cache.isFailure r) }, []⟩
      { b with finished := b.finished ++ [(j, r)] } := by
    have hlater : ∀ {q q' : List Job}, q.Perm (j :: q') →
        (q ++ b.finished.map (·.1)).Perm (q' ++ (b.finished ++ [(j, r)]).map (·.1)) := fun hq => by
      rw [List.map_append, ← List.append_assoc]
      exact (hq.append_right _).trans (List.perm_append_singleton _ _).symm
    refine { h with
      queue := h.queue.finish hj n _, accepted := h.accepted.trans (((hlater hjobs).append_right b.dropped).map _),
      started := h.started.trans (hlater hrunning), failed := ?_ }
    rw [List.countP_append, h.failed, List.countP_singleton]
    rfl
  exact (hend.modifyStore j.store (fetches_settleBlocks j r)).tend rfl rfl (Nat.le_refl _)

/-- The end of a running job is written down. -/
theorem finish (h : Booked ⟨c, []⟩ b) (hj : j ∈ c.queue.running) (n : Nat) (r : Except Fault Bytes) :
    ∃ b' : Books, b.Kept b' ∧ b'.finished = b.finished ++ [(j, r)] ∧ Booked ⟨c.finish j n r, []⟩ b' := by
  have hsettle := h.settle hj n r
  refine ⟨{ b with
      finished := b.finished ++ [(j, r)], started := b.started ++ (c.settle j n r).queue.pump.2 },
    { Books.Kept.refl b with started := List.prefix_append _ _, finished := List.prefix_append _ _ }, rfl, ?_⟩
  cases r with
  | ok data => exact (hsettle.modifyStore j.store Store.fetches_evict).pump
  | error f => exact hsettle.pump

/-! ### Runs -/

/-- The books are kept along a run by which no running job ends. -/
theorem leads {X : Nat → Prop} (h : Booked ⟨c, []⟩ b) (hd : Cache.Leads (Cache.Action.Heeds X fun _ _ => False) c d) :
    ∃ b' : Books, b.Kept b' ∧ b'.finished = b.finished ∧ Booked ⟨d, []⟩ b' := by
  induction hd with
  | refl => exact ⟨b, .refl b, rfl, h⟩
  | act _ ha ih =>
    obtain ⟨b₁, hkept, hfinished, hbooked⟩ := ih
    obtain ⟨b₂, hkept', hfinished', hbooked'⟩ := hbooked.deeds (Cache.deeds_act ha)
    exact ⟨b₂, hkept.trans hkept', hfinished'.trans hfinished, hbooked'⟩
  | hear _ ih =>
    obtain ⟨b₁, hkept, hfinished, hbooked⟩ := ih
    exact ⟨b₁, hkept, hfinished, hbooked.tend rfl rfl (Nat.le_refl _)⟩

/-! ### Counts -/

/-- Every accepted job waits, or was started or dropped. -/
theorem accepted_perm (h : Booked w b) : (b.accepted.map Job.bare).Perm
    ((w.cache.queue.waiting.map (·.job) ++ b.started ++ b.dropped).map Job.bare) := by
  refine h.accepted.trans (List.Perm.map _ (List.Perm.append_right _ ?_))
  rw [FetchQueue.jobs, List.append_assoc]
  exact h.started.symm.append_left _

theorem length_accepted (h : Booked w b) : w.cache.queue.dispatched + w.cache.queue.cancelled +
    w.cache.queue.waiting.length = w.cache.fetches := by
  have hlength := h.accepted_perm.length_eq
  simp only [List.length_map, List.length_append] at hlength
  rw [← h.fetches, ← h.dispatched, ← h.cancelled]
  omega

theorem length_started (h : Booked w b) : w.cache.queue.dispatched = w.cache.queue.inFlight + b.finished.length := by
  have hlength := h.started.length_eq
  simp only [List.length_append, List.length_map] at hlength
  rw [← h.dispatched, h.queue.count, hlength]

end Booked

end RangeCache
