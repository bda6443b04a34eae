import RangeCache.Proofs.Cache.Plans
import RangeCache.Proofs.Session.Calm

/-!
# Planning anew

A stream that plans first withdraws what is left of its plan before. So everything that is left when it has planned was
asked for by the new plan (`left_applyPlan`).
-/

namespace RangeCache

/-- A job that is made for a plan over an object: it is not one of those that were there before, and it fetches a byte
    that the plan asks for without urgency. -/
structure Plan.Makes (p : Plan) (object nextJob : Nat) (j : Job) : Prop where
  new : nextJob ≤ j.id
  store : j.store = object
  span : ∃ t ∈ p.spans .speculative, ∃ o ∈ j.span, o ∈ t

namespace Session

variable {s : Session} {x : Stream}

theorem cache_ensurePlan (s : Session) (x : Stream) (plan : Plan) (priority : Priority) :
    (s.ensurePlan x plan priority).1.cache = s.cache ∨ ∃ fit, (s.ensurePlan x plan priority).1.cache =
      (s.cache.ensure x.object (plan.spans priority) fit priority (some x.id)).1.takeNotices.1 := by
  unfold ensurePlan
  split
  · exact Or.inl rfl
  · refine Or.inr ⟨if plan.kind.isExact then .exact else .grid, ?_⟩
    exact cache_onCache s fun c => c.ensure x.object (plan.spans priority) _ priority (some x.id)

/-- What is left after a plan was asked for at a priority was left before, or is left of this plan. -/
theorem left_ensurePlan (hc : s.cache.StoresSound) (plan : Plan) (priority : Priority) {j : Job}
    (hj : j ∈ (s.ensurePlan x plan priority).1.cache.queue.left x.id) :
    j ∈ s.cache.queue.left x.id ∨ plan.Makes x.object s.cache.queue.nextJob j := by
  rcases cache_ensurePlan s x plan priority with he | ⟨fit, he⟩ <;> rw [he] at hj
  · exact Or.inl hj
  · obtain ⟨⟨v, hv, rfl⟩, hleft⟩ := FetchQueue.mem_left.mp hj
    have hdeeds : Deeds (fun j => j.store = x.object ∧ j.priority = priority ∧
        ∃ t ∈ plan.spans priority, ∃ o ∈ j.span, o ∈ t) ⟨s.cache, []⟩
        ⟨(s.cache.ensure x.object (plan.spans priority) fit priority (some x.id)).1, []⟩ :=
      Cache.deeds_ensure fun j hj =>
        ⟨(Cache.mem_claim hj).1, (Cache.mem_claim hj).2.1, Cache.exists_mem_span_of_mem_claim hc hj⟩
    refine ((Cache.Deeds.stems hdeeds x.id).waiting v hv hleft).imp (fun hv => ?_) ?_
    · exact FetchQueue.mem_left.mpr ⟨⟨v, hv, rfl⟩, hleft⟩
    · rintro ⟨hid, hstore, hpriority, hspan⟩
      rw [← hpriority, (Job.isLeftOf_iff.mp hleft).1] at hspan
      exact ⟨hid, hstore, hspan⟩

theorem nextJob_ensurePlan_le (s : Session) (x : Stream) (plan : Plan) (priority : Priority) :
    s.cache.queue.nextJob ≤ (s.ensurePlan x plan priority).1.cache.queue.nextJob := by
  rcases cache_ensurePlan s x plan priority with he | ⟨fit, he⟩ <;> rw [he]
  exact (Cache.Deeds.stems (Cache.deeds_ensure (P := fun _ => True) fun _ _ => trivial) x.id).nextJob

theorem storesSound_ensurePlan (hc : s.cache.StoresSound) (x : Stream) (plan : Plan) (priority : Priority) :
    (s.ensurePlan x plan priority).1.cache.StoresSound := by
  rcases cache_ensurePlan s x plan priority with he | ⟨fit, he⟩ <;> rw [he]
  · exact hc
  · exact Moves.storesSound (A := fun _ _ => False) (Cache.moves_ensure hc _ _ _ _ _) hc

/-- Right after a plan was applied, all that is left of the stream's plans is left of this one. -/
theorem left_applyPlan (h : Work.Sound .any ⟨s.cache, []⟩) (x : Stream) (plan : Plan) {j : Job}
    (hj : j ∈ (s.applyPlan x plan).1.cache.queue.left x.id) : plan.Makes x.object s.cache.queue.nextJob j := by
  have hcache : (s.onCache fun c => c.cancel x.id).1.cache = (s.cache.cancel x.id).1.takeNotices.1 :=
    cache_onCache s fun c => c.cancel x.id
  have hsound : (s.onCache fun c => c.cancel x.id).1.cache.StoresSound :=
    hcache ▸ Moves.storesSound (A := fun _ _ => False) (Cache.moves_cancel x.id) h.stores
  have hnone : (s.onCache fun c => c.cancel x.id).1.cache.queue.left x.id = [] :=
    hcache ▸ Cache.left_cancel h.queue x.id
  have hnext : (s.onCache fun c => c.cancel x.id).1.cache.queue.nextJob = s.cache.queue.nextJob := by
    rw [hcache]
    show (s.cache.cancel x.id).1.queue.nextJob = _
    rw [Cache.queue_cancel]
    rfl
  unfold applyPlan at hj
  dsimp only at hj
  generalize (s.onCache fun c => c.cancel x.id).1 = s₁ at hj hsound hnone hnext
  rw [← hnext]
  have hfirst : ∀ {k}, k ∈ (s₁.ensurePlan x plan .immediate).1.cache.queue.left x.id →
      plan.Makes x.object s₁.cache.queue.nextJob k := fun hk => by
    refine (left_ensurePlan hsound plan .immediate hk).resolve_left fun hk => ?_
    rw [hnone] at hk
    cases hk
  have hle := nextJob_ensurePlan_le s₁ x plan .immediate
  have hsound₂ := storesSound_ensurePlan hsound x plan .immediate
  split at hj <;> rename_i heq <;> rw [heq] at hfirst hle hsound₂
  · exact hfirst hj
  · rcases left_ensurePlan hsound₂ plan .speculative hj with hj | hmakes
    · exact hfirst hj
    · exact { hmakes with new := hle.trans hmakes.new }

end Session

end RangeCache
