import RangeCache.Proofs.Cache.Actions
import RangeCache.Proofs.Cache.Reports

/-!
# Exact requests

An exact request makes blocks for the uncovered bytes that it is asked for, and for no others (`mem_fillAll_exact`). Its
jobs fetch these, and the blocks that it finds claimable: those that an earlier request made and that were not fetched,
because they were only looked up, or their job was cancelled, dropped or failed. Such a block is fetched as it is, also
if it was widened when it was made (`exact_ensure`, `widened_after_cancel`).
-/

namespace RangeCache

/-! ### Blocks made by an exact request -/

namespace Store

section Exact
variable {s : Store} {b : Block}

/-- A block that an exact request for spans makes lies in one of them. -/
theorem mem_fillAll_exact {spans : List Span} (hb : b ∈ (s.fillAll .exact spans).blocks) :
    b ∈ s.blocks ∨ ∃ t ∈ s.clampAll spans, t.start ≤ b.span.start ∧ b.span.stop ≤ t.stop := by
  have hl : ∀ t ∈ s.clampAll spans, t.start ≤ t.stop := fun t ht => Nat.le_of_lt (mem_clampAll ht).2
  unfold fillAll at hb
  generalize s.clampAll spans = l at hb hl ⊢
  induction l generalizing s with
  | nil => exact Or.inl hb
  | cons t r ih =>
    rcases ih hb fun u hu => hl u (List.mem_cons_of_mem _ hu) with hb | ⟨u, hu, hin⟩
    · rcases mem_fill_exact (hl t List.mem_cons_self) hb with hb | hin
      · exact Or.inl hb
      · exact Or.inr ⟨t, List.mem_cons_self, hin⟩
    · exact Or.inr ⟨u, List.mem_cons_of_mem _ hu, hin⟩

end Exact

end Store

/-! ### Jobs of a request -/

namespace Cache

section Jobs
variable {c : Cache} {i : Nat} {j : Job}

/-- A queue that starts jobs holds no others. -/
theorem mem_jobs_of_mem_pump {q : FetchQueue} (h : j ∈ q.pump.1.jobs) : j ∈ q.jobs := by
  fun_induction FetchQueue.pump q with
  | case1 q hn => exact h
  | case2 q t ht hw => exact h
  | case3 q t ht w hw q' l hp ih =>
    rw [hp] at ih
    rcases FetchQueue.mem_jobs.mp (ih h) with ⟨v, hv, rfl⟩ | hr
    · exact FetchQueue.mem_jobs.mpr (Or.inl ⟨v, (List.mem_filter.mp hv).1, rfl⟩)
    · rcases List.mem_append.mp hr with hr | hr
      · exact FetchQueue.mem_jobs.mpr (Or.inr hr)
      · rw [List.mem_singleton.mp hr]
        exact FetchQueue.mem_jobs.mpr (Or.inl ⟨w, (FetchQueue.mem_of_waiting?_eq_some hw).1, rfl⟩)

theorem queue_revertAll (l : List Job) : (l.foldl revertJob c).queue = c.queue := by
  induction l generalizing c with
  | nil => rfl
  | cons j r ih => exact ih

/-- Handing jobs in brings no others. -/
theorem mem_jobs_of_mem_submit {jobs : List Job} {n : Nat} (h : j ∈ (c.submit jobs n).1.queue.jobs) :
    j ∈ c.queue.jobs ∨ j ∈ jobs := by
  induction jobs generalizing c n with
  | nil => exact Or.inl h
  | cons k r ih =>
    unfold submit at h
    dsimp only at h
    split at h
    · cases hp : k.priority with
      | speculative =>
        rw [hp] at h
        exact (ih h).imp_right (List.mem_cons_of_mem _)
      | immediate =>
        rw [hp] at h
        dsimp only at h
        rw [queue_revertAll] at h
        exact Or.inl h
    · rcases ih h with h | h
      · have hjob := (FetchQueue.perm_jobs_enqueue c.queue k).mem_iff.mp (mem_jobs_of_mem_pump h)
        rcases List.mem_cons.mp hjob with rfl | hjob
        · exact Or.inr List.mem_cons_self
        · exact Or.inl hjob
      · exact Or.inr (List.mem_cons_of_mem _ h)

theorem bare_jobs_promoteAll {q : FetchQueue} (hq : q.Sound) (l : List Nat) :
    (l.foldl FetchQueue.promote q).jobs.map Job.bare = q.jobs.map Job.bare := by
  induction l generalizing q with
  | nil => rfl
  | cons job r ih => exact (ih (hq.promote job)).trans (FetchQueue.bare_jobs_promote hq job)

/-- A job after a request was dispatched waited or ran before, perhaps at another priority, or is one of the request. -/
theorem exists_of_mem_dispatch (hq : c.queue.Sound) {jobs : List Job} {others : List Nat} {priority : Priority}
    (h : j ∈ (c.dispatch jobs others priority).1.queue.jobs) : (∃ k ∈ c.queue.jobs, k.id = j.id) ∨ j ∈ jobs := by
  unfold dispatch at h
  cases priority with
  | speculative => exact (mem_jobs_of_mem_submit h).imp_left fun hj => ⟨j, hj, rfl⟩
  | immediate =>
    refine (mem_jobs_of_mem_submit h).imp_left fun hj => ?_
    have hbare := List.mem_map_of_mem (f := Job.bare) hj
    rw [bare_jobs_promoteAll hq others] at hbare
    obtain ⟨k, hk, hkj⟩ := List.mem_map.mp hbare
    exact ⟨k, hk, (Job.eq_of_bare hkj).1⟩

/-- Every byte of a job that a claim makes is in a block that its spans touch and that could be claimed. -/
theorem exists_of_mem_claim (hc : c.StoresSound) {s : Store} (hs : c.stores[i]? = some s) {spans : List Span}
    {fit : Fit} {priority : Priority} {owner : Option Nat} (hj : j ∈ (c.claim i spans fit priority owner).2.1) :
    j.store = i ∧ ∀ o ∈ j.span, ∃ b ∈ (s.fillAll fit spans).touched spans, b.state.isClaimable = true ∧ o ∈ b.span := by
  rw [claim_of_sound hc hs] at hj
  have hsound := (Store.grown_fillAll (hc hs) fit spans).sound (hc hs)
  obtain ⟨run, hrun, hstore, hspan, -⟩ := (jobs_claimRuns ..).2 j hj
  have hjoined := Store.joined_of_mem_runs
    (fun b hb => hsound.nonempty b (List.mem_filter.mp hb).1) hrun
  refine ⟨hstore, fun o ho => ?_⟩
  rw [hspan] at ho
  obtain ⟨h1, h2⟩ := Span.mem_def.mp ho
  obtain ⟨t, ht, hot⟩ := hjoined.tile.exists_mem h1 h2
  obtain ⟨b, hb, rfl⟩ := List.mem_map.mp ht
  have hflat := List.mem_flatten.mpr ⟨run, hrun, hb⟩
  rw [Store.flatten_runs] at hflat
  exact ⟨b, (List.mem_filter.mp hflat).1, (List.mem_filter.mp hflat).2, hot⟩

end Jobs

/-- Whatever was done to a cache, a job that an exact request makes fetches bytes that were asked for, and of the others
    only those of blocks that earlier requests left to be fetched and that overlap what was asked for. -/
theorem exact_ensure (config : QueueConfig) (l : List Action) {i : Nat} {s : Store}
    (hs : ((new config).acts l).stores[i]? = some s) (spans : List Span) (priority : Priority) (owner : Option Nat)
    {j : Job} (hj : j ∈ (((new config).acts l).ensure i spans .exact priority owner).1.queue.jobs)
    (hnew : ∀ k ∈ ((new config).acts l).queue.jobs, k.id ≠ j.id) :
    j.store = i ∧ ∀ o ∈ j.span, (∃ t ∈ spans, o ∈ t) ∨
      ∃ b ∈ s.blocks, b.state.isClaimable = true ∧ o ∈ b.span ∧
        ∃ t ∈ spans, b.span.overlaps (t.clamp s.handle.size) = true := by
  have hsound := sound_acts (.new .any config) l
  generalize (new config).acts l = c at hs hj hnew hsound
  have hc := hsound.stores
  have hclaimed := (Moves.sound (moves_claim (A := Contents.any.admits) hc i spans .exact priority owner) hsound).queue
  rcases exists_of_mem_dispatch hclaimed hj with ⟨k, hk, hkj⟩ | hj
  · exact absurd hkj (hnew k (jobs_claim c i spans .exact priority owner ▸ hk))
  obtain ⟨hstore, hbytes⟩ := exists_of_mem_claim hc hs hj
  refine ⟨hstore, fun o ho => ?_⟩
  obtain ⟨b, hb, hst, hob⟩ := hbytes o ho
  obtain ⟨hb, hover⟩ := List.mem_filter.mp hb
  rcases Store.mem_fillAll_exact hb with hold | ⟨t, ht, h1, h2⟩
  · obtain ⟨t, ht, hover⟩ := List.any_eq_true.mp hover
    obtain ⟨-, u, hu, rfl⟩ := Store.mem_clampAll_iff.mp ht
    rw [(Store.grown_fillAll (hc hs) .exact spans).handle] at hover
    exact Or.inr ⟨b, hold, hst, hob, u, hu, hover⟩
  · -- The block was made for this request, and lies in one of its spans.
    obtain ⟨-, u, hu, rfl⟩ := Store.mem_clampAll_iff.mp ht
    obtain ⟨h3, h4⟩ := Span.mem_def.mp hob
    have hou : o ∈ u.clamp s.handle.size := Span.mem_def.mpr ⟨by omega, by omega⟩
    exact Or.inl ⟨u, hu, (Span.mem_clamp.mp hou).1⟩

/-- Readahead of ten bytes makes a block of the whole cell, and is cancelled while its job waits. An exact request for
    ten other bytes of the cell then fetches all fifty. -/
theorem widened_after_cancel :
    let c := (new { maxFetches := 1, maxFetchesPerObject := 1 }).acts [.addStore ⟨"a", 100, none⟩ { blockSize := 50 },
      .ensure 0 [⟨0, 10⟩] .grid .immediate none, .ensure 0 [⟨50, 60⟩] .grid .speculative (some 7), .cancel 7]
    c.queue.jobs.map (·.id) = [1] ∧
      (c.ensure 0 [⟨60, 70⟩] .exact .immediate none).1.queue.jobs.map (fun j => (j.id, j.span)) =
        [(3, ⟨50, 100⟩), (1, ⟨0, 50⟩)] := by
  decide +kernel

end Cache

end RangeCache
