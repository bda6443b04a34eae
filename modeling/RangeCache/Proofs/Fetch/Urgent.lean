import RangeCache.Proofs.Fetch.Accounts

/-!
# Urgent jobs

A job that runs, or waits at immediate priority, is urgent. It stays urgent until it ends: starting and promoting jobs
only makes jobs more urgent, and cancelling takes none but those that wait at speculative priority.
-/

namespace RangeCache.FetchQueue

/-- The job with a number runs, or waits at immediate priority. -/
def Urgent (q : FetchQueue) (n : Nat) : Prop :=
  (∃ j ∈ q.running, j.id = n) ∨ ∃ w ∈ q.waiting, w.job.id = n ∧ w.job.priority = .immediate

section Urgent
variable {q : FetchQueue} {n : Nat}

theorem Urgent.exists_mem_jobs (h : q.Urgent n) : ∃ j ∈ q.jobs, j.id = n := by
  rcases h with ⟨j, hj, hid⟩ | ⟨w, hw, hid, -⟩
  · exact ⟨j, mem_jobs.mpr (Or.inr hj), hid⟩
  · exact ⟨w.job, mem_jobs.mpr (Or.inl ⟨w, hw, rfl⟩), hid⟩

theorem Urgent.enqueue (h : q.Urgent n) (j : Job) : (q.enqueue j).Urgent n :=
  h.imp id fun ⟨w, hw, hid⟩ => ⟨w, List.mem_append_left _ hw, hid⟩

theorem urgent_enqueue (q : FetchQueue) {j : Job} (hj : j.priority = .immediate) : (q.enqueue j).Urgent j.id :=
  Or.inr ⟨⟨j, q.nextArrival⟩, List.mem_append_right _ (List.mem_singleton_self _), rfl, hj⟩

theorem Urgent.start (h : q.Urgent n) {t : Ticket} {w : Waiting} (hw : q.waiting? t.job = some w) :
    (q.start t w.job).Urgent n := by
  rcases h with ⟨j, hj, hid⟩ | ⟨v, hv, hid, him⟩
  · exact Or.inl ⟨j, List.mem_append_left _ hj, hid⟩
  · by_cases hn : n = t.job
    · refine Or.inl ⟨w.job, List.mem_append_right _ (List.mem_singleton_self _), ?_⟩
      exact (mem_of_waiting?_eq_some hw).2.trans hn.symm
    · exact Or.inr ⟨v, List.mem_filter.mpr ⟨hv, by simpa [hid] using hn⟩, hid, him⟩

theorem Urgent.pump (h : q.Urgent n) : q.pump.1.Urgent n := by
  fun_induction FetchQueue.pump q with
  | case1 q hn => exact h
  | case2 q t ht hw => exact h
  | case3 q t ht w hw q' l hp ih =>
    rw [hp] at ih
    exact ih (h.start hw)

theorem Urgent.finish (h : q.Urgent n) {j : Job} (hne : n ≠ j.id) (attempts : Nat) (failed : Bool) :
    (q.finish j attempts failed).Urgent n := by
  rcases h with ⟨k, hk, hid⟩ | hw
  · exact Or.inl ⟨k, List.mem_filter.mpr ⟨hk, by simpa [hid] using hne⟩, hid⟩
  · exact Or.inr hw

theorem Urgent.cancel (h : q.Urgent n) (hq : q.Sound) (owner : Nat) : (q.cancel owner).1.Urgent n := by
  rcases h with hr | ⟨w, hw, hid, him⟩
  · exact Or.inl hr
  · refine Or.inr ⟨w, ?_, hid, him⟩
    rw [cancel_waiting hq]
    refine List.mem_filter.mpr ⟨hw, ?_⟩
    simp [isSpeculativeOf, Waiting.ticket, him, Priority.rank]

/-! ### Promoting -/

/-- A waiting job goes on waiting when one is promoted. If it was immediate or is the one, it is immediate then. -/
theorem exists_mem_promote (hq : q.Sound) (job : Nat) {w : Waiting} (hw : w ∈ q.waiting) :
    ∃ w' ∈ (q.promote job).waiting, w'.job.id = w.job.id ∧
      (w.job.priority = .immediate ∨ w.job.id = job → w'.job.priority = .immediate) := by
  rw [waiting_promote hq]
  refine ⟨_, List.mem_map_of_mem hw, ?_⟩
  split
  · exact ⟨rfl, fun _ => rfl⟩
  · rename_i hid
    exact ⟨rfl, fun h => h.resolve_right hid⟩

theorem Urgent.promote (h : q.Urgent n) (hq : q.Sound) (job : Nat) : (q.promote job).Urgent n := by
  rcases h with hr | ⟨w, hw, hid, him⟩
  · exact Or.inl ((running_promote q job).symm ▸ hr)
  · obtain ⟨w', hw', hid', him'⟩ := exists_mem_promote hq job hw
    exact Or.inr ⟨w', hw', hid'.trans hid, him' (Or.inl him)⟩

theorem urgent_promote (hq : q.Sound) (h : ∃ j ∈ q.jobs, j.id = n) : (q.promote n).Urgent n := by
  obtain ⟨j, hj, hid⟩ := h
  rcases mem_jobs.mp hj with ⟨w, hw, rfl⟩ | hr
  · obtain ⟨w', hw', hid', him'⟩ := exists_mem_promote hq n hw
    exact Or.inr ⟨w', hw', hid'.trans hid, him' (Or.inr hid)⟩
  · exact Or.inl ⟨j, (running_promote q n).symm ▸ hr, hid⟩

theorem exists_mem_jobs_promote (hq : q.Sound) (job : Nat) (h : ∃ j ∈ q.jobs, j.id = n) :
    ∃ j ∈ (q.promote job).jobs, j.id = n := by
  obtain ⟨j, hj, hid⟩ := h
  have hmem : j.bare ∈ (q.promote job).jobs.map Job.bare := bare_jobs_promote hq job ▸ List.mem_map_of_mem hj
  obtain ⟨k, hk, hbare⟩ := List.mem_map.mp hmem
  exact ⟨k, hk, (Job.eq_of_bare hbare).1.trans hid⟩

theorem Urgent.promoteAll (h : q.Urgent n) (hq : q.Sound) (l : List Nat) : (l.foldl FetchQueue.promote q).Urgent n := by
  induction l generalizing q with
  | nil => exact h
  | cons job r ih => exact ih (h.promote hq job) (hq.promote job)

/-- Jobs that are there are urgent after they were promoted. -/
theorem urgent_promoteAll (hq : q.Sound) {l : List Nat} (hn : n ∈ l) (h : ∃ j ∈ q.jobs, j.id = n) :
    (l.foldl FetchQueue.promote q).Urgent n := by
  induction l generalizing q with
  | nil => cases hn
  | cons job r ih =>
    rcases List.mem_cons.mp hn with rfl | hn
    · exact (urgent_promote hq h).promoteAll (hq.promote _) r
    · exact ih (hq.promote job) hn (exists_mem_jobs_promote hq job h)

end Urgent

end RangeCache.FetchQueue
