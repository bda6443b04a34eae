import RangeCache.Proofs.Session.Events

/-!
# Progress

When no task can go on but some wait, a request is to be answered or a timer is set (`waits_outside`). A task
that waits for a block waits for the job that owns it, which runs or waits for another one that runs, and a
running job has its task; a task that waits for a footer waits for one that reads. So there is always a task
on an errand, and it waits for an answer or for a timer.
-/

namespace RangeCache.Session

variable {C : Contents} {s : Session}

/-- Something outside of the session is to happen: the answer to a request of one of its tasks, or the end of the
    time that one of them waits before its next attempt. -/
def WaitsOutside (s : Session) : Prop :=
  (∃ call ∈ s.calls, ∃ u ∈ s.tasks, u.call? = some call) ∨
    ∃ x ∈ s.timers, ∃ u ∈ s.tasks, u.id = x.task ∧ ∃ e n, u.activity = .errand e n .backoff

section Idle
variable {u : Task}

theorem Sound.waits (h : s.Sound C none) (hidle : s.runnable = []) (hu : u ∈ s.tasks) : s.Waits u :=
  (h.awake u hu).resolve_left fun hm => by rw [hidle] at hm; cases hm

/-- A task on an errand waits for the object client or for a timer. -/
theorem Sound.waitsOutside_of_errand (h : s.Sound C none) (hidle : s.runnable = []) (hu : u ∈ s.tasks) {e : Errand}
    {n : Nat} {phase : Phase} (ha : u.activity = .errand e n phase) : s.WaitsOutside := by
  have hw := h.waits hidle hu
  unfold Waits at hw
  rw [ha] at hw
  cases phase with
  | called =>
    have hcall : u.call? = some ⟨u.id, e.request⟩ := by
      unfold Task.call?
      rw [ha]
    exact Or.inl ⟨_, h.calls.mem_iff.mpr (List.mem_filterMap.mpr ⟨u, hu, hcall⟩), u, hu, hcall⟩
  | backoff =>
    obtain ⟨x, hx, hxu⟩ := hw
    exact Or.inr ⟨x, hx, u, hu, hxu.symm, e, n, ha⟩
  | due => exact hw.elim
  | answered reply draw => exact hw.elim

/-- A running job has a task. -/
theorem Sound.waitsOutside_of_running (h : s.Sound C none) (hidle : s.runnable = []) {j : Job}
    (hj : j ∈ s.cache.queue.running) : s.WaitsOutside := by
  have hmem := h.jobs.mem_iff.mpr hj
  simp only [others, Option.bind_none, Option.toList_none, List.append_nil] at hmem
  obtain ⟨u, hu, hujob⟩ := List.mem_filterMap.mp hmem
  unfold Activity.job? at hujob
  split at hujob
  · exact h.waitsOutside_of_errand hidle hu ‹_›
  · cases hujob

/-- A block in flight is fetched by a job that runs, or that waits for another one. -/
theorem Sound.waitsOutside_of_flies (h : s.Sound C none) (hidle : s.runnable = []) (h1 : 1 ≤ s.config.queue.maxFetches)
    (h2 : 1 ≤ s.config.queue.maxFetchesPerObject) {i id : Nat} (hf : s.cache.Flies i id) : s.WaitsOutside := by
  obtain ⟨x, hx, n, span, hown⟩ := hf
  obtain ⟨j, hj, -⟩ := h.cache.ledger.owned hx hown
  rcases FetchQueue.mem_jobs.mp hj with ⟨w, hw, -⟩ | hj
  · obtain ⟨k, hk⟩ := FetchQueue.exists_running h.cache.queue h.busy (h.limits ▸ h1) (h.limits ▸ h2) hw
    exact h.waitsOutside_of_running hidle hk
  · exact h.waitsOutside_of_running hidle hj

theorem Sound.waitsOutside (h : s.Sound C none) (hidle : s.runnable = []) (h1 : 1 ≤ s.config.queue.maxFetches)
    (h2 : 1 ≤ s.config.queue.maxFetchesPerObject) (hu : u ∈ s.tasks) : s.WaitsOutside := by
  have hreading : ∀ {v : Task} {r : Reading} {use : Use}, v ∈ s.tasks → v.activity = .reading r use → s.WaitsOutside :=
    fun {v r use} hv ha => by
      have hw := h.waits hidle hv
      unfold Waits at hw
      rw [ha] at hw
      obtain ⟨id, -, hf⟩ := hw
      exact h.waitsOutside_of_flies hidle h1 h2 hf
  have hw := h.waits hidle hu
  unfold Waits at hw
  split at hw
  · exact h.waitsOutside_of_errand hidle hu ‹_›
  · exact h.waitsOutside_of_errand hidle hu ‹_›
  · exact hreading hu ‹_›
  · exact h.waitsOutside_of_flies hidle h1 h2 hw
  · rename_i o goal _
    obtain ⟨n, q, ho, -⟩ := hw
    obtain ⟨hnodup, -, hholder⟩ := h.held o n q ho
    rcases hholder with ⟨c, hc, -⟩ | ⟨a, hm, ha⟩
    · cases hc
    · unfold Activity.footer? at ha
      split at ha
      · exact hreading hm rfl
      · -- The task that loads the footer cannot wait for its turn.
        cases ha
        obtain ⟨n', q', ho', hq⟩ := h.waits hidle hm
        cases ho.symm.trans ho'
        exact absurd hq (List.nodup_cons.mp hnodup).1
      · cases ha
  · exact hw.elim

end Idle

/-- Whatever happened to a session, when all tasks that can go on have done so: each task that is left waits for
    something that is under way, and if there is one, a request has yet to be answered or a timer is set. -/
theorem waits_outside (config : Config) (h1 : 1 ≤ config.queue.maxFetches) (h2 : 1 ≤ config.queue.maxFetchesPerObject)
    (l : List Event) (hidle : ((fresh config).runEvents l).runnable = []) :
    (∀ u ∈ ((fresh config).runEvents l).tasks, ((fresh config).runEvents l).Waits u) ∧
      (((fresh config).runEvents l).tasks ≠ [] → ((fresh config).runEvents l).WaitsOutside) := by
  have hfair := fairRun_any (fresh config) l
  have hfresh := sound_fresh .any config
  have hconfig : ((fresh config).runEvents l).config = config := config_runEvents hfresh hfair
  have hsound := hfresh.runEvents hfair
  refine ⟨fun u hu => hsound.waits hidle hu, fun hpending => ?_⟩
  obtain ⟨u, hu⟩ := List.exists_mem_of_ne_nil _ hpending
  exact hsound.waitsOutside hidle (hconfig.symm ▸ h1) (hconfig.symm ▸ h2) hu

/-- A read waits for a block, and the job that fetches it for the answer to its request. -/
theorem waits_outside_reading : WaitsOutside ((fresh {}).runEvents
    [.addObject ⟨"a", 4, none⟩, .start (.readSpan 0 ⟨1, 3⟩ .grid none), .run 0, .run 0]) :=
  (waits_outside {} (by decide) (by decide) _ (by decide +kernel)).2 (by decide +kernel)

end RangeCache.Session
