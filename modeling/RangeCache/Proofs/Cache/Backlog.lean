import RangeCache.Proofs.Cache.Deeds
import RangeCache.Proofs.Cache.Queue

/-!
# Who is refused

A job is refused if and only if as many jobs wait as may, whatever object it is of. The queue leaves no room unused,
so then as many jobs run as may, or none of the jobs that wait may run beside those of its object. Hence a job for
which both bounds leave room (`FetchQueue.HasRoom`) is refused only if all the places are taken by jobs of other
objects, each of which has as many running jobs as it may; and if it is not refused, it runs at once
(`Cache.submit_served`). Nobody hears of a speculative job that is refused (`Cache.exists_ensure_eq_ok`).
-/

namespace RangeCache

namespace FetchQueue

/-- A further job of an object may run. -/
def HasRoom (q : FetchQueue) (key : String) : Prop :=
  q.inFlight < q.config.maxFetches ∧ q.runningOf key < q.config.maxFetchesPerObject

instance (q : FetchQueue) (key : String) : Decidable (q.HasRoom key) :=
  inferInstanceAs (Decidable (_ ∧ _))

section HasRoom
variable {q : FetchQueue} {j : Job}

theorem isFull_iff (h : q.Orderly) : q.isFull = true ↔ q.waiting.length = q.config.maxQueued := by
  have hle := h.waiting_le
  simp only [isFull, decide_eq_true_eq]
  omega

/-- Where a further job of an object may run, the jobs that wait are of other objects, which leave no room. -/
theorem Busy.of_hasRoom (h : q.Busy) (hroom : q.HasRoom j.key) {w : Waiting} (hw : w ∈ q.waiting) :
    w.job.key ≠ j.key ∧ q.runningOf w.job.key = q.config.maxFetchesPerObject := by
  have hall := h.resolve_left (Nat.ne_of_lt hroom.1)
  refine ⟨fun hkey => ?_, hall w hw⟩
  have hfull := hall w hw
  rw [hkey] at hfull
  exact absurd hfull (Nat.ne_of_lt hroom.2)

/-- A job that may run is the next one to run, as no other one may. -/
theorem next?_enqueue (hq : q.Sound) (h : q.Busy) (hroom : q.HasRoom j.key) (hj : j.id ∉ q.jobs.map (·.id)) :
    (q.enqueue j).next? = some (Waiting.ticket ⟨j, q.nextArrival⟩) := by
  have hsound := hq.enqueue hj
  obtain ⟨t, ht⟩ : ∃ t, (q.enqueue j).next? = some t := by
    refine Option.ne_none_iff_exists'.mp fun hnone => ?_
    rcases hsound.next?_eq_none_iff.mp hnone with hall | hall
    · exact absurd hroom.1 (Nat.not_lt.mpr hall)
    · have hmem : (⟨j, q.nextArrival⟩ : Waiting) ∈ (q.enqueue j).waiting := List.mem_append_right _ List.mem_cons_self
      exact absurd hroom.2 (Nat.not_lt.mpr (hall _ hmem))
  obtain ⟨w, hw⟩ := waiting?_of_next? ht
  have hmay : q.runningOf w.job.key < q.config.maxFetchesPerObject := by
    have := mayRun_of_next? ht
    rwa [mayRun, hw, Option.any_some, decide_eq_true_eq] at this
  rw [ht, ← ticket_eq hsound (mem_of_next? ht) hw]
  rcases List.mem_append.mp (mem_of_waiting?_eq_some hw).1 with hold | hnew
  · exact absurd hmay (Nat.not_lt.mpr (Nat.le_of_eq (h.of_hasRoom hroom hold).2.symm))
  · rw [List.mem_singleton.mp hnew]

theorem mem_running_enqueue (hq : q.Sound) (h : q.Busy) (hroom : q.HasRoom j.key) (hj : j.id ∉ q.jobs.map (·.id)) :
    j ∈ (q.enqueue j).pump.1.running := by
  have hmem : (⟨j, q.nextArrival⟩ : Waiting) ∈ (q.enqueue j).waiting := List.mem_append_right _ List.mem_cons_self
  rw [running_pump, pump_snd, starts_of_some (next?_enqueue hq h hroom hj) (waiting?_eq_some (hq.enqueue hj) hmem)]
  exact List.mem_append_right _ List.mem_cons_self

end HasRoom

end FetchQueue

namespace Cache

section Submit
variable {c : Cache} {j : Job}

theorem submit_of_full (h : c.queue.isFull = true) :
    (c.submit [j] 0).1.queue.rejected = c.queue.rejected + 1 ∧
      (c.submit [j] 0).2 = match j.priority with
        | .speculative => .ok 0
        | .immediate => .error (fullFault c.queue) := by
  unfold submit
  rw [if_pos (show (c.modifyStore j.store _).queue.isFull = true from h)]
  cases j.priority with
  | speculative => exact ⟨rfl, rfl⟩
  | immediate => exact ⟨rfl, rfl⟩

theorem submit_of_room (h : ¬c.queue.isFull = true) :
    (c.submit [j] 0).1.queue = (c.queue.enqueue j).pump.1 ∧ (c.submit [j] 0).2 = .ok 1 := by
  unfold submit
  rw [if_neg (show ¬(c.modifyStore j.store _).queue.isFull = true from h)]
  exact ⟨rfl, rfl⟩

theorem rejected_submit_iff :
    (c.submit [j] 0).1.queue.rejected = c.queue.rejected + 1 ↔ c.queue.isFull = true := by
  refine ⟨fun h => ?_, fun h => (submit_of_full h).1⟩
  by_contra hroom
  rw [(submit_of_room hroom).1, FetchQueue.rejected_pump] at h
  exact absurd h (Nat.ne_of_lt (Nat.lt_succ_self _))

theorem submit_eq_error_iff {f : Fault} :
    (c.submit [j] 0).2 = .error f ↔ j.priority = .immediate ∧ c.queue.isFull = true ∧ f = fullFault c.queue := by
  by_cases h : c.queue.isFull = true
  · rw [(submit_of_full h).2]
    cases j.priority with
    | speculative => simp
    | immediate => simp [h, eq_comm]
  · rw [(submit_of_room h).2]
    simp [h]

/-- Speculative jobs that are refused are dropped. -/
theorem exists_submit_eq_ok {jobs : List Job} (h : ∀ j ∈ jobs, j.priority = .speculative) (n : Nat) :
    ∃ k, (c.submit jobs n).2 = .ok k := by
  induction jobs generalizing c n with
  | nil => exact ⟨n, rfl⟩
  | cons j r ih =>
    have hr : ∀ k ∈ r, k.priority = .speculative := fun k hk => h k (List.mem_cons_of_mem _ hk)
    unfold submit
    dsimp only
    rw [h j List.mem_cons_self]
    split
    · exact ih hr n
    · exact ih hr (n + 1)

theorem exists_ensure_eq_ok (c : Cache) (i : Nat) (spans : List Span) (fit : Fit) (owner : Option Nat) :
    ∃ k, (c.ensure i spans fit .speculative owner).2 = .ok k :=
  exists_submit_eq_ok (fun _ hj => (mem_claim hj).2.1) 0

end Submit

/-- Whatever was asked of the queue, a job is refused if and only if as many jobs wait as may. Then as many jobs run as
    may, or as many of its object, or the jobs that wait are of other objects, each of which has as many running jobs
    as it may. A job for which both bounds leave room runs at once unless it is refused. -/
theorem submit_served (config : QueueConfig) (hconfig : 1 ≤ config.maxQueued) (l : List FetchQueue.Request)
    (stores : List Store) (notices : List Notice) (j : Job) :
    let q := (FetchQueue.serve { config } l).1
    let r := (Cache.mk q stores notices).submit [j] 0
    (r.1.queue.rejected = q.rejected + 1 ↔ q.waiting.length = config.maxQueued) ∧
      (∀ f, r.2 = .error f ↔ j.priority = .immediate ∧ q.waiting.length = config.maxQueued ∧
        f = .capacityExceeded config.maxQueued config.maxQueued) ∧
      (q.waiting.length = config.maxQueued → q.inFlight = config.maxFetches ∨
        q.runningOf j.key = config.maxFetchesPerObject ∨ q.waiting ≠ [] ∧
          ∀ w ∈ q.waiting, w.job.key ≠ j.key ∧ q.runningOf w.job.key = config.maxFetchesPerObject) ∧
      (q.waiting.length ≠ config.maxQueued → q.HasRoom j.key → j.id ∉ q.jobs.map (·.id) →
        r.2 = .ok 1 ∧ j ∈ r.1.queue.running) := by
  have horderly := (FetchQueue.orderly_new config).serve l
  have hbusy := FetchQueue.busy_serve config l
  have hconf : (FetchQueue.serve { config } l).1.config = config := FetchQueue.config_serve _ l
  generalize (FetchQueue.serve { config } l).1 = q at horderly hbusy hconf
  obtain rfl := hconf
  have hfull := FetchQueue.isFull_iff horderly
  refine ⟨rejected_submit_iff.trans hfull, fun f => ?_, fun hlength => ?_, fun hlength hroom hj => ?_⟩
  · rw [submit_eq_error_iff]
    refine and_congr_right fun _ => ⟨fun ⟨h, hf⟩ => ?_, fun ⟨h, hf⟩ => ⟨hfull.mpr h, ?_⟩⟩
    · have hlength := hfull.mp h
      exact ⟨hlength, by rw [hf, fullFault, hlength]⟩
    · rw [hf, fullFault, h]
  · rw [or_iff_not_imp_left, or_iff_not_imp_left]
    intro hin hof
    have hroom : q.HasRoom j.key :=
      ⟨Nat.lt_of_le_of_ne horderly.inFlight_le hin, Nat.lt_of_le_of_ne (horderly.runningOf_le _) hof⟩
    refine ⟨fun hnil => ?_, fun w hw => hbusy.of_hasRoom hroom hw⟩
    rw [hnil] at hlength
    exact absurd hlength.symm (Nat.ne_of_gt hconfig)
  · obtain ⟨hqueue, hresult⟩ := submit_of_room (c := ⟨q, stores, notices⟩) (j := j) fun h => hlength (hfull.mp h)
    exact ⟨hresult, hqueue ▸ FetchQueue.mem_running_enqueue horderly.toSound hbusy hroom hj⟩

/-- One object may have one running job, two jobs may run, and one may wait: a second job of an object takes the only
    place, and then a job of another object is refused, although it might run. -/
theorem submit_served_of_backlog :
    let config : QueueConfig := { maxFetches := 2, maxFetchesPerObject := 1, maxQueued := 1 }
    let job (id : Nat) (key : String) : Job := ⟨id, 0, key, [id], ⟨10 * id, 10 * id + 10⟩, .immediate, none⟩
    let q := (FetchQueue.serve { config } [.submit (job 1 "a"), .submit (job 2 "a")]).1
    1 ≤ config.maxQueued ∧ q.waiting.length = config.maxQueued ∧
      ((Cache.mk q [] []).submit [job 3 "b"] 0).2 = .error (.capacityExceeded 1 1) :=
  have hlength : (FetchQueue.serve _ _).1.waiting.length = 1 := by decide +kernel
  ⟨by decide, hlength, ((submit_served _ (by decide) _ [] [] _).2.1 _).mpr ⟨rfl, hlength, rfl⟩⟩

/-- A read of an object of which nothing is on its way is refused because of two reads of another object, although two
    fetches may be on their way and one is. -/
theorem refused_with_room :
    let config : QueueConfig := { maxFetches := 2, maxFetchesPerObject := 1, maxQueued := 1 }
    let c := (new config).acts [.addStore ⟨"a", 100, none⟩ { blockSize := 10 },
      .addStore ⟨"b", 100, none⟩ { blockSize := 10 }, .ensure 0 [⟨0, 10⟩] .grid .immediate none,
      .ensure 0 [⟨20, 30⟩] .grid .immediate none]
    c.queue.HasRoom "b" ∧ (c.ensure 1 [⟨0, 10⟩] .grid .immediate none).2 = .error (.capacityExceeded 1 1) := by
  decide +kernel

end Cache

end RangeCache
