import RangeCache.Proofs.Fetch.Requests

/-!
# Turns

Every job that the queue starts is due: of the waiting jobs whose objects leave room for them it is the first one, by
priority and then by arrival (`Start.Due`). The queue leaves no room unused between two requests (`Busy`): promoting
and cancelling start no jobs, but neither do they let a job run that could not run before.

The order of two waiting jobs of one object is the order in which they start, unless the later one is promoted. What
carries this over a run is that a job, as long as it waits, keeps its arrival number and never loses immediate
priority, and that no number is given twice (`Since`).
-/

namespace RangeCache

namespace FetchQueue

/-! ### Which jobs start -/

/-- The job that starts waits, there is room for it, and of all waiting jobs for which there is room it is the
    first. -/
structure Start.Due (s : Start) : Prop where
  waits : s.job ∈ s.queue.waiting
  below : s.queue.inFlight < s.queue.config.maxFetches
  room : s.queue.runningOf s.job.job.key < s.queue.config.maxFetchesPerObject
  first : ∀ w ∈ s.queue.waiting, s.queue.runningOf w.job.key < s.queue.config.maxFetchesPerObject →
    w = s.job ∨ s.job.Precedes w

theorem due_of_mem_starts {q : FetchQueue} (h : q.Orderly) {s : Start} (hs : s ∈ q.starts) : s.Due := by
  fun_induction starts q with
  | case1 q hn => cases hs
  | case2 q t ht hw => cases hs
  | case3 q t ht w hw ih =>
    rcases List.mem_cons.mp hs with rfl | hs
    · refine ⟨(mem_of_waiting?_eq_some hw).1, room_of_next? ht, ?_, fun v hv hroom => ?_⟩
      · simpa [mayRun, hw] using mayRun_of_next? ht
      · exact h.precedes_of_next? ht hw hv hroom
    · exact ih (h.start ht hw) hs

theorem Response.due {q q' : FetchQueue} {log : List Start} (h : q.Response q' log) (hq : q.Orderly) :
    ∀ s ∈ log, s.Due := by
  cases h with
  | nothing => exact nofun
  | takeId => exact nofun
  | reject j hid hfull => exact nofun
  | enqueue j hid hroom => exact fun s hs => due_of_mem_starts (hq.enqueue hid hroom) hs
  | promote job => exact nofun
  | cancel owner => exact nofun
  | finish j attempts failed hj => exact fun s hs => due_of_mem_starts (hq.finish hj attempts failed) hs

theorem due_of_mem_serve {q : FetchQueue} (h : q.Orderly) {l : List Request} {s : Start} (hs : s ∈ (q.serve l).2) :
    s.Due := by
  induction l generalizing q with
  | nil => cases hs
  | cons r l ih =>
    have hresponse := q.response_handle r
    rcases List.mem_append.mp hs with hs | hs
    · exact hresponse.due h s hs
    · exact ih (hresponse.orderly h) hs

/-! ### All starts are logged -/

theorem dispatched_pump (q : FetchQueue) : q.pump.1.dispatched = q.dispatched + q.starts.length := by
  fun_induction pump q with
  | case1 q hn => rw [starts_of_none hn, List.length_nil, Nat.add_zero]
  | case2 q t ht hw =>
    obtain ⟨w, hw'⟩ := waiting?_of_next? ht
    rw [hw] at hw'
    cases hw'
  | case3 q t ht w hw q' l hp ih =>
    rw [hp] at ih
    rw [starts_of_some ht hw, List.length_cons]
    exact ih.trans (by simp only [start]; omega)

theorem dispatched_promote (q : FetchQueue) (job : Nat) : (q.promote job).dispatched = q.dispatched := by
  obtain ⟨order, waiting, he⟩ := q.exists_promote_eq job
  rw [he]

theorem Response.dispatched {q q' : FetchQueue} {log : List Start} (h : q.Response q' log) :
    q'.dispatched = q.dispatched + log.length := by
  cases h with
  | nothing => rfl
  | takeId => rfl
  | reject j hid hfull => rfl
  | enqueue j hid hroom => exact dispatched_pump (q.enqueue j)
  | promote job => exact dispatched_promote q job
  | cancel owner => rfl
  | finish j attempts failed hj => exact dispatched_pump (q.finish j attempts failed)

theorem dispatched_serve (q : FetchQueue) (l : List Request) :
    (q.serve l).1.dispatched = q.dispatched + (q.serve l).2.length := by
  induction l generalizing q with
  | nil => rfl
  | cons r l ih =>
    have hone := (q.response_handle r).dispatched
    simp only [serve, List.length_append, ih]
    omega

theorem running_pump_starts (q : FetchQueue) {j : Job} (hj : j ∈ q.pump.1.running) :
    j ∈ q.running ∨ ∃ s ∈ q.starts, s.job.job = j := by
  rw [running_pump, pump_snd] at hj
  exact (List.mem_append.mp hj).imp_right List.mem_map.mp

/-- A job that runs was running before or was started. -/
theorem Response.running {q q' : FetchQueue} {log : List Start} (h : q.Response q' log) {j : Job}
    (hj : j ∈ q'.running) : j ∈ q.running ∨ ∃ s ∈ log, s.job.job = j := by
  cases h with
  | nothing => exact Or.inl hj
  | takeId => exact Or.inl hj
  | reject k hid hfull => exact Or.inl hj
  | enqueue k hid hroom => exact running_pump_starts (q.enqueue k) hj
  | promote job => exact Or.inl (running_promote q job ▸ hj)
  | cancel owner => exact Or.inl hj
  | finish k attempts failed hk =>
    exact (running_pump_starts (q.finish k attempts failed) hj).imp_left fun hj => (List.mem_filter.mp hj).1

theorem running_serve {q : FetchQueue} {l : List Request} {j : Job} (hj : j ∈ (q.serve l).1.running) :
    j ∈ q.running ∨ ∃ s ∈ (q.serve l).2, s.job.job = j := by
  induction l generalizing q with
  | nil => exact Or.inl hj
  | cons r l ih =>
    rcases ih hj with hj | ⟨s, hs, he⟩
    · refine ((q.response_handle r).running hj).imp_right fun ⟨s, hs, he⟩ => ⟨s, List.mem_append_left _ hs, he⟩
    · exact Or.inr ⟨s, List.mem_append_right _ hs, he⟩

/-! ### No room is left unused -/

/-- As many jobs run as may, or none that waits may run beside those of its object. -/
def Busy (q : FetchQueue) : Prop :=
  q.inFlight = q.config.maxFetches ∨ ∀ w ∈ q.waiting, q.runningOf w.job.key = q.config.maxFetchesPerObject

theorem Orderly.busy {q : FetchQueue} (h : q.Orderly) (hn : q.next? = none) : q.Busy :=
  (h.next?_eq_none_iff.mp hn).imp (Nat.le_antisymm h.inFlight_le)
    fun hall w hw => Nat.le_antisymm (h.runningOf_le _) (hall w hw)

theorem Response.next? {q q' : FetchQueue} {log : List Start} (h : q.Response q' log) (hq : q.Orderly)
    (hn : q.next? = none) : q'.next? = none := by
  cases h with
  | nothing => exact hn
  | takeId => exact hn
  | reject j hid hfull => exact hn
  | enqueue j hid hroom => exact next?_pump (q.enqueue j)
  | promote job => exact next?_promote hq.toSound hn job
  | cancel owner => exact next?_cancel hq.toSound hn owner
  | finish j attempts failed hj => exact next?_pump (q.finish j attempts failed)

theorem next?_serve {q : FetchQueue} (h : q.Orderly) (hn : q.next? = none) (l : List Request) :
    (q.serve l).1.next? = none := by
  induction l generalizing q with
  | nil => exact hn
  | cons r l ih =>
    have hresponse := q.response_handle r
    exact ih (hresponse.orderly h) (hresponse.next? h hn)

theorem busy_serve (config : QueueConfig) (l : List Request) : (serve { config } l).1.Busy := by
  have hnew := orderly_new config
  have hnone : ({ config } : FetchQueue).next? = none := by simp [next?]
  exact (hnew.serve l).busy (next?_serve hnew hnone l)

/-! ### What a waiting job keeps -/

/-- What waits in a later queue has arrived since, or waited before with the same arrival number; and then it was not
    immediate unless it still is. -/
structure Since (q q' : FetchQueue) : Prop where
  le : q.nextArrival ≤ q'.nextArrival
  waited : ∀ w' ∈ q'.waiting, q.nextArrival ≤ w'.arrival ∨ ∃ w ∈ q.waiting, w.arrival = w'.arrival ∧
    w.job.bare = w'.job.bare ∧ (w.job.priority = .immediate → w'.job.priority = .immediate)

section Since
variable {q q' q'' : FetchQueue}

theorem Since.trans (h : Since q q') (h' : Since q' q'') : Since q q'' where
  le := Nat.le_trans h.le h'.le
  waited w'' hw'' := by
    rcases h'.waited w'' hw'' with hnew | ⟨w', hw', ha', hb', hi'⟩
    · exact Or.inl (Nat.le_trans h.le hnew)
    · rcases h.waited w' hw' with hnew | ⟨w, hw, ha, hb, hi⟩
      · exact Or.inl (ha' ▸ hnew)
      · exact Or.inr ⟨w, hw, ha.trans ha', hb.trans hb', fun him => hi' (hi him)⟩

/-- A change that only lets jobs go. -/
theorem Since.of_subset (hle : q.nextArrival ≤ q'.nextArrival) (hsub : ∀ w ∈ q'.waiting, w ∈ q.waiting) : Since q q' :=
  ⟨hle, fun w hw => Or.inr ⟨w, hsub w hw, rfl, rfl, id⟩⟩

theorem Since.refl (q : FetchQueue) : Since q q := .of_subset (Nat.le_refl _) fun _ => id

theorem since_enqueue (q : FetchQueue) (j : Job) : Since q (q.enqueue j) where
  le := Nat.le_succ _
  waited w hw := by
    rcases List.mem_append.mp hw with hw | hw
    · exact Or.inr ⟨w, hw, rfl, rfl, id⟩
    · rw [List.mem_singleton.mp hw]
      exact Or.inl (Nat.le_refl _)

theorem since_start (q : FetchQueue) (t : Ticket) (j : Job) : Since q (q.start t j) :=
  .of_subset (Nat.le_refl _) fun _ hw => (List.mem_filter.mp hw).1

theorem since_pump (q : FetchQueue) : Since q q.pump.1 := by
  fun_induction pump q with
  | case1 q hn => exact .refl q
  | case2 q t ht hw => exact .refl q
  | case3 q t ht w hw q' l hp ih =>
    rw [hp] at ih
    exact (since_start q t w.job).trans ih

theorem since_of_mem_starts {s : Start} (hs : s ∈ q.starts) : Since q s.queue := by
  fun_induction starts q with
  | case1 q hn => cases hs
  | case2 q t ht hw => cases hs
  | case3 q t ht w hw ih =>
    rcases List.mem_cons.mp hs with rfl | hs
    · exact .refl q
    · exact (since_start q t w.job).trans (ih hs)

/-- Promoting a job changes no arrival number and nothing of any job but its priority. -/
theorem bare_waiting_promote (h : q.Sound) (job : Nat) :
    (q.promote job).waiting.map (fun w => (w.arrival, w.job.bare)) =
      q.waiting.map fun w => (w.arrival, w.job.bare) := by
  rw [waiting_promote h, List.map_map]
  refine List.map_congr_left fun x _ => ?_
  simp only [Function.comp_apply]
  split <;> rfl

theorem nextArrival_promote (q : FetchQueue) (job : Nat) : (q.promote job).nextArrival = q.nextArrival := by
  obtain ⟨order, waiting, he⟩ := q.exists_promote_eq job
  rw [he]

theorem since_promote (h : q.Sound) (job : Nat) : Since q (q.promote job) where
  le := Nat.le_of_eq (nextArrival_promote q job).symm
  waited w' hw' := by
    rw [waiting_promote h] at hw'
    obtain ⟨w, hw, rfl⟩ := List.mem_map.mp hw'
    refine Or.inr ⟨w, hw, ?_⟩
    split
    · exact ⟨rfl, rfl, fun _ => rfl⟩
    · exact ⟨rfl, rfl, id⟩

theorem Response.since {log : List Start} (h : q.Response q' log) (hq : q.Sound) :
    Since q q' ∧ ∀ s ∈ log, Since q s.queue := by
  cases h with
  | nothing => exact ⟨.refl q, nofun⟩
  | takeId => exact ⟨.of_subset (Nat.le_refl _) fun _ => id, nofun⟩
  | reject j hid hfull => exact ⟨.of_subset (Nat.le_refl _) fun _ => id, nofun⟩
  | enqueue j hid hroom =>
    have henqueue := since_enqueue q j
    exact ⟨henqueue.trans (since_pump _), fun s hs => henqueue.trans (since_of_mem_starts hs)⟩
  | promote job => exact ⟨since_promote hq job, nofun⟩
  | cancel owner => exact ⟨.of_subset (Nat.le_refl _) fun _ hw => (List.mem_filter.mp hw).1, nofun⟩
  | finish j attempts failed hj =>
    have hfinish : Since q (q.finish j attempts failed) := .of_subset (Nat.le_refl _) fun _ => id
    exact ⟨hfinish.trans (since_pump _), fun s hs => hfinish.trans (since_of_mem_starts hs)⟩

theorem since_of_mem_serve (h : q.Orderly) {l : List Request} {s : Start} (hs : s ∈ (q.serve l).2) :
    Since q s.queue := by
  induction l generalizing q with
  | nil => cases hs
  | cons r l ih =>
    have hresponse := q.response_handle r
    obtain ⟨hafter, hlog⟩ := hresponse.since h.toSound
    rcases List.mem_append.mp hs with hs | hs
    · exact hlog s hs
    · exact hafter.trans (ih (hresponse.orderly h) hs)

/-- A job that waited is known by its arrival number. -/
theorem Since.of_arrival (h : Since q q') (hq : q.Orderly) {w w' : Waiting} (hw : w ∈ q.waiting)
    (hw' : w' ∈ q'.waiting) (ha : w'.arrival = w.arrival) :
    w'.job.bare = w.job.bare ∧ (w.job.priority = .immediate → w'.job.priority = .immediate) := by
  rcases h.waited w' hw' with hnew | ⟨x, hx, hxa, hb, him⟩
  · have := hq.arrived w hw
    omega
  · obtain rfl := hq.eq_of_arrival hx hw (hxa.trans ha)
    exact ⟨hb.symm, him⟩

end Since

/-! ### The order of the starts -/

/-- Of two jobs of one object the one whose turn comes later does not start while the other one waits, unless it was
    promoted meanwhile. -/
theorem not_waiting_or_promoted {q : FetchQueue} (h : q.Orderly) {v w : Waiting} (hv : v ∈ q.waiting)
    (hw : w ∈ q.waiting) (hkey : v.job.key = w.job.key) (hvw : v.Precedes w) {l : List Request} {s : Start}
    (hs : s ∈ (q.serve l).2) (ha : s.job.arrival = w.arrival) :
    (∀ x ∈ s.queue.waiting, x.arrival ≠ v.arrival) ∨
      w.job.priority = .speculative ∧ s.job.job.priority = .immediate := by
  have hsince := since_of_mem_serve h hs
  have hdue := due_of_mem_serve h hs
  have hbare := (hsince.of_arrival h hw hdue.waits ha).1
  refine Classical.or_iff_not_imp_left.mpr fun hwaits => ?_
  obtain ⟨x, hx, hxv⟩ : ∃ x ∈ s.queue.waiting, x.arrival = v.arrival := by simpa using hwaits
  obtain ⟨hxbare, hxim⟩ := hsince.of_arrival h hv hx hxv
  have hxkey : x.job.key = s.job.job.key :=
    (Job.key_eq_of_bare hxbare).trans (hkey.trans (Job.key_eq_of_bare hbare).symm)
  rcases hdue.first x hx (hxkey ▸ hdue.room) with rfl | hfirst
  · obtain rfl := h.eq_of_arrival hv hw (hxv.symm.trans ha)
    rcases hvw with ⟨him, hsp⟩ | ⟨-, hlt⟩
    · rw [him] at hsp
      cases hsp
    · exact absurd hlt (Nat.lt_irrefl _)
  · rcases hvw with ⟨hvim, hwsp⟩ | ⟨hsame, hlt⟩
    · -- The earlier one is immediate, and stays so: nothing but another immediate job precedes it.
      refine ⟨hwsp, ?_⟩
      rcases hfirst with ⟨him, -⟩ | ⟨heq, -⟩
      · exact him
      · exact heq.trans (hxim hvim)
    · rcases hfirst with ⟨him, hxsp⟩ | ⟨-, hlt'⟩
      · cases hvp : v.job.priority with
        | speculative => exact ⟨hsame ▸ hvp, him⟩
        | immediate =>
          rw [hxim hvp] at hxsp
          cases hxsp
      · omega

/-- Whatever is asked of the queue, every job that it starts is due, and no room is left unused. Of two waiting jobs of
    one object, the later one starts only when the earlier one does not wait any longer, or after it was promoted; and
    a job that is promoted keeps its arrival number. -/
theorem turns_serve (config : QueueConfig) (l : List Request) :
    let q := (serve { config } l).1
    let log := (serve { config } l).2
    (log.length = q.dispatched ∧ ∀ j ∈ q.running, ∃ s ∈ log, s.job.job = j) ∧
      (∀ s ∈ log, s.Due) ∧ q.config = config ∧ q.Busy ∧
      (∀ v ∈ q.waiting, ∀ w ∈ q.waiting, v.job.key = w.job.key → v.Precedes w →
        ∀ l', ∀ s ∈ (q.serve l').2, s.job.arrival = w.arrival → s.job.job.bare = w.job.bare ∧
          ((∀ x ∈ s.queue.waiting, x.arrival ≠ v.arrival) ∨
            w.job.priority = .speculative ∧ s.job.job.priority = .immediate)) ∧
      ∀ job, (q.promote job).waiting.map (fun w => (w.arrival, w.job.bare)) =
        q.waiting.map fun w => (w.arrival, w.job.bare) := by
  have hnew := orderly_new config
  have horderly := hnew.serve l
  refine ⟨⟨?_, fun j hj => (running_serve hj).resolve_left List.not_mem_nil⟩, fun s hs => due_of_mem_serve hnew hs,
    config_serve _ l, busy_serve config l, ?_, bare_waiting_promote horderly.toSound⟩
  · exact (Nat.zero_add _).symm.trans (dispatched_serve { config } l).symm
  · intro v hv w hw hkey hvw l' s hs ha
    have hwaits := (due_of_mem_serve horderly hs).waits
    exact ⟨((since_of_mem_serve horderly hs).of_arrival horderly hw hwaits ha).1,
      not_waiting_or_promoted horderly hv hw hkey hvw hs ha⟩

/-- A job that is promoted overtakes one that arrived before it. -/
example :
    let job (id : Nat) : Job := ⟨id, 0, "a", [id], ⟨10 * id, 10 * id + 10⟩, .speculative, none⟩
    let log := (serve { config := { maxFetches := 1 } } [.submit (job 1), .submit (job 2), .submit (job 3), .promote 3,
      .finish (job 1) 1 false, .finish { job 3 with priority := .immediate } 1 false]).2
    log.map (fun s => (s.job.job.id, s.job.arrival)) = [(1, 0), (3, 2), (2, 1)] := by
  decide +kernel

end FetchQueue

end RangeCache
