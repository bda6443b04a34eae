import RangeCache.Fetch.Queue
import RangeCache.Proofs.Keyed

/-!
# The accounts of the fetch queue

The queue keeps the same things twice: the waiting jobs and their tickets, the running jobs and their
numbers, in all and by object. `Sound` says that the two agree. Every change of the queue keeps it sound
and only moves jobs: what a queue lives on (`jobs`) after a change are the jobs from before, less those
that were handed out, and with those that were handed in. A job that waits when no job may run waits for
another one that runs (`exists_running`).
-/

namespace RangeCache

/-- A job as it is apart from its priority. -/
def Job.bare (j : Job) : Job := { j with priority := .speculative }

@[simp] theorem Job.bare_id (j : Job) : j.bare.id = j.id := rfl

theorem Job.eq_of_bare {j k : Job} (h : j.bare = k.bare) : j.id = k.id ∧ j.store = k.store ∧ j.blocks = k.blocks := by
  simp only [Job.bare, Job.mk.injEq] at h
  exact ⟨h.1, h.2.1, h.2.2.2.1⟩

theorem Job.key_eq_of_bare {j k : Job} (h : j.bare = k.bare) : j.key = k.key := by
  have hkey := congrArg Job.key h
  exact hkey

/-- A waiting job, made immediate. -/
def Waiting.promoted (w : Waiting) : Waiting := { w with job := { w.job with priority := .immediate } }

theorem Waiting.promoted_of_immediate {w : Waiting} (h : w.job.priority = .immediate) : w.promoted = w := by
  unfold promoted
  rw [← h]

theorem Ticket.perm_insert (t : Ticket) (l : List Ticket) : (t.insert l).Perm (t :: l) := by
  induction l with
  | nil => exact .refl _
  | cons a r ih =>
    unfold Ticket.insert
    split
    · exact .refl _
    · exact (ih.cons a).trans (.swap t a r)

namespace FetchQueue

/-- The jobs that wait or run. -/
def jobs (q : FetchQueue) : List Job := q.waiting.map (·.job) ++ q.running

/-- What the queue keeps twice agrees. -/
structure Sound (q : FetchQueue) : Prop where
  tickets : q.order.Perm (q.waiting.map (·.ticket))
  ids : (q.jobs.map (·.id)).Nodup
  count : q.inFlight = q.running.length
  keys : (q.inFlightOf.map (·.1)).Nodup
  counts : ∀ key, q.runningOf key = q.running.countP (·.key == key)

/-! ### Counts -/

section Counts
variable {key other : String} {l : List (String × Nat)}

theorem mem_keys_countUp {k : String} : k ∈ (countUp key l).map (·.1) ↔ k = key ∨ k ∈ l.map (·.1) := by
  induction l with
  | nil => simp [countUp]
  | cons e r ih =>
    obtain ⟨k', n⟩ := e
    unfold countUp
    split
    · rename_i h
      simp [h]
    · simp only [List.map_cons, List.mem_cons, ih]
      exact or_left_comm

theorem nodup_keys_countUp (h : (l.map (·.1)).Nodup) : ((countUp key l).map (·.1)).Nodup := by
  induction l with
  | nil => simp [countUp]
  | cons e r ih =>
    obtain ⟨k, n⟩ := e
    obtain ⟨hk, hr⟩ := List.nodup_cons.mp h
    unfold countUp
    split
    · exact h
    · rename_i hne
      refine List.nodup_cons.mpr ⟨fun hm => ?_, ih hr⟩
      rcases mem_keys_countUp.mp hm with rfl | hm
      · exact hne rfl
      · exact hk hm

theorem lookup_countUp :
    ((countUp key l).lookup other).getD 0 = (l.lookup other).getD 0 + if other = key then 1 else 0 := by
  induction l with
  | nil =>
    by_cases h : other = key
    · simp [countUp, h]
    · have : (other == key) = false := by simpa using h
      simp [countUp, List.lookup_cons, h, this]
  | cons e r ih =>
    obtain ⟨k, n⟩ := e
    unfold countUp
    by_cases hk : k = key
    · by_cases ho : other = k
      · simp [hk, ho]
      · have : (other == k) = false := by simpa using ho
        simp [← hk, ho, List.lookup_cons, this]
    · by_cases ho : other = k
      · simp [hk, ho]
      · have : (other == k) = false := by simpa using ho
        simp [hk, List.lookup_cons, this, ih]

theorem mem_keys_of_countDown {k : String} (h : k ∈ (countDown key l).map (·.1)) : k ∈ l.map (·.1) := by
  induction l with
  | nil => exact h
  | cons e r ih =>
    obtain ⟨k', n⟩ := e
    unfold countDown at h
    split at h
    · split at h
      · exact List.mem_cons_of_mem _ h
      · exact h
    · rcases List.mem_cons.mp h with rfl | h
      · exact List.mem_cons_self
      · exact List.mem_cons_of_mem _ (ih h)

theorem nodup_keys_countDown (h : (l.map (·.1)).Nodup) : ((countDown key l).map (·.1)).Nodup := by
  induction l with
  | nil => exact h
  | cons e r ih =>
    obtain ⟨k, n⟩ := e
    obtain ⟨hk, hr⟩ := List.nodup_cons.mp h
    unfold countDown
    split
    · split
      · exact hr
      · exact h
    · exact List.nodup_cons.mpr ⟨fun hm => hk (mem_keys_of_countDown hm), ih hr⟩

theorem lookup_eq_none_of_not_mem {k : String} (h : k ∉ l.map (·.1)) : l.lookup k = none := by
  refine List.lookup_eq_none_iff.mpr fun p hp => ?_
  have hne : k ≠ p.1 := fun he => h (he ▸ List.mem_map_of_mem hp)
  simpa using hne

theorem lookup_countDown (h : (l.map (·.1)).Nodup) :
    ((countDown key l).lookup other).getD 0 = (l.lookup other).getD 0 - if other = key then 1 else 0 := by
  induction l with
  | nil => simp [countDown]
  | cons e r ih =>
    obtain ⟨k, n⟩ := e
    obtain ⟨hk, hr⟩ := List.nodup_cons.mp h
    unfold countDown
    by_cases hkk : k = key
    · subst hkk
      by_cases ho : other = k
      · subst ho
        by_cases hn : n ≤ 1
        · have : n - 1 = 0 := by omega
          simp [hn, lookup_eq_none_of_not_mem hk, this]
        · simp [hn]
      · have : (other == k) = false := by simpa using ho
        by_cases hn : n ≤ 1 <;> simp [hn, List.lookup_cons, this, ho]
    · by_cases ho : other = k
      · subst ho
        simp [hkk]
      · have : (other == k) = false := by simpa using ho
        simp [hkk, List.lookup_cons, this, ih hr]

end Counts

/-! ### Looking up -/

section Lookup
variable {q : FetchQueue} {w : Waiting} {t : Ticket}

theorem Sound.ids_waiting (h : q.Sound) : (q.waiting.map (·.job.id)).Nodup := by
  have := h.ids
  unfold jobs at this
  rw [List.map_append, List.map_map] at this
  exact (List.nodup_append.mp this).1

theorem Sound.ids_running (h : q.Sound) : (q.running.map (·.id)).Nodup := by
  have := h.ids
  unfold jobs at this
  rw [List.map_append] at this
  exact (List.nodup_append.mp this).2.1

theorem mem_of_waiting?_eq_some {job : Nat} (h : q.waiting? job = some w) : w ∈ q.waiting ∧ w.job.id = job :=
  mem_of_find?_key (f := fun v : Waiting => v.job.id) h

theorem eq_of_waiting (h : q.Sound) {v : Waiting} (hv : v ∈ q.waiting) (hw : w ∈ q.waiting)
    (hid : v.job.id = w.job.id) : v = w := List.inj_on_of_nodup_map h.ids_waiting hv hw hid

theorem waiting?_eq_some (h : q.Sound) (hw : w ∈ q.waiting) : q.waiting? w.job.id = some w :=
  find?_key (f := fun v : Waiting => v.job.id) h.ids_waiting hw

theorem ticket_eq (h : q.Sound) (ht : t ∈ q.order) (hw : q.waiting? t.job = some w) : w.ticket = t := by
  obtain ⟨v, hv, rfl⟩ := List.mem_map.mp (h.tickets.mem_iff.mp ht)
  obtain ⟨hw, hid⟩ := mem_of_waiting?_eq_some hw
  rw [eq_of_waiting h hw hv hid]

theorem mem_jobs {j : Job} : j ∈ q.jobs ↔ (∃ w ∈ q.waiting, w.job = j) ∨ j ∈ q.running := by
  simp only [jobs, List.mem_append, List.mem_map]

end Lookup

/-! ### Handing in, starting, ending -/

section Changes
variable {q : FetchQueue} {j : Job}

theorem perm_jobs_enqueue (q : FetchQueue) (j : Job) : (q.enqueue j).jobs.Perm (j :: q.jobs) := by
  simp only [jobs, enqueue, List.map_append, List.map_cons, List.map_nil, List.append_assoc, List.cons_append,
    List.nil_append]
  exact List.perm_middle

theorem Sound.enqueue (h : q.Sound) (hj : j.id ∉ q.jobs.map (·.id)) : (q.enqueue j).Sound where
  tickets := by
    simp only [FetchQueue.enqueue, List.map_append, List.map_cons, List.map_nil]
    exact ((Ticket.perm_insert _ _).trans (h.tickets.cons _)).trans (List.perm_append_singleton _ _).symm
  ids := by
    rw [((perm_jobs_enqueue q j).map (·.id)).nodup_iff, List.map_cons]
    exact List.nodup_cons.mpr ⟨hj, h.ids⟩
  count := h.count
  keys := h.keys
  counts := h.counts

theorem perm_waiting_start (h : q.Sound) {t : Ticket} {w : Waiting} (hw : q.waiting? t.job = some w) :
    q.waiting.Perm (w :: q.waiting.filter fun v => v.job.id != t.job) := by
  obtain ⟨hm, hid⟩ := mem_of_waiting?_eq_some hw
  exact hid ▸ perm_cons_filter_ne (f := fun v : Waiting => v.job.id) h.ids_waiting hm

theorem perm_jobs_start (h : q.Sound) {t : Ticket} {w : Waiting} (hw : q.waiting? t.job = some w) :
    (q.start t w.job).jobs.Perm q.jobs := by
  simp only [jobs, FetchQueue.start]
  have hp := ((perm_waiting_start h hw).map (·.job)).append_right q.running
  refine List.Perm.trans ?_ hp.symm
  rw [← List.append_assoc, List.map_cons, List.cons_append]
  exact List.perm_append_singleton _ _

theorem Sound.start (h : q.Sound) {t : Ticket} {w : Waiting} (ht : t ∈ q.order) (hw : q.waiting? t.job = some w) :
    (q.start t w.job).Sound where
  tickets := by
    simp only [FetchQueue.start]
    have hp := h.tickets.trans ((perm_waiting_start h hw).map (·.ticket))
    rw [List.map_cons, ticket_eq h ht hw] at hp
    exact List.Perm.cons_inv ((List.perm_cons_erase ht).symm.trans hp)
  ids := (((perm_jobs_start h hw).map (·.id)).nodup_iff).mpr h.ids
  count := by simp [FetchQueue.start, h.count]
  keys := nodup_keys_countUp h.keys
  counts key := by
    have := h.counts key
    simp only [FetchQueue.start, runningOf, List.countP_append, lookup_countUp] at this ⊢
    rw [this]
    by_cases hk : key = w.job.key
    · simp [hk]
    · have hk' : ¬w.job.key = key := fun h => hk h.symm
      simp [hk, hk']

theorem perm_running_finish (h : q.Sound) (hj : j ∈ q.running) (n : Nat) (failed : Bool) :
    q.running.Perm (j :: (q.finish j n failed).running) := 
  perm_cons_filter_ne (f := fun x : Job => x.id) h.ids_running hj

theorem perm_jobs_finish (h : q.Sound) (hj : j ∈ q.running) (n : Nat) (failed : Bool) :
    q.jobs.Perm (j :: (q.finish j n failed).jobs) := by
  unfold jobs
  exact ((perm_running_finish h hj n failed).append_left _).trans List.perm_middle

theorem Sound.finish (h : q.Sound) (hj : j ∈ q.running) (n : Nat) (failed : Bool) : (q.finish j n failed).Sound where
  tickets := h.tickets
  ids := by
    have := (((perm_jobs_finish h hj n failed).map (·.id)).nodup_iff).mp h.ids
    exact (List.nodup_cons.mp this).2
  count := by
    have := (perm_running_finish h hj n failed).length_eq
    simp only [List.length_cons] at this
    simp only [FetchQueue.finish, h.count] at this ⊢
    omega
  keys := nodup_keys_countDown h.keys
  counts key := by
    have hp := (perm_running_finish h hj n failed).countP_eq (·.key == key)
    have hk := h.counts key
    have hd : ((countDown j.key q.inFlightOf).lookup key).getD 0 =
        (q.inFlightOf.lookup key).getD 0 - if key = j.key then 1 else 0 := lookup_countDown h.keys
    rw [List.countP_cons] at hp
    simp only [runningOf] at hk ⊢
    simp only [FetchQueue.finish] at hp ⊢
    rw [hd, hk, hp]
    by_cases hkj : key = j.key
    · simp [hkj]
    · have hkj' : ¬j.key = key := fun h => hkj h.symm
      simp [hkj, hkj']

/-! ### Promoting and cancelling -/

/-- Promoting a job changes nothing if it does not wait or is immediate, and else its priority and its ticket. -/
theorem promote_cases (q : FetchQueue) (job : Nat) :
    (q.promote job = q ∧ ∀ w, q.waiting? job = some w → w.job.priority = .immediate) ∨
      ∃ w, q.waiting? job = some w ∧ q.promote job = { q with
        order := w.promoted.ticket.insert (q.order.erase w.ticket)
        waiting := q.waiting.map fun x => if x.job.id = job then w.promoted else x } := by
  unfold promote
  cases hw : q.waiting? job with
  | none => exact Or.inl ⟨rfl, nofun⟩
  | some w =>
    by_cases hp : w.job.priority = .immediate
    · refine Or.inl ⟨if_pos hp, fun v hv => ?_⟩
      cases hv
      exact hp
    · exact Or.inr ⟨w, rfl, if_neg hp⟩

theorem exists_promote_eq (q : FetchQueue) (job : Nat) :
    ∃ order waiting, q.promote job = { q with order := order, waiting := waiting } := by
  rcases q.promote_cases job with ⟨he, -⟩ | ⟨w, -, he⟩
  · exact ⟨q.order, q.waiting, he⟩
  · exact ⟨_, _, he⟩

theorem running_promote (q : FetchQueue) (job : Nat) : (q.promote job).running = q.running := by
  obtain ⟨order, waiting, he⟩ := q.exists_promote_eq job
  rw [he]

theorem nextJob_promote (q : FetchQueue) (job : Nat) : (q.promote job).nextJob = q.nextJob := by
  obtain ⟨order, waiting, he⟩ := q.exists_promote_eq job
  rw [he]

theorem config_promote (q : FetchQueue) (job : Nat) : (q.promote job).config = q.config := by
  obtain ⟨order, waiting, he⟩ := q.exists_promote_eq job
  rw [he]

theorem rejected_promote (q : FetchQueue) (job : Nat) : (q.promote job).rejected = q.rejected := by
  obtain ⟨order, waiting, he⟩ := q.exists_promote_eq job
  rw [he]

/-- The job that is promoted waits on, at immediate priority and where it stood. -/
theorem waiting_promote (h : q.Sound) (job : Nat) :
    (q.promote job).waiting = q.waiting.map fun x => if x.job.id = job then x.promoted else x := by
  rcases q.promote_cases job with ⟨he, him⟩ | ⟨w, hw, he⟩
  · rw [he]
    refine (List.map_id _).symm.trans (List.map_congr_left fun x hx => ?_)
    split
    · rename_i hid
      exact (Waiting.promoted_of_immediate (him x (hid ▸ waiting?_eq_some h hx))).symm
    · rfl
  · obtain ⟨hm, hid⟩ := mem_of_waiting?_eq_some hw
    rw [he]
    refine List.map_congr_left fun x hx => ?_
    split
    · rename_i hxj
      rw [eq_of_waiting h hx hm (hxj.trans hid.symm)]
    · rfl

theorem bare_jobs_promote (h : q.Sound) (job : Nat) : (q.promote job).jobs.map Job.bare = q.jobs.map Job.bare := by
  simp only [jobs, running_promote, waiting_promote h, List.map_append, List.map_map]
  congr 1
  refine List.map_congr_left fun x _ => ?_
  simp only [Function.comp_apply]
  split <;> rfl

theorem Sound.promote (h : q.Sound) (job : Nat) : (q.promote job).Sound := by
  have hids : ((q.promote job).jobs.map (·.id)).Nodup := by
    have := congrArg (List.map (·.id)) (bare_jobs_promote h job)
    simp only [List.map_map, Function.comp_def, Job.bare_id] at this
    exact this ▸ h.ids
  rcases q.promote_cases job with ⟨he, -⟩ | ⟨w, hw, he⟩
  · exact he.symm ▸ h
  · obtain ⟨hm, hid⟩ := mem_of_waiting?_eq_some hw
    rw [he] at hids ⊢
    refine ⟨?_, hids, h.count, h.keys, h.counts⟩
    simp only
    -- The promoted job stands first in both lists, and the others are as they were.
    have hperm : q.waiting.Perm (w :: q.waiting.filter fun v => v.job.id != w.job.id) :=
      perm_cons_filter_ne (f := fun v : Waiting => v.job.id) h.ids_waiting hm
    have horder : (q.order.erase w.ticket).Perm
        ((q.waiting.filter fun v => v.job.id != w.job.id).map (·.ticket)) := by
      have ht : w.ticket ∈ q.order := h.tickets.mem_iff.mpr (List.mem_map_of_mem hm)
      have := (List.perm_cons_erase ht).symm.trans (h.tickets.trans (hperm.map (·.ticket)))
      exact List.Perm.cons_inv this
    refine (Ticket.perm_insert _ _).trans ((horder.cons _).trans ?_)
    refine List.Perm.trans ?_ ((hperm.map _).map _).symm
    rw [List.map_cons, List.map_cons, if_pos hid]
    refine List.Perm.of_eq (congrArg (List.cons _) ?_)
    rw [List.map_map]
    refine List.map_congr_left fun x hx => ?_
    have hne : ¬x.job.id = job := by
      have := (List.mem_filter.mp hx).2
      simpa [hid] using this
    simp only [Function.comp_apply, if_neg hne]

theorem cancel_jobs_perm (h : q.Sound) (owner : Nat) :
    (q.cancel owner).2.Perm ((q.waiting.filter fun w => q.isSpeculativeOf owner w.ticket).map (·.job)) := by
  simp only [cancel]
  refine ((h.tickets.filter (q.isSpeculativeOf owner)).filterMap _).trans ?_
  rw [List.filter_map, List.filterMap_map]
  refine List.Perm.of_eq ?_
  rw [← List.filterMap_eq_map]
  refine List.filterMap_congr fun w hw => ?_
  have hw' := (List.mem_filter.mp hw).1
  simp only [Function.comp_apply, Waiting.ticket, waiting?_eq_some h hw', Option.map_some]

theorem cancel_waiting (h : q.Sound) (owner : Nat) :
    (q.cancel owner).1.waiting = q.waiting.filter fun w => !q.isSpeculativeOf owner w.ticket := by
  simp only [cancel]
  refine List.filter_congr fun w hw => ?_
  congr 1
  rw [Bool.eq_iff_iff, List.any_eq_true]
  constructor
  · rintro ⟨t, ht, hjob⟩
    obtain ⟨ht, hspec⟩ := List.mem_filter.mp ht
    have : w.ticket = t := ticket_eq h ht (by rw [beq_iff_eq.mp hjob]; exact waiting?_eq_some h hw)
    exact this ▸ hspec
  · intro hspec
    refine ⟨w.ticket, List.mem_filter.mpr ⟨h.tickets.mem_iff.mpr (List.mem_map_of_mem hw), hspec⟩, ?_⟩
    simp [Waiting.ticket]

theorem perm_jobs_cancel (h : q.Sound) (owner : Nat) :
    q.jobs.Perm ((q.cancel owner).2 ++ (q.cancel owner).1.jobs) := by
  have hw := (List.filter_append_perm (fun w => q.isSpeculativeOf owner w.ticket) q.waiting).symm
  have hj := (hw.map (·.job)).append_right q.running
  unfold jobs
  rw [cancel_waiting h]
  refine hj.trans ?_
  rw [List.map_append, List.append_assoc]
  exact (cancel_jobs_perm h owner).symm.append_right _

theorem Sound.cancel (h : q.Sound) (owner : Nat) : (q.cancel owner).1.Sound where
  tickets := by
    rw [cancel_waiting h]
    refine (h.tickets.filter _).trans ?_
    rw [List.filter_map]
    rfl
  ids := by
    have := (((perm_jobs_cancel h owner).map (·.id)).nodup_iff).mp h.ids
    rw [List.map_append] at this
    exact (List.nodup_append.mp this).2.1
  count := h.count
  keys := h.keys
  counts := h.counts

end Changes

/-! ### Which job may run -/

section Next
variable {q : FetchQueue}

theorem waiting?_of_next? {t : Ticket} (h : q.next? = some t) : ∃ w, q.waiting? t.job = some w := by
  unfold next? at h
  split at h
  · have := List.find?_some h
    unfold mayRun at this
    cases hw : q.waiting? t.job with
    | none => simp [hw] at this
    | some w => exact ⟨w, rfl⟩
  · cases h

theorem Sound.pump (h : q.Sound) : q.pump.1.Sound := by
  fun_induction FetchQueue.pump q with
  | case1 q hn => exact h
  | case2 q t ht hw => exact h
  | case3 q t ht w hw q' l hp ih =>
    rw [hp] at ih
    exact ih (h.start (mem_of_next? ht) hw)

theorem perm_jobs_pump (h : q.Sound) : q.pump.1.jobs.Perm q.jobs := by
  fun_induction pump q with
  | case1 q hn => exact .refl _
  | case2 q t ht hw => exact .refl _
  | case3 q t ht w hw q' l hp ih =>
    rw [hp] at ih
    exact (ih (h.start (mem_of_next? ht) hw)).trans (perm_jobs_start h hw)

theorem running_pump (q : FetchQueue) : q.pump.1.running = q.running ++ q.pump.2 := by
  fun_induction pump q with
  | case1 q hn => simp
  | case2 q t ht hw => simp
  | case3 q t ht w hw q' l hp ih =>
    rw [hp] at ih
    simpa [start] using ih

theorem nextJob_pump (q : FetchQueue) : q.pump.1.nextJob = q.nextJob := by
  fun_induction pump q with
  | case1 q hn => rfl
  | case2 q t ht hw => rfl
  | case3 q t ht w hw q' l hp ih =>
    rw [hp] at ih
    exact ih

theorem config_pump (q : FetchQueue) : q.pump.1.config = q.config := by
  fun_induction pump q with
  | case1 q hn => rfl
  | case2 q t ht hw => rfl
  | case3 q t ht w hw q' l hp ih =>
    rw [hp] at ih
    exact ih

theorem rejected_pump (q : FetchQueue) : q.pump.1.rejected = q.rejected := by
  fun_induction pump q with
  | case1 q hn => rfl
  | case2 q t ht hw => rfl
  | case3 q t ht w hw q' l hp ih =>
    rw [hp] at ih
    exact ih

/-- After starting the jobs that may run, none is left that may. -/
theorem next?_pump (q : FetchQueue) : q.pump.1.next? = none := by
  fun_induction pump q with
  | case1 q h => exact h
  | case2 q t h hw =>
    obtain ⟨w, hw'⟩ := waiting?_of_next? h
    rw [hw] at hw'
    cases hw'
  | case3 q t h w hw q' l hp ih =>
    rw [hp] at ih
    exact ih

/-- Where no job may run, what is in the way of each waiting job is a bound that has been reached. -/
theorem Sound.next?_eq_none_iff (h : q.Sound) : q.next? = none ↔ q.config.maxFetches ≤ q.inFlight ∨
    ∀ w ∈ q.waiting, q.config.maxFetchesPerObject ≤ q.runningOf w.job.key := by
  have hmay : (∀ t ∈ q.order, q.mayRun t = false) ↔
      ∀ w ∈ q.waiting, q.config.maxFetchesPerObject ≤ q.runningOf w.job.key := by
    have hone : ∀ w ∈ q.waiting, q.mayRun w.ticket = false ↔
        q.config.maxFetchesPerObject ≤ q.runningOf w.job.key := fun w hw => by
      have : q.waiting? w.ticket.job = some w := waiting?_eq_some h hw
      simp [mayRun, this]
    constructor
    · intro hall w hw
      exact (hone w hw).mp (hall _ (h.tickets.mem_iff.mpr (List.mem_map_of_mem hw)))
    · intro hall t ht
      obtain ⟨w, hw, rfl⟩ := List.mem_map.mp (h.tickets.mem_iff.mp ht)
      exact (hone w hw).mpr (hall w hw)
  unfold next?
  split
  · rename_i hlt
    simp only [List.find?_eq_none, Bool.not_eq_true, hmay]
    exact ⟨Or.inr, fun h' => h'.resolve_left (Nat.not_le.mpr hlt)⟩
  · rename_i hle
    simp only [true_iff]
    exact Or.inl (Nat.not_lt.mp hle)

/-- A job that is promoted may run when it might before. -/
theorem next?_promote (h : q.Sound) (hn : q.next? = none) (job : Nat) : (q.promote job).next? = none := by
  rw [(h.promote job).next?_eq_none_iff]
  rw [h.next?_eq_none_iff] at hn
  rcases q.promote_cases job with ⟨he, -⟩ | ⟨w, hw, he⟩
  · exact he.symm ▸ hn
  · rw [he]
    refine hn.imp id fun hall x hx => ?_
    obtain ⟨y, hy, rfl⟩ := List.mem_map.mp hx
    split
    · exact hall w (mem_of_waiting?_eq_some hw).1
    · exact hall y hy

theorem next?_cancel (h : q.Sound) (hn : q.next? = none) (owner : Nat) : (q.cancel owner).1.next? = none := by
  rw [(h.cancel owner).next?_eq_none_iff, cancel_waiting h]
  rw [h.next?_eq_none_iff] at hn
  exact hn.imp id fun hall w hw => hall w (List.mem_filter.mp hw).1

/-- A job that waits when no job may run waits for another one that runs. -/
theorem exists_running (h : q.Sound) (hn : q.next? = none) (h1 : 1 ≤ q.config.maxFetches)
    (h2 : 1 ≤ q.config.maxFetchesPerObject) {w : Waiting} (hw : w ∈ q.waiting) : ∃ j, j ∈ q.running := by
  suffices hlen : 0 < q.running.length from ⟨_, List.getElem_mem hlen⟩
  rcases h.next?_eq_none_iff.mp hn with hmax | hall
  · rw [← h.count]
    omega
  · have hno := hall w hw
    rw [h.counts] at hno
    exact Nat.lt_of_lt_of_le (by omega : 0 < q.running.countP (·.key == w.job.key)) List.countP_le_length

end Next

end FetchQueue

end RangeCache
