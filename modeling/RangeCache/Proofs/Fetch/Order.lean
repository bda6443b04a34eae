import Mathlib.Algebra.GroupWithZero.Nat
import RangeCache.Proofs.Fetch.Accounts

/-!
# The order of the fetch queue

The tickets of an orderly queue stand in order, no two waiting jobs have one arrival number, and neither the
waiting jobs nor the running ones are more than the queue may have (`FetchQueue.Orderly`). Every change of the
queue keeps it orderly. The ticket at which it starts a job is the lowest of those whose jobs may run
(`FetchQueue.Orderly.precedes_of_next?`), and so jobs have their turns by priority first and then by arrival
(`Waiting.Precedes`).
-/

namespace RangeCache

/-! ### Tickets -/

namespace Ticket
variable {a b c t : Ticket} {l : List Ticket}

theorem before_iff : a.before b = true ↔ a.rank < b.rank ∨
    a.rank = b.rank ∧ (a.arrival < b.arrival ∨ a.arrival = b.arrival ∧ a.job < b.job) := by
  simp [before]

theorem before_trans (h : a.before b = true) (h' : b.before c = true) : a.before c = true := by
  rw [before_iff] at *
  omega

/-- Of two tickets with different arrival numbers one goes before the other. -/
theorem before_of_not_before (hne : a.arrival ≠ b.arrival) (h : ¬a.before b = true) : b.before a = true := by
  rw [before_iff] at *
  omega

theorem ne_of_before (h : a.before b = true) : a ≠ b := by
  rintro rfl
  rw [before_iff] at h
  omega

theorem pairwise_insert (hl : l.Pairwise fun a b => a.before b = true) (ht : ∀ a ∈ l, t.arrival ≠ a.arrival) :
    (t.insert l).Pairwise fun a b => a.before b = true := by
  induction l with
  | nil => exact List.pairwise_singleton _ _
  | cons a r ih =>
    obtain ⟨har, hr⟩ := List.pairwise_cons.mp hl
    unfold insert
    split
    · rename_i hta
      refine List.pairwise_cons.mpr ⟨fun x hx => ?_, hl⟩
      rcases List.mem_cons.mp hx with rfl | hx
      · exact hta
      · exact before_trans hta (har x hx)
    · rename_i hta
      have hat : a.before t = true := before_of_not_before (ht a List.mem_cons_self) hta
      refine List.pairwise_cons.mpr ⟨fun x hx => ?_, ih hr fun b hb => ht b (List.mem_cons_of_mem _ hb)⟩
      rcases List.mem_cons.mp ((perm_insert t r).mem_iff.mp hx) with rfl | hx
      · exact hat
      · exact har x hx

end Ticket

/-- A waiting job has its turn before another one: it is immediate and the other one is not, or they have one
    priority and it arrived first. -/
def Waiting.Precedes (v w : Waiting) : Prop :=
  v.job.priority = .immediate ∧ w.job.priority = .speculative ∨
    v.job.priority = w.job.priority ∧ v.arrival < w.arrival

theorem Waiting.precedes_of_before {v w : Waiting} (h : v.ticket.before w.ticket = true) (hne : v.arrival ≠ w.arrival) :
    v.Precedes w := by
  have hrank := Ticket.before_iff.mp h
  unfold Waiting.Precedes
  cases hv : v.job.priority <;> cases hw : w.job.priority <;>
    simp only [ticket, hv, hw, Priority.rank] at hrank
  · exact Or.inr ⟨rfl, by omega⟩
  · omega
  · exact Or.inl ⟨rfl, rfl⟩
  · exact Or.inr ⟨rfl, by omega⟩

namespace FetchQueue

/-- What holds of a queue at all times: besides that what it keeps twice agrees, its tickets and arrival numbers are
    in order, and it keeps to its bounds. -/
structure Orderly (q : FetchQueue) : Prop extends q.Sound where
  order : q.order.Pairwise fun a b => a.before b = true
  /-- The waiting jobs are listed as they arrived, and no arrival number is given twice. -/
  arrivals : q.waiting.Pairwise fun v w => v.arrival < w.arrival
  arrived : ∀ w ∈ q.waiting, w.arrival < q.nextArrival
  /-- The numbers of running jobs of the objects add up to the number of running jobs. -/
  total : (q.inFlightOf.map (·.2)).sum = q.inFlight
  inFlight_le : q.inFlight ≤ q.config.maxFetches
  runningOf_le : ∀ key, q.runningOf key ≤ q.config.maxFetchesPerObject
  waiting_le : q.waiting.length ≤ q.config.maxQueued

section Counts
variable {key : String} {l : List (String × Nat)}

theorem sum_countUp (key : String) (l : List (String × Nat)) :
    ((countUp key l).map (·.2)).sum = (l.map (·.2)).sum + 1 := by
  induction l with
  | nil => rfl
  | cons e r ih =>
    obtain ⟨k, n⟩ := e
    unfold countUp
    split
    · simp only [List.map_cons, List.sum_cons]
      omega
    · simp only [List.map_cons, List.sum_cons, ih]
      omega

theorem sum_countDown (h : 0 < (l.lookup key).getD 0) :
    ((countDown key l).map (·.2)).sum + 1 = (l.map (·.2)).sum := by
  induction l with
  | nil => simp at h
  | cons e r ih =>
    obtain ⟨k, n⟩ := e
    unfold countDown
    by_cases hk : k = key
    · subst hk
      simp only [List.lookup_cons_self, Option.getD_some] at h
      rw [if_pos rfl]
      split
      · simp only [List.map_cons, List.sum_cons]
        omega
      · simp only [List.map_cons, List.sum_cons]
        omega
    · have hne : (key == k) = false := by simpa using fun h => hk h.symm
      simp only [List.lookup_cons, hne] at h
      rw [if_neg hk]
      simp only [List.map_cons, List.sum_cons]
      have := ih h
      omega

end Counts

/-! ### Changes keep the queue orderly -/

section Changes
variable {q : FetchQueue} {j : Job}

theorem room_of_next? {t : Ticket} (ht : q.next? = some t) : q.inFlight < q.config.maxFetches := by
  unfold next? at ht
  split at ht
  · assumption
  · cases ht

theorem find?_of_next? {t : Ticket} (ht : q.next? = some t) : q.order.find? q.mayRun = some t := by
  have hroom := room_of_next? ht
  unfold next? at ht
  rwa [if_pos hroom] at ht

theorem mayRun_of_next? {t : Ticket} (ht : q.next? = some t) : q.mayRun t = true :=
  List.find?_some (find?_of_next? ht)

theorem orderly_new (config : QueueConfig) : ({ config } : FetchQueue).Orderly where
  tickets := .nil
  ids := .nil
  count := rfl
  keys := .nil
  counts _ := rfl
  order := .nil
  arrivals := .nil
  arrived := nofun
  total := rfl
  inFlight_le := Nat.zero_le _
  runningOf_le _ := Nat.zero_le _
  waiting_le := Nat.zero_le _

namespace Orderly

theorem eq_of_arrival (h : q.Orderly) {v w : Waiting} (hv : v ∈ q.waiting) (hw : w ∈ q.waiting)
    (ha : v.arrival = w.arrival) : v = w := by
  have hnodup : (q.waiting.map (·.arrival)).Nodup := List.pairwise_map.mpr (h.arrivals.imp Nat.ne_of_lt)
  exact List.inj_on_of_nodup_map hnodup hv hw ha

theorem takeId (h : q.Orderly) : q.takeId.1.Orderly :=
  { h with tickets := h.tickets, ids := h.ids, counts := h.counts, runningOf_le := h.runningOf_le }

theorem reject (h : q.Orderly) : ({ q with rejected := q.rejected + 1 } : FetchQueue).Orderly :=
  { h with tickets := h.tickets, ids := h.ids, counts := h.counts, runningOf_le := h.runningOf_le }

theorem enqueue (h : q.Orderly) (hj : j.id ∉ q.jobs.map (·.id)) (hfull : q.isFull = false) :
    (q.enqueue j).Orderly where
  toSound := h.toSound.enqueue hj
  order := by
    refine Ticket.pairwise_insert h.order fun a ha => ?_
    obtain ⟨w, hw, rfl⟩ := List.mem_map.mp (h.tickets.mem_iff.mp ha)
    exact Nat.ne_of_gt (h.arrived w hw)
  arrivals := List.pairwise_append.mpr ⟨h.arrivals, List.pairwise_singleton _ _, fun v hv w hw => by
    rw [List.mem_singleton.mp hw]
    exact h.arrived v hv⟩
  arrived w hw := by
    rcases List.mem_append.mp hw with hw | hw
    · exact Nat.lt_succ_of_lt (h.arrived w hw)
    · rw [List.mem_singleton.mp hw]
      exact Nat.lt_succ_self _
  total := h.total
  inFlight_le := h.inFlight_le
  runningOf_le := h.runningOf_le
  waiting_le := by
    have hroom : q.waiting.length < q.config.maxQueued := by simpa [isFull] using hfull
    simp only [FetchQueue.enqueue, List.length_append, List.length_singleton]
    omega

/-- A job starts only where both bounds leave room for it. -/
theorem start (h : q.Orderly) {t : Ticket} (ht : q.next? = some t) {w : Waiting} (hw : q.waiting? t.job = some w) :
    (q.start t w.job).Orderly where
  toSound := h.toSound.start (mem_of_next? ht) hw
  order := h.order.sublist List.erase_sublist
  arrivals := h.arrivals.sublist List.filter_sublist
  arrived v hv := h.arrived v (List.mem_filter.mp hv).1
  total := (sum_countUp _ _).trans (congrArg (· + 1) h.total)
  inFlight_le := room_of_next? ht
  runningOf_le key := by
    have hle := h.runningOf_le key
    have hmay := mayRun_of_next? ht
    simp only [mayRun, hw, Option.any_some, decide_eq_true_eq] at hmay
    simp only [FetchQueue.start, runningOf, lookup_countUp] at hle hmay ⊢
    split
    · rename_i hk
      exact hk ▸ hmay
    · exact hle
  waiting_le := Nat.le_trans (List.length_filter_le _ _) h.waiting_le

theorem pump (h : q.Orderly) : q.pump.1.Orderly := by
  fun_induction FetchQueue.pump q with
  | case1 q hn => exact h
  | case2 q t ht hw => exact h
  | case3 q t ht w hw q' l hp ih =>
    rw [hp] at ih
    exact ih (h.start ht hw)

/-- A running job is counted, and so counting it down takes one from each count. -/
theorem exact_finish (h : q.Sound) (hj : j ∈ q.running) (n : Nat) (failed : Bool) :
    (q.finish j n failed).inFlight + 1 = q.inFlight ∧
      (q.finish j n failed).runningOf j.key + 1 = q.runningOf j.key := by
  have hrun := perm_running_finish h hj n failed
  have hfinish := h.finish hj n failed
  constructor
  · rw [hfinish.count, h.count, hrun.length_eq, List.length_cons]
  · rw [hfinish.counts, h.counts, hrun.countP_eq, List.countP_cons_of_pos (by simp)]

theorem finish (h : q.Orderly) (hj : j ∈ q.running) (n : Nat) (failed : Bool) : (q.finish j n failed).Orderly where
  toSound := h.toSound.finish hj n failed
  order := h.order
  arrivals := h.arrivals
  arrived := h.arrived
  total := by
    obtain ⟨hin, hof⟩ := exact_finish h.toSound hj n failed
    have hpos : 0 < q.runningOf j.key := by omega
    have hsum := sum_countDown hpos
    have htotal := h.total
    simp only [FetchQueue.finish] at hin ⊢
    omega
  inFlight_le := Nat.le_trans (Nat.sub_le _ _) h.inFlight_le
  runningOf_le key := by
    have hle := h.runningOf_le key
    have hdown : ((countDown j.key q.inFlightOf).lookup key).getD 0 =
        (q.inFlightOf.lookup key).getD 0 - if key = j.key then 1 else 0 := lookup_countDown h.keys
    simp only [FetchQueue.finish, runningOf] at hle ⊢
    omega
  waiting_le := h.waiting_le

/-- A job that is promoted keeps its arrival number, and nobody else has it. -/
theorem promote (h : q.Orderly) (job : Nat) : (q.promote job).Orderly := by
  have hsound := h.toSound.promote job
  have hwaiting := waiting_promote h.toSound job
  have harrival : ∀ x : Waiting, (if x.job.id = job then x.promoted else x).arrival = x.arrival := fun x => by
    split <;> rfl
  rcases q.promote_cases job with ⟨he, -⟩ | ⟨w, hw, he⟩
  · exact he.symm ▸ h
  · have hm := (mem_of_waiting?_eq_some hw).1
    rw [he] at hsound hwaiting ⊢
    dsimp only at hwaiting
    refine ⟨hsound, ?_, ?_, fun x hx => ?_, h.total, h.inFlight_le, h.runningOf_le, ?_⟩
    · refine Ticket.pairwise_insert (h.order.sublist List.erase_sublist) fun a ha hwa => ?_
      have hnodup : q.order.Nodup := h.order.imp Ticket.ne_of_before
      obtain ⟨hne, ha⟩ := hnodup.mem_erase_iff.mp ha
      obtain ⟨v, hv, rfl⟩ := List.mem_map.mp (h.tickets.mem_iff.mp ha)
      exact hne (congrArg Waiting.ticket (h.eq_of_arrival hv hm hwa.symm))
    · dsimp only
      rw [hwaiting]
      refine List.pairwise_map.mpr (h.arrivals.imp fun {v x} hvx => ?_)
      rwa [harrival, harrival]
    · dsimp only at hx
      rw [hwaiting] at hx
      obtain ⟨v, hv, rfl⟩ := List.mem_map.mp hx
      rw [harrival]
      exact h.arrived v hv
    · simpa using h.waiting_le

theorem cancel (h : q.Orderly) (owner : Nat) : (q.cancel owner).1.Orderly where
  toSound := h.toSound.cancel owner
  order := h.order.sublist List.filter_sublist
  arrivals := h.arrivals.sublist List.filter_sublist
  arrived w hw := h.arrived w (List.mem_filter.mp hw).1
  total := h.total
  inFlight_le := h.inFlight_le
  runningOf_le := h.runningOf_le
  waiting_le := Nat.le_trans (List.length_filter_le _ _) h.waiting_le

/-! ### Whose turn it is -/

/-- The job that starts next is, of the waiting jobs whose objects leave room for them, the first one. -/
theorem precedes_of_next? (h : q.Orderly) {t : Ticket} (ht : q.next? = some t) {v w : Waiting}
    (hv : q.waiting? t.job = some v) (hw : w ∈ q.waiting)
    (hroom : q.runningOf w.job.key < q.config.maxFetchesPerObject) : w = v ∨ v.Precedes w := by
  have hvt : v.ticket = t := ticket_eq h.toSound (mem_of_next? ht) hv
  have hvm := (mem_of_waiting?_eq_some hv).1
  by_cases ha : w.arrival = v.arrival
  · exact Or.inl (h.eq_of_arrival hw hvm ha)
  refine Or.inr (Waiting.precedes_of_before ?_ fun he => ha he.symm)
  have hmay : q.mayRun w.ticket = true := by
    have hfind : q.waiting? w.ticket.job = some w := waiting?_eq_some h.toSound hw
    simpa [mayRun, hfind] using hroom
  rw [hvt]
  -- The tickets before `t` are of jobs that may not run, so that of `w` comes after it.
  obtain ⟨-, l, r, hl, hnot⟩ := List.find?_eq_some_iff_append.mp (find?_of_next? ht)
  have hmem : w.ticket ∈ q.order := h.tickets.mem_iff.mpr (List.mem_map_of_mem hw)
  have hsorted := h.order
  rw [hl] at hmem hsorted
  rcases List.mem_append.mp hmem with hin | hin
  · have := hnot _ hin
    rw [hmay] at this
    cases this
  · rcases List.mem_cons.mp hin with heq | hin
    · exact absurd (congrArg Ticket.arrival (heq.trans hvt.symm)) ha
    · exact (List.pairwise_cons.mp (List.pairwise_append.mp hsorted).2.1).1 _ hin

end Orderly

end Changes

end FetchQueue

end RangeCache
