import RangeCache.Proofs.Fetch.Accounts

/-!
# What is left of a plan

The jobs that were planned for a stream and still wait at speculative priority are what is left of its plan
(`FetchQueue.left`). Cancelling drops these and no others, each other one keeping its ticket (`cancel_eq`). Starting and
promoting jobs only take from them, and a job that comes in adds to them only if it was itself planned for the stream.
-/

namespace RangeCache

/-- Whether a job was planned for a stream and is, for all that is known, not needed yet. -/
def Job.isLeftOf (j : Job) (owner : Nat) : Bool := j.priority == .speculative && j.owner == some owner

theorem Job.isLeftOf_iff {j : Job} {owner : Nat} :
    j.isLeftOf owner = true ↔ j.priority = .speculative ∧ j.owner = some owner := by
  simp [isLeftOf]

theorem Job.not_isLeftOf_of_immediate {j : Job} (h : j.priority = .immediate) (owner : Nat) :
    j.isLeftOf owner = false := by
  simp [isLeftOf, h]

namespace FetchQueue

/-- What is left of the plan of a stream. -/
def left (q : FetchQueue) (owner : Nat) : List Job := (q.waiting.map (·.job)).filter (·.isLeftOf owner)

variable {q : FetchQueue} {owner : Nat}

theorem mem_left {j : Job} : j ∈ q.left owner ↔ (∃ w ∈ q.waiting, w.job = j) ∧ j.isLeftOf owner = true := by
  simp [left]

/-- The ticket of a waiting job tells whether it is left of the plan of a stream. -/
theorem isSpeculativeOf_ticket (h : q.Sound) {w : Waiting} (hw : w ∈ q.waiting) (owner : Nat) :
    q.isSpeculativeOf owner w.ticket = w.job.isLeftOf owner := by
  have hfind : q.waiting? w.ticket.job = some w := waiting?_eq_some h hw
  simp only [isSpeculativeOf, hfind, Option.any_some, Job.isLeftOf]
  cases hp : w.job.priority <;> simp [Waiting.ticket, hp, Priority.rank]

theorem perm_cancel (h : q.Sound) (owner : Nat) : (q.cancel owner).2.Perm (q.left owner) := by
  refine (cancel_jobs_perm h owner).trans (List.Perm.of_eq ?_)
  unfold left
  rw [List.filter_map]
  refine congrArg (List.map _) (List.filter_congr fun w hw => ?_)
  exact isSpeculativeOf_ticket h hw owner

/-- Cancelling drops what is left of the plan of a stream, and nothing else. -/
theorem cancel_eq (h : q.Sound) (owner : Nat) : (q.cancel owner).1 = { q with
    order := q.order.filter fun t => decide (t.job ∉ (q.left owner).map (·.id))
    waiting := q.waiting.filter fun w => !w.job.isLeftOf owner
    cancelled := q.cancelled + (q.left owner).length } := by
  have hwaiting : (q.cancel owner).1.waiting = q.waiting.filter fun w => !w.job.isLeftOf owner := by
    rw [cancel_waiting h]
    exact List.filter_congr fun w hw => by rw [isSpeculativeOf_ticket h hw]
  have horder : (q.cancel owner).1.order =
      q.order.filter fun t => decide (t.job ∉ (q.left owner).map (·.id)) := by
    refine List.filter_congr fun t ht => ?_
    obtain ⟨w, hw, rfl⟩ := List.mem_map.mp (h.tickets.mem_iff.mp ht)
    -- The ticket has the number of a job that is left only if its own job is.
    have hid : w.ticket.job ∈ (q.left owner).map (·.id) ↔ w.job.isLeftOf owner = true := by
      constructor
      · intro hmem
        obtain ⟨j, hj, hid⟩ := List.mem_map.mp hmem
        obtain ⟨⟨v, hv, rfl⟩, hleft⟩ := mem_left.mp hj
        exact eq_of_waiting h hv hw hid ▸ hleft
      · intro hleft
        exact List.mem_map.mpr ⟨w.job, mem_left.mpr ⟨⟨w, hw, rfl⟩, hleft⟩, rfl⟩
    rw [isSpeculativeOf_ticket h hw]
    cases hleft : w.job.isLeftOf owner <;> simp [hid, hleft]
  have hcount : (q.cancel owner).1.cancelled = q.cancelled + (q.left owner).length := by
    rw [← (perm_cancel h owner).length_eq]
    rfl
  rw [← hwaiting, ← horder, ← hcount]
  rfl

theorem left_cancel (h : q.Sound) (owner : Nat) : (q.cancel owner).1.left owner = [] := by
  rw [cancel_eq h]
  simp [left, List.filter_map, List.filter_filter, Function.comp_def]

/-! ### Other changes -/

theorem mem_waiting_start {t : Ticket} {j : Job} {w : Waiting} (h : w ∈ (q.start t j).waiting) : w ∈ q.waiting :=
  (List.mem_filter.mp h).1

theorem mem_waiting_pump {w : Waiting} (h : w ∈ q.pump.1.waiting) : w ∈ q.waiting := by
  fun_induction pump q with
  | case1 q hn => exact h
  | case2 q t ht hw => exact h
  | case3 q t ht v hv q' l hp ih =>
    rw [hp] at ih
    exact mem_waiting_start (ih h)

/-- A job that is promoted is left of no plan. -/
theorem mem_waiting_promote {job : Nat} {w : Waiting} (h : w ∈ (q.promote job).waiting)
    (hleft : w.job.isLeftOf owner = true) : w ∈ q.waiting := by
  rcases q.promote_cases job with ⟨he, -⟩ | ⟨v, -, he⟩
  · exact he ▸ h
  · rw [he] at h
    obtain ⟨x, hx, rfl⟩ := List.mem_map.mp h
    split at hleft
    · rw [Job.not_isLeftOf_of_immediate (by rfl)] at hleft
      cases hleft
    · rename_i hne
      rwa [if_neg hne]

end FetchQueue

end RangeCache
