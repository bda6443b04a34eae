import RangeCache.Proofs.Fetch.Order

/-!
# Requests to the fetch queue

What can be asked of the queue, in any order: a number for a job, a place for a job, that a waiting job be promoted,
that the waiting speculative jobs of a stream be dropped, and that a running job end (`Request`). Jobs start when
one was handed in and when one ended; each start is logged with the queue at that moment (`starts`). After any
requests the queue is orderly, and the end of a job that runs takes exactly one from each of its two counts
(`accounts_serve`).
-/

namespace RangeCache

namespace FetchQueue

/-- The start of a job that waited, and the queue at that moment. -/
structure Start where
  queue : FetchQueue
  job : Waiting
  deriving Repr, Inhabited

/-- The starts of `pump`, in their order. -/
def starts (q : FetchQueue) : List Start :=
  match _h : q.next? with
  | none => []
  | some t =>
    match q.waiting? t.job with
    | none => []
    | some w => ⟨q, w⟩ :: starts (q.start t w.job)
termination_by q.order.length
decreasing_by exact length_order_start ‹q.next? = some t› w.job

theorem starts_of_none {q : FetchQueue} (hn : q.next? = none) : q.starts = [] := by
  unfold starts
  split
  · rfl
  · rename_i ht
    rw [hn] at ht
    cases ht

theorem starts_of_some {q : FetchQueue} {t : Ticket} {w : Waiting} (ht : q.next? = some t)
    (hw : q.waiting? t.job = some w) : q.starts = ⟨q, w⟩ :: (q.start t w.job).starts := by
  rw [starts]
  split
  · rename_i hn
    rw [ht] at hn
    cases hn
  · rename_i t' ht'
    rw [ht] at ht'
    cases ht'
    rw [hw]

theorem pump_snd (q : FetchQueue) : q.pump.2 = q.starts.map (·.job.job) := by
  fun_induction pump q with
  | case1 q hn => rw [starts_of_none hn, List.map_nil]
  | case2 q t ht hw =>
    obtain ⟨w, hw'⟩ := waiting?_of_next? ht
    rw [hw] at hw'
    cases hw'
  | case3 q t ht w hw q' l hp ih =>
    rw [hp] at ih
    rw [starts_of_some ht hw, List.map_cons]
    exact congrArg (w.job :: ·) ih

/-- What can be asked of the queue. -/
inductive Request where
  | takeId
  /-- A job is handed in. Its number must not be that of a job that waits or runs. -/
  | submit (j : Job)
  | promote (job : Nat)
  | cancel (owner : Nat)
  /-- A job ends. Only a running job can. -/
  | finish (j : Job) (attempts : Nat) (failed : Bool)
  deriving Repr, Inhabited

/-- What the queue does when it is asked, and the jobs that it starts. -/
def handle (q : FetchQueue) : Request → FetchQueue × List Start
  | .takeId => (q.takeId.1, [])
  | .submit j =>
    if j.id ∈ q.jobs.map (·.id) then (q, [])
    else if q.isFull then ({ q with rejected := q.rejected + 1 }, [])
    else ((q.enqueue j).pump.1, (q.enqueue j).starts)
  | .promote job => (q.promote job, [])
  | .cancel owner => ((q.cancel owner).1, [])
  | .finish j attempts failed =>
    if j ∈ q.running then ((q.finish j attempts failed).pump.1, (q.finish j attempts failed).starts) else (q, [])

/-- The queue after some requests, one after the other, and all jobs that it started. -/
def serve (q : FetchQueue) : List Request → FetchQueue × List Start
  | [] => (q, [])
  | r :: l => ((serve (q.handle r).1 l).1, (q.handle r).2 ++ (serve (q.handle r).1 l).2)

theorem serve_append (q : FetchQueue) (l l' : List Request) :
    q.serve (l ++ l') = (((q.serve l).1.serve l').1, (q.serve l).2 ++ ((q.serve l).1.serve l').2) := by
  induction l generalizing q with
  | nil => rfl
  | cons r l ih =>
    simp only [List.cons_append, serve, ih, List.append_assoc]

/-- All that a request may do: the queue after it, and the jobs that it starts. -/
inductive Response (q : FetchQueue) : FetchQueue → List Start → Prop where
  | nothing : Response q q []
  | takeId : Response q q.takeId.1 []
  | reject (j : Job) (hid : j.id ∉ q.jobs.map (·.id)) (hfull : q.isFull = true) :
      Response q { q with rejected := q.rejected + 1 } []
  | enqueue (j : Job) (hid : j.id ∉ q.jobs.map (·.id)) (hroom : q.isFull = false) :
      Response q (q.enqueue j).pump.1 (q.enqueue j).starts
  | promote (job : Nat) : Response q (q.promote job) []
  | cancel (owner : Nat) : Response q (q.cancel owner).1 []
  | finish (j : Job) (attempts : Nat) (failed : Bool) (hj : j ∈ q.running) :
      Response q (q.finish j attempts failed).pump.1 (q.finish j attempts failed).starts

theorem response_handle (q : FetchQueue) (r : Request) : q.Response (q.handle r).1 (q.handle r).2 := by
  unfold handle
  cases r with
  | takeId => exact .takeId
  | submit j =>
    dsimp only
    split
    · exact .nothing
    · rename_i hid
      split
      · rename_i hfull
        exact .reject j hid hfull
      · rename_i hfull
        exact .enqueue j hid (by simpa using hfull)
  | promote job => exact .promote job
  | cancel owner => exact .cancel owner
  | finish j attempts failed =>
    dsimp only
    split
    · rename_i hj
      exact .finish j attempts failed hj
    · exact .nothing

/-- Each response is that to a request, or to none. -/
theorem Response.exists_serve {q q' : FetchQueue} {log : List Start} (h : q.Response q' log) :
    ∃ l, q.serve l = (q', log) := by
  cases h with
  | nothing => exact ⟨[], rfl⟩
  | takeId => exact ⟨[.takeId], rfl⟩
  | reject j hid hfull => exact ⟨[.submit j], by simp [serve, handle, hid, hfull]⟩
  | enqueue j hid hroom => exact ⟨[.submit j], by simp [serve, handle, hid, hroom]⟩
  | promote job => exact ⟨[.promote job], rfl⟩
  | cancel owner => exact ⟨[.cancel owner], rfl⟩
  | finish j attempts failed hj => exact ⟨[.finish j attempts failed], by simp [serve, handle, hj]⟩

/-! ### The queue stays orderly -/

section Response
variable {q q' : FetchQueue} {log : List Start}

theorem Response.orderly (h : q.Response q' log) (hq : q.Orderly) : q'.Orderly := by
  cases h with
  | nothing => exact hq
  | takeId => exact hq.takeId
  | reject j hid hfull => exact hq.reject
  | enqueue j hid hroom => exact (hq.enqueue hid hroom).pump
  | promote job => exact hq.promote job
  | cancel owner => exact hq.cancel owner
  | finish j attempts failed hj => exact (hq.finish hj attempts failed).pump

theorem Response.config (h : q.Response q' log) : q'.config = q.config := by
  cases h with
  | nothing => rfl
  | takeId => rfl
  | reject j hid hfull => rfl
  | enqueue j hid hroom => exact config_pump (q.enqueue j)
  | promote job => exact config_promote q job
  | cancel owner => rfl
  | finish j attempts failed hj => exact config_pump (q.finish j attempts failed)

end Response

theorem Orderly.serve {q : FetchQueue} (h : q.Orderly) (l : List Request) : (q.serve l).1.Orderly := by
  induction l generalizing q with
  | nil => exact h
  | cons r l ih => exact ih ((q.response_handle r).orderly h)

theorem config_serve (q : FetchQueue) (l : List Request) : (q.serve l).1.config = q.config := by
  induction l generalizing q with
  | nil => rfl
  | cons r l ih => exact (ih _).trans (q.response_handle r).config

/-- After any requests the queue is orderly within the bounds of its configuration, and the end of a running job takes
    one from the number of running jobs and one from that of its object: neither was zero. -/
theorem accounts_serve (config : QueueConfig) (l : List Request) :
    let q := (serve { config } l).1
    q.config = config ∧ q.Orderly ∧ ∀ j ∈ q.running, ∀ attempts failed,
      (q.finish j attempts failed).inFlight + 1 = q.inFlight ∧
        (q.finish j attempts failed).runningOf j.key + 1 = q.runningOf j.key := by
  have horderly : (serve { config } l).1.Orderly := (orderly_new config).serve l
  exact ⟨config_serve _ l, horderly, fun j hj attempts failed =>
    Orderly.exact_finish horderly.toSound hj attempts failed⟩

end FetchQueue

end RangeCache
