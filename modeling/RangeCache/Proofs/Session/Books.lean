import RangeCache.Proofs.Cache.Books
import RangeCache.Proofs.Session.Calm
import RangeCache.Proofs.Session.Doings

/-!
# The books of a session

An event of a session either ends no job, and then all that becomes of jobs is what requests do with them, or it does
nothing but end one job. So books can be kept of a session, whatever happens to it, and they agree with its counts
after every event (`books_balance`).
-/

namespace RangeCache.Session

variable {C : Contents} {s : Session} {e : Event} {b : Books}

/-- The jobs that events end, and how. -/
def endings (s : Session) : List Event → List (Job × Except Fault Bytes)
  | [] => []
  | e :: l => (s.ending? e).toList ++ (s.step e).endings l

/-! ### Events -/

theorem cache_endJob (s : Session) (t : Nat) (j : Job) (n : Nat) (r : Except Fault Bytes) :
    (s.endJob t j n r).cache = (s.cache.finish j n r).takeNotices.1 :=
  cache_onCache s fun c => (c.finish j n r, ())

/-- An event that ends a job does nothing else to the cache. -/
theorem Sound.cache_step_of_ending? (h : s.Sound C none) {j : Job} {r : Except Fault Bytes}
    (he : s.ending? e = some (j, r)) :
    j ∈ s.cache.queue.running ∧ ∃ n, (s.step e).cache = (s.cache.finish j n r).takeNotices.1 := by
  obtain ⟨t, n, reply, draw, runnable, ht, hstep, -⟩ := step_of_ending? he
  refine ⟨h.mem_running ht rfl, n, ?_⟩
  rw [hstep, cache_endJob]

/-- Whatever happens is written down. -/
theorem Shapely.booked_step (h : s.Shapely) (hb : Booked ⟨s.cache, []⟩ b) (e : Event) :
    ∃ b' : Books, b.Kept b' ∧ b'.finished = b.finished ++ (s.ending? e).toList ∧ Booked ⟨(s.step e).cache, []⟩ b' := by
  cases hends : s.ending? e with
  | none =>
    have hworks : Works (fun _ => True) (fun _ => False) (fun _ _ => False) s (s.step e) :=
      h.sound.works_step (fun _ _ _ => trivial) h.goals (fun _ _ => ⟨trivial, id⟩) fun _ _ hx => by
        rw [hends] at hx
        cases hx
    rw [Option.toList_none, List.append_nil]
    exact hb.leads hworks.cache
  | some x =>
    obtain ⟨hrunning, n, hcache⟩ := h.sound.cache_step_of_ending? hends
    obtain ⟨b', hkept, hfinished, hbooked⟩ := hb.finish hrunning n x.2
    exact ⟨b', hkept, hfinished, hcache ▸ hbooked.tend rfl rfl (Nat.le_refl _)⟩

/-! ### Runs -/

/-- Books can be kept along a run, so that after each event they are right and list the jobs that ended until then. -/
theorem Shapely.exists_books (h : s.Shapely) (hb : Booked ⟨s.cache, []⟩ b) (l : List Event) :
    ∃ books : Nat → Books, books 0 = b ∧ (∀ n, (books n).Kept (books (n + 1))) ∧ ∀ n,
      (books n).finished = b.finished ++ s.endings (l.take n) ∧ Booked ⟨(s.runEvents (l.take n)).cache, []⟩ (books n) := by
  induction l generalizing s b with
  | nil =>
    refine ⟨fun _ => b, rfl, fun _ => .refl b, fun n => ?_⟩
    rw [List.take_nil]
    exact ⟨(List.append_nil _).symm, hb⟩
  | cons e l ih =>
    obtain ⟨b₁, hkept, hfinished, hbooked⟩ := h.booked_step hb e
    obtain ⟨books, hfirst, hkeep, hbooks⟩ := ih (h.step e) hbooked
    refine ⟨fun n => Nat.casesOn n b books, rfl, fun n => ?_, fun n => ?_⟩
    · cases n with
      | zero =>
        show b.Kept (books 0)
        rwa [hfirst]
      | succ n => exact hkeep n
    · cases n with
      | zero => exact ⟨(List.append_nil _).symm, hb⟩
      | succ n =>
        obtain ⟨hfin, hright⟩ := hbooks n
        refine ⟨?_, hright⟩
        rw [hfin, hfinished, List.append_assoc]
        rfl

/-- Books that list the jobs `ends` as ended agree with the queue of a session, and with its counts. -/
structure Balances (s : Session) (ends : List (Job × Except Fault Bytes)) (b : Books) : Prop where
  finished : b.finished = ends
  /-- Apart from its priority, each job that was accepted either still waits, or was started, or was dropped. -/
  accepted : (b.accepted.map Job.bare).Perm
    ((s.cache.queue.waiting.map (·.job) ++ b.started ++ b.dropped).map Job.bare)
  /-- Each job that was started either still runs or ended. -/
  started : b.started.Perm (s.cache.queue.running ++ b.finished.map (·.1))
  /-- No job was accepted or refused twice, and none that was refused was accepted. -/
  ids : ((b.accepted ++ b.refused).map (·.id)).Nodup
  acceptedCount : b.accepted.length = s.cache.fetches
  startedCount : b.started.length = s.cache.queue.dispatched
  droppedCount : b.dropped.length = s.cache.queue.cancelled
  refusedCount : b.refused.length = s.cache.queue.rejected
  total : s.cache.queue.dispatched + s.cache.queue.cancelled + s.cache.queue.waiting.length = s.cache.fetches
  dispatched : s.cache.queue.dispatched = s.cache.queue.inFlight + ends.length
  failed : s.cache.queue.failed = ends.countP fun e => Cache.isFailure e.2
  failed_le : s.cache.queue.failed ≤ ends.length

theorem balances_of_booked {ends : List (Job × Except Fault Bytes)} (h : Booked ⟨s.cache, []⟩ b)
    (hends : b.finished = ends) : s.Balances ends b where
  finished := hends
  accepted := h.accepted_perm
  started := h.started
  ids := by simpa using h.ids
  acceptedCount := h.fetches
  startedCount := h.dispatched
  droppedCount := h.cancelled
  refusedCount := h.rejected
  total := h.length_accepted
  dispatched := hends ▸ h.length_started
  failed := hends ▸ h.failed.symm
  failed_le := hends ▸ h.failed.symm.trans_le List.countP_le_length

/-- Books can be kept along every run of a session in which nothing is ever struck out, and which agree after each event
    with the session and its counts. So an accepted job is started once or dropped once, or it waits, and one that was
    started ends once, or it runs. -/
theorem books_balance (config : Config) (l : List Event) :
    ∃ books : Nat → Books, books 0 = {} ∧ (∀ n, (books n).Kept (books (n + 1))) ∧
      ∀ n, ((fresh config).runEvents (l.take n)).Balances ((fresh config).endings (l.take n)) (books n) := by
  obtain ⟨books, hfirst, hkept, hbooks⟩ := (shapely_fresh config).exists_books (.new config.queue) l
  exact ⟨books, hfirst, hkept, fun n => balances_of_booked (hbooks n).2 (hbooks n).1⟩

/-- One job may run and one may wait. Of three that are asked for, the third one is refused; the second one is dropped;
    the first one fails for want of the object. -/
example :
    let config : Config :=
      { store := { blockSize := 50 }, queue := { maxFetches := 1, maxQueued := 1 }, registry := { prefetchSmall := false } }
    let l : List Event := [.openSized "a" 200, .ensure 0 [⟨0, 10⟩] .grid .speculative none,
      .ensure 0 [⟨50, 60⟩, ⟨150, 160⟩] .grid .speculative (some 1), .cancel 1, .run 0,
      .answer 0 (.failed (.notFound "a")) 0, .run 0]
    let q := ((fresh config).runEvents l).cache.queue
    (q.dispatched, q.cancelled, q.waiting.length, q.rejected, q.inFlight, q.failed) = (1, 1, 0, 1, 0, 1) ∧
      ((fresh config).runEvents l).cache.fetches = 2 ∧ ((fresh config).endings l).length = 1 := by
  decide +kernel

end RangeCache.Session
