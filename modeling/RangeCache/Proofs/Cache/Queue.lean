import RangeCache.Proofs.Cache.Actions
import RangeCache.Proofs.Cache.Reports
import RangeCache.Proofs.Fetch.Turns

/-!
# The fetch queue of a cache

Each move of a cache asks at most one thing of its queue, and tells of each job that starts. Whatever is done to a
cache, its queue is then what some requests make of an empty one, and its notices tell of the jobs that these
requests start, in this order (`Cache.exists_serve`). So all that holds of the queue after any requests holds of the
queue of a cache.
-/

namespace RangeCache

open Relation

section Moves
variable {C : Contents} {A : Job → Except Fault Bytes → Prop} {w w' : Work}

theorem filterMap_job?_settled (i : Nat) (ids : List Nat) :
    (ids.map (Notice.settled i)).filterMap Notice.job? = [] := by
  rw [List.filterMap_map]
  exact List.filterMap_eq_nil_iff.mpr fun _ _ => rfl

theorem filterMap_job?_started (l : List FetchQueue.Start) :
    ((l.map (·.job.job)).map Notice.started).filterMap Notice.job? = l.map (·.job.job) := by
  rw [List.filterMap_map]
  exact List.filterMap_some

/-- What a move does to the queue is a response of it, and the notices tell of the starts. -/
theorem Move.response (h : Move A w w') (hw : w.Sound C) :
    ∃ log, w.cache.queue.Response w'.cache.queue log ∧
      w'.cache.notices.filterMap Notice.job? = w.cache.notices.filterMap Notice.job? ++ log.map (·.job.job) := by
  cases h with
  | edit hs he => exact ⟨[], .nothing, (List.append_nil _).symm⟩
  | claim priority owner hs hrun hin => exact ⟨[], .takeId, (List.append_nil _).symm⟩
  | giveBack j =>
    refine ⟨[], .nothing, ?_⟩
    rw [show Cache.notices _ = _ ++ j.blocks.map (Notice.settled j.store) from rfl, List.filterMap_append,
      filterMap_job?_settled]
    rfl
  | reject j hfull => exact ⟨[], .reject j hw.id_not_mem hfull, (List.append_nil _).symm⟩
  | @enqueue c L j hroom =>
    refine ⟨_, .enqueue j hw.id_not_mem hroom, ?_⟩
    rw [show Cache.notices _ = c.notices ++ (c.queue.enqueue j).pump.2.map Notice.started from rfl,
      FetchQueue.pump_snd, List.filterMap_append, filterMap_job?_started]
  | promote job => exact ⟨[], .promote job, (List.append_nil _).symm⟩
  | withdraw owner => exact ⟨[], .cancel owner, (List.append_nil _).symm⟩
  | @settle c L j result attempts hj ha =>
    refine ⟨_, .finish j attempts (Cache.isFailure result) hj, ?_⟩
    rw [show Cache.notices _ = (c.notices ++ j.blocks.map (Notice.settled j.store)) ++
        (c.queue.finish j attempts (Cache.isFailure result)).pump.2.map Notice.started from rfl,
      FetchQueue.pump_snd, List.filterMap_append, List.filterMap_append, filterMap_job?_settled,
      filterMap_job?_started, List.append_nil]

theorem Moves.exists_serve (h : Moves C.admits w w') (hw : w.Sound C) :
    ∃ l, w'.cache.queue = (w.cache.queue.serve l).1 ∧ w'.cache.notices.filterMap Notice.job? =
      w.cache.notices.filterMap Notice.job? ++ (w.cache.queue.serve l).2.map (·.job.job) := by
  induction h with
  | refl => exact ⟨[], rfl, (List.append_nil _).symm⟩
  | tail hms hm ih =>
    obtain ⟨l, hq, hn⟩ := ih
    obtain ⟨log, hresponse, hn'⟩ := hm.response (Moves.sound hms hw)
    obtain ⟨l', hl'⟩ := hresponse.exists_serve
    refine ⟨l ++ l', ?_, ?_⟩
    · rw [FetchQueue.serve_append, ← hq, hl']
    · rw [FetchQueue.serve_append, ← hq, hl', hn', hn, List.map_append, List.append_assoc]

end Moves

namespace Cache

theorem exists_serve_act {c : Cache} (hc : Work.Sound .any ⟨c, []⟩) (a : Action) :
    ∃ l, (c.act a).queue = (c.queue.serve l).1 ∧ (c.act a).notices.filterMap Notice.job? =
      c.notices.filterMap Notice.job? ++ (c.queue.serve l).2.map (·.job.job) := by
  rcases moves_act hc.stores a with ⟨handle, config, he⟩ | hm
  · exact ⟨[], by rw [he]; rfl, by rw [he]; exact (List.append_nil _).symm⟩
  · exact (Moves.mono (fun _ _ _ _ _ => trivial) hm).exists_serve hc

theorem exists_serve_acts {c : Cache} (hc : Work.Sound .any ⟨c, []⟩) (l : List Action) :
    ∃ l', (c.acts l).queue = (c.queue.serve l').1 ∧ (c.acts l).notices.filterMap Notice.job? =
      c.notices.filterMap Notice.job? ++ (c.queue.serve l').2.map (·.job.job) := by
  induction l generalizing c with
  | nil => exact ⟨[], rfl, (List.append_nil _).symm⟩
  | cons a l ih =>
    obtain ⟨m, hq, hn⟩ := exists_serve_act hc a
    obtain ⟨m', hq', hn'⟩ := ih (sound_act hc a)
    refine ⟨m ++ m', ?_, ?_⟩
    · rw [FetchQueue.serve_append, ← hq]
      exact hq'
    · rw [FetchQueue.serve_append, List.map_append, ← List.append_assoc, ← hn, ← hq]
      exact hn'

/-- The queue of a cache is at all times what some requests make of an empty one, and the notices of the cache tell of
    the jobs that these start. -/
theorem exists_serve (config : QueueConfig) (l : List Action) :
    ∃ l', ((new config).acts l).queue = (FetchQueue.serve { config } l').1 ∧
      ((new config).acts l).notices.filterMap Notice.job? = (FetchQueue.serve { config } l').2.map (·.job.job) :=
  exists_serve_acts (.new .any config) l

/-- Whatever is done to a cache, its queue keeps to its configuration, stays orderly, and leaves no room unused. -/
theorem orderly_busy_acts (config : QueueConfig) (l : List Action) :
    ((new config).acts l).queue.config = config ∧ ((new config).acts l).queue.Orderly ∧
      ((new config).acts l).queue.Busy := by
  obtain ⟨l', hq, -⟩ := exists_serve config l
  rw [hq]
  exact ⟨FetchQueue.config_serve _ l', (FetchQueue.orderly_new config).serve l', FetchQueue.busy_serve config l'⟩

end Cache

end RangeCache
