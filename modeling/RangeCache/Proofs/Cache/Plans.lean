import RangeCache.Proofs.Cache.Deeds
import RangeCache.Proofs.Cache.Exact
import RangeCache.Proofs.Cache.Quiet
import RangeCache.Proofs.Fetch.Left

/-!
# Plans of streams

Cancelling withdraws what is left of the plan of a stream (`Cache.Withdraws`): exactly these jobs are gone, their blocks
are pending again, and every other job keeps its place and its blocks. Whatever else is done to a cache, short of asking
for something on behalf of the stream at speculative priority, leaves nothing new to its plan (`Leads.left_subset`).
-/

namespace RangeCache

open Relation

/-! ### Giving back the blocks of jobs -/

namespace Cache

variable {c d : Cache} {owner : Nat}

/-- All blocks that a job lists are in flight for it. -/
def OwnedBy (c : Cache) (j : Job) : Prop :=
  ∀ s, c.stores[j.store]? = some s → ∀ b ∈ s.blocks, b.id ∈ j.blocks → b.state = .inFlight j.id

theorem Accounted.ownedBy (h : c.Accounted) (hc : c.StoresSound) {j : Job} (hj : j ∈ c.queue.jobs) : c.OwnedBy j := by
  intro s hs b hb hid
  obtain ⟨t, ht, hall⟩ := h.listed j hj
  rw [hs] at ht
  cases ht
  obtain ⟨b', hb', hid', hstate⟩ := hall b.id hid
  rwa [(hc hs).eq_of_id_tracked hb hb' hid'.symm]

theorem queue_cancel (c : Cache) (owner : Nat) : (c.cancel owner).1.queue = (c.queue.cancel owner).1 :=
  queue_revertAll _

theorem left_cancel (h : c.queue.Sound) (owner : Nat) : (c.cancel owner).1.queue.left owner = [] := by
  rw [queue_cancel]
  exact FetchQueue.left_cancel h owner

/-- What holds after some deeds of the jobs that are left of the plan of a stream, and of those in hand. -/
structure Stems (P : Job → Prop) (owner : Nat) (c : Cache) (w : Work) : Prop where
  waiting : ∀ v ∈ w.cache.queue.waiting, v.job.isLeftOf owner = true →
    v ∈ c.queue.waiting ∨ c.queue.nextJob ≤ v.job.id ∧ P v.job
  hand : ∀ j ∈ w.hand, c.queue.nextJob ≤ j.id ∧ P j
  nextJob : c.queue.nextJob ≤ w.cache.queue.nextJob

theorem Stems.deed {P : Job → Prop} {w w' : Work} (h : Stems P owner c w) (hd : Deed P w w') : Stems P owner c w' := by
  cases hd with
  | tend hqueue => exact ⟨hqueue ▸ h.waiting, h.hand, hqueue ▸ h.nextJob⟩
  | make j hj hid =>
    refine ⟨h.waiting, fun k hk => ?_, Nat.le_succ_of_le h.nextJob⟩
    rcases List.mem_append.mp hk with hk | hk
    · exact h.hand k hk
    · rw [List.mem_singleton.mp hk, hid]
      exact ⟨h.nextJob, hj⟩
  | letGo j => exact ⟨h.waiting, fun k hk => h.hand k (List.mem_cons_of_mem _ hk), h.nextJob⟩
  | refuse j => exact ⟨h.waiting, fun k hk => h.hand k (List.mem_cons_of_mem _ hk), h.nextJob⟩
  | @accept c' L j hfull =>
    refine ⟨fun v hv hleft => ?_, fun k hk => h.hand k (List.mem_cons_of_mem _ hk), ?_⟩
    · rcases List.mem_append.mp (FetchQueue.mem_waiting_pump hv) with hv | hv
      · exact h.waiting v hv hleft
      · rw [List.mem_singleton.mp hv]
        exact Or.inr (h.hand j List.mem_cons_self)
    · exact h.nextJob.trans (FetchQueue.nextJob_pump (c'.queue.enqueue j)).ge
  | promote job =>
    exact ⟨fun v hv hleft => h.waiting v (FetchQueue.mem_waiting_promote hv hleft) hleft, h.hand,
      h.nextJob.trans (FetchQueue.nextJob_promote _ job).ge⟩
  | withdraw o => exact ⟨fun v hv => h.waiting v (List.mem_filter.mp hv).1, h.hand, h.nextJob⟩

/-- What is left of a plan after some deeds was left before, or is a new job with the property that they have in
    common. -/
theorem Deeds.stems {P : Job → Prop} {w : Work} (h : Deeds P ⟨c, []⟩ w) (owner : Nat) : Stems P owner c w := by
  induction h with
  | refl => exact ⟨fun _ hv _ => Or.inl hv, nofun, Nat.le_refl _⟩
  | tail _ hd ih => exact ih.deed hd

/-- Jobs that are not for the plan of a stream leave nothing new to it. -/
theorem Deeds.left_subset {P : Job → Prop} {L : List Job} (h : Deeds P ⟨c, []⟩ ⟨d, L⟩)
    (hP : ∀ j, P j → j.isLeftOf owner = false) : d.queue.left owner ⊆ c.queue.left owner := by
  intro j hj
  obtain ⟨⟨v, hv, rfl⟩, hleft⟩ := FetchQueue.mem_left.mp hj
  rcases (Deeds.stems h owner).waiting v hv hleft with hv | ⟨-, hp⟩
  · exact FetchQueue.mem_left.mpr ⟨⟨v, hv, rfl⟩, hleft⟩
  · rw [hP _ hp] at hleft
    cases hleft

/-- A job of a request fetches a byte that the request asks for. -/
theorem exists_mem_span_of_mem_claim (hc : c.StoresSound) {i : Nat} {spans : List Span} {fit : Fit}
    {priority : Priority} {o : Option Nat} {j : Job} (hj : j ∈ (c.claim i spans fit priority o).2.1) :
    ∃ t ∈ spans, ∃ n ∈ j.span, n ∈ t := by
  cases hs : c.stores[i]? with
  | none =>
    rw [claim_of_none hs] at hj
    cases hj
  | some s =>
    rw [claim_of_sound hc hs] at hj
    obtain ⟨id, run, hrun, rfl⟩ := mem_claimRuns hj
    have hsound := (Store.grown_fillAll (hc hs) fit spans).sound (hc hs)
    have hjoined := Store.joined_of_mem_runs (fun b hb => hsound.nonempty b (List.mem_filter.mp hb).1) hrun
    obtain ⟨b, hb⟩ := List.exists_mem_of_ne_nil run hjoined.nonempty
    obtain ⟨h1, h2, h3⟩ := hjoined.tile.mem_bounds (List.mem_map_of_mem hb)
    have hflat := List.mem_flatten.mpr ⟨run, hrun, hb⟩
    rw [Store.flatten_runs] at hflat
    obtain ⟨t, ht, hover⟩ := List.any_eq_true.mp (List.mem_filter.mp (List.mem_filter.mp hflat).1).2
    obtain ⟨hempty, u, hu, rfl⟩ := Store.mem_clampAll_iff.mp ht
    obtain ⟨n, hnb, hnt⟩ := (Span.overlaps_iff_of_mem (by simpa [Span.isEmpty] using h2) hempty).mp hover
    obtain ⟨h4, h5⟩ := Span.mem_def.mp hnb
    exact ⟨u, hu, n, Span.mem_def.mpr ⟨h1.trans h4, h5.trans_le h3⟩, (Span.mem_clamp.mp hnt).1⟩

/-! ### Runs of a cache -/

/-- The stream for which an action plans: it asks for something on its behalf at speculative priority. -/
def Action.planner? : Action → Option Nat
  | .ensure _ _ _ .speculative owner => owner
  | _ => none

/-- An action plans only for streams in `X`, and ends jobs only as `E` says. -/
structure Action.Heeds (X : Nat → Prop) (E : Job → Except Fault Bytes → Prop) (a : Action) : Prop where
  plans : ∀ i, a.planner? = some i → X i
  ends : ∀ j x, a.ends j x → E j x

theorem deeds_act {X : Nat → Prop} {a : Action} (h : a.Heeds X fun _ _ => False) :
    Deeds (fun j => ∀ i, j.isLeftOf i = true → X i) ⟨c, []⟩ ⟨c.act a, []⟩ := by
  have himmediate : ∀ j : Job, j.priority = .immediate → ∀ i, j.isLeftOf i = true → X i := fun j hj i hleft => by
    rw [Job.not_isLeftOf_of_immediate hj] at hleft
    cases hleft
  cases a with
  | addStore handle config =>
    exact .single (.tend rfl (by simp [act, addStore, fetches]) (by simp [act, addStore]))
  | get i span => exact deeds_get i span
  | ensure i spans fit priority owner =>
    refine deeds_ensure fun j hj k hleft => h.plans k ?_
    obtain ⟨-, hpriority, howner⟩ := mem_claim hj
    obtain ⟨hspec, hk⟩ := Job.isLeftOf_iff.mp hleft
    rw [← howner, ← hpriority, hspec, hk]
    rfl
  | beginRead i span fit owner => exact deeds_beginRead himmediate i span fit owner
  | resumeRead r => exact deeds_resumeRead himmediate r
  | await i id owner => exact deeds_poll himmediate i id owner
  | cancel owner => exact deeds_cancel owner
  | promote job => exact .single (.promote job)
  | evict i => exact deeds_evict i
  | finish j attempts result => exact (h.ends j result ⟨rfl, rfl⟩).elim

/-- Numbers of jobs only go up, and what is left of the plan of a stream was left before, or all of it is new. -/
structure Supersedes (owner : Nat) (c d : Cache) : Prop where
  nextJob : c.queue.nextJob ≤ d.queue.nextJob
  left : d.queue.left owner ⊆ c.queue.left owner ∨ ∀ j ∈ d.queue.left owner, c.queue.nextJob ≤ j.id

theorem Supersedes.refl (owner : Nat) (c : Cache) : c.Supersedes owner c :=
  ⟨Nat.le_refl _, Or.inl (List.Subset.refl _)⟩

theorem Supersedes.trans {e : Cache} (h : c.Supersedes owner d) (h' : d.Supersedes owner e) : c.Supersedes owner e := by
  refine ⟨h.nextJob.trans h'.nextJob, ?_⟩
  rcases h'.left with hsub | hnew
  · exact h.left.imp (List.Subset.trans hsub) fun hnew j hj => hnew j (hsub hj)
  · exact Or.inr fun j hj => h.nextJob.trans (hnew j hj)

theorem queue_finish (c : Cache) (j : Job) (attempts : Nat) (result : Except Fault Bytes) :
    (c.finish j attempts result).queue = (c.queue.finish j attempts (isFailure result)).pump.1 := by
  cases result <;> rfl

theorem nextJob_finish (c : Cache) (j : Job) (attempts : Nat) (result : Except Fault Bytes) :
    (c.finish j attempts result).queue.nextJob = c.queue.nextJob := by
  rw [queue_finish]
  exact FetchQueue.nextJob_pump (c.queue.finish j attempts (isFailure result))

theorem left_subset_finish (c : Cache) (j : Job) (attempts : Nat) (result : Except Fault Bytes) (owner : Nat) :
    (c.finish j attempts result).queue.left owner ⊆ c.queue.left owner := by
  intro k hk
  rw [queue_finish] at hk
  obtain ⟨⟨v, hv, rfl⟩, hleft⟩ := FetchQueue.mem_left.mp hk
  have hbefore : v ∈ (c.queue.finish j attempts (isFailure result)).waiting := FetchQueue.mem_waiting_pump hv
  exact FetchQueue.mem_left.mpr ⟨⟨v, hbefore, rfl⟩, hleft⟩

theorem nextJob_act (c : Cache) (a : Action) : c.queue.nextJob ≤ (c.act a).queue.nextJob := by
  cases a with
  | finish j attempts result =>
    by_cases hj : j ∈ c.queue.running
    · simp only [act, if_pos hj]
      exact (nextJob_finish c j attempts result).ge
    · simp only [act, if_neg hj]
      exact Nat.le_refl _
  | _ => exact (Deeds.stems (deeds_act (X := fun _ => True) ⟨fun _ _ => trivial, fun _ _ => id⟩) 0).nextJob

/-- Nothing is added to a plan but by asking for something on behalf of its stream. -/
theorem left_subset_act {a : Action} (ha : a.planner? ≠ some owner) :
    (c.act a).queue.left owner ⊆ c.queue.left owner := by
  have hdeeds : (∀ j x, ¬a.ends j x) → (c.act a).queue.left owner ⊆ c.queue.left owner := fun hends => by
    refine Deeds.left_subset (deeds_act (X := (· ≠ owner)) ⟨fun i hi hio => ha (hio ▸ hi), hends⟩) fun j hj => ?_
    cases hleft : j.isLeftOf owner with
    | false => rfl
    | true => exact absurd rfl (hj owner hleft)
  cases a with
  | finish k attempts result =>
    by_cases hk : k ∈ c.queue.running
    · simp only [act, if_pos hk]
      exact left_subset_finish c k attempts result owner
    · simp only [act, if_neg hk]
      exact List.Subset.refl _
  | _ => exact hdeeds fun _ _ => id

/-- A cache leads to another one by actions of a kind. Between them its notices may be taken. -/
inductive Leads (A : Action → Prop) (c : Cache) : Cache → Prop where
  | refl : Leads A c c
  | act {d : Cache} {a : Action} (h : Leads A c d) (ha : A a) : Leads A c (d.act a)
  | hear {d : Cache} (h : Leads A c d) : Leads A c d.takeNotices.1

/-- A cache that a session of a configuration may have. -/
abbrev Reached (config : QueueConfig) (c : Cache) : Prop := Leads (fun _ => True) (new config) c

namespace Leads
variable {A B : Action → Prop} {e : Cache}

theorem trans (h : Leads A c d) (h' : Leads A d e) : Leads A c e := by
  induction h' with
  | refl => exact h
  | act _ ha ih => exact ih.act ha
  | hear _ ih => exact ih.hear

theorem mono (h : Leads A c d) (hAB : ∀ a, A a → B a) : Leads B c d := by
  induction h with
  | refl => exact .refl
  | act _ ha ih => exact ih.act (hAB _ ha)
  | hear _ ih => exact ih.hear

theorem sound (h : Leads A c d) (hc : Work.Sound .any ⟨c, []⟩) : Work.Sound .any ⟨d, []⟩ := by
  induction h with
  | refl => exact hc
  | act _ _ ih => exact sound_act ih _
  | hear _ ih => exact ih.quiet

theorem nextJob (h : Leads A c d) : c.queue.nextJob ≤ d.queue.nextJob := by
  induction h with
  | refl => exact Nat.le_refl _
  | act _ _ ih => exact ih.trans (nextJob_act _ _)
  | hear _ ih => exact ih

/-- If nobody plans for a stream, nothing is added to its plan. -/
theorem left_subset (h : Leads A c d) (hA : ∀ a, A a → a.planner? ≠ some owner) :
    d.queue.left owner ⊆ c.queue.left owner := by
  induction h with
  | refl => exact List.Subset.refl _
  | act _ ha ih => exact List.Subset.trans (left_subset_act (hA _ ha)) ih
  | hear _ ih => exact ih

end Leads

end Cache

end RangeCache
