import Mathlib.Data.Prod.Lex
import RangeCache.Proofs.Cache.Claimable
import RangeCache.Proofs.Session.Smooth

/-!
# What is left to do

While all goes well and nobody asks for anything new, each thing that happens leaves less to do (`Sound.toll_step`). A
task goes on to a later stage; or a read waits for fewer blocks than before, or has claimed the one that it waits for;
or an errand goes on; or the task had been let run for nothing, and does not run again until something else happens. Of
these, what comes first counts most.
-/

namespace RangeCache

/-- How many blocks a read still needs. -/
def Activity.todo : Activity → Nat
  | .reading r _ => r.todo.length
  | _ => 0

/-- How much an errand still takes, as long as it does not fail. -/
def Activity.effort : Activity → Nat
  | .errand _ _ .due | .errand _ _ .backoff => 3
  | .errand _ _ .called => 2
  | .errand _ _ (.answered _ _) => 1
  | _ => 0

/-- What happens to a session of itself: a task that can go on does so, a request is answered, or time passes until the
    next timer. -/
def Event.Due (s : Session) : Event → Prop
  | .run i => i < s.runnable.length
  | .answer i _ _ => i < s.calls.length
  | .tick => s.timers ≠ []
  | _ => False

namespace Session

open Prod.Lex

/-- How much all errands still take, those of the waiting jobs among them, and the timers. -/
def effort (s : Session) : Nat :=
  4 * s.cache.queue.waiting.length + tally Activity.effort s.tasks + s.timers.length

/-- What is left to do, what counts most first. -/
def toll (s : Session) : ℕ ×ₗ ℕ ×ₗ ℕ ×ₗ ℕ ×ₗ ℕ :=
  toLex (tally Activity.weight s.tasks, toLex (tally Activity.todo s.tasks, toLex (s.cache.claimable,
    toLex (s.effort, s.runnable.length))))

variable {C : Contents} {s s' : Session} {t n : Nat} {l : Option Nat} {u : Task} {e : Event}

section Order

theorem toll_lt_of_weight (h : tally Activity.weight s'.tasks < tally Activity.weight s.tasks) : s'.toll < s.toll :=
  toLex_lt_toLex.mpr (Or.inl h)

theorem toll_lt_of_todo (hw : tally Activity.weight s'.tasks = tally Activity.weight s.tasks)
    (h : tally Activity.todo s'.tasks < tally Activity.todo s.tasks) : s'.toll < s.toll :=
  toLex_lt_toLex.mpr (Or.inr ⟨hw, toLex_lt_toLex.mpr (Or.inl h)⟩)

theorem toll_lt_of_claimable (hw : tally Activity.weight s'.tasks = tally Activity.weight s.tasks)
    (ht : tally Activity.todo s'.tasks = tally Activity.todo s.tasks) (h : s'.cache.claimable < s.cache.claimable) :
    s'.toll < s.toll :=
  toLex_lt_toLex.mpr (Or.inr ⟨hw, toLex_lt_toLex.mpr (Or.inr ⟨ht, toLex_lt_toLex.mpr (Or.inl h)⟩)⟩)

theorem toll_lt_of_effort (hw : tally Activity.weight s'.tasks = tally Activity.weight s.tasks)
    (ht : tally Activity.todo s'.tasks = tally Activity.todo s.tasks) (hc : s'.cache.claimable ≤ s.cache.claimable)
    (h : s'.effort < s.effort) : s'.toll < s.toll := by
  rcases Nat.lt_or_eq_of_le hc with hc | hc
  · exact toll_lt_of_claimable hw ht hc
  · exact toLex_lt_toLex.mpr (Or.inr ⟨hw, toLex_lt_toLex.mpr (Or.inr ⟨ht, toLex_lt_toLex.mpr
      (Or.inr ⟨hc, toLex_lt_toLex.mpr (Or.inl h)⟩)⟩)⟩)

/-- A task was let run, and nothing else changed. -/
theorem toll_lt_of_runnable (hp : s'.tasks.Perm s.tasks) (hc : s'.cache = s.cache) (htimers : s'.timers = s.timers)
    (h : s'.runnable.length < s.runnable.length) : s'.toll < s.toll := by
  have heffort : s'.effort = s.effort := by
    unfold effort
    rw [hc, htimers, tally_perm _ hp]
  refine toLex_lt_toLex.mpr (Or.inr ⟨tally_perm _ hp, toLex_lt_toLex.mpr (Or.inr ⟨tally_perm _ hp, ?_⟩)⟩)
  exact toLex_lt_toLex.mpr (Or.inr ⟨congrArg Cache.claimable hc, toLex_lt_toLex.mpr (Or.inr ⟨heffort, h⟩)⟩)

end Order

/-! ### A task goes on -/

/-- A task that stops at a later stage leaves less to do. -/
theorem Sound.toll_of_burden (h : s.Sound C none) (hu : u ∈ s.tasks) {k : Nat}
    (hburden : tally Activity.weight s'.tasks ≤ tally Activity.weight (s.besides u.id) + k)
    (hk : k < u.activity.weight) : s'.toll < s.toll := by
  refine toll_lt_of_weight (Nat.lt_of_le_of_lt hburden ?_)
  rw [h.weight_tasks hu Activity.weight, Nat.add_comm]
  exact Nat.add_lt_add_right hk _

/-- An errand goes on. -/
theorem Sound.toll_errand (h : s.Sound C none) (hu : u ∈ s.tasks) {errand : Errand} {m : Nat} {phase : Phase}
    (ha : u.activity = .errand errand n phase) (phase' : Phase) (hcache : s'.cache = s.cache)
    (htimers : s'.timers = s.timers) (htasks : s'.tasks = (s.become u.id (.errand errand m phase')).tasks)
    (hlt : (Activity.errand errand m phase').effort < (Activity.errand errand n phase).effort) : s'.toll < s.toll := by
  have hp : s'.tasks.Perm (⟨u.id, .errand errand m phase'⟩ :: s.besides u.id) :=
    htasks ▸ perm_become (c := ⟨u.id, none, none⟩) h.ids (List.mem_map_of_mem hu) _
  have htally : ∀ f, tally f s'.tasks = f (.errand errand m phase') + tally f (s.besides u.id) := fun f =>
    (tally_perm f hp).trans (tally_cons ..)
  refine toll_lt_of_effort ?_ ?_ (Nat.le_of_eq (congrArg _ hcache)) ?_
  · rw [htally, h.weight_tasks hu, ha, Activity.weight_errand, Activity.weight_errand]
  · rw [htally, h.weight_tasks hu, ha]
    rfl
  · unfold effort
    rw [htally, h.weight_tasks hu, ha, hcache, htimers]
    omega

theorem onCache_of_eq {α : Type} {f : Cache → Cache × α} (hq : s.cache.notices = []) (hf : (f s.cache).1 = s.cache) :
    (s.onCache f).1 = s := by
  unfold onCache
  dsimp only
  rw [hf, Cache.takeNotices, hq]
  dsimp only [List.foldl_nil]
  rw [← hq]

theorem todo_spawned (n : Nat) (jobs : List Job) : tally Activity.todo (spawned n jobs) = 0 :=
  tally_eq_zero fun v hv => by
    obtain ⟨-, -, j, hj⟩ := mem_spawned hv
    rw [hj]
    rfl

/-- A task that has to wait again, and for no other blocks than before, finds the block on its way, or claimed it. -/
theorem Sound.toll_waits (h : s.Sound C none) (hu : u ∈ s.tasks) {r : List Nat} (hlen : r.length < s.runnable.length)
    (hpick : ({ s with runnable := r } : Session).Sound C (some ⟨u.id, l, none⟩)) {α : Type} {f : Cache → Cache × α}
    (hm : Moves (fun _ _ => False) ⟨s.cache, []⟩ ⟨(f s.cache).1, []⟩) {a : Activity}
    (hweight : a.weight = u.activity.weight)
    (hcase : a.todo < u.activity.todo ∨
      a = u.activity ∧ ((f s.cache).1 = s.cache ∨ (f s.cache).1.claimable < s.cache.claimable)) :
    ((({ s with runnable := r } : Session).onCache f).1.become u.id a).toll < s.toll := by
  have hs := hpick.onCache (f := f) hm
  have hcache := cache_onCache { s with runnable := r } f
  obtain ⟨jobs, hbesides⟩ := besides_onCache { s with runnable := r } f hpick.lt
  have heq := onCache_of_eq (s := { s with runnable := r }) (f := f) h.quiet
  have hp := perm_become hs.ids (hs.present _ rfl) a
  generalize (({ s with runnable := r } : Session).onCache f).1 = s₁ at hs hcache hbesides heq hp ⊢
  have htally : ∀ f, tally f (s₁.become u.id a).tasks =
      f a + (tally f (s.besides u.id) + tally f (spawned s.nextTask jobs)) := fun f => by
    rw [← tally_append]
    exact (tally_perm f hp).trans ((tally_cons ..).trans (congrArg _ (congrArg _ hbesides)))
  have hw : tally Activity.weight (s₁.become u.id a).tasks = tally Activity.weight s.tasks := by
    rw [htally, weight_spawned, h.weight_tasks hu, hweight, Nat.add_zero]
  rcases hcase with hlt | ⟨rfl, hsame | hlt⟩
  · refine toll_lt_of_todo hw ?_
    rw [htally, todo_spawned, h.weight_tasks hu]
    exact Nat.add_lt_add_right hlt _
  · -- Nothing changed but the tasks that can go on.
    rw [heq hsame] at hp ⊢
    exact toll_lt_of_runnable (hp.trans (perm_others (c := ⟨u.id, l, none⟩) h.ids hu rfl).symm) rfl rfl hlen
  · refine toll_lt_of_claimable hw ?_ ?_
    · rw [htally, todo_spawned, h.weight_tasks hu, Nat.add_zero]
    · show s₁.cache.claimable < s.cache.claimable
      rw [hcache]
      exact hlt

theorem effort_spawned (n : Nat) (jobs : List Job) : tally Activity.effort (spawned n jobs) = 3 * jobs.length := by
  induction jobs generalizing n with
  | nil => rfl
  | cons j jobs ih =>
    unfold spawned
    rw [tally_cons, ih, List.length_cons]
    show 3 + 3 * jobs.length = _
    omega

/-- The jobs that are started when a job ends waited before. -/
theorem length_waiting_finish {c : Cache} (hq : c.queue.Sound) {j : Job} (hj : j ∈ c.queue.running) (n : Nat)
    (b : Bytes) : (c.finish j n (.ok b)).queue.waiting.length + (c.finish j n (.ok b)).queue.running.length + 1 =
      c.queue.waiting.length + c.queue.running.length := by
  have hfinish := (FetchQueue.perm_jobs_finish hq hj n false).length_eq
  have hpump := (FetchQueue.perm_jobs_pump (hq.finish hj n false)).length_eq
  simp only [FetchQueue.jobs, List.length_append, List.length_map, List.length_cons] at hfinish hpump
  exact (congrArg (· + 1) hpump).trans hfinish.symm

/-- The end of a job takes its errand away, and the jobs that it lets start get on with theirs. -/
theorem Sound.toll_endJob (h : s.Sound .any none) (hu : u ∈ s.tasks) {j : Job} {reply : Reply} {draw : Nat}
    (ha : u.activity = .errand (.job j) n (.answered reply draw)) {r : List Nat}
    (hpick : ({ s with runnable := r } : Session).Sound .any (some ⟨u.id, none, some j⟩)) (b : Bytes) :
    (({ s with runnable := r } : Session).endJob u.id j n (.ok b)).toll < s.toll := by
  have hsound := (hpick.ends_endJob n (r := .ok b) fun _ _ => trivial).sound
  obtain ⟨jobs, hbesides⟩ := besides_onCache { s with runnable := r } (fun c => (c.finish j n (.ok b), ())) hpick.lt
  have hcache := cache_onCache { s with runnable := r } fun c => (c.finish j n (.ok b), ())
  have htimers : (({ s with runnable := r } : Session).endJob u.id j n (.ok b)).timers = s.timers := by
    obtain ⟨_, _, he⟩ := exists_onCache { s with runnable := r } fun c => (c.finish j n (.ok b), ())
    unfold endJob
    rw [he]
    rfl
  have htasks : (({ s with runnable := r } : Session).endJob u.id j n (.ok b)).tasks =
      s.besides u.id ++ spawned s.nextTask jobs := hbesides
  have hjob : j ∈ s.cache.queue.running :=
    hpick.jobs.mem_iff.mp (List.mem_append_right _ (List.mem_singleton_self _))
  -- The jobs that are started are as many as there are less that wait.
  have hstarted : (s.cache.finish j n (.ok b)).queue.waiting.length + jobs.length = s.cache.queue.waiting.length := by
    have hlength := length_waiting_finish (c := s.cache) h.cache.queue hjob n b
    have hbefore : ((s.besides u.id).filterMap (·.activity.job?)).length + 1 = s.cache.queue.running.length := by
      have := hpick.jobs.length_eq
      rwa [List.length_append] at this
    have hafter : ((s.besides u.id).filterMap (·.activity.job?)).length + jobs.length =
        (s.cache.finish j n (.ok b)).queue.running.length := by
      have := hsound.jobs.length_eq
      rw [others, htasks, List.filterMap_append, filterMap_job?_spawned, List.length_append, List.length_append] at this
      exact this.trans (congrArg (·.queue.running.length) hcache)
    omega
  have htally : ∀ f, tally f (({ s with runnable := r } : Session).endJob u.id j n (.ok b)).tasks =
      tally f (s.besides u.id) + tally f (spawned s.nextTask jobs) := fun f => by rw [htasks, tally_append]
  refine toll_lt_of_effort ?_ ?_ ?_ ?_
  · rw [htally, weight_spawned, h.weight_tasks hu, ha]
    exact Nat.add_comm _ _
  · rw [htally, todo_spawned, h.weight_tasks hu, ha]
    exact Nat.add_comm _ _
  · exact Nat.le_trans (Nat.le_of_eq (congrArg Cache.claimable hcache)) (Cache.claimable_finish h.cache.stores j n b)
  · have hwaiting : (({ s with runnable := r } : Session).endJob u.id j n (.ok b)).cache.queue.waiting.length =
        (s.cache.finish j n (.ok b)).queue.waiting.length := congrArg (·.queue.waiting.length) hcache
    have hdone : u.activity.effort = 1 := by rw [ha]; rfl
    unfold effort
    rw [htally, effort_spawned, h.weight_tasks hu, hdone, htimers, hwaiting, ← hstarted]
    omega

/-! ### Whatever is due -/

/-- A read that goes on gets to a later stage, or to a later block, or has claimed the block that it waits for. -/
theorem Sound.toll_resume (h : s.Sound C none) (hb : s.cache.Backs s.tasks) (hu : u ∈ s.tasks) {r : List Nat}
    (hlen : r.length < s.runnable.length) {reading : Reading} {use : Use} (ha : u.activity = .reading reading use)
    (hpick : ({ s with runnable := r } : Session).Sound C (some ⟨u.id, use.object?, none⟩)) :
    (({ s with runnable := r } : Session).reading u.id use (fun c => c.resumeRead reading)
      fun s x => s.after u.id use x).toll < s.toll := by
  have hc := h.cache.stores
  have hb' := h.backs_cons hb hu
  have hm := Cache.moves_resumeRead (A := fun _ _ => False) hc reading
  have hwaits := fun r' => h.toll_waits hu hlen hpick (f := fun c => c.resumeRead reading) (a := .reading r' use) hm
  have hlater : ∀ {k : Nat} {s' : Session}, tally Activity.weight s'.tasks ≤ tally Activity.weight (s.besides u.id) + k →
      k < u.activity.weight → s'.toll < s.toll := h.toll_of_burden hu
  obtain ⟨id, a⟩ := u
  dsimp only at ha
  subst ha
  cases hprog : (s.cache.resumeRead reading).2 with
  | done b =>
    refine hlater (hpick.runs_resumed hb' hprog).burden ?_
    rw [Activity.weight_reading]
    exact Nat.sub_lt use.weight_pos Nat.one_pos
  | waiting r' =>
    unfold Session.reading
    rw [show (({ s with runnable := r } : Session).onCache fun c => c.resumeRead reading) =
      ((({ s with runnable := r } : Session).onCache fun c => c.resumeRead reading).1,
        (s.cache.resumeRead reading).2) from rfl, hprog]
    refine hwaits r' ?_ ?_
    · rw [Activity.weight_reading, Activity.weight_reading]
    · exact (Cache.claimable_resumeRead hc hprog).imp (fun hlt => hlt) fun ⟨he, hcases⟩ => ⟨by rw [he], hcases⟩

theorem Sound.toll_await (h : s.Sound C none) (hb : s.cache.Backs s.tasks) (hu : u ∈ s.tasks) {r : List Nat}
    (hlen : r.length < s.runnable.length) {object block : Nat} {owner : Option Nat}
    (ha : u.activity = .awaiting object block owner)
    (hpick : ({ s with runnable := r } : Session).Sound C (some ⟨u.id, none, none⟩)) :
    (({ s with runnable := r } : Session).awaitBlock u.id object block owner).toll < s.toll := by
  have hc := h.cache.stores
  have hm := Cache.moves_poll (A := fun _ _ => False) hc object block owner
  have hwaits := h.toll_waits hu hlen hpick (f := fun c => c.poll object block owner)
    (a := .awaiting object block owner) hm (by rw [ha])
  have hcalm : Calm 0 s { s with runnable := r } := .of_eq rfl rfl rfl rfl rfl
  have hpoll : Calm 0 { s with runnable := r }
      (({ s with runnable := r } : Session).onCache fun c => c.poll object block owner).1 :=
    calm_onCache (f := fun c => c.poll object block owner) hc hm ((Cache.quiet_poll object block owner).keepsPins hc)
  have hb' := (hcalm.trans hpoll).backs_besides (h.fresh u hu) (h.backs_cons hb hu).of_cons
  unfold awaitBlock
  rw [show (({ s with runnable := r } : Session).onCache fun c => c.poll object block owner) =
    ((({ s with runnable := r } : Session).onCache fun c => c.poll object block owner).1,
      (s.cache.poll object block owner).2) from rfl]
  cases hprog : (s.cache.poll object block owner).2 with
  | done b =>
    have hruns := (hcalm.trans hpoll).runs (h.fresh u hu) (runs_afterBytes hb' b) fun _ hid _ => hid
    exact h.toll_of_burden hu hruns.burden (by rw [ha]; exact Nat.one_pos)
  | waiting _ => exact hwaits (Or.inr ⟨ha.symm, Cache.claimable_poll hc (Prod.ext rfl hprog)⟩)

/-- A task that is let run leaves less to do, unless it is on an errand that does not bring what was asked for. -/
theorem Sound.toll_proceed (h : s.Sound .any none) (hb : s.cache.Backs s.tasks) (hu : u ∈ s.tasks) {r : List Nat}
    (hr : ∀ x ∈ s.runnable, x ≠ u.id → x ∈ r) (hlen : r.length < s.runnable.length)
    (hgood : ∀ e n reply draw, u.activity = .errand e n (.answered reply draw) → e.Fulfilled reply) :
    (({ s with runnable := r } : Session).proceed u).toll < s.toll := by
  have hpick := h.pick_of hu hr
  have hbesides : ({ s with runnable := r } : Session).cache.Backs (({ s with runnable := r } : Session).besides u.id) :=
    (h.backs_cons hb hu).of_cons
  have hdoze : ({ s with runnable := r } : Session).toll < s.toll := toll_lt_of_runnable (.refl _) rfl rfl hlen
  have hstage : ∀ {k : Nat} {s' : Session}, tally Activity.weight s'.tasks ≤ tally Activity.weight (s.besides u.id) + k →
      k < u.activity.weight → s'.toll < s.toll := h.toll_of_burden hu
  have herrand : ∀ e n phase, u.activity = .errand e n phase → ∀ m, 2 < (Activity.errand e n phase).effort →
      (({ s with runnable := r } : Session).attempt u.id e m).toll < s.toll := fun e n phase ha m hlt =>
    h.toll_errand hu ha .called rfl rfl rfl hlt
  have hjob := fun j n reply draw (ha : u.activity = .errand (.job j) n (.answered reply draw)) =>
    h.toll_endJob (r := r) hu ha
  have hread := fun reading use (ha : u.activity = .reading reading use) => h.toll_resume hb hu hlen ha
  have hawait := fun object block owner (ha : u.activity = .awaiting object block owner) => h.toll_await hb hu hlen ha
  have hturn := h.runs_takeTurn hb hu hr
  obtain ⟨id, a⟩ := u
  unfold proceed
  cases a with
  | start op =>
    exact hstage ((hpick s.calls (.refl _) nofun).runs_begin hbesides op).burden
      (Nat.sub_lt (Activity.weight_start_pos op) Nat.one_pos)
  | errand e n phase =>
    cases phase with
    | due => exact herrand e n .due rfl n (Nat.lt_succ_self 2)
    | called => exact hdoze
    | answered reply draw =>
      cases e with
      | job j =>
        obtain ⟨b, hb'⟩ := hgood _ n reply draw rfl
        dsimp only
        unfold endAttempt
        dsimp only
        rw [hb']
        exact hjob j n reply draw rfl (hpick s.calls (.refl _) nofun) b
      | size key =>
        obtain ⟨a, ha⟩ := hgood _ n reply draw rfl
        dsimp only
        unfold endAttempt
        dsimp only
        rw [ha]
        exact hstage ((hpick s.calls (.refl _) nofun).runs_openHandle hbesides _).burden (Nat.lt_succ_self 5)
    | backoff => exact herrand e n .backoff rfl (n + 1) (Nat.lt_succ_self 2)
  | reading reading use => exact hread reading use rfl (hpick s.calls (.refl _) nofun)
  | awaiting object block owner => exact hawait object block owner rfl (hpick s.calls (.refl _) nofun)
  | turn object goal =>
    dsimp only
    rcases hturn object goal rfl with he | hruns
    · rw [he]
      exact hdoze
    · exact hstage hruns.burden (Nat.lt_succ_self 3)

/-- Whatever is due leaves less to do, when all goes well. -/
theorem Sound.toll_step (h : s.Sound .any none) (hb : s.cache.Backs s.tasks) (hdue : e.Due s) (he : e.Smooth s) :
    (s.step e).toll < s.toll := by
  cases e with
  | run i =>
    show (s.runAt i).toll < s.toll
    rcases exists_runAt s i with ⟨hi, -⟩ | ⟨id, r, hi, hlen, hr, ⟨-, heq⟩ | ⟨u, hu, heq⟩⟩
    · exact absurd hdue (Nat.not_lt.mpr (List.getElem?_eq_none_iff.mp hi))
    · rw [heq]
      exact toll_lt_of_runnable (.refl _) rfl rfl hlen
    · rw [heq]
      have hserved : ∀ errand n reply draw,
          u.activity = .errand errand n (.answered reply draw) → errand.Fulfilled reply := fun _ _ _ _ => he.fulfilled hi hu
      obtain ⟨hmem, rfl⟩ := mem_of_task?_eq_some hu
      exact h.toll_proceed hb hmem hr hlen hserved
  | answer i reply draw =>
    show (s.answer i reply draw).toll < s.toll
    rcases h.exists_answer i reply draw with ⟨hi, -⟩ | ⟨id, errand, n, r, hu, -, -, -, heq⟩
    · exact absurd hdue (Nat.not_lt.mpr (List.getElem?_eq_none_iff.mp hi))
    · rw [heq]
      exact h.toll_errand hu rfl (.answered reply draw) rfl rfl rfl (Nat.lt_succ_self 1)
  | tick =>
    obtain ⟨now, timers, r, heq, htimers⟩ := exists_tick s
    show s.tick.toll < s.toll
    rw [heq]
    exact toll_lt_of_effort rfl rfl (Nat.le_refl _) (Nat.add_lt_add_left (htimers hdue) _)
  | _ => exact hdue.elim

end Session

end RangeCache
