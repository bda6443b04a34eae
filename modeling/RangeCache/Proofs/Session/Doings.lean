import RangeCache.Proofs.Session.Events
import RangeCache.Proofs.Session.Works

/-!
# What events do

Operations, errands and events work as the definitions do that they are made of (`Sound.works_step`), and so the tasks
and the streams of a session stay in shape whatever happens to it (`Shapely.runEvents`). An event ends at most one job,
and if it does, `ending?` says which, and how.
-/

namespace RangeCache

open Cache (Leads Action)

/-- The result with which a task ends its job when it goes on, if it does. -/
def Activity.ending? (config : Config) : Activity → Option (Job × Except Fault Bytes)
  | .errand (.job j) n (.answered reply _) =>
    match reply.bytesOf j.span.length with
    | .ok b => some (j, .ok b)
    | .error x =>
      if config.queue.retry.retries n x then none else some (j, .error (.ofTransfer j.key j.span n x))
  | _ => none

/-- The job that an event ends, and how. -/
def Session.ending? (s : Session) : Event → Option (Job × Except Fault Bytes)
  | .run i => ((s.runnable[i]?).bind s.task?).bind fun u => u.activity.ending? s.config
  | _ => none

/-- The stream for which an event plans, though it is none of the stream's own operations. -/
def Event.planner? : Event → Option Nat
  | .ensure _ _ _ .speculative owner => owner
  | _ => none

namespace Session

variable {X Y : Nat → Prop} {E : Job → Except Fault Bytes → Prop} {s : Session} {goal : Goal}

/-! ### Operations -/

section Operations

theorem works_syncFooter (s : Session) (t : Nat) {x : Stream} (hgoal : goal.Suits X s.streams x.object)
    (offset length : Nat) : Works X Y E s (s.syncFooter t x offset length goal) := by
  have hpursue : Works X Y E s (s.pursue t goal) := works_pursue s t fun i hi => (hgoal i hi).1
  unfold syncFooter
  split
  · exact hpursue
  · split
    · rename_i f hf
      exact works_arrive s t hgoal fun f' hf' _ => Option.some.inj hf' ▸ hf
    · split
      · exact works_needFooter hgoal t
      · exact hpursue

theorem works_demandFooter (s : Session) (t : Nat) {x : Stream} (hgoal : goal.Suits X s.streams x.object) :
    Works X Y E s (s.demandFooter t x goal) := by
  unfold demandFooter
  split
  · exact works_pursue s t fun i hi => (hgoal i hi).1
  · exact works_needFooter hgoal t

theorem works_onStream (s : Session) (t id : Nat) {f : Stream → Session}
    (hf : ∀ x, s.stream? id = some x → x.closed = false → Works X Y E s (f x)) : Works X Y E s (s.onStream t id f) := by
  unfold onStream
  split
  · exact works_finish s t _
  · rename_i x hx
    split
    · exact works_finish s t _
    · rename_i hopen
      exact hf x hx (by simpa using hopen)

theorem works_awaitBlock (s : Session) (t object block : Nat) (owner : Option Nat) :
    Works X Y E s (s.awaitBlock t object block owner) := by
  have hpoll : Works X Y E s (s.onCache fun c => c.poll object block owner).1 :=
    works_onCache s (a := .await object block owner) ⟨nofun, fun _ _ => False.elim⟩ nofun rfl
  unfold awaitBlock
  split <;> rename_i heq <;> rw [heq] at hpoll
  · exact hpoll.trans (works_become _ t (Activity.suits_of_aim? rfl))
  · exact hpoll.trans (works_afterBytes _ t _)

theorem works_addObject (s : Session) (h : Handle) : Works X Y E s (s.addObject h) := by
  have hadd : Leads (Action.Heeds X E) s.cache (s.cache.act (.addStore h s.config.store)) :=
    .act .refl ⟨nofun, fun _ _ => False.elim⟩
  have hleft : ∀ i, (s.cache.act (.addStore h s.config.store)).queue.left i ⊆ s.cache.queue.left i := fun i =>
    Cache.left_subset_act nofun
  refine .of_streams hadd (fun i _ => ⟨hadd.nextJob, Or.inl (hleft i)⟩) rfl (by simp [addObject]) (fun o f hf => ?_)
    fun h => h
  rwa [footer_addObject]

theorem works_acquire (s : Session) (h : Handle) (hentries : ∀ e ∈ s.registry.entries, e.object < s.footers.length) :
    Works X Y E s (s.acquire h).1 ∧ (s.acquire h).2 < (s.acquire h).1.footers.length := by
  unfold acquire Registry.acquire
  cases hfind : s.registry.find? h.key with
  | some e =>
    have htasks : ∀ u ∈ s.tasks, u ∈ s.tasks ∨ u.activity.aim? = none := fun _ => Or.inl
    exact ⟨.of_tasks rfl rfl rfl htasks, hentries e (List.mem_of_find?_eq_some hfind)⟩
  | none =>
    dsimp only
    rw [if_pos rfl]
    generalize ({ s.registry with entries := ⟨h, 1, s.footers.length⟩ :: s.registry.entries } : Registry) = registry
    have hkeep : Works X Y E s { s with registry } := .of_tasks rfl rfl rfl fun _ => Or.inl
    have hadd := hkeep.trans (works_addObject _ h)
    have hsmall : ∀ s₁ : Session, Works X Y E s₁ (s₁.prefetchSmall s.footers.length h) := fun s₁ => by
      unfold prefetchSmall
      split
      · exact works_ensure s₁ _ _ _ _ fun _ _ => nofun
      · exact .refl s₁
    have hfooter : ∀ s₁ : Session, Works X Y E s₁ (s₁.prefetchFooter s.footers.length h) := fun s₁ => by
      unfold prefetchFooter
      split
      · exact works_spawn s₁ rfl
      · exact .refl s₁
    refine ⟨hadd.trans ((hsmall _).trans (hfooter _)), ?_⟩
    rw [footers_prefetchFooter, footers_prefetchSmall]
    simp [addObject]

theorem works_openHandle (s : Session) (h : Handle)
    (hentries : ∀ e ∈ s.registry.entries, e.object < s.footers.length) : Works X Y E s (s.openHandle h).1 := by
  obtain ⟨hacquire, hlt⟩ := works_acquire (X := X) (E := E) s h hentries
  unfold openHandle
  generalize s.acquire h = acquired at hacquire hlt ⊢
  obtain ⟨s₁, object⟩ := acquired
  refine hacquire.trans ⟨.refl, fun _ _ _ => .refl _ _, fun x hx => ⟨x, List.mem_append_left _ hx, rfl, rfl, id⟩, fun _ _ => id,
    fun hgoals u hu => (hgoals u hu).mono fun x hx => ⟨x, List.mem_append_left _ hx, rfl, rfl⟩, fun ha => ⟨?_, ?_, ?_⟩⟩
  · simp only [List.map_append, ha.numbered, List.map_cons, List.map_nil, List.length_append, List.length_singleton,
      List.range'_concat, Nat.one_mul, Nat.add_comm]
  · intro x hx
    rcases List.mem_append.mp hx with hx | hx
    · exact ha.within x hx
    · rw [List.mem_singleton.mp hx]
      exact hlt
  · intro x hx
    rcases List.mem_append.mp hx with hx | hx
    · exact ha.adopted x hx
    · rw [List.mem_singleton.mp hx]
      exact Or.inl ⟨rfl, rfl⟩

variable (hopen : ∀ x ∈ s.streams, x.closed = false → X x.id)
include hopen

/-- The goal of an operation of an open stream is one of the stream, over its object. -/
theorem suits_of_open {id : Nat} {x : Stream} (hx : s.stream? id = some x) (hxopen : x.closed = false)
    (hgoal : goalStream? goal = some id) : goal.Suits X s.streams x.object := by
  intro i hi
  obtain rfl := Option.some.inj (hgoal.symm.trans hi)
  exact ⟨id_of_stream? hx ▸ hopen x (mem_of_stream? hx) hxopen, x, mem_of_stream? hx, id_of_stream? hx, rfl⟩

theorem works_begin (hentries : ∀ e ∈ s.registry.entries, e.object < s.footers.length) (t : Nat) (op : Operation) :
    Works X Y E s (s.begin t op) := by
  cases op with
  | openKey key =>
    unfold begin
    dsimp only
    split
    · exact (works_openHandle s _ hentries).trans (works_finish _ t _)
    · exact works_attempt s t _ 1
  | read id length =>
    refine works_onStream s t id fun x hx hxopen => ?_
    dsimp only
    split
    · exact works_finish s t _
    · exact works_syncFooter s t (suits_of_open hopen hx hxopen rfl) _ _
  | readTail id length =>
    refine works_onStream s t id fun x hx hxopen => ?_
    dsimp only
    split
    · exact works_finish s t _
    · exact works_syncFooter s t (suits_of_open hopen hx hxopen rfl) _ _
  | declare id columns =>
    exact works_onStream s t id fun x hx hxopen => works_demandFooter s t (suits_of_open hopen hx hxopen rfl)
  | declareNames id names =>
    exact works_onStream s t id fun x hx hxopen => works_demandFooter s t (suits_of_open hopen hx hxopen rfl)
  | readSpan object span fit owner =>
    exact works_beginRead s t _ _ _ _ (fun _ _ h => by cases h) fun b => works_afterBytes _ t b
  | await object block owner => exact works_awaitBlock s t object block owner
  | loadFooter object => exact works_needFooter (fun _ h => by cases h) t

theorem works_seek (id position : Nat) : Works X Y E s (s.seek id position).1 := by
  unfold seek
  split
  · exact .refl s
  · rename_i x hx
    dsimp only
    split
    · exact .refl s
    · rename_i hxopen
      split
      · exact .refl s
      · have hmove : Works X Y E s (s.modifyStream id fun y => { y with position }) :=
          works_modifyStream s id (fun _ => rfl) (fun _ => rfl) (fun _ h => h) fun _ _ _ _ h => h
        have hX : X x.id := hopen x (mem_of_stream? hx) (by simpa using hxopen)
        have hmoved : { x with position } ∈ (s.modifyStream id fun y => { y with position }).streams :=
          List.mem_map.mpr ⟨x, mem_of_stream? hx, if_pos (id_of_stream? hx)⟩
        generalize s.modifyStream id (fun y => { y with position }) = s₁ at hmove hmoved ⊢
        have hreplan : Works X Y E s₁ (s₁.replan x fun p => p.onSeek s₁.recent.paths position).1 :=
          works_replan s₁ hX ⟨_, hmoved, rfl, rfl⟩ fun _ => rfl
        split <;> rename_i heq <;> rw [heq] at hreplan <;> exact hmove.trans hreplan

omit hopen in
theorem works_close (s : Session) (id : Nat) : Works X Y E s (s.close id) := by
  rcases exists_close s id with he | ⟨registry, he⟩
  · rw [he]
    exact .refl s
  · have hmark : Works X Y E s (s.modifyStream id fun y => { y with closed := true }) :=
      works_modifyStream s id (fun _ => rfl) (fun _ => rfl) (fun _ _ => rfl) fun _ _ _ _ h => h
    rw [he]
    exact hmark.trans ((works_cancel _ id).trans (.of_tasks rfl rfl rfl fun _ => Or.inl))

end Operations

/-! ### Errands -/

section Errands

theorem works_endJob (s : Session) (t : Nat) {j : Job} (hj : j ∈ s.cache.queue.running) (n : Nat)
    {r : Except Fault Bytes} (hE : E j r) : Works X Y E s (s.endJob t j n r) := by
  have hfinish : Works X Y E s (s.onCache fun c => (c.finish j n r, ())).1 := by
    refine works_onCache s (a := .finish j n r) ⟨nofun, fun k x hk => ?_⟩ nofun ?_
    · obtain ⟨rfl, rfl⟩ := hk
      exact hE
    · exact (if_pos hj).symm
  exact hfinish.trans (works_leave _ t)

theorem works_retry (s : Session) (t : Nat) (e : Errand) (n draw : Nat) : Works X Y E s (s.retry t e n draw) := by
  unfold retry
  split
  · exact works_attempt s t e _
  · exact (works_become s t (Activity.suits_of_aim? rfl)).trans (.of_tasks rfl rfl rfl fun _ => Or.inl)

theorem works_endAttempt (s : Session) (t : Nat) (e : Errand) (n draw : Nat) (reply : Reply)
    (hentries : ∀ x ∈ s.registry.entries, x.object < s.footers.length)
    (hj : ∀ j, e = .job j → j ∈ s.cache.queue.running)
    (hE : ∀ j x, (Activity.errand e n (.answered reply draw)).ending? s.config = some (j, x) → E j x) :
    Works X Y E s (s.endAttempt t e n draw reply) := by
  cases e with
  | job j =>
    unfold endAttempt
    dsimp only [Activity.ending?] at hE ⊢
    split
    · rename_i b hb
      exact works_endJob s t (hj j rfl) n (hE j _ (by rw [hb]))
    · rename_i error herror
      rw [herror] at hE
      unfold failAttempt
      by_cases hretry : s.config.queue.retry.retries n error = true
      · rw [if_pos hretry]
        exact works_retry s t _ n draw
      · rw [if_neg hretry]
        exact works_endJob s t (hj j rfl) n (hE j _ (if_neg hretry))
  | size key =>
    unfold endAttempt
    dsimp only
    split
    · exact (works_openHandle s _ hentries).trans (works_finish _ t _)
    · unfold failAttempt
      split
      · exact works_retry s t _ n draw
      · exact works_finish s t _

end Errands

/-! ### Jobs that end -/

section Endings
variable {j : Job} {r : Except Fault Bytes}

/-- A task that ends a job when it goes on does nothing else. When the job fails, its last attempt was not to be
    followed by another one. -/
theorem proceed_of_ending? {u : Task} (h : u.activity.ending? s.config = some (j, r)) :
    ∃ n reply draw, u.activity = .errand (.job j) n (.answered reply draw) ∧ s.proceed u = s.endJob u.id j n r ∧
      ∀ f, r = .error f → ∃ x, f = .ofTransfer j.key j.span n x ∧ s.config.queue.retry.retries n x = false := by
  obtain ⟨t, a⟩ := u
  unfold Activity.ending? at h
  split at h
  · rename_i k n reply draw ha
    dsimp only at ha
    subst ha
    have hproceed : s.proceed ⟨t, .errand (.job k) n (.answered reply draw)⟩ =
        s.endAttempt t (.job k) n draw reply := rfl
    cases hb : reply.bytesOf k.span.length with
    | ok b =>
      simp only [hb] at h
      cases h
      exact ⟨n, reply, draw, rfl, by simp only [hproceed, endAttempt, hb], nofun⟩
    | error x =>
      simp only [hb] at h
      split at h
      · cases h
      · rename_i hretry
        cases h
        refine ⟨n, reply, draw, rfl, ?_, fun f hf => ?_⟩
        · simp only [hproceed, endAttempt, hb, failAttempt, if_neg hretry]
        · cases hf
          exact ⟨x, rfl, Bool.eq_false_iff.mpr hretry⟩
  · cases h

/-- An event that ends a job does nothing else. -/
theorem step_of_ending? {e : Event} (h : s.ending? e = some (j, r)) :
    ∃ t n reply draw runnable, ⟨t, .errand (.job j) n (.answered reply draw)⟩ ∈ s.tasks ∧
      s.step e = ({ s with runnable } : Session).endJob t j n r ∧
      ∀ f, r = .error f → ∃ x, f = .ofTransfer j.key j.span n x ∧ s.config.queue.retry.retries n x = false := by
  cases e with
  | run i =>
    obtain ⟨u, hu, hends⟩ := Option.bind_eq_some_iff.mp h
    obtain ⟨id, hid, hu⟩ := Option.bind_eq_some_iff.mp hu
    have hmem := (mem_of_task?_eq_some hu).1
    rcases exists_runAt s i with ⟨hnone, -⟩ | ⟨id', runnable, hid', -, -, ⟨hnone, -⟩ | ⟨u', hu', hrun⟩⟩
    · cases hid.symm.trans hnone
    · obtain rfl := Option.some.inj (hid.symm.trans hid')
      cases hu.symm.trans hnone
    · obtain rfl := Option.some.inj (hid.symm.trans hid')
      obtain rfl := Option.some.inj (hu.symm.trans hu')
      obtain ⟨n, reply, draw, ha, hproceed, hfault⟩ := proceed_of_ending? (s := { s with runnable }) hends
      obtain ⟨t, a⟩ := u
      cases ha
      exact ⟨t, n, reply, draw, runnable, hmem, hrun.trans hproceed, hfault⟩
  | _ => cases h

end Endings

/-! ### Events -/

section Events
variable {C : Contents} {e : Event} {u : Task}

theorem Sound.mem_running (h : s.Sound C none) (hu : u ∈ s.tasks) {j : Job} (hj : u.activity.job? = some j) :
    j ∈ s.cache.queue.running := by
  refine h.jobs.mem_iff.mp (List.mem_append_left _ ?_)
  exact List.mem_filterMap.mpr ⟨u, hu, hj⟩

/-- A footer that a task loads is not known yet. -/
theorem Sound.not_loaded (h : s.Sound C none) (hu : u ∈ s.tasks) {r : Reading} {use : Use}
    (ha : u.activity = .reading r use) {o : Nat} (ho : use.object? = some o) (f : FooterState) :
    s.footer o ≠ .loaded f := by
  have hplaced := h.placed u hu
  rw [Placed, ha] at hplaced
  obtain ⟨q, hq⟩ := hplaced o ho
  rw [hq]
  nofun

theorem Sound.works_answer (h : s.Sound C none) (i : Nat) (reply : Reply) (draw : Nat) :
    Works X Y E s (s.answer i reply draw) := by
  rcases h.exists_answer i reply draw with ⟨-, he⟩ | ⟨id, e, n, r, -, -, -, -, he⟩
  · rw [he]
    exact .refl s
  · rw [he]
    exact (works_become s id (Activity.suits_of_aim? rfl)).trans (.of_tasks rfl rfl rfl fun _ => Or.inl)

variable (hopen : ∀ x ∈ s.streams, x.closed = false → X x.id)
include hopen

theorem works_proceed (hgoal : u.activity.Suits X s.streams)
    (hentries : ∀ x ∈ s.registry.entries, x.object < s.footers.length)
    (hrunning : ∀ j, u.activity.job? = some j → j ∈ s.cache.queue.running)
    (hload : ∀ r use, u.activity = .reading r use → ∀ o, use.object? = some o → ∀ f, s.footer o ≠ .loaded f)
    (hE : ∀ j x, u.activity.ending? s.config = some (j, x) → E j x) : Works X Y E s (s.proceed u) := by
  obtain ⟨id, a⟩ := u
  cases a with
  | start op => exact works_begin hopen hentries id op
  | errand e n phase =>
    cases phase with
    | due => exact works_attempt s id e n
    | called => exact .refl s
    | answered reply draw =>
      exact works_endAttempt s id e n draw reply hentries (fun j hj => hrunning j (hj ▸ rfl)) hE
    | backoff => exact works_attempt s id e (n + 1)
  | reading r use =>
    refine works_reading s id (a := .resumeRead r) ⟨nofun, fun _ _ => False.elim⟩ nofun rfl hgoal fun b => ?_
    have hload : ∀ o, use.object? = some o → ∀ f, (s.onCache fun c => c.resumeRead r).1.footer o ≠ .loaded f :=
      fun o ho f => footer_onCache s _ o ▸ hload r use rfl o ho f
    have hstreams := streams_onCache s fun c => c.resumeRead r
    cases use with
    | bytes => exact works_afterBytes _ id b
    | stream k offset => exact works_afterStream _ id k offset b
    | guess object goal => exact works_afterGuess (hload object rfl) (hstreams ▸ hgoal object goal rfl) id b
    | footer object goal => exact works_afterFooter (hload object rfl) (hstreams ▸ hgoal object goal rfl) id b
  | awaiting object block owner => exact works_awaitBlock s id object block owner
  | turn object goal => exact works_takeTurn (hgoal object goal rfl) id

/-- Whatever happens to a session, it works as it should. -/
theorem Sound.works_step (h : s.Sound C none) (hgoals : ∀ v ∈ s.tasks, v.activity.Suits X s.streams)
    (hplan : ∀ i, e.planner? = some i → X i ∧ ¬Y i) (hE : ∀ j x, s.ending? e = some (j, x) → E j x) :
    Works X Y E s (s.step e) := by
  cases e with
  | start op => exact works_spawn s rfl
  | addObject handle => exact works_addObject s handle
  | openSized key size => exact works_openHandle s _ h.within.entries
  | seek id position => exact works_seek hopen id position
  | close id => exact works_close s id
  | get object span => exact works_onCache s (a := .get object span) ⟨nofun, fun _ _ => False.elim⟩ nofun rfl
  | ensure object spans fit priority owner =>
    refine works_ensure s object spans fit priority fun k hp ho => hplan k ?_
    rw [hp, ho]
    rfl
  | cancel owner => exact works_cancel s owner
  | evict object => exact works_onCache s (a := .evict object) ⟨nofun, fun _ _ => False.elim⟩ nofun rfl
  | run i =>
    rcases exists_runAt s i with ⟨-, he⟩ | ⟨id, r, hid, -, hr, ⟨-, he⟩ | ⟨u, hu, he⟩⟩
    · rw [Session.step, he]
      exact .refl s
    · rw [Session.step, he]
      exact .of_tasks rfl rfl rfl fun _ => Or.inl
    · have hrest : Works X Y E s { s with runnable := r } := .of_tasks rfl rfl rfl fun _ => Or.inl
      have hmem := (mem_of_task?_eq_some hu).1
      have hproceed := works_proceed (Y := Y) (s := { s with runnable := r }) hopen (hgoals u hmem) h.within.entries
        (fun j hj => h.mem_running hmem hj) (fun _ _ ha o ho => h.not_loaded hmem ha ho) fun j x hx => hE j x (by
          unfold ending?
          dsimp only
          rw [hid, Option.bind_some, hu]
          exact hx)
      rw [Session.step, he]
      exact hrest.trans hproceed
  | answer i reply draw => exact h.works_answer i reply draw
  | tick =>
    obtain ⟨now, timers, r, he, -⟩ := exists_tick s
    rw [Session.step, he]
    exact .of_tasks rfl rfl rfl fun _ => Or.inl

end Events

/-! ### Runs -/

/-- A session that is sound, whose tasks deal with the footers of their streams, and whose streams know of these what
    there is to know. -/
structure Shapely (s : Session) : Prop where
  sound : s.Sound .any none
  goals : ∀ u ∈ s.tasks, u.activity.Suits (fun _ => True) s.streams
  adopts : s.Adopts

theorem shapely_fresh (config : Config) : (fresh config).Shapely where
  sound := sound_fresh .any config
  goals := nofun
  adopts := ⟨rfl, nofun, nofun⟩

theorem Shapely.works (h : s.Shapely) (e : Event) :
    Works (fun _ => True) (fun i => e.planner? ≠ some i) (fun j x => s.ending? e = some (j, x)) s (s.step e) :=
  h.sound.works_step (fun _ _ _ => trivial) h.goals (fun _ hi => ⟨trivial, fun hne => hne hi⟩) fun _ _ h => h

theorem Shapely.step (h : s.Shapely) (e : Event) : (s.step e).Shapely where
  sound := (h.sound.step (fairRun_any s [e]).1).1
  goals := (h.works e).goals h.goals
  adopts := (h.works e).adopts h.adopts

theorem Shapely.runEvents (h : s.Shapely) (l : List Event) : (s.runEvents l).Shapely := by
  induction l generalizing s with
  | nil => exact h
  | cons e l ih => exact ih (h.step e)

end Session

end RangeCache
