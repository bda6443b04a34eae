import RangeCache.Proofs.Cache.Reads
import RangeCache.Session.Step

/-!
# Sound sessions

What holds of a session between any two events. Each task can go on, or something else is going to let it:
the answer to a request, a timer, a job that owns the block it waits for, or the task that loads the footer
it waits for. Each running job has its task. While a task runs, all this holds of the other tasks, and the
one that runs has some things in hand (`Turn`): the job it carries out, the footer it loads.
-/

namespace RangeCache

/-- The task that runs now, the footer that it loads, and the job that it carries out. -/
structure Turn where
  task : Nat
  loads : Option Nat := none
  job : Option Job := none

/-- The footer that the bytes of a read are for. -/
def Use.object? : Use → Option Nat
  | .guess object _ | .footer object _ => some object
  | .bytes | .stream _ _ => none

/-- The job of an errand. -/
def Errand.job? : Errand → Option Job
  | .job j => some j
  | .size _ => none

namespace Activity

/-- The footer that a task loads or waits for. -/
def footer? : Activity → Option Nat
  | .reading _ use => use.object?
  | .turn object _ => some object
  | _ => none

/-- The job that a task carries out. -/
def job? : Activity → Option Job
  | .errand e _ _ => e.job?
  | _ => none

/-- The bytes that a task has are those that it should have. -/
def Right (C : Contents) (c : Cache) : Activity → Prop
  | .errand (.job j) _ (.answered reply _) => ∀ b, reply.bytesOf j.span.length = .ok b → C.allows j.key j.span b
  | .reading r _ => c.Serves C r
  | _ => True

theorem Right.mono {C : Contents} {c c' : Cache} {a : Activity} (h : a.Right C c) (hc : c.Extends c') :
    a.Right C c' := by
  unfold Right at h ⊢
  split at h <;> first | exact h | exact Cache.Serves.mono h hc

end Activity

/-- The request of a task that was not answered yet. -/
def Task.call? (t : Task) : Option Call :=
  match t.activity with
  | .errand e _ .called => some ⟨t.id, e.request⟩
  | _ => none

namespace Session

/-- The tasks besides the one that runs. -/
def others (s : Session) : Option Turn → List Task
  | none => s.tasks
  | some c => s.tasks.filter fun t => t.id != c.task

/-- Something is going to let a task go on. -/
def Waits (s : Session) (t : Task) : Prop :=
  match t.activity with
  | .errand _ _ .called => True
  | .errand _ _ .backoff => ∃ x ∈ s.timers, x.task = t.id
  | .reading r _ => ∃ id, r.todo.head? = some id ∧ s.cache.Flies r.store id
  | .awaiting i id _ => s.cache.Flies i id
  | .turn o _ => ∃ n q, s.footer o = .loading n q ∧ t.id ∈ q
  | _ => False

/-- A task that deals with a footer is the one that loads it, or waits for it. -/
def Placed (s : Session) (t : Task) : Prop :=
  match t.activity with
  | .reading _ use => ∀ o, use.object? = some o → ∃ q, s.footer o = .loading t.id q
  | .turn o _ => (∃ n q, s.footer o = .loading n q ∧ t.id ∈ n :: q) ∨ ∃ f, s.footer o = .loaded f
  | _ => True

/-- A footer is loaded by one task, while others wait for it. -/
structure Held (s : Session) (cur : Option Turn) (o n : Nat) (q : List Nat) : Prop where
  nodup : (n :: q).Nodup
  waiting : ∀ x ∈ q, ∃ goal, ⟨x, .turn o goal⟩ ∈ s.others cur
  holder : (∃ c, cur = some c ∧ c.task = n ∧ c.loads = some o) ∨ ∃ a, ⟨n, a⟩ ∈ s.others cur ∧ a.footer? = some o

/-- The objects of streams, and those that are kept, are there. -/
structure Within (s : Session) : Prop where
  streams : ∀ x ∈ s.streams, x.object < s.footers.length
  entries : ∀ x ∈ s.registry.entries, x.object < s.footers.length

/-- What holds of a session while a task runs, or none. -/
structure Sound (C : Contents) (cur : Option Turn) (s : Session) : Prop where
  cache : Work.Sound C ⟨s.cache, []⟩
  quiet : s.cache.notices = []
  busy : s.cache.queue.next? = none
  limits : s.cache.queue.config = s.config.queue
  grids : ∀ ⦃i : Nat⦄ ⦃x : Store⦄, s.cache.stores[i]? = some x → x.config = s.config.store
  footers : s.footers.length = s.cache.stores.length
  within : s.Within
  ids : (s.tasks.map (·.id)).Nodup
  fresh : ∀ t ∈ s.tasks, t.id < s.nextTask
  past : ∀ e ∈ s.ended, e.1 < s.nextTask
  present : ∀ c, cur = some c → c.task ∈ s.tasks.map (·.id)
  jobs : ((s.others cur).filterMap (·.activity.job?) ++ (cur.bind (·.job)).toList).Perm s.cache.queue.running
  calls : s.calls.Perm ((s.others cur).filterMap Task.call?)
  right : ∀ t ∈ s.others cur, t.activity.Right C s.cache
  awake : ∀ t ∈ s.others cur, t.id ∈ s.runnable ∨ s.Waits t
  placed : ∀ t ∈ s.others cur, s.Placed t
  held : ∀ o n q, s.footer o = .loading n q → s.Held cur o n q
  lock : ∀ c o, cur = some c → c.loads = some o → o < s.footers.length → ∃ q, s.footer o = .loading c.task q

/-! ### Tasks -/

section Tasks
variable {s : Session} {t : Task} {c : Turn} {a : Activity}

theorem mem_others : t ∈ s.others (some c) ↔ t ∈ s.tasks ∧ t.id ≠ c.task := by
  simp [others]

theorem perm_others (h : (s.tasks.map (·.id)).Nodup) (ht : t ∈ s.tasks) (hc : c.task = t.id) :
    s.tasks.Perm (t :: s.others (some c)) := by
  rw [others, hc]
  exact perm_cons_filter_ne (f := fun x : Task => x.id) h ht

theorem eq_of_task_id (h : (s.tasks.map (·.id)).Nodup) {u : Task} (ht : t ∈ s.tasks) (hu : u ∈ s.tasks)
    (hid : t.id = u.id) : t = u := List.inj_on_of_nodup_map h ht hu hid

theorem mem_of_task?_eq_some {id : Nat} (h : s.task? id = some t) : t ∈ s.tasks ∧ t.id = id :=
  mem_of_find?_key (f := fun u : Task => u.id) h

theorem task?_eq_some (h : (s.tasks.map (·.id)).Nodup) (ht : t ∈ s.tasks) : s.task? t.id = some t :=
  find?_key (f := fun u : Task => u.id) h ht

theorem map_id_become (id : Nat) (a : Activity) : (s.become id a).tasks.map (·.id) = s.tasks.map (·.id) := by
  simp only [become, List.map_map]
  refine List.map_congr_left fun t _ => ?_
  by_cases h : t.id = id <;> simp [h]

theorem others_become (id : Nat) (a : Activity) (hc : c.task = id) :
    (s.become id a).others (some c) = s.others (some c) := by
  subst hc
  simp only [others, become, List.filter_map]
  refine (List.map_congr_left fun t ht => ?_).trans ((List.map_id _).trans ?_)
  · have := (List.mem_filter.mp ht).2
    by_cases h : t.id = c.task
    · simp [h] at this
    · simp [h]
  · refine List.filter_congr fun t _ => ?_
    by_cases h : t.id = c.task <;> simp [h]

theorem perm_become (h : (s.tasks.map (·.id)).Nodup) (hc : c.task ∈ s.tasks.map (·.id)) (a : Activity) :
    (s.become c.task a).tasks.Perm (⟨c.task, a⟩ :: s.others (some c)) := by
  have hmem : ⟨c.task, a⟩ ∈ (s.become c.task a).tasks := by
    obtain ⟨t, ht, hid⟩ := List.mem_map.mp hc
    refine List.mem_map.mpr ⟨t, ht, ?_⟩
    rw [if_pos hid]
    cases t
    cases hid
    rfl
  have hp := perm_others (s := s.become c.task a) (c := c) (by rw [map_id_become]; exact h) hmem rfl
  rwa [others_become _ _ rfl] at hp

end Tasks

/-! ### Waiting -/

section Waits
variable {s s' : Session} {t : Task} {cur cur' : Option Turn} {o n : Nat} {q : List Nat}

/-- A task goes on waiting unless it loses the block or the footer that it waits for. -/
theorem Waits.or_of (h : s.Waits t) {p : Prop} (htimers : s.timers ⊆ s'.timers)
    (hflies : ∀ i id, waitsFor i id t.activity = true → s.cache.Flies i id → p ∨ s'.cache.Flies i id)
    (hfooter : ∀ o n q, s.footer o = .loading n q → t.id ∈ q → p ∨ ∃ n q, s'.footer o = .loading n q ∧ t.id ∈ q) :
    p ∨ s'.Waits t := by
  unfold Waits at h ⊢
  split at h
  · exact Or.inr h
  · obtain ⟨x, hx, hxt⟩ := h
    exact Or.inr ⟨x, htimers hx, hxt⟩
  · rename_i r use ha
    obtain ⟨id, hhead, hf⟩ := h
    exact (hflies r.store id (by simp [ha, waitsFor, hhead]) hf).imp_right fun hf => ⟨id, hhead, hf⟩
  · rename_i i id owner ha
    exact hflies i id (by simp [ha, waitsFor]) h
  · obtain ⟨n, q, ho, hq⟩ := h
    exact hfooter _ n q ho hq
  · exact h.elim

theorem Waits.mono (h : s.Waits t) (htimers : s.timers ⊆ s'.timers)
    (hflies : ∀ i id, s.cache.Flies i id → s'.cache.Flies i id) (hfooter : ∀ o, s'.footer o = s.footer o) :
    s'.Waits t := by
  refine (h.or_of (p := False) htimers ?_ ?_).resolve_left id
  · intro i id _ hf
    exact Or.inr (hflies i id hf)
  · intro o n q ho hq
    exact Or.inr ⟨n, q, (hfooter o).trans ho, hq⟩

theorem Placed.mono (h : s.Placed t)
    (hloads : ∀ o q, s.footer o = .loading t.id q → ∃ q, s'.footer o = .loading t.id q)
    (hturn : ∀ o n q, s.footer o = .loading n q → t.id ∈ n :: q →
      (∃ n q, s'.footer o = .loading n q ∧ t.id ∈ n :: q) ∨ ∃ f, s'.footer o = .loaded f)
    (hloaded : ∀ o f, s.footer o = .loaded f → ∃ f, s'.footer o = .loaded f) : s'.Placed t := by
  unfold Placed at h ⊢
  split at h
  · intro o ho
    obtain ⟨q, hq⟩ := h o ho
    exact hloads o q hq
  · rcases h with ⟨n, q, ho, hm⟩ | ⟨f, hf⟩
    · exact hturn _ n q ho hm
    · exact Or.inr (hloaded _ f hf)
  · exact h

theorem Placed.congr (h : s.Placed t) (hfooter : ∀ o, s'.footer o = s.footer o) : s'.Placed t := by
  refine h.mono ?_ ?_ ?_
  · intro o q ho
    exact ⟨q, (hfooter o).trans ho⟩
  · intro o n q ho hm
    exact Or.inl ⟨n, q, (hfooter o).trans ho, hm⟩
  · intro o f ho
    exact ⟨f, (hfooter o).trans ho⟩

theorem Held.mono (h : s.Held cur o n q) (hothers : ∀ u ∈ s.others cur, u ∈ s'.others cur')
    (hcur : ∀ c, cur = some c → c.loads = some o → (∃ c', cur' = some c' ∧ c'.task = c.task ∧ c'.loads = some o) ∨
      ∃ a, ⟨c.task, a⟩ ∈ s'.others cur' ∧ a.footer? = some o) : s'.Held cur' o n q where
  nodup := h.nodup
  waiting x hx := by
    obtain ⟨goal, hm⟩ := h.waiting x hx
    exact ⟨goal, hothers _ hm⟩
  holder := by
    rcases h.holder with ⟨c, hc, rfl, hl⟩ | ⟨a, hm, ha⟩
    · exact hcur c hc hl
    · exact Or.inr ⟨a, hothers _ hm, ha⟩

theorem Held.congr (h : s.Held cur o n q) (htasks : s'.tasks = s.tasks) : s'.Held cur o n q := by
  have hothers : s'.others cur = s.others cur := by cases cur <;> simp only [others, htasks]
  refine h.mono (fun u hu => hothers ▸ hu) ?_
  intro c hc hl
  exact Or.inl ⟨c, hc, rfl, hl⟩

end Waits

/-- Whoever cannot wait has to be among those that can go on. -/
theorem Sound.reschedule {C : Contents} {s : Session} {cur : Option Turn} (h : s.Sound C cur) {r : List Nat}
    (hawake : ∀ u ∈ s.others cur, u.id ∈ r ∨ s.Waits u) : ({ s with runnable := r } : Session).Sound C cur := by
  refine { h with within := ⟨h.within.streams, h.within.entries⟩, awake := hawake, held := ?_ }
  intro o n q ho
  exact (h.held o n q ho).congr rfl

/-! ### A task begins to run -/

section Pick
variable {C : Contents} {s : Session} {t : Task}

/-- A task begins to run, with the footer in hand that it loads. If it waited for an answer, it does no longer. -/
theorem Sound.pick (h : s.Sound C none) (ht : t ∈ s.tasks) {r : List Nat} (hr : ∀ x ∈ s.runnable, x ≠ t.id → x ∈ r)
    (loads : Option Nat) (calls : List Call) (hcalls : s.calls.Perm (t.call?.toList ++ calls))
    (hqueue : ∀ o n q, s.footer o = .loading n q → t.id ∉ q)
    (hhold : ∀ o q, s.footer o = .loading t.id q → loads = some o)
    (hload : ∀ o, loads = some o → ∃ q, s.footer o = .loading t.id q) :
    ({ s with runnable := r, calls } : Session).Sound C (some ⟨t.id, loads, t.activity.job?⟩) := by
  have hp : s.tasks.Perm (t :: s.others (some ⟨t.id, loads, t.activity.job?⟩)) := perm_others h.ids ht rfl
  have hsub : ∀ u ∈ s.others (some ⟨t.id, loads, t.activity.job?⟩), u ∈ s.tasks ∧ u.id ≠ t.id :=
    fun u hu => mem_others.mp hu
  refine ⟨h.cache, h.quiet, h.busy, h.limits, h.grids, h.footers, ⟨h.within.streams, h.within.entries⟩, h.ids, h.fresh,
    h.past, ?_, ?_, ?_, ?_, ?_, ?_, ?_, ?_⟩
  · rintro c hc
    cases hc
    exact List.mem_map_of_mem ht
  · have hjobs := (hp.filterMap (·.activity.job?)).symm.trans (by simpa [others] using h.jobs)
    refine List.Perm.trans ?_ hjobs
    rw [List.filterMap_cons]
    cases t.activity.job? with
    | none => exact .of_eq (List.append_nil _)
    | some j => exact List.perm_append_singleton _ _
  · have htasks := h.calls.trans (hp.filterMap Task.call?)
    rw [List.filterMap_cons] at htasks
    cases hcall : t.call? with
    | none =>
      rw [hcall] at htasks hcalls
      exact hcalls.symm.trans htasks
    | some x =>
      rw [hcall] at htasks hcalls
      exact (hcalls.symm.trans htasks).cons_inv
  · exact fun u hu => h.right u (hsub u hu).1
  · exact fun u hu => (h.awake u (hsub u hu).1).imp (fun hm => hr _ hm (hsub u hu).2) id
  · exact fun u hu => h.placed u (hsub u hu).1
  · intro o n q ho
    obtain ⟨hnodup, hwaiting, hholder⟩ := h.held o n q ho
    refine ⟨hnodup, fun x hx => ?_, ?_⟩
    · obtain ⟨goal, hm⟩ := hwaiting x hx
      exact ⟨goal, mem_others.mpr ⟨hm, fun (he : x = t.id) => hqueue o n q ho (he ▸ hx)⟩⟩
    · by_cases hn : n = t.id
      · subst hn
        exact Or.inl ⟨_, rfl, rfl, hhold o q ho⟩
      · rcases hholder with ⟨c, hc, -⟩ | ⟨a, hm, ha⟩
        · cases hc
        · exact Or.inr ⟨a, mem_others.mpr ⟨hm, hn⟩, ha⟩
  · rintro c o hc hl -
    cases hc
    exact hload o hl

theorem Sound.eq_of_mem (h : s.Sound C none) (ht : t ∈ s.tasks) {a : Activity} (ha : ⟨t.id, a⟩ ∈ s.tasks) :
    t.activity = a :=
  congrArg Task.activity (eq_of_task_id h.ids ht ha rfl)

theorem Sound.pick_of (h : s.Sound C none) (ht : t ∈ s.tasks) {r : List Nat} (hr : ∀ x ∈ s.runnable, x ≠ t.id → x ∈ r)
    (calls : List Call) (hcalls : s.calls.Perm (t.call?.toList ++ calls))
    (hturn : ∀ o goal, t.activity ≠ .turn o goal) :
    ({ s with runnable := r, calls } : Session).Sound C (some ⟨t.id, t.activity.footer?, t.activity.job?⟩) := by
  refine h.pick ht hr _ calls hcalls (fun o n q ho hq => ?_) (fun o q ho => ?_) fun o ho => ?_
  · obtain ⟨goal, hm⟩ := (h.held o n q ho).waiting _ hq
    exact hturn o goal (h.eq_of_mem ht hm)
  · rcases (h.held o _ q ho).holder with ⟨c, hc, -⟩ | ⟨a, hm, ha⟩
    · cases hc
    · exact h.eq_of_mem ht hm ▸ ha
  · have hpl := h.placed t ht
    unfold Placed at hpl
    unfold Activity.footer? at ho
    split at ho
    · rename_i r use hact
      rw [hact] at hpl
      exact hpl o ho
    · rename_i o' goal hact
      exact absurd hact (hturn o' goal)
    · cases ho

/-- A task that waits for its turn with a footer has to do with no other footer. -/
theorem Sound.eq_of_turn (h : s.Sound C none) (ht : t ∈ s.tasks) {o k n : Nat} {goal : Goal} {q : List Nat}
    (hturn : t.activity = .turn o goal) (hk : s.footer k = .loading n q) (hm : t.id ∈ n :: q) : k = o := by
  rcases List.mem_cons.mp hm with rfl | hq
  · rcases (h.held k _ q hk).holder with ⟨c, hc, -⟩ | ⟨a, ha, hfooter⟩
    · cases hc
    · rw [← h.eq_of_mem ht ha, hturn] at hfooter
      exact (Option.some.inj hfooter).symm
  · obtain ⟨goal', hm⟩ := (h.held k n q hk).waiting _ hq
    cases hturn.symm.trans (h.eq_of_mem ht hm)
    rfl

/-- A task whose turn it is to load a footer begins to run. -/
theorem Sound.pick_turn (h : s.Sound C none) (ht : t ∈ s.tasks) {r : List Nat}
    (hr : ∀ x ∈ s.runnable, x ≠ t.id → x ∈ r) {o : Nat} {goal : Goal} (hturn : t.activity = .turn o goal) {q : List Nat}
    (ho : s.footer o = .loading t.id q) :
    ({ s with runnable := r } : Session).Sound C (some ⟨t.id, some o, none⟩) := by
  have hpick := h.pick ht hr (some o) s.calls (by rw [Task.call?, hturn]; exact .refl _) ?_ ?_ ?_
  · rwa [hturn] at hpick
  · intro k n q' hk hq
    obtain rfl := h.eq_of_turn ht hturn hk (List.mem_cons_of_mem _ hq)
    cases ho.symm.trans hk
    exact (List.nodup_cons.mp (h.held k _ q ho).nodup).1 hq
  · intro k q' hk
    rw [h.eq_of_turn ht hturn hk List.mem_cons_self]
  · intro k hk
    cases hk
    exact ⟨q, ho⟩

/-- A task whose footer is known begins to run. -/
theorem Sound.pick_known (h : s.Sound C none) (ht : t ∈ s.tasks) {r : List Nat}
    (hr : ∀ x ∈ s.runnable, x ≠ t.id → x ∈ r) {o : Nat} {goal : Goal} (hturn : t.activity = .turn o goal)
    {f : FooterState} (ho : s.footer o = .loaded f) :
    ({ s with runnable := r } : Session).Sound C (some ⟨t.id, none, none⟩) := by
  -- A footer that is known is not loaded by anybody.
  have hno : ∀ k n q, s.footer k = .loading n q → t.id ∉ n :: q := by
    intro k n q hk hm
    obtain rfl := h.eq_of_turn ht hturn hk hm
    cases ho.symm.trans hk
  have hpick := h.pick ht hr none s.calls (by rw [Task.call?, hturn]; exact .refl _) ?_ ?_ nofun
  · rwa [hturn] at hpick
  · intro k n q hk hq
    exact hno k n q hk (List.mem_cons_of_mem _ hq)
  · intro k q hk
    exact absurd List.mem_cons_self (hno k _ q hk)

theorem Sound.doze (h : s.Sound C none) (ht : t ∈ s.tasks) {r : List Nat} (hr : ∀ x ∈ s.runnable, x ≠ t.id → x ∈ r)
    (hw : s.Waits t) : ({ s with runnable := r } : Session).Sound C none := by
  refine h.reschedule ?_
  intro u hu
  by_cases hid : u.id = t.id
  · exact Or.inr (eq_of_task_id h.ids hu ht hid ▸ hw)
  · exact (h.awake u hu).imp_left fun hm => hr _ hm hid

end Pick

/-! ### A task comes to rest -/

section Rest
variable {C : Contents} {s : Session} {c : Turn}

/-- The task that runs turns to something, and what the others wait for is still there. -/
theorem Sound.rest_of (h : s.Sound C (some c)) {a : Activity} {s' : Session} (hcache : s'.cache = s.cache)
    (hconfig : s'.config = s.config) (hended : s'.ended = s.ended) (hwithin : s'.Within)
    (hfooters : s'.footers.length = s.footers.length) (htasks : s'.tasks = (s.become c.task a).tasks)
    (hnext : s'.nextTask = s.nextTask) (hjob : a.job? = c.job)
    (hcalls : s'.calls.Perm ((Task.call? ⟨c.task, a⟩).toList ++ s.calls)) (hright : a.Right C s.cache)
    (hawake : ∀ u, u = ⟨c.task, a⟩ ∨ u ∈ s.others (some c) → u.id ∈ s'.runnable ∨ s'.Waits u)
    (hplaced : ∀ u, u = ⟨c.task, a⟩ ∨ u ∈ s.others (some c) → s'.Placed u)
    (hheld : ∀ o n q, s'.footer o = .loading n q → s'.Held none o n q) : s'.Sound C none := by
  have hp : s'.tasks.Perm (⟨c.task, a⟩ :: s.others (some c)) := htasks ▸ perm_become h.ids (h.present c rfl) a
  have hmem : ∀ {u : Task}, u ∈ s'.tasks → u = ⟨c.task, a⟩ ∨ u ∈ s.others (some c) := fun hu =>
    List.mem_cons.mp (hp.mem_iff.mp hu)
  refine ⟨hcache ▸ h.cache, hcache ▸ h.quiet, hcache ▸ h.busy, ?_, ?_, ?_, hwithin, ?_, ?_, ?_, nofun, ?_, ?_, ?_,
    fun u hu => hawake u (hmem hu), fun u hu => hplaced u (hmem hu), hheld, nofun⟩
  · rw [hcache, hconfig]
    exact h.limits
  · rw [hcache, hconfig]
    exact h.grids
  · rw [hfooters, hcache]
    exact h.footers
  · rw [htasks, map_id_become]
    exact h.ids
  · intro u hu
    rw [hnext]
    rcases hmem hu with rfl | hu
    · obtain ⟨v, hv, hid⟩ := List.mem_map.mp (h.present c rfl)
      exact hid ▸ h.fresh v hv
    · exact h.fresh u (mem_others.mp hu).1
  · rw [hended, hnext]
    exact h.past
  · rw [hcache]
    refine List.Perm.trans ?_ h.jobs
    simp only [Option.bind_none, Option.toList_none, List.append_nil, Option.bind_some]
    refine (hp.filterMap (·.activity.job?)).trans ?_
    rw [List.filterMap_cons, hjob]
    cases c.job with
    | none => simp
    | some j => exact (List.perm_append_singleton _ _).symm
  · refine hcalls.trans ?_
    refine List.Perm.trans ?_ (hp.filterMap Task.call?).symm
    rw [List.filterMap_cons]
    cases Task.call? ⟨c.task, a⟩ with
    | none => exact h.calls
    | some x => exact h.calls.cons x
  · intro u hu
    rw [hcache]
    rcases hmem hu with rfl | hu
    · exact hright
    · exact h.right u hu

/-- The task that runs turns to something in which it can wait. -/
theorem Sound.rest (h : s.Sound C (some c)) {a : Activity} {calls : List Call} {timers : List Timer}
    (made : List (Nat × Request)) (hjob : a.job? = c.job)
    (hcalls : calls.Perm ((Task.call? ⟨c.task, a⟩).toList ++ s.calls))
    (htimers : s.timers ⊆ timers) (hright : a.Right C s.cache)
    (hawake : c.task ∈ s.runnable ∨ ({ s with timers } : Session).Waits ⟨c.task, a⟩) (hplaced : s.Placed ⟨c.task, a⟩)
    (hload : ∀ o, c.loads = some o → a.footer? = some o) :
    ({ s.become c.task a with calls, timers, made } : Session).Sound C none := by
  have hp := perm_become h.ids (h.present c rfl) a
  refine h.rest_of rfl rfl rfl ⟨h.within.streams, h.within.entries⟩ rfl rfl rfl hjob hcalls hright ?_ ?_ ?_
  · rintro u (rfl | hu)
    · exact hawake
    · exact (h.awake u hu).imp id fun hw => hw.mono htimers (fun _ _ hf => hf) fun _ => rfl
  · rintro u (rfl | hu)
    · exact hplaced
    · exact h.placed u hu
  · intro o n q ho
    refine (h.held o n q ho).mono (fun u hu => hp.mem_iff.mpr (List.mem_cons_of_mem _ hu)) ?_
    intro c' hc' hl
    cases hc'
    exact Or.inr ⟨a, hp.mem_iff.mpr List.mem_cons_self, hload o hl⟩

theorem Sound.leave {t : Nat} (h : s.Sound C (some ⟨t, none, none⟩)) : (s.leave t).Sound C none := by
  have hsub : (s.leave t).tasks.Sublist s.tasks := List.filter_sublist
  refine ⟨h.cache, h.quiet, h.busy, h.limits, h.grids, h.footers, ⟨h.within.streams, h.within.entries⟩,
    h.ids.sublist (hsub.map _), fun u hu => h.fresh u (hsub.mem hu), h.past, nofun, h.jobs, h.calls, h.right, h.awake,
    h.placed, ?_, nofun⟩
  intro o n q ho
  refine (h.held o n q ho).mono (fun u hu => hu) ?_
  intro c hc hl
  cases hc
  cases hl

theorem Sound.finish {t : Nat} (h : s.Sound C (some ⟨t, none, none⟩)) (o : Outcome) : (s.finish t o).Sound C none := by
  refine { h.leave with within := ⟨h.within.streams, h.within.entries⟩, past := ?_, held := ?_ }
  · intro e he
    rcases List.mem_cons.mp he with rfl | he
    · obtain ⟨u, hu, rfl⟩ := List.mem_map.mp (h.present _ rfl)
      exact h.fresh u hu
    · exact h.past e he
  · intro o n q ho
    exact (h.leave.held o n q ho).congr rfl

end Rest

/-! ### Footers -/

section Footers
variable {C : Contents} {s : Session} {t o : Nat}

theorem footer_setFooter (s : Session) (o : Nat) (cell : FooterCell) (k : Nat) :
    (s.setFooter o cell).footer k = if k = o ∧ o < s.footers.length then cell else s.footer k := by
  simp only [footer, setFooter, List.getElem?_set]
  by_cases hk : o = k
  · subst hk
    by_cases hlen : o < s.footers.length
    · simp [hlen]
    · simp [hlen]
  · simp [hk, Ne.symm hk]

theorem footer_of_le (hlen : ¬o < s.footers.length) : s.footer o = .unloaded := by
  simp [footer, List.getElem?_eq_none (Nat.le_of_not_lt hlen)]

theorem lt_of_footer_ne (h : s.footer o ≠ .unloaded) : o < s.footers.length := by
  by_contra hlen
  exact h (footer_of_le hlen)

theorem exists_resumeAll (l : List Nat) (s : Session) :
    ∃ r, l.foldl resume s = { s with runnable := r } ∧ s.runnable ⊆ r ∧ ∀ x ∈ l, x ∈ r := by
  induction l generalizing s with
  | nil => exact ⟨s.runnable, rfl, fun _ h => h, nofun⟩
  | cons x l ih =>
    obtain ⟨r, hr, hsub, hall⟩ := ih (s.resume x)
    have hres : ∃ r', s.resume x = { s with runnable := r' } ∧ s.runnable ⊆ r' ∧ x ∈ r' := by
      unfold resume
      split
      · rename_i hx
        exact ⟨s.runnable, rfl, fun _ h => h, by simpa using hx⟩
      · exact ⟨_, rfl, fun _ h => List.mem_append_left _ h, by simp⟩
    obtain ⟨r', hr', hsub', hx⟩ := hres
    rw [hr'] at hr hsub
    refine ⟨r, by rw [List.foldl_cons, hr', hr], fun _ h => hsub (hsub' h), fun y hy => ?_⟩
    rcases List.mem_cons.mp hy with rfl | hy
    · exact hsub hx
    · exact hall y hy

theorem Within.setFooter (h : s.Within) (o : Nat) (cell : FooterCell) : (s.setFooter o cell).Within := by
  constructor <;> intro x hx <;> dsimp only [Session.setFooter] <;> rw [List.length_set]
  · exact h.streams x hx
  · exact h.entries x hx

theorem setFooter_of_le (hlen : ¬o < s.footers.length) (cell : FooterCell) : s.setFooter o cell = s := by
  unfold setFooter
  rw [List.set_eq_of_length_le (Nat.le_of_not_lt hlen)]

/-- What is known of a footer changes while a task runs that has nothing else in hand. -/
theorem Sound.changeFooter {l l' : Option Nat} (h : s.Sound C (some ⟨t, l, none⟩)) (hl : ∀ k, l = some k → k = o)
    (hlen : o < s.footers.length) {old cell : FooterCell} (ho : s.footer o = old) {r : List Nat} (hr : s.runnable ⊆ r)
    (hheld : ∀ n q, cell = .loading n q → s.Held (some ⟨t, l', none⟩) o n q)
    (hawake : ∀ u ∈ s.others (some ⟨t, l, none⟩), ∀ n q, old = .loading n q → u.id ∈ q →
      u.id ∈ r ∨ ∃ n q, cell = .loading n q ∧ u.id ∈ q)
    (hreads : ∀ u ∈ s.others (some ⟨t, l, none⟩), ∀ q, old = .loading u.id q → ∃ q, cell = .loading u.id q)
    (hturns : ∀ u ∈ s.others (some ⟨t, l, none⟩), ∀ n q, old = .loading n q → u.id ∈ n :: q →
      (∃ n q, cell = .loading n q ∧ u.id ∈ n :: q) ∨ ∃ f, cell = .loaded f)
    (hloaded : ∀ f, old ≠ .loaded f) (hlock : ∀ k, l' = some k → k = o ∧ ∃ q, cell = .loading t q) :
    ({ s.setFooter o cell with runnable := r } : Session).Sound C (some ⟨t, l', none⟩) := by
  subst ho
  have hself : ({ s.setFooter o cell with runnable := r } : Session).footer o = cell := by
    have := footer_setFooter s o cell o
    rwa [if_pos ⟨rfl, hlen⟩] at this
  have hne : ∀ k, k ≠ o → ({ s.setFooter o cell with runnable := r } : Session).footer k = s.footer k := by
    intro k hk
    have := footer_setFooter s o cell k
    rwa [if_neg fun hko => hk hko.1] at this
  refine ⟨h.cache, h.quiet, h.busy, h.limits, h.grids, (List.length_set ..).trans h.footers,
    ⟨(h.within.setFooter o cell).streams, (h.within.setFooter o cell).entries⟩, h.ids, h.fresh, h.past, ?_, h.jobs,
    h.calls, h.right, ?_, ?_, ?_, ?_⟩
  · intro c hc
    cases hc
    exact h.present ⟨t, l, none⟩ rfl
  · intro u hu
    rcases h.awake u hu with hm | hw
    · exact Or.inl (hr hm)
    · refine hw.or_of (fun _ hx => hx) (fun _ _ _ hf => Or.inr hf) ?_
      intro k n q hk hq
      by_cases hko : k = o
      · subst hko
        rw [hself]
        exact hawake u hu n q hk hq
      · exact Or.inr ⟨n, q, (hne k hko).trans hk, hq⟩
  · intro u hu
    refine (h.placed u hu).mono ?_ ?_ ?_
    · intro k q hk
      by_cases hko : k = o
      · subst hko
        rw [hself]
        exact hreads u hu q hk
      · exact ⟨q, (hne k hko).trans hk⟩
    · intro k n q hk hm
      by_cases hko : k = o
      · subst hko
        rw [hself]
        exact hturns u hu n q hk hm
      · exact Or.inl ⟨n, q, (hne k hko).trans hk, hm⟩
    · intro k f hf
      by_cases hko : k = o
      · exact absurd (hko ▸ hf) (hloaded f)
      · exact ⟨f, (hne k hko).trans hf⟩
  · intro k n q hk
    by_cases hko : k = o
    · subst hko
      exact (hheld n q (hself.symm.trans hk)).congr rfl
    · refine (h.held k n q ((hne k hko).symm.trans hk)).mono (fun u hu => hu) ?_
      intro c hc hck
      cases hc
      exact absurd (hl k hck) hko
  · rintro c k hc hk -
    cases hc
    obtain ⟨rfl, q, hq⟩ := hlock k hk
    exact ⟨q, hself.trans hq⟩

/-- The task that runs takes another footer in hand, or none, and nothing is loaded by it. -/
theorem Sound.handOver {l l' : Option Nat} (h : s.Sound C (some ⟨t, l, none⟩))
    (hl : ∀ k, l = some k → ∀ n q, s.footer k ≠ .loading n q) (hl' : ∀ k, l' = some k → ¬k < s.footers.length) :
    s.Sound C (some ⟨t, l', none⟩) := by
  refine { h with present := ?_, held := ?_, lock := ?_ }
  · intro c hc
    cases hc
    exact h.present ⟨t, l, none⟩ rfl
  · intro k n q hk
    refine (h.held k n q hk).mono (fun u hu => hu) ?_
    intro c hc hck
    cases hc
    exact absurd hk (hl k hck n q)
  · intro c k hc hk hlt
    cases hc
    exact absurd hlt (hl' k hk)

/-- The task that runs begins to load a footer that nobody loads. -/
theorem Sound.beginLoad (h : s.Sound C (some ⟨t, none, none⟩)) (ho : s.footer o = .unloaded) :
    (s.setFooter o (.loading t [])).Sound C (some ⟨t, some o, none⟩) := by
  by_cases hlen : o < s.footers.length
  · refine h.changeFooter (r := s.runnable) nofun hlen ho (fun _ hm => hm) ?_ nofun nofun nofun nofun ?_
    · intro n q hcell
      cases hcell
      exact ⟨List.nodup_singleton _, nofun, Or.inl ⟨_, rfl, rfl, rfl⟩⟩
    · intro k hk
      cases hk
      exact ⟨rfl, [], rfl⟩
  · -- There is no such footer, and nothing changes.
    rw [setFooter_of_le hlen]
    refine h.handOver nofun ?_
    intro k hk
    cases hk
    exact hlen

/-- A footer that is not there need not be given back. -/
theorem Sound.loads_nothing (h : s.Sound C (some ⟨t, some o, none⟩)) (hlen : ¬o < s.footers.length) :
    s.Sound C (some ⟨t, none, none⟩) := by
  refine h.handOver ?_ nofun
  intro k hk n q ho
  cases hk
  rw [footer_of_le hlen] at ho
  cases ho

/-- The tasks that wait for a footer. -/
def queueOf : FooterCell → List Nat
  | .loading _ q => q
  | _ => []

/-- The footer that the running task loads is known, and all who wait for it go on. -/
theorem Sound.endLoad (h : s.Sound C (some ⟨t, some o, none⟩)) (f : FooterState) :
    ((queueOf (s.footer o)).foldl resume (s.setFooter o (.loaded f))).Sound C (some ⟨t, none, none⟩) := by
  obtain ⟨r, hr, hsub, hall⟩ := exists_resumeAll (queueOf (s.footer o)) (s.setFooter o (.loaded f))
  rw [hr]
  by_cases hlen : o < s.footers.length
  · obtain ⟨q, hq⟩ := h.lock _ o rfl rfl hlen
    rw [hq] at hall
    refine h.changeFooter (fun k hk => (Option.some.inj hk).symm) hlen hq hsub nofun ?_ ?_ ?_ nofun nofun
    · intro u _ n q' hold hu
      cases hold
      exact Or.inl (hall u.id hu)
    · -- The task that loads the footer is the one that runs.
      intro u hu q' hold
      cases hold
      exact absurd rfl (mem_others.mp hu).2
    · intro u _ n q' _ _
      exact Or.inr ⟨f, rfl⟩
  · have hfree := h.loads_nothing hlen
    rw [setFooter_of_le hlen] at hsub ⊢
    exact hfree.reschedule fun u hu => (hfree.awake u hu).imp_left fun hm => hsub hm

/-- The footer that the running task tried to load could not be fetched: the task that waits longest is to try. -/
theorem Sound.failLoad (h : s.Sound C (some ⟨t, some o, none⟩)) :
    (match s.footer o with
      | .loading _ (x :: q) => (s.setFooter o (.loading x q)).resume x
      | _ => s.setFooter o .unloaded).Sound C (some ⟨t, none, none⟩) := by
  by_cases hlen : o < s.footers.length
  · obtain ⟨q, hq⟩ := h.lock _ o rfl rfl hlen
    obtain ⟨hnodup, hwaiting, -⟩ := h.held o t q hq
    -- The task that loads the footer is the one that runs.
    have hno : ∀ u ∈ s.others (some ⟨t, some o, none⟩), u.id ≠ t := fun u hu => (mem_others.mp hu).2
    have hown : ∀ k, some o = some k → k = o := fun k hk => (Option.some.inj hk).symm
    rw [hq]
    cases q with
    | nil =>
      refine h.changeFooter (r := s.runnable) hown hlen hq (fun _ hm => hm) nofun ?_ ?_ ?_ nofun nofun
      · intro u _ n q' hold hu
        cases hold
        cases hu
      · intro u hu q' hold
        cases hold
        exact absurd rfl (hno u hu)
      · intro u hu n q' hold hm
        cases hold
        exact absurd (List.mem_singleton.mp hm) (hno u hu)
    | cons x q =>
      obtain ⟨r, hr, hsub, hall⟩ := exists_resumeAll [x] (s.setFooter o (.loading x q))
      have hr' : (s.setFooter o (.loading x q)).resume x = { s.setFooter o (.loading x q) with runnable := r } := hr
      dsimp only
      rw [hr']
      refine h.changeFooter hown hlen hq hsub ?_ ?_ ?_ ?_ nofun nofun
      · intro n q' hcell
        cases hcell
        obtain ⟨goal, hm⟩ := hwaiting x List.mem_cons_self
        exact ⟨(List.nodup_cons.mp hnodup).2, fun y hy => hwaiting y (List.mem_cons_of_mem _ hy), Or.inr ⟨_, hm, rfl⟩⟩
      · intro u _ n q' hold hu
        cases hold
        rcases List.mem_cons.mp hu with hux | hu
        · exact Or.inl (hux ▸ hall x List.mem_cons_self)
        · exact Or.inr ⟨x, q, rfl, hu⟩
      · intro u hu q' hold
        cases hold
        exact absurd rfl (hno u hu)
      · intro u hu n q' hold hm
        cases hold
        exact Or.inl ⟨x, q, rfl, (List.mem_cons.mp hm).resolve_left (hno u hu)⟩
  · rw [footer_of_le hlen]
    dsimp only
    rw [setFooter_of_le hlen]
    exact h.loads_nothing hlen

theorem Sound.exists_holder (h : s.Sound C (some ⟨t, none, none⟩)) {n : Nat} {q : List Nat}
    (ho : s.footer o = .loading n q) : ∃ a, ⟨n, a⟩ ∈ s.others (some ⟨t, none, none⟩) ∧ a.footer? = some o := by
  rcases (h.held o n q ho).holder with ⟨c, hc, -, hl⟩ | hm
  · cases hc
    cases hl
  · exact hm

theorem Sound.not_mem_queue (h : s.Sound C (some ⟨t, none, none⟩)) {n : Nat} {q : List Nat}
    (ho : s.footer o = .loading n q) : t ∉ n :: q := by
  intro hm
  rcases List.mem_cons.mp hm with rfl | hm
  · obtain ⟨a, hn, -⟩ := h.exists_holder ho
    exact (mem_others.mp hn).2 rfl
  · obtain ⟨goal, hm'⟩ := (h.held o n q ho).waiting t hm
    exact (mem_others.mp hm').2 rfl

/-- The task that runs waits for a footer that another one loads. -/
theorem Sound.queueUp (h : s.Sound C (some ⟨t, none, none⟩)) {n : Nat} {q : List Nat} (ho : s.footer o = .loading n q)
    (goal : Goal) : ((s.setFooter o (.loading n (q ++ [t]))).become t (.turn o goal)).Sound C none := by
  obtain ⟨hnodup, hwaiting, -⟩ := h.held o n q ho
  obtain ⟨a, hn, ha⟩ := h.exists_holder ho
  have hlen : o < s.footers.length := lt_of_footer_ne (by rw [ho]; nofun)
  have hp := perm_become h.ids (h.present _ rfl) (.turn o goal)
  have hsub : ∀ u ∈ s.others (some ⟨t, none, none⟩), u ∈ (s.become t (.turn o goal)).tasks := fun u hu =>
    hp.mem_iff.mpr (List.mem_cons_of_mem _ hu)
  have hself : (s.setFooter o (.loading n (q ++ [t]))).footer o = .loading n (q ++ [t]) := by
    rw [footer_setFooter, if_pos ⟨rfl, hlen⟩]
  have hne : ∀ k, k ≠ o → (s.setFooter o (.loading n (q ++ [t]))).footer k = s.footer k := by
    intro k hk
    rw [footer_setFooter, if_neg fun hko => hk hko.1]
  -- Whoever had the footer in hand, or waited for it, still does.
  have hkeep : ∀ k m q', s.footer k = .loading m q' →
      ∃ q'', (s.setFooter o (.loading n (q ++ [t]))).footer k = .loading m q'' ∧ q' ⊆ q'' := by
    intro k m q' hk
    by_cases hko : k = o
    · subst hko
      cases ho.symm.trans hk
      exact ⟨q ++ [t], hself, List.subset_append_left ..⟩
    · exact ⟨q', (hne k hko).trans hk, fun _ hx => hx⟩
  have hwithin := h.within.setFooter o (.loading n (q ++ [t]))
  refine h.rest_of rfl rfl rfl ⟨hwithin.streams, hwithin.entries⟩ (List.length_set ..) rfl rfl rfl (.refl _) trivial
    ?_ ?_ ?_
  · rintro u (rfl | hu)
    · exact Or.inr ⟨n, q ++ [t], hself, by simp⟩
    · rcases h.awake u hu with hm | hw
      · exact Or.inl hm
      · refine hw.or_of (fun _ hx => hx) (fun _ _ _ hf => Or.inr hf) ?_
        intro k m q' hk hm
        obtain ⟨q'', hk', hq⟩ := hkeep k m q' hk
        exact Or.inr ⟨m, q'', hk', hq hm⟩
  · rintro u (rfl | hu)
    · exact Or.inl ⟨n, q ++ [t], hself, by simp⟩
    · refine (h.placed u hu).mono ?_ ?_ ?_
      · intro k q' hk
        obtain ⟨q'', hk', -⟩ := hkeep k _ q' hk
        exact ⟨q'', hk'⟩
      · intro k m q' hk hm
        obtain ⟨q'', hk', hq⟩ := hkeep k m q' hk
        exact Or.inl ⟨m, q'', hk', List.cons_subset_cons m hq hm⟩
      · intro k f hk
        refine ⟨f, (hne k ?_).trans hk⟩
        rintro rfl
        cases ho.symm.trans hk
  · intro k m q' hk
    by_cases hko : k = o
    · subst hko
      cases hself.symm.trans hk
      refine ⟨?_, ?_, Or.inr ⟨a, hsub _ hn, ha⟩⟩
      · rw [← List.cons_append]
        exact hnodup.append (List.nodup_singleton _) (by simpa using h.not_mem_queue ho)
      · intro x hx
        rcases List.mem_append.mp hx with hx | hx
        · obtain ⟨goal', hm⟩ := hwaiting x hx
          exact ⟨goal', hsub _ hm⟩
        · obtain rfl := List.mem_singleton.mp hx
          exact ⟨goal, hp.mem_iff.mpr List.mem_cons_self⟩
    · refine (h.held k m q' ((hne k hko).symm.trans hk)).mono hsub ?_
      intro c hc hl
      cases hc
      cases hl

end Footers

end Session

end RangeCache
