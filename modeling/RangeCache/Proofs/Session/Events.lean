import RangeCache.Proofs.Registry
import RangeCache.Proofs.Session.Tasks

/-!
# Events

Whatever happens to a session keeps it sound, as long as the answers to its requests hold the bytes that they
may hold (`Sound.step`). An event either happens aside of all tasks, or it lets one of them run or go on. So
a session stays sound whatever happens to it, in whatever order (`Sound.runEvents`).
-/

namespace RangeCache

/-- The stream that an event may move, or let a new task move. -/
def Event.mover? : Event → Option Nat
  | .start op => op.mover?
  | .seek id _ => some id
  | _ => none

/-- The bounds that a configuration keeps to which is accepted. -/
structure Config.Bounds (c : Config) : Prop where
  blockSize : 0 < c.store.blockSize
  fetches : 1 ≤ c.queue.maxFetches
  fetchesPerObject : 1 ≤ c.queue.maxFetchesPerObject
  tailPrefetch : Footer.trailerLength ≤ c.footer.tailPrefetch

theorem Config.bounds_of_flaw? {c : Config} (h : c.flaw? = none) : c.Bounds := by
  simp only [flaw?, ite_eq_iff, reduceCtorEq, and_false, false_or, and_true] at h
  obtain ⟨hblock, -, -, -, hfetches, -, -, -, -, htail⟩ := h
  exact ⟨Nat.pos_of_ne_zero hblock, Nat.pos_of_ne_zero fun hzero => hfetches (Or.inl hzero),
    Nat.pos_of_ne_zero fun hzero => hfetches (Or.inr hzero), Nat.le_of_not_lt htail⟩

/-- An answer brings bytes that may be held, if it brings any. -/
def Event.Fair (C : Contents) (s : Session) : Event → Prop
  | .answer i reply _ => ∀ task key span b, s.calls[i]? = some ⟨task, .fetch key span⟩ →
      reply.bytesOf span.length = .ok b → C.allows key span b
  | _ => True

namespace Session

variable {C : Contents} {s : Session}

/-! ### Answers and time -/

/-- An answer gets to the task that made the request, which can go on. -/
theorem Sound.exists_answer (h : s.Sound C none) (i : Nat) (reply : Reply) (draw : Nat) :
    (s.calls[i]? = none ∧ s.answer i reply draw = s) ∨ ∃ id e n r, ⟨id, .errand e n .called⟩ ∈ s.tasks ∧
      s.calls[i]? = some ⟨id, e.request⟩ ∧ s.runnable ⊆ r ∧ id ∈ r ∧ s.answer i reply draw =
        { s.become id (.errand e n (.answered reply draw)) with calls := s.calls.eraseIdx i, runnable := r } := by
  unfold Session.answer
  cases hcall : s.calls[i]? with
  | none => exact Or.inl ⟨rfl, rfl⟩
  | some call =>
    refine Or.inr ?_
    obtain ⟨u, hu, hucall⟩ := List.mem_filterMap.mp (h.calls.mem_iff.mp (List.mem_of_getElem? hcall))
    have hact : ∃ e n, u.activity = .errand e n .called ∧ call = ⟨u.id, e.request⟩ := by
      unfold Task.call? at hucall
      split at hucall
      · exact ⟨_, _, by assumption, (Option.some.inj hucall).symm⟩
      · cases hucall
    obtain ⟨e, n, hact, rfl⟩ := hact
    obtain ⟨id, a⟩ := u
    dsimp only at hact
    subst hact
    obtain ⟨r, hr, hsub, hall⟩ := exists_resumeAll [id]
      (({ s with calls := s.calls.eraseIdx i } : Session).become id (.errand e n (.answered reply draw)))
    refine ⟨id, e, n, r, hu, rfl, hsub, hall id List.mem_cons_self, ?_⟩
    dsimp only
    rw [show ({ s with calls := s.calls.eraseIdx i } : Session).task? id = some ⟨id, .errand e n .called⟩ from
      task?_eq_some h.ids hu]
    exact hr

theorem Sound.answer (h : s.Sound C none) {i : Nat} {reply : Reply} {draw : Nat}
    (hfair : (Event.answer i reply draw).Fair C s) :
    s.answer i reply draw = s ∨ ∃ u ∈ s.tasks, (∃ e n, u.activity = .errand e n .called ∧
      s.calls[i]? = some ⟨u.id, e.request⟩) ∧ Ends C u.id none none s (s.answer i reply draw) := by
  rcases h.exists_answer i reply draw with ⟨-, he⟩ | ⟨id, e, n, r, hu, hcall, hsub, hmem, he⟩
  · exact Or.inl he
  · refine Or.inr ⟨_, hu, ⟨e, n, rfl, hcall⟩, ?_⟩
    rw [he]
    obtain ⟨hlt, hget⟩ := List.getElem?_eq_some_iff.mp hcall
    have hperm : s.calls.Perm (⟨id, e.request⟩ :: s.calls.eraseIdx i) :=
      hget ▸ (List.getElem_cons_eraseIdx_perm hlt).symm
    have hpick := h.pick_of hu (r := r) (fun x hx _ => hsub hx) (s.calls.eraseIdx i) hperm nofun
    have hright : (Activity.errand e n (.answered reply draw)).Right C s.cache := by
      cases e with
      | job j => exact fun b hb => hfair id j.key j.span b hcall hb
      | size key => exact trivial
    have hrest := hpick.rest (a := .errand e n (.answered reply draw)) s.made rfl (.refl _) (fun _ hx => hx) hright
      (Or.inl hmem) trivial nofun
    have ha : Aside none s { s with runnable := r, calls := s.calls.eraseIdx i } := .of_eq rfl rfl rfl rfl rfl rfl
    exact ha.ends (hpick.ends_become hrest rfl rfl rfl rfl rfl rfl (Or.inl rfl) nofun)

theorem exists_tick (s : Session) : ∃ now timers r, s.tick = { s with now, timers, runnable := r } ∧
    (s.timers ≠ [] → timers.length < s.timers.length) := by
  unfold Session.tick
  cases hdue : s.nextDue? with
  | none =>
    refine ⟨s.now, s.timers, s.runnable, rfl, fun hne => absurd ?_ hne⟩
    simpa [nextDue?] using hdue
  | some due =>
    dsimp only
    rw [List.partition_eq_filter_filter]
    dsimp only
    obtain ⟨r, hr, -⟩ := exists_resumeAll ((s.timers.filter fun x => decide (x.due ≤ due)).map (·.task))
      { s with now := max s.now due, timers := s.timers.filter ((!·) ∘ fun x => decide (x.due ≤ due)) }
    refine ⟨_, _, r, hr, fun _ => ?_⟩
    obtain ⟨x, hx, hxdue⟩ := List.mem_map.mp (List.min?_mem hdue)
    exact List.length_filter_lt_length_iff_exists.mpr ⟨x, hx, by simp [hxdue]⟩

theorem Sound.tick (h : s.Sound C none) : s.tick.Sound C none ∧ Aside none s s.tick := by
  unfold Session.tick
  cases s.nextDue? with
  | none => exact ⟨h, .refl s⟩
  | some due =>
    dsimp only
    rw [List.partition_eq_filter_filter]
    dsimp only
    obtain ⟨r, hr, hsub, hall⟩ := exists_resumeAll ((s.timers.filter fun x => decide (x.due ≤ due)).map (·.task))
      { s with now := max s.now due, timers := s.timers.filter ((!·) ∘ fun x => decide (x.due ≤ due)) }
    rw [hr]
    refine ⟨{ h with
      within := ⟨h.within.streams, h.within.entries⟩, awake := fun u hu => ?_, held := fun o n q ho => ?_ },
      .of_eq rfl rfl rfl rfl rfl rfl⟩
    · rcases h.awake u hu with hrun | hw
      · exact Or.inl (hsub hrun)
      · by_cases hfired : ∃ x ∈ s.timers, x.task = u.id ∧ x.due ≤ due
        · obtain ⟨x, hx, hxu, hdue⟩ := hfired
          exact Or.inl (hall _ (List.mem_map.mpr ⟨x, List.mem_filter.mpr ⟨hx, by simpa using hdue⟩, hxu⟩))
        · refine Or.inr ?_
          unfold Waits at hw ⊢
          split at hw <;> first | exact hw | skip
          obtain ⟨x, hx, hxu⟩ := hw
          exact ⟨x, List.mem_filter.mpr ⟨hx, by simpa using fun hdue => hfired ⟨x, hx, hxu, hdue⟩⟩, hxu⟩
    · exact (h.held o n q ho).congr rfl

/-! ### Streams -/

theorem Sound.seek (h : s.Sound C none) (id position : Nat) :
    (s.seek id position).1.Sound C none ∧ Aside (some id) s (s.seek id position).1 := by
  unfold Session.seek
  cases s.stream? id with
  | none => exact ⟨h, .refl s⟩
  | some x =>
    dsimp only
    split
    · exact ⟨h, .refl s⟩
    · split
      · exact ⟨h, .refl s⟩
      · have hmove := h.modifyStream id (f := fun y => { y with position }) fun _ => rfl
        have ha : Aside (some id) s (s.modifyStream id fun y => { y with position }) :=
          aside_modifyStream s id (fun _ => rfl) (fun _ => rfl) (Or.inl rfl)
        generalize s.modifyStream id (fun y => { y with position }) = s₁ at hmove ha ⊢
        obtain ⟨h₂, ha₂⟩ := hmove.replan x fun p => p.onSeek s₁.recent.paths position
        split <;> rename_i heq <;> rw [heq] at h₂ ha₂ <;> exact ⟨h₂, ha.trans ha₂.mono⟩

theorem exists_close (s : Session) (id : Nat) : s.close id = s ∨ ∃ registry, s.close id =
    { ((s.modifyStream id fun x => { x with closed := true }).onCache fun c => c.cancel id).1 with registry } := by
  unfold Session.close
  split
  · exact Or.inl rfl
  · dsimp only
    split
    · exact Or.inl rfl
    · exact Or.inr ⟨_, rfl⟩

theorem Sound.close (h : s.Sound C none) (id : Nat) : (s.close id).Sound C none ∧ Aside none s (s.close id) := by
  unfold Session.close
  cases s.stream? id with
  | none => exact ⟨h, .refl s⟩
  | some x =>
    dsimp only
    split
    · exact ⟨h, .refl s⟩
    · have hmark := h.modifyStream id (f := fun y => { y with closed := true }) fun _ => rfl
      have ha : Aside none s (s.modifyStream id fun y => { y with closed := true }) :=
        aside_modifyStream s id (fun _ => rfl) (fun _ => rfl) (Or.inr fun _ => rfl)
      have hcancel := hmark.onCache (f := fun c => c.cancel id) (Cache.moves_cancel id)
      have ha' := ha.trans (hmark.aside_onCache (f := fun c => c.cancel id) (Cache.moves_cancel id))
      generalize ((s.modifyStream id fun y => { y with closed := true }).onCache fun c => c.cancel id).1 = s₁
        at hcancel ha' ⊢
      refine ⟨hcancel.congr rfl rfl rfl rfl rfl rfl rfl rfl rfl ⟨hcancel.within.streams, fun e he => ?_⟩,
        ha'.trans (.of_eq rfl rfl rfl rfl rfl rfl)⟩
      obtain ⟨e', he', rfl⟩ := List.mem_map.mp ((Registry.trim_sublist _ _).mem he)
      have hlt := hcancel.within.entries e' he'
      split <;> exact hlt

/-! ### Any event -/

/-- What an event does: it happens aside of the tasks, or a task runs, with or without a quest. -/
def Happens (C : Contents) (e : Event) (s s' : Session) : Prop :=
  Aside e.mover? s s' ∨ ∃ u ∈ s.tasks, ∀ g, (∀ q, g = some q → q.Fits s ∧ q.On s u.activity) →
    Ends C u.id u.activity.mover? g s s'

/-- A session stays sound whatever happens. -/
theorem Sound.step (h : s.Sound C none) {e : Event} (hfair : e.Fair C s) :
    (s.step e).Sound C none ∧ Happens C e s (s.step e) := by
  have hcache : ∀ {α : Type} (f : Cache → Cache × α), Moves (fun _ _ => False) ⟨s.cache, []⟩ ⟨(f s.cache).1, []⟩ →
      (s.onCache f).1.Sound C none ∧ Aside none s (s.onCache f).1 := fun f hm => ⟨h.onCache hm, h.aside_onCache hm⟩
  have hstores := h.cache.stores
  cases e with
  | start op => exact ⟨h.spawn op, Or.inl (aside_spawn s op)⟩
  | addObject handle => exact ⟨h.addObject nofun handle, Or.inl (aside_addObject s handle)⟩
  | openSized key size => exact (h.openHandle nofun _).imp_right Or.inl
  | seek id position => exact (h.seek id position).imp_right Or.inl
  | close id => exact (h.close id).imp_right Or.inl
  | get object span =>
    exact (hcache (fun c => c.get object span) (Cache.moves_get hstores object span)).imp_right Or.inl
  | ensure object spans fit priority owner =>
    exact (hcache (fun c => c.ensure object spans fit priority owner)
      (Cache.moves_ensure hstores object spans fit priority owner)).imp_right Or.inl
  | cancel owner => exact (hcache (fun c => c.cancel owner) (Cache.moves_cancel owner)).imp_right Or.inl
  | evict object => exact (hcache (fun c => c.evict object) (Cache.moves_evict hstores object)).imp_right Or.inl
  | run i =>
    rcases h.runAt i with ⟨r, hr, hs⟩ | ⟨u, hu, hends⟩
    · exact ⟨hs, Or.inl ((show s.step (.run i) = _ from hr) ▸ .of_eq rfl rfl rfl rfl rfl rfl)⟩
    · exact ⟨(hends none nofun).sound, Or.inr ⟨u, hu, hends⟩⟩
  | answer i reply draw =>
    rcases h.answer hfair with he | ⟨u, hu, ⟨e, n, hact, -⟩, hends⟩
    · rw [show s.step (.answer i reply draw) = s from he]
      exact ⟨h, Or.inl (.refl s)⟩
    · refine ⟨hends.sound, Or.inr ⟨u, hu, fun g hg => ?_⟩⟩
      rw [hact] at hg ⊢
      cases g with
      | none => exact hends
      | some q => exact absurd (hg q rfl).2 id
  | tick => exact h.tick.imp_right Or.inl

theorem Sound.extends_step (h : s.Sound C none) {e : Event} (hfair : e.Fair C s) :
    s.cache.Extends (s.step e).cache := by
  rcases (h.step hfair).2 with ha | ⟨u, -, hends⟩
  · exact ha.cache
  · exact (hends none nofun).cache

theorem Sound.config_step (h : s.Sound C none) {e : Event} (hfair : e.Fair C s) : (s.step e).config = s.config := by
  rcases (h.step hfair).2 with ha | ⟨u, -, hends⟩
  · exact ha.config
  · exact (hends none nofun).config

/-! ### Runs -/

/-- Each answer in the course of some events brings bytes that may be held, if it brings any. -/
def FairRun (C : Contents) : Session → List Event → Prop
  | _, [] => True
  | s, e :: l => e.Fair C s ∧ FairRun C (s.step e) l

theorem fairRun_any (s : Session) (l : List Event) : FairRun .any s l := by
  induction l generalizing s with
  | nil => trivial
  | cons e l ih =>
    refine ⟨?_, ih _⟩
    cases e with
    | answer i reply draw => exact fun _ _ _ _ _ _ => trivial
    | _ => trivial

theorem sound_fresh (C : Contents) (config : Config) : (fresh config).Sound C none where
  cache := .new C config.queue
  quiet := rfl
  busy := by
    unfold FetchQueue.next?
    split <;> rfl
  limits := rfl
  grids := nofun
  footers := rfl
  within := ⟨nofun, nofun⟩
  ids := .nil
  fresh := nofun
  past := nofun
  present := nofun
  jobs := .nil
  calls := .nil
  right := nofun
  awake := nofun
  placed := nofun
  held := nofun
  lock := nofun

theorem new_eq_ok {config : Config} {s : Session} (h : new config = .ok s) : s = fresh config ∧ config.Bounds := by
  unfold new at h
  cases hv : config.validate with
  | error f =>
    rw [hv] at h
    cases h
  | ok u =>
    rw [hv] at h
    exact ⟨(Except.ok.inj h).symm, Config.bounds_of_flaw? ((Config.validate_eq_ok_iff config).mp hv)⟩

theorem Sound.runEvents (h : s.Sound C none) {l : List Event} (hl : FairRun C s l) : (s.runEvents l).Sound C none := by
  induction l generalizing s with
  | nil => exact h
  | cons e l ih => exact ih (h.step hl.1).1 hl.2

theorem config_runEvents {l : List Event} (h : s.Sound C none) (hl : FairRun C s l) :
    (s.runEvents l).config = s.config := by
  induction l generalizing s with
  | nil => rfl
  | cons e l ih => exact (ih (h.step hl.1).1 hl.2).trans (h.config_step hl.1)

end Session

end RangeCache
