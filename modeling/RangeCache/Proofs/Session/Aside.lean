import RangeCache.Proofs.Session.Hearing

/-!
# Tasks and what happens aside of them

A task that runs may move one stream, and ends or waits for something. All else that it does leaves the
other tasks and the positions of the streams as they are (`Aside`). A read or a read of the end of an object
is a quest: the task has it in mind until it ends, and what it then brings are the bytes of the span that it
set out for (`Quest.Yields`). `Ends` says where a task stops that runs.
-/

namespace RangeCache

/-! ### Streams that move -/

/-- The stream that moves when the goal is reached. -/
def Goal.mover? : Goal → Option Nat
  | .read id _ _ => some id
  | _ => none

def Use.mover? : Use → Option Nat
  | .bytes => none
  | .stream id _ => some id
  | .guess _ goal | .footer _ goal => goal.mover?

def Operation.mover? : Operation → Option Nat
  | .read id _ => some id
  | _ => none

/-- The stream that a task may move. -/
def Activity.mover? : Activity → Option Nat
  | .start op => op.mover?
  | .reading _ use => use.mover?
  | .turn _ goal => goal.mover?
  | _ => none

/-- How far a stream moves with the outcome of a read. -/
def Outcome.length : Outcome → Nat
  | .read b => b.length
  | _ => 0

/-! ### Quests -/

/-- A read for a stream: from an offset, or of the end of the object. -/
structure Quest where
  stream : Nat
  offset : Option Nat
  length : Nat
  object : Nat
  handle : Handle

namespace Quest

/-- The quest as the goal of a task. -/
def goal (q : Quest) : Goal :=
  match q.offset with
  | some offset => .read q.stream offset q.length
  | none => .readTail q.stream q.length

/-- The span that the bytes of a quest are from. -/
def span (q : Quest) : Span :=
  match q.offset with
  | some offset => Span.clamp ⟨offset, offset + q.length⟩ q.handle.size
  | none => (Span.tail q.handle.size q.length).clamp q.handle.size

/-- The object of a quest is that of its stream. -/
structure Fits (q : Quest) (s : Session) : Prop where
  grid : 0 < s.config.store.blockSize
  handle : s.handle? q.object = some q.handle
  stream : ∃ x, s.stream? q.stream = some x ∧ x.object = q.object

/-- A task has a quest in mind. -/
def Pursues (q : Quest) : Activity → Prop
  | .turn _ goal | .reading _ (.guess _ goal) | .reading _ (.footer _ goal) => goal = q.goal
  | .reading r (.stream id offset) => q.stream = id ∧ q.offset = some offset ∧ r.store = q.object ∧ r.span = q.span
  | .reading r .bytes => q.offset = none ∧ r.store = q.object ∧ r.span = q.span
  | _ => False

/-- How a quest may end. -/
def Yields (q : Quest) (C : Contents) (o : Outcome) : Prop :=
  (∃ b, o = .read b ∧ C.allows q.handle.key q.span b) ∨ ∃ f, o = .failed f

end Quest

namespace Session

/-- A task asks for a goal, and if it has a quest, this is its goal. -/
def Asks (g : Option Quest) (goal : Goal) (s : Session) : Prop := ∀ q, g = some q → q.goal = goal ∧ q.Fits s

/-! ### Aside of a task -/

/-- Tasks and streams stay as they are, but for one stream, and objects are where they were. -/
structure Aside (mv : Option Nat) (s s' : Session) : Prop where
  config : s'.config = s.config
  cache : s.cache.Extends s'.cache
  streams : ∀ ⦃id : Nat⦄ ⦃x : Stream⦄, s.stream? id = some x →
    ∃ y, s'.stream? id = some y ∧ y.object = x.object ∧ (mv = some id ∨ y.position = x.position)
  tasks : ∃ l, s'.tasks = s.tasks ++ l ∧
    ∀ u ∈ l, s.nextTask ≤ u.id ∧ (u.activity.mover? = none ∨ u.activity.mover? = mv)
  nextTask : s.nextTask ≤ s'.nextTask
  ended : s'.ended = s.ended

section Aside
variable {s s' s'' : Session} {mv : Option Nat}

theorem Aside.of_eq (hconfig : s'.config = s.config) (hcache : s'.cache = s.cache) (hstreams : s'.streams = s.streams)
    (htasks : s'.tasks = s.tasks) (hnext : s'.nextTask = s.nextTask) (hended : s'.ended = s.ended) : Aside mv s s' where
  config := hconfig
  cache := hcache ▸ .refl _
  streams _ x hx := ⟨x, by rwa [stream?, hstreams], rfl, Or.inr rfl⟩
  tasks := ⟨[], by rw [htasks, List.append_nil], nofun⟩
  nextTask := Nat.le_of_eq hnext.symm
  ended := hended

theorem Aside.refl (s : Session) : Aside mv s s := .of_eq rfl rfl rfl rfl rfl rfl

theorem Aside.mono (h : Aside none s s') : Aside mv s s' where
  config := h.config
  cache := h.cache
  streams _ x hx := by
    obtain ⟨y, hy, hobject, hpos⟩ := h.streams hx
    exact ⟨y, hy, hobject, Or.inr (hpos.resolve_left nofun)⟩
  tasks := by
    obtain ⟨l, hl, hnew⟩ := h.tasks
    exact ⟨l, hl, fun u hu => ⟨(hnew u hu).1, Or.inl ((hnew u hu).2.elim id id)⟩⟩
  nextTask := h.nextTask
  ended := h.ended

theorem Aside.trans (h : Aside mv s s') (h' : Aside mv s' s'') : Aside mv s s'' where
  config := h'.config.trans h.config
  cache := h.cache.trans h'.cache
  streams i x hx := by
    obtain ⟨y, hy, hobject, hpos⟩ := h.streams hx
    obtain ⟨z, hz, hobject', hpos'⟩ := h'.streams hy
    refine ⟨z, hz, hobject'.trans hobject, ?_⟩
    rcases hpos with hmv | hpos
    · exact Or.inl hmv
    · exact hpos'.imp_right fun hpos' => hpos'.trans hpos
  tasks := by
    obtain ⟨l, hl, hnew⟩ := h.tasks
    obtain ⟨l', hl', hnew'⟩ := h'.tasks
    refine ⟨l ++ l', by rw [hl', hl, List.append_assoc], fun u hu => ?_⟩
    rcases List.mem_append.mp hu with hu | hu
    · exact hnew u hu
    · exact ⟨Nat.le_trans h.nextTask (hnew' u hu).1, (hnew' u hu).2⟩
  nextTask := Nat.le_trans h.nextTask h'.nextTask
  ended := h'.ended.trans h.ended

theorem stream?_modifyStream (s : Session) (k : Nat) {f : Stream → Stream} (hf : ∀ x, (f x).id = x.id) (id : Nat) :
    (s.modifyStream k f).stream? id = (s.stream? id).map fun x => if x.id = k then f x else x := by
  have hp : ((fun x : Stream => x.id == id) ∘ fun x => if x.id = k then f x else x) = fun x => x.id == id := by
    funext x
    simp only [Function.comp_apply]
    split <;> simp [hf]
  rw [stream?, modifyStream, List.find?_map, hp]
  rfl

theorem id_of_stream? {id : Nat} {x : Stream} (h : s.stream? id = some x) : x.id = id := by
  simpa using List.find?_some h

theorem mem_of_stream? {id : Nat} {x : Stream} (h : s.stream? id = some x) : x ∈ s.streams :=
  List.mem_of_find?_eq_some h

theorem aside_modifyStream (s : Session) (k : Nat) {f : Stream → Stream} (hid : ∀ x, (f x).id = x.id)
    (hobject : ∀ x, (f x).object = x.object) (hpos : mv = some k ∨ ∀ x, (f x).position = x.position) :
    Aside mv s (s.modifyStream k f) where
  config := rfl
  cache := .refl _
  streams i x hx := by
    refine ⟨if x.id = k then f x else x, by rw [stream?_modifyStream s k hid, hx]; rfl, ?_, ?_⟩
    · split <;> simp [hobject]
    · rcases hpos with rfl | hpos
      · by_cases hk : x.id = k
        · exact Or.inl (by rw [← hk, id_of_stream? hx])
        · exact Or.inr (by rw [if_neg hk])
      · exact Or.inr (by split <;> simp [hpos])
  tasks := ⟨[], (List.append_nil _).symm, nofun⟩
  nextTask := Nat.le_refl _
  ended := rfl

end Aside

/-! ### Objects -/

section Objects
variable {s s' : Session} {o : Nat} {handle : Handle}

theorem handle?_of_extends (hc : s.cache.Extends s'.cache) (hh : s.handle? o = some handle) :
    s'.handle? o = some handle := by
  obtain ⟨x, hx, rfl⟩ := Option.map_eq_some_iff.mp hh
  obtain ⟨y, hy, hhandle, -⟩ := hc hx
  exact Option.map_eq_some_iff.mpr ⟨y, hy, hhandle⟩

theorem key_of_handle? (hh : s.handle? o = some handle) : s.key o = handle.key := by simp [key, hh]

theorem size_of_handle? (hh : s.handle? o = some handle) : s.size o = handle.size := by simp [size, hh]

theorem Sound.exists_handle? {C : Contents} {cur : Option Turn} (h : s.Sound C cur) (hlt : o < s.footers.length) :
    ∃ x, s.handle? o = some x := by
  rw [h.footers] at hlt
  exact ⟨_, Option.map_eq_some_iff.mpr ⟨_, List.getElem?_eq_getElem hlt, rfl⟩⟩

end Objects

/-! ### Quests of a session -/

end Session

namespace Quest
variable {q : Quest} {s s' : Session} {mv : Option Nat}

theorem Fits.aside (h : q.Fits s) (ha : Session.Aside mv s s') : q.Fits s' where
  grid := ha.config ▸ h.grid
  handle := Session.handle?_of_extends ha.cache h.handle
  stream := by
    obtain ⟨x, hx, ho⟩ := h.stream
    obtain ⟨y, hy, hobject, -⟩ := ha.streams hx
    exact ⟨y, hy, hobject.trans ho⟩

theorem Fits.key_eq (h : q.Fits s) : s.key q.object = q.handle.key := Session.key_of_handle? h.handle

theorem Fits.size_eq (h : q.Fits s) : s.size q.object = q.handle.size := Session.size_of_handle? h.handle

theorem Fits.object_eq (h : q.Fits s) {x : Stream} (hx : s.stream? q.stream = some x) : x.object = q.object := by
  obtain ⟨y, hy, hobject⟩ := h.stream
  cases hx.symm.trans hy
  exact hobject

theorem of_read {id offset length : Nat} (h : q.goal = .read id offset length) :
    q.stream = id ∧ q.offset = some offset ∧ q.span = Span.clamp ⟨offset, offset + length⟩ q.handle.size := by
  unfold goal at h
  unfold span
  cases ho : q.offset <;> rw [ho] at h <;> cases h
  exact ⟨rfl, rfl, rfl⟩

theorem of_readTail {id length : Nat} (h : q.goal = .readTail id length) :
    q.stream = id ∧ q.offset = none ∧ q.span = (Span.tail q.handle.size length).clamp q.handle.size := by
  unfold goal at h
  unfold span
  cases ho : q.offset <;> rw [ho] at h <;> cases h
  exact ⟨rfl, rfl, rfl⟩

end Quest

namespace Session

section Asks
variable {g : Option Quest} {goal : Goal} {s s' : Session} {mv : Option Nat}

theorem asks_none (goal : Goal) (s : Session) : Asks none goal s := fun _ hq => nomatch hq

theorem Asks.aside (h : Asks g goal s) (ha : Aside mv s s') : Asks g goal s' := fun q hq =>
  ⟨(h q hq).1, (h q hq).2.aside ha⟩

theorem Asks.eq_none (h : Asks g goal s) (hread : ∀ id offset length, goal ≠ .read id offset length)
    (htail : ∀ id length, goal ≠ .readTail id length) : g = none := by
  cases g with
  | none => rfl
  | some q =>
    have hgoal := (h q rfl).1
    unfold Quest.goal at hgoal
    cases ho : q.offset <;> rw [ho] at hgoal
    · exact absurd hgoal.symm (htail _ _)
    · exact absurd hgoal.symm (hread _ _ _)

end Asks

/-! ### The cache -/

section Cache
variable {C : Contents} {s : Session} {cur : Option Turn} {α : Type} {f : Cache → Cache × α}

theorem exists_onCache (s : Session) (f : Cache → Cache × α) : ∃ l r, (s.onCache f).1 = { s with
    cache := { (f s.cache).1 with notices := [] }
    tasks := s.tasks ++ spawned s.nextTask l
    nextTask := s.nextTask + l.length
    runnable := r } := by
  obtain ⟨r, hr, -⟩ := exists_hearAll (f s.cache).1.notices { s with cache := { (f s.cache).1 with notices := [] } }
  exact ⟨_, r, hr⟩

theorem footers_onCache (s : Session) (f : Cache → Cache × α) : (s.onCache f).1.footers = s.footers := by
  obtain ⟨_, _, he⟩ := exists_onCache s f
  rw [he]

/-- A session hears of what happens to its cache as long as no job ends. -/
theorem Sound.onCache (h : s.Sound C cur) (hm : Moves (fun _ _ => False) ⟨s.cache, []⟩ ⟨(f s.cache).1, []⟩) :
    (s.onCache f).1.Sound C cur :=
  h.hearAll rfl (Moves.mono (fun _ _ => False.elim) hm) (Moves.reports hm h.cache.stores) h.jobs

theorem aside_onCache (hext : s.cache.Extends (f s.cache).1) : Aside none s (s.onCache f).1 := by
  obtain ⟨l, r, he⟩ := exists_onCache s f
  rw [he]
  refine ⟨rfl, hext, fun _ x hx => ⟨x, hx, rfl, Or.inr rfl⟩, ⟨_, rfl, fun u hu => ?_⟩, Nat.le_add_right _ _, rfl⟩
  obtain ⟨hle, -, j, hj⟩ := mem_spawned hu
  exact ⟨hle, Or.inl (by rw [hj]; rfl)⟩

theorem Sound.aside_onCache (h : s.Sound C cur) (hm : Moves (fun _ _ => False) ⟨s.cache, []⟩ ⟨(f s.cache).1, []⟩) :
    Aside none s (s.onCache f).1 :=
  Session.aside_onCache (Moves.extends hm h.cache.stores)

end Cache

/-! ### A task stops -/

/-- How a task stops that runs: it waits, its operation ends, or it is gone. With it goes the distance by which
    its stream moved. -/
inductive Stops (C : Contents) (t : Nat) (mv : Option Nat) (g : Option Quest) (s s' : Session) : Nat → Prop
  | waits {a : Activity} (ht : ⟨t, a⟩ ∈ s'.tasks) (hmv : a.mover? = none ∨ a.mover? = mv)
      (hg : ∀ q, g = some q → q.Pursues a) (hended : s'.ended = s.ended) : Stops C t mv g s s' 0
  | ends {o : Outcome} (ht : ∀ u ∈ s'.tasks, u.id ≠ t) (hg : ∀ q, g = some q → q.Yields C o)
      (hended : s'.ended = (t, o) :: s.ended) : Stops C t mv g s s' o.length
  | leaves (ht : ∀ u ∈ s'.tasks, u.id ≠ t) (hg : g = none) (hended : s'.ended = s.ended) : Stops C t mv g s s' 0

/-- A task ran, which may move a stream and may have a quest, and stopped. -/
structure Ends (C : Contents) (t : Nat) (mv : Option Nat) (g : Option Quest) (s s' : Session) : Prop where
  sound : s'.Sound C none
  config : s'.config = s.config
  cache : s.cache.Extends s'.cache
  nextTask : s.nextTask ≤ s'.nextTask
  kept : ∀ u ∈ s.tasks, u.id ≠ t → u ∈ s'.tasks
  new : ∀ u ∈ s'.tasks, u.id ≠ t → u ∈ s.tasks ∨ s.nextTask ≤ u.id ∧ u.activity.mover? = none
  stops : ∃ d, Stops C t mv g s s' d ∧ ∀ ⦃id : Nat⦄ ⦃x : Stream⦄, s.stream? id = some x →
    ∃ y, s'.stream? id = some y ∧ y.object = x.object ∧
      y.position = if mv = some id then x.position + d else x.position

section Ends
variable {C : Contents} {t : Nat} {l : Option Nat} {j : Option Job} {mv : Option Nat} {g : Option Quest}
  {s s' s'' : Session}

theorem Stops.aside {d : Nat} (h : Stops C t mv g s' s'' d) (he : s'.ended = s.ended) : Stops C t mv g s s'' d := by
  cases h with
  | waits ht hmv hg hended => exact .waits ht hmv hg (hended.trans he)
  | ends ht hg hended => exact .ends ht hg (he ▸ hended)
  | leaves ht hg hended => exact .leaves ht hg (hended.trans he)

/-- What happens aside before a task stops makes no difference to how it stops. -/
theorem Aside.ends (ha : Aside none s s') (h : Ends C t mv g s' s'') : Ends C t mv g s s'' where
  sound := h.sound
  config := h.config.trans ha.config
  cache := ha.cache.trans h.cache
  nextTask := Nat.le_trans ha.nextTask h.nextTask
  kept u hu hne := by
    obtain ⟨l, hl, -⟩ := ha.tasks
    exact h.kept u (hl ▸ List.mem_append_left _ hu) hne
  new u hu hne := by
    rcases h.new u hu hne with hu | ⟨hle, hmv⟩
    · obtain ⟨l, hl, hnew⟩ := ha.tasks
      rcases List.mem_append.mp (hl ▸ hu) with hu | hu
      · exact Or.inl hu
      · exact Or.inr ⟨(hnew u hu).1, (hnew u hu).2.elim id id⟩
    · exact Or.inr ⟨Nat.le_trans ha.nextTask hle, hmv⟩
  stops := by
    obtain ⟨d, hstops, hstreams⟩ := h.stops
    refine ⟨d, hstops.aside ha.ended, fun _ x hx => ?_⟩
    obtain ⟨y, hy, hobject, hpos⟩ := ha.streams hx
    obtain ⟨z, hz, hobject', hpos'⟩ := hstreams hy
    exact ⟨z, hz, hobject'.trans hobject, hpos.resolve_left nofun ▸ hpos'⟩

theorem Sound.ends_become (h : s.Sound C (some ⟨t, l, j⟩)) {a : Activity} (hs : s'.Sound C none)
    (hconfig : s'.config = s.config) (hcache : s'.cache = s.cache) (hstreams : s'.streams = s.streams)
    (hended : s'.ended = s.ended) (hnext : s'.nextTask = s.nextTask) (htasks : s'.tasks = (s.become t a).tasks)
    (hmv : a.mover? = none ∨ a.mover? = mv) (hg : ∀ q, g = some q → q.Pursues a) : Ends C t mv g s s' := by
  have hp : s'.tasks.Perm (⟨t, a⟩ :: s.others (some ⟨t, l, j⟩)) := htasks ▸ perm_become h.ids (h.present _ rfl) a
  refine ⟨hs, hconfig, hcache ▸ .refl _, Nat.le_of_eq hnext.symm, fun u hu hne => ?_, fun u hu hne => ?_, 0,
    .waits (hp.mem_iff.mpr List.mem_cons_self) hmv hg hended, fun _ x hx => ⟨x, ?_, rfl, ?_⟩⟩
  · exact hp.mem_iff.mpr (List.mem_cons_of_mem _ (mem_others.mpr ⟨hu, hne⟩))
  · rcases List.mem_cons.mp (hp.mem_iff.mp hu) with rfl | hu
    · exact absurd rfl hne
    · exact Or.inl (mem_others.mp hu).1
  · rwa [stream?, hstreams]
  · split <;> rfl

/-- The operation of a task ends after its stream moved as far as it is to. -/
theorem Sound.ends_moved (h : s'.Sound C (some ⟨t, none, none⟩)) {o : Outcome} (hconfig : s'.config = s.config)
    (hcache : s'.cache = s.cache) (hended : s'.ended = s.ended) (hnext : s'.nextTask = s.nextTask)
    (htasks : s'.tasks = s.tasks) (hg : ∀ q, g = some q → q.Yields C o)
    (hstreams : ∀ ⦃id : Nat⦄ ⦃x : Stream⦄, s.stream? id = some x → ∃ y, s'.stream? id = some y ∧ y.object = x.object ∧
      y.position = if mv = some id then x.position + o.length else x.position) : Ends C t mv g s (s'.finish t o) := by
  refine ⟨h.finish o, hconfig, hcache ▸ .refl _, Nat.le_of_eq hnext.symm, fun u hu hne => ?_, fun u hu _ => ?_,
    o.length, .ends (fun u hu => ?_) hg (hended ▸ rfl), hstreams⟩
  · exact List.mem_filter.mpr ⟨htasks ▸ hu, by simpa using hne⟩
  · exact Or.inl (htasks ▸ (List.mem_filter.mp hu).1)
  · simpa using (List.mem_filter.mp hu).2

theorem Sound.ends_finish (h : s.Sound C (some ⟨t, none, none⟩)) {o : Outcome} (hg : ∀ q, g = some q → q.Yields C o)
    (hmv : mv = none ∨ o.length = 0) : Ends C t mv g s (s.finish t o) := by
  refine h.ends_moved rfl rfl rfl rfl rfl hg fun _ x hx => ⟨x, hx, rfl, ?_⟩
  rcases hmv with rfl | ho
  · rfl
  · rw [ho]
    split <;> rfl

theorem Sound.ends_fail (h : s.Sound C (some ⟨t, none, none⟩)) (f : Fault) : Ends C t mv g s (s.finish t (.failed f)) :=
  h.ends_finish (fun _ _ => Or.inr ⟨f, rfl⟩) (Or.inr rfl)

theorem Sound.ends_leave (h : s.Sound C (some ⟨t, none, none⟩)) (hg : g = none) : Ends C t mv g s (s.leave t) := by
  refine ⟨h.leave, rfl, .refl _, Nat.le_refl _, fun u hu hne => ?_, fun u hu _ => ?_, 0,
    .leaves (fun u hu => ?_) hg rfl, fun _ x hx => ⟨x, hx, rfl, ?_⟩⟩
  · exact List.mem_filter.mpr ⟨hu, by simpa using hne⟩
  · exact Or.inl (List.mem_filter.mp hu).1
  · simpa using (List.mem_filter.mp hu).2
  · split <;> rfl

end Ends

/-! ### A task is left alone -/

/-- A task goes on with what it does, and if it is gone already, it stays so. -/
structure Untouched (t : Nat) (s s' : Session) : Prop where
  nextTask : s.nextTask ≤ s'.nextTask
  kept : ∀ u ∈ s.tasks, u.id = t → u ∈ s'.tasks
  same : ∀ u ∈ s'.tasks, u.id = t → u ∈ s.tasks
  ended : ∀ o, (t, o) ∈ s'.ended ↔ (t, o) ∈ s.ended

section Untouched
variable {C : Contents} {t : Nat} {mv : Option Nat} {g : Option Quest} {s s' : Session}

theorem Untouched.of_append {l : List Task} (hl : s'.tasks = s.tasks ++ l) (hnew : ∀ u ∈ l, s.nextTask ≤ u.id)
    (hnext : s.nextTask ≤ s'.nextTask) (hended : s'.ended = s.ended) (ht : t < s.nextTask) : Untouched t s s' where
  nextTask := hnext
  kept u hu _ := hl ▸ List.mem_append_left _ hu
  same u hu hid := by
    rcases List.mem_append.mp (hl ▸ hu) with hu | hu
    · exact hu
    · have := hnew u hu
      omega
  ended o := hended ▸ Iff.rfl

theorem Aside.untouched (h : Aside mv s s') (ht : t < s.nextTask) : Untouched t s s' := by
  obtain ⟨l, hl, hnew⟩ := h.tasks
  exact .of_append hl (fun u hu => (hnew u hu).1) h.nextTask h.ended ht

/-- A task is left alone while another one runs. -/
theorem Ends.untouched {i : Nat} (h : Ends C i mv g s s') (hi : i ≠ t) (ht : t < s.nextTask) : Untouched t s s' where
  nextTask := h.nextTask
  kept u hu hid := h.kept u hu fun hui => hi (hui ▸ hid)
  same u hu hid := by
    rcases h.new u hu fun hui => hi (hui ▸ hid) with hu | ⟨hle, -⟩
    · exact hu
    · omega
  ended o := by
    obtain ⟨d, hstops, -⟩ := h.stops
    cases hstops with
    | waits _ _ _ hended => rw [hended]
    | ends _ _ hended =>
      rw [hended]
      simp [Ne.symm hi]
    | leaves _ _ hended => rw [hended]

end Untouched

end Session

end RangeCache
