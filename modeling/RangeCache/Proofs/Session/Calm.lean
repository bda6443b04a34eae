import Mathlib.Algebra.GroupWithZero.Nat
import RangeCache.Proofs.Cache.Grants
import RangeCache.Proofs.Session.Tasks

/-!
# What tasks hold, and how much they have left to do

Two sums over the tasks of a session are kept apart here from what the tasks do. The blocks of the reads that wait
have all the pins that these hold (`Cache.Backs`). And each task has a weight: the stages of an operation, from its
beginning to its end, weigh less and less, while a task that carries out a job weighs nothing.

A session is calm while no task ends (`Calm`): tasks may be added, and the cache may move, but no pin is lost, no
block fails, and what was rejected is counted.
-/

namespace RangeCache

/-- The sum of a number over the activities of some tasks. -/
def tally (f : Activity → Nat) (l : List Task) : Nat := (l.map fun u => f u.activity).sum

section Tally
variable {f : Activity → Nat} {l l' : List Task}

theorem tally_append (f : Activity → Nat) (l l' : List Task) : tally f (l ++ l') = tally f l + tally f l' := by
  simp [tally]

theorem tally_cons (f : Activity → Nat) (u : Task) (l : List Task) : tally f (u :: l) = f u.activity + tally f l := by
  simp [tally]

theorem tally_perm (f : Activity → Nat) (h : l.Perm l') : tally f l = tally f l' := (h.map _).sum_nat

theorem tally_eq_zero (h : ∀ u ∈ l, f u.activity = 0) : tally f l = 0 := by
  induction l with
  | nil => rfl
  | cons u l ih =>
    rw [tally_cons, h u List.mem_cons_self, ih fun v hv => h v (List.mem_cons_of_mem _ hv)]

end Tally

namespace Activity

/-- How many pins of a block a task holds. -/
def holds (i id : Nat) : Activity → Nat
  | .reading r _ => r.holds i id
  | _ => 0

/-- How far a task is from its end, in stages. -/
def weight : Activity → Nat
  | .start (.openKey _) => 7
  | .errand (.size _) _ _ => 6
  | .start _ => 5
  | .turn _ _ => 4
  | .reading _ (.guess _ _) => 3
  | .reading _ (.footer _ _) => 2
  | .reading _ _ | .awaiting _ _ _ => 1
  | .errand (.job _) _ _ => 0

end Activity

/-- The weight of a task that reads, by what its bytes are for. -/
def Use.weight : Use → Nat
  | .guess _ _ => 3
  | .footer _ _ => 2
  | .bytes | .stream _ _ => 1

theorem Activity.weight_start_pos (op : Operation) : 0 < (Activity.start op).weight := by
  cases op <;> exact Nat.succ_pos _

theorem Use.weight_pos (use : Use) : 0 < use.weight := by
  cases use <;> exact Nat.succ_pos _

def Errand.weight : Errand → Nat
  | .size _ => 6
  | .job _ => 0

theorem Activity.weight_errand (e : Errand) (n : Nat) (phase : Phase) :
    (Activity.errand e n phase).weight = e.weight := by
  cases e <;> rfl

theorem Activity.weight_reading (r : Reading) (use : Use) : (Activity.reading r use).weight = use.weight := by
  cases use <;> rfl

/-- The blocks have all the pins that some tasks hold of them. A read needs no blocks but those that it pinned. -/
structure Cache.Backs (c : Cache) (l : List Task) : Prop where
  pins : c.Pins fun i id => tally (Activity.holds i id) l
  todo : ∀ u ∈ l, ∀ r use, u.activity = .reading r use → r.todo ⊆ r.pinned

section Backs
variable {c c' : Cache} {l l' : List Task}

theorem Cache.Backs.keep (h : c.Backs l) (hc : c.KeepsPins c') : c'.Backs l := ⟨hc.pins h.pins, h.todo⟩

theorem Cache.Backs.perm (h : c.Backs l) (hp : l'.Perm l) : c.Backs l' where
  pins := by
    have : (fun i id => tally (Activity.holds i id) l') = fun i id => tally (Activity.holds i id) l := by
      funext i id
      exact tally_perm _ hp
    exact this ▸ h.pins
  todo u hu := h.todo u (hp.mem_iff.mp hu)

/-- Tasks that do not read hold no pins. -/
theorem Cache.Backs.append (h : c.Backs l) (hl : ∀ u ∈ l', ∀ r use, u.activity ≠ .reading r use) :
    c.Backs (l ++ l') where
  pins := by
    have : (fun i id => tally (Activity.holds i id) (l ++ l')) = fun i id => tally (Activity.holds i id) l := by
      funext i id
      rw [tally_append, tally_eq_zero (l := l'), Nat.add_zero]
      intro u hu
      unfold Activity.holds
      split
      · exact absurd ‹_› (hl u hu _ _)
      · rfl
    exact this ▸ h.pins
  todo u hu r use ha := by
    rcases List.mem_append.mp hu with hu | hu
    · exact h.todo u hu r use ha
    · exact absurd ha (hl u hu r use)

theorem Cache.Backs.cons (h : c.Backs l) {u : Task} (hu : ∀ r use, u.activity ≠ .reading r use) : c.Backs (u :: l) := by
  have happend : c.Backs (l ++ [u]) := h.append fun v hv => by rwa [List.mem_singleton.mp hv]
  exact happend.perm (List.perm_append_singleton u l).symm

theorem tally_holds_cons (t : Nat) (r : Reading) (use : Use) (l : List Task) :
    (fun i id => tally (Activity.holds i id) (⟨t, .reading r use⟩ :: l)) =
      fun i id => tally (Activity.holds i id) l + r.holds i id := by
  funext i id
  rw [tally_cons, Nat.add_comm]
  rfl

theorem Cache.Backs.cons_reading {r : Reading} (h : c.Pins fun i id => tally (Activity.holds i id) l + r.holds i id)
    (hl : ∀ u ∈ l, ∀ r use, u.activity = .reading r use → r.todo ⊆ r.pinned) (hr : r.todo ⊆ r.pinned) (t : Nat)
    (use : Use) : c.Backs (⟨t, .reading r use⟩ :: l) where
  pins := tally_holds_cons t r use l ▸ h
  todo u hu r' use' ha := by
    rcases List.mem_cons.mp hu with rfl | hu
    · cases ha
      exact hr
    · exact hl u hu r' use' ha

/-- Fewer tasks hold fewer pins. -/
theorem Cache.Backs.of_cons {u : Task} (h : c.Backs (u :: l)) : c.Backs l where
  pins i id hn := by
    have hle : tally (Activity.holds i id) l ≤ tally (Activity.holds i id) (u :: l) := by
      rw [tally_cons]
      exact Nat.le_add_left _ _
    obtain ⟨s, hs, b, hb, hid, hle'⟩ := h.pins i id (Nat.lt_of_lt_of_le hn hle)
    exact ⟨s, hs, b, hb, hid, Nat.le_trans hle hle'⟩
  todo v hv := h.todo v (List.mem_cons_of_mem _ hv)

theorem Cache.Backs.pinned (h : c.Backs l) {u : Task} (hu : u ∈ l) {r : Reading} {use : Use}
    (ha : u.activity = .reading r use) {id : Nat} (hid : id ∈ r.todo) : c.Pinned r.store id 1 := by
  have hcount : 0 < r.holds r.store id := by
    rw [r.holds_self]
    exact List.count_pos_iff.mpr (h.todo u hu r use ha hid)
  have hle : r.holds r.store id ≤ tally (Activity.holds r.store id) l := by
    obtain ⟨l₁, l₂, rfl⟩ := List.append_of_mem hu
    rw [tally_append, tally_cons, ha, Activity.holds]
    omega
  obtain ⟨s, hs, b, hb, hbid, hn⟩ := h.pins r.store id (Nat.lt_of_lt_of_le hcount hle)
  exact ⟨s, hs, b, hb, hbid, Nat.le_trans (Nat.le_trans hcount hle) hn⟩

end Backs

namespace Session

/-- The tasks of a session but one. -/
def besides (s : Session) (t : Nat) : List Task := s.tasks.filter fun u => u.id != t

/-- No block failed, what was rejected is counted, and the streams are there, open or closed as they were. -/
structure Harmless (s s' : Session) : Prop where
  rejected : s.cache.queue.rejected ≤ s'.cache.queue.rejected
  unfailed : ∀ ⦃i id : Nat⦄, s.cache.Unfailed i id → s'.cache.Unfailed i id
  streams : ∀ ⦃id : Nat⦄ ⦃x : Stream⦄, s.stream? id = some x → ∃ y, s'.stream? id = some y ∧ y.closed = x.closed

/-- No task ends. The tasks that are added weigh at most `k`, and none of them reads yet. -/
structure Calm (k : Nat) (s s' : Session) : Prop where
  harmless : Harmless s s'
  keeps : s.cache.KeepsPins s'.cache
  tasks : ∃ l, s'.tasks = s.tasks ++ l ∧ tally Activity.weight l ≤ k ∧
    ∀ u ∈ l, s.nextTask ≤ u.id ∧ ∀ r use, u.activity ≠ .reading r use
  nextTask : s.nextTask ≤ s'.nextTask
  ended : s'.ended = s.ended

section Calm
variable {s s' s'' : Session} {k k' : Nat}

theorem Harmless.of_eq (hcache : s'.cache = s.cache) (hstreams : s'.streams = s.streams) : Harmless s s' where
  rejected := by rw [hcache]
  unfailed _ _ h := hcache ▸ h
  streams _ x hx := ⟨x, by rwa [stream?, hstreams], rfl⟩

theorem Harmless.trans (h : Harmless s s') (h' : Harmless s' s'') : Harmless s s'' where
  rejected := Nat.le_trans h.rejected h'.rejected
  unfailed _ _ hu := h'.unfailed (h.unfailed hu)
  streams _ x hx := by
    obtain ⟨y, hy, hyx⟩ := h.streams hx
    obtain ⟨z, hz, hzy⟩ := h'.streams hy
    exact ⟨z, hz, hzy.trans hyx⟩

/-- What is not rejected in the end was not rejected on the way. -/
theorem Harmless.rejected_eq (h : Harmless s s') (h' : Harmless s' s'')
    (he : s''.cache.queue.rejected = s.cache.queue.rejected) : s'.cache.queue.rejected = s.cache.queue.rejected :=
  Nat.le_antisymm (he ▸ h'.rejected) h.rejected

theorem Calm.of_eq (hcache : s'.cache = s.cache) (hstreams : s'.streams = s.streams) (htasks : s'.tasks = s.tasks)
    (hnext : s'.nextTask = s.nextTask) (hended : s'.ended = s.ended) : Calm k s s' where
  harmless := .of_eq hcache hstreams
  keeps := hcache ▸ .refl _
  tasks := ⟨[], by rw [htasks, List.append_nil], Nat.zero_le _, nofun⟩
  nextTask := Nat.le_of_eq hnext.symm
  ended := hended

theorem Calm.refl (s : Session) : Calm k s s := .of_eq rfl rfl rfl rfl rfl

theorem Calm.trans (h : Calm k s s') (h' : Calm k' s' s'') : Calm (k + k') s s'' where
  harmless := h.harmless.trans h'.harmless
  keeps := h.keeps.trans h'.keeps
  tasks := by
    obtain ⟨l, hl, hw, hnew⟩ := h.tasks
    obtain ⟨l', hl', hw', hnew'⟩ := h'.tasks
    refine ⟨l ++ l', by rw [hl', hl, List.append_assoc], by rw [tally_append]; omega, fun u hu => ?_⟩
    rcases List.mem_append.mp hu with hu | hu
    · exact hnew u hu
    · exact ⟨Nat.le_trans h.nextTask (hnew' u hu).1, (hnew' u hu).2⟩
  nextTask := Nat.le_trans h.nextTask h'.nextTask
  ended := h'.ended.trans h.ended

theorem Calm.trans_zero (h : Calm k s s') (h' : Calm 0 s' s'') : Calm k s s'' := h.trans h'

theorem Calm.backs (h : Calm k s s') (hb : s.cache.Backs s.tasks) : s'.cache.Backs s'.tasks := by
  obtain ⟨l, hl, -, hnew⟩ := h.tasks
  rw [hl]
  exact (hb.keep h.keeps).append fun u hu => (hnew u hu).2

theorem Calm.besides (h : Calm k s s') {t : Nat} (ht : t < s.nextTask) : ∃ l, s'.besides t = s.besides t ++ l ∧
    tally Activity.weight l ≤ k ∧ ∀ u ∈ l, ∀ r use, u.activity ≠ .reading r use := by
  obtain ⟨l, hl, hw, hnew⟩ := h.tasks
  refine ⟨l, ?_, hw, fun u hu => (hnew u hu).2⟩
  rw [Session.besides, hl, List.filter_append, Session.besides]
  congr 1
  refine List.filter_eq_self.mpr fun u hu => ?_
  have hle := (hnew u hu).1
  have hne : u.id ≠ t := by omega
  simpa using hne

theorem Calm.backs_besides (h : Calm k s s') {t : Nat} (ht : t < s.nextTask) (hb : s.cache.Backs (s.besides t)) :
    s'.cache.Backs (s'.besides t) := by
  obtain ⟨l, hl, -, hnew⟩ := h.besides ht
  rw [hl]
  exact (hb.keep h.keeps).append hnew

end Calm

/-! ### The cache -/

section Cache
variable {C : Contents} {s : Session} {cur : Option Turn} {α : Type} {f : Cache → Cache × α}

theorem cache_onCache (s : Session) (f : Cache → Cache × α) :
    (s.onCache f).1.cache = { (f s.cache).1 with notices := [] } := by
  obtain ⟨_, _, he⟩ := exists_onCache s f
  rw [he]

theorem harmless_onCache (hc : s.cache.StoresSound)
    (hm : Moves (fun _ _ => False) ⟨s.cache, []⟩ ⟨(f s.cache).1, []⟩) : Harmless s (s.onCache f).1 := by
  obtain ⟨l, r, he⟩ := exists_onCache s f
  rw [he]
  exact ⟨hm.rejected_le, fun i id hu => hm.unfailed (fun _ _ => False.elim) hc hu, fun _ x hx => ⟨x, hx, rfl⟩⟩

theorem besides_onCache (s : Session) (f : Cache → Cache × α) {t : Nat} (ht : t < s.nextTask) :
    ∃ jobs, (s.onCache f).1.besides t = s.besides t ++ spawned s.nextTask jobs := by
  obtain ⟨l, r, he⟩ := exists_onCache s f
  refine ⟨l, ?_⟩
  rw [he]
  simp only [besides, List.filter_append]
  congr 1
  refine List.filter_eq_self.mpr fun u hu => ?_
  have hle := (mem_spawned hu).1
  have hne : u.id ≠ t := by omega
  simpa using hne

theorem not_reading_of_mem_spawned {n : Nat} {l : List Job} {u : Task} (h : u ∈ spawned n l) (r : Reading) (use : Use) :
    u.activity ≠ .reading r use := by
  obtain ⟨-, -, j, hj⟩ := mem_spawned h
  rw [hj]
  nofun

theorem weight_spawned (n : Nat) (l : List Job) : tally Activity.weight (spawned n l) = 0 := by
  refine tally_eq_zero fun u hu => ?_
  obtain ⟨-, -, j, hj⟩ := mem_spawned hu
  rw [hj]
  rfl

/-- A session is calm while its cache moves, as long as no job ends and no read takes back its pins. -/
theorem calm_onCache (hc : s.cache.StoresSound)
    (hm : Moves (fun _ _ => False) ⟨s.cache, []⟩ ⟨(f s.cache).1, []⟩) (hk : s.cache.KeepsPins (f s.cache).1) :
    Calm 0 s (s.onCache f).1 := by
  have hharmless := harmless_onCache hc hm
  obtain ⟨l, r, he⟩ := exists_onCache s f
  rw [he] at hharmless ⊢
  exact ⟨hharmless, hk, ⟨_, rfl, Nat.le_of_eq (weight_spawned _ _), fun u hu =>
    ⟨(mem_spawned hu).1, not_reading_of_mem_spawned hu⟩⟩, Nat.le_add_right _ _, rfl⟩

end Cache

/-! ### Streams, plans and footers -/

/-- A request goes well unless a job is rejected. -/
structure Grants (s : Session) (p : Session × Except Fault Unit) : Prop where
  calm : Calm 0 s p.1
  ok : p.1.cache.queue.rejected = s.cache.queue.rejected → p.2 = .ok ()

section Flow
variable {C : Contents} {s : Session} {cur : Option Turn}

theorem calm_modifyStream (s : Session) (k : Nat) {f : Stream → Stream} (hid : ∀ x, (f x).id = x.id)
    (hclosed : ∀ x, (f x).closed = x.closed) : Calm 0 s (s.modifyStream k f) where
  harmless := by
    refine ⟨Nat.le_refl _, fun _ _ h => h, fun i x hx => ?_⟩
    refine ⟨if x.id = k then f x else x, by rw [stream?_modifyStream s k hid, hx]; rfl, ?_⟩
    split
    · exact hclosed x
    · rfl
  keeps := .refl _
  tasks := ⟨[], (List.append_nil _).symm, Nat.le_refl _, nofun⟩
  nextTask := Nat.le_refl _
  ended := rfl

theorem Sound.grants_ensurePlan (h : s.Sound C cur) (x : Stream) (plan : Plan) (priority : Priority) :
    Grants s (s.ensurePlan x plan priority) := by
  unfold Session.ensurePlan
  split
  · exact ⟨.refl s, fun _ => rfl⟩
  · generalize (if plan.kind.isExact then Fit.exact else Fit.grid) = fit
    refine ⟨calm_onCache (f := fun c => c.ensure x.object (plan.spans priority) fit priority (some x.id)) h.cache.stores
      (Cache.moves_ensure h.cache.stores ..) ((Cache.quiet_ensure h.cache.stores ..).keepsPins h.cache.stores),
      fun hr => ?_⟩
    dsimp only at hr
    rw [cache_onCache s fun c => c.ensure x.object (plan.spans priority) fit priority (some x.id)] at hr
    show Except.map _ (s.cache.ensure x.object (plan.spans priority) fit priority (some x.id)).2 = _
    rw [(Cache.granted_ensure h.cache.stores hr).result]
    rfl

theorem Sound.grants_applyPlan (h : s.Sound C cur) (x : Stream) (plan : Plan) : Grants s (s.applyPlan x plan) := by
  have hcancel : Calm 0 s (s.onCache fun c => c.cancel x.id).1 :=
    calm_onCache (f := fun c => c.cancel x.id) h.cache.stores (Cache.moves_cancel x.id)
      ((Cache.quiet_cancel x.id).keepsPins h.cache.stores)
  have hs := h.onCache (f := fun c => c.cancel x.id) (Cache.moves_cancel x.id)
  obtain ⟨hfirst, hok⟩ := hs.grants_ensurePlan x plan .immediate
  obtain ⟨hs₁, -⟩ := hs.ensurePlan x plan .immediate
  unfold Session.applyPlan
  dsimp only
  split <;> rename_i heq <;> rw [heq] at hfirst hok hs₁
  · refine ⟨hcancel.trans hfirst, fun hr => ?_⟩
    have := hok (hr.trans (hcancel.harmless.rejected_eq hfirst.harmless hr).symm)
    cases this
  · obtain ⟨hsecond, hok'⟩ := hs₁.grants_ensurePlan x plan .speculative
    have hboth := hcancel.trans hfirst
    exact ⟨hboth.trans hsecond, fun hr => hok' (hr.trans (hboth.harmless.rejected_eq hsecond.harmless hr).symm)⟩

theorem Sound.grants_replan (h : s.Sound C cur) (x : Stream) (f : Planner → Planner × Plan) :
    Grants s (s.replan x f) := by
  have hplanner : Calm 0 s (s.modifyStream x.id fun y => { y with planner := (f x.planner).1 }) :=
    calm_modifyStream s x.id (fun _ => rfl) fun _ => rfl
  obtain ⟨happly, hok⟩ := (h.modifyStream x.id (f := fun y => { y with planner := (f x.planner).1 }) fun _ => rfl
    ).grants_applyPlan x (f x.planner).2
  exact ⟨hplanner.trans happly, hok⟩

theorem calm_adopt (s : Session) (id : Nat) (f : FooterState) : Calm 0 s (s.adopt id f) := by
  cases f with
  | parsed l => exact calm_modifyStream s id (fun _ => rfl) fun _ => rfl
  | degraded f => exact calm_modifyStream s id (fun _ => rfl) fun _ => rfl

theorem calm_recordColumn (s : Session) (x : Stream) (offset : Nat) : Calm 0 s (s.recordColumn x offset) := by
  unfold Session.recordColumn
  repeat' split
  all_goals exact .of_eq rfl rfl rfl rfl rfl

theorem calm_setFooter (s : Session) (o : Nat) (cell : FooterCell) : Calm 0 s (s.setFooter o cell) :=
  .of_eq rfl rfl rfl rfl rfl

theorem calm_resumeAll (l : List Nat) (s : Session) : Calm 0 s (l.foldl resume s) := by
  obtain ⟨r, hr, -⟩ := exists_resumeAll l s
  rw [hr]
  exact .of_eq rfl rfl rfl rfl rfl

theorem Sound.calm_prefetchPageIndex (h : s.Sound C cur) (object : Nat) (l : Layout) :
    Calm 0 s (s.prefetchPageIndex object l) := by
  unfold Session.prefetchPageIndex
  generalize l.pageIndexSpan (s.config.footer.pageIndexFor (s.size object)) = span
  dsimp only
  split
  · exact calm_onCache (f := fun c => c.ensure object [span] .exact .speculative none) h.cache.stores
      (Cache.moves_ensure h.cache.stores ..) ((Cache.quiet_ensure h.cache.stores ..).keepsPins h.cache.stores)
  · exact .refl s

theorem calm_failLoad (s : Session) (object : Nat) :
    Calm 0 s (match s.footer object with
      | .loading _ (x :: q) => (s.setFooter object (.loading x q)).resume x
      | _ => s.setFooter object .unloaded) := by
  split
  · rename_i x q _
    exact (calm_setFooter s object (.loading x q)).trans (calm_resumeAll [x] _)
  · exact calm_setFooter s object .unloaded

end Flow

end Session

end RangeCache
