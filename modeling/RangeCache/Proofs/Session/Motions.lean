import RangeCache.Proofs.Cache.Faults
import RangeCache.Proofs.Session.Doings

/-!
# The motions of a session

All definitions of a session are made of a few kinds of motions, but for those that end a job. So whatever happens to a
session, it makes some motions (`motions_step`), or a job ends and that is all (`step_of_ending?`). A fact about
sessions takes one case for each kind of motion, and no definition has to be opened for it again. No motion lets a block
fail (`Motions.keeps`), and a task that reads after some motions read before, or none of the blocks that it needs failed
(`Motions.reading`).
-/

namespace RangeCache

open Relation

/-- A task does not make more attempts than a number. If it waits before another attempt, there is one left. -/
def Activity.Within (limit : Nat) : Activity → Prop
  | .errand _ n .backoff => n < limit
  | .errand _ n _ => n ≤ limit
  | _ => True

namespace Session

/-- What definitions of a session are made of, unless they end a job. -/
inductive Motion (s : Session) : Session → Prop where
  /-- Neither the cache, nor the tasks, nor the configuration change. -/
  | tend {s' : Session} (hcache : s'.cache = s.cache) (htasks : s'.tasks = s.tasks) (hconfig : s'.config = s.config) :
    Motion s s'
  /-- Something is done to the cache that ends no job, and the session hears of it. -/
  | act {α : Type} {f : Cache → Cache × α}
    (hf : s.cache.StoresSound → Moves (fun _ _ => False) ⟨s.cache, []⟩ ⟨(f s.cache).1, []⟩) : Motion s (s.onCache f).1
  | addObject (h : Handle) : Motion s (s.addObject h)
  | spawn (op : Operation) : Motion s (s.spawn (.start op))
  | leave (t : Nat) : Motion s (s.leave t)
  /-- A task turns to something other than a read. -/
  | become (t : Nat) {a : Activity} (hread : ∀ r use, a ≠ .reading r use)
    (hin : a.Within s.config.queue.retry.attemptLimit) : Motion s (s.become t a)
  /-- A task begins to read, and has to wait. -/
  | begins (t : Nat) (use : Use) {i : Nat} {span : Span} {fit : Fit} {owner : Option Nat} {r : Reading}
    (h : (s.cache.beginRead i span fit owner).2 = .waiting r) :
    Motion s ((s.onCache fun c => c.beginRead i span fit owner).1.become t (.reading r use))
  /-- A task that reads goes on, and has to wait again. -/
  | goesOn {t : Nat} {use : Use} {r r' : Reading} (ht : ⟨t, .reading r use⟩ ∈ s.tasks)
    (h : (s.cache.resumeRead r).2 = .waiting r') :
    Motion s ((s.onCache fun c => c.resumeRead r).1.become t (.reading r' use))

/-- Some motions, one after the other. -/
abbrev Motions : Session → Session → Prop := ReflTransGen Motion

/-! ### What motions keep -/

/-- The configuration and the objects stay, with what is known of the blocks of these, and no block fails. -/
structure Keeps (s s' : Session) : Prop where
  config : s'.config = s.config
  stores : s'.cache.StoresSound
  known : s.cache.Extends s'.cache
  failed : ∀ ⦃i id : Nat⦄ ⦃f : Fault⦄, s'.cache.FailedWith i id f → s.cache.FailedWith i id f

section Keeps
variable {s s' s'' : Session} {t : Nat} {use : Use} {r r' : Reading}

theorem Keeps.of_eq (hc : s.cache.StoresSound) (hcache : s'.cache = s.cache) (hconfig : s'.config = s.config) :
    Keeps s s' where
  config := hconfig
  stores := hcache ▸ hc
  known := hcache ▸ .refl _
  failed _ _ _ h := hcache ▸ h

theorem Keeps.trans (h : Keeps s s') (h' : Keeps s' s'') : Keeps s s'' where
  config := h'.config.trans h.config
  stores := h'.stores
  known := h.known.trans h'.known
  failed _ _ _ hf := h.failed (h'.failed hf)

theorem keeps_onCache {α : Type} {f : Cache → Cache × α} (hc : s.cache.StoresSound)
    (hf : Moves (fun _ _ => False) ⟨s.cache, []⟩ ⟨(f s.cache).1, []⟩) : Keeps s (s.onCache f).1 := by
  obtain ⟨l, runnable, he⟩ := exists_onCache s f
  rw [he]
  refine ⟨rfl, hf.storesSound hc, hf.extends hc, fun i id f hfailed => ?_⟩
  exact (hf.failedWith hc hfailed).resolve_right fun ⟨_, hno, _⟩ => hno

theorem Motion.keeps (h : Motion s s') (hc : s.cache.StoresSound) : Keeps s s' := by
  cases h with
  | tend hcache htasks hconfig => exact .of_eq hc hcache hconfig
  | act hf => exact keeps_onCache hc (hf hc)
  | addObject handle =>
    exact ⟨rfl, hc.addStore handle s.config.store, Cache.extends_addStore handle s.config.store,
      fun _ _ _ hfailed => hfailed.of_addStore⟩
  | spawn op => exact .of_eq hc rfl rfl
  | leave t => exact .of_eq hc rfl rfl
  | become t hread hin => exact .of_eq hc rfl rfl
  | @begins t use i span fit owner r h =>
    have hbegin := keeps_onCache (f := fun c => c.beginRead i span fit owner) hc (Cache.moves_beginRead hc ..)
    exact hbegin.trans (.of_eq hbegin.stores rfl rfl)
  | @goesOn t use r r' ht h =>
    have hresume := keeps_onCache (f := fun c => c.resumeRead r) hc (Cache.moves_resumeRead hc r)
    exact hresume.trans (.of_eq hresume.stores rfl rfl)

theorem Motions.keeps (h : Motions s s') (hc : s.cache.StoresSound) : Keeps s s' := by
  induction h with
  | refl => exact .of_eq hc rfl rfl
  | tail _ hm ih => exact ih.trans (hm.keeps ih.stores)

/-! ### Tasks that read -/

theorem Keeps.opens (hs : Keeps s s') (h : s.cache.Opens r) (hr : r.Further r') : s'.cache.Opens r' where
  meets := (h.meets.mono hs.known).further hr
  unfailed id hid := by
    obtain ⟨todo, bytes, rfl, hsuffix⟩ := hr
    have hold := Cache.unfailed_iff.mp (h.unfailed id (hsuffix.subset hid))
    exact Cache.unfailed_iff.mpr fun f hf => hold f (hs.failed hf)

/-- The tasks that are added when a session hears of what happened to its cache are to carry out jobs. -/
theorem mem_tasks_onCache {α : Type} {f : Cache → Cache × α} {u : Task} (hu : u ∈ (s.onCache f).1.tasks) :
    u ∈ s.tasks ∨ ∃ j, u.activity = .errand (.job j) 1 .due := by
  obtain ⟨l, runnable, he⟩ := exists_onCache s f
  rw [he] at hu
  refine (List.mem_append.mp hu).imp_right fun hu => ?_
  obtain ⟨-, -, j, hj⟩ := mem_spawned hu
  exact ⟨j, hj⟩

theorem mem_tasks_become {a b : Activity} (h : ⟨t, b⟩ ∈ (s.become t a).tasks) : b = a := by
  obtain ⟨u, -, hu⟩ := List.mem_map.mp h
  split at hu
  · cases hu
    rfl
  · cases hu
    contradiction

theorem mem_tasks_of_ne {a : Activity} {u : Task} (h : u ∈ (s.become t a).tasks) (hne : u.id ≠ t) : u ∈ s.tasks := by
  obtain ⟨v, hv, rfl⟩ := List.mem_map.mp h
  split at hne
  · contradiction
  · rw [if_neg (by assumption)]
    exact hv

/-- A task that reads now read before, and may be further on, or its read has just begun. -/
theorem Motion.reading (h : Motion s s') (hc : s.cache.StoresSound) (ht : ⟨t, .reading r use⟩ ∈ s'.tasks) :
    (∃ r₀, ⟨t, .reading r₀ use⟩ ∈ s.tasks ∧ r₀.Further r) ∨ s'.cache.Opens r := by
  have hstays : ⟨t, .reading r use⟩ ∈ s.tasks → (∃ r₀, ⟨t, .reading r₀ use⟩ ∈ s.tasks ∧ r₀.Further r) ∨
      s'.cache.Opens r := fun hmem => Or.inl ⟨r, hmem, .refl r⟩
  have hcache : ∀ {α : Type} {f : Cache → Cache × α}, ⟨t, .reading r use⟩ ∈ (s.onCache f).1.tasks →
      ⟨t, .reading r use⟩ ∈ s.tasks := fun hmem => (mem_tasks_onCache hmem).resolve_right nofun
  cases h with
  | tend hcache htasks hconfig => exact hstays (htasks ▸ ht)
  | act hf => exact hstays (hcache ht)
  | addObject handle => exact hstays ht
  | spawn op =>
    refine hstays ((List.mem_append.mp ht).resolve_right fun hu => ?_)
    cases List.mem_singleton.mp hu
  | leave k => exact hstays (List.mem_filter.mp ht).1
  | become k hread hin =>
    by_cases hk : t = k
    · subst hk
      exact absurd (mem_tasks_become ht).symm (hread r use)
    · exact hstays (mem_tasks_of_ne ht hk)
  | begins k use' h =>
    by_cases hk : t = k
    · subst hk
      cases mem_tasks_become ht
      have hopens := Cache.opens_of_beginRead hc h
      right
      rw [show ((s.onCache _).1.become t _).cache = (s.onCache _).1.cache from rfl, cache_onCache]
      exact ⟨hopens.meets, hopens.unfailed⟩
    · exact hstays (hcache (mem_tasks_of_ne ht hk))
  | @goesOn k use' r₀ r' hmem h =>
    by_cases hk : t = k
    · subst hk
      cases mem_tasks_become ht
      exact Or.inl ⟨r₀, hmem, Cache.further_of_resumeRead h⟩
    · exact hstays (hcache (mem_tasks_of_ne ht hk))

theorem Motions.reading (h : Motions s s') (hc : s.cache.StoresSound) (ht : ⟨t, .reading r use⟩ ∈ s'.tasks) :
    (∃ r₀, ⟨t, .reading r₀ use⟩ ∈ s.tasks ∧ r₀.Further r) ∨ s'.cache.Opens r := by
  induction h generalizing r with
  | refl => exact Or.inl ⟨r, ht, .refl r⟩
  | tail hms hm ih =>
    have hmid := (Motions.keeps hms hc).stores
    rcases hm.reading hmid ht with ⟨r₁, ht₁, hr⟩ | hopens
    · rcases ih ht₁ with ⟨r₀, ht₀, hr₀⟩ | hopens
      · exact Or.inl ⟨r₀, ht₀, hr₀.trans hr⟩
      · exact Or.inr ((hm.keeps hmid).opens hopens hr)
    · exact Or.inr hopens

/-! ### Tasks on errands -/

theorem Motion.within {limit : Nat} (h : Motion s s') (hlimit : s.config.queue.retry.attemptLimit = limit)
    (hin : ∀ u ∈ s.tasks, u.activity.Within limit) : ∀ u ∈ s'.tasks, u.activity.Within limit := by
  have hcache : ∀ {α : Type} (f : Cache → Cache × α), ∀ u ∈ (s.onCache f).1.tasks, u.activity.Within limit := by
    intro α f u hu
    rcases mem_tasks_onCache hu with hu | ⟨j, hj⟩
    · exact hin u hu
    · rw [hj, ← hlimit]
      exact Nat.le_max_right _ 1
  have hbecome : ∀ {s : Session} {k : Nat} {a : Activity}, (∀ u ∈ s.tasks, u.activity.Within limit) →
      a.Within limit → ∀ u ∈ (s.become k a).tasks, u.activity.Within limit := by
    intro s k a hin ha u hu
    by_cases hk : u.id = k
    · subst hk
      exact mem_tasks_become hu ▸ ha
    · exact hin u (mem_tasks_of_ne hu hk)
  intro u hu
  cases h with
  | tend hcache htasks hconfig => exact hin u (htasks ▸ hu)
  | act hf => exact hcache _ u hu
  | addObject handle => exact hin u hu
  | spawn op =>
    rcases List.mem_append.mp hu with hu | hu
    · exact hin u hu
    · rw [List.mem_singleton.mp hu]
      trivial
  | leave k => exact hin u (List.mem_filter.mp hu).1
  | become k hread hwithin => exact hbecome hin (hlimit ▸ hwithin) u hu
  | begins k use h => exact hbecome (a := .reading _ use) (hcache _) trivial u hu
  | @goesOn k use r r' ht h => exact hbecome (a := .reading r' use) (hcache _) trivial u hu

theorem Motions.within {limit : Nat} (h : Motions s s') (hc : s.cache.StoresSound)
    (hlimit : s.config.queue.retry.attemptLimit = limit) (hin : ∀ u ∈ s.tasks, u.activity.Within limit) :
    ∀ u ∈ s'.tasks, u.activity.Within limit := by
  induction h with
  | refl => exact hin
  | tail hms hm ih => exact hm.within (by rw [(Motions.keeps hms hc).config, hlimit]) ih

end Keeps

/-! ### Updates -/

section Updates
variable {s : Session}

theorem motions_tend {s' : Session} (hcache : s'.cache = s.cache) (htasks : s'.tasks = s.tasks)
    (hconfig : s'.config = s.config) : Motions s s' := .single (.tend hcache htasks hconfig)

theorem motions_finish (s : Session) (t : Nat) (o : Outcome) : Motions s (s.finish t o) :=
  .tail (.single (.leave t)) (.tend rfl rfl rfl)

theorem motions_turn (s : Session) (t : Nat) (object : Nat) (goal : Goal) :
    Motions s (s.become t (.turn object goal)) := .single (.become t (fun _ _ => nofun) trivial)

theorem motions_attempt (s : Session) (t : Nat) (e : Errand) {n : Nat} (hn : n ≤ s.config.queue.retry.attemptLimit) :
    Motions s (s.attempt t e n) := by
  have hcalled : Motion s (s.become t (.errand e n .called)) := .become t (fun _ _ => nofun) hn
  exact .tail (.single hcalled) (.tend rfl rfl rfl)

theorem motions_resumeAll (l : List Nat) (s : Session) : Motions s (l.foldl resume s) := by
  obtain ⟨r, hr, -⟩ := exists_resumeAll l s
  rw [hr]
  exact motions_tend rfl rfl rfl

theorem motions_setFooter (s : Session) (object : Nat) (cell : FooterCell) : Motions s (s.setFooter object cell) :=
  motions_tend rfl rfl rfl

theorem motions_modifyStream (s : Session) (id : Nat) (f : Stream → Stream) : Motions s (s.modifyStream id f) :=
  motions_tend rfl rfl rfl

theorem motions_ensure (s : Session) (i : Nat) (spans : List Span) (fit : Fit) (priority : Priority)
    (owner : Option Nat) : Motions s (s.onCache fun c => c.ensure i spans fit priority owner).1 :=
  .single (.act fun hc => Cache.moves_ensure hc i spans fit priority owner)

theorem motions_cancel (s : Session) (owner : Nat) : Motions s (s.onCache fun c => c.cancel owner).1 :=
  .single (.act fun _ => Cache.moves_cancel owner)

end Updates

/-! ### Streams and their plans -/

section Streams

theorem motions_ensurePlan (s : Session) (x : Stream) (plan : Plan) (priority : Priority) :
    Motions s (s.ensurePlan x plan priority).1 := by
  unfold ensurePlan
  split
  · exact .refl
  · exact motions_ensure s x.object _ _ priority _

theorem motions_applyPlan (s : Session) (x : Stream) (plan : Plan) : Motions s (s.applyPlan x plan).1 := by
  have hfirst := (motions_cancel s x.id).trans (motions_ensurePlan _ x plan .immediate)
  unfold applyPlan
  dsimp only
  split <;> rename_i heq <;> rw [heq] at hfirst
  · exact hfirst
  · exact hfirst.trans (motions_ensurePlan _ x plan .speculative)

theorem motions_replan (s : Session) (x : Stream) (f : Planner → Planner × Plan) : Motions s (s.replan x f).1 :=
  (motions_modifyStream s x.id _).trans (motions_applyPlan _ x _)

theorem motions_recordColumn (s : Session) (x : Stream) (offset : Nat) : Motions s (s.recordColumn x offset) := by
  unfold recordColumn
  repeat' split
  all_goals exact motions_tend rfl rfl rfl

theorem motions_seek (s : Session) (id position : Nat) : Motions s (s.seek id position).1 := by
  unfold seek
  split
  · exact .refl
  · rename_i x hx
    dsimp only
    split
    · exact .refl
    · split
      · exact .refl
      · have hmove := motions_modifyStream s id fun y => { y with position }
        generalize s.modifyStream id (fun y => { y with position }) = s₁ at hmove ⊢
        have hreplan := motions_replan s₁ x fun p => p.onSeek s₁.recent.paths position
        split <;> rename_i heq <;> rw [heq] at hreplan <;> exact hmove.trans hreplan

theorem motions_close (s : Session) (id : Nat) : Motions s (s.close id) := by
  rcases exists_close s id with he | ⟨registry, he⟩
  · rw [he]
  · have hmark := motions_modifyStream s id fun y => { y with closed := true }
    rw [he]
    exact (hmark.trans (motions_cancel _ id)).tail (.tend rfl rfl rfl)

end Streams

/-! ### Opening -/

section Opening

theorem motions_acquire (s : Session) (h : Handle) : Motions s (s.acquire h).1 := by
  unfold acquire
  dsimp only
  generalize s.registry.acquire h s.footers.length = acquired
  obtain ⟨registry, e, isNew⟩ := acquired
  have hkeep : Motions s { s with registry } := motions_tend rfl rfl rfl
  cases isNew with
  | false => exact hkeep
  | true =>
    have hsmall : ∀ s : Session, Motions s (s.prefetchSmall e.object h) := fun s => by
      unfold prefetchSmall
      split
      · exact motions_ensure s _ _ _ _ _
      · exact .refl
    have hfooter : ∀ s : Session, Motions s (s.prefetchFooter e.object h) := fun s => by
      unfold prefetchFooter
      split
      · exact .single (.spawn _)
      · exact .refl
    exact (hkeep.tail (.addObject h)).trans ((hsmall _).trans (hfooter _))

theorem motions_openHandle (s : Session) (h : Handle) : Motions s (s.openHandle h).1 :=
  (motions_acquire s h).tail (.tend rfl rfl rfl)

end Opening

/-! ### Reading -/

section Reading

/-- A task reads, and goes on if the read ends at once. -/
theorem motions_reading (s : Session) (t : Nat) {use : Use} {f : Cache → Cache × Progress Reading}
    {next : Session → Except Fault Bytes → Session}
    (hf : s.cache.StoresSound → Moves (fun _ _ => False) ⟨s.cache, []⟩ ⟨(f s.cache).1, []⟩)
    (hwait : ∀ r, (f s.cache).2 = .waiting r → Motion s ((s.onCache f).1.become t (.reading r use)))
    (hnext : ∀ s' b, Motions s' (next s' b)) : Motions s (s.reading t use f next) := by
  unfold reading
  split <;> rename_i heq
  · rename_i s' r
    have hread := hwait r (congrArg Prod.snd heq)
    rw [heq] at hread
    exact .single hread
  · have hact : Motion s (s.onCache f).1 := .act hf
    rw [heq] at hact
    exact (ReflTransGen.single hact).trans (hnext _ _)

theorem motions_beginRead (s : Session) (t : Nat) {use : Use} (i : Nat) (span : Span) (fit : Fit) (owner : Option Nat)
    {next : Session → Except Fault Bytes → Session} (hnext : ∀ s' b, Motions s' (next s' b)) :
    Motions s (s.reading t use (fun c => c.beginRead i span fit owner) next) :=
  motions_reading s t (fun hc => Cache.moves_beginRead hc i span fit owner) (fun _ h => .begins t use h) hnext

theorem motions_afterStream (s : Session) (t id offset : Nat) (r : Except Fault Bytes) :
    Motions s (s.afterStream t id offset r) := by
  unfold afterStream
  split
  · exact motions_finish s t _
  · split
    · exact motions_finish s t _
    · rename_i x _
      exact (motions_modifyStream s id _).trans ((motions_recordColumn _ x offset).trans (motions_finish _ t _))

theorem motions_afterBytes (s : Session) (t : Nat) (r : Except Fault Bytes) : Motions s (s.afterBytes t r) := by
  cases r <;> exact motions_finish s t _

theorem motions_select (s : Session) (t id : Nat) (columns : List Nat) (o : Outcome) :
    Motions s (s.select t id columns o) := by
  unfold select
  split
  · exact motions_finish s t _
  · rename_i x _
    have hreplan := motions_replan s x fun p => p.onSelect x.position columns
    split <;> rename_i heq <;> rw [heq] at hreplan <;> exact hreplan.trans (motions_finish _ t _)

theorem motions_pursue (s : Session) (t : Nat) (goal : Goal) : Motions s (s.pursue t goal) := by
  cases goal with
  | read id offset length =>
    unfold pursue
    dsimp only
    split
    · exact motions_finish s t _
    · rename_i x _
      have hreplan := motions_replan s x fun p => p.onRead s.recent.paths offset length
      split <;> rename_i heq <;> rw [heq] at hreplan
      · exact hreplan.trans (motions_finish _ t _)
      · exact hreplan.trans (motions_beginRead _ t _ _ _ _ fun s' b => motions_afterStream s' t id offset b)
  | readTail id length =>
    unfold pursue
    dsimp only
    split
    · exact motions_finish s t _
    · exact motions_beginRead s t _ _ _ _ fun s' b => motions_afterBytes s' t b
  | declare id columns => exact motions_select s t id columns .done
  | declareNames id names =>
    unfold pursue
    dsimp only
    split
    · exact motions_finish s t _
    · exact motions_select s t id _ _
  | footer => exact .single (.leave t)

end Reading

/-! ### Footers -/

section Footers

theorem motions_arrive (s : Session) (t : Nat) (goal : Goal) (f : Option FooterState) :
    Motions s (s.arrive t goal f) := by
  unfold arrive
  split
  · exact (motions_modifyStream s _ _).trans (motions_pursue _ t goal)
  · exact motions_pursue s t goal

theorem motions_settleFooter (s : Session) (t object : Nat) (goal : Goal) (p : Except FooterFault Footer.Parse) :
    Motions s (s.settleFooter t object goal p) := by
  obtain ⟨s₁, hs₁, he⟩ := s.exists_settleFooter t object goal p
  have hprefetch : Motions s s₁ := by
    rcases hs₁ with rfl | ⟨l, rfl⟩
    · exact .refl
    · unfold prefetchPageIndex
      dsimp only
      split
      · exact motions_ensure s object _ _ _ _
      · exact .refl
  have hknown := (motions_setFooter s₁ object (.loaded (footerState (s.size object) p))).trans
    (motions_resumeAll (queueOf (s₁.footer object)) _)
  rw [he]
  exact hprefetch.trans (hknown.trans (motions_arrive _ t goal _))

theorem motions_failFooter (s : Session) (t object : Nat) (goal : Goal) : Motions s (s.failFooter t object goal) := by
  have hpass : Motions s (s.passOn object) := by
    unfold passOn
    split
    · exact (motions_setFooter s object _).trans (motions_resumeAll [_] _)
    · exact motions_setFooter s object _
  rw [failFooter_eq]
  exact hpass.trans (motions_pursue _ t goal)

theorem motions_afterFooter (s : Session) (t object : Nat) (goal : Goal) (r : Except Fault Bytes) :
    Motions s (s.afterFooter t object goal r) := by
  cases r with
  | error f => exact motions_failFooter s t object goal
  | ok tail => exact motions_settleFooter s t object goal _

theorem motions_afterGuess (s : Session) (t object : Nat) (goal : Goal) (r : Except Fault Bytes) :
    Motions s (s.afterGuess t object goal r) := by
  cases r with
  | error f => exact motions_failFooter s t object goal
  | ok tail =>
    unfold afterGuess
    dsimp only
    split
    · split
      · exact motions_beginRead s t _ _ _ _ fun s' b => motions_afterFooter s' t object goal b
      · exact motions_settleFooter s t object goal _
    · exact motions_settleFooter s t object goal _

theorem motions_load (s : Session) (t object : Nat) (goal : Goal) : Motions s (s.load t object goal) :=
  motions_beginRead s t _ _ _ _ fun s' b => motions_afterGuess s' t object goal b

theorem motions_needFooter (s : Session) (t object : Nat) (goal : Goal) : Motions s (s.needFooter t object goal) := by
  unfold needFooter
  split
  · exact motions_arrive s t goal _
  · exact (motions_setFooter s object _).trans (motions_load _ t object goal)
  · exact (motions_setFooter s object _).trans (motions_turn _ t object goal)

theorem motions_takeTurn (s : Session) (t object : Nat) (goal : Goal) : Motions s (s.takeTurn t object goal) := by
  unfold takeTurn
  split
  · exact motions_arrive s t goal _
  · split
    · exact motions_load s t object goal
    · exact .refl
  · exact .refl

theorem motions_syncFooter (s : Session) (t : Nat) (x : Stream) (offset length : Nat) (goal : Goal) :
    Motions s (s.syncFooter t x offset length goal) := by
  unfold syncFooter
  split
  · exact motions_pursue s t goal
  · split
    · exact motions_arrive s t goal _
    · split
      · exact motions_needFooter s t _ goal
      · exact motions_pursue s t goal

theorem motions_demandFooter (s : Session) (t : Nat) (x : Stream) (goal : Goal) :
    Motions s (s.demandFooter t x goal) := by
  unfold demandFooter
  split
  · exact motions_pursue s t goal
  · exact motions_needFooter s t _ goal

end Footers

/-! ### Operations -/

section Operations

theorem motions_onStream (s : Session) (t id : Nat) {f : Stream → Session} (hf : ∀ x, Motions s (f x)) :
    Motions s (s.onStream t id f) := by
  unfold onStream
  split
  · exact motions_finish s t _
  · split
    · exact motions_finish s t _
    · exact hf _

theorem motions_awaitBlock (s : Session) (t object block : Nat) (owner : Option Nat) :
    Motions s (s.awaitBlock t object block owner) := by
  have hpoll : Motion s (s.onCache fun c => c.poll object block owner).1 :=
    .act fun hc => Cache.moves_poll hc object block owner
  unfold awaitBlock
  split <;> rename_i heq <;> rw [heq] at hpoll
  · exact .tail (.single hpoll) (.become t (fun _ _ => nofun) trivial)
  · exact (ReflTransGen.single hpoll).trans (motions_afterBytes _ t _)

theorem motions_begin (s : Session) (t : Nat) (op : Operation) : Motions s (s.begin t op) := by
  cases op with
  | openKey key =>
    unfold begin
    dsimp only
    split
    · exact (motions_openHandle s _).trans (motions_finish _ t _)
    · exact motions_attempt s t _ (Nat.le_max_right _ 1)
  | read id length =>
    refine motions_onStream s t id fun x => ?_
    dsimp only
    split
    · exact motions_finish s t _
    · exact motions_syncFooter s t x _ _ _
  | readTail id length =>
    refine motions_onStream s t id fun x => ?_
    dsimp only
    split
    · exact motions_finish s t _
    · exact motions_syncFooter s t x _ _ _
  | declare id columns => exact motions_onStream s t id fun x => motions_demandFooter s t x _
  | declareNames id names => exact motions_onStream s t id fun x => motions_demandFooter s t x _
  | readSpan object span fit owner => exact motions_beginRead s t _ _ _ _ fun s' b => motions_afterBytes s' t b
  | await object block owner => exact motions_awaitBlock s t object block owner
  | loadFooter object => exact motions_needFooter s t object .footer

theorem motions_after (s : Session) (t : Nat) (use : Use) (r : Except Fault Bytes) : Motions s (s.after t use r) := by
  cases use with
  | bytes => exact motions_afterBytes s t r
  | stream id offset => exact motions_afterStream s t id offset r
  | guess object goal => exact motions_afterGuess s t object goal r
  | footer object goal => exact motions_afterFooter s t object goal r

end Operations

/-! ### Errands -/

section Errands

/-- Another attempt follows one that it may follow. -/
theorem motions_retry (s : Session) (t : Nat) (e : Errand) {n : Nat} (draw : Nat) {x : TransferError}
    (h : s.config.queue.retry.retries n x = true) : Motions s (s.retry t e n draw) := by
  have hlt : n < s.config.queue.retry.attemptLimit := by simpa using (Bool.and_eq_true_iff.mp h).2
  unfold retry
  split
  · exact motions_attempt s t e hlt
  · have hback : Motion s (s.become t (.errand e n .backoff)) := .become t (fun _ _ => nofun) hlt
    exact .tail (.single hback) (.tend rfl rfl rfl)

theorem motions_endAttempt (s : Session) (t : Nat) (e : Errand) (n draw : Nat) (reply : Reply)
    (hends : (Activity.errand e n (.answered reply draw)).ending? s.config = none) :
    Motions s (s.endAttempt t e n draw reply) := by
  cases e with
  | job j =>
    unfold endAttempt
    dsimp only [Activity.ending?] at hends ⊢
    cases hreply : reply.bytesOf j.span.length with
    | ok b =>
      rw [hreply] at hends
      cases hends
    | error x =>
      rw [hreply] at hends
      by_cases hretry : s.config.queue.retry.retries n x = true
      · simp only [failAttempt, if_pos hretry]
        exact motions_retry s t _ draw hretry
      · cases (if_neg hretry).symm.trans hends
  | size key =>
    unfold endAttempt
    dsimp only
    split
    · exact (motions_openHandle s _).trans (motions_finish _ t _)
    · unfold failAttempt
      split
      · rename_i hretry
        exact motions_retry s t _ draw hretry
      · exact motions_finish s t _

end Errands

/-! ### Events -/

section Events
variable {s : Session} {e : Event}

/-- A task goes on that ends no job. -/
theorem motions_proceed {u : Task} (hu : u ∈ s.tasks)
    (hin : u.activity.Within s.config.queue.retry.attemptLimit) (hends : u.activity.ending? s.config = none) :
    Motions s (s.proceed u) := by
  obtain ⟨t, a⟩ := u
  cases a with
  | start op => exact motions_begin s t op
  | errand e n phase =>
    cases phase with
    | due => exact motions_attempt s t e hin
    | called => exact .refl
    | answered reply draw => exact motions_endAttempt s t e n draw reply hends
    | backoff => exact motions_attempt s t e hin
  | reading r use =>
    exact motions_reading s t (fun hc => Cache.moves_resumeRead hc r) (fun _ h => .goesOn hu h) fun s' b =>
      motions_after s' t use b
  | awaiting object block owner => exact motions_awaitBlock s t object block owner
  | turn object goal => exact motions_takeTurn s t object goal

theorem motions_answer (hin : ∀ u ∈ s.tasks, u.activity.Within s.config.queue.retry.attemptLimit) (i : Nat)
    (reply : Reply) (draw : Nat) : Motions s (s.answer i reply draw) := by
  unfold answer
  split
  · exact .refl
  · rename_i call _
    have hcalls : Motions s { s with calls := s.calls.eraseIdx i } := motions_tend rfl rfl rfl
    dsimp only
    split
    · rename_i id e n hcalled
      have hwithin : n ≤ s.config.queue.retry.attemptLimit := hin _ (mem_of_task?_eq_some hcalled).1
      have hanswered : Motion { s with calls := s.calls.eraseIdx i }
          (({ s with calls := s.calls.eraseIdx i } : Session).become id (.errand e n (.answered reply draw))) :=
        .become id (fun _ _ => nofun) hwithin
      exact (hcalls.tail hanswered).trans (motions_resumeAll [id] _)
    · exact hcalls

/-- Whatever happens to a session is a matter of some motions, unless a job ends. -/
theorem motions_step (hin : ∀ u ∈ s.tasks, u.activity.Within s.config.queue.retry.attemptLimit)
    (hends : s.ending? e = none) : Motions s (s.step e) := by
  cases e with
  | start op => exact .single (.spawn op)
  | addObject handle => exact .single (.addObject handle)
  | openSized key size => exact motions_openHandle s _
  | seek id position => exact motions_seek s id position
  | close id => exact motions_close s id
  | get object span => exact .single (.act fun hc => Cache.moves_get hc object span)
  | ensure object spans fit priority owner => exact motions_ensure s object spans fit priority owner
  | cancel owner => exact motions_cancel s owner
  | evict object => exact .single (.act fun hc => Cache.moves_evict hc object)
  | run i =>
    rcases exists_runAt s i with ⟨-, he⟩ | ⟨id, runnable, hid, -, -, ⟨-, he⟩ | ⟨u, hu, he⟩⟩
    · rw [Session.step, he]
    · rw [Session.step, he]
      exact motions_tend rfl rfl rfl
    · have hmem := (mem_of_task?_eq_some hu).1
      have hpick : Motions s { s with runnable } := motions_tend rfl rfl rfl
      rw [Session.step, he]
      refine hpick.trans (motions_proceed (s := { s with runnable }) hmem (hin u hmem) ?_)
      simpa [ending?, hid, hu] using hends
  | answer i reply draw => exact motions_answer hin i reply draw
  | tick =>
    obtain ⟨now, timers, r, he, -⟩ := exists_tick s
    rw [Session.step, he]
    exact motions_tend rfl rfl rfl

end Events

end Session

end RangeCache
