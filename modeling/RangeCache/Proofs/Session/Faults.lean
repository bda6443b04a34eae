import Mathlib.Data.List.Induction
import RangeCache.Proofs.Session.Books
import RangeCache.Proofs.Session.Motions
import RangeCache.Proofs.Session.Smooth

/-!
# Why the reads of a session fail

When a read fails though the queue is not full, a job is to blame: it was to fetch bytes of the span that is read, and
it failed while the read waited (`Culprit`). A read that begins claims the blocks that failed before, so it does not get
to see their faults; and a job that fails leaves its fault with its own blocks only (`failures_confined`).
-/

namespace RangeCache

/-! ### Faults of jobs -/

/-- The fault of a job whose last attempt was not to be followed by another one. -/
theorem Fault.ofTransfer_cases {c : RetryConfig} {n : Nat} {x : TransferError} (h : c.retries n x = false)
    (hn : n ≤ c.attemptLimit) (key : String) (span : Span) :
    (∃ text, ofTransfer key span n x = .transientFetch key span (max 1 c.maxAttempts) text) ∨
      ∃ text, ofTransfer key span n x = .permanentFetch key span text := by
  unfold ofTransfer
  cases hx : x.isTransient with
  | true =>
    have hlimit : c.attemptLimit ≤ n := by simpa [RetryConfig.retries, hx] using h
    rw [Nat.le_antisymm hn hlimit, RetryConfig.attemptLimit, Nat.max_comm]
    exact Or.inl ⟨_, rfl⟩
  | false => exact Or.inr ⟨_, rfl⟩

/-- A job overlaps whatever one of its blocks overlaps. -/
theorem Store.Carries.overlaps {s : Store} {j : Job} (h : s.Carries j) (hs : s.Sound) {id : Nat} (hid : id ∈ j.blocks)
    {span t : Span} (hknows : s.Knows id span) (hover : span.overlaps t = true) : j.span.overlaps t = true := by
  obtain ⟨u, ⟨b, hb, hbid, rfl, -⟩, h1, -, h2⟩ := h.owns hid
  obtain ⟨x, hx, hxid, rfl⟩ := hknows
  obtain rfl := hs.eq_of_id hx (List.mem_append_left _ hb) (hxid.trans hbid.symm)
  obtain ⟨h3, h4⟩ := overlaps_iff.mp hover
  exact overlaps_iff.mpr ⟨h1.trans_lt h3, h4.trans_le h2⟩

namespace Session

/-! ### Sessions after some events -/

/-- A session after some events. -/
def ran (config : Config) (l : List Event) : Session := (fresh config).runEvents l

/-- A task is on a read, which may have got further since. -/
def Reads (s : Session) (t : Nat) (use : Use) (r : Reading) : Prop :=
  ∃ r₀, ⟨t, .reading r₀ use⟩ ∈ s.tasks ∧ r₀.Further r

section Ran
variable {config : Config} {l : List Event} {s s' : Session} {t : Nat} {use : Use} {r r' : Reading}

theorem ran_concat (config : Config) (l : List Event) (e : Event) : ran config (l ++ [e]) = (ran config l).step e :=
  runEvents_append (fresh config) l [e]

theorem shapely_ran (config : Config) (l : List Event) : (ran config l).Shapely := (shapely_fresh config).runEvents l

theorem config_ran (config : Config) (l : List Event) : (ran config l).config = config :=
  config_runEvents (sound_fresh .any config) (fairRun_any _ l)

theorem Reads.further (h : s.Reads t use r) (hr : r.Further r') : s.Reads t use r' := by
  obtain ⟨r₀, ht, hr₀⟩ := h
  exact ⟨r₀, ht, hr₀.trans hr⟩

theorem reads_of_mem (h : ⟨t, .reading r use⟩ ∈ s.tasks) : s.Reads t use r := ⟨r, h, .refl r⟩

theorem key_of_extends (hc : s.cache.Extends s'.cache) {i : Nat} {x : Store} (hx : s.cache.stores[i]? = some x) :
    s'.key i = s.key i := by
  obtain ⟨y, hy, hhandle, -⟩ := hc hx
  rw [key_of_getElem? hy, key_of_getElem? hx, hhandle]

end Ran

/-! ### Jobs to blame -/

/-- A job is to blame for the fault of a read of a task. -/
structure Culprit (config : Config) (l : List Event) (t : Nat) (use : Use) (r : Reading) (f : Fault) (j : Job) :
    Prop where
  /-- The job failed with this fault while the task was on the read, which it has been since. -/
  failed : ∃ l₁ e l₂, l = l₁ ++ e :: l₂ ∧ (ran config l₁).ending? e = some (j, .error f) ∧
    ∀ l', l₁ <+: l' → l' <+: l → (ran config l').Reads t use r
  store : j.store = r.store
  /-- It was to fetch bytes of the span that is read. -/
  span : j.span.overlaps r.span = true
  /-- The fault tells the object, the span of the job, and, if the last attempt may have failed for a passing reason,
      that the job had all its attempts. -/
  fault : (∃ text, f = .transientFetch ((ran config l).key r.store) j.span
      (max 1 config.queue.retry.maxAttempts) text) ∨
    ∃ text, f = .permanentFetch ((ran config l).key r.store) j.span text

/-- What holds after every event: attempts are among those allowed, reads need blocks of their spans, and for the fault
    of a block that a read needs a job is to blame. -/
structure Accused (config : Config) (l : List Event) : Prop where
  within : ∀ u ∈ (ran config l).tasks, u.activity.Within config.queue.retry.attemptLimit
  meets : ∀ t use r, ⟨t, .reading r use⟩ ∈ (ran config l).tasks → (ran config l).cache.Meets r
  blame : ∀ t use r, ⟨t, .reading r use⟩ ∈ (ran config l).tasks → ∀ id ∈ r.todo, ∀ f,
    (ran config l).cache.FailedWith r.store id f → ∃ j, Culprit config l t use r f j

section Accused
variable {config : Config} {l : List Event} {e : Event} {t : Nat} {use : Use} {r r' : Reading} {f : Fault} {j : Job}

/-- Whoever is to blame for a fault stays so while the read goes on. -/
theorem Culprit.step (h : Culprit config l t use r f j)
    (hkey : (ran config (l ++ [e])).key r.store = (ran config l).key r.store) (hr : r.Further r')
    (ht : ⟨t, .reading r' use⟩ ∈ (ran config (l ++ [e])).tasks) : Culprit config (l ++ [e]) t use r' f j := by
  obtain ⟨l₁, e₁, l₂, hl, hends, hreads⟩ := h.failed
  have hfault := h.fault
  rw [← hkey] at hfault
  refine ⟨⟨l₁, e₁, l₂ ++ [e], ?_, hends, fun l' h1 h2 => ?_⟩, ?_, ?_, ?_⟩
  · rw [hl, List.append_assoc, List.cons_append]
  · rcases List.prefix_concat_iff.mp h2 with rfl | h2
    · exact reads_of_mem ht
    · exact (hreads l' h1 h2).further hr
  all_goals obtain ⟨todo, bytes, rfl, -⟩ := hr
  · exact h.store
  · exact h.span
  · exact hfault

theorem accused_nil (config : Config) : Accused config [] := ⟨nofun, nofun, nofun⟩

/-- Unless a job ends, no block fails, and nobody else gets to be to blame. -/
theorem Accused.step_of_none (h : Accused config l) (hends : (ran config l).ending? e = none) :
    Accused config (l ++ [e]) := by
  have hc := (shapely_ran config l).sound.cache.stores
  have hwithin : ∀ u ∈ (ran config l).tasks, u.activity.Within (ran config l).config.queue.retry.attemptLimit := by
    rw [config_ran]
    exact h.within
  have hmotions : Motions (ran config l) (ran config (l ++ [e])) := ran_concat config l e ▸ motions_step hwithin hends
  have hkeeps := Motions.keeps hmotions hc
  have hin := Motions.within hmotions hc (by rw [config_ran]) h.within
  refine ⟨hin, fun t use r ht => ?_, fun t use r ht id hid f hf => ?_⟩
  · rcases Motions.reading hmotions hc ht with ⟨r₀, ht₀, hr⟩ | hopens
    · exact ((h.meets t use r₀ ht₀).mono hkeeps.known).further hr
    · exact hopens.meets
  · rcases Motions.reading hmotions hc ht with ⟨r₀, ht₀, hr⟩ | hopens
    · obtain ⟨x, hx, -⟩ := h.meets t use r₀ ht₀
      have hkey := key_of_extends hkeeps.known hx
      have hstore : r.store = r₀.store ∧ r.todo ⊆ r₀.todo := by
        obtain ⟨todo, bytes, rfl, hsuffix⟩ := hr
        exact ⟨rfl, hsuffix.subset⟩
      obtain ⟨j, hj⟩ := h.blame t use r₀ ht₀ id (hstore.2 hid) f (hstore.1 ▸ hkeeps.failed hf)
      exact ⟨j, hj.step hkey hr ht⟩
    · exact absurd hf (Cache.unfailed_iff.mp (hopens.unfailed id hid) f)

/-- The tasks that are there after a job ended were there before, or are to carry out jobs. -/
theorem mem_tasks_of_ending? {result : Except Fault Bytes} (hends : (ran config l).ending? e = some (j, result))
    {u : Task} (hu : u ∈ (ran config (l ++ [e])).tasks) :
    u ∈ (ran config l).tasks ∨ ∃ j, u.activity = .errand (.job j) 1 .due := by
  obtain ⟨t, n, reply, draw, runnable, -, hstep, -⟩ := step_of_ending? hends
  rw [ran_concat, hstep] at hu
  exact mem_tasks_onCache (s := { ran config l with runnable }) (List.mem_filter.mp hu).1

/-- A job that fails is to blame for its fault, whichever read needs one of its blocks. -/
theorem Accused.culprit (h : Accused config l) (hends : (ran config l).ending? e = some (j, .error f))
    (ht : ⟨t, .reading r use⟩ ∈ (ran config l).tasks) (ht' : ⟨t, .reading r use⟩ ∈ (ran config (l ++ [e])).tasks)
    (hstore : j.store = r.store) {id : Nat} (hid : id ∈ r.todo) (hblock : id ∈ j.blocks) :
    Culprit config (l ++ [e]) t use r f j := by
  have hsound := (shapely_ran config l).sound
  have hknown := hsound.extends_step (fairRun_any _ [e]).1
  rw [← ran_concat] at hknown
  obtain ⟨k, n, reply, draw, runnable, hk, -, hfault⟩ := step_of_ending? hends
  obtain ⟨error, rfl, hretry⟩ := hfault f rfl
  obtain ⟨x, hx, hmeets⟩ := h.meets t use r ht
  obtain ⟨y, hy, hcarries⟩ := hsound.cache.ledger.carried j
    (FetchQueue.mem_jobs.mpr (Or.inr (hsound.mem_running hk rfl)))
  rw [hstore, hx] at hy
  cases hy
  obtain ⟨span, hknows, hover⟩ := hmeets id hid
  refine ⟨⟨l, e, [], rfl, hends, fun l' h1 h2 => ?_⟩, hstore, ?_, ?_⟩
  · rcases List.prefix_concat_iff.mp h2 with rfl | h2
    · exact reads_of_mem ht'
    · obtain rfl := h1.eq_of_length_le h2.length_le
      exact reads_of_mem ht
  · exact hcarries.overlaps (hsound.cache.stores hx) hblock hknows hover
  · rw [config_ran] at hretry
    rw [key_of_extends hknown hx, key_of_getElem? hx, ← hcarries.key]
    exact Fault.ofTransfer_cases hretry (h.within _ hk) j.key j.span

theorem Accused.step_of_some (h : Accused config l) {result : Except Fault Bytes}
    (hends : (ran config l).ending? e = some (j, result)) : Accused config (l ++ [e]) := by
  have hsound := (shapely_ran config l).sound
  have hc := hsound.cache.stores
  have hknown := hsound.extends_step (fairRun_any _ [e]).1
  obtain ⟨hrunning, n, hcache⟩ := hsound.cache_step_of_ending? hends
  rw [← ran_concat] at hknown hcache
  have hstays : ∀ t use r, ⟨t, .reading r use⟩ ∈ (ran config (l ++ [e])).tasks →
      ⟨t, .reading r use⟩ ∈ (ran config l).tasks := fun _ _ _ ht =>
    (mem_tasks_of_ending? hends ht).resolve_right nofun
  refine ⟨fun u hu => ?_, fun t use r ht => ?_, fun t use r ht id hid f hf => ?_⟩
  · rcases mem_tasks_of_ending? hends hu with hu | ⟨k, hk⟩
    · exact h.within u hu
    · rw [hk]
      exact Nat.le_max_right _ 1
  · exact (h.meets t use r (hstays t use r ht)).mono hknown
  · have hold := hstays t use r ht
    have hm := Cache.moves_finish (A := fun k y => k = j ∧ y = result) hc hrunning n ⟨rfl, rfl⟩
    rw [hcache] at hf
    rcases Moves.failedWith hm hc hf with hf | ⟨k, ⟨rfl, rfl⟩, hstore, hblock⟩
    · obtain ⟨x, hx, -⟩ := h.meets t use r hold
      obtain ⟨k, hk⟩ := h.blame t use r hold id hid f hf
      exact ⟨k, hk.step (key_of_extends hknown hx) (.refl r) ht⟩
    · exact ⟨k, h.culprit hends hold ht hstore hid hblock⟩

theorem accused (config : Config) (l : List Event) : Accused config l := by
  induction l using List.reverseRecOn with
  | nil => exact accused_nil config
  | append_singleton l e ih =>
    cases hends : (ran config l).ending? e with
    | none => exact ih.step_of_none hends
    | some ended => exact ih.step_of_some hends

end Accused

/-! ### Failures stay with their blocks -/

section Confined
variable {config : Config} {l : List Event} {e : Event} {f : Fault} {j : Job}

/-- The tasks that read have their pins, whatever happened. -/
theorem backs_ran (config : Config) (l : List Event) : (ran config l).cache.Backs (ran config l).tasks := by
  induction l using List.reverseRecOn with
  | nil => exact ⟨fun _ _ h => absurd h (Nat.lt_irrefl 0), nofun⟩
  | append_singleton l e ih =>
    rw [ran_concat]
    exact (shapely_ran config l).sound.backs_step ih e

/-- A job that fails leaves its fault with its blocks, and all others as they are. -/
theorem blocks_of_ending? {s : Session} (h : s.Shapely) (hends : s.ending? e = some (j, .error f)) {i : Nat} {x : Store}
    (hx : s.cache.stores[i]? = some x) : ∃ y, (s.step e).cache.stores[i]? = some y ∧
      y.blocks = x.blocks.map fun b => if i = j.store ∧ b.id ∈ j.blocks then { b with state := .failed f } else b := by
  obtain ⟨hrunning, n, hcache⟩ := h.sound.cache_step_of_ending? hends
  have hstores : (s.step e).cache.stores = (s.cache.modifyStore j.store (·.fail j.id j.blocks f)).stores := by
    rw [hcache]
    rfl
  rw [hstores]
  by_cases hi : i = j.store
  · subst hi
    have hjobs : j ∈ s.cache.queue.jobs := FetchQueue.mem_jobs.mpr (Or.inr hrunning)
    have howned := h.sound.cache.accounted.ownedBy h.sound.cache.stores hjobs
    refine ⟨_, Cache.getElem?_modifyStore_self hx, ?_⟩
    simp only [true_and]
    exact Store.blocks_fail (h.sound.cache.stores hx) (howned x hx)
  · refine ⟨x, (Cache.getElem?_modifyStore_ne hi).trans hx, ?_⟩
    simp [hi]

/-- Failures stay with the blocks that had them. -/
structure Confined (config : Config) (l : List Event) : Prop where
  /-- A read that waited fails because the queue is full, or a job is to blame that failed while the read waited. -/
  resumed : ∀ t use r, ⟨t, .reading r use⟩ ∈ (ran config l).tasks → ∀ f,
    ((ran config l).cache.resumeRead r).2 = .done (.error f) → f.IsFull ∨ ∃ j, Culprit config l t use r f j
  /-- A read that begins, and be it in the middle of an event, fails only because the queue is full, never with the
      fault of a block that failed before. -/
  begun : ∀ s, Motions (ran config l) s → ∀ i < s.cache.stores.length, ∀ span fit owner f,
    (s.cache.beginRead i span fit owner).2 = .done (.error f) → f.IsFull
  /-- When a job fails, its blocks have failed with its fault, and nothing else becomes of any block. -/
  apart : ∀ e j f, (ran config l).ending? e = some (j, .error f) →
    ∀ (i : Nat) (x : Store), (ran config l).cache.stores[i]? = some x →
    ∃ y : Store, (ran config (l ++ [e])).cache.stores[i]? = some y ∧
      y.blocks = x.blocks.map fun b => if i = j.store ∧ b.id ∈ j.blocks then { b with state := .failed f } else b

/-- Whatever happens to a session, a read fails only because the queue is full or with the fault of a job that overlaps
    it and that failed after it began, and a job that fails makes no other blocks fail. -/
theorem failures_confined (config : Config) (l : List Event) : Confined config l where
  resumed t use r ht f hf := by
    have hc := (shapely_ran config l).sound.cache.stores
    have hpinned : ∀ id ∈ r.todo, (ran config l).cache.Pinned r.store id 1 := fun id hid =>
      (backs_ran config l).pinned ht rfl hid
    rcases Cache.fault_of_resumeRead hc hpinned hf with ⟨id, hid, hfailed⟩ | hfull
    · exact Or.inr ((accused config l).blame t use r ht id hid f hfailed)
    · exact Or.inl hfull
  begun s hs i hi span fit owner f hf :=
    Cache.fault_of_beginRead (Motions.keeps hs (shapely_ran config l).sound.cache.stores).stores hi hf
  apart e j f hends i x hx := by
    rw [ran_concat]
    exact blocks_of_ending? (shapely_ran config l) hends hx

/-- Two reads want a block whose job is refused. Both fail with its fault. One that begins before they do, but after the
    job failed, has the block fetched again. -/
example :
    let config : Config := { store := { blockSize := 50 }, registry := { prefetchSmall := false } }
    let l : List Event := [.openSized "a" 200, .start (.readSpan 0 ⟨0, 10⟩ .grid none),
      .start (.readSpan 0 ⟨20, 30⟩ .grid none), .run 0, .run 0, .run 0, .answer 0 (.failed (.notFound "a")) 0, .run 0]
    let f : Fault := .permanentFetch "a" ⟨0, 50⟩ (TransferError.notFound "a").message
    (((ran config l).step (.run 0)).step (.run 0)).ended = [(1, .failed f), (0, .failed f)] ∧
      ((ran config l).cache.beginRead 0 ⟨0, 10⟩ .grid none).1.queue.jobs.map (·.span) = [⟨0, 50⟩] := by
  decide +kernel

end Confined

end Session

end RangeCache
