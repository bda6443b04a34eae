import RangeCache.Proofs.Session.Course

/-!
# How tasks go on

A task that is let run goes on with its operation or its errand, and stops at a later stage or at the one where it was
(`Sound.runs_proceed`). An errand that brings what was asked for goes well; one that fails may let blocks fail, but it
takes no pins from the tasks that read (`Sound.backs_proceed`).
-/

namespace RangeCache

/-- An answer to a request brings what was asked for. -/
def Errand.Fulfilled (e : Errand) (reply : Reply) : Prop :=
  match e with
  | .job j => ∃ b, reply.bytesOf j.span.length = .ok b
  | .size _ => ∃ a, reply.attributesOf = .ok a

instance decidableExistsOk {ε α : Type} : (x : Except ε α) → Decidable (∃ a, x = .ok a)
  | .ok a => isTrue ⟨a, rfl⟩
  | .error _ => isFalse nofun

instance : (e : Errand) → (reply : Reply) → Decidable (e.Fulfilled reply)
  | .job j, reply => decidableExistsOk (reply.bytesOf j.span.length)
  | .size _, reply => decidableExistsOk reply.attributesOf

namespace Session

variable {C : Contents} {s s' : Session} {t k : Nat} {cur : Option Turn} {ok : Nat → Prop}

/-! ### Opening -/

theorem calm_spawn (s : Session) (op : Operation) : Calm (Activity.start op).weight s (s.spawn (.start op)) where
  harmless := .of_eq rfl rfl
  keeps := .refl _
  tasks := by
    refine ⟨[⟨s.nextTask, .start op⟩], rfl, Nat.le_refl _, fun u hu => ?_⟩
    rw [List.mem_singleton.mp hu]
    exact ⟨Nat.le_refl _, nofun⟩
  nextTask := Nat.le_succ _
  ended := rfl

theorem calm_addObject (s : Session) (handle : Handle) : Calm 0 s (s.addObject handle) where
  harmless := ⟨Nat.le_refl _, fun _ _ hu => hu.addStore handle s.config.store, fun _ x hx => ⟨x, hx, rfl⟩⟩
  keeps := Cache.keepsPins_addStore handle s.config.store
  tasks := ⟨[], (List.append_nil _).symm, Nat.le_refl _, nofun⟩
  nextTask := Nat.le_refl _
  ended := rfl

theorem calm_prefetchSmall (hc : s.cache.StoresSound) (object : Nat) (handle : Handle) :
    Calm 0 s (s.prefetchSmall object handle) := by
  unfold Session.prefetchSmall
  split
  · exact calm_onCache (f := fun c => c.ensure object [⟨0, handle.size⟩] .grid .speculative none) hc
      (Cache.moves_ensure hc ..) ((Cache.quiet_ensure hc ..).keepsPins hc)
  · exact .refl s

theorem calm_prefetchFooter (s : Session) (object : Nat) (handle : Handle) :
    Calm 5 s (s.prefetchFooter object handle) := by
  unfold Session.prefetchFooter
  split
  · exact calm_spawn s (.loadFooter object)
  · exact .refl s

/-- When an object is taken, at most one task comes to be: it loads the footer. -/
theorem calm_acquire (hc : s.cache.StoresSound) (handle : Handle) : Calm 5 s (s.acquire handle).1 := by
  unfold Session.acquire Registry.acquire
  cases s.registry.find? handle.key with
  | some e => exact .of_eq rfl rfl rfl rfl rfl
  | none =>
    have hkeep : Calm 0 s
        { s with registry := { s.registry with entries := ⟨handle, 1, s.footers.length⟩ :: s.registry.entries } } :=
      .of_eq rfl rfl rfl rfl rfl
    have hadd := hkeep.trans (calm_addObject _ handle)
    have hsmall := calm_prefetchSmall (s := Session.addObject
      { s with registry := { s.registry with entries := ⟨handle, 1, s.footers.length⟩ :: s.registry.entries } } handle)
      (hc.addStore handle s.config.store) s.footers.length handle
    exact (hadd.trans hsmall).trans (calm_prefetchFooter _ s.footers.length handle)

/-- When a stream is opened, at most one task comes to be: it loads the footer of a new object. -/
theorem calm_openHandle (hc : s.cache.StoresSound) (handle : Handle) : Calm 5 s (s.openHandle handle).1 := by
  have hcalm := calm_acquire hc handle
  unfold Session.openHandle
  generalize s.acquire handle = acquired at hcalm ⊢
  obtain ⟨s₁, object⟩ := acquired
  refine hcalm.trans_zero ⟨⟨Nat.le_refl _, fun _ _ hu => hu, fun i x hx => ⟨x, ?_, rfl⟩⟩, .refl _,
    ⟨[], (List.append_nil _).symm, Nat.le_refl _, nofun⟩, Nat.le_refl _, rfl⟩
  unfold stream? at hx ⊢
  rw [List.find?_append, hx]
  rfl

/-! ### Errands -/

/-- An errand goes on with an attempt, or after a while. -/
theorem Sound.runs_errand {e : Errand} (h : s.Sound C (some ⟨t, none, e.job?⟩)) (hb : s.cache.Backs (s.besides t))
    {n : Nat} (phase : Phase) (hcache : s'.cache = s.cache) (hstreams : s'.streams = s.streams) (hended : s'.ended = s.ended)
    (htasks : s'.tasks = (s.become t (.errand e n phase)).tasks) :
    Runs t e.weight (fun _ => False) s s' :=
  Activity.weight_errand e n phase ▸ h.runs_become (hb.cons nofun) hcache hstreams hended htasks fun _ => False.elim

theorem Sound.runs_attempt {e : Errand} (h : s.Sound C (some ⟨t, none, e.job?⟩)) (hb : s.cache.Backs (s.besides t))
    (n : Nat) : Runs t e.weight (fun _ => False) s (s.attempt t e n) :=
  h.runs_errand hb .called rfl rfl rfl rfl

theorem Sound.runs_openHandle (h : s.Sound C (some ⟨t, none, none⟩)) (hb : s.cache.Backs (s.besides t))
    (handle : Handle) :
    Runs t 5 (fun _ => False) s ((s.openHandle handle).1.finish t (.opened (s.openHandle handle).2)) := by
  have hcalm := calm_openHandle h.cache.stores handle
  exact hcalm.runs h.lt (runs_stop (hcalm.backs_besides h.lt hb) _) fun _ hid _ => hid

/-- The tasks after the end of a job are the others and those of the jobs that are started. None of them loses pins. -/
theorem Sound.backs_endJob {j : Job} (h : s.Sound C (some ⟨t, none, some j⟩)) (hb : s.cache.Backs (s.besides t)) (n : Nat)
    (r : Except Fault Bytes) : (s.endJob t j n r).cache.Backs (s.endJob t j n r).tasks := by
  obtain ⟨jobs, htasks⟩ := besides_onCache s (fun c => (c.finish j n r, ())) h.lt
  have hcache := cache_onCache s fun c => (c.finish j n r, ())
  show (s.onCache fun c => (c.finish j n r, ())).1.cache.Backs
    ((s.onCache fun c => (c.finish j n r, ())).1.besides t)
  rw [htasks, hcache]
  exact ((hb.keep ((Cache.quiet_finish j n r).keepsPins h.cache.stores)).append
    fun u hu => not_reading_of_mem_spawned hu).keep (Cache.keepsPins_takeNotices _)

/-- A job that brings bytes ends well. -/
theorem Sound.runs_endJob {j : Job} (h : s.Sound C (some ⟨t, none, some j⟩)) (hb : s.cache.Backs (s.besides t)) (n : Nat)
    (b : Bytes) : Runs t 0 (fun _ => False) s (s.endJob t j n (.ok b)) := by
  have hj : j ∈ s.cache.queue.running :=
    h.jobs.mem_iff.mp (List.mem_append_right _ (List.mem_singleton_self _))
  have hm : Moves (fun _ r => Cache.isFailure r = false) ⟨s.cache, []⟩ ⟨s.cache.finish j n (.ok b), []⟩ :=
    Cache.moves_finish h.cache.stores hj n rfl
  have hback := h.backs_endJob hb n (.ok b)
  obtain ⟨jobs, htasks⟩ := besides_onCache s (fun c => (c.finish j n (.ok b), ())) h.lt
  refine ⟨?_, hback, ?_, fun _ => False.elim⟩
  · show tally Activity.weight ((s.onCache fun c => (c.finish j n (.ok b), ())).1.besides t) ≤ _
    rw [htasks, tally_append, weight_spawned]
  · obtain ⟨l, r, he⟩ := exists_onCache s fun c => (c.finish j n (.ok b), ())
    unfold endJob
    rw [he]
    exact ⟨hm.rejected_le, fun _ _ hu => hm.unfailed (fun _ _ hr => hr) h.cache.stores hu, fun _ x hx => ⟨x, hx, rfl⟩⟩

/-- An answer that brings what was asked for ends the errand. -/
theorem Sound.runs_endAttempt {e : Errand} (h : s.Sound C (some ⟨t, none, e.job?⟩)) (hb : s.cache.Backs (s.besides t))
    (n draw : Nat) {reply : Reply} (hreply : e.Fulfilled reply) :
    Runs t e.weight (fun _ => False) s (s.endAttempt t e n draw reply) := by
  unfold endAttempt
  cases e with
  | job j =>
    obtain ⟨b, hb'⟩ := hreply
    dsimp only
    rw [hb']
    exact h.runs_endJob hb n b
  | size key =>
    obtain ⟨a, ha⟩ := hreply
    dsimp only
    rw [ha]
    exact (h.runs_openHandle hb _).mono (Nat.le_succ 5)

theorem Sound.backs_failAttempt {e : Errand} (h : s.Sound C (some ⟨t, none, e.job?⟩)) (hb : s.cache.Backs (s.besides t))
    (n draw : Nat) (x : TransferError) :
    (s.failAttempt t e n draw x).cache.Backs (s.failAttempt t e n draw x).tasks := by
  unfold failAttempt
  split
  · unfold retry
    split
    · exact (h.runs_attempt hb (n + 1)).backs
    · rename_i d _
      have hruns : Runs t e.weight (fun _ => False) s
          { s.become t (.errand e n .backoff) with timers := s.timers ++ [⟨s.now + d + 1, t⟩] } :=
        h.runs_errand hb .backoff rfl rfl rfl rfl
      exact hruns.backs
  · cases e with
    | job j => exact h.backs_endJob hb n _
    | size key => exact hb

theorem Sound.backs_endAttempt {e : Errand} (h : s.Sound C (some ⟨t, none, e.job?⟩)) (hb : s.cache.Backs (s.besides t))
    (n draw : Nat) (reply : Reply) :
    (s.endAttempt t e n draw reply).cache.Backs (s.endAttempt t e n draw reply).tasks := by
  by_cases hreply : e.Fulfilled reply
  · exact (h.runs_endAttempt hb n draw hreply).backs
  · unfold endAttempt
    cases e with
    | job j =>
      dsimp only
      split
      · rename_i b hb'
        exact absurd ⟨b, hb'⟩ hreply
      · exact Sound.backs_failAttempt h hb n draw _
    | size key =>
      dsimp only
      split
      · rename_i a ha
        exact absurd ⟨a, ha⟩ hreply
      · exact Sound.backs_failAttempt (e := .size key) h hb n draw _

/-! ### Operations -/

theorem Sound.runs_awaitBlock (h : s.Sound C (some ⟨t, none, none⟩)) (hb : s.cache.Backs (s.besides t))
    (object block : Nat) (owner : Option Nat) : Runs t 1 (fun _ => False) s (s.awaitBlock t object block owner) := by
  have hm := Cache.moves_poll (A := fun _ _ => False) h.cache.stores object block owner
  have hs := h.onCache (f := fun c => c.poll object block owner) hm
  have hcalm := calm_onCache (f := fun c => c.poll object block owner) h.cache.stores hm
    ((Cache.quiet_poll object block owner).keepsPins h.cache.stores)
  have hb' := hcalm.backs_besides h.lt hb
  unfold awaitBlock
  rw [show (s.onCache fun c => c.poll object block owner) =
    ((s.onCache fun c => c.poll object block owner).1, (s.cache.poll object block owner).2) from rfl]
  generalize (s.onCache fun c => c.poll object block owner).1 = s' at hs hcalm hb' ⊢
  refine hcalm.runs h.lt (?_ : Runs t 1 (fun _ => False) s' _) fun _ hid _ => hid
  cases (s.cache.poll object block owner).2 with
  | done b =>
    exact ((runs_afterBytes hb' b).mono (Nat.zero_le 1)).imp fun _ => False.elim
  | waiting u =>
    exact hs.runs_turnTo (a := .awaiting object block owner) (hb'.cons nofun) fun _ => False.elim

theorem runs_onStream (hb : s.cache.Backs (s.besides t)) {id : Nat} {f : Stream → Session}
    (hf : ∀ x, s.stream? id = some x → Runs t k (fun i => id = i ∧ ∃ x, s.stream? i = some x) s (f x)) :
    Runs t k (fun i => id = i ∧ ∃ x, s.stream? i = some x ∧ x.closed = false) s (s.onStream t id f) := by
  unfold onStream
  split
  · rename_i hx
    exact ((runs_lost hb hx _).mono (Nat.zero_le k)).imp fun i ⟨hi, x, hx', _⟩ => ⟨hi, x, hx'⟩
  · rename_i x hx
    split
    · rename_i hclosed
      refine (runs_finish hb ?_).mono (Nat.zero_le k)
      rintro i ⟨rfl, y, hy, hopen⟩
      rw [hx] at hy
      cases hy
      rw [hclosed] at hopen
      cases hopen
    · exact (hf x hx).imp fun i ⟨hi, y, hy, _⟩ => ⟨hi, y, hy⟩

/-- A task begins an operation. -/
theorem Sound.runs_begin (h : s.Sound C (some ⟨t, none, none⟩)) (hb : s.cache.Backs (s.besides t)) (op : Operation) :
    Runs t ((Activity.start op).weight - 1) ((Activity.start op).Fine s ·) s (s.begin t op) := by
  have hgoal : ∀ {id : Nat} {goal : Goal} {s' : Session}, goalStream? goal = some id →
      Runs t 4 (Goal.Aims s · goal) s s' → Runs t 4 (fun i => id = i ∧ ∃ x, s.stream? i = some x) s s' :=
    fun hid hruns => hruns.imp fun i hi => ⟨hid.trans (congrArg some hi.1), hi.2⟩
  have hfine : ∀ {id : Nat} {op : Operation} {s' : Session}, op.stream? = some id →
      Runs t 4 (fun i => id = i ∧ ∃ x, s.stream? i = some x ∧ x.closed = false) s s' →
        Runs t 4 ((Activity.start op).Fine s ·) s s' := fun hid hruns =>
    hruns.imp fun i hi => ⟨Option.some.inj (hid.symm.trans hi.1), hi.2⟩
  cases op with
  | openKey key =>
    refine Runs.unless ?_ fun i hi => nomatch hi.1
    unfold begin
    dsimp only
    split
    · exact (h.runs_openHandle hb _).mono (Nat.le_succ 5)
    · exact Sound.runs_attempt (e := .size key) h hb 1
  | read id length =>
    refine hfine rfl (runs_onStream hb fun x _ => ?_)
    dsimp only
    split
    · exact (runs_finish hb (o := .read []) fun _ _ => nofun).mono (Nat.zero_le 4)
    · exact hgoal rfl (h.runs_syncFooter hb x _ _ _)
  | readTail id length =>
    refine hfine rfl (runs_onStream hb fun x _ => ?_)
    dsimp only
    split
    · exact (runs_finish hb (o := .read []) fun _ _ => nofun).mono (Nat.zero_le 4)
    · exact hgoal rfl (h.runs_syncFooter hb x _ _ _)
  | declare id columns => exact hfine rfl (runs_onStream hb fun x _ => hgoal rfl (h.runs_demandFooter hb x _))
  | declareNames id names => exact hfine rfl (runs_onStream hb fun x _ => hgoal rfl (h.runs_demandFooter hb x _))
  | readSpan object span fit owner =>
    refine Runs.unless (Runs.mono ?_ (by decide : 1 ≤ 4)) fun i hi => nomatch hi.1
    exact h.runs_beginRead .bytes hb object span fit owner (fun _ => False.elim) (Nat.zero_le 1)
      fun s' b _ _ hb' => (runs_afterBytes hb' b).imp fun _ hi => hi.1.elim
  | await object block owner =>
    exact ((h.runs_awaitBlock hb object block owner).mono (by decide : 1 ≤ 4)).unless fun i hi => nomatch hi.1
  | loadFooter object => exact (h.runs_needFooter hb .footer).imp fun i hi => nomatch hi.1

/-- What follows a read is lighter than the read. -/
theorem Sound.runs_after (use : Use) (h : s.Sound C (some ⟨t, use.object?, none⟩)) (hb : s.cache.Backs (s.besides t))
    (b : Except Fault Bytes) :
    Runs t (use.weight - 1) (fun id => use.Aims s id ∧ Cache.isFailure b = false) s (s.after t use b) := by
  cases use with
  | bytes => exact (runs_afterBytes hb b).imp fun _ hi => hi.2
  | stream id offset => exact (h.runs_afterStream hb id offset b).imp fun _ hi => hi
  | guess object goal => exact (h.runs_afterGuess hb goal b).imp fun _ hi => hi.1
  | footer object goal => exact (h.runs_afterFooter hb goal b).imp fun _ hi => hi.1

/-- A read goes on. -/
theorem Sound.runs_resume {r : Reading} {use : Use} (h : s.Sound C (some ⟨t, use.object?, none⟩))
    (hb : s.cache.Backs (⟨t, .reading r use⟩ :: s.besides t)) :
    Runs t use.weight ((Activity.reading r use).Fine s ·) s
      (s.reading t use (fun c => c.resumeRead r) fun s x => s.after t use x) := by
  have hc := h.cache.stores
  have hpins := hb.pins
  rw [tally_holds_cons] at hpins
  have hproceeds : ∀ id, (Activity.reading r use).Fine s id →
      (s.cache.resumeRead r).1.queue.rejected = s.cache.queue.rejected →
        (s.cache.resumeRead r).1.Proceeds (s.cache.resumeRead r).2 := fun id hid hr =>
    Cache.proceeds_resumeRead hc (fun b hbr => ⟨hb.pinned List.mem_cons_self rfl hbr, hid.1 b hbr⟩) hr
  refine h.runs_reading hb.of_cons (f := fun c => c.resumeRead r) (k := use.weight - 1) (Cache.moves_resumeRead hc r)
    (Cache.pins_resumeRead hc hpins) (fun r' hwait => ?_) (fun id hid hr r' hwait => ?_) (fun id hid => hid.2)
    (Nat.sub_le _ 1) fun s' b h' hharmless hb' => (h'.runs_after use hb' b).imp fun id ⟨hid, hdone, hr⟩ =>
      ⟨hid.2.mono hharmless, ?_⟩
  · obtain ⟨todo, bytes, rfl, hsuffix⟩ := Cache.further_of_resumeRead hwait
    exact fun b hbr => hb.todo _ List.mem_cons_self _ _ rfl (hsuffix.subset hbr)
  · have := hproceeds id hid hr
    rw [hwait] at this
    exact this
  · have := hproceeds id hid hr
    rw [hdone] at this
    exact this

/-- A read that has its bytes gets to a later stage. -/
theorem Sound.runs_resumed {r : Reading} {use : Use} (h : s.Sound C (some ⟨t, use.object?, none⟩))
    (hb : s.cache.Backs (⟨t, .reading r use⟩ :: s.besides t)) {b : Except Fault Bytes}
    (hdone : (s.cache.resumeRead r).2 = .done b) : Runs t (use.weight - 1) (fun _ => False) s
      (s.reading t use (fun c => c.resumeRead r) fun s x => s.after t use x) := by
  have hpins := hb.pins
  rw [tally_holds_cons] at hpins
  exact h.runs_read hb.of_cons (f := fun c => c.resumeRead r) (Cache.moves_resumeRead h.cache.stores r) hdone
    (Cache.pins_resumeRead h.cache.stores hpins) fun s' hs _ hback =>
      (hs.runs_after use hback b).imp fun _ hid => hid.1.elim

/-! ### Whatever a task does -/

section Proceed
variable {u : Task}

theorem Sound.backs_cons (h : s.Sound C none) (hb : s.cache.Backs s.tasks) (hu : u ∈ s.tasks) :
    s.cache.Backs (u :: s.besides u.id) :=
  hb.perm (perm_others (c := ⟨u.id, none, none⟩) h.ids hu rfl).symm

theorem Sound.weight_tasks (h : s.Sound C none) (hu : u ∈ s.tasks) (f : Activity → Nat) :
    tally f s.tasks = f u.activity + tally f (s.besides u.id) := by
  rw [← tally_cons]
  exact tally_perm f (perm_others (c := ⟨u.id, none, none⟩) h.ids hu rfl)

/-- A task that cannot go on after all stays as it is. -/
theorem Sound.runs_doze (h : s.Sound C none) (hb : s.cache.Backs s.tasks) (hu : u ∈ s.tasks) (r : List Nat) :
    Runs u.id u.activity.weight (u.activity.Fine s ·) s { s with runnable := r } where
  burden := Nat.le_of_eq ((h.weight_tasks hu Activity.weight).trans (Nat.add_comm _ _))
  backs := hb
  harmless := .of_eq rfl rfl
  fares _ hid _ := .waits hu (hid.keep (fun _ _ hu => hu) fun x hx => ⟨x, hx, rfl⟩) rfl

/-- A task whose turn may have come stays as it is, or goes on to load the footer or to its goal. -/
theorem Sound.runs_takeTurn (h : s.Sound C none) (hb : s.cache.Backs s.tasks) (hu : u ∈ s.tasks) {r : List Nat}
    (hr : ∀ x ∈ s.runnable, x ≠ u.id → x ∈ r) (object : Nat) (goal : Goal) (hturn : u.activity = .turn object goal) :
    ({ s with runnable := r } : Session).takeTurn u.id object goal = { s with runnable := r } ∨
      Runs u.id 3 (Goal.Aims s · goal) s (({ s with runnable := r } : Session).takeTurn u.id object goal) := by
  have hb' := (h.backs_cons hb hu).of_cons
  have hcalm : Calm 0 s { s with runnable := r } := .of_eq rfl rfl rfl rfl rfl
  have haims : ∀ id, goal.Aims s id → ({ s with runnable := r } : Session).cache.queue.rejected =
      s.cache.queue.rejected → goal.Aims { s with runnable := r } id := fun id hid _ => hid
  have hplaced := h.placed u hu
  unfold Placed at hplaced
  rw [hturn] at hplaced
  unfold takeTurn
  rcases hplaced with ⟨n, q, ho, -⟩ | ⟨f, ho⟩
  · rw [show ({ s with runnable := r } : Session).footer object = .loading n q from ho]
    dsimp only
    split
    · rename_i hn
      subst hn
      exact Or.inr (hcalm.runs (h.fresh u hu) ((h.pick_turn hu hr hturn ho).runs_load hb' goal) haims)
    · exact Or.inl rfl
  · rw [show ({ s with runnable := r } : Session).footer object = .loaded f from ho]
    exact Or.inr (hcalm.runs (h.fresh u hu)
      (((h.pick_known hu hr hturn ho).runs_arrive hb' goal _).mono (by decide : 1 ≤ 3)) haims)

/-- A task that can go on does so until it stops, at the same stage or at a later one, unless it is on an errand that
    does not bring what was asked for. -/
theorem Sound.runs_proceed (h : s.Sound C none) (hb : s.cache.Backs s.tasks) (hu : u ∈ s.tasks) {r : List Nat}
    (hr : ∀ x ∈ s.runnable, x ≠ u.id → x ∈ r)
    (hgood : ∀ e n reply draw, u.activity = .errand e n (.answered reply draw) → e.Fulfilled reply) :
    Runs u.id u.activity.weight (u.activity.Fine s ·) s (({ s with runnable := r } : Session).proceed u) := by
  have hcalm : Calm 0 s { s with runnable := r } := .of_eq rfl rfl rfl rfl rfl
  have hpick := h.pick_of hu hr
  have hlt := h.fresh u hu
  have hb' := h.backs_cons hb hu
  have hbesides : ({ s with runnable := r } : Session).cache.Backs (({ s with runnable := r } : Session).besides u.id) :=
    hb'.of_cons
  have hdoze := h.runs_doze hb hu r
  have hturn := h.runs_takeTurn hb hu hr
  obtain ⟨id, a⟩ := u
  unfold proceed
  cases a with
  | start op =>
    refine (hcalm.runs hlt ((hpick s.calls (.refl _) nofun).runs_begin hbesides op) fun _ hid _ => hid).mono ?_
    exact Nat.sub_le _ 1
  | errand e n phase =>
    rw [Activity.weight_errand] at hdoze ⊢
    cases phase with
    | due =>
      exact hcalm.runs hlt (Sound.runs_attempt (hpick s.calls (.refl _) nofun) hbesides n) fun _ hid _ => hid
    | called => exact hdoze
    | answered reply draw =>
      exact hcalm.runs hlt ((hpick s.calls (.refl _) nofun).runs_endAttempt hbesides n draw (hgood e n reply draw rfl))
        fun _ hid _ => hid
    | backoff =>
      exact hcalm.runs hlt (Sound.runs_attempt (hpick s.calls (.refl _) nofun) hbesides (n + 1)) fun _ hid _ => hid
  | reading r' use =>
    rw [Activity.weight_reading]
    exact hcalm.runs hlt ((hpick s.calls (.refl _) nofun).runs_resume hb') fun _ hid _ => hid
  | awaiting object block owner =>
    exact hcalm.runs hlt ((hpick s.calls (.refl _) nofun).runs_awaitBlock hbesides object block owner) fun _ hid _ => hid
  | turn object goal =>
    dsimp only
    rcases hturn object goal rfl with he | hruns
    · rw [he]
      exact hdoze
    · exact hruns.mono (by decide : 3 ≤ 4)

/-- Whatever a task does, the tasks that read keep their pins. -/
theorem Sound.backs_proceed (h : s.Sound C none) (hb : s.cache.Backs s.tasks) (hu : u ∈ s.tasks) {r : List Nat}
    (hr : ∀ x ∈ s.runnable, x ≠ u.id → x ∈ r) :
    (({ s with runnable := r } : Session).proceed u).cache.Backs
      (({ s with runnable := r } : Session).proceed u).tasks := by
  by_cases hgood : ∃ e n reply draw, u.activity = .errand e n (.answered reply draw)
  · obtain ⟨e, n, reply, draw, ha⟩ := hgood
    have hpick := h.pick_of hu hr s.calls (by rw [Task.call?, ha]; exact .refl _) fun _ _ hturn => by cases ha ▸ hturn
    have hb' := (h.backs_cons hb hu).of_cons
    obtain ⟨id, a⟩ := u
    dsimp only at ha
    subst ha
    exact Sound.backs_endAttempt hpick hb' n draw reply
  · exact (h.runs_proceed hb hu hr fun e n reply draw ha => absurd ⟨e, n, reply, draw, ha⟩ hgood).backs

end Proceed

end Session

end RangeCache
