import RangeCache.Proofs.Session.Opening

/-!
# Running tasks

A task that can go on is picked, does what its activity says, and stops (`Sound.ends_runAt`). What it has in
hand when it begins to run is what others see of it while it waits: a footer that it loads, a job that it
carries out.
-/

namespace RangeCache

/-- An operation is about to begin a quest: its bytes are those that it asks for, as far as there are any. -/
def Quest.Begins (q : Quest) (s : Session) : Operation → Prop
  | .read id length => q.stream = id ∧ ∃ x, s.stream? id = some x ∧ q.offset = some x.position ∧
      q.length = min length (q.handle.size - x.position)
  | .readTail id length => q.stream = id ∧ q.offset = none ∧ q.length = min length q.handle.size
  | _ => False

/-- A task is on a quest. -/
def Quest.On (q : Quest) (s : Session) : Activity → Prop
  | .start op => q.Begins s op
  | a => q.Pursues a

namespace Session

variable {C : Contents} {s s' : Session} {t : Nat} {mv : Option Nat} {g : Option Quest}

/-! ### Errands -/

theorem Sound.ends_attempt {e : Errand} (h : s.Sound C (some ⟨t, none, e.job?⟩)) (n : Nat) :
    Ends C t none none s (s.attempt t e n) := by
  have hrest : (s.attempt t e n).Sound C none :=
    h.rest ((s.now, e.request) :: s.made) rfl (List.perm_append_singleton _ _) (fun _ hx => hx)
      (by cases e <;> exact trivial) (Or.inr trivial) trivial nofun
  exact h.ends_become hrest rfl rfl rfl rfl rfl rfl (Or.inl rfl) nofun

theorem Sound.ends_retry {e : Errand} (h : s.Sound C (some ⟨t, none, e.job?⟩)) (n draw : Nat) :
    Ends C t none none s (s.retry t e n draw) := by
  unfold retry
  split
  · exact h.ends_attempt (n + 1)
  · rename_i d _
    have hrest : Session.Sound C none
        { s.become t (.errand e n .backoff) with timers := s.timers ++ [⟨s.now + d + 1, t⟩] } :=
      h.rest s.made rfl (.refl _) (List.subset_append_left _ _) (by cases e <;> exact trivial)
        (Or.inr ⟨_, List.mem_append_right _ (List.mem_singleton_self _), rfl⟩) trivial nofun
    exact h.ends_become hrest rfl rfl rfl rfl rfl rfl (Or.inl rfl) nofun

/-- A job ends with its blocks, and the jobs that it held up are started. -/
theorem Sound.ends_endJob {j : Job} (h : s.Sound C (some ⟨t, none, some j⟩)) (n : Nat) {r : Except Fault Bytes}
    (hr : C.admits j r) : Ends C t none none s (s.endJob t j n r) := by
  have hjobs : ((s.others (some ⟨t, none, some j⟩)).filterMap (·.activity.job?) ++ [j]).Perm s.cache.queue.running :=
    h.jobs
  have hj : j ∈ s.cache.queue.running := hjobs.mem_iff.mp (List.mem_append_right _ (List.mem_singleton_self _))
  have hrunning := perm_cons_filter_ne (f := Job.id) h.cache.queue.ids_running hj
  have hrest : ((s.others (some ⟨t, none, some j⟩)).filterMap (·.activity.job?)).Perm
      (s.cache.queue.running.filter fun x => x.id != j.id) :=
    ((List.perm_append_singleton _ _).symm.trans (hjobs.trans hrunning)).cons_inv
  have hm : Moves C.admits ⟨s.cache, []⟩ ⟨s.cache.finish j n r, []⟩ :=
    Cache.moves_finish h.cache.stores hj n hr
  have hs : (s.onCache fun c => (c.finish j n r, ())).1.Sound C (some ⟨t, none, none⟩) :=
    h.hearAll rfl hm (Cache.reports_finish h.cache.stores j n r) ((List.append_nil _).symm ▸ hrest)
  have ha := Session.aside_onCache (f := fun c => (c.finish j n r, ())) (Moves.extends hm h.cache.stores)
  exact ha.ends (hs.ends_leave rfl)

theorem Sound.ends_openHandle (h : s.Sound C (some ⟨t, none, none⟩)) (handle : Handle) :
    Ends C t none none s ((s.openHandle handle).1.finish t (.opened (s.openHandle handle).2)) := by
  obtain ⟨h₁, ha⟩ := h.openHandle (fun c hc => by cases hc; rfl) handle
  exact ha.ends (h₁.ends_finish nofun (Or.inl rfl))

theorem Sound.ends_failAttempt {e : Errand} (h : s.Sound C (some ⟨t, none, e.job?⟩)) (n draw : Nat)
    (x : TransferError) :
    Ends C t none none s (s.failAttempt t e n draw x) := by
  unfold failAttempt
  split
  · exact h.ends_retry n draw
  · cases e with
    | job j => exact h.ends_endJob n nofun
    | size key => exact h.ends_fail _

/-- The answer to a request ends the errand, or another attempt follows. -/
theorem Sound.ends_endAttempt {e : Errand} (h : s.Sound C (some ⟨t, none, e.job?⟩)) (n draw : Nat) {reply : Reply}
    (hr : (Activity.errand e n (.answered reply draw)).Right C s.cache) :
    Ends C t none none s (s.endAttempt t e n draw reply) := by
  unfold endAttempt
  cases e with
  | job j =>
    dsimp only
    split
    · rename_i b hb
      refine h.ends_endJob n fun data hdata => ?_
      cases hdata
      exact hr b hb
    · exact Sound.ends_failAttempt h n draw _
  | size key =>
    dsimp only
    split
    · exact h.ends_openHandle _
    · exact Sound.ends_failAttempt (e := .size key) h n draw _

/-! ### Operations -/

theorem Sound.ends_awaitBlock (h : s.Sound C (some ⟨t, none, none⟩)) (object block : Nat) (owner : Option Nat) :
    Ends C t none none s (s.awaitBlock t object block owner) := by
  have hm := Cache.moves_poll (A := fun _ _ => False) h.cache.stores object block owner
  have hs := h.onCache (f := fun c => c.poll object block owner) hm
  have ha := h.aside_onCache (f := fun c => c.poll object block owner) hm
  obtain ⟨_, _, he⟩ := exists_onCache s fun c => c.poll object block owner
  have hcache : (s.onCache fun c => c.poll object block owner).1.cache =
      { (s.cache.poll object block owner).1 with notices := [] } := by rw [he]
  unfold awaitBlock
  rw [show (s.onCache fun c => c.poll object block owner) =
    ((s.onCache fun c => c.poll object block owner).1, (s.cache.poll object block owner).2) from rfl]
  generalize (s.onCache fun c => c.poll object block owner).1 = s' at hs ha hcache ⊢
  refine ha.ends ?_
  cases hprog : (s.cache.poll object block owner).2 with
  | done b => exact hs.ends_afterBytes nofun
  | waiting u =>
    have hflies := Cache.flies_of_poll_waiting h.cache.stores (Prod.ext rfl hprog)
    have hrest : (s'.become t (.awaiting object block owner)).Sound C none :=
      hs.rest s'.made rfl (.refl _) (fun _ hx => hx) trivial
        (Or.inr (by exact (hcache ▸ hflies : s'.cache.Flies object block))) trivial nofun
    exact hs.ends_become hrest rfl rfl rfl rfl rfl rfl (Or.inl rfl) nofun

theorem Sound.ends_onStream (h : s.Sound C (some ⟨t, none, none⟩)) {id : Nat} {f : Stream → Session}
    (hf : ∀ x, s.stream? id = some x → Ends C t mv g s (f x)) : Ends C t mv g s (s.onStream t id f) := by
  unfold onStream
  split
  · exact h.ends_fail _
  · rename_i x hx
    split
    · exact h.ends_fail _
    · exact hf x hx

theorem allows_empty (key : String) (i size : Nat) : C.allows key (Span.clamp ⟨i, i⟩ size) [] := by
  have : Span.clamp ⟨i, i⟩ size = ⟨min i size, min i size⟩ := by
    unfold Span.clamp
    congr 1
    dsimp only
    omega
  exact this ▸ C.nil

theorem Sound.ends_begin_read (h : s.Sound C (some ⟨t, none, none⟩)) {id length : Nat}
    (hg : ∀ q, g = some q → q.Fits s ∧ q.Begins s (.read id length)) :
    Ends C t (some id) g s (s.begin t (.read id length)) := by
  refine h.ends_onStream fun x hx => ?_
  have hquest : ∀ q, g = some q → q.stream = id ∧ q.offset = some x.position ∧
      q.length = min length (s.size x.object - x.position) := fun q hq => by
    obtain ⟨hfits, hstream, y, hy, hoffset, hlength⟩ := hg q hq
    cases hx.symm.trans hy
    refine ⟨hstream, hoffset, ?_⟩
    rw [hfits.object_eq (hstream ▸ hx), hfits.size_eq]
    exact hlength
  dsimp only
  split
  · rename_i hn
    refine h.ends_finish (fun q hq => Or.inl ⟨[], rfl, ?_⟩) (Or.inr rfl)
    obtain ⟨-, hoffset, hlength⟩ := hquest q hq
    have hspan : q.span = Span.clamp ⟨x.position, x.position⟩ q.handle.size := by
      rw [Quest.span, hoffset, hlength, hn]
      rfl
    exact hspan ▸ allows_empty _ _ _
  · have hasks : Asks g (.read id x.position (min length (s.size x.object - x.position))) s := fun q hq => by
      obtain ⟨hstream, hoffset, hlength⟩ := hquest q hq
      exact ⟨by rw [Quest.goal, hoffset, hstream, hlength], (hg q hq).1⟩
    exact h.ends_syncFooter hasks x _ _

theorem Sound.ends_begin_readTail (h : s.Sound C (some ⟨t, none, none⟩)) {id length : Nat}
    (hg : ∀ q, g = some q → q.Fits s ∧ q.Begins s (.readTail id length)) :
    Ends C t none g s (s.begin t (.readTail id length)) := by
  refine h.ends_onStream fun x hx => ?_
  have hquest : ∀ q, g = some q → q.stream = id ∧ q.offset = none ∧ q.length = min length (s.size x.object) :=
    fun q hq => by
      obtain ⟨hfits, hstream, hoffset, hlength⟩ := hg q hq
      refine ⟨hstream, hoffset, ?_⟩
      rw [hfits.object_eq (hstream ▸ hx), hfits.size_eq]
      exact hlength
  dsimp only
  split
  · rename_i hn
    refine h.ends_finish (fun q hq => Or.inl ⟨[], rfl, ?_⟩) (Or.inr rfl)
    obtain ⟨-, hoffset, hlength⟩ := hquest q hq
    have hspan : q.span = Span.clamp ⟨q.handle.size, q.handle.size⟩ q.handle.size := by
      rw [Quest.span, hoffset, hlength, hn]
      rfl
    exact hspan ▸ allows_empty _ _ _
  · have hasks : Asks g (.readTail id (min length (s.size x.object))) s := fun q hq => by
      obtain ⟨hstream, hoffset, hlength⟩ := hquest q hq
      exact ⟨by rw [Quest.goal, hoffset, hstream, hlength], (hg q hq).1⟩
    exact h.ends_syncFooter hasks x _ _

theorem Sound.ends_begin (h : s.Sound C (some ⟨t, none, none⟩)) {op : Operation}
    (hg : ∀ q, g = some q → q.Fits s ∧ q.Begins s op) : Ends C t op.mover? g s (s.begin t op) := by
  have hnone : (∀ q : Quest, ¬q.Begins s op) → g = none := fun hno => by
    cases g with
    | none => rfl
    | some q => exact absurd (hg q rfl).2 (hno q)
  cases op with
  | read id length => exact h.ends_begin_read hg
  | readTail id length => exact h.ends_begin_readTail hg
  | openKey key =>
    obtain rfl := hnone fun _ => id
    unfold begin
    dsimp only
    split
    · exact h.ends_openHandle _
    · exact Sound.ends_attempt (e := .size key) h 1
  | declare id columns =>
    obtain rfl := hnone fun _ hq => hq
    exact h.ends_onStream fun x _ => h.ends_demandFooter (asks_none (.declare id columns) s) x
  | declareNames id names =>
    obtain rfl := hnone fun _ hq => hq
    exact h.ends_onStream fun x _ => h.ends_demandFooter (asks_none (.declareNames id names) s) x
  | readSpan object span fit owner =>
    obtain rfl := hnone fun _ => id
    exact Sound.ends_reading .bytes h (f := fun c => c.beginRead object span fit owner)
      (Cache.moves_beginRead h.cache.stores ..) (h.delivers_beginRead ..) nofun (Or.inl rfl) nofun
      fun _ _ h₁ _ _ => h₁.ends_afterBytes nofun
  | await object block owner =>
    obtain rfl := hnone fun _ => id
    exact h.ends_awaitBlock object block owner
  | loadFooter object =>
    obtain rfl := hnone fun _ => id
    exact h.ends_needFooter (asks_none .footer s)

/-! ### A task runs -/

variable {u : Task}

theorem Quest.On.keep {q : Quest} {a : Activity} (h : q.On s a)
    (hpos : ∀ x, s.stream? q.stream = some x → ∃ y, s'.stream? q.stream = some y ∧ y.position = x.position) :
    q.On s' a := by
  unfold Quest.On at h ⊢
  split at h
  · unfold Quest.Begins at h ⊢
    split at h
    · obtain ⟨rfl, x, hx, hoffset, hlength⟩ := h
      obtain ⟨y, hy, hyx⟩ := hpos x hx
      exact ⟨rfl, y, hy, hyx ▸ hoffset, hyx ▸ hlength⟩
    · exact h
    · exact h
  · exact h

theorem Sound.ends_resume {r : Reading} {use : Use} (h : s.Sound C (some ⟨t, use.object?, none⟩))
    (hr : s.cache.Serves C r)
    (huse : ∀ o, use.object? = some o → o < s.footers.length)
    (hg : ∀ q, g = some q → q.Fits s ∧ q.Pursues (.reading r use)) :
    Ends C t use.mover? g s (s.reading t use (fun c => c.resumeRead r) fun s x => s.after t use x) := by
  refine Sound.ends_reading use h (f := fun c => c.resumeRead r) (Cache.moves_resumeRead h.cache.stores r)
    (h.delivers_resumeRead hr) (fun o ho => Or.inr (huse o ho)) (Or.inr rfl) (fun q hq r' hstore hspan => ?_)
    fun s' b h' ha hb => ?_
  · have hp := (hg q hq).2
    cases use with
    | bytes => exact ⟨hp.1, hstore.trans hp.2.1, hspan.trans hp.2.2⟩
    | stream id offset => exact ⟨hp.1, hp.2.1, hstore.trans hp.2.2.1, hspan.trans hp.2.2.2⟩
    | guess object goal => exact hp
    | footer object goal => exact hp
  · have hgot : ∀ q, g = some q → r.store = q.object → r.span = q.span → ∀ d, b = .ok d →
        C.allows q.handle.key q.span d := fun q hq hstore hspan d hd => by
      have hfits := (hg q hq).1
      have := hb d hd hfits.grid
      rwa [hstore, hspan, hfits.key_eq] at this
    cases use with
    | bytes => exact h'.ends_afterBytes fun q hq => hgot q hq (hg q hq).2.2.1 (hg q hq).2.2.2
    | stream id offset => exact h'.ends_afterStream id offset fun q hq => hgot q hq (hg q hq).2.2.2.1 (hg q hq).2.2.2.2
    | guess object goal => exact h'.ends_afterGuess (fun q hq => ⟨(hg q hq).2.symm, (hg q hq).1.aside ha⟩) b
    | footer object goal => exact h'.ends_afterFooter (fun q hq => ⟨(hg q hq).2.symm, (hg q hq).1.aside ha⟩) b

theorem Sound.ends_doze (h : s.Sound C none) (hu : u ∈ s.tasks) {r : List Nat} (hr : ∀ x ∈ s.runnable, x ≠ u.id → x ∈ r)
    (hw : s.Waits u) (hg : ∀ q, g = some q → q.Pursues u.activity) :
    Ends C u.id u.activity.mover? g s { s with runnable := r } := by
  refine ⟨h.doze hu hr hw, rfl, .refl _, Nat.le_refl _, fun _ hv _ => hv, fun _ hv _ => Or.inl hv, 0,
    .waits hu (Or.inr rfl) hg rfl, fun _ x hx => ⟨x, hx, rfl, ?_⟩⟩
  split <;> rfl

/-- A task whose turn it may be goes on. -/
theorem Sound.ends_takeTurn (h : s.Sound C none) (hu : u ∈ s.tasks) {r : List Nat}
    (hr : ∀ x ∈ s.runnable, x ≠ u.id → x ∈ r) {object : Nat} {goal : Goal} (hturn : u.activity = .turn object goal)
    (hg : Asks g goal s) :
    Ends C u.id goal.mover? g s (({ s with runnable := r } : Session).takeTurn u.id object goal) := by
  have ha : Aside none s { s with runnable := r } := .of_eq rfl rfl rfl rfl rfl rfl
  have hplaced := h.placed u hu
  unfold Placed at hplaced
  rw [hturn] at hplaced
  rcases hplaced with ⟨n, q, ho, hm⟩ | ⟨f, ho⟩
  · unfold takeTurn
    rw [show ({ s with runnable := r } : Session).footer object = .loading n q from ho]
    dsimp only
    split
    · rename_i hn
      subst hn
      exact ha.ends ((h.pick_turn hu hr hturn ho).ends_load (hg.aside ha))
    · rename_i hn
      have hw : s.Waits u := by
        unfold Waits
        rw [hturn]
        exact ⟨n, q, ho, (List.mem_cons.mp hm).resolve_left fun he => hn he.symm⟩
      have hdoze := h.ends_doze (g := g) hu hr hw fun q hq => by
        rw [hturn]
        exact (hg q hq).1.symm
      rw [hturn] at hdoze
      exact hdoze
  · unfold takeTurn
    rw [show ({ s with runnable := r } : Session).footer object = .loaded f from ho]
    exact ha.ends ((h.pick_known hu hr hturn ho).ends_arrive (hg.aside ha) _)

/-- A task that can go on does so until it stops. -/
theorem Sound.ends_proceed (h : s.Sound C none) (hu : u ∈ s.tasks) {r : List Nat}
    (hr : ∀ x ∈ s.runnable, x ≠ u.id → x ∈ r) (hg : ∀ q, g = some q → q.Fits s ∧ q.On s u.activity) :
    Ends C u.id u.activity.mover? g s (({ s with runnable := r } : Session).proceed u) := by
  have ha : Aside none s { s with runnable := r } := .of_eq rfl rfl rfl rfl rfl rfl
  have hright := h.right u hu
  have hpick := h.pick_of hu hr
  have hplaced := h.placed u hu
  have hnone : (∀ q : Quest, ¬q.On s u.activity) → g = none := fun hno => by
    cases g with
    | none => rfl
    | some q => exact absurd (hg q rfl).2 (hno q)
  obtain ⟨id, a⟩ := u
  dsimp only at hg hnone ⊢
  unfold proceed
  cases a with
  | start op =>
    refine ha.ends ((hpick s.calls (.refl _) nofun).ends_begin fun q hq => ⟨(hg q hq).1.aside ha, ?_⟩)
    exact Quest.On.keep (a := .start op) (hg q hq).2 fun x hx => ⟨x, hx, rfl⟩
  | errand e n phase =>
    obtain rfl := hnone fun _ hq => hq
    cases phase with
    | due => exact ha.ends (Sound.ends_attempt (hpick s.calls (.refl _) nofun) n)
    | called => exact h.ends_doze hu hr trivial nofun
    | answered reply draw => exact ha.ends (Sound.ends_endAttempt (hpick s.calls (.refl _) nofun) n draw hright)
    | backoff => exact ha.ends (Sound.ends_attempt (hpick s.calls (.refl _) nofun) (n + 1))
  | reading r use =>
    refine ha.ends (Sound.ends_resume (hpick s.calls (.refl _) nofun) hright (fun o ho => ?_) fun q hq =>
      ⟨(hg q hq).1.aside ha, (hg q hq).2⟩)
    obtain ⟨q, hq⟩ := hplaced o ho
    exact lt_of_footer_ne (s := s) (by rw [hq]; nofun)
  | awaiting object block owner =>
    obtain rfl := hnone fun _ hq => hq
    exact ha.ends ((hpick s.calls (.refl _) nofun).ends_awaitBlock object block owner)
  | turn object goal => exact h.ends_takeTurn hu hr rfl fun q hq => ⟨(hg q hq).2.symm, (hg q hq).1⟩

/-- The task that is let run, if there is one, goes on after it was taken from those that can. -/
theorem exists_runAt (s : Session) (i : Nat) :
    (s.runnable[i]? = none ∧ s.runAt i = s) ∨ ∃ id r, s.runnable[i]? = some id ∧ r.length < s.runnable.length ∧
      (∀ x ∈ s.runnable, x ≠ id → x ∈ r) ∧
      ((s.task? id = none ∧ s.runAt i = { s with runnable := r }) ∨
        ∃ u, s.task? id = some u ∧ s.runAt i = ({ s with runnable := r } : Session).proceed u) := by
  unfold Session.runAt
  cases hrun : s.runnable[i]? with
  | none => exact Or.inl ⟨rfl, rfl⟩
  | some id =>
    obtain ⟨hlt, -⟩ := List.getElem?_eq_some_iff.mp hrun
    refine Or.inr ⟨id, s.runnable.eraseIdx i, rfl, ?_, fun x hx hne => ?_, ?_⟩
    · rw [List.length_eraseIdx_of_lt hlt]
      exact Nat.sub_lt (Nat.zero_lt_of_lt hlt) Nat.one_pos
    · rw [List.mem_eraseIdx_iff_getElem?]
      obtain ⟨k, hk⟩ := List.mem_iff_getElem?.mp hx
      refine ⟨k, fun hki => hne ?_, hk⟩
      subst hki
      exact Option.some.inj (hk.symm.trans hrun)
    · dsimp only
      rw [show ({ s with runnable := s.runnable.eraseIdx i } : Session).task? id = s.task? id from rfl]
      cases s.task? id with
      | none => exact Or.inl ⟨rfl, rfl⟩
      | some u => exact Or.inr ⟨u, rfl, rfl⟩

/-- When a task is let run, another one than that which has the quest, or none, everything else stays as it is. -/
theorem Sound.runAt (h : s.Sound C none) (i : Nat) :
    (∃ r, s.runAt i = { s with runnable := r } ∧ (s.runAt i).Sound C none) ∨ ∃ u ∈ s.tasks,
      ∀ g, (∀ q, g = some q → q.Fits s ∧ q.On s u.activity) → Ends C u.id u.activity.mover? g s (s.runAt i) := by
  rcases exists_runAt s i with ⟨-, he⟩ | ⟨id, r, -, -, hr, ⟨hno, he⟩ | ⟨u, hu, he⟩⟩
  · rw [he]
    exact Or.inl ⟨s.runnable, rfl, h⟩
  · -- There is no such task.
    rw [he]
    refine Or.inl ⟨r, rfl, h.reschedule fun u hu => ?_⟩
    refine (h.awake u hu).imp_left fun hm => hr _ hm fun hid => ?_
    have := List.find?_eq_none.mp hno u hu
    simp [hid] at this
  · obtain ⟨hmem, hid⟩ := mem_of_task?_eq_some hu
    rw [he]
    exact Or.inr ⟨u, hmem, fun g hg => h.ends_proceed hmem (hid ▸ hr) hg⟩

end Session

end RangeCache
