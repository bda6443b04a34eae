import RangeCache.Proofs.Session.Aside

/-!
# How tasks go on

Each stretch of an operation, from one point at which it may wait to the next, keeps a session sound and
stops the task in one of the ways of `Stops`. The lemmas follow the definitions, from the end of an operation
to its beginning: a read of a stream ends with the bytes of its span, a task that could not load a footer
hands its turn on, and whoever waits has been queued up.
-/

namespace RangeCache.Session

variable {C : Contents} {s s' : Session} {cur : Option Turn} {t : Nat} {mv : Option Nat} {g : Option Quest}

/-! ### Streams and their plans -/

/-- Streams, kept objects and records are not what other tasks wait for. -/
theorem Sound.congr (h : s.Sound C cur) (hconfig : s'.config = s.config) (hcache : s'.cache = s.cache)
    (hfooters : s'.footers = s.footers) (htasks : s'.tasks = s.tasks) (hnext : s'.nextTask = s.nextTask)
    (hrunnable : s'.runnable = s.runnable) (hcalls : s'.calls = s.calls) (htimers : s'.timers = s.timers)
    (hended : s'.ended = s.ended) (hwithin : s'.Within) : s'.Sound C cur := by
  cases s
  cases s'
  dsimp only at hconfig hcache hfooters htasks hnext hrunnable hcalls htimers hended
  subst hconfig hcache hfooters htasks hnext hrunnable hcalls htimers hended
  refine { h with within := hwithin, held := ?_ }
  intro o n q ho
  exact (h.held o n q ho).congr rfl

theorem Sound.modifyStream (h : s.Sound C cur) (k : Nat) {f : Stream → Stream}
    (hobject : ∀ x, (f x).object = x.object) : (s.modifyStream k f).Sound C cur := by
  refine h.congr rfl rfl rfl rfl rfl rfl rfl rfl rfl ⟨fun y hy => ?_, h.within.entries⟩
  obtain ⟨x, hx, rfl⟩ := List.mem_map.mp hy
  have hlt := h.within.streams x hx
  split
  · exact (hobject x).symm ▸ hlt
  · exact hlt

theorem Sound.ensurePlan (h : s.Sound C cur) (x : Stream) (plan : Plan) (priority : Priority) :
    (s.ensurePlan x plan priority).1.Sound C cur ∧ Aside none s (s.ensurePlan x plan priority).1 := by
  unfold Session.ensurePlan
  split
  · exact ⟨h, .refl s⟩
  · generalize (if plan.kind.isExact then Fit.exact else Fit.grid) = fit
    have hm := Cache.moves_ensure (A := fun _ _ => False) h.cache.stores x.object (plan.spans priority) fit priority
      (some x.id)
    exact ⟨h.onCache (f := fun c => c.ensure x.object (plan.spans priority) fit priority (some x.id)) hm,
      h.aside_onCache (f := fun c => c.ensure x.object (plan.spans priority) fit priority (some x.id)) hm⟩

theorem Sound.applyPlan (h : s.Sound C cur) (x : Stream) (plan : Plan) :
    (s.applyPlan x plan).1.Sound C cur ∧ Aside none s (s.applyPlan x plan).1 := by
  have hcancel := h.onCache (f := fun c => c.cancel x.id) (Cache.moves_cancel x.id)
  have haside := h.aside_onCache (f := fun c => c.cancel x.id) (Cache.moves_cancel x.id)
  obtain ⟨h₁, ha₁⟩ := hcancel.ensurePlan x plan .immediate
  unfold Session.applyPlan
  dsimp only
  split <;> rename_i heq <;> rw [heq] at h₁ ha₁
  · exact ⟨h₁, haside.trans ha₁⟩
  · obtain ⟨h₂, ha₂⟩ := h₁.ensurePlan x plan .speculative
    exact ⟨h₂, (haside.trans ha₁).trans ha₂⟩

theorem Sound.replan (h : s.Sound C cur) (x : Stream) (f : Planner → Planner × Plan) :
    (s.replan x f).1.Sound C cur ∧ Aside none s (s.replan x f).1 := by
  have haside : Aside none s (s.modifyStream x.id fun y => { y with planner := (f x.planner).1 }) :=
    aside_modifyStream s x.id (fun _ => rfl) (fun _ => rfl) (Or.inr fun _ => rfl)
  obtain ⟨h₁, ha₁⟩ := (h.modifyStream x.id (f := fun y => { y with planner := (f x.planner).1 }) fun _ => rfl).applyPlan
    x (f x.planner).2
  exact ⟨h₁, haside.trans ha₁⟩

theorem Sound.adopt (h : s.Sound C cur) (id : Nat) (f : FooterState) :
    (s.adopt id f).Sound C cur ∧ Aside none s (s.adopt id f) := by
  cases f with
  | parsed l =>
    exact ⟨h.modifyStream id fun _ => rfl, aside_modifyStream s id (fun _ => rfl) (fun _ => rfl) (Or.inr fun _ => rfl)⟩
  | degraded f =>
    exact ⟨h.modifyStream id fun _ => rfl, aside_modifyStream s id (fun _ => rfl) (fun _ => rfl) (Or.inr fun _ => rfl)⟩

/-! ### Reads of the cache -/

theorem key_of_getElem? {i : Nat} {x : Store} (hx : s.cache.stores[i]? = some x) : s.key i = x.handle.key := by
  simp [key, handle?, hx]

theorem size_of_getElem? {i : Nat} {x : Store} (hx : s.cache.stores[i]? = some x) : s.size i = x.handle.size := by
  simp [size, handle?, hx]

theorem Sound.delivers_beginRead (h : s.Sound C cur) (i : Nat) (span : Span) (fit : Fit) (owner : Option Nat) :
    (s.cache.beginRead i span fit owner).1.Delivers C i (s.key i) s.config.store.blockSize (span.clamp (s.size i))
      (s.cache.beginRead i span fit owner).2 := by
  cases hx : s.cache.stores[i]? with
  | none =>
    rw [Cache.beginRead_of_none hx]
    exact trivial
  | some x =>
    rw [key_of_getElem? hx, size_of_getElem? hx, ← h.grids hx]
    exact Cache.delivers_beginRead h.cache hx span fit owner

theorem Sound.delivers_resumeRead (h : s.Sound C cur) {r : Reading} (hr : s.cache.Serves C r) :
    (s.cache.resumeRead r).1.Delivers C r.store (s.key r.store) s.config.store.blockSize r.span
      (s.cache.resumeRead r).2 := by
  obtain ⟨x, hx, hserves⟩ := hr
  rw [key_of_getElem? hx, ← h.grids hx]
  exact Cache.delivers_resumeRead h.cache hx hserves

/-- A task reads: it waits for a block, or goes on with what it got. -/
theorem Sound.ends_reading (use : Use) (h : s.Sound C (some ⟨t, use.object?, none⟩))
    {f : Cache → Cache × Progress Reading}
    {next : Session → Except Fault Bytes → Session} {i : Nat} {key : String} {span : Span}
    (hm : Moves (fun _ _ => False) ⟨s.cache, []⟩ ⟨(f s.cache).1, []⟩)
    (hd : (f s.cache).1.Delivers C i key s.config.store.blockSize span (f s.cache).2)
    (huse : ∀ o, use.object? = some o → o = i ∨ o < s.footers.length) (hmv : use.mover? = none ∨ use.mover? = mv)
    (hg : ∀ q, g = some q → ∀ r : Reading, r.store = i → r.span = span → q.Pursues (.reading r use))
    (hnext : ∀ s' b, s'.Sound C (some ⟨t, use.object?, none⟩) → Aside none s s' →
      (∀ d, b = .ok d → 0 < s.config.store.blockSize → C.allows key span d) → Ends C t mv g s' (next s' b)) :
    Ends C t mv g s (s.reading t use f next) := by
  have hs := h.onCache hm
  have ha := h.aside_onCache hm
  obtain ⟨_, _, he⟩ := exists_onCache s f
  have hcache : (s.onCache f).1.cache = { (f s.cache).1 with notices := [] } := by rw [he]
  have hfooter : (s.onCache f).1.footers = s.footers := by rw [he]
  have hp : s.onCache f = ((s.onCache f).1, (f s.cache).2) := rfl
  unfold reading
  rw [hp]
  generalize (s.onCache f).1 = s' at hs ha hcache hfooter ⊢
  refine ha.ends ?_
  cases hprog : (f s.cache).2 with
  | done b =>
    refine hnext s' b hs ha fun d hb hpos => ?_
    subst hb
    rw [hprog] at hd
    exact hd hpos
  | waiting r =>
    rw [hprog] at hd
    obtain ⟨hstore, hspan, hserves, id, hhead, hflies⟩ := hd
    have hrest : (s'.become t (.reading r use)).Sound C none := by
      refine hs.rest s'.made rfl (.refl _) (fun _ hx => hx) ?_ (Or.inr ⟨id, hhead, ?_⟩) (fun o ho => ?_) fun o ho => ho
      · exact Activity.Right.mono (a := .reading r use) (c := (f s.cache).1) hserves (hcache ▸ .refl (f s.cache).1)
      · rw [hstore]
        exact hcache ▸ hflies
      · obtain ⟨x, hx, -⟩ := hserves
        have hlt := (List.getElem?_eq_some_iff.mp hx).1
        refine hs.lock _ o rfl ho ?_
        have hlen : s'.cache.stores.length = (f s.cache).1.stores.length := by rw [hcache]
        rcases huse o ho with rfl | ho
        · rw [hs.footers, hlen, ← hstore]
          exact hlt
        · rwa [hfooter]
    exact hs.ends_become hrest rfl rfl rfl rfl rfl rfl hmv fun q hq => hg q hq r hstore hspan

/-! ### The end of a read -/

theorem Sound.recordColumn (h : s.Sound C cur) (x : Stream) (offset : Nat) :
    ∃ recent, s.recordColumn x offset = { s with recent } ∧ (s.recordColumn x offset).Sound C cur := by
  have hrecord : ∃ recent, s.recordColumn x offset = { s with recent } := by
    unfold Session.recordColumn
    repeat' split
    all_goals exact ⟨_, rfl⟩
  obtain ⟨recent, hr⟩ := hrecord
  refine ⟨recent, hr, hr ▸ h.congr rfl rfl rfl rfl rfl rfl rfl rfl rfl ⟨h.within.streams, h.within.entries⟩⟩

/-- A stream moves by as many bytes as were read, and stays where it is when the read failed. -/
theorem Sound.ends_afterStream (h : s.Sound C (some ⟨t, none, none⟩)) (id offset : Nat) {r : Except Fault Bytes}
    (hg : ∀ q, g = some q → ∀ b, r = .ok b → C.allows q.handle.key q.span b) :
    Ends C t (some id) g s (s.afterStream t id offset r) := by
  cases r with
  | error f => exact h.ends_fail f
  | ok b =>
    unfold afterStream
    cases hx : s.stream? id with
    | none => exact h.ends_fail _
    | some x =>
      dsimp only
      have hmove := h.modifyStream id (f := fun y => { y with position := y.position + b.length }) fun _ => rfl
      obtain ⟨recent, hr, hs⟩ := hmove.recordColumn x offset
      refine hs.ends_moved (by rw [hr]; rfl) (by rw [hr]; rfl) (by rw [hr]; rfl) (by rw [hr]; rfl) (by rw [hr]; rfl)
        (fun q hq => Or.inl ⟨b, rfl, hg q hq b rfl⟩) fun i y hy => ?_
      have hfind :=
        stream?_modifyStream s id (f := fun y => { y with position := y.position + b.length }) (fun _ => rfl) i
      rw [hy] at hfind
      rw [hr]
      refine ⟨_, hfind, by dsimp only; split <;> rfl, ?_⟩
      have hid := id_of_stream? hy
      by_cases hi : id = i
      · simp [hid, hi, Outcome.length]
      · simp [hid, hi, Ne.symm hi]

theorem Sound.ends_afterBytes (h : s.Sound C (some ⟨t, none, none⟩)) {r : Except Fault Bytes}
    (hg : ∀ q, g = some q → ∀ b, r = .ok b → C.allows q.handle.key q.span b) :
    Ends C t none g s (s.afterBytes t r) := by
  cases r with
  | error f => exact h.ends_fail f
  | ok b => exact h.ends_finish (fun q hq => Or.inl ⟨b, rfl, hg q hq b rfl⟩) (Or.inl rfl)

/-! ### Goals -/

theorem Sound.ends_select (h : s.Sound C (some ⟨t, none, none⟩)) (hg : g = none) (id : Nat) (columns : List Nat)
    (o : Outcome) : Ends C t none g s (s.select t id columns o) := by
  subst hg
  unfold select
  split
  · exact h.ends_fail _
  · rename_i x _
    obtain ⟨h₁, ha⟩ := h.replan x fun p => p.onSelect x.position columns
    split <;> rename_i heq <;> rw [heq] at h₁ ha
    · exact ha.ends (h₁.ends_finish nofun (Or.inl rfl))
    · exact ha.ends (h₁.ends_fail _)

/-- A read of a stream brings the bytes from its offset, as far as the object has them. -/
theorem Sound.ends_pursue_read (h : s.Sound C (some ⟨t, none, none⟩)) {id offset length : Nat}
    (hg : Asks g (.read id offset length) s) :
    Ends C t (some id) g s (s.pursue t (.read id offset length)) := by
  unfold pursue
  dsimp only
  cases hx : s.stream? id with
  | none => exact h.ends_fail _
  | some x =>
    dsimp only
    obtain ⟨h₁, ha⟩ := h.replan x fun p => p.onRead s.recent.paths offset length
    have hg₁ := hg.aside ha
    split <;> rename_i heq <;> rw [heq] at h₁ ha hg₁ <;> refine ha.ends ?_
    · exact h₁.ends_fail _
    · rename_i s₁
      have hquest : ∀ q, g = some q → q.stream = id ∧ q.offset = some offset ∧ x.object = q.object ∧
          s₁.key x.object = q.handle.key ∧ Span.clamp ⟨offset, offset + length⟩ (s₁.size x.object) = q.span :=
        fun q hq => by
        obtain ⟨hstream, hoffset, hspan⟩ := Quest.of_read (hg q hq).1
        have hobject := (hg q hq).2.object_eq (hstream ▸ hx)
        have hfits := (hg₁ q hq).2
        refine ⟨hstream, hoffset, hobject, ?_, ?_⟩
        · rw [hobject, hfits.key_eq]
        · rw [hobject, hfits.size_eq, hspan]
      refine Sound.ends_reading (.stream id offset) h₁
        (f := fun c => c.beginRead x.object ⟨offset, offset + length⟩ .grid (some id))
        (Cache.moves_beginRead h₁.cache.stores ..) (h₁.delivers_beginRead ..) nofun (Or.inr rfl)
        (fun q hq r hstore hspan => ?_) fun s₂ b h₂ ha₂ hb => h₂.ends_afterStream id offset fun q hq d hd => ?_
      · obtain ⟨h1, h2, h3, -, h5⟩ := hquest q hq
        exact ⟨h1, h2, hstore.trans h3, hspan.trans h5⟩
      · obtain ⟨-, -, -, h4, h5⟩ := hquest q hq
        exact h4 ▸ h5 ▸ hb d hd (hg₁ q hq).2.grid

/-- A read of the end of an object brings its last bytes. -/
theorem Sound.ends_pursue_readTail (h : s.Sound C (some ⟨t, none, none⟩)) {id length : Nat}
    (hg : Asks g (.readTail id length) s) : Ends C t none g s (s.pursue t (.readTail id length)) := by
  unfold pursue
  dsimp only
  cases hx : s.stream? id with
  | none => exact h.ends_fail _
  | some x =>
    dsimp only
    have hquest : ∀ q, g = some q → q.offset = none ∧ x.object = q.object ∧ s.key x.object = q.handle.key ∧
        (Span.tail (s.size x.object) length).clamp (s.size x.object) = q.span := fun q hq => by
      obtain ⟨hstream, hoffset, hspan⟩ := Quest.of_readTail (hg q hq).1
      have hobject := (hg q hq).2.object_eq (hstream ▸ hx)
      refine ⟨hoffset, hobject, ?_, ?_⟩
      · rw [hobject, (hg q hq).2.key_eq]
      · rw [hobject, (hg q hq).2.size_eq, hspan]
    refine Sound.ends_reading .bytes h
      (f := fun c => c.beginRead x.object (.tail (s.size x.object) length) .grid (some id))
      (Cache.moves_beginRead h.cache.stores ..) (h.delivers_beginRead ..) nofun (Or.inl rfl)
      (fun q hq r hstore hspan => ?_) fun s₁ b h₁ ha hb => h₁.ends_afterBytes fun q hq d hd => ?_
    · obtain ⟨h1, h2, -, h4⟩ := hquest q hq
      exact ⟨h1, hstore.trans h2, hspan.trans h4⟩
    · obtain ⟨-, -, h3, h4⟩ := hquest q hq
      exact h3 ▸ h4 ▸ hb d hd (hg q hq).2.grid

theorem Sound.ends_pursue (h : s.Sound C (some ⟨t, none, none⟩)) {goal : Goal} (hg : Asks g goal s) :
    Ends C t goal.mover? g s (s.pursue t goal) := by
  cases goal with
  | read id offset length => exact h.ends_pursue_read hg
  | readTail id length => exact h.ends_pursue_readTail hg
  | declare id columns => exact h.ends_select (hg.eq_none nofun nofun) id columns .done
  | declareNames id names =>
    have hnone := hg.eq_none nofun nofun
    unfold pursue
    dsimp only
    split
    · exact h.ends_finish (fun q hq => by rw [hnone] at hq; cases hq) (Or.inl rfl)
    · exact h.ends_select hnone id _ _
  | footer => exact h.ends_leave (hg.eq_none nofun nofun)

theorem Sound.ends_arrive (h : s.Sound C (some ⟨t, none, none⟩)) {goal : Goal} (hg : Asks g goal s)
    (f : Option FooterState) : Ends C t goal.mover? g s (s.arrive t goal f) := by
  unfold arrive
  split
  · rename_i id f _
    obtain ⟨h₁, ha⟩ := h.adopt id f
    exact ha.ends (h₁.ends_pursue (hg.aside ha))
  · exact h.ends_pursue hg

/-! ### Footers -/

variable {object : Nat} {goal : Goal}

theorem aside_setFooter (s : Session) (o : Nat) (cell : FooterCell) : Aside none s (s.setFooter o cell) :=
  .of_eq rfl rfl rfl rfl rfl rfl

theorem aside_resumeAll (l : List Nat) (s : Session) : Aside none s (l.foldl resume s) := by
  obtain ⟨r, hr, -⟩ := exists_resumeAll l s
  rw [hr]
  exact .of_eq rfl rfl rfl rfl rfl rfl

theorem Sound.prefetchPageIndex (h : s.Sound C cur) (object : Nat) (l : Layout) :
    (s.prefetchPageIndex object l).Sound C cur ∧ Aside none s (s.prefetchPageIndex object l) := by
  unfold Session.prefetchPageIndex
  generalize l.pageIndexSpan (s.config.footer.pageIndexFor (s.size object)) = span
  dsimp only
  split
  · have hm := Cache.moves_ensure (A := fun _ _ => False) h.cache.stores object [span] .exact .speculative none
    exact ⟨h.onCache (f := fun c => c.ensure object [span] .exact .speculative none) hm,
      h.aside_onCache (f := fun c => c.ensure object [span] .exact .speculative none) hm⟩
  · exact ⟨h, .refl s⟩

/-- The footer is known: whoever waits for it goes on, and so does the task that loaded it. -/
theorem Sound.ends_settleFooter (h : s.Sound C (some ⟨t, some object, none⟩)) (hg : Asks g goal s)
    (p : Except FooterFault Footer.Parse) : Ends C t goal.mover? g s (s.settleFooter t object goal p) := by
  have hprefetch : ∃ s', s'.Sound C (some ⟨t, some object, none⟩) ∧ Aside none s s' ∧
      s.settleFooter t object goal p = ((queueOf (s'.footer object)).foldl resume
        (s'.setFooter object (.loaded (footerState (s.size object) p)))).arrive t goal
          (some (footerState (s.size object) p)) := by
    unfold settleFooter
    dsimp only
    cases footerState (s.size object) p with
    | parsed l =>
      obtain ⟨h₁, ha⟩ := h.prefetchPageIndex object l
      exact ⟨_, h₁, ha, rfl⟩
    | degraded f => exact ⟨s, h, .refl s, rfl⟩
  obtain ⟨s', h', ha, he⟩ := hprefetch
  rw [he]
  have ha' := (ha.trans (aside_setFooter s' object (.loaded (footerState (s.size object) p)))).trans
    (aside_resumeAll (queueOf (s'.footer object)) _)
  exact ha'.ends ((h'.endLoad _).ends_arrive (hg.aside ha') _)

theorem aside_failLoad (s : Session) (object : Nat) :
    Aside none s (match s.footer object with
      | .loading _ (x :: q) => (s.setFooter object (.loading x q)).resume x
      | _ => s.setFooter object .unloaded) := by
  split
  · rename_i x q _
    exact (aside_setFooter s object (.loading x q)).trans (aside_resumeAll [x] _)
  · exact aside_setFooter s object .unloaded

/-- The footer could not be fetched: the next task has its turn, and this one goes on without. -/
theorem Sound.ends_failFooter (h : s.Sound C (some ⟨t, some object, none⟩)) (hg : Asks g goal s) :
    Ends C t goal.mover? g s (s.failFooter t object goal) := by
  have ha := Session.aside_failLoad s object
  exact ha.ends (h.failLoad.ends_arrive (hg.aside ha) none)

theorem Sound.ends_afterFooter (h : s.Sound C (some ⟨t, some object, none⟩)) (hg : Asks g goal s)
    (r : Except Fault Bytes) : Ends C t goal.mover? g s (s.afterFooter t object goal r) := by
  cases r with
  | error f => exact h.ends_failFooter hg
  | ok tail => exact h.ends_settleFooter hg _

/-- A task reads what it takes to be the footer, and goes on whatever comes of it. -/
theorem Sound.ends_readFooter (use : Use) (h : s.Sound C (some ⟨t, use.object?, none⟩))
    (hobject : use.object? = some object) (hmv : use.mover? = goal.mover?) (hg : Asks g goal s)
    (hpursues : ∀ q : Quest, q.goal = goal → ∀ r, q.Pursues (.reading r use)) (span : Span)
    {next : Session → Except Fault Bytes → Session}
    (hnext : ∀ s' b, s'.Sound C (some ⟨t, some object, none⟩) → Asks g goal s' →
      Ends C t goal.mover? g s' (next s' b)) :
    Ends C t goal.mover? g s (s.reading t use (fun c => c.beginRead object span .exact none) next) := by
  refine Sound.ends_reading use h (f := fun c => c.beginRead object span .exact none)
    (Cache.moves_beginRead h.cache.stores ..) (h.delivers_beginRead ..) (fun o ho => ?_) (Or.inr hmv)
    (fun q hq r _ _ => hpursues q (hg q hq).1 r) fun s' b h' ha _ => hnext s' b (hobject ▸ h') (hg.aside ha)
  rw [hobject] at ho
  exact Or.inl (Option.some.inj ho).symm

theorem Sound.ends_afterGuess (h : s.Sound C (some ⟨t, some object, none⟩)) (hg : Asks g goal s)
    (r : Except Fault Bytes) : Ends C t goal.mover? g s (s.afterGuess t object goal r) := by
  cases r with
  | error f => exact h.ends_failFooter hg
  | ok tail =>
    unfold afterGuess
    dsimp only
    split
    · split
      · exact Sound.ends_readFooter (.footer object goal) h rfl rfl hg (fun q hq r => hq.symm) _
          fun s' b h' hg' => h'.ends_afterFooter hg' b
      · exact h.ends_settleFooter hg _
    · exact h.ends_settleFooter hg _

theorem Sound.ends_load (h : s.Sound C (some ⟨t, some object, none⟩)) (hg : Asks g goal s) :
    Ends C t goal.mover? g s (s.load t object goal) :=
  Sound.ends_readFooter (.guess object goal) h rfl rfl hg (fun _ hq _ => hq.symm) _
    fun _ b h' hg' => h'.ends_afterGuess hg' b

theorem Sound.ends_needFooter (h : s.Sound C (some ⟨t, none, none⟩)) (hg : Asks g goal s) :
    Ends C t goal.mover? g s (s.needFooter t object goal) := by
  unfold needFooter
  split
  · exact h.ends_arrive hg _
  · rename_i ho
    have ha := aside_setFooter s object (.loading t [])
    exact ha.ends ((h.beginLoad ho).ends_load (hg.aside ha))
  · rename_i n q ho
    exact h.ends_become (h.queueUp ho goal) rfl rfl rfl rfl rfl rfl (Or.inr rfl) fun q hq => (hg q hq).1.symm

theorem Sound.ends_syncFooter (h : s.Sound C (some ⟨t, none, none⟩)) (hg : Asks g goal s) (x : Stream)
    (offset length : Nat) : Ends C t goal.mover? g s (s.syncFooter t x offset length goal) := by
  unfold syncFooter
  split
  · exact h.ends_pursue hg
  · split
    · exact h.ends_arrive hg _
    · split
      · exact h.ends_needFooter hg
      · exact h.ends_pursue hg

theorem Sound.ends_demandFooter (h : s.Sound C (some ⟨t, none, none⟩)) (hg : Asks g goal s) (x : Stream) :
    Ends C t goal.mover? g s (s.demandFooter t x goal) := by
  unfold demandFooter
  split
  · exact h.ends_pursue hg
  · exact h.ends_needFooter hg

end RangeCache.Session
