import RangeCache.Proofs.Session.Doings
import RangeCache.Proofs.Session.Footers

/-!
# Footers are loaded once

A footer that was loaded stays as it is, and a stream that took notice of it knows what it tells. One task at a time
loads a footer, while the others that need it wait (`OneLoad`). A load that fails leaves nothing behind: the task that
tried goes after its goal as if there were no footer, whatever the error was, and the footer is the next one's to load
(`reading_of_error`). All of this holds in every run (`footers_load_once`).
-/

namespace RangeCache

/-- The footer that a task loads. -/
def Activity.loads? : Activity → Option Nat
  | .reading _ use => use.object?
  | _ => none

/-- What becomes of a footer that could not be fetched: whoever waited longest for it is to load it. -/
def FooterCell.passedOn : FooterCell → FooterCell
  | .loading _ (u :: q) => .loading u q
  | _ => .unloaded

theorem FooterCell.state?_passedOn (c : FooterCell) : c.passedOn.state? = none := by
  unfold passedOn
  split <;> rfl

namespace Session

variable {C : Contents} {s : Session} {t o : Nat} {goal : Goal} {u : Task} {i : Nat}

/-! ### Goals leave footers alone -/

theorem footers_reading (s : Session) (t : Nat) (use : Use) {f : Cache → Cache × Progress Reading}
    {next : Session → Except Fault Bytes → Session} (hnext : ∀ s b, (next s b).footers = s.footers) :
    (s.reading t use f next).footers = s.footers := by
  have hcache := footers_onCache s f
  unfold reading
  split <;> rename_i heq <;> rw [heq] at hcache
  · exact hcache
  · exact (hnext _ _).trans hcache

theorem footers_recordColumn (s : Session) (x : Stream) (offset : Nat) :
    (s.recordColumn x offset).footers = s.footers := by
  unfold recordColumn
  repeat' split
  all_goals rfl

theorem footers_afterStream (s : Session) (t id offset : Nat) (r : Except Fault Bytes) :
    (s.afterStream t id offset r).footers = s.footers := by
  unfold afterStream
  split
  · rfl
  · split
    · rfl
    · exact footers_recordColumn (s.modifyStream id _) _ offset

theorem footers_afterBytes (s : Session) (t : Nat) (r : Except Fault Bytes) :
    (s.afterBytes t r).footers = s.footers := by
  cases r <;> rfl

theorem footers_select (s : Session) (t id : Nat) (columns : List Nat) (o : Outcome) :
    (s.select t id columns o).footers = s.footers := by
  unfold select
  split
  · rfl
  · rename_i x _
    have hreplan := footers_replan s x fun p => p.onSelect x.position columns
    split <;> rename_i heq <;> rw [heq] at hreplan <;> exact hreplan

theorem footers_pursue (s : Session) (t : Nat) (goal : Goal) : (s.pursue t goal).footers = s.footers := by
  cases goal with
  | read id offset length =>
    unfold pursue
    dsimp only
    split
    · rfl
    · rename_i x _
      have hreplan := footers_replan s x fun p => p.onRead s.recent.paths offset length
      split <;> rename_i heq <;> rw [heq] at hreplan
      · exact hreplan
      · exact (footers_reading _ t _ fun s b => footers_afterStream s t id offset b).trans hreplan
  | readTail id length =>
    unfold pursue
    dsimp only
    split
    · rfl
    · exact footers_reading s t _ fun s b => footers_afterBytes s t b
  | declare id columns => exact footers_select s t id columns .done
  | declareNames id names =>
    unfold pursue
    dsimp only
    split
    · rfl
    · exact footers_select s t id _ _
  | footer => rfl

/-! ### Loads that fail -/

theorem footer_passOn (s : Session) (o k : Nat) :
    (s.passOn o).footer k = if k = o then (s.footer o).passedOn else s.footer k := by
  have hunload : (s.setFooter o .unloaded).footer k = if k = o then .unloaded else s.footer k := by
    rw [footer_setFooter]
    by_cases hk : k = o
    · by_cases hlt : o < s.footers.length
      · rw [if_pos ⟨hk, hlt⟩, if_pos hk]
      · rw [if_neg fun h => hlt h.2, if_pos hk, hk, footer_of_le hlt]
    · rw [if_neg fun h => hk h.1, if_neg hk]
  unfold passOn
  cases ho : s.footer o with
  | unloaded | loaded => exact hunload
  | loading n q =>
    cases q with
    | nil => exact hunload
    | cons u q =>
      have hlt : o < s.footers.length := lt_of_footer_ne fun h => nomatch ho.symm.trans h
      have hresume : ((s.setFooter o (.loading u q)).resume u).footer k = (s.setFooter o (.loading u q)).footer k := by
        unfold resume
        split <;> rfl
      dsimp only
      rw [hresume, footer_setFooter]
      simp only [hlt, and_true]
      rfl

/-- However a read for a footer comes to end with an error, begun or resumed, the task goes after its goal. -/
theorem reading_of_error (s : Session) (t : Nat) {use : Use} (haim : use.aim? = some (o, goal))
    {f : Cache → Cache × Progress Reading} {x : Fault} (hx : (f s.cache).2 = .done (.error x)) :
    s.reading t use f (fun s r => s.after t use r) = ((s.onCache f).1.passOn o).pursue t goal := by
  have hf : s.onCache f = ((s.onCache f).1, .done (.error x)) := Prod.ext rfl hx
  unfold reading
  rw [hf]
  cases use with
  | bytes | stream => cases haim
  | guess | footer =>
    cases haim
    exact failFooter_eq _ t o goal

/-- A task gives up the load of a footer, after something was done to the cache that ended with an error. -/
structure GivesUp (s : Session) (f : Cache → Cache × Progress Reading) (t o : Nat) (goal : Goal) (s' : Session) : Prop
    where
  /-- It goes after its goal, and the error is forgotten. -/
  pursues : s' = ((s.onCache f).1.passOn o).pursue t goal
  /-- Whoever waited longest is to load the footer. -/
  footer : s'.footer o = (s.footer o).passedOn
  unset : (s'.footer o).state? = none
  others : ∀ k, k ≠ o → s'.footer k = s.footer k

theorem givesUp_reading (s : Session) (t : Nat) {use : Use} (haim : use.aim? = some (o, goal))
    {f : Cache → Cache × Progress Reading} {x : Fault} (hx : (f s.cache).2 = .done (.error x)) :
    s.GivesUp f t o goal (s.reading t use f fun s r => s.after t use r) := by
  have hcell : ∀ k, (((s.onCache f).1.passOn o).pursue t goal).footer k =
      if k = o then (s.footer o).passedOn else s.footer k := fun k => by
    rw [Session.footer, footers_pursue]
    show ((s.onCache f).1.passOn o).footer k = _
    rw [footer_passOn, footer_onCache, footer_onCache]
  rw [reading_of_error s t haim hx]
  refine ⟨rfl, (hcell o).trans (if_pos rfl), ?_, fun k hk => (hcell k).trans (if_neg hk)⟩
  rw [hcell, if_pos rfl]
  exact FooterCell.state?_passedOn _

/-! ### Loads that begin -/

/-- Reads as much of the end of an object as is guessed to hold its footer. -/
def guess (s : Session) (o : Nat) (c : Cache) : Cache × Progress Reading :=
  c.beginRead o (.tail (s.size o) (s.config.footer.tailFor (s.size o))) .exact none

/-- A task whose turn it is sets out to load a footer. -/
structure SetsOut (s : Session) (t o : Nat) (goal : Goal) (s' : Session) : Prop where
  turn : ∃ q, s.footer o = .loading t q
  /-- While the bytes are not there, it stays the task's turn. -/
  waits : ∀ r, (s.guess o s.cache).2 = .waiting r → s'.footer o = s.footer o ∧
    ∀ u ∈ s.tasks, u.id = t → ⟨t, .reading r (.guess o goal)⟩ ∈ s'.tasks
  /-- If the bytes are there and leave no question open, the footer is what they tell. -/
  tells : s.cache.StoresSound → ∀ b, (s.guess o s.cache).2 = .done (.ok b) →
    (∀ n, Footer.parse FileRecord.decode? b (s.size o) = .ok (.needMore n) → s.size o < n) →
      s'.footer o = .loaded (footerState (s.size o) (Footer.parse FileRecord.decode? b (s.size o)))
  fails : ∀ x, (s.guess o s.cache).2 = .done (.error x) → s.GivesUp (s.guess o) t o goal s'

/-- A read that has to wait is what its task does, and leaves the footers as they are. -/
theorem waits_reading (s : Session) (t : Nat) {use : Use} {f : Cache → Cache × Progress Reading}
    {next : Session → Except Fault Bytes → Session} {r : Reading} (hr : (f s.cache).2 = .waiting r) :
    (s.reading t use f next).footers = s.footers ∧
      ∀ u ∈ s.tasks, u.id = t → ⟨t, .reading r use⟩ ∈ (s.reading t use f next).tasks := by
  have hf : s.onCache f = ((s.onCache f).1, .waiting r) := Prod.ext rfl hr
  unfold reading
  rw [hf]
  refine ⟨footers_onCache s f, fun u hu hid => List.mem_map.mpr ⟨u, ?_, by rw [if_pos hid, hid]⟩⟩
  obtain ⟨l, runnable, he⟩ := exists_onCache s f
  rw [he]
  exact List.mem_append_left _ hu

theorem footers_arrive (s : Session) (t : Nat) (goal : Goal) (f : Option FooterState) :
    (s.arrive t goal f).footers = s.footers := by
  unfold arrive
  split <;> exact footers_pursue _ t goal

/-- A footer that is settled is what was read of it. -/
theorem footer_settleFooter (s : Session) (t : Nat) (goal : Goal) (p : Except FooterFault Footer.Parse)
    (ho : o < s.footers.length) : (s.settleFooter t o goal p).footer o = .loaded (footerState (s.size o) p) := by
  obtain ⟨s₁, hs₁, he⟩ := s.exists_settleFooter t o goal p
  have hfooters : s₁.footers = s.footers := by
    rcases hs₁ with rfl | ⟨l, rfl⟩
    · rfl
    · exact footers_prefetchPageIndex s o l
  obtain ⟨r, hr, -⟩ := exists_resumeAll (queueOf (s₁.footer o)) (s₁.setFooter o (.loaded (footerState (s.size o) p)))
  rw [he, footer, footers_arrive, hr]
  show (s₁.setFooter o _).footer o = _
  rw [footer_setFooter, if_pos ⟨rfl, hfooters ▸ ho⟩]

/-- A read that ends with bytes is one of an object that there is, and leaves it as long as it is. -/
theorem size_guess (hc : s.cache.StoresSound) {b : Bytes} (hb : (s.guess o s.cache).2 = .done (.ok b)) :
    (s.onCache (s.guess o)).1.size o = s.size o := by
  have hmoves : Moves (fun _ _ => False) ⟨s.cache, []⟩ ⟨(s.guess o s.cache).1, []⟩ := Cache.moves_beginRead hc ..
  cases hx : s.cache.stores[o]? with
  | none =>
    unfold guess Cache.beginRead at hb
    rw [hx] at hb
    cases hb
  | some x =>
    have hh : s.handle? o = some x.handle := by rw [handle?, hx, Option.map_some]
    have hext := (aside_onCache (s := s) (f := s.guess o) (Moves.extends hmoves hc)).cache
    rw [size_of_handle? hh, size_of_handle? (handle?_of_extends hext hh)]

theorem setsOut_load (s : Session) (t : Nat) (goal : Goal) (ho : ∃ q, s.footer o = .loading t q) :
    s.SetsOut t o goal (s.load t o goal) where
  turn := ho
  waits r hr := by
    have hwaits : (s.load t o goal).footers = s.footers ∧
        ∀ u ∈ s.tasks, u.id = t → ⟨t, .reading r (.guess o goal)⟩ ∈ (s.load t o goal).tasks := waits_reading s t hr
    exact ⟨by rw [footer, hwaits.1, ← footer], hwaits.2⟩
  tells hc b hb hmore := by
    obtain ⟨q, hq⟩ := ho
    have hlt : o < s.footers.length := lt_of_footer_ne (by simp [hq])
    have hf : s.onCache (s.guess o) = ((s.onCache (s.guess o)).1, .done (.ok b)) := Prod.ext rfl hb
    have hload : s.load t o goal = (s.onCache (s.guess o)).1.afterGuess t o goal (.ok b) := by
      show s.reading t (.guess o goal) (s.guess o) (fun s r => s.afterGuess t o goal r) = _
      unfold reading
      rw [hf]
    have hsize := size_guess hc hb
    have hsettle := footer_settleFooter (o := o) (s.onCache (s.guess o)).1 t goal
      (Footer.parse FileRecord.decode? b (s.size o)) (footers_onCache s (s.guess o) ▸ hlt)
    rw [hsize] at hsettle
    rw [hload]
    unfold afterGuess
    dsimp only
    rw [hsize]
    split
    · rename_i n hn
      rw [if_neg (Nat.not_le.mpr (hmore n hn))]
      rwa [hn] at hsettle ⊢
    · exact hsettle
  fails x hx := by
    have haim : (Use.guess o goal).aim? = some (o, goal) := rfl
    exact givesUp_reading s t haim hx

/-- A footer that nobody has loaded or loads is the task's to load that needs it. -/
theorem setsOut_needFooter (s : Session) (t : Nat) (goal : Goal) (ho : s.footer o = .unloaded)
    (hlt : o < s.footers.length) :
    (s.setFooter o (.loading t [])).SetsOut t o goal (s.needFooter t o goal) := by
  have hturn : (s.setFooter o (.loading t [])).footer o = .loading t [] := by
    rw [footer_setFooter, if_pos ⟨rfl, hlt⟩]
  unfold needFooter
  rw [ho]
  exact setsOut_load _ t goal ⟨[], hturn⟩

/-! ### One load at a time -/

/-- One task at a time loads a footer. It has its turn, the others that need the footer wait, and when one of these has
    its turn, it loads the footer itself. -/
structure OneLoad (s : Session) : Prop where
  single : ∀ u ∈ s.tasks, ∀ v ∈ s.tasks, ∀ o, u.activity.loads? = some o → v.activity.loads? = some o → u = v
  loading : ∀ u ∈ s.tasks, ∀ o, u.activity.loads? = some o → ∃ q, s.footer o = .loading u.id q
  /-- The task that has its turn loads the footer or is about to go on. -/
  holder : ∀ o n q, s.footer o = .loading n q → ∃ u ∈ s.tasks, u.id = n ∧
    (u.activity.loads? = some o ∨ (∃ goal, u.activity = .turn o goal) ∧ n ∈ s.runnable)
  waiting : ∀ o n q, s.footer o = .loading n q → (n :: q).Nodup ∧ ∀ w ∈ q, ∃ goal, ⟨w, .turn o goal⟩ ∈ s.tasks
  /-- Whoever waits for a footer is not forgotten. -/
  turn : ∀ u ∈ s.tasks, ∀ o goal, u.activity = .turn o goal →
    (∃ n q, s.footer o = .loading n q ∧ u.id ∈ n :: q) ∨ ∃ f, s.footer o = .loaded f
  next : ∀ u ∈ s.tasks, ∀ o goal, u.activity = .turn o goal → ∀ q, s.footer o = .loading u.id q →
    ∀ i, s.runnable[i]? = some u.id →
      s.step (.run i) = ({ s with runnable := s.runnable.eraseIdx i } : Session).load u.id o goal

theorem Sound.step_run (h : s.Sound C none) (hu : u ∈ s.tasks) (hi : s.runnable[i]? = some u.id) :
    s.step (.run i) = ({ s with runnable := s.runnable.eraseIdx i } : Session).proceed u := by
  have htask : ({ s with runnable := s.runnable.eraseIdx i } : Session).task? u.id = some u := task?_eq_some h.ids hu
  show s.runAt i = _
  rw [Session.runAt, hi]
  dsimp only
  rw [htask]

theorem Sound.oneLoad (h : s.Sound C none) : s.OneLoad := by
  have hloading : ∀ u ∈ s.tasks, ∀ o, u.activity.loads? = some o → ∃ q, s.footer o = .loading u.id q := by
    intro u hu o ho
    have hplaced := h.placed u hu
    unfold Activity.loads? at ho
    split at ho
    · rename_i r use ha
      rw [Placed, ha] at hplaced
      exact hplaced o ho
    · cases ho
  refine ⟨fun u hu v hv o hou hov => ?_, hloading, fun o n q ho => ?_, fun o n q ho => ?_, fun u hu o goal ha => ?_,
    fun u hu o goal ha q ho i hi => ?_⟩
  · obtain ⟨q, hq⟩ := hloading u hu o hou
    obtain ⟨q', hq'⟩ := hloading v hv o hov
    rw [hq, FooterCell.loading.injEq] at hq'
    exact eq_of_task_id h.ids hu hv hq'.1
  · have hheld := h.held o n q ho
    obtain ⟨c, hc, -⟩ | ⟨a, ha, hfooter⟩ := hheld.holder
    · cases hc
    · refine ⟨_, ha, rfl, ?_⟩
      unfold Activity.footer? at hfooter
      split at hfooter
      · exact Or.inl hfooter
      · rename_i object goal
        cases hfooter
        refine Or.inr ⟨⟨goal, rfl⟩, (h.awake _ ha).resolve_right ?_⟩
        -- It waits for nobody, since it has its turn.
        rintro ⟨n', q', ho', hmem⟩
        cases ho.symm.trans ho'
        exact (List.nodup_cons.mp hheld.nodup).1 hmem
      · cases hfooter
  · exact ⟨(h.held o n q ho).nodup, (h.held o n q ho).waiting⟩
  · have hplaced := h.placed u hu
    rwa [Placed, ha] at hplaced
  · obtain ⟨id, a⟩ := u
    cases ha
    rw [h.step_run hu hi]
    show ({ s with runnable := s.runnable.eraseIdx i } : Session).takeTurn id o goal = _
    unfold takeTurn
    rw [show ({ s with runnable := s.runnable.eraseIdx i } : Session).footer o = .loading id q from ho]
    exact if_pos rfl

/-! ### Runs -/

theorem Shapely.cells_runEvents (h : s.Shapely) {f : FooterState} (ho : s.footer o = .loaded f) (l : List Event) :
    (s.runEvents l).footer o = .loaded f := by
  induction l generalizing s with
  | nil => exact ho
  | cons e l ih => exact ih (h.step e) ((h.works e).cells o f ho)

theorem Shapely.exists_stream_runEvents (h : s.Shapely) {x : Stream} (hx : x ∈ s.streams) (l : List Event) :
    ∃ y ∈ (s.runEvents l).streams, y.id = x.id ∧ y.object = x.object := by
  induction l generalizing s x with
  | nil => exact ⟨x, hx, rfl, rfl⟩
  | cons e l ih =>
    obtain ⟨y, hy, hid, ho, -⟩ := (h.works e).streams x hx
    obtain ⟨z, hz, hzid, hzo⟩ := ih (h.step e) hy
    exact ⟨z, hz, hzid.trans hid, hzo.trans ho⟩

theorem loaded_of_layout {x : Stream} (h : x.Adopted s) {m : Layout} (hm : x.planner.layout = some m) :
    s.footer x.object = .loaded (.parsed m) := by
  rcases h with ⟨-, hnone⟩ | ⟨f, hf, -, hlayout⟩
  · cases hm.symm.trans hnone
  · cases f with
    | parsed l =>
      cases hm.symm.trans hlayout
      exact hf
    | degraded r => cases hm.symm.trans hlayout

/-- A stream over an object whose footer tells nothing has no layout, now and later. -/
theorem Shapely.layout_eq_none (h : s.Shapely) {x : Stream} (hx : x ∈ s.streams) {r : FooterFault}
    (ho : s.footer x.object = .loaded (.degraded r)) (l : List Event) {y : Stream}
    (hy : y ∈ (s.runEvents l).streams) (hid : y.id = x.id) : y.planner.layout = none := by
  have hlater := h.runEvents l
  obtain ⟨z, hz, hzid, hzo⟩ := h.exists_stream_runEvents hx l
  obtain rfl := hlater.adopts.eq_of_id hy hz (hid.trans hzid.symm)
  have hcell := h.cells_runEvents ho l
  rw [← hzo] at hcell
  cases hm : y.planner.layout with
  | none => rfl
  | some m => cases hcell.symm.trans (loaded_of_layout (hlater.adopts.adopted y hy) hm)

/-- In every run of a session, a footer that was loaded stays as it is; one task at a time loads a footer, while the
    others wait; and streams know of the footers of their objects what these tell, or nothing. A load that ends with an
    error is given up, and the footer is left to the next one. This holds of reads that go on in a run, and of those that
    are begun, whatever the state. Whoever needs a footer that was given up, or has its turn after the one who gave it
    up, sets out to load it again. -/
theorem footers_load_once (config : Config) (l : List Event) :
    let s := (fresh config).runEvents l
    s.OneLoad ∧
    (∀ o f, s.footer o = .loaded f → ∀ l', (s.runEvents l').footer o = .loaded f) ∧
    (∀ x ∈ s.streams, ∀ m, x.planner.layout = some m → s.footer x.object = .loaded (.parsed m)) ∧
    (∀ x ∈ s.streams, ∀ r, s.footer x.object = .loaded (.degraded r) → ∀ l', ∀ y ∈ (s.runEvents l').streams,
      y.id = x.id → y.planner.layout = none) ∧
    (∀ u ∈ s.tasks, ∀ r use o goal, u.activity = .reading r use → use.aim? = some (o, goal) →
      ∀ x, (s.cache.resumeRead r).2 = .done (.error x) → ∀ i, s.runnable[i]? = some u.id →
        GivesUp { s with runnable := s.runnable.eraseIdx i } (fun c => c.resumeRead r) u.id o goal (s.step (.run i))) ∧
    ∀ (s₁ : Session) t o goal,
      (s₁.footer o = .unloaded → o < s₁.footers.length →
        (s₁.setFooter o (.loading t [])).SetsOut t o goal (s₁.needFooter t o goal)) ∧
      ((∃ q, s₁.footer o = .loading t q) → s₁.SetsOut t o goal (s₁.load t o goal)) ∧
      ∀ use, use.aim? = some (o, goal) → ∀ (f : Cache → Cache × Progress Reading) x, (f s₁.cache).2 = .done (.error x) →
        s₁.GivesUp f t o goal (s₁.reading t use f fun s r => s.after t use r) := by
  intro s
  have h : s.Shapely := (shapely_fresh config).runEvents l
  refine ⟨h.sound.oneLoad, fun o f ho l' => h.cells_runEvents ho l', fun x hx m hm => ?_,
    fun x hx r ho l' y hy hid => h.layout_eq_none hx ho l' hy hid, fun u hu r use o goal ha haim x hx i hi => ?_,
    fun s₁ t o goal => ⟨setsOut_needFooter s₁ t goal, setsOut_load s₁ t goal,
      fun use haim f x hx => givesUp_reading s₁ t haim hx⟩⟩
  · exact loaded_of_layout (h.adopts.adopted x hx) hm
  · rw [h.sound.step_run hu hi]
    obtain ⟨id, a⟩ := u
    cases ha
    exact givesUp_reading _ id haim hx

/-- Two streams over one object need its footer. The first one loads it and finds that the object is gone. It goes on with
    its declaration, and the second one loads the footer next. -/
theorem footers_load_once_waiting :
    let config : Config := { registry := { prefetchSmall := false } }
    let l : List Event := [.openSized "a" 200, .openSized "a" 200, .start (.declare 1 [0]), .start (.declare 2 [0]),
      .run 0, .run 0, .run 0, .answer 0 (.failed (.notFound "a")) 0, .run 0]
    let s := (fresh config).runEvents l
    let r : Reading := ⟨0, ⟨0, 200⟩, none, [0], [0], []⟩
    s.footer 0 = .loading 0 [1] ∧ (∃ x, (s.cache.resumeRead r).2 = .done (.error x)) ∧
      GivesUp { s with runnable := s.runnable.eraseIdx 0 } (fun c => c.resumeRead r) 0 0 (.declare 1 [0])
        (s.step (.run 0)) ∧
      (s.step (.run 0)).ended = [(0, .done)] ∧ (s.step (.run 0)).footer 0 = .loading 1 [] := by
  intro config l s r
  obtain ⟨-, -, -, -, hfails, -⟩ := footers_load_once config l
  have hx : ∃ x, (s.cache.resumeRead r).2 = .done (.error x) := by
    have hfailed : (match (s.cache.resumeRead r).2 with
      | .done r => Cache.isFailure r
      | .waiting _ => false) = true := by decide +kernel
    generalize (s.cache.resumeRead r).2 = p at hfailed ⊢
    match p with
    | .done (.error x) => exact ⟨x, rfl⟩
    | .done (.ok b) => cases hfailed
    | .waiting r => cases hfailed
  have hu : ⟨0, .reading r (.guess 0 (.declare 1 [0]))⟩ ∈ s.tasks := by decide +kernel
  have hi : s.runnable[0]? = some 0 := by decide +kernel
  obtain ⟨x, hx⟩ := hx
  exact ⟨by decide +kernel, ⟨x, hx⟩, hfails _ hu r _ 0 _ rfl rfl x hx 0 hi, by decide +kernel, by decide +kernel⟩

end Session

end RangeCache
