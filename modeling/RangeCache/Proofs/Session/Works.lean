import RangeCache.Proofs.Session.Opening
import RangeCache.Proofs.Session.Replan

/-!
# How a session works

What all definitions of a session have in common (`Works`): the cache changes by actions, streams stay, a footer that was
loaded stays as it is, the tasks that deal with the footer of an object are after goals of streams over that object, and
a stream that has taken notice of a footer has the layout that the footer tells, or none. There is one lemma for each
definition, and the frames of two definitions that follow each other compose (`Works.trans`).
-/

namespace RangeCache

open Cache (Leads Action)

/-! ### Goals and footers -/

/-- The layout that a footer tells. -/
def FooterState.layout? : FooterState → Option Layout
  | .parsed l => some l
  | .degraded _ => none

/-- The object whose footer a read is for, and what follows. -/
def Use.aim? : Use → Option (Nat × Goal)
  | .guess object goal | .footer object goal => some (object, goal)
  | .bytes | .stream _ _ => none

/-- The object whose footer a task loads or waits for, and what follows. -/
def Activity.aim? : Activity → Option (Nat × Goal)
  | .reading _ use => use.aim?
  | .turn object goal => some (object, goal)
  | _ => none

/-- If a goal is one of a stream, the stream is in `X`, and one of some streams, and over an object. -/
def Goal.Suits (X : Nat → Prop) (l : List Stream) (object : Nat) (goal : Goal) : Prop :=
  ∀ i, Session.goalStream? goal = some i → X i ∧ ∃ x ∈ l, x.id = i ∧ x.object = object

/-- A task that deals with the footer of an object does so for a stream in `X` over the object, or for none. -/
def Activity.Suits (X : Nat → Prop) (l : List Stream) (a : Activity) : Prop :=
  ∀ object goal, a.aim? = some (object, goal) → goal.Suits X l object

/-- A stream has taken notice of the footer of its object and knows what it tells, or it has not and knows nothing. -/
def Stream.Adopted (s : Session) (x : Stream) : Prop :=
  x.settled = false ∧ x.planner.layout = none ∨
    ∃ f, s.footer x.object = .loaded f ∧ x.settled = true ∧ x.planner.layout = f.layout?

section Suits
variable {X : Nat → Prop} {l l' : List Stream} {object : Nat} {goal : Goal} {a : Activity}

theorem Goal.Suits.mono (h : goal.Suits X l object) (hl : ∀ x ∈ l, ∃ y ∈ l', y.id = x.id ∧ y.object = x.object) :
    goal.Suits X l' object := by
  intro i hi
  obtain ⟨hX, x, hx, hid, ho⟩ := h i hi
  obtain ⟨y, hy, hyid, hyo⟩ := hl x hx
  exact ⟨hX, y, hy, hyid.trans hid, hyo.trans ho⟩

theorem Activity.Suits.mono (h : a.Suits X l) (hl : ∀ x ∈ l, ∃ y ∈ l', y.id = x.id ∧ y.object = x.object) :
    a.Suits X l' := fun object goal ha => (h object goal ha).mono hl

theorem Activity.suits_of_aim? (h : a.aim? = none) : a.Suits X l := by
  intro object goal ha
  rw [h] at ha
  cases ha

theorem Stream.Adopted.mono {s s' : Session} {x : Stream} (h : x.Adopted s)
    (hcells : ∀ o f, s.footer o = .loaded f → s'.footer o = .loaded f) : x.Adopted s' :=
  h.imp_right fun ⟨f, hf, hrest⟩ => ⟨f, hcells _ f hf, hrest⟩

end Suits

namespace Session

/-- Streams have their numbers and objects, and know what they may of the footers of these. -/
structure Adopts (s : Session) : Prop where
  numbered : s.streams.map (·.id) = List.range' 1 s.streams.length
  within : ∀ x ∈ s.streams, x.object < s.footers.length
  adopted : ∀ x ∈ s.streams, x.Adopted s

/-- What becomes of a session whose tasks plan only for streams in `X` and end jobs only as `E` says, while nobody else
    plans for the streams in `Y`. -/
structure Works (X Y : Nat → Prop) (E : Job → Except Fault Bytes → Prop) (s s' : Session) : Prop where
  cache : Leads (Action.Heeds X E) s.cache s'.cache
  plans : Work.Sound .any ⟨s.cache, []⟩ → ∀ i, Y i → s.cache.Supersedes i s'.cache
  streams : ∀ x ∈ s.streams, ∃ y ∈ s'.streams, y.id = x.id ∧ y.object = x.object ∧ (x.closed = true → y.closed = true)
  cells : ∀ o f, s.footer o = .loaded f → s'.footer o = .loaded f
  goals : (∀ u ∈ s.tasks, u.activity.Suits X s.streams) → ∀ u ∈ s'.tasks, u.activity.Suits X s'.streams
  adopts : s.Adopts → s'.Adopts

variable {X Y : Nat → Prop} {E : Job → Except Fault Bytes → Prop} {s s' s'' : Session} {t object : Nat} {goal : Goal}

/-! ### Frames -/

theorem Adopts.nodup (h : s.Adopts) : (s.streams.map (·.id)).Nodup := by
  rw [h.numbered]
  exact List.nodup_range'

theorem Adopts.eq_of_id (h : s.Adopts) {x y : Stream} (hx : x ∈ s.streams) (hy : y ∈ s.streams) (hid : x.id = y.id) :
    x = y := List.inj_on_of_nodup_map h.nodup hx hy hid

theorem Works.refl (s : Session) : Works X Y E s s :=
  ⟨.refl, fun _ _ _ => .refl _ _, fun x hx => ⟨x, hx, rfl, rfl, id⟩, fun _ _ => id, id, id⟩

theorem Works.trans (h : Works X Y E s s') (h' : Works X Y E s' s'') : Works X Y E s s'' where
  cache := h.cache.trans h'.cache
  plans hs i hi := (h.plans hs i hi).trans (h'.plans (h.cache.sound hs) i hi)
  streams x hx := by
    obtain ⟨y, hy, hid, ho, hc⟩ := h.streams x hx
    obtain ⟨z, hz, hid', ho', hc'⟩ := h'.streams y hy
    exact ⟨z, hz, hid'.trans hid, ho'.trans ho, hc' ∘ hc⟩
  cells o f hf := h'.cells o f (h.cells o f hf)
  goals := h'.goals ∘ h.goals
  adopts := h'.adopts ∘ h.adopts

theorem Works.suits (h : Works X Y E s s') (hg : goal.Suits X s.streams object) : goal.Suits X s'.streams object :=
  hg.mono fun x hx => by
    obtain ⟨y, hy, hid, ho, -⟩ := h.streams x hx
    exact ⟨y, hy, hid, ho⟩

/-- Nothing changes about the streams. -/
theorem Works.of_streams (hcache : Leads (Action.Heeds X E) s.cache s'.cache)
    (hplans : ∀ i, Y i → s.cache.Supersedes i s'.cache) (hstreams : s'.streams = s.streams)
    (hlength : s.footers.length ≤ s'.footers.length) (hcells : ∀ o f, s.footer o = .loaded f → s'.footer o = .loaded f)
    (htasks : (∀ u ∈ s.tasks, u.activity.Suits X s.streams) → ∀ u ∈ s'.tasks, u.activity.Suits X s.streams) :
    Works X Y E s s' where
  cache := hcache
  plans _ := hplans
  streams x hx := ⟨x, hstreams ▸ hx, rfl, rfl, id⟩
  cells := hcells
  goals h := hstreams ▸ htasks h
  adopts h := by
    refine ⟨hstreams ▸ h.numbered, fun x hx => ?_, fun x hx => ?_⟩
    · exact (h.within x (hstreams ▸ hx)).trans_le hlength
    · exact (h.adopted x (hstreams ▸ hx)).mono hcells

/-- Only tasks change, and none gets to deal with a footer. -/
theorem Works.of_tasks (hcache : s'.cache = s.cache) (hstreams : s'.streams = s.streams)
    (hfooters : s'.footers = s.footers) (htasks : ∀ u ∈ s'.tasks, u ∈ s.tasks ∨ u.activity.aim? = none) :
    Works X Y E s s' := by
  refine .of_streams (hcache ▸ .refl) (fun _ _ => hcache ▸ .refl _ _) hstreams (hfooters ▸ Nat.le_refl _) (fun o f hf => ?_) fun h u hu => ?_
  · rwa [footer, hfooters]
  · exact (htasks u hu).elim (h u) Activity.suits_of_aim?

/-! ### Tasks -/

theorem works_leave (s : Session) (t : Nat) : Works X Y E s (s.leave t) :=
  .of_tasks rfl rfl rfl fun _ hu => Or.inl (List.mem_filter.mp hu).1

theorem works_finish (s : Session) (t : Nat) (o : Outcome) : Works X Y E s (s.finish t o) :=
  .of_tasks rfl rfl rfl fun _ hu => Or.inl (List.mem_filter.mp hu).1

theorem works_spawn (s : Session) {a : Activity} (ha : a.aim? = none) : Works X Y E s (s.spawn a) := by
  refine .of_tasks rfl rfl rfl fun u hu => (List.mem_append.mp hu).imp_right fun hu => ?_
  rw [List.mem_singleton.mp hu]
  exact ha

theorem works_become (s : Session) (t : Nat) {a : Activity} (ha : a.Suits X s.streams) :
    Works X Y E s (s.become t a) := by
  refine .of_streams .refl (fun _ _ => .refl _ _) rfl (Nat.le_refl _) (fun _ _ => id) fun h u hu => ?_
  obtain ⟨v, hv, rfl⟩ := List.mem_map.mp hu
  split
  · exact ha
  · exact h v hv

theorem works_attempt (s : Session) (t : Nat) (e : Errand) (n : Nat) : Works X Y E s (s.attempt t e n) :=
  (works_become s t (Activity.suits_of_aim? rfl)).trans (.of_tasks rfl rfl rfl fun _ => Or.inl)

theorem works_resumeAll (l : List Nat) (s : Session) : Works X Y E s (l.foldl resume s) := by
  obtain ⟨r, hr, -⟩ := exists_resumeAll l s
  rw [hr]
  exact .of_tasks rfl rfl rfl fun _ => Or.inl

/-- What is known of a footer changes that was not loaded before. -/
theorem works_setFooter (s : Session) (hload : ∀ f, s.footer object ≠ .loaded f) (cell : FooterCell) :
    Works X Y E s (s.setFooter object cell) := by
  refine .of_streams .refl (fun _ _ => .refl _ _) rfl (List.length_set ..).ge (fun o f hf => ?_) fun h => h
  have hne : ¬(o = object ∧ object < s.footers.length) := fun ho => hload f (ho.1 ▸ hf)
  rwa [footer_setFooter, if_neg hne]

/-! ### The cache -/

section Cache
variable {α : Type} {f : Cache → Cache × α}

theorem streams_onCache (s : Session) (f : Cache → Cache × α) : (s.onCache f).1.streams = s.streams := by
  obtain ⟨_, _, he⟩ := exists_onCache s f
  rw [he]

theorem footer_onCache (s : Session) (f : Cache → Cache × α) (o : Nat) : (s.onCache f).1.footer o = s.footer o := by
  rw [footer, footers_onCache]
  rfl

/-- Something is done to the cache, and the session hears of it. -/
theorem works_onCache (s : Session) {a : Action} (ha : a.Heeds X E) (hY : ∀ i, a.planner? = some i → ¬Y i)
    (hf : (f s.cache).1 = s.cache.act a) : Works X Y E s (s.onCache f).1 := by
  obtain ⟨l, r, he⟩ := exists_onCache s f
  rw [he]
  refine .of_streams ?_ (fun i hi => ?_) rfl (Nat.le_refl _) (fun _ _ => id) fun h u hu => ?_
  · rw [hf]
    exact (Leads.act .refl ha).hear
  · rw [hf]
    exact ⟨Cache.nextJob_act s.cache a, Or.inl (Cache.left_subset_act fun hai => hY i hai hi)⟩
  · rcases List.mem_append.mp hu with hu | hu
    · exact h u hu
    · obtain ⟨-, -, j, hj⟩ := mem_spawned hu
      exact Activity.suits_of_aim? (hj ▸ rfl)

theorem works_cancel (s : Session) (owner : Nat) : Works X Y E s (s.onCache fun c => c.cancel owner).1 :=
  works_onCache s (a := .cancel owner) ⟨nofun, fun _ _ => False.elim⟩ nofun rfl

theorem works_ensure (s : Session) (i : Nat) (spans : List Span) (fit : Fit) (priority : Priority) {owner : Option Nat}
    (howner : ∀ k, priority = .speculative → owner = some k → X k ∧ ¬Y k) :
    Works X Y E s (s.onCache fun c => c.ensure i spans fit priority owner).1 := by
  have hplan : ∀ k, (Action.ensure i spans fit priority owner).planner? = some k → X k ∧ ¬Y k := fun k hk => by
    cases priority with
    | speculative => exact howner k rfl hk
    | immediate => cases hk
  exact works_onCache s (a := .ensure i spans fit priority owner) ⟨fun k hk => (hplan k hk).1, fun _ _ => False.elim⟩
    (fun k hk => (hplan k hk).2) rfl

end Cache

/-! ### Streams and their plans -/

section Streams

/-- A stream changes, but not which it is, and what it knows of the footer of its object is right as before. -/
theorem works_modifyStream (s : Session) (id : Nat) {f : Stream → Stream} (hid : ∀ x, (f x).id = x.id)
    (hobject : ∀ x, (f x).object = x.object) (hclosed : ∀ x, x.closed = true → (f x).closed = true)
    (hadopted : s.Adopts → ∀ x ∈ s.streams, x.id = id → x.Adopted s → (f x).Adopted s) :
    Works X Y E s (s.modifyStream id f) := by
  have hstreams : ∀ x ∈ s.streams, ∃ y ∈ (s.modifyStream id f).streams,
      y.id = x.id ∧ y.object = x.object ∧ (x.closed = true → y.closed = true) := fun x hx => by
    refine ⟨_, List.mem_map_of_mem hx, ?_⟩
    split
    · exact ⟨hid x, hobject x, hclosed x⟩
    · exact ⟨rfl, rfl, fun h => h⟩
  refine ⟨.refl, fun _ _ _ => .refl _ _, hstreams, fun _ _ h => h, fun h u hu => (h u hu).mono fun x hx => ?_, fun h => ⟨?_, ?_, ?_⟩⟩
  · obtain ⟨y, hy, hyid, hyo, -⟩ := hstreams x hx
    exact ⟨y, hy, hyid, hyo⟩
  · have hmap : (s.modifyStream id f).streams.map (·.id) = s.streams.map (·.id) := by
      simp only [modifyStream, List.map_map]
      refine List.map_congr_left fun x _ => ?_
      by_cases hx : x.id = id <;> simp [hx, hid]
    rw [hmap, h.numbered, modifyStream, List.length_map]
  · intro y hy
    obtain ⟨x, hx, rfl⟩ := List.mem_map.mp hy
    split
    · exact hobject x ▸ h.within x hx
    · exact h.within x hx
  · intro y hy
    obtain ⟨x, hx, rfl⟩ := List.mem_map.mp hy
    split
    · rename_i hxid
      exact hadopted h x hx hxid (h.adopted x hx)
    · exact h.adopted x hx

theorem works_ensurePlan (s : Session) {x : Stream} (hx : X x.id) (plan : Plan) (priority : Priority) :
    Works X (· ≠ x.id) E s (s.ensurePlan x plan priority).1 := by
  unfold ensurePlan
  split
  · exact .refl s
  · exact works_ensure s x.object _ _ priority fun k _ hk => by
      obtain rfl := Option.some.inj hk
      exact ⟨hx, fun hne => hne rfl⟩

theorem works_applyPlan (s : Session) {x : Stream} (hx : X x.id) (plan : Plan) :
    Works X Y E s (s.applyPlan x plan).1 := by
  -- Parts of the plan add up, but what was left before has been withdrawn.
  have hparts : Works X (· ≠ x.id) E s (s.applyPlan x plan).1 := by
    have hcancel : Works X (· ≠ x.id) E s (s.onCache fun c => c.cancel x.id).1 := works_cancel s x.id
    have hfirst := hcancel.trans (works_ensurePlan _ hx plan .immediate)
    unfold applyPlan
    dsimp only
    split <;> rename_i heq <;> rw [heq] at hfirst
    · exact hfirst
    · exact hfirst.trans (works_ensurePlan _ hx plan .speculative)
  refine { hparts with plans := fun hs i _ => ?_ }
  by_cases hi : i = x.id
  · subst hi
    exact ⟨hparts.cache.nextJob, Or.inr fun j hj => (left_applyPlan hs x plan hj).new⟩
  · exact hparts.plans hs i hi

/-- A planner takes note of something and does not forget the layout that it has. -/
theorem works_replan (s : Session) {x : Stream} (hX : X x.id)
    (hx : ∃ y ∈ s.streams, y.id = x.id ∧ y.planner.layout = x.planner.layout) {f : Planner → Planner × Plan}
    (hf : ∀ p, (f p).1.layout = p.layout) : Works X Y E s (s.replan x f).1 := by
  have hnote : Works X Y E s (s.modifyStream x.id fun y => { y with planner := (f x.planner).1 }) := by
    refine works_modifyStream s x.id (fun _ => rfl) (fun _ => rfl) (fun _ h => h) fun h z hz hid hadopted => ?_
    obtain ⟨y, hy, hyid, hlayout⟩ := hx
    obtain rfl := h.eq_of_id hz hy (hid.trans hyid.symm)
    unfold Stream.Adopted at hadopted ⊢
    rwa [hf, ← hlayout]
  exact hnote.trans (works_applyPlan _ hX _)

theorem works_adopt (s : Session) (id : Nat) {f : FooterState}
    (hf : s.Adopts → ∀ x ∈ s.streams, x.id = id → s.footer x.object = .loaded f) : Works X Y E s (s.adopt id f) := by
  refine works_modifyStream s id ?_ ?_ ?_ fun h x hx hid hadopted => ?_
  · intro x
    cases f <;> rfl
  · intro x
    cases f <;> rfl
  · intro x hx
    cases f <;> exact hx
  · have hloaded := hf h x hx hid
    refine Or.inr ⟨f, ?_, ?_, ?_⟩
    · cases f <;> exact hloaded
    · cases f <;> rfl
    · cases f with
      | parsed l => rfl
      | degraded r =>
        -- It did not know more before, because a footer is loaded only once.
        rcases hadopted with ⟨-, hnone⟩ | ⟨g, hg, -, hlayout⟩
        · exact hnone
        · rw [hloaded] at hg
          cases hg
          exact hlayout

theorem works_recordColumn (s : Session) (x : Stream) (offset : Nat) : Works X Y E s (s.recordColumn x offset) := by
  unfold recordColumn
  repeat' split
  all_goals exact .of_tasks rfl rfl rfl fun _ => Or.inl

end Streams

/-! ### Reading -/

section Reading

/-- A task reads, and goes on if the read ends at once. -/
theorem works_reading (s : Session) (t : Nat) {use : Use} {f : Cache → Cache × Progress Reading} {a : Action}
    (ha : a.Heeds X E) (hY : ∀ i, a.planner? = some i → ¬Y i) (hf : (f s.cache).1 = s.cache.act a)
    (huse : ∀ object goal, use.aim? = some (object, goal) → goal.Suits X s.streams object)
    {next : Session → Except Fault Bytes → Session}
    (hnext : ∀ b, Works X Y E (s.onCache f).1 (next (s.onCache f).1 b)) : Works X Y E s (s.reading t use f next) := by
  have hcache := works_onCache s ha hY hf
  have hstreams := streams_onCache s f
  unfold reading
  split <;> rename_i heq <;> rw [heq] at hcache hstreams hnext
  · exact hcache.trans (works_become _ t fun object goal haim => hstreams ▸ huse object goal haim)
  · exact hcache.trans (hnext _)

theorem works_beginRead (s : Session) (t : Nat) {use : Use} (i : Nat) (span : Span) (fit : Fit) (owner : Option Nat)
    (huse : ∀ object goal, use.aim? = some (object, goal) → goal.Suits X s.streams object)
    {next : Session → Except Fault Bytes → Session}
    (hnext : ∀ b, Works X Y E (s.onCache fun c => c.beginRead i span fit owner).1
      (next (s.onCache fun c => c.beginRead i span fit owner).1 b)) :
    Works X Y E s (s.reading t use (fun c => c.beginRead i span fit owner) next) :=
  works_reading s t (a := .beginRead i span fit owner) ⟨nofun, fun _ _ => False.elim⟩ nofun rfl huse hnext

theorem works_afterStream (s : Session) (t id offset : Nat) (r : Except Fault Bytes) :
    Works X Y E s (s.afterStream t id offset r) := by
  unfold afterStream
  split
  · exact works_finish s t _
  · rename_i b
    split
    · exact works_finish s t _
    · rename_i x _
      have hmove : Works X Y E s (s.modifyStream id fun y => { y with position := y.position + b.length }) :=
        works_modifyStream s id (fun _ => rfl) (fun _ => rfl) (fun _ h => h) fun _ _ _ _ h => h
      exact hmove.trans ((works_recordColumn _ x offset).trans (works_finish _ t _))

theorem works_afterBytes (s : Session) (t : Nat) (r : Except Fault Bytes) : Works X Y E s (s.afterBytes t r) := by
  cases r <;> exact works_finish s t _

theorem works_select (s : Session) (t : Nat) {id : Nat} (hX : X id) (columns : List Nat) (o : Outcome) :
    Works X Y E s (s.select t id columns o) := by
  unfold select
  split
  · exact works_finish s t _
  · rename_i x hx
    have hreplan : Works X Y E s (s.replan x fun p => p.onSelect x.position columns).1 :=
      works_replan s (id_of_stream? hx ▸ hX) ⟨x, mem_of_stream? hx, rfl, rfl⟩ fun _ => rfl
    split <;> rename_i heq <;> rw [heq] at hreplan <;> exact hreplan.trans (works_finish _ t _)

theorem works_pursue (s : Session) (t : Nat) {goal : Goal} (hX : ∀ i, goalStream? goal = some i → X i) :
    Works X Y E s (s.pursue t goal) := by
  cases goal with
  | read id offset length =>
    unfold pursue
    dsimp only
    split
    · exact works_finish s t _
    · rename_i x hx
      have hreplan : Works X Y E s (s.replan x fun p => p.onRead s.recent.paths offset length).1 :=
        works_replan s (id_of_stream? hx ▸ hX id rfl) ⟨x, mem_of_stream? hx, rfl, rfl⟩ fun _ => rfl
      split <;> rename_i heq <;> rw [heq] at hreplan
      · exact hreplan.trans (works_finish _ t _)
      · exact hreplan.trans (works_beginRead _ t _ _ _ _ (fun _ _ h => by cases h) fun b =>
          works_afterStream _ t id offset b)
  | readTail id length =>
    unfold pursue
    dsimp only
    split
    · exact works_finish s t _
    · exact works_beginRead s t _ _ _ _ (fun _ _ h => by cases h) fun b => works_afterBytes _ t b
  | declare id columns => exact works_select s t (hX id rfl) columns .done
  | declareNames id names =>
    unfold pursue
    dsimp only
    split
    · exact works_finish s t _
    · exact works_select s t (hX id rfl) _ _
  | footer => exact works_leave s t

end Reading

/-! ### Footers -/

section Footers

/-- A task goes after its goal, and its stream takes notice of the footer of its object if this was loaded. -/
theorem works_arrive (s : Session) (t : Nat) (hgoal : goal.Suits X s.streams object) {f : Option FooterState}
    (hf : ∀ f', f = some f' → object < s.footers.length → s.footer object = .loaded f') :
    Works X Y E s (s.arrive t goal f) := by
  unfold arrive
  split
  · rename_i id f' hid
    have hadopt : Works X Y E s (s.adopt id f') := works_adopt s id fun h x hx hxid => by
      obtain ⟨-, y, hy, hyid, rfl⟩ := hgoal id hid
      obtain rfl := h.eq_of_id hx hy (hxid.trans hyid.symm)
      exact hf f' rfl (h.within x hx)
    exact hadopt.trans (works_pursue _ t fun i hi => (hgoal i hi).1)
  · exact works_pursue s t fun i hi => (hgoal i hi).1

theorem works_prefetchPageIndex (s : Session) (object : Nat) (l : Layout) :
    Works X Y E s (s.prefetchPageIndex object l) := by
  unfold prefetchPageIndex
  dsimp only
  split
  · exact works_ensure s object _ _ _ fun _ _ => nofun
  · exact .refl s

theorem footer_prefetchPageIndex (s : Session) (object : Nat) (l : Layout) (o : Nat) :
    (s.prefetchPageIndex object l).footer o = s.footer o := by
  unfold prefetchPageIndex
  dsimp only
  split
  · exact footer_onCache s _ o
  · rfl

/-- Settling a footer is a matter of a few updates, the first of which is made for a good footer only. -/
theorem exists_settleFooter (s : Session) (t object : Nat) (goal : Goal) (p : Except FooterFault Footer.Parse) :
    ∃ s₁, (s₁ = s ∨ ∃ l, s₁ = s.prefetchPageIndex object l) ∧
      s.settleFooter t object goal p = ((queueOf (s₁.footer object)).foldl resume
        (s₁.setFooter object (.loaded (footerState (s.size object) p)))).arrive t goal
          (some (footerState (s.size object) p)) := by
  unfold settleFooter
  dsimp only
  cases footerState (s.size object) p with
  | parsed l => exact ⟨_, Or.inr ⟨l, rfl⟩, rfl⟩
  | degraded f => exact ⟨s, Or.inl rfl, rfl⟩

/-- The task that waits longest for a footer is to load it. If none waits, it is as if nobody had tried. -/
def passOn (s : Session) (object : Nat) : Session :=
  match s.footer object with
  | .loading _ (u :: q) => (s.setFooter object (.loading u q)).resume u
  | _ => s.setFooter object .unloaded

/-- A task whose load of a footer failed goes after its goal, and the error is forgotten. -/
theorem failFooter_eq (s : Session) (t object : Nat) (goal : Goal) :
    s.failFooter t object goal = (s.passOn object).pursue t goal := by
  unfold failFooter passOn arrive
  cases goalStream? goal <;> rfl

variable (hload : ∀ f, s.footer object ≠ .loaded f) (hgoal : goal.Suits X s.streams object)
include hload hgoal

theorem works_settleFooter (t : Nat) (p : Except FooterFault Footer.Parse) :
    Works X Y E s (s.settleFooter t object goal p) := by
  obtain ⟨s₁, hs₁, he⟩ := s.exists_settleFooter t object goal p
  generalize footerState (s.size object) p = state at he
  have hprefetch : Works X Y E s s₁ ∧ s₁.footer object = s.footer object := by
    rcases hs₁ with rfl | ⟨l, rfl⟩
    · exact ⟨.refl _, rfl⟩
    · exact ⟨works_prefetchPageIndex s object l, footer_prefetchPageIndex s object l object⟩
  have hset : Works X Y E s₁ (s₁.setFooter object (.loaded state)) :=
    works_setFooter s₁ (fun f hf => hload f (hprefetch.2 ▸ hf)) _
  have hknown := hprefetch.1.trans (hset.trans (works_resumeAll (queueOf (s₁.footer object)) _))
  rw [he]
  refine hknown.trans (works_arrive _ t (hknown.suits hgoal) fun f hf hlt => ?_)
  cases hf
  obtain ⟨r, hr, -⟩ := exists_resumeAll (queueOf (s₁.footer object)) (s₁.setFooter object (.loaded state))
  rw [hr] at hlt ⊢
  have hcell := footer_setFooter s₁ object (.loaded state) object
  have hlen : object < s₁.footers.length := (List.length_set ..) ▸ hlt
  rwa [if_pos ⟨rfl, hlen⟩] at hcell

theorem works_failFooter (t : Nat) : Works X Y E s (s.failFooter t object goal) := by
  have hpass : Works X Y E s (s.passOn object) := by
    unfold passOn
    split
    · exact (works_setFooter s hload _).trans (works_resumeAll [_] _)
    · exact works_setFooter s hload _
  rw [failFooter_eq]
  exact hpass.trans (works_pursue _ t fun i hi => (hgoal i hi).1)

theorem works_afterFooter (t : Nat) (r : Except Fault Bytes) : Works X Y E s (s.afterFooter t object goal r) := by
  cases r with
  | error f => exact works_failFooter hload hgoal t
  | ok tail => exact works_settleFooter hload hgoal t _

theorem works_afterGuess (t : Nat) (r : Except Fault Bytes) : Works X Y E s (s.afterGuess t object goal r) := by
  cases r with
  | error f => exact works_failFooter hload hgoal t
  | ok tail =>
    unfold afterGuess
    dsimp only
    split
    · split
      · refine works_beginRead s t _ _ _ _ (fun o g haim => ?_) fun b => ?_
        · cases haim
          exact hgoal
        · exact works_afterFooter (fun f => footer_onCache s _ object ▸ hload f)
            (streams_onCache s _ ▸ hgoal) t b
      · exact works_settleFooter hload hgoal t _
    · exact works_settleFooter hload hgoal t _

theorem works_load (t : Nat) : Works X Y E s (s.load t object goal) := by
  refine works_beginRead s t _ _ _ _ (fun o g haim => ?_) fun b => ?_
  · cases haim
    exact hgoal
  · exact works_afterGuess (fun f => footer_onCache s _ object ▸ hload f) (streams_onCache s _ ▸ hgoal) t b

omit hload in
theorem works_needFooter (t : Nat) : Works X Y E s (s.needFooter t object goal) := by
  unfold needFooter
  split
  · rename_i f hf
    exact works_arrive s t hgoal fun f' hf' _ => Option.some.inj hf' ▸ hf
  · rename_i ho
    have hload : ∀ f, s.footer object ≠ .loaded f := fun f hf => nomatch ho.symm.trans hf
    have hset : Works X Y E s (s.setFooter object (.loading t [])) := works_setFooter s hload _
    refine hset.trans (works_load (fun f hf => ?_) (hset.suits hgoal) t)
    rw [footer_setFooter] at hf
    split at hf
    · cases hf
    · exact hload f hf
  · rename_i h q ho
    have hload : ∀ f, s.footer object ≠ .loaded f := fun f hf => nomatch ho.symm.trans hf
    refine (works_setFooter s hload (.loading h (q ++ [t]))).trans (works_become _ t fun o g haim => ?_)
    cases haim
    exact hgoal

omit hload in
theorem works_takeTurn (t : Nat) : Works X Y E s (s.takeTurn t object goal) := by
  unfold takeTurn
  split
  · rename_i f hf
    exact works_arrive s t hgoal fun f' hf' _ => Option.some.inj hf' ▸ hf
  · rename_i h q ho
    split
    · exact works_load (fun f hf => nomatch ho.symm.trans hf) hgoal t
    · exact .refl s
  · exact .refl s

end Footers

end Session

end RangeCache
