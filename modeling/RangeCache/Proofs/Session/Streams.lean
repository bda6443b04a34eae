import RangeCache.Proofs.Session.Events

/-!
# What streams read

A read that returns has the bytes of the object from the position of its stream on, as many as were asked
for and as there are, and its stream moves to their end; a read of the end has the last bytes, and nothing
moves; a read that fails moves nothing either (`reads_return`). Meanwhile anything may happen, to the same
object too, as long as nobody else moves the stream. The quest of the task that reads is kept by whatever
happens apart from it (`Apart`, `Underway.keep`), and ends as it should when the task itself runs.
-/

namespace RangeCache

/-! ### Honest clients -/

/-- An answer with as many bytes as were asked for has those of the object. Any other answer is possible. -/
def Event.Honest (objects : String → Bytes) (s : Session) : Event → Prop
  | .answer i (.bytes b) _ => ∀ task key span, s.calls[i]? = some ⟨task, .fetch key span⟩ →
      b.length = span.length → b = (objects key).slice span
  | _ => True

theorem Event.Honest.fair {objects : String → Bytes} {s : Session} {e : Event} (h : e.Honest objects s) :
    e.Fair (.ofObjects objects) s := by
  cases e with
  | answer i reply draw =>
    intro task key span b hcall hb _
    unfold Reply.bytesOf at hb
    cases reply with
    | bytes x =>
      dsimp only at hb
      split at hb
      · cases hb
        exact ⟨‹_›, h task key span hcall ‹_›⟩
      · cases hb
    | failed x => cases hb
    | attributes a => cases hb
  | _ => trivial

/-- How a read returns to whom reads at position `p` of an object of a size, and where it leaves the stream. -/
inductive Returned (content : Bytes) (size p : Nat) : Operation → Outcome → Nat → Prop
  | read {id n : Nat} {b : Bytes} (hlength : b.length = min n (size - p))
      (hbytes : b = content.slice ⟨p, p + b.length⟩) : Returned content size p (.read id n) (.read b) (p + b.length)
  | readTail {id n : Nat} {b : Bytes} (hlength : b.length = min n size)
      (hbytes : b = content.slice ⟨size - b.length, size⟩) : Returned content size p (.readTail id n) (.read b) p
  | failed {op : Operation} {f : Fault} : Returned content size p op (.failed f) p

namespace Session

/-- The client is honest in the course of some events. -/
def HonestRun (objects : String → Bytes) : Session → List Event → Prop
  | _, [] => True
  | s, e :: l => e.Honest objects s ∧ HonestRun objects (s.step e) l

/-- A session with a sound configuration, after anything that may happen while its client is honest. -/
def Reachable (objects : String → Bytes) (s : Session) : Prop :=
  ∃ config s₀ l, new config = .ok s₀ ∧ HonestRun objects s₀ l ∧ s₀.runEvents l = s

theorem HonestRun.fairRun {objects : String → Bytes} {s : Session} {l : List Event} (h : HonestRun objects s l) :
    FairRun (.ofObjects objects) s l := by
  induction l generalizing s with
  | nil => trivial
  | cons e l ih => exact ⟨h.1.fair, ih h.2⟩

/-- A reachable session is sound, and its blocks hold bytes of the objects only. -/
theorem Reachable.sound {objects : String → Bytes} {s : Session} (h : Reachable objects s) :
    s.Sound (.ofObjects objects) none ∧ 0 < s.config.store.blockSize := by
  obtain ⟨config, s₀, l, hnew, hl, rfl⟩ := h
  obtain ⟨rfl, hbounds⟩ := new_eq_ok hnew
  have hfresh := sound_fresh (.ofObjects objects) config
  exact ⟨hfresh.runEvents hl.fairRun, config_runEvents hfresh hl.fairRun ▸ hbounds.blockSize⟩

end Session

namespace Quest

/-- The stream that a quest moves. -/
def mover? (q : Quest) : Option Nat := q.offset.map fun _ => q.stream

theorem mover?_goal (q : Quest) : q.goal.mover? = q.mover? := by
  unfold goal mover?
  cases q.offset <;> rfl

theorem On.mover? {q : Quest} {s : Session} {a : Activity} (h : q.On s a) : a.mover? = q.mover? := by
  unfold On at h
  split at h
  · unfold Begins at h
    split at h
    · obtain ⟨rfl, x, -, hoffset, -⟩ := h
      simp [Activity.mover?, Operation.mover?, Quest.mover?, hoffset]
    · obtain ⟨-, hoffset, -⟩ := h
      simp [Activity.mover?, Operation.mover?, Quest.mover?, hoffset]
    · exact h.elim
  · unfold Pursues at h
    split at h
    · exact h ▸ q.mover?_goal
    · exact h ▸ q.mover?_goal
    · exact h ▸ q.mover?_goal
    · obtain ⟨rfl, hoffset, -⟩ := h
      simp [Activity.mover?, Use.mover?, Quest.mover?, hoffset]
    · obtain ⟨hoffset, -⟩ := h
      simp [Activity.mover?, Use.mover?, Quest.mover?, hoffset]
    · exact h.elim

theorem On.of_pursues {q : Quest} {s : Session} {a : Activity} (h : q.Pursues a) : q.On s a := by
  cases a with
  | start op => exact h.elim
  | _ => exact h

end Quest

namespace Session

variable {C : Contents} {s s' : Session} {t : Nat} {q : Quest} {e : Event}

/-! ### Apart from a task -/

/-- A task and its quest are left alone. -/
structure Apart (t : Nat) (q : Quest) (s s' : Session) : Prop extends Untouched t s s' where
  alone : ∀ u ∈ s'.tasks, u.id ≠ t → u.activity.mover? ≠ some q.stream
  fits : q.Fits s → q.Fits s'
  position : ∀ x, s.stream? q.stream = some x → ∃ y, s'.stream? q.stream = some y ∧ y.position = x.position

theorem Aside.apart {mv : Option Nat} (h : Aside mv s s') (hmv : mv ≠ some q.stream) (ht : t < s.nextTask)
    (halone : ∀ u ∈ s.tasks, u.id ≠ t → u.activity.mover? ≠ some q.stream) : Apart t q s s' := by
  obtain ⟨l, hl, hnew⟩ := h.tasks
  have hmem : ∀ u ∈ s'.tasks, u ∈ s.tasks ∨
      s.nextTask ≤ u.id ∧ (u.activity.mover? = none ∨ u.activity.mover? = mv) := fun u hu =>
    (List.mem_append.mp (hl ▸ hu)).imp_right (hnew u)
  refine ⟨h.untouched ht, fun u hu hid => ?_, fun hf => hf.aside h, fun x hx => ?_⟩
  · rcases hmem u hu with hu | ⟨-, hnone | hsome⟩
    · exact halone u hu hid
    · rw [hnone]
      nofun
    · rw [hsome]
      exact hmv
  · obtain ⟨y, hy, -, hpos⟩ := h.streams hx
    exact ⟨y, hy, hpos.resolve_left hmv⟩

theorem Ends.apart {i : Nat} {mv : Option Nat} {g : Option Quest} (h : Ends C i mv g s s') (hi : i ≠ t)
    (hmv : mv ≠ some q.stream) (ht : t < s.nextTask)
    (halone : ∀ u ∈ s.tasks, u.id ≠ t → u.activity.mover? ≠ some q.stream) : Apart t q s s' := by
  obtain ⟨d, hstops, hstreams⟩ := h.stops
  have hstream : ∀ x, s.stream? q.stream = some x → ∃ y, s'.stream? q.stream = some y ∧
      y.object = x.object ∧ y.position = x.position := fun x hx => by
    obtain ⟨y, hy, hobject, hpos⟩ := hstreams hx
    rw [if_neg hmv] at hpos
    exact ⟨y, hy, hobject, hpos⟩
  refine ⟨h.untouched hi ht, fun u hu hid => ?_, fun hf =>
    ⟨h.config ▸ hf.grid, handle?_of_extends h.cache hf.handle, ?_⟩, fun x hx => ?_⟩
  · by_cases hui : u.id = i
    · -- The task that ran may still move only what it could move before.
      cases hstops with
      | waits hm hmv' =>
        obtain rfl := eq_of_task_id h.sound.ids hu hm hui
        rcases hmv' with hnone | hsome
        · rw [hnone]
          nofun
        · rw [hsome]
          exact hmv
      | ends hno => exact absurd hui (hno u hu)
      | leaves hno => exact absurd hui (hno u hu)
    · rcases h.new u hu hui with hu | ⟨-, hnone⟩
      · exact halone u hu hid
      · rw [hnone]
        nofun
  · obtain ⟨x, hx, ho⟩ := hf.stream
    obtain ⟨y, hy, hobject, -⟩ := hstream x hx
    exact ⟨y, hy, hobject.trans ho⟩
  · obtain ⟨y, hy, -, hpos⟩ := hstream x hx
    exact ⟨y, hy, hpos⟩

/-- An event that does not move a stream leaves alone the task that reads for it, unless it lets the task run. -/
theorem Sound.apart_or_ends (h : s.Sound C none) (hfair : e.Fair C s) (hmv : e.mover? ≠ some q.stream)
    (ht : t < s.nextTask) (halone : ∀ u ∈ s.tasks, u.id ≠ t → u.activity.mover? ≠ some q.stream) :
    Apart t q s (s.step e) ∨ ∃ u ∈ s.tasks, u.id = t ∧
      (q.Fits s → q.On s u.activity → Ends C t u.activity.mover? (some q) s (s.step e)) := by
  rcases (h.step hfair).2 with ha | ⟨u, hu, hends⟩
  · exact Or.inl (ha.apart hmv ht halone)
  · by_cases hid : u.id = t
    · subst hid
      exact Or.inr ⟨u, hu, rfl, fun hfits hon => hends (some q) fun q' hq' => by cases hq'; exact ⟨hfits, hon⟩⟩
    · exact Or.inl ((hends none nofun).apart hid (halone u hu hid) ht halone)

/-! ### A read from its beginning to its end -/

/-- A task is on a quest, while its stream is at a position. -/
structure Underway (t : Nat) (q : Quest) (p : Nat) (s : Session) : Prop where
  lt : t < s.nextTask
  task : ∃ a, ⟨t, a⟩ ∈ s.tasks ∧ q.On s a
  alone : ∀ u ∈ s.tasks, u.id ≠ t → u.activity.mover? ≠ some q.stream
  ended : ∀ o, (t, o) ∉ s.ended
  fits : q.Fits s
  position : ∃ x, s.stream? q.stream = some x ∧ x.position = p

/-- A quest ended as it should, and the stream moved as far as it should. -/
structure Over (C : Contents) (t : Nat) (q : Quest) (p : Nat) (s : Session) : Prop where
  lt : t < s.nextTask
  gone : ∀ u ∈ s.tasks, u.id ≠ t
  alone : ∀ u ∈ s.tasks, u.id ≠ t → u.activity.mover? ≠ some q.stream
  ended : ∀ o, (t, o) ∈ s.ended → q.Yields C o ∧
    ∃ x, s.stream? q.stream = some x ∧ x.position = if q.mover? = some q.stream then p + o.length else p

variable {p : Nat}

theorem Underway.apart (h : Underway t q p s) (ha : Apart t q s s') : Underway t q p s' where
  lt := Nat.lt_of_lt_of_le h.lt ha.nextTask
  task := by
    obtain ⟨a, hm, hon⟩ := h.task
    exact ⟨a, ha.kept _ hm rfl, Quest.On.keep hon ha.position⟩
  alone := ha.alone
  ended o ho := h.ended o ((ha.ended o).mp ho)
  fits := ha.fits h.fits
  position := by
    obtain ⟨x, hx, hp⟩ := h.position
    obtain ⟨y, hy, hyx⟩ := ha.position x hx
    exact ⟨y, hy, hyx.trans hp⟩

theorem Over.apart (h : Over C t q p s) (ha : Apart t q s s') : Over C t q p s' where
  lt := Nat.lt_of_lt_of_le h.lt ha.nextTask
  gone u hu hid := h.gone u (ha.same u hu hid) hid
  alone := ha.alone
  ended o ho := by
    obtain ⟨hyields, x, hx, hp⟩ := h.ended o ((ha.ended o).mp ho)
    obtain ⟨y, hy, hyx⟩ := ha.position x hx
    exact ⟨hyields, y, hy, hyx.trans hp⟩

/-- When the task itself runs, its quest goes on or is over. -/
theorem Underway.ends (h : Underway t q p s) {a : Activity} (hon : q.On s a) (he : Ends C t a.mover? (some q) s s') :
    Underway t q p s' ∨ Over C t q p s' := by
  obtain ⟨d, hstops, hstreams⟩ := he.stops
  obtain ⟨x, hx, hp⟩ := h.position
  obtain ⟨y, hy, hobject, hpos⟩ := hstreams hx
  rw [hon.mover?, hp] at hpos
  have hlt := Nat.lt_of_lt_of_le h.lt he.nextTask
  have halone : ∀ u ∈ s'.tasks, u.id ≠ t → u.activity.mover? ≠ some q.stream := fun u hu hid => by
    rcases he.new u hu hid with hu | ⟨-, hnone⟩
    · exact h.alone u hu hid
    · rw [hnone]
      nofun
  cases hstops with
  | waits hm _ hg hended =>
    refine Or.inl ⟨hlt, ⟨_, hm, .of_pursues (hg q rfl)⟩, halone, fun o ho => h.ended o (hended ▸ ho), ?_, y, hy, ?_⟩
    · exact ⟨he.config ▸ h.fits.grid, handle?_of_extends he.cache h.fits.handle, y, hy,
        hobject.trans (h.fits.object_eq hx)⟩
    · rw [hpos]
      split <;> rfl
  | ends hno hg hended =>
    refine Or.inr ⟨hlt, hno, halone, fun o ho => ?_⟩
    rw [hended] at ho
    rcases List.mem_cons.mp ho with heq | ho
    · cases heq
      exact ⟨hg q rfl, y, hy, hpos⟩
    · exact absurd ho (h.ended o)
  | leaves _ hg => cases hg

theorem Underway.step (h : Underway t q p s) (hs : s.Sound C none) (hfair : e.Fair C s)
    (hmv : e.mover? ≠ some q.stream) : Underway t q p (s.step e) ∨ Over C t q p (s.step e) := by
  rcases hs.apart_or_ends hfair hmv h.lt h.alone with ha | ⟨u, hu, hid, hends⟩
  · exact Or.inl (h.apart ha)
  · obtain ⟨a, hm, hon⟩ := h.task
    obtain rfl := eq_of_task_id hs.ids hu hm hid
    exact h.ends hon (hends h.fits hon)

theorem Over.step (h : Over C t q p s) (hs : s.Sound C none) (hfair : e.Fair C s) (hmv : e.mover? ≠ some q.stream) :
    Over C t q p (s.step e) := by
  rcases hs.apart_or_ends hfair hmv h.lt h.alone with ha | ⟨u, hu, hid, -⟩
  · exact h.apart ha
  · exact absurd hid (h.gone u hu)

/-- Whatever happens, a quest is under way until it is over. -/
theorem Sound.underway_or_over (hs : s.Sound C none) (h : Underway t q p s ∨ Over C t q p s) {l : List Event}
    (hfair : FairRun C s l) (hmv : ∀ e ∈ l, e.mover? ≠ some q.stream) :
    Underway t q p (s.runEvents l) ∨ Over C t q p (s.runEvents l) := by
  induction l generalizing s with
  | nil => exact h
  | cons e l ih =>
    refine ih (hs.step hfair.1).1 ?_ hfair.2 fun e he => hmv e (List.mem_cons_of_mem _ he)
    rcases h with h | h
    · exact h.step hs hfair.1 (hmv e List.mem_cons_self)
    · exact Or.inr (h.step hs hfair.1 (hmv e List.mem_cons_self))

/-! ### What a read returns -/

theorem eq_of_allows_read {objects : String → Bytes} {key : String} {p n size : Nat} {b : Bytes}
    (h : (Contents.ofObjects objects).allows key (Span.clamp ⟨p, p + min n (size - p)⟩ size) b) :
    b.length = min n (size - p) ∧ b = (objects key).slice ⟨p, p + b.length⟩ := by
  obtain ⟨hlength, hbytes⟩ := h (by simp only [Span.clamp]; omega)
  have hn : b.length = min n (size - p) := by
    rw [hlength]
    simp only [Span.clamp, Span.length]
    omega
  refine ⟨hn, ?_⟩
  by_cases hp : p ≤ size
  · have hspan : Span.clamp ⟨p, p + min n (size - p)⟩ size = ⟨p, p + b.length⟩ := by
      rw [hn]
      unfold Span.clamp
      congr 1 <;> dsimp only <;> omega
    rwa [hspan] at hbytes
  · have hzero : b.length = 0 := by omega
    rw [List.length_eq_zero_iff.mp hzero]
    simp [Bytes.slice, Span.length]

theorem eq_of_allows_readTail {objects : String → Bytes} {key : String} {n size : Nat} {b : Bytes}
    (h : (Contents.ofObjects objects).allows key ((Span.tail size (min n size)).clamp size) b) :
    b.length = min n size ∧ b = (objects key).slice ⟨size - b.length, size⟩ := by
  have hspan : (Span.tail size (min n size)).clamp size = ⟨size - min n size, size⟩ := by
    unfold Span.tail Span.clamp
    congr 1 <;> dsimp only <;> omega
  rw [hspan] at h
  obtain ⟨hlength, hbytes⟩ := h (by dsimp only; omega)
  have hn : b.length = min n size := by
    rw [hlength]
    simp only [Span.length]
    omega
  exact ⟨hn, hn.symm ▸ hbytes⟩

theorem Sound.underway_start (hs : s.Sound C none) (hpos : 0 < s.config.store.blockSize) {x : Stream}
    (hx : s.stream? q.stream = some x) (hobject : q.object = x.object) (hhandle : s.handle? x.object = some q.handle)
    (op : Operation) (hop : q.Begins s op) (halone : ∀ u ∈ s.tasks, u.activity.mover? ≠ some q.stream) :
    Underway s.nextTask q x.position (s.step (.start op)) where
  lt := Nat.lt_succ_self _
  task := ⟨.start op, List.mem_append_right _ (List.mem_singleton_self _),
    Quest.On.keep (a := .start op) (s := s) hop fun y hy => ⟨y, hy, rfl⟩⟩
  alone u hu hid := by
    rcases List.mem_append.mp hu with hu | hu
    · exact halone u hu
    · rw [List.mem_singleton.mp hu] at hid
      exact absurd rfl hid
  ended o ho := Nat.lt_irrefl _ (hs.past _ ho)
  fits := ⟨hpos, hobject ▸ hhandle, x, hx, hobject.symm⟩
  position := ⟨x, hx, rfl⟩

/-- Whatever happens while a stream is read from, to this or to other streams and objects, and in whatever order
    requests are answered: the read returns the bytes that it should, and leaves the stream where it should.
    Whoever reads from a stream has it to himself, so that nobody else moves it meanwhile. -/
theorem reads_return {objects : String → Bytes} (hs : Reachable objects s) {id : Nat} {x : Stream}
    (hx : s.stream? id = some x) (halone : ∀ u ∈ s.tasks, u.activity.mover? ≠ some id) {op : Operation}
    (hop : ∃ n, op = .read id n ∨ op = .readTail id n) {l : List Event}
    (hl : HonestRun objects (s.step (.start op)) l) (hmv : ∀ e ∈ l, e.mover? ≠ some id) {o : Outcome}
    (ho : (s.nextTask, o) ∈ ((s.step (.start op)).runEvents l).ended) :
    ∃ y, ((s.step (.start op)).runEvents l).stream? id = some y ∧
      Returned (objects (s.key x.object)) (s.size x.object) x.position op o y.position := by
  obtain ⟨hsound, hpos⟩ := hs.sound
  have hstart : (s.step (.start op)).Sound (.ofObjects objects) none := hsound.spawn op
  -- The object of the stream is there.
  obtain ⟨z, hz⟩ : ∃ z, s.cache.stores[x.object]? = some z := by
    have hlt := hsound.within.streams x (mem_of_stream? hx)
    rw [hsound.footers] at hlt
    exact ⟨_, List.getElem?_eq_getElem hlt⟩
  have hhandle : s.handle? x.object = some z.handle := by simp [handle?, hz]
  rw [key_of_getElem? hz, size_of_getElem? hz]
  obtain ⟨n, rfl | rfl⟩ := hop
  · have hunder := hsound.underway_start
      (q := ⟨id, some x.position, min n (z.handle.size - x.position), x.object, z.handle⟩) hpos hx rfl hhandle (.read id n) ⟨rfl, x, hx, rfl, rfl⟩ halone
    rcases hstart.underway_or_over (Or.inl hunder) hl.fairRun hmv with h | h
    · exact absurd ho (h.ended o)
    · obtain ⟨hyields, y, hy, hp⟩ := h.ended o ho
      have hmoved : y.position = x.position + o.length := hp.trans (if_pos rfl)
      refine ⟨y, hy, hmoved ▸ ?_⟩
      rcases hyields with ⟨b, rfl, hb⟩ | ⟨f, rfl⟩
      · obtain ⟨hlength, hbytes⟩ := eq_of_allows_read hb
        exact .read hlength hbytes
      · exact .failed
  · have hunder := hsound.underway_start (q := ⟨id, none, min n z.handle.size, x.object, z.handle⟩)
      hpos hx rfl hhandle (.readTail id n) ⟨rfl, rfl, rfl⟩ halone
    rcases hstart.underway_or_over (Or.inl hunder) hl.fairRun hmv with h | h
    · exact absurd ho (h.ended o)
    · obtain ⟨hyields, y, hy, hp⟩ := h.ended o ho
      have hstays : y.position = x.position := hp.trans (if_neg (Ne.symm (Option.some_ne_none _)))
      refine ⟨y, hy, hstays ▸ ?_⟩
      rcases hyields with ⟨b, rfl, hb⟩ | ⟨f, rfl⟩
      · obtain ⟨hlength, hbytes⟩ := eq_of_allows_readTail hb
        exact .readTail hlength hbytes
      · exact .failed

/-- A stream over an object of four bytes reads the first three of them. -/
theorem reads_return_three :
    let s := (fresh {}).runEvents [.openSized "a" 4]
    let l : List Event := [.run 0, .run 0, .run 0, .answer 0 (.bytes [1, 2, 3, 4]) 0, .run 0, .run 0, .run 0]
    ∃ x, s.stream? 1 = some x ∧ (s.nextTask, .read [1, 2, 3]) ∈ ((s.step (.start (.read 1 3))).runEvents l).ended ∧
      ∃ y, ((s.step (.start (.read 1 3))).runEvents l).stream? 1 = some y ∧
        Returned [1, 2, 3, 4] (s.size x.object) x.position (.read 1 3) (.read [1, 2, 3]) y.position := by
  intro s l
  have hs : Reachable (fun _ => [1, 2, 3, 4]) s := ⟨{}, _, [.openSized "a" 4], rfl, ⟨trivial, trivial⟩, rfl⟩
  obtain ⟨x, hx⟩ : ∃ x, s.stream? 1 = some x := Option.isSome_iff_exists.mp (by decide +kernel)
  have hcalls : (((s.step (.start (.read 1 3))).runEvents [.run 0, .run 0, .run 0]).calls[0]?) =
      some ⟨0, .fetch "a" ⟨0, 4⟩⟩ := by decide +kernel
  have hl : HonestRun (fun _ => [1, 2, 3, 4]) (s.step (.start (.read 1 3))) l := by
    refine ⟨trivial, trivial, trivial, fun task key span hcall _ => ?_, trivial, trivial, trivial, trivial⟩
    cases hcalls.symm.trans hcall
    rfl
  have ho : (s.nextTask, .read [1, 2, 3]) ∈ ((s.step (.start (.read 1 3))).runEvents l).ended := by decide +kernel
  exact ⟨x, hx, ho, reads_return hs hx (by decide +kernel) ⟨3, Or.inl rfl⟩ hl (by decide) ho⟩

end Session

end RangeCache
