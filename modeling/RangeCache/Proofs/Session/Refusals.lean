import RangeCache.Proofs.Cache.Backlog
import RangeCache.Proofs.Cache.Hits
import RangeCache.Proofs.Cache.Widened
import RangeCache.Proofs.Planner.Runs
import RangeCache.Proofs.Session.Blocks
import RangeCache.Proofs.Session.Faults

/-!
# Plans that are refused

A seek and a read apply a plan before anything else. Only the plan for declared columns asks for spans at immediate
priority, and so it is the only plan that can be refused, when the queue is full (`Refused`). A seek has moved its
stream by then: one that fails leaves the stream where it was only if it is closed or the position lies beyond the
object (`seek_ran`). A read of bytes that are all there has them at once, unless its plan is refused (`read_ran`).
-/

namespace RangeCache

/-! ### Plans -/

theorem Plan.priority_of_mem {l : List Span} {p : Priority} {e : PlanEntry} (he : e ∈ entriesFor l p) :
    e.priority = p := by
  obtain ⟨t, -, rfl⟩ := List.mem_map.mp he
  rfl

theorem Plan.immediate_eq_nil {plan : Plan} (h : ∀ e ∈ plan.entries, e.priority = .speculative) :
    plan.spans .immediate = [] := by
  refine List.map_eq_nil_iff.mpr (List.filter_eq_nil_iff.mpr fun e he => ?_)
  rw [h e he]
  nofun

namespace Planner

variable {p : Planner} {offset : Nat}

theorem immediate_chunksPlan (p : Planner) (l : Layout) (kind : PlanKind) (group : Nat) (columns : List Nat) :
    (p.chunksPlan l kind group columns .speculative).spans .immediate = [] := by
  refine Plan.immediate_eq_nil fun e he => ?_
  unfold chunksPlan at he
  dsimp only at he
  split at he
  · rcases List.mem_append.mp he with he | he
    · exact Plan.priority_of_mem he
    · exact Plan.priority_of_mem he
  · exact Plan.priority_of_mem he

theorem immediate_predictivePlan? {recent : List String} {plan : Plan}
    (h : p.predictivePlan? recent offset = some plan) : plan.spans .immediate = [] := by
  unfold predictivePlan? at h
  split at h
  · cases h
  · obtain ⟨l, -, h⟩ := Option.bind_eq_some_iff.mp h
    dsimp only at h
    split at h
    · cases h
    · obtain ⟨g, -, h⟩ := Option.bind_eq_some_iff.mp h
      cases h
      exact immediate_chunksPlan p l _ _ _

theorem immediate_sequentialPlan (p : Planner) (stop : Nat) : (p.sequentialPlan stop).spans .immediate = [] := by
  refine Plan.immediate_eq_nil fun e he => ?_
  unfold sequentialPlan at he
  dsimp only at he
  split at he
  · cases he
  · split at he
    · cases he
    · exact Plan.priority_of_mem he

/-- Without declared columns in the row group at hand, nothing is asked for at immediate priority. -/
theorem immediate_onRead (h : p.columnPlan? offset = none) (recent : List String) (n : Nat) :
    (p.onRead recent offset n).2.spans .immediate = [] := by
  rw [snd_onRead, h, Option.none_or]
  cases hplan : p.predictivePlan? recent offset with
  | none => exact immediate_sequentialPlan _ _
  | some plan => exact immediate_predictivePlan? hplan

theorem immediate_onSeek (h : p.columnPlan? offset = none) (recent : List String) :
    (p.onSeek recent offset).2.spans .immediate = [] := by
  rw [snd_onSeek, h, Option.none_or]
  cases hplan : p.predictivePlan? recent offset with
  | none => rfl
  | some plan => exact immediate_predictivePlan? hplan

end Planner

namespace Session

/-- An operation of a stream failed because the queue was full when it asked for declared columns at an offset. -/
structure Refused (s s' : Session) (x : Stream) (offset : Nat) (f : Fault) : Prop where
  full : f.IsFull
  columns : x.planner.columnPlan? offset ≠ none
  rejected : s.cache.queue.rejected < s'.cache.queue.rejected

variable {C : Contents} {s s' : Session} {cur : Option Turn} {x : Stream} {plan : Plan} {f : Fault}

/-! ### What plans are refused -/

section Plans

theorem ensurePlan_speculative (s : Session) (x : Stream) (plan : Plan) :
    (s.ensurePlan x plan .speculative).2 = .ok () := by
  unfold ensurePlan
  split
  · rfl
  · obtain ⟨k, hk⟩ := s.cache.exists_ensure_eq_ok x.object (plan.spans .speculative)
      (if plan.kind.isExact then .exact else .grid) (some x.id)
    show Except.map _ (s.cache.ensure x.object (plan.spans .speculative) _ .speculative (some x.id)).2 = _
    rw [hk]
    rfl

theorem fault_of_ensurePlan {priority : Priority} (h : (s.ensurePlan x plan priority).2 = .error f) :
    f.IsFull ∧ plan.spans priority ≠ [] := by
  unfold ensurePlan at h
  split at h
  · cases h
  · rename_i hne
    generalize (if plan.kind.isExact then Fit.exact else Fit.grid) = fit at h
    have hmap : Except.map (fun _ => ()) (s.cache.ensure x.object (plan.spans priority) fit priority (some x.id)).2 =
        .error f := h
    cases hensure : (s.cache.ensure x.object (plan.spans priority) fit priority (some x.id)).2 with
    | ok k =>
      rw [hensure] at hmap
      cases hmap
    | error e =>
      rw [hensure] at hmap
      cases hmap
      exact ⟨Cache.isFull_of_dispatch hensure, hne⟩

theorem fault_of_applyPlan (h : (s.applyPlan x plan).2 = .error f) : f.IsFull ∧ plan.spans .immediate ≠ [] := by
  unfold applyPlan at h
  dsimp only at h
  split at h <;> rename_i heq
  · cases h
    exact fault_of_ensurePlan (congrArg Prod.snd heq)
  · rw [ensurePlan_speculative] at h
    cases h

/-- A plan that asks for nothing at immediate priority is not refused. -/
theorem Sound.refused_of_replan (h : s.Sound C cur) (g : Planner → Planner × Plan) (offset : Nat)
    (hg : x.planner.columnPlan? offset = none → (g x.planner).2.spans .immediate = [])
    (hf : (s.replan x g).2 = .error f) : Refused s (s.replan x g).1 x offset f := by
  obtain ⟨hfull, hspans⟩ := fault_of_applyPlan hf
  obtain ⟨hcalm, hok⟩ := h.grants_replan x g
  refine ⟨hfull, fun hnone => hspans (hg hnone), Nat.lt_of_le_of_ne hcalm.harmless.rejected fun heq => ?_⟩
  rw [hok heq.symm] at hf
  cases hf

end Plans

/-! ### Seeks -/

section Seeks
variable {id : Nat}

/-- A seek finds the stream closed or the position beyond the object, and then does nothing, or it moves the stream and
    then applies a plan, which may be refused. -/
theorem Sound.seek_cases (h : s.Sound C cur) (hx : s.stream? id = some x) (position : Nat) :
    (x.closed = true ∨ s.size x.object < position) ∧ (∃ f, s.seek id position = (s, .failed f)) ∨
      (∃ y, (s.seek id position).1.stream? id = some y ∧ y.position = position) ∧
        ((s.seek id position).2 = .done ∨
          ∃ f, (s.seek id position).2 = .failed f ∧ Refused s (s.seek id position).1 x position f) := by
  unfold Session.seek
  rw [hx]
  dsimp only
  split
  · rename_i hclosed
    exact Or.inl ⟨Or.inl hclosed, _, rfl⟩
  · split
    · rename_i hlt
      exact Or.inl ⟨Or.inr hlt, _, rfl⟩
    · right
      have hs := h.modifyStream id (f := fun y => { y with position }) fun _ => rfl
      have hcache : (s.modifyStream id fun y => { y with position }).cache = s.cache := rfl
      have hmoved : (s.modifyStream id fun y => { y with position }).stream? id = some { x with position } := by
        rw [stream?_modifyStream s id (f := fun y => { y with position }) fun _ => rfl, hx, Option.map_some,
          if_pos (id_of_stream? hx)]
      generalize s.modifyStream id (fun y => { y with position }) = s₁ at hs hcache hmoved ⊢
      have hstreams := (hs.replan x fun p => p.onSeek s₁.recent.paths position).2.streams hmoved
      have hrefused := fun f => hs.refused_of_replan (x := x) (f := f) (fun p => p.onSeek s₁.recent.paths position)
        position fun hnone => Planner.immediate_onSeek hnone _
      split <;> rename_i heq <;> rw [heq] at hstreams hrefused <;> obtain ⟨y, hy, -, hposition⟩ := hstreams
      · exact ⟨⟨y, hy, hposition.resolve_left nofun⟩, Or.inl rfl⟩
      · rename_i f
        exact ⟨⟨y, hy, hposition.resolve_left nofun⟩, Or.inr ⟨f, rfl, { hrefused f rfl with
          rejected := hcache ▸ (hrefused f rfl).rejected }⟩⟩

/-- Whatever happened to a session, a seek that fails because the stream is closed or the position lies beyond the
    object changes nothing. Any other seek leaves the stream at the position, whether it goes well or its plan is
    refused; and without declared columns at the position it goes well. -/
theorem seek_ran (config : Config) (l : List Event) (hx : (ran config l).stream? id = some x) (position : Nat) :
    let s := ran config l
    let r := s.seek id position
    (∀ f, r.2 = .failed f → (x.closed = true ∨ s.size x.object < position) ∧ r.1 = s ∨
      Refused s r.1 x position f ∧ ∃ y, r.1.stream? id = some y ∧ y.position = position) ∧
    (x.closed = false → position ≤ s.size x.object →
      (∃ y, r.1.stream? id = some y ∧ y.position = position) ∧
        (x.planner.columnPlan? position = none → r.2 = .done)) := by
  intro s r
  rcases (shapely_ran config l).sound.seek_cases hx position with ⟨hnot, f, hf⟩ | ⟨hmoved, hends⟩
  · refine ⟨fun _ _ => Or.inl ⟨hnot, congrArg Prod.fst hf⟩, fun hopen hle => ?_⟩
    rcases hnot with hclosed | hlt
    · rw [hopen] at hclosed
      cases hclosed
    · exact absurd hle (Nat.not_le.mpr hlt)
  · refine ⟨fun f hf => ?_, fun _ _ => ⟨hmoved, fun hnone => ?_⟩⟩
    · rcases hends with hdone | ⟨g, hg, hrefused⟩
      · cases hdone.symm.trans hf
      · cases hg.symm.trans hf
        exact Or.inr ⟨hrefused, hmoved⟩
    · rcases hends with hdone | ⟨g, -, hrefused⟩
      · exact hdone
      · exact absurd hnone hrefused.columns

/-- One fetch may be on its way and one may wait, and only what a read or a declaration asks for is fetched. -/
def tight : Config where
  store := { blockSize := 100, memoryBudget := 10 }
  queue := { maxFetches := 1, maxFetchesPerObject := 1, maxQueued := 1 }
  footer := { tailPrefetch := 79, prefetchOnOpen := false, prefetchPageIndex := false }
  registry := { prefetchSmall := false }

/-- A stream of an object with one column chunk, at the bytes from 4 to 14, declares the column and reads 4 of the 5
    bytes that are there. Then two other objects are read whole, so that one fetch is on its way and one waits, and the
    stream is about to read the fifth byte. -/
def crowded : List Event := [
  .openSized "a" 93, .openSized "b" 5, .openSized "c" 5,
  .start (.declare 1 [0]), .run 0, .run 0,
  .answer 0 (.bytes [
    21, 2, 25, 44, 72, 6, 115, 99, 104, 101, 109, 97, 21, 2, 0, 21, 4, 37, 0, 24, 2, 99, 48, 0, 22, 200, 1, 25, 28, 25,
    28, 38, 0, 28, 21, 4, 25, 21, 0, 25, 24, 1, 120, 21, 0, 22, 200, 1, 22, 20, 22, 20, 38, 8, 0, 0, 22, 0, 22, 200, 1,
    0, 40, 6, 111, 114, 97, 99, 108, 101, 0, 71, 0, 0, 0, 80, 65, 82, 49]) 0, .run 0, .run 0,
  .start (.readSpan 0 ⟨0, 5⟩ .exact none), .run 0, .run 0, .answer 0 (.bytes [1, 2, 3, 4, 5]) 0, .run 0, .run 0,
  .start (.read 1 4), .run 0,
  .start (.readSpan 1 ⟨0, 5⟩ .exact none), .start (.readSpan 2 ⟨0, 5⟩ .exact none), .run 0, .run 0,
  .start (.read 1 1)]

/-- The queue is full, and so a seek to declared bytes fails; the stream moved all the same. -/
theorem moved_by_refused_seek :
    let s := ran tight crowded
    let r := s.seek 1 8
    (s.stream? 1).map (·.position) = some 4 ∧ r.2 = .failed (.capacityExceeded 1 1) ∧
      (r.1.stream? 1).map (·.position) = some 8 := by
  decide +kernel

end Seeks

/-! ### Reads -/

section Reads
variable {id t : Nat} {o : Outcome} {y : Store}

theorem retains_onCache {α : Type} {g : Cache → Cache × α} (h : s.cache.Retains (g s.cache).1) :
    s.cache.Retains (s.onCache g).1.cache := by
  rw [cache_onCache]
  exact h

theorem retains_ensurePlan (s : Session) (x : Stream) (plan : Plan) (priority : Priority) :
    s.cache.Retains (s.ensurePlan x plan priority).1.cache := by
  unfold ensurePlan
  split
  · exact .refl s.cache
  · generalize (if plan.kind.isExact then Fit.exact else Fit.grid) = fit
    exact retains_onCache (g := fun c => c.ensure x.object (plan.spans priority) fit priority (some x.id))
      (Cache.retains_ensure x.object (plan.spans priority) fit priority (some x.id))

theorem retains_replan (s : Session) (x : Stream) (g : Planner → Planner × Plan) :
    s.cache.Retains (s.replan x g).1.cache := by
  have hcancel : s.cache.Retains
      ((s.modifyStream x.id fun y => { y with planner := (g x.planner).1 }).onCache fun c => c.cancel x.id).1.cache :=
    retains_onCache (s := s.modifyStream x.id _) (g := fun c => c.cancel x.id) (Cache.retains_cancel x.id)
  unfold replan applyPlan
  dsimp only
  generalize ((s.modifyStream x.id fun y => { y with planner := (g x.planner).1 }).onCache
    fun c => c.cancel x.id).1 = s₁ at hcancel ⊢
  have hfirst := hcancel.trans (retains_ensurePlan s₁ x (g x.planner).2 .immediate)
  split <;> rename_i heq <;> rw [heq] at hfirst
  · exact hfirst
  · exact hfirst.trans (retains_ensurePlan _ x (g x.planner).2 .speculative)

/-- How a read of bytes that are there ends: with all of them, unless its plan is refused. -/
def EndsAtOnce (s s' : Session) (t : Nat) (x : Stream) (offset n : Nat) : Prop :=
  (∃ b : Bytes, b.length = n ∧ s'.ended = (t, .read b) :: s.ended) ∨
    ∃ f, s'.ended = (t, .failed f) :: s.ended ∧ Refused s s' x offset f

/-- Once its plan is applied, a read of bytes that are there does not wait. -/
theorem Sound.ended_reading (h : s.Sound .sized cur) (hx : s.stream? id = some x)
    (hy : s.cache.stores[x.object]? = some y) (hgrid : 0 < s.config.store.blockSize) {offset n : Nat}
    (hle : offset + n ≤ y.handle.size) (hhas : y.Has ⟨offset, offset + n⟩) (t : Nat) :
    ∃ b : Bytes, b.length = n ∧ (s.reading t (.stream id offset)
      (fun c => c.beginRead x.object ⟨offset, offset + n⟩ .grid (some id))
      fun s r => s.afterStream t id offset r).ended = (t, .read b) :: s.ended := by
  have hclamp : Span.clamp ⟨offset, offset + n⟩ y.handle.size = ⟨offset, offset + n⟩ :=
    Span.clamp_eq_self (Nat.le_add_right _ _) hle
  obtain ⟨b, hb, hlength⟩ := Cache.beginRead_of_has h.cache hy (h.grids hy ▸ hgrid) (hclamp.symm ▸ hhas) .grid
    (some id)
  rw [hclamp, Span.length, Nat.add_sub_cancel_left] at hlength
  refine ⟨b, hlength, ?_⟩
  have hread : (s.onCache fun c => c.beginRead x.object ⟨offset, offset + n⟩ .grid (some id)).2 = .done (.ok b) := hb
  have haside := h.aside_onCache (f := fun c => c.beginRead x.object ⟨offset, offset + n⟩ .grid (some id))
    (Cache.moves_beginRead h.cache.stores ..)
  unfold reading
  generalize (s.onCache fun c => c.beginRead x.object ⟨offset, offset + n⟩ .grid (some id)) = begun at hread haside ⊢
  obtain ⟨s₁, progress⟩ := begun
  dsimp only at hread haside
  subst hread
  obtain ⟨z, hz, -⟩ := haside.streams hx
  dsimp only
  unfold afterStream
  dsimp only
  rw [hz]
  have hcalm := calm_recordColumn (s₁.modifyStream id fun t => { t with position := t.position + b.length }) z offset
  exact congrArg ((t, Outcome.read b) :: ·) (hcalm.ended.trans haside.ended)

theorem Sound.ended_pursue_read (h : s.Sound .sized cur) (hx : s.stream? id = some x)
    (hy : s.cache.stores[x.object]? = some y) (hgrid : 0 < s.config.store.blockSize) {offset n : Nat}
    (hle : offset + n ≤ y.handle.size) (hhas : y.Has ⟨offset, offset + n⟩) (t : Nat) :
    EndsAtOnce s (s.pursue t (.read id offset n)) t x offset n := by
  obtain ⟨hs, haside⟩ := h.replan x fun p => p.onRead s.recent.paths offset n
  obtain ⟨-, hretained⟩ := retains_replan s x (fun p => p.onRead s.recent.paths offset n) h.cache.stores
  have hrefused := fun f => h.refused_of_replan (x := x) (f := f) (fun p => p.onRead s.recent.paths offset n) offset
    fun hnone => Planner.immediate_onRead hnone _ _
  obtain ⟨y', hy', hyy'⟩ := hretained hy
  obtain ⟨x', hx', hobject, -⟩ := haside.streams hx
  unfold pursue
  dsimp only
  rw [hx]
  dsimp only
  split <;> rename_i heq <;> rw [heq] at hs haside hrefused hy' hx'
  · rename_i f
    exact Or.inr ⟨f, congrArg ((t, Outcome.failed f) :: ·) haside.ended, { hrefused f rfl with }⟩
  · obtain ⟨b, hlength, hended⟩ := hs.ended_reading hx' (hobject ▸ hy') (haside.config ▸ hgrid) (hyy'.handle ▸ hle)
      (hhas.retains hyy') t
    rw [hobject] at hended
    exact Or.inl ⟨b, hlength, hended.trans (congrArg _ haside.ended)⟩

/-- Where a task leaves its stream whose operation ended. -/
theorem Ends.exists_position (h : Ends C t (some id) none s s') (hended : s'.ended = (t, o) :: s.ended)
    (hx : s.stream? id = some x) : ∃ y, s'.stream? id = some y ∧ y.position = x.position + o.length := by
  obtain ⟨d, hstops, hstreams⟩ := h.stops
  obtain ⟨y, hy, -, hposition⟩ := hstreams hx
  refine ⟨y, hy, ?_⟩
  rw [hposition, if_pos rfl]
  cases hstops with
  | waits ht hmv hg he => exact absurd (he.symm.trans hended) (List.cons_ne_self _ _).symm
  | ends ht hg he =>
    cases he.symm.trans hended
    rfl
  | leaves ht hg he => exact absurd (he.symm.trans hended) (List.cons_ne_self _ _).symm

/-- A read begins that knows about the footer as much as it wants to. -/
theorem Sound.ended_begin_read (h : s.Sound .sized cur) (hx : s.stream? id = some x) (hopen : x.closed = false)
    (hsettled : x.settled = true) (hy : s.cache.stores[x.object]? = some y) (hgrid : 0 < s.config.store.blockSize)
    {length : Nat} (hhas : y.Has ⟨x.position, x.position + min length (y.handle.size - x.position)⟩) (t : Nat) :
    EndsAtOnce s (s.begin t (.read id length)) t x x.position (min length (y.handle.size - x.position)) := by
  have hsize : s.size x.object = y.handle.size := size_of_getElem? hy
  unfold Session.begin onStream
  dsimp only
  rw [hx]
  dsimp only
  rw [hopen, if_neg (by simp), hsize]
  split
  · rename_i hnone
    exact Or.inl ⟨[], hnone.symm, rfl⟩
  · rename_i hsome
    unfold syncFooter
    rw [if_pos hsettled]
    exact h.ended_pursue_read hx hy hgrid (by omega) hhas t

/-- Whatever happened to a session: when a read of an open stream begins, and the stream knows of the footer what can be
    known, and all bytes that it is to bring are there, then it ends at once. It brings them all, and the stream moves
    to their end; or its plan is refused, and the stream stays where it is. Without declared columns at the position
    the plan is not refused. -/
theorem read_ran (config : Config) (hgrid : 1 ≤ config.store.blockSize) (l : List Event) {i length : Nat}
    (hi : (ran config l).runnable[i]? = some t) (ht : (ran config l).task? t = some ⟨t, .start (.read id length)⟩)
    (hx : (ran config l).stream? id = some x) (hopen : x.closed = false) (hsettled : x.settled = true)
    (hy : (ran config l).cache.stores[x.object]? = some y)
    (hhas : y.Has ⟨x.position, x.position + min length (y.handle.size - x.position)⟩) :
    let s := ran config l
    let s' := s.step (.run i)
    (∃ b : Bytes, b.length = min length (y.handle.size - x.position) ∧ s'.ended = (t, .read b) :: s.ended ∧
      ∃ z, s'.stream? id = some z ∧ z.position = x.position + b.length) ∨
    ∃ f, s'.ended = (t, .failed f) :: s.ended ∧ Refused s s' x x.position f ∧
      ∃ z, s'.stream? id = some z ∧ z.position = x.position := by
  intro s s'
  have hsound : s.Sound .sized none := (sound_fresh .sized config).runEvents (fairRun_sized _ l)
  have hmem := (mem_of_task?_eq_some ht).1
  have hends : EndsAtOnce s s' t x x.position (min length (y.handle.size - x.position)) ∧
      Ends .sized t (some id) none s s' := by
    rcases exists_runAt s i with ⟨hnone, -⟩ | ⟨k, r, hk, -, hr, ⟨hno, -⟩ | ⟨u, hu, he⟩⟩
    · cases hnone.symm.trans hi
    · cases hk.symm.trans hi
      cases hno.symm.trans ht
    · cases hk.symm.trans hi
      cases hu.symm.trans ht
      have hpick := hsound.pick_of hmem hr s.calls (.refl _) nofun
      have hconfig : s.config = config := config_ran config l
      rw [show s' = _ from he]
      refine ⟨?_, hsound.ends_proceed hmem hr nofun⟩
      rcases hpick.ended_begin_read hx hopen hsettled hy (hconfig.symm ▸ hgrid) hhas t with h | ⟨f, hended, hrefused⟩
      · exact Or.inl h
      · exact Or.inr ⟨f, hended, { hrefused with }⟩
  obtain ⟨hstep, hends⟩ := hends
  rcases hstep with ⟨b, hlength, hended⟩ | ⟨f, hended, hrefused⟩
  · exact Or.inl ⟨b, hlength, hended, hends.exists_position hended hx⟩
  · exact Or.inr ⟨f, hended, hrefused, hends.exists_position hended hx⟩

/-- The queue is full, and so a read of one byte fails for the declared bytes behind it; the byte was there. -/
theorem refused_read_of_ready :
    let s := ran tight crowded
    let s' := s.step (.run 1)
    (s.stream? 1).map (fun x => (x.position, x.closed, x.settled)) = some (4, false, true) ∧
      (s.cache.stores[0]?).map (fun y => y.blocks.any fun b => b.state.isReady && decide (4 ∈ b.span)) = some true ∧
      s.runnable[1]? = some 8 ∧ s.task? 8 = some ⟨8, .start (.read 1 1)⟩ ∧
      s'.ended = (8, .failed (.capacityExceeded 1 1)) :: s.ended := by
  decide +kernel

end Reads

end Session

end RangeCache
