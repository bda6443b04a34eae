import RangeCache.Proofs.Session.Progress
import RangeCache.Proofs.Session.Toll

/-!
# Operations succeed

No past failure makes anything unreadable for good. Whatever happened to a session: when from some point on the calls that
come back bring what was asked for, and nothing is rejected, each operation of an open stream ends well
(`operations_succeed`). It cannot end otherwise (`Sound.thrives_or_succeeded`), and it cannot go on for ever: while it
goes on something is due (`Live.exists_due`), and each thing that happens leaves less to do (`Sound.toll_step`).
-/

namespace RangeCache

namespace Session

/-- A session with a sound configuration, after anything that may have happened to it. -/
def Reached (s : Session) : Prop := ∃ config s₀ l, new config = .ok s₀ ∧ s₀.runEvents l = s

/-- In whatever order the things happen that are due, as long as all goes well it comes to pass in the end. -/
inductive Inevitable (p : Session → Prop) : Session → Prop
  | now {s : Session} (h : p s) : Inevitable p s
  | later {s : Session} (hdue : ∃ e : Event, e.Due s)
      (hall : ∀ e : Event, e.Due s → e.Smooth s → Inevitable p (s.step e)) : Inevitable p s

/-- What holds of a session whatever happens to it. -/
structure Live (s : Session) : Prop where
  sound : s.Sound .any none
  backs : s.cache.Backs s.tasks
  fetches : 1 ≤ s.config.queue.maxFetches
  fetchesPerObject : 1 ≤ s.config.queue.maxFetchesPerObject

variable {s : Session} {t id : Nat}

theorem Live.step (h : Live s) (e : Event) : Live (s.step e) := by
  have hfair := fairRun_any s [e]
  have hconfig : (s.step e).config = s.config := config_runEvents h.sound hfair
  refine ⟨(h.sound.step hfair.1).1, h.sound.backs_step h.backs e, ?_, ?_⟩ <;> rw [hconfig]
  · exact h.fetches
  · exact h.fetchesPerObject

theorem Live.runEvents (h : Live s) (l : List Event) : Live (s.runEvents l) := by
  induction l generalizing s with
  | nil => exact h
  | cons e l ih => exact ih (h.step e)

theorem Reached.live (h : Reached s) : Live s := by
  obtain ⟨config, s₀, l, hnew, rfl⟩ := h
  obtain ⟨rfl, hbounds⟩ := new_eq_ok hnew
  refine Live.runEvents ⟨sound_fresh .any config, ⟨fun _ _ hn => absurd hn (Nat.lt_irrefl 0), nofun⟩, ?_, ?_⟩ l
  · exact hbounds.fetches
  · exact hbounds.fetchesPerObject

/-- As long as there is something to do, something is due. -/
theorem Live.exists_due (h : Live s) {u : Task} (hu : u ∈ s.tasks) : ∃ e : Event, e.Due s := by
  by_cases hidle : s.runnable = []
  · rcases h.sound.waitsOutside hidle h.fetches h.fetchesPerObject hu with ⟨call, hcall, -⟩ | ⟨x, hx, -⟩
    · exact ⟨.answer 0 default 0, List.length_pos_of_mem hcall⟩
    · exact ⟨.tick, List.ne_nil_of_mem hx⟩
  · exact ⟨.run 0, List.length_pos_iff.mpr hidle⟩

/-- An operation that goes well comes to an end. -/
theorem Live.inevitable (h : Live s) (hgoes : Thrives t id s ∨ Succeeded t s) :
    Inevitable (fun s => ∃ o, (t, o) ∈ s.ended ∧ o.Succeeds) s := by
  induction hn : s.toll using WellFoundedLT.induction generalizing s with
  | ind n ih =>
    rcases hgoes with hthrives | hover
    · obtain ⟨a, hm, -⟩ := hthrives.task
      refine .later (h.exists_due hm) fun e hdue he => ?_
      have hclose : .close id ∉ [e] := fun hmem => by
        rw [← List.mem_singleton.mp hmem] at hdue
        exact hdue
      exact ih _ (hn ▸ h.sound.toll_step h.backs hdue he) (h.step e)
        (h.sound.thrives_or_succeeded h.backs (Or.inl hthrives) (l := [e]) ⟨he, trivial⟩ hclose) rfl
    · obtain ⟨o, ho⟩ := hover.ended
      exact .now ⟨o, ho, hover.succeeds o ho⟩

/-- An operation of an open stream goes well when it starts. -/
theorem Sound.thrives_start (h : s.Sound .any none) {x : Stream} (hx : s.stream? id = some x) (hopen : x.closed = false)
    {op : Operation} (hop : op.stream? = some id) : Thrives s.nextTask id (s.step (.start op)) where
  lt := Nat.lt_succ_self _
  task := ⟨.start op, List.mem_append_right _ (List.mem_singleton_self _), hop, x, hx, hopen⟩
  ended _ ho := Nat.lt_irrefl _ (h.past _ ho)

/-- Whatever happened before, of fetches that failed, were cancelled or rejected, of footers that could not be loaded or
    are none, of blocks that were evicted: from then on, if the calls that come back bring what was asked for and nothing
    is rejected, each operation of a stream that is open and stays so ends, and it ends well. It does not matter what
    else is asked of the session meanwhile, as long as what is due gets to happen. -/
theorem operations_succeed (hs : Reached s) {x : Stream} (hx : s.stream? id = some x) (hopen : x.closed = false) :
    (∀ p ≤ s.size x.object, (Event.seek id p).Smooth s → (s.seek id p).2 = .done) ∧
      ∀ op : Operation, op.stream? = some id → ∀ l, SmoothRun (s.step (.start op)) l → .close id ∉ l →
        (∀ o, (s.nextTask, o) ∈ ((s.step (.start op)).runEvents l).ended → o.Succeeds) ∧
          Inevitable (fun s' => ∃ o, (s.nextTask, o) ∈ s'.ended ∧ o.Succeeds) ((s.step (.start op)).runEvents l) := by
  have hlive := hs.live
  refine ⟨fun p hp he => hlive.sound.seek_eq_done hx hopen hp he.granted, fun op hop l hl hclose => ?_⟩
  have hstart := hlive.step (.start op)
  have hgoes := hstart.sound.thrives_or_succeeded hstart.backs
    (Or.inl (hlive.sound.thrives_start hx hopen hop)) hl hclose
  refine ⟨fun o ho => ?_, (hstart.runEvents l).inevitable hgoes⟩
  rcases hgoes with hthrives | hover
  · exact absurd ho (hthrives.ended o)
  · exact hover.succeeds o ho

/-- A read fails since its fetch is denied. After that the stream can be sought, and the same read succeeds. -/
theorem operations_succeed_denied :
    let s := (fresh {}).runEvents [.openSized "a" 4, .start (.read 1 3), .run 0, .run 0, .run 0,
      .answer 0 (.failed (.accessDenied "a")) 0, .run 0, .run 0, .run 0]
    let l : List Event := [.run 0, .run 0, .run 0, .answer 0 (.bytes [1, 2, 3, 4]) 0, .run 0, .run 0]
    (1, .failed (.permanentFetch "a" ⟨0, 4⟩ "access denied: a")) ∈ s.ended ∧ (s.seek 1 2).2 = .done ∧
      SmoothRun (s.step (.start (.read 1 3))) l ∧
      (s.nextTask, .read [1, 2, 3]) ∈ ((s.step (.start (.read 1 3))).runEvents l).ended ∧
      (Outcome.read [1, 2, 3]).Succeeds ∧
      Inevitable (fun s' => ∃ o, (s.nextTask, o) ∈ s'.ended ∧ o.Succeeds) (s.step (.start (.read 1 3))) := by
  intro s l
  have hs : Reached s := ⟨{}, _, _, rfl, rfl⟩
  obtain ⟨x, hx⟩ : ∃ x, s.stream? 1 = some x := Option.isSome_iff_exists.mp (by decide +kernel)
  have hopen : x.closed = false := by
    have : ((s.stream? 1).map (·.closed)) = some false := by decide +kernel
    simpa [hx] using this
  have hsize : 2 ≤ s.size x.object := by
    have : ((s.stream? 1).map fun x => decide (2 ≤ s.size x.object)) = some true := by decide +kernel
    simpa [hx] using this
  have hl : SmoothRun (s.step (.start (.read 1 3))) l := by decide +kernel
  have ho : (s.nextTask, .read [1, 2, 3]) ∈ ((s.step (.start (.read 1 3))).runEvents l).ended := by decide +kernel
  obtain ⟨hseek, hop⟩ := operations_succeed hs hx hopen
  refine ⟨by decide +kernel, hseek 2 hsize (by decide +kernel), hl, ho, ?_, ?_⟩
  · exact (hop (.read 1 3) rfl l hl (by decide)).1 _ ho
  · exact (hop (.read 1 3) rfl [] trivial (by simp)).2

end Session

end RangeCache
