import RangeCache.Proofs.Session.Sound

/-!
# Hearing of the cache

Whatever is done to the cache of a session, the session hears of it: the tasks that wait for a block that
has no owner any longer go on, and each job that was started gets a task. So a session stays sound when its
cache moves (`Sound.hearAll`).
-/

namespace RangeCache

namespace Session

/-- The tasks that carry out jobs, numbered from a number on. -/
def spawned : Nat → List Job → List Task
  | _, [] => []
  | n, j :: r => ⟨n, .errand (.job j) 1 .due⟩ :: spawned (n + 1) r

section Spawned
variable {n : Nat} {l : List Job} {t : Task}

theorem mem_spawned (h : t ∈ spawned n l) :
    n ≤ t.id ∧ t.id < n + l.length ∧ ∃ j, t.activity = .errand (.job j) 1 .due := by
  induction l generalizing n with
  | nil => cases h
  | cons j r ih =>
    rw [List.length_cons]
    rcases List.mem_cons.mp h with rfl | h
    · exact ⟨Nat.le_refl _, by simp, j, rfl⟩
    · obtain ⟨h1, h2, h3⟩ := ih h
      exact ⟨by omega, by omega, h3⟩

theorem nodup_spawned (n : Nat) (l : List Job) : ((spawned n l).map (·.id)).Nodup := by
  induction l generalizing n with
  | nil => exact .nil
  | cons j r ih =>
    refine List.nodup_cons.mpr ⟨fun h => ?_, ih (n + 1)⟩
    obtain ⟨t, ht, hid⟩ := List.mem_map.mp h
    have hle := (mem_spawned ht).1
    have : t.id = n := hid
    omega

theorem filterMap_job?_spawned (n : Nat) (l : List Job) : (spawned n l).filterMap (·.activity.job?) = l := by
  induction l generalizing n with
  | nil => rfl
  | cons j r ih => exact congrArg (j :: ·) (ih (n + 1))

theorem filterMap_call?_spawned (n : Nat) (l : List Job) : (spawned n l).filterMap Task.call? = [] := by
  induction l generalizing n with
  | nil => rfl
  | cons j r ih => exact ih (n + 1)

end Spawned

/-- After notices were heard, there is a task for each job that was started, and whoever waited for a block
    that has no owner any longer goes on. -/
theorem exists_hearAll (l : List Notice) (s : Session) :
    ∃ r, l.foldl hear s = { s with
      tasks := s.tasks ++ spawned s.nextTask (l.filterMap Notice.job?)
      nextTask := s.nextTask + (l.filterMap Notice.job?).length
      runnable := r } ∧ s.runnable ⊆ r ∧ (∀ t ∈ spawned s.nextTask (l.filterMap Notice.job?), t.id ∈ r) ∧
      ∀ i id, .settled i id ∈ l → ∀ t ∈ s.tasks, waitsFor i id t.activity = true → t.id ∈ r := by
  induction l generalizing s with
  | nil => exact ⟨s.runnable, by simp [spawned], fun _ h => h, nofun, nofun⟩
  | cons x l ih =>
    cases x with
    | settled i id =>
      obtain ⟨r', hr', hsub', hall'⟩ :=
        exists_resumeAll ((s.tasks.filter fun t => waitsFor i id t.activity).map (·.id)) s
      obtain ⟨r, hr, hsub, hnew, hwait⟩ := ih { s with runnable := r' }
      refine ⟨r, ?_, fun _ h => hsub (hsub' h), hnew, fun k b hm t ht hw => ?_⟩
      · rw [List.foldl_cons, show s.hear (.settled i id) = { s with runnable := r' } from hr', hr]
        rfl
      · rcases List.mem_cons.mp hm with heq | hm
        · cases heq
          exact hsub (hall' _ (List.mem_map_of_mem (List.mem_filter.mpr ⟨ht, hw⟩)))
        · exact hwait k b hm t ht hw
    | started j =>
      obtain ⟨r, hr, hsub, hnew, hwait⟩ := ih (s.spawn (.errand (.job j) 1 .due))
      refine ⟨r, ?_, fun _ h => hsub (List.mem_append_left _ h), ?_, fun k b hm t ht hw => ?_⟩
      · rw [List.foldl_cons, show s.hear (.started j) = s.spawn (.errand (.job j) 1 .due) from rfl, hr]
        simp [spawn, spawned, Notice.job?, Nat.add_assoc, Nat.add_comm 1]
      · intro t ht
        rcases List.mem_cons.mp ht with rfl | ht
        · exact hsub (List.mem_append_right _ (List.mem_singleton_self _))
        · exact hnew t ht
      · rcases List.mem_cons.mp hm with heq | hm
        · cases heq
        · exact hwait k b hm t (List.mem_append_left _ ht) hw

/-! ### The cache moves -/

section Hear
variable {C : Contents} {s : Session} {cur cur' : Option Turn} {c c' : Cache}

theorem others_append (hfresh : ∀ t ∈ s.tasks, t.id < s.nextTask)
    (hcur : ∀ c, cur = some c → c.task ∈ s.tasks.map (·.id)) {l : List Task} (hl : ∀ t ∈ l, s.nextTask ≤ t.id) :
    ({ s with tasks := s.tasks ++ l } : Session).others cur = s.others cur ++ l := by
  cases cur with
  | none => rfl
  | some c =>
    obtain ⟨u, hu, hid⟩ := List.mem_map.mp (hcur c rfl)
    simp only [others, List.filter_append]
    congr 1
    refine List.filter_eq_self.mpr fun t ht => ?_
    have h1 := hl t ht
    have h2 := hfresh u hu
    have : t.id ≠ c.task := by omega
    simpa using this

theorem mem_tasks_of_mem_others {t : Task} (h : t ∈ s.others cur) : t ∈ s.tasks := by
  cases cur with
  | none => exact h
  | some c => exact (mem_others.mp h).1

/-- Two turns of the same task, which loads the same footer. The jobs in hand may differ. -/
def SameTurn (cur cur' : Option Turn) : Prop :=
  cur'.map (fun c => (c.task, c.loads)) = cur.map fun c => (c.task, c.loads)

theorem SameTurn.symm (h : SameTurn cur cur') : SameTurn cur' cur := Eq.symm h

theorem SameTurn.exists_eq_some (h : SameTurn cur cur') {t : Turn} (ht : cur' = some t) :
    ∃ u, cur = some u ∧ t.task = u.task ∧ t.loads = u.loads := by
  subst ht
  cases cur with
  | none => cases h
  | some u => exact ⟨u, rfl, by simpa [SameTurn] using h⟩

theorem SameTurn.others (h : SameTurn cur cur') (s : Session) : s.others cur' = s.others cur := by
  cases cur' with
  | none =>
    cases cur with
    | none => rfl
    | some u => cases h
  | some t =>
    obtain ⟨u, rfl, htask, -⟩ := h.exists_eq_some rfl
    simp only [Session.others, htask]

theorem nodup_append_spawned (h : s.Sound C cur) (l : List Job) :
    ((s.tasks ++ spawned s.nextTask l).map (·.id)).Nodup := by
  rw [List.map_append]
  refine h.ids.append (nodup_spawned _ _) ?_
  intro id hid hid'
  obtain ⟨t, ht, rfl⟩ := List.mem_map.mp hid
  obtain ⟨u, hu, hut⟩ := List.mem_map.mp hid'
  have h1 := h.fresh t ht
  have h2 := (mem_spawned hu).1
  have : u.id = t.id := hut
  omega

/-- A session stays sound when its cache moves and it hears of that. The job that the running task has in hand
    may end meanwhile. -/
theorem Sound.hearAll (h : s.Sound C cur) (hcur : SameTurn cur cur') (hm : Moves C.admits ⟨s.cache, []⟩ ⟨c', []⟩)
    {running : List Job} (hrep : s.cache.Reports running c')
    (hjobs : ((s.others cur).filterMap (·.activity.job?) ++ (cur'.bind (·.job)).toList).Perm running) :
    (c'.notices.foldl hear { s with cache := { c' with notices := [] } }).Sound C cur' := by
  obtain ⟨l, hl, hrun, hflies⟩ := hrep
  rw [h.quiet, List.nil_append] at hl
  rw [hl]
  obtain ⟨r, hr, hsub, hnew, hwait⟩ := exists_hearAll l { s with cache := { c' with notices := [] } }
  rw [hr]
  dsimp only at hsub hnew hwait ⊢
  have hwork := Moves.sound hm h.cache
  have hext := Moves.extends hm h.cache.stores
  dsimp only at hext
  have hpresent : ∀ c, cur' = some c → c.task ∈ s.tasks.map (·.id) := by
    intro c hc
    obtain ⟨u, hu, htask, -⟩ := hcur.exists_eq_some hc
    exact htask ▸ h.present u hu
  -- Besides the running task there are the same tasks as before, and the new ones.
  have hothers : ({ s with tasks := s.tasks ++ spawned s.nextTask (l.filterMap Notice.job?) } : Session).others cur' =
      s.others cur ++ spawned s.nextTask (l.filterMap Notice.job?) := by
    rw [others_append h.fresh hpresent fun t ht => (mem_spawned ht).1, hcur.others]
  refine ⟨hwork.quiet, rfl, Moves.next?_eq_none hm h.cache h.busy, (Moves.queue_config hm).trans h.limits, ?_,
    h.footers.trans (Moves.length_stores hm).symm, ⟨h.within.streams, h.within.entries⟩, nodup_append_spawned h _, ?_,
    fun e he => Nat.lt_of_lt_of_le (h.past e he) (Nat.le_add_right _ _), ?_, ?_, ?_, ?_, ?_, ?_, ?_, ?_⟩
  · intro i x hx
    have hlen : i < s.cache.stores.length := Moves.length_stores hm ▸ (List.getElem?_eq_some_iff.mp hx).1
    obtain ⟨y, hy, -, hconfig, -⟩ := hext (List.getElem?_eq_getElem hlen)
    cases hx.symm.trans hy
    exact hconfig.trans (h.grids (List.getElem?_eq_getElem hlen))
  · intro t ht
    rcases List.mem_append.mp ht with ht | ht
    · exact Nat.lt_of_lt_of_le (h.fresh t ht) (Nat.le_add_right _ _)
    · exact (mem_spawned ht).2.1
  · intro c hc
    rw [List.map_append]
    exact List.mem_append_left _ (hpresent c hc)
  · refine List.Perm.trans (.of_eq (congrArg (fun l => l.filterMap (·.activity.job?) ++ _) hothers)) ?_
    rw [List.filterMap_append, filterMap_job?_spawned, List.append_assoc]
    dsimp only
    rw [hrun]
    refine List.Perm.trans ?_ (hjobs.append_right _)
    rw [List.append_assoc]
    exact List.perm_append_comm.append_left _
  · refine h.calls.trans (.of_eq ?_)
    refine Eq.trans ?_ (congrArg (List.filterMap Task.call?) hothers).symm
    rw [List.filterMap_append, filterMap_call?_spawned, List.append_nil]
  · intro t ht
    rcases List.mem_append.mp (hothers ▸ ht) with ht | ht
    · exact Activity.Right.mono (h.right t ht) hext
    · obtain ⟨-, -, j, hj⟩ := mem_spawned ht
      rw [hj]
      exact trivial
  · intro t ht
    rcases List.mem_append.mp (hothers ▸ ht) with ht | ht
    · rcases h.awake t ht with hrun | hw
      · exact Or.inl (hsub hrun)
      · refine hw.or_of (fun _ hx => hx) ?_ fun o n q ho hq => Or.inr ⟨n, q, ho, hq⟩
        intro i id hwaits hf
        rcases hflies hf with hf | hsettled
        · exact Or.inr hf
        · exact Or.inl (hwait i id hsettled t (mem_tasks_of_mem_others ht) hwaits)
    · exact Or.inl (hnew t ht)
  · intro t ht
    rcases List.mem_append.mp (hothers ▸ ht) with ht | ht
    · exact h.placed t ht
    · obtain ⟨-, -, j, hj⟩ := mem_spawned ht
      unfold Placed
      rw [hj]
      exact trivial
  · intro o n q ho
    refine (h.held o n q ho).mono (fun u hu => hothers ▸ List.mem_append_left _ hu) ?_
    intro c hc hl
    obtain ⟨c', hc', htask, hloads⟩ := hcur.symm.exists_eq_some hc
    exact Or.inl ⟨c', hc', htask.symm, hloads.symm.trans hl⟩
  · intro c o hc hl hlen
    obtain ⟨u, hu, htask, hloads⟩ := hcur.exists_eq_some hc
    obtain ⟨q, hq⟩ := h.lock u o hu (hloads ▸ hl) hlen
    exact ⟨q, htask ▸ hq⟩

end Hear

end Session

end RangeCache
