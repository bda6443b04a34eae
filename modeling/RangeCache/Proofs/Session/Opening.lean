import RangeCache.Proofs.Session.Flow

/-!
# Opening

New objects, new streams and new tasks come beside those that are there. They take nothing away, so that a
session stays sound, and all of it is aside of the tasks that there are.
-/

namespace RangeCache.Session

variable {C : Contents} {s : Session} {cur : Option Turn}

/-! ### Tasks -/

theorem Sound.spawn (h : s.Sound C cur) (op : Operation) : (s.spawn (.start op)).Sound C cur := by
  have hothers : (s.spawn (.start op)).others cur = s.others cur ++ [⟨s.nextTask, .start op⟩] :=
    others_append h.fresh h.present (by simp)
  have hmem : ∀ u ∈ (s.spawn (.start op)).others cur, u ∈ s.others cur ∨ u = ⟨s.nextTask, .start op⟩ := fun u hu => by
    rw [hothers] at hu
    simpa using hu
  refine ⟨h.cache, h.quiet, h.busy, h.limits, h.grids, h.footers, ⟨h.within.streams, h.within.entries⟩, ?_, ?_,
    fun e he => Nat.lt_succ_of_lt (h.past e he), fun c hc => ?_, ?_, ?_, fun u hu => ?_, fun u hu => ?_, fun u hu => ?_,
    fun o n q ho => ?_, h.lock⟩
  · simp only [Session.spawn, List.map_append]
    refine h.ids.append (List.nodup_singleton _) fun id hid hid' => ?_
    obtain ⟨u, hu, rfl⟩ := List.mem_map.mp hid
    have := h.fresh u hu
    have : u.id = s.nextTask := by simpa using hid'
    omega
  · intro u hu
    rcases List.mem_append.mp hu with hu | hu
    · exact Nat.lt_succ_of_lt (h.fresh u hu)
    · rw [List.mem_singleton.mp hu]
      exact Nat.lt_succ_self _
  · simp only [Session.spawn, List.map_append]
    exact List.mem_append_left _ (h.present c hc)
  · rw [hothers, List.filterMap_append]
    exact (List.append_nil (List.filterMap _ (s.others cur))).symm ▸ h.jobs
  · rw [hothers, List.filterMap_append]
    exact (List.append_nil (List.filterMap _ (s.others cur))).symm ▸ h.calls
  · rcases hmem u hu with hu | rfl
    · exact h.right u hu
    · exact trivial
  · rcases hmem u hu with hu | rfl
    · exact (h.awake u hu).imp (fun hm => List.mem_append_left _ hm) id
    · exact Or.inl (List.mem_append_right _ (List.mem_singleton_self _))
  · rcases hmem u hu with hu | rfl
    · exact h.placed u hu
    · exact trivial
  · refine (h.held o n q ho).mono (fun u hu => hothers ▸ List.mem_append_left _ hu) ?_
    intro c hc hl
    exact Or.inl ⟨c, hc, rfl, hl⟩

theorem aside_spawn (s : Session) (op : Operation) : Aside op.mover? s (s.spawn (.start op)) where
  config := rfl
  cache := .refl _
  streams _ x hx := ⟨x, hx, rfl, Or.inr rfl⟩
  tasks := ⟨_, rfl, fun u hu => by rw [List.mem_singleton.mp hu]; exact ⟨Nat.le_refl _, Or.inr rfl⟩⟩
  nextTask := Nat.le_succ _
  ended := rfl

/-! ### Objects -/

theorem footer_addObject (s : Session) (handle : Handle) (o : Nat) : (s.addObject handle).footer o = s.footer o := by
  simp only [footer, addObject, List.getElem?_append]
  split
  · rfl
  · rename_i hle
    rw [List.getElem?_eq_none (Nat.le_of_not_lt hle)]
    cases o - s.footers.length <;> rfl

/-- An object is added while no footer is loaded by the task that runs. -/
theorem Sound.addObject (h : s.Sound C cur) (hcur : ∀ c, cur = some c → c.loads = none) (handle : Handle) :
    (s.addObject handle).Sound C cur := by
  have hfooter := footer_addObject s handle
  have hflies : ∀ i id, s.cache.Flies i id → (s.addObject handle).cache.Flies i id := by
    rintro i id ⟨x, hx, hf⟩
    exact ⟨x, Cache.getElem?_addStore_of hx, hf⟩
  have hlen : (s.addObject handle).footers.length = s.footers.length + 1 := List.length_append
  have hothers : (s.addObject handle).others cur = s.others cur := by cases cur <;> rfl
  refine ⟨h.cache.addStore handle s.config.store, h.quiet, h.busy, h.limits, fun i x hx => ?_, ?_,
    ⟨fun x hx => ?_, fun x hx => ?_⟩, h.ids, h.fresh, h.past, h.present, ?_, ?_, fun u hu => ?_, fun u hu => ?_,
    fun u hu => ?_, fun o n q ho => ?_, fun c o hc hl _ => ?_⟩
  · rcases Cache.getElem?_addStore_cases hx with hx | ⟨-, rfl⟩
    · exact h.grids hx
    · rfl
  · rw [hlen, h.footers]
    simp [Session.addObject, Cache.addStore]
  · rw [hlen]
    exact Nat.lt_succ_of_lt (h.within.streams x hx)
  · rw [hlen]
    exact Nat.lt_succ_of_lt (h.within.entries x hx)
  · rw [hothers]
    exact h.jobs
  · rw [hothers]
    exact h.calls
  · exact Activity.Right.mono (h.right u (hothers ▸ hu)) (Cache.extends_addStore handle s.config.store)
  · exact (h.awake u (hothers ▸ hu)).imp id fun hw => hw.mono (fun _ hx => hx) hflies hfooter
  · exact (h.placed u (hothers ▸ hu)).congr hfooter
  · rw [hfooter] at ho
    exact (h.held o n q ho).congr rfl
  · rw [hcur c hc] at hl
    cases hl

theorem aside_addObject (s : Session) (handle : Handle) : Aside none s (s.addObject handle) where
  config := rfl
  cache := Cache.extends_addStore handle s.config.store
  streams _ x hx := ⟨x, hx, rfl, Or.inr rfl⟩
  tasks := ⟨[], (List.append_nil _).symm, nofun⟩
  nextTask := Nat.le_refl _
  ended := rfl

theorem aside_prefetchSmall (hc : s.cache.StoresSound) (object : Nat) (handle : Handle) :
    Aside none s (s.prefetchSmall object handle) := by
  unfold Session.prefetchSmall
  split
  · exact aside_onCache (f := fun c => c.ensure object [⟨0, handle.size⟩] .grid .speculative none)
      (Moves.extends (A := fun _ _ => False) (Cache.moves_ensure hc ..) hc)
  · exact .refl s

theorem aside_prefetchFooter (s : Session) (object : Nat) (handle : Handle) :
    Aside none s (s.prefetchFooter object handle) := by
  unfold Session.prefetchFooter
  split
  · exact aside_spawn s (.loadFooter object)
  · exact .refl s

theorem Sound.prefetchSmall (h : s.Sound C cur) (object : Nat) (handle : Handle) :
    (s.prefetchSmall object handle).Sound C cur := by
  unfold Session.prefetchSmall
  split
  · exact h.onCache (f := fun c => c.ensure object [⟨0, handle.size⟩] .grid .speculative none)
      (Cache.moves_ensure h.cache.stores ..)
  · exact h

theorem Sound.prefetchFooter (h : s.Sound C cur) (object : Nat) (handle : Handle) :
    (s.prefetchFooter object handle).Sound C cur := by
  unfold Session.prefetchFooter
  split
  · exact h.spawn (.loadFooter object)
  · exact h

theorem footers_prefetchSmall (s : Session) (object : Nat) (handle : Handle) :
    (s.prefetchSmall object handle).footers = s.footers := by
  unfold Session.prefetchSmall
  split
  · exact footers_onCache s _
  · rfl

theorem footers_prefetchFooter (s : Session) (object : Nat) (handle : Handle) :
    (s.prefetchFooter object handle).footers = s.footers := by
  unfold Session.prefetchFooter
  split <;> rfl

/-- An object is added, and may be kept from now on. -/
theorem Sound.addKept (h : s.Sound C cur) (hcur : ∀ c, cur = some c → c.loads = none) (handle : Handle)
    (registry : Registry) (hentries : ∀ e ∈ registry.entries, e.object ≤ s.footers.length) :
    (Session.addObject { s with registry } handle).Sound C cur ∧
      Aside none s (Session.addObject { s with registry } handle) ∧
      (Session.addObject { s with registry } handle).footers.length = s.footers.length + 1 := by
  have hlen : (s.addObject handle).footers.length = s.footers.length + 1 := List.length_append
  have hadd := h.addObject hcur handle
  refine ⟨hadd.congr rfl rfl rfl rfl rfl rfl rfl rfl rfl ⟨hadd.within.streams, fun x hx => ?_⟩, ?_, hlen⟩
  · exact hlen ▸ Nat.lt_succ_of_le (hentries x hx)
  · exact (aside_addObject s handle).trans (.of_eq rfl rfl rfl rfl rfl rfl)

theorem Sound.acquire (h : s.Sound C cur) (hcur : ∀ c, cur = some c → c.loads = none) (handle : Handle) :
    (s.acquire handle).1.Sound C cur ∧ Aside none s (s.acquire handle).1 ∧
      (s.acquire handle).2 < (s.acquire handle).1.footers.length := by
  unfold Session.acquire Registry.acquire
  cases hfind : s.registry.find? handle.key with
  | some e =>
    have hobject := h.within.entries e (List.mem_of_find?_eq_some hfind)
    refine ⟨h.congr rfl rfl rfl rfl rfl rfl rfl rfl rfl ⟨h.within.streams, fun x hx => ?_⟩,
      .of_eq rfl rfl rfl rfl rfl rfl, hobject⟩
    rcases List.mem_cons.mp hx with rfl | hx
    · exact hobject
    · exact h.within.entries x (List.mem_filter.mp hx).1
  | none =>
    dsimp only
    rw [if_pos rfl]
    obtain ⟨hnew, ha, hlen⟩ := h.addKept hcur handle
      { s.registry with entries := ⟨handle, 1, s.footers.length⟩ :: s.registry.entries } fun x hx => by
        rcases List.mem_cons.mp hx with rfl | hx
        · exact Nat.le_refl _
        · exact Nat.le_of_lt (h.within.entries x hx)
    generalize Session.addObject _ handle = s₁ at hnew ha hlen ⊢
    have hsmall := hnew.prefetchSmall s.footers.length handle
    refine ⟨hsmall.prefetchFooter s.footers.length handle, ?_, ?_⟩
    · exact ha.trans ((aside_prefetchSmall hnew.cache.stores _ _).trans (aside_prefetchFooter _ _ _))
    · rw [footers_prefetchFooter, footers_prefetchSmall, hlen]
      exact Nat.lt_succ_self _

/-! ### Streams -/

theorem Sound.openHandle (h : s.Sound C cur) (hcur : ∀ c, cur = some c → c.loads = none) (handle : Handle) :
    (s.openHandle handle).1.Sound C cur ∧ Aside none s (s.openHandle handle).1 := by
  obtain ⟨h₁, ha, hlt⟩ := h.acquire hcur handle
  unfold Session.openHandle
  generalize s.acquire handle = acquired at h₁ ha hlt ⊢
  obtain ⟨s₁, object⟩ := acquired
  refine ⟨h₁.congr rfl rfl rfl rfl rfl rfl rfl rfl rfl ⟨fun x hx => ?_, h₁.within.entries⟩, ha.trans ?_⟩
  · rcases List.mem_append.mp hx with hx | hx
    · exact h₁.within.streams x hx
    · rw [List.mem_singleton.mp hx]
      exact hlt
  · refine ⟨rfl, .refl _, fun i x hx => ⟨x, ?_, rfl, Or.inr rfl⟩, ⟨[], (List.append_nil _).symm, nofun⟩,
      Nat.le_refl _, rfl⟩
    unfold stream? at hx ⊢
    rw [List.find?_append, hx]
    rfl

end RangeCache.Session
