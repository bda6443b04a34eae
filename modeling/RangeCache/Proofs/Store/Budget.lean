import RangeCache.Proofs.Store.Quiet
import RangeCache.Proofs.Store.Resident

/-!
# The memory budget

Eviction does all that it may (`tight_evict`): after it a store fits its budget, or every block whose bytes are there is
pinned. Such a store is tight. It stays tight under quiet updates, as bytes only arrive together with an eviction, and
when blocks are pinned. Only taking pins back can leave a store that holds too much and could hold less.
-/

namespace RangeCache.Store

/-- A store holds no more than its budget, or no block that could be evicted. -/
def Tight (s : Store) : Prop :=
  s.resident ≤ s.config.memoryBudget ∨ ∀ b ∈ s.blocks, b.state.isReady = true → 0 < b.pins

section Tight
variable {s t : Store} {g : Block → Block}

theorem tight_new (handle : Handle) (config : StoreConfig) : ({ handle, config } : Store).Tight :=
  Or.inl (Nat.zero_le _)

theorem mem_candidates_iff {b : Block} : b ∈ s.candidates ↔ b ∈ s.blocks ∧ evictable b = true :=
  (List.mergeSort_perm _ _).mem_iff.trans List.mem_filter

/-- When a block that may be evicted is, it is not tracked any longer. -/
theorem not_mem_evictOne {b : Block} (h : evictable b = true) : b ∉ (s.evictOne b).blocks := by
  have he : b.state.isReady = true ∧ b.pins = 0 := by simpa [evictable] using h
  simp [evictOne, Block.evict?, he]

/-- The induction is on the candidates: those that are left are all the blocks that may still be evicted. -/
theorem tight_evictFrom {l : List Block} (hl : ∀ b ∈ s.blocks, evictable b = true → b ∈ l) : (s.evictFrom l).Tight := by
  induction l generalizing s with
  | nil =>
    refine Or.inr fun b hb hready => Nat.pos_of_ne_zero fun hpins => ?_
    exact List.not_mem_nil (hl b hb (by simp [evictable, hready, hpins]))
  | cons b r ih =>
    unfold evictFrom
    split
    · exact Or.inl ‹_›
    · refine ih fun x hx he => ?_
      rcases List.mem_cons.mp (hl x (mem_evictOne hx) he) with rfl | hr
      · exact absurd hx (not_mem_evictOne he)
      · exact hr

theorem tight_evict (s : Store) : s.evict.Tight := tight_evictFrom fun _ hb he => mem_candidates_iff.mpr ⟨hb, he⟩

/-- A change of single blocks by which none gets bytes or loses a pin. -/
theorem Mapped.tight (h : s.Mapped g t) (hs : s.Tight) (hresident : t.resident = s.resident)
    (hready : ∀ b ∈ s.blocks, (g b).state.isReady = b.state.isReady) (hpins : ∀ b, b.pins ≤ (g b).pins) : t.Tight := by
  rcases hs with hfits | hpinned
  · exact Or.inl (by rw [hresident, h.config]; exact hfits)
  · refine Or.inr fun x hx hst => ?_
    obtain ⟨b, hb, rfl⟩ := h.mem_iff.mp hx
    exact Nat.lt_of_lt_of_le (hpinned b hb (hready b hb ▸ hst)) (hpins b)

theorem Grown.tight (h : Grown s t) (hs : s.Tight) : t.Tight := by
  rcases hs with hfits | hpinned
  · exact Or.inl (by rw [h.resident, h.config]; exact hfits)
  · refine Or.inr fun b hb hst => ?_
    rcases h.mem_or_new hb with hb | hnew
    · exact hpinned b hb hst
    · rw [hnew] at hst
      cases hst

/-! ### Updates -/

/-- A job that claims blocks, gives them back or fails them brings no bytes. -/
theorem Mapped.tight_of_mem {ids : List Nat} (h : s.Mapped (fun b => if b.id ∈ ids then g b else b) t) (hs : s.Tight)
    (hresident : t.resident = s.resident) (hready : ∀ b, (g b).state.isReady = b.state.isReady)
    (hpins : ∀ b, (g b).pins = b.pins) : t.Tight := by
  refine h.tight hs hresident (fun b _ => ?_) fun b => ?_
  · split
    · exact hready b
    · rfl
  · split
    · exact (hpins b).ge
    · exact Nat.le_refl _

theorem Quiet.tight (h : s.Quiet t) (hsound : s.Sound) (hs : s.Tight) : t.Tight := by
  cases h with
  | grow h => exact h.tight hs
  | claim job ids =>
    exact (mapped_claim hsound job ids).tight_of_mem hs (resident_foldl_modify? ids _ s) (isReady_tryOn_claim? job)
      (tryOn_pins pins_of_claim?)
  | revert job ids =>
    exact (mapped_revert hsound job ids).tight_of_mem hs (resident_foldl_modify? ids _ s)
      (isReady_tryOn_leave? job (fun _ => .pending) fun _ => rfl) (tryOn_pins (pins_of_leave? fun _ => .pending))
  | fail job ids f =>
    exact (mapped_fail hsound job ids f).tight_of_mem hs (resident_foldl_modify? ids _ s)
      (isReady_tryOn_leave? job (fun _ => .failed f) fun _ => rfl) (tryOn_pins (pins_of_leave? fun _ => .failed f))
  | deliver job ids start data => exact tight_evict _
  | touch id =>
    refine (mapped_touch s id).tight hs rfl (fun b _ => ?_) fun b => ?_ <;> split <;> rfl
  | count hits misses fetches clock => exact hs
  | evict => exact tight_evict s

theorem Quietly.tight (h : s.Quietly t) (hsound : s.Sound) (hs : s.Tight) : t.Tight := by
  induction h with
  | refl => exact hs
  | tail h hq ih => exact hq.tight (Quietly.sound h hsound) ih

theorem resident_pin (s : Store) (ids : List Nat) : (s.pin ids).resident = s.resident := by
  induction ids generalizing s with
  | nil => rfl
  | cons i r ih => exact ih _

theorem Tight.pin (hs : s.Tight) (ids : List Nat) : (s.pin ids).Tight :=
  (mapped_pinAll s ids).tight hs (s.resident_pin ids) (fun _ _ => rfl) fun _ => Nat.le_add_right _ _

/-- A tight store of which nothing is pinned fits its budget. -/
theorem Tight.resident_le (hs : s.Tight) (hb : s.Balanced) (hpins : ∀ b ∈ s.blocks, b.pins = 0) :
    s.resident ≤ s.config.memoryBudget := by
  rcases hs with hfits | hpinned
  · exact hfits
  · have hnone : (s.blocks.filter fun b => b.state.isReady) = [] :=
      List.filter_eq_nil_iff.mpr fun b hb hst => Nat.ne_of_gt (hpinned b hb hst) (hpins b hb)
    rw [hb.resident, heldBy, hnone]
    exact Nat.zero_le _

end Tight

end RangeCache.Store
