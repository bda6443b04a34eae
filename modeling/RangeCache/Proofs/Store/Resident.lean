import Mathlib.Algebra.GroupWithZero.Nat
import RangeCache.Proofs.Fetch.Accounts
import RangeCache.Proofs.Store.Edits

/-!
# Resident bytes

A store counts the bytes that it holds as its blocks get them and lose them. It balances when the count is the sum of
the lengths of the tracked blocks whose bytes are there, and when as many blocks are tracked or retired as were ever
made (`Balanced`). Every update of the store keeps it so: a block is counted when it takes the bytes that a job
delivers, which it does once and only from its owner, and it is uncounted when it is evicted.
-/

namespace RangeCache.Store

/-- The lengths of the blocks of a list whose bytes are there, taken together. -/
def heldBy (l : List Block) : Nat := ((l.filter fun b => b.state.isReady).map (·.length)).sum

section HeldBy
variable {l l' : List Block} {b : Block} {g : Block → Block}

theorem heldBy_cons (b : Block) (l : List Block) :
    heldBy (b :: l) = (if b.state.isReady then b.length else 0) + heldBy l := by
  unfold heldBy
  by_cases h : b.state.isReady = true <;> simp [h]

theorem heldBy_perm (h : l.Perm l') : heldBy l = heldBy l' := ((h.filter _).map _).sum_nat

/-- What a list of blocks holds depends on their spans, and on which of them have their bytes. -/
theorem heldBy_map (hspan : ∀ b, (g b).span = b.span) (hready : ∀ b ∈ l, (g b).state.isReady = b.state.isReady) :
    heldBy (l.map g) = heldBy l := by
  induction l with
  | nil => rfl
  | cons b r ih =>
    rw [List.map_cons, heldBy_cons, heldBy_cons, ih fun x hx => hready x (List.mem_cons_of_mem _ hx),
      hready b List.mem_cons_self, Block.length, hspan, ← Block.length]

/-- A block and the others. -/
theorem heldBy_eq_of_mem (hl : (l.map (·.id)).Nodup) (hb : b ∈ l) :
    heldBy l = (if b.state.isReady then b.length else 0) + heldBy (l.filter fun x => x.id != b.id) :=
  (heldBy_perm (perm_cons_filter_ne (f := fun x : Block => x.id) hl hb)).trans (heldBy_cons _ _)

end HeldBy

/-- The count of the bytes agrees with the blocks, and no block that was made is lost. -/
structure Balanced (s : Store) : Prop where
  resident : s.resident = heldBy s.blocks
  made : (s.blocks ++ s.retired).length = s.nextBlock

theorem balanced_new (handle : Handle) (config : StoreConfig) : ({ handle, config } : Store).Balanced := ⟨rfl, rfl⟩

section Balanced
variable {s t : Store} {g : Block → Block}

/-- Every block that was ever made is there, tracked or retired. -/
theorem Balanced.exists_of_lt (h : s.Balanced) (hs : s.Sound) {id : Nat} (hid : id < s.nextBlock) :
    ∃ b ∈ s.blocks ++ s.retired, b.id = id := by
  have hsub : (s.blocks ++ s.retired).map (·.id) ⊆ List.range s.nextBlock := fun i hi => by
    obtain ⟨b, hb, rfl⟩ := List.mem_map.mp hi
    exact List.mem_range.mpr (hs.fresh b hb)
  have hperm : ((s.blocks ++ s.retired).map (·.id)).Perm (List.range s.nextBlock) :=
    (List.subperm_of_subset hs.ids hsub).perm_of_length_le (by rw [List.length_map, h.made, List.length_range])
  exact List.mem_map.mp (hperm.mem_iff.mpr (List.mem_range.mpr hid))

theorem Mapped.balanced (h : s.Mapped g t) (hs : s.Balanced)
    (hresident : t.resident + heldBy s.blocks = s.resident + heldBy t.blocks) : t.Balanced where
  resident := by
    have := hs.resident
    omega
  made := by
    rw [List.length_append, h.blocks, List.length_map, h.retired, h.nextBlock, ← List.length_append]
    exact hs.made

/-- A change after which the same blocks have their bytes. -/
theorem Mapped.balanced_of_ready (h : s.Mapped g t) (hs : s.Balanced) (hresident : t.resident = s.resident)
    (hready : ∀ b ∈ s.blocks, (g b).state.isReady = b.state.isReady) : t.Balanced :=
  h.balanced hs (by rw [hresident, h.blocks, heldBy_map h.span hready])

/-! ### Jobs and their blocks -/

theorem resident_modify? (s : Store) (id : Nat) (f : Block → Option Block) :
    (s.modify? id f).1.resident = s.resident := by
  unfold modify?
  cases (s.blocks.find? fun b => b.id == id).bind f <;> rfl

theorem resident_foldl_modify? (ids : List Nat) (f : Block → Option Block) (s : Store) :
    (ids.foldl (fun s id => (s.modify? id f).1) s).resident = s.resident := by
  induction ids generalizing s with
  | nil => rfl
  | cons i r ih => exact (ih _).trans (resident_modify? s i f)

theorem isReady_tryOn_claim? (job : Nat) (b : Block) :
    (tryOn (fun b => b.claim? job) b).state.isReady = b.state.isReady := by
  rw [tryOn_claim?_state]
  cases b.state <;> rfl

theorem balanced_claim (h : s.Balanced) (hs : s.Sound) (job : Nat) (ids : List Nat) : (s.claim job ids).Balanced := by
  refine (mapped_claim hs job ids).balanced_of_ready h (resident_foldl_modify? ids _ s) fun b _ => ?_
  split
  · exact isReady_tryOn_claim? job b
  · rfl

/-- A block that leaves its job without bytes had none before. -/
theorem isReady_tryOn_leave? (job : Nat) (state : Block → BlockState) (hstate : ∀ b, (state b).isReady = false)
    (b : Block) : (tryOn (fun b => b.leave? job (state b)) b).state.isReady = b.state.isReady := by
  rw [tryOn_leave?_state]
  split
  · rename_i hst
    rw [hstate, hst]
    rfl
  · rfl

theorem balanced_revert (h : s.Balanced) (hs : s.Sound) (job : Nat) (ids : List Nat) :
    (s.revert job ids).Balanced := by
  refine (mapped_revert hs job ids).balanced_of_ready h (resident_foldl_modify? ids _ s) fun b _ => ?_
  split
  · exact isReady_tryOn_leave? job (fun _ => .pending) (fun _ => rfl) b
  · rfl

theorem balanced_fail (h : s.Balanced) (hs : s.Sound) (job : Nat) (ids : List Nat) (f : Fault) :
    (s.fail job ids f).Balanced := by
  refine (mapped_fail hs job ids f).balanced_of_ready h (resident_foldl_modify? ids _ s) fun b _ => ?_
  split
  · exact isReady_tryOn_leave? job (fun _ => .failed f) (fun _ => rfl) b
  · rfl

/-- A block is counted when it takes what a job delivers, which it does only from its owner. -/
theorem resident_completeOne (hs : (s.blocks.map (·.id)).Nodup) {b : Block} (hb : b ∈ s.blocks) (job start : Nat)
    (data : Bytes) : (s.completeOne job start data b.id).resident =
      s.resident + if b.state = .inFlight job then b.length else 0 := by
  have htouch := mapped_touch s b.id
  have hfind : ((s.touch b.id).blocks.find? fun x => x.id == b.id) = some (b.touch s.clock) := by
    refine find?_eq_some_of_mem (b := b.touch s.clock) (by rw [htouch.map_id]; exact hs) ?_
    exact htouch.mem_iff.mpr ⟨b, hb, if_pos rfl⟩
  unfold completeOne
  rw [find?_eq_some_of_mem hs hb]
  dsimp only
  unfold modify?
  rw [hfind, Option.bind_some]
  by_cases hst : b.state = .inFlight job
  · simp [Block.complete?, Block.leave?, Block.touch, hst, touch, modify]
  · simp [Block.complete?, Block.leave?, Block.touch, hst, touch, modify]

theorem balanced_completeOne (h : s.Balanced) (hs : (s.blocks.map (·.id)).Nodup) (job start : Nat) (data : Bytes)
    (id : Nat) : (s.completeOne job start data id).Balanced := by
  have hm := mapped_completeOne hs job start data id
  by_cases hid : ∃ b ∈ s.blocks, b.id = id
  · obtain ⟨b, hb, rfl⟩ := hid
    refine hm.balanced h ?_
    -- Of all blocks only this one changes.
    have hothers : heldBy ((s.completeOne job start data b.id).blocks.filter fun x => x.id != b.id) =
        heldBy (s.blocks.filter fun x => x.id != b.id) := by
      rw [hm.blocks, List.filter_map]
      have hfilter : ((fun x : Block => x.id != b.id) ∘
          fun x => if x.id = b.id then delivered s.clock job start data x else x) = fun x => x.id != b.id :=
        funext fun x => by rw [Function.comp_apply, hm.id x]
      rw [hfilter]
      refine heldBy_map hm.span fun x hx => ?_
      rw [if_neg (by simpa using (List.mem_filter.mp hx).2)]
    have hmem : delivered s.clock job start data b ∈ (s.completeOne job start data b.id).blocks :=
      hm.mem_iff.mpr ⟨b, hb, if_pos rfl⟩
    have hafter := heldBy_eq_of_mem (by rw [hm.map_id]; exact hs) hmem
    rw [delivered_id, hothers, delivered_state, Block.length, delivered_span, ← Block.length] at hafter
    rw [resident_completeOne hs hb, heldBy_eq_of_mem hs hb, hafter]
    by_cases hst : b.state = .inFlight job
    · simp only [hst, if_true, BlockState.isReady, BlockState.bytes?, Option.isSome_none, Option.isSome_some,
        Bool.false_eq_true, if_false]
      omega
    · simp only [hst, if_false]
      omega
  · have hnone : s.completeOne job start data id = s := by
      have hfind : (s.blocks.find? fun b => b.id == id) = none :=
        List.find?_eq_none.mpr fun b hb he => hid ⟨b, hb, by simpa using he⟩
      unfold completeOne
      rw [hfind]
    rw [hnone]
    exact h

theorem balanced_complete (h : s.Balanced) (hs : s.Sound) (job : Nat) (ids : List Nat) (start : Nat) (data : Bytes) :
    (s.complete job ids start data).Balanced := by
  have hfold : ∀ t : Store, t.Balanced → (t.blocks.map (·.id)).Nodup →
      (ids.foldl (fun s id => s.completeOne job start data id) t).Balanced := by
    induction ids with
    | nil => exact fun t ht _ => ht
    | cons i r ih =>
      refine fun t ht hn => ih _ (balanced_completeOne ht hn job start data i) ?_
      rw [(mapped_completeOne hn job start data i).map_id]
      exact hn
  exact hfold s.tick ⟨h.resident, h.made⟩ hs.ids_tracked

/-! ### Edits -/

theorem Balanced.addBlock (h : s.Balanced) (span : Span) : (s.addBlock span).Balanced where
  resident := by
    have hp := heldBy_perm (perm_insertBlock { id := s.nextBlock, span } s.blocks)
    exact h.resident.trans (hp.trans (by simp [heldBy_cons, BlockState.isReady, BlockState.bytes?])).symm
  made := by
    have hp := (perm_insertBlock { id := s.nextBlock, span } s.blocks).length_eq
    have := h.made
    simp only [Store.addBlock, List.length_append, List.length_cons] at hp this ⊢
    omega

theorem Grown.balanced (h : Grown s t) (hs : s.Balanced) : t.Balanced := by
  induction h with
  | refl => exact hs
  | make _ _ ih => exact ih.addBlock _

/-- Whenever a block may be evicted, at least its length is counted. -/
theorem resident_evictOne (h : s.Balanced) (hs : s.Sound) {b : Block} (hb : b ∈ s.blocks) (he : evictable b = true) :
    (s.evictOne b).resident + b.length = s.resident := by
  simp only [evictable, Bool.and_eq_true, beq_iff_eq] at he
  have hheld := heldBy_eq_of_mem hs.ids_tracked hb
  rw [if_pos he.1, ← h.resident] at hheld
  have hresident : (s.evictOne b).resident = s.resident - b.length := by
    simp only [evictOne, Block.evict?, if_pos he]
  omega

theorem balanced_evictOne (h : s.Balanced) (hs : s.Sound) {b : Block} (hb : b ∈ s.blocks) :
    (s.evictOne b).Balanced := by
  rcases s.evictOne_eq b with he | ⟨hready, hpins, he⟩
  · exact he.symm ▸ h
  · have hresident := resident_evictOne h hs hb (by simp [evictable, hready, hpins])
    have hheld := heldBy_eq_of_mem hs.ids_tracked hb
    have hlength := (perm_cons_filter_ne (f := fun x : Block => x.id) hs.ids_tracked hb).length_eq
    have hmade := h.made
    have := h.resident
    rw [if_pos hready] at hheld
    rw [he] at hresident ⊢
    refine ⟨?_, ?_⟩
    · dsimp only at hresident ⊢
      omega
    · simp only [List.length_append, List.length_cons, List.length_nil] at hlength hmade ⊢
      omega

theorem Edit.balanced (h : s.Edit t) (hb : s.Balanced) (hs : s.Sound) : t.Balanced := by
  cases h with
  | grow h => exact h.balanced hb
  | pin id =>
    refine (mapped_pin s id).balanced_of_ready hb rfl fun b _ => ?_
    split <;> rfl
  | unpin id =>
    refine (mapped_unpin s id).balanced_of_ready hb rfl fun b _ => ?_
    split <;> rfl
  | touch id =>
    refine (mapped_touch s id).balanced_of_ready hb rfl fun b _ => ?_
    split <;> rfl
  | count hits misses fetches clock => exact ⟨hb.resident, hb.made⟩
  | evict hmem => exact balanced_evictOne hb hs hmem

end Balanced

end RangeCache.Store
