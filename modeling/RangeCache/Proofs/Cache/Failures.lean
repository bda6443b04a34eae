import RangeCache.Proofs.Cache.Moves

/-!
# Blocks that failed

A block has a fault only from the end of a job that listed it: no other move of a cache lets a block fail
(`Moves.failedWith`). A job that fails leaves its fault with the blocks that it owns, and all other blocks as they are
(`Store.blocks_fail`).
-/

namespace RangeCache

open Relation

/-- The last fetch of a tracked block ended with a fault. -/
def Store.FailedWith (s : Store) (id : Nat) (f : Fault) : Prop := ∃ b ∈ s.blocks, b.id = id ∧ b.state = .failed f

/-- The last fetch of a block did not fail, if there is such a block. -/
def Store.Unfailed (s : Store) (id : Nat) : Prop := ∀ b ∈ s.blocks, b.id = id → ∀ f, b.state ≠ .failed f

namespace Cache

def FailedWith (c : Cache) (i id : Nat) (f : Fault) : Prop := ∃ s, c.stores[i]? = some s ∧ s.FailedWith id f

def Unfailed (c : Cache) (i id : Nat) : Prop := ∀ s, c.stores[i]? = some s → s.Unfailed id

theorem unfailed_iff {c : Cache} {i id : Nat} : c.Unfailed i id ↔ ∀ f, ¬c.FailedWith i id f :=
  ⟨fun h f ⟨s, hs, b, hb, hid, hst⟩ => h s hs b hb hid f hst, fun h s hs b hb hid f hst => h f ⟨s, hs, b, hb, hid, hst⟩⟩

end Cache

/-! ### Updates of a store -/

namespace Store

section Updates
variable {s t : Store} {id job : Nat} {ids : List Nat} {f : Fault} {g : Block → Block}

theorem Mapped.failedWith (h : s.Mapped g t) (hg : ∀ b : Block, (g b).state = .failed f → b.state = .failed f)
    (hf : t.FailedWith id f) : s.FailedWith id f := by
  obtain ⟨x, hx, hid, hst⟩ := hf
  obtain ⟨b, hb, rfl⟩ := h.mem_iff.mp hx
  exact ⟨b, hb, (h.id b).symm.trans hid, hg b hst⟩

/-- An update of some blocks none of which it lets fail. -/
theorem FailedWith.of_update (h : s.Mapped (fun b => if b.id ∈ ids then g b else b) t)
    (hg : ∀ b : Block, (g b).state = .failed f → b.state = .failed f) (hf : t.FailedWith id f) : s.FailedWith id f := by
  refine h.failedWith (fun b hst => ?_) hf
  split at hst
  · exact hg b hst
  · exact hst

theorem Edit.failedWith (h : s.Edit t) (hf : t.FailedWith id f) : s.FailedWith id f := by
  rcases h.cases_mapped with ⟨g, hg, hst⟩ | hg | ⟨b, -, rfl⟩
  · exact hg.failedWith (fun b h => (hst b).symm.trans h) hf
  · obtain ⟨b, hb, hid, hst⟩ := hf
    rcases hg.mem_or_new hb with hb | hnew
    · exact ⟨b, hb, hid, hst⟩
    · rw [hnew] at hst
      cases hst
  · obtain ⟨x, hx, hx'⟩ := hf
    exact ⟨x, mem_evictOne hx, hx'⟩

theorem FailedWith.of_claim (hs : s.Sound) (hf : (s.claim job ids).FailedWith id f) : s.FailedWith id f := by
  refine of_update (mapped_claim hs job ids) (fun b hst => ?_) hf
  rw [tryOn_claim?_state] at hst
  split at hst
  · cases hst
  · exact hst

theorem FailedWith.of_revert (hs : s.Sound) (hf : (s.revert job ids).FailedWith id f) : s.FailedWith id f := by
  refine of_update (mapped_revert hs job ids) (fun b hst => ?_) hf
  rw [tryOn_revert?_state] at hst
  split at hst
  · cases hst
  · exact hst

theorem FailedWith.of_complete (hs : s.Sound) {start : Nat} {data : Bytes}
    (hf : (s.complete job ids start data).FailedWith id f) : s.FailedWith id f := by
  refine of_update (mapped_complete hs job ids start data) (fun b hst => ?_) hf
  rw [delivered_state] at hst
  split at hst
  · cases hst
  · exact hst

/-- A job that fails leaves its fault with its blocks only. -/
theorem FailedWith.of_fail (hs : s.Sound) {f' : Fault} (hf : (s.fail job ids f').FailedWith id f) :
    s.FailedWith id f ∨ f = f' ∧ id ∈ ids := by
  obtain ⟨x, hx, hid, hst⟩ := hf
  have hmap := mapped_fail hs job ids f'
  obtain ⟨b, hb, rfl⟩ := hmap.mem_iff.mp hx
  rw [hmap.id] at hid
  split at hst
  · rename_i hin
    rw [tryOn_fail?_state] at hst
    split at hst
    · cases hst
      exact Or.inr ⟨rfl, hid ▸ hin⟩
    · exact Or.inl ⟨b, hb, hid, hst⟩
  · exact Or.inl ⟨b, hb, hid, hst⟩

/-- What becomes of the blocks when a job fails that owns all that it lists. -/
theorem blocks_fail (hs : s.Sound) (hown : ∀ b ∈ s.blocks, b.id ∈ ids → b.state = .inFlight job) :
    (s.fail job ids f).blocks = s.blocks.map fun b => if b.id ∈ ids then { b with state := .failed f } else b := by
  rw [(mapped_fail hs job ids f).blocks]
  refine List.map_congr_left fun b hb => ?_
  split
  · rename_i hin
    simp [tryOn, Block.fail?, Block.leave?, hown b hb hin]
  · rfl

end Updates

end Store

/-! ### Moves -/

section Cache
variable {c : Cache} {i k id : Nat} {f : Fault}

theorem Cache.FailedWith.of_modifyStore {u : Store → Store}
    (hu : ∀ s, c.stores[k]? = some s → (u s).FailedWith id f → s.FailedWith id f)
    (h : (c.modifyStore k u).FailedWith i id f) : c.FailedWith i id f := by
  obtain ⟨t, ht, hf⟩ := h
  rcases Cache.getElem?_modifyStore_cases ht with ⟨rfl, s, hs, rfl⟩ | ⟨-, hs⟩
  · exact ⟨s, hs, hu s hs hf⟩
  · exact ⟨t, hs, hf⟩

theorem Cache.FailedWith.of_addStore {handle : Handle} {config : StoreConfig}
    (h : (c.addStore handle config).FailedWith i id f) : c.FailedWith i id f := by
  obtain ⟨t, ht, hf⟩ := h
  rcases Cache.getElem?_addStore_cases ht with hs | rfl
  · exact ⟨t, hs, hf⟩
  · obtain ⟨b, hb, -⟩ := hf
    cases hb

theorem Cache.Unfailed.addStore (h : c.Unfailed i id) (handle : Handle) (config : StoreConfig) :
    (c.addStore handle config).Unfailed i id :=
  Cache.unfailed_iff.mpr fun f hf => Cache.unfailed_iff.mp h f hf.of_addStore

end Cache

section Move
variable {A : Job → Except Fault Bytes → Prop} {w w' : Work} {i id : Nat} {f : Fault}

/-- A block fails only when a job does that lists it. -/
theorem Move.failedWith (h : Move A w w') (hw : w.cache.StoresSound) (hf : w'.cache.FailedWith i id f) :
    w.cache.FailedWith i id f ∨ ∃ j, A j (.error f) ∧ j.store = i ∧ id ∈ j.blocks := by
  cases h with
  | edit hs he =>
    refine Or.inl (hf.of_modifyStore fun s' hs' h => ?_)
    rw [hs] at hs'
    cases hs'
    exact he.failedWith h
  | claim priority owner hs hrun hin =>
    exact Or.inl (Cache.FailedWith.of_modifyStore (fun s' (hs' : _ = some s') h => h.of_claim (hw hs')) hf)
  | giveBack j => exact Or.inl (Cache.FailedWith.of_modifyStore (fun s' hs' h => h.of_revert (hw hs')) hf)
  | reject => exact Or.inl hf
  | enqueue j hfull => exact Or.inl hf
  | promote job => exact Or.inl hf
  | withdraw owner => exact Or.inl hf
  | @settle c L j result attempts hj ha =>
    obtain ⟨t, ht, hf⟩ := hf
    rcases Cache.getElem?_modifyStore_cases
      (c := { c with queue := c.queue.finish j attempts (Cache.isFailure result) }) ht with ⟨rfl, s, hs, rfl⟩ | ⟨-, hs⟩
    · cases result with
      | ok data => exact Or.inl ⟨s, hs, Store.FailedWith.of_complete (hw hs) hf⟩
      | error f' =>
        rcases Store.FailedWith.of_fail (hw hs) hf with hf | ⟨rfl, hin⟩
        · exact Or.inl ⟨s, hs, hf⟩
        · exact Or.inr ⟨j, ha, rfl, hin⟩
    · exact Or.inl ⟨t, hs, hf⟩

theorem Moves.failedWith (h : Moves A w w') (hw : w.cache.StoresSound) (hf : w'.cache.FailedWith i id f) :
    w.cache.FailedWith i id f ∨ ∃ j, A j (.error f) ∧ j.store = i ∧ id ∈ j.blocks := by
  induction h with
  | refl => exact Or.inl hf
  | tail hms hm ih =>
    rcases hm.failedWith (Moves.storesSound hms hw) hf with hf | hj
    · exact ih hf
    · exact Or.inr hj

theorem Moves.unfailed (h : Moves A w w') (hA : ∀ j r, A j r → Cache.isFailure r = false) (hw : w.cache.StoresSound)
    (hu : w.cache.Unfailed i id) : w'.cache.Unfailed i id := by
  refine Cache.unfailed_iff.mpr fun f hf => ?_
  rcases Moves.failedWith h hw hf with hf | ⟨j, hj, -⟩
  · exact Cache.unfailed_iff.mp hu f hf
  · cases hA j _ hj

end Move

end RangeCache
