import Mathlib.Data.List.Permutation
import RangeCache.Proofs.Cache.Budget
import RangeCache.Proofs.Cache.Resident

/-!
# The victims of an eviction

The blocks that may be evicted have an order: by their last access, and by where they start if that is the same. An
eviction gives up the first ones of them, as many as it takes to fit the budget and not one more, or all of them
(`Store.Evicts`). It changes nothing else of the store, and tells how many they were (`evicts_of_changes`).
-/

namespace RangeCache

namespace Store

/-- Whether a block is evicted before another one. -/
def Before (a b : Block) : Prop :=
  a.lastAccess < b.lastAccess ∨ a.lastAccess = b.lastAccess ∧ a.span.start < b.span.start

/-- The lengths of some blocks, taken together. -/
def lengths (l : List Block) : Nat := (l.map (·.length)).sum

/-- An eviction makes `t` of a store `s`: of the blocks that it might take it takes the victims and leaves the rest. -/
structure Evicts (s : Store) (victims rest : List Block) (t : Store) : Prop where
  /-- It might take the blocks whose bytes are there and that nobody pins. -/
  eligible : (victims ++ rest).Perm (s.blocks.filter fun b => b.state.isReady && b.pins == 0)
  ordered : (victims ++ rest).Pairwise Before
  /-- The first victims without the last one are not enough. -/
  needed : ∀ n < victims.length, s.config.memoryBudget + lengths (victims.take n) < s.resident
  /-- All victims are enough, unless there are no others. -/
  enough : t.resident ≤ s.config.memoryBudget ∨ rest = []
  held : s.resident = heldBy s.blocks
  taken : t.resident + lengths victims = s.resident
  /-- The victims are retired, and all the rest of the store is as it was. -/
  result : t = { s with
    blocks := s.blocks.filter fun b => b ∉ victims
    retired := s.retired ++ victims.map fun b => { b with state := .evicted }
    resident := t.resident
    evictions := s.evictions + victims.length }

section Evicts
variable {s t : Store} {b : Block} {victims rest l : List Block}

theorem usedBefore_iff {a b : Block} : usedBefore a b = true ↔
    a.lastAccess < b.lastAccess ∨ a.lastAccess = b.lastAccess ∧ a.span.start ≤ b.span.start := by
  simp [usedBefore]

/-- No two candidates start at the same offset, so that one of any two is before the other. -/
theorem pairwise_candidates (hs : s.Sound) : s.candidates.Pairwise Before := by
  have hsorted : s.candidates.Pairwise fun a b => usedBefore a b = true := by
    refine List.pairwise_mergeSort (fun a b c hab hbc => ?_) (fun a b => ?_) _
    · rw [usedBefore_iff] at *
      omega
    · rw [Bool.or_eq_true, usedBefore_iff, usedBefore_iff]
      omega
  have hne : s.candidates.Pairwise fun a b => a.id ≠ b.id := List.pairwise_map.mp (nodup_candidates hs)
  refine (hsorted.and hne).imp_of_mem fun {a b} ha hb ⟨hab, hid⟩ => ?_
  have hstart : a.span.start ≠ b.span.start := fun h => by
    have ha := mem_candidates ha
    have hb := mem_candidates hb
    have hna := hs.nonempty a ha
    have hnb := hs.nonempty b hb
    exact hid (congrArg Block.id (hs.eq_of_mem_span (o := a.span.start) ha hb
      (Span.mem_def.mpr ⟨Nat.le_refl _, hna⟩) (Span.mem_def.mpr ⟨by omega, by omega⟩)))
  rw [usedBefore_iff] at hab
  unfold Before
  omega

theorem evictOne_of_evictable (he : evictable b = true) : s.evictOne b = { s with
    blocks := s.blocks.filter fun x => x.id != b.id
    retired := s.retired ++ [{ b with state := .evicted }]
    resident := s.resident - b.length
    evictions := s.evictions + 1 } := by
  have : b.state.isReady = true ∧ b.pins = 0 := by simpa [evictable] using he
  simp only [evictOne, Block.evict?, if_pos this]

/-- Evicting a block leaves the others that may be evicted. -/
theorem perm_evictOne (hs : s.Sound) (hmem : b ∈ s.blocks) (he : evictable b = true) :
    (s.blocks.filter evictable).Perm (b :: (s.evictOne b).blocks.filter evictable) := by
  have hnodup : ((s.blocks.filter evictable).map (·.id)).Nodup := hs.ids_tracked.sublist (List.filter_sublist.map _)
  rw [evictOne_of_evictable he]
  dsimp only
  rw [List.filter_comm]
  exact perm_cons_filter_ne (f := fun x : Block => x.id) hnodup (List.mem_filter.mpr ⟨hmem, he⟩)

/-- A store that fits its budget, or has nothing to give up, loses nothing. -/
theorem Evicts.none (hb : s.Balanced) (hl : rest.Perm (s.blocks.filter evictable)) (ho : rest.Pairwise Before)
    (h : s.resident ≤ s.config.memoryBudget ∨ rest = []) : s.Evicts [] rest s where
  eligible := hl
  ordered := ho
  needed := nofun
  enough := h
  held := hb.resident
  taken := rfl
  result := by simp

/-- The first candidate, and what an eviction takes after it. -/
theorem Evicts.cons (hs : s.Sound) (hb : s.Balanced) (hmem : b ∈ s.blocks) (he : evictable b = true)
    (hover : s.config.memoryBudget < s.resident) (hbefore : ∀ x ∈ victims ++ rest, Before b x)
    (h : (s.evictOne b).Evicts victims rest t) : s.Evicts (b :: victims) rest t := by
  have hone := evictOne_of_evictable (s := s) he
  have hconfig : (s.evictOne b).config = s.config := by rw [hone]
  have hresident := resident_evictOne hb hs hmem he
  refine ⟨(h.eligible.cons b).trans (perm_evictOne hs hmem he).symm, List.pairwise_cons.mpr ⟨hbefore, h.ordered⟩,
    fun n hn => ?_, hconfig ▸ h.enough, hb.resident, ?_, ?_⟩
  · cases n with
    | zero => simpa [lengths] using hover
    | succ n =>
      have := h.needed n (Nat.lt_of_succ_lt_succ hn)
      rw [hconfig] at this
      simp only [lengths, List.take_succ_cons, List.map_cons, List.sum_cons] at this ⊢
      omega
  · have := h.taken
    simp only [lengths, List.map_cons, List.sum_cons] at this ⊢
    omega
  · have hkept : (s.blocks.filter fun x => x.id != b.id).filter (fun x => x ∉ victims) =
        s.blocks.filter fun x => x ∉ b :: victims := by
      rw [List.filter_filter]
      refine List.filter_congr fun x hx => ?_
      by_cases hxb : x = b
      · simp [hxb]
      · have hid : x.id ≠ b.id := fun h => hxb (hs.eq_of_id_tracked hx hmem h)
        simp [hxb, hid]
    refine h.result.trans ?_
    rw [hone]
    simp only [Store.mk.injEq, true_and, List.map_cons, List.length_cons, List.append_assoc, List.cons_append,
      List.nil_append]
    exact ⟨hkept, by omega⟩

/-- The induction is on the candidates that are left. -/
theorem exists_evicts_evictFrom (hs : s.Sound) (hb : s.Balanced) (hl : l.Perm (s.blocks.filter evictable))
    (ho : l.Pairwise Before) : ∃ victims rest, s.Evicts victims rest (s.evictFrom l) := by
  induction l generalizing s with
  | nil => exact ⟨[], [], .none hb hl ho (Or.inr rfl)⟩
  | cons b r ih =>
    obtain ⟨hmem, he⟩ := List.mem_filter.mp (hl.mem_iff.mp List.mem_cons_self)
    unfold evictFrom
    split
    · exact ⟨[], b :: r, .none hb hl ho (Or.inl ‹_›)⟩
    · rename_i hover
      obtain ⟨hbr, hr⟩ := List.pairwise_cons.mp ho
      have hleft := (hl.trans (perm_evictOne hs hmem he)).cons_inv
      obtain ⟨victims, rest, h⟩ := ih (sound_evictOne hs hmem) (balanced_evictOne hb hs hmem) hleft hr
      refine ⟨b :: victims, rest, h.cons hs hb hmem he (Nat.lt_of_not_le hover) fun x hx => hbr x ?_⟩
      exact hleft.mem_iff.mpr (h.eligible.mem_iff.mp hx)

theorem exists_evicts (hs : s.Sound) (hb : s.Balanced) :
    ∃ victims rest, s.Evicts victims rest s.evict ∧ s.evict.Tight := by
  obtain ⟨victims, rest, h⟩ := exists_evicts_evictFrom hs hb (List.mergeSort_perm _ _) (pairwise_candidates hs)
  exact ⟨victims, rest, h, tight_evict s⟩

end Evicts

end Store

/-- A cache that evicts blocks of a store tells how many there were, and does nothing to the other stores. -/
theorem Cache.evict_eq {c : Cache} {i : Nat} {s : Store} {victims rest : List Block} (hs : c.stores[i]? = some s)
    (h : s.Evicts victims rest s.evict) :
    c.evict i = ({ c with stores := c.stores.set i s.evict }, victims.length) := by
  have hcount : s.evict.evictions - s.evictions = victims.length := by
    rw [h.result]
    exact Nat.add_sub_cancel_left _ _
  have hset : c.stores.modify i Store.evict = c.stores.set i s.evict := by
    rw [List.modify_eq_set_getElem?, hs]
    rfl
  simp only [Cache.evict, hs, hcount, Cache.modifyStore, hset]

/-- Whatever was done to a store, an eviction gives up the first of the blocks that it may give up, as few as bring the
    store to its budget, or all; then the store fits its budget, or every block with bytes is pinned. So it is at every
    moment for each store of a cache, which tells how many blocks it gave up and keeps all other stores. -/
theorem evicts_of_changes :
    (∀ handle config s, ({ handle, config } : Store).Changes s →
      ∃ victims rest, s.Evicts victims rest s.evict ∧ s.evict.Tight) ∧
    ∀ config l i s, ((Desk.new config).run l).cache.stores[i]? = some s →
      ∃ victims rest, s.Evicts victims rest s.evict ∧ s.evict.Tight ∧
        ((Desk.new config).run l).cache.evict i = ({ ((Desk.new config).run l).cache with
          stores := ((Desk.new config).run l).cache.stores.set i s.evict }, victims.length) := by
  refine ⟨fun handle config s h => ?_, fun config l i s hs => ?_⟩
  · obtain ⟨hs, hb⟩ := h.sound_balanced (Store.sound_new handle config) (Store.balanced_new handle config)
    exact Store.exists_evicts hs hb
  · have hb := Desk.balanced_run config l s (List.mem_of_getElem? hs)
    obtain ⟨victims, rest, h, ht⟩ := Store.exists_evicts (((Desk.sound_new config).run l).work.stores hs) hb
    exact ⟨victims, rest, h, ht, Cache.evict_eq hs h⟩

/-- The blocks of one read arrive and it is given up, while another read still waits for the first block. -/
def spared : List Desk.Event :=
  [.act (.addStore ⟨"a", 30, none⟩ { blockSize := 10, memoryBudget := 20 }),
    .act (.beginRead 0 ⟨0, 30⟩ .exact none), .act (.beginRead 0 ⟨0, 10⟩ .exact none),
    .act (.finish ⟨1, 0, "a", [0, 1, 2], ⟨0, 30⟩, .immediate, none⟩ 1 (.ok (List.replicate 30 0))),
    .giveUp ⟨0, ⟨0, 30⟩, none, [0, 1, 2], [0, 1, 2], []⟩]

/-- Of three blocks of ten bytes the first is pinned by a read that waits, and the budget is twenty bytes: the second
    one is evicted. -/
theorem evicts_of_changes_pinned : ∃ s victims rest,
    ((Desk.new {}).run spared).cache.stores[0]? = some s ∧ s.blocks.map (·.pins) = [1, 0, 0] ∧ s.resident = 30 ∧
    s.Evicts victims rest s.evict ∧ victims.length = 1 := by
  have hmap : (((Desk.new {}).run spared).cache.stores[0]?).map
      (fun s => (s.blocks.map (·.pins), s.resident, s.evict.evictions - s.evictions)) = some ([1, 0, 0], 30, 1) := by
    cbv
  obtain ⟨s, hs, hvalues⟩ := Option.map_eq_some_iff.mp hmap
  obtain ⟨hpins, hvalues⟩ := Prod.mk.inj hvalues
  obtain ⟨hresident, hcount⟩ := Prod.mk.inj hvalues
  obtain ⟨victims, rest, h, -, heq⟩ := evicts_of_changes.2 {} spared 0 s hs
  have hnumber := congrArg Prod.snd heq
  simp only [Cache.evict, hs, hcount] at hnumber
  exact ⟨s, victims, rest, hs, hpins, hresident, h, hnumber.symm⟩

end RangeCache
