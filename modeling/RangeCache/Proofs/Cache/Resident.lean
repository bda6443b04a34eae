import RangeCache.Proofs.Cache.Actions
import RangeCache.Proofs.Store.Resident
import RangeCache.Store.Stats

/-!
# What a store tells about its bytes

A store may be changed by edits and by what jobs do with its blocks (`Store.Change`). It need not be their owner that
does it: a job that comes too late, or that never owned a block, is refused. After any changes the store balances, and
so what it tells of its bytes and of its blocks is so (`Store.Tells`). The stores of a cache are such stores
(`Cache.exists_changes`).
-/

namespace RangeCache

open Relation

namespace Store

/-- All that can be done to a store: an edit, or what a job does with blocks, whoever owns them. -/
inductive Change (s : Store) : Store → Prop where
  | edit {t : Store} (h : s.Edit t) : Change s t
  | claim (job : Nat) (ids : List Nat) : Change s (s.claim job ids)
  | revert (job : Nat) (ids : List Nat) : Change s (s.revert job ids)
  | fail (job : Nat) (ids : List Nat) (f : Fault) : Change s (s.fail job ids f)
  | complete (job : Nat) (ids : List Nat) (start : Nat) (data : Bytes) : Change s (s.complete job ids start data)

/-- Any number of changes. -/
abbrev Changes : Store → Store → Prop := ReflTransGen Change

/-- What a store tells about its bytes and its blocks is so. -/
structure Tells (s : Store) : Prop where
  /-- The number of resident bytes is the sum of the lengths of the tracked blocks whose bytes are there. -/
  resident : s.stats.resident = ((s.blocks.filter fun b => b.state.isReady).map (·.length)).sum
  /-- All blocks whose bytes are there are tracked. -/
  tracked : ∀ b ∈ s.blocks ++ s.retired, b.state.isReady = true → b ∈ s.blocks
  /-- No block that was ever made is lost. -/
  made : ∀ id < s.nextBlock, ∃ b ∈ s.blocks ++ s.retired, b.id = id
  /-- What an eviction takes from the number of resident bytes is there. -/
  evicted : ∀ b ∈ s.blocks, evictable b = true → (s.evictOne b).stats.resident + b.length = s.stats.resident
  ready : s.stats.ready = (s.blocks.filter fun b => b.state.isReady).length
  inFlight : s.stats.inFlight = (s.blocks.filter fun b => b.state.isInFlight).length

section Changes
variable {s t : Store}

theorem Change.sound (h : s.Change t) (hs : s.Sound) : t.Sound := by
  cases h with
  | edit h => exact h.sound hs
  | claim job ids => exact hs.claim job ids
  | revert job ids => exact hs.revert job ids
  | fail job ids f => exact hs.settleBlocks { (default : Job) with id := job, blocks := ids } (.error f)
  | complete job ids start data =>
    exact hs.settleBlocks { (default : Job) with id := job, blocks := ids, span := ⟨start, start⟩ } (.ok data)

theorem Change.balanced (h : s.Change t) (hb : s.Balanced) (hs : s.Sound) : t.Balanced := by
  cases h with
  | edit h => exact h.balanced hb hs
  | claim job ids => exact balanced_claim hb hs job ids
  | revert job ids => exact balanced_revert hb hs job ids
  | fail job ids f => exact balanced_fail hb hs job ids f
  | complete job ids start data => exact balanced_complete hb hs job ids start data

theorem Changes.sound_balanced (h : s.Changes t) (hs : s.Sound) (hb : s.Balanced) : t.Sound ∧ t.Balanced := by
  induction h with
  | refl => exact ⟨hs, hb⟩
  | tail _ hc ih => exact ⟨hc.sound ih.1, hc.balanced ih.2 ih.1⟩

theorem Balanced.tells (h : s.Balanced) (hs : s.Sound) : s.Tells where
  resident := h.resident
  tracked b hb hready := by
    rcases List.mem_append.mp hb with hb | hb
    · exact hb
    · rw [hs.retired b hb] at hready
      cases hready
  made id hid := h.exists_of_lt hs hid
  evicted b hb he := resident_evictOne h hs hb he
  ready := List.countP_eq_length_filter
  inFlight := List.countP_eq_length_filter

theorem sound_new (handle : Handle) (config : StoreConfig) : ({ handle, config } : Store).Sound :=
  ⟨.nil, nofun, nofun, fun _ => nofun, .nil, nofun, nofun, nofun⟩

end Changes

end Store

/-! ### The stores of a cache -/

section Moves
variable {A : Job → Except Fault Bytes → Prop} {w w' : Work} {i : Nat} {t : Store}

theorem Cache.exists_changes_modifyStore {c : Cache} {k : Nat} {f : Store → Store}
    (hf : ∀ s, c.stores[k]? = some s → s.Changes (f s)) (ht : (c.modifyStore k f).stores[i]? = some t) :
    ∃ s, c.stores[i]? = some s ∧ s.Changes t := by
  rcases getElem?_modifyStore_cases ht with ⟨rfl, s, hs, rfl⟩ | ⟨-, hs⟩
  · exact ⟨s, hs, hf s hs⟩
  · exact ⟨t, hs, .refl⟩

/-- A move changes the stores, and adds none. -/
theorem Move.exists_changes (h : Move A w w') (ht : w'.cache.stores[i]? = some t) :
    ∃ s, w.cache.stores[i]? = some s ∧ s.Changes t := by
  cases h with
  | edit hs he =>
    refine Cache.exists_changes_modifyStore (fun s' hs' => ?_) ht
    rw [hs] at hs'
    cases hs'
    exact .single (.edit he)
  | @claim c L k s run priority owner hs hrun hin =>
    exact Cache.exists_changes_modifyStore (c := { c with queue := c.queue.takeId.1 })
      (fun s' _ => .single (.claim _ _)) ht
  | giveBack j => exact Cache.exists_changes_modifyStore (fun s' _ => .single (.revert _ _)) ht
  | reject j hfull => exact ⟨t, ht, .refl⟩
  | enqueue j hfull => exact ⟨t, ht, .refl⟩
  | promote job => exact ⟨t, ht, .refl⟩
  | withdraw owner => exact ⟨t, ht, .refl⟩
  | @settle c L j result attempts hj ha =>
    refine Cache.exists_changes_modifyStore
      (c := { c with queue := c.queue.finish j attempts (Cache.isFailure result) }) (fun s' _ => ?_) ht
    cases result with
    | ok data => exact .single (.complete _ _ _ _)
    | error f => exact .single (.fail _ _ _)

theorem Moves.exists_changes (h : Moves A w w') (ht : w'.cache.stores[i]? = some t) :
    ∃ s, w.cache.stores[i]? = some s ∧ s.Changes t := by
  induction h generalizing t with
  | refl => exact ⟨t, ht, .refl⟩
  | tail _ hm ih =>
    obtain ⟨u, hu, hut⟩ := hm.exists_changes ht
    obtain ⟨s, hs, hsu⟩ := ih hu
    exact ⟨s, hs, hsu.trans hut⟩

end Moves

namespace Cache

theorem exists_changes_act {c : Cache} (hc : c.StoresSound) (a : Action) {i : Nat} {t : Store}
    (ht : (c.act a).stores[i]? = some t) :
    (∃ handle config, ({ handle, config } : Store).Changes t) ∨ ∃ s, c.stores[i]? = some s ∧ s.Changes t := by
  rcases moves_act hc a with ⟨handle, config, he⟩ | hm
  · rw [he] at ht
    rcases getElem?_addStore_cases ht with hs | rfl
    · exact Or.inr ⟨t, hs, .refl⟩
    · exact Or.inl ⟨handle, config, .refl⟩
  · exact Or.inr (hm.exists_changes ht)

theorem exists_changes_acts {c : Cache} (hc : Work.Sound .any ⟨c, []⟩) (l : List Action) {i : Nat} {t : Store}
    (ht : (c.acts l).stores[i]? = some t) :
    (∃ handle config, ({ handle, config } : Store).Changes t) ∨ ∃ s, c.stores[i]? = some s ∧ s.Changes t := by
  induction l generalizing c with
  | nil => exact Or.inr ⟨t, ht, .refl⟩
  | cons a l ih =>
    rcases ih (sound_act hc a) ht with hnew | ⟨u, hu, hut⟩
    · exact Or.inl hnew
    · rcases exists_changes_act hc.stores a hu with ⟨handle, config, hnew⟩ | ⟨s, hs, hsu⟩
      · exact Or.inl ⟨handle, config, hnew.trans hut⟩
      · exact Or.inr ⟨s, hs, hsu.trans hut⟩

/-- Whatever is done to a cache, its stores are what changes made of empty ones. -/
theorem exists_changes (config : QueueConfig) (l : List Action) {t : Store} (ht : t ∈ ((new config).acts l).stores) :
    ∃ handle config, ({ handle, config } : Store).Changes t := by
  obtain ⟨i, ht⟩ := List.mem_iff_getElem?.mp ht
  rcases exists_changes_acts (.new .any config) l ht with hnew | ⟨s, hs, -⟩
  · exact hnew
  · cases hs

end Cache

/-- What a store tells about its bytes and its blocks is so after any changes, whichever jobs completed blocks, failed
    or gave them back, and whether they owned them or not; and so it is of every store of a cache, at all times. -/
theorem tells_of_changes :
    (∀ handle config t, ({ handle, config } : Store).Changes t → t.Tells) ∧
      ∀ config l, ∀ t ∈ ((Cache.new config).acts l).stores, t.Tells := by
  have hchanges : ∀ handle config t, ({ handle, config } : Store).Changes t → t.Tells := by
    intro handle config t h
    obtain ⟨hs, hb⟩ := h.sound_balanced (Store.sound_new handle config) (Store.balanced_new handle config)
    exact hb.tells hs
  refine ⟨hchanges, fun config l t ht => ?_⟩
  obtain ⟨handle, config', h⟩ := Cache.exists_changes config l ht
  exact hchanges handle config' t h

end RangeCache
