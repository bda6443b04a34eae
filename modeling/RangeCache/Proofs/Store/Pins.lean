import RangeCache.Proofs.Store.Edits

/-!
# Pins

Whoever needs the bytes of a block pins it, and takes the pin back when it is done. No other update of a store changes
the pins of its blocks (`SamePins`): a pinned block stays where it is, and a block that is made or evicted has no pin.
Above all a pinned block is not evicted (`samePins_evict`).
-/

namespace RangeCache

/-- Two blocks that differ at most in their states and in the times of their last use. -/
structure Block.Alike (a b : Block) : Prop where
  id : b.id = a.id
  span : b.span = a.span
  pins : b.pins = a.pins

namespace Block.Alike
variable {a b c : Block}

theorem refl (a : Block) : a.Alike a := ⟨rfl, rfl, rfl⟩

theorem trans (h : a.Alike b) (h' : b.Alike c) : a.Alike c :=
  ⟨h'.id.trans h.id, h'.span.trans h.span, h'.pins.trans h.pins⟩

end Block.Alike

namespace Store

/-- A tracked block has at least a number of pins. -/
def Pinned (s : Store) (id n : Nat) : Prop := ∃ b ∈ s.blocks, b.id = id ∧ n ≤ b.pins

/-- What is pinned stays so, and at least as often. -/
def KeepsPins (s t : Store) : Prop := ∀ ⦃id n : Nat⦄, 0 < n → s.Pinned id n → t.Pinned id n

/-- The blocks of a store after updates that neither pin a block nor take a pin back. -/
structure SamePins (s t : Store) : Prop where
  handle : t.handle = s.handle
  config : t.config = s.config
  /-- A pinned block stays tracked. -/
  kept : ∀ b ∈ s.blocks, 0 < b.pins → ∃ b' ∈ t.blocks, b.Alike b'
  /-- A pinned block was there before. -/
  had : ∀ b' ∈ t.blocks, b'.pins = 0 ∨ ∃ b ∈ s.blocks, b.Alike b'
  retired : (∀ b ∈ s.retired, b.pins = 0) → ∀ b ∈ t.retired, b.pins = 0

section SamePins
variable {s t u : Store} {id n : Nat}

theorem SamePins.refl (s : Store) : s.SamePins s where
  handle := rfl
  config := rfl
  kept b hb _ := ⟨b, hb, .refl b⟩
  had b hb := Or.inr ⟨b, hb, .refl b⟩
  retired h := h

theorem SamePins.trans (h : s.SamePins t) (h' : t.SamePins u) : s.SamePins u where
  handle := h'.handle.trans h.handle
  config := h'.config.trans h.config
  kept b hb hpins := by
    obtain ⟨b', hb', hbb'⟩ := h.kept b hb hpins
    obtain ⟨b'', hb'', hbb''⟩ := h'.kept b' hb' (hbb'.pins.symm ▸ hpins)
    exact ⟨b'', hb'', hbb'.trans hbb''⟩
  had b'' hb'' := by
    rcases h'.had b'' hb'' with hnone | ⟨b', hb', hbb''⟩
    · exact Or.inl hnone
    · rcases h.had b' hb' with hnone | ⟨b, hb, hbb'⟩
      · exact Or.inl (hbb''.pins.trans hnone)
      · exact Or.inr ⟨b, hb, hbb'.trans hbb''⟩
  retired hs := h'.retired (h.retired hs)

theorem SamePins.keepsPins (h : s.SamePins t) : s.KeepsPins t := by
  rintro id n hn ⟨b, hb, hid, hpins⟩
  obtain ⟨b', hb', hbb'⟩ := h.kept b hb (Nat.lt_of_lt_of_le hn hpins)
  exact ⟨b', hb', hbb'.id.trans hid, hbb'.pins.symm ▸ hpins⟩

theorem Mapped.samePins {g : Block → Block} (hg : s.Mapped g t) (hpins : ∀ b, (g b).pins = b.pins) :
    s.SamePins t where
  handle := hg.handle
  config := hg.config
  kept b hb _ := ⟨g b, hg.mem_iff.mpr ⟨b, hb, rfl⟩, hg.id b, hg.span b, hpins b⟩
  had b' hb' := by
    obtain ⟨b, hb, rfl⟩ := hg.mem_iff.mp hb'
    exact Or.inr ⟨b, hb, hg.id b, hg.span b, hpins b⟩
  retired hs := hg.retired.symm ▸ hs

theorem Grown.samePins (h : Grown s t) : s.SamePins t where
  handle := h.handle
  config := h.config
  kept b hb _ := ⟨b, h.mem hb, .refl b⟩
  had b hb := by
    rcases h.mem_or_new hb with hb | hnew
    · exact Or.inr ⟨b, hb, .refl b⟩
    · exact Or.inl (by rw [hnew])
  retired hs := h.retired.symm ▸ hs

/-! ### Jobs and their blocks -/

theorem tryOn_pins {f : Block → Option Block} (hf : ∀ b b', f b = some b' → b'.pins = b.pins) (b : Block) :
    (tryOn f b).pins = b.pins := by
  unfold tryOn
  cases h : f b with
  | none => rfl
  | some b' => exact hf b b' h

theorem pins_of_claim? {job : Nat} (b b' : Block) (h : b.claim? job = some b') : b'.pins = b.pins := by
  simp only [Block.claim?, Option.ite_none_right_eq_some, Option.some.injEq] at h
  exact h.2 ▸ rfl

theorem pins_of_leave? {job : Nat} (state : Block → BlockState) (b b' : Block)
    (h : b.leave? job (state b) = some b') : b'.pins = b.pins := by
  simp only [Block.leave?, Option.ite_none_right_eq_some, Option.some.injEq] at h
  exact h.2 ▸ rfl

/-- A change of the blocks of a list that leaves their pins alone. -/
theorem Mapped.samePins_of_mem {g : Block → Block} {ids : List Nat}
    (h : s.Mapped (fun b => if b.id ∈ ids then g b else b) t) (hpins : ∀ b, (g b).pins = b.pins) : s.SamePins t := by
  refine h.samePins fun b => ?_
  split
  · exact hpins b
  · rfl

theorem samePins_claim (hs : s.Sound) (job : Nat) (ids : List Nat) : s.SamePins (s.claim job ids) :=
  (mapped_claim hs job ids).samePins_of_mem (tryOn_pins pins_of_claim?)

theorem samePins_revert (hs : s.Sound) (job : Nat) (ids : List Nat) : s.SamePins (s.revert job ids) :=
  (mapped_revert hs job ids).samePins_of_mem (tryOn_pins (pins_of_leave? fun _ => .pending))

theorem samePins_fail (hs : s.Sound) (job : Nat) (ids : List Nat) (f : Fault) : s.SamePins (s.fail job ids f) :=
  (mapped_fail hs job ids f).samePins_of_mem (tryOn_pins (pins_of_leave? fun _ => .failed f))

theorem samePins_complete (hs : s.Sound) (job : Nat) (ids : List Nat) (start : Nat) (data : Bytes) :
    s.SamePins (s.complete job ids start data) := by
  refine (mapped_complete hs job ids start data).samePins_of_mem fun b => ?_
  exact tryOn_pins (pins_of_leave? fun b => .ready (data.slice ⟨b.span.start - start, b.span.stop - start⟩))
    (b.touch (s.clock + 1))

/-! ### Counts, access times and eviction -/

theorem samePins_count (s : Store) (hits misses fetches clock : Nat) :
    s.SamePins { s with hits, misses, fetches, clock } :=
  (mapped_count s hits misses fetches clock).samePins fun _ => rfl

theorem samePins_touch (s : Store) (i : Nat) : s.SamePins (s.touch i) := by
  refine (mapped_touch s i).samePins fun b => ?_
  split <;> rfl

theorem samePins_evictOne (hs : s.Sound) {b : Block} (hb : b ∈ s.blocks) : s.SamePins (s.evictOne b) where
  handle := (Edit.evict hb).handle
  config := (Edit.evict hb).config
  kept x hx hpins := by
    rcases s.evictOne_eq b with he | ⟨-, hnone, -⟩
    · exact he.symm ▸ ⟨x, hx, .refl x⟩
    · refine ⟨x, mem_evictOne_of_ne hx fun hxb => ?_, .refl x⟩
      -- Only a block without pins is evicted.
      rw [hs.eq_of_id_tracked hx hb hxb, hnone] at hpins
      exact Nat.lt_irrefl 0 hpins
  had x hx := Or.inr ⟨x, mem_evictOne hx, .refl x⟩
  retired h x hx := by
    rcases s.evictOne_eq b with he | ⟨-, hnone, he⟩
    · exact h x (he ▸ hx)
    · rw [he] at hx
      rcases List.mem_append.mp hx with hx | hx
      · exact h x hx
      · rw [List.mem_singleton.mp hx]
        exact hnone

theorem samePins_evictFrom (hs : s.Sound) {l : List Block} (hl : ∀ b ∈ l, b ∈ s.blocks) (hn : (l.map (·.id)).Nodup) :
    s.SamePins (s.evictFrom l) := by
  induction l generalizing s with
  | nil => exact .refl s
  | cons b r ih =>
    obtain ⟨hbr, hr⟩ := List.nodup_cons.mp hn
    have hb := hl b List.mem_cons_self
    unfold evictFrom
    split
    · exact .refl s
    · refine (samePins_evictOne hs hb).trans (ih (sound_evictOne hs hb) (fun x hx => ?_) hr)
      exact mem_evictOne_of_ne (hl x (List.mem_cons_of_mem _ hx)) fun h => hbr (List.mem_map.mpr ⟨x, hx, h⟩)

theorem samePins_evict (hs : s.Sound) : s.SamePins s.evict :=
  samePins_evictFrom hs (fun _ => mem_candidates) (nodup_candidates hs)

end SamePins

/-! ### Taking pins and taking them back -/

section Pin
variable {s t : Store} {id n : Nat}

theorem Pinned.mapped {g : Block → Block} {m : Nat} (h : s.Pinned id n) (hg : s.Mapped g t)
    (hpins : ∀ b, b.id = id → n ≤ b.pins → m ≤ (g b).pins) : t.Pinned id m := by
  obtain ⟨b, hb, hid, hn⟩ := h
  exact ⟨g b, hg.mem_iff.mpr ⟨b, hb, rfl⟩, (hg.id b).trans hid, hpins b hid hn⟩

theorem mapped_pinAll (s : Store) (ids : List Nat) :
    s.Mapped (fun b => { b with pins := b.pins + ids.count b.id }) (s.pin ids) := by
  induction ids generalizing s with
  | nil => exact (mapped_refl s).congr (fun b _ => by simp) (fun _ => rfl) fun _ => rfl
  | cons i r ih =>
    refine ((mapped_pin s i).trans (ih _)).congr (fun b _ => ?_) (fun _ => rfl) fun _ => rfl
    by_cases hi : b.id = i
    · simp only [hi, if_true, Block.pin, List.count_cons_self, Block.mk.injEq, true_and, and_true]
      omega
    · simp [hi, Ne.symm hi]

theorem mapped_unpinAll (s : Store) (ids : List Nat) :
    s.Mapped (fun b => { b with pins := b.pins - ids.count b.id }) (s.unpin ids) := by
  induction ids generalizing s with
  | nil => exact (mapped_refl s).congr (fun b _ => by simp) (fun _ => rfl) fun _ => rfl
  | cons i r ih =>
    refine ((mapped_unpin s i).trans (ih _)).congr (fun b _ => ?_) (fun _ => rfl) fun _ => rfl
    by_cases hi : b.id = i
    · simp only [hi, if_true, Block.unpin, List.count_cons_self, Block.mk.injEq, true_and, and_true]
      omega
    · simp [hi, Ne.symm hi]

theorem Pinned.pin (h : s.Pinned id n) (ids : List Nat) : (s.pin ids).Pinned id (n + ids.count id) :=
  h.mapped (mapped_pinAll s ids) fun b hid hn => by
    subst hid
    exact Nat.add_le_add_right hn _

theorem Pinned.unpin {ids : List Nat} (h : s.Pinned id (n + ids.count id)) : (s.unpin ids).Pinned id n :=
  h.mapped (mapped_unpinAll s ids) fun b hid hn => by
    subst hid
    exact Nat.le_sub_of_add_le hn

end Pin

end Store

end RangeCache
