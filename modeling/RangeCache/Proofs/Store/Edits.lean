import RangeCache.Proofs.Store.Updates
import Mathlib.Data.List.Nodup
import Mathlib.Logic.Relation

/-!
# Edits

The updates of a store that leave the owner of every block as it is: making blocks, pinning and touching
them, counting, and evicting. `Edits` is any number of them. A store stays sound under edits, and what is
known of its blocks stays known. Filling and evicting are edits (`edits_fillAll`, `edits_evict`).
-/

namespace RangeCache.Store

open Relation

/-- An update that leaves the owner of every block as it is. -/
inductive Edit (s : Store) : Store → Prop where
  | grow {t : Store} (h : Grown s t) : Edit s t
  | pin (id : Nat) : Edit s (s.modify id Block.pin)
  | unpin (id : Nat) : Edit s (s.modify id Block.unpin)
  | touch (id : Nat) : Edit s (s.touch id)
  | count (hits misses fetches clock : Nat) : Edit s { s with hits, misses, fetches, clock }
  | evict {b : Block} (hb : b ∈ s.blocks) : Edit s (s.evictOne b)

/-- Any number of edits. -/
abbrev Edits : Store → Store → Prop := ReflTransGen Edit

section Marks
variable (s : Store)

theorem mapped_pin (i : Nat) : s.Mapped (fun b => if b.id = i then b.pin else b) (s.modify i Block.pin) :=
  mapped_modify s i (fun _ => rfl) fun _ => rfl

theorem mapped_unpin (i : Nat) : s.Mapped (fun b => if b.id = i then b.unpin else b) (s.modify i Block.unpin) :=
  mapped_modify s i (fun _ => rfl) fun _ => rfl

theorem mapped_touch (i : Nat) : s.Mapped (fun b => if b.id = i then b.touch s.clock else b) (s.touch i) :=
  mapped_modify s i (fun _ => rfl) fun _ => rfl

theorem mapped_count (hits misses fetches clock : Nat) : s.Mapped id { s with hits, misses, fetches, clock } :=
  { mapped_refl s with }

end Marks

/-- An edit maps the blocks and keeps their states, or makes blocks, or evicts one. -/
theorem Edit.cases_mapped {s t : Store} (h : s.Edit t) :
    (∃ g, s.Mapped g t ∧ ∀ b, (g b).state = b.state) ∨ Grown s t ∨ ∃ b ∈ s.blocks, t = s.evictOne b := by
  cases h with
  | grow h => exact Or.inr (Or.inl h)
  | pin id => exact Or.inl ⟨_, mapped_pin s id, fun b => by by_cases h : b.id = id <;> simp [h, Block.pin]⟩
  | unpin id => exact Or.inl ⟨_, mapped_unpin s id, fun b => by by_cases h : b.id = id <;> simp [h, Block.unpin]⟩
  | touch id => exact Or.inl ⟨_, mapped_touch s id, fun b => by by_cases h : b.id = id <;> simp [h, Block.touch]⟩
  | count hits misses fetches clock => exact Or.inl ⟨_, mapped_count s hits misses fetches clock, fun _ => rfl⟩
  | evict hb => exact Or.inr (Or.inr ⟨_, hb, rfl⟩)

/-! ### Eviction -/

theorem evictOne_eq (s : Store) (b : Block) : s.evictOne b = s ∨ b.state.isReady = true ∧ b.pins = 0 ∧
    s.evictOne b = { s with
      blocks := s.blocks.filter fun x => x.id != b.id
      retired := s.retired ++ [{ b with state := .evicted }]
      resident := s.resident - b.length
      evictions := s.evictions + 1 } := by
  unfold evictOne Block.evict?
  by_cases h : b.state.isReady = true ∧ b.pins = 0
  · exact Or.inr ⟨h.1, h.2, by rw [if_pos h]⟩
  · exact Or.inl (by rw [if_neg h])

section EvictOne
variable {s : Store} {b : Block}

theorem mem_evictOne {x : Block} (hx : x ∈ (s.evictOne b).blocks) : x ∈ s.blocks := by
  rcases s.evictOne_eq b with h | ⟨-, -, h⟩
  · exact h ▸ hx
  · rw [h] at hx
    exact (List.mem_filter.mp hx).1

theorem mem_evictOne_of_ne {x : Block} (hx : x ∈ s.blocks) (hne : x.id ≠ b.id) : x ∈ (s.evictOne b).blocks := by
  rcases s.evictOne_eq b with h | ⟨-, -, h⟩
  · rw [h]
    exact hx
  · rw [h]
    exact List.mem_filter.mpr ⟨hx, by simpa using hne⟩

theorem sound_evictOne (hs : s.Sound) (hb : b ∈ s.blocks) : (s.evictOne b).Sound := by
  rcases s.evictOne_eq b with h | ⟨-, -, h⟩
  · exact h.symm ▸ hs
  · have sub : ∀ x ∈ (s.evictOne b).blocks, x ∈ s.blocks := fun x hx => mem_evictOne hx
    have hblocks : (s.evictOne b).blocks = s.blocks.filter fun x => x.id != b.id := by rw [h]
    have hretired : (s.evictOne b).retired = s.retired ++ [{ b with state := .evicted }] := by rw [h]
    have hhandle : (s.evictOne b).handle = s.handle := by rw [h]
    have hconfig : (s.evictOne b).config = s.config := by rw [h]
    have hnext : (s.evictOne b).nextBlock = s.nextBlock := by rw [h]
    refine ⟨?_, fun x hx => hs.nonempty x (sub x hx), fun x hx => hhandle ▸ hs.inside x (sub x hx),
      fun hp x hx => ?_, ?_, fun x hx => ?_, fun x hx => hs.tracked x (sub x hx), fun x hx => ?_⟩
    · rw [hblocks]
      exact hs.ordered.sublist List.filter_sublist
    · rw [hconfig] at hp ⊢
      exact hs.inCell hp x (sub x hx)
    · -- The identifiers are those from before, with one of them moved to the end.
      have hnd := hs.ids
      rw [List.map_append, List.nodup_append] at hnd
      obtain ⟨h1, h2, h3⟩ := hnd
      rw [hblocks, hretired, List.map_append, List.map_append, ← List.append_assoc, List.nodup_append,
        List.nodup_append]
      have hsub := (List.filter_sublist (p := fun x => x.id != b.id) (l := s.blocks)).map (·.id)
      refine ⟨⟨h1.sublist hsub, h2, fun i hi => h3 i (hsub.mem hi)⟩, List.nodup_singleton _, ?_⟩
      · intro i hi j hj hij
        simp only [List.map_cons, List.map_nil, List.mem_singleton] at hj
        subst hij hj
        rcases List.mem_append.mp hi with hi | hi
        · obtain ⟨x, hx, hid⟩ := List.mem_map.mp hi
          simpa [hid] using (List.mem_filter.mp hx).2
        · exact h3 b.id (List.mem_map_of_mem hb) b.id hi rfl
    · rw [hnext]
      rw [hretired] at hx
      rcases List.mem_append.mp hx with hx | hx
      · exact hs.fresh x (List.mem_append_left _ (sub x hx))
      · rcases List.mem_append.mp hx with hx | hx
        · exact hs.fresh x (List.mem_append_right _ hx)
        · rw [List.mem_singleton.mp hx]
          exact hs.fresh b (List.mem_append_left _ hb)
    · rw [hretired] at hx
      rcases List.mem_append.mp hx with hx | hx
      · exact hs.retired x hx
      · rw [List.mem_singleton.mp hx]

theorem owns_evictOne_iff (hs : s.Sound) (hb : b ∈ s.blocks) {n i : Nat} {span : Span} :
    (s.evictOne b).Owns n i span ↔ s.Owns n i span := by
  rcases s.evictOne_eq b with h | ⟨hr, -, -⟩
  · rw [h]
  · constructor
    · rintro ⟨x, hx, hrest⟩
      exact ⟨x, mem_evictOne hx, hrest⟩
    · rintro ⟨x, hx, hid, hsp, hst⟩
      refine ⟨x, mem_evictOne_of_ne hx fun hxb => ?_, hid, hsp, hst⟩
      rw [hs.eq_of_id_tracked hx hb hxb] at hst
      rw [hst] at hr
      cases hr

/-- What is known of a block is not forgotten when it is evicted. -/
theorem knows_evictOne (hs : s.Sound) (hb : b ∈ s.blocks) {i : Nat} {span : Span} (hk : s.Knows i span) :
    (s.evictOne b).Knows i span := by
  rcases s.evictOne_eq b with h | ⟨-, -, h⟩
  · rw [h]
    exact hk
  · obtain ⟨x, hx, hid, hsp⟩ := hk
    rcases List.mem_append.mp hx with hx | hx
    · by_cases hxb : x.id = b.id
      · rw [hs.eq_of_id_tracked hx hb hxb] at hid hsp
        exact ⟨{ b with state := .evicted }, by rw [h]; simp, hid, hsp⟩
      · exact ⟨x, List.mem_append_left _ (mem_evictOne_of_ne hx hxb), hid, hsp⟩
    · exact ⟨x, by rw [h]; simp [hx], hid, hsp⟩

end EvictOne

/-! ### What edits keep -/

section Kept
variable {s t : Store}

theorem Edit.handle (h : s.Edit t) : t.handle = s.handle := by
  rcases h.cases_mapped with ⟨g, hg, -⟩ | hg | ⟨b, -, rfl⟩
  · exact hg.handle
  · exact hg.handle
  · rcases s.evictOne_eq b with h | ⟨-, -, h⟩ <;> rw [h]

theorem Edit.config (h : s.Edit t) : t.config = s.config := by
  rcases h.cases_mapped with ⟨g, hg, -⟩ | hg | ⟨b, -, rfl⟩
  · exact hg.config
  · exact hg.config
  · rcases s.evictOne_eq b with h | ⟨-, -, h⟩ <;> rw [h]

theorem Edit.sound (h : s.Edit t) (hs : s.Sound) : t.Sound := by
  rcases h.cases_mapped with ⟨g, hg, hst⟩ | hg | ⟨b, hb, rfl⟩
  · exact hg.sound hs fun b hb => by rw [hst]; exact hs.tracked b hb
  · exact hg.sound hs
  · exact sound_evictOne hs hb

theorem Edit.owns_iff (h : s.Edit t) (hs : s.Sound) {n i : Nat} {span : Span} : t.Owns n i span ↔ s.Owns n i span := by
  rcases h.cases_mapped with ⟨g, hg, hst⟩ | hg | ⟨b, hb, rfl⟩
  · exact hg.owns_iff_of_state hst
  · constructor
    · rintro ⟨b, hb, hrest⟩
      rcases hg.mem_or_new hb with hb | hb
      · exact ⟨b, hb, hrest⟩
      · rw [hb] at hrest
        cases hrest.2.2
    · rintro ⟨b, hb, hrest⟩
      exact ⟨b, hg.mem hb, hrest⟩
  · exact owns_evictOne_iff hs hb

theorem Edit.knows (h : s.Edit t) (hs : s.Sound) {i : Nat} {span : Span} (hk : s.Knows i span) : t.Knows i span := by
  rcases h.cases_mapped with ⟨g, hg, -⟩ | hg | ⟨b, hb, rfl⟩
  · exact hg.knows_iff.mpr hk
  · obtain ⟨b, hb, hrest⟩ := hk
    refine ⟨b, ?_, hrest⟩
    rcases List.mem_append.mp hb with hb | hb
    · exact List.mem_append_left _ (hg.mem hb)
    · exact List.mem_append_right _ (hg.retired.symm ▸ hb)
  · exact knows_evictOne hs hb hk

theorem Edit.holds {C : Contents} (h : s.Edit t) (hc : s.Holds C) : t.Holds C := by
  rcases h.cases_mapped with ⟨g, hg, hst⟩ | hg | ⟨b, hb, rfl⟩
  · exact hg.holds hc fun b _ bytes hr => Or.inl (by rwa [hst] at hr)
  · intro b hb bytes hr
    rw [hg.handle]
    rcases hg.mem_or_new hb with hb | hb
    · exact hc b hb bytes hr
    · rw [hb] at hr
      cases hr
  · intro x hx bytes hr
    rw [(Edit.evict hb).handle]
    exact hc x (mem_evictOne hx) bytes hr

theorem Edits.sound (h : s.Edits t) (hs : s.Sound) : t.Sound := by
  induction h with
  | refl => exact hs
  | tail _ he ih => exact he.sound ih

end Kept

/-! ### Requests are edits -/

section Requests
variable {s : Store}

theorem edits_fillAll (hs : s.Sound) (fit : Fit) (spans : List Span) : s.Edits (s.fillAll fit spans) :=
  .single (.grow (grown_fillAll hs fit spans))

theorem edits_pin (ids : List Nat) (s : Store) : s.Edits (s.pin ids) := by
  induction ids generalizing s with
  | nil => exact .refl
  | cons i r ih => exact (ReflTransGen.single (Edit.pin i)).trans (ih _)

theorem edits_unpin (ids : List Nat) (s : Store) : s.Edits (s.unpin ids) := by
  induction ids generalizing s with
  | nil => exact .refl
  | cons i r ih => exact (ReflTransGen.single (Edit.unpin i)).trans (ih _)

theorem edits_evictFrom (hs : s.Sound) {l : List Block} (hl : ∀ b ∈ l, b ∈ s.blocks) (hn : (l.map (·.id)).Nodup) :
    s.Edits (s.evictFrom l) := by
  induction l generalizing s with
  | nil => exact .refl
  | cons b r ih =>
    obtain ⟨hbr, hr⟩ := List.nodup_cons.mp hn
    have hb := hl b List.mem_cons_self
    unfold evictFrom
    split
    · exact .refl
    · refine (ReflTransGen.single (Edit.evict hb)).trans (ih (sound_evictOne hs hb) (fun x hx => ?_) hr)
      exact mem_evictOne_of_ne (hl x (List.mem_cons_of_mem _ hx)) fun h => hbr (List.mem_map.mpr ⟨x, hx, h⟩)

theorem mem_candidates {b : Block} (hb : b ∈ s.candidates) : b ∈ s.blocks :=
  (List.mem_filter.mp ((List.mergeSort_perm _ _).mem_iff.mp hb)).1

theorem nodup_candidates (hs : s.Sound) : (s.candidates.map (·.id)).Nodup :=
  (((List.mergeSort_perm _ _).map _).nodup_iff).mpr (hs.ids_tracked.sublist (List.filter_sublist.map _))

theorem edits_evict (hs : s.Sound) : s.Edits s.evict :=
  edits_evictFrom hs (fun _ => mem_candidates) (nodup_candidates hs)

end Requests

end RangeCache.Store
