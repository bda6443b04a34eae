import RangeCache.Proofs.Keyed
import RangeCache.Store.Cover

/-!
# Sound stores

A store is sound when its tracked blocks follow one another in the object, each with at least one byte and inside one
cell of the grid, when no two blocks share an identifier, and when exactly the retired blocks are evicted.
-/

namespace RangeCache.Store

/-- What holds of the blocks of a store at all times. -/
structure Sound (s : Store) : Prop where
  ordered : s.blocks.Pairwise fun a b => a.span.stop ≤ b.span.start
  nonempty : ∀ b ∈ s.blocks, b.span.start < b.span.stop
  inside : ∀ b ∈ s.blocks, b.span.stop ≤ s.handle.size
  inCell : 0 < s.config.blockSize → ∀ b ∈ s.blocks, b.span.stop ≤ Span.cellEnd s.config.blockSize b.span.start
  ids : ((s.blocks ++ s.retired).map (·.id)).Nodup
  fresh : ∀ b ∈ s.blocks ++ s.retired, b.id < s.nextBlock
  tracked : ∀ b ∈ s.blocks, b.state ≠ .evicted
  retired : ∀ b ∈ s.retired, b.state = .evicted

section Lookup
variable {s : Store}

theorem Sound.ids_tracked (h : s.Sound) : (s.blocks.map (·.id)).Nodup := by
  have := h.ids
  rw [List.map_append] at this
  exact (List.nodup_append.mp this).1

theorem eq_of_id_eq {l : List Block} (hl : (l.map (·.id)).Nodup) {a b : Block} (ha : a ∈ l) (hb : b ∈ l)
    (hid : a.id = b.id) : a = b := List.inj_on_of_nodup_map hl ha hb hid

theorem Sound.eq_of_id (h : s.Sound) {a b : Block} (ha : a ∈ s.blocks ++ s.retired)
    (hb : b ∈ s.blocks ++ s.retired) (hid : a.id = b.id) : a = b := eq_of_id_eq h.ids ha hb hid

theorem Sound.eq_of_id_tracked (h : s.Sound) {a b : Block} (ha : a ∈ s.blocks) (hb : b ∈ s.blocks)
    (hid : a.id = b.id) : a = b := eq_of_id_eq h.ids_tracked ha hb hid

/-- No two blocks share a byte. -/
theorem Sound.eq_of_mem_span (h : s.Sound) {a b : Block} {o : Nat} (ha : a ∈ s.blocks) (hb : b ∈ s.blocks)
    (hoa : o ∈ a.span) (hob : o ∈ b.span) : a = b := by
  have hfwd : s.blocks.Pairwise fun a b => o ∈ a.span → o ∈ b.span → a = b :=
    h.ordered.imp fun hab hoa hob => by
      simp only [Span.mem_def] at hoa hob
      omega
  have hback : s.blocks.Pairwise fun a b => o ∈ b.span → o ∈ a.span → b = a :=
    h.ordered.imp fun hab hob hoa => by
      simp only [Span.mem_def] at hoa hob
      omega
  exact List.Pairwise.forall_of_forall_of_flip (fun _ _ _ _ => rfl) hfwd hback ha hb hoa hob

theorem find?_eq_some_of_mem {l : List Block} (hl : (l.map (·.id)).Nodup) {b : Block} (hb : b ∈ l) :
    (l.find? fun x => x.id == b.id) = some b :=
  find?_key (f := fun x : Block => x.id) hl hb

theorem mem_of_block?_eq_some {id : Nat} {b : Block} (h : s.block? id = some b) :
    b ∈ s.blocks ++ s.retired ∧ b.id = id := by
  simp only [block?, Option.orElse_eq_orElse, Option.orElse_eq_or] at h
  rcases Option.or_eq_some_iff.mp h with h | ⟨-, h⟩
  · have hid := List.find?_some h
    exact ⟨List.mem_append_left _ (List.mem_of_find?_eq_some h), by simpa using hid⟩
  · have hid := List.find?_some h
    exact ⟨List.mem_append_right _ (List.mem_of_find?_eq_some h), by simpa using hid⟩

end Lookup

end RangeCache.Store
