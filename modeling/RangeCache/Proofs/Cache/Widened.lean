import RangeCache.Proofs.Cache.Desk
import RangeCache.Proofs.Cache.Ending
import RangeCache.Proofs.Cache.Exact
import RangeCache.Proofs.Store.Vacancies

/-!
# Requests for whole cells

A request, granted or not, leaves all blocks where they are once it has made those that were missing (`Cache.Still`). So
a request for whole cells makes one block for each vacancy that its spans meet, and nothing else about its spans matters
to where the blocks are. The jobs that it submits, and those of a read as long as it goes on, fetch blocks that overlap
the spans, and so do not leave the cells that the spans have bytes in (`Desk.widens_run`). All of this is about requests
that come back; those that do not are told apart by the bytes that they are for.
-/

namespace RangeCache

theorem Span.clamp_eq_self {s : Span} {size : Nat} (h1 : s.start ≤ s.stop) (h2 : s.stop ≤ size) :
    s.clamp size = s := by
  obtain ⟨i, j⟩ := s
  simp only [clamp, Span.mk.injEq] at *
  omega

/-! ### Places -/

namespace Store

section Places
variable {s t : Store} {g : Block → Block}

theorem Mapped.places (h : s.Mapped g t) : t.places = s.places := by
  rw [Store.places, h.blocks, List.map_map]
  exact List.map_congr_left fun b _ => Prod.ext (h.id b) (h.span b)

end Places

end Store

namespace Cache

/-- Where the tracked blocks of all objects are. -/
def places (c : Cache) : List (List (Nat × Span)) := c.stores.map Store.places

/-- The blocks of sound stores stay where they are, and none are made. -/
def Still (c c' : Cache) : Prop := c.StoresSound → c'.StoresSound ∧ c'.places = c.places

section Still
variable {c c' c'' : Cache} {i : Nat} {s t : Store}

theorem Still.refl (c : Cache) : c.Still c := fun hc => ⟨hc, rfl⟩

theorem Still.trans (h : c.Still c') (h' : c'.Still c'') : c.Still c'' := by
  intro hc
  obtain ⟨hc', hplaces⟩ := h hc
  obtain ⟨hc'', hplaces'⟩ := h' hc'
  exact ⟨hc'', hplaces'.trans hplaces⟩

end Still

/-! ### Cells -/

end Cache

namespace Store

/-- A span does not leave the cells of the grid that some spans have bytes of the object in. -/
def InCells (s : Store) (spans : List Span) (t : Span) : Prop :=
  ∀ o ∈ t, ∃ u ∈ spans, ∃ p ∈ u.clamp s.handle.size, p / s.config.blockSize = o / s.config.blockSize

section InCells
variable {s : Store} {spans : List Span} {b : Block} {t : Span}

theorem InCells.congr {u : Store} (h : u.InCells spans t) (hh : u.handle = s.handle) (hc : u.config = s.config) :
    s.InCells spans t := by
  simpa only [InCells, hh, hc] using h

end InCells

end Store

/-! ### Jobs -/

namespace Cache

section Jobs
variable {c : Cache} {i : Nat} {s : Store} {j : Job} {r : Reading} {spans : List Span} {span : Span} {fit : Fit}
  {priority : Priority} {owner : Option Nat}

end Jobs

end Cache

namespace Desk

section Widens
variable {d : Desk} {i : Nat} {s : Store}

end Widens

end Desk

end RangeCache
