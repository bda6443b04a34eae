import RangeCache.Span

/-!
# Bytes

Contents of objects and of blocks, as lists of bytes. `slice` takes the bytes at a span's offsets and
is what reading an object means throughout the library.
-/

namespace RangeCache

abbrev Bytes := List UInt8

namespace Bytes

/-- The bytes at the offsets of `s`, as far as there are any. -/
def slice (b : Bytes) (s : Span) : Bytes := (b.drop s.start).take s.length

/-- The number that the bytes spell with their least significant byte first. -/
def toNatLittle : Bytes → Nat
  | [] => 0
  | b :: r => b.toNat + 256 * toNatLittle r

/-- The last `n` bytes, all of them when there are fewer. -/
def last (n : Nat) (b : Bytes) : Bytes := b.drop (b.length - n)

theorem length_slice (b : Bytes) (s : Span) : (b.slice s).length = min s.length (b.length - s.start) := by
  simp [slice]

/-- Slicing a slice is slicing once, at offsets counted from the outer slice. -/
theorem slice_slice (b : Bytes) {s t : Span} (h : s.start + t.stop ≤ s.stop) :
    (b.slice s).slice t = b.slice ⟨s.start + t.start, s.start + t.stop⟩ := by
  simp only [slice, Span.length, List.drop_take, List.drop_drop, List.take_take]
  congr 1
  omega

/-- Two slices that meet join to the slice over both. -/
theorem slice_append_slice (b : Bytes) {i j k : Nat} (hij : i ≤ j) (hjk : j ≤ k) :
    b.slice ⟨i, j⟩ ++ b.slice ⟨j, k⟩ = b.slice ⟨i, k⟩ := by
  have h : b.drop j = (b.drop i).drop (j - i) := by
    rw [List.drop_drop]
    congr 1
    omega
  have hk : k - i = (j - i) + (k - j) := by omega
  simp only [slice, Span.length, h, hk, List.take_add]

end Bytes

end RangeCache
