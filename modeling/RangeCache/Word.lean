/-!
# Words

Offsets, sizes and counts are unsigned words of 64 bits. A product of two words that does not fit a word
keeps its last 64 bits only (`wrap`); a sum that must not do so stops at the largest word (`addCapped`). Numbers that
may be negative are signed words, of which the first bit stands for `-2 ^ 63` (`wrapSigned`).
-/

namespace RangeCache.Word

/-- The number of words, which is `2 ^ 64`. -/
def count : Nat := 0x10000000000000000

/-- The largest word. -/
def max : Nat := count - 1

/-- What a word keeps of a number. -/
def wrap (n : Nat) : Nat := n % count

/-- What a signed word keeps of an integer. -/
def wrapSigned (n : Int) : Int := n.bmod count

/-- The sum of two words, or the largest word if it does not fit. -/
def addCapped (m n : Nat) : Nat := min (m + n) max

theorem le_max_iff {n : Nat} : n ≤ max ↔ n < count := by
  simp only [max, count]
  omega

theorem wrap_of_le {n : Nat} (h : n ≤ max) : wrap n = n := Nat.mod_eq_of_lt (le_max_iff.mp h)

/-- A signed word is less than half of the number of words. -/
theorem two_mul_wrapSigned_lt (n : Int) : 2 * wrapSigned n < count := by
  have hlt : wrapSigned n < ((count : Int) + 1) / 2 := Int.bmod_lt (by decide)
  simp only [count] at hlt ⊢
  omega

theorem wrapSigned_of_lt {n : Int} (hlo : 0 ≤ n) (hhi : 2 * n < count) : wrapSigned n = n :=
  Int.bmod_eq_of_le_mul_two (by omega) (by omega)

end RangeCache.Word
