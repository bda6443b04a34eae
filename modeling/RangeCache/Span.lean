import RangeCache.Word

/-!
# Spans

A span is a half-open range of byte offsets. It may be written the wrong way round (`stop` at or
before `start`); it then holds no byte. The grid of width `b` cuts the offsets into the cells
`[k * b, (k + 1) * b)`, and `cut` breaks a span at the borders of the cells it meets.

Whoever cuts a span computes the end of a cell as a product of words (`cut?`). Where the cell ends behind
the largest word, the product falls back to the start of the object, and the cutting goes round in circles:
nothing comes of a request for such bytes. Everywhere else the pieces are those of `cut`.
-/

namespace RangeCache

/-- The offsets from `start` up to, and not including, `stop`. -/
structure Span where
  start : Nat
  stop : Nat
  deriving DecidableEq, Repr, Inhabited

namespace Span

instance : Membership Nat Span where
  mem s o := s.start ≤ o ∧ o < s.stop

theorem mem_def {o : Nat} {s : Span} : o ∈ s ↔ s.start ≤ o ∧ o < s.stop := Iff.rfl

instance (o : Nat) (s : Span) : Decidable (o ∈ s) := inferInstanceAs (Decidable (_ ∧ _))

def length (s : Span) : Nat := s.stop - s.start

def isEmpty (s : Span) : Bool := s.stop ≤ s.start

/-- Whether each of two spans begins before the other one ends. Two spans that hold an offset each
    overlap exactly when they share one. -/
def overlaps (s t : Span) : Bool := s.start < t.stop && t.start < s.stop

/-- The part of a span that lies in an object of `size` bytes. -/
def clamp (s : Span) (size : Nat) : Span :=
  ⟨min s.start (min s.stop size), min s.stop size⟩

/-- The last `n` offsets of an object of `size` bytes, all of them when there are fewer. -/
def tail (size n : Nat) : Span := ⟨size - n, size⟩

/-- The end of the cell of width `b` that holds offset `o`. -/
def cellEnd (b o : Nat) : Nat := (o / b + 1) * b

theorem lt_cellEnd {b : Nat} (hb : 0 < b) (o : Nat) : o < cellEnd b o := by
  have h := Nat.lt_div_mul_add hb (a := o)
  simp only [cellEnd, Nat.add_mul, Nat.one_mul]
  exact h

/-- The last border of the grid of width `b` that is a word. -/
def lastBorder (b : Nat) : Nat := Word.max / b * b

/-- The first border of the grid of width `b` at or after offset `o`. -/
def roundUp (b o : Nat) : Nat := (o + b - 1) / b * b

/-- The last border of the grid of width `b` at or before offset `o`. -/
def roundDown (b o : Nat) : Nat := o / b * b

/-- The pieces of a span between the borders of the grid of width `b`, in order. A grid of width 0
    has no borders. -/
def cut (b : Nat) (s : Span) : List Span :=
  if _ : s.start < s.stop then
    if _ : 0 < b then
      ⟨s.start, min (cellEnd b s.start) s.stop⟩ :: cut b ⟨min (cellEnd b s.start) s.stop, s.stop⟩
    else [s]
  else []
termination_by s.stop - s.start
decreasing_by
  have := lt_cellEnd ‹0 < b› s.start
  omega

/-- Where the piece that starts at offset `o` of a span ends: with the cell of `o`, whose end has to fit a
    word, or with the span. -/
def hop (b stop o : Nat) : Nat := min (Word.wrap (cellEnd b o)) stop

/-- The pieces of a span, as far as there is an end to cutting it. There is none once a piece does not end
    behind its start. -/
def cut? (b : Nat) (s : Span) : Option (List Span) :=
  if _ : s.start < s.stop then
    if _ : s.start < hop b s.stop s.start then
      (cut? b ⟨hop b s.stop s.start, s.stop⟩).map (⟨s.start, hop b s.stop s.start⟩ :: ·)
    else none
  else some []
termination_by s.stop - s.start
decreasing_by omega

theorem length_clamp_le (s : Span) (size : Nat) : (s.clamp size).length ≤ s.length := by
  simp only [clamp, length]
  omega

theorem start_le_stop_clamp (s : Span) (size : Nat) : (s.clamp size).start ≤ (s.clamp size).stop := by
  simp only [clamp]
  omega

theorem mem_clamp {o size : Nat} {s : Span} : o ∈ s.clamp size ↔ o ∈ s ∧ o < size := by
  simp only [mem_def, clamp]
  omega

theorem overlaps_iff_of_mem {s t : Span} (hs : s.isEmpty = false) (ht : t.isEmpty = false) :
    s.overlaps t = true ↔ ∃ o, o ∈ s ∧ o ∈ t := by
  simp only [isEmpty, overlaps, Bool.and_eq_true, decide_eq_true_eq, decide_eq_false_iff_not,
    mem_def] at hs ht ⊢
  constructor
  · intro h
    exact ⟨max s.start t.start, by omega⟩
  · rintro ⟨o, h1, h2⟩
    omega

end Span

end RangeCache
