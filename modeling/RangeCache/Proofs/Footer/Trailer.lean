import RangeCache.Footer.File
import RangeCache.Proofs.Footer.Layout
import Mathlib.Tactic.SplitIfs

/-!
# Parsing the end of an object

When the end of an object tells a layout, the layout is sound and its footer is where the trailer says
(`sound_parse`). An end of an object that holds the trailer does not tell anything else than the whole object: it tells
the same, or it asks for more bytes, and then those bytes tell the same (`parse_last`). One that does not even hold the
trailer asks for the trailer first, so that it may take two questions more. What an end tells does not depend on how long
it is (`parse_longer`). All of this holds for every decoder of footers, since a footer is found by its place and a layout
is checked whatever the decoder reads.
-/

namespace RangeCache

namespace Bytes

theorem length_last (b : Bytes) (n : Nat) : (b.last n).length = min n b.length := by
  simp only [Bytes.last, List.length_drop]
  omega

theorem last_last (b : Bytes) {m n : Nat} (h : m ≤ n) : (b.last n).last m = b.last m := by
  simp only [Bytes.last, List.length_drop, List.drop_drop]
  congr 1
  omega

theorem last_of_le {b : Bytes} {n : Nat} (h : b.length ≤ n) : b.last n = b := by
  rw [Bytes.last, Nat.sub_eq_zero_of_le h, List.drop_zero]

end Bytes

namespace Footer

variable {decode : Bytes → Option FileRecord}

/-- The length of the footer, as the trailer gives it. -/
def declaredLength (tail : Bytes) : Nat := Bytes.toNatLittle ((tail.last trailerLength).take 4)

/-- What an end of an object without a fault tells. It asks for the trailer, or it holds the trailer, the object has
    room for what the trailer declares, and it asks for that or holds it. -/
theorem parse_eq_ok {tail : Bytes} {size : Nat} {p : Parse} (h : parse decode tail size = .ok p) :
    tail.length < trailerLength ∧ p = .needMore trailerLength ∨
      trailerLength ≤ tail.length ∧ declaredLength tail + trailerLength + markLength ≤ size ∧
        (tail.length < declaredLength tail + trailerLength ∧ p = .needMore (declaredLength tail + trailerLength) ∨
          declaredLength tail + trailerLength ≤ tail.length ∧
            ∃ f l, Layout.ofFile f ⟨size - (declaredLength tail + trailerLength), size⟩ = .ok l ∧ p = .complete l) := by
  have hlength : Bytes.toNatLittle ((tail.last trailerLength).take 4) = declaredLength tail := rfl
  unfold parse at h
  dsimp only at h
  rw [hlength] at h
  split_ifs at h with h1 h2 h3 h4 h5 h6 h7
  · cases h
    exact .inl ⟨h3, rfl⟩
  · cases h
    exact .inr ⟨Nat.not_lt.mp h3, Nat.not_lt.mp h6, .inl ⟨h7, rfl⟩⟩
  · split at h
    · cases h
    · rename_i f _
      cases hl : Layout.ofFile f ⟨size - (declaredLength tail + trailerLength), size⟩ with
      | error e =>
        rw [hl] at h
        cases h
      | ok l =>
        rw [hl] at h
        cases h
        exact .inr ⟨Nat.not_lt.mp h3, Nat.not_lt.mp h6, .inr ⟨Nat.not_lt.mp h7, f, l, hl, rfl⟩⟩

/-- A layout that an end of an object tells is made of some record. -/
theorem exists_ofFile_of_parse {tail : Bytes} {size : Nat} {l : Layout}
    (h : parse decode tail size = .ok (.complete l)) :
    ∃ f footer, markLength ≤ footer.start ∧ Layout.ofFile f footer = .ok l := by
  rcases parse_eq_ok h with ⟨-, hp⟩ | ⟨-, hsize, ⟨-, hp⟩ | ⟨-, f, l', hl, hp⟩⟩
  · cases hp
  · cases hp
  · cases hp
    exact ⟨f, _, by simp only; omega, hl⟩

theorem sound_of_parse {tail : Bytes} {size : Nat} {l : Layout} (h : parse decode tail size = .ok (.complete l)) :
    l.Sound := by
  obtain ⟨f, footer, hfooter, hf⟩ := exists_ofFile_of_parse h
  exact (Layout.sound_ofFile hfooter hf).1

/-- An end of an object that tells a layout tells a sound one, whose footer goes from where the trailer says to the
    end of the object. In the whole object no two chunks share a byte, and none shares one with the footer. The
    checks alone see to it: whatever record were read from the same footer, its layout would be sound. -/
theorem sound_parse {tail : Bytes} {size : Nat} {l : Layout} (h : parse decode tail size = .ok (.complete l)) :
    l.Sound ∧
      l.footer = ⟨size - trailerLength - declaredLength tail, size⟩ ∧ markLength ≤ l.footer.start ∧
      (∀ k ∈ l.chunks, markLength ≤ k.span.start ∧ k.span.start ≤ k.span.stop ∧ k.span.stop ≤ l.footer.start) ∧
      l.chunks.Pairwise (fun a b => ∀ o ∈ a.span, o ∉ b.span) ∧
      (∀ k ∈ l.chunks, ∀ o ∈ k.span, o ∉ l.footer) ∧
      ∀ f m, Layout.ofFile f l.footer = .ok m → m.Sound := by
  rcases parse_eq_ok h with ⟨-, hp⟩ | ⟨-, hsize, ⟨-, hp⟩ | ⟨-, f, l', hl, hp⟩⟩
  · cases hp
  · cases hp
  · cases hp
    have hstart : size - (declaredLength tail + trailerLength) = size - trailerLength - declaredLength tail := by omega
    obtain ⟨hsound, hfooter⟩ := Layout.sound_ofFile (by simp only; omega) hl
    have hmark : markLength ≤ l.footer.start := by
      rw [hfooter]
      simp only
      omega
    refine ⟨hsound, hfooter.trans (by rw [hstart]), hmark, fun k => hsound.mem_chunks,
      hsound.apart_chunks.imp fun hab _ => hab.not_mem, fun k hk o ho hf => ?_,
      fun g m hm => (Layout.sound_ofFile hmark hm).1⟩
    have := (hsound.mem_chunks hk).2.2
    rw [Span.mem_def] at ho hf
    omega

/-- An object of 93 bytes with one chunk of ten bytes. -/
theorem sound_parse_one : Layout.Sound ⟨[⟨0, 100, ⟨4, 14⟩, [⟨0, "c0", ⟨4, 14⟩⟩]⟩], ["c0"], 100, ⟨14, 93⟩⟩ := by
  have htold : (parse FileRecord.decode?
      [21, 2, 25, 44, 72, 6, 115, 99, 104, 101, 109, 97, 21, 2, 0, 21, 4, 37, 0, 24, 2, 99, 48, 0, 22, 200, 1, 25, 28,
       25, 28, 38, 0, 28, 21, 4, 25, 21, 0, 25, 24, 1, 120, 21, 0, 22, 200, 1, 22, 20, 22, 20, 38, 8, 0, 0, 22, 0, 22,
       200, 1, 0, 40, 6, 111, 114, 97, 99, 108, 101, 0, 71, 0, 0, 0, 80, 65, 82, 49] 93).toOption =
        some (.complete ⟨[⟨0, 100, ⟨4, 14⟩, [⟨0, "c0", ⟨4, 14⟩⟩]⟩], ["c0"], 100, ⟨14, 93⟩⟩) := by
    decide +kernel
  generalize hparse : parse FileRecord.decode? _ 93 = p at htold
  cases p with
  | error f => cases htold
  | ok p =>
    cases htold
    exact (sound_parse hparse).1

/-! ### Shorter ends -/

/-- What the last `m` bytes of an object tell that hold the trailer: whether they are enough, and else the same for all
    such `m`. -/
theorem parse_last_eq {whole : Bytes} {m : Nat} (hm : trailerLength ≤ m) (hle : m ≤ whole.length) :
    parse decode (whole.last m) whole.length =
      if m < declaredLength whole + trailerLength ∧ declaredLength whole + trailerLength + markLength ≤ whole.length ∧
        (whole.last trailerLength).drop 4 = mark then
        .ok (.needMore (declaredLength whole + trailerLength))
      else parse decode whole whole.length := by
  have htrailer : (whole.last m).last trailerLength = whole.last trailerLength := Bytes.last_last whole hm
  have hrequired : Bytes.toNatLittle ((whole.last trailerLength).take 4) = declaredLength whole := rfl
  unfold parse
  dsimp only
  rw [Bytes.length_last, Nat.min_eq_left hle, htrailer, hrequired, if_neg (Nat.not_lt.mpr hle),
    if_neg (Nat.lt_irrefl whole.length), if_neg (Nat.not_lt.mpr hm),
    if_neg (Nat.not_lt.mpr (Nat.le_trans hm hle))]
  have hlow : trailerLength ≤ declaredLength whole + trailerLength := Nat.le_add_left _ _
  have hmark : mark ≠ encryptedMark := by decide
  generalize declaredLength whole + trailerLength = required at hlow ⊢
  generalize (whole.last trailerLength).drop 4 = found
  by_cases hlt : m < required
  · by_cases hfound : found = mark
    · subst hfound
      by_cases hfits : required + markLength ≤ whole.length
      · have hlong : ¬whole.length < markLength + trailerLength := by omega
        rw [if_pos (show m < required ∧ required + markLength ≤ whole.length ∧ mark = mark from ⟨hlt, hfits, rfl⟩)]
        simp only [if_neg hlong, if_neg hmark, ne_eq, not_true, if_false, if_neg (Nat.not_lt.mpr hfits), if_pos hlt]
      · rw [if_neg (fun h : m < required ∧ required + markLength ≤ whole.length ∧ mark = mark => hfits h.2.1)]
        simp only [if_pos (Nat.not_le.mp hfits)]
    · rw [if_neg (fun h : m < required ∧ required + markLength ≤ whole.length ∧ found = mark => hfound h.2.2)]
      simp only [if_pos hfound]
  · -- The footer is in the last bytes, and the same bytes are read in both.
    rw [if_neg (fun h : m < required ∧ required + markLength ≤ whole.length ∧ found = mark => hlt h.1),
      Bytes.last_last whole (Nat.le_of_not_lt hlt), if_neg hlt,
      if_neg (Nat.not_lt.mpr (Nat.le_trans (Nat.le_of_not_lt hlt) hle))]

/-- An end of an object that holds the trailer tells the same as the whole object, or it asks for more bytes of it, and
    then those tell the same. So whoever takes no less than the trailer need not ask more than twice. -/
theorem parse_last {whole : Bytes} {n : Nat} (hn : trailerLength ≤ n) :
    parse decode (whole.last n) whole.length = parse decode whole whole.length ∨
      ∃ r, n < r ∧ r ≤ whole.length ∧ parse decode (whole.last n) whole.length = .ok (.needMore r) ∧
        parse decode (whole.last r) whole.length = parse decode whole whole.length := by
  by_cases hle : whole.length ≤ n
  · exact .inl (by rw [Bytes.last_of_le hle])
  have hle := Nat.le_of_not_le hle
  rw [parse_last_eq hn hle]
  split_ifs with hmore
  · obtain ⟨hlt, hfits, -⟩ := hmore
    have hr : declaredLength whole + trailerLength ≤ whole.length := Nat.le_trans (Nat.le_add_right _ _) hfits
    refine .inr ⟨_, hlt, hr, rfl, ?_⟩
    rw [parse_last_eq (Nat.le_add_left _ _) hr, if_neg fun h => Nat.lt_irrefl _ h.1]
  · exact .inl rfl

/-! ### Longer ends -/

/-- The whole object leaves no question open. -/
theorem parse_whole_ne_needMore {whole : Bytes} (hsize : trailerLength ≤ whole.length) (n : Nat) :
    parse decode whole whole.length ≠ .ok (.needMore n) := by
  intro h
  rcases parse_eq_ok h with ⟨hlt, -⟩ | ⟨-, hfits, ⟨hlt, -⟩ | ⟨-, f, l, -, hp⟩⟩
  · omega
  · omega
  · cases hp

/-- An end of an object that asks for more bytes asks for those of the footer, which the object has room for. It does
    not hold them, and those that do tell what the whole object tells. -/
theorem needMore_of_parse_last {whole : Bytes} {t r : Nat} (ht : trailerLength ≤ t) (hle : t ≤ whole.length)
    (h : parse decode (whole.last t) whole.length = .ok (.needMore r)) :
    t < r ∧ r + markLength ≤ whole.length ∧ ∀ u, t ≤ u → u ≤ whole.length →
      parse decode (whole.last u) whole.length = if u < r then .ok (.needMore r) else parse decode whole whole.length := by
  rw [parse_last_eq ht hle] at h
  split_ifs at h with hmore
  · cases h
    obtain ⟨hlt, hfits, hmark⟩ := hmore
    refine ⟨hlt, hfits, fun u htu hu => ?_⟩
    rw [parse_last_eq (Nat.le_trans ht htu) hu]
    simp only [hfits, hmark, and_true]
  · exact absurd h (parse_whole_ne_needMore (Nat.le_trans ht hle) r)

/-- An end of an object that holds the trailer and asks for nothing more tells what every longer one tells. -/
theorem parse_last_of_settled {whole : Bytes} {t u : Nat} (ht : trailerLength ≤ t) (htu : t ≤ u) (hu : u ≤ whole.length)
    (h : ∀ r, parse decode (whole.last t) whole.length ≠ .ok (.needMore r)) :
    parse decode (whole.last u) whole.length = parse decode (whole.last t) whole.length := by
  rw [parse_last_eq ht (Nat.le_trans htu hu)] at h ⊢
  rw [parse_last_eq (Nat.le_trans ht htu) hu]
  split_ifs at h ⊢ with hlong hshort hshort
  · exact absurd rfl (h _)
  · exact absurd ⟨Nat.lt_of_le_of_lt htu hlong.1, hlong.2⟩ hshort
  · exact absurd rfl (h _)
  · rfl

/-- What the end of an object tells does not depend on how long the end is, once it holds the trailer: a longer end
    tells the same layout and the same fault. Where a shorter end asks for more bytes, the object has them and room for
    the mark before them; a longer end that lacks some of them asks for the same, and all ends that hold them tell what
    exactly these bytes tell, which leaves no question open. -/
theorem parse_longer {whole : Bytes} (hsize : markLength + trailerLength ≤ whole.length) :
    (∀ t, t < trailerLength → parse decode (whole.last t) whole.length = .ok (.needMore trailerLength)) ∧
      ∀ t u, trailerLength ≤ t → t ≤ u → u ≤ whole.length →
        (∀ l, parse decode (whole.last t) whole.length = .ok (.complete l) →
          parse decode (whole.last u) whole.length = .ok (.complete l)) ∧
        (∀ f, parse decode (whole.last t) whole.length = .error f → parse decode (whole.last u) whole.length = .error f) ∧
        ∀ r, parse decode (whole.last t) whole.length = .ok (.needMore r) →
          t < r ∧ r ≤ whole.length - markLength ∧
            (u < r → parse decode (whole.last u) whole.length = .ok (.needMore r)) ∧
            (r ≤ u → parse decode (whole.last u) whole.length = parse decode (whole.last r) whole.length ∧
              ∀ n, parse decode (whole.last u) whole.length ≠ .ok (.needMore n)) := by
  refine ⟨fun t ht => ?_, fun t u ht htu hu => ⟨fun l hl => ?_, fun f hf => ?_, fun r hr => ?_⟩⟩
  · have hlength : (whole.last t).length = t := by
      rw [Bytes.length_last]
      omega
    unfold parse
    rw [hlength, if_neg (by omega), if_neg (Nat.not_lt.mpr hsize), if_pos ht]
  · rw [parse_last_of_settled ht htu hu (by simp [hl]), hl]
  · rw [parse_last_of_settled ht htu hu (by simp [hf]), hf]
  · obtain ⟨hlt, hfits, hlonger⟩ := needMore_of_parse_last ht (Nat.le_trans htu hu) hr
    refine ⟨hlt, by omega, fun hur => ?_, fun hru => ?_⟩
    · rw [hlonger u htu hu, if_pos hur]
    · rw [hlonger u htu hu, hlonger r (Nat.le_of_lt hlt) (by omega), if_neg (Nat.not_lt.mpr hru), if_neg (Nat.lt_irrefl r)]
      exact ⟨rfl, parse_whole_ne_needMore (Nat.le_trans ht (Nat.le_trans htu hu))⟩

/-- The trailer of an object of 93 bytes asks for 79, and 80 bytes tell what these tell. -/
theorem parse_longer_eighty :
    let whole : Bytes := List.replicate 14 0 ++
      [21, 2, 25, 44, 72, 6, 115, 99, 104, 101, 109, 97, 21, 2, 0, 21, 4, 37, 0, 24, 2, 99, 48, 0, 22, 200, 1, 25, 28,
       25, 28, 38, 0, 28, 21, 4, 25, 21, 0, 25, 24, 1, 120, 21, 0, 22, 200, 1, 22, 20, 22, 20, 38, 8, 0, 0, 22, 0, 22,
       200, 1, 0, 40, 6, 111, 114, 97, 99, 108, 101, 0, 71, 0, 0, 0, 80, 65, 82, 49]
    let tells (n : Nat) : Except FooterFault Parse := parse FileRecord.decode? (whole.last n) 93
    whole.length = 93 ∧ tells 7 = .ok (.needMore 8) ∧ tells 8 = .ok (.needMore 79) ∧ tells 78 = .ok (.needMore 79) ∧
      tells 80 = tells 79 := by
  intro whole tells
  have hlength : whole.length = 93 := by decide +kernel
  obtain ⟨hshort, hlonger⟩ := @parse_longer FileRecord.decode? whole (by decide +kernel)
  rw [hlength] at hshort hlonger
  have hasks : tells 8 = .ok (.needMore 79) := by rfl
  have hstill := (hlonger 8 78 (Nat.le_refl 8) (by decide) (by decide)).2.2 79 hasks
  have hholds := (hlonger 8 80 (Nat.le_refl 8) (by decide) (by decide)).2.2 79 hasks
  exact ⟨hlength, hshort 7 (by decide), hasks, hstill.2.2.1 (by decide), (hholds.2.2.2 (by decide)).1⟩

end Footer

end RangeCache
