import RangeCache.Proofs.Store.Runs
import RangeCache.Store.Evict

/-!
# Updates of a store

What the updates of a store do to its blocks. Claiming blocks, giving them back, failing and completing
them each change single blocks, which keep their identifiers and spans (`Mapped`); so they change which
jobs own which blocks (`Owns`) and nothing else. All other updates (`Edit`) leave every owner as it is.
Sound stores stay sound, and stores that hold only bytes they may hold stay so.
-/

namespace RangeCache

/-- A rule for which bytes may be held for a span of an object, given by its key. No bytes may be held for
    no offsets; bytes that may be held for two spans that meet may be held together; and of bytes that may
    be held for a span, each part may be held for its own span. -/
structure Contents where
  allows : String → Span → Bytes → Prop
  nil : ∀ {key : String} {i : Nat}, allows key ⟨i, i⟩ []
  append : ∀ {key : String} {i j k : Nat} {a b : Bytes}, i ≤ j → j ≤ k → allows key ⟨i, j⟩ a → allows key ⟨j, k⟩ b →
    allows key ⟨i, k⟩ (a ++ b)
  part : ∀ {key : String} {s t : Span} {b : Bytes}, allows key s b → s.start ≤ t.start → t.stop ≤ s.stop →
    allows key t (b.slice ⟨t.start - s.start, t.stop - s.start⟩)

namespace Contents

/-- Any bytes may be held. -/
def any : Contents := ⟨fun _ _ _ => True, trivial, fun _ _ _ _ => trivial, fun _ _ _ => trivial⟩

theorem nil_slice (b : Bytes) (i : Nat) :
    ([] : Bytes).length = (⟨i, i⟩ : Span).length ∧ [] = b.slice ⟨i, i⟩ := by
  simp [Span.length, Bytes.slice]

theorem append_slice {b : Bytes} {i j k : Nat} {x y : Bytes} (hij : i ≤ j) (hjk : j ≤ k)
    (hx : x.length = (⟨i, j⟩ : Span).length ∧ x = b.slice ⟨i, j⟩)
    (hy : y.length = (⟨j, k⟩ : Span).length ∧ y = b.slice ⟨j, k⟩) :
    (x ++ y).length = (⟨i, k⟩ : Span).length ∧ x ++ y = b.slice ⟨i, k⟩ := by
  obtain ⟨hlx, hx⟩ := hx
  obtain ⟨hly, hy⟩ := hy
  constructor
  · simp only [Span.length, List.length_append] at *
    omega
  · rw [hx, hy, Bytes.slice_append_slice _ hij hjk]

theorem part_slice {b x : Bytes} {s t : Span} (hst : s.start ≤ t.start) (hts : t.stop ≤ s.stop) (ht : t.start ≤ t.stop)
    (hx : x.length = s.length ∧ x = b.slice s) :
    (x.slice ⟨t.start - s.start, t.stop - s.start⟩).length = t.length ∧
      x.slice ⟨t.start - s.start, t.stop - s.start⟩ = b.slice t := by
  obtain ⟨hl, hx⟩ := hx
  constructor
  · rw [Bytes.length_slice, hl]
    simp only [Span.length]
    omega
  · rw [hx, Bytes.slice_slice _ (by simp only; omega)]
    congr 2 <;> simp only <;> omega

/-- Only the bytes of the objects may be held, one for each offset. -/
def ofObjects (objects : String → Bytes) : Contents where
  allows key s b := s.start ≤ s.stop → b.length = s.length ∧ b = (objects key).slice s
  nil _ := nil_slice _ _
  append hij hjk hx hy _ := append_slice hij hjk (hx hij) (hy hjk)
  part h h1 h2 h3 := part_slice h1 h2 h3 (h (Nat.le_trans h1 (Nat.le_trans h3 h2)))

end Contents

namespace Store

/-- A store that differs from another one in single blocks, which `g` changes, and in its counts. -/
structure Mapped (s : Store) (g : Block → Block) (t : Store) : Prop where
  handle : t.handle = s.handle
  config : t.config = s.config
  retired : t.retired = s.retired
  nextBlock : t.nextBlock = s.nextBlock
  blocks : t.blocks = s.blocks.map g
  id : ∀ b, (g b).id = b.id
  span : ∀ b, (g b).span = b.span

/-- A job owns the block with an identifier, which covers a span. -/
def Owns (s : Store) (job id : Nat) (span : Span) : Prop :=
  ∃ b ∈ s.blocks, b.id = id ∧ b.span = span ∧ b.state = .inFlight job

/-- The block with an identifier, tracked or evicted, covers a span. -/
def Knows (s : Store) (id : Nat) (span : Span) : Prop := ∃ b ∈ s.blocks ++ s.retired, b.id = id ∧ b.span = span

/-- Every block with bytes may hold them. -/
def Holds (C : Contents) (s : Store) : Prop :=
  ∀ b ∈ s.blocks, ∀ bytes, b.state = .ready bytes → C.allows s.handle.key b.span bytes

section Mapped
variable {s t u : Store} {g f : Block → Block}

theorem Mapped.trans (h : s.Mapped g t) (h' : t.Mapped f u) : s.Mapped (fun b => f (g b)) u where
  handle := h'.handle.trans h.handle
  config := h'.config.trans h.config
  retired := h'.retired.trans h.retired
  nextBlock := h'.nextBlock.trans h.nextBlock
  blocks := by rw [h'.blocks, h.blocks, List.map_map]; rfl
  id b := (h'.id _).trans (h.id b)
  span b := (h'.span _).trans (h.span b)

theorem Mapped.mem_iff (h : s.Mapped g t) {x : Block} : x ∈ t.blocks ↔ ∃ b ∈ s.blocks, g b = x := by
  rw [h.blocks, List.mem_map]

theorem Mapped.congr (h : s.Mapped g t) (hfg : ∀ b ∈ s.blocks, g b = f b) (hid : ∀ b, (f b).id = b.id)
    (hspan : ∀ b, (f b).span = b.span) : s.Mapped f t :=
  { h with blocks := h.blocks.trans (List.map_congr_left hfg), id := hid, span := hspan }

theorem Mapped.map_id (h : s.Mapped g t) : t.blocks.map (·.id) = s.blocks.map (·.id) := by
  rw [h.blocks, List.map_map]
  exact List.map_congr_left fun b _ => h.id b

theorem Mapped.sound (h : s.Mapped g t) (hs : s.Sound) (hg : ∀ b ∈ s.blocks, (g b).state ≠ .evicted) : t.Sound where
  ordered := by
    rw [h.blocks, List.pairwise_map]
    exact hs.ordered.imp fun hab => by rw [h.span, h.span]; exact hab
  nonempty x hx := by
    obtain ⟨b, hb, rfl⟩ := h.mem_iff.mp hx
    rw [h.span]
    exact hs.nonempty b hb
  inside x hx := by
    obtain ⟨b, hb, rfl⟩ := h.mem_iff.mp hx
    rw [h.span, h.handle]
    exact hs.inside b hb
  inCell hpos x hx := by
    obtain ⟨b, hb, rfl⟩ := h.mem_iff.mp hx
    rw [h.config] at hpos ⊢
    rw [h.span]
    exact hs.inCell hpos b hb
  ids := by
    have := hs.ids
    rwa [List.map_append, ← h.map_id, ← h.retired, ← List.map_append] at this
  fresh x hx := by
    rw [h.nextBlock]
    rcases List.mem_append.mp hx with hx | hx
    · obtain ⟨b, hb, rfl⟩ := h.mem_iff.mp hx
      rw [h.id]
      exact hs.fresh b (List.mem_append_left _ hb)
    · exact hs.fresh x (List.mem_append_right _ (h.retired ▸ hx))
  tracked x hx := by
    obtain ⟨b, hb, rfl⟩ := h.mem_iff.mp hx
    exact hg b hb
  retired x hx := hs.retired x (h.retired ▸ hx)

theorem Mapped.knows_iff (h : s.Mapped g t) {id : Nat} {span : Span} : t.Knows id span ↔ s.Knows id span := by
  constructor
  · rintro ⟨x, hx, hid, hsp⟩
    rcases List.mem_append.mp hx with hx | hx
    · obtain ⟨b, hb, rfl⟩ := h.mem_iff.mp hx
      exact ⟨b, List.mem_append_left _ hb, (h.id b).symm.trans hid, (h.span b).symm.trans hsp⟩
    · exact ⟨x, List.mem_append_right _ (h.retired ▸ hx), hid, hsp⟩
  · rintro ⟨b, hb, hid, hsp⟩
    rcases List.mem_append.mp hb with hb | hb
    · exact ⟨g b, List.mem_append_left _ (h.mem_iff.mpr ⟨b, hb, rfl⟩), (h.id b).trans hid, (h.span b).trans hsp⟩
    · exact ⟨b, List.mem_append_right _ (h.retired.symm ▸ hb), hid, hsp⟩

theorem Mapped.owns_iff (h : s.Mapped g t) {n id : Nat} {span : Span} :
    t.Owns n id span ↔ ∃ b ∈ s.blocks, b.id = id ∧ b.span = span ∧ (g b).state = .inFlight n := by
  constructor
  · rintro ⟨x, hx, hid, hsp, hst⟩
    obtain ⟨b, hb, rfl⟩ := h.mem_iff.mp hx
    exact ⟨b, hb, (h.id b).symm.trans hid, (h.span b).symm.trans hsp, hst⟩
  · rintro ⟨b, hb, hid, hsp, hst⟩
    exact ⟨g b, h.mem_iff.mpr ⟨b, hb, rfl⟩, (h.id b).trans hid, (h.span b).trans hsp, hst⟩

theorem Mapped.owns_iff_of_state (h : s.Mapped g t) (hg : ∀ b, (g b).state = b.state) {n id : Nat} {span : Span} :
    t.Owns n id span ↔ s.Owns n id span := by
  rw [h.owns_iff]
  simp only [hg, Owns]

theorem Mapped.holds {C : Contents} (h : s.Mapped g t) (hs : s.Holds C)
    (hg : ∀ b ∈ s.blocks, ∀ bytes, (g b).state = .ready bytes →
      b.state = .ready bytes ∨ C.allows s.handle.key b.span bytes) : t.Holds C := by
  intro x hx bytes hst
  obtain ⟨b, hb, rfl⟩ := h.mem_iff.mp hx
  rw [h.span, h.handle]
  rcases hg b hb bytes hst with hst | hok
  · exact hs b hb bytes hst
  · exact hok

end Mapped

/-! ### Changing single blocks -/

theorem mapped_refl (s : Store) : s.Mapped id s :=
  ⟨rfl, rfl, rfl, rfl, (List.map_id _).symm, fun _ => rfl, fun _ => rfl⟩

theorem mapped_modify (s : Store) (id : Nat) {f : Block → Block} (hid : ∀ b, (f b).id = b.id)
    (hspan : ∀ b, (f b).span = b.span) : s.Mapped (fun b => if b.id = id then f b else b) (s.modify id f) where
  handle := rfl
  config := rfl
  retired := rfl
  nextBlock := rfl
  blocks := rfl
  id b := by
    by_cases h : b.id = id
    · simp [h, hid]
    · simp [h]
  span b := by
    by_cases h : b.id = id
    · simp [h, hspan]
    · simp [h]

/-- A change of a block that keeps its identifier and its span, and that no block takes twice. -/
structure Once (f : Block → Option Block) : Prop where
  id : ∀ {b b'}, f b = some b' → b'.id = b.id
  span : ∀ {b b'}, f b = some b' → b'.span = b.span
  once : ∀ {b b'}, f b = some b' → f b' = none

/-- A block after a change, if it accepts the change. -/
def tryOn (f : Block → Option Block) (b : Block) : Block := (f b).getD b

section Once
variable {f : Block → Option Block}

theorem Once.tryOn_id (hf : Once f) (b : Block) : (tryOn f b).id = b.id := by
  unfold tryOn
  cases h : f b with
  | none => rfl
  | some b' => exact hf.id h

theorem Once.tryOn_span (hf : Once f) (b : Block) : (tryOn f b).span = b.span := by
  unfold tryOn
  cases h : f b with
  | none => rfl
  | some b' => exact hf.span h

theorem Once.tryOn_tryOn (hf : Once f) (b : Block) : tryOn f (tryOn f b) = tryOn f b := by
  unfold tryOn
  cases h : f b with
  | none => simp [h]
  | some b' => simp [hf.once h]

theorem mapped_modify? {s : Store} (hs : (s.blocks.map (·.id)).Nodup) (hf : Once f) (id : Nat) :
    s.Mapped (fun b => if b.id = id then tryOn f b else b) (s.modify? id f).1 := by
  have hid : ∀ b : Block, (if b.id = id then tryOn f b else b).id = b.id := fun b => by
    by_cases h : b.id = id
    · simp [h, hf.tryOn_id]
    · simp [h]
  have hspan : ∀ b : Block, (if b.id = id then tryOn f b else b).span = b.span := fun b => by
    by_cases h : b.id = id
    · simp [h, hf.tryOn_span]
    · simp [h]
  unfold modify?
  cases hb : (s.blocks.find? fun b => b.id == id).bind f with
  | none =>
    refine (mapped_refl s).congr (fun b hb' => ?_) hid hspan
    by_cases h : b.id = id
    · have hfind := find?_eq_some_of_mem hs hb'
      rw [h] at hfind
      rw [hfind, Option.bind_some] at hb
      simp [tryOn, hb]
    · simp [h]
  | some b' =>
    obtain ⟨b₀, hfind, hfb⟩ := Option.bind_eq_some_iff.mp hb
    refine ⟨rfl, rfl, rfl, rfl, ?_, hid, hspan⟩
    refine List.map_congr_left fun b hb' => ?_
    by_cases h : b.id = id
    · have hfind' := find?_eq_some_of_mem hs hb'
      rw [h, hfind] at hfind'
      cases hfind'
      simp [h, tryOn, hfb]
    · simp [h]

/-- Changing the blocks of a list one after the other changes each of them once. `Q` is what a change of
    one block may count on. -/
theorem mapped_foldl {u : Store → Nat → Store} {g : Block → Block} {Q : Store → Prop}
    (hQ : ∀ s i, Q s → Q (u s i))
    (hstep : ∀ s i, Q s → s.Mapped (fun b => if b.id = i then g b else b) (u s i))
    (hid : ∀ b, (g b).id = b.id) (hspan : ∀ b, (g b).span = b.span) (hg : ∀ b, g (g b) = g b) {s : Store} (hs : Q s)
    (ids : List Nat) : s.Mapped (fun b => if b.id ∈ ids then g b else b) (ids.foldl u s) := by
  induction ids generalizing s with
  | nil =>
    refine (mapped_refl s).congr (fun b _ => by simp) (fun b => by simp) fun b => by simp
  | cons i r ih =>
    refine ((hstep s i hs).trans (ih (hQ s i hs))).congr (fun b _ => ?_) (fun b => ?_) fun b => ?_
    · by_cases hi : b.id = i
      · subst hi
        by_cases hr : b.id ∈ r <;> simp [hr, hid, hg]
      · by_cases hr : b.id ∈ r <;> simp [hi, hr]
    · by_cases h : b.id ∈ i :: r <;> simp only [h, if_true, if_false, hid]
    · by_cases h : b.id ∈ i :: r <;> simp only [h, if_true, if_false, hspan]

theorem mapped_foldl_modify? {s : Store} (hs : (s.blocks.map (·.id)).Nodup) (hf : Once f) (ids : List Nat) :
    s.Mapped (fun b => if b.id ∈ ids then tryOn f b else b) (ids.foldl (fun s id => (s.modify? id f).1) s) := by
  refine mapped_foldl (Q := fun s => (s.blocks.map (·.id)).Nodup) (fun s i hs => ?_) (fun s i hs => ?_)
    hf.tryOn_id hf.tryOn_span hf.tryOn_tryOn hs ids
  · rw [(mapped_modify? hs hf i).map_id]
    exact hs
  · exact mapped_modify? hs hf i

end Once

/-! ### Jobs and their blocks -/

theorem once_claim? (job : Nat) : Once fun b => b.claim? job where
  id {b b'} h := by
    simp only [Block.claim?, Option.ite_none_right_eq_some, Option.some.injEq] at h
    exact h.2 ▸ rfl
  span {b b'} h := by
    simp only [Block.claim?, Option.ite_none_right_eq_some, Option.some.injEq] at h
    exact h.2 ▸ rfl
  once {b b'} h := by
    simp only [Block.claim?, Option.ite_none_right_eq_some, Option.some.injEq] at h
    rw [← h.2]
    rfl

theorem once_leave? {job : Nat} {f : Block → BlockState} (h : ∀ b, f b ≠ .inFlight job) :
    Once fun b => b.leave? job (f b) where
  id {b b'} hb := by
    simp only [Block.leave?, Option.ite_none_right_eq_some, Option.some.injEq] at hb
    exact hb.2 ▸ rfl
  span {b b'} hb := by
    simp only [Block.leave?, Option.ite_none_right_eq_some, Option.some.injEq] at hb
    exact hb.2 ▸ rfl
  once {b b'} hb := by
    simp only [Block.leave?, Option.ite_none_right_eq_some, Option.some.injEq] at hb
    rw [← hb.2, Block.leave?, if_neg (h b)]

theorem once_revert? (job : Nat) : Once fun b => b.revert? job :=
  once_leave? (f := fun _ => .pending) fun _ => nofun

theorem once_fail? (job : Nat) (f : Fault) : Once fun b => b.fail? job f :=
  once_leave? (f := fun _ => .failed f) fun _ => nofun

theorem once_complete? (job : Nat) (bytes : Block → Bytes) : Once fun b => b.complete? job (bytes b) :=
  once_leave? (f := fun b => .ready (bytes b)) fun _ => nofun

theorem tryOn_claim?_state (job : Nat) (b : Block) :
    (tryOn (fun b => b.claim? job) b).state = if b.state.isClaimable then .inFlight job else b.state := by
  by_cases h : b.state.isClaimable <;> simp [tryOn, Block.claim?, h]

theorem tryOn_leave?_state (job : Nat) (state : Block → BlockState) (b : Block) :
    (tryOn (fun b => b.leave? job (state b)) b).state = if b.state = .inFlight job then state b else b.state := by
  by_cases h : b.state = .inFlight job <;> simp [tryOn, Block.leave?, h]

theorem tryOn_revert?_state (job : Nat) (b : Block) :
    (tryOn (fun b => b.revert? job) b).state = if b.state = .inFlight job then .pending else b.state :=
  tryOn_leave?_state job (fun _ => .pending) b

theorem tryOn_fail?_state (job : Nat) (f : Fault) (b : Block) :
    (tryOn (fun b => b.fail? job f) b).state = if b.state = .inFlight job then .failed f else b.state :=
  tryOn_leave?_state job (fun _ => .failed f) b

section Jobs
variable {s : Store} {job : Nat} {ids : List Nat}

theorem mapped_claim (hs : s.Sound) (job : Nat) (ids : List Nat) :
    s.Mapped (fun b => if b.id ∈ ids then tryOn (fun b => b.claim? job) b else b) (s.claim job ids) :=
  mapped_foldl_modify? hs.ids_tracked (once_claim? job) ids

theorem mapped_revert (hs : s.Sound) (job : Nat) (ids : List Nat) :
    s.Mapped (fun b => if b.id ∈ ids then tryOn (fun b => b.revert? job) b else b) (s.revert job ids) :=
  mapped_foldl_modify? hs.ids_tracked (once_revert? job) ids

theorem mapped_fail (hs : s.Sound) (job : Nat) (ids : List Nat) (f : Fault) :
    s.Mapped (fun b => if b.id ∈ ids then tryOn (fun b => b.fail? job f) b else b) (s.fail job ids f) :=
  mapped_foldl_modify? hs.ids_tracked (once_fail? job f) ids

/-- A block after its job delivered the bytes from `start` on, at a time. -/
def delivered (time job start : Nat) (data : Bytes) (b : Block) : Block :=
  tryOn (fun b => b.complete? job (data.slice ⟨b.span.start - start, b.span.stop - start⟩)) (b.touch time)

theorem delivered_state (time job start : Nat) (data : Bytes) (b : Block) :
    (delivered time job start data b).state =
      if b.state = .inFlight job then .ready (data.slice ⟨b.span.start - start, b.span.stop - start⟩) else b.state :=
  tryOn_leave?_state job (fun b => .ready (data.slice ⟨b.span.start - start, b.span.stop - start⟩)) (b.touch time)

theorem delivered_id (time job start : Nat) (data : Bytes) (b : Block) :
    (delivered time job start data b).id = b.id := (once_complete? job _).tryOn_id _

theorem delivered_span (time job start : Nat) (data : Bytes) (b : Block) :
    (delivered time job start data b).span = b.span := (once_complete? job _).tryOn_span _

theorem delivered_delivered (time job start : Nat) (data : Bytes) (b : Block) :
    delivered time job start data (delivered time job start data b) = delivered time job start data b := by
  unfold delivered tryOn Block.complete? Block.leave? Block.touch
  by_cases h : b.state = .inFlight job
  · simp [h]
  · simp [h]

theorem mapped_completeOne (hs : (s.blocks.map (·.id)).Nodup) (job start : Nat) (data : Bytes) (id : Nat) :
    s.Mapped (fun b => if b.id = id then delivered s.clock job start data b else b)
      (s.completeOne job start data id) := by
  have hid : ∀ b : Block, (if b.id = id then delivered s.clock job start data b else b).id = b.id := fun b => by
    by_cases h : b.id = id
    · simp only [h, if_true, delivered_id]
    · simp only [h, if_false]
  have hspan : ∀ b : Block, (if b.id = id then delivered s.clock job start data b else b).span = b.span := fun b => by
    by_cases h : b.id = id
    · simp only [h, if_true, delivered_span]
    · simp only [h, if_false]
  unfold completeOne
  cases hb : s.blocks.find? fun b => b.id == id with
  | none =>
    refine (mapped_refl s).congr (fun b hb' => ?_) hid hspan
    have := List.find?_eq_none.mp hb b hb'
    simp only [beq_iff_eq] at this
    simp [this]
  | some b₀ =>
    -- First the block is touched, and then completed with the bytes at its place.
    have first : s.Mapped (fun b => if b.id = id then b.touch s.clock else b) (s.touch id) :=
      mapped_modify s id (fun _ => rfl) fun _ => rfl
    have second := mapped_modify? (s := s.touch id) (by rw [first.map_id]; exact hs)
      (once_complete? job fun _ => data.slice ⟨b₀.span.start - start, b₀.span.stop - start⟩) id
    have both : s.Mapped (fun b => if b.id = id then delivered s.clock job start data b else b)
        ((s.touch id).modify? id fun b => b.complete? job
          (data.slice ⟨b₀.span.start - start, b₀.span.stop - start⟩)).1 := by
      refine (first.trans second).congr (fun b hb' => ?_) hid hspan
      by_cases h : b.id = id
      · have hfind := find?_eq_some_of_mem hs hb'
        rw [h, hb] at hfind
        cases hfind
        simp only [h, if_true, delivered, tryOn, Block.complete?, Block.touch]
      · simp [h]
    generalize hm : ((s.touch id).modify? id fun b => b.complete? job
      (data.slice ⟨b₀.span.start - start, b₀.span.stop - start⟩)) = m at both
    obtain ⟨t, taken⟩ := m
    simp only [hm]
    cases taken with
    | false => exact both
    | true => exact ⟨both.handle, both.config, both.retired, both.nextBlock, both.blocks, hid, hspan⟩

theorem clock_modify? (s : Store) (id : Nat) (f : Block → Option Block) : (s.modify? id f).1.clock = s.clock := by
  unfold modify?
  cases (s.blocks.find? fun b => b.id == id).bind f <;> rfl

theorem clock_completeOne (s : Store) (job start : Nat) (data : Bytes) (id : Nat) :
    (s.completeOne job start data id).clock = s.clock := by
  unfold completeOne
  cases s.blocks.find? fun b => b.id == id with
  | none => rfl
  | some b =>
    have h := clock_modify? (s.touch id) id fun x =>
      x.complete? job (data.slice ⟨b.span.start - start, b.span.stop - start⟩)
    simp only
    split <;> exact h

theorem mapped_complete (hs : s.Sound) (job : Nat) (ids : List Nat) (start : Nat) (data : Bytes) :
    s.Mapped (fun b => if b.id ∈ ids then delivered (s.clock + 1) job start data b else b)
      (s.complete job ids start data) := by
  have h := mapped_foldl (u := fun s id => s.completeOne job start data id)
    (g := delivered (s.clock + 1) job start data)
    (Q := fun t => (t.blocks.map (·.id)).Nodup ∧ t.clock = s.clock + 1) (fun t i ht => ?_) (fun t i ht => ?_)
    (delivered_id _ _ _ _) (delivered_span _ _ _ _) (delivered_delivered _ _ _ _) (s := s.tick)
    ⟨hs.ids_tracked, rfl⟩ ids
  · exact ⟨h.handle, h.config, h.retired, h.nextBlock, h.blocks, h.id, h.span⟩
  · rw [(mapped_completeOne ht.1 job start data i).map_id, clock_completeOne]
    exact ht
  · rw [← ht.2]
    exact mapped_completeOne ht.1 job start data i

/-! ### Owners -/

/-- A claim gives a job the claimable blocks among those it names. -/
theorem owns_claim_iff (hs : s.Sound) {n id : Nat} {span : Span} :
    (s.claim job ids).Owns n id span ↔ s.Owns n id span ∨
      n = job ∧ id ∈ ids ∧ ∃ b ∈ s.blocks, b.id = id ∧ b.span = span ∧ b.state.isClaimable = true := by
  rw [(mapped_claim hs job ids).owns_iff]
  constructor
  · rintro ⟨b, hb, rfl, rfl, hst⟩
    by_cases hi : b.id ∈ ids
    · rw [if_pos hi, tryOn_claim?_state] at hst
      split at hst
      · cases hst
        exact Or.inr ⟨rfl, hi, b, hb, rfl, rfl, by assumption⟩
      · exact Or.inl ⟨b, hb, rfl, rfl, hst⟩
    · rw [if_neg hi] at hst
      exact Or.inl ⟨b, hb, rfl, rfl, hst⟩
  · rintro (⟨b, hb, rfl, rfl, hst⟩ | ⟨rfl, hi, b, hb, rfl, rfl, hc⟩)
    · refine ⟨b, hb, rfl, rfl, ?_⟩
      by_cases hi : b.id ∈ ids
      · rw [if_pos hi, tryOn_claim?_state, hst]
        rfl
      · rw [if_neg hi]
        exact hst
    · refine ⟨b, hb, rfl, rfl, ?_⟩
      rw [if_pos hi, tryOn_claim?_state, if_pos hc]

/-- When a job leaves blocks, it loses those, and no other job loses any. -/
theorem Mapped.owns_iff_of_leave {t : Store} {g : Block → Block} (h : s.Mapped g t)
    (hin : ∀ b : Block, b.id ∈ ids → b.state = .inFlight job → ∀ n, (g b).state ≠ .inFlight n)
    (hout : ∀ b : Block, ¬(b.id ∈ ids ∧ b.state = .inFlight job) → (g b).state = b.state) {n id : Nat} {span : Span} :
    t.Owns n id span ↔ s.Owns n id span ∧ ¬(n = job ∧ id ∈ ids) := by
  rw [h.owns_iff]
  constructor
  · rintro ⟨b, hb, rfl, rfl, hst⟩
    by_cases hl : b.id ∈ ids ∧ b.state = .inFlight job
    · exact absurd hst (hin b hl.1 hl.2 n)
    · rw [hout b hl] at hst
      exact ⟨⟨b, hb, rfl, rfl, hst⟩, fun ⟨hn, hi⟩ => hl ⟨hi, hn ▸ hst⟩⟩
  · rintro ⟨⟨b, hb, rfl, rfl, hst⟩, hl⟩
    refine ⟨b, hb, rfl, rfl, ?_⟩
    rw [hout b fun ⟨hi, hj⟩ => hl ⟨?_, hi⟩]
    · exact hst
    · rw [hst] at hj
      cases hj
      rfl

theorem owns_revert_iff (hs : s.Sound) {n id : Nat} {span : Span} :
    (s.revert job ids).Owns n id span ↔ s.Owns n id span ∧ ¬(n = job ∧ id ∈ ids) := by
  refine (mapped_revert hs job ids).owns_iff_of_leave (fun b hi hst n h => ?_) fun b hl => ?_
  · rw [if_pos hi, tryOn_revert?_state, if_pos hst] at h
    cases h
  · by_cases hi : b.id ∈ ids
    · rw [if_pos hi, tryOn_revert?_state, if_neg fun h => hl ⟨hi, h⟩]
    · rw [if_neg hi]

theorem owns_fail_iff (hs : s.Sound) {f : Fault} {n id : Nat} {span : Span} :
    (s.fail job ids f).Owns n id span ↔ s.Owns n id span ∧ ¬(n = job ∧ id ∈ ids) := by
  refine (mapped_fail hs job ids f).owns_iff_of_leave (fun b hi hst n h => ?_) fun b hl => ?_
  · rw [if_pos hi, tryOn_fail?_state, if_pos hst] at h
    cases h
  · by_cases hi : b.id ∈ ids
    · rw [if_pos hi, tryOn_fail?_state, if_neg fun h => hl ⟨hi, h⟩]
    · rw [if_neg hi]

theorem owns_complete_iff (hs : s.Sound) {start : Nat} {data : Bytes} {n id : Nat} {span : Span} :
    (s.complete job ids start data).Owns n id span ↔ s.Owns n id span ∧ ¬(n = job ∧ id ∈ ids) := by
  refine (mapped_complete hs job ids start data).owns_iff_of_leave (fun b hi hst n h => ?_) fun b hl => ?_
  · rw [if_pos hi, delivered_state, if_pos hst] at h
    cases h
  · by_cases hi : b.id ∈ ids
    · rw [if_pos hi, delivered_state, if_neg fun h => hl ⟨hi, h⟩]
    · rw [if_neg hi]

end Jobs

end Store

end RangeCache
