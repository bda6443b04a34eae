import RangeCache.Proofs.Cache.Reports

/-!
# Reading

The blocks that a read still needs tile what is missing of its span, and the bytes that it has are those
from the start of the span to the first of these blocks (`Store.Serves`). A read that goes on takes the
bytes of one block after the other and so ends with the bytes of its span, or waits for a block that a job
owns (`delivers_resumeRead`, `delivers_beginRead`).
-/

namespace RangeCache

open Relation

theorem Span.clamp_clamp (s : Span) (size : Nat) : (s.clamp size).clamp size = s.clamp size := by
  simp only [clamp, Span.mk.injEq]
  omega

theorem Contents.allows_of_isEmpty (C : Contents) {key : String} {s : Span} (hle : s.start ≤ s.stop)
    (h : s.isEmpty = true) : C.allows key s [] := by
  obtain ⟨i, j⟩ := s
  simp only [Span.isEmpty, decide_eq_true_eq] at h hle
  rw [Nat.le_antisymm hle h]
  exact C.nil

/-- Blocks follow one another from the end of some bytes of a span to its end or beyond. -/
def Store.Serves (C : Contents) (s : Store) (span : Span) (todo : List Nat) (got : Bytes) : Prop :=
  span.start < span.stop ∧ ∃ (l : List (Nat × Span)) (a e : Nat), l.map (·.1) = todo ∧
    Span.Tile a (l.map (·.2)) e ∧ span.stop ≤ e ∧ (∀ p ∈ l, s.Knows p.1 p.2 ∧ p.2.overlaps span = true) ∧
    C.allows s.handle.key ⟨span.start, min span.stop (max span.start a)⟩ got

/-- The blocks that a read needs and the bytes that it has are those of its span. In a store without a grid
    nothing is said. -/
def Cache.Serves (C : Contents) (c : Cache) (r : Reading) : Prop :=
  ∃ s, c.stores[r.store]? = some s ∧ (0 < s.config.blockSize → s.Serves C r.span r.todo r.bytes)

/-- The blocks that a read needs are known, and overlap its span. -/
def Cache.Meets (c : Cache) (r : Reading) : Prop :=
  ∃ s, c.stores[r.store]? = some s ∧ ∀ id ∈ r.todo, ∃ span, s.Knows id span ∧ span.overlaps r.span = true

/-- A read comes to need fewer blocks, and is the same otherwise. -/
def Reading.Further (r r' : Reading) : Prop := ∃ todo bytes, r' = { r with todo, bytes } ∧ todo <:+ r.todo

/-- How far a read got of a span of an object, in a store with a grid of some width: it has the bytes of the
    span, or it waits for a block that a job owns. -/
def Cache.Delivers (C : Contents) (c : Cache) (i : Nat) (key : String) (width : Nat) (span : Span) :
    Progress Reading → Prop
  | .waiting r => r.store = i ∧ r.span = span ∧ c.Serves C r ∧ ∃ id, r.todo.head? = some id ∧ c.Flies i id
  | .done (.ok b) => 0 < width → C.allows key span b
  | .done (.error _) => True

/-! ### The blocks of a read -/

section Further
variable {c c' : Cache} {r r' r'' : Reading}

theorem Reading.Further.refl (r : Reading) : r.Further r := ⟨r.todo, r.bytes, rfl, List.suffix_refl _⟩

theorem Reading.Further.trans (h : r.Further r') (h' : r'.Further r'') : r.Further r'' := by
  obtain ⟨todo, bytes, rfl, hs⟩ := h
  obtain ⟨todo', bytes', rfl, hs'⟩ := h'
  exact ⟨todo', bytes', rfl, hs'.trans hs⟩

theorem Cache.Meets.mono (h : c.Meets r) (hc : c.Extends c') : c'.Meets r := by
  obtain ⟨s, hs, hmeets⟩ := h
  obtain ⟨t, ht, -, -, hknows⟩ := hc hs
  refine ⟨t, ht, fun id hid => ?_⟩
  obtain ⟨span, hspan, hover⟩ := hmeets id hid
  exact ⟨span, hknows hspan, hover⟩

theorem Cache.Meets.further (h : c.Meets r) (hr : r.Further r') : c.Meets r' := by
  obtain ⟨todo, bytes, rfl, hsuffix⟩ := hr
  obtain ⟨s, hs, hmeets⟩ := h
  exact ⟨s, hs, fun id hid => hmeets id (hsuffix.subset hid)⟩

end Further

/-! ### The bytes of a read -/

section Serves
variable {C : Contents} {s t : Store} {span : Span} {todo : List Nat} {got : Bytes} {id : Nat}

theorem Store.Serves.mono (h : s.Serves C span todo got) (hh : t.handle = s.handle)
    (hk : ∀ ⦃id : Nat⦄ ⦃span : Span⦄, s.Knows id span → t.Knows id span) : t.Serves C span todo got := by
  obtain ⟨h0, l, a, e, h1, h2, h3, h4, h5⟩ := h
  exact ⟨h0, l, a, e, h1, h2, h3, fun p hp => ⟨hk (h4 p hp).1, (h4 p hp).2⟩, hh ▸ h5⟩

theorem Store.Serves.allows (h : s.Serves C span [] got) : C.allows s.handle.key span got := by
  obtain ⟨-, l, a, e, h1, h2, h3, -, h5⟩ := h
  rw [List.map_eq_nil_iff.mp h1] at h2
  simp only [List.map_nil, Span.Tile] at h2
  have : min span.stop (max span.start a) = span.stop := by omega
  rw [this] at h5
  exact h5

theorem Store.Serves.take (h : s.Serves C span (id :: todo) got) (hs : s.Sound) (hh : s.Holds C) {b : Block}
    (hb : b ∈ s.blocks) (hid : b.id = id) {bytes : Bytes} (hst : b.state = .ready bytes) :
    s.Serves C span todo (got ++
      bytes.slice ⟨max span.start b.span.start - b.span.start, min span.stop b.span.stop - b.span.start⟩) := by
  obtain ⟨h0, l, a, e, h1, h2, h3, h4, h5⟩ := h
  cases l with
  | nil => cases h1
  | cons p r =>
    obtain ⟨hp, hr⟩ := List.cons.inj h1
    obtain ⟨hstart, hlt, htile⟩ := h2
    obtain ⟨⟨x, hx, hxid, hxspan⟩, hover⟩ := h4 p List.mem_cons_self
    -- The block that the read knows is the one that is there.
    obtain rfl : x = b := hs.eq_of_id hx (List.mem_append_left _ hb) (hxid.trans (hp.trans hid.symm))
    simp only [← hxspan] at hstart hlt htile hover
    obtain ⟨ho1, ho2⟩ := overlaps_iff.mp hover
    refine ⟨h0, r, x.span.stop, e, hr, htile, h3, fun q hq => h4 q (List.mem_cons_of_mem _ hq), ?_⟩
    have hmid : min span.stop (max span.start a) = max span.start x.span.start := by omega
    have hend : min span.stop (max span.start x.span.stop) = min span.stop x.span.stop := by omega
    rw [hmid] at h5
    rw [hend]
    have hpart := C.part (t := ⟨max span.start x.span.start, min span.stop x.span.stop⟩) (hh x hb bytes hst)
      (by simp only; omega) (by simp only; omega)
    exact C.append (by omega) (by omega) h5 hpart

/-- The blocks over a span that is covered serve a read of it. -/
theorem Store.serves_overlapping (hs : s.Sound) (hspan : span.start < span.stop)
    (hcov : ∀ o ∈ span, ∃ b ∈ s.blocks, o ∈ b.span) : s.Serves C span ((s.overlapping span).map (·.id)) [] := by
  obtain ⟨a, e, htile, ha, he⟩ := tile_overlapping hs hspan hcov
  refine ⟨hspan, (s.overlapping span).map fun b => (b.id, b.span), a, e, by simp, ?_, he, ?_, ?_⟩
  · simpa [Function.comp_def] using htile
  · intro p hp
    obtain ⟨b, hb, rfl⟩ := List.mem_map.mp hp
    obtain ⟨hb, hover⟩ := (mem_overlapping hs (Nat.le_of_lt hspan)).mp hb
    exact ⟨⟨b, List.mem_append_left _ hb, rfl, rfl⟩, hover⟩
  · have : min span.stop (max span.start a) = span.start := by omega
    rw [this]
    exact C.nil

theorem Cache.Serves.mono {c c' : Cache} {r : Reading} (h : c.Serves C r) (hc : c.Extends c') : c'.Serves C r := by
  obtain ⟨s, hs, hserves⟩ := h
  obtain ⟨t, ht, h1, h2, h3⟩ := hc hs
  exact ⟨t, ht, fun hb => (hserves (h2 ▸ hb)).mono h1 h3⟩

end Serves

namespace Cache

section Poll
variable {c c' : Cache} {i id : Nat} {owner : Option Nat}

theorem Store.mem_blocks_of_block? {s : Store} (hs : s.Sound) {b : Block} (hb : s.block? id = some b)
    (hst : b.state ≠ .evicted) : b ∈ s.blocks := by
  rcases List.mem_append.mp (Store.mem_of_block?_eq_some hb).1 with hm | hm
  · exact hm
  · exact absurd (hs.retired b hm) hst

theorem eq_of_poll_done {bytes : Bytes} (h : c.poll i id owner = (c', .done (.ok bytes))) :
    c' = c ∧ ∃ s b, c.stores[i]? = some s ∧ s.block? id = some b ∧ b.state = .ready bytes := by
  unfold poll at h
  cases hs : c.stores[i]? with
  | none => simp [hs] at h
  | some s =>
    cases hb : s.block? id with
    | none => simp [hs, hb] at h
    | some b =>
      cases hst : b.state with
      | ready x =>
        simp only [hs, hb, hst, Prod.mk.injEq, Progress.done.injEq, Except.ok.injEq] at h
        exact ⟨h.1.symm, s, b, rfl, hb, h.2 ▸ hst⟩
      | pending =>
        simp only [hs, hb, hst] at h
        split at h <;> simp at h
      | _ => simp [hs, hb, hst] at h

theorem Flies.submit {k : Nat} (hf : c.Flies k id) {j : Job} (hj : j.priority = .immediate) {n : Nat}
    (h : c.submit [j] 0 = (c', .ok n)) : c'.Flies k id := by
  have hmiss : (c.modifyStore j.store fun s => { s with misses := s.misses + j.blocks.length }).Flies k id :=
    hf.modifyStore fun {s} _ _ _ _ => ((Store.mapped_count s _ _ _ _).owns_iff_of_state fun _ => rfl).mpr
  unfold Cache.submit at h
  generalize c.modifyStore j.store (fun s => { s with misses := s.misses + j.blocks.length }) = c₁ at h hmiss
  dsimp only at h
  split at h
  · simp [hj] at h
  · simp only [Cache.submit, Prod.mk.injEq] at h
    rw [← h.1]
    have hpump : ({ c₁ with queue := c₁.queue.enqueue j } : Cache).pump.Flies k id := hmiss
    exact hpump.modifyStore fun {s} _ _ _ _ => ((Store.mapped_count s _ _ _ _).owns_iff_of_state fun _ => rfl).mpr

theorem flies_of_poll_waiting (hc : c.StoresSound) (h : c.poll i id owner = (c', .waiting ())) : c'.Flies i id := by
  unfold poll at h
  cases hs : c.stores[i]? with
  | none => simp [hs] at h
  | some s =>
    cases hb : s.block? id with
    | none => simp [hs, hb] at h
    | some b =>
      have hid : b.id = id := (Store.mem_of_block?_eq_some hb).2
      cases hst : b.state with
      | inFlight n =>
        have hmem := Store.mem_blocks_of_block? (hc hs) hb (by simp [hst])
        simp only [hs, hb, hst, Prod.mk.injEq] at h
        exact h.1 ▸ ⟨s, hs, n, b.span, b, hmem, hid, rfl, hst⟩
      | pending =>
        have hmem := Store.mem_blocks_of_block? (hc hs) hb (by simp [hst])
        simp only [hs, hb, hst] at h
        -- The block is claimed by a job of its own, which the queue takes.
        have hclaimed : (c.claimRuns i s.handle.key .immediate owner [[b]]).1.Flies i id := by
          refine ⟨_, getElem?_modifyStore_self hs, c.queue.nextJob, b.span, ?_⟩
          exact (Store.owns_claim_iff (hc hs)).mpr
            (Or.inr ⟨rfl, by simp [hid], b, hmem, hid, rfl, by rw [hst]; rfl⟩)
        split at h
        · rename_i heq
          simp only [Prod.mk.injEq] at h
          rw [← h.1]
          exact hclaimed.submit rfl heq
        · simp at h
      | _ => simp [hs, hb, hst] at h

end Poll

/-! ### Reads that go on -/

section ReadFrom
variable {C : Contents} {c : Cache} {s : Store} {r : Reading}

theorem delivers_readFrom (h : Work.Sound C ⟨c, []⟩) (hs : c.stores[r.store]? = some s) {g : Bytes} {todo : List Nat}
    (hserves : 0 < s.config.blockSize → s.Serves C r.span todo g) :
    (c.readFrom r g todo).1.Delivers C r.store s.handle.key s.config.blockSize r.span (c.readFrom r g todo).2 := by
  induction todo generalizing c s g with
  | nil => exact fun hb => (hserves hb).allows
  | cons id rest ih =>
    have hmoves := moves_poll (A := C.admits) h.stores r.store id r.owner
    obtain ⟨t, ht, hhandle, hconfig, hknows⟩ := hmoves.extends h.stores hs
    unfold readFrom
    rcases hp : c.poll r.store id r.owner with ⟨c', p⟩
    rw [hp] at ht
    cases p with
    | waiting =>
      refine ⟨rfl, rfl, ⟨t, ht, fun hb => ?_⟩, id, rfl, flies_of_poll_waiting h.stores hp⟩
      exact (hserves (hconfig ▸ hb)).mono hhandle hknows
    | done result =>
      cases result with
      | error f => exact trivial
      | ok bytes =>
        obtain ⟨rfl, s', b, hs', hb, hst⟩ := eq_of_poll_done hp
        rw [hs] at hs'
        cases hs'
        dsimp only
        have hfind : (c'.stores[r.store]?).bind (·.block? id) = some b := by rw [hs]; exact hb
        rw [hfind]
        dsimp only
        have htouch := moves_touch (A := C.admits) (L := []) (c := c') r.store id
        obtain ⟨u, hu, hhandle', hconfig', hknows'⟩ := htouch.extends h.stores hs
        have hmem := Store.mem_blocks_of_block? (h.stores hs) hb (by simp [hst])
        have hrest := ih (Moves.sound htouch h) hu (g := g ++ r.part b bytes) fun hpos =>
          ((hserves (hconfig' ▸ hpos)).take (h.stores hs) (h.holds hs) hmem
            (Store.mem_of_block?_eq_some hb).2 hst).mono hhandle' hknows'
        rw [hhandle', hconfig'] at hrest
        exact hrest

theorem delivers_resumeRead (h : Work.Sound C ⟨c, []⟩) (hs : c.stores[r.store]? = some s)
    (hserves : 0 < s.config.blockSize → s.Serves C r.span r.todo r.bytes) :
    (c.resumeRead r).1.Delivers C r.store s.handle.key s.config.blockSize r.span (c.resumeRead r).2 :=
  delivers_readFrom h hs hserves

end ReadFrom

/-! ### Reads that begin -/

section BeginRead
variable {C : Contents} {c : Cache} {i : Nat} {s : Store}

/-- Runs that are claimed change single blocks of their store. None of the blocks that they name can be claimed after
    that, nor any other that could not be claimed before, and the others are as they were. -/
theorem exists_mapped_claimRuns (hc : c.StoresSound) (hs : c.stores[i]? = some s) (key : String) (priority : Priority)
    (owner : Option Nat) (runs : List (List Block)) :
    ∃ t g, (c.claimRuns i key priority owner runs).1.stores[i]? = some t ∧ s.Mapped g t ∧
      (∀ b : Block, b.state.isClaimable = false ∨ b.id ∈ runs.flatten.map (·.id) →
        (g b).state.isClaimable = false) ∧
      ∀ b : Block, b.id ∉ runs.flatten.map (·.id) → g b = b := by
  induction runs generalizing c s with
  | nil => exact ⟨s, id, hs, Store.mapped_refl s, fun b hb => hb.resolve_right List.not_mem_nil, fun b _ => rfl⟩
  | cons run r ih =>
    have hc' : (c.claimRun i key priority owner run).1.StoresSound :=
      Cache.StoresSound.modifyStore (c := c) hc fun s _ hs => hs.claim _ _
    obtain ⟨t, g, ht, hg, hclaimed, hothers⟩ := ih hc' (getElem?_modifyStore_self hs)
    have hfirst := Store.mapped_claim (hc hs) c.queue.nextJob (run.map (·.id))
    refine ⟨t, _, ht, hfirst.trans hg, fun b hb => hclaimed _ ?_, fun b hb => ?_⟩
    · rw [hfirst.id b]
      by_cases hrun : b.id ∈ run.map (·.id)
      · refine Or.inl ?_
        rw [if_pos hrun, Store.tryOn_claim?_state]
        split
        · rfl
        · simpa using ‹¬b.state.isClaimable = true›
      · rw [if_neg hrun]
        simpa [hrun] using hb
    · rw [List.flatten_cons, List.map_append, List.mem_append, not_or] at hb
      rw [if_neg hb.1]
      exact hothers b hb.2

/-- A claim changes single blocks of its store, after the missing ones were made. None of the blocks that the spans touch
    can be claimed after that, and the blocks that no new job lists are as they were. -/
theorem exists_mapped_claim (hc : c.StoresSound) (hs : c.stores[i]? = some s) (spans : List Span) (fit : Fit)
    (priority : Priority) (owner : Option Nat) :
    ∃ t g, (c.claim i spans fit priority owner).1.stores[i]? = some t ∧ (s.fillAll fit spans).Mapped g t ∧
      (∀ b ∈ (s.fillAll fit spans).touched spans, (g b).state.isClaimable = false) ∧
      ∀ b : Block, b.id ∉ (Store.runs s.config.maxRun ((s.fillAll fit spans).touched spans)).flatten.map (·.id) →
        g b = b := by
  have hgrown := Store.grown_fillAll (hc hs) fit spans
  have hc' : (c.setStore i (s.fillAll fit spans)).StoresSound := hc.modifyStore fun _ _ _ => hgrown.sound (hc hs)
  obtain ⟨t, g, ht, hg, hclaimed, hothers⟩ := exists_mapped_claimRuns hc' (getElem?_setStore hs)
    (s.fillAll fit spans).handle.key priority owner
    (Store.runs (s.fillAll fit spans).config.maxRun ((s.fillAll fit spans).touched spans))
  rw [claim_of_sound hc hs]
  refine ⟨t, g, ht, hg, fun b hb => hclaimed b ?_, ?_⟩
  · rw [Store.flatten_runs]
    cases hst : b.state.isClaimable with
    | false => exact Or.inl rfl
    | true => exact Or.inr (List.mem_map_of_mem (List.mem_filter.mpr ⟨hb, hst⟩))
  · rwa [hgrown.config] at hothers

theorem covered_claim (hc : c.StoresSound) (hs : c.stores[i]? = some s) (hb : 0 < s.config.blockSize) {span : Span}
    (hspan : span ∈ s.clampAll [span]) (fit : Fit) (priority : Priority) (owner : Option Nat) :
    ∃ t, (c.claim i [span] fit priority owner).1.stores[i]? = some t ∧
      ∀ o ∈ span, ∃ b ∈ t.blocks, o ∈ b.span := by
  obtain ⟨t, g, ht, hg, -⟩ := exists_mapped_claim hc hs [span] fit priority owner
  refine ⟨t, ht, fun o ho => ?_⟩
  obtain ⟨b, hb', hob⟩ := Store.covered_fillAll (hc hs) (Or.inr hb : fit = .exact ∨ _) hspan ho
  exact ⟨g b, hg.mem_iff.mpr ⟨b, hb', rfl⟩, (hg.span b).symm ▸ hob⟩

/-- After the claim of a span, its blocks serve a read of it. -/
theorem serves_claim (h : Work.Sound C ⟨c, []⟩) (hs : c.stores[i]? = some s) {span : Span}
    (hlt : span.start < span.stop) (hspan : span ∈ s.clampAll [span]) (fit : Fit) (owner : Option Nat) :
    ∃ t, (c.claim i [span] fit .immediate owner).1.stores[i]? = some t ∧ t.handle = s.handle ∧ t.config = s.config ∧
      (0 < s.config.blockSize → t.Serves C span ((t.overlapping span).map (·.id)) []) := by
  have hclaim := moves_claim (A := C.admits) h.stores i [span] fit .immediate owner
  obtain ⟨t, ht, hhandle, hconfig, -⟩ := hclaim.extends h.stores hs
  refine ⟨t, ht, hhandle, hconfig, ?_⟩
  intro hb
  obtain ⟨u, hu, hcover⟩ := covered_claim h.stores hs hb hspan fit .immediate owner
  cases ht.symm.trans hu
  exact Store.serves_overlapping (Moves.storesSound hclaim h.stores ht) hlt hcover

/-- A read of an object delivers, or promises, the bytes of its span as far as the object has it. -/
theorem delivers_beginRead (h : Work.Sound C ⟨c, []⟩) (hs : c.stores[i]? = some s) (span : Span) (fit : Fit)
    (owner : Option Nat) :
    (c.beginRead i span fit owner).1.Delivers C i s.handle.key s.config.blockSize (span.clamp s.handle.size)
      (c.beginRead i span fit owner).2 := by
  have hle := span.start_le_stop_clamp s.handle.size
  have hclamp := span.clamp_clamp s.handle.size
  unfold beginRead
  rw [hs]
  dsimp only
  generalize span.clamp s.handle.size = span at hle hclamp ⊢
  split
  · rename_i hempty
    exact fun _ => C.allows_of_isEmpty hle hempty
  · rename_i hempty
    have hlt : span.start < span.stop := by simpa [Span.isEmpty] using hempty
    have hmem : span ∈ s.clampAll [span] := by
      simp [Store.clampAll, hclamp, Span.isEmpty, hlt]
    have hclaim := moves_claim (A := C.admits) h.stores i [span] fit .immediate owner
    obtain ⟨t, ht, hhandle, hconfig, hserves⟩ := serves_claim h hs hlt hmem fit owner
    generalize c.claim i [span] fit .immediate owner = claimed at hclaim ht ⊢
    obtain ⟨c₁, jobs, others⟩ := claimed
    dsimp only at hclaim ht ⊢
    have hblocks : ((c₁.stores[i]?).map (·.overlapping span)).getD [] = t.overlapping span := by rw [ht]; rfl
    rw [hblocks]
    have hpin : Moves C.admits ⟨c₁, jobs⟩ ⟨c₁.modifyStore i fun s =>
        { s.pin ((t.overlapping span).map (·.id)) with
          hits := s.hits + (t.overlapping span).countP fun b => b.state.isReady }, jobs⟩ :=
      moves_modifyStore fun s _ => (Store.edits_pin ((t.overlapping span).map (·.id)) s).tail (.count _ _ _ _)
    have hrest := hpin.trans (moves_dispatch jobs others .immediate)
    obtain ⟨u, hu, hhandle', hconfig', hknows⟩ := Moves.extends hrest (Moves.storesSound hclaim h.stores) ht
    have hdone := (Moves.sound hclaim h : Work.Sound C ⟨c₁, jobs⟩)
    have hsound := Moves.sound hrest hdone
    split <;> rename_i heq <;> rw [heq] at hu hsound <;> dsimp only at hu hsound ⊢
    · rw [← hhandle, ← hconfig, ← hhandle', ← hconfig']
      refine delivers_resumeRead (r := ⟨i, span, owner, _, _, []⟩) hsound hu fun hb => ?_
      exact (hserves (hconfig ▸ hconfig' ▸ hb)).mono hhandle' hknows
    · exact trivial

theorem beginRead_of_none (hs : c.stores[i]? = none) (span : Span) (fit : Fit) (owner : Option Nat) :
    c.beginRead i span fit owner = (c, .done (.error (.internal "no such store"))) := by
  unfold beginRead
  rw [hs]

end BeginRead

end Cache

end RangeCache
