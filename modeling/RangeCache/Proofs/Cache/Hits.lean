import RangeCache.Proofs.Cache.Coalesced

/-!
# Reading what is there

A span may be had whose bytes are all in blocks that hold them (`Store.Has`). A read of such a span claims no block and
makes no job, and so it ends at once with its bytes, however full the queue is (`Cache.beginRead_of_has`). Requests and
cancellations do nothing to the blocks that hold their bytes (`Cache.Retains`), whether they are granted or not.
-/

namespace RangeCache

namespace Store

/-- Every byte of a span is in a block whose bytes are there. -/
def Has (s : Store) (span : Span) : Prop := ∀ o ∈ span, ∃ b ∈ s.blocks, b.state.isReady = true ∧ o ∈ b.span

/-- Nothing becomes of the blocks whose bytes are there. -/
structure Retains (s t : Store) : Prop where
  handle : t.handle = s.handle
  ready : ∀ b ∈ s.blocks, b.state.isReady = true → b ∈ t.blocks

section Retains
variable {s t u : Store} {span : Span}

theorem Retains.refl (s : Store) : s.Retains s := ⟨rfl, fun _ hb _ => hb⟩

theorem Retains.trans (h : s.Retains t) (h' : t.Retains u) : s.Retains u where
  handle := h'.handle.trans h.handle
  ready b hb hready := h'.ready b (h.ready b hb hready) hready

theorem Has.retains (h : s.Has span) (hst : s.Retains t) : t.Has span := fun o ho => by
  obtain ⟨b, hb, hready, hob⟩ := h o ho
  exact ⟨b, hst.ready b hb hready, hready, hob⟩

theorem Grown.retains (h : Grown s t) : s.Retains t := ⟨h.handle, fun _ hb _ => h.mem hb⟩

theorem Mapped.retains {g : Block → Block} (h : s.Mapped g t) (hg : ∀ b, b.state.isReady = true → g b = b) :
    s.Retains t where
  handle := h.handle
  ready b hb hready := h.mem_iff.mpr ⟨b, hb, hg b hready⟩

theorem exists_eq_ready {b : Block} (h : b.state.isReady = true) : ∃ bytes, b.state = .ready bytes := by
  cases hst : b.state with
  | ready bytes => exact ⟨bytes, rfl⟩
  | _ =>
    rw [hst] at h
    cases h

theorem isClaimable_of_isReady {b : Block} (h : b.state.isReady = true) : b.state.isClaimable = false := by
  obtain ⟨bytes, hst⟩ := exists_eq_ready h
  rw [hst]
  rfl

theorem retains_claim (hs : s.Sound) (job : Nat) (ids : List Nat) : s.Retains (s.claim job ids) := by
  refine (mapped_claim hs job ids).retains fun b hready => ite_eq_right_iff.mpr fun _ => ?_
  simp [tryOn, Block.claim?, isClaimable_of_isReady hready]

theorem retains_revert (hs : s.Sound) (job : Nat) (ids : List Nat) : s.Retains (s.revert job ids) := by
  refine (mapped_revert hs job ids).retains fun b hready => ite_eq_right_iff.mpr fun _ => ?_
  obtain ⟨bytes, hst⟩ := exists_eq_ready hready
  simp [tryOn, Block.revert?, Block.leave?, hst]

/-- Whoever asks for a span whose bytes are there touches blocks that hold them. -/
theorem Has.ready_of_overlaps (h : s.Has span) (hs : s.Sound) (hspan : span.isEmpty = false) {b : Block}
    (hb : b ∈ s.blocks) (hover : b.span.overlaps span = true) : b.state.isReady = true := by
  have hne : b.span.isEmpty = false := by simpa [Span.isEmpty] using hs.nonempty b hb
  obtain ⟨o, hob, ho⟩ := (Span.overlaps_iff_of_mem hne hspan).mp hover
  obtain ⟨x, hx, hready, hox⟩ := h o ho
  exact hs.eq_of_mem_span hb hx hob hox ▸ hready

end Retains

end Store

namespace Cache

/-! ### What requests leave alone -/

/-- The stores stay sound, and nothing becomes of their blocks whose bytes are there. -/
def Retains (c c' : Cache) : Prop := c.StoresSound → c'.StoresSound ∧
  ∀ ⦃i : Nat⦄ ⦃s : Store⦄, c.stores[i]? = some s → ∃ t, c'.stores[i]? = some t ∧ s.Retains t

section Retains
variable {c c' c'' : Cache} {i : Nat}

theorem Retains.refl (c : Cache) : c.Retains c := fun hc => ⟨hc, fun _ s hs => ⟨s, hs, .refl s⟩⟩

theorem Retains.trans (h : c.Retains c') (h' : c'.Retains c'') : c.Retains c'' := by
  intro hc
  obtain ⟨hc', hfirst⟩ := h hc
  obtain ⟨hc'', hsecond⟩ := h' hc'
  refine ⟨hc'', fun i s hs => ?_⟩
  obtain ⟨t, ht, hst⟩ := hfirst hs
  obtain ⟨u, hu, htu⟩ := hsecond ht
  exact ⟨u, hu, hst.trans htu⟩

theorem retains_modifyStore {f : Store → Store}
    (hf : ∀ s, c.stores[i]? = some s → s.Sound → (f s).Sound ∧ s.Retains (f s)) : c.Retains (c.modifyStore i f) := by
  intro hc
  refine ⟨hc.modifyStore fun s hs hsound => (hf s hs hsound).1, fun k s hs => ?_⟩
  by_cases hk : k = i
  · subst hk
    exact ⟨f s, getElem?_modifyStore_self hs, (hf s hs (hc hs)).2⟩
  · exact ⟨s, (getElem?_modifyStore_ne hk).trans hs, .refl s⟩

theorem retains_revertAll (l : List Job) : c.Retains (l.foldl revertJob c) := by
  induction l generalizing c with
  | nil => exact .refl c
  | cons j r ih =>
    have hrevert : c.Retains (c.revertJob j) :=
      retains_modifyStore (c := c) fun _ _ hs => ⟨hs.revert _ _, Store.retains_revert hs _ _⟩
    exact hrevert.trans ih

theorem retains_count (f : Store → Nat) (g : Store → Nat) :
    c.Retains (c.modifyStore i fun s => { s with misses := f s, fetches := g s }) :=
  retains_modifyStore fun _ _ hs => ⟨(Store.Edit.count _ _ _ _).sound hs, rfl, fun _ hb _ => hb⟩

theorem retains_submit (jobs : List Job) (n : Nat) : c.Retains (c.submit jobs n).1 := by
  induction jobs generalizing c n with
  | nil => exact .refl c
  | cons j r ih =>
    unfold submit
    have hmiss : c.Retains (c.modifyStore j.store fun s => { s with misses := s.misses + j.blocks.length }) :=
      retains_count (fun s => s.misses + j.blocks.length) fun s => s.fetches
    refine hmiss.trans ?_
    generalize c.modifyStore j.store (fun s => { s with misses := s.misses + j.blocks.length }) = c
    dsimp only
    split
    · have hreject : c.Retains { c with queue := { c.queue with rejected := c.queue.rejected + 1 } } := .refl c
      cases j.priority with
      | speculative => exact hreject.trans ((retains_revertAll [j]).trans (ih n))
      | immediate => exact hreject.trans (retains_revertAll (j :: r))
    · have hqueue : c.Retains ({ c with queue := c.queue.enqueue j }.pump) := .refl c
      exact hqueue.trans ((retains_count (fun s => s.misses) fun s => s.fetches + 1).trans (ih (n + 1)))

theorem retains_claimRuns (key : String) (priority : Priority) (owner : Option Nat) (runs : List (List Block)) :
    c.Retains (c.claimRuns i key priority owner runs).1 := by
  induction runs generalizing c with
  | nil => exact .refl c
  | cons run r ih =>
    have hclaim : c.Retains (c.claimRun i key priority owner run).1 :=
      retains_modifyStore (c := { c with queue := c.queue.takeId.1 }) fun s _ hs =>
        ⟨hs.claim _ _, Store.retains_claim hs _ _⟩
    exact hclaim.trans ih

theorem retains_dispatch (jobs : List Job) (others : List Nat) (priority : Priority) :
    c.Retains (c.dispatch jobs others priority).1 := by
  unfold dispatch
  cases priority with
  | immediate => exact retains_submit (c := { c with queue := others.foldl FetchQueue.promote c.queue }) jobs 0
  | speculative => exact retains_submit jobs 0

theorem retains_ensure (i : Nat) (spans : List Span) (fit : Fit) (priority : Priority) (owner : Option Nat) :
    c.Retains (c.ensure i spans fit priority owner).1 := by
  have hclaim : c.Retains (c.claim i spans fit priority owner).1 := by
    cases hs : c.stores[i]? with
    | none =>
      rw [claim_of_none hs]
      exact .refl c
    | some s =>
      rw [claim_eq hs]
      have hfill : c.Retains (c.modifyStore i fun _ => s.fillAll fit spans) := retains_modifyStore fun t ht hsound => by
        rw [hs] at ht
        cases ht
        have hgrown := Store.grown_fillAll hsound fit spans
        exact ⟨hgrown.sound hsound, hgrown.retains⟩
      exact hfill.trans (retains_claimRuns _ priority owner _)
  exact hclaim.trans (retains_dispatch _ _ priority)

theorem retains_cancel (owner : Nat) : c.Retains (c.cancel owner).1 :=
  retains_revertAll (c := { c with queue := (c.queue.cancel owner).1 }) _

end Retains

/-! ### Reads -/

section Reads
variable {c : Cache} {i : Nat} {s : Store} {span : Span} {fit : Fit} {owner : Option Nat}

/-- The bytes of a block are there. -/
def Hits (c : Cache) (i id : Nat) : Prop :=
  ∃ s, c.stores[i]? = some s ∧ ∃ b ∈ s.blocks, b.id = id ∧ b.state.isReady = true

/-- A read whose blocks hold their bytes has them all without waiting. -/
theorem exists_readFrom_eq_done (hc : c.StoresSound) (r : Reading) {got : Bytes} {todo : List Nat}
    (h : ∀ id ∈ todo, c.Hits r.store id) : ∃ bytes, (c.readFrom r got todo).2 = .done (.ok bytes) := by
  induction todo generalizing c got with
  | nil => exact ⟨got, rfl⟩
  | cons id rest ih =>
    obtain ⟨s, hs, b, hb, hid, hready⟩ := h id List.mem_cons_self
    obtain ⟨bytes, hst⟩ := Store.exists_eq_ready hready
    have hblock : s.block? id = some b := by
      subst hid
      simp [Store.block?, Store.find?_eq_some_of_mem (hc hs).ids_tracked hb]
    have hpoll : c.poll r.store id r.owner = (c, .done (.ok bytes)) := by
      simp only [poll, hs, hblock, hst]
    have hfind : (c.stores[r.store]?).bind (·.block? id) = some b := by rw [hs]; exact hblock
    unfold readFrom
    rw [hpoll]
    dsimp only
    rw [hfind]
    refine ih ((quiet_tick r.store id).storesSound hc) fun k hk => ?_
    obtain ⟨t, ht, x, hx, hxid, hxready⟩ := h k (List.mem_cons_of_mem _ hk)
    refine ⟨_, getElem?_modifyStore_self ht, _, (Store.mapped_touch (s := t.tick) id).mem_iff.mpr ⟨x, hx, rfl⟩, ?_, ?_⟩
    · split <;> exact hxid
    · split <;> exact hxready

/-- A read of a span whose bytes are there makes no job. -/
theorem claim_of_has (hc : c.StoresSound) (hs : c.stores[i]? = some s)
    (hspan : (span.clamp s.handle.size).isEmpty = false) (h : s.Has (span.clamp s.handle.size)) (priority : Priority) :
    c.claim i [span] fit priority owner = (c, [], []) := by
  have hready : ∀ b ∈ s.touched [span], b.state.isReady = true := fun b hb => by
    obtain ⟨hb, hover⟩ := (Store.mem_touched_singleton hspan).mp hb
    exact h.ready_of_overlaps (hc hs) hspan hb hover
  have hfill : s.fillAll fit [span] = s := by
    refine Store.fillAll_of_covered (hc hs) fun t ht o ho => ?_
    rw [Store.clampAll_singleton s hspan, List.mem_singleton] at ht
    obtain ⟨b, hb, -, hob⟩ := h o (ht ▸ ho)
    exact ⟨b, hb, hob⟩
  have hothers : (s.touched [span]).filterMap (·.state.job?) = [] := by
    refine List.filterMap_eq_nil_iff.mpr fun b hb => ?_
    obtain ⟨bytes, hst⟩ := Store.exists_eq_ready (hready b hb)
    rw [hst]
    rfl
  simp only [claim_of_sound hc hs, hfill, setStore_self hs, hothers,
    Store.runs_eq_nil fun b hb => Store.isClaimable_of_isReady (hready b hb), claimRuns]

/-- A read of bytes that are there has them at once, as many as the object has of its span. -/
theorem beginRead_of_has (h : Work.Sound .sized ⟨c, []⟩) (hs : c.stores[i]? = some s) (hgrid : 0 < s.config.blockSize)
    (hhas : s.Has (span.clamp s.handle.size)) (fit : Fit) (owner : Option Nat) :
    ∃ bytes, (c.beginRead i span fit owner).2 = .done (.ok bytes) ∧
      bytes.length = (span.clamp s.handle.size).length := by
  have hc := h.stores
  have hdelivers := delivers_beginRead h hs span fit owner
  obtain ⟨bytes, hbytes⟩ : ∃ bytes, (c.beginRead i span fit owner).2 = .done (.ok bytes) := by
    cases hspan : (span.clamp s.handle.size).isEmpty with
    | true => exact ⟨[], by rw [beginRead_of_isEmpty hs hspan]⟩
    | false =>
      have hclamp := span.clamp_clamp s.handle.size
      have hclaim : c.claim i [span.clamp s.handle.size] fit .immediate owner = (c, [], []) :=
        claim_of_has hc hs (by rw [hclamp]; exact hspan) (by rw [hclamp]; exact hhas) .immediate
      rw [beginRead_of_claim hs hspan hclaim hs]
      -- There is nothing to ask the queue for.
      refine exists_readFrom_eq_done (hc.modifyStore fun s _ hs => (s.edits_pinFor _).sound hs) _ fun id hid => ?_
      obtain ⟨b, hb, rfl⟩ := List.mem_map.mp hid
      obtain ⟨hm, hover⟩ := (Store.mem_overlapping_clamp (hc hs)).mp hb
      have hready := hhas.ready_of_overlaps (hc hs) hspan hm hover
      exact ⟨_, getElem?_modifyStore_self hs, _, (s.mapped_pinFor _).mem_iff.mpr ⟨b, hm, rfl⟩, rfl, hready⟩
  rw [hbytes] at hdelivers
  exact ⟨bytes, hbytes, hdelivers hgrid (span.start_le_stop_clamp _)⟩

end Reads

end Cache

end RangeCache
