import RangeCache.Proofs.Cache.Actions

/-!
# What is fetched, and how often

The jobs that wait or run have no byte in common with one another, nor with a block whose bytes are there
(`Work.Sound.spaced`). A job that runs leaves the queue only by its end; when that is a good one, the
blocks that got its bytes hold them until they are evicted (`Cache.Got`). Hence no byte is requested a second
time unless the first request for it failed or the block that got it was evicted (`fetched_once`).
-/

namespace RangeCache

open Relation

/-! ### Blocks and jobs that share a byte -/

section Shared
variable {C : Contents} {c : Cache} {s : Store} {o : Nat}

theorem Work.Sound.eq_of_mem_span (h : Work.Sound C ⟨c, []⟩) {j k : Job} (hj : j ∈ c.queue.jobs)
    (hk : k ∈ c.queue.jobs) (hjk : j.store = k.store) (hoj : o ∈ j.span) (hok : o ∈ k.span) : j = k := by
  obtain ⟨s, hs, hcar⟩ := h.ledger.carried j hj
  obtain ⟨t, ht, hcar'⟩ := h.ledger.carried k hk
  rw [← hjk, hs] at ht
  cases ht
  obtain ⟨-, -, u, ⟨a, ha, -, rfl, hsta⟩, hou⟩ := hcar.exists_owns hoj
  obtain ⟨-, -, v, ⟨b, hb, -, rfl, hstb⟩, hov⟩ := hcar'.exists_owns hok
  rw [(h.stores hs).eq_of_mem_span ha hb hou hov, hstb] at hsta
  exact h.ledger.eq_of_id hj hk (BlockState.inFlight.inj hsta).symm

/-- A byte of a job is in no block but one of its own. -/
theorem Work.Sound.inFlight_of_mem_span (h : Work.Sound C ⟨c, []⟩) {j : Job} (hj : j ∈ c.queue.jobs)
    (hs : c.stores[j.store]? = some s) (hoj : o ∈ j.span) {b : Block} (hb : b ∈ s.blocks) (hob : o ∈ b.span) :
    b.state = .inFlight j.id := by
  obtain ⟨t, ht, hcar⟩ := h.ledger.carried j hj
  rw [hs] at ht
  cases ht
  obtain ⟨-, -, u, ⟨a, ha, -, rfl, hsta⟩, hou⟩ := hcar.exists_owns hoj
  rw [(h.stores hs).eq_of_mem_span hb ha hob hou]
  exact hsta

end Shared

/-- The jobs that wait or run keep apart: each one asks for some bytes of its object, in a run of adjacent
    blocks that is not too long, and for none that another job asks for or that are there. -/
structure Cache.Spaced (c : Cache) : Prop where
  nonempty : ∀ j ∈ c.queue.jobs, j.span.start < j.span.stop
  inside : ∀ j ∈ c.queue.jobs, ∀ s, c.stores[j.store]? = some s → j.span.stop ≤ s.handle.size
  adjacent : ∀ j ∈ c.queue.jobs, ∃ s, c.stores[j.store]? = some s ∧ j.blocks.length ≤ max 1 s.config.maxRun ∧
    ∃ l : List Block, l ⊆ s.blocks ∧ l.map (·.id) = j.blocks ∧
      Span.Tile j.span.start (l.map (·.span)) j.span.stop
  apart : ∀ j ∈ c.queue.jobs, ∀ k ∈ c.queue.jobs, j.store = k.store → ∀ o, o ∈ j.span → o ∈ k.span → j = k
  missing : ∀ j ∈ c.queue.jobs, ∀ s, c.stores[j.store]? = some s → ∀ b ∈ s.blocks, b.state.isReady = true →
    ∀ o, o ∈ j.span → o ∉ b.span

section Spaced
variable {C : Contents} {c : Cache}

theorem Store.Carries.exists_blocks {s : Store} {j : Job} (h : s.Carries j) :
    ∃ l : List Block, l ⊆ s.blocks ∧ l.map (·.id) = j.blocks ∧ Span.Tile j.span.start (l.map (·.span)) j.span.stop := by
  obtain ⟨l, hl, htile, howns⟩ := h.tiled
  have : ∃ m : List Block, m ⊆ s.blocks ∧ m.map (·.id) = l.map (·.1) ∧ m.map (·.span) = l.map (·.2) := by
    clear hl htile
    induction l with
    | nil => exact ⟨[], List.nil_subset _, rfl, rfl⟩
    | cons p r ih =>
      obtain ⟨m, hsub, hid, hspan⟩ := ih fun p hp => howns p (List.mem_cons_of_mem _ hp)
      obtain ⟨b, hb, hbid, hbspan, -⟩ := howns p List.mem_cons_self
      exact ⟨b :: m, List.cons_subset.mpr ⟨hb, hsub⟩, by simp [hid, hbid], by simp [hspan, hbspan]⟩
  obtain ⟨m, hsub, hid, hspan⟩ := this
  exact ⟨m, hsub, hid.trans hl, hspan ▸ htile⟩

theorem Work.Sound.spaced (h : Work.Sound C ⟨c, []⟩) : c.Spaced where
  nonempty j hj := by
    obtain ⟨s, -, hcar⟩ := h.ledger.carried j hj
    exact hcar.lt
  inside j hj s hs := by
    obtain ⟨t, ht, hcar⟩ := h.ledger.carried j hj
    rw [hs] at ht
    cases ht
    have hlt := hcar.lt
    -- The last byte of the job is in a block, and blocks lie in the object.
    obtain ⟨-, -, u, ⟨b, hb, -, rfl, -⟩, hou⟩ := hcar.exists_owns (o := j.span.stop - 1)
      (Span.mem_def.mpr ⟨by omega, by omega⟩)
    have h1 := (Span.mem_def.mp hou).2
    have h2 := (h.stores hs).inside b hb
    omega
  adjacent j hj := by
    obtain ⟨s, hs, hcar⟩ := h.ledger.carried j hj
    exact ⟨s, hs, hcar.short, hcar.exists_blocks⟩
  apart j hj k hk hjk o hoj hok := h.eq_of_mem_span hj hk hjk hoj hok
  missing j hj s hs b hb hready o hoj hob := by
    rw [h.inFlight_of_mem_span hj hs hoj hb hob] at hready
    cases hready

end Spaced

/-! ### What became of a job -/

/-- The bytes of a block are there, or they were there and the block was evicted. -/
def Store.Had (s : Store) (id : Nat) (span : Span) : Prop :=
  ∃ b : Block, b.id = id ∧ b.span = span ∧ (b ∈ s.blocks ∧ b.state.isReady = true ∨ b ∈ s.retired)

/-- The bytes that a job asked for were delivered to its blocks. -/
def Cache.Got (c : Cache) (j : Job) : Prop :=
  ∃ s, c.stores[j.store]? = some s ∧ ∀ o ∈ j.span, ∃ id ∈ j.blocks, ∃ span, o ∈ span ∧ s.Had id span

section Had
variable {s t : Store} {id : Nat} {span : Span}

theorem Store.Mapped.had {g : Block → Block} (h : s.Mapped g t)
    (hg : ∀ b ∈ s.blocks, b.state.isReady = true → (g b).state.isReady = true) (hb : s.Had id span) :
    t.Had id span := by
  obtain ⟨b, hid, hspan, ⟨hm, hready⟩ | hm⟩ := hb
  · exact ⟨g b, (h.id b).trans hid, (h.span b).trans hspan, Or.inl ⟨h.mem_iff.mpr ⟨b, hm, rfl⟩, hg b hm hready⟩⟩
  · exact ⟨b, hid, hspan, Or.inr (h.retired.symm ▸ hm)⟩

theorem Store.had_evictOne (hs : s.Sound) {b : Block} (hb : b ∈ s.blocks) (h : s.Had id span) :
    (s.evictOne b).Had id span := by
  rcases s.evictOne_eq b with he | ⟨-, -, he⟩
  · rw [he]
    exact h
  · obtain ⟨x, hid, hspan, ⟨hm, hready⟩ | hm⟩ := h
    · by_cases hx : x.id = b.id
      · obtain rfl := hs.eq_of_id_tracked hm hb hx
        exact ⟨{ x with state := .evicted }, hid, hspan, Or.inr (by rw [he]; simp)⟩
      · exact ⟨x, hid, hspan, Or.inl ⟨mem_evictOne_of_ne hm hx, hready⟩⟩
    · exact ⟨x, hid, hspan, Or.inr (by rw [he]; simp [hm])⟩

theorem Store.Edit.had (h : s.Edit t) (hs : s.Sound) (hb : s.Had id span) : t.Had id span := by
  rcases h.cases_mapped with ⟨g, hg, hst⟩ | hg | ⟨b, hm, rfl⟩
  · exact hg.had (fun b _ hready => by rwa [hst]) hb
  · obtain ⟨b, hid, hspan, ⟨hm, hready⟩ | hm⟩ := hb
    · exact ⟨b, hid, hspan, Or.inl ⟨hg.mem hm, hready⟩⟩
    · exact ⟨b, hid, hspan, Or.inr (hg.retired.symm ▸ hm)⟩
  · exact had_evictOne hs hm hb

theorem Store.had_claim (hs : s.Sound) {job : Nat} {ids : List Nat} (h : s.Had id span) :
    (s.claim job ids).Had id span := by
  refine (mapped_claim hs job ids).had (fun b _ hready => ?_) h
  by_cases hi : b.id ∈ ids
  · rw [if_pos hi, tryOn_claim?_state]
    split
    · rename_i hc
      cases hb : b.state <;> simp [hb, BlockState.isClaimable, BlockState.isReady, BlockState.bytes?] at hc hready
    · exact hready
  · rwa [if_neg hi]

theorem Store.Mapped.had_of_leave {g : Block → Block} (h : s.Mapped g t) {n : Nat}
    (hg : ∀ b ∈ s.blocks, b.state ≠ .inFlight n → (g b).state = b.state) (hb : s.Had id span) : t.Had id span := by
  refine h.had (fun b hm hready => ?_) hb
  rw [hg b hm fun hst => by rw [hst] at hready; cases hready]
  exact hready

theorem Store.had_revert (hs : s.Sound) {job : Nat} {ids : List Nat} (h : s.Had id span) :
    (s.revert job ids).Had id span := by
  refine (mapped_revert hs job ids).had_of_leave (n := job) (fun b _ hst => ?_) h
  by_cases hi : b.id ∈ ids
  · rw [if_pos hi, tryOn_revert?_state, if_neg hst]
  · rw [if_neg hi]

theorem Store.had_settleBlocks (hs : s.Sound) {j : Job} {result : Except Fault Bytes} (h : s.Had id span) :
    (Cache.settleBlocks j result s).Had id span := by
  cases result with
  | ok data =>
    refine (mapped_complete hs j.id j.blocks j.span.start data).had_of_leave (n := j.id) (fun b _ hst => ?_) h
    by_cases hi : b.id ∈ j.blocks
    · rw [if_pos hi, delivered_state, if_neg hst]
    · rw [if_neg hi]
  | error f =>
    refine (mapped_fail hs j.id j.blocks f).had_of_leave (n := j.id) (fun b _ hst => ?_) h
    by_cases hi : b.id ∈ j.blocks
    · rw [if_pos hi, tryOn_fail?_state, if_neg hst]
    · rw [if_neg hi]

theorem Store.had_complete (hs : s.Sound) {j : Job} (data : Bytes) (hid : id ∈ j.blocks) (ho : s.Owns j.id id span) :
    (Cache.settleBlocks j (.ok data) s).Had id span := by
  obtain ⟨b, hb, rfl, rfl, hst⟩ := ho
  have hm := mapped_complete hs j.id j.blocks j.span.start data
  refine ⟨_, hm.id b, hm.span b, Or.inl ⟨hm.mem_iff.mpr ⟨b, hb, rfl⟩, ?_⟩⟩
  rw [if_pos hid, delivered_state, if_pos hst]
  rfl

end Had

section Got
variable {C : Contents} {c : Cache} {w w' : Work} {j : Job} {A : Job → Except Fault Bytes → Prop}

theorem Cache.Got.modifyStore (h : c.Got j) {i : Nat} {f : Store → Store}
    (hf : ∀ {s : Store}, c.stores[i]? = some s → ∀ {id : Nat} {span : Span}, s.Had id span → (f s).Had id span) :
    (c.modifyStore i f).Got j := by
  obtain ⟨s, hs, hall⟩ := h
  by_cases hi : j.store = i
  · subst hi
    refine ⟨f s, getElem?_modifyStore_self hs, fun o ho => ?_⟩
    obtain ⟨id, hid, span, hos, hhad⟩ := hall o ho
    exact ⟨id, hid, span, hos, hf hs hhad⟩
  · exact ⟨s, (getElem?_modifyStore_ne hi).trans hs, hall⟩

theorem Move.got (h : Move A w w') (hw : w.Sound C) (hj : w.cache.Got j) : w'.cache.Got j := by
  cases h with
  | edit hs he =>
    refine Cache.Got.modifyStore hj fun ht _ _ => ?_
    rw [hs] at ht
    cases ht
    exact he.had (hw.stores hs)
  | claim priority owner hs hrun hin => exact Cache.Got.modifyStore hj fun ht _ _ => Store.had_claim (hw.stores ht)
  | giveBack k => exact Cache.Got.modifyStore hj fun ht _ _ => Store.had_revert (hw.stores ht)
  | reject => exact hj
  | enqueue k hfull => exact hj
  | promote job => exact hj
  | withdraw owner => exact hj
  | settle attempts hk ha => exact Cache.Got.modifyStore hj fun ht _ _ => Store.had_settleBlocks (hw.stores ht)

/-- A job that runs goes on running until it ends; if it does not fail, its blocks then have its bytes. -/
theorem Move.running_or_got (h : Move A w w') (hw : w.Sound C) (ha : ∀ f, ¬A j (.error f))
    (hj : j ∈ w.cache.queue.running) : j ∈ w'.cache.queue.running ∨ w'.cache.Got j := by
  cases h with
  | edit hs he => exact Or.inl hj
  | claim priority owner hs hrun hin => exact Or.inl hj
  | giveBack k => exact Or.inl hj
  | reject => exact Or.inl hj
  | enqueue k hfull =>
    refine Or.inl ?_
    simp only [Cache.pump, FetchQueue.running_pump]
    exact List.mem_append_left _ hj
  | promote job =>
    refine Or.inl ?_
    rw [FetchQueue.running_promote]
    exact hj
  | withdraw owner => exact Or.inl hj
  | @settle c hand k result attempts hk hadm =>
    have hin : ∀ {x : Job}, x ∈ c.queue.running → x ∈ hand ++ c.queue.jobs := fun hx =>
      List.mem_append_right _ (FetchQueue.mem_jobs.mpr (Or.inr hx))
    by_cases hkj : j.id = k.id
    · obtain rfl := hw.ledger.eq_of_id (hin hj) (hin hk) hkj
      obtain ⟨s, hs, hcar⟩ := hw.ledger.carried j (hin hj)
      cases result with
      | error f => exact absurd hadm (ha f)
      | ok data =>
        refine Or.inr ⟨_, Cache.getElem?_modifyStore_self hs, fun o ho => ?_⟩
        obtain ⟨id, hid, span, hown, hos⟩ := hcar.exists_owns ho
        exact ⟨id, hid, span, hos, Store.had_complete (hw.stores hs) data hid hown⟩
    · refine Or.inl ?_
      simp only [Cache.pump, FetchQueue.running_pump]
      exact List.mem_append_left _ (List.mem_filter.mpr ⟨hj, by simpa using hkj⟩)

theorem Moves.got (h : Moves A w w') (hadm : ∀ k r, A k r → C.admits k r) (hw : w.Sound C) (hj : w.cache.Got j) :
    w'.cache.Got j := by
  induction h with
  | refl => exact hj
  | tail hms hm ih => exact hm.got ((Moves.mono hadm hms).sound hw) ih

theorem Moves.running_or_got (h : Moves A w w') (hadm : ∀ k r, A k r → C.admits k r) (hw : w.Sound C)
    (ha : ∀ f, ¬A j (.error f)) (hj : j ∈ w.cache.queue.running) :
    j ∈ w'.cache.queue.running ∨ w'.cache.Got j := by
  induction h with
  | refl => exact Or.inl hj
  | tail hms hm ih =>
    have hw' := (Moves.mono hadm hms).sound hw
    rcases ih with hrun | hgot
    · exact hm.running_or_got hw' ha hrun
    · exact Or.inr (hm.got hw' hgot)

end Got

/-! ### Runs of a cache -/

namespace Cache

/-- In the course of some actions, a job that runs ends with a failure. -/
def Fails (c : Cache) (j : Job) (l : List Action) : Prop :=
  ∃ l₁ n f l₂, l = l₁ ++ .finish j n (.error f) :: l₂ ∧ j ∈ (c.acts l₁).queue.running

/-- The block that a job fetched a byte for is evicted. -/
def Evicted (c : Cache) (j : Job) (o : Nat) : Prop :=
  ∃ s, c.stores[j.store]? = some s ∧ ∃ b ∈ s.retired, b.id ∈ j.blocks ∧ o ∈ b.span

variable {c : Cache} {j : Job} {l : List Action}

theorem acts_append (c : Cache) (l l' : List Action) : c.acts (l ++ l') = (c.acts l).acts l' :=
  List.foldl_append

theorem Fails.append (h : c.Fails j l) (l' : List Action) : c.Fails j (l ++ l') := by
  obtain ⟨l₁, n, f, l₂, rfl, hrun⟩ := h
  exact ⟨l₁, n, f, l₂ ++ l', by simp, hrun⟩

theorem Fails.prepend {r : List Action} (h : (c.acts l).Fails j r) : c.Fails j (l ++ r) := by
  obtain ⟨l₁, n, f, l₂, rfl, hrun⟩ := h
  exact ⟨l ++ l₁, n, f, l₂, by simp, (acts_append c l l₁).symm ▸ hrun⟩

theorem got_act (h : Work.Sound .any ⟨c, []⟩) (hj : c.Got j) (a : Action) : (c.act a).Got j := by
  rcases moves_act h.stores a with ⟨handle, config, he⟩ | hm
  · obtain ⟨s, hs, hall⟩ := hj
    exact he ▸ ⟨s, getElem?_addStore_of hs, hall⟩
  · exact hm.got (C := .any) (fun _ _ _ _ _ => trivial) h hj

theorem got_acts (h : Work.Sound .any ⟨c, []⟩) (hj : c.Got j) (l : List Action) : (c.acts l).Got j := by
  induction l generalizing c with
  | nil => exact hj
  | cons a r ih => exact ih (sound_act h a) (got_act h hj a)

theorem running_or_got_act (h : Work.Sound .any ⟨c, []⟩) (hj : j ∈ c.queue.running) (a : Action) :
    (∃ n f, a = .finish j n (.error f)) ∨ j ∈ (c.act a).queue.running ∨ (c.act a).Got j := by
  by_cases hfail : ∃ f, a.ends j (.error f)
  · obtain ⟨f, hf⟩ := hfail
    cases a with
    | finish k n result =>
      obtain ⟨rfl, rfl⟩ := hf
      exact Or.inl ⟨n, f, rfl⟩
    | _ => exact hf.elim
  · refine Or.inr ?_
    rcases moves_act h.stores a with ⟨handle, config, he⟩ | hm
    · exact Or.inl (he ▸ hj)
    · exact hm.running_or_got (C := .any) (fun _ _ _ _ _ => trivial) h (fun f hf => hfail ⟨f, hf⟩) hj

/-- Whatever is done while a job runs, it goes on running, or fails, or its blocks get its bytes. -/
theorem running_or_got_acts (h : Work.Sound .any ⟨c, []⟩) (hj : j ∈ c.queue.running) (l : List Action) :
    c.Fails j l ∨ j ∈ (c.acts l).queue.running ∨ (c.acts l).Got j := by
  induction l generalizing c with
  | nil => exact Or.inr (Or.inl hj)
  | cons a r ih =>
    rcases running_or_got_act h hj a with ⟨n, f, rfl⟩ | hrun | hgot
    · exact Or.inl ⟨[], n, f, r, rfl, hj⟩
    · exact (ih (sound_act h a) hrun).imp_left (Fails.prepend (l := [a]))
    · exact Or.inr (Or.inr (got_acts (sound_act h a) hgot r))

end Cache

/-- After anything that is done to a cache, the jobs that wait or run keep apart, from one another and from the
    bytes that are there. When a job runs and later a job of the same store starts that asks for the same byte,
    then the first one failed, or the block that got the byte was evicted. -/
theorem fetched_once (config : QueueConfig) (l l' l'' : List Cache.Action) :
    let c := (Cache.new config).acts l
    c.Spaced ∧ ∀ j ∈ c.queue.running, ∀ k ∉ (c.acts l').queue.running, k ∈ ((c.acts l').acts l'').queue.running →
      j.store = k.store → ∀ o ∈ j.span, o ∈ k.span → c.Fails j (l' ++ l'') ∨ ((c.acts l').acts l'').Evicted j o := by
  intro c
  have hsound := Cache.sound_acts (.new .any config) l
  have hsound' := Cache.sound_acts hsound l'
  have hsound'' := Cache.sound_acts hsound' l''
  refine ⟨hsound.spaced, fun j hj k hbefore hafter hjk o hoj hok => ?_⟩
  have hk := FetchQueue.mem_jobs.mpr (Or.inr hafter)
  have hgot : c.Fails j (l' ++ l'') ∨ ((c.acts l').acts l'').Got j := by
    rcases Cache.running_or_got_acts hsound hj l' with hfail | hrun | hgot
    · exact Or.inl (hfail.append l'')
    · rcases Cache.running_or_got_acts hsound' hrun l'' with hfail | hrun' | hgot
      · exact Or.inl hfail.prepend
      · -- Both run in the end, and so they are one job; but only the first one ran before.
        obtain rfl := hsound''.eq_of_mem_span (FetchQueue.mem_jobs.mpr (Or.inr hrun')) hk hjk hoj hok
        exact absurd hrun hbefore
      · exact Or.inr hgot
    · exact Or.inr (Cache.got_acts hsound' hgot l'')
  rcases hgot with hfail | ⟨s, hs, hall⟩
  · exact Or.inl hfail
  · obtain ⟨id, hid, span, hos, b, rfl, rfl, ⟨hb, hready⟩ | hb⟩ := hall o hoj
    · -- A block with bytes is not in flight for the second job.
      rw [hjk] at hs
      rw [hsound''.inFlight_of_mem_span hk hs hok hb hos] at hready
      cases hready
    · exact Or.inr ⟨s, hs, b, hb, hid, hos⟩

/-- The bytes of a job that failed are fetched again, by another job. -/
theorem fetched_again :
    let c := (Cache.new {}).acts [.addStore ⟨"a", 4, none⟩ {}, .ensure 0 [⟨0, 4⟩] .grid .immediate none]
    let j : Job := ⟨1, 0, "a", [0], ⟨0, 4⟩, .immediate, none⟩
    let k : Job := { j with id := 2 }
    let l : List Cache.Action := [.finish j 1 (.error (.internal "lost"))]
    let l' : List Cache.Action := [.ensure 0 [⟨2, 3⟩] .grid .immediate none]
    j ∈ c.queue.running ∧ k ∉ (c.acts l).queue.running ∧ k ∈ ((c.acts l).acts l').queue.running ∧
      (2 ∈ j.span ∧ 2 ∈ k.span) ∧ (c.Fails j (l ++ l') ∨ ((c.acts l).acts l').Evicted j 2) := by
  intro c j k l l'
  have hj : j ∈ c.queue.running := by decide +kernel
  have hbefore : k ∉ (c.acts l).queue.running := by decide +kernel
  have hafter : k ∈ ((c.acts l).acts l').queue.running := by decide +kernel
  exact ⟨hj, hbefore, hafter, by decide, (fetched_once {} _ l l').2 j hj k hbefore hafter rfl 2 (by decide) (by decide)⟩

end RangeCache
