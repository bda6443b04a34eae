import RangeCache.Proofs.Cache.Moves

/-!
# The ledger of a cache

The state of a block names its owner, and a job names its blocks. The ledger says that the two agree: each
job owns the blocks that it names, which tile its span, and each block with an owner is named by the one
job that it names. It is kept by every move over the jobs in hand and in the queue (`Move.sound`), and so
by every operation over the jobs in the queue.
-/

namespace RangeCache

open Relation

/-- A job owns the blocks that it names. They are blocks of its object, there are not too many of them, and
    they tile its span. -/
structure Store.Carries (s : Store) (j : Job) : Prop where
  key : j.key = s.handle.key
  nonempty : j.blocks ≠ []
  short : j.blocks.length ≤ max 1 s.config.maxRun
  tiled : ∃ l : List (Nat × Span), l.map (·.1) = j.blocks ∧ Span.Tile j.span.start (l.map (·.2)) j.span.stop ∧
    ∀ p ∈ l, s.Owns j.id p.1 p.2

/-- Jobs and the blocks of the stores agree on who owns what. -/
structure Ledger (c : Cache) (l : List Job) : Prop where
  ids : (l.map (·.id)).Nodup
  fresh : ∀ j ∈ l, j.id < c.queue.nextJob
  carried : ∀ j ∈ l, ∃ s, c.stores[j.store]? = some s ∧ s.Carries j
  owned : ∀ {i : Nat} {s : Store}, c.stores[i]? = some s → ∀ {n id : Nat} {span : Span}, s.Owns n id span →
    ∃ j ∈ l, j.id = n ∧ j.store = i ∧ id ∈ j.blocks

/-- A rule for what may be held is also one for the bytes with which a job may end. -/
def Contents.admits (C : Contents) (j : Job) (result : Except Fault Bytes) : Prop :=
  ∀ data, result = .ok data → C.allows j.key j.span data

/-- What holds of a cache and the jobs in hand after every move. -/
structure Work.Sound (C : Contents) (w : Work) : Prop where
  stores : w.cache.StoresSound
  holds : ∀ {i : Nat} {s : Store}, w.cache.stores[i]? = some s → s.Holds C
  queue : w.cache.queue.Sound
  ledger : Ledger w.cache (w.hand ++ w.cache.queue.jobs)

/-! ### Jobs and their blocks -/

section Carries
variable {s t : Store} {j : Job}

theorem Store.carries_bare_iff : s.Carries j.bare ↔ s.Carries j :=
  ⟨fun h => ⟨h.key, h.nonempty, h.short, h.tiled⟩, fun h => ⟨h.key, h.nonempty, h.short, h.tiled⟩⟩

theorem Store.Carries.mono (h : s.Carries j) (hh : t.handle = s.handle) (hc : t.config = s.config)
    (ho : ∀ {id : Nat} {span : Span}, id ∈ j.blocks → s.Owns j.id id span → t.Owns j.id id span) : t.Carries j := by
  obtain ⟨l, hl, htile, howns⟩ := h.tiled
  refine ⟨hh ▸ h.key, h.nonempty, hc ▸ h.short, l, hl, htile, fun p hp => ho ?_ (howns p hp)⟩
  exact hl ▸ List.mem_map_of_mem hp

theorem Store.Carries.owns (h : s.Carries j) {id : Nat} (hid : id ∈ j.blocks) :
    ∃ span, s.Owns j.id id span ∧ j.span.start ≤ span.start ∧ span.start < span.stop ∧ span.stop ≤ j.span.stop := by
  obtain ⟨l, hl, htile, howns⟩ := h.tiled
  rw [← hl] at hid
  obtain ⟨p, hp, rfl⟩ := List.mem_map.mp hid
  exact ⟨p.2, howns p hp, htile.mem_bounds (List.mem_map_of_mem hp)⟩

theorem Store.Carries.exists_owns (h : s.Carries j) {o : Nat} (ho : o ∈ j.span) :
    ∃ id ∈ j.blocks, ∃ span, s.Owns j.id id span ∧ o ∈ span := by
  obtain ⟨l, hl, htile, howns⟩ := h.tiled
  obtain ⟨h1, h2⟩ := Span.mem_def.mp ho
  obtain ⟨t, ht, hot⟩ := htile.exists_mem h1 h2
  obtain ⟨p, hp, rfl⟩ := List.mem_map.mp ht
  exact ⟨p.1, hl ▸ List.mem_map_of_mem hp, p.2, howns p hp, hot⟩

theorem Store.Carries.lt (h : s.Carries j) : j.span.start < j.span.stop := by
  obtain ⟨l, hl, htile, -⟩ := h.tiled
  refine htile.lt fun hnil => h.nonempty ?_
  rw [← hl, List.map_eq_nil_iff.mp hnil, List.map_nil]

theorem Store.Owns.unique (hs : s.Sound) {m n id : Nat} {u v : Span} (h : s.Owns m id u) (h' : s.Owns n id v) :
    m = n ∧ u = v := by
  obtain ⟨b, hb, hid, hsp, hst⟩ := h
  obtain ⟨b', hb', hid', hsp', hst'⟩ := h'
  have hbb := hs.eq_of_id_tracked hb hb' (hid.trans hid'.symm)
  subst hbb
  rw [hst] at hst'
  exact ⟨by cases hst'; rfl, hsp.symm.trans hsp'⟩

end Carries

/-! ### Changes of the ledger -/

section Ledger
variable {c c' : Cache} {l l' : List Job}

/-- The ledger does not depend on the order of the jobs, nor on their priorities. -/
theorem Ledger.congr (h : Ledger c l) (hp : (l'.map Job.bare).Perm (l.map Job.bare)) : Ledger c l' := by
  have hbare : ∀ j ∈ l', ∃ j₀ ∈ l, j₀.bare = j.bare := fun j hj =>
    List.mem_map.mp (hp.mem_iff.mp (List.mem_map_of_mem hj))
  refine ⟨?_, fun j hj => ?_, fun j hj => ?_, fun hs => ?_⟩
  · have := hp.map (·.id)
    rw [List.map_map, List.map_map] at this
    exact this.nodup_iff.mpr h.ids
  · obtain ⟨j₀, hj₀, hb⟩ := hbare j hj
    exact (Job.eq_of_bare hb).1 ▸ h.fresh j₀ hj₀
  · obtain ⟨j₀, hj₀, hb⟩ := hbare j hj
    obtain ⟨s, hs, hc⟩ := h.carried j₀ hj₀
    exact ⟨s, (Job.eq_of_bare hb).2.1 ▸ hs, Store.carries_bare_iff.mp (hb ▸ Store.carries_bare_iff.mpr hc)⟩
  · intro n id span ho
    obtain ⟨j₀, hj₀, h1, h2, h3⟩ := h.owned hs ho
    obtain ⟨j, hj, hb⟩ := List.mem_map.mp (hp.mem_iff.mpr (List.mem_map_of_mem hj₀))
    obtain ⟨e1, e2, e3⟩ := Job.eq_of_bare hb
    exact ⟨j, hj, e1.trans h1, e2.trans h2, e3 ▸ h3⟩

theorem Ledger.eq_of_id (h : Ledger c l) {j j' : Job} (hj : j ∈ l) (hj' : j' ∈ l) (hid : j.id = j'.id) : j = j' :=
  List.inj_on_of_nodup_map h.ids hj hj' hid

/-- A change of one store that leaves the owners of its blocks as they are. -/
theorem Ledger.modifyStore (h : Ledger c l) {i : Nat} {f : Store → Store}
    (hh : ∀ {s : Store}, c.stores[i]? = some s → (f s).handle = s.handle)
    (hc : ∀ {s : Store}, c.stores[i]? = some s → (f s).config = s.config)
    (ho : ∀ {s : Store}, c.stores[i]? = some s →
      ∀ {n id : Nat} {span : Span}, (f s).Owns n id span ↔ s.Owns n id span) :
    Ledger (c.modifyStore i f) l := by
  refine ⟨h.ids, h.fresh, fun j hj => ?_, fun ht => ?_⟩
  · obtain ⟨s, hs, hcar⟩ := h.carried j hj
    by_cases hi : j.store = i
    · subst hi
      exact ⟨f s, Cache.getElem?_modifyStore_self hs, hcar.mono (hh hs) (hc hs) fun _ => (ho hs).mpr⟩
    · exact ⟨s, (Cache.getElem?_modifyStore_ne hi).trans hs, hcar⟩
  · intro n id span hown
    rcases Cache.getElem?_modifyStore_cases ht with ⟨rfl, s, hs, rfl⟩ | ⟨-, hs⟩
    · exact h.owned hs ((ho hs).mp hown)
    · exact h.owned hs hown

/-- A change of one store by which a job loses its blocks, and no other job does. -/
theorem Ledger.release {j : Job} (h : Ledger c (j :: l)) {f : Store → Store}
    (hh : ∀ {s : Store}, c.stores[j.store]? = some s → (f s).handle = s.handle)
    (hc : ∀ {s : Store}, c.stores[j.store]? = some s → (f s).config = s.config)
    (ho : ∀ {s : Store}, c.stores[j.store]? = some s → ∀ {n id : Nat} {span : Span},
      (f s).Owns n id span ↔ s.Owns n id span ∧ ¬(n = j.id ∧ id ∈ j.blocks)) :
    Ledger (c.modifyStore j.store f) l := by
  obtain ⟨hj, hids⟩ := List.nodup_cons.mp h.ids
  refine ⟨hids, fun k hk => h.fresh k (List.mem_cons_of_mem _ hk), fun k hk => ?_, fun ht => ?_⟩
  · have hne : k.id ≠ j.id := fun hid => hj (List.mem_map.mpr ⟨k, hk, hid⟩)
    obtain ⟨s, hs, hcar⟩ := h.carried k (List.mem_cons_of_mem _ hk)
    by_cases hi : k.store = j.store
    · rw [hi] at hs ⊢
      exact ⟨f s, Cache.getElem?_modifyStore_self hs,
        hcar.mono (hh hs) (hc hs) fun _ hown => (ho hs).mpr ⟨hown, fun hn => hne hn.1⟩⟩
    · exact ⟨s, (Cache.getElem?_modifyStore_ne hi).trans hs, hcar⟩
  · intro n id span hown
    rcases Cache.getElem?_modifyStore_cases ht with ⟨rfl, s, hs, rfl⟩ | ⟨hne, hs⟩
    · obtain ⟨hown, hnot⟩ := (ho hs).mp hown
      obtain ⟨k, hk, h1, h2, h3⟩ := h.owned hs hown
      rcases List.mem_cons.mp hk with rfl | hk
      · exact absurd ⟨h1.symm, h3⟩ hnot
      · exact ⟨k, hk, h1, h2, h3⟩
    · obtain ⟨k, hk, h1, h2, h3⟩ := h.owned hs hown
      rcases List.mem_cons.mp hk with rfl | hk
      · exact absurd h2.symm hne
      · exact ⟨k, hk, h1, h2, h3⟩

/-- A run that is claimed belongs to its new job, and to no other one. -/
theorem Ledger.claimRun (h : Ledger c l) (hc : c.StoresSound) {i : Nat} {s : Store} (hs : c.stores[i]? = some s)
    {run : List Block} (hrun : Store.Joined s.config.maxRun run) (hin : ∀ b ∈ run, b ∈ s.blocks) (priority : Priority)
    (owner : Option Nat) :
    Ledger (c.claimRun i s.handle.key priority owner run).1
      ((c.claimRun i s.handle.key priority owner run).2 :: l) := by
  have hm := Store.mapped_claim (hc hs) c.queue.nextJob (run.map (·.id))
  have hs' : (c.claimRun i s.handle.key priority owner run).1.stores[i]? =
      some (s.claim c.queue.nextJob (run.map (·.id))) := Cache.getElem?_modifyStore_self hs
  have hnew : ∀ b ∈ run, (s.claim c.queue.nextJob (run.map (·.id))).Owns c.queue.nextJob b.id b.span := fun b hb =>
    (Store.owns_claim_iff (hc hs)).mpr
      (Or.inr ⟨rfl, List.mem_map_of_mem hb, b, hin b hb, rfl, rfl, hrun.claimable b hb⟩)
  refine ⟨List.nodup_cons.mpr ⟨fun hmem => ?_, h.ids⟩, fun k hk => ?_, fun k hk => ?_, fun ht => ?_⟩
  · obtain ⟨k, hk, hid⟩ := List.mem_map.mp hmem
    exact absurd (h.fresh k hk) (by rw [hid]; exact Nat.lt_irrefl _)
  · rcases List.mem_cons.mp hk with rfl | hk
    · exact Nat.lt_succ_self _
    · exact Nat.lt_succ_of_lt (h.fresh k hk)
  · rcases List.mem_cons.mp hk with rfl | hk
    · refine ⟨_, hs', by rw [hm.handle]; rfl, ?_, ?_, run.map fun b => (b.id, b.span), ?_, ?_, ?_⟩
      · simpa [Cache.claimRun] using hrun.nonempty
      · simpa [Cache.claimRun, hm.config] using hrun.short
      · simp [Cache.claimRun]
      · simpa [Cache.claimRun, Function.comp_def] using hrun.tile
      · intro p hp
        obtain ⟨b, hb, rfl⟩ := List.mem_map.mp hp
        exact hnew b hb
    · obtain ⟨t, ht, hcar⟩ := h.carried k hk
      by_cases hi : k.store = i
      · rw [hi, hs] at ht
        cases ht
        exact ⟨_, hi ▸ hs', hcar.mono hm.handle hm.config fun _ hown =>
          (Store.owns_claim_iff (hc hs)).mpr (Or.inl hown)⟩
      · exact ⟨t, (Cache.getElem?_modifyStore_ne hi).trans ht, hcar⟩
  · intro n id span hown
    rcases Cache.getElem?_modifyStore_cases ht with ⟨rfl, t, ht₀, rfl⟩ | ⟨-, ht₀⟩
    · rcases (Store.owns_claim_iff (hc ht₀)).mp hown with hown | ⟨rfl, hid, -⟩
      · obtain ⟨k, hk, hrest⟩ := h.owned ht₀ hown
        exact ⟨k, List.mem_cons_of_mem _ hk, hrest⟩
      · exact ⟨_, List.mem_cons_self, rfl, rfl, hid⟩
    · obtain ⟨k, hk, hrest⟩ := h.owned ht₀ hown
      exact ⟨k, List.mem_cons_of_mem _ hk, hrest⟩

theorem Ledger.addStore (h : Ledger c l) (handle : Handle) (config : StoreConfig) :
    Ledger (c.addStore handle config) l := by
  refine ⟨h.ids, h.fresh, fun j hj => ?_, fun ht => ?_⟩
  · obtain ⟨s, hs, hcar⟩ := h.carried j hj
    exact ⟨s, Cache.getElem?_addStore_of hs, hcar⟩
  · intro n id span hown
    rcases Cache.getElem?_addStore_cases ht with hs | rfl
    · exact h.owned hs hown
    · obtain ⟨b, hb, -⟩ := hown
      cases hb

theorem Ledger.perm (h : Ledger c l) (hp : l'.Perm l) : Ledger c l' := h.congr (hp.map _)

end Ledger

/-! ### What may be held -/

section Holds
variable {C : Contents} {s : Store}

theorem Store.Holds.claim (h : s.Holds C) (hs : s.Sound) (job : Nat) (ids : List Nat) : (s.claim job ids).Holds C := by
  refine (mapped_claim hs job ids).holds h fun b _ bytes hst => Or.inl ?_
  by_cases hi : b.id ∈ ids
  · rw [if_pos hi, tryOn_claim?_state] at hst
    split at hst
    · cases hst
    · exact hst
  · rwa [if_neg hi] at hst

theorem Store.Holds.revert (h : s.Holds C) (hs : s.Sound) (job : Nat) (ids : List Nat) :
    (s.revert job ids).Holds C := by
  refine (mapped_revert hs job ids).holds h fun b _ bytes hst => Or.inl ?_
  by_cases hi : b.id ∈ ids
  · rw [if_pos hi, tryOn_revert?_state] at hst
    split at hst
    · cases hst
    · exact hst
  · rwa [if_neg hi] at hst

theorem Store.Holds.settleBlocks (h : s.Holds C) (hs : s.Sound) {j : Job} (hj : s.Carries j)
    {result : Except Fault Bytes} (ha : C.admits j result) : (Cache.settleBlocks j result s).Holds C := by
  cases result with
  | ok data =>
    refine (mapped_complete hs j.id j.blocks j.span.start data).holds h fun b hb bytes hst => ?_
    by_cases hi : b.id ∈ j.blocks
    · rw [if_pos hi, delivered_state] at hst
      split at hst
      · rename_i hown
        obtain ⟨span, ho, h1, -, h2⟩ := hj.owns hi
        obtain ⟨-, hspan⟩ := Owns.unique hs ho ⟨b, hb, rfl, rfl, hown⟩
        subst hspan
        cases hst
        exact Or.inr (hj.key ▸ C.part (ha data rfl) h1 h2)
      · exact Or.inl hst
    · rw [if_neg hi] at hst
      exact Or.inl hst
  | error f =>
    refine (mapped_fail hs j.id j.blocks f).holds h fun b _ bytes hst => Or.inl ?_
    by_cases hi : b.id ∈ j.blocks
    · rw [if_pos hi, tryOn_fail?_state] at hst
      split at hst
      · cases hst
      · exact hst
    · rwa [if_neg hi] at hst

end Holds

/-! ### Moves -/

section SettleBlocks
variable {s : Store} {j : Job} {result : Except Fault Bytes}

theorem Store.mapped_settleBlocks (hs : s.Sound) (j : Job) (result : Except Fault Bytes) :
    ∃ g, s.Mapped g (Cache.settleBlocks j result s) := by
  cases result with
  | ok data => exact ⟨_, mapped_complete hs j.id j.blocks j.span.start data⟩
  | error f => exact ⟨_, mapped_fail hs j.id j.blocks f⟩

theorem Store.owns_settleBlocks_iff (hs : s.Sound) {n id : Nat} {span : Span} :
    (Cache.settleBlocks j result s).Owns n id span ↔ s.Owns n id span ∧ ¬(n = j.id ∧ id ∈ j.blocks) := by
  cases result with
  | ok data => exact owns_complete_iff hs
  | error f => exact owns_fail_iff hs

end SettleBlocks

namespace Work.Sound
variable {C : Contents} {w : Work}

theorem new (C : Contents) (config : QueueConfig) : Work.Sound C ⟨.new config, []⟩ where
  stores := nofun
  holds := nofun
  queue := ⟨.nil, .nil, rfl, .nil, fun _ => rfl⟩
  ledger := ⟨.nil, nofun, nofun, nofun⟩

theorem id_not_mem {j : Job} {c : Cache} {hand : List Job} (h : Work.Sound C ⟨c, j :: hand⟩) :
    j.id ∉ c.queue.jobs.map (·.id) := by
  have hids := h.ledger.ids
  rw [List.cons_append, List.map_cons, List.map_append] at hids
  exact fun hm => (List.nodup_cons.mp hids).1 (List.mem_append_right _ hm)

theorem holds_modifyStore {c : Cache} (h : ∀ {i : Nat} {s : Store}, c.stores[i]? = some s → s.Holds C) {i : Nat}
    {f : Store → Store} (hf : ∀ {s : Store}, c.stores[i]? = some s → (f s).Holds C) {k : Nat} {t : Store}
    (ht : (c.modifyStore i f).stores[k]? = some t) : t.Holds C := by
  rcases Cache.getElem?_modifyStore_cases ht with ⟨-, s, hs, rfl⟩ | ⟨-, hs⟩
  · exact hf hs
  · exact h hs

theorem quiet {c : Cache} {hand : List Job} (h : Work.Sound C ⟨c, hand⟩) :
    Work.Sound C ⟨{ c with notices := [] }, hand⟩ :=
  ⟨h.stores, h.holds, h.queue, ⟨h.ledger.ids, h.ledger.fresh, h.ledger.carried, h.ledger.owned⟩⟩

end Work.Sound

section Move
variable {C : Contents} {w w' : Work}

theorem Move.holds (h : Move C.admits w w') (hw : w.Sound C) {i : Nat} {t : Store}
    (ht : w'.cache.stores[i]? = some t) : t.Holds C := by
  revert i t
  cases h with
  | edit hs he => exact Work.Sound.holds_modifyStore hw.holds fun _ => he.holds (hw.holds hs)
  | claim priority owner hs hrun hin =>
    exact Work.Sound.holds_modifyStore hw.holds fun ht => (hw.holds ht).claim (hw.stores ht) _ _
  | giveBack j =>
    exact Work.Sound.holds_modifyStore hw.holds fun ht => (hw.holds ht).revert (hw.stores ht) _ _
  | reject => exact hw.holds
  | enqueue j hfull => exact hw.holds
  | promote job => exact hw.holds
  | withdraw owner => exact hw.holds
  | settle attempts hj ha =>
    refine Work.Sound.holds_modifyStore hw.holds fun ht => ?_
    obtain ⟨s, hs, hcar⟩ := hw.ledger.carried _ (List.mem_append_right _ (FetchQueue.mem_jobs.mpr (Or.inr hj)))
    rw [hs] at ht
    cases ht
    exact (hw.holds hs).settleBlocks (hw.stores hs) hcar ha

theorem Move.queueSound (h : Move C.admits w w') (hw : w.Sound C) : w'.cache.queue.Sound := by
  cases h with
  | edit hs he => exact hw.queue
  | claim priority owner hs hrun hin =>
    exact ⟨hw.queue.tickets, hw.queue.ids, hw.queue.count, hw.queue.keys, hw.queue.counts⟩
  | giveBack j => exact hw.queue
  | reject => exact ⟨hw.queue.tickets, hw.queue.ids, hw.queue.count, hw.queue.keys, hw.queue.counts⟩
  | enqueue j hfull => exact (hw.queue.enqueue hw.id_not_mem).pump
  | promote job => exact hw.queue.promote job
  | withdraw owner => exact hw.queue.cancel owner
  | settle attempts hj ha => exact (hw.queue.finish hj _ _).pump

theorem Move.ledger (h : Move C.admits w w') (hw : w.Sound C) : Ledger w'.cache (w'.hand ++ w'.cache.queue.jobs) := by
  cases h with
  | edit hs he =>
    refine hw.ledger.modifyStore (fun ht => ?_) (fun ht => ?_) fun ht => ?_ <;> rw [hs] at ht <;> cases ht
    · exact he.handle
    · exact he.config
    · exact he.owns_iff (hw.stores hs)
  | claim priority owner hs hrun hin =>
    refine (hw.ledger.claimRun hw.stores hs hrun hin priority owner).perm ?_
    simp only [List.append_assoc]
    exact List.perm_middle
  | giveBack j =>
    have := Ledger.release (f := (·.revert j.id j.blocks)) hw.ledger
      (fun ht => (Store.mapped_revert (hw.stores ht) _ _).handle)
      (fun ht => (Store.mapped_revert (hw.stores ht) _ _).config) fun ht => Store.owns_revert_iff (hw.stores ht)
    exact ⟨this.ids, this.fresh, this.carried, this.owned⟩
  | reject => exact ⟨hw.ledger.ids, hw.ledger.fresh, hw.ledger.carried, hw.ledger.owned⟩
  | @enqueue c hand j hfull =>
    have hp : (hand ++ (c.queue.enqueue j).pump.1.jobs).Perm (j :: hand ++ c.queue.jobs) :=
      (((FetchQueue.perm_jobs_pump (hw.queue.enqueue hw.id_not_mem)).trans
        (FetchQueue.perm_jobs_enqueue c.queue j)).append_left hand).trans List.perm_middle
    have := hw.ledger.perm hp
    exact ⟨this.ids, fun k hk => by
      rw [show Cache.queue _ = (c.queue.enqueue j).pump.1 from rfl, FetchQueue.nextJob_pump]
      exact this.fresh k hk, this.carried, this.owned⟩
  | @promote c hand job =>
    have hp : (hand ++ (c.queue.promote job).jobs).map Job.bare = (hand ++ c.queue.jobs).map Job.bare := by
      rw [List.map_append, List.map_append, FetchQueue.bare_jobs_promote hw.queue]
    have := hw.ledger.congr (.of_eq hp)
    exact ⟨this.ids, fun k hk => by
      rw [FetchQueue.nextJob_promote]
      exact this.fresh k hk, this.carried, this.owned⟩
  | @withdraw c hand owner =>
    have hp : ((c.queue.cancel owner).2 ++ hand ++ (c.queue.cancel owner).1.jobs).Perm (hand ++ c.queue.jobs) := by
      refine (List.perm_append_comm.append_right _).trans ?_
      rw [List.append_assoc]
      exact (FetchQueue.perm_jobs_cancel hw.queue owner).symm.append_left hand
    have := hw.ledger.perm hp
    exact ⟨this.ids, this.fresh, this.carried, this.owned⟩
  | @settle c hand j result attempts hj ha =>
    have hp : (j :: (hand ++ (c.queue.finish j attempts (Cache.isFailure result)).jobs)).Perm (hand ++ c.queue.jobs) :=
      List.perm_middle.symm.trans ((FetchQueue.perm_jobs_finish hw.queue hj _ _).symm.append_left hand)
    have hrel := Ledger.release (f := Cache.settleBlocks j result) (hw.ledger.perm hp)
      (fun ht => (Store.mapped_settleBlocks (hw.stores ht) j result).choose_spec.handle)
      (fun ht => (Store.mapped_settleBlocks (hw.stores ht) j result).choose_spec.config)
      fun ht => Store.owns_settleBlocks_iff (hw.stores ht)
    have hpump := (FetchQueue.perm_jobs_pump
      (hw.queue.finish hj attempts (Cache.isFailure result))).append_left hand
    have := hrel.perm hpump
    exact ⟨this.ids, fun k hk => by
      rw [show Cache.queue _ = (c.queue.finish j attempts (Cache.isFailure result)).pump.1 from rfl,
        FetchQueue.nextJob_pump]
      exact this.fresh k hk, this.carried, this.owned⟩

/-- Every move keeps everything sound, if jobs only end with bytes that they may end with. -/
theorem Move.sound (h : Move C.admits w w') (hw : w.Sound C) : w'.Sound C :=
  ⟨h.storesSound hw.stores, h.holds hw, h.queueSound hw, h.ledger hw⟩

theorem Moves.sound (h : Moves C.admits w w') (hw : w.Sound C) : w'.Sound C := by
  induction h with
  | refl => exact hw
  | tail _ hm ih => exact hm.sound ih

end Move

theorem Work.Sound.addStore {C : Contents} {c : Cache} {hand : List Job} (h : Work.Sound C ⟨c, hand⟩) (handle : Handle)
    (config : StoreConfig) : Work.Sound C ⟨c.addStore handle config, hand⟩ where
  stores := h.stores.addStore handle config
  holds ht := by
    rcases Cache.getElem?_addStore_cases ht with hs | rfl
    · exact h.holds hs
    · exact nofun
  queue := h.queue
  ledger := h.ledger.addStore handle config

end RangeCache
