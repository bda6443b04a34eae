import RangeCache.Proofs.Cache.Deeds
import RangeCache.Proofs.Cache.Desk
import RangeCache.Proofs.Store.Partition

/-!
# The jobs of a request

A request for spans claims the blocks that it touches, as far as nobody fetches them and their bytes are not there, in as
few runs as there can be, and makes a job for each run (`Cache.Claims`). When no job is rejected, it tells how many there
are. The same request then finds no bytes that are in no block and no block to claim: it makes no job, and leaves all
stores as they are (`ensure_of_settled`).
-/

namespace RangeCache

open Store

/-! ### Filling twice -/

namespace Store

section Again
variable {s u : Store} {fit : Fit} {spans : List Span}

/-- A span of which every byte is in a block has no gaps. -/
theorem gaps_eq_nil (h : s.Sound) {span : Span} (hs : span.stop ≤ s.handle.size ∧ span.start < span.stop)
    (hcov : ∀ o ∈ span, ∃ b ∈ s.blocks, o ∈ b.span) : s.gaps span = [] := by
  refine List.eq_nil_iff_forall_not_mem.mpr ?_
  intro g hg
  obtain ⟨h1, h2, h3⟩ := mem_gaps (Nat.le_of_lt hs.2) hg
  obtain ⟨b, hb, hob⟩ := hcov g.start (Span.mem_def.mpr ⟨h1, by omega⟩)
  have hapart := ((gapList_gaps h hs).room g hg).apart b hb
  simp only [Span.mem_def] at hob
  omega

theorem fillAll_of_covered (h : s.Sound) (hcov : ∀ t ∈ s.clampAll spans, ∀ o ∈ t, ∃ b ∈ s.blocks, o ∈ b.span) :
    s.fillAll fit spans = s := by
  refine foldl_eq_self fun t ht => ?_
  rw [fill, gaps_eq_nil h (mem_clampAll ht) (hcov t ht), List.foldl_nil]

/-- Spans that were filled stay so as long as the blocks stay where they are. -/
theorem fillAll_again (hs : s.Sound) (hu : u.Sound) (hhandle : u.handle = s.handle) (hconfig : u.config = s.config)
    (hkept : ∀ b ∈ (s.fillAll fit spans).blocks, ∃ b' ∈ u.blocks, b'.span = b.span) : u.fillAll fit spans = u := by
  by_cases hb : fit = .exact ∨ 0 < s.config.blockSize
  · refine fillAll_of_covered hu ?_
    intro t ht o ho
    have ht' : t ∈ s.clampAll spans := by
      rw [clampAll, ← hhandle]
      exact ht
    obtain ⟨b, hb, hob⟩ := covered_fillAll hs hb ht' ho
    obtain ⟨b', hb', hspan⟩ := hkept b hb
    exact ⟨b', hb', hspan ▸ hob⟩
  · obtain ⟨hexact, hzero⟩ := not_or.mp hb
    cases fit with
    | exact => exact absurd rfl hexact
    | grid => exact foldl_eq_self fun _ _ => fill_of_not_grid (hconfig ▸ Nat.eq_zero_of_not_pos hzero) _

theorem ordered_touched (h : s.Sound) (spans : List Span) : Ordered (s.touched spans) :=
  ⟨h.ordered.sublist List.filter_sublist, fun b hb => h.nonempty b (List.mem_filter.mp hb).1⟩

theorem runs_eq_nil {limit : Nat} {l : List Block} (h : ∀ b ∈ l, b.state.isClaimable = false) : runs limit l = [] := by
  induction l with
  | nil => rfl
  | cons b l ih =>
    have hl := ih fun x hx => h x (List.mem_cons_of_mem _ hx)
    simpa [runs, runsFrom, h b List.mem_cons_self, emit] using hl

theorem eq_of_uncounted (h : u.uncounted = s.uncounted) :
    u.blocks = s.blocks ∧ u.handle = s.handle ∧ u.config = s.config := by
  simp only [uncounted, Store.mk.injEq] at h
  exact ⟨h.2.2.1, h.1, h.2.1⟩

end Again

end Store

namespace Cache

/-- A request touches blocks of a store, `filled` with those that were missing, and makes jobs. -/
structure Claims (limit : Nat) (filled claimed : Store) (touched : List Block) (jobs : List Job)
    (runs : List (List Block)) : Prop where
  partition : Partition limit (touched.filter (·.state.isClaimable)) runs
  number : runs.length = leastRuns limit (touched.filter (·.state.isClaimable))
  fewest : ∀ parts, Partition limit (touched.filter (·.state.isClaimable)) parts → runs.length ≤ parts.length
  named : jobs.map (·.blocks) = runs.map (·.map (·.id))
  /-- Each job owns the blocks of its run. -/
  owned : ∀ j ∈ jobs, ∀ id ∈ j.blocks, ∃ b ∈ claimed.blocks, b.id = id ∧ b.state = .inFlight j.id
  /-- All other blocks are as they were. -/
  others : ∀ b ∈ filled.blocks, b ∉ runs.flatten → b ∈ claimed.blocks

section Requests
variable {c : Cache} {i : Nat} {s t u : Store} {spans : List Span} {fit : Fit} {priority : Priority}
  {owner : Option Nat}

theorem map_blocks_claimRuns (key : String) (priority : Priority) (owner : Option Nat) (runs : List (List Block)) :
    (c.claimRuns i key priority owner runs).2.map (·.blocks) = runs.map (·.map (·.id)) := by
  induction runs generalizing c with
  | nil => rfl
  | cons run r ih =>
    rw [List.map_cons, ← ih (c := (c.claimRun i key priority owner run).1)]
    rfl

/-- Each job of a claim owns its blocks. -/
theorem owned_claim (h : Work.Sound .any ⟨c, []⟩) (ht : (c.claim i spans fit priority owner).1.stores[i]? = some t)
    {j : Job} (hj : j ∈ (c.claim i spans fit priority owner).2.1) {id : Nat} (hid : id ∈ j.blocks) :
    ∃ b ∈ t.blocks, b.id = id ∧ b.state = .inFlight j.id := by
  have hmoves := moves_claim (A := Contents.any.admits) h.stores i spans fit priority owner
  have hwork : Work.Sound .any ⟨_, (c.claim i spans fit priority owner).2.1⟩ := Moves.sound hmoves h
  obtain ⟨t', ht', hcarries⟩ := hwork.ledger.carried j (List.mem_append_left _ hj)
  rw [(mem_claim hj).1] at ht'
  obtain rfl := Option.some.inj (ht.symm.trans ht')
  obtain ⟨span, ⟨b, hb, hbid, -, hst⟩, -⟩ := hcarries.owns hid
  exact ⟨b, hb, hbid, hst⟩

/-- A request makes as few jobs as there can be. None of the blocks that it touches can be claimed after that. -/
theorem exists_claims (h : Work.Sound .any ⟨c, []⟩) (hs : c.stores[i]? = some s) (hlimit : 1 ≤ s.config.maxRun)
    (spans : List Span) (fit : Fit) (priority : Priority) (owner : Option Nat) :
    ∃ t g runs, (c.claim i spans fit priority owner).1.stores[i]? = some t ∧ (s.fillAll fit spans).Mapped g t ∧
      Claims s.config.maxRun (s.fillAll fit spans) t ((s.fillAll fit spans).touched spans)
        (c.claim i spans fit priority owner).2.1 runs ∧
      ∀ b ∈ (s.fillAll fit spans).touched spans, (g b).state.isClaimable = false := by
  have hs' := h.stores hs
  have hgrown := grown_fillAll hs' fit spans
  have hfilled := hgrown.sound hs'
  obtain ⟨hpartition, hnumber, hfewest⟩ :=
    partition_runs (hgrown.config.symm ▸ hlimit) (ordered_touched hfilled spans)
  obtain ⟨t, g, ht, hg, hclaimed, hothers⟩ := exists_mapped_claim h.stores hs spans fit priority owner
  have hclaim : c.claim i spans fit priority owner =
      (((c.setStore i (s.fillAll fit spans)).claimRuns i (s.fillAll fit spans).handle.key priority owner
          (runs (s.fillAll fit spans).config.maxRun ((s.fillAll fit spans).touched spans))).1,
        ((c.setStore i (s.fillAll fit spans)).claimRuns i (s.fillAll fit spans).handle.key priority owner
          (runs (s.fillAll fit spans).config.maxRun ((s.fillAll fit spans).touched spans))).2,
        ((s.fillAll fit spans).touched spans).filterMap (·.state.job?)) := by
    rw [claim_of_sound h.stores hs]
  rw [hgrown.config] at hpartition hnumber hfewest
  refine ⟨t, g, _, ht, hg, ⟨hpartition, hnumber, hfewest, ?_, fun j hj id hid => owned_claim h ht hj hid, ?_⟩, hclaimed⟩
  · rw [hclaim, hgrown.config]
    exact map_blocks_claimRuns ..
  · intro b hb hnot
    refine hg.mem_iff.mpr ⟨b, hb, hothers b ?_⟩
    intro hid
    obtain ⟨x, hx, hxb⟩ := List.mem_map.mp hid
    have hx' : x ∈ (s.fillAll fit spans).blocks := by
      rw [flatten_runs] at hx
      exact (List.mem_filter.mp (List.mem_filter.mp hx).1).1
    exact hnot (hfilled.eq_of_id_tracked hx' hb hxb ▸ hx)

/-- A request for spans that are filled, whose blocks cannot be claimed, makes no job. -/
theorem ensure_of_settled (hc : c.StoresSound) (hs : c.stores[i]? = some s) (hfill : s.fillAll fit spans = s)
    (hnone : ∀ b ∈ s.touched spans, b.state.isClaimable = false) :
    (c.ensure i spans fit priority owner).2 = .ok 0 ∧ (c.ensure i spans fit priority owner).1.stores = c.stores := by
  have hclaim : c.claim i spans fit priority owner = (c, [], (s.touched spans).filterMap (·.state.job?)) := by
    simp only [claim_of_sound hc hs, hfill, setStore_self hs, runs_eq_nil hnone, claimRuns]
  cases priority <;> simp only [ensure, hclaim, dispatch, submit, and_self]

/-- The same request finds nothing to do when all of its jobs were accepted. -/
theorem ensure_again (h : Work.Sound .any ⟨c, []⟩) (hs : c.stores[i]? = some s) {g : Block → Block}
    (ht : (c.claim i spans fit priority owner).1.stores[i]? = some t) (hg : (s.fillAll fit spans).Mapped g t)
    (hnone : ∀ b ∈ (s.fillAll fit spans).touched spans, (g b).state.isClaimable = false)
    (hgranted : (c.ensure i spans fit priority owner).1.queue.rejected = c.queue.rejected) (p : Priority)
    (o : Option Nat) :
    ((c.ensure i spans fit priority owner).1.ensure i spans fit p o).2 = .ok 0 ∧
      ((c.ensure i spans fit priority owner).1.ensure i spans fit p o).1.stores =
        (c.ensure i spans fit priority owner).1.stores := by
  have hgrown := grown_fillAll (h.stores hs) fit spans
  have hstores := (granted_ensure h.stores hgranted).stores
  have hsound := (moves_ensure (A := fun _ _ => False) h.stores i spans fit priority owner).storesSound h.stores
  -- The store is the one that was claimed, but for its counts.
  obtain ⟨u, hu, hut⟩ : ∃ u, (c.ensure i spans fit priority owner).1.stores[i]? = some u ∧
      u.uncounted = t.uncounted := by
    have hi := congrArg (fun l => l[i]?) hstores
    simp only [List.getElem?_map, ht, Option.map_some] at hi
    exact Option.map_eq_some_iff.mp hi
  obtain ⟨hblocks, hhandle, hconfig⟩ := eq_of_uncounted hut
  have hhandle' : u.handle = (s.fillAll fit spans).handle := hhandle.trans hg.handle
  refine ensure_of_settled hsound hu ?_ ?_
  · refine fillAll_again (h.stores hs) (hsound hu) (hhandle'.trans hgrown.handle)
      ((hconfig.trans hg.config).trans hgrown.config) ?_
    intro b hb
    exact ⟨g b, hblocks ▸ hg.mem_iff.mpr ⟨b, hb, rfl⟩, hg.span b⟩
  · intro x hx
    obtain ⟨hx, hover⟩ := List.mem_filter.mp hx
    obtain ⟨b, hb, rfl⟩ := hg.mem_iff.mp (hblocks ▸ hx)
    rw [hg.span, clampAll, hhandle'] at hover
    exact hnone b (List.mem_filter.mpr ⟨hb, hover⟩)

end Requests

end Cache

namespace Desk

/-- Whatever happened at a desk, a request claims the blocks that it touches and that can be claimed in as few runs as
    there can be. When none of its jobs is rejected it tells how many runs there are, and the same request after it
    makes no job and leaves all stores as they are. -/
theorem coalesced_ensure (config : QueueConfig) (l : List Event) {i : Nat} {s : Store}
    (hs : ((new config).run l).cache.stores[i]? = some s) (hlimit : 1 ≤ s.config.maxRun) (spans : List Span) (fit : Fit)
    (priority : Priority) (owner : Option Nat) :
    let c := ((new config).run l).cache
    ∃ t runs, (c.claim i spans fit priority owner).1.stores[i]? = some t ∧
      Cache.Claims s.config.maxRun (s.fillAll fit spans) t ((s.fillAll fit spans).touched spans)
        (c.claim i spans fit priority owner).2.1 runs ∧
      ((c.ensure i spans fit priority owner).1.queue.rejected = c.queue.rejected →
        (c.ensure i spans fit priority owner).2 = .ok runs.length ∧
        ∀ p o, ((c.ensure i spans fit priority owner).1.ensure i spans fit p o).2 = .ok 0 ∧
          ((c.ensure i spans fit priority owner).1.ensure i spans fit p o).1.stores =
            (c.ensure i spans fit priority owner).1.stores) := by
  have hwork := ((sound_new config).run l).work
  obtain ⟨t, g, runs, ht, hg, hclaims, hnone⟩ := Cache.exists_claims hwork hs hlimit spans fit priority owner
  refine ⟨t, runs, ht, hclaims, fun hgranted => ⟨?_, Cache.ensure_again hwork hs ht hg hnone hgranted⟩⟩
  have hlength := congrArg List.length hclaims.named
  simp only [List.length_map] at hlength
  rw [← hlength]
  exact (Cache.granted_ensure hwork.stores hgranted).result

/-- The middle one of seven blocks is on its way. -/
def halfway : Desk := (new {}).run [.act (.addStore ⟨"a", 70, none⟩ { blockSize := 10, maxRun := 2 }),
  .act (.ensure 0 [⟨30, 40⟩] .grid .immediate none)]

/-- With at most two blocks in a run, a request for all seven makes two jobs for the three blocks on each side. -/
theorem coalesced_ensure_halfway : ∃ s t runs, halfway.cache.stores[0]? = some s ∧ 1 ≤ s.config.maxRun ∧
    Cache.Claims s.config.maxRun (s.fillAll .grid [⟨0, 70⟩]) t ((s.fillAll .grid [⟨0, 70⟩]).touched [⟨0, 70⟩])
      (halfway.cache.claim 0 [⟨0, 70⟩] .grid .immediate none).2.1 runs ∧ runs.length = 4 ∧
    ((halfway.cache.ensure 0 [⟨0, 70⟩] .grid .immediate none).1.ensure 0 [⟨0, 70⟩] .grid .speculative none).2 =
      .ok 0 := by
  have hvalues : (halfway.cache.stores[0]?).map (·.config.maxRun) = some 2 ∧
      (halfway.cache.ensure 0 [⟨0, 70⟩] .grid .immediate none).1.queue.rejected = halfway.cache.queue.rejected ∧
      (halfway.cache.claim 0 [⟨0, 70⟩] .grid .immediate none).2.1.length = 4 := by
    decide +kernel
  obtain ⟨hmap, hgranted, hfour⟩ := hvalues
  obtain ⟨s, hs, hrun⟩ := Option.map_eq_some_iff.mp hmap
  have hlimit : 1 ≤ s.config.maxRun := by omega
  obtain ⟨t, runs, -, hclaims, hrest⟩ := coalesced_ensure {} _ hs hlimit [⟨0, 70⟩] .grid .immediate none
  have hlength := congrArg List.length hclaims.named
  simp only [List.length_map] at hlength
  exact ⟨s, t, runs, hs, hlimit, hclaims, hlength.symm.trans hfour, ((hrest hgranted).2 _ _).1⟩

end Desk

end RangeCache
