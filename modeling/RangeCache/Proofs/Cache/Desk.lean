import RangeCache.Proofs.Cache.Actions
import RangeCache.Proofs.Cache.Faults
import RangeCache.Proofs.Store.Readers

/-!
# Reads that wait at a cache

A desk is a cache and the reads that have begun and not ended. Everything that can be done to the cache can happen at a
desk, and a read that waits can also be given up, which takes its pins back and does nothing else. At all times the pins
of a block are those of the reads whose spans overlap it (`Desk.Upholds`). So a block that an unfinished read needs is
neither evicted nor forgotten, and nothing is pinned when all reads have ended, whether they got their bytes, failed
or were given up (`pinned_run`).
-/

namespace RangeCache

/-- A cache, and the reads that wait for its blocks. -/
structure Desk where
  cache : Cache
  reads : List Reading := []

namespace Desk

def new (config : QueueConfig) : Desk := { cache := .new config }

/-- Something that happens at a desk. -/
inductive Event where
  | act (a : Cache.Action)
  /-- A read that waits is given up. -/
  | giveUp (r : Reading)

/-- A desk after a read was carried on: it waits with the others, or has ended. -/
def receive (reads : List Reading) : Cache × Progress Reading → Desk
  | (c, .waiting r) => ⟨c, r :: reads⟩
  | (c, .done _) => ⟨c, reads⟩

theorem cache_receive (reads : List Reading) (p : Cache × Progress Reading) : (receive reads p).cache = p.1 := by
  obtain ⟨c, p⟩ := p
  cases p <;> rfl

/-- Something happens. Only a read that waits can go on or be given up. -/
def step (d : Desk) : Event → Desk
  | .act (.beginRead i span fit owner) => receive d.reads (d.cache.beginRead i span fit owner)
  | .act (.resumeRead r) => if r ∈ d.reads then receive (d.reads.erase r) (d.cache.resumeRead r) else d
  | .act a => { d with cache := d.cache.act a }
  | .giveUp r => if r ∈ d.reads then ⟨d.cache.modifyStore r.store (·.unpin r.pinned), d.reads.erase r⟩ else d

/-- Things happen, one after the other. -/
def run (d : Desk) (l : List Event) : Desk := l.foldl step d

theorem run_concat (d : Desk) (l : List Event) (e : Event) : d.run (l ++ [e]) = (d.run l).step e := by simp [run]

end Desk

/-- The pins of every store that has a grid are those of some reads, all of which are of stores that are there. -/
structure Cache.Upholds (c : Cache) (l : List Reading) : Prop where
  store : ∀ r ∈ l, r.store < c.stores.length
  todo : ∀ r ∈ l, r.todo ⊆ r.pinned
  pinned : ∀ {i : Nat} {s : Store}, c.stores[i]? = some s → 0 < s.config.blockSize →
    s.PinnedFor (l.filter fun r => r.store == i)

namespace Cache

section Upholds
variable {c c' : Cache} {l l' : List Reading} {r r' : Reading}

theorem Upholds.perm (h : c.Upholds l) (hp : l'.Perm l) : c.Upholds l' where
  store r hr := h.store r (hp.mem_iff.mp hr)
  todo r hr := h.todo r (hp.mem_iff.mp hr)
  pinned hs hgrid := (h.pinned hs hgrid).perm (hp.filter _)

theorem Upholds.quiet (h : c.Upholds l) (hq : c.Quiet c') (hc : c.StoresSound) : c'.Upholds l where
  store r hr := hq.lt_length (h.store r hr)
  todo := h.todo
  pinned ht hgrid := by
    obtain ⟨s, hs, hst⟩ := hq.exists_quietly ht
    have hsame := hst.samePins (hc hs)
    exact hsame.pinnedFor (h.pinned hs (hsame.config ▸ hgrid)) (hq.storesSound hc ht)

theorem Upholds.addStore (h : c.Upholds l) (handle : Handle) (config : StoreConfig) :
    (c.addStore handle config).Upholds l where
  store r hr := by
    have hlt := h.store r hr
    simp only [Cache.addStore, List.length_append]
    omega
  todo := h.todo
  pinned {i t} ht hgrid := by
    rcases Nat.lt_or_ge i c.stores.length with hi | hi
    · rw [Cache.addStore, List.getElem?_append_left hi] at ht
      exact h.pinned ht hgrid
    · -- No read is of a store that was not there.
      have hnone : (l.filter fun r => r.store == i) = [] := by
        refine List.filter_eq_nil_iff.mpr fun r hr hri => ?_
        have := h.store r hr
        rw [beq_iff_eq.mp hri] at this
        omega
      rcases Cache.getElem?_addStore_cases ht with hs | rfl
      · exact absurd (List.getElem?_eq_some_iff.mp hs).1 (Nat.not_lt_of_le hi)
      · exact hnone.symm ▸ Store.pinnedFor_new handle config

theorem filter_cons_self (r : Reading) (l : List Reading) :
    ((r :: l).filter fun x => x.store == r.store) = r :: l.filter fun x => x.store == r.store :=
  List.filter_cons_of_pos (beq_self_eq_true _)

theorem filter_cons_ne {i : Nat} (h : i ≠ r.store) :
    ((r :: l).filter fun x => x.store == i) = l.filter fun x => x.store == i :=
  List.filter_cons_of_neg (by simpa using fun hi : r.store = i => h hi.symm)

/-- A read that goes on and waits again. -/
theorem Upholds.further (h : c.Upholds (r :: l)) (hstore : r'.store = r.store) (hspan : r'.span = r.span)
    (hpinned : r'.pinned = r.pinned) (htodo : r'.todo ⊆ r.pinned) : c.Upholds (r' :: l) where
  store x hx := by
    rcases List.mem_cons.mp hx with rfl | hx
    · exact hstore.symm ▸ h.store r List.mem_cons_self
    · exact h.store x (List.mem_cons_of_mem _ hx)
  todo x hx := by
    rcases List.mem_cons.mp hx with rfl | hx
    · exact hpinned.symm ▸ htodo
    · exact h.todo x (List.mem_cons_of_mem _ hx)
  pinned {i s} hs hgrid := by
    have hp := h.pinned hs hgrid
    by_cases hi : i = r.store
    · subst hi
      rw [filter_cons_self] at hp
      have hself := filter_cons_self r' l
      rw [hstore] at hself
      exact hself.symm ▸ hp.further hspan hpinned
    · rw [filter_cons_ne hi] at hp
      rwa [filter_cons_ne (hstore.symm ▸ hi)]

/-- A read begins, and pins its blocks. -/
theorem Upholds.pin (h : c.Upholds l) (hc : c.StoresSound) {s : Store} (hs : c.stores[r.store]? = some s)
    {blocks : List Block} (hblocks : r.pinned = blocks.map (·.id)) (htodo : r.todo = r.pinned)
    (hr : 0 < s.config.blockSize → s.Hosts r) :
    (c.modifyStore r.store (·.pinFor blocks)).Upholds (r :: l) where
  store x hx := by
    simp only [Cache.modifyStore, List.length_modify]
    rcases List.mem_cons.mp hx with rfl | hx
    · exact (List.getElem?_eq_some_iff.mp hs).1
    · exact h.store x hx
  todo x hx := by
    rcases List.mem_cons.mp hx with rfl | hx
    · exact htodo ▸ List.Subset.refl _
    · exact h.todo x hx
  pinned {i t} ht hgrid := by
    rcases Cache.getElem?_modifyStore_cases ht with ⟨rfl, s', hs', rfl⟩ | ⟨hi, ht⟩
    · cases hs.symm.trans hs'
      rw [s.config_pinFor] at hgrid
      rw [filter_cons_self]
      exact (h.pinned hs hgrid).pinFor (hc hs) (hr hgrid) hblocks
    · rw [filter_cons_ne hi]
      exact h.pinned ht hgrid

/-- A read takes its pins back. -/
theorem Upholds.unpin (h : c.Upholds (r :: l)) (hc : c.StoresSound) :
    (c.modifyStore r.store (·.unpin r.pinned)).Upholds l where
  store x hx := by
    simp only [Cache.modifyStore, List.length_modify]
    exact h.store x (List.mem_cons_of_mem _ hx)
  todo x hx := h.todo x (List.mem_cons_of_mem _ hx)
  pinned {i t} ht hgrid := by
    rcases Cache.getElem?_modifyStore_cases ht with ⟨rfl, s, hs, rfl⟩ | ⟨hi, ht⟩
    · rw [(Store.mapped_unpinAll s r.pinned).config] at hgrid
      have hp := h.pinned hs hgrid
      rw [filter_cons_self] at hp
      exact hp.unpin (hc hs)
    · have hp := h.pinned ht hgrid
      rwa [filter_cons_ne hi] at hp

theorem Upholds.endRead (h : c.Upholds (r :: l)) (hc : c.StoresSound) (result : Except Fault Bytes) :
    (c.endRead r result).Upholds l := by
  have hunpin := h.unpin hc
  have hc' : (c.modifyStore r.store (·.unpin r.pinned)).StoresSound :=
    hc.modifyStore fun s _ hs => (Store.edits_unpin r.pinned s).sound hs
  cases result with
  | error f => exact hunpin
  | ok bytes => exact hunpin.quiet (Cache.quiet_modifyStore fun s _ => .single .evict) hc'

end Upholds

end Cache

namespace Desk

/-- The pins are those of the reads that wait. -/
def Upholds (d : Desk) : Prop := d.cache.Upholds d.reads

section Reads
variable {c : Cache} {l : List Reading} {r : Reading}

theorem upholds_readFrom (h : c.Upholds (r :: l)) (hc : c.StoresSound) (got : Bytes) {todo : List Nat}
    (htodo : todo ⊆ r.pinned) : (receive l (c.readFrom r got todo)).Upholds := by
  obtain ⟨c', hquiet, ⟨rest, bytes, hsuffix, he⟩ | ⟨result, he⟩⟩ := Cache.exists_readFrom c r got todo
  · exact he ▸ (h.quiet hquiet hc).further rfl rfl rfl fun id hid => htodo (hsuffix.subset hid)
  · exact he ▸ (h.quiet hquiet hc).endRead (hquiet.storesSound hc) result

/-- After the claim of a span, its blocks host a read of it. -/
theorem hosts_claim (hc : c.StoresSound) {i : Nat} {s : Store} (hs : c.stores[i]? = some s) {span : Span}
    (hspan : (span.clamp s.handle.size).isEmpty = false) {fit : Fit} {owner : Option Nat} {c' : Cache}
    {jobs : List Job} {others : List Nat}
    (hclaim : c.claim i [span.clamp s.handle.size] fit .immediate owner = (c', jobs, others)) :
    ∃ t, c'.stores[i]? = some t ∧
      let ids := (t.overlapping (span.clamp s.handle.size)).map (·.id)
      (0 < t.config.blockSize → t.Hosts ⟨i, span.clamp s.handle.size, owner, ids, ids, []⟩) := by
  have hclamp := span.clamp_clamp s.handle.size
  have hquiet := Cache.quiet_claim hc i [span.clamp s.handle.size] fit .immediate owner
  have hmem : span.clamp s.handle.size ∈ s.clampAll [span.clamp s.handle.size] := by
    rw [s.clampAll_singleton (by rw [hclamp]; exact hspan), hclamp]
    exact List.mem_singleton_self _
  have hcovered := fun hgrid => Cache.covered_claim hc hs hgrid hmem fit .immediate owner
  rw [hclaim] at hquiet hcovered
  obtain ⟨t, ht, hst⟩ := hquiet.1 hs
  have hsame := hst.samePins (hc hs)
  refine ⟨t, ht, fun hgrid => ?_⟩
  obtain ⟨t', ht', hcov⟩ := hcovered (hsame.config ▸ hgrid)
  cases ht.symm.trans ht'
  refine Store.hosts_overlapping (hquiet.storesSound hc ht) ?_ ?_ hcov i owner
  · simpa [Span.isEmpty] using hspan
  · rw [hsame.handle]
    exact Nat.min_le_right _ _

/-- A read that has to look for bytes claims the blocks of its span and pins them. All else is quiet, until it waits or
    takes its pins back. -/
theorem exists_pinFor_of_beginRead (hc : c.StoresSound) {i : Nat} {s : Store} (hs : c.stores[i]? = some s) {span : Span}
    (hspan : (span.clamp s.handle.size).isEmpty = false) (fit : Fit) (owner : Option Nat) :
    ∃ (c₁ c₂ : Cache) (t : Store) (blocks : List Block) (r : Reading), r.store = i ∧ r.pinned = blocks.map (·.id) ∧
      r.todo = r.pinned ∧ c.Quiet c₁ ∧ c₁.stores[i]? = some t ∧ (0 < t.config.blockSize → t.Hosts r) ∧
      (c₁.modifyStore i (·.pinFor blocks)).Quiet c₂ ∧
      ((∃ rest bytes, rest <:+ r.pinned ∧
        c.beginRead i span fit owner = (c₂, .waiting { r with todo := rest, bytes })) ∨
          ∃ result, c.beginRead i span fit owner = (c₂.endRead r result, .done result)) := by
  rcases hclaim : c.claim i [span.clamp s.handle.size] fit .immediate owner with ⟨c₁, jobs, others⟩
  have hquiet := Cache.quiet_claim hc i [span.clamp s.handle.size] fit .immediate owner
  rw [hclaim] at hquiet
  obtain ⟨t, ht, hhosts⟩ := hosts_claim hc hs hspan hclaim
  have hdispatch := Cache.quiet_dispatch
    (c := c₁.modifyStore i (·.pinFor (t.overlapping (span.clamp s.handle.size)))) jobs others .immediate
  rw [Cache.beginRead_of_claim hs hspan hclaim ht]
  rcases hd : (c₁.modifyStore i (·.pinFor (t.overlapping (span.clamp s.handle.size)))).dispatch jobs others .immediate
    with ⟨c₂, result⟩
  rw [hd] at hdispatch
  cases result with
  | error f => exact ⟨c₁, c₂, t, _, _, rfl, rfl, rfl, hquiet, ht, hhosts, hdispatch, Or.inr ⟨.error f, rfl⟩⟩
  | ok n =>
    obtain ⟨c₃, hrest, hor⟩ := Cache.exists_readFrom c₂ ⟨i, span.clamp s.handle.size, owner,
      (t.overlapping (span.clamp s.handle.size)).map (·.id), (t.overlapping (span.clamp s.handle.size)).map (·.id), []⟩
      [] ((t.overlapping (span.clamp s.handle.size)).map (·.id))
    exact ⟨c₁, c₃, t, _, _, rfl, rfl, rfl, hquiet, ht, hhosts, hdispatch.trans hrest, hor⟩

theorem upholds_beginRead (h : c.Upholds l) (hc : c.StoresSound) (i : Nat) (span : Span) (fit : Fit)
    (owner : Option Nat) : (receive l (c.beginRead i span fit owner)).Upholds := by
  cases hs : c.stores[i]? with
  | none =>
    rw [Cache.beginRead_of_none hs]
    exact h
  | some s =>
    cases hspan : (span.clamp s.handle.size).isEmpty with
    | true =>
      rw [Cache.beginRead_of_isEmpty hs hspan]
      exact h
    | false =>
      obtain ⟨c₁, c₂, t, blocks, r, rfl, hblocks, htodo, hclaim, ht, hhosts, hquiet, hor⟩ :=
        exists_pinFor_of_beginRead hc hs hspan fit owner
      have hc₁ := hclaim.storesSound hc
      have hc₂ : (c₁.modifyStore r.store (·.pinFor blocks)).StoresSound :=
        hc₁.modifyStore fun s _ hs => (s.edits_pinFor _).sound hs
      have hpin := ((h.quiet hclaim hc).pin hc₁ ht hblocks htodo hhosts).quiet hquiet hc₂
      rcases hor with ⟨rest, bytes, hsuffix, he⟩ | ⟨result, he⟩
      · exact he ▸ hpin.further rfl rfl rfl hsuffix.subset
      · exact he ▸ hpin.endRead (hquiet.storesSound hc₂) result

end Reads

/-! ### Events -/

/-- What holds of a desk at all times. -/
structure Sound (d : Desk) : Prop where
  work : Work.Sound .any ⟨d.cache, []⟩
  upholds : d.Upholds

theorem sound_new (config : QueueConfig) : (new config).Sound :=
  ⟨.new .any config, nofun, nofun, nofun⟩

section Events
variable {d : Desk}

/-- Any action but a read adds a store or is quiet. -/
theorem quiet_act {c : Cache} (hc : c.StoresSound) {a : Cache.Action}
    (hbegin : ∀ i span fit owner, a ≠ .beginRead i span fit owner) (hresume : ∀ r, a ≠ .resumeRead r) :
    (∃ h config, c.act a = c.addStore h config) ∨ c.Quiet (c.act a) := by
  cases a with
  | addStore h config => exact Or.inl ⟨h, config, rfl⟩
  | get i span => exact Or.inr (Cache.quiet_get hc i span)
  | ensure i spans fit priority owner => exact Or.inr (Cache.quiet_ensure hc i spans fit priority owner)
  | beginRead i span fit owner => exact absurd rfl (hbegin i span fit owner)
  | resumeRead r => exact absurd rfl (hresume r)
  | await i id owner => exact Or.inr (Cache.quiet_poll i id owner)
  | cancel owner => exact Or.inr (Cache.quiet_cancel owner)
  | promote job => exact Or.inr (Cache.Quiet.refl c)
  | evict i => exact Or.inr (Cache.quiet_evict i)
  | finish j attempts result =>
    refine Or.inr ?_
    by_cases hj : j ∈ c.queue.running
    · simp only [Cache.act, if_pos hj]
      exact Cache.quiet_finish j attempts result
    · simp only [Cache.act, if_neg hj]
      exact .refl c

/-- An event lets a read begin, go on or be given up, or it is another action, which adds a store or is quiet. -/
inductive Steps (d : Desk) : Event → Desk → Prop where
  | idle (e : Event) : Steps d e d
  | begins (i : Nat) (span : Span) (fit : Fit) (owner : Option Nat) :
      Steps d (.act (.beginRead i span fit owner)) (receive d.reads (d.cache.beginRead i span fit owner))
  | goesOn (r : Reading) (hr : r ∈ d.reads) :
      Steps d (.act (.resumeRead r)) (receive (d.reads.erase r) (d.cache.resumeRead r))
  | givesUp (r : Reading) (hr : r ∈ d.reads) :
      Steps d (.giveUp r) ⟨d.cache.modifyStore r.store (·.unpin r.pinned), d.reads.erase r⟩
  | adds (a : Cache.Action) (h : Handle) (config : StoreConfig) (ha : d.cache.act a = d.cache.addStore h config) :
      Steps d (.act a) ⟨d.cache.addStore h config, d.reads⟩
  | acts (a : Cache.Action) (hq : d.cache.Quiet (d.cache.act a)) : Steps d (.act a) ⟨d.cache.act a, d.reads⟩

theorem steps_step (hc : d.cache.StoresSound) (e : Event) : d.Steps e (d.step e) := by
  have hother : ∀ {a : Cache.Action}, (∀ i span fit owner, a ≠ .beginRead i span fit owner) →
      (∀ r, a ≠ .resumeRead r) → d.Steps (.act a) ⟨d.cache.act a, d.reads⟩ := by
    intro a hbegin hresume
    rcases quiet_act hc hbegin hresume with ⟨h, config, he⟩ | hq
    · have := Steps.adds (d := d) a h config he
      rwa [← he] at this
    · exact .acts a hq
  cases e with
  | giveUp r =>
    by_cases hr : r ∈ d.reads
    · simp only [step, if_pos hr]
      exact .givesUp r hr
    · simp only [step, if_neg hr]
      exact .idle _
  | act a =>
    cases a with
    | beginRead i span fit owner => exact .begins i span fit owner
    | resumeRead r =>
      by_cases hr : r ∈ d.reads
      · simp only [step, if_pos hr]
        exact .goesOn r hr
      · simp only [step, if_neg hr]
        exact .idle _
    | _ => exact hother nofun nofun

/-- Every event adds a store or is a number of moves. -/
theorem Steps.moves {d' : Desk} {e : Event} (h : d.Steps e d') (hc : d.cache.StoresSound) :
    (∃ handle config, d'.cache = d.cache.addStore handle config) ∨
      Moves (fun _ _ => True) ⟨d.cache, []⟩ ⟨d'.cache, []⟩ := by
  have hact : ∀ a, (∃ handle config, d.cache.act a = d.cache.addStore handle config) ∨
      Moves (fun _ _ => True) ⟨d.cache, []⟩ ⟨d.cache.act a, []⟩ :=
    fun a => (Cache.moves_act hc a).imp_right (Moves.mono fun _ _ _ => trivial)
  cases h with
  | idle => exact Or.inr .refl
  | begins i span fit owner =>
    rw [cache_receive]
    exact hact (.beginRead i span fit owner)
  | goesOn r hr =>
    rw [cache_receive]
    exact hact (.resumeRead r)
  | givesUp r hr => exact Or.inr (Cache.moves_modifyStore fun s _ => Store.edits_unpin r.pinned s)
  | adds a handle config ha => exact Or.inl ⟨handle, config, rfl⟩
  | acts a hq => exact hact a

theorem Steps.work {d' : Desk} {e : Event} (h : d.Steps e d') (hd : Work.Sound .any ⟨d.cache, []⟩) :
    Work.Sound .any ⟨d'.cache, []⟩ := by
  rcases h.moves hd.stores with ⟨handle, config, he⟩ | hm
  · exact he ▸ hd.addStore handle config
  · exact (Moves.mono (fun _ _ _ _ _ => trivial) hm).sound hd

theorem Steps.extends {d' : Desk} {e : Event} (h : d.Steps e d') (hc : d.cache.StoresSound) :
    d.cache.Extends d'.cache := by
  rcases h.moves hc with ⟨handle, config, he⟩ | hm
  · exact he ▸ Cache.extends_addStore handle config
  · exact hm.extends hc

/-- A read that is unfinished after an event was so before, unless no read ended. -/
theorem Steps.reads {d' : Desk} {e : Event} (h : d.Steps e d') {r : Reading} (hr : r ∈ d'.reads) :
    (∃ r₀ ∈ d.reads, r₀.store = r.store ∧ r₀.span = r.span ∧ r₀.pinned = r.pinned) ∨ d.reads ⊆ d'.reads := by
  have hstays : ∀ {r}, r ∈ d.reads → ∃ r₀ ∈ d.reads, r₀.store = r.store ∧ r₀.span = r.span ∧ r₀.pinned = r.pinned :=
    fun {r} hr => ⟨r, hr, rfl, rfl, rfl⟩
  cases h with
  | idle => exact Or.inl (hstays hr)
  | begins i span fit owner =>
    refine Or.inr ?_
    rcases d.cache.beginRead i span fit owner with ⟨c, _ | _⟩
    · exact List.subset_cons_self _ _
    · exact List.Subset.refl _
  | goesOn r₀ hr₀ =>
    obtain ⟨c, -, ⟨rest, bytes, -, he⟩ | ⟨result, he⟩⟩ := Cache.exists_readFrom d.cache r₀ r₀.bytes r₀.todo
    · rw [Cache.resumeRead, he] at hr
      rcases List.mem_cons.mp hr with rfl | hr
      · exact Or.inl ⟨r₀, hr₀, rfl, rfl, rfl⟩
      · exact Or.inl (hstays (List.mem_of_mem_erase hr))
    · rw [Cache.resumeRead, he] at hr
      exact Or.inl (hstays (List.mem_of_mem_erase hr))
  | givesUp r₀ hr₀ => exact Or.inl (hstays (List.mem_of_mem_erase hr))
  | adds a handle config ha => exact Or.inl (hstays hr)
  | acts a hq => exact Or.inl (hstays hr)

theorem Steps.upholds {d' : Desk} {e : Event} (h : d.Steps e d') (hd : d.Sound) : d'.Upholds := by
  have hc := hd.work.stores
  have herase : ∀ {r : Reading}, r ∈ d.reads → d.cache.Upholds (r :: d.reads.erase r) :=
    fun hr => hd.upholds.perm (List.perm_cons_erase hr).symm
  cases h with
  | idle => exact hd.upholds
  | begins i span fit owner => exact upholds_beginRead hd.upholds hc i span fit owner
  | goesOn r hr => exact upholds_readFrom (herase hr) hc r.bytes (hd.upholds.todo r hr)
  | givesUp r hr => exact (herase hr).unpin hc
  | adds a handle config ha => exact hd.upholds.addStore handle config
  | acts a hq => exact hd.upholds.quiet hq hc

theorem Sound.step (h : d.Sound) (e : Event) : (d.step e).Sound :=
  have hsteps := steps_step h.work.stores e
  ⟨hsteps.work h.work, hsteps.upholds h⟩

theorem Sound.run (h : d.Sound) (l : List Event) : (d.run l).Sound := by
  induction l generalizing d with
  | nil => exact h
  | cons e l ih => exact ih (h.step e)

end Events

/-! ### Pins -/

/-- What the pins of a store do for the reads of it that wait at a desk. -/
structure Pins (d : Desk) (i : Nat) (s : Store) : Prop where
  /-- A block has one pin for each unfinished read whose span overlaps it. -/
  pins : ∀ b ∈ s.blocks, b.pins = d.reads.countP fun r => r.store == i && b.span.overlaps r.span
  /-- The span of a read is what the object has of the bytes that it is asked for. -/
  clamped : ∀ span fit owner r, (d.cache.beginRead i span fit owner).2 = .waiting r →
    r.store = i ∧ r.span = span.clamp s.handle.size
  /-- A pinned block is tracked and not evicted. -/
  tracked : ∀ b ∈ s.blocks ++ s.retired, 0 < b.pins → b ∈ s.blocks ∧ b.state ≠ .evicted
  /-- Whatever happens next, a pinned block stays as long as a read is unfinished that overlaps it. -/
  stays : ∀ e, ∃ t, (d.step e).cache.stores[i]? = some t ∧ ∀ b ∈ s.blocks, 0 < b.pins → ∀ r ∈ (d.step e).reads,
    r.store = i → b.span.overlaps r.span = true → ∃ b' ∈ t.blocks, b'.id = b.id ∧ b'.span = b.span
  /-- A read that waits finds the blocks that it needs. -/
  found : ∀ r ∈ d.reads, r.store = i → ∀ id ∈ r.todo, ∃ b ∈ s.blocks, s.block? id = some b ∧ b.state ≠ .evicted
  /-- When it goes on it fails only with the fault of a block that it needs, or because the queue is full. -/
  fails : ∀ r ∈ d.reads, r.store = i → ∀ f, (d.cache.resumeRead r).2 = .done (.error f) →
    (∃ id ∈ r.todo, s.FailedWith id f) ∨ f.IsFull
  /-- A read that begins fails only because the queue is full. -/
  begins : ∀ span fit owner f, (d.cache.beginRead i span fit owner).2 = .done (.error f) → f.IsFull
  /-- When all reads of the store have ended, however they did, nothing is pinned. -/
  free : (∀ r ∈ d.reads, r.store ≠ i) → ∀ b ∈ s.blocks ++ s.retired, b.pins = 0

section Pins
variable {d : Desk} {i : Nat} {s : Store}

theorem clamped_of_beginRead {c : Cache} (hs : c.stores[i]? = some s) {span : Span} {fit : Fit}
    {owner : Option Nat} {r : Reading} (h : (c.beginRead i span fit owner).2 = .waiting r) :
    r.store = i ∧ r.span = span.clamp s.handle.size := by
  unfold Cache.beginRead at h
  rw [hs] at h
  dsimp only at h
  split at h
  · cases h
  · split at h
    · obtain ⟨rest, bytes, rfl, -⟩ := Cache.further_of_resumeRead h
      exact ⟨rfl, rfl⟩
    · cases h

theorem Sound.pinnedFor (h : d.Sound) (hs : d.cache.stores[i]? = some s) (hgrid : 0 < s.config.blockSize) :
    s.PinnedFor (d.reads.filter fun r => r.store == i) := h.upholds.pinned hs hgrid

theorem mem_reads {r : Reading} (hr : r ∈ d.reads) (hi : r.store = i) : r ∈ d.reads.filter fun r => r.store == i :=
  List.mem_filter.mpr ⟨hr, beq_iff_eq.mpr hi⟩

/-- An unfinished read has pinned the blocks that it still needs. -/
theorem Sound.pinned (h : d.Sound) (hs : d.cache.stores[i]? = some s) (hgrid : 0 < s.config.blockSize) {r : Reading}
    (hr : r ∈ d.reads) (hi : r.store = i) {id : Nat} (hid : id ∈ r.todo) : d.cache.Pinned i id 1 := by
  have hp := h.pinnedFor hs hgrid
  obtain ⟨b, hb, hbid, hover⟩ := ((hp.hosts r (mem_reads hr hi)).mem_pinned id).mp (h.upholds.todo r hr hid)
  exact ⟨s, hs, b, hb, hbid, hp.pins_pos (mem_reads hr hi) hb hover⟩

theorem Sound.stays (h : d.Sound) (hs : d.cache.stores[i]? = some s) (hgrid : 0 < s.config.blockSize) (e : Event) :
    ∃ t, (d.step e).cache.stores[i]? = some t ∧ ∀ b ∈ s.blocks, 0 < b.pins → ∀ r ∈ (d.step e).reads,
      r.store = i → b.span.overlaps r.span = true → ∃ b' ∈ t.blocks, b'.id = b.id ∧ b'.span = b.span := by
  have hsteps := steps_step h.work.stores e
  obtain ⟨t, ht, -, hconfig, hknows⟩ := hsteps.extends h.work.stores hs
  have hp := h.pinnedFor hs hgrid
  have hp' := (h.step e).pinnedFor ht (hconfig ▸ hgrid)
  have hsound := (h.step e).work.stores ht
  refine ⟨t, ht, fun b hb hpins r hr hi hover => ?_⟩
  -- A read that pinned the block before the event is still unfinished.
  obtain ⟨r₀, r₁, hr₀, hi₀, hover₀, hr₁, hi₁, hpinned⟩ : ∃ r₀ r₁, r₀ ∈ d.reads ∧ r₀.store = i ∧
      b.span.overlaps r₀.span = true ∧ r₁ ∈ (d.step e).reads ∧ r₁.store = i ∧ r₀.pinned = r₁.pinned := by
    rcases hsteps.reads hr with ⟨r₀, hr₀, hstore, hspan, hpinned⟩ | hsub
    · exact ⟨r₀, r, hr₀, hstore.trans hi, hspan.symm ▸ hover, hr, hi, hpinned⟩
    · rw [hp.pins b hb] at hpins
      obtain ⟨r₀, hr₀, hover₀⟩ := List.countP_pos_iff.mp hpins
      obtain ⟨hr₀, hi₀⟩ := List.mem_filter.mp hr₀
      exact ⟨r₀, r₀, hr₀, beq_iff_eq.mp hi₀, hover₀, hsub hr₀, beq_iff_eq.mp hi₀, rfl⟩
  have hid : b.id ∈ r₁.pinned :=
    hpinned ▸ ((hp.hosts r₀ (mem_reads hr₀ hi₀)).mem_iff (h.work.stores hs) hb).mpr hover₀
  obtain ⟨b', hb', hbid, -⟩ := ((hp'.hosts r₁ (mem_reads hr₁ hi₁)).mem_pinned b.id).mp hid
  obtain ⟨x, hx, hxid, hxspan⟩ := hknows ⟨b, List.mem_append_left _ hb, rfl, rfl⟩
  obtain rfl := hsound.eq_of_id hx (List.mem_append_left _ hb') (hxid.trans hbid.symm)
  exact ⟨x, hb', hbid, hxspan⟩

theorem Sound.pins (h : d.Sound) (hs : d.cache.stores[i]? = some s) (hgrid : 0 < s.config.blockSize) :
    d.Pins i s where
  pins b hb := by
    rw [(h.pinnedFor hs hgrid).pins b hb, List.countP_filter]
    exact List.countP_congr fun r _ => by rw [Bool.and_comm]
  clamped span fit owner r hr := clamped_of_beginRead hs hr
  tracked b hb hpins := by
    rcases List.mem_append.mp hb with hb | hb
    · exact ⟨hb, (h.work.stores hs).tracked b hb⟩
    · have := (h.pinnedFor hs hgrid).retired b hb
      omega
  stays := h.stays hs hgrid
  found r hr hi id hid := by
    obtain ⟨t, b, ht, hb, -, hblock⟩ := Cache.block?_of_pinned h.work.stores (h.pinned hs hgrid hr hi hid)
    cases hs.symm.trans ht
    exact ⟨b, hb, hblock, (h.work.stores hs).tracked b hb⟩
  fails r hr hi f hf := by
    subst hi
    refine (Cache.fault_of_resumeRead h.work.stores (fun id hid => h.pinned hs hgrid hr rfl hid) hf).imp_left ?_
    rintro ⟨id, hid, t, ht, hfailed⟩
    cases hs.symm.trans ht
    exact ⟨id, hid, hfailed⟩
  begins span fit owner f hf := Cache.fault_of_beginRead h.work.stores (List.getElem?_eq_some_iff.mp hs).1 hf
  free hreads b hb := by
    have hp := h.pinnedFor hs hgrid
    rcases List.mem_append.mp hb with hb | hb
    · rw [hp.pins b hb, List.countP_eq_zero]
      exact fun r hr => absurd (beq_iff_eq.mp (List.mem_filter.mp hr).2) (hreads r (List.mem_filter.mp hr).1)
    · exact hp.retired b hb

end Pins

/-- Whatever happens at a desk, at every moment the pins of a block are those of the unfinished reads whose spans
    overlap it. A pinned block is neither evicted nor forgotten, no read finds one that was, and when all reads have
    ended, with their bytes, with a fault or given up, no pin is left. -/
theorem pinned_run (config : QueueConfig) (l : List Event) {i : Nat} {s : Store}
    (hs : ((new config).run l).cache.stores[i]? = some s) (hgrid : 1 ≤ s.config.blockSize) :
    ((new config).run l).Pins i s := ((sound_new config).run l).pins hs hgrid

/-- Of three blocks of ten bytes, two reads that wait need the one in the middle. -/
theorem pinned_run_twice : ∃ s,
    ((new {}).run [.act (.addStore ⟨"a", 30, none⟩ { blockSize := 10 }), .act (.beginRead 0 ⟨0, 20⟩ .grid none),
      .act (.beginRead 0 ⟨10, 40⟩ .grid none)]).cache.stores[0]? = some s ∧ 1 ≤ s.config.blockSize ∧
    s.blocks.map (·.pins) = [1, 2, 1] ∧
    ((new {}).run [.act (.addStore ⟨"a", 30, none⟩ { blockSize := 10 }), .act (.beginRead 0 ⟨0, 20⟩ .grid none),
      .act (.beginRead 0 ⟨10, 40⟩ .grid none)]).Pins 0 s := by
  have hmap : (((new {}).run [.act (.addStore ⟨"a", 30, none⟩ { blockSize := 10 }),
      .act (.beginRead 0 ⟨0, 20⟩ .grid none), .act (.beginRead 0 ⟨10, 40⟩ .grid none)]).cache.stores[0]?).map
        (fun s => (s.config.blockSize, s.blocks.map (·.pins))) = some (10, [1, 2, 1]) := by
    decide +kernel
  obtain ⟨s, hs, hpins⟩ := Option.map_eq_some_iff.mp hmap
  obtain ⟨hsize, hpins⟩ := Prod.mk.inj hpins
  have hgrid : 1 ≤ s.config.blockSize := by omega
  exact ⟨s, hs, hgrid, hpins, pinned_run {} _ hs hgrid⟩

end Desk

end RangeCache
