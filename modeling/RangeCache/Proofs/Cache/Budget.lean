import Mathlib.Data.List.Induction
import RangeCache.Proofs.Cache.Desk
import RangeCache.Proofs.Cache.Resident
import RangeCache.Proofs.Store.Budget

/-!
# Reads and the memory budget

While blocks are pinned a store may hold more than its budget. A read that got its bytes evicts blocks when it has taken
its pins back, and so does a job that brings bytes; so a store of which no read is unfinished fits its budget
(`resident_le_run`). The exception is a read that ends without its bytes (`Desk.Loses`): it takes its pins back and
leaves the blocks that nobody pins any longer where they are, until somebody else evicts (`overshot_after_failure`).
-/

namespace RangeCache

namespace Cache

/-- The store of a number is tight, if there is one. -/
def TightAt (c : Cache) (i : Nat) : Prop := ∀ s, c.stores[i]? = some s → s.Tight

section TightAt
variable {c c' : Cache} {i : Nat}

theorem TightAt.quiet (h : c.TightAt i) (hq : c.Quiet c') (hc : c.StoresSound) : c'.TightAt i := by
  intro t ht
  obtain ⟨s, hs, hst⟩ := hq.exists_quietly ht
  exact hst.tight (hc hs) (h s hs)

theorem TightAt.addStore (h : c.TightAt i) (handle : Handle) (config : StoreConfig) :
    (c.addStore handle config).TightAt i := by
  intro t ht
  rcases getElem?_addStore_cases ht with hs | rfl
  · exact h t hs
  · exact Store.tight_new handle config

theorem TightAt.modifyStore (h : c.TightAt i) {k : Nat} {f : Store → Store}
    (hf : k = i → ∀ s, c.stores[k]? = some s → s.Tight → (f s).Tight) : (c.modifyStore k f).TightAt i := by
  intro t ht
  rcases getElem?_modifyStore_cases ht with ⟨rfl, s, hs, rfl⟩ | ⟨-, hs⟩
  · exact hf rfl s hs (h s hs)
  · exact h t hs

theorem tightAt_evict (c : Cache) (i : Nat) : (c.modifyStore i Store.evict).TightAt i := by
  intro t ht
  rcases getElem?_modifyStore_cases ht with ⟨-, s, -, rfl⟩ | ⟨hne, -⟩
  · exact s.tight_evict
  · exact absurd rfl hne

/-- A read that ends with its bytes leaves its store tight. -/
theorem TightAt.endRead (h : c.TightAt i) {r : Reading} {result : Except Fault Bytes}
    (hr : isFailure result = true → r.store ≠ i) : (c.endRead r result).TightAt i := by
  by_cases hi : r.store = i
  · cases result with
    | error f => exact absurd hi (hr rfl)
    | ok bytes => exact hi ▸ tightAt_evict _ r.store
  · have hunpin : (c.modifyStore r.store (·.unpin r.pinned)).TightAt i := h.modifyStore fun hk => absurd hk hi
    cases result with
    | error f => exact hunpin
    | ok bytes => exact hunpin.modifyStore fun hk => absurd hk hi

end TightAt

end Cache

namespace Desk

/-- An event by which a read of a store ends without its bytes. -/
def Loses (d : Desk) (i : Nat) : Event → Prop
  | .act (.beginRead k span fit owner) => k = i ∧ ∃ f, (d.cache.beginRead k span fit owner).2 = .done (.error f)
  | .act (.resumeRead r) => r ∈ d.reads ∧ r.store = i ∧ ∃ f, (d.cache.resumeRead r).2 = .done (.error f)
  | .giveUp r => r ∈ d.reads ∧ r.store = i
  | _ => False

section Tight
variable {d d' : Desk} {i : Nat} {e : Event}

theorem tightAt_readFrom {c : Cache} (h : c.TightAt i) (hc : c.StoresSound) {r : Reading} (got : Bytes)
    (todo : List Nat) (hr : ∀ f, (c.readFrom r got todo).2 = .done (.error f) → r.store ≠ i) :
    (c.readFrom r got todo).1.TightAt i := by
  obtain ⟨c', hquiet, ⟨rest, bytes, -, he⟩ | ⟨result, he⟩⟩ := Cache.exists_readFrom c r got todo
  · exact he ▸ h.quiet hquiet hc
  · rw [he] at hr ⊢
    refine (h.quiet hquiet hc).endRead fun hfailure => ?_
    cases result with
    | error f => exact hr f rfl
    | ok bytes => cases hfailure

theorem tightAt_beginRead {c : Cache} (h : c.TightAt i) (hc : c.StoresSound) {k : Nat} {span : Span} {fit : Fit}
    {owner : Option Nat} (hr : ∀ f, (c.beginRead k span fit owner).2 = .done (.error f) → k ≠ i) :
    (c.beginRead k span fit owner).1.TightAt i := by
  cases hs : c.stores[k]? with
  | none =>
    rw [Cache.beginRead_of_none hs]
    exact h
  | some s =>
    cases hspan : (span.clamp s.handle.size).isEmpty with
    | true =>
      rw [Cache.beginRead_of_isEmpty hs hspan]
      exact h
    | false =>
      obtain ⟨c₁, c₂, t, blocks, r, rfl, -, -, hclaim, ht, -, hquiet, hor⟩ :=
        exists_pinFor_of_beginRead hc hs hspan fit owner
      have hc₂ : (c₁.modifyStore r.store (·.pinFor blocks)).StoresSound :=
        (hclaim.storesSound hc).modifyStore fun s _ hs => (s.edits_pinFor _).sound hs
      have hpin : (c₁.modifyStore r.store (·.pinFor blocks)).TightAt i :=
        (h.quiet hclaim hc).modifyStore fun _ u _ hu => hu.pin _
      have hfinal := hpin.quiet hquiet hc₂
      rcases hor with ⟨rest, bytes, -, he⟩ | ⟨result, he⟩
      · exact he ▸ hfinal
      · rw [he] at hr ⊢
        refine hfinal.endRead fun hfailure => ?_
        cases result with
        | error f => exact hr f rfl
        | ok bytes => cases hfailure

/-- Every event keeps a store tight but one by which a read of it ends without its bytes. -/
theorem Steps.tightAt (h : d.Steps e d') (hc : d.cache.StoresSound) (ht : d.cache.TightAt i) (hl : ¬d.Loses i e) :
    d'.cache.TightAt i := by
  cases h with
  | idle => exact ht
  | begins k span fit owner =>
    rw [cache_receive]
    exact tightAt_beginRead ht hc fun f hf hk => hl ⟨hk, f, hf⟩
  | goesOn r hr =>
    rw [cache_receive]
    exact tightAt_readFrom ht hc r.bytes r.todo fun f hf hk => hl ⟨hr, hk, f, hf⟩
  | givesUp r hr => exact ht.modifyStore fun hk => absurd ⟨hr, hk⟩ hl
  | adds a handle config ha => exact ht.addStore handle config
  | acts a hq => exact ht.quiet hq hc

/-- Whoever evicts blocks of a store leaves it tight. -/
theorem tightAt_step_evict (d : Desk) (i : Nat) : (d.step (.act (.evict i))).cache.TightAt i := by
  show (d.cache.evict i).1.TightAt i
  unfold Cache.evict
  cases hs : d.cache.stores[i]? with
  | none =>
    intro t ht
    cases hs.symm.trans ht
  | some s => exact Cache.tightAt_evict d.cache i

/-- The induction is on the events, the last one first: it evicts blocks of the store, or loses a read of it, or it
    keeps what the events before it left. -/
theorem tightAt_run (config : QueueConfig) (i : Nat) (l : List Event) :
    ((new config).run l).cache.TightAt i ∨
      ∃ l₁ e l₂, l = l₁ ++ e :: l₂ ∧ ((new config).run l₁).Loses i e ∧ .act (.evict i) ∉ l₂ := by
  induction l using List.reverseRecOn with
  | nil => exact Or.inl fun s hs => by cases hs
  | append_singleton l e ih =>
    have hsound := ((sound_new config).run l).work.stores
    rw [run_concat]
    by_cases hlose : ((new config).run l).Loses i e
    · exact Or.inr ⟨l, e, [], rfl, hlose, List.not_mem_nil⟩
    by_cases hevict : e = .act (.evict i)
    · exact Or.inl (hevict ▸ tightAt_step_evict _ i)
    rcases ih with ht | ⟨l₁, e', l₂, rfl, hlost, hnot⟩
    · exact Or.inl ((steps_step hsound e).tightAt hsound ht hlose)
    · refine Or.inr ⟨l₁, e', l₂ ++ [e], by simp, hlost, fun hmem => ?_⟩
      rcases List.mem_append.mp hmem with hmem | hmem
      · exact hnot hmem
      · exact hevict (List.mem_singleton.mp hmem).symm

theorem Steps.balanced (h : d.Steps e d') (hd : Work.Sound .any ⟨d.cache, []⟩)
    (hb : ∀ s ∈ d.cache.stores, s.Balanced) : ∀ t ∈ d'.cache.stores, t.Balanced := by
  intro t ht
  obtain ⟨k, ht⟩ := List.mem_iff_getElem?.mp ht
  rcases h.moves hd.stores with ⟨handle, config, he⟩ | hm
  · rw [he] at ht
    rcases Cache.getElem?_addStore_cases ht with hs | rfl
    · exact hb t (List.mem_of_getElem? hs)
    · exact Store.balanced_new handle config
  · obtain ⟨s, hs, hst⟩ := hm.exists_changes ht
    exact (hst.sound_balanced (hd.stores hs) (hb s (List.mem_of_getElem? hs))).2

theorem balanced_run (config : QueueConfig) (l : List Event) :
    ∀ s ∈ ((new config).run l).cache.stores, s.Balanced := by
  induction l using List.reverseRecOn with
  | nil => exact nofun
  | append_singleton l e ih =>
    have hwork := ((sound_new config).run l).work
    exact run_concat _ l e ▸ (steps_step hwork.stores e).balanced hwork ih

/-- Whatever happens at a desk, when no read of a store is unfinished it fits its budget, or a read of it ended without
    its bytes and nobody evicted blocks of it since. -/
theorem resident_le_run (config : QueueConfig) (l : List Event) {i : Nat} {s : Store}
    (hs : ((new config).run l).cache.stores[i]? = some s) (hgrid : 1 ≤ s.config.blockSize)
    (hreads : ∀ r ∈ ((new config).run l).reads, r.store ≠ i) :
    s.resident ≤ s.config.memoryBudget ∨
      ∃ l₁ e l₂, l = l₁ ++ e :: l₂ ∧ ((new config).run l₁).Loses i e ∧ .act (.evict i) ∉ l₂ := by
  have hfree := (((sound_new config).run l).pins hs hgrid).free hreads
  refine (tightAt_run config i l).imp_left fun ht => ?_
  exact (ht s hs).resident_le (balanced_run config l s (List.mem_of_getElem? hs))
    fun b hb => hfree b (List.mem_append_left _ hb)

/-- Two blocks of ten bytes, a budget of five, and a read of both: one arrives, the other one fails, and so does the
    read. Nobody reads any longer, no block is pinned, and the store holds twice its budget. -/
theorem overshot_after_failure :
    let d := (new {}).run [.act (.addStore ⟨"a", 20, none⟩ { blockSize := 10, memoryBudget := 5, maxRun := 1 }),
      .act (.beginRead 0 ⟨0, 20⟩ .grid none),
      .act (.finish ⟨1, 0, "a", [0], ⟨0, 10⟩, .immediate, none⟩ 1 (.ok [0, 1, 2, 3, 4, 5, 6, 7, 8, 9])),
      .act (.finish ⟨2, 0, "a", [1], ⟨10, 20⟩, .immediate, none⟩ 1 (.error (.internal "lost"))),
      .act (.resumeRead ⟨0, ⟨0, 20⟩, none, [0, 1], [0, 1], []⟩)]
    d.reads = [] ∧ (d.cache.stores.map fun s => (s.resident, s.config.memoryBudget, s.blocks.map (·.pins))) =
      [(10, 5, [0, 0])] := by
  decide +kernel

end Tight
end Desk
end RangeCache
