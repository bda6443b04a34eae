import RangeCache.Proofs.Cache.Ledger

/-!
# Runs of a cache

What can be done to a cache from outside, in any order: requests and reads of all kinds, waiting for a
block, cancelling and promoting jobs, evicting, and the ends of running jobs. Each of these adds a store or
is a number of moves (`moves_act`), and so the ledger agrees with the stores after any sequence of them: a block is in
flight if and only if exactly one job in the queue lists it (`accounted_acts`). This includes the state
after a request that failed halfway because the queue was full.
-/

namespace RangeCache

open Relation

namespace Cache

/-- What can be done to a cache. -/
inductive Action where
  | addStore (h : Handle) (config : StoreConfig)
  | get (i : Nat) (span : Span)
  | ensure (i : Nat) (spans : List Span) (fit : Fit) (priority : Priority) (owner : Option Nat)
  | beginRead (i : Nat) (span : Span) (fit : Fit) (owner : Option Nat)
  /-- A read that waited goes on. -/
  | resumeRead (r : Reading)
  /-- Somebody waits for a block, or looks again whether the wait is over. -/
  | await (i id : Nat) (owner : Option Nat)
  | cancel (owner : Nat)
  | promote (job : Nat)
  | evict (i : Nat)
  /-- A job ends. Only a running job can. -/
  | finish (j : Job) (attempts : Nat) (result : Except Fault Bytes)
  deriving Repr, Inhabited

/-- Something is done to a cache. -/
def act (c : Cache) : Action → Cache
  | .addStore h config => c.addStore h config
  | .get i span => (c.get i span).1
  | .ensure i spans fit priority owner => (c.ensure i spans fit priority owner).1
  | .beginRead i span fit owner => (c.beginRead i span fit owner).1
  | .resumeRead r => (c.resumeRead r).1
  | .await i id owner => (c.poll i id owner).1
  | .cancel owner => (c.cancel owner).1
  | .promote job => { c with queue := c.queue.promote job }
  | .evict i => (c.evict i).1
  | .finish j attempts result => if j ∈ c.queue.running then c.finish j attempts result else c

/-- Things are done to a cache, one after the other. -/
def acts (c : Cache) (l : List Action) : Cache := l.foldl act c

/-- The outcomes with which an action ends jobs. -/
def Action.ends : Action → Job → Except Fault Bytes → Prop
  | .finish j _ result => fun k x => k = j ∧ x = result
  | _ => fun _ _ => False

/-- Every action adds a store or is a number of moves. -/
theorem moves_act {c : Cache} (hc : c.StoresSound) (a : Action) :
    (∃ h config, c.act a = c.addStore h config) ∨ Moves a.ends ⟨c, []⟩ ⟨c.act a, []⟩ := by
  cases a with
  | addStore h config => exact Or.inl ⟨h, config, rfl⟩
  | get i span => exact Or.inr (moves_get hc i span)
  | ensure i spans fit priority owner => exact Or.inr (moves_ensure hc i spans fit priority owner)
  | beginRead i span fit owner => exact Or.inr (moves_beginRead hc i span fit owner)
  | resumeRead r => exact Or.inr (moves_resumeRead hc r)
  | await i id owner => exact Or.inr (moves_poll hc i id owner)
  | cancel owner => exact Or.inr (moves_cancel owner)
  | promote job => exact Or.inr (.single (.promote job))
  | evict i => exact Or.inr (moves_evict hc i)
  | finish j attempts result =>
    refine Or.inr ?_
    by_cases hj : j ∈ c.queue.running
    · simp only [act, if_pos hj]
      exact moves_finish hc hj attempts ⟨rfl, rfl⟩
    · simp only [act, if_neg hj]
      exact .refl

theorem sound_act {c : Cache} (h : Work.Sound .any ⟨c, []⟩) (a : Action) : Work.Sound .any ⟨c.act a, []⟩ := by
  rcases moves_act h.stores a with ⟨handle, config, he⟩ | hm
  · exact he ▸ h.addStore handle config
  · exact (Moves.mono (fun _ _ _ _ _ => trivial) hm).sound h

theorem sound_acts {c : Cache} (h : Work.Sound .any ⟨c, []⟩) (l : List Action) : Work.Sound .any ⟨c.acts l, []⟩ := by
  induction l generalizing c with
  | nil => exact h
  | cons a r ih => exact ih (sound_act h a)

/-! ### Blocks in flight and the jobs of the queue -/

/-- Blocks in flight and the jobs that wait or run account for each other. -/
structure Accounted (c : Cache) : Prop where
  /-- A block of a store is in flight for a job number if and only if exactly one job has that number, and it
      lists the block. -/
  inFlight_iff : ∀ i s, c.stores[i]? = some s → ∀ b ∈ s.blocks ++ s.retired, ∀ n,
    b.state = .inFlight n ↔ ∃! j, j ∈ c.queue.jobs ∧ j.id = n ∧ j.store = i ∧ b.id ∈ j.blocks
  /-- No two jobs share a number. -/
  ids : (c.queue.jobs.map (·.id)).Nodup
  /-- No block is listed by two jobs. -/
  once : ∀ j ∈ c.queue.jobs, ∀ k ∈ c.queue.jobs, j.store = k.store → ∀ id, id ∈ j.blocks → id ∈ k.blocks → j = k
  /-- Every block that a job lists is in flight for it. -/
  listed : ∀ j ∈ c.queue.jobs, ∃ s, c.stores[j.store]? = some s ∧
    ∀ id ∈ j.blocks, ∃ b ∈ s.blocks, b.id = id ∧ b.state = .inFlight j.id

end Cache

section Accounted
variable {C : Contents} {c : Cache}

theorem Work.Sound.accounted (h : Work.Sound C ⟨c, []⟩) : c.Accounted where
  inFlight_iff i s hs b hb n := by
    have hsound := h.stores hs
    constructor
    · intro hst
      -- An evicted block is not in flight, so that the block is tracked.
      have hmem : b ∈ s.blocks := by
        rcases List.mem_append.mp hb with hm | hm
        · exact hm
        · have := hsound.retired b hm
          rw [hst] at this
          cases this
      obtain ⟨j, hj, hid, hi, hlist⟩ := h.ledger.owned hs ⟨b, hmem, rfl, rfl, hst⟩
      exact ⟨j, ⟨hj, hid, hi, hlist⟩, fun k hk => h.ledger.eq_of_id hk.1 hj (hk.2.1.trans hid.symm)⟩
    · rintro ⟨j, ⟨hj, rfl, rfl, hlist⟩, -⟩
      obtain ⟨t, ht, hcar⟩ := h.ledger.carried j hj
      rw [hs] at ht
      cases ht
      obtain ⟨span, ⟨x, hx, hid, -, hst⟩, -⟩ := hcar.owns hlist
      exact hsound.eq_of_id (List.mem_append_left _ hx) hb hid ▸ hst
  ids := h.ledger.ids
  once j hj k hk hjk id hid hid' := by
    obtain ⟨s, hs, hcar⟩ := h.ledger.carried j hj
    obtain ⟨t, ht, hcar'⟩ := h.ledger.carried k hk
    rw [← hjk, hs] at ht
    cases ht
    obtain ⟨u, hu, -⟩ := hcar.owns hid
    obtain ⟨v, hv, -⟩ := hcar'.owns hid'
    exact h.ledger.eq_of_id hj hk (hu.unique (h.stores hs) hv).1
  listed j hj := by
    obtain ⟨s, hs, hcar⟩ := h.ledger.carried j hj
    refine ⟨s, hs, fun id hid => ?_⟩
    obtain ⟨span, ⟨b, hb, hbid, -, hst⟩, -⟩ := hcar.owns hid
    exact ⟨b, hb, hbid, hst⟩

/-- Whatever is done to a cache, also when a request fails because the queue is full: blocks in flight and
    the jobs that wait or run account for each other. -/
theorem accounted_acts (config : QueueConfig) (l : List Cache.Action) : ((Cache.new config).acts l).Accounted :=
  (Cache.sound_acts (.new .any config) l).accounted

end Accounted

end RangeCache
