import RangeCache.Proofs.Cache.Moves
import RangeCache.Proofs.Store.Pins

/-!
# Quiet updates

All that can happen to a store while no read begins or ends: blocks are made, claimed, given back, failed, completed
and touched, and evicted to fit the budget. A job that completes blocks evicts others at once, so that both together
are one update. Quiet updates keep a store sound and its pins as they are.
-/

namespace RangeCache.Store

open Relation

/-- An update that neither pins a block nor takes a pin back. -/
inductive Quiet (s : Store) : Store → Prop where
  | grow {t : Store} (h : Grown s t) : Quiet s t
  | claim (job : Nat) (ids : List Nat) : Quiet s (s.claim job ids)
  | revert (job : Nat) (ids : List Nat) : Quiet s (s.revert job ids)
  | fail (job : Nat) (ids : List Nat) (f : Fault) : Quiet s (s.fail job ids f)
  | deliver (job : Nat) (ids : List Nat) (start : Nat) (data : Bytes) :
      Quiet s (s.complete job ids start data).evict
  | touch (id : Nat) : Quiet s (s.touch id)
  | count (hits misses fetches clock : Nat) : Quiet s { s with hits, misses, fetches, clock }
  | evict : Quiet s s.evict

/-- Any number of quiet updates. -/
abbrev Quietly : Store → Store → Prop := ReflTransGen Quiet

section Quiet
variable {s t : Store}

theorem Sound.complete (h : s.Sound) (job : Nat) (ids : List Nat) (start : Nat) (data : Bytes) :
    (s.complete job ids start data).Sound :=
  h.settleBlocks { (default : Job) with id := job, blocks := ids, span := ⟨start, start⟩ } (.ok data)

theorem Sound.fail (h : s.Sound) (job : Nat) (ids : List Nat) (f : Fault) : (s.fail job ids f).Sound :=
  h.settleBlocks { (default : Job) with id := job, blocks := ids } (.error f)

theorem Quiet.sound (h : s.Quiet t) (hs : s.Sound) : t.Sound := by
  cases h with
  | grow h => exact h.sound hs
  | claim job ids => exact hs.claim job ids
  | revert job ids => exact hs.revert job ids
  | fail job ids f => exact hs.fail job ids f
  | deliver job ids start data =>
    have hs' := hs.complete job ids start data
    exact (edits_evict hs').sound hs'
  | touch id => exact (Edit.touch id).sound hs
  | count => exact (Edit.count _ _ _ _).sound hs
  | evict => exact (edits_evict hs).sound hs

theorem Quiet.samePins (h : s.Quiet t) (hs : s.Sound) : s.SamePins t := by
  cases h with
  | grow h => exact h.samePins
  | claim job ids => exact samePins_claim hs job ids
  | revert job ids => exact samePins_revert hs job ids
  | fail job ids f => exact samePins_fail hs job ids f
  | deliver job ids start data =>
    exact (samePins_complete hs job ids start data).trans (samePins_evict (hs.complete job ids start data))
  | touch id => exact samePins_touch s id
  | count hits misses fetches clock => exact samePins_count s hits misses fetches clock
  | evict => exact samePins_evict hs

theorem Quietly.sound (h : s.Quietly t) (hs : s.Sound) : t.Sound := by
  induction h with
  | refl => exact hs
  | tail _ hq ih => exact hq.sound ih

theorem Quietly.samePins (h : s.Quietly t) (hs : s.Sound) : s.SamePins t := by
  induction h with
  | refl => exact .refl s
  | tail h hq ih => exact ih.trans (hq.samePins (Quietly.sound h hs))

end Quiet

end RangeCache.Store
