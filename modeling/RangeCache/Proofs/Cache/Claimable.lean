import Mathlib.Algebra.GroupWithZero.Nat
import RangeCache.Proofs.Cache.Shape

/-!
# How many blocks are left to claim

Whoever waits for a block that nobody fetches claims it, so that one less is left (`claimable_poll`), and a block that
gets its bytes is not left again (`claimable_finish`). So nobody can claim blocks for ever, as long as none is given
back and no new ones are made.
-/

namespace RangeCache

/-- The number of tracked blocks that nobody fetches and whose bytes are not there. -/
def Store.claimable (s : Store) : Nat := s.blocks.countP fun b => b.state.isClaimable

def Cache.claimable (c : Cache) : Nat := (c.stores.map Store.claimable).sum

theorem sum_map_modify {α : Type} {l : List α} {i : Nat} {a : α} (h : l[i]? = some a) (f : α → α) (g : α → Nat) :
    ((l.modify i f).map g).sum + g a = (l.map g).sum + g (f a) := by
  induction l generalizing i with
  | nil => cases h
  | cons x l ih =>
    cases i with
    | zero =>
      cases h
      simp only [List.modify_zero_cons, List.map_cons, List.sum_cons]
      omega
    | succ i =>
      have := ih (i := i) h
      simp only [List.modify_succ_cons, List.map_cons, List.sum_cons]
      omega

namespace Store
variable {s t : Store}

theorem Mapped.claimable_le {g : Block → Block} (h : s.Mapped g t)
    (hg : ∀ b ∈ s.blocks, (g b).state.isClaimable = true → b.state.isClaimable = true) : t.claimable ≤ s.claimable := by
  unfold claimable
  rw [h.blocks, List.countP_map]
  exact List.countP_mono_left hg

theorem Mapped.claimable_lt {g : Block → Block} (h : s.Mapped g t)
    (hg : ∀ b ∈ s.blocks, (g b).state.isClaimable = true → b.state.isClaimable = true) {b : Block} (hb : b ∈ s.blocks)
    (hst : b.state.isClaimable = true) (hgst : (g b).state.isClaimable = false) : t.claimable < s.claimable := by
  unfold claimable
  rw [h.blocks, List.countP_map]
  obtain ⟨l, r, hl⟩ := List.append_of_mem hb
  rw [hl] at hg ⊢
  have hleft := List.countP_mono_left (l := l) fun x hx => hg x (List.mem_append_left _ hx)
  have hright := List.countP_mono_left (l := r) fun x hx => hg x (List.mem_append_right _ (List.mem_cons_of_mem _ hx))
  simp only [List.countP_append, List.countP_cons, hst, hgst, if_true, Bool.false_eq_true,
    if_false, Function.comp_def] at hleft hright ⊢
  omega

theorem sublist_evictFrom (s : Store) (l : List Block) : (s.evictFrom l).blocks.Sublist s.blocks := by
  induction l generalizing s with
  | nil => exact .refl _
  | cons b r ih =>
    unfold evictFrom
    split
    · exact .refl _
    · refine (ih _).trans ?_
      rcases s.evictOne_eq b with he | ⟨-, -, he⟩ <;> rw [he]
      exact List.filter_sublist

theorem claimable_evict (s : Store) : s.evict.claimable ≤ s.claimable := (sublist_evictFrom s _).countP_le

theorem claimable_complete (hs : s.Sound) (job : Nat) (ids : List Nat) (start : Nat) (data : Bytes) :
    (s.complete job ids start data).claimable ≤ s.claimable := by
  refine (mapped_complete hs job ids start data).claimable_le fun b _ hst => ?_
  by_cases hi : b.id ∈ ids
  · rw [if_pos hi, delivered_state] at hst
    split at hst
    · cases hst
    · exact hst
  · rwa [if_neg hi] at hst

theorem claimable_claim (hs : s.Sound) (job : Nat) {ids : List Nat} {b : Block} (hb : b ∈ s.blocks) (hid : b.id ∈ ids)
    (hst : b.state.isClaimable = true) : (s.claim job ids).claimable < s.claimable := by
  refine (mapped_claim hs job ids).claimable_lt (fun x _ hx => ?_) hb hst ?_
  · by_cases hi : x.id ∈ ids
    · rw [if_pos hi, tryOn_claim?_state] at hx
      split at hx
      · cases hx
      · exact hx
    · rwa [if_neg hi] at hx
  · rw [if_pos hid, tryOn_claim?_state, if_pos hst]
    rfl

end Store

namespace Cache
variable {c c' : Cache} {i id : Nat} {owner : Option Nat}

theorem claimable_modifyStore {f : Store → Store} {s : Store} (hs : c.stores[i]? = some s) :
    (c.modifyStore i f).claimable + s.claimable = c.claimable + (f s).claimable := sum_map_modify hs f Store.claimable

theorem claimable_modifyStore_le {f : Store → Store}
    (hf : ∀ s, c.stores[i]? = some s → (f s).claimable ≤ s.claimable) : (c.modifyStore i f).claimable ≤ c.claimable := by
  cases hs : c.stores[i]? with
  | none => rw [modifyStore_of_none hs]
  | some s =>
    have h := claimable_modifyStore (f := f) hs
    have hle := hf s hs
    omega

/-- A job that brings bytes leaves no more to claim than there was. -/
theorem claimable_finish (hc : c.StoresSound) (j : Job) (n : Nat) (data : Bytes) :
    (c.finish j n (.ok data)).claimable ≤ c.claimable := by
  have hcomplete : (c.settle j n (.ok data)).pump.claimable ≤ c.claimable :=
    claimable_modifyStore_le (c := { c with queue := c.queue.finish j n false })
      fun s hs => Store.claimable_complete (hc hs) _ _ _ _
  exact Nat.le_trans (claimable_modifyStore_le fun s _ => s.claimable_evict) hcomplete

theorem claimable_submit {j : Job} (hj : j.priority = .immediate) {n : Nat} (h : c.submit [j] 0 = (c', .ok n)) :
    c'.claimable ≤ c.claimable := by
  have hmiss : (c.modifyStore j.store fun s => { s with misses := s.misses + j.blocks.length }).claimable ≤
      c.claimable := claimable_modifyStore_le fun s _ => by exact Nat.le_refl s.claimable
  unfold submit at h
  generalize c.modifyStore j.store (fun s => { s with misses := s.misses + j.blocks.length }) = c₁ at h hmiss
  dsimp only at h
  split at h
  · simp [hj] at h
  · simp only [submit, Prod.mk.injEq] at h
    rw [← h.1]
    have hfetch : (({ c₁ with queue := c₁.queue.enqueue j }.pump).modifyStore j.store fun s =>
        { s with fetches := s.fetches + 1 }).claimable ≤ c₁.claimable :=
      claimable_modifyStore_le (c := { c₁ with queue := c₁.queue.enqueue j }.pump) fun s _ => by
        exact Nat.le_refl s.claimable
    exact Nat.le_trans hfetch hmiss

/-- Whoever has to wait for a block finds it on its way, or claims it. -/
theorem claimable_poll (hc : c.StoresSound) (h : c.poll i id owner = (c', .waiting ())) :
    c' = c ∨ c'.claimable < c.claimable := by
  unfold poll at h
  cases hs : c.stores[i]? with
  | none => simp [hs] at h
  | some s =>
    cases hb : s.block? id with
    | none => simp [hs, hb] at h
    | some b =>
      cases hst : b.state with
      | inFlight n =>
        simp only [hs, hb, hst, Prod.mk.injEq] at h
        exact Or.inl h.1.symm
      | pending =>
        have hmem := Store.mem_blocks_of_block? (hc hs) hb (by simp [hst])
        have hclaim : (c.claimRuns i s.handle.key .immediate owner [[b]]).1.claimable < c.claimable := by
          have hlt := Store.claimable_claim (hc hs) c.queue.nextJob hmem (List.mem_singleton_self b.id) (by rw [hst]; rfl)
          have hsum := claimable_modifyStore (c := { c with queue := c.queue.takeId.1 }) hs
            (f := fun s => s.claim c.queue.nextJob [b.id])
          exact Nat.lt_of_add_lt_add_right (hsum ▸ Nat.add_lt_add_left hlt _)
        simp only [hs, hb, hst] at h
        split at h
        · rename_i heq
          simp only [Prod.mk.injEq] at h
          rw [← h.1]
          exact Or.inr (Nat.lt_of_le_of_lt (claimable_submit rfl heq) hclaim)
        · simp at h
      | _ => simp [hs, hb, hst] at h

/-- A read that goes on and has to wait again has fewer blocks to wait for, or it is where it was. -/
theorem claimable_resumeRead (hc : c.StoresSound) {r r' : Reading} (h : (c.resumeRead r).2 = .waiting r') :
    r'.todo.length < r.todo.length ∨
      r' = r ∧ ((c.resumeRead r).1 = c ∨ (c.resumeRead r).1.claimable < c.claimable) := by
  unfold resumeRead at h ⊢
  obtain ⟨i, span, owner, pinned, todo, bytes⟩ := r
  cases todo with
  | nil => cases h
  | cons id rest =>
    dsimp only at h ⊢
    unfold readFrom at h ⊢
    rcases hpoll : c.poll i id owner with ⟨c', p⟩
    simp only [hpoll] at h ⊢
    cases p with
    | waiting _ =>
      cases h
      exact Or.inr ⟨rfl, claimable_poll hc hpoll⟩
    | done result =>
      cases result with
      | error f => cases h
      | ok b =>
        dsimp only at h
        split at h
        · cases h
        · obtain ⟨todo, bytes, rfl, hsuffix⟩ := further_of_readFrom h
          exact Or.inl (Nat.lt_succ_of_le hsuffix.length_le)

end Cache

end RangeCache
