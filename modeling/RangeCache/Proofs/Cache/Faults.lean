import RangeCache.Proofs.Cache.Grants

/-!
# Why reads fail

A read whose blocks are tracked fails for one of two reasons: the queue is full when it has to request a block, or the
last fetch of a block that it needs failed (`fault_of_resumeRead`). It never finds a block that was evicted. A read that
begins claims the blocks whose last fetch failed, so that only the first reason is left (`fault_of_beginRead`).
-/

namespace RangeCache

/-- A fault that tells that the queue is full. -/
def Fault.IsFull (f : Fault) : Prop := ∃ waiting limit, f = .capacityExceeded waiting limit

namespace Cache

/-! ### Requests -/

section Requests
variable {c : Cache} {i id : Nat} {f : Fault}

theorem isFull_of_submit {jobs : List Job} {n : Nat} (h : (c.submit jobs n).2 = .error f) : f.IsFull := by
  induction jobs generalizing c n with
  | nil => cases h
  | cons j r ih =>
    unfold submit at h
    dsimp only at h
    split at h
    · cases hp : j.priority with
      | speculative =>
        rw [hp] at h
        exact ih h
      | immediate =>
        rw [hp] at h
        cases h
        exact ⟨_, _, rfl⟩
    · exact ih h

theorem isFull_of_dispatch {jobs : List Job} {others : List Nat} {priority : Priority}
    (h : (c.dispatch jobs others priority).2 = .error f) : f.IsFull := by
  unfold dispatch at h
  cases priority with
  | immediate => exact isFull_of_submit h
  | speculative => exact isFull_of_submit h

/-- Whoever needs a tracked block and cannot have it finds the queue full, or its last fetch failed. -/
theorem fault_of_poll (hc : c.StoresSound) {n : Nat} (hp : c.Pinned i id n) (owner : Option Nat)
    (h : (c.poll i id owner).2 = .done (.error f)) : c.FailedWith i id f ∨ f.IsFull := by
  obtain ⟨s, b, hs, hb, hid, hblock⟩ := block?_of_pinned hc hp
  unfold poll at h
  rw [hs] at h
  dsimp only at h
  rw [hblock] at h
  dsimp only at h
  cases hst : b.state with
  | ready bytes =>
    rw [hst] at h
    cases h
  | failed g =>
    rw [hst] at h
    cases h
    exact Or.inl ⟨s, hs, b, hb, hid, hst⟩
  | evicted => exact absurd hst ((hc hs).tracked b hb)
  | inFlight n =>
    rw [hst] at h
    cases h
  | pending =>
    rw [hst] at h
    dsimp only at h
    split at h
    · cases h
    · rename_i heq
      cases h
      exact Or.inr (isFull_of_dispatch (congrArg Prod.snd heq))

end Requests

/-! ### Reads -/

section Reads
variable {c : Cache} {i : Nat} {r : Reading} {f : Fault}

theorem FailedWith.of_tick {k id j : Nat} (h : (c.modifyStore i fun s => s.tick.touch j).FailedWith k id f) :
    c.FailedWith k id f := by
  obtain ⟨t, ht, x, hx, hid, hst⟩ := h
  rcases getElem?_modifyStore_cases ht with ⟨rfl, s, hs, rfl⟩ | ⟨-, hs⟩
  · obtain ⟨b, hb, rfl⟩ := (Store.mapped_touch s.tick j).mem_iff.mp hx
    refine ⟨s, hs, b, hb, ?_, ?_⟩
    · rw [← hid]
      split <;> rfl
    · rw [← hst]
      split <;> rfl
  · exact ⟨t, hs, x, hx, hid, hst⟩

/-- A read that needs pinned blocks fails only with the fault of one of them, or because the queue is full. -/
theorem fault_of_readFrom (hc : c.StoresSound) {got : Bytes} {todo : List Nat}
    (hp : ∀ id ∈ todo, c.Pinned r.store id 1) (h : (c.readFrom r got todo).2 = .done (.error f)) :
    (∃ id ∈ todo, c.FailedWith r.store id f) ∨ f.IsFull := by
  induction todo generalizing c got with
  | nil => cases h
  | cons id rest ih =>
    have hfault := fault_of_poll (f := f) hc (hp id List.mem_cons_self) r.owner
    unfold readFrom at h
    rcases hpoll : c.poll r.store id r.owner with ⟨c', p⟩
    rw [hpoll] at h hfault
    cases p with
    | waiting _ => cases h
    | done result =>
      cases result with
      | error g =>
        cases h
        exact (hfault rfl).imp_left fun hfailed => ⟨id, List.mem_cons_self, hfailed⟩
      | ok bytes =>
        obtain ⟨rfl, s, b, hs, hb, -⟩ := eq_of_poll_done hpoll
        have hfind : (c'.stores[r.store]?).bind (·.block? id) = some b := by rw [hs]; exact hb
        dsimp only at h
        rw [hfind] at h
        have hquiet := quiet_tick (c := c') r.store id
        refine (ih (hquiet.storesSound hc) (fun id' hid' => ?_) h).imp_left ?_
        · exact hquiet.keepsPins hc Nat.one_pos (hp id' (List.mem_cons_of_mem _ hid'))
        · rintro ⟨id', hid', hfailed⟩
          exact ⟨id', List.mem_cons_of_mem _ hid', hfailed.of_tick⟩

theorem fault_of_resumeRead (hc : c.StoresSound) (hp : ∀ id ∈ r.todo, c.Pinned r.store id 1)
    (h : (c.resumeRead r).2 = .done (.error f)) : (∃ id ∈ r.todo, c.FailedWith r.store id f) ∨ f.IsFull :=
  fault_of_readFrom hc hp h

/-- A read of an object fails at its beginning only because the queue is full. -/
theorem fault_of_beginRead (hc : c.StoresSound) (hi : i < c.stores.length) {span : Span} {fit : Fit}
    {owner : Option Nat} (h : (c.beginRead i span fit owner).2 = .done (.error f)) : f.IsFull := by
  have hs := List.getElem?_eq_getElem hi
  cases hspan : (span.clamp c.stores[i].handle.size).isEmpty with
  | true =>
    rw [beginRead_of_isEmpty hs hspan] at h
    cases h
  | false =>
    obtain ⟨c₁, jobs, others, ids, hc₁, -, hpins, hopens, he⟩ := exists_beginRead_ready hc hs hspan fit owner
    rw [he] at h
    rcases hd : c₁.dispatch jobs others .immediate with ⟨c₂, result⟩
    rw [hd] at h hpins hopens
    cases result with
    | error g =>
      cases h
      exact isFull_of_dispatch (congrArg Prod.snd hd)
    | ok n =>
      have hc₂ := (quiet_dispatch (c := c₁) jobs others .immediate).storesSound hc₁
      rw [hd] at hc₂
      rcases fault_of_resumeRead (r := ⟨i, _, owner, ids, ids, []⟩) hc₂ hpins h with
        ⟨id, hid, s, hs, b, hb, hbid, hst⟩ | hfull
      · exact absurd hst (hopens.unfailed id hid s hs b hb hbid f)
      · exact hfull

end Reads

end Cache

end RangeCache
