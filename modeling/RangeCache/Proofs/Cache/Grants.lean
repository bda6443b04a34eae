import RangeCache.Proofs.Cache.Failures
import RangeCache.Proofs.Cache.Pins

/-!
# Requests that are granted

A request fails only when the queue is full, which is counted (`granted_ensure`). A read pins its blocks, and after it
claimed them none of them is one whose last fetch failed; so unless a job fails meanwhile, or a request is rejected, the
read goes on until it has its bytes (`proceeds_beginRead`, `proceeds_resumeRead`).
-/

namespace RangeCache

open Relation

/-- A store without its counts of blocks that were missed and of jobs. -/
def Store.uncounted (s : Store) : Store := { s with misses := 0, fetches := 0 }

namespace Cache

/-- A request was granted: all of its jobs are in the queue, and the stores are as they were but for the counts of
    what was asked for. -/
structure Granted (c : Cache) (n : Nat) (answer : Cache × Except Fault Nat) : Prop where
  result : answer.2 = .ok n
  stores : answer.1.stores.map Store.uncounted = c.stores.map Store.uncounted

/-- A read as it stands when it began: the blocks that it needs overlap its span, and the last fetch of none of them
    failed. -/
structure Opens (c : Cache) (r : Reading) : Prop where
  meets : c.Meets r
  unfailed : ∀ id ∈ r.todo, c.Unfailed r.store id

/-- A read has its bytes, or waits for blocks none of which is one whose last fetch failed. -/
def Proceeds (c : Cache) : Progress Reading → Prop
  | .waiting r => ∀ id ∈ r.todo, c.Unfailed r.store id
  | .done r => isFailure r = false

end Cache

namespace Cache

/-! ### Requests -/

section Requests
variable {c : Cache} {i id : Nat} {owner : Option Nat}

/-- A request for jobs is granted unless one of them is rejected. -/
theorem granted_submit {jobs : List Job} {n : Nat} (h : (c.submit jobs n).1.queue.rejected = c.queue.rejected) :
    c.Granted (n + jobs.length) (c.submit jobs n) := by
  induction jobs generalizing c n with
  | nil => exact ⟨rfl, rfl⟩
  | cons j r ih =>
    unfold submit at h ⊢
    have hqueue : (c.modifyStore j.store fun s => { s with misses := s.misses + j.blocks.length }).queue = c.queue := rfl
    have hmiss := map_modifyStore (c := c) (i := j.store) (g := Store.uncounted)
      (f := fun s => { s with misses := s.misses + j.blocks.length }) fun _ _ => rfl
    rw [← hqueue] at h
    generalize c.modifyStore j.store (fun s => { s with misses := s.misses + j.blocks.length }) = c' at h hmiss ⊢
    dsimp only at h ⊢
    split at h
    · -- The queue is full, and this is counted for good.
      cases hp : j.priority with
      | speculative =>
        rw [hp] at h
        have hle := (moves_submit (A := fun _ _ => False) (c := revertJob
          { c' with queue := { c'.queue with rejected := c'.queue.rejected + 1 } } j) r n).rejected_le
        exact absurd (h ▸ hle) (Nat.not_succ_le_self _)
      | immediate =>
        rw [hp] at h
        have hle := (moves_revertAll (A := fun _ _ => False) (L := []) (c :=
          { c' with queue := { c'.queue with rejected := c'.queue.rejected + 1 } }) (j :: r)).rejected_le
        exact absurd (h ▸ hle) (Nat.not_succ_le_self _)
    · rename_i hfull
      rw [if_neg hfull]
      have hfetch := map_modifyStore (c := { c' with queue := c'.queue.enqueue j }.pump) (i := j.store)
        (g := Store.uncounted) (f := fun s => { s with fetches := s.fetches + 1 }) fun _ _ => rfl
      obtain ⟨hresult, hstores⟩ := ih (n := n + 1) (h.trans (FetchQueue.rejected_pump (c'.queue.enqueue j)).symm)
      refine ⟨hresult.trans ?_, hstores.trans (hfetch.trans hmiss)⟩
      rw [List.length_cons, Nat.add_right_comm, Nat.add_assoc]

theorem granted_dispatch (jobs : List Job) (others : List Nat) (priority : Priority)
    (h : (c.dispatch jobs others priority).1.queue.rejected = c.queue.rejected) :
    c.Granted jobs.length (c.dispatch jobs others priority) := by
  have hpromote := (moves_promoteAll (A := fun _ _ => False) (c := c) (L := []) others).rejected_le
  have hsubmit := fun c : Cache => (moves_submit (A := fun _ _ => False) (c := c) jobs 0).rejected_le
  rw [← Nat.zero_add jobs.length]
  unfold dispatch at h ⊢
  cases priority with
  | immediate =>
    have hgranted := granted_submit (Nat.le_antisymm (h ▸ hpromote) (hsubmit _))
    exact ⟨hgranted.result, hgranted.stores⟩
  | speculative => exact granted_submit h

/-- A request for spans is granted unless one of its jobs is rejected. -/
theorem granted_ensure (hc : c.StoresSound) {spans : List Span} {fit : Fit} {priority : Priority}
    (h : (c.ensure i spans fit priority owner).1.queue.rejected = c.queue.rejected) :
    (c.claim i spans fit priority owner).1.Granted (c.claim i spans fit priority owner).2.1.length
      (c.ensure i spans fit priority owner) := by
  have hclaim := (moves_claim (A := fun _ _ => False) hc i spans fit priority owner).rejected_le
  unfold ensure at h ⊢
  generalize c.claim i spans fit priority owner = claimed at h hclaim ⊢
  obtain ⟨c₁, jobs, others⟩ := claimed
  have hdispatch := (moves_dispatch (A := fun _ _ => False) (c := c₁) jobs others priority).rejected_le
  exact granted_dispatch _ _ _ (Nat.le_antisymm (h ▸ hclaim) hdispatch)

theorem block?_of_pinned (hc : c.StoresSound) {n : Nat} (h : c.Pinned i id n) :
    ∃ s b, c.stores[i]? = some s ∧ b ∈ s.blocks ∧ b.id = id ∧ s.block? id = some b := by
  obtain ⟨s, hs, b, hb, rfl, -⟩ := h
  refine ⟨s, b, hs, hb, rfl, ?_⟩
  simp [Store.block?, Store.find?_eq_some_of_mem (hc hs).ids_tracked hb]

/-- A block that is tracked and did not fail is there, or on its way, or is fetched now. -/
theorem isFailure_of_poll (hc : c.StoresSound) {n : Nat} (hp : c.Pinned i id n) (hu : c.Unfailed i id)
    (owner : Option Nat) (hr : (c.poll i id owner).1.queue.rejected = c.queue.rejected) {result : Except Fault Bytes}
    (h : (c.poll i id owner).2 = .done result) : isFailure result = false := by
  obtain ⟨s, b, hs, hb, hid, hblock⟩ := block?_of_pinned hc hp
  unfold poll at h hr
  rw [hs] at h hr
  dsimp only at h hr
  rw [hblock] at h hr
  dsimp only at h hr
  cases hst : b.state with
  | ready bytes =>
    rw [hst] at h
    cases h
    rfl
  | failed f => exact absurd hst (hu s hs b hb hid f)
  | evicted => exact absurd hst ((hc hs).tracked b hb)
  | inFlight n =>
    rw [hst] at h
    cases h
  | pending =>
    rw [hst] at h hr
    dsimp only at h hr
    split at h
    · cases h
    · rename_i c' f heq
      rw [heq] at hr
      have hgranted := granted_dispatch (c := (c.claimRuns i s.handle.key .immediate owner [[b]]).1)
        (c.claimRuns i s.handle.key .immediate owner [[b]]).2 [] .immediate (by rw [heq]; exact hr)
      rw [heq] at hgranted
      cases hgranted.result

end Requests

/-! ### Reads -/

section Reads
variable {c : Cache} {i : Nat} {owner : Option Nat} {r : Reading}

theorem rejected_le_endRead (hc : c.StoresSound) (r : Reading) (result : Except Fault Bytes) :
    c.queue.rejected ≤ (c.endRead r result).queue.rejected :=
  (moves_endRead (A := fun _ _ => False) hc r result).rejected_le

/-- A read whose blocks are pinned and did not fail goes on. -/
theorem proceeds_readFrom (hc : c.StoresSound) {got : Bytes} {todo : List Nat}
    (h : ∀ id ∈ todo, c.Pinned r.store id 1 ∧ c.Unfailed r.store id)
    (hr : (c.readFrom r got todo).1.queue.rejected = c.queue.rejected) :
    (c.readFrom r got todo).1.Proceeds (c.readFrom r got todo).2 := by
  induction todo generalizing c got with
  | nil => rfl
  | cons id rest ih =>
    have hmoves := moves_poll (A := fun _ _ => False) hc r.store id r.owner
    have hc' := hmoves.storesSound hc
    obtain ⟨hp, hu⟩ := h id List.mem_cons_self
    have hok := isFailure_of_poll hc hp hu r.owner
    unfold readFrom at hr ⊢
    rcases hpoll : c.poll r.store id r.owner with ⟨c', p⟩
    rw [hpoll] at hmoves hc' hok hr
    cases p with
    | waiting _ => exact fun id hid => hmoves.unfailed (fun _ _ => False.elim) hc (h id hid).2
    | done result =>
      cases result with
      | error f =>
        have hle : c'.queue.rejected ≤ c.queue.rejected := hr ▸ rejected_le_endRead hc' r (.error f)
        exact hok (Nat.le_antisymm hle hmoves.rejected_le) rfl
      | ok bytes =>
        obtain ⟨rfl, s, b, hs, hb, hst⟩ := eq_of_poll_done hpoll
        have hfind : (c'.stores[r.store]?).bind (·.block? id) = some b := by rw [hs]; exact hb
        dsimp only at hr ⊢
        rw [hfind] at hr ⊢
        have htouch := moves_touch (A := fun _ _ => False) (L := []) (c := c') r.store id
        have hkeep : c'.KeepsPins (c'.modifyStore r.store fun s => s.tick.touch id) :=
          (quiet_tick r.store id).keepsPins hc
        refine ih (htouch.storesSound hc) (fun id' hid' => ?_) hr
        obtain ⟨hp', hu'⟩ := h id' (List.mem_cons_of_mem _ hid')
        exact ⟨hkeep Nat.one_pos hp', htouch.unfailed (fun _ _ => False.elim) hc hu'⟩

/-- A read that waits goes on, unless one of its blocks failed. -/
theorem proceeds_resumeRead (hc : c.StoresSound) (h : ∀ id ∈ r.todo, c.Pinned r.store id 1 ∧ c.Unfailed r.store id)
    (hr : (c.resumeRead r).1.queue.rejected = c.queue.rejected) :
    (c.resumeRead r).1.Proceeds (c.resumeRead r).2 := proceeds_readFrom hc h hr

/-- When the request of a read that begins was granted, the read holds pins of its blocks, and it has claimed those of
    them that failed before. -/
theorem exists_beginRead_ready (hc : c.StoresSound) {s : Store} (hs : c.stores[i]? = some s) {span : Span}
    (hspan : (span.clamp s.handle.size).isEmpty = false) (fit : Fit) (owner : Option Nat) :
    ∃ (c' : Cache) (jobs : List Job) (others ids : List Nat), c'.StoresSound ∧
      c.queue.rejected ≤ c'.queue.rejected ∧
      (∀ id ∈ ids, (c'.dispatch jobs others .immediate).1.Pinned i id 1) ∧
      (c'.dispatch jobs others .immediate).1.Opens ⟨i, span.clamp s.handle.size, owner, ids, ids, []⟩ ∧
      c.beginRead i span fit owner = match c'.dispatch jobs others .immediate with
        | (c, .ok _) => c.resumeRead ⟨i, span.clamp s.handle.size, owner, ids, ids, []⟩
        | (c, .error f) =>
          (c.endRead ⟨i, span.clamp s.handle.size, owner, ids, ids, []⟩ (.error f), .done (.error f)) := by
  obtain ⟨c₁, jobs, others, ids, hc₁, hle, hmeets, hpins, hclaimed, he⟩ := exists_beginRead hc hs hspan fit owner
  have hdispatch := moves_dispatch (A := fun _ _ => False) (c := c₁) jobs others .immediate
  have hmeets := hmeets.mono (hdispatch.extends hc₁)
  refine ⟨c₁, jobs, others, ids, hc₁, hle, fun id hid => ?_, ⟨hmeets, fun id hid => ?_⟩, he⟩
  · have hkeep := (quiet_dispatch jobs others .immediate).keepsPins hc₁
    have hcount := List.count_pos_iff.mpr hid
    have hp := hpins (fun _ _ => 0) (fun _ _ h => absurd h (Nat.lt_irrefl 0)) i id
    simp only [Nat.zero_add, Reading.holds, if_true] at hp
    obtain ⟨t, ht, b, hb, hbid, hn⟩ := hp hcount
    exact hkeep Nat.one_pos ⟨t, ht, b, hb, hbid, Nat.le_trans hcount hn⟩
  · refine hdispatch.unfailed (fun _ _ => False.elim) hc₁ fun t ht b hb hbid f hf => ?_
    have := hclaimed t ht b hb (hbid ▸ hid)
    rw [hf] at this
    cases this

/-- A read that begins goes on: it claims those of its blocks that failed before. -/
theorem proceeds_beginRead (hc : c.StoresSound) (hi : i < c.stores.length) (span : Span) (fit : Fit) (owner : Option Nat)
    (hr : (c.beginRead i span fit owner).1.queue.rejected = c.queue.rejected) :
    (c.beginRead i span fit owner).1.Proceeds (c.beginRead i span fit owner).2 := by
  have hs := List.getElem?_eq_getElem hi
  cases hspan : (span.clamp c.stores[i].handle.size).isEmpty with
  | true =>
    rw [beginRead_of_isEmpty hs hspan]
    rfl
  | false =>
    obtain ⟨c₁, jobs, others, ids, hc₁, hle, hpins, hopens, he⟩ := exists_beginRead_ready hc hs hspan fit owner
    rw [he] at hr ⊢
    have hdispatch := moves_dispatch (A := fun _ _ => False) (c := c₁) jobs others .immediate
    have hc₂ := hdispatch.storesSound hc₁
    have hle' := hdispatch.rejected_le
    have hok := granted_dispatch (c := c₁) jobs others .immediate
    rcases hd : c₁.dispatch jobs others .immediate with ⟨c₂, result⟩
    rw [hd] at hr hc₂ hle' hok hpins hopens
    have hle₂ : c.queue.rejected ≤ c₂.queue.rejected := Nat.le_trans hle hle'
    cases result with
    | ok n =>
      refine proceeds_resumeRead (r := ⟨i, _, owner, ids, ids, []⟩) hc₂
        (fun id hid => ⟨hpins id hid, hopens.unfailed id hid⟩) (Nat.le_antisymm ?_ ?_)
      · exact hr ▸ hle₂
      · exact (moves_resumeRead (A := fun _ _ => False) hc₂ _).rejected_le
    | error f =>
      -- The request was not granted, and this is counted.
      have hend : c₂.queue.rejected ≤ c.queue.rejected := hr ▸ rejected_le_endRead hc₂ _ _
      cases (hok (Nat.le_antisymm (Nat.le_trans hend hle) hle')).result

theorem Opens.moves (h : c.Opens r) (hc : c.StoresSound) {c' : Cache}
    (hm : Moves (fun _ _ => False) ⟨c, []⟩ ⟨c', []⟩) {r' : Reading} (hr : r.Further r') : c'.Opens r' where
  meets := (h.meets.mono (hm.extends hc)).further hr
  unfailed id hid := by
    obtain ⟨todo, bytes, rfl, hsuffix⟩ := hr
    exact hm.unfailed (fun _ _ => False.elim) hc (h.unfailed id (hsuffix.subset hid))

/-- A read that begins and waits needs no block whose last fetch failed. -/
theorem opens_of_beginRead (hc : c.StoresSound) {span : Span} {fit : Fit}
    (h : (c.beginRead i span fit owner).2 = .waiting r) : (c.beginRead i span fit owner).1.Opens r := by
  cases hs : c.stores[i]? with
  | none =>
    rw [beginRead_of_none hs] at h
    cases h
  | some s =>
    cases hspan : (span.clamp s.handle.size).isEmpty with
    | true =>
      rw [beginRead_of_isEmpty hs hspan] at h
      cases h
    | false =>
      obtain ⟨c₁, jobs, others, ids, hc₁, -, -, hopens, he⟩ := exists_beginRead_ready hc hs hspan fit owner
      have hc₂ := (moves_dispatch (A := fun _ _ => False) (c := c₁) jobs others .immediate).storesSound hc₁
      rw [he] at h ⊢
      split at h <;> rename_i hd <;> rw [hd] at hopens hc₂
      · exact hopens.moves hc₂ (moves_resumeRead hc₂ _) (further_of_resumeRead h)
      · cases h

end Reads

end Cache

end RangeCache
