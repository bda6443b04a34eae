import Mathlib.Algebra.GroupWithZero.Nat
import RangeCache.Proofs.Cache.Reports
import RangeCache.Proofs.Store.Counts

/-!
# What operations do to the queue

Blocks apart, an operation of a cache consists of a few kinds of deeds: it makes a job, lets go of one that it made,
hands one in that the queue takes or refuses, promotes jobs, or drops what is left of a plan. `Deeds P` says so of an
operation, and that all jobs that it makes have the property `P`. The ends of running jobs are none of these deeds.
-/

namespace RangeCache

open Relation

namespace Cache

/-- How many jobs were accepted for the objects of a cache. -/
def fetches (c : Cache) : Nat := (c.stores.map (·.fetches)).sum

/-- A job is handed in and accepted. -/
def accept (c : Cache) (j : Job) : Cache :=
  ({ c with queue := c.queue.enqueue j }).pump.modifyStore j.store fun s => { s with fetches := s.fetches + 1 }

end Cache

/-- What an operation does to the queue in one step. Between the steps there may be jobs in hand. -/
inductive Deed (P : Job → Prop) : Work → Work → Prop where
  /-- Blocks change, or the counts of a store but that of its accepted jobs; or a store is added. -/
  | tend {c c' : Cache} {L : List Job} (hqueue : c'.queue = c.queue) (hfetches : c'.fetches = c.fetches)
      (hlength : c.stores.length ≤ c'.stores.length) : Deed P ⟨c, L⟩ ⟨c', L⟩
  | make {c : Cache} {L : List Job} (j : Job) (hj : P j) (hid : j.id = c.queue.nextJob)
      (hstore : j.store < c.stores.length) : Deed P ⟨c, L⟩ ⟨{ c with queue := c.queue.takeId.1 }, L ++ [j]⟩
  | letGo {c : Cache} {L : List Job} (j : Job) : Deed P ⟨c, j :: L⟩ ⟨c, L⟩
  | refuse {c : Cache} {L : List Job} (j : Job) (hfull : c.queue.isFull = true) :
      Deed P ⟨c, j :: L⟩ ⟨{ c with queue := { c.queue with rejected := c.queue.rejected + 1 } }, L⟩
  | accept {c : Cache} {L : List Job} (j : Job) (hfull : c.queue.isFull = false) :
      Deed P ⟨c, j :: L⟩ ⟨c.accept j, L⟩
  | promote {c : Cache} {L : List Job} (job : Nat) :
      Deed P ⟨c, L⟩ ⟨{ c with queue := c.queue.promote job }, L⟩
  | withdraw {c : Cache} {L : List Job} (owner : Nat) :
      Deed P ⟨c, L⟩ ⟨{ c with queue := (c.queue.cancel owner).1 }, L⟩

/-- Any number of deeds. -/
abbrev Deeds (P : Job → Prop) : Work → Work → Prop := ReflTransGen (Deed P)

namespace Cache

variable {c : Cache} {L : List Job} {P : Job → Prop}

/-! ### The counts of the stores -/

@[simp] theorem length_modifyStore (c : Cache) (i : Nat) (f : Store → Store) :
    (c.modifyStore i f).stores.length = c.stores.length := List.length_modify ..

theorem fetches_modifyStore (c : Cache) (i : Nat) {f : Store → Store} (hf : ∀ s, (f s).fetches = s.fetches) :
    (c.modifyStore i f).fetches = c.fetches :=
  congrArg List.sum (map_modifyStore fun s _ => hf s)

theorem deeds_modifyStore (i : Nat) {f : Store → Store} (hf : ∀ s, (f s).fetches = s.fetches) :
    Deeds P ⟨c, L⟩ ⟨c.modifyStore i f, L⟩ :=
  .single (.tend rfl (fetches_modifyStore c i hf) (length_modifyStore c i f).ge)

theorem deeds_revertJob (j : Job) : Deeds P ⟨c, L⟩ ⟨c.revertJob j, L⟩ :=
  .single (.tend rfl (fetches_modifyStore c j.store fun s => Store.fetches_of_blocks (s.revert_eq _ _))
    (length_modifyStore c j.store _).ge)

theorem deeds_revertAll (l : List Job) : Deeds P ⟨c, L⟩ ⟨l.foldl revertJob c, L⟩ := by
  induction l generalizing c with
  | nil => exact .refl
  | cons j l ih => exact (deeds_revertJob j).trans ih

/-! ### Requests -/

theorem deeds_letGoAll (l : List Job) : Deeds P ⟨c, l⟩ ⟨c, []⟩ := by
  induction l with
  | nil => exact .refl
  | cons j l ih => exact .head (.letGo j) ih

theorem deeds_promoteAll (l : List Nat) : Deeds P ⟨c, L⟩ ⟨{ c with queue := l.foldl FetchQueue.promote c.queue }, L⟩ := by
  induction l generalizing c with
  | nil => exact .refl
  | cons job l ih => exact .head (.promote job) (ih (c := { c with queue := c.queue.promote job }))

theorem deeds_submit (jobs : List Job) (n : Nat) : Deeds P ⟨c, jobs⟩ ⟨(c.submit jobs n).1, []⟩ := by
  induction jobs generalizing c n with
  | nil => exact .refl
  | cons j r ih =>
    unfold submit
    have hmiss : Deeds P ⟨c, j :: r⟩
        ⟨c.modifyStore j.store fun s => { s with misses := s.misses + j.blocks.length }, j :: r⟩ :=
      deeds_modifyStore j.store fun _ => rfl
    refine hmiss.trans ?_
    generalize c.modifyStore j.store (fun s => { s with misses := s.misses + j.blocks.length }) = c
    dsimp only
    split
    · rename_i hfull
      have hrefuse := ReflTransGen.single (Deed.refuse (P := P) (L := r) j hfull)
      cases j.priority with
      | speculative => exact hrefuse.trans ((deeds_revertJob j).trans (ih n))
      | immediate => exact hrefuse.trans ((deeds_letGoAll r).trans (deeds_revertAll (j :: r)))
    · rename_i hfull
      exact (ReflTransGen.single (.accept j (by simpa using hfull))).trans (ih (n + 1))

/-- The jobs that a claim makes, one for each run. -/
theorem mem_claimRuns {i : Nat} {key : String} {priority : Priority} {owner : Option Nat} {runs : List (List Block)}
    {j : Job} (hj : j ∈ (c.claimRuns i key priority owner runs).2) : ∃ id, ∃ run ∈ runs,
      j = ⟨id, i, key, run.map (·.id), Store.runSpan run, priority, owner⟩ := by
  induction runs generalizing c with
  | nil => cases hj
  | cons run r ih =>
    rcases List.mem_cons.mp hj with rfl | hj
    · exact ⟨_, run, List.mem_cons_self, rfl⟩
    · obtain ⟨id, run', hrun', he⟩ := ih (c := (c.claimRun i key priority owner run).1) hj
      exact ⟨id, run', List.mem_cons_of_mem _ hrun', he⟩

theorem deeds_claimRuns {i : Nat} (hi : i < c.stores.length) (key : String) (priority : Priority) (owner : Option Nat)
    (runs : List (List Block)) (hP : ∀ j ∈ (c.claimRuns i key priority owner runs).2, P j) :
    Deeds P ⟨c, L⟩ ⟨(c.claimRuns i key priority owner runs).1, L ++ (c.claimRuns i key priority owner runs).2⟩ := by
  induction runs generalizing c L with
  | nil => rw [claimRuns, List.append_nil]
  | cons run r ih =>
    have hmake : Deed P ⟨c, L⟩ ⟨{ c with queue := c.queue.takeId.1 }, L ++ [(c.claimRun i key priority owner run).2]⟩ :=
      .make _ (hP _ List.mem_cons_self) rfl hi
    have hclaim : Deeds P ⟨{ c with queue := c.queue.takeId.1 }, L ++ [(c.claimRun i key priority owner run).2]⟩
        ⟨(c.claimRun i key priority owner run).1, L ++ [(c.claimRun i key priority owner run).2]⟩ :=
      deeds_modifyStore i fun s => Store.fetches_of_blocks (s.claim_eq _ _)
    have hrest := ih (c := (c.claimRun i key priority owner run).1) (L := L ++ [(c.claimRun i key priority owner run).2])
      (by rwa [claimRun, length_modifyStore]) fun j hj => hP j (List.mem_cons_of_mem _ hj)
    rw [List.append_assoc] at hrest
    exact (hclaim.trans hrest).head hmake

/-- The jobs of a request are for its object, with its priority and owner. -/
theorem mem_claim {i : Nat} {spans : List Span} {fit : Fit} {priority : Priority} {owner : Option Nat} {j : Job}
    (hj : j ∈ (c.claim i spans fit priority owner).2.1) : j.store = i ∧ j.priority = priority ∧ j.owner = owner := by
  cases hs : c.stores[i]? with
  | none =>
    rw [claim_of_none hs] at hj
    cases hj
  | some s =>
    rw [claim_eq hs] at hj
    obtain ⟨id, run, -, rfl⟩ := mem_claimRuns hj
    exact ⟨rfl, rfl, rfl⟩

theorem deeds_claim {i : Nat} {spans : List Span} {fit : Fit} {priority : Priority} {owner : Option Nat}
    (hP : ∀ j ∈ (c.claim i spans fit priority owner).2.1, P j) :
    Deeds P ⟨c, []⟩ ⟨(c.claim i spans fit priority owner).1, (c.claim i spans fit priority owner).2.1⟩ := by
  cases hs : c.stores[i]? with
  | none => rw [claim_of_none hs]
  | some s =>
    rw [claim_eq hs] at hP ⊢
    have hfill : Deeds P ⟨c, []⟩ ⟨c.modifyStore i fun _ => s.fillAll fit spans, []⟩ := by
      rw [modifyStore_congr (g := fun t => t.fillAll fit spans) fun t ht => by rw [hs] at ht; cases ht; rfl]
      exact deeds_modifyStore i fun t => t.fetches_fillAll fit spans
    refine hfill.trans (deeds_claimRuns ?_ _ priority owner _ hP)
    rw [length_modifyStore]
    exact (List.getElem?_eq_some_iff.mp hs).1

theorem deeds_dispatch (jobs : List Job) (others : List Nat) (priority : Priority) :
    Deeds P ⟨c, jobs⟩ ⟨(c.dispatch jobs others priority).1, []⟩ := by
  unfold dispatch
  cases priority with
  | immediate => exact (deeds_promoteAll others).trans (deeds_submit jobs 0)
  | speculative => exact deeds_submit jobs 0

theorem deeds_ensure {i : Nat} {spans : List Span} {fit : Fit} {priority : Priority} {owner : Option Nat}
    (hP : ∀ j ∈ (c.claim i spans fit priority owner).2.1, P j) :
    Deeds P ⟨c, []⟩ ⟨(c.ensure i spans fit priority owner).1, []⟩ :=
  (deeds_claim hP).trans (deeds_dispatch _ _ priority)

theorem deeds_get (i : Nat) (span : Span) : Deeds P ⟨c, []⟩ ⟨(c.get i span).1, []⟩ := by
  cases hs : c.stores[i]? with
  | none => rw [get_of_none hs]
  | some s =>
    rw [get_eq hs, setStore, modifyStore_congr (g := fun t => t.fillAll .grid [span]) fun t ht => by
      rw [hs] at ht; cases ht; rfl]
    exact deeds_modifyStore i fun t => t.fetches_fillAll .grid [span]

theorem deeds_cancel (owner : Nat) : Deeds P ⟨c, []⟩ ⟨(c.cancel owner).1, []⟩ :=
  .head (.withdraw owner) (deeds_revertAll _)

theorem deeds_evict (i : Nat) : Deeds P ⟨c, []⟩ ⟨(c.evict i).1, []⟩ := by
  unfold evict
  cases c.stores[i]? with
  | none => exact .refl
  | some s => exact deeds_modifyStore i Store.fetches_evict

/-! ### Reads -/

section Reads
variable (hP : ∀ j : Job, j.priority = .immediate → P j)
include hP

theorem deeds_poll (i id : Nat) (owner : Option Nat) : Deeds P ⟨c, []⟩ ⟨(c.poll i id owner).1, []⟩ := by
  unfold poll
  cases hs : c.stores[i]? with
  | none => exact .refl
  | some s =>
    dsimp only
    cases s.block? id with
    | none => exact .refl
    | some b =>
      dsimp only
      cases b.state with
      | ready bytes => exact .refl
      | failed f => exact .refl
      | evicted => exact .refl
      | inFlight n => exact .refl
      | pending =>
        have hclaim := deeds_claimRuns (P := P) (L := []) (List.getElem?_eq_some_iff.mp hs).1 s.handle.key .immediate
          owner [[b]] fun j hj => by
            obtain ⟨id, run, -, rfl⟩ := mem_claimRuns hj
            exact hP _ rfl
        have hboth := hclaim.trans (deeds_dispatch (c.claimRuns i s.handle.key .immediate owner [[b]]).2 [] .immediate)
        dsimp only
        split <;> rename_i heq <;> rw [heq] at hboth <;> exact hboth

omit hP in
theorem deeds_endRead (r : Reading) (result : Except Fault Bytes) : Deeds P ⟨c, []⟩ ⟨c.endRead r result, []⟩ := by
  have hunpin : Deeds P ⟨c, []⟩ ⟨c.modifyStore r.store (·.unpin r.pinned), []⟩ :=
    deeds_modifyStore r.store fun s => Store.fetches_of_blocks (s.unpin_eq _)
  unfold endRead
  cases result with
  | error f => exact hunpin
  | ok b => exact hunpin.trans (deeds_modifyStore r.store Store.fetches_evict)

theorem deeds_readFrom (r : Reading) (got : Bytes) (todo : List Nat) :
    Deeds P ⟨c, []⟩ ⟨(c.readFrom r got todo).1, []⟩ := by
  induction todo generalizing c got with
  | nil => exact deeds_endRead r (.ok got)
  | cons id rest ih =>
    have hpoll := deeds_poll (c := c) hP r.store id r.owner
    unfold readFrom
    generalize c.poll r.store id r.owner = polled at hpoll ⊢
    obtain ⟨c', p⟩ := polled
    cases p with
    | waiting => exact hpoll
    | done out =>
      cases out with
      | error f => exact hpoll.trans (deeds_endRead r (.error f))
      | ok bytes =>
        dsimp only
        cases (c'.stores[r.store]?).bind (·.block? id) with
        | none => exact hpoll.trans (deeds_endRead r (.error (.internal "no such block")))
        | some b =>
          have htouch : Deeds P ⟨c', []⟩ ⟨c'.modifyStore r.store fun s => s.tick.touch id, []⟩ :=
            deeds_modifyStore r.store fun _ => rfl
          exact hpoll.trans (htouch.trans (ih _))

theorem deeds_resumeRead (r : Reading) : Deeds P ⟨c, []⟩ ⟨(c.resumeRead r).1, []⟩ :=
  deeds_readFrom hP r r.bytes r.todo

theorem deeds_beginRead (i : Nat) (span : Span) (fit : Fit) (owner : Option Nat) :
    Deeds P ⟨c, []⟩ ⟨(c.beginRead i span fit owner).1, []⟩ := by
  unfold beginRead
  cases hs : c.stores[i]? with
  | none => exact .refl
  | some s =>
    dsimp only
    split
    · exact .refl
    · have hclaim : Deeds P ⟨c, []⟩ ⟨(c.claim i [span.clamp s.handle.size] fit .immediate owner).1,
          (c.claim i [span.clamp s.handle.size] fit .immediate owner).2.1⟩ :=
        deeds_claim fun j hj => hP j (mem_claim hj).2.1
      generalize c.claim i [span.clamp s.handle.size] fit .immediate owner = claimed at hclaim ⊢
      obtain ⟨c₁, jobs, others⟩ := claimed
      dsimp only at hclaim ⊢
      generalize ((c₁.stores[i]?).map (·.overlapping (span.clamp s.handle.size))).getD [] = blocks
      have hpin : Deeds P ⟨c₁, jobs⟩ ⟨c₁.modifyStore i fun s =>
          { s.pin (blocks.map (·.id)) with hits := s.hits + blocks.countP fun b => b.state.isReady }, jobs⟩ :=
        deeds_modifyStore i fun s => (Store.fetches_of_blocks (s.pin_eq (blocks.map (·.id))) :)
      have hboth := (hclaim.trans hpin).trans (deeds_dispatch jobs others .immediate)
      split <;> rename_i heq <;> rw [heq] at hboth <;> dsimp only at hboth ⊢
      · exact hboth.trans (deeds_resumeRead hP _)
      · exact hboth.trans (deeds_endRead _ (.error _))

end Reads

end Cache

end RangeCache
