import RangeCache.Cache.Read
import RangeCache.Proofs.Fetch.Accounts
import RangeCache.Proofs.Store.Edits
import RangeCache.Proofs.Store.Gather

/-!
# Moves of a cache

The operations of a cache are made of a few kinds of moves: an edit of a store, a claim of one run, a step
of one job into the queue, out of it, or to its end. Between the moves of an operation some jobs are in
hand: they own blocks but neither wait nor run. Each operation is a number of moves that begin and end
with nothing in hand (`moves_ensure`, `moves_cancel`, `moves_finish`, `moves_beginRead` and others), so
that whatever every move keeps every operation keeps.

`admits` says with which outcomes jobs may end.
-/

namespace RangeCache

open Relation

/-- A cache and the jobs in hand. -/
structure Work where
  cache : Cache
  hand : List Job

namespace Cache

/-- Puts a store in the place of another one. -/
def setStore (c : Cache) (i : Nat) (s : Store) : Cache := c.modifyStore i fun _ => s

/-- The job that claims a run, and the cache after it did. -/
def claimRun (c : Cache) (i : Nat) (key : String) (priority : Priority) (owner : Option Nat) (run : List Block) :
    Cache × Job :=
  let ids := run.map (·.id)
  ({ c with queue := c.queue.takeId.1 }.modifyStore i (·.claim c.queue.takeId.2 ids),
    ⟨c.queue.takeId.2, i, key, ids, Store.runSpan run, priority, owner⟩)

/-- What becomes of the blocks of a job that ends. -/
def settleBlocks (j : Job) (result : Except Fault Bytes) (s : Store) : Store :=
  match result with
  | .ok data => s.complete j.id j.blocks j.span.start data
  | .error f => s.fail j.id j.blocks f

/-- Whether a result is a failure. -/
def isFailure : Except Fault Bytes → Bool
  | .ok _ => false
  | .error _ => true

/-- Takes a running job out and settles its blocks. -/
def settle (c : Cache) (j : Job) (attempts : Nat) (result : Except Fault Bytes) : Cache :=
  ({ c with queue := c.queue.finish j attempts (isFailure result) }.modifyStore j.store
    (settleBlocks j result)).tellSettled j.store j.blocks

end Cache

/-- What an operation does in one step. -/
inductive Move (A : Job → Except Fault Bytes → Prop) : Work → Work → Prop where
  | edit {c : Cache} {L : List Job} {i : Nat} {s t : Store} (hs : c.stores[i]? = some s) (h : s.Edit t) :
      Move A ⟨c, L⟩ ⟨c.setStore i t, L⟩
  | claim {c : Cache} {L : List Job} {i : Nat} {s : Store} {run : List Block} (priority : Priority)
      (owner : Option Nat) (hs : c.stores[i]? = some s) (hrun : Store.Joined s.config.maxRun run)
      (hin : ∀ b ∈ run, b ∈ s.blocks) :
      Move A ⟨c, L⟩ ⟨(c.claimRun i s.handle.key priority owner run).1,
        L ++ [(c.claimRun i s.handle.key priority owner run).2]⟩
  | giveBack {c : Cache} {L : List Job} (j : Job) : Move A ⟨c, j :: L⟩ ⟨c.revertJob j, L⟩
  | reject {c : Cache} {L : List Job} (j : Job) (h : c.queue.isFull = true) :
      Move A ⟨c, j :: L⟩ ⟨{ c with queue := { c.queue with rejected := c.queue.rejected + 1 } }, j :: L⟩
  | enqueue {c : Cache} {L : List Job} (j : Job) (h : c.queue.isFull = false) :
      Move A ⟨c, j :: L⟩ ⟨({ c with queue := c.queue.enqueue j }).pump, L⟩
  | promote {c : Cache} {L : List Job} (job : Nat) :
      Move A ⟨c, L⟩ ⟨{ c with queue := c.queue.promote job }, L⟩
  | withdraw {c : Cache} {L : List Job} (owner : Nat) :
      Move A ⟨c, L⟩ ⟨{ c with queue := (c.queue.cancel owner).1 }, (c.queue.cancel owner).2 ++ L⟩
  | settle {c : Cache} {L : List Job} {j : Job} {result : Except Fault Bytes} (attempts : Nat)
      (hj : j ∈ c.queue.running) (ha : A j result) :
      Move A ⟨c, L⟩ ⟨(c.settle j attempts result).pump, L⟩

/-- Any number of moves. -/
abbrev Moves (A : Job → Except Fault Bytes → Prop) : Work → Work → Prop := ReflTransGen (Move A)

theorem Moves.mono {A B : Job → Except Fault Bytes → Prop} (h : ∀ j r, A j r → B j r)
    {w w' : Work} (hm : Moves A w w') : Moves B w w' := by
  refine ReflTransGen.mono (fun w w' hw => ?_) _ _ hm
  cases hw with
  | edit hs he => exact .edit hs he
  | claim priority owner hs hrun hin => exact .claim priority owner hs hrun hin
  | giveBack j => exact .giveBack j
  | reject j hfull => exact .reject j hfull
  | enqueue j hfull => exact .enqueue j hfull
  | promote job => exact .promote job
  | withdraw owner => exact .withdraw owner
  | settle attempts hj ha => exact .settle attempts hj (h _ _ ha)

namespace Cache

/-! ### The stores of a cache -/

section Stores
variable {c : Cache} {i k : Nat} {s t : Store} {f : Store → Store}

theorem getElem?_modifyStore_self (hs : c.stores[i]? = some s) : (c.modifyStore i f).stores[i]? = some (f s) := by
  simp [modifyStore, hs]

theorem getElem?_modifyStore_ne (h : k ≠ i) : (c.modifyStore i f).stores[k]? = c.stores[k]? := by
  simp [modifyStore, Ne.symm h]

theorem getElem?_modifyStore_cases (h : (c.modifyStore i f).stores[k]? = some t) :
    (k = i ∧ ∃ s, c.stores[i]? = some s ∧ t = f s) ∨ k ≠ i ∧ c.stores[k]? = some t := by
  by_cases hk : k = i
  · subst hk
    cases hs : c.stores[k]? with
    | none => simp [modifyStore, hs] at h
    | some s =>
      rw [getElem?_modifyStore_self hs] at h
      exact Or.inl ⟨rfl, s, rfl, (Option.some.inj h).symm⟩
  · rw [getElem?_modifyStore_ne hk] at h
    exact Or.inr ⟨hk, h⟩

theorem modifyStore_congr {g : Store → Store} (h : ∀ s, c.stores[i]? = some s → f s = g s) :
    c.modifyStore i f = c.modifyStore i g := by
  have : c.stores.modify i f = c.stores.modify i g := by
    refine List.ext_getElem? fun k => ?_
    by_cases hk : k = i
    · subst hk
      cases hs : c.stores[k]? with
      | none => simp [hs]
      | some s => simp [hs, h s hs]
    · simp [Ne.symm hk]
  simp [modifyStore, this]

theorem modifyStore_id : c.modifyStore i id = c := by
  have : c.stores.modify i id = c.stores := by
    refine List.ext_getElem? fun k => ?_
    by_cases hk : i = k <;> simp [hk]
  simp [modifyStore, this]

theorem modifyStore_of_none (h : c.stores[i]? = none) : c.modifyStore i f = c :=
  (modifyStore_congr fun s hs => by rw [h] at hs; cases hs).trans (modifyStore_id (i := i))

theorem modifyStore_eq_setStore (hs : c.stores[i]? = some s) : c.modifyStore i f = c.setStore i (f s) :=
  modifyStore_congr fun s' hs' => by rw [hs] at hs'; cases hs'; rfl

theorem setStore_self (hs : c.stores[i]? = some s) : c.setStore i s = c :=
  (modifyStore_eq_setStore (f := id) hs).symm.trans modifyStore_id

theorem setStore_setStore : (c.setStore i s).setStore i t = c.setStore i t := by
  have : (c.stores.modify i fun _ => s).modify i (fun _ => t) = c.stores.modify i fun _ => t := by
    refine List.ext_getElem? fun k => ?_
    by_cases hk : i = k
    · subst hk
      cases hs : c.stores[i]? <;> simp [hs]
    · simp [hk]
  simp [setStore, modifyStore, this]

theorem getElem?_setStore (hs : c.stores[i]? = some s) : (c.setStore i t).stores[i]? = some t :=
  getElem?_modifyStore_self hs

/-- What a change of a store leaves as it is stays so for all stores. -/
theorem map_modifyStore {β : Type} {g : Store → β} (hf : ∀ s, c.stores[i]? = some s → g (f s) = g s) :
    (c.modifyStore i f).stores.map g = c.stores.map g := by
  refine List.ext_getElem? fun k => ?_
  simp only [List.getElem?_map]
  by_cases hk : k = i
  · subst hk
    cases hs : c.stores[k]? with
    | none => rw [modifyStore_of_none hs, hs]
    | some s => simp [getElem?_modifyStore_self hs, hf s hs]
  · rw [getElem?_modifyStore_ne hk]

theorem getElem?_addStore_cases {h : Handle} {config : StoreConfig} (ht : (c.addStore h config).stores[k]? = some t) :
    c.stores[k]? = some t ∨ t = { handle := h, config } := by
  unfold addStore at ht
  by_cases hk : k < c.stores.length
  · exact Or.inl ((List.getElem?_append_left hk).symm.trans ht)
  · rw [List.getElem?_append_right (Nat.le_of_not_lt hk)] at ht
    exact Or.inr (List.mem_singleton.mp (List.mem_of_getElem? ht))

theorem getElem?_addStore_of {h : Handle} {config : StoreConfig} (hs : c.stores[k]? = some s) :
    (c.addStore h config).stores[k]? = some s :=
  (List.getElem?_append_left (List.getElem?_eq_some_iff.mp hs).1).trans hs

end Stores

/-- Every store is sound. -/
def StoresSound (c : Cache) : Prop := ∀ ⦃i : Nat⦄ ⦃s : Store⦄, c.stores[i]? = some s → s.Sound

end Cache

/-! ### Sound stores -/

section StoresSound
variable {c : Cache} {A : Job → Except Fault Bytes → Prop}

theorem Cache.StoresSound.modifyStore (h : c.StoresSound) {i : Nat} {f : Store → Store}
    (hf : ∀ s, c.stores[i]? = some s → s.Sound → (f s).Sound) : (c.modifyStore i f).StoresSound := by
  intro k t ht
  rcases Cache.getElem?_modifyStore_cases ht with ⟨-, s, hs, rfl⟩ | ⟨-, hs⟩
  · exact hf s hs (h hs)
  · exact h hs

theorem Store.Sound.claim {s : Store} (h : s.Sound) (job : Nat) (ids : List Nat) : (s.claim job ids).Sound := by
  refine (mapped_claim h job ids).sound h fun b hb he => ?_
  by_cases hi : b.id ∈ ids
  · rw [if_pos hi, tryOn_claim?_state] at he
    split at he
    · cases he
    · exact h.tracked b hb he
  · rw [if_neg hi] at he
    exact h.tracked b hb he

theorem Store.Sound.revert {s : Store} (h : s.Sound) (job : Nat) (ids : List Nat) : (s.revert job ids).Sound := by
  refine (mapped_revert h job ids).sound h fun b hb he => ?_
  by_cases hi : b.id ∈ ids
  · rw [if_pos hi, tryOn_revert?_state] at he
    split at he
    · cases he
    · exact h.tracked b hb he
  · rw [if_neg hi] at he
    exact h.tracked b hb he

theorem Store.Sound.settleBlocks {s : Store} (h : s.Sound) (j : Job) (result : Except Fault Bytes) :
    (Cache.settleBlocks j result s).Sound := by
  cases result with
  | ok data =>
    refine (mapped_complete h j.id j.blocks j.span.start data).sound h fun b hb he => ?_
    by_cases hi : b.id ∈ j.blocks
    · rw [if_pos hi, delivered_state] at he
      split at he
      · cases he
      · exact h.tracked b hb he
    · rw [if_neg hi] at he
      exact h.tracked b hb he
  | error f =>
    refine (mapped_fail h j.id j.blocks f).sound h fun b hb he => ?_
    by_cases hi : b.id ∈ j.blocks
    · rw [if_pos hi, tryOn_fail?_state] at he
      split at he
      · cases he
      · exact h.tracked b hb he
    · rw [if_neg hi] at he
      exact h.tracked b hb he

theorem Cache.StoresSound.addStore (h : c.StoresSound) (handle : Handle) (config : StoreConfig) :
    (c.addStore handle config).StoresSound := by
  intro k t ht
  rcases Cache.getElem?_addStore_cases ht with hs | rfl
  · exact h hs
  · exact ⟨.nil, nofun, nofun, fun _ => nofun, .nil, nofun, nofun, nofun⟩

theorem Move.storesSound {w w' : Work} (h : Move A w w') (hw : w.cache.StoresSound) : w'.cache.StoresSound := by
  cases h with
  | edit hs he => exact hw.modifyStore fun s' hs' _ => he.sound (hw hs)
  | claim priority owner hs hrun hin => exact Cache.StoresSound.modifyStore hw fun s' _ hs' => hs'.claim _ _
  | giveBack j => exact hw.modifyStore fun s' _ hs' => hs'.revert _ _
  | reject => exact hw
  | enqueue j h => exact hw
  | promote job => exact hw
  | withdraw owner => exact hw
  | settle attempts hj ha => exact Cache.StoresSound.modifyStore hw fun s' _ hs' => hs'.settleBlocks _ _

theorem Moves.storesSound {w w' : Work} (h : Moves A w w') (hw : w.cache.StoresSound) : w'.cache.StoresSound := by
  induction h with
  | refl => exact hw
  | tail _ hm ih => exact hm.storesSound ih

end StoresSound

/-! ### Operations are moves -/

namespace Cache

section Operations
variable {c : Cache} {i : Nat} {s : Store} {L : List Job} {A : Job → Except Fault Bytes → Prop}

theorem moves_edits (hs : c.stores[i]? = some s) {t : Store} (h : s.Edits t) :
    Moves A ⟨c, L⟩ ⟨c.setStore i t, L⟩ := by
  induction h with
  | refl => rw [setStore_self hs]
  | @tail t u _ he ih =>
    have hm := Move.edit (A := A) (L := L) (getElem?_setStore hs (t := t)) he
    rw [setStore_setStore] at hm
    exact ih.tail hm

theorem moves_modifyStore {f : Store → Store} (hf : ∀ s, c.stores[i]? = some s → s.Edits (f s)) :
    Moves A ⟨c, L⟩ ⟨c.modifyStore i f, L⟩ := by
  cases hs : c.stores[i]? with
  | none => rw [modifyStore_of_none hs]
  | some s =>
    rw [modifyStore_eq_setStore hs]
    exact moves_edits hs (hf s hs)

theorem moves_revertAll (l : List Job) : Moves A ⟨c, l ++ L⟩ ⟨l.foldl revertJob c, L⟩ := by
  induction l generalizing c with
  | nil => exact .refl
  | cons j r ih => exact (ReflTransGen.single (.giveBack j)).trans ih

theorem moves_promoteAll (l : List Nat) :
    Moves A ⟨c, L⟩ ⟨{ c with queue := l.foldl FetchQueue.promote c.queue }, L⟩ := by
  induction l generalizing c with
  | nil => exact .refl
  | cons job r ih =>
    exact (ReflTransGen.single (.promote job)).trans (ih (c := { c with queue := c.queue.promote job }))

theorem moves_submit (jobs : List Job) (n : Nat) : Moves A ⟨c, jobs⟩ ⟨(c.submit jobs n).1, []⟩ := by
  induction jobs generalizing c n with
  | nil => exact .refl
  | cons j r ih =>
    unfold submit
    have hcount : Moves A ⟨c, j :: r⟩
        ⟨c.modifyStore j.store fun s => { s with misses := s.misses + j.blocks.length }, j :: r⟩ :=
      moves_modifyStore fun s _ => .single (.count _ _ _ _)
    refine hcount.trans ?_
    generalize c.modifyStore j.store (fun s => { s with misses := s.misses + j.blocks.length }) = c
    dsimp only
    split
    · rename_i hfull
      have hreject := ReflTransGen.single (Move.reject (A := A) (L := r) j hfull)
      cases j.priority with
      | speculative => exact hreject.trans ((ReflTransGen.single (.giveBack j)).trans (ih _))
      | immediate =>
        refine hreject.trans ?_
        have := moves_revertAll (A := A) (L := [])
          (c := { c with queue := { c.queue with rejected := c.queue.rejected + 1 } }) (j :: r)
        rwa [List.append_nil] at this
    · rename_i hfull
      refine (ReflTransGen.single (.enqueue j (by simpa using hfull))).trans (.trans ?_ (ih _))
      exact moves_modifyStore fun s _ => .single (.count _ _ _ _)

theorem moves_claimRuns (hc : c.StoresSound) (hs : c.stores[i]? = some s) (priority : Priority) (owner : Option Nat)
    (runs : List (List Block)) (hruns : ∀ run ∈ runs, Store.Joined s.config.maxRun run ∧ ∀ b ∈ run, b ∈ s.blocks)
    (hids : (runs.flatten.map (·.id)).Nodup) :
    Moves A ⟨c, L⟩ ⟨(c.claimRuns i s.handle.key priority owner runs).1,
      L ++ (c.claimRuns i s.handle.key priority owner runs).2⟩ := by
  induction runs generalizing c s L with
  | nil =>
    simp only [claimRuns, List.append_nil]
    exact .refl
  | cons run r ih =>
    obtain ⟨hjoined, hin⟩ := hruns run List.mem_cons_self
    have hm := Move.claim (A := A) (L := L) priority owner hs hjoined hin
    have hmapped := Store.mapped_claim (hc hs) c.queue.takeId.2 (run.map (·.id))
    have hs' : (c.claimRun i s.handle.key priority owner run).1.stores[i]? =
        some (s.claim c.queue.takeId.2 (run.map (·.id))) := getElem?_modifyStore_self hs
    rw [List.flatten_cons, List.map_append, List.nodup_append] at hids
    -- The blocks of the other runs are as they were.
    have hruns' : ∀ run' ∈ r, Store.Joined (s.claim c.queue.takeId.2 (run.map (·.id))).config.maxRun run' ∧
        ∀ b ∈ run', b ∈ (s.claim c.queue.takeId.2 (run.map (·.id))).blocks := by
      intro run' hrun'
      obtain ⟨hj, hb⟩ := hruns run' (List.mem_cons_of_mem _ hrun')
      refine ⟨hmapped.config.symm ▸ hj, fun b hbr => hmapped.mem_iff.mpr ⟨b, hb b hbr, if_neg fun hid => ?_⟩⟩
      exact hids.2.2 _ hid _ (List.mem_map_of_mem (List.mem_flatten.mpr ⟨run', hrun', hbr⟩)) rfl
    have hrest := ih (L := L ++ [(c.claimRun i s.handle.key priority owner run).2])
      (hm.storesSound hc) hs' hruns' hids.2.1
    rw [hmapped.handle, List.append_assoc] at hrest
    exact (ReflTransGen.single hm).trans hrest

theorem claim_of_none (hs : c.stores[i]? = none) (spans : List Span) (fit : Fit) (priority : Priority)
    (owner : Option Nat) : c.claim i spans fit priority owner = (c, [], []) := by
  unfold claim
  rw [hs]

/-- A claim fills its spans, and makes jobs for the runs of what it gathered. -/
theorem claim_eq (hs : c.stores[i]? = some s) (spans : List Span) (fit : Fit) (priority : Priority)
    (owner : Option Nat) :
    c.claim i spans fit priority owner =
      let r := (c.setStore i (s.fillAll fit spans)).claimRuns i (s.fillAll fit spans).handle.key priority owner
        (Store.runs (s.fillAll fit spans).config.maxRun (s.gather fit spans).2)
      (r.1, r.2, (s.gather fit spans).2.filterMap (·.state.job?)) := by
  unfold claim
  rw [hs]
  dsimp only
  rw [Store.fst_gather]
  rfl

theorem claim_of_sound (hc : c.StoresSound) (hs : c.stores[i]? = some s) (spans : List Span) (fit : Fit)
    (priority : Priority) (owner : Option Nat) :
    c.claim i spans fit priority owner =
      let r := (c.setStore i (s.fillAll fit spans)).claimRuns i (s.fillAll fit spans).handle.key priority owner
        (Store.runs (s.fillAll fit spans).config.maxRun ((s.fillAll fit spans).touched spans))
      (r.1, r.2, ((s.fillAll fit spans).touched spans).filterMap (·.state.job?)) := by
  rw [claim_eq hs, Store.snd_gather (hc hs)]

theorem moves_claim (hc : c.StoresSound) (i : Nat) (spans : List Span) (fit : Fit) (priority : Priority)
    (owner : Option Nat) :
    Moves A ⟨c, []⟩ ⟨(c.claim i spans fit priority owner).1, (c.claim i spans fit priority owner).2.1⟩ := by
  cases hs : c.stores[i]? with
  | none => rw [claim_of_none hs]
  | some s =>
    rw [claim_of_sound hc hs]
    have hfill := moves_edits (A := A) (L := []) hs (Store.edits_fillAll (hc hs) fit spans)
    have hc' := hfill.storesSound hc
    have hs' := getElem?_setStore (t := s.fillAll fit spans) hs
    have hsound := hc' hs'
    have hsub : (s.fillAll fit spans).touched spans ⊆ (s.fillAll fit spans).blocks :=
      fun b hb => (List.mem_filter.mp hb).1
    refine hfill.trans (moves_claimRuns hc' hs' priority owner _ (fun run hrun => ?_) ?_)
    · refine ⟨Store.joined_of_mem_runs (fun b hb => hsound.nonempty b (hsub hb)) hrun, fun b hb => hsub ?_⟩
      have hflat : b ∈ (Store.runs (s.fillAll fit spans).config.maxRun ((s.fillAll fit spans).touched spans)).flatten :=
        List.mem_flatten.mpr ⟨run, hrun, hb⟩
      rw [Store.flatten_runs] at hflat
      exact (List.mem_filter.mp hflat).1
    · rw [Store.flatten_runs]
      exact hsound.ids_tracked.sublist ((List.filter_sublist.trans List.filter_sublist).map _)

theorem moves_dispatch (jobs : List Job) (others : List Nat) (priority : Priority) :
    Moves A ⟨c, jobs⟩ ⟨(c.dispatch jobs others priority).1, []⟩ := by
  unfold dispatch
  cases priority with
  | immediate => exact (moves_promoteAll others).trans (moves_submit jobs 0)
  | speculative => exact moves_submit jobs 0

theorem moves_ensure (hc : c.StoresSound) (i : Nat) (spans : List Span) (fit : Fit) (priority : Priority)
    (owner : Option Nat) : Moves A ⟨c, []⟩ ⟨(c.ensure i spans fit priority owner).1, []⟩ :=
  (moves_claim hc i spans fit priority owner).trans (moves_dispatch _ _ priority)

/-- Looking up a span fills it. -/
theorem get_eq (hs : c.stores[i]? = some s) (span : Span) :
    c.get i span = (c.setStore i (s.fillAll .grid [span]), (s.get span).2) := by
  simp [get, hs, setStore]

theorem get_of_none (hs : c.stores[i]? = none) (span : Span) : c.get i span = (c, []) := by
  simp [get, hs]

theorem moves_get (hc : c.StoresSound) (i : Nat) (span : Span) : Moves A ⟨c, []⟩ ⟨(c.get i span).1, []⟩ := by
  cases hs : c.stores[i]? with
  | none => rw [get_of_none hs]
  | some s =>
    rw [get_eq hs]
    exact moves_edits hs (Store.edits_fillAll (hc hs) .grid [span])

theorem moves_cancel (owner : Nat) : Moves A ⟨c, []⟩ ⟨(c.cancel owner).1, []⟩ := by
  have hw := Move.withdraw (A := A) (c := c) (L := []) owner
  exact (ReflTransGen.single hw).trans (moves_revertAll _)

theorem moves_evict (hc : c.StoresSound) (i : Nat) : Moves A ⟨c, []⟩ ⟨(c.evict i).1, []⟩ := by
  unfold evict
  cases hs : c.stores[i]? with
  | none => exact .refl
  | some s => exact moves_modifyStore fun s hs => Store.edits_evict (hc hs)

/-- After a job ended and others were started, there only may be blocks to evict. -/
theorem moves_of_settle (hc : c.StoresSound) (j : Job) (attempts : Nat) (result : Except Fault Bytes) :
    Moves A ⟨(c.settle j attempts result).pump, []⟩ ⟨c.finish j attempts result, []⟩ := by
  cases result with
  | error f => exact .refl
  | ok data =>
    have hc' : (c.settle j attempts (.ok data)).pump.StoresSound :=
      Cache.StoresSound.modifyStore (c := c) hc fun s _ hs => hs.settleBlocks j (.ok data)
    exact moves_modifyStore fun s hs => Store.edits_evict (hc' hs)

theorem moves_finish (hc : c.StoresSound) {j : Job} (hj : j ∈ c.queue.running) (attempts : Nat)
    {result : Except Fault Bytes} (ha : A j result) : Moves A ⟨c, []⟩ ⟨c.finish j attempts result, []⟩ :=
  (ReflTransGen.single (Move.settle attempts hj ha)).trans (moves_of_settle hc j attempts result)

theorem moves_poll (hc : c.StoresSound) (i id : Nat) (owner : Option Nat) :
    Moves A ⟨c, []⟩ ⟨(c.poll i id owner).1, []⟩ := by
  unfold poll
  cases hs : c.stores[i]? with
  | none => exact .refl
  | some s =>
    dsimp only
    cases hb : s.block? id with
    | none => exact .refl
    | some b =>
      dsimp only
      cases hst : b.state with
      | ready bytes => exact .refl
      | failed f => exact .refl
      | evicted => exact .refl
      | inFlight n => exact .refl
      | pending =>
        have hmem : b ∈ s.blocks := by
          rcases List.mem_append.mp (Store.mem_of_block?_eq_some hb).1 with hm | hm
          · exact hm
          · have := (hc hs).retired b hm
            rw [hst] at this
            cases this
        have hclaim := moves_claimRuns (A := A) (L := []) hc hs .immediate owner [[b]]
          (by
            intro run hrun
            rw [List.mem_singleton.mp hrun]
            refine ⟨Store.joined_singleton (by rw [hst]; rfl) ((hc hs).nonempty b hmem), fun x hx => ?_⟩
            rw [List.mem_singleton.mp hx]
            exact hmem)
          (by simp)
        have hboth := hclaim.trans (moves_dispatch (A := A)
          (c.claimRuns i s.handle.key .immediate owner [[b]]).2 [] .immediate)
        dsimp only
        split <;> rename_i heq <;> rw [heq] at hboth <;> exact hboth

theorem moves_endRead (hc : c.StoresSound) (r : Reading) (result : Except Fault Bytes) :
    Moves A ⟨c, []⟩ ⟨c.endRead r result, []⟩ := by
  unfold endRead
  have hunpin : Moves A ⟨c, []⟩ ⟨c.modifyStore r.store (·.unpin r.pinned), []⟩ :=
    moves_modifyStore fun s _ => Store.edits_unpin r.pinned s
  cases result with
  | error f => exact hunpin
  | ok b => exact hunpin.trans (moves_modifyStore fun s hs => Store.edits_evict (hunpin.storesSound hc hs))

theorem moves_touch (i id : Nat) : Moves A ⟨c, L⟩ ⟨c.modifyStore i fun s => s.tick.touch id, L⟩ :=
  moves_modifyStore fun s _ =>
    (ReflTransGen.single (.count s.hits s.misses s.fetches (s.clock + 1))).tail (.touch id)

theorem moves_readFrom (hc : c.StoresSound) (r : Reading) (got : Bytes) (todo : List Nat) :
    Moves A ⟨c, []⟩ ⟨(c.readFrom r got todo).1, []⟩ := by
  induction todo generalizing c got with
  | nil => exact moves_endRead hc r (.ok got)
  | cons id rest ih =>
    have hpoll := moves_poll (A := A) hc r.store id r.owner
    unfold readFrom
    generalize c.poll r.store id r.owner = polled at hpoll ⊢
    obtain ⟨c', p⟩ := polled
    have hc' : c'.StoresSound := hpoll.storesSound hc
    match p with
    | .waiting () => exact hpoll
    | .done (.error f) => exact hpoll.trans (moves_endRead hc' r (.error f))
    | .done (.ok bytes) =>
      dsimp only
      cases (c'.stores[r.store]?).bind (·.block? id) with
      | none => exact hpoll.trans (moves_endRead hc' r (.error (.internal "no such block")))
      | some b =>
        have htouch := moves_touch (A := A) (L := []) (c := c') r.store id
        exact hpoll.trans (htouch.trans (ih (htouch.storesSound hc') _))

theorem moves_resumeRead (hc : c.StoresSound) (r : Reading) : Moves A ⟨c, []⟩ ⟨(c.resumeRead r).1, []⟩ :=
  moves_readFrom hc r r.bytes r.todo

theorem moves_beginRead (hc : c.StoresSound) (i : Nat) (span : Span) (fit : Fit) (owner : Option Nat) :
    Moves A ⟨c, []⟩ ⟨(c.beginRead i span fit owner).1, []⟩ := by
  unfold beginRead
  cases hs : c.stores[i]? with
  | none => exact .refl
  | some s =>
    dsimp only
    split
    · exact .refl
    · have hclaim := moves_claim (A := A) hc i [span.clamp s.handle.size] fit .immediate owner
      generalize c.claim i [span.clamp s.handle.size] fit .immediate owner = claimed at hclaim ⊢
      obtain ⟨c₁, jobs, others⟩ := claimed
      dsimp only at hclaim ⊢
      generalize ((c₁.stores[i]?).map (·.overlapping (span.clamp s.handle.size))).getD [] = blocks
      have hpin : Moves A ⟨c₁, jobs⟩ ⟨c₁.modifyStore i fun s =>
          { s.pin (blocks.map (·.id)) with hits := s.hits + blocks.countP fun b => b.state.isReady }, jobs⟩ :=
        moves_modifyStore fun s _ => (Store.edits_pin (blocks.map (·.id)) s).tail (.count _ _ _ _)
      have hboth := (hclaim.trans hpin).trans (moves_dispatch jobs others .immediate)
      have hc' := Moves.storesSound hboth hc
      split <;> rename_i heq <;> rw [heq] at hboth hc' <;> dsimp only at hboth hc' ⊢
      · exact hboth.trans (moves_resumeRead hc' _)
      · exact hboth.trans (moves_endRead hc' _ (.error _))

end Operations

end Cache

end RangeCache
