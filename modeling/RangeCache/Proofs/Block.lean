import Mathlib.Data.List.Basic
import Mathlib.Data.List.Induction
import RangeCache.Block

/-!
# Histories of a block

Anything can be tried on a block, by any job and in any order. Some of it is refused, which changes nothing, and what is
not refused are the deeds. A job that wants to settle its claim, by completing or failing the block or by giving it back,
is refused unless the last claim among the deeds is its own and no deed after it settled it (`inFlight_run_iff`). So no
claim is settled twice or by a stranger, whatever jobs compete and whichever numbers they use again. Bytes stay until they
are evicted, and an evicted block stays evicted (`orderly_run`).
-/

namespace RangeCache.Block

/-- What is tried on a block. -/
inductive Attempt where
  | claim (job : Nat)
  | complete (job : Nat) (bytes : Bytes)
  | fail (job : Nat) (fault : Fault)
  | revert (job : Nat)
  | evict
  | pin
  | unpin
  | touch (time : Nat)
  deriving DecidableEq, Repr

namespace Attempt

/-- The job that takes a block by it. -/
def claimant? : Attempt → Option Nat
  | claim job => some job
  | _ => none

/-- The job that leaves its block by it: with bytes, with a fault, or as if it had never had it. -/
def settler? : Attempt → Option Nat
  | complete job _ | fail job _ | revert job => some job
  | _ => none

/-- The state that it brings a block to, if it is about the state. -/
def target? : Attempt → Option BlockState
  | claim job => some (.inFlight job)
  | complete _ bytes => some (.ready bytes)
  | fail _ fault => some (.failed fault)
  | revert _ => some .pending
  | evict => some .evicted
  | pin | unpin | touch _ => none

end Attempt

/-- The block after an attempt, unless that is refused. Only a pin that somebody holds can be given back. -/
def attempt? (b : Block) : Attempt → Option Block
  | .claim job => b.claim? job
  | .complete job bytes => b.complete? job bytes
  | .fail job fault => b.fail? job fault
  | .revert job => b.revert? job
  | .evict => b.evict?
  | .pin => some b.pin
  | .unpin => if b.pins = 0 then none else some b.unpin
  | .touch time => some (b.touch time)

def step (b : Block) (a : Attempt) : Block := (b.attempt? a).getD b

/-- A block after some attempts, in order. -/
def run (b : Block) (l : List Attempt) : Block := l.foldl step b

/-- The attempts that are not refused, in order. -/
def deeds (b : Block) : List Attempt → List Attempt
  | [] => []
  | a :: l => (if (b.attempt? a).isSome then [a] else []) ++ (b.step a).deeds l

/-- The last claim among some deeds is that of a job, and nobody settled it since. -/
def Held (d : List Attempt) (job : Nat) : Prop :=
  ∃ before after, d = before ++ .claim job :: after ∧ ∀ a ∈ after, a.claimant? = none ∧ a.settler? = none

/-- The jobs that settle a claim, among the deeds that come after it. -/
def settlers (after : List Attempt) : List Nat := (after.takeWhile (·.claimant?.isNone)).filterMap (·.settler?)

variable {b c : Block} {a : Attempt} {l m d before after : List Attempt} {j k : Nat} {x : Bytes}

/-! ### What an attempt does -/

theorem attempt?_claim_isSome : (b.attempt? (.claim j)).isSome ↔ b.state = .pending ∨ ∃ f, b.state = .failed f := by
  cases hstate : b.state <;> simp [attempt?, claim?, BlockState.isClaimable, hstate]

/-- Only the owner of a block settles it. -/
theorem attempt?_settler_isSome (ha : a.settler? = some j) : (b.attempt? a).isSome ↔ b.state = .inFlight j := by
  cases a with
  | complete job bytes | fail job fault | revert job =>
    cases ha
    simp [attempt?, complete?, fail?, revert?, leave?]
  | claim job => cases ha
  | evict => cases ha
  | pin => cases ha
  | unpin => cases ha
  | touch time => cases ha

theorem attempt?_evict_isSome : (b.attempt? .evict).isSome ↔ (∃ x, b.state = .ready x) ∧ b.pins = 0 := by
  cases hstate : b.state <;> simp [attempt?, evict?, BlockState.isReady, BlockState.bytes?, hstate]

/-- A deed is a claim of a block that waits for one, its owner's settlement, the eviction of bytes that nobody pins, or
    not about the state. -/
theorem deed_cases (h : (b.attempt? a).isSome) :
    (∃ k, a = .claim k) ∧ (b.state = .pending ∨ ∃ f, b.state = .failed f) ∨
      (∃ k, a.settler? = some k ∧ b.state = .inFlight k) ∨
      a = .evict ∧ (∃ x, b.state = .ready x) ∧ b.pins = 0 ∨
      a.target? = none := by
  cases a with
  | claim job => exact .inl ⟨⟨job, rfl⟩, attempt?_claim_isSome.mp h⟩
  | complete job bytes => exact .inr (.inl ⟨job, rfl, (attempt?_settler_isSome rfl).mp h⟩)
  | fail job fault => exact .inr (.inl ⟨job, rfl, (attempt?_settler_isSome rfl).mp h⟩)
  | revert job => exact .inr (.inl ⟨job, rfl, (attempt?_settler_isSome rfl).mp h⟩)
  | evict => exact .inr (.inr (.inl ⟨rfl, attempt?_evict_isSome.mp h⟩))
  | pin => exact .inr (.inr (.inr rfl))
  | unpin => exact .inr (.inr (.inr rfl))
  | touch time => exact .inr (.inr (.inr rfl))

/-- A block that a job has is settled by that job. -/
theorem deed_of_inFlight (h : b.state = .inFlight j) (hdone : (b.attempt? a).isSome) :
    a.settler? = some j ∨ a.target? = none := by
  rcases deed_cases hdone with ⟨-, hp | ⟨f, hf⟩⟩ | ⟨k, hk, hstate⟩ | ⟨-, ⟨x, hx⟩, -⟩ | hnone
  · cases h.symm.trans hp
  · cases h.symm.trans hf
  · cases h.symm.trans hstate
    exact .inl hk
  · cases h.symm.trans hx
  · exact .inr hnone

/-- A block with bytes can lose them. -/
theorem deed_of_ready (h : b.state = .ready x) (hdone : (b.attempt? a).isSome) : a = .evict ∨ a.target? = none := by
  rcases deed_cases hdone with ⟨-, hp | ⟨f, hf⟩⟩ | ⟨k, -, hk⟩ | ⟨hevict, -⟩ | hnone
  · cases h.symm.trans hp
  · cases h.symm.trans hf
  · cases h.symm.trans hk
  · exact .inl hevict
  · exact .inr hnone

/-- Nothing becomes of a block that was evicted. -/
theorem deed_of_evicted (h : b.state = .evicted) (hdone : (b.attempt? a).isSome) : a.target? = none := by
  rcases deed_cases hdone with ⟨-, hp | ⟨f, hf⟩⟩ | ⟨k, -, hk⟩ | ⟨-, ⟨x, hx⟩, -⟩ | hnone
  · cases h.symm.trans hp
  · cases h.symm.trans hf
  · cases h.symm.trans hk
  · cases h.symm.trans hx
  · exact hnone

theorem eq_of_leave? {s : BlockState} (h : b.leave? j s = some c) : { b with state := s } = c := by
  simp only [leave?, Option.ite_none_right_eq_some, Option.some.injEq] at h
  exact h.2

/-- What a deed changes: the state, if it is about that, and the pins or the last access. -/
theorem attempt?_eq_some (h : b.attempt? a = some c) :
    c.state = a.target?.getD b.state ∧ b.lastAccess ≤ c.lastAccess ∧
      c.pins + [a].count .unpin = b.pins + [a].count .pin := by
  cases a with
  | claim job =>
    simp only [attempt?, claim?, Option.ite_none_right_eq_some, Option.some.injEq] at h
    simp [← h.2, Attempt.target?]
  | complete job bytes =>
    obtain rfl := eq_of_leave? h
    simp [Attempt.target?]
  | fail job fault =>
    obtain rfl := eq_of_leave? h
    simp [Attempt.target?]
  | revert job =>
    obtain rfl := eq_of_leave? h
    simp [Attempt.target?]
  | evict =>
    simp only [attempt?, evict?, Option.ite_none_right_eq_some, Option.some.injEq] at h
    simp [← h.2, Attempt.target?]
  | pin =>
    cases h
    simp [Attempt.target?, Block.pin]
  | unpin =>
    simp only [attempt?, Option.ite_none_left_eq_some, Option.some.injEq] at h
    obtain ⟨hpins, rfl⟩ := h
    simp only [Attempt.target?, Block.unpin, Option.getD_none, List.count_singleton, true_and, Nat.le_refl]
    simp
    omega
  | touch time =>
    cases h
    exact ⟨rfl, Nat.le_max_left _ _, by simp [Block.touch]⟩

namespace Attempt

theorem claimant?_of_settler? (h : a.settler? = some j) : a.claimant? = none := by
  cases a with
  | claim job => cases h
  | _ => rfl

/-- Who settles a claim leaves the block to nobody. -/
theorem exists_target? (h : a.settler? = some j) : ∃ s, a.target? = some s ∧ ∀ k, s ≠ .inFlight k := by
  cases a with
  | complete job bytes => exact ⟨_, rfl, nofun⟩
  | fail job fault => exact ⟨_, rfl, nofun⟩
  | revert job => exact ⟨_, rfl, nofun⟩
  | claim job => cases h
  | evict => cases h
  | pin => cases h
  | unpin => cases h
  | touch time => cases h

/-- What is not about the state takes and settles nothing. -/
theorem of_target?_eq_none (h : a.target? = none) : a.claimant? = none ∧ a.settler? = none := by
  cases a with
  | pin => exact ⟨rfl, rfl⟩
  | unpin => exact ⟨rfl, rfl⟩
  | touch time => exact ⟨rfl, rfl⟩
  | claim job => cases h
  | complete job bytes => cases h
  | fail job fault => cases h
  | revert job => cases h
  | evict => cases h

end Attempt

/-! ### Histories -/

theorem step_of_some (h : b.attempt? a = some c) : b.step a = c := by rw [step, h, Option.getD_some]

theorem step_of_none (h : b.attempt? a = none) : b.step a = b := by rw [step, h, Option.getD_none]

theorem step_of_not_isSome (h : ¬(b.attempt? a).isSome) : b.step a = b :=
  step_of_none (Option.not_isSome_iff_eq_none.mp h)

theorem state_step (b : Block) (a : Attempt) :
    (b.step a).state = if (b.attempt? a).isSome then a.target?.getD b.state else b.state := by
  cases h : b.attempt? a with
  | none => rw [step_of_none h, Option.isSome_none, if_neg Bool.false_ne_true]
  | some c => rw [step_of_some h, (attempt?_eq_some h).1, Option.isSome_some, if_pos rfl]

theorem state_step_of_none (ha : a.target? = none) : (b.step a).state = b.state := by
  rw [state_step, ha, Option.getD_none, ite_self]

/-- Nobody has a block that was settled. -/
theorem not_inFlight_of_settler? (ha : a.settler? = some j) (hdone : (b.attempt? a).isSome) (k : Nat) :
    (b.step a).state ≠ .inFlight k := by
  obtain ⟨s, htarget, hs⟩ := Attempt.exists_target? ha
  rw [state_step, if_pos hdone, htarget, Option.getD_some]
  exact hs k

theorem lastAccess_le_step (b : Block) (a : Attempt) : b.lastAccess ≤ (b.step a).lastAccess := by
  cases h : b.attempt? a with
  | none => exact Nat.le_of_eq (by rw [step_of_none h])
  | some c =>
    rw [step_of_some h]
    exact (attempt?_eq_some h).2.1

@[simp]
theorem run_cons (b : Block) (a : Attempt) (l : List Attempt) : b.run (a :: l) = (b.step a).run l := rfl

theorem run_append (b : Block) (l m : List Attempt) : b.run (l ++ m) = (b.run l).run m := List.foldl_append

theorem run_concat (b : Block) (l : List Attempt) (a : Attempt) : b.run (l ++ [a]) = (b.run l).step a :=
  run_append b l [a]

theorem deeds_append (b : Block) (l m : List Attempt) : b.deeds (l ++ m) = b.deeds l ++ (b.run l).deeds m := by
  induction l generalizing b with
  | nil => rfl
  | cons a l ih => simp [deeds, ih]

theorem deeds_concat (b : Block) (l : List Attempt) (a : Attempt) :
    b.deeds (l ++ [a]) = b.deeds l ++ if ((b.run l).attempt? a).isSome then [a] else [] := by
  rw [deeds_append]
  exact congrArg _ (List.append_nil _)

/-- Each deed was tried after the attempts that the deeds before it are among, and was not refused then. -/
theorem exists_of_deeds_eq (h : b.deeds l = before ++ a :: after) :
    ∃ l₁ l₂, l = l₁ ++ a :: l₂ ∧ b.deeds l₁ = before ∧ ((b.run l₁).attempt? a).isSome ∧
      ((b.run l₁).step a).deeds l₂ = after := by
  induction l generalizing b before with
  | nil => cases before <;> cases h
  | cons x l ih =>
    rw [deeds] at h
    split at h
    · rename_i hx
      cases before with
      | nil =>
        obtain ⟨rfl, hl⟩ := List.cons.inj h
        exact ⟨[], l, rfl, rfl, hx, hl⟩
      | cons y before =>
        obtain ⟨rfl, hl⟩ := List.cons.inj h
        obtain ⟨l₁, l₂, rfl, hbefore, hdone, hafter⟩ := ih hl
        exact ⟨x :: l₁, l₂, rfl, by simp [deeds, hx, hbefore], hdone, hafter⟩
    · rename_i hx
      obtain ⟨l₁, l₂, rfl, hbefore, hdone, hafter⟩ := ih h
      exact ⟨x :: l₁, l₂, rfl, by simp [deeds, hx, hbefore], hdone, hafter⟩

/-! ### Who holds a block -/

theorem held_concat : Held (d ++ [a]) j ↔ a = .claim j ∨ a.claimant? = none ∧ a.settler? = none ∧ Held d j := by
  constructor
  · rintro ⟨before, after, heq, hafter⟩
    rcases after.eq_nil_or_concat' with rfl | ⟨r, y, rfl⟩
    · exact .inl (List.cons.inj (List.append_inj' heq rfl).2).1
    · rw [← List.cons_append, ← List.append_assoc] at heq
      obtain ⟨rfl, hlast⟩ := List.append_inj' heq rfl
      cases hlast
      obtain ⟨hclaim, hsettle⟩ := hafter _ List.mem_concat_self
      exact .inr ⟨hclaim, hsettle, before, r, rfl, fun x hx => hafter x (List.mem_append_left _ hx)⟩
  · rintro (rfl | ⟨hclaim, hsettle, before, after, rfl, hafter⟩)
    · exact ⟨d, [], rfl, nofun⟩
    · refine ⟨before, after ++ [a], by simp, fun x hx => ?_⟩
      rcases List.mem_append.mp hx with hx | hx
      · exact hafter x hx
      · rw [List.mem_singleton.mp hx]
        exact ⟨hclaim, hsettle⟩

theorem not_held_nil : ¬Held [] j := by
  rintro ⟨before, after, heq, -⟩
  cases before <;> cases heq

/-- A block that nobody had in the beginning is in the hands of the job whose claim is open. -/
theorem inFlight_run_iff (hb : ∀ k, b.state ≠ .inFlight k) (l : List Attempt) :
    (b.run l).state = .inFlight j ↔ Held (b.deeds l) j := by
  induction l using List.reverseRecOn with
  | nil => exact iff_of_false (hb j) not_held_nil
  | append_singleton l a ih =>
    rw [run_concat, deeds_concat]
    split
    · rename_i hdone
      rw [held_concat]
      rcases deed_cases hdone with ⟨⟨k, rfl⟩, -⟩ | ⟨k, hk, -⟩ | ⟨rfl, ⟨x, hx⟩, -⟩ | hnone
      · simp [state_step, hdone, Attempt.target?, Attempt.claimant?]
      · refine iff_of_false (not_inFlight_of_settler? hk hdone j) ?_
        rintro (rfl | ⟨-, hsettle, -⟩)
        · cases hk
        · cases hk.symm.trans hsettle
      · -- Bytes are evicted of a block that is ready, so that nobody has it.
        simp [state_step, hdone, Attempt.target?, ← ih, hx]
      · obtain ⟨hclaim, hsettle⟩ := Attempt.of_target?_eq_none hnone
        rw [state_step_of_none hnone, ih]
        refine ⟨fun h => .inr ⟨hclaim, hsettle, h⟩, ?_⟩
        rintro (rfl | ⟨-, -, h⟩)
        · cases hclaim
        · exact h
    · rename_i hrefused
      rw [step_of_not_isSome hrefused, List.append_nil]
      exact ih

/-! ### Settling a claim -/

theorem settlers_cons (a : Attempt) (d : List Attempt) :
    settlers (a :: d) = if a.claimant?.isSome then [] else a.settler?.toList ++ settlers d := by
  unfold settlers
  cases hclaim : a.claimant? with
  | some k => simp [hclaim]
  | none => cases hsettle : a.settler? <;> simp [hclaim, hsettle]

/-- Nobody settles a block that nobody has. -/
theorem settlers_deeds_of_not_inFlight (h : ∀ k, b.state ≠ .inFlight k) (l : List Attempt) :
    settlers (b.deeds l) = [] := by
  induction l generalizing b with
  | nil => rfl
  | cons a l ih =>
    rw [deeds]
    split
    · rename_i hdone
      rw [List.singleton_append, settlers_cons]
      rcases deed_cases hdone with ⟨⟨k, rfl⟩, -⟩ | ⟨k, -, hk⟩ | ⟨rfl, -⟩ | hnone
      · rfl
      · exact absurd hk (h k)
      · exact ih fun k => by simp [state_step, hdone, Attempt.target?]
      · obtain ⟨hclaim, hsettle⟩ := Attempt.of_target?_eq_none hnone
        rw [hclaim, hsettle]
        exact ih fun k => by rw [state_step_of_none hnone]; exact h k
    · rename_i hrefused
      rw [step_of_not_isSome hrefused]
      exact ih h

/-- The job that has a block settles it, unless nobody does. -/
theorem settlers_deeds_of_inFlight (h : b.state = .inFlight j) (l : List Attempt) :
    settlers (b.deeds l) = [] ∨ settlers (b.deeds l) = [j] := by
  induction l generalizing b with
  | nil => exact .inl rfl
  | cons a l ih =>
    rw [deeds]
    split
    · rename_i hdone
      rw [List.singleton_append, settlers_cons]
      rcases deed_of_inFlight h hdone with hj | hnone
      · rw [Attempt.claimant?_of_settler? hj, hj,
          settlers_deeds_of_not_inFlight (not_inFlight_of_settler? hj hdone) l]
        exact .inr rfl
      · obtain ⟨hclaim, hsettle⟩ := Attempt.of_target?_eq_none hnone
        rw [hclaim, hsettle]
        exact ih ((state_step_of_none hnone).trans h)
    · rename_i hrefused
      rw [step_of_not_isSome hrefused]
      exact ih h

/-! ### Bytes -/

/-- Nothing brings back a block that was evicted. -/
theorem evicted_run (h : b.state = .evicted) (m : List Attempt) :
    (b.run m).state = .evicted ∧ ∀ a ∈ b.deeds m, a.target? = none := by
  induction m generalizing b with
  | nil => exact ⟨h, nofun⟩
  | cons a m ih =>
    rw [run_cons, deeds]
    split
    · rename_i hdone
      have hnone := deed_of_evicted h hdone
      obtain ⟨hrun, hdeeds⟩ := ih ((state_step_of_none hnone).trans h)
      exact ⟨hrun, List.forall_mem_cons.mpr ⟨hnone, hdeeds⟩⟩
    · rename_i hrefused
      rw [step_of_not_isSome hrefused]
      exact ih h

/-- Bytes that are there stay as they are until they are evicted. -/
theorem ready_run (h : b.state = .ready x) (m : List Attempt) :
    (b.run m).state = .ready x ∨ .evict ∈ b.deeds m ∧ (b.run m).state = .evicted := by
  induction m generalizing b with
  | nil => exact .inl h
  | cons a m ih =>
    rw [run_cons, deeds]
    split
    · rename_i hdone
      rcases deed_of_ready h hdone with rfl | hnone
      · have hevicted : (b.step .evict).state = .evicted := by simp [state_step, hdone, Attempt.target?]
        exact .inr ⟨List.mem_cons_self, (evicted_run hevicted m).1⟩
      · exact (ih ((state_step_of_none hnone).trans h)).imp_right (And.imp_left (List.mem_append_right _))
    · rename_i hrefused
      rw [step_of_not_isSome hrefused]
      exact ih h

/-! ### Pins and accesses -/

theorem pins_run (b : Block) (l : List Attempt) :
    (b.run l).pins + (b.deeds l).count .unpin = b.pins + (b.deeds l).count .pin := by
  induction l using List.reverseRecOn with
  | nil => rfl
  | append_singleton l a ih =>
    rw [run_concat, deeds_concat, List.count_append, List.count_append]
    cases h : (b.run l).attempt? a with
    | none =>
      rw [step_of_none h]
      exact ih
    | some c =>
      have hpins := (attempt?_eq_some h).2.2
      rw [step_of_some h, Option.isSome_some, if_pos rfl]
      omega

theorem lastAccess_le_run (b : Block) (l : List Attempt) : b.lastAccess ≤ (b.run l).lastAccess := by
  induction l generalizing b with
  | nil => exact Nat.le_refl _
  | cons a l ih => exact Nat.le_trans (lastAccess_le_step b a) (ih (b.step a))

/-! ### All of it -/

/-- What is true of a block after some attempts, whatever is tried on it next. -/
structure Orderly (b : Block) (l : List Attempt) : Prop where
  /-- A job settles a claim exactly if it is its own, the last one, and was not settled. -/
  settles_iff : ∀ a j, a.settler? = some j → (((b.run l).attempt? a).isSome ↔ Held (b.deeds l) j)
  /-- Nobody claims what somebody has. -/
  claims : ∀ j, ((b.run l).attempt? (.claim j)).isSome → ∀ k, ¬Held (b.deeds l) k
  /-- Until the next claim a claim is settled at most once, and by its own job. -/
  settled_once : ∀ before j after, b.deeds l = before ++ .claim j :: after →
    settlers after = [] ∨ settlers after = [j]
  stays_ready : ∀ m x, (b.run l).state = .ready x →
    (b.run (l ++ m)).state = .ready x ∨ .evict ∈ (b.run l).deeds m ∧ (b.run (l ++ m)).state = .evicted
  evicts_iff : ((b.run l).attempt? .evict).isSome ↔ (∃ x, (b.run l).state = .ready x) ∧ (b.run l).pins = 0
  /-- A pin counts from when it is taken to when it is given back. -/
  pins : (b.run l).pins + (b.deeds l).count .unpin = (b.deeds l).count .pin
  stays_evicted : ∀ m, (b.run l).state = .evicted →
    (b.run (l ++ m)).state = .evicted ∧ ∀ a ∈ (b.run l).deeds m, a.target? = none
  refused : ∀ a, (b.run l).attempt? a = none → b.run (l ++ [a]) = b.run l
  lastAccess_le : ∀ m, (b.run l).lastAccess ≤ (b.run (l ++ m)).lastAccess

/-- Whatever is tried on a new block, by whichever jobs and in whichever order: a job settles a claim if and only if it is
    the last one, its own and still open, so that no claim is settled twice; bytes stay as they are until they are
    evicted, which they can be while nobody pins them; after that nothing becomes of the block; what is refused changes
    nothing; and the last access only moves on. -/
theorem orderly_run (id : Nat) (span : Span) (l : List Attempt) : Orderly { id, span } l := by
  have hnew : ∀ k, ({ id, span } : Block).state ≠ .inFlight k := fun _ => nofun
  refine ⟨fun a j ha => ?_, fun j hdone k hk => ?_, fun before j after h => ?_, fun m x h => ?_, ?_, ?_, fun m h => ?_,
    fun a h => ?_, fun m => ?_⟩
  · exact (attempt?_settler_isSome ha).trans (inFlight_run_iff hnew l)
  · have hstate := (inFlight_run_iff hnew l).mpr hk
    rcases attempt?_claim_isSome.mp hdone with hp | ⟨f, hf⟩
    · cases hp.symm.trans hstate
    · cases hf.symm.trans hstate
  · obtain ⟨l₁, l₂, -, -, hdone, rfl⟩ := exists_of_deeds_eq h
    exact settlers_deeds_of_inFlight (by simp [state_step, hdone, Attempt.target?]) l₂
  · rw [run_append]
    exact ready_run h m
  · exact attempt?_evict_isSome
  · exact (pins_run _ l).trans (Nat.zero_add _)
  · rw [run_append]
    exact evicted_run h m
  · rw [run_concat, step_of_none h]
  · rw [run_append]
    exact lastAccess_le_run _ m

/-- The first job gave the block back, and what it brings afterwards is not taken. -/
example :
    let b : Block := { id := 0, span := ⟨0, 4⟩ }
    b.deeds [.claim 1, .revert 1, .claim 2, .complete 1 [1, 1, 1, 1], .complete 2 [2, 2, 2, 2], .revert 2] =
      [.claim 1, .revert 1, .claim 2, .complete 2 [2, 2, 2, 2]] := by
  decide

end RangeCache.Block
