import RangeCache.Proofs.Store.Updates

/-!
# What updates leave alone

Claiming blocks, giving them back and failing them changes the blocks of a store and nothing else, and none
of the updates of a store changes how many jobs were accepted for it.
-/

namespace RangeCache.Store

variable {s : Store}

/-! ### Only the blocks change -/

theorem modify?_eq (s : Store) (id : Nat) (f : Block → Option Block) :
    ∃ blocks, (s.modify? id f).1 = { s with blocks } := by
  unfold modify?
  split
  · exact ⟨_, rfl⟩
  · exact ⟨s.blocks, rfl⟩

theorem foldl_eq {u : Store → Nat → Store} (hu : ∀ s i, ∃ blocks, u s i = { s with blocks }) (s : Store)
    (ids : List Nat) : ∃ blocks, ids.foldl u s = { s with blocks } := by
  induction ids generalizing s with
  | nil => exact ⟨s.blocks, rfl⟩
  | cons i ids ih =>
    obtain ⟨blocks, hfirst⟩ := hu s i
    obtain ⟨blocks', hrest⟩ := ih (u s i)
    exact ⟨blocks', by rw [List.foldl_cons, hrest, hfirst]⟩

theorem claim_eq (s : Store) (job : Nat) (ids : List Nat) : ∃ blocks, s.claim job ids = { s with blocks } :=
  foldl_eq (fun s i => s.modify?_eq i _) s ids

theorem revert_eq (s : Store) (job : Nat) (ids : List Nat) : ∃ blocks, s.revert job ids = { s with blocks } :=
  foldl_eq (fun s i => s.modify?_eq i _) s ids

theorem fail_eq (s : Store) (job : Nat) (ids : List Nat) (f : Fault) :
    ∃ blocks, s.fail job ids f = { s with blocks } := foldl_eq (fun s i => s.modify?_eq i _) s ids

theorem pin_eq (s : Store) (ids : List Nat) : ∃ blocks, s.pin ids = { s with blocks } :=
  foldl_eq (fun _ _ => ⟨_, rfl⟩) s ids

theorem unpin_eq (s : Store) (ids : List Nat) : ∃ blocks, s.unpin ids = { s with blocks } :=
  foldl_eq (fun _ _ => ⟨_, rfl⟩) s ids

theorem fetches_foldl {α : Type} {u : Store → α → Store} (hu : ∀ s a, (u s a).fetches = s.fetches) (s : Store)
    (l : List α) : (l.foldl u s).fetches = s.fetches := by
  induction l generalizing s with
  | nil => rfl
  | cons a l ih => exact (ih (u s a)).trans (hu s a)

theorem fetches_of_blocks {s t : Store} (h : ∃ blocks, t = { s with blocks }) : t.fetches = s.fetches := by
  obtain ⟨blocks, rfl⟩ := h
  rfl

theorem fetches_fillAll (s : Store) (fit : Fit) (spans : List Span) : (s.fillAll fit spans).fetches = s.fetches := by
  have hadd : ∀ (s : Store) (l : List Span), (l.foldl addBlock s).fetches = s.fetches :=
    fetches_foldl fun _ _ => rfl
  have hfill : ∀ (s : Store) (span : Span), (s.fill fit span).fetches = s.fetches := fun s span =>
    fetches_foldl (u := (fillGap · fit)) (fun s _ => hadd s _) s _
  exact fetches_foldl hfill s _

theorem fetches_complete (s : Store) (job : Nat) (ids : List Nat) (start : Nat) (data : Bytes) :
    (s.complete job ids start data).fetches = s.fetches := by
  refine fetches_foldl (fun s id => ?_) s.tick ids
  unfold completeOne
  split
  · rfl
  · rename_i b _
    have hmodify := fetches_of_blocks ((s.touch id).modify?_eq id fun x =>
      x.complete? job (data.slice ⟨b.span.start - start, b.span.stop - start⟩))
    dsimp only
    split <;> exact hmodify

theorem fetches_evict (s : Store) : s.evict.fetches = s.fetches := by
  have hfrom : ∀ (l : List Block) (s : Store), (s.evictFrom l).fetches = s.fetches := by
    intro l
    induction l with
    | nil => exact fun _ => rfl
    | cons b l ih =>
      intro s
      unfold evictFrom
      split
      · rfl
      · refine (ih _).trans ?_
        unfold evictOne
        split <;> rfl
  exact hfrom _ s

end RangeCache.Store
