import RangeCache.Proofs.Session.Calm

/-!
# How an operation takes its course

A task that runs goes from one stage of its operation to a later one, that is lighter, or its operation ends
(`Runs`). A footer that cannot be loaded or parsed, or is none, makes no difference to how it ends: unless a job fails
or is rejected, an operation of an open stream ends well. The lemmas follow the definitions, from the end of an
operation to its beginning.
-/

namespace RangeCache

/-- An operation ended well. -/
def Outcome.Succeeds (o : Outcome) : Prop := ∀ f, o ≠ .failed f

/-- The stream of an operation, if it is one of an open stream. -/
def Operation.stream? : Operation → Option Nat
  | .read id _ | .readTail id _ | .declare id _ | .declareNames id _ => some id
  | .openKey _ | .readSpan _ _ _ _ | .await _ _ _ | .loadFooter _ => none

/-- A goal is one of a stream that is there. -/
def Goal.Aims (s : Session) (id : Nat) (goal : Goal) : Prop :=
  Session.goalStream? goal = some id ∧ ∃ x, s.stream? id = some x

def Use.Aims (s : Session) (id : Nat) : Use → Prop
  | .bytes => True
  | .stream k _ => k = id ∧ ∃ x, s.stream? id = some x
  | .guess _ goal | .footer _ goal => goal.Aims s id

/-- A task is on an operation of a stream, and no block that it waits for is one whose last fetch failed. -/
def Activity.Fine (s : Session) (id : Nat) : Activity → Prop
  | .start op => op.stream? = some id ∧ ∃ x, s.stream? id = some x ∧ x.closed = false
  | .reading r use => (∀ b ∈ r.todo, s.cache.Unfailed r.store b) ∧ use.Aims s id
  | .turn _ goal => goal.Aims s id
  | .errand _ _ _ | .awaiting _ _ _ => False

/-- A task ran, and its operation goes on or ended well. -/
inductive Session.Fares (t id : Nat) (s s' : Session) : Prop
  | waits {a : Activity} (ht : ⟨t, a⟩ ∈ s'.tasks) (ha : a.Fine s' id) (hended : s'.ended = s.ended)
  | ends {o : Outcome} (ho : o.Succeeds) (hgone : ∀ u ∈ s'.tasks, u.id ≠ t) (hended : s'.ended = (t, o) :: s.ended)

/-- A task ran, and it weighs at most `k` now, with the tasks that it made. If it is on an operation of one of the
    streams that `ok` tells, and no job was rejected, then it fares well. -/
structure Session.Runs (t k : Nat) (ok : Nat → Prop) (s s' : Session) : Prop where
  burden : tally Activity.weight s'.tasks ≤ tally Activity.weight (s.besides t) + k
  backs : s'.cache.Backs s'.tasks
  harmless : Session.Harmless s s'
  fares : ∀ id, ok id → s'.cache.queue.rejected = s.cache.queue.rejected → Session.Fares t id s s'

section Aims
variable {s s' : Session} {id : Nat}

theorem Goal.Aims.keep {goal : Goal} (h : goal.Aims s id)
    (hs : ∀ x, s.stream? id = some x → ∃ y, s'.stream? id = some y ∧ y.closed = x.closed) : goal.Aims s' id := by
  obtain ⟨hid, x, hx⟩ := h
  obtain ⟨y, hy, -⟩ := hs x hx
  exact ⟨hid, y, hy⟩

theorem Use.Aims.keep {use : Use} (h : use.Aims s id)
    (hs : ∀ x, s.stream? id = some x → ∃ y, s'.stream? id = some y ∧ y.closed = x.closed) : use.Aims s' id := by
  cases use with
  | bytes => exact trivial
  | stream k offset =>
    obtain ⟨hid, x, hx⟩ := h
    obtain ⟨y, hy, -⟩ := hs x hx
    exact ⟨hid, y, hy⟩
  | guess object goal => exact Goal.Aims.keep h hs
  | footer object goal => exact Goal.Aims.keep h hs

theorem Activity.Fine.keep {a : Activity} (h : a.Fine s id)
    (hu : ∀ i b, s.cache.Unfailed i b → s'.cache.Unfailed i b)
    (hs : ∀ x, s.stream? id = some x → ∃ y, s'.stream? id = some y ∧ y.closed = x.closed) : a.Fine s' id := by
  cases a with
  | start op =>
    obtain ⟨hid, x, hx, hopen⟩ := h
    obtain ⟨y, hy, hclosed⟩ := hs x hx
    exact ⟨hid, y, hy, hclosed.trans hopen⟩
  | reading r use => exact ⟨fun b hb => hu _ _ (h.1 b hb), h.2.keep hs⟩
  | turn object goal => exact Goal.Aims.keep h hs
  | errand e n phase => exact h
  | awaiting object block owner => exact h

theorem Goal.Aims.mono {goal : Goal} (h : goal.Aims s id) (hs : Session.Harmless s s') : goal.Aims s' id :=
  h.keep fun _ hx => hs.streams hx

theorem Use.Aims.mono {use : Use} (h : use.Aims s id) (hs : Session.Harmless s s') : use.Aims s' id :=
  h.keep fun _ hx => hs.streams hx

end Aims

namespace Session

variable {C : Contents} {s s' s'' : Session} {t k : Nat} {l : Option Nat} {j : Option Job} {ok ok' : Nat → Prop}

theorem Sound.lt (h : s.Sound C (some ⟨t, l, j⟩)) : t < s.nextTask := by
  obtain ⟨u, hu, rfl⟩ := List.mem_map.mp (h.present _ rfl)
  exact h.fresh u hu

theorem Sound.lt_of_stream (h : s.Sound C (some ⟨t, l, j⟩)) {id : Nat} {x : Stream} (hx : s.stream? id = some x) :
    x.object < s.cache.stores.length := h.footers ▸ h.within.streams x (mem_of_stream? hx)

/-! ### Ways to stop -/

theorem Runs.mono (h : Runs t k ok s s') {m : Nat} (hk : k ≤ m) : Runs t m ok s s' :=
  { h with burden := Nat.le_trans h.burden (Nat.add_le_add_left hk _) }

theorem Runs.imp (h : Runs t k ok' s s') (hok : ∀ id, ok id → ok' id) : Runs t k ok s s' :=
  { h with fares := fun id hid => h.fares id (hok id hid) }

theorem Runs.unless (h : Runs t k (fun _ => False) s s') (hok : ∀ id, ¬ ok id) : Runs t k ok s s' := h.imp hok

theorem Fares.of_ended {id : Nat} (h : Fares t id s' s'') (he : s'.ended = s.ended) : Fares t id s s'' := by
  cases h with
  | waits ht ha hended => exact .waits ht ha (hended.trans he)
  | ends ho hgone hended => exact .ends ho hgone (he ▸ hended)

/-- What happens before a task stops makes no difference to how it stops. -/
theorem Calm.runs {m : Nat} (hc : Calm m s s') (ht : t < s.nextTask) (h : Runs t k ok' s' s'')
    (hok : ∀ id, ok id → s'.cache.queue.rejected = s.cache.queue.rejected → ok' id) : Runs t (k + m) ok s s'' where
  burden := by
    obtain ⟨l, hl, hw, -⟩ := hc.besides ht
    have hb := h.burden
    rw [hl, tally_append] at hb
    omega
  backs := h.backs
  harmless := hc.harmless.trans h.harmless
  fares id hid hr := by
    have hr' := hc.harmless.rejected_eq h.harmless hr
    exact (h.fares id (hok id hid hr') (hr.trans hr'.symm)).of_ended hc.ended

theorem runs_finish (hb : s.cache.Backs (s.besides t)) {o : Outcome} (ho : ∀ id, ok id → o.Succeeds) :
    Runs t 0 ok s (s.finish t o) where
  burden := Nat.le_refl _
  backs := hb
  harmless := .of_eq rfl rfl
  fares id hid _ := .ends (ho id hid) (fun u hu => by simpa using (List.mem_filter.mp hu).2) rfl

/-- Nothing is said of a task that ends, when it is on no operation of a stream. -/
theorem runs_stop (hb : s.cache.Backs (s.besides t)) (o : Outcome) : Runs t 0 (fun _ => False) s (s.finish t o) :=
  runs_finish hb fun _ => False.elim

theorem runs_succeed (hb : s.cache.Backs (s.besides t)) {o : Outcome} (ho : o.Succeeds) :
    Runs t 0 (fun _ => True) s (s.finish t o) := runs_finish hb fun _ _ => ho

/-- The stream of an operation is there as long as it goes well, so nothing is said of one whose stream is not. -/
theorem runs_lost (hb : s.cache.Backs (s.besides t)) {id : Nat} (hx : s.stream? id = none) (o : Outcome) :
    Runs t 0 (fun i => id = i ∧ ∃ x, s.stream? i = some x) s (s.finish t o) := by
  refine runs_finish hb ?_
  rintro i ⟨rfl, x, hx'⟩
  rw [hx] at hx'
  cases hx'

theorem runs_leave (hb : s.cache.Backs (s.besides t)) : Runs t 0 (fun _ => False) s (s.leave t) where
  burden := Nat.le_refl _
  backs := hb
  harmless := .of_eq rfl rfl
  fares _ hid := hid.elim

/-- The task that runs turns to something else. -/
theorem Sound.runs_become (h : s.Sound C (some ⟨t, l, j⟩)) {a : Activity} (hb : s.cache.Backs (⟨t, a⟩ :: s.besides t))
    (hcache : s'.cache = s.cache) (hstreams : s'.streams = s.streams) (hended : s'.ended = s.ended)
    (htasks : s'.tasks = (s.become t a).tasks) (hfine : ∀ id, ok id → a.Fine s' id) : Runs t a.weight ok s s' := by
  have hp : s'.tasks.Perm (⟨t, a⟩ :: s.besides t) := htasks ▸ perm_become h.ids (h.present _ rfl) a
  refine ⟨?_, hcache ▸ hb.perm hp, .of_eq hcache hstreams, fun id hid _ => ?_⟩
  · rw [tally_perm _ hp, tally_cons, Nat.add_comm]
  · exact .waits (hp.mem_iff.mpr List.mem_cons_self) (hfine id hid) hended

theorem Sound.runs_turnTo (h : s.Sound C (some ⟨t, l, j⟩)) {a : Activity} (hb : s.cache.Backs (⟨t, a⟩ :: s.besides t))
    (hfine : ∀ id, ok id → a.Fine (s.become t a) id) : Runs t a.weight ok s (s.become t a) :=
  h.runs_become hb rfl rfl rfl rfl hfine

/-! ### Reading -/

theorem besides_reading (s : Session) {f : Cache → Cache × Progress Reading} (ht : t < s.nextTask) :
    (s.onCache f).1.ended = s.ended ∧ ∃ l, (s.onCache f).1.besides t = s.besides t ++ l ∧
      tally Activity.weight l = 0 ∧ ∀ u ∈ l, ∀ r use, u.activity ≠ .reading r use := by
  obtain ⟨jobs, hbesides⟩ := besides_onCache s f ht
  refine ⟨?_, _, hbesides, weight_spawned _ _, fun u hu => not_reading_of_mem_spawned hu⟩
  obtain ⟨_, _, he⟩ := exists_onCache s f
  rw [he]

/-- A task that has the bytes of its read goes on with them. -/
theorem Sound.runs_read {use : Use} (h : s.Sound C (some ⟨t, l, none⟩)) (hb : s.cache.Backs (s.besides t))
    {f : Cache → Cache × Progress Reading} {next : Session → Except Fault Bytes → Session}
    (hm : Moves (fun _ _ => False) ⟨s.cache, []⟩ ⟨(f s.cache).1, []⟩) {b : Except Fault Bytes}
    (hdone : (f s.cache).2 = .done b)
    (hpins : (f s.cache).1.PinsBeside (fun i id => tally (Activity.holds i id) (s.besides t)) (f s.cache).2)
    (hnext : ∀ s', s'.Sound C (some ⟨t, l, none⟩) → Harmless s s' → s'.cache.Backs (s'.besides t) →
      Runs t k (fun id => ok id ∧ (f s.cache).1.queue.rejected = s.cache.queue.rejected) s' (next s' b)) :
    Runs t k ok s (s.reading t use f next) := by
  have hs := h.onCache hm
  have hharmless := harmless_onCache (f := f) h.cache.stores hm
  have hcache := cache_onCache s f
  obtain ⟨hended, jobs, hbesides, hweight, hjobs⟩ := besides_reading s (f := f) h.lt
  unfold reading
  rw [show s.onCache f = ((s.onCache f).1, (f s.cache).2) from rfl, hdone]
  rw [hdone] at hpins
  generalize (s.onCache f).1 = s' at hs hharmless hcache hended hbesides ⊢
  have hrejected : s'.cache.queue.rejected = (f s.cache).1.queue.rejected := by rw [hcache]
  have hback : s'.cache.Backs (s'.besides t) := by
    rw [hbesides, hcache]
    exact (Cache.Backs.append ⟨hpins, hb.todo⟩ hjobs).keep (Cache.keepsPins_takeNotices _)
  have hruns := hnext s' hs hharmless hback
  refine ⟨?_, hruns.backs, hharmless.trans hruns.harmless, fun id hid hr => ?_⟩
  · have hburden := hruns.burden
    rwa [hbesides, tally_append, hweight, Nat.add_zero] at hburden
  · have hr' := hharmless.rejected_eq hruns.harmless hr
    exact (hruns.fares id ⟨hid, hrejected ▸ hr'⟩ (hr.trans hr'.symm)).of_ended hended

/-- A task reads: it waits for a block, or goes on with what it got. -/
theorem Sound.runs_reading {use : Use} (h : s.Sound C (some ⟨t, l, none⟩)) (hb : s.cache.Backs (s.besides t))
    {f : Cache → Cache × Progress Reading} {next : Session → Except Fault Bytes → Session}
    (hm : Moves (fun _ _ => False) ⟨s.cache, []⟩ ⟨(f s.cache).1, []⟩)
    (hpins : (f s.cache).1.PinsBeside (fun i id => tally (Activity.holds i id) (s.besides t)) (f s.cache).2)
    (htodo : ∀ r, (f s.cache).2 = .waiting r → r.todo ⊆ r.pinned)
    (hwaits : ∀ id, ok id → (f s.cache).1.queue.rejected = s.cache.queue.rejected → ∀ r, (f s.cache).2 = .waiting r →
      ∀ b ∈ r.todo, (f s.cache).1.Unfailed r.store b)
    (huse : ∀ id, ok id → use.Aims s id) (hk : k ≤ use.weight)
    (hnext : ∀ s' b, s'.Sound C (some ⟨t, l, none⟩) → Harmless s s' → s'.cache.Backs (s'.besides t) →
      Runs t k (fun id => ok id ∧ (f s.cache).2 = .done b ∧ (f s.cache).1.queue.rejected = s.cache.queue.rejected) s'
        (next s' b)) :
    Runs t use.weight ok s (s.reading t use f next) := by
  cases hprog : (f s.cache).2 with
  | done b =>
    refine (h.runs_read hb hm hprog hpins fun s' hs hharmless hback => ?_).mono hk
    exact (hnext s' b hs hharmless hback).imp fun id hid => ⟨hid.1, hprog, hid.2⟩
  | waiting r =>
    have hs := h.onCache hm
    have hharmless := harmless_onCache (f := f) h.cache.stores hm
    have hcache := cache_onCache s f
    obtain ⟨hended, jobs, hbesides, hweight, hjobs⟩ := besides_reading s (f := f) h.lt
    unfold reading
    rw [show s.onCache f = ((s.onCache f).1, (f s.cache).2) from rfl, hprog]
    rw [hprog] at hpins
    generalize (s.onCache f).1 = s' at hs hharmless hcache hended hbesides ⊢
    have hback : s'.cache.Backs (⟨t, .reading r use⟩ :: s'.besides t) := by
      rw [hbesides, hcache]
      have hcons := Cache.Backs.cons_reading hpins hb.todo (htodo r hprog) t use
      exact (hcons.append hjobs : (f s.cache).1.Backs (_ :: s.besides t ++ jobs)).keep (Cache.keepsPins_takeNotices _)
    have hruns : Runs t (Activity.reading r use).weight
        (fun id => ok id ∧ s'.cache.queue.rejected = s.cache.queue.rejected) s' (s'.become t (.reading r use)) :=
      hs.runs_turnTo hback fun id hid => ?_
    · refine ⟨?_, hruns.backs, hharmless.trans hruns.harmless, fun id hid hr => ?_⟩
      · have hburden := hruns.burden
        rwa [hbesides, tally_append, hweight, Nat.add_zero, Activity.weight_reading] at hburden
      · exact (hruns.fares id ⟨hid, hr⟩ rfl).of_ended hended
    · have hrejected : s'.cache.queue.rejected = (f s.cache).1.queue.rejected := by rw [hcache]
      have := hwaits id hid.1 (hrejected ▸ hid.2) r hprog
      refine ⟨fun b hbr => ?_, (huse id hid.1).mono (hharmless.trans (.of_eq rfl rfl))⟩
      show s'.cache.Unfailed r.store b
      rw [hcache]
      exact this b hbr

theorem Sound.runs_beginRead (h : s.Sound C (some ⟨t, l, none⟩)) (use : Use) (hb : s.cache.Backs (s.besides t)) (i : Nat)
    (span : Span) (fit : Fit) (owner : Option Nat) {next : Session → Except Fault Bytes → Session}
    (huse : ∀ id, ok id → use.Aims s id) (hk : k ≤ use.weight)
    (hnext : ∀ s' b, s'.Sound C (some ⟨t, l, none⟩) → Harmless s s' → s'.cache.Backs (s'.besides t) →
      Runs t k (fun id => ok id ∧ (i < s.cache.stores.length → Cache.isFailure b = false)) s' (next s' b)) :
    Runs t use.weight ok s (s.reading t use (fun c => c.beginRead i span fit owner) next) := by
  have hc := h.cache.stores
  refine h.runs_reading hb (f := fun c => c.beginRead i span fit owner) (Cache.moves_beginRead hc ..)
    (Cache.pins_beginRead hc hb.pins ..) (fun r hr => (Cache.pinned_of_waiting hr).2.subset)
    (fun _ _ _ _ hwait => (Cache.opens_of_beginRead hc hwait).unfailed) huse hk fun s' b hs hharmless hback => ?_
  refine (hnext s' b hs hharmless hback).imp fun id ⟨hid, hdone, hr⟩ => ⟨hid, fun hi => ?_⟩
  have hproceeds := Cache.proceeds_beginRead hc hi span fit owner hr
  rwa [hdone] at hproceeds

/-! ### The end of a read -/

theorem Sound.runs_afterStream (h : s.Sound C (some ⟨t, none, none⟩)) (hb : s.cache.Backs (s.besides t))
    (id offset : Nat) (r : Except Fault Bytes) :
    Runs t 0 (fun i => (id = i ∧ ∃ x, s.stream? i = some x) ∧ Cache.isFailure r = false) s
      (s.afterStream t id offset r) := by
  cases r with
  | error f =>
    refine runs_finish hb ?_
    rintro i ⟨-, hr⟩
    cases hr
  | ok b =>
    unfold afterStream
    cases hx : s.stream? id with
    | none => exact (runs_lost hb hx _).imp fun i hi => hi.1
    | some x =>
      have hmove : Calm 0 s (s.modifyStream id fun y => { y with position := y.position + b.length }) :=
        calm_modifyStream s id (fun _ => rfl) fun _ => rfl
      have hcalm := hmove.trans (calm_recordColumn _ x offset)
      exact hcalm.runs h.lt (runs_succeed (hcalm.backs_besides h.lt hb) nofun) fun _ _ _ => trivial

theorem runs_afterBytes (hb : s.cache.Backs (s.besides t)) (r : Except Fault Bytes) :
    Runs t 0 (fun _ => Cache.isFailure r = false) s (s.afterBytes t r) := by
  cases r with
  | error f => exact runs_finish hb fun _ => nofun
  | ok b => exact runs_finish hb fun _ _ => nofun

/-! ### Goals -/

theorem Sound.runs_select (h : s.Sound C (some ⟨t, none, none⟩)) (hb : s.cache.Backs (s.besides t)) (id : Nat)
    (columns : List Nat) {o : Outcome} (ho : o.Succeeds) :
    Runs t 0 (fun i => id = i ∧ ∃ x, s.stream? i = some x) s (s.select t id columns o) := by
  unfold select
  cases hx : s.stream? id with
  | none => exact runs_lost hb hx _
  | some x =>
    dsimp only
    obtain ⟨hcalm, hok⟩ := h.grants_replan x fun p => p.onSelect x.position columns
    have hb' := hcalm.backs_besides h.lt hb
    split <;> rename_i heq <;> rw [heq] at hcalm hok hb'
    · exact hcalm.runs h.lt (runs_succeed hb' ho) fun _ _ _ => trivial
    · refine hcalm.runs h.lt (runs_stop hb' _) fun _ _ hr => ?_
      cases hok hr

theorem Sound.runs_pursue_read (h : s.Sound C (some ⟨t, none, none⟩)) (hb : s.cache.Backs (s.besides t))
    (id offset length : Nat) :
    Runs t 1 (Goal.Aims s · (.read id offset length)) s (s.pursue t (.read id offset length)) := by
  unfold pursue
  dsimp only
  cases hx : s.stream? id with
  | none =>
    exact ((runs_lost hb hx _).mono (Nat.zero_le 1)).imp fun i hi => ⟨Option.some.inj hi.1, hi.2⟩
  | some x =>
    dsimp only
    obtain ⟨hs, haside⟩ := h.replan x fun p => p.onRead s.recent.paths offset length
    obtain ⟨hcalm, hok⟩ := h.grants_replan x fun p => p.onRead s.recent.paths offset length
    have hb' := hcalm.backs_besides h.lt hb
    obtain ⟨y, hy, hobject, -⟩ := haside.streams hx
    split <;> rename_i heq <;> rw [heq] at hs hcalm hok hb' hy
    · refine (hcalm.runs h.lt (runs_stop hb' _) fun _ _ hr => ?_).mono
        (Nat.zero_le 1)
      cases hok hr
    · have hlt := hobject ▸ hs.lt_of_stream hy
      refine hcalm.runs h.lt (k := 1) ?_ fun i hi _ => hi.mono hcalm.harmless
      refine hs.runs_beginRead (.stream id offset) hb' _ _ _ _ (fun i hi => ⟨Option.some.inj hi.1, hi.2⟩)
        (Nat.zero_le 1) fun s₂ b h₂ hharmless hb₂ => ?_
      exact (h₂.runs_afterStream hb₂ id offset b).imp fun i ⟨hi, hnot⟩ =>
        ⟨⟨Option.some.inj hi.1, (hi.mono hharmless).2⟩, hnot hlt⟩

theorem Sound.runs_pursue_readTail (h : s.Sound C (some ⟨t, none, none⟩)) (hb : s.cache.Backs (s.besides t))
    (id length : Nat) : Runs t 1 (Goal.Aims s · (.readTail id length)) s (s.pursue t (.readTail id length)) := by
  unfold pursue
  dsimp only
  cases hx : s.stream? id with
  | none =>
    exact ((runs_lost hb hx _).mono (Nat.zero_le 1)).imp fun i hi => ⟨Option.some.inj hi.1, hi.2⟩
  | some x =>
    exact h.runs_beginRead .bytes hb _ _ _ _ (fun _ _ => trivial) (Nat.zero_le 1) fun s₁ b _ _ hb₁ =>
      (runs_afterBytes hb₁ b).imp fun _ hi => hi.2 (h.lt_of_stream hx)

/-- A goal is reached, now that it is known what can be known of the footer. -/
theorem Sound.runs_pursue (h : s.Sound C (some ⟨t, none, none⟩)) (hb : s.cache.Backs (s.besides t)) (goal : Goal) :
    Runs t 1 (Goal.Aims s · goal) s (s.pursue t goal) := by
  cases goal with
  | read id offset length => exact h.runs_pursue_read hb id offset length
  | readTail id length => exact h.runs_pursue_readTail hb id length
  | declare id columns =>
    exact ((h.runs_select hb id columns (o := .done) nofun).mono (Nat.zero_le 1)).imp fun i hi =>
      ⟨Option.some.inj hi.1, hi.2⟩
  | declareNames id names =>
    unfold pursue
    dsimp only
    split
    · exact (runs_finish hb (o := .counted 0) fun _ _ => nofun).mono (Nat.zero_le 1)
    · rename_i l _
      exact ((h.runs_select hb id (names.filterMap l.columnIndex?)
        (o := .counted (names.filterMap l.columnIndex?).length) nofun).mono (Nat.zero_le 1)).imp fun i hi =>
          ⟨Option.some.inj hi.1, hi.2⟩
  | footer =>
    exact ((runs_leave hb).mono (Nat.zero_le 1)).unless fun i hi => nomatch hi.1

theorem Sound.runs_arrive (h : s.Sound C (some ⟨t, none, none⟩)) (hb : s.cache.Backs (s.besides t)) (goal : Goal)
    (f : Option FooterState) : Runs t 1 (Goal.Aims s · goal) s (s.arrive t goal f) := by
  unfold arrive
  split
  · rename_i id f _
    have hcalm := calm_adopt s id f
    exact hcalm.runs h.lt (((h.adopt id f).1).runs_pursue (hcalm.backs_besides h.lt hb) goal) fun i hi _ =>
      hi.mono hcalm.harmless
  · exact h.runs_pursue hb goal

/-! ### Footers -/

variable {object : Nat}

/-- Whatever the footer is found to be, the goal is reached. -/
theorem Sound.runs_settleFooter (h : s.Sound C (some ⟨t, some object, none⟩)) (hb : s.cache.Backs (s.besides t))
    (goal : Goal) (p : Except FooterFault Footer.Parse) :
    Runs t 1 (Goal.Aims s · goal) s (s.settleFooter t object goal p) := by
  have hprefetch : ∃ s', s'.Sound C (some ⟨t, some object, none⟩) ∧ Calm 0 s s' ∧
      s.settleFooter t object goal p = ((queueOf (s'.footer object)).foldl resume
        (s'.setFooter object (.loaded (footerState (s.size object) p)))).arrive t goal
          (some (footerState (s.size object) p)) := by
    unfold settleFooter
    dsimp only
    cases footerState (s.size object) p with
    | parsed l => exact ⟨_, (h.prefetchPageIndex object l).1, h.calm_prefetchPageIndex object l, rfl⟩
    | degraded f => exact ⟨s, h, .refl s, rfl⟩
  obtain ⟨s', h', hcalm, he⟩ := hprefetch
  rw [he]
  have hcalm' := (hcalm.trans (calm_setFooter s' object (.loaded (footerState (s.size object) p)))).trans
    (calm_resumeAll (queueOf (s'.footer object)) _)
  exact hcalm'.runs h.lt ((h'.endLoad _).runs_arrive (hcalm'.backs_besides h.lt hb) goal _) fun i hi _ =>
    hi.mono hcalm'.harmless

/-- The goal is reached without the footer. -/
theorem Sound.runs_failFooter (h : s.Sound C (some ⟨t, some object, none⟩)) (hb : s.cache.Backs (s.besides t))
    (goal : Goal) : Runs t 1 (Goal.Aims s · goal) s (s.failFooter t object goal) := by
  have hcalm := calm_failLoad s object
  exact hcalm.runs h.lt (h.failLoad.runs_arrive (hcalm.backs_besides h.lt hb) goal none) fun i hi _ =>
    hi.mono hcalm.harmless

theorem Sound.runs_afterFooter (h : s.Sound C (some ⟨t, some object, none⟩)) (hb : s.cache.Backs (s.besides t))
    (goal : Goal) (r : Except Fault Bytes) : Runs t 1 (Goal.Aims s · goal) s (s.afterFooter t object goal r) := by
  cases r with
  | error f => exact h.runs_failFooter hb goal
  | ok tail => exact h.runs_settleFooter hb goal _

theorem Sound.runs_afterGuess (h : s.Sound C (some ⟨t, some object, none⟩)) (hb : s.cache.Backs (s.besides t))
    (goal : Goal) (r : Except Fault Bytes) : Runs t 2 (Goal.Aims s · goal) s (s.afterGuess t object goal r) := by
  cases r with
  | error f => exact (h.runs_failFooter hb goal).mono (Nat.le_succ 1)
  | ok tail =>
    unfold afterGuess
    dsimp only
    split
    · split
      · exact h.runs_beginRead (.footer object goal) hb _ _ _ _ (fun _ hi => hi) (Nat.le_succ 1)
          fun s' b h' hharmless hb' => (h'.runs_afterFooter hb' goal b).imp fun _ hi => hi.1.mono hharmless
      · exact (h.runs_settleFooter hb goal _).mono (Nat.le_succ 1)
    · exact (h.runs_settleFooter hb goal _).mono (Nat.le_succ 1)

theorem Sound.runs_load (h : s.Sound C (some ⟨t, some object, none⟩)) (hb : s.cache.Backs (s.besides t)) (goal : Goal) :
    Runs t 3 (Goal.Aims s · goal) s (s.load t object goal) := by
  exact h.runs_beginRead (.guess object goal) hb _ _ _ _ (fun _ hi => hi) (Nat.le_succ 2)
    fun s' b h' hharmless hb' => (h'.runs_afterGuess hb' goal b).imp fun _ hi => hi.1.mono hharmless

theorem Sound.runs_needFooter (h : s.Sound C (some ⟨t, none, none⟩)) (hb : s.cache.Backs (s.besides t)) (goal : Goal) :
    Runs t 4 (Goal.Aims s · goal) s (s.needFooter t object goal) := by
  unfold needFooter
  split
  · exact (h.runs_arrive hb goal _).mono (by decide)
  · rename_i ho
    have hcalm := calm_setFooter s object (.loading t [])
    refine (hcalm.runs h.lt ((h.beginLoad ho).runs_load (hcalm.backs_besides h.lt hb) goal) fun i hi _ => ?_).mono
      (Nat.le_succ 3)
    exact hi.mono hcalm.harmless
  · exact h.runs_become (a := .turn object goal) (hb.cons nofun) rfl rfl rfl rfl fun _ hi => hi

theorem Sound.runs_syncFooter (h : s.Sound C (some ⟨t, none, none⟩)) (hb : s.cache.Backs (s.besides t)) (x : Stream)
    (offset length : Nat) (goal : Goal) :
    Runs t 4 (Goal.Aims s · goal) s (s.syncFooter t x offset length goal) := by
  unfold syncFooter
  split
  · exact (h.runs_pursue hb goal).mono (by decide)
  · split
    · exact (h.runs_arrive hb goal _).mono (by decide)
    · split
      · exact h.runs_needFooter hb goal
      · exact (h.runs_pursue hb goal).mono (by decide)

theorem Sound.runs_demandFooter (h : s.Sound C (some ⟨t, none, none⟩)) (hb : s.cache.Backs (s.besides t)) (x : Stream)
    (goal : Goal) : Runs t 4 (Goal.Aims s · goal) s (s.demandFooter t x goal) := by
  unfold demandFooter
  split
  · exact (h.runs_pursue hb goal).mono (by decide)
  · exact h.runs_needFooter hb goal

end Session

end RangeCache
