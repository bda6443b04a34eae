import RangeCache.Proofs.Session.Events

/-!
# The roll of a session

The roll tells which objects are kept and which streams are open over which objects. Next to nothing that a session
does changes it: reads, plans, footers and jobs leave it as it is, by one equation for each definition. A step enrolls
a stream (`Admits`), strikes one off that is closed, or leaves the roll alone (`Sound.roll_step`).
-/

namespace RangeCache

/-- A stream on the roll: its number, its object, and whether it was closed. -/
structure Lessee where
  id : Nat
  object : Nat
  closed : Bool

def Stream.lessee (x : Stream) : Lessee := ⟨x.id, x.object, x.closed⟩

/-- The objects that are kept, and all streams so far, in the order in which they were opened. -/
structure Roll where
  registry : Registry
  lessees : List Lessee

namespace Roll

/-- A stream is enrolled over an object, which gets the number `fresh` if it is not kept. -/
def enroll (r : Roll) (h : Handle) (fresh : Nat) : Roll :=
  let (registry, t, _) := r.registry.acquire h fresh
  { registry, lessees := r.lessees ++ [⟨r.lessees.length + 1, t.object, false⟩] }

/-- A stream is struck off, and the lease given back that it had on the object of a key. -/
def strike (r : Roll) (id : Nat) (key : String) : Roll where
  registry := { r.registry with entries := r.registry.entries.map fun t =>
    if t.handle.key = key then { t with leases := t.leases - 1 } else t }
  lessees := r.lessees.map fun t => if t.id = id then { t with closed := true } else t

/-- The idle objects are dropped that are too many. -/
def trim (r : Roll) : Roll :=
  { r with registry := { r.registry with entries := Registry.trim r.registry.maxIdle r.registry.entries } }

end Roll

namespace Session

def roll (s : Session) : Roll := ⟨s.registry, s.streams.map Stream.lessee⟩

variable {s s' : Session}

/-! ### Tasks and footers -/

@[simp] theorem roll_become (s : Session) (id : Nat) (a : Activity) : (s.become id a).roll = s.roll := rfl

@[simp] theorem roll_leave (s : Session) (id : Nat) : (s.leave id).roll = s.roll := rfl

@[simp] theorem roll_finish (s : Session) (id : Nat) (o : Outcome) : (s.finish id o).roll = s.roll := rfl

@[simp] theorem roll_spawn (s : Session) (a : Activity) : (s.spawn a).roll = s.roll := rfl

@[simp] theorem roll_setFooter (s : Session) (o : Nat) (c : FooterCell) : (s.setFooter o c).roll = s.roll := rfl

@[simp] theorem roll_addObject (s : Session) (h : Handle) : (s.addObject h).roll = s.roll := rfl

@[simp] theorem roll_resumeAll (l : List Nat) (s : Session) : (l.foldl resume s).roll = s.roll := by
  obtain ⟨r, hr, -⟩ := exists_resumeAll l s
  rw [hr]
  rfl

@[simp] theorem roll_resume (s : Session) (id : Nat) : (s.resume id).roll = s.roll := roll_resumeAll [id] s

@[simp] theorem roll_onCache {α : Type} (s : Session) (f : Cache → Cache × α) : (s.onCache f).1.roll = s.roll := by
  obtain ⟨l, r, he⟩ := exists_onCache s f
  rw [he]
  rfl

/-! ### Streams and their plans -/

theorem roll_modifyStream (s : Session) (id : Nat) {f : Stream → Stream} (hf : ∀ x, (f x).lessee = x.lessee) :
    (s.modifyStream id f).roll = s.roll := by
  unfold roll modifyStream
  rw [List.map_map]
  congr 1
  refine List.map_congr_left fun x _ => ?_
  by_cases hx : x.id = id <;> simp [hx, hf]

@[simp] theorem roll_prefetchSmall (s : Session) (o : Nat) (h : Handle) : (s.prefetchSmall o h).roll = s.roll := by
  unfold prefetchSmall
  split <;> simp

@[simp] theorem roll_prefetchFooter (s : Session) (o : Nat) (h : Handle) : (s.prefetchFooter o h).roll = s.roll := by
  unfold prefetchFooter
  split <;> simp

@[simp] theorem roll_prefetchPageIndex (s : Session) (o : Nat) (l : Layout) :
    (s.prefetchPageIndex o l).roll = s.roll := by
  unfold prefetchPageIndex
  dsimp only
  split <;> simp

@[simp] theorem roll_ensurePlan (s : Session) (x : Stream) (plan : Plan) (priority : Priority) :
    (s.ensurePlan x plan priority).1.roll = s.roll := by
  unfold ensurePlan
  split <;> simp

@[simp] theorem roll_applyPlan (s : Session) (x : Stream) (plan : Plan) : (s.applyPlan x plan).1.roll = s.roll := by
  have hfirst := roll_ensurePlan (s.onCache fun c => c.cancel x.id).1 x plan .immediate
  unfold applyPlan
  dsimp only
  split <;> rename_i heq <;> rw [heq] at hfirst <;> simpa using hfirst

@[simp] theorem roll_replan (s : Session) (x : Stream) (f : Planner → Planner × Plan) :
    (s.replan x f).1.roll = s.roll := by
  unfold replan
  rw [roll_applyPlan]
  exact roll_modifyStream s x.id fun _ => rfl

@[simp] theorem roll_adopt (s : Session) (id : Nat) (f : FooterState) : (s.adopt id f).roll = s.roll :=
  roll_modifyStream s id fun _ => by cases f <;> rfl

@[simp] theorem roll_recordColumn (s : Session) (x : Stream) (offset : Nat) :
    (s.recordColumn x offset).roll = s.roll := by
  unfold recordColumn
  repeat' split
  all_goals rfl

@[simp] theorem roll_seek (s : Session) (id position : Nat) : (s.seek id position).1.roll = s.roll := by
  unfold seek
  split
  · rfl
  · rename_i x _
    dsimp only
    split
    · rfl
    · split
      · rfl
      · have hreplan := roll_replan (s.modifyStream id fun y => { y with position }) x fun p =>
          p.onSeek (s.modifyStream id fun y => { y with position }).recent.paths position
        rw [roll_modifyStream s id (f := fun y => { y with position }) fun _ => rfl] at hreplan
        split <;> rename_i heq <;> rw [heq] at hreplan <;> exact hreplan

/-! ### Operations -/

section Operations

theorem roll_reading (s : Session) (t : Nat) (use : Use) (f : Cache → Cache × Progress Reading)
    {next : Session → Except Fault Bytes → Session} (hnext : ∀ s' b, (next s' b).roll = s'.roll) :
    (s.reading t use f next).roll = s.roll := by
  have hcache := roll_onCache s f
  unfold reading
  split <;> rename_i heq <;> rw [heq] at hcache
  · exact hcache
  · exact (hnext _ _).trans hcache

@[simp] theorem roll_afterStream (s : Session) (t id offset : Nat) (r : Except Fault Bytes) :
    (s.afterStream t id offset r).roll = s.roll := by
  unfold afterStream
  split
  · rfl
  · split
    · rfl
    · simp only [roll_finish, roll_recordColumn]
      exact roll_modifyStream s id fun _ => rfl

@[simp] theorem roll_afterBytes (s : Session) (t : Nat) (r : Except Fault Bytes) :
    (s.afterBytes t r).roll = s.roll := by
  cases r <;> rfl

@[simp] theorem roll_select (s : Session) (t id : Nat) (columns : List Nat) (o : Outcome) :
    (s.select t id columns o).roll = s.roll := by
  unfold select
  split
  · rfl
  · rename_i x _
    have hreplan := roll_replan s x fun p => p.onSelect x.position columns
    split <;> rename_i heq <;> rw [heq] at hreplan <;> exact hreplan

@[simp] theorem roll_pursue (s : Session) (t : Nat) (goal : Goal) : (s.pursue t goal).roll = s.roll := by
  cases goal with
  | read id offset length =>
    unfold pursue
    dsimp only
    split
    · rfl
    · rename_i x _
      have hreplan := roll_replan s x fun p => p.onRead s.recent.paths offset length
      split <;> rename_i heq <;> rw [heq] at hreplan
      · exact hreplan
      · exact (roll_reading _ t _ _ fun s b => roll_afterStream s t id offset b).trans hreplan
  | readTail id length =>
    unfold pursue
    dsimp only
    split
    · rfl
    · exact roll_reading s t _ _ fun s b => roll_afterBytes s t b
  | declare id columns => exact roll_select s t id columns .done
  | declareNames id names =>
    unfold pursue
    dsimp only
    split <;> simp
  | footer => rfl

@[simp] theorem roll_arrive (s : Session) (t : Nat) (goal : Goal) (f : Option FooterState) :
    (s.arrive t goal f).roll = s.roll := by
  unfold arrive
  split <;> simp

@[simp] theorem roll_settleFooter (s : Session) (t object : Nat) (goal : Goal) (p : Except FooterFault Footer.Parse) :
    (s.settleFooter t object goal p).roll = s.roll := by
  unfold settleFooter
  dsimp only
  cases footerState (s.size object) p <;> simp

@[simp] theorem roll_failFooter (s : Session) (t object : Nat) (goal : Goal) :
    (s.failFooter t object goal).roll = s.roll := by
  unfold failFooter
  dsimp only
  split <;> simp

@[simp] theorem roll_afterFooter (s : Session) (t object : Nat) (goal : Goal) (r : Except Fault Bytes) :
    (s.afterFooter t object goal r).roll = s.roll := by
  cases r <;> simp [afterFooter]

@[simp] theorem roll_afterGuess (s : Session) (t object : Nat) (goal : Goal) (r : Except Fault Bytes) :
    (s.afterGuess t object goal r).roll = s.roll := by
  cases r with
  | error f => exact roll_failFooter s t object goal
  | ok tail =>
    unfold afterGuess
    dsimp only
    split
    · split
      · exact roll_reading s t _ _ fun s b => roll_afterFooter s t object goal b
      · exact roll_settleFooter s t object goal _
    · exact roll_settleFooter s t object goal _

@[simp] theorem roll_load (s : Session) (t object : Nat) (goal : Goal) : (s.load t object goal).roll = s.roll :=
  roll_reading s t _ _ fun s b => roll_afterGuess s t object goal b

@[simp] theorem roll_needFooter (s : Session) (t object : Nat) (goal : Goal) :
    (s.needFooter t object goal).roll = s.roll := by
  unfold needFooter
  split <;> simp

@[simp] theorem roll_takeTurn (s : Session) (t object : Nat) (goal : Goal) :
    (s.takeTurn t object goal).roll = s.roll := by
  unfold takeTurn
  split
  · simp
  · split <;> simp
  · rfl

@[simp] theorem roll_syncFooter (s : Session) (t : Nat) (x : Stream) (offset length : Nat) (goal : Goal) :
    (s.syncFooter t x offset length goal).roll = s.roll := by
  unfold syncFooter
  repeat' split
  all_goals simp

@[simp] theorem roll_demandFooter (s : Session) (t : Nat) (x : Stream) (goal : Goal) :
    (s.demandFooter t x goal).roll = s.roll := by
  unfold demandFooter
  split <;> simp

theorem roll_onStream (s : Session) (t id : Nat) {f : Stream → Session} (hf : ∀ x, (f x).roll = s.roll) :
    (s.onStream t id f).roll = s.roll := by
  unfold onStream
  split
  · rfl
  · split
    · rfl
    · exact hf _

@[simp] theorem roll_awaitBlock (s : Session) (t object block : Nat) (owner : Option Nat) :
    (s.awaitBlock t object block owner).roll = s.roll := by
  have hcache := roll_onCache s fun c => c.poll object block owner
  unfold awaitBlock
  split <;> rename_i heq <;> rw [heq] at hcache <;> simpa using hcache

@[simp] theorem roll_after (s : Session) (t : Nat) (use : Use) (r : Except Fault Bytes) :
    (s.after t use r).roll = s.roll := by
  cases use <;> simp [after]

end Operations

/-! ### Errands -/

section Errands

@[simp] theorem roll_failAttempt (s : Session) (t : Nat) (e : Errand) (n draw : Nat) (x : TransferError) :
    (s.failAttempt t e n draw x).roll = s.roll := by
  unfold failAttempt
  split
  · unfold retry
    split <;> rfl
  · cases e with
    | job j => exact roll_onCache s _
    | size key => rfl

end Errands

/-! ### Opening and closing -/

theorem roll_acquire (s : Session) (h : Handle) :
    (s.acquire h).1.roll = { s.roll with registry := (s.registry.acquire h s.footers.length).1 } ∧
      (s.acquire h).2 = (s.registry.acquire h s.footers.length).2.1.object := by
  unfold acquire
  generalize s.registry.acquire h s.footers.length = acquired
  obtain ⟨registry, t, isNew⟩ := acquired
  cases isNew with
  | true =>
    simp only [if_true, roll_prefetchFooter, roll_prefetchSmall, roll_addObject, and_true]
    rfl
  | false => exact ⟨rfl, rfl⟩

theorem roll_openHandle (s : Session) (h : Handle) :
    (s.openHandle h).1.roll = s.roll.enroll h s.footers.length ∧ (s.openHandle h).2 = s.streams.length + 1 := by
  obtain ⟨hroll, hobject⟩ := roll_acquire s h
  have hregistry : (s.acquire h).1.registry = _ := congrArg Roll.registry hroll
  have hlessees : (s.acquire h).1.streams.map Stream.lessee = s.streams.map Stream.lessee :=
    congrArg Roll.lessees hroll
  have hlength : (s.acquire h).1.streams.length = s.streams.length := by
    simpa using congrArg List.length hlessees
  refine ⟨?_, congrArg (· + 1) hlength⟩
  unfold openHandle Roll.enroll roll
  dsimp only
  rw [List.map_append, hregistry, hlessees, hlength, hobject, List.length_map]
  rfl

/-- A new object has the next number. -/
theorem handle?_acquire (hc : s.cache.StoresSound) (hlength : s.footers.length = s.cache.stores.length) {h : Handle}
    (hnew : s.registry.find? h.key = none) : (s.acquire h).1.handle? s.footers.length = some h := by
  unfold acquire Registry.acquire
  rw [hnew]
  dsimp only
  rw [if_pos rfl]
  generalize ({ s.registry with entries := ⟨h, 1, s.footers.length⟩ :: s.registry.entries } : Registry) = registry
  have hadd : (Session.addObject { s with registry } h).handle? s.footers.length = some h := by
    simp [handle?, addObject, Cache.addStore, hlength]
  have hsound : (Session.addObject { s with registry } h).cache.StoresSound := hc.addStore h s.config.store
  generalize Session.addObject { s with registry } h = s₁ at hadd hsound ⊢
  have haside := (aside_prefetchSmall hsound s.footers.length h).trans (aside_prefetchFooter _ s.footers.length h)
  exact handle?_of_extends haside.cache hadd

/-- A step leaves the roll alone, or enrolls a stream. The object of the stream has the next number if it was not
    kept. -/
inductive Admits (s s' : Session) : Prop
  | nobody (hroll : s'.roll = s.roll)
  | stream (h : Handle) (hroll : s'.roll = s.roll.enroll h s.footers.length)
      (hnew : s.registry.find? h.key = none → s'.handle? s.footers.length = some h)

section Admits
variable (hc : s.cache.StoresSound) (hlength : s.footers.length = s.cache.stores.length)
include hc hlength

theorem admits_openHandle (h : Handle) : Admits s (s.openHandle h).1 :=
  .stream h (roll_openHandle s h).1 fun hnew => handle?_acquire hc hlength hnew

theorem admits_begin (t : Nat) (op : Operation) : Admits s (s.begin t op) := by
  cases op with
  | openKey key =>
    unfold begin
    dsimp only
    split
    · rename_i e _
      exact .stream e.handle (roll_openHandle s e.handle).1 fun hnew => handle?_acquire hc hlength hnew
    · exact .nobody rfl
  | read id length =>
    refine .nobody (roll_onStream s t id fun x => ?_)
    dsimp only
    split <;> simp
  | readTail id length =>
    refine .nobody (roll_onStream s t id fun x => ?_)
    dsimp only
    split <;> simp
  | declare id columns => exact .nobody (roll_onStream s t id fun x => roll_demandFooter s t x _)
  | declareNames id names => exact .nobody (roll_onStream s t id fun x => roll_demandFooter s t x _)
  | readSpan object span fit owner => exact .nobody (roll_reading s t _ _ fun s b => roll_afterBytes s t b)
  | await object block owner => exact .nobody (roll_awaitBlock s t object block owner)
  | loadFooter object => exact .nobody (roll_needFooter s t object .footer)

theorem admits_endAttempt (t : Nat) (e : Errand) (n draw : Nat) (reply : Reply) :
    Admits s (s.endAttempt t e n draw reply) := by
  unfold endAttempt
  cases e with
  | job j =>
    dsimp only
    split
    · exact .nobody (roll_onCache s _)
    · exact .nobody (roll_failAttempt s t _ n draw _)
  | size key =>
    dsimp only
    split
    · rename_i a _
      exact .stream ⟨key, a.size, a.tag⟩ (roll_openHandle s _).1 fun hnew => handle?_acquire hc hlength hnew
    · exact .nobody (roll_failAttempt s t _ n draw _)

theorem admits_proceed (u : Task) : Admits s (s.proceed u) := by
  unfold proceed
  split
  · exact admits_begin hc hlength u.id _
  · exact .nobody rfl
  · exact .nobody rfl
  · exact admits_endAttempt hc hlength u.id _ _ _ _
  · exact .nobody rfl
  · exact .nobody (roll_reading s u.id _ _ fun s b => roll_after s u.id _ b)
  · exact .nobody (roll_awaitBlock s u.id _ _ _)
  · exact .nobody (roll_takeTurn s u.id _ _)

theorem admits_runAt (i : Nat) : Admits s (s.runAt i) := by
  rcases exists_runAt s i with ⟨-, he⟩ | ⟨id, r, -, -, -, ⟨-, he⟩ | ⟨u, -, he⟩⟩
  · exact .nobody (by rw [he])
  · exact .nobody (by rw [he]; rfl)
  · rw [he]
    cases admits_proceed (s := { s with runnable := r }) hc hlength u with
    | nobody hroll => exact .nobody hroll
    | stream h hroll hnew => exact .stream h hroll hnew

end Admits

theorem roll_answer (s : Session) (i : Nat) (reply : Reply) (draw : Nat) : (s.answer i reply draw).roll = s.roll := by
  unfold answer
  split
  · rfl
  · dsimp only
    split
    · exact roll_resume _ _
    · rfl

theorem lessees_mark (s : Session) (id : Nat) : (s.modifyStream id fun y => { y with closed := true }).roll.lessees =
    s.roll.lessees.map fun t => if t.id = id then { t with closed := true } else t := by
  unfold roll modifyStream
  simp only [List.map_map]
  refine List.map_congr_left fun y _ => ?_
  by_cases hy : y.id = id <;> simp [hy, Stream.lessee]

/-- A stream that was open is struck off when it is closed, and any other is left alone. -/
theorem Sound.roll_close {C : Contents} (h : s.Sound C none) (id : Nat) : (s.close id).roll = s.roll ∨
    ∃ x, s.stream? id = some x ∧ x.closed = false ∧ (s.close id).roll = (s.roll.strike id (s.key x.object)).trim := by
  unfold Session.close
  cases hx : s.stream? id with
  | none => exact Or.inl rfl
  | some x =>
    dsimp only
    split
    · exact Or.inl rfl
    · rename_i hopen
      refine Or.inr ⟨x, rfl, by simpa using hopen, ?_⟩
      have hmark : Aside none s (s.modifyStream id fun y => { y with closed := true }) :=
        aside_modifyStream s id (fun _ => rfl) (fun _ => rfl) (Or.inr fun _ => rfl)
      have haside := hmark.trans (Session.aside_onCache (f := fun c => c.cancel id)
        (Moves.extends (A := fun _ _ => False) (Cache.moves_cancel id) h.cache.stores))
      have hroll := roll_onCache (s.modifyStream id fun y => { y with closed := true }) fun c => c.cancel id
      generalize ((s.modifyStream id fun y => { y with closed := true }).onCache fun c => c.cancel id).1 = s₁
        at haside hroll ⊢
      -- The object is still there, with the same key.
      obtain ⟨handle, hhandle⟩ := h.exists_handle? (h.within.streams x (mem_of_stream? hx))
      have hkey : s₁.key x.object = s.key x.object := by
        rw [key_of_handle? hhandle, key_of_handle? (handle?_of_extends haside.cache hhandle)]
      have hregistry : s₁.registry = s.registry := congrArg Roll.registry hroll
      have hlessees : s₁.streams.map Stream.lessee = _ := congrArg Roll.lessees hroll
      rw [lessees_mark] at hlessees
      unfold roll Roll.strike Roll.trim
      dsimp only
      rw [hregistry, hkey, hlessees]
      rfl

/-- An event leaves the roll alone or enrolls a stream, unless a stream is closed that was open. -/
theorem Sound.roll_step {C : Contents} (h : s.Sound C none) (e : Event) : Admits s (s.step e) ∨
    ∃ id x, e = .close id ∧ s.stream? id = some x ∧ x.closed = false ∧
      (s.step e).roll = (s.roll.strike id (s.key x.object)).trim := by
  cases e with
  | openSized key size => exact Or.inl (admits_openHandle h.cache.stores h.footers _)
  | close id =>
    rcases h.roll_close id with hroll | ⟨x, hx, hopen, hroll⟩
    · exact Or.inl (.nobody hroll)
    · exact Or.inr ⟨id, x, rfl, hx, hopen, hroll⟩
  | run i => exact Or.inl (admits_runAt h.cache.stores h.footers i)
  | start op => exact Or.inl (.nobody rfl)
  | addObject handle => exact Or.inl (.nobody rfl)
  | seek id position => exact Or.inl (.nobody (roll_seek s id position))
  | get object span => exact Or.inl (.nobody (roll_onCache s _))
  | ensure object spans fit priority owner => exact Or.inl (.nobody (roll_onCache s _))
  | cancel owner => exact Or.inl (.nobody (roll_onCache s _))
  | evict object => exact Or.inl (.nobody (roll_onCache s _))
  | answer i reply draw => exact Or.inl (.nobody (roll_answer s i reply draw))
  | tick =>
    obtain ⟨now, timers, r, he, -⟩ := exists_tick s
    exact Or.inl (.nobody (by rw [show s.step .tick = _ from he]; rfl))

end Session

end RangeCache
