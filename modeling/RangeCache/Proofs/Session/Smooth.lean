import RangeCache.Proofs.Session.Advance
import RangeCache.Proofs.Session.Events

/-!
# When all goes well

An event goes smoothly when nothing is rejected and no task gets another answer than it asked for (`Event.Smooth`).
Whatever happened to a session before, from then on no block fails, and the operation of an open stream goes well until
it ends well (`Sound.thrives_or_succeeded`). Answers are judged when a task looks at them: until then the call that they
are for has not come back to anybody.
-/

namespace RangeCache

/-- The answer that a task looks at when it is let run. -/
def Session.looked? (s : Session) : Event → Option (Errand × Reply)
  | .run i =>
    match (s.runnable[i]?).bind s.task? with
    | some ⟨_, .errand errand _ (.answered reply _)⟩ => some (errand, reply)
    | _ => none
  | _ => none

/-- An event goes smoothly: no job is rejected, and a task that looks at an answer has what it asked for. -/
structure Event.Smooth (s : Session) (e : Event) : Prop where
  granted : (s.step e).cache.queue.rejected = s.cache.queue.rejected
  served : ∀ p ∈ s.looked? e, p.1.Fulfilled p.2

instance (s : Session) (e : Event) : Decidable (e.Smooth s) :=
  decidable_of_iff ((s.step e).cache.queue.rejected = s.cache.queue.rejected ∧ ∀ p ∈ s.looked? e, p.1.Fulfilled p.2)
    ⟨fun h => ⟨h.1, h.2⟩, fun h => ⟨h.granted, h.served⟩⟩

theorem Event.Smooth.fulfilled {s : Session} {i id : Nat} {u : Task} (he : (Event.run i).Smooth s)
    (hi : s.runnable[i]? = some id) (hu : s.task? id = some u) {errand : Errand} {n : Nat} {reply : Reply} {draw : Nat}
    (ha : u.activity = .errand errand n (.answered reply draw)) : errand.Fulfilled reply := by
  refine he.served (errand, reply) ?_
  obtain ⟨k, a⟩ := u
  dsimp only at ha
  subst ha
  unfold Session.looked?
  dsimp only
  rw [hi, Option.bind_some, hu]
  rfl

namespace Session

variable {C : Contents} {s s' : Session} {e : Event}

/-! ### Events -/

theorem Sound.calm_seek (h : s.Sound C none) (id position : Nat) : Calm 0 s (s.seek id position).1 := by
  unfold Session.seek
  cases s.stream? id with
  | none => exact .refl s
  | some x =>
    dsimp only
    split
    · exact .refl s
    · split
      · exact .refl s
      · have hmove : Calm 0 s (s.modifyStream id fun y => { y with position }) :=
          calm_modifyStream s id (fun _ => rfl) fun _ => rfl
        have hs := h.modifyStream id (f := fun y => { y with position }) fun _ => rfl
        generalize s.modifyStream id (fun y => { y with position }) = s₁ at hmove hs ⊢
        have hreplan := (hs.grants_replan x fun p => p.onSeek s₁.recent.paths position).calm
        split <;> rename_i heq <;> rw [heq] at hreplan <;> exact hmove.trans hreplan

/-- A stream is sought anywhere in its object, unless a request is rejected. -/
theorem Sound.seek_eq_done (h : s.Sound C none) {id position : Nat} {x : Stream} (hx : s.stream? id = some x)
    (hopen : x.closed = false) (hposition : position ≤ s.size x.object)
    (hr : (s.seek id position).1.cache.queue.rejected = s.cache.queue.rejected) : (s.seek id position).2 = .done := by
  unfold Session.seek at hr ⊢
  rw [hx] at hr ⊢
  dsimp only at hr ⊢
  rw [hopen, if_neg (by simp), if_neg (Nat.not_lt.mpr hposition)] at hr ⊢
  have hs := h.modifyStream id (f := fun y => { y with position }) fun _ => rfl
  have hcache : (s.modifyStream id fun y => { y with position }).cache = s.cache := rfl
  rw [← hcache] at hr
  generalize s.modifyStream id (fun y => { y with position }) = s₁ at hs hr ⊢
  have hok := (hs.grants_replan x fun p => p.onSeek s₁.recent.paths position).ok
  generalize s₁.replan x (fun p => p.onSeek s₁.recent.paths position) = replanned at hok hr ⊢
  obtain ⟨s₂, f | u⟩ := replanned
  · cases hok hr
  · rfl

/-- Unless a task runs or gets an answer, an event is calm, but for a stream that is closed. -/
theorem Sound.calm_step (h : s.Sound C none) (hrun : ∀ i, e ≠ .run i)
    (hanswer : ∀ i reply draw, e ≠ .answer i reply draw) :
    (∃ k, Calm k s (s.step e)) ∨
      ∃ id, e = .close id ∧ Calm 0 (s.modifyStream id fun x => { x with closed := true }) (s.step e) := by
  have hc := h.cache.stores
  cases e with
  | start op => exact Or.inl ⟨_, calm_spawn s op⟩
  | addObject handle => exact Or.inl ⟨0, calm_addObject s handle⟩
  | openSized key size => exact Or.inl ⟨5, calm_openHandle hc _⟩
  | seek id position => exact Or.inl ⟨0, h.calm_seek id position⟩
  | close id =>
    rcases exists_close s id with he | ⟨registry, he⟩
    · refine Or.inl ⟨0, ?_⟩
      rw [show s.step (.close id) = s from he]
      exact .refl s
    · refine Or.inr ⟨id, rfl, ?_⟩
      rw [show s.step (.close id) = _ from he]
      have hcancel : Calm 0 (s.modifyStream id fun x => { x with closed := true })
          ((s.modifyStream id fun x => { x with closed := true }).onCache fun c => c.cancel id).1 :=
        calm_onCache (f := fun c => c.cancel id) hc (Cache.moves_cancel id) ((Cache.quiet_cancel id).keepsPins hc)
      exact hcancel.trans_zero (.of_eq rfl rfl rfl rfl rfl)
  | get object span =>
    exact Or.inl ⟨0, calm_onCache (f := fun c => c.get object span) hc (Cache.moves_get hc ..)
      ((Cache.quiet_get hc ..).keepsPins hc)⟩
  | ensure object spans fit priority owner =>
    exact Or.inl ⟨0, calm_onCache (f := fun c => c.ensure object spans fit priority owner) hc (Cache.moves_ensure hc ..)
      ((Cache.quiet_ensure hc ..).keepsPins hc)⟩
  | cancel owner =>
    exact Or.inl ⟨0, calm_onCache (f := fun c => c.cancel owner) hc (Cache.moves_cancel owner)
      ((Cache.quiet_cancel owner).keepsPins hc)⟩
  | evict object =>
    exact Or.inl ⟨0, calm_onCache (f := fun c => c.evict object) hc (Cache.moves_evict hc object)
      ((Cache.quiet_evict object).keepsPins hc)⟩
  | run i => exact absurd rfl (hrun i)
  | answer i reply draw => exact absurd rfl (hanswer i reply draw)
  | tick =>
    obtain ⟨now, timers, r, he, -⟩ := exists_tick s
    exact Or.inl ⟨0, (show s.step .tick = _ from he) ▸ .of_eq rfl rfl rfl rfl rfl⟩

/-- A task that gets an answer is on its errand as before. -/
theorem Sound.runs_answer (h : s.Sound C none) (hb : s.cache.Backs s.tasks) (i : Nat) (reply : Reply) (draw : Nat) :
    s.answer i reply draw = s ∨ ∃ u ∈ s.tasks, (∃ e n, u.activity = .errand e n .called ∧
      s.calls[i]? = some ⟨u.id, e.request⟩) ∧
      Runs u.id u.activity.weight (u.activity.Fine s ·) s (s.answer i reply draw) := by
  rcases h.exists_answer i reply draw with ⟨-, he⟩ | ⟨id, e, n, r, hu, hcall, -, -, he⟩ <;> rw [he]
  · exact Or.inl rfl
  · have hp : (s.become id (.errand e n (.answered reply draw))).tasks.Perm
        (⟨id, .errand e n (.answered reply draw)⟩ :: s.besides id) :=
      perm_become (c := ⟨id, none, none⟩) h.ids (List.mem_map_of_mem hu) _
    have hback : s.cache.Backs (⟨id, .errand e n (.answered reply draw)⟩ :: s.besides id) :=
      Cache.Backs.cons (h.backs_cons hb hu).of_cons nofun
    refine Or.inr ⟨_, hu, ⟨e, n, rfl, hcall⟩, Nat.le_of_eq ?_, hback.perm hp, .of_eq rfl rfl, fun _ => False.elim⟩
    rw [Activity.weight_errand]
    exact (tally_perm _ hp).trans ((tally_cons ..).trans (by rw [Activity.weight_errand, Nat.add_comm]))

/-- Whatever happens, the tasks that read keep their pins. -/
theorem Sound.backs_step (h : s.Sound C none) (hb : s.cache.Backs s.tasks) (e : Event) :
    (s.step e).cache.Backs (s.step e).tasks := by
  by_cases hrun : ∃ i, e = .run i
  · obtain ⟨i, rfl⟩ := hrun
    show (s.runAt i).cache.Backs (s.runAt i).tasks
    rcases exists_runAt s i with ⟨-, he⟩ | ⟨id, r, -, -, hr, ⟨-, he⟩ | ⟨u, hu, he⟩⟩ <;> rw [he]
    · exact hb
    · exact hb
    · obtain ⟨hmem, rfl⟩ := mem_of_task?_eq_some hu
      exact h.backs_proceed hb hmem hr
  by_cases hanswer : ∃ i reply draw, e = .answer i reply draw
  · obtain ⟨i, reply, draw, rfl⟩ := hanswer
    rcases h.runs_answer hb i reply draw with he | ⟨u, -, -, hruns⟩
    · rwa [show s.step (.answer i reply draw) = s from he]
    · exact hruns.backs
  rcases h.calm_step (fun i he => hrun ⟨i, he⟩) (fun i reply draw he => hanswer ⟨i, reply, draw, he⟩) with
    ⟨k, hcalm⟩ | ⟨id, -, hcalm⟩
  · exact hcalm.backs hb
  · exact hcalm.backs hb

/-! ### Smooth events -/

/-- What an event does while all goes well: the session is calm, but for a stream that may be closed, or a task runs. -/
inductive Goes (C : Contents) (e : Event) (s s' : Session) : Prop
  | calm {k : Nat} (h : Calm k s s')
  | closes {id : Nat} (he : e = .close id) (h : Calm 0 (s.modifyStream id fun x => { x with closed := true }) s')
  | runs {u : Task} (hu : u ∈ s.tasks) (h : Runs u.id u.activity.weight (u.activity.Fine s ·) s s')
      (hends : Ends C u.id u.activity.mover? none s s')

theorem Sound.goes (h : s.Sound .any none) (hb : s.cache.Backs s.tasks) (he : e.Smooth s) :
    Goes .any e s (s.step e) := by
  by_cases hrun : ∃ i, e = .run i
  · obtain ⟨i, rfl⟩ := hrun
    show Goes .any _ s (s.runAt i)
    rcases exists_runAt s i with ⟨-, heq⟩ | ⟨id, r, hi, -, hr, ⟨-, heq⟩ | ⟨u, hu, heq⟩⟩ <;> rw [heq]
    · exact .calm (k := 0) (.refl s)
    · exact .calm (k := 0) (.of_eq rfl rfl rfl rfl rfl)
    · have hserved : ∀ errand n reply draw,
          u.activity = .errand errand n (.answered reply draw) → errand.Fulfilled reply := fun _ _ _ _ => he.fulfilled hi hu
      obtain ⟨hmem, rfl⟩ := mem_of_task?_eq_some hu
      exact .runs hmem (h.runs_proceed hb hmem hr hserved) (h.ends_proceed hmem hr nofun)
  by_cases hanswer : ∃ i reply draw, e = .answer i reply draw
  · obtain ⟨i, reply, draw, rfl⟩ := hanswer
    have hfair : (Event.answer i reply draw).Fair .any s := fun _ _ _ _ _ _ => trivial
    rcases h.runs_answer hb i reply draw with he | ⟨u, hu, ⟨e, n, ha, hcall⟩, hruns⟩
    · rw [show s.step (.answer i reply draw) = s from he]
      exact .calm (k := 0) (.refl s)
    rcases h.answer hfair with he | ⟨v, hv, ⟨e', n', -, hcall'⟩, hends⟩
    · rw [show s.step (.answer i reply draw) = s from he]
      exact .calm (k := 0) (.refl s)
    -- The answer gets to one task only.
    have hid : v.id = u.id := congrArg Call.task (Option.some.inj (hcall'.symm.trans hcall))
    rw [hid] at hends
    exact .runs hu hruns (by rw [ha]; exact hends)
  rcases h.calm_step (fun i he => hrun ⟨i, he⟩) (fun i reply draw he => hanswer ⟨i, reply, draw, he⟩) with
    ⟨k, hcalm⟩ | ⟨id, hid, hcalm⟩
  · exact .calm hcalm
  · exact .closes hid hcalm

/-! ### An operation from its beginning to its end -/

/-- A task is on an operation of a stream, which goes well. -/
structure Thrives (t id : Nat) (s : Session) : Prop where
  lt : t < s.nextTask
  task : ∃ a, ⟨t, a⟩ ∈ s.tasks ∧ a.Fine s id
  ended : ∀ o, (t, o) ∉ s.ended

/-- The operation of a task ended well. -/
structure Succeeded (t : Nat) (s : Session) : Prop where
  lt : t < s.nextTask
  gone : ∀ u ∈ s.tasks, u.id ≠ t
  ended : ∃ o, (t, o) ∈ s.ended
  succeeds : ∀ o, (t, o) ∈ s.ended → o.Succeeds

variable {t id : Nat}

theorem Calm.untouched {k : Nat} (h : Calm k s s') (ht : t < s.nextTask) : Untouched t s s' := by
  obtain ⟨l, hl, -, hnew⟩ := h.tasks
  exact .of_append hl (fun u hu => (hnew u hu).1) h.nextTask h.ended ht

theorem Succeeded.untouched (h : Succeeded t s) (hs : Untouched t s s') : Succeeded t s' where
  lt := Nat.lt_of_lt_of_le h.lt hs.nextTask
  gone u hu hid := h.gone u (hs.same u hu hid) hid
  ended := h.ended.imp fun o ho => (hs.ended o).mpr ho
  succeeds o ho := h.succeeds o ((hs.ended o).mp ho)

theorem Thrives.untouched (h : Thrives t id s) (hs : Untouched t s s')
    (hunfailed : ∀ i b, s.cache.Unfailed i b → s'.cache.Unfailed i b)
    (hstream : ∀ x, s.stream? id = some x → ∃ y, s'.stream? id = some y ∧ y.closed = x.closed) : Thrives t id s' where
  lt := Nat.lt_of_lt_of_le h.lt hs.nextTask
  task := by
    obtain ⟨a, hm, ha⟩ := h.task
    exact ⟨a, hs.kept _ hm rfl, ha.keep hunfailed hstream⟩
  ended o ho := h.ended o ((hs.ended o).mp ho)

/-- When the task itself runs, its operation goes on or ends, and all is well. -/
theorem Thrives.fares (h : Thrives t id s) (hlt : s.nextTask ≤ s'.nextTask) (hf : Fares t id s s') :
    Thrives t id s' ∨ Succeeded t s' := by
  have hlt := Nat.lt_of_lt_of_le h.lt hlt
  cases hf with
  | waits ht ha hended => exact Or.inl ⟨hlt, ⟨_, ht, ha⟩, fun o ho => h.ended o (hended ▸ ho)⟩
  | ends ho hgone hended =>
    refine Or.inr ⟨hlt, hgone, ⟨_, hended ▸ List.mem_cons_self⟩, fun o' ho' => ?_⟩
    rw [hended] at ho'
    rcases List.mem_cons.mp ho' with heq | ho'
    · cases heq
      exact ho
    · exact absurd ho' (h.ended o')

theorem Thrives.goes (h : Thrives t id s) (hs : s.Sound C none) (hg : Goes C e s s') (hclose : e ≠ .close id)
    (hr : s'.cache.queue.rejected = s.cache.queue.rejected) : Thrives t id s' ∨ Succeeded t s' := by
  cases hg with
  | calm hc => exact Or.inl (h.untouched (hc.untouched h.lt) (fun _ _ => @hc.harmless.unfailed _ _) fun _ hx =>
      hc.harmless.streams hx)
  | @closes k he hc =>
    have hk : id ≠ k := fun hk => hclose (hk ▸ he)
    obtain ⟨hnext, hkept, hsame, hended⟩ := hc.untouched h.lt
    refine Or.inl (h.untouched ⟨hnext, hkept, hsame, hended⟩ (fun _ _ => @hc.harmless.unfailed _ _) fun x hx =>
      hc.harmless.streams ?_)
    rw [stream?_modifyStream s k (f := fun x => { x with closed := true }) (fun _ => rfl), hx, Option.map_some,
      if_neg fun hxk => hk ((id_of_stream? hx).symm.trans hxk)]
  | @runs u hu hruns hends =>
    by_cases hid : u.id = t
    · obtain ⟨a, hm, ha⟩ := h.task
      obtain rfl := eq_of_task_id hs.ids hu hm hid
      exact h.fares hends.nextTask (hruns.fares id ha hr)
    · exact Or.inl (h.untouched (hends.untouched hid h.lt) (fun _ _ => @hruns.harmless.unfailed _ _) fun _ hx =>
        hruns.harmless.streams hx)

theorem Succeeded.goes (h : Succeeded t s) (hg : Goes C e s s') : Succeeded t s' := by
  cases hg with
  | calm hc => exact h.untouched (hc.untouched h.lt)
  | closes he hc =>
    obtain ⟨hnext, hkept, hsame, hended⟩ := hc.untouched h.lt
    exact h.untouched ⟨hnext, hkept, hsame, hended⟩
  | @runs u hu hruns hends => exact h.untouched (hends.untouched (h.gone u hu) h.lt)

/-- In the course of some events, each of them goes smoothly. -/
def SmoothRun : Session → List Event → Prop
  | _, [] => True
  | s, e :: l => e.Smooth s ∧ SmoothRun (s.step e) l

instance SmoothRun.decidable : (s : Session) → (l : List Event) → Decidable (SmoothRun s l)
  | _, [] => isTrue trivial
  | s, e :: l => @instDecidableAnd _ _ inferInstance (SmoothRun.decidable (s.step e) l)

/-- As long as all goes well, and the stream is not closed, an operation goes well until it ends well. -/
theorem Sound.thrives_or_succeeded (hs : s.Sound .any none) (hb : s.cache.Backs s.tasks)
    (h : Thrives t id s ∨ Succeeded t s) {l : List Event} (hl : SmoothRun s l) (hclose : .close id ∉ l) :
    Thrives t id (s.runEvents l) ∨ Succeeded t (s.runEvents l) := by
  induction l generalizing s with
  | nil => exact h
  | cons e l ih =>
    have hgoes := hs.goes hb hl.1
    have hfair := (fairRun_any s [e]).1
    refine ih (hs.step hfair).1 (hs.backs_step hb e) ?_ hl.2 fun hm => hclose (List.mem_cons_of_mem _ hm)
    rcases h with h | h
    · exact h.goes hs hgoes (fun he => hclose (he ▸ List.mem_cons_self)) hl.1.granted
    · exact Or.inr (h.goes hgoes)

end Session

end RangeCache
