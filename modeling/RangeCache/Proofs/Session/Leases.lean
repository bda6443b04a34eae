import RangeCache.Proofs.Session.Roll

/-!
# Objects are shared

An object has a lease for each stream that is open over it, and it is kept as long as it has one. So all streams that
are open on a key share one object: its blocks, its footer, its size and its tag. Objects are dropped only when a stream
is closed, if too many are idle, and then those that were opened the longest time ago (`leased_runEvents`).

This is a matter of the roll alone. Enrolling a stream puts its object in front of the others (`Roll.Sound.front`),
striking one off takes a lease from its object (`Roll.Sound.strike`), and what is dropped after that has no open stream
(`Roll.Sound.trim`).
-/

namespace RangeCache

namespace Roll

/-- How many streams are open over an object. -/
def openStreams (r : Roll) (o : Nat) : Nat := r.lessees.countP fun t => t.object == o && !t.closed

/-- The last stream over an object was opened after all streams over another one. Streams are numbered in the order in
    which they are opened. -/
def OpenedAfter (r : Roll) (o o' : Nat) : Prop :=
  ∃ t ∈ r.lessees, t.object = o ∧ ∀ u ∈ r.lessees, u.object = o' → u.id < t.id

/-- What holds of a roll, where `handle?` tells which object has a number. -/
structure Sound (handle? : Nat → Option Handle) (r : Roll) : Prop where
  keys : (r.registry.entries.map (·.handle.key)).Nodup
  handles : ∀ e ∈ r.registry.entries, handle? e.object = some e.handle
  leases : ∀ e ∈ r.registry.entries, e.leases = r.openStreams e.object
  tracked : ∀ t ∈ r.lessees, t.closed = false → ∃ e ∈ r.registry.entries, e.object = t.object
  ids : r.lessees.map (·.id) = List.range' 1 r.lessees.length
  recency : r.registry.entries.Pairwise fun e e' => r.OpenedAfter e.object e'.object

variable {r : Roll} {handle? handle?' : Nat → Option Handle}

theorem Sound.mono (h : r.Sound handle?) (hh : ∀ ⦃o x⦄, handle? o = some x → handle?' o = some x) :
    r.Sound handle?' :=
  { h with handles := fun e he => hh (h.handles e he) }

theorem Sound.eq_of_object (h : r.Sound handle?) {e e' : Tracked} (he : e ∈ r.registry.entries)
    (he' : e' ∈ r.registry.entries) (ho : e.object = e'.object) : e = e' := by
  refine List.inj_on_of_nodup_map h.keys he he' ?_
  have := (h.handles e he).symm.trans (ho ▸ h.handles e' he')
  rw [Option.some.inj this]

theorem Sound.id_le (h : r.Sound handle?) {t : Lessee} (ht : t ∈ r.lessees) : t.id ≤ r.lessees.length := by
  have hid : t.id ∈ List.range' 1 r.lessees.length := h.ids ▸ List.mem_map_of_mem ht
  rw [List.mem_range'_1] at hid
  omega

/-! ### Enrolling -/

section Enroll
variable {e : Tracked} {l : List Tracked}

/-- An object comes to stand in front, with a lease more than it has open streams, and a stream is opened over it. -/
theorem Sound.front (h : r.Sound handle?) (hl : l.Sublist r.registry.entries)
    (hrest : ∀ u ∈ r.registry.entries, u ∈ l ∨ u.object = e.object)
    (hkey : ∀ u ∈ l, u.handle.key ≠ e.handle.key) (hobject : ∀ u ∈ l, u.object ≠ e.object)
    (hhandle : handle? e.object = some e.handle) (hleases : e.leases = r.openStreams e.object + 1) :
    Roll.Sound handle? { r with
      registry := { r.registry with entries := e :: l }
      lessees := r.lessees ++ [⟨r.lessees.length + 1, e.object, false⟩] } where
  keys := List.nodup_cons.mpr ⟨by simpa using hkey, h.keys.sublist (hl.map _)⟩
  handles u hu := by
    rcases List.mem_cons.mp hu with rfl | hu
    · exact hhandle
    · exact h.handles u (hl.mem hu)
  leases u hu := by
    unfold openStreams
    rw [List.countP_append]
    rcases List.mem_cons.mp hu with rfl | hu
    · simp [hleases, openStreams]
    · rw [h.leases u (hl.mem hu)]
      simp [openStreams, (hobject u hu).symm]
  tracked t ht hopen := by
    rcases List.mem_append.mp ht with ht | ht
    · obtain ⟨u, hu, ho⟩ := h.tracked t ht hopen
      rcases hrest u hu with hu | hue
      · exact ⟨u, List.mem_cons_of_mem _ hu, ho⟩
      · exact ⟨e, List.mem_cons_self, hue ▸ ho⟩
    · rw [List.mem_singleton.mp ht]
      exact ⟨e, List.mem_cons_self, rfl⟩
  ids := by
    simp only [List.map_append, h.ids, List.length_append, List.length_singleton, List.map_cons, List.map_nil,
      List.range'_concat, Nat.one_mul, Nat.add_comm 1]
  recency := by
    refine List.pairwise_cons.mpr ⟨fun u hu => ⟨_, List.mem_append_right _ (List.mem_singleton_self _), rfl, ?_⟩,
      (h.recency.sublist hl).imp_of_mem ?_⟩
    · intro t ht ho
      rcases List.mem_append.mp ht with ht | ht
      · exact Nat.lt_succ_of_le (h.id_le ht)
      · rw [List.mem_singleton.mp ht] at ho
        exact absurd ho.symm (hobject u hu)
    · rintro u v hu hv ⟨t, ht, hto, hafter⟩
      refine ⟨t, List.mem_append_left _ ht, hto, fun x hx ho => ?_⟩
      rcases List.mem_append.mp hx with hx | hx
      · exact hafter x hx ho
      · rw [List.mem_singleton.mp hx] at ho
        exact absurd ho.symm (hobject v hv)

theorem exists_enroll (r : Roll) (handle : Handle) (fresh : Nat) : ∃ e,
    r.enroll handle fresh = { r with
      registry := { r.registry with entries := e :: r.registry.others handle.key }
      lessees := r.lessees ++ [⟨r.lessees.length + 1, e.object, false⟩] } ∧ e.handle.key = handle.key ∧
    (r.registry.find? handle.key = none ∧ e = ⟨handle, 1, fresh⟩ ∨
      ∃ u, r.registry.find? handle.key = some u ∧ e = { u with leases := u.leases + 1 }) := by
  obtain ⟨e, isNew, hacquire, hcases⟩ := r.registry.exists_acquire handle fresh
  exact ⟨e, by rw [Roll.enroll, hacquire], hcases⟩

/-- A stream is opened over an object that may be new. -/
theorem Sound.enroll (h : r.Sound handle?) (hh : ∀ ⦃o x⦄, handle? o = some x → handle?' o = some x) {handle : Handle}
    {fresh : Nat} (hentries : ∀ u ∈ r.registry.entries, u.object ≠ fresh) (hlessees : ∀ t ∈ r.lessees, t.object ≠ fresh)
    (hnew : r.registry.find? handle.key = none → handle?' fresh = some handle) :
    (r.enroll handle fresh).Sound handle?' := by
  obtain ⟨e, henroll, hkey, hcases⟩ := r.exists_enroll handle fresh
  rw [henroll]
  have hothers : ∀ u ∈ r.registry.others handle.key, u.handle.key ≠ e.handle.key := fun u hu =>
    hkey ▸ (Registry.mem_others.mp hu).2
  rcases hcases with ⟨hnone, rfl⟩ | ⟨e₀, hsome, rfl⟩
  · rw [Registry.others_of_find?_eq_none hnone] at hothers ⊢
    refine (h.mono hh).front (.refl _) (fun u hu => Or.inl hu) hothers hentries (hnew hnone) ?_
    have hnobody : r.openStreams fresh = 0 := List.countP_eq_zero.mpr fun t ht => by simp [hlessees t ht]
    rw [hnobody]
  · obtain ⟨he₀, hkey₀⟩ := Registry.mem_of_find? hsome
    refine (h.mono hh).front List.filter_sublist (fun u hu => ?_) hothers (fun u hu ho => ?_) (hh (h.handles e₀ he₀)) ?_
    · by_cases hu₀ : u.handle.key = handle.key
      · exact Or.inr (List.inj_on_of_nodup_map h.keys hu he₀ (hu₀.trans hkey₀.symm) ▸ rfl)
      · exact Or.inl (Registry.mem_others.mpr ⟨hu, hu₀⟩)
    · have hsame := h.eq_of_object (Registry.mem_others.mp hu).1 he₀ ho
      exact (Registry.mem_others.mp hu).2 (hsame ▸ hkey₀)
    · exact congrArg (· + 1) (h.leases e₀ he₀)

/-- No object is lost when a stream is opened. -/
theorem Sound.exists_enrolled (h : r.Sound handle?) {handle : Handle} {fresh : Nat} {u : Tracked}
    (hu : u ∈ r.registry.entries) : ∃ e ∈ (r.enroll handle fresh).registry.entries, e.object = u.object := by
  obtain ⟨e, henroll, hkey, hcases⟩ := r.exists_enroll handle fresh
  rw [henroll]
  by_cases huk : u.handle.key = handle.key
  · refine ⟨e, List.mem_cons_self, ?_⟩
    have hfind : r.registry.find? handle.key = some u := huk ▸ Registry.find?_eq_some h.keys hu
    rcases hcases with ⟨hnone, -⟩ | ⟨e₀, hsome, rfl⟩
    · cases hnone.symm.trans hfind
    · cases hsome.symm.trans hfind
      rfl
  · exact ⟨u, List.mem_cons_of_mem _ (Registry.mem_others.mpr ⟨hu, huk⟩), rfl⟩

end Enroll

/-! ### Striking off -/

section Strike
variable {t : Lessee} {handle : Handle}

theorem Sound.exists_strike (h : r.Sound handle?) (ht : t ∈ r.lessees) (key : String) :
    ∃ l l', r.lessees = l ++ t :: l' ∧ (r.strike t.id key).lessees = l ++ { t with closed := true } :: l' := by
  obtain ⟨l, l', hl⟩ := List.append_of_mem ht
  have hids : ((l ++ t :: l').map (·.id)).Nodup := by
    rw [← hl, h.ids]
    exact List.nodup_range'
  rw [List.map_append, List.map_cons, List.nodup_middle, List.nodup_cons, ← List.map_append] at hids
  have hne : ∀ u ∈ l ++ l', u.id ≠ t.id := fun u hu hid => hids.1 (hid ▸ List.mem_map_of_mem hu)
  have hmap : ∀ m ⊆ l ++ l', m.map (fun u => if u.id = t.id then { u with closed := true } else u) = m := fun m hm => by
    refine (List.map_congr_left fun u hu => ?_).trans (List.map_id m)
    exact if_neg (hne u (hm hu))
  refine ⟨l, l', hl, ?_⟩
  show r.lessees.map _ = _
  rw [hl, List.map_append, List.map_cons, hmap l (List.subset_append_left ..), hmap l' (List.subset_append_right ..),
    if_pos rfl]

/-- With an open stream that is struck off, its object has an open stream less. -/
theorem Sound.openStreams_strike (h : r.Sound handle?) (ht : t ∈ r.lessees) (hopen : t.closed = false) (key : String)
    (o : Nat) : r.openStreams o = (r.strike t.id key).openStreams o + if t.object = o then 1 else 0 := by
  obtain ⟨l, l', hl, hstrike⟩ := h.exists_strike ht key
  unfold openStreams
  rw [hl, hstrike, List.countP_append, List.countP_append, List.countP_cons, List.countP_cons]
  by_cases ho : t.object = o <;> simp [ho, hopen, Nat.add_assoc]

theorem OpenedAfter.strike {o o' : Nat} (h : r.OpenedAfter o o') (id : Nat) (key : String) :
    (r.strike id key).OpenedAfter o o' := by
  obtain ⟨t, ht, hto, hafter⟩ := h
  refine ⟨_, List.mem_map_of_mem ht, ?_, fun u hu ho => ?_⟩
  · split <;> exact hto
  · obtain ⟨x, hx, rfl⟩ := List.mem_map.mp hu
    have hlt := hafter x hx (by split at ho <;> exact ho)
    split <;> split <;> exact hlt

/-- A stream that was open is struck off, and its lease is given back. -/
theorem Sound.strike (h : r.Sound handle?) (ht : t ∈ r.lessees) (hopen : t.closed = false)
    (hhandle : handle? t.object = some handle) : (r.strike t.id handle.key).Sound handle? where
  keys := by
    have hmap : (r.strike t.id handle.key).registry.entries.map (·.handle.key) =
        r.registry.entries.map (·.handle.key) := by
      simp only [Roll.strike, List.map_map]
      refine List.map_congr_left fun u _ => ?_
      by_cases hu : u.handle.key = handle.key <;> simp [hu]
    exact hmap ▸ h.keys
  handles u hu := by
    obtain ⟨e, he, rfl⟩ := List.mem_map.mp hu
    split <;> exact h.handles e he
  leases u hu := by
    obtain ⟨e, he, rfl⟩ := List.mem_map.mp hu
    have hcount := h.openStreams_strike ht hopen handle.key e.object
    rw [← h.leases e he] at hcount
    -- Its object is the one that is kept under the key.
    have hkey : e.handle.key = handle.key ↔ t.object = e.object := by
      obtain ⟨e₀, he₀, ho₀⟩ := h.tracked t ht hopen
      have hhandle₀ : e₀.handle = handle := Option.some.inj ((h.handles e₀ he₀).symm.trans (ho₀ ▸ hhandle))
      constructor
      · intro hk
        rw [List.inj_on_of_nodup_map h.keys he he₀ (hk.trans (hhandle₀ ▸ rfl)), ho₀]
      · intro ho
        rw [h.eq_of_object he he₀ (ho.symm.trans ho₀.symm), hhandle₀]
    by_cases ho : t.object = e.object
    · rw [if_pos ho] at hcount
      rw [if_pos (hkey.mpr ho)]
      exact Nat.sub_eq_of_eq_add hcount
    · rw [if_neg ho] at hcount
      rw [if_neg (mt hkey.mp ho)]
      exact hcount
  tracked u hu hu' := by
    obtain ⟨x, hx, rfl⟩ := List.mem_map.mp hu
    have hx' : x.closed = false := by
      split at hu'
      · cases hu'
      · exact hu'
    obtain ⟨e, he, ho⟩ := h.tracked x hx hx'
    refine ⟨_, List.mem_map_of_mem he, ?_⟩
    split <;> split <;> exact ho
  ids := by
    have hmap : (r.strike t.id handle.key).lessees.map (·.id) = r.lessees.map (·.id) := by
      simp only [Roll.strike, List.map_map]
      refine List.map_congr_left fun u _ => ?_
      by_cases hu : u.id = t.id <;> simp [hu]
    rw [hmap, h.ids]
    simp [Roll.strike]
  recency := by
    refine List.pairwise_map.mpr (h.recency.imp fun {e e'} hafter => ?_)
    have := hafter.strike t.id handle.key
    split <;> split <;> exact this

end Strike

/-! ### Dropping -/

/-- No object is dropped that has an open stream. -/
theorem Sound.trim (h : r.Sound handle?) : r.trim.Sound handle? where
  keys := h.keys.sublist ((Registry.trim_sublist _ _).map _)
  handles e he := h.handles e ((Registry.trim_sublist _ _).mem he)
  leases e he := h.leases e ((Registry.trim_sublist _ _).mem he)
  tracked t ht hopen := by
    obtain ⟨e, he, ho⟩ := h.tracked t ht hopen
    refine ⟨e, Registry.mem_trim_of_leases he ?_, ho⟩
    rw [h.leases e he]
    exact Nat.ne_of_gt (List.countP_pos_iff.mpr ⟨t, ht, by simp [ho, hopen]⟩)
  ids := h.ids
  recency := h.recency.sublist (Registry.trim_sublist _ _)

/-- What is dropped has no open stream, and what is kept without one was opened after it. -/
theorem Sound.of_trim (h : r.Sound handle?) {e : Tracked} (he : e ∈ r.registry.entries)
    (hgone : ∀ u ∈ r.trim.registry.entries, u.object ≠ e.object) : r.openStreams e.object = 0 ∧
      ∀ u ∈ r.trim.registry.entries, r.openStreams u.object = 0 → r.OpenedAfter u.object e.object := by
  have hno : e ∉ r.trim.registry.entries := fun hmem => hgone e hmem rfl
  refine ⟨?_, fun u hu hidle => ?_⟩
  · rw [← h.leases e he]
    by_contra hleases
    exact hno (Registry.mem_trim_of_leases he hleases)
  · rw [← h.leases u ((Registry.trim_sublist _ _).mem hu)] at hidle
    exact Registry.rel_of_not_mem_trim h.recency he hno hu hidle

end Roll

namespace Session

/-- The objects that a session keeps are those that its streams are over, and few others. -/
structure Leased (s : Session) : Prop where
  /-- Streams are numbered in the order in which they were opened. -/
  numbered : s.streams.map (·.id) = List.range' 1 s.streams.length
  /-- An object has a lease for each stream that is open over it. -/
  leases : ∀ e ∈ s.registry.entries, e.leases = s.roll.openStreams e.object
  /-- The object of an open stream is the one that is kept under its key. -/
  tracked : ∀ x ∈ s.streams, x.closed = false →
    ∃ e, s.registry.find? (s.key x.object) = some e ∧ e.object = x.object ∧ s.handle? x.object = some e.handle
  /-- Streams that are open on a key are over one object, and so over the same blocks, with one footer, size and tag. -/
  shared : ∀ x ∈ s.streams, ∀ y ∈ s.streams, x.closed = false → y.closed = false →
    s.key x.object = s.key y.object → x.object = y.object
  /-- Of the objects that no stream is open over, no more are kept than may be. -/
  idle : (s.registry.entries.countP fun e => s.roll.openStreams e.object == 0) ≤ s.config.registry.maxIdle

/-- An event drops an object as it may: a stream is closed that was open, none is open over the object, and whatever
    is kept without an open stream was opened after it. -/
structure Drops (s : Session) (e : Event) (dropped : Tracked) : Prop where
  close : ∃ id x, e = .close id ∧ s.stream? id = some x ∧ x.closed = false
  unused : (s.step e).roll.openStreams dropped.object = 0
  oldest : ∀ u ∈ (s.step e).registry.entries, (s.step e).roll.openStreams u.object = 0 →
    (s.step e).roll.OpenedAfter u.object dropped.object

/-- Whatever is kept before an event and not after it was dropped as it may be. -/
def DropsFairly (s : Session) (e : Event) : Prop :=
  ∀ t ∈ s.registry.entries, (∀ u ∈ (s.step e).registry.entries, u.object ≠ t.object) → s.Drops e t

/-- A roll is in order, and no more idle objects are on it than may be. -/
structure InOrder (s : Session) : Prop where
  sound : s.roll.Sound s.handle?
  idle : s.registry.entries.countP (fun t => t.leases == 0) ≤ s.registry.maxIdle
  bound : s.registry.maxIdle = s.config.registry.maxIdle

variable {C : Contents} {s s' : Session}

/-! ### The roll of a session -/

theorem mem_lessees {t : Lessee} : t ∈ s.roll.lessees ↔ ∃ x ∈ s.streams, x.lessee = t := List.mem_map

theorem map_id_lessees (s : Session) : s.roll.lessees.map (·.id) = s.streams.map (·.id) := by
  simp [roll, Stream.lessee]

theorem inOrder_fresh (config : Config) : (fresh config).InOrder where
  sound := ⟨.nil, nofun, nofun, nofun, rfl, .nil⟩
  idle := Nat.zero_le _
  bound := rfl

theorem Sound.object_lt (h : s.Sound C none) {t : Lessee} (ht : t ∈ s.roll.lessees) : t.object < s.footers.length := by
  obtain ⟨x, hx, rfl⟩ := mem_lessees.mp ht
  exact h.within.streams x hx

/-- A roll stays in order when nothing happens to it or a stream is enrolled, and no object is lost. -/
theorem InOrder.admits (ho : s.InOrder) (h : s.Sound C none) (hadmits : Admits s s')
    (hh : ∀ ⦃o x⦄, s.handle? o = some x → s'.handle? o = some x) (hconfig : s'.config = s.config) :
    s'.InOrder ∧ ∀ t ∈ s.registry.entries, ∃ u ∈ s'.registry.entries, u.object = t.object := by
  have hbound : s.registry.maxIdle = s'.config.registry.maxIdle := hconfig ▸ ho.bound
  cases hadmits with
  | nobody hroll =>
    have hregistry : s'.registry = s.registry := congrArg Roll.registry hroll
    refine ⟨⟨hroll ▸ ho.sound.mono hh, hregistry ▸ ho.idle, hregistry ▸ hbound⟩, fun t ht => ?_⟩
    exact ⟨t, hregistry ▸ ht, rfl⟩
  | stream handle hroll hnew =>
    have hregistry : s'.registry = (s.registry.acquire handle s.footers.length).1 := congrArg Roll.registry hroll
    refine ⟨⟨?_, ?_, ?_⟩, fun t ht => ?_⟩
    · rw [hroll]
      exact ho.sound.enroll hh (fun u hu => Nat.ne_of_lt (h.within.entries u hu))
        (fun t ht => Nat.ne_of_lt (h.object_lt ht)) hnew
    · rw [hregistry, Registry.maxIdle_acquire]
      exact Nat.le_trans (Registry.countP_acquire_le ..) ho.idle
    · rw [hregistry, Registry.maxIdle_acquire]
      exact hbound
    · rw [hregistry]
      exact ho.sound.exists_enrolled ht

/-- A roll stays in order when a stream is struck off, and what is dropped then may be. -/
theorem InOrder.strike (ho : s.InOrder) (h : s.Sound C none) {x : Stream} (hx : x ∈ s.streams)
    (hopen : x.closed = false) (hroll : s'.roll = (s.roll.strike x.id (s.key x.object)).trim)
    (hh : ∀ ⦃o x⦄, s.handle? o = some x → s'.handle? o = some x) (hconfig : s'.config = s.config) :
    s'.InOrder ∧ ∀ t ∈ s.registry.entries, (∀ u ∈ s'.registry.entries, u.object ≠ t.object) →
      s'.roll.openStreams t.object = 0 ∧ ∀ u ∈ s'.registry.entries, s'.roll.openStreams u.object = 0 →
        s'.roll.OpenedAfter u.object t.object := by
  obtain ⟨handle, hhandle⟩ := h.exists_handle? (h.within.streams x hx)
  rw [key_of_handle? hhandle] at hroll
  have hstruck := ho.sound.strike (mem_lessees.mpr ⟨x, hx, rfl⟩) hopen hhandle
  have hregistry : s'.registry = (s.roll.strike x.id handle.key).trim.registry := congrArg Roll.registry hroll
  refine ⟨⟨?_, ?_, ?_⟩, fun t ht hgone => ?_⟩
  · rw [hroll]
    exact (hstruck.mono hh).trim
  · rw [hregistry]
    exact Registry.countP_trim_le _ _
  · rw [hregistry, hconfig]
    exact ho.bound
  · obtain ⟨u, hu, hut⟩ : ∃ u ∈ (s.roll.strike x.id handle.key).registry.entries, u.object = t.object :=
      ⟨_, List.mem_map_of_mem ht, by split <;> rfl⟩
    rw [hregistry] at hgone ⊢
    rw [hroll, ← hut]
    exact hstruck.of_trim hu (hut ▸ hgone)

/-- Whatever happens, the roll stays in order, and what is dropped may be. -/
theorem InOrder.step (ho : s.InOrder) (h : s.Sound .any none) (e : Event) :
    (s.step e).InOrder ∧ s.DropsFairly e := by
  have hfair := (fairRun_any s [e]).1
  have hconfig := h.config_step hfair
  have hhandles : ∀ ⦃o x⦄, s.handle? o = some x → (s.step e).handle? o = some x := fun o x hx =>
    handle?_of_extends (h.extends_step hfair) hx
  rcases h.roll_step e with hadmits | ⟨id, x, rfl, hx, hopen, hroll⟩
  · obtain ⟨horder, hkept⟩ := ho.admits h hadmits hhandles hconfig
    refine ⟨horder, fun t ht hgone => ?_⟩
    obtain ⟨u, hu, hut⟩ := hkept t ht
    exact absurd hut (hgone u hu)
  · obtain rfl := id_of_stream? hx
    obtain ⟨horder, hdropped⟩ := ho.strike h (mem_of_stream? hx) hopen hroll hhandles hconfig
    refine ⟨horder, fun t ht hgone => ?_⟩
    obtain ⟨hunused, holdest⟩ := hdropped t ht hgone
    exact ⟨⟨x.id, x, rfl, hx, hopen⟩, hunused, holdest⟩

theorem InOrder.leased (ho : s.InOrder) : s.Leased := by
  have htracked : ∀ x ∈ s.streams, x.closed = false →
      ∃ e, s.registry.find? (s.key x.object) = some e ∧ e.object = x.object ∧ s.handle? x.object = some e.handle := by
    intro x hx hopen
    obtain ⟨e, he, hobject⟩ := ho.sound.tracked x.lessee (mem_lessees.mpr ⟨x, hx, rfl⟩) hopen
    have hhandle : s.handle? x.object = some e.handle := (show e.object = x.object from hobject) ▸ ho.sound.handles e he
    refine ⟨e, ?_, hobject, hhandle⟩
    rw [key_of_handle? hhandle]
    exact Registry.find?_eq_some ho.sound.keys he
  refine ⟨?_, ho.sound.leases, htracked, fun x hx y hy hopen hopen' hkey => ?_, ?_⟩
  · rw [← map_id_lessees, ho.sound.ids]
    simp [roll]
  · obtain ⟨e, he, hobject, -⟩ := htracked x hx hopen
    obtain ⟨e', he', hobject', -⟩ := htracked y hy hopen'
    rw [hkey] at he
    cases he.symm.trans he'
    exact hobject.symm.trans hobject'
  · have hsame : (s.registry.entries.countP fun e => s.roll.openStreams e.object == 0) =
        s.registry.entries.countP fun e => e.leases == 0 :=
      List.countP_congr fun e he => by rw [ho.sound.leases e he]
    rw [hsame, ← ho.bound]
    exact ho.idle

/-- A stream that is opened with a key is over the object of that key. -/
theorem InOrder.exists_opened (ho : s.InOrder) (h : s.Sound C none) (handle : Handle) :
    ∃ x, (s.openHandle handle).1.stream? (s.openHandle handle).2 = some x ∧ x.closed = false ∧
      (s.openHandle handle).1.key x.object = handle.key := by
  obtain ⟨hroll, hid⟩ := roll_openHandle s handle
  have ha := (h.openHandle nofun handle).2
  have hsound := (ho.admits h (admits_openHandle h.cache.stores h.footers handle)
    (fun _ _ hx => handle?_of_extends ha.cache hx) ha.config).1.sound
  obtain ⟨e, henroll, hkey, -⟩ := s.roll.exists_enroll handle s.footers.length
  rw [henroll] at hroll
  generalize s.openHandle handle = opened at hroll hid hsound ⊢
  obtain ⟨s', id⟩ := opened
  dsimp only at hroll hid hsound ⊢
  obtain ⟨x, hx, hlessee⟩ := mem_lessees.mp (show ⟨s.roll.lessees.length + 1, e.object, false⟩ ∈ s'.roll.lessees by
    rw [hroll]
    exact List.mem_append_right _ (List.mem_singleton_self _))
  have hxid : x.id = id := (congrArg Lessee.id hlessee).trans (by rw [hid]; simp [roll])
  have hobject : x.object = e.object := congrArg Lessee.object hlessee
  refine ⟨x, ?_, congrArg Lessee.closed hlessee, ?_⟩
  · have hids : (s'.streams.map (·.id)).Nodup := by
      rw [← map_id_lessees, hsound.ids]
      exact List.nodup_range'
    rw [← hxid]
    exact find?_key (f := fun y : Stream => y.id) hids hx
  · have hentry : e ∈ s'.roll.registry.entries := by
      rw [hroll]
      exact List.mem_cons_self
    rw [hobject, key_of_handle? (hsound.handles e hentry), hkey]

theorem InOrder.runEvents (ho : s.InOrder) (h : s.Sound .any none) (l : List Event) : (s.runEvents l).InOrder := by
  induction l generalizing s with
  | nil => exact ho
  | cons e l ih => exact ih (ho.step h e).1 (h.step (fairRun_any s [e]).1).1

/-- Whatever happened to a session with whatever configuration, and in whatever order: each object that is kept has as
    many leases as it has open streams; streams that are open on a key share the object that is kept under it; no more
    objects are kept idle than may be; and none is dropped by the next event, unless this closes a stream, none is open
    over the object, and whatever is kept idle was opened after it. A stream that is opened then is open on the key that
    it was opened with. -/
theorem leased_runEvents (config : Config) (l : List Event) :
    let s := (fresh config).runEvents l
    s.config = config ∧ s.Leased ∧ (∀ e, s.DropsFairly e) ∧ ∀ handle : Handle,
      ∃ x, (s.openHandle handle).1.stream? (s.openHandle handle).2 = some x ∧ x.closed = false ∧
        (s.openHandle handle).1.key x.object = handle.key := by
  intro s
  have hfresh := sound_fresh .any config
  have hfair := fairRun_any (fresh config) l
  have hsound : s.Sound .any none := hfresh.runEvents hfair
  have horder : s.InOrder := (inOrder_fresh config).runEvents hfresh l
  exact ⟨config_runEvents hfresh hfair, horder.leased, fun e => (horder.step hsound e).2, horder.exists_opened hsound⟩

/-- Of two objects one may be kept idle. That which was opened first is dropped when no stream is open any more. -/
theorem leased_runEvents_two :
    let s := (fresh { registry := { maxIdle := 1 } }).runEvents
      [.openSized "a" 4, .openSized "b" 4, .openSized "a" 4, .close 1, .close 1, .close 2]
    s.registry.entries.map (fun t => (t.object, t.leases)) = [(0, 1), (1, 0)] ∧
      (s.step (.close 3)).registry.entries.map (fun t => (t.object, t.leases)) = [(0, 0)] ∧
      ∃ t ∈ s.registry.entries, t.object = 1 ∧ s.Drops (.close 3) t := by
  intro s
  have hentries : s.registry.entries.map (fun t => (t.object, t.leases)) = [(0, 1), (1, 0)] := by decide +kernel
  have hafter : (s.step (.close 3)).registry.entries.map (fun t => (t.object, t.leases)) = [(0, 0)] := by
    decide +kernel
  refine ⟨hentries, hafter, ?_⟩
  obtain ⟨t, ht, heq⟩ := List.mem_map.mp (hentries ▸ List.mem_cons_of_mem _ (List.mem_singleton_self (1, 0)))
  obtain ⟨hobject, -⟩ := Prod.mk.inj heq
  refine ⟨t, ht, hobject, (leased_runEvents _ _).2.2.1 (.close 3) t ht fun u hu => ?_⟩
  have hmem := hafter ▸ List.mem_map_of_mem (f := fun t : Tracked => (t.object, t.leases)) hu
  have : u.object = 0 := congrArg Prod.fst (List.mem_singleton.mp hmem)
  omega

end Session

end RangeCache
