import RangeCache.Proofs.Footer.Trailer
import RangeCache.Proofs.Session.Smooth
import RangeCache.Proofs.Session.Streams

/-!
# What is known of footers

The footer of an object is looked for at its end: a guess is read first, and then, if that tells how much is needed,
as many bytes as it tells. If every guess holds the trailer of a footer, what comes of it is what all of the object
tells (`footers_tell`). So it makes no difference how much is guessed, nor when, nor how often it had to be tried. A
session is `Informed` if all that it knows of footers is right, and whoever looks for one reads the right bytes.
-/

namespace RangeCache

/-! ### Guesses -/

/-- Every guess holds the trailer of a footer, if the object does. -/
structure FooterConfig.Ample (c : FooterConfig) : Prop where
  tail : Footer.trailerLength ≤ c.tailPrefetch
  large : Footer.trailerLength ≤ c.largeTailPrefetch

namespace Footer

variable {decode : Bytes → Option FileRecord}

theorem lt_of_parse_needMore {tail : Bytes} {size n : Nat} (h : parse decode tail size = .ok (.needMore n)) :
    tail.length < n := by
  rcases parse_eq_ok h with ⟨hlt, hp⟩ | ⟨-, -, ⟨hlt, hp⟩ | ⟨-, _, _, -, hp⟩⟩ <;> cases hp
  · exact hlt
  · exact hlt

/-- A guess that holds the trailer tells what the whole object tells, or how much of it does. -/
theorem parse_tailFor {c : FooterConfig} (hc : c.Ample) (whole : Bytes) :
    parse decode (whole.last (c.tailFor whole.length)) whole.length = parse decode whole whole.length ∨
      ∃ r ≤ whole.length, parse decode (whole.last (c.tailFor whole.length)) whole.length = .ok (.needMore r) ∧
        parse decode (whole.last r) whole.length = parse decode whole whole.length := by
  have hclamp : ∀ n, whole.last (min n whole.length) = whole.last n := fun n => by
    unfold Bytes.last
    congr 1
    omega
  have hn : trailerLength ≤ if c.largeThreshold ≤ whole.length then c.largeTailPrefetch else c.tailPrefetch := by
    split
    · exact hc.large
    · exact hc.tail
  unfold FooterConfig.tailFor
  rw [hclamp]
  exact (parse_last hn).imp_right fun ⟨r, _, hr⟩ => ⟨r, hr⟩

end Footer

namespace Handle
variable {objects : String → Bytes} {h : Handle} {c : FooterConfig} {tail : Bytes} {n : Nat}

/-- This is what all of an object tells of its footer, if the object is as long as it is said to be. -/
def Tells (objects : String → Bytes) (h : Handle) (p : Except FooterFault Footer.Parse) : Prop :=
  (objects h.key).length = h.size → p = Footer.parse FileRecord.decode? (objects h.key) h.size

/-- These are the last bytes of an object, if it is as long as it is said to be. -/
def EndsIn (objects : String → Bytes) (h : Handle) (n : Nat) (tail : Bytes) : Prop :=
  (objects h.key).length = h.size → tail = (objects h.key).last n

/-- As many bytes of the end of an object tell what all of it tells. -/
def Suffices (objects : String → Bytes) (h : Handle) (n : Nat) : Prop :=
  h.Tells objects (Footer.parse FileRecord.decode? ((objects h.key).last n) h.size)

theorem endsIn_of_allows (hb : (Contents.ofObjects objects).allows h.key ((Span.tail h.size n).clamp h.size) tail) :
    h.EndsIn objects n tail := fun hsize => by
  have hspan : Span.tail h.size n = Span.tail h.size (min n h.size) := by
    unfold Span.tail
    congr 1
    omega
  obtain ⟨hlength, hbytes⟩ := Session.eq_of_allows_readTail (hspan ▸ hb)
  rw [hbytes, hlength]
  unfold Bytes.slice Bytes.last Span.length
  rw [hsize, show h.size - min n h.size = h.size - n by omega]
  refine List.take_of_length_le ?_
  rw [List.length_drop, hsize]

theorem EndsIn.tells (ht : h.EndsIn objects n tail) (hn : h.Suffices objects n) :
    h.Tells objects (Footer.parse FileRecord.decode? tail h.size) := fun hsize => ht hsize ▸ hn hsize

/-- When a guess tells how much is needed, that much suffices. -/
theorem EndsIn.suffices (ht : h.EndsIn objects (c.tailFor h.size) tail) (hc : c.Ample)
    (hmore : Footer.parse FileRecord.decode? tail h.size = .ok (.needMore n)) (hle : n ≤ h.size) :
    h.Suffices objects n := fun hsize => by
  rw [ht hsize, ← hsize] at hmore
  rw [← hsize]
  rcases Footer.parse_tailFor hc (objects h.key) with heq | ⟨r, -, hr, hsame⟩
  · -- The whole object does not tell that more of it is needed.
    have := Footer.lt_of_parse_needMore (heq ▸ hmore)
    omega
  · cases hr.symm.trans hmore
    exact hsame

/-- When a guess does not tell how much is needed, it tells all that there is to tell. -/
theorem EndsIn.tells_guess (ht : h.EndsIn objects (c.tailFor h.size) tail) (hc : c.Ample)
    (hmore : ∀ n, Footer.parse FileRecord.decode? tail h.size = .ok (.needMore n) → h.size < n) :
    h.Tells objects (Footer.parse FileRecord.decode? tail h.size) := fun hsize => by
  rw [ht hsize, ← hsize] at hmore ⊢
  rcases Footer.parse_tailFor hc (objects h.key) with heq | ⟨r, hle, hr, -⟩
  · exact heq
  · exact absurd hle (Nat.not_le.mpr (hmore r hr))

end Handle

/-! ### Sessions that are informed -/

/-- A task that looks for a footer reads the end of the object, as much as is guessed or as much as suffices. -/
def Activity.Seeks (objects : String → Bytes) (s : Session) : Activity → Prop
  | .reading r (.guess o _) => ∃ h, s.handle? o = some h ∧ r.store = o ∧
      r.span = (Span.tail h.size (s.config.footer.tailFor h.size)).clamp h.size
  | .reading r (.footer o _) => ∃ h, s.handle? o = some h ∧ r.store = o ∧
      ∃ n, h.Suffices objects n ∧ r.span = (Span.tail h.size n).clamp h.size
  | _ => True

/-- All that is known of footers is right, and whoever looks for one reads the right bytes. -/
structure Session.Informed (objects : String → Bytes) (s : Session) : Prop where
  grid : 0 < s.config.store.blockSize
  ample : s.config.footer.Ample
  loaded : ∀ ⦃o : Nat⦄ ⦃f : FooterState⦄, s.footer o = .loaded f →
    ∃ h p, s.handle? o = some h ∧ h.Tells objects p ∧ f = footerState h.size p
  seeking : ∀ u ∈ s.tasks, u.activity.Seeks objects s

section Informed
variable {objects : String → Bytes} {s s' : Session}

theorem Activity.Seeks.mono {a : Activity} (h : a.Seeks objects s) (hconfig : s'.config = s.config)
    (hc : s.cache.Extends s'.cache) : a.Seeks objects s' := by
  unfold Activity.Seeks at h ⊢
  split at h
  · obtain ⟨x, hx, hstore, hspan⟩ := h
    exact ⟨x, Session.handle?_of_extends hc hx, hstore, hconfig ▸ hspan⟩
  · obtain ⟨x, hx, hr⟩ := h
    exact ⟨x, Session.handle?_of_extends hc hx, hr⟩
  · exact h

theorem Activity.seeks_of_not_reading {a : Activity} (h : ∀ r use, a ≠ .reading r use) : a.Seeks objects s := by
  unfold Activity.Seeks
  split
  · exact absurd rfl (h _ _)
  · exact absurd rfl (h _ _)
  · exact trivial

namespace Session

theorem Informed.mono (h : Informed objects s) (hconfig : s'.config = s.config) (hcache : s.cache.Extends s'.cache)
    (hfooters : ∀ o f, s'.footer o = .loaded f → s.footer o = .loaded f ∨
      ∃ h p, s'.handle? o = some h ∧ h.Tells objects p ∧ f = footerState h.size p)
    (htasks : ∀ u ∈ s'.tasks, u ∈ s.tasks ∨ u.activity.Seeks objects s') : Informed objects s' where
  grid := hconfig ▸ h.grid
  ample := hconfig ▸ h.ample
  loaded o f hf := by
    rcases hfooters o f hf with hf | hnew
    · obtain ⟨x, p, hx, hp⟩ := h.loaded hf
      exact ⟨x, p, handle?_of_extends hcache hx, hp⟩
    · exact hnew
  seeking u hu := by
    rcases htasks u hu with hu | hnew
    · exact (h.seeking u hu).mono hconfig hcache
    · exact hnew

theorem Informed.congr (h : Informed objects s) (hconfig : s'.config = s.config) (hcache : s'.cache = s.cache)
    (hfooters : s'.footers = s.footers) (htasks : s'.tasks ⊆ s.tasks) : Informed objects s' :=
  h.mono hconfig (hcache ▸ .refl _) (fun o f hf => Or.inl (by rwa [footer, hfooters] at hf)) fun _ hu =>
    Or.inl (htasks hu)

/-- Nothing is learned about footers while a session is calm. -/
theorem Informed.calm (h : Informed objects s) {k : Nat} {mv : Option Nat} (hc : Calm k s s') (ha : Aside mv s s')
    (hfooter : ∀ o, s'.footer o = s.footer o) : Informed objects s' := by
  refine h.mono ha.config ha.cache (fun o f hf => Or.inl (hfooter o ▸ hf)) fun u hu => ?_
  obtain ⟨l, hl, -, hnew⟩ := hc.tasks
  rcases List.mem_append.mp (hl ▸ hu) with hu | hu
  · exact Or.inl hu
  · exact Or.inr (Activity.seeks_of_not_reading (hnew u hu).2)

variable {C : Contents} {cur : Option Turn} {t : Nat} {l : Option Nat}

/-! ### What tells nothing of footers -/

theorem Informed.finish (h : Informed objects s) (t : Nat) (o : Outcome) : Informed objects (s.finish t o) :=
  h.congr rfl rfl rfl List.filter_sublist.subset

theorem Informed.leave (h : Informed objects s) (t : Nat) : Informed objects (s.leave t) :=
  h.congr rfl rfl rfl List.filter_sublist.subset

theorem Informed.become (h : Informed objects s) (t : Nat) {a : Activity} (ha : a.Seeks objects s) :
    Informed objects (s.become t a) := by
  refine h.mono rfl (.refl _) (fun _ _ hf => Or.inl hf) fun u hu => ?_
  obtain ⟨v, hv, rfl⟩ := List.mem_map.mp hu
  split
  · exact Or.inr ha
  · exact Or.inl hv

theorem Informed.modifyStream (h : Informed objects s) (k : Nat) (f : Stream → Stream) :
    Informed objects (s.modifyStream k f) := h.congr rfl rfl rfl (List.Subset.refl _)

theorem Informed.adopt (h : Informed objects s) (id : Nat) (f : FooterState) : Informed objects (s.adopt id f) :=
  h.modifyStream id _

theorem Informed.resumeAll (h : Informed objects s) (l : List Nat) : Informed objects (l.foldl resume s) := by
  obtain ⟨r, hr, -⟩ := exists_resumeAll l s
  rw [hr]
  exact h.congr rfl rfl rfl (List.Subset.refl _)

theorem Informed.attempt (h : Informed objects s) (t : Nat) (e : Errand) (n : Nat) :
    Informed objects (s.attempt t e n) :=
  (h.become t (a := .errand e n .called) trivial).congr rfl rfl rfl (List.Subset.refl _)

theorem Informed.onCache {α : Type} (h : Informed objects s) {f : Cache → Cache × α}
    (hc : s.cache.Extends (f s.cache).1) : Informed objects (s.onCache f).1 := by
  obtain ⟨_, _, he⟩ := exists_onCache s f
  rw [he]
  refine h.mono rfl hc (fun _ _ hf => Or.inl hf) fun u hu => ?_
  exact (List.mem_append.mp hu).imp_right fun hu => Activity.seeks_of_not_reading (not_reading_of_mem_spawned hu)

theorem footers_ensurePlan (s : Session) (x : Stream) (plan : Plan) (priority : Priority) :
    (s.ensurePlan x plan priority).1.footers = s.footers := by
  unfold Session.ensurePlan
  split
  · rfl
  · generalize (if plan.kind.isExact then Fit.exact else Fit.grid) = fit
    exact footers_onCache s fun c => c.ensure x.object (plan.spans priority) fit priority (some x.id)

theorem footers_replan (s : Session) (x : Stream) (f : Planner → Planner × Plan) :
    (s.replan x f).1.footers = s.footers := by
  unfold Session.replan Session.applyPlan
  dsimp only
  have hfirst := footers_ensurePlan
    ((s.modifyStream x.id fun y => { y with planner := (f x.planner).1 }).onCache fun c => c.cancel x.id).1 x
    (f x.planner).2 .immediate
  rw [footers_onCache] at hfirst
  split <;> rename_i heq <;> rw [heq] at hfirst
  · exact hfirst
  · exact (footers_ensurePlan _ _ _ _).trans hfirst

theorem Sound.informed_replan (h : s.Sound C cur) (hi : Informed objects s) (x : Stream)
    (f : Planner → Planner × Plan) : Informed objects (s.replan x f).1 :=
  hi.calm (h.grants_replan x f).calm (h.replan x f).2 fun o => by rw [footer, footers_replan, footer]

theorem Informed.afterBytes (h : Informed objects s) (t : Nat) (r : Except Fault Bytes) :
    Informed objects (s.afterBytes t r) := by
  cases r with
  | error f => exact h.finish t _
  | ok b => exact h.finish t _

theorem Informed.afterStream (h : Informed objects s) (t id offset : Nat) (r : Except Fault Bytes) :
    Informed objects (s.afterStream t id offset r) := by
  cases r with
  | error f => exact h.finish t _
  | ok b =>
    unfold Session.afterStream
    dsimp only
    split
    · exact h.finish t _
    · refine Informed.finish ?_ t _
      unfold Session.recordColumn
      repeat' split
      all_goals exact h.congr rfl rfl rfl (List.Subset.refl _)

/-! ### Reads -/

theorem Sound.handle?_eq (h' : s'.Sound C cur) (h : s.Sound C cur) (hf : s'.footers = s.footers)
    (hc : s.cache.Extends s'.cache) (o : Nat) : s'.handle? o = s.handle? o := by
  cases hx : s'.handle? o with
  | none =>
    cases hy : s.handle? o with
    | none => rfl
    | some y => exact hx.symm.trans (handle?_of_extends hc hy)
  | some x =>
    obtain ⟨z, hz, -⟩ := Option.map_eq_some_iff.mp hx
    have hlt := (List.getElem?_eq_some_iff.mp hz).1
    rw [← h'.footers, hf] at hlt
    obtain ⟨y, hy⟩ := h.exists_handle? hlt
    rw [hy, ← hx]
    exact handle?_of_extends hc hy

/-- The objects are those that there were, and the configuration is the same. -/
structure SameObjects (s s' : Session) : Prop where
  config : s'.config = s.config
  handle : ∀ o, s'.handle? o = s.handle? o

/-- A task reads: what it waits for, or goes on with, are the bytes that it should have. -/
theorem Sound.informed_reading (use : Use) (h : s.Sound C (some ⟨t, use.object?, none⟩)) (hi : Informed objects s)
    {f : Cache → Cache × Progress Reading} {next : Session → Except Fault Bytes → Session} {i : Nat} {key : String}
    {span : Span} (hm : Moves (fun _ _ => False) ⟨s.cache, []⟩ ⟨(f s.cache).1, []⟩)
    (hd : (f s.cache).1.Delivers C i key s.config.store.blockSize span (f s.cache).2)
    (hseeks : ∀ r : Reading, r.store = i → r.span = span → i < s.cache.stores.length →
      (Activity.reading r use).Seeks objects s)
    (hnext : ∀ s' b, s'.Sound C (some ⟨t, use.object?, none⟩) → Informed objects s' → SameObjects s s' →
      (∀ d, b = .ok d → C.allows key span d) → Informed objects (next s' b)) :
    Informed objects (s.reading t use f next) := by
  have hs := h.onCache hm
  have ha := h.aside_onCache hm
  have hsame : SameObjects s (s.onCache f).1 := ⟨ha.config, hs.handle?_eq h (footers_onCache s f) ha.cache⟩
  have hi' := hi.onCache (Moves.extends hm h.cache.stores)
  unfold reading
  rw [show s.onCache f = ((s.onCache f).1, (f s.cache).2) from rfl]
  generalize (s.onCache f).1 = s' at hs ha hi' hsame ⊢
  cases hprog : (f s.cache).2 with
  | done b =>
    refine hnext s' b hs hi' hsame fun d hb => ?_
    subst hb
    rw [hprog] at hd
    exact hd hi.grid
  | waiting r =>
    rw [hprog] at hd
    obtain ⟨hstore, hspan, ⟨x, hx, -⟩, -⟩ := hd
    have hlt : i < s.cache.stores.length := hstore ▸ Moves.length_stores hm ▸ (List.getElem?_eq_some_iff.mp hx).1
    exact hi'.become t ((hseeks r hstore hspan hlt).mono ha.config ha.cache)

/-! ### With the footer, as far as there is one -/

theorem Sound.informed_select (h : s.Sound C cur) (hi : Informed objects s) (t id : Nat) (columns : List Nat)
    (o : Outcome) : Informed objects (s.select t id columns o) := by
  unfold select
  split
  · exact hi.finish t _
  · rename_i x _
    have hi' := h.informed_replan hi x fun p => p.onSelect x.position columns
    split <;> rename_i heq <;> rw [heq] at hi' <;> exact hi'.finish t _

theorem Sound.informed_pursue (h : s.Sound C (some ⟨t, none, none⟩)) (hi : Informed objects s) (goal : Goal) :
    Informed objects (s.pursue t goal) := by
  unfold pursue
  cases goal with
  | read id offset length =>
    dsimp only
    cases s.stream? id with
    | none => exact hi.finish t _
    | some x =>
      dsimp only
      obtain ⟨h₁, -⟩ := h.replan x fun p => p.onRead s.recent.paths offset length
      have hi₁ := h.informed_replan hi x fun p => p.onRead s.recent.paths offset length
      split <;> rename_i heq <;> rw [heq] at h₁ hi₁
      · exact hi₁.finish t _
      · exact Sound.informed_reading (.stream id offset) h₁ hi₁
          (f := fun c => c.beginRead x.object ⟨offset, offset + length⟩ .grid (some id))
          (Cache.moves_beginRead h₁.cache.stores ..) (h₁.delivers_beginRead ..) (fun _ _ _ _ => trivial)
          fun _ b _ h₂ _ _ => h₂.afterStream t id offset b
  | readTail id length =>
    dsimp only
    cases s.stream? id with
    | none => exact hi.finish t _
    | some x =>
      exact Sound.informed_reading .bytes h hi
        (f := fun c => c.beginRead x.object (.tail (s.size x.object) length) .grid (some id))
        (Cache.moves_beginRead h.cache.stores ..) (h.delivers_beginRead ..) (fun _ _ _ _ => trivial)
        fun _ b _ h₁ _ _ => h₁.afterBytes t b
  | declare id columns => exact h.informed_select hi t id columns .done
  | declareNames id names =>
    dsimp only
    split
    · exact hi.finish t _
    · exact h.informed_select hi t id _ _
  | footer => exact hi.leave t

theorem Sound.informed_arrive (h : s.Sound C (some ⟨t, none, none⟩)) (hi : Informed objects s) (goal : Goal)
    (f : Option FooterState) : Informed objects (s.arrive t goal f) := by
  unfold arrive
  split
  · exact (h.adopt _ _).1.informed_pursue (hi.adopt _ _) goal
  · exact h.informed_pursue hi goal

/-! ### Footers -/

variable {object : Nat}

theorem Informed.setFooter (h : Informed objects s) (o : Nat) (cell : FooterCell)
    (hcell : ∀ f, cell = .loaded f → o < s.footers.length →
      ∃ h p, s.handle? o = some h ∧ h.Tells objects p ∧ f = footerState h.size p) :
    Informed objects (s.setFooter o cell) := by
  refine h.mono rfl (.refl _) (fun k f hf => ?_) fun _ hu => Or.inl hu
  rw [footer_setFooter] at hf
  split at hf
  · rename_i hk
    exact Or.inr (hk.1 ▸ hcell f hf hk.2)
  · exact Or.inl hf

theorem footers_prefetchPageIndex (s : Session) (object : Nat) (l : Layout) :
    (s.prefetchPageIndex object l).footers = s.footers := by
  unfold Session.prefetchPageIndex
  dsimp only
  split
  · exact footers_onCache s _
  · rfl

/-- What is found of a footer is right if it is what the whole object tells. -/
theorem Sound.informed_settleFooter (h : s.Sound C (some ⟨t, some object, none⟩)) (hi : Informed objects s)
    (goal : Goal) {p : Except FooterFault Footer.Parse} (hp : ∀ x, s.handle? object = some x → x.Tells objects p) :
    Informed objects (s.settleFooter t object goal p) := by
  have hprefetch : ∃ s', s'.Sound C (some ⟨t, some object, none⟩) ∧ Aside none s s' ∧ Informed objects s' ∧
      s'.footers = s.footers ∧ s.settleFooter t object goal p = ((queueOf (s'.footer object)).foldl resume
        (s'.setFooter object (.loaded (footerState (s.size object) p)))).arrive t goal
          (some (footerState (s.size object) p)) := by
    unfold settleFooter
    dsimp only
    cases footerState (s.size object) p with
    | parsed l =>
      obtain ⟨h₁, ha⟩ := h.prefetchPageIndex object l
      have hf := footers_prefetchPageIndex s object l
      exact ⟨_, h₁, ha, hi.calm (h.calm_prefetchPageIndex object l) ha fun o => by rw [footer, hf, footer], hf, rfl⟩
    | degraded f => exact ⟨s, h, .refl s, hi, rfl, rfl⟩
  obtain ⟨s', h', ha, hi', hf, he⟩ := hprefetch
  rw [he]
  refine (h'.endLoad _).informed_arrive (Informed.resumeAll (hi'.setFooter object _ ?_) _) goal _
  rintro f hcell hlt
  cases hcell
  obtain ⟨x, hx⟩ := h.exists_handle? (hf ▸ hlt)
  exact ⟨x, p, handle?_of_extends ha.cache hx, hp x hx, by rw [size_of_handle? hx]⟩

theorem Sound.informed_failFooter (h : s.Sound C (some ⟨t, some object, none⟩)) (hi : Informed objects s)
    (goal : Goal) : Informed objects (s.failFooter t object goal) := by
  refine h.failLoad.informed_arrive ?_ goal none
  split
  · rename_i x q _
    exact Informed.resumeAll (hi.setFooter object (.loading x q) nofun) [x]
  · exact hi.setFooter object .unloaded nofun

theorem Sound.informed_afterFooter (h : s.Sound C (some ⟨t, some object, none⟩)) (hi : Informed objects s)
    (goal : Goal) {r : Except Fault Bytes}
    (hr : ∀ x, s.handle? object = some x → ∀ d, r = .ok d → ∃ n, x.Suffices objects n ∧ x.EndsIn objects n d) :
    Informed objects (s.afterFooter t object goal r) := by
  cases r with
  | error f => exact h.informed_failFooter hi goal
  | ok tail =>
    refine h.informed_settleFooter hi goal fun x hx => ?_
    obtain ⟨n, hn, hd⟩ := hr x hx tail rfl
    exact size_of_handle? hx ▸ hd.tells hn

/-- A task reads the end of an object, where it looks for the footer. -/
theorem Sound.informed_readEnd (use : Use) (h : s.Sound (.ofObjects objects) (some ⟨t, use.object?, none⟩))
    (hi : Informed objects s) (hobject : use.object? = some object) (n : Nat)
    (hseeks : ∀ r : Reading, ∀ x, s.handle? object = some x → r.store = object →
      r.span = (Span.tail x.size n).clamp x.size → (Activity.reading r use).Seeks objects s)
    {next : Session → Except Fault Bytes → Session}
    (hnext : ∀ s' b, s'.Sound (.ofObjects objects) (some ⟨t, some object, none⟩) → Informed objects s' →
      SameObjects s s' → (∀ x, s'.handle? object = some x → ∀ d, b = .ok d → x.EndsIn objects n d) →
        Informed objects (next s' b)) :
    Informed objects
      (s.reading t use (fun c => c.beginRead object (.tail (s.size object) n) .exact none) next) := by
  refine Sound.informed_reading use h hi
    (f := fun c => c.beginRead object (.tail (s.size object) n) .exact none) (Cache.moves_beginRead h.cache.stores ..)
    (h.delivers_beginRead ..) (fun r hstore hspan hlt => ?_) fun s' b hs hi' hsame hb =>
      hnext s' b (hobject ▸ hs) hi' hsame fun x hx d hd => ?_
  · obtain ⟨x, hx⟩ := h.exists_handle? (h.footers ▸ hlt)
    exact hseeks r x hx hstore (size_of_handle? hx ▸ hspan)
  · have hallows := hb d hd
    have hx' := (hsame.handle object).symm.trans hx
    rw [key_of_handle? hx', size_of_handle? hx'] at hallows
    exact Handle.endsIn_of_allows hallows

theorem Sound.informed_afterGuess (h : s.Sound (.ofObjects objects) (some ⟨t, some object, none⟩))
    (hi : Informed objects s) (goal : Goal) {r : Except Fault Bytes}
    (hr : ∀ x, s.handle? object = some x → ∀ d, r = .ok d → x.EndsIn objects (s.config.footer.tailFor x.size) d) :
    Informed objects (s.afterGuess t object goal r) := by
  cases r with
  | error f => exact h.informed_failFooter hi goal
  | ok tail =>
    have htail := fun x hx => hr x hx tail rfl
    have hsettle : (∀ n, Footer.parse FileRecord.decode? tail (s.size object) = .ok (.needMore n) → s.size object < n) →
        Informed objects
          (s.settleFooter t object goal (Footer.parse FileRecord.decode? tail (s.size object))) := fun hno =>
      h.informed_settleFooter hi goal fun x hx => by
        rw [size_of_handle? hx] at hno ⊢
        exact (htail x hx).tells_guess hi.ample hno
    unfold afterGuess
    dsimp only
    split
    · rename_i n hmore
      split
      · rename_i hle
        have hsuffices : ∀ x, s.handle? object = some x → x.Suffices objects n := fun x hx => by
          rw [size_of_handle? hx] at hmore hle
          exact (htail x hx).suffices hi.ample hmore hle
        exact Sound.informed_readEnd (.footer object goal) h hi rfl n
          (fun r x hx hstore hspan => ⟨x, hx, hstore, n, hsuffices x hx, hspan⟩) fun s' b h' hi' hsame hb =>
            h'.informed_afterFooter hi' goal fun x hx d hd =>
              ⟨n, hsuffices x ((hsame.handle object).symm.trans hx), hb x hx d hd⟩
      · rename_i hlt
        refine hmore ▸ hsettle fun m hm => ?_
        cases hmore.symm.trans hm
        exact Nat.lt_of_not_le hlt
    · rename_i p hno
      exact hsettle fun m hm => absurd hm (hno m)

theorem Sound.informed_load (h : s.Sound (.ofObjects objects) (some ⟨t, some object, none⟩)) (hi : Informed objects s)
    (goal : Goal) : Informed objects (s.load t object goal) := by
  refine Sound.informed_readEnd (.guess object goal) h hi rfl _ (fun r x hx hstore hspan => ⟨x, hx, hstore, ?_⟩)
    fun s' b h' hi' hsame hb => h'.informed_afterGuess hi' goal fun x hx d hd => ?_
  · rwa [size_of_handle? hx] at hspan
  · have := hb x hx d hd
    rwa [size_of_handle? ((hsame.handle object).symm.trans hx), ← hsame.config] at this

theorem Sound.informed_needFooter (h : s.Sound (.ofObjects objects) (some ⟨t, none, none⟩)) (hi : Informed objects s)
    (goal : Goal) : Informed objects (s.needFooter t object goal) := by
  unfold needFooter
  split
  · exact h.informed_arrive hi goal _
  · rename_i ho
    exact (h.beginLoad ho).informed_load (hi.setFooter object (.loading t []) nofun) goal
  · rename_i n q ho
    exact (hi.setFooter object (.loading n (q ++ [t])) nofun).become t (a := .turn object goal) trivial

theorem Sound.informed_syncFooter (h : s.Sound (.ofObjects objects) (some ⟨t, none, none⟩)) (hi : Informed objects s)
    (x : Stream) (offset length : Nat) (goal : Goal) : Informed objects (s.syncFooter t x offset length goal) := by
  unfold syncFooter
  split
  · exact h.informed_pursue hi goal
  · split
    · exact h.informed_arrive hi goal _
    · split
      · exact h.informed_needFooter hi goal
      · exact h.informed_pursue hi goal

theorem Sound.informed_demandFooter (h : s.Sound (.ofObjects objects) (some ⟨t, none, none⟩)) (hi : Informed objects s)
    (x : Stream) (goal : Goal) : Informed objects (s.demandFooter t x goal) := by
  unfold demandFooter
  split
  · exact h.informed_pursue hi goal
  · exact h.informed_needFooter hi goal

/-! ### Errands and operations -/

theorem footer_openHandle (s : Session) (handle : Handle) (o : Nat) :
    (s.openHandle handle).1.footer o = s.footer o := by
  show (s.acquire handle).1.footer o = s.footer o
  unfold acquire Registry.acquire
  cases s.registry.find? handle.key with
  | some e => rfl
  | none =>
    dsimp only
    rw [if_pos rfl, footer, footers_prefetchFooter, footers_prefetchSmall]
    exact footer_addObject s handle o

theorem Sound.informed_openHandle (h : s.Sound C cur) (hcur : ∀ c, cur = some c → c.loads = none)
    (hi : Informed objects s) (handle : Handle) : Informed objects (s.openHandle handle).1 :=
  hi.calm (calm_openHandle h.cache.stores handle) (h.openHandle hcur handle).2 (footer_openHandle s handle)

theorem Sound.informed_endJob {j : Job} (h : s.Sound C (some ⟨t, none, some j⟩)) (hi : Informed objects s) (n : Nat)
    {r : Except Fault Bytes} (hr : C.admits j r) : Informed objects (s.endJob t j n r) := by
  have hext := (h.ends_endJob n hr).cache
  rw [show (s.endJob t j n r).cache = _ from cache_onCache s fun c => (c.finish j n r, ())] at hext
  exact (hi.onCache (f := fun c => (c.finish j n r, ())) hext).leave t

theorem Sound.informed_failAttempt {e : Errand} (h : s.Sound C (some ⟨t, none, e.job?⟩)) (hi : Informed objects s)
    (n draw : Nat) (x : TransferError) : Informed objects (s.failAttempt t e n draw x) := by
  unfold failAttempt
  split
  · unfold retry
    split
    · exact hi.attempt t e (n + 1)
    · exact (hi.become t (a := .errand e n .backoff) trivial).congr rfl rfl rfl (List.Subset.refl _)
  · cases e with
    | job j => exact h.informed_endJob hi n nofun
    | size key => exact hi.finish t _

theorem Sound.informed_endAttempt {e : Errand} (h : s.Sound C (some ⟨t, none, e.job?⟩)) (hi : Informed objects s)
    (n draw : Nat) {reply : Reply} (hr : (Activity.errand e n (.answered reply draw)).Right C s.cache) :
    Informed objects (s.endAttempt t e n draw reply) := by
  unfold endAttempt
  cases e with
  | job j =>
    dsimp only
    split
    · rename_i b hb
      refine h.informed_endJob hi n fun data hdata => ?_
      cases hdata
      exact hr b hb
    · exact Sound.informed_failAttempt h hi n draw _
  | size key =>
    dsimp only
    split
    · exact (h.informed_openHandle (fun c hc => by cases hc; rfl) hi _).finish t _
    · exact Sound.informed_failAttempt (e := .size key) h hi n draw _

theorem Sound.informed_awaitBlock (h : s.Sound C cur) (hi : Informed objects s) (t object block : Nat)
    (owner : Option Nat) : Informed objects (s.awaitBlock t object block owner) := by
  have hi' := hi.onCache (f := fun c => c.poll object block owner) (Moves.extends
    (Cache.moves_poll (A := fun _ _ => False) h.cache.stores object block owner) h.cache.stores)
  unfold awaitBlock
  split <;> rename_i heq <;> rw [heq] at hi'
  · exact hi'.become t (a := .awaiting object block owner) trivial
  · exact hi'.afterBytes t _

theorem Informed.onStream (h : Informed objects s) (t id : Nat) {f : Stream → Session}
    (hf : ∀ x, Informed objects (f x)) : Informed objects (s.onStream t id f) := by
  unfold Session.onStream
  split
  · exact h.finish t _
  · split
    · exact h.finish t _
    · exact hf _

theorem Sound.informed_begin (h : s.Sound (.ofObjects objects) (some ⟨t, none, none⟩)) (hi : Informed objects s)
    (op : Operation) : Informed objects (s.begin t op) := by
  unfold begin
  cases op with
  | openKey key =>
    dsimp only
    split
    · exact (h.informed_openHandle (fun c hc => by cases hc; rfl) hi _).finish t _
    · exact hi.attempt t (.size key) 1
  | read id length =>
    refine hi.onStream t id fun x => ?_
    dsimp only
    split
    · exact hi.finish t _
    · exact h.informed_syncFooter hi x _ _ _
  | readTail id length =>
    refine hi.onStream t id fun x => ?_
    dsimp only
    split
    · exact hi.finish t _
    · exact h.informed_syncFooter hi x _ _ _
  | declare id columns => exact hi.onStream t id fun x => h.informed_demandFooter hi x _
  | declareNames id names => exact hi.onStream t id fun x => h.informed_demandFooter hi x _
  | readSpan object span fit owner =>
    exact Sound.informed_reading .bytes h hi (f := fun c => c.beginRead object span fit owner)
      (Cache.moves_beginRead h.cache.stores ..) (h.delivers_beginRead ..) (fun _ _ _ _ => trivial)
      fun _ b _ h₁ _ _ => h₁.afterBytes t b
  | await object block owner => exact h.informed_awaitBlock hi t object block owner
  | loadFooter object => exact h.informed_needFooter hi .footer

/-! ### A task runs -/

/-- A read goes on, and what follows it has the bytes that the read is of. -/
theorem Sound.informed_resume {r : Reading} {use : Use}
    (h : s.Sound (.ofObjects objects) (some ⟨t, use.object?, none⟩)) (hi : Informed objects s)
    (hr : s.cache.Serves (.ofObjects objects) r) (hseeks : (Activity.reading r use).Seeks objects s) :
    Informed objects (s.reading t use (fun c => c.resumeRead r) fun s x => s.after t use x) := by
  refine Sound.informed_reading use h hi (f := fun c => c.resumeRead r) (Cache.moves_resumeRead h.cache.stores r)
    (h.delivers_resumeRead hr) (fun r' hstore hspan _ => ?_) fun s' b h' hi' hsame hb => ?_
  · cases use with
    | bytes => exact trivial
    | stream id offset => exact trivial
    | guess object goal =>
      obtain ⟨x, hx, hs, hspan'⟩ := hseeks
      exact ⟨x, hx, hstore.trans hs, hspan.trans hspan'⟩
    | footer object goal =>
      obtain ⟨x, hx, hs, n, hn, hspan'⟩ := hseeks
      exact ⟨x, hx, hstore.trans hs, n, hn, hspan.trans hspan'⟩
  · cases use with
    | bytes => exact hi'.afterBytes t b
    | stream id offset => exact hi'.afterStream t id offset b
    | guess object goal =>
      obtain ⟨x, hx, hstore, hspan⟩ := hseeks
      refine h'.informed_afterGuess hi' goal fun y hy d hd => ?_
      cases ((hsame.handle object).trans hx).symm.trans hy
      have hallows := hb d hd
      rw [hstore, key_of_handle? hx, hspan, ← hsame.config] at hallows
      exact Handle.endsIn_of_allows hallows
    | footer object goal =>
      obtain ⟨x, hx, hstore, n, hn, hspan⟩ := hseeks
      refine h'.informed_afterFooter hi' goal fun y hy d hd => ⟨n, ?_⟩
      cases ((hsame.handle object).trans hx).symm.trans hy
      have hallows := hb d hd
      rw [hstore, key_of_handle? hx, hspan] at hallows
      exact ⟨hn, Handle.endsIn_of_allows hallows⟩

variable {u : Task}

theorem Sound.informed_takeTurn (h : s.Sound (.ofObjects objects) none) (hi : Informed objects s) (hu : u ∈ s.tasks)
    {r : List Nat} (hr : ∀ x ∈ s.runnable, x ≠ u.id → x ∈ r) (object : Nat) (goal : Goal)
    (hturn : u.activity = .turn object goal) :
    Informed objects (({ s with runnable := r } : Session).takeTurn u.id object goal) := by
  have hi' : Informed objects { s with runnable := r } := hi.congr rfl rfl rfl (List.Subset.refl _)
  unfold takeTurn
  split
  · rename_i f ho
    exact (h.pick_known hu hr hturn ho).informed_arrive hi' goal _
  · rename_i n q ho
    split
    · rename_i hn
      subst hn
      exact (h.pick_turn hu hr hturn ho).informed_load hi' goal
    · exact hi'
  · exact hi'

theorem Sound.informed_proceed (h : s.Sound (.ofObjects objects) none) (hi : Informed objects s) (hu : u ∈ s.tasks)
    {r : List Nat} (hr : ∀ x ∈ s.runnable, x ≠ u.id → x ∈ r) :
    Informed objects (({ s with runnable := r } : Session).proceed u) := by
  have hi' : Informed objects { s with runnable := r } := hi.congr rfl rfl rfl (List.Subset.refl _)
  have hright := h.right u hu
  have hseeks := hi'.seeking u hu
  have hpick := h.pick_of hu hr
  have hturn := h.informed_takeTurn hi hu hr
  obtain ⟨id, a⟩ := u
  unfold proceed
  cases a with
  | start op => exact (hpick s.calls (.refl _) nofun).informed_begin hi' op
  | errand e n phase =>
    cases phase with
    | due => exact hi'.attempt id e n
    | called => exact hi'
    | answered reply draw => exact Sound.informed_endAttempt (hpick s.calls (.refl _) nofun) hi' n draw hright
    | backoff => exact hi'.attempt id e (n + 1)
  | reading r' use => exact (hpick s.calls (.refl _) nofun).informed_resume hi' hright hseeks
  | awaiting object block owner => exact (hpick s.calls (.refl _) nofun).informed_awaitBlock hi' id object block owner
  | turn object goal => exact hturn object goal rfl

/-! ### Events -/

theorem Sound.informed_seek (h : s.Sound C cur) (hi : Informed objects s) (id position : Nat) :
    Informed objects (s.seek id position).1 := by
  unfold Session.seek
  cases s.stream? id with
  | none => exact hi
  | some x =>
    dsimp only
    split
    · exact hi
    · split
      · exact hi
      · have hmove := h.modifyStream id (f := fun y => { y with position }) fun _ => rfl
        have hi' := hi.modifyStream id fun y => { y with position }
        generalize s.modifyStream id (fun y => { y with position }) = s₁ at hmove hi' ⊢
        have hreplan := hmove.informed_replan hi' x fun p => p.onSeek s₁.recent.paths position
        split <;> rename_i heq <;> rw [heq] at hreplan <;> exact hreplan

theorem Sound.informed_close (h : s.Sound C cur) (hi : Informed objects s) (id : Nat) :
    Informed objects (s.close id) := by
  rcases exists_close s id with he | ⟨registry, he⟩ <;> rw [he]
  · exact hi
  · have hmark := h.modifyStream id (f := fun x => { x with closed := true }) fun _ => rfl
    have hi' := (hi.modifyStream id fun x => { x with closed := true }).onCache (f := fun c => c.cancel id)
      (Moves.extends (Cache.moves_cancel (A := fun _ _ => False) id) hmark.cache.stores)
    exact hi'.congr rfl rfl rfl (List.Subset.refl _)

theorem Sound.informed_step (h : s.Sound (.ofObjects objects) none) (hi : Informed objects s) {e : Event}
    (he : e.Honest objects s) : Informed objects (s.step e) := by
  have hstores := h.cache.stores
  cases e with
  | start op => exact hi.calm (calm_spawn s op) (aside_spawn s op) fun _ => rfl
  | addObject handle => exact hi.calm (calm_addObject s handle) (aside_addObject s handle) (footer_addObject s handle)
  | openSized key size => exact h.informed_openHandle nofun hi _
  | seek id position => exact h.informed_seek hi id position
  | close id => exact h.informed_close hi id
  | get object span =>
    exact hi.onCache (f := fun c => c.get object span)
      (Moves.extends (Cache.moves_get (A := fun _ _ => False) hstores object span) hstores)
  | ensure object spans fit priority owner =>
    exact hi.onCache (f := fun c => c.ensure object spans fit priority owner)
      (Moves.extends (Cache.moves_ensure (A := fun _ _ => False) hstores object spans fit priority owner) hstores)
  | cancel owner =>
    exact hi.onCache (f := fun c => c.cancel owner)
      (Moves.extends (Cache.moves_cancel (A := fun _ _ => False) owner) hstores)
  | evict object =>
    exact hi.onCache (f := fun c => c.evict object)
      (Moves.extends (Cache.moves_evict (A := fun _ _ => False) hstores object) hstores)
  | run i =>
    show Informed objects (s.runAt i)
    rcases exists_runAt s i with ⟨-, heq⟩ | ⟨id, r, -, -, hr, ⟨-, heq⟩ | ⟨u, hu, heq⟩⟩ <;> rw [heq]
    · exact hi
    · exact hi.congr rfl rfl rfl (List.Subset.refl _)
    · obtain ⟨hmem, rfl⟩ := mem_of_task?_eq_some hu
      exact h.informed_proceed hi hmem hr
  | answer i reply draw =>
    show Informed objects (s.answer i reply draw)
    rcases h.exists_answer i reply draw with ⟨-, heq⟩ | ⟨id, e, n, r, -, -, -, -, heq⟩ <;> rw [heq]
    · exact hi
    · exact (hi.become id (a := .errand e n (.answered reply draw)) trivial).congr rfl rfl rfl (List.Subset.refl _)
  | tick =>
    obtain ⟨now, timers, r, heq, -⟩ := exists_tick s
    exact (show s.step .tick = _ from heq) ▸ hi.congr rfl rfl rfl (List.Subset.refl _)

theorem Informed.runEvents (hi : Informed objects s) (h : s.Sound (.ofObjects objects) none) {l : List Event}
    (hl : HonestRun objects s l) : Informed objects (s.runEvents l) := by
  induction l generalizing s with
  | nil => exact hi
  | cons e l ih => exact ih (h.informed_step hi hl.1) (h.step hl.1.fair).1 hl.2

/-- Whatever happened to a session while its client was honest, what is known of the footer of an object is what all
    of the object tells: a layout if it tells one, and otherwise that it is to be read without. It makes no difference
    how much of its end was guessed to hold the footer, as long as every guess holds the trailer. A configuration may
    let a guess be shorter than that for large objects only. -/
theorem footers_tell (hs : Reachable objects s) (hlarge : Footer.trailerLength ≤ s.config.footer.largeTailPrefetch)
    {o : Nat} (hsize : (objects (s.key o)).length = s.size o) {f : FooterState} (hf : s.footer o = .loaded f) :
    f = footerState (s.size o) (Footer.parse FileRecord.decode? (objects (s.key o)) (s.size o)) := by
  obtain ⟨config, s₀, l, hnew, hl, rfl⟩ := hs
  obtain ⟨rfl, hbounds⟩ := new_eq_ok hnew
  have hfresh := sound_fresh (.ofObjects objects) config
  rw [config_runEvents hfresh hl.fairRun] at hlarge
  have hi : Informed objects (Session.fresh config) := ⟨hbounds.blockSize, ⟨hbounds.tailPrefetch, hlarge⟩, nofun, nofun⟩
  obtain ⟨x, p, hx, hp, rfl⟩ := (hi.runEvents hfresh hl).loaded hf
  rw [key_of_handle? hx, size_of_handle? hx] at hsize ⊢
  rw [hp hsize]

/-- A guess of four bytes does not tell how long the footer is. Then the trailer is all that is read besides, and the
    object counts as one without a footer, whatever it holds before the trailer. -/
example :
    ((fresh { footer := { largeTailPrefetch := 4, largeThreshold := 0 } }).runEvents
      [.addObject ⟨"a", 93, none⟩, .start (.loadFooter 0), .run 0, .run 0, .answer 0 (.bytes [80, 65, 82, 49]) 0, .run 0,
        .run 0, .run 0, .answer 0 (.bytes [71, 0, 0, 0]) 0, .run 0, .run 0]).footer 0 =
      .loaded (.degraded (.unmet 79 93)) := by
  cbv

end Session

end Informed

end RangeCache
