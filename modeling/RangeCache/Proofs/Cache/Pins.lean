import RangeCache.Proofs.Cache.Quiet
import RangeCache.Proofs.Cache.Shape

/-!
# The pins of reads

A read that waits holds one pin of each of its blocks. It takes them when it begins and takes them back when it ends,
however it ends (`pins_beginRead`, `pins_resumeRead`), and no other operation makes the pins of a block fewer
(`Cache.KeepsPins`). So the blocks of a read that waits are tracked, whatever happens meanwhile.
-/

namespace RangeCache

/-- How many pins of a block a read holds. -/
def Reading.holds (r : Reading) (i id : Nat) : Nat := if r.store = i then r.pinned.count id else 0

theorem Reading.holds_self (r : Reading) (id : Nat) : r.holds r.store id = r.pinned.count id := if_pos rfl

theorem Reading.holds_of_ne {r : Reading} {i : Nat} (h : i ≠ r.store) (id : Nat) : r.holds i id = 0 :=
  if_neg fun hi => h hi.symm

/-- A store some blocks of which a read pins when it begins. Those that have their bytes are hits. -/
def Store.pinFor (s : Store) (blocks : List Block) : Store :=
  { s.pin (blocks.map (·.id)) with hits := s.hits + blocks.countP fun b => b.state.isReady }

theorem Store.edits_pinFor (s : Store) (blocks : List Block) : s.Edits (s.pinFor blocks) :=
  (edits_pin _ s).tail (.count _ _ _ _)

theorem Store.mapped_pinFor (s : Store) (blocks : List Block) :
    s.Mapped (fun b => { b with pins := b.pins + (blocks.map (·.id)).count b.id }) (s.pinFor blocks) :=
  { s.mapped_pinAll (blocks.map Block.id) with }

namespace Cache

/-- A block of a store is tracked and has at least a number of pins. -/
def Pinned (c : Cache) (i id n : Nat) : Prop := ∃ s, c.stores[i]? = some s ∧ s.Pinned id n

/-- The blocks have all the pins that are held of them. -/
def Pins (c : Cache) (held : Nat → Nat → Nat) : Prop := ∀ i id, 0 < held i id → c.Pinned i id (held i id)

/-- What is pinned stays so, and at least as often. -/
def KeepsPins (c c' : Cache) : Prop := ∀ ⦃i id n : Nat⦄, 0 < n → c.Pinned i id n → c'.Pinned i id n

/-- The blocks have the pins that others hold of them, and those of the read if it waits. -/
def PinsBeside (c : Cache) (held : Nat → Nat → Nat) : Progress Reading → Prop
  | .waiting r => c.Pins fun i id => held i id + r.holds i id
  | .done _ => c.Pins held

section KeepsPins
variable {c c' c'' : Cache} {held : Nat → Nat → Nat}

theorem KeepsPins.refl (c : Cache) : c.KeepsPins c := fun _ _ _ _ h => h

theorem KeepsPins.trans (h : c.KeepsPins c') (h' : c'.KeepsPins c'') : c.KeepsPins c'' :=
  fun _ _ _ hn hp => h' hn (h hn hp)

theorem KeepsPins.pins (h : c.KeepsPins c') (hp : c.Pins held) : c'.Pins held := fun i id hn => h hn (hp i id hn)

theorem keepsPins_takeNotices (c : Cache) : c.KeepsPins c.takeNotices.1 := fun _ _ _ _ h => h

theorem Pinned.modifyStore {i id n m k : Nat} {f : Store → Store} (h : c.Pinned i id n) (hnm : i ≠ k → m ≤ n)
    (hf : ∀ s, c.stores[k]? = some s → i = k → s.Pinned id n → (f s).Pinned id m) :
    (c.modifyStore k f).Pinned i id m := by
  obtain ⟨s, hs, hp⟩ := h
  by_cases hk : i = k
  · subst hk
    exact ⟨f s, getElem?_modifyStore_self hs, hf s hs rfl hp⟩
  · obtain ⟨b, hb, hid, hn⟩ := hp
    exact ⟨s, (getElem?_modifyStore_ne hk).trans hs, b, hb, hid, Nat.le_trans (hnm hk) hn⟩

theorem Quiet.keepsPins (h : c.Quiet c') (hc : c.StoresSound) : c.KeepsPins c' := by
  rintro i id n hn ⟨s, hs, hp⟩
  obtain ⟨t, ht, hst⟩ := h.1 hs
  exact ⟨t, ht, (hst.samePins (hc hs)).keepsPins hn hp⟩

theorem keepsPins_addStore (h : Handle) (config : StoreConfig) : c.KeepsPins (c.addStore h config) :=
  fun _ _ _ _ ⟨s, hs, hp⟩ => ⟨s, getElem?_addStore_of hs, hp⟩

end KeepsPins

/-! ### Reads -/

section Reads
variable {c : Cache} {held : Nat → Nat → Nat} {r : Reading}

theorem pins_endRead (hc : c.StoresSound) (h : c.Pins fun i id => held i id + r.holds i id)
    (result : Except Fault Bytes) : (c.endRead r result).Pins held := by
  have hunpin : (c.modifyStore r.store (·.unpin r.pinned)).Pins held := fun i id hn => by
    refine (h i id (Nat.lt_of_lt_of_le hn (Nat.le_add_right _ _))).modifyStore (fun _ => Nat.le_add_right _ _) ?_
    rintro s - rfl hp
    dsimp only at hp
    rw [r.holds_self] at hp
    exact hp.unpin
  have hc' : (c.modifyStore r.store (·.unpin r.pinned)).StoresSound :=
    hc.modifyStore fun s _ hs => (Store.edits_unpin r.pinned s).sound hs
  unfold endRead
  cases result with
  | error f => exact hunpin
  | ok b => exact ((quiet_modifyStore fun s _ => .single .evict).keepsPins hc').pins hunpin

theorem pins_readFrom (hc : c.StoresSound) (h : c.Pins fun i id => held i id + r.holds i id) (got : Bytes)
    (todo : List Nat) : (c.readFrom r got todo).1.PinsBeside held (c.readFrom r got todo).2 := by
  obtain ⟨c', hquiet, ⟨rest, bytes, -, he⟩ | ⟨result, he⟩⟩ := exists_readFrom c r got todo
  · exact he ▸ (hquiet.keepsPins hc).pins h
  · exact he ▸ pins_endRead (hquiet.storesSound hc) ((hquiet.keepsPins hc).pins h) result

/-- A read that goes on holds its pins until it ends. -/
theorem pins_resumeRead (hc : c.StoresSound) (h : c.Pins fun i id => held i id + r.holds i id) :
    (c.resumeRead r).1.PinsBeside held (c.resumeRead r).2 := pins_readFrom hc h r.bytes r.todo

theorem pins_pin (h : c.Pins held) (htracked : ∀ id ∈ r.pinned, c.Pinned r.store id 0) (hits : Nat) :
    (c.modifyStore r.store fun s => { s.pin r.pinned with hits := s.hits + hits }).Pins fun i id =>
      held i id + r.holds i id := fun i id hn => by
  dsimp only at hn ⊢
  have hheld : c.Pinned i id (held i id) := by
    by_cases hpos : 0 < held i id
    · exact h i id hpos
    · -- Nobody else pins it, so it is a block of the read.
      obtain rfl : i = r.store := by
        by_contra hne
        rw [Reading.holds_of_ne hne] at hn
        exact hpos hn
      rw [Nat.eq_zero_of_not_pos hpos, r.holds_self, Nat.zero_add] at hn
      rw [Nat.eq_zero_of_not_pos hpos]
      exact htracked id (List.count_pos_iff.mp hn)
  refine hheld.modifyStore (fun hne => ?_) ?_
  · rw [Reading.holds_of_ne hne]
    exact Nat.le_refl _
  · rintro s - rfl hp
    rw [r.holds_self]
    obtain ⟨b, hb, hid, hle⟩ := hp.pin r.pinned
    exact ⟨b, hb, hid, hle⟩

/-- After the claim of a span none of its blocks can be claimed. -/
theorem claimed_of_claim (hc : c.StoresSound) {i : Nat} {s t : Store} (hs : c.stores[i]? = some s) {span : Span}
    (hspan : (span.clamp s.handle.size).isEmpty = false) (fit : Fit) (priority : Priority) (owner : Option Nat)
    (ht : (c.claim i [span] fit priority owner).1.stores[i]? = some t) {b : Block}
    (hb : b ∈ t.overlapping (span.clamp s.handle.size)) : b.state.isClaimable = false := by
  have hhandle := (Store.grown_fillAll (hc hs) fit [span]).handle
  obtain ⟨u, g, hu, hg, hclaimed, -⟩ := exists_mapped_claim hc hs [span] fit priority owner
  cases ht.symm.trans hu
  have hsound := (moves_claim (A := fun _ _ => False) hc i [span] fit priority owner).storesSound hc ht
  obtain ⟨hm, hover⟩ := (Store.mem_overlapping_clamp hsound).mp hb
  obtain ⟨b, hbm, rfl⟩ := hg.mem_iff.mp hm
  rw [hg.span] at hover
  rw [← hhandle] at hspan hover
  exact hclaimed b ((Store.mem_touched_singleton hspan).mpr ⟨hbm, hover⟩)

theorem beginRead_of_isEmpty {i : Nat} {s : Store} (hs : c.stores[i]? = some s) {span : Span}
    (hspan : (span.clamp s.handle.size).isEmpty = true) (fit : Fit) (owner : Option Nat) :
    c.beginRead i span fit owner = (c, .done (.ok [])) := by
  unfold beginRead
  rw [hs]
  exact if_pos hspan

/-- A read that has to look for bytes claims the blocks of its span, pins them, and requests their bytes. -/
theorem beginRead_of_claim {i : Nat} {s t : Store} (hs : c.stores[i]? = some s) {span : Span}
    (hspan : (span.clamp s.handle.size).isEmpty = false) {fit : Fit} {owner : Option Nat} {c' : Cache}
    {jobs : List Job} {others : List Nat}
    (hclaim : c.claim i [span.clamp s.handle.size] fit .immediate owner = (c', jobs, others))
    (ht : c'.stores[i]? = some t) :
    let blocks := t.overlapping (span.clamp s.handle.size)
    let r : Reading := ⟨i, span.clamp s.handle.size, owner, blocks.map (·.id), blocks.map (·.id), []⟩
    c.beginRead i span fit owner = match (c'.modifyStore i (·.pinFor blocks)).dispatch jobs others .immediate with
      | (c, .ok _) => c.resumeRead r
      | (c, .error f) => (c.endRead r (.error f), .done (.error f)) := by
  unfold beginRead
  rw [hs]
  dsimp only
  rw [if_neg (by simp [hspan]), hclaim]
  dsimp only
  rw [ht]
  rfl

/-- A read that has to look for bytes first claims the blocks of its span and pins them. When the request for their
    bytes is granted, it goes on like one that waited. -/
theorem exists_beginRead (hc : c.StoresSound) {i : Nat} {s : Store} (hs : c.stores[i]? = some s) {span : Span}
    (hspan : (span.clamp s.handle.size).isEmpty = false) (fit : Fit) (owner : Option Nat) :
    ∃ (c' : Cache) (jobs : List Job) (others ids : List Nat), c'.StoresSound ∧
      c.queue.rejected ≤ c'.queue.rejected ∧
      c'.Meets ⟨i, span.clamp s.handle.size, owner, ids, ids, []⟩ ∧
      (∀ held, c.Pins held → c'.Pins fun k id =>
        held k id + Reading.holds ⟨i, span.clamp s.handle.size, owner, ids, ids, []⟩ k id) ∧
      (∀ t, c'.stores[i]? = some t → ∀ b ∈ t.blocks, b.id ∈ ids → b.state.isClaimable = false) ∧
      c.beginRead i span fit owner = match c'.dispatch jobs others .immediate with
        | (c, .ok _) => c.resumeRead ⟨i, span.clamp s.handle.size, owner, ids, ids, []⟩
        | (c, .error f) =>
          (c.endRead ⟨i, span.clamp s.handle.size, owner, ids, ids, []⟩ (.error f), .done (.error f)) := by
  have hclamp := span.clamp_clamp s.handle.size
  rcases hclaim : c.claim i [span.clamp s.handle.size] fit .immediate owner with ⟨c₁, jobs, others⟩
  have hmoves := moves_claim (A := fun _ _ => False) hc i [span.clamp s.handle.size] fit .immediate owner
  have hkeep := (quiet_claim hc i [span.clamp s.handle.size] fit .immediate owner).keepsPins hc
  have hclaimed := fun t b =>
    claimed_of_claim (t := t) (b := b) hc hs (by rw [hclamp]; exact hspan) fit .immediate owner
  rw [hclaim] at hmoves hkeep hclaimed
  rw [hclamp] at hclaimed
  have hc₁ := hmoves.storesSound hc
  obtain ⟨t, ht, -⟩ := hmoves.extends hc hs
  refine ⟨_, jobs, others, _, ?_, ?_, ?_, ?_, ?_, beginRead_of_claim hs hspan hclaim ht⟩
  · exact hc₁.modifyStore fun s _ hs => (s.edits_pinFor _).sound hs
  · exact hmoves.rejected_le
  · refine ⟨_, getElem?_modifyStore_self ht, fun id hid => ?_⟩
    obtain ⟨b, hb, rfl⟩ := List.mem_map.mp hid
    obtain ⟨hb, hover⟩ := (Store.mem_overlapping_clamp (hc₁ ht)).mp hb
    exact ⟨b.span, (Store.mapped_pinFor t _).knows_iff.mpr ⟨b, List.mem_append_left _ hb, rfl, rfl⟩, hover⟩
  · intro held h
    refine pins_pin (hkeep.pins h) ?_ _
    intro id hid
    obtain ⟨b, hb, rfl⟩ := List.mem_map.mp hid
    exact ⟨t, ht, b, ((Store.mem_overlapping_clamp (hc₁ ht)).mp hb).1, rfl, Nat.zero_le _⟩
  · intro u hu x hx hid
    rw [getElem?_modifyStore_self ht] at hu
    cases hu
    obtain ⟨b, hb, rfl⟩ := (Store.mapped_pinAll t _).mem_iff.mp hx
    obtain ⟨b', hb', hbb⟩ := List.mem_map.mp hid
    obtain rfl := (hc₁ ht).eq_of_id_tracked ((Store.mem_overlapping_clamp (hc₁ ht)).mp hb').1 hb hbb
    exact hclaimed t b' ht hb'

/-- A read takes the pins that it holds. -/
theorem pins_beginRead (hc : c.StoresSound) (h : c.Pins held) (i : Nat) (span : Span) (fit : Fit) (owner : Option Nat) :
    (c.beginRead i span fit owner).1.PinsBeside held (c.beginRead i span fit owner).2 := by
  cases hs : c.stores[i]? with
  | none =>
    rw [beginRead_of_none hs]
    exact h
  | some s =>
    cases hspan : (span.clamp s.handle.size).isEmpty with
    | true =>
      rw [beginRead_of_isEmpty hs hspan]
      exact h
    | false =>
      obtain ⟨c₁, jobs, others, ids, hc₁, -, -, hpins, -, he⟩ := exists_beginRead hc hs hspan fit owner
      have hdispatch := ((quiet_dispatch jobs others .immediate).keepsPins hc₁).pins (hpins held h)
      have hc₂ : (c₁.dispatch jobs others .immediate).1.StoresSound :=
        Moves.storesSound (moves_dispatch (A := fun _ _ => False) jobs others .immediate) hc₁
      rw [he]
      split <;> rename_i heq <;> rw [heq] at hdispatch hc₂
      · exact pins_resumeRead hc₂ hdispatch
      · exact pins_endRead hc₂ hdispatch _

end Reads

end Cache

end RangeCache
