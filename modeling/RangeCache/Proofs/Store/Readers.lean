import RangeCache.Proofs.Cache.Pins

/-!
# Readers of a store

The reads of a store that wait hold pins of its blocks. Each of them has pinned the blocks that overlap its span once,
and these hold the span (`Store.Hosts`); a block has one pin for each read whose span overlaps it, and a block that was
evicted has none (`Store.PinnedFor`). As pinned blocks stay where they are, no other block can come to overlap the span
of a read, and so quiet updates keep this up (`SamePins.pinnedFor`). A read that begins or ends changes the pins of the
blocks that overlap its span, by one (`PinnedFor.pin`, `PinnedFor.unpin`).
-/

namespace RangeCache.Store

/-- The blocks of a read hold its span, and it names each of them once. -/
structure Hosts (s : Store) (r : Reading) : Prop where
  nonempty : r.span.start < r.span.stop
  inside : r.span.stop ≤ s.handle.size
  covered : ∀ o ∈ r.span, ∃ b ∈ s.blocks, o ∈ b.span
  nodup : r.pinned.Nodup
  mem_pinned : ∀ id, id ∈ r.pinned ↔ ∃ b ∈ s.blocks, b.id = id ∧ b.span.overlaps r.span = true

/-- Every pin of a block is that of a read in a list, and every such read has its pins. -/
structure PinnedFor (s : Store) (l : List Reading) : Prop where
  hosts : ∀ r ∈ l, s.Hosts r
  pins : ∀ b ∈ s.blocks, b.pins = l.countP fun r => b.span.overlaps r.span
  retired : ∀ b ∈ s.retired, b.pins = 0

section Hosts
variable {s t : Store} {r r' : Reading} {b : Block} {g : Block → Block}

theorem Mapped.hosts (h : s.Mapped g t) (hr : s.Hosts r) : t.Hosts r where
  nonempty := hr.nonempty
  inside := h.handle.symm ▸ hr.inside
  covered o ho := by
    obtain ⟨b, hb, hob⟩ := hr.covered o ho
    exact ⟨g b, h.mem_iff.mpr ⟨b, hb, rfl⟩, (h.span b).symm ▸ hob⟩
  nodup := hr.nodup
  mem_pinned id := by
    rw [hr.mem_pinned]
    constructor
    · rintro ⟨b, hb, hid, hover⟩
      exact ⟨g b, h.mem_iff.mpr ⟨b, hb, rfl⟩, (h.id b).trans hid, (h.span b).symm ▸ hover⟩
    · rintro ⟨x, hx, hid, hover⟩
      obtain ⟨b, hb, rfl⟩ := h.mem_iff.mp hx
      exact ⟨b, hb, (h.id b).symm.trans hid, h.span b ▸ hover⟩

/-- The same read, further on. -/
theorem Hosts.further (h : s.Hosts r) (hspan : r'.span = r.span) (hpinned : r'.pinned = r.pinned) : s.Hosts r' where
  nonempty := hspan ▸ h.nonempty
  inside := hspan ▸ h.inside
  covered := hspan ▸ h.covered
  nodup := hpinned ▸ h.nodup
  mem_pinned := hspan ▸ hpinned ▸ h.mem_pinned

/-- A read names a block if and only if the block overlaps its span. -/
theorem Hosts.mem_iff (h : s.Hosts r) (hs : s.Sound) (hb : b ∈ s.blocks) :
    b.id ∈ r.pinned ↔ b.span.overlaps r.span = true := by
  rw [h.mem_pinned]
  constructor
  · rintro ⟨x, hx, hid, hover⟩
    exact hs.eq_of_id_tracked hx hb hid ▸ hover
  · exact fun hover => ⟨b, hb, rfl, hover⟩

theorem Hosts.count (h : s.Hosts r) (hs : s.Sound) (hb : b ∈ s.blocks) :
    r.pinned.count b.id = if b.span.overlaps r.span then 1 else 0 := by
  rw [h.nodup.count]
  simp only [h.mem_iff hs hb]

/-- A read that pins the blocks of a span that lies in the object and whose bytes are all in blocks. -/
theorem hosts_overlapping (hs : s.Sound) {span : Span} (hspan : span.start < span.stop)
    (hinside : span.stop ≤ s.handle.size) (hcov : ∀ o ∈ span, ∃ b ∈ s.blocks, o ∈ b.span) (i : Nat)
    (owner : Option Nat) :
    s.Hosts ⟨i, span, owner, (s.overlapping span).map (·.id), (s.overlapping span).map (·.id), []⟩ where
  nonempty := hspan
  inside := hinside
  covered := hcov
  nodup := hs.ids_tracked.sublist ((sublist_overlapping hs (Nat.le_of_lt hspan)).map _)
  mem_pinned id := by
    simp only [List.mem_map, mem_overlapping hs (Nat.le_of_lt hspan)]
    constructor
    · rintro ⟨b, ⟨hb, hover⟩, hid⟩
      exact ⟨b, hb, hid, hover⟩
    · rintro ⟨b, hb, hid, hover⟩
      exact ⟨b, ⟨hb, hover⟩, hid⟩

end Hosts

section PinnedFor
variable {s t : Store} {l l' : List Reading} {r r' : Reading} {b : Block}

theorem pinnedFor_new (handle : Handle) (config : StoreConfig) : ({ handle, config } : Store).PinnedFor [] :=
  ⟨nofun, nofun, nofun⟩

theorem PinnedFor.perm (h : s.PinnedFor l) (hp : l'.Perm l) : s.PinnedFor l' where
  hosts r hr := h.hosts r (hp.mem_iff.mp hr)
  pins b hb := (h.pins b hb).trans (hp.countP_eq _).symm
  retired := h.retired

/-- A read that goes on and waits again. -/
theorem PinnedFor.further (h : s.PinnedFor (r :: l)) (hspan : r'.span = r.span) (hpinned : r'.pinned = r.pinned) :
    s.PinnedFor (r' :: l) where
  hosts x hx := by
    rcases List.mem_cons.mp hx with rfl | hx
    · exact (h.hosts r List.mem_cons_self).further hspan hpinned
    · exact h.hosts x (List.mem_cons_of_mem _ hx)
  pins b hb := by
    rw [h.pins b hb, List.countP_cons, List.countP_cons, hspan]
  retired := h.retired

/-- A block that overlaps the span of a read is pinned. -/
theorem PinnedFor.pins_pos (h : s.PinnedFor l) (hr : r ∈ l) (hb : b ∈ s.blocks)
    (hover : b.span.overlaps r.span = true) : 0 < b.pins := by
  rw [h.pins b hb]
  exact List.countP_pos_iff.mpr ⟨r, hr, hover⟩

/-- No new block overlaps the span of a read. -/
theorem PinnedFor.exists_alike (h : s.PinnedFor l) (hst : s.SamePins t) (ht : t.Sound) (hr : r ∈ l)
    (hb : b ∈ t.blocks) (hover : b.span.overlaps r.span = true) : ∃ x ∈ s.blocks, 0 < x.pins ∧ x.Alike b := by
  have hhosts := h.hosts r hr
  have hne : r.span.isEmpty = false := by simpa [Span.isEmpty] using hhosts.nonempty
  have hneb : b.span.isEmpty = false := by simpa [Span.isEmpty] using ht.nonempty b hb
  obtain ⟨o, hob, hor⟩ := (Span.overlaps_iff_of_mem hneb hne).mp hover
  -- The byte that they share is in a block of the read, which is pinned and so is still there.
  obtain ⟨x, hx, hox⟩ := hhosts.covered o hor
  obtain ⟨h1, h2⟩ := Span.mem_def.mp hor
  obtain ⟨h3, h4⟩ := Span.mem_def.mp hox
  have hpos := h.pins_pos hr hx (overlaps_iff.mpr ⟨by omega, by omega⟩)
  obtain ⟨x', hx', hxx'⟩ := hst.kept x hx hpos
  obtain rfl := ht.eq_of_mem_span hb hx' hob (hxx'.span.symm ▸ hox)
  exact ⟨x, hx, hpos, hxx'⟩

theorem SamePins.hosts (hst : s.SamePins t) (h : s.PinnedFor l) (ht : t.Sound) (hr : r ∈ l) : t.Hosts r where
  nonempty := (h.hosts r hr).nonempty
  inside := hst.handle.symm ▸ (h.hosts r hr).inside
  covered o hor := by
    obtain ⟨x, hx, hox⟩ := (h.hosts r hr).covered o hor
    obtain ⟨h1, h2⟩ := Span.mem_def.mp hor
    obtain ⟨h3, h4⟩ := Span.mem_def.mp hox
    obtain ⟨x', hx', hxx'⟩ := hst.kept x hx (h.pins_pos hr hx (overlaps_iff.mpr ⟨by omega, by omega⟩))
    exact ⟨x', hx', hxx'.span.symm ▸ hox⟩
  nodup := (h.hosts r hr).nodup
  mem_pinned id := by
    rw [(h.hosts r hr).mem_pinned]
    constructor
    · rintro ⟨x, hx, hid, hover⟩
      obtain ⟨x', hx', hxx'⟩ := hst.kept x hx (h.pins_pos hr hx hover)
      exact ⟨x', hx', hxx'.id.trans hid, hxx'.span.symm ▸ hover⟩
    · rintro ⟨b, hb, hid, hover⟩
      obtain ⟨x, hx, -, hxb⟩ := h.exists_alike hst ht hr hb hover
      exact ⟨x, hx, hxb.id.symm.trans hid, hxb.span ▸ hover⟩

/-- Quiet updates leave the pins to the reads. -/
theorem SamePins.pinnedFor (hst : s.SamePins t) (h : s.PinnedFor l) (ht : t.Sound) : t.PinnedFor l where
  hosts r hr := hst.hosts h ht hr
  pins b hb := by
    rcases hst.had b hb with hnone | ⟨x, hx, hxb⟩
    · rw [hnone, eq_comm, List.countP_eq_zero]
      intro r hr hover
      obtain ⟨x, -, hpos, hxb⟩ := h.exists_alike hst ht hr hb hover
      have := hxb.pins
      omega
    · rw [hxb.pins, hxb.span]
      exact h.pins x hx
  retired := hst.retired h.retired

/-- A read pins the blocks that overlap its span. -/
theorem PinnedFor.pin (h : s.PinnedFor l) (hs : s.Sound) (hr : s.Hosts r) : (s.pin r.pinned).PinnedFor (r :: l) where
  hosts x hx := by
    have hm := mapped_pinAll s r.pinned
    rcases List.mem_cons.mp hx with rfl | hx
    · exact hm.hosts hr
    · exact hm.hosts (h.hosts x hx)
  pins x hx := by
    obtain ⟨b, hb, rfl⟩ := (mapped_pinAll s r.pinned).mem_iff.mp hx
    dsimp only
    rw [List.countP_cons, hr.count hs hb, h.pins b hb]
  retired := (mapped_pinAll s r.pinned).retired.symm ▸ h.retired

theorem config_pinFor (s : Store) (blocks : List Block) : (s.pinFor blocks).config = s.config :=
  (mapped_pinAll s (blocks.map Block.id)).config

theorem PinnedFor.pinFor (h : s.PinnedFor l) (hs : s.Sound) (hr : s.Hosts r) {blocks : List Block}
    (hblocks : r.pinned = blocks.map (·.id)) : (s.pinFor blocks).PinnedFor (r :: l) := by
  have hsound := (edits_pinFor s blocks).sound hs
  unfold Store.pinFor at hsound ⊢
  rw [← hblocks] at hsound ⊢
  exact (samePins_count (s.pin r.pinned) _ _ _ _).pinnedFor (h.pin hs hr) hsound

/-- A read takes its pins back. -/
theorem PinnedFor.unpin (h : s.PinnedFor (r :: l)) (hs : s.Sound) : (s.unpin r.pinned).PinnedFor l where
  hosts x hx := (mapped_unpinAll s r.pinned).hosts (h.hosts x (List.mem_cons_of_mem _ hx))
  pins x hx := by
    obtain ⟨b, hb, rfl⟩ := (mapped_unpinAll s r.pinned).mem_iff.mp hx
    dsimp only
    rw [(h.hosts r List.mem_cons_self).count hs hb, h.pins b hb, List.countP_cons, Nat.add_sub_cancel]
  retired := (mapped_unpinAll s r.pinned).retired.symm ▸ h.retired

end PinnedFor

end RangeCache.Store
