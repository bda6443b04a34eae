import Mathlib.Algebra.GroupWithZero.Nat
import Mathlib.Data.List.SplitBy
import RangeCache.Proofs.Store.Runs

/-!
# The fewest runs

The claimable blocks of a request can be partitioned into runs in many ways: each run holds at most so many blocks, and
each of its blocks starts where the one before it ends (`Partition`). No run can go beyond a stretch, a sequence of
adjacent blocks that is as long as possible; so a stretch of `n` blocks takes at least `n / limit` runs, rounded up. The
runs that a request makes take no more than that (`length_runs`), and no partition takes fewer (`leastRuns_le`).
-/

namespace RangeCache.Store

/-- Whether a block starts where another one ends. -/
def adjoins (a b : Block) : Bool := a.span.stop == b.span.start

/-- Each block of a list but the first starts where the one before it ends. -/
abbrev Linked (l : List Block) : Prop := l.IsChain fun a b => adjoins a b = true

/-- What follows a list of blocks does not start where the list ends. -/
def Broken (l r : List Block) : Prop := ∀ a ∈ l.getLast?, ∀ b ∈ r.head?, adjoins a b = false

/-- Runs that hold the blocks of a list, each once. -/
structure Partition (limit : Nat) (l : List Block) (parts : List (List Block)) : Prop where
  perm : parts.flatten.Perm l
  nonempty : ∀ p ∈ parts, p ≠ []
  short : ∀ p ∈ parts, p.length ≤ limit
  linked : ∀ p ∈ parts, Linked p

/-- The longest sequences of adjacent blocks in a list. -/
def stretches (l : List Block) : List (List Block) := l.splitBy adjoins

/-- How many runs it takes when each stretch is cut into runs that are as long as they may be. -/
def leastRuns (limit : Nat) (l : List Block) : Nat :=
  ((stretches l).map fun p => (p.length + limit - 1) / limit).sum

/-- Blocks that follow one another in an object. -/
structure Ordered (l : List Block) : Prop where
  pairwise : l.Pairwise fun a b => a.span.stop ≤ b.span.start
  nonempty : ∀ b ∈ l, b.span.start < b.span.stop

section Stretches
variable {l S R : List Block}

theorem Ordered.sublist (h : Ordered l) (hs : S.Sublist l) : Ordered S :=
  ⟨h.pairwise.sublist hs, fun b hb => h.nonempty b (hs.mem hb)⟩

/-- The first stretch of a list and what is left of the list. -/
theorem stretch_induction {P : List Block → Prop} (nil : P [])
    (append : ∀ S R : List Block, S ≠ [] → Linked S → Broken S R → P R → P (S ++ R)) (l : List Block) : P l := by
  have hne := List.nil_notMem_splitBy adjoins l
  have hlinked := fun S hS => List.isChain_of_mem_splitBy (r := adjoins) (l := l) (m := S) hS
  have hbroken := List.isChain_getLast_head_splitBy adjoins l
  rw [← List.flatten_splitBy adjoins l]
  generalize l.splitBy adjoins = parts at hne hlinked hbroken
  induction parts with
  | nil => exact nil
  | cons S parts ih =>
    obtain ⟨hS, hrest⟩ : [] ≠ S ∧ [] ∉ parts := by simpa using hne
    refine append S _ hS.symm (hlinked S List.mem_cons_self) (fun a ha b hb => ?_)
      (ih hrest (fun T hT => hlinked T (List.mem_cons_of_mem _ hT)) hbroken.tail)
    cases parts with
    | nil => cases hb
    | cons T parts =>
      obtain ⟨hS', hT, hfalse⟩ := (List.isChain_cons_cons.mp hbroken).1
      have hlast : S.getLast hS' = a := by simpa [List.getLast?_eq_some_getLast hS'] using ha
      have hhead : T.head hT = b := by simpa [List.head?_append_of_ne_nil _ hT, List.head?_eq_some_head hT] using hb
      rw [← hlast, ← hhead]
      exact hfalse

theorem stretches_append (hS : S ≠ []) (hlinked : Linked S) (hbroken : Broken S R) :
    stretches (S ++ R) = S :: stretches R := by
  unfold stretches
  rw [List.splitBy_append hbroken, List.splitBy_of_isChain hS hlinked, List.singleton_append]

theorem leastRuns_append (limit : Nat) (hS : S ≠ []) (hlinked : Linked S) (hbroken : Broken S R) :
    leastRuns limit (S ++ R) = (S.length + limit - 1) / limit + leastRuns limit R := by
  unfold leastRuns
  rw [stretches_append hS hlinked hbroken, List.map_cons, List.sum_cons]

/-- Between a stretch and what follows it there are bytes that are in no block of the list. -/
theorem Ordered.lt_of_broken (h : Ordered (S ++ R)) (hbroken : Broken S R) {a b : Block} (ha : a ∈ S)
    (hb : b ∈ R) : a.span.stop < b.span.start := by
  obtain ⟨hS, hR, hSR⟩ := List.pairwise_append.mp h.pairwise
  obtain ⟨S', x, rfl⟩ := (List.eq_nil_or_concat' S).resolve_left (List.ne_nil_of_mem ha)
  obtain ⟨y, R', rfl⟩ := List.exists_cons_of_ne_nil (List.ne_nil_of_mem hb)
  have hxy := hSR x (by simp) y List.mem_cons_self
  have hne : x.span.stop ≠ y.span.start := by
    simpa [adjoins] using hbroken x (by simp) y (by simp)
  have hax : a.span.stop ≤ x.span.stop := by
    rcases List.mem_append.mp ha with ha' | ha'
    · have := (List.pairwise_append.mp hS).2.2 a ha' x (List.mem_singleton_self x)
      have := h.nonempty x (by simp)
      omega
    · rw [List.mem_singleton.mp ha']
  have hyb : y.span.start ≤ b.span.start := by
    rcases List.mem_cons.mp hb with rfl | hb'
    · exact Nat.le_refl _
    · have := (List.pairwise_cons.mp hR).1 b hb'
      have := h.nonempty y (by simp)
      omega
  omega

end Stretches

/-! ### The runs of a request -/

section Runs
variable {limit : Nat} {u l S R : List Block}

/-- A run ends where no block of the list can follow it. -/
theorem runsFrom_of_not_canFollow (hc : ∀ b ∈ l, b.state.isClaimable = true)
    (hf : ∀ b ∈ l.head?, canFollow limit u b = false) : runsFrom limit u l = emit u (runs limit l) := by
  cases l with
  | nil => rfl
  | cons b r =>
    have hb := hc b List.mem_cons_self
    have hfollow := hf b rfl
    have hempty : canFollow limit [] b = false := by simp [canFollow]
    simp [runs, runsFrom, hb, hfollow, hempty, emit]

/-- A block that cannot be claimed lies between those before and after it, so that nothing is lost when it is left
    out. -/
theorem runsFrom_filter (h : Ordered (u ++ l)) :
    runsFrom limit u l = runsFrom limit u (l.filter (·.state.isClaimable)) := by
  induction l generalizing u with
  | nil => rfl
  | cons b r ih =>
    by_cases hb : b.state.isClaimable = true
    · rw [List.filter_cons_of_pos (p := fun x : Block => x.state.isClaimable) hb]
      unfold runsFrom
      rw [if_pos hb, if_pos hb]
      have htail : Ordered ([b] ++ r) := h.sublist (List.sublist_append_right _ _)
      rw [ih (u := u ++ [b]) (by simpa using h), ih htail]
    · rw [List.filter_cons_of_neg (p := fun x : Block => x.state.isClaimable) hb]
      have htail : Ordered r := h.sublist ((List.sublist_cons_self _ _).trans (List.sublist_append_right _ _))
      rw [runsFrom_of_not_canFollow (fun x hx => (List.mem_filter.mp hx).2) fun x hx => ?_]
      · rw [runsFrom, if_neg hb, ih (u := []) htail, ← runs]
      · -- The block lies between the end of the run and the next block that can be claimed.
        have hx' := (List.mem_filter.mp (List.mem_of_mem_head? hx)).1
        cases hlast : u.getLast? with
        | none => simp [canFollow, hlast]
        | some a =>
          obtain ⟨-, hright, hcross⟩ := List.pairwise_append.mp h.pairwise
          have h1 := hcross a (List.mem_of_getLast? hlast) b List.mem_cons_self
          have h2 := h.nonempty b (by simp)
          have h3 := (List.pairwise_cons.mp hright).1 x hx'
          have hne : a.span.stop ≠ x.span.start := by omega
          simp [canFollow, hlast, hne]

theorem runs_filter (h : Ordered l) : runs limit l = runs limit (l.filter (·.state.isClaimable)) :=
  runsFrom_filter (u := []) h

theorem length_emit (hr : u ≠ []) (parts : List (List Block)) : (emit u parts).length = parts.length + 1 := by
  simp [emit, hr]

/-- A block that adjoins the last one of a run with room joins it. -/
theorem runsFrom_cons_of_room {a b : Block} (hb : b.state.isClaimable = true) (ha : u.getLast? = some a)
    (hab : adjoins a b = true) (hroom : u.length < limit) : runsFrom limit u (b :: l) = runsFrom limit (u ++ [b]) l := by
  simp only [adjoins] at hab
  have hfollow : canFollow limit u b = true := by simp [canFollow, ha, hroom, hab]
  rw [runsFrom, if_pos hb, if_pos hfollow]

/-- A block that finds a run full begins the next one. -/
theorem runsFrom_cons_of_full {b : Block} (hb : b.state.isClaimable = true) (hfull : ¬u.length < limit) :
    runsFrom limit u (b :: l) = emit u (runsFrom limit [b] l) := by
  have hfollow : ¬canFollow limit u b = true := by simp [canFollow, hfull]
  rw [runsFrom, if_pos hb, if_neg hfollow]

/-- A run that has begun, and the rest of its stretch, are cut into runs that are as long as they may be. -/
theorem length_runsFrom_append (hlimit : 1 ≤ limit) (hr : u ≠ []) (hlen : u.length ≤ limit)
    (hc : ∀ b ∈ S ++ R, b.state.isClaimable = true) (hlinked : Linked (u ++ S)) (hbroken : Broken (u ++ S) R) :
    (runsFrom limit u (S ++ R)).length =
      (u.length + S.length + limit - 1) / limit + (runs limit R).length := by
  have hpos : 1 ≤ u.length := List.length_pos_iff.mpr hr
  induction S generalizing u with
  | nil =>
    rw [List.nil_append] at hc ⊢
    rw [runsFrom_of_not_canFollow hc fun b hb => ?_, length_emit hr]
    · have : (u.length + 0 + limit - 1) / limit = 1 := by
        rw [Nat.div_eq_iff (by omega)]
        omega
      simp only [List.length_nil, this]
      omega
    · obtain ⟨a, ha⟩ := Option.isSome_iff_exists.mp (List.getLast?_isSome.mpr hr)
      have := hbroken a (by simpa using ha) b hb
      simp only [adjoins] at this
      simp [canFollow, ha, this]
  | cons b S ih =>
    have hb := hc b (by simp)
    have hc' : ∀ x ∈ S ++ R, x.state.isClaimable = true := fun x hx => hc x (List.mem_cons_of_mem _ hx)
    rw [List.cons_append]
    obtain ⟨a, ha⟩ := Option.isSome_iff_exists.mp (List.getLast?_isSome.mpr hr)
    have hab : adjoins a b = true := (List.isChain_append.mp hlinked).2.2 a ha b rfl
    by_cases hroom : u.length < limit
    · rw [runsFrom_cons_of_room hb ha hab hroom, ih (u := u ++ [b]) (by simp)
        (by simpa using Nat.succ_le_of_lt hroom) hc' (by simpa using hlinked) (by simpa using hbroken) (by simp)]
      simp only [List.length_append, List.length_cons, List.length_nil]
      congr 2
      omega
    · have htail : Linked ([b] ++ S) := (List.isChain_append.mp hlinked).2.1
      have hlast : ([b] ++ S).getLast? = (u ++ b :: S).getLast? :=
        (List.getLast?_append_of_ne_nil _ (List.cons_ne_nil _ _)).symm
      rw [runsFrom_cons_of_full hb hroom, length_emit hr,
        ih (u := [b]) (by simp) hlimit hc' htail (fun a ha => hbroken a (hlast ▸ ha)) (Nat.le_refl _)]
      have hrun : u.length = limit := by omega
      have : (u.length + (b :: S).length + limit - 1) / limit = ([b].length + S.length + limit - 1) / limit + 1 := by
        rw [hrun, ← Nat.add_div_right _ (by omega)]
        congr 1
        simp only [List.length_cons, List.length_nil]
        omega
      omega

/-- The runs of claimable blocks are as many as it takes to cut each stretch into runs as long as they may be. -/
theorem length_runs (hlimit : 1 ≤ limit) (hc : ∀ b ∈ l, b.state.isClaimable = true) :
    (runs limit l).length = leastRuns limit l := by
  induction l using stretch_induction with
  | nil => rfl
  | append S R hS hlinked hbroken ih =>
    obtain ⟨b, S, rfl⟩ := List.exists_cons_of_ne_nil hS
    have hb := hc b (by simp)
    have hfirst : runs limit (b :: S ++ R) = runsFrom limit [b] (S ++ R) := by
      simp [runs, runsFrom, hb, canFollow, emit]
    rw [leastRuns_append limit hS hlinked hbroken, ← ih fun x hx => hc x (List.mem_append_right _ hx), hfirst,
      length_runsFrom_append (u := [b]) hlimit (by simp) hlimit (fun x hx => hc x (List.mem_cons_of_mem _ hx))
        hlinked hbroken]
    congr 3
    simp only [List.length_cons, List.length_nil]
    omega

end Runs

/-! ### All partitions -/

section Partitions
variable {limit : Nat} {l S R p : List Block} {parts : List (List Block)}

/-- Lists whose elements all pass a test, or none of them does. -/
theorem flatten_filter_all {q : Block → Bool} (h : ∀ p ∈ parts, (∀ b ∈ p, q b = true) ∨ ∀ b ∈ p, q b = false) :
    (parts.filter (·.all q)).flatten = parts.flatten.filter q ∧
      (parts.filter fun p => !p.all q).flatten = parts.flatten.filter fun b => !q b := by
  induction parts with
  | nil => exact ⟨rfl, rfl⟩
  | cons p parts ih =>
    obtain ⟨h1, h2⟩ := ih fun p hp => h p (List.mem_cons_of_mem _ hp)
    rcases h p List.mem_cons_self with hp | hp
    · have hall : p.all q = true := List.all_eq_true.mpr hp
      have hself : p.filter q = p := List.filter_eq_self.mpr hp
      have hnone : (p.filter fun b => !q b) = [] := List.filter_eq_nil_iff.mpr fun b hb => by simp [hp b hb]
      simp [hall, hself, hnone, h1, h2]
    · have hself : (p.filter fun b => !q b) = p := List.filter_eq_self.mpr fun b hb => by simp [hp b hb]
      have hnone : p.filter q = [] := List.filter_eq_nil_iff.mpr fun b hb => by simp [hp b hb]
      cases p with
      | nil => exact ⟨h1, h2⟩
      | cons b p =>
        have hall : (b :: p).all q = false := by simp [hp b List.mem_cons_self]
        rw [List.flatten_cons, List.filter_append, List.filter_append, hself, hnone,
          List.filter_cons_of_neg (by simp [hall]), List.filter_cons_of_pos (by simp [hall]), List.flatten_cons, h1, h2]
        simp

/-- A run does not go beyond a stretch. -/
theorem mem_or_of_linked (h : Ordered (S ++ R)) (hbroken : Broken S R) (hp : ∀ b ∈ p, b ∈ S ++ R)
    (hlinked : Linked p) : (∀ b ∈ p, b ∈ S) ∨ ∀ b ∈ p, b ∈ R := by
  induction p with
  | nil => exact Or.inl nofun
  | cons a p ih =>
    cases p with
    | nil => simpa using hp a List.mem_cons_self
    | cons b p =>
      obtain ⟨hab, hrest⟩ := List.isChain_cons_cons.mp hlinked
      have hab : a.span.stop = b.span.start := by simpa [adjoins] using hab
      have hna := h.nonempty a (hp a List.mem_cons_self)
      have hnb := h.nonempty b (hp b (by simp))
      -- Neighbours in a run are on the same side.
      rcases ih (fun x hx => hp x (List.mem_cons_of_mem _ hx)) hrest with hS | hR
      · refine Or.inl fun x hx => ?_
        rcases List.mem_cons.mp hx with rfl | hx
        · refine (List.mem_append.mp (hp x List.mem_cons_self)).resolve_right fun hxR => ?_
          have := h.lt_of_broken hbroken (hS b List.mem_cons_self) hxR
          omega
        · exact hS x hx
      · refine Or.inr fun x hx => ?_
        rcases List.mem_cons.mp hx with rfl | hx
        · refine (List.mem_append.mp (hp x List.mem_cons_self)).resolve_left fun hxS => ?_
          have := h.lt_of_broken hbroken hxS (hR b List.mem_cons_self)
          omega
        · exact hR x hx

theorem length_flatten_le (h : ∀ p ∈ parts, p.length ≤ limit) : parts.flatten.length ≤ limit * parts.length := by
  induction parts with
  | nil => exact Nat.zero_le _
  | cons p parts ih =>
    have := h p List.mem_cons_self
    have := ih fun p hp => h p (List.mem_cons_of_mem _ hp)
    simp only [List.flatten_cons, List.length_append, List.length_cons, Nat.mul_add, Nat.mul_one]
    omega

theorem Partition.filter {q : List Block → Bool} (h : Partition limit l parts)
    (hperm : (parts.filter q).flatten.Perm R) : Partition limit R (parts.filter q) :=
  ⟨hperm, fun p hp => h.nonempty p (List.mem_filter.mp hp).1, fun p hp => h.short p (List.mem_filter.mp hp).1,
    fun p hp => h.linked p (List.mem_filter.mp hp).1⟩

/-- The runs of a partition that lie in the first stretch hold all of it, and the others partition what follows. -/
theorem Partition.split (h : Partition limit (S ++ R) parts) (ho : Ordered (S ++ R)) (hbroken : Broken S R) :
    ∃ inner outer, Partition limit S inner ∧ Partition limit R outer ∧ inner.length + outer.length = parts.length := by
  have hdisjoint : ∀ b ∈ R, b ∉ S := fun b hR hS => by
    have := ho.lt_of_broken hbroken hS hR
    have := ho.nonempty b (List.mem_append_left _ hS)
    omega
  have hsides : ∀ p ∈ parts, (∀ b ∈ p, decide (b ∈ S) = true) ∨ ∀ b ∈ p, decide (b ∈ S) = false := fun p hp => by
    have hmem : ∀ b ∈ p, b ∈ S ++ R := fun b hb => h.perm.mem_iff.mp (List.mem_flatten.mpr ⟨p, hp, hb⟩)
    rcases mem_or_of_linked ho hbroken hmem (h.linked p hp) with hS | hR
    · exact Or.inl fun b hb => decide_eq_true (hS b hb)
    · exact Or.inr fun b hb => decide_eq_false (hdisjoint b (hR b hb))
  obtain ⟨hin, hout⟩ := flatten_filter_all hsides
  refine ⟨_, _, h.filter (q := fun p => p.all fun b => decide (b ∈ S)) ?_,
    h.filter (q := fun p => !p.all fun b => decide (b ∈ S)) ?_, (List.length_eq_length_filter_add _).symm⟩
  · refine (hin ▸ h.perm.filter _).trans (.of_eq ?_)
    rw [List.filter_append, List.filter_eq_self.mpr fun b hb => by simpa using hb,
      List.filter_eq_nil_iff.mpr fun b hb => by simpa using hdisjoint b hb, List.append_nil]
  · refine (hout ▸ h.perm.filter _).trans (.of_eq ?_)
    rw [List.filter_append, List.filter_eq_nil_iff.mpr fun b hb => by simpa using hb,
      List.filter_eq_self.mpr fun b hb => by simpa using hdisjoint b hb, List.nil_append]

/-- No partition of blocks has fewer runs. -/
theorem Partition.leastRuns_le (hlimit : 1 ≤ limit) (h : Partition limit l parts) (ho : Ordered l) :
    leastRuns limit l ≤ parts.length := by
  induction l using stretch_induction generalizing parts with
  | nil => exact Nat.zero_le _
  | append S R hS hlinked hbroken ih =>
    obtain ⟨inner, outer, hinner, houter, hlen⟩ := h.split ho hbroken
    have hrest := ih houter (ho.sublist (List.sublist_append_right _ _))
    have hfirst := length_flatten_le hinner.short
    rw [hinner.perm.length_eq] at hfirst
    have hdiv : (S.length + limit - 1) / limit ≤ inner.length := by
      refine Nat.le_of_lt_succ (Nat.div_lt_of_lt_mul ?_)
      rw [Nat.mul_succ]
      omega
    rw [leastRuns_append limit hS hlinked hbroken]
    omega

theorem linked_of_tile {a b : Nat} (h : Span.Tile a (l.map (·.span)) b) : Linked l := by
  induction l generalizing a with
  | nil => exact .nil
  | cons x l ih =>
    obtain ⟨-, -, hrest⟩ := h
    cases l with
    | nil => exact .singleton x
    | cons y l => exact List.isChain_cons_cons.mpr ⟨by simpa [adjoins] using hrest.1.symm, ih hrest⟩

/-- The runs that a request makes of blocks are a partition of those that can be claimed. No other one has fewer runs,
    and it is known how many they are. -/
theorem partition_runs (hlimit : 1 ≤ limit) (h : Ordered l) :
    Partition limit (l.filter (·.state.isClaimable)) (runs limit l) ∧
      (runs limit l).length = leastRuns limit (l.filter (·.state.isClaimable)) ∧
      ∀ parts, Partition limit (l.filter (·.state.isClaimable)) parts → (runs limit l).length ≤ parts.length := by
  have hjoined := fun p (hp : p ∈ runs limit l) => joined_of_mem_runs h.nonempty hp
  have hlength : (runs limit l).length = leastRuns limit (l.filter (·.state.isClaimable)) := by
    rw [runs_filter h, length_runs hlimit fun b hb => (List.mem_filter.mp hb).2]
  refine ⟨⟨.of_eq (flatten_runs limit l), fun p hp => (hjoined p hp).nonempty, fun p hp => ?_,
    fun p hp => linked_of_tile (hjoined p hp).tile⟩, hlength, fun parts hparts => ?_⟩
  · have := (hjoined p hp).short
    omega
  · exact hlength ▸ hparts.leastRuns_le hlimit (h.sublist List.filter_sublist)

end Partitions

end RangeCache.Store
