import Mathlib.Data.List.Perm.Basic
import RangeCache.Json.Record
import RangeCache.Proofs.Json.Complete
import RangeCache.Proofs.Keyed

/-!
# Records given in part

A reader that has a default for every field need not be told what agrees with it: from the object that
gives a record whole, any entry with the default's value may be left out, in the record itself and in
the records that it holds, and the entries that stay may stand in any order. `Faithful` says what fields
have to be like for nothing to be lost that way.
-/

namespace RangeCache.Json

mutual

/-- The last value gives the second one to a reader that has the first for a default. -/
inductive Abridges : Json → Json → Json → Prop where
  | same {base full : Json} : Abridges base full full
  | object {bs fs l m : List (Option String × Json)} (h : Leaves bs fs l) (hm : l.Perm m) :
      Abridges (.object bs) (.object fs) (.object m)

/-- The same for the entries of an object, in their order. -/
inductive Leaves :
    List (Option String × Json) → List (Option String × Json) → List (Option String × Json) → Prop where
  | nil : Leaves [] [] []
  | keep {k : Option String} {b v v' : Json} {bs fs l : List (Option String × Json)} (h : Abridges b v v')
      (hl : Leaves bs fs l) : Leaves ((k, b) :: bs) ((k, v) :: fs) ((k, v') :: l)
  | leave {k : Option String} {b v : Json} {bs fs l : List (Option String × Json)} (h : b = v)
      (hl : Leaves bs fs l) : Leaves ((k, b) :: bs) ((k, v) :: fs) l

end

/-- Only objects can be given in part. -/
theorem Abridges.eq_of_ne {base full j : Json} (h : Abridges base full j) (hf : ∀ l, full ≠ .object l) :
    j = full := by
  cases h with
  | same => rfl
  | object => exact absurd rfl (hf _)

/-- A field that can be written as well as read. -/
structure Facet (α : Type) extends RecordField α where
  /-- The value that the field has in a record. -/
  value : α → Json
  /-- The second record, with the field as the first one has it. -/
  copy : α → α → α

namespace Facet

variable {α β : Type}

/-- The part of a record that `get` reads and `write` writes. -/
def of (name : String) (get : Json → Option β) (write : β → Json) (part : α → β) (put : β → α → α) :
    Facet α where
  toRecordField := .of name get put
  value a := write (part a)
  copy c a := put (part c) a

def word (name : String) (part : α → Nat) (put : Nat → α → α) : Facet α :=
  of name (natBelow? 0x10000000000000000) ofNat part put

def flag (name : String) (part : α → Bool) (put : Bool → α → α) : Facet α := of name bool? bool part put

/-- Whether the field is read from whatever gives it, of any record that fits. -/
def Reads (base : α) (Fits : α → Prop) (f : Facet α) : Prop :=
  ∀ c, Fits c → ∀ j, Abridges (f.value base) (f.value c) j → ∀ a, f.set j a = some (f.copy c a)

end Facet

section Reads
variable {α : Type} {base : α} {Fits : α → Prop}

theorem reads_of {β : Type} {get : Json → Option β} {write : β → Json} {part : α → β} {put : β → α → α}
    (name : String)
    (h : ∀ c, Fits c → ∀ j, Abridges (write (part base)) (write (part c)) j → get j = some (part c)) :
    (Facet.of name get write part put).Reads base Fits := by
  intro c hc j hj a
  simp [Facet.of, RecordField.of, h c hc j hj]

theorem reads_word {part : α → Nat} {put : Nat → α → α} (name : String) (h : ∀ c, Fits c → part c < 2 ^ 64) :
    (Facet.word name part put).Reads base Fits := by
  refine reads_of name fun c hc j hj => ?_
  obtain rfl := hj.eq_of_ne fun l => by simp [ofNat]
  exact natBelow?_ofNat (h c hc)

theorem reads_flag {part : α → Bool} {put : Bool → α → α} (name : String) :
    (Facet.flag name part put).Reads base Fits := by
  refine reads_of name fun c _ j hj => ?_
  obtain rfl := hj.eq_of_ne fun l => by simp
  rfl

end Reads

section Records
variable {α : Type} {base a c : α} {Fits : α → Prop} {fs : List (Facet α)} {l m : List (Option String × Json)}

/-- The object that gives all fields of a record. -/
def writeRecord (fs : List (Facet α)) (a : α) : Json := .object (fs.map fun f => (some f.name, f.value a))

/-- What fields have to be like for a record to be read back from what gives it: each reads its own value,
    changes nothing else, and all of them together are the record. -/
structure Faithful (base : α) (Fits : α → Prop) (fs : List (Facet α)) : Prop where
  names : (fs.map (·.name)).Nodup
  reads : ∀ f ∈ fs, f.Reads base Fits
  copies : ∀ f ∈ fs, ∀ c a, f.value (f.copy c a) = f.value c
  keeps : ∀ f ∈ fs, ∀ g ∈ fs, g.name ≠ f.name → ∀ c a, g.value (f.copy c a) = g.value a
  ext : ∀ a b, (∀ f ∈ fs, f.value a = f.value b) → a = b

/-- The entries give the record `c` to a reader of these fields that starts from `base`. -/
structure Gives (fs : List (Facet α)) (base c : α) (l : List (Option String × Json)) : Prop where
  names : (l.map (·.1)).Nodup
  given : ∀ e ∈ l, ∃ f ∈ fs, e.1 = some f.name ∧ Abridges (f.value base) (f.value c) e.2
  left : ∀ f ∈ fs, some f.name ∉ l.map (·.1) → f.value base = f.value c

theorem Gives.perm (h : Gives fs base c l) (hm : l.Perm m) : Gives fs base c m where
  names := ((hm.map _).nodup_iff).mp h.names
  given e he := h.given e (hm.mem_iff.mpr he)
  left f hf hn := h.left f hf fun hl => hn ((hm.map _).mem_iff.mp hl)

section Leaves
variable (h : Leaves (fs.map fun f => (some f.name, f.value base)) (fs.map fun f => (some f.name, f.value c)) l)
include h

theorem sublist_of_leaves : (l.map (·.1)).Sublist (fs.map fun f => some f.name) := by
  induction fs generalizing l with
  | nil =>
    cases h
    exact .slnil
  | cons f fs ih =>
    cases h with
    | keep _ hl => exact (ih hl).cons_cons _
    | leave _ hl => exact (ih hl).cons _

theorem given_of_leaves : ∀ e ∈ l, ∃ f ∈ fs, e.1 = some f.name ∧ Abridges (f.value base) (f.value c) e.2 := by
  induction fs generalizing l with
  | nil =>
    cases h
    simp
  | cons f fs ih =>
    cases h with
    | keep h hl =>
      rintro e (_ | ⟨_, he⟩)
      · exact ⟨f, by simp, rfl, h⟩
      · obtain ⟨g, hg, hge⟩ := ih hl e he
        exact ⟨g, List.mem_cons_of_mem _ hg, hge⟩
    | leave _ hl =>
      intro e he
      obtain ⟨g, hg, hge⟩ := ih hl e he
      exact ⟨g, List.mem_cons_of_mem _ hg, hge⟩

theorem left_of_leaves : ∀ f ∈ fs, some f.name ∉ l.map (·.1) → f.value base = f.value c := by
  induction fs generalizing l with
  | nil => simp
  | cons f fs ih =>
    cases h with
    | keep _ hl =>
      rintro g (_ | ⟨_, hg⟩) hnot
      · exact absurd (by simp) hnot
      · exact ih hl g hg fun hin => hnot (List.mem_cons_of_mem _ hin)
    | leave h hl =>
      rintro g (_ | ⟨_, hg⟩) hnot
      · exact h
      · exact ih hl g hg hnot

end Leaves

theorem leaves_self :
    Leaves (fs.map fun f => (some f.name, f.value base)) (fs.map fun f => (some f.name, f.value c))
      (fs.map fun f => (some f.name, f.value c)) := by
  induction fs with
  | nil => exact .nil
  | cons f fs ih => exact .keep .same ih

theorem occurrences_le_one (h : (l.map (·.1)).Nodup) (name : String) : occurrences l name ≤ 1 := by
  have hc := List.nodup_iff_count_le_one.mp h (some name)
  rw [List.count, List.countP_map] at hc
  rw [occurrences, ← List.countP_eq_length_filter]
  exact hc

namespace Faithful

theorem nodup_keys (h : Faithful base Fits fs) : (fs.map fun f => some f.name).Nodup := by
  simpa [Function.comp_def] using h.names.map (f := some) fun _ _ => Option.some.inj

theorem gives (h : Faithful base Fits fs) {j : Json} (hj : Abridges (writeRecord fs base) (writeRecord fs c) j) :
    ∃ l, j = .object l ∧ Gives fs base c l := by
  have gives : ∀ {l}, Leaves (fs.map fun f => (some f.name, f.value base))
      (fs.map fun f => (some f.name, f.value c)) l → Gives fs base c l := fun hl =>
    { names := (sublist_of_leaves hl).nodup h.nodup_keys
      given := given_of_leaves hl
      left := left_of_leaves hl }
  cases hj with
  | same => exact ⟨_, rfl, gives leaves_self⟩
  | object hl hm => exact ⟨_, rfl, (gives hl).perm hm⟩

/-- Each entry sets its own field and leaves the other ones as they are. -/
theorem readEntries (h : Faithful base Fits fs) (hc : Fits c) (hn : (l.map (·.1)).Nodup)
    (hl : ∀ e ∈ l, ∃ f ∈ fs, e.1 = some f.name ∧ Abridges (f.value base) (f.value c) e.2) (a : α) :
    ∃ a', Json.readEntries (fs.map (·.toRecordField)) l a = some a' ∧
      ∀ g ∈ fs, g.value a' = if some g.name ∈ l.map (·.1) then g.value c else g.value a := by
  induction l generalizing a with
  | nil => exact ⟨a, rfl, fun g _ => by simp⟩
  | cons e l ih =>
    obtain ⟨k, v⟩ := e
    obtain ⟨f, hf, hk, hj⟩ := hl (k, v) (by simp)
    obtain ⟨hne, hrest⟩ : k ∉ l.map (·.1) ∧ (l.map (·.1)).Nodup := List.nodup_cons.mp hn
    obtain rfl : k = some f.name := hk
    have hset := h.reads f hf c hc v hj a
    obtain ⟨a', ha', hval⟩ := ih hrest (fun e he => hl e (List.mem_cons_of_mem _ he)) (f.copy c a)
    have hfind : (fs.map (·.toRecordField)).find? (fun g => some g.name == some f.name) = some f.toRecordField :=
      find?_key (f := fun g : RecordField α => some g.name)
        (by simpa [Function.comp_def] using h.nodup_keys) (List.mem_map_of_mem hf)
    refine ⟨a', by simp only [Json.readEntries, hfind, hset, Option.bind_eq_bind, Option.bind_some, ha'],
      fun g hg => ?_⟩
    rw [hval g hg]
    by_cases hgf : g.name = f.name
    · obtain rfl : g = f := List.inj_on_of_nodup_map h.names hg hf hgf
      simp [hne, h.copies g hg]
    · have hmem : some g.name ∈ ((some f.name, v) :: l).map (·.1) ↔ some g.name ∈ l.map (·.1) := by
        rw [List.map_cons, List.mem_cons]
        simp [hgf]
      rw [if_congr hmem rfl rfl, h.keeps f hf g hg hgf]

/-- A record is read back from whatever gives it. -/
theorem readRecord (h : Faithful base Fits fs) (hc : Fits c) {j : Json}
    (hj : Abridges (writeRecord fs base) (writeRecord fs c) j) :
    Json.readRecord (fs.map (·.toRecordField)) base j = some c := by
  obtain ⟨l, rfl, hl⟩ := h.gives hj
  obtain ⟨a, ha, hval⟩ := h.readEntries hc hl.names hl.given base
  have hac : a = c := by
    refine h.ext a c fun f hf => ?_
    rw [hval f hf]
    split
    · rfl
    · next hnot => exact hl.left f hf hnot
  have hw : wellNamed (fs.map (·.toRecordField)) l = true := by
    simp only [wellNamed, Bool.and_eq_true, List.all_eq_true, decide_eq_true_eq]
    refine ⟨fun e he => ?_, fun f _ => occurrences_le_one hl.names f.name⟩
    obtain ⟨f, -, hk, -⟩ := hl.given e he
    simp [hk]
  rw [Json.readRecord, if_pos hw, ha, hac]

/-- Different records are written differently. -/
theorem writeRecord_inj (h : Faithful base Fits fs) {a b : α} (hw : writeRecord fs a = writeRecord fs b) : a = b := by
  simp only [writeRecord, object.injEq] at hw
  refine h.ext a b fun f hf => ?_
  exact (Prod.ext_iff.mp (List.map_inj_left.mp hw f hf)).2

end Faithful

end Records

end RangeCache.Json
