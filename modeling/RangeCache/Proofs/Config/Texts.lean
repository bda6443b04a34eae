import RangeCache.Config.Json
import RangeCache.Proofs.Json.Records

/-!
# Configurations read from texts

A configuration whose numbers fit their words is read back from every text that gives it: with or without
what agrees with the defaults, at each level, in any order and spelled in any way. What is read is then
checked, so the text gives the configuration itself or its first contradiction.
-/

namespace RangeCache

open Json

namespace StoreConfig

/-- The numbers of a configuration are 64-bit words. -/
structure InRange (c : StoreConfig) : Prop where
  blockSize : c.blockSize < 2 ^ 64
  memoryBudget : c.memoryBudget < 2 ^ 64
  maxRun : c.maxRun < 2 ^ 64

def facets : List (Facet StoreConfig) :=
  [.word "block_size" (·.blockSize) fun n c => { c with blockSize := n },
   .word "memory_budget_bytes" (·.memoryBudget) fun n c => { c with memoryBudget := n },
   .word "max_coalesced_blocks" (·.maxRun) fun n c => { c with maxRun := n }]

theorem faithful : Faithful {} InRange facets where
  names := by decide
  reads := by
    simp only [facets, List.forall_mem_cons]
    exact ⟨reads_word _ fun c h => h.blockSize, reads_word _ fun c h => h.memoryBudget,
      reads_word _ fun c h => h.maxRun, by simp⟩
  copies := by simp [facets, Facet.word, Facet.of]
  keeps := by simp [facets, Facet.word, Facet.of, RecordField.of]
  ext a b h := by
    cases a
    cases b
    simpa [facets, Facet.word, Facet.of] using h

theorem ofJson?_of {c : StoreConfig} (hc : c.InRange) {j : Json} (h : Abridges (toJson {}) c.toJson j) :
    ofJson? j = some c := faithful.readRecord hc h

end StoreConfig

namespace PlannerConfig

/-- The numbers of a planner configuration are 64-bit words. -/
structure InRange (c : PlannerConfig) : Prop where
  accessWindow : c.accessWindow < 2 ^ 64
  gapThreshold : c.gapThreshold < 2 ^ 64
  initialReadahead : c.initialReadahead < 2 ^ 64
  maxReadahead : c.maxReadahead < 2 ^ 64
  recentColumns : c.recentColumns < 2 ^ 64

def facets : List (Facet PlannerConfig) :=
  [.word "access_window" (·.accessWindow) fun n c => { c with accessWindow := n },
   .word "sequential_gap_threshold" (·.gapThreshold) fun n c => { c with gapThreshold := n },
   .word "initial_readahead_blocks" (·.initialReadahead) fun n c => { c with initialReadahead := n },
   .word "max_readahead_blocks" (·.maxReadahead) fun n c => { c with maxReadahead := n },
   .flag "predictive_column_prefetch" (·.predictive) fun b c => { c with predictive := b },
   .word "column_access_store_size" (·.recentColumns) fun n c => { c with recentColumns := n },
   .of "prefetch_mode" PrefetchMode.ofJson? (fun m => .ofText m.name) (·.mode) fun m c => { c with mode := m }]

theorem mode_ofJson?_of (m : PrefetchMode) : PrefetchMode.ofJson? (.ofText m.name) = some m := by
  cases m <;> decide

theorem faithful : Faithful {} InRange facets where
  names := by decide
  reads := by
    simp only [facets, List.forall_mem_cons]
    refine ⟨reads_word _ fun c h => h.accessWindow, reads_word _ fun c h => h.gapThreshold,
      reads_word _ fun c h => h.initialReadahead, reads_word _ fun c h => h.maxReadahead, reads_flag _,
      reads_word _ fun c h => h.recentColumns, reads_of _ fun c _ j hj => ?_, by simp⟩
    obtain rfl := hj.eq_of_ne fun l => by simp [ofText]
    exact mode_ofJson?_of c.mode
  copies := by simp [facets, Facet.word, Facet.flag, Facet.of]
  keeps := by simp [facets, Facet.word, Facet.flag, Facet.of, RecordField.of]
  ext a b h := by
    have hmode : ∀ m n : PrefetchMode, Json.ofText m.name = .ofText n.name → m = n := fun m n h =>
      Option.some.inj (by rw [← mode_ofJson?_of, h, mode_ofJson?_of])
    cases a
    cases b
    simp only [facets, Facet.word, Facet.flag, Facet.of, List.forall_mem_cons, ofNat_inj, Json.bool.injEq] at h
    obtain ⟨h₁, h₂, h₃, h₄, h₅, h₆, h₇, -⟩ := h
    simp [h₁, h₂, h₃, h₄, h₅, h₆, hmode _ _ h₇]

theorem ofJson?_of {c : PlannerConfig} (hc : c.InRange) {j : Json} (h : Abridges (toJson {}) c.toJson j) :
    ofJson? j = some c := faithful.readRecord hc h

end PlannerConfig

namespace RetryConfig

/-- The numbers of a retry configuration are words of 32 and 64 bits. -/
structure InRange (c : RetryConfig) : Prop where
  maxAttempts : c.maxAttempts < 2 ^ 32
  initialBackoff : c.initialBackoff < 2 ^ 64
  maxBackoff : c.maxBackoff < 2 ^ 64

def facets : List (Facet RetryConfig) :=
  [.of "max_attempts" (Json.natBelow? 0x100000000) .ofNat (·.maxAttempts) fun n c => { c with maxAttempts := n },
   .word "initial_backoff_ms" (·.initialBackoff) fun n c => { c with initialBackoff := n },
   .word "max_backoff_ms" (·.maxBackoff) fun n c => { c with maxBackoff := n },
   .flag "jitter" (·.jitter) fun b c => { c with jitter := b }]

theorem faithful : Faithful {} InRange facets where
  names := by decide
  reads := by
    simp only [facets, List.forall_mem_cons]
    refine ⟨reads_of _ fun c hc j hj => ?_, reads_word _ fun c h => h.initialBackoff,
      reads_word _ fun c h => h.maxBackoff, reads_flag _, by simp⟩
    obtain rfl := hj.eq_of_ne fun l => by simp [ofNat]
    exact natBelow?_ofNat hc.maxAttempts
  copies := by simp [facets, Facet.word, Facet.flag, Facet.of]
  keeps := by simp [facets, Facet.word, Facet.flag, Facet.of, RecordField.of]
  ext a b h := by
    cases a
    cases b
    simpa [facets, Facet.word, Facet.flag, Facet.of] using h

theorem ofJson?_of {c : RetryConfig} (hc : c.InRange) {j : Json} (h : Abridges (toJson {}) c.toJson j) :
    ofJson? j = some c := faithful.readRecord hc h

end RetryConfig

namespace QueueConfig

/-- The numbers of a queue configuration are 64-bit words, and those of its retries are in range. -/
structure InRange (c : QueueConfig) : Prop where
  maxFetches : c.maxFetches < 2 ^ 64
  maxFetchesPerObject : c.maxFetchesPerObject < 2 ^ 64
  maxQueued : c.maxQueued < 2 ^ 64
  retry : c.retry.InRange

def facets : List (Facet QueueConfig) :=
  [.word "max_concurrent_fetches" (·.maxFetches) fun n c => { c with maxFetches := n },
   .word "max_concurrent_fetches_per_object" (·.maxFetchesPerObject) fun n c => { c with maxFetchesPerObject := n },
   .word "max_queued_fetches" (·.maxQueued) fun n c => { c with maxQueued := n },
   .of "retry" RetryConfig.ofJson? RetryConfig.toJson (·.retry) fun r c => { c with retry := r }]

theorem faithful : Faithful {} InRange facets where
  names := by decide
  reads := by
    simp only [facets, List.forall_mem_cons]
    exact ⟨reads_word _ fun c h => h.maxFetches, reads_word _ fun c h => h.maxFetchesPerObject,
      reads_word _ fun c h => h.maxQueued, reads_of _ fun c h j hj => RetryConfig.ofJson?_of h.retry hj, by simp⟩
  copies := by simp [facets, Facet.word, Facet.of]
  keeps := by simp [facets, Facet.word, Facet.of, RecordField.of]
  ext a b h := by
    cases a
    cases b
    simp only [facets, Facet.word, Facet.of, List.forall_mem_cons, ofNat_inj] at h
    obtain ⟨h₁, h₂, h₃, h₄, -⟩ := h
    simp [h₁, h₂, h₃, RetryConfig.faithful.writeRecord_inj h₄]

theorem ofJson?_of {c : QueueConfig} (hc : c.InRange) {j : Json} (h : Abridges (toJson {}) c.toJson j) :
    ofJson? j = some c := faithful.readRecord hc h

end QueueConfig

namespace FooterConfig

/-- The numbers of a footer configuration are 64-bit words. -/
structure InRange (c : FooterConfig) : Prop where
  tailPrefetch : c.tailPrefetch < 2 ^ 64
  largeTailPrefetch : c.largeTailPrefetch < 2 ^ 64
  largeThreshold : c.largeThreshold < 2 ^ 64
  pageIndexPrefetch : c.pageIndexPrefetch < 2 ^ 64
  largePageIndexPrefetch : c.largePageIndexPrefetch < 2 ^ 64

def facets : List (Facet FooterConfig) :=
  [.of "file_suffixes" suffixes? (fun l => .array (l.map .ofText)) (·.suffixes) fun l c => { c with suffixes := l },
   .word "tail_prefetch_bytes" (·.tailPrefetch) fun n c => { c with tailPrefetch := n },
   .word "large_object_tail_prefetch_bytes" (·.largeTailPrefetch) fun n c => { c with largeTailPrefetch := n },
   .word "large_object_threshold" (·.largeThreshold) fun n c => { c with largeThreshold := n },
   .flag "prefetch_footer_on_open" (·.prefetchOnOpen) fun b c => { c with prefetchOnOpen := b },
   .flag "prefetch_page_index" (·.prefetchPageIndex) fun b c => { c with prefetchPageIndex := b },
   .word "page_index_prefetch_bytes" (·.pageIndexPrefetch) fun n c => { c with pageIndexPrefetch := n },
   .word "large_object_page_index_prefetch_bytes" (·.largePageIndexPrefetch) fun n c =>
     { c with largePageIndexPrefetch := n }]

theorem suffixes?_of (l : List String) : suffixes? (.array (l.map .ofText)) = some l := by
  have h : (l.map Json.ofText).mapM Json.text? = some l := by
    induction l with
    | nil => rfl
    | cons t l ih => simp [List.mapM_cons, ih, ofText, text?]
  exact h

theorem faithful : Faithful {} InRange facets where
  names := by decide
  reads := by
    simp only [facets, List.forall_mem_cons]
    refine ⟨reads_of _ fun c _ j hj => ?_, reads_word _ fun c h => h.tailPrefetch,
      reads_word _ fun c h => h.largeTailPrefetch, reads_word _ fun c h => h.largeThreshold, reads_flag _,
      reads_flag _, reads_word _ fun c h => h.pageIndexPrefetch, reads_word _ fun c h => h.largePageIndexPrefetch,
      by simp⟩
    obtain rfl := hj.eq_of_ne fun l => by simp
    exact suffixes?_of c.suffixes
  copies := by simp [facets, Facet.word, Facet.flag, Facet.of]
  keeps := by simp [facets, Facet.word, Facet.flag, Facet.of, RecordField.of]
  ext a b h := by
    have hsuffixes : ∀ l m : List String, Json.array (l.map .ofText) = .array (m.map .ofText) → l = m :=
      fun l m h => Option.some.inj (by rw [← suffixes?_of, h, suffixes?_of])
    cases a
    cases b
    simp only [facets, Facet.word, Facet.flag, Facet.of, List.forall_mem_cons, ofNat_inj, Json.bool.injEq] at h
    obtain ⟨h₁, h₂, h₃, h₄, h₅, h₆, h₇, h₈, -⟩ := h
    simp [hsuffixes _ _ h₁, h₂, h₃, h₄, h₅, h₆, h₇, h₈]

theorem ofJson?_of {c : FooterConfig} (hc : c.InRange) {j : Json} (h : Abridges (toJson {}) c.toJson j) :
    ofJson? j = some c := faithful.readRecord hc h

end FooterConfig

namespace RegistryConfig

/-- The numbers of a registry configuration are 64-bit words. -/
structure InRange (c : RegistryConfig) : Prop where
  maxIdle : c.maxIdle < 2 ^ 64
  smallThreshold : c.smallThreshold < 2 ^ 64

def facets : List (Facet RegistryConfig) :=
  [.word "max_idle_objects" (·.maxIdle) fun n c => { c with maxIdle := n },
   .flag "small_object_prefetch" (·.prefetchSmall) fun b c => { c with prefetchSmall := b },
   .word "small_object_threshold" (·.smallThreshold) fun n c => { c with smallThreshold := n }]

theorem faithful : Faithful {} InRange facets where
  names := by decide
  reads := by
    simp only [facets, List.forall_mem_cons]
    exact ⟨reads_word _ fun c h => h.maxIdle, reads_flag _, reads_word _ fun c h => h.smallThreshold, by simp⟩
  copies := by simp [facets, Facet.word, Facet.flag, Facet.of]
  keeps := by simp [facets, Facet.word, Facet.flag, Facet.of, RecordField.of]
  ext a b h := by
    cases a
    cases b
    simpa [facets, Facet.word, Facet.flag, Facet.of] using h

theorem ofJson?_of {c : RegistryConfig} (hc : c.InRange) {j : Json} (h : Abridges (toJson {}) c.toJson j) :
    ofJson? j = some c := faithful.readRecord hc h

end RegistryConfig

namespace Config

/-- The numbers of a configuration fit their words. -/
structure InRange (c : Config) : Prop where
  store : c.store.InRange
  planner : c.planner.InRange
  queue : c.queue.InRange
  footer : c.footer.InRange
  registry : c.registry.InRange

def facets : List (Facet Config) :=
  [.of "block_store" StoreConfig.ofJson? StoreConfig.toJson (·.store) fun s c => { c with store := s },
   .of "planner" PlannerConfig.ofJson? PlannerConfig.toJson (·.planner) fun p c => { c with planner := p },
   .of "scheduler" QueueConfig.ofJson? QueueConfig.toJson (·.queue) fun q c => { c with queue := q },
   .of "footer" FooterConfig.ofJson? FooterConfig.toJson (·.footer) fun f c => { c with footer := f },
   .of "registry" RegistryConfig.ofJson? RegistryConfig.toJson (·.registry) fun r c => { c with registry := r }]

theorem faithful : Faithful {} InRange facets where
  names := by decide
  reads := by
    simp only [facets, List.forall_mem_cons]
    exact ⟨reads_of _ fun c h j hj => StoreConfig.ofJson?_of h.store hj,
      reads_of _ fun c h j hj => PlannerConfig.ofJson?_of h.planner hj,
      reads_of _ fun c h j hj => QueueConfig.ofJson?_of h.queue hj,
      reads_of _ fun c h j hj => FooterConfig.ofJson?_of h.footer hj,
      reads_of _ fun c h j hj => RegistryConfig.ofJson?_of h.registry hj, by simp⟩
  copies := by simp [facets, Facet.of]
  keeps := by simp [facets, Facet.of, RecordField.of]
  ext a b h := by
    cases a
    cases b
    simp only [facets, Facet.of, List.forall_mem_cons] at h
    obtain ⟨h₁, h₂, h₃, h₄, h₅, -⟩ := h
    simp [StoreConfig.faithful.writeRecord_inj h₁, PlannerConfig.faithful.writeRecord_inj h₂,
      QueueConfig.faithful.writeRecord_inj h₃, FooterConfig.faithful.writeRecord_inj h₄,
      RegistryConfig.faithful.writeRecord_inj h₅]

/-- A configuration is read back from any value that gives it. -/
theorem ofJson?_of {c : Config} (hc : c.InRange) {j : Json} (h : Abridges (toJson {}) c.toJson j) :
    ofJson? j = some c := faithful.readRecord hc h

/-- A text that gives a configuration is read as that configuration if it is sound, and as its first
    contradiction if it is not. -/
theorem read_textOf {c : Config} (hc : c.InRange) {j : Json} (hj : Abridges (toJson {}) c.toJson j) {s : String}
    (hs : TextOf j s) :
    (c.validate = .ok () → read s = .ok c) ∧
      ∀ e, c.validate = .error e → ∃ f, e = .invalidConfig f.message ∧ read s = .error (.unsound f) := by
  have hread : (parse s).bind ofJson? = some c := by rw [parse_of_textOf hs, Option.bind_some, ofJson?_of hc hj]
  unfold read validate
  rw [hread]
  cases hf : c.flaw? with
  | none => simp [hf]
  | some f => simp [hf]

/-- Two numbers of two records, the second record first and its name escaped. -/
theorem read_textOf_part :
    read "\x7b\"\\u0070lanner\" : \x7b\"max_readahead_blocks\":16\x7d,\n\"block_store\":\x7b\"block_size\":4096\x7d\x7d" =
      .ok { store := { blockSize := 4096 }, planner := { maxReadahead := 16 } } := by
  have hplanner : Abridges (PlannerConfig.toJson {}) (PlannerConfig.toJson { maxReadahead := 16 })
      (.object [(some "max_readahead_blocks", .ofNat 16)]) :=
    .object (.leave rfl (.leave rfl (.leave rfl (.keep .same (.leave rfl (.leave rfl (.leave rfl .nil))))))) (.refl _)
  have hstore : Abridges (StoreConfig.toJson {}) (StoreConfig.toJson { blockSize := 4096 })
      (.object [(some "block_size", .ofNat 4096)]) :=
    .object (.keep .same (.leave rfl (.leave rfl .nil))) (.refl _)
  have hj : Abridges (toJson {}) (toJson { store := { blockSize := 4096 }, planner := { maxReadahead := 16 } })
      (.object [(some "planner", .object [(some "max_readahead_blocks", .ofNat 16)]),
        (some "block_store", .object [(some "block_size", .ofNat 4096)])]) :=
    .object (.keep hstore (.keep hplanner (.leave rfl (.leave rfl (.leave rfl .nil))))) (.swap _ _ _)
  have none : Blanks [] := by decide
  have blank : Blanks [' '] := by decide
  have newline : Blanks ['\n'] := by decide
  have entry : ∀ (k : String) (n : Nat), Plain k.toList →
      Spells (.object [(some k, .ofNat n)]) _ := fun k n hk =>
    .object (.one none ⟨hk.spellsChars⟩ none none (spells_ofNat n) none)
  have p : Hex4 ['0', '0', '7', '0'] (0 * 16 ^ 3 + 0 * 16 ^ 2 + 7 * 16 + 0) :=
    .mk (.inl rfl) (.inl rfl) (.inl rfl) (.inl rfl)
  have planner : SpellsText "planner" ('"' :: (['\\', 'u', '0', '0', '7', '0'] ++ "lanner".toList) ++ ['"']) :=
    ⟨.cons (.unit p) (Plain.spellsChars (by decide))⟩
  have store : SpellsText "block_store" _ := ⟨Plain.spellsChars (by decide)⟩
  have hc : InRange { store := { blockSize := 4096 }, planner := { maxReadahead := 16 } } := by
    refine ⟨⟨?_, ?_, ?_⟩, ⟨?_, ?_, ?_, ?_, ?_⟩, ⟨?_, ?_, ?_, ⟨?_, ?_, ?_⟩⟩, ⟨?_, ?_, ?_, ?_, ?_⟩, ⟨?_, ?_⟩⟩ <;>
      decide
  exact (read_textOf hc hj (.mk none (.object (.more none planner blank blank
    (entry "max_readahead_blocks" 16 (by decide)) none
    (.one newline store none none (entry "block_size" 4096 (by decide)) none))) none (by decide))).1 (by decide)

end Config

end RangeCache
