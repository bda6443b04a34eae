import RangeCache.Config.Check
import RangeCache.Json.Reader
import RangeCache.Json.Record
import RangeCache.Json.Writer

/-!
# Configurations in JSON

A configuration is a record of records. A text that is no configuration is told apart from one whose
values contradict each other; what is left out has its default.
-/

namespace RangeCache

open Json (RecordField readRecord)

namespace StoreConfig

def fields : List (RecordField StoreConfig) :=
  [.word "block_size" fun n c => { c with blockSize := n },
   .word "memory_budget_bytes" fun n c => { c with memoryBudget := n },
   .word "max_coalesced_blocks" fun n c => { c with maxRun := n }]

def toJson (c : StoreConfig) : Json :=
  .ofEntries [("block_size", .ofNat c.blockSize), ("memory_budget_bytes", .ofNat c.memoryBudget),
    ("max_coalesced_blocks", .ofNat c.maxRun)]

def ofJson? : Json → Option StoreConfig := readRecord fields {}

end StoreConfig

namespace PrefetchMode

def name : PrefetchMode → String
  | off => "off"
  | all => "all"
  | rowGroup => "row_group"

def ofName? (s : String) : Option PrefetchMode := [off, all, rowGroup].find? (·.name == s)

/-- Reads a mode: its name, or an object that gives nothing under its name. -/
def ofJson? : Json → Option PrefetchMode
  | .string (some s) => ofName? s
  | .object [(some s, .null)] => ofName? s
  | _ => none

end PrefetchMode

namespace PlannerConfig

/-- The fields of a planner configuration, in order. -/
def fields : List (RecordField PlannerConfig) :=
  [.word "access_window" fun n c => { c with accessWindow := n },
   .word "sequential_gap_threshold" fun n c => { c with gapThreshold := n },
   .word "initial_readahead_blocks" fun n c => { c with initialReadahead := n },
   .word "max_readahead_blocks" fun n c => { c with maxReadahead := n },
   .flag "predictive_column_prefetch" fun b c => { c with predictive := b },
   .word "column_access_store_size" fun n c => { c with recentColumns := n },
   .of "prefetch_mode" PrefetchMode.ofJson? fun m c => { c with mode := m }]

def toJson (c : PlannerConfig) : Json :=
  .ofEntries [("access_window", .ofNat c.accessWindow), ("sequential_gap_threshold", .ofNat c.gapThreshold),
    ("initial_readahead_blocks", .ofNat c.initialReadahead),
    ("max_readahead_blocks", .ofNat c.maxReadahead), ("predictive_column_prefetch", .bool c.predictive),
    ("column_access_store_size", .ofNat c.recentColumns), ("prefetch_mode", .ofText c.mode.name)]

def ofJson? : Json → Option PlannerConfig := readRecord fields {}

end PlannerConfig

namespace RetryConfig

/-- The fields of a retry configuration, in order. The number of attempts is below `2 ^ 32`. -/
def fields : List (RecordField RetryConfig) :=
  [.of "max_attempts" (Json.natBelow? 0x100000000) fun n c => { c with maxAttempts := n },
   .word "initial_backoff_ms" fun n c => { c with initialBackoff := n },
   .word "max_backoff_ms" fun n c => { c with maxBackoff := n },
   .flag "jitter" fun b c => { c with jitter := b }]

def toJson (c : RetryConfig) : Json :=
  .ofEntries [("max_attempts", .ofNat c.maxAttempts), ("initial_backoff_ms", .ofNat c.initialBackoff),
    ("max_backoff_ms", .ofNat c.maxBackoff), ("jitter", .bool c.jitter)]

def ofJson? : Json → Option RetryConfig := readRecord fields {}

end RetryConfig

namespace QueueConfig

def fields : List (RecordField QueueConfig) :=
  [.word "max_concurrent_fetches" fun n c => { c with maxFetches := n },
   .word "max_concurrent_fetches_per_object" fun n c => { c with maxFetchesPerObject := n },
   .word "max_queued_fetches" fun n c => { c with maxQueued := n },
   .of "retry" RetryConfig.ofJson? fun r c => { c with retry := r }]

def toJson (c : QueueConfig) : Json :=
  .ofEntries [("max_concurrent_fetches", .ofNat c.maxFetches),
    ("max_concurrent_fetches_per_object", .ofNat c.maxFetchesPerObject),
    ("max_queued_fetches", .ofNat c.maxQueued), ("retry", c.retry.toJson)]

def ofJson? : Json → Option QueueConfig := readRecord fields {}

end QueueConfig

namespace FooterConfig

def suffixes? (j : Json) : Option (List String) := do (← j.items?).mapM Json.text?

/-- The fields of a footer configuration, in order. -/
def fields : List (RecordField FooterConfig) :=
  [.of "file_suffixes" suffixes? fun l c => { c with suffixes := l },
   .word "tail_prefetch_bytes" fun n c => { c with tailPrefetch := n },
   .word "large_object_tail_prefetch_bytes" fun n c => { c with largeTailPrefetch := n },
   .word "large_object_threshold" fun n c => { c with largeThreshold := n },
   .flag "prefetch_footer_on_open" fun b c => { c with prefetchOnOpen := b },
   .flag "prefetch_page_index" fun b c => { c with prefetchPageIndex := b },
   .word "page_index_prefetch_bytes" fun n c => { c with pageIndexPrefetch := n },
   .word "large_object_page_index_prefetch_bytes" fun n c => { c with largePageIndexPrefetch := n }]

def toJson (c : FooterConfig) : Json :=
  .ofEntries [("file_suffixes", .array (c.suffixes.map .ofText)),
    ("tail_prefetch_bytes", .ofNat c.tailPrefetch),
    ("large_object_tail_prefetch_bytes", .ofNat c.largeTailPrefetch),
    ("large_object_threshold", .ofNat c.largeThreshold), ("prefetch_footer_on_open", .bool c.prefetchOnOpen),
    ("prefetch_page_index", .bool c.prefetchPageIndex),
    ("page_index_prefetch_bytes", .ofNat c.pageIndexPrefetch),
    ("large_object_page_index_prefetch_bytes", .ofNat c.largePageIndexPrefetch)]

def ofJson? : Json → Option FooterConfig := readRecord fields {}

end FooterConfig

namespace RegistryConfig

/-- The fields of a registry configuration, in order. -/
def fields : List (RecordField RegistryConfig) :=
  [.word "max_idle_objects" fun n c => { c with maxIdle := n },
   .flag "small_object_prefetch" fun b c => { c with prefetchSmall := b },
   .word "small_object_threshold" fun n c => { c with smallThreshold := n }]

def toJson (c : RegistryConfig) : Json :=
  .ofEntries [("max_idle_objects", .ofNat c.maxIdle), ("small_object_prefetch", .bool c.prefetchSmall),
    ("small_object_threshold", .ofNat c.smallThreshold)]

def ofJson? : Json → Option RegistryConfig := readRecord fields {}

end RegistryConfig

namespace Config

def fields : List (RecordField Config) :=
  [.of "block_store" StoreConfig.ofJson? fun s c => { c with store := s },
   .of "planner" PlannerConfig.ofJson? fun p c => { c with planner := p },
   .of "scheduler" QueueConfig.ofJson? fun q c => { c with queue := q },
   .of "footer" FooterConfig.ofJson? fun f c => { c with footer := f },
   .of "registry" RegistryConfig.ofJson? fun r c => { c with registry := r }]

/-- The settings of a configuration, each under its own name. -/
def settings : List (RecordField Config) :=
  StoreConfig.fields.map (.within (·.store) fun s c => { c with store := s }) ++
  PlannerConfig.fields.map (.within (·.planner) fun p c => { c with planner := p }) ++
  QueueConfig.fields.map (.within (·.queue) fun q c => { c with queue := q }) ++
  RetryConfig.fields.map (.within (·.queue.retry) fun r c => { c with queue := { c.queue with retry := r } }) ++
  FooterConfig.fields.map (.within (·.footer) fun f c => { c with footer := f }) ++
  RegistryConfig.fields.map (.within (·.registry) fun r c => { c with registry := r })

def set? (c : Config) (name : String) (value : Json) : Option Config := do
  (← settings.find? (·.name == name)).set value c

/-- The value of a configuration, with every field given. -/
def toJson (c : Config) : Json :=
  .ofEntries [("block_store", c.store.toJson), ("planner", c.planner.toJson), ("scheduler", c.queue.toJson),
    ("footer", c.footer.toJson), ("registry", c.registry.toJson)]

/-- Reads a configuration, whether or not it is sound. -/
def ofJson? : Json → Option Config := readRecord fields {}

/-- Why a text gives no configuration that can be used. -/
inductive ReadError where
  /-- The text is no value of JSON, or its value is no configuration. -/
  | malformed
  /-- The configuration contradicts itself. -/
  | unsound (f : ConfigFlaw)
  deriving DecidableEq, Repr, Inhabited

/-- Reads a sound configuration from a text. A malformed text is reported before a contradiction. -/
def read (s : String) : Except ReadError Config :=
  match (Json.parse s).bind ofJson? with
  | none => .error .malformed
  | some c =>
    match c.flaw? with
    | none => .ok c
    | some f => .error (.unsound f)

end Config

end RangeCache
