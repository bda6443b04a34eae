/-!
# Configuration

The settings of the library and their defaults: the cut of objects into blocks and the memory they may
take, the planning of prefetches, the limits of the fetch queue, how failed transfers are tried again,
which objects have a footer, and how long an object is kept that nobody reads. Sizes are in bytes and
times in milliseconds.
-/

namespace RangeCache

def kib : Nat := 1024

def mib : Nat := 1024 * kib

def gib : Nat := 1024 * mib

/-- The block store of one object. -/
structure StoreConfig where
  /-- The width of the grid that cuts an object into blocks. -/
  blockSize : Nat := 8 * mib
  /-- How many bytes of fetched blocks an object may hold. -/
  memoryBudget : Nat := 256 * mib
  /-- The largest number of adjacent blocks fetched by one job. -/
  maxRun : Nat := 4
  deriving DecidableEq, Repr, Inhabited

/-- Which row groups a plan for columns covers. -/
inductive PrefetchMode where
  /-- None: columns are never planned for. -/
  | off
  /-- The row group being read and every later one. -/
  | all
  /-- The row group being read. -/
  | rowGroup
  deriving DecidableEq, Repr, Inhabited

/-- The planning of prefetches for one stream. -/
structure PlannerConfig where
  /-- How many recent reads a new read is compared with. -/
  accessWindow : Nat := 8
  /-- The largest gap after a recent read that a sequential read may leave. -/
  gapThreshold : Nat := 0
  /-- Blocks read ahead after the first sequential read. -/
  initialReadahead : Nat := 1
  /-- The largest number of blocks read ahead. -/
  maxReadahead : Nat := 8
  /-- Whether recently read columns are planned for when none is declared. -/
  predictive : Bool := false
  /-- How many recently read columns are remembered. -/
  recentColumns : Nat := 15
  mode : PrefetchMode := .rowGroup
  deriving DecidableEq, Repr, Inhabited

/-- How a transfer is tried again after a passing failure. -/
structure RetryConfig where
  /-- The number of attempts, the first one included. -/
  maxAttempts : Nat := 3
  /-- The wait before the second attempt. -/
  initialBackoff : Nat := 100
  /-- The longest wait before an attempt. -/
  maxBackoff : Nat := 2000
  /-- Whether up to a quarter of the wait is added to it at random. -/
  jitter : Bool := false
  deriving DecidableEq, Repr, Inhabited

/-- The fetch queue. -/
structure QueueConfig where
  /-- How many fetches may be on their way. -/
  maxFetches : Nat := 32
  /-- How many fetches of one object may be on their way. -/
  maxFetchesPerObject : Nat := 8
  /-- How many jobs may wait. -/
  maxQueued : Nat := 1024
  retry : RetryConfig := {}
  deriving DecidableEq, Repr, Inhabited

/-- Objects that end in a footer. -/
structure FooterConfig where
  /-- The ends of keys whose objects are expected to have a footer. -/
  suffixes : List String := [".parquet", ".par"]
  /-- Bytes at the end of an object taken to hold its footer. -/
  tailPrefetch : Nat := 32 * kib
  /-- The same for a large object. -/
  largeTailPrefetch : Nat := mib
  /-- The size from which on an object is large. -/
  largeThreshold : Nat := gib
  /-- Whether the footer is loaded when the object is first opened. -/
  prefetchOnOpen : Bool := true
  /-- Whether the bytes before the footer are fetched once it is known. -/
  prefetchPageIndex : Bool := true
  /-- How many of them. -/
  pageIndexPrefetch : Nat := mib
  /-- The same for a large object. -/
  largePageIndexPrefetch : Nat := 8 * mib
  deriving DecidableEq, Repr, Inhabited

/-- The objects that a session keeps. -/
structure RegistryConfig where
  /-- How many objects without an open stream are kept. -/
  maxIdle : Nat := 45
  /-- Whether a small object is fetched whole when it is first opened. -/
  prefetchSmall : Bool := true
  /-- The largest size of a small object. -/
  smallThreshold : Nat := 3 * mib
  deriving DecidableEq, Repr, Inhabited

/-- All settings of a session. -/
structure Config where
  store : StoreConfig := {}
  planner : PlannerConfig := {}
  queue : QueueConfig := {}
  footer : FooterConfig := {}
  registry : RegistryConfig := {}
  deriving DecidableEq, Repr, Inhabited

namespace FooterConfig

/-- An ASCII capital letter becomes its small letter; every other character stays. -/
def foldCase (c : Char) : Char := if 'A' ≤ c ∧ c ≤ 'Z' then Char.ofNat (c.toNat + 32) else c

/-- Whether an object of this key is expected to have a footer: whether the key ends in one of the
    suffixes when the case of ASCII letters is ignored. -/
def isIndexed (c : FooterConfig) (key : String) : Bool :=
  c.suffixes.any fun s => (s.toList.map foldCase).isSuffixOf (key.toList.map foldCase)

/-- Bytes to fetch first from the end of an object of `size` bytes. -/
def tailFor (c : FooterConfig) (size : Nat) : Nat :=
  min (if c.largeThreshold ≤ size then c.largeTailPrefetch else c.tailPrefetch) size

/-- Bytes to fetch from before the footer of an object of `size` bytes. -/
def pageIndexFor (c : FooterConfig) (size : Nat) : Nat :=
  if c.largeThreshold ≤ size then c.largePageIndexPrefetch else c.pageIndexPrefetch

end FooterConfig

end RangeCache
