/-
`pkg/limits/storage`: the memory and SQLite backends for limit states.

The memory backend keys a map by the text `dimension:identifier` and stores the state it is given; the SQLite backend
keys its table by the pair and updates a known row in place, all but its creation time. The JSON columns stand for the
states they encode, which `json.Unmarshal` gives back.
-/
import Jupiter.Go.Time
import Jupiter.Lib.Machine
import Jupiter.Lib.Table
import Mathlib.Data.Rat.Defs

namespace Jupiter.Limits.Storage

open Jupiter.Go Jupiter.Lib

/-! ## States -/

structure TokenBucketState where
  capacity : Int
  tokens : Int
  refillRate : Int
  lastRefill : Time
  deriving DecidableEq

structure WindowBucket where
  timestamp : Time
  value : Int
  deriving DecidableEq

/-- A nil slice is `none`. -/
structure SlidingWindowState where
  window : Duration
  buckets : Option (List WindowBucket)
  bucketSize : Duration
  deriving DecidableEq

structure RateLimitState where
  tokenBucket : Option TokenBucketState := none
  slidingWindow : Option SlidingWindowState := none
  concurrent : Int := 0
  maxConcurrent : Int := 0
  deriving DecidableEq

structure BudgetBucket where
  timestamp : Time
  amount : ℚ
  deriving DecidableEq

structure BudgetState where
  hourlyBuckets : Option (List BudgetBucket) := none
  dailyBuckets : Option (List BudgetBucket) := none
  monthlyBuckets : Option (List BudgetBucket) := none
  totalSpent : ℚ := 0
  deriving DecidableEq

structure LimitState where
  identifier : String
  dimension : String
  rateLimit : Option RateLimitState := none
  budget : Option BudgetState := none
  lastUpdated : Time := 0
  createdAt : Time := 0
  deriving DecidableEq

def LimitState.stamped (s : LimitState) (now : Time) : LimitState :=
  { s with
    createdAt := if s.createdAt.isZero then now else s.createdAt
    lastUpdated := if s.lastUpdated.isZero then now else s.lastUpdated }

/-- What both backends answer to empty arguments. -/
def checkNames (identifier dimension : String) : Except String Unit :=
  if identifier = "" then .error "identifier cannot be empty"
  else if dimension = "" then .error "dimension cannot be empty"
  else .ok ()

def checkState : Option LimitState → Except String LimitState
  | none => .error "state cannot be nil"
  | some s =>
    match checkNames s.identifier s.dimension with
    | .error e => .error e
    | .ok () => .ok s

/-! ## MemoryBackend -/

structure MemoryBackend where
  states : List (String × LimitState) := []
  maxEntries : Int
  retentionPeriod : Duration := 24 * Duration.hour

namespace MemoryBackend

def makeKey (identifier dimension : String) : String := dimension ++ ":" ++ identifier

def oldestKey (read : List (String × LimitState)) : Option String :=
  (read.foldl (fun (oldest : Option (String × Time)) x =>
    match oldest with
    | none => some (x.1, x.2.lastUpdated)
    | some o => if x.2.lastUpdated < o.2 then some (x.1, x.2.lastUpdated) else some o) none).map (·.1)

def evictOldest (read states : List (String × LimitState)) : List (String × LimitState) :=
  match oldestKey read with
  | none => states
  | some k => Table.erase k states

/-- `Save`; the map is read in the order `read` when an entry has to go. -/
def save (m : MemoryBackend) (state : Option LimitState) (now : Time) (read : List (String × LimitState)) :
    Except String Unit × MemoryBackend :=
  match checkState state with
  | .error e => (.error e, m)
  | .ok s =>
    let states := if (m.states.length : Int) ≥ m.maxEntries then evictOldest read m.states else m.states
    (.ok (), { m with states := Table.upsert (makeKey s.identifier s.dimension) (fun _ => s.stamped now) states })

def load (m : MemoryBackend) (identifier dimension : String) : Except String (Option LimitState) :=
  match checkNames identifier dimension with
  | .error e => .error e
  | .ok () => .ok (m.states.lookup (makeKey identifier dimension))

def delete (m : MemoryBackend) (identifier dimension : String) : Except String Unit × MemoryBackend :=
  match checkNames identifier dimension with
  | .error e => (.error e, m)
  | .ok () => (.ok (), { m with states := Table.erase (makeKey identifier dimension) m.states })

def list (m : MemoryBackend) (dimension : String) : Except String (List LimitState) :=
  if dimension = "" then .error "dimension cannot be empty"
  else .ok ((m.states.map (·.2)).filter (·.dimension == dimension))

def cleanup (m : MemoryBackend) (olderThan : Time) : Nat × MemoryBackend :=
  (m.states.countP fun x => decide (x.2.lastUpdated < olderThan),
    { m with states := m.states.filter fun x => !decide (x.2.lastUpdated < olderThan) })

/-- What a tick of `cleanupLoop` does. -/
def cleanupExpired (m : MemoryBackend) (now : Time) : MemoryBackend := (m.cleanup (now - m.retentionPeriod)).2

end MemoryBackend

/-! ## SQLiteBackend -/

/-- A row of `limit_states` next to its primary key; the times are Unix seconds. -/
structure Row where
  rateLimitState : Option RateLimitState
  budgetState : Option BudgetState
  lastUpdated : Int
  createdAt : Int
  deriving DecidableEq

/-- The table, by the primary key `(dimension, identifier)`. -/
structure SQLiteBackend where
  rows : List ((String × String) × Row) := []

namespace SQLiteBackend

/-- `time.Unix(sec, 0)`. -/
def ofUnix (sec : Int) : Time := (sec + Time.unixToInternal) * Duration.second

def rowOf (s : LimitState) : Row :=
  { rateLimitState := s.rateLimit, budgetState := s.budget, lastUpdated := Time.unix s.lastUpdated,
    createdAt := Time.unix s.createdAt }

def stateOf (key : String × String) (r : Row) : LimitState :=
  { identifier := key.2, dimension := key.1, rateLimit := r.rateLimitState, budget := r.budgetState,
    lastUpdated := ofUnix r.lastUpdated, createdAt := ofUnix r.createdAt }

/-- The statement of `Save`: an insert, or on a conflict an update of all but `created_at`. -/
def saved (new : Row) : Option Row → Row
  | none => new
  | some old => { new with createdAt := old.createdAt }

def save (b : SQLiteBackend) (state : Option LimitState) (now : Time) : Except String Unit × SQLiteBackend :=
  match checkState state with
  | .error e => (.error e, b)
  | .ok s => (.ok (), { rows := Table.upsert (s.dimension, s.identifier) (saved (rowOf (s.stamped now))) b.rows })

def load (b : SQLiteBackend) (identifier dimension : String) : Except String (Option LimitState) :=
  match checkNames identifier dimension with
  | .error e => .error e
  | .ok () => .ok ((b.rows.lookup (dimension, identifier)).map (stateOf (dimension, identifier)))

def delete (b : SQLiteBackend) (identifier dimension : String) : Except String Unit × SQLiteBackend :=
  match checkNames identifier dimension with
  | .error e => (.error e, b)
  | .ok () => (.ok (), { rows := Table.erase (dimension, identifier) b.rows })

def list (b : SQLiteBackend) (dimension : String) : Except String (List LimitState) :=
  if dimension = "" then .error "dimension cannot be empty"
  else .ok ((b.rows.filter (·.1.1 == dimension)).map fun x => stateOf x.1 x.2)

def cleanup (b : SQLiteBackend) (olderThan : Time) : Nat × SQLiteBackend :=
  (b.rows.countP fun x => decide (x.2.lastUpdated < Time.unix olderThan),
    { rows := b.rows.filter fun x => !decide (x.2.lastUpdated < Time.unix olderThan) })

end SQLiteBackend

/-! ## Both backends under the same calls -/

/-- A call; `now` is the reading of the clock and `read` the order in which the map is read. Between the calls, the
memory backend's own goroutine ticks. -/
inductive Call where
  | save (state : Option LimitState) (now : Time) (read : List (String × LimitState))
  | load (identifier dimension : String)
  | delete (identifier dimension : String)
  | list (dimension : String)
  | cleanup (olderThan : Time)
  | tick (now : Time)

inductive Result where
  | done (err : Except String Unit)
  | loaded (state : Except String (Option LimitState))
  | listed (states : Except String (List LimitState))
  | deleted (n : Nat)

def Result.Same : Result → Result → Prop
  | .listed (.ok l), .listed (.ok l') => l.Perm l'
  | r, r' => r = r'

/-- The two backends side by side; `results` are the answers so far, the latest first. -/
structure Backends where
  memory : MemoryBackend
  sqlite : SQLiteBackend := {}
  results : List (Result × Result) := []

def Backends.next (b : Backends) : Call → Backends
  | .save state now read =>
    let m := b.memory.save state now read
    let q := b.sqlite.save state now
    { memory := m.2, sqlite := q.2, results := (.done m.1, .done q.1) :: b.results }
  | .load identifier dimension =>
    { b with results := (.loaded (b.memory.load identifier dimension), .loaded (b.sqlite.load identifier dimension)) ::
        b.results }
  | .delete identifier dimension =>
    let m := b.memory.delete identifier dimension
    let q := b.sqlite.delete identifier dimension
    { memory := m.2, sqlite := q.2, results := (.done m.1, .done q.1) :: b.results }
  | .list dimension =>
    { b with results := (.listed (b.memory.list dimension), .listed (b.sqlite.list dimension)) :: b.results }
  | .cleanup olderThan =>
    let m := b.memory.cleanup olderThan
    let q := b.sqlite.cleanup olderThan
    { memory := m.2, sqlite := q.2, results := (.deleted m.1, .deleted q.1) :: b.results }
  | .tick now => { b with memory := b.memory.cleanupExpired now }

def Backends.step (b : Backends) (c : Call) : Option Backends := some (b.next c)

end Jupiter.Limits.Storage
