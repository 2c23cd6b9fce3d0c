/-
`pkg/security/secrets`: the secret manager over a file provider, with the caches of both.

The manager and the provider each lock their own cache for one lookup or one store, and the files are read with no lock
held, so a call of `GetSecret` or of `Refresh` is a sequence of steps between which others run. The state holds every
call made with the point it has reached. The provider's watcher clears the provider's cache at any time.
-/
import Jupiter.Lib.Machine
import Jupiter.Lib.Table
import Jupiter.Manager.Path

namespace Jupiter.Security

open Jupiter.Go Jupiter.Lib Jupiter.Manager

/-! ## The manager's cache -/

structure CacheConfig where
  enabled : Bool
  ttl : Duration
  maxSize : Int

structure CacheEntry where
  value : String
  expiresAt : Time
  deriving DecidableEq

namespace Cache

def get (config : CacheConfig) (entries : List (String × CacheEntry)) (now : Time) (key : String) : Option String :=
  if config.enabled then
    match entries.lookup key with
    | none => none
    | some entry => if now > entry.expiresAt then none else some entry.value
  else none

/-- The entry that expires first, of those `read` in this order. -/
def oldest (read : List (String × CacheEntry)) : Option (String × Time) :=
  read.foldl (fun found x =>
    match found with
    | none => some (x.1, x.2.expiresAt)
    | some (key, time) => if x.2.expiresAt < time then some (x.1, x.2.expiresAt) else some (key, time)) none

/-- The eviction in `Set`: an entry with the empty key stays. -/
def evict (config : CacheConfig) (entries read : List (String × CacheEntry)) : List (String × CacheEntry) :=
  if (entries.length : Int) ≥ config.maxSize then
    match oldest read with
    | none => entries
    | some (oldestKey, _) => if oldestKey ≠ "" then Table.erase oldestKey entries else entries
  else entries

/-- `Set`; the entries are read in the order `read` when one has to be evicted. -/
def set (config : CacheConfig) (entries read : List (String × CacheEntry)) (now : Time) (key value : String) :
    List (String × CacheEntry) :=
  if config.enabled then Table.upsert key (fun _ => ⟨value, now + config.ttl⟩) (evict config entries read)
  else entries

end Cache

/-! ## Files -/

structure File where
  regular : Bool
  perm : Nat
  content : String
  deriving DecidableEq

abbrev Files := Path → Option File

/-- The errors of `FileProvider.GetSecret`, but for those of resolving a path: "invalid secret path: directory traversal
detected", "secret file not found: …", "failed to stat secret file: …", "secret path is not a regular file: …",
"insecure permissions on …: … (expected 0600 or 0400)", "failed to read secret file: …". -/
inductive FileError where
  | traversal
  | notFound (name : String)
  | stat
  | notRegular (name : String)
  | insecurePermissions (path : Path) (mode : Nat)
  | read
  deriving DecidableEq

/-- "secret not found: … (no provider supports this secret)", or "failed to get secret …: …". -/
inductive SecretError where
  | unsupported (name : String)
  | failed (name : String) (err : FileError)
  deriving DecidableEq

namespace FileProvider

/-- `filepath.Join(p.BasePath, name)`; the base path is absolute and clean. -/
def path (base : Path) (name : String) : Path := Path.clean base (Path.segments name)

/-- The check on the path: for the root, the separator is added to one that is there already. -/
def within (base p : Path) : Bool := if base = [] then p = [] else base.isPrefixOf p

/-- `Supports`; `fails` is whether `os.Stat` fails though the file is there. -/
def supports (base : Path) (files : Files) (fails : Bool) (name : String) : Bool :=
  match files (path base name) with
  | none => false
  | some file => !fails && file.regular

def check (base : Path) (files : Files) (fails : Bool) (name : String) : Except FileError Unit :=
  if within base (path base name) then
    if fails then .error .stat
    else
      match files (path base name) with
      | none => .error (.notFound name)
      | some file =>
        if !file.regular then .error (.notRegular name)
        else if file.perm ≠ 0o600 ∧ file.perm ≠ 0o400 then .error (.insecurePermissions (path base name) file.perm)
        else .ok ()
  else .error .traversal

def secret (file : File) : String := String.ofList (Strings.trimSpace file.content.toList)

def readFile (base : Path) (files : Files) (fails : Bool) (name : String) : Except FileError String :=
  match files (path base name) with
  | none => .error .read
  | some file => if fails then .error .read else .ok (secret file)

end FileProvider

/-! ## Calls -/

/-- How far a call of `Manager.GetSecret` has come. -/
inductive GetPhase where
  | started
  | missed
  | supported
  | missedTwice
  | checked
  | read (value : String)
  | provided (value : String)
  | returned (result : Except SecretError String)

/-- `since` is how many states of the files came before the start of the Refresh, among those that had returned when
the call began, that started last. -/
structure GetCall where
  name : String
  since : Nat
  phase : GetPhase

/-- How far a call of `Manager.Refresh` has come; `since` is how many states of the files came before its start. -/
inductive RefreshCall where
  | started (since : Nat)
  | providerCleared (since : Nat)
  | returned
  deriving DecidableEq

structure Secrets where
  files : Files
  managerCache : List (String × CacheEntry) := []
  providerCache : List (String × String) := []
  gets : List GetCall := []
  refreshes : List RefreshCall := []
  /-- The states the files have been in, the current one last. -/
  log : List Files
  /-- The `since` of the Refresh that started last, among those that have returned. -/
  refreshed : Nat := 0

def Secrets.start (files : Files) : Secrets := { files, log := [files] }

inductive SecretStep where
  | getSecret (name : String)
  | cacheGet (call : Nat) (now : Time)
  | supports (call : Nat) (fails : Bool)
  | providerGet (call : Nat)
  | check (call : Nat) (fails : Bool)
  | readFile (call : Nat) (fails : Bool)
  | providerSet (call : Nat)
  | cacheSet (call : Nat) (now : Time) (read : List (String × CacheEntry))
  | refresh
  | providerRefresh (call : Nat)
  | cacheClear (call : Nat)
  | watcher
  | change (files : Files)

namespace Secrets

variable (config : CacheConfig) (base : Path)

/-- What a step of `GetSecret` does to the two caches and to the point its call has reached. -/
def advance (s : Secrets) (name : String) :
    SecretStep → GetPhase → Option (List (String × CacheEntry) × List (String × String) × GetPhase)
  | .cacheGet _ now, .started =>
    match Cache.get config s.managerCache now name with
    | some value => some (s.managerCache, s.providerCache, .returned (.ok value))
    | none => some (s.managerCache, s.providerCache, .missed)
  | .supports _ fails, .missed =>
    if FileProvider.supports base s.files fails name then some (s.managerCache, s.providerCache, .supported)
    else some (s.managerCache, s.providerCache, .returned (.error (.unsupported name)))
  -- `FileProvider.GetSecret`
  | .providerGet _, .supported =>
    match s.providerCache.lookup name with
    | some value => some (s.managerCache, s.providerCache, .provided value)
    | none => some (s.managerCache, s.providerCache, .missedTwice)
  | .check _ fails, .missedTwice =>
    match FileProvider.check base s.files fails name with
    | .error err => some (s.managerCache, s.providerCache, .returned (.error (.failed name err)))
    | .ok () => some (s.managerCache, s.providerCache, .checked)
  | .readFile _ fails, .checked =>
    match FileProvider.readFile base s.files fails name with
    | .error err => some (s.managerCache, s.providerCache, .returned (.error (.failed name err)))
    | .ok value => some (s.managerCache, s.providerCache, .read value)
  | .providerSet _, .read value =>
    some (s.managerCache, Table.upsert name (fun _ => value) s.providerCache, .provided value)
  -- back in the manager
  | .cacheSet _ now read, .provided value =>
    if read.Perm s.managerCache then
      some (Cache.set config s.managerCache read now name value, s.providerCache, .returned (.ok value))
    else none
  | _, _ => none

/-- The call of `GetSecret` a step belongs to. -/
def callOf : SecretStep → Option Nat
  | .cacheGet i _ | .supports i _ | .providerGet i | .check i _ | .readFile i _ | .providerSet i
  | .cacheSet i _ _ => some i
  | _ => none

def stepGet (s : Secrets) (l : SecretStep) (i : Nat) : Option Secrets :=
  match s.gets[i]? with
  | none => none
  | some c =>
    (advance config base s c.name l c.phase).map fun r =>
      { s with managerCache := r.1, providerCache := r.2.1, gets := s.gets.set i { c with phase := r.2.2 } }

def step (s : Secrets) (l : SecretStep) : Option Secrets :=
  match l with
  | .getSecret name => some { s with gets := s.gets ++ [⟨name, s.refreshed, .started⟩] }
  | .refresh => some { s with refreshes := s.refreshes ++ [.started (s.log.length - 1)] }
  | .providerRefresh j =>
    match s.refreshes[j]? with
    | some (.started since) =>
      some { s with providerCache := [], refreshes := s.refreshes.set j (.providerCleared since) }
    | _ => none
  | .cacheClear j =>
    match s.refreshes[j]? with
    | some (.providerCleared since) =>
      some { s with managerCache := [], refreshes := s.refreshes.set j .returned, refreshed := max s.refreshed since }
    | _ => none
  | .watcher => some { s with providerCache := [] }
  | .change files => some { s with files, log := s.log ++ [files] }
  | l => (callOf l).bind (stepGet config base s l)

end Secrets

end Jupiter.Security
