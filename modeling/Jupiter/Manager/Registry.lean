/-
`pkg/policy/manager/registry.go`: the policies in force, by name, and the version computed from them.

The map from names is an association list without repeated keys. No policy of the list given to `Replace` is nil, so
that check is left out there; the digest is a parameter.
-/
import Jupiter.Lib.Table
import Jupiter.Manager.Resolver

namespace Jupiter.Manager

open Jupiter.Go Jupiter.Lib

/-- `fmt.Sprintf("%x", sha256.Sum256(...))`. -/
abbrev Digest := String → String

structure RegistryError where
  policyID : String := ""
  operation : String
  message : String
  deriving DecidableEq

structure PolicyRegistry where
  policies : List (String × Policy) := []
  version : String := ""
  loadTime : Time

namespace PolicyRegistry

def put (policies : List (String × Policy)) (policy : Policy) : List (String × Policy) :=
  Table.erase policy.name policies ++ [(policy.name, policy)]

def get (r : PolicyRegistry) (name : String) : Option Policy := r.policies.lookup name

/-- The bytes `updateVersion` hashes: name, version and source file of each policy, in the order of the names. -/
def versionInput (policies : List (String × Policy)) : String :=
  String.join (((policies.map Prod.fst).mergeSort (· ≤ ·)).map fun name =>
    match policies.lookup name with
    | some policy => policy.name ++ policy.version ++ policy.sourceFile
    | none => "")

def versionOf (sha256 : Digest) (policies : List (String × Policy)) : String :=
  String.ofList ((sha256 (versionInput policies)).toList.take 16)

def ofList (policies : List Policy) : List (String × Policy) := policies.foldl put []

/-- `Replace`: the error, if there is one, and the registry left behind. A nil list is `none`. -/
def replace (sha256 : Digest) (now : Time) (r : PolicyRegistry) (policies : Option (List Policy)) :
    Option RegistryError × PolicyRegistry :=
  match policies with
  | none => (some { operation := "replace", message := "policies cannot be nil" }, r)
  | some policies =>
    if ∃ policy ∈ policies, policy.name = "" then
      (some { operation := "replace", message := "policy name cannot be empty" }, r)
    else
      (none, { policies := ofList policies, version := versionOf sha256 (ofList policies), loadTime := now })

/-! ## Single changes -/

/-- The check of a policy that is to be stored; nil is `none`. -/
def refusal (operation : String) : Option Policy → Option RegistryError
  | none => some { operation, message := "policy cannot be nil" }
  | some policy => if policy.name = "" then some { operation, message := "policy name cannot be empty" } else none

def updateVersion (sha256 : Digest) (r : PolicyRegistry) : PolicyRegistry :=
  { r with version := versionOf sha256 r.policies }

/-- `RegisterMultiple`: all policies are checked before the first is stored. -/
def registerMultiple (sha256 : Digest) (r : PolicyRegistry) (policies : List (Option Policy)) :
    Option RegistryError × PolicyRegistry :=
  if policies.isEmpty then (none, r)
  else
    match policies.findSome? (refusal "register_multiple") with
    | some err => (some err, r)
    | none => (none, updateVersion sha256 { r with policies := policies.reduceOption.foldl put r.policies })

def register (sha256 : Digest) (r : PolicyRegistry) : Option Policy → Option RegistryError × PolicyRegistry
  | none => (refusal "register" none, r)
  | some policy =>
    match refusal "register" (some policy) with
    | some err => (some err, r)
    | none => (none, updateVersion sha256 { r with policies := put r.policies policy })

def unregister (sha256 : Digest) (r : PolicyRegistry) (name : String) : Option RegistryError × PolicyRegistry :=
  match r.policies.lookup name with
  | none => (some { policyID := name, operation := "unregister", message := "policy not found" }, r)
  | some _ => (none, updateVersion sha256 { r with policies := Table.erase name r.policies })

def clear (sha256 : Digest) (r : PolicyRegistry) : PolicyRegistry := updateVersion sha256 { r with policies := [] }

/-! ## What a name is mapped to -/

def lastNamed (name : String) (policies : List Policy) : Option Policy :=
  policies.reverse.find? fun policy => policy.name = name

theorem lookup_put (policies : List (String × Policy)) (policy : Policy) (name : String) :
    (put policies policy).lookup name = if policy.name = name then some policy else policies.lookup name := by
  rw [put, List.lookup_append, Table.lookup_cons_ite]
  by_cases h : policy.name = name
  · subst h
    simp [Table.lookup_erase_self]
  · simp [Table.lookup_erase_ne (Ne.symm h), h]

theorem lookup_foldl_put (policies : List Policy) (acc : List (String × Policy)) (name : String) :
    (policies.foldl put acc).lookup name = (lastNamed name policies).or (acc.lookup name) := by
  induction policies generalizing acc with
  | nil => simp [lastNamed]
  | cons policy policies ih =>
    rw [List.foldl_cons, ih, lookup_put]
    unfold lastNamed
    rw [List.reverse_cons, List.find?_append, Option.or_assoc]
    by_cases h : policy.name = name <;> simp [h]

theorem lookup_ofList (policies : List Policy) (name : String) :
    (ofList policies).lookup name = lastNamed name policies := by
  rw [ofList, lookup_foldl_put]
  simp

theorem lastNamed_cons (name : String) (policy : Policy) (policies : List Policy) :
    lastNamed name (policy :: policies) =
      (lastNamed name policies).or (if policy.name = name then some policy else none) := by
  unfold lastNamed
  rw [List.reverse_cons, List.find?_append]
  by_cases h : policy.name = name <;> simp [h]

theorem lastNamed_append (name : String) (policies policies' : List Policy) :
    lastNamed name (policies ++ policies') = (lastNamed name policies').or (lastNamed name policies) := by
  unfold lastNamed
  rw [List.reverse_append, List.find?_append]

theorem lastNamed_eq_none {name : String} {policies : List Policy} :
    lastNamed name policies = none ↔ ∀ policy ∈ policies, policy.name ≠ name := by
  unfold lastNamed
  simp

theorem lastNamed_eq_some {name : String} {policies : List Policy} {policy : Policy}
    (h : lastNamed name policies = some policy) : policy ∈ policies ∧ policy.name = name := by
  unfold lastNamed at h
  exact ⟨List.mem_reverse.1 (List.mem_of_find?_eq_some h), by simpa using List.find?_some h⟩

end PolicyRegistry

end Jupiter.Manager
