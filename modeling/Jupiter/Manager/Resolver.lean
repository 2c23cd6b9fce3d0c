/-
`pkg/policy/manager/resolver.go`: resolving the includes of policy files into a dependency graph, and the load order.

The loader and the resolution of links are parameters. Go maps are association lists or lists of keys; the order in
which `topologicalSort` ranges over the nodes is a parameter too. The recursion of `resolveFile` is bounded by
the depth it may still reach, that of `visit` by the number of paths in the graph.
-/
import Jupiter.Lib.DepthFirst
import Jupiter.Manager.Path
import Jupiter.Mpl.Ast

namespace Jupiter.Manager

open Jupiter.Go Jupiter.Lib

/-- An `ast.Policy`, with the fields that only the policy manager reads. -/
structure Policy extends Mpl.Policy where
  sourceFile : String := ""
  includes : List String := []

inductive LinkError where
  | notExist
  | other (message : String)
  deriving DecidableEq

/-- What the resolver asks the file system: a path with all links resolved, whether a path is a directory, and the
policy in a file, as `LoadFromFile` returns it. -/
structure FileSystem where
  evalSymlinks : Path → Except LinkError Path
  isDir : Path → Bool
  loadFromFile : Path → Except String Policy

structure IncludeError where
  filePath : Path
  includePath : Option Path := none
  cycle : List Path := []
  message : String
  deriving DecidableEq

inductive ResolveError where
  | include (e : IncludeError)
  | load (message : String)
  | outOfFuel
  deriving DecidableEq

/-! ## Paths -/

/-- `normalizePath`: the canonical path; one that does not exist is left as it is. -/
def FileSystem.normalizePath (fs : FileSystem) (path : Path) : Except String Path :=
  match fs.evalSymlinks path with
  | .ok realPath => .ok realPath
  | .error .notExist => .ok path
  | .error (.other message) => .error message

def resolveIncludePath (currentPath : Path) (includePath : String) : Path :=
  Path.absolute currentPath.dir includePath

def traversalMessage : String := "include path outside of policy directory (directory traversal prevented)"

def validateIncludePath (basePath includePath : Path) : Except IncludeError Unit :=
  if Strings.startsWith (Path.rel basePath includePath) ".." then
    .error { filePath := includePath, includePath := some includePath, message := traversalMessage }
  else .ok ()

/-- The base path that `NewIncludeResolver` keeps. -/
def FileSystem.normalizeBase (fs : FileSystem) (basePath : Path) : Path :=
  match fs.evalSymlinks basePath with
  | .ok realPath => realPath
  | .error _ => basePath

/-- The base path of the resolver that `NewPolicyManager` makes for `config.FilePath`. -/
def FileSystem.resolverBase (fs : FileSystem) (cwd : Path) (filePath : String) : Path :=
  fs.normalizeBase (Path.absoluteDir cwd (if filePath = "" then "." else filePath))

/-! ## The graph -/

structure PolicyNode where
  policy : Policy
  filePath : Path
  includes : List Path := []
  includedBy : List Path := []
  depth : Nat

/-- The maps of `DependencyGraph`, and the resolver's own. -/
structure ResolverState where
  nodes : List (Path × PolicyNode) := []
  edges : Path → List Path := fun _ => []
  visited : List Path := []
  visiting : List Path := []

namespace ResolverState

/-- `includedNode.IncludedBy = append(...)`, if there is a node under that key. -/
def addIncludedBy (st : ResolverState) (key includer : Path) : ResolverState :=
  { st with nodes := st.nodes.map fun kn =>
      if kn.1 = key then (kn.1, { kn.2 with includedBy := kn.2.includedBy ++ [includer] }) else kn }

def finish (st : ResolverState) (path : Path) (node : PolicyNode) : ResolverState where
  nodes := st.nodes ++ [(path, node)]
  edges := fun p => if p = path then node.includes else st.edges p
  visited := st.visited ++ [path]
  visiting := st.visiting.erase path

end ResolverState

/-- `buildCycle`, for one order of the map. -/
def buildCycle (visiting : List Path) (startPath : Path) : List Path :=
  startPath :: visiting.filter (· ≠ startPath) ++ [startPath]

section Resolve

variable (fs : FileSystem) (basePath : Path)

def resolveIncludes (resolve : Path → ResolverState → Except ResolveError Unit × ResolverState) (path : Path) :
    List String → PolicyNode → ResolverState → Except ResolveError PolicyNode × ResolverState
  | [], node, st => (.ok node, st)
  | includePath :: includes, node, st =>
    let resolvedPath := resolveIncludePath path includePath
    match validateIncludePath basePath resolvedPath with
    | .error e => (.error (.include e), st)
    | .ok () =>
      match resolve resolvedPath st with
      | (.error e, st) => (.error e, st)
      | (.ok (), st) =>
        resolveIncludes resolve path includes { node with includes := node.includes ++ [resolvedPath] }
          (st.addIncludedBy resolvedPath path)

/-- `resolveFile` at a depth from which it may go down `fuel - 1` more levels. -/
def resolveFile (maxIncludeDepth : Int) :
    Nat → Path → Nat → ResolverState → Except ResolveError Unit × ResolverState
  | fuel, path, depth, st =>
    match fs.normalizePath path with
    | .error _ => (.error (.include { filePath := path, message := "failed to normalize path" }), st)
    | .ok normalizedPath =>
      if normalizedPath ∈ st.visited then (.ok (), st)
      else if normalizedPath ∈ st.visiting then
        (.error (.include { filePath := normalizedPath, cycle := buildCycle st.visiting normalizedPath
                            message := "circular include detected" }), st)
      else
        match fuel with
        | 0 =>
          (.error (.include { filePath := normalizedPath
                              message := "include depth " ++ toString depth ++ " exceeds maximum " ++
                                toString maxIncludeDepth }), st)
        | fuel + 1 =>
          let st := { st with visiting := normalizedPath :: st.visiting }
          match fs.loadFromFile normalizedPath with
          | .error message => (.error (.load message), st)
          | .ok policy =>
            let node : PolicyNode := { policy, filePath := normalizedPath, depth }
            match resolveIncludes basePath (fun p st => resolveFile maxIncludeDepth fuel p (depth + 1) st)
                normalizedPath policy.includes node st with
            | (.error e, st) => (.error e, st)
            | (.ok node, st) => (.ok (), st.finish normalizedPath node)

def resolveRoots (maxIncludeDepth : Int) :
    List Path → ResolverState → Except ResolveError Unit × ResolverState
  | [], st => (.ok (), st)
  | path :: paths, st =>
    match resolveFile fs basePath maxIncludeDepth (maxIncludeDepth + 1).toNat path 0 st with
    | (.error e, st) => (.error e, st)
    | (.ok (), st) => resolveRoots maxIncludeDepth paths st

def ResolverState.paths (st : ResolverState) : List Path :=
  st.nodes.map Prod.fst ++ st.nodes.flatMap fun kn => st.edges kn.1

/-- `topologicalSort`, with the nodes visited in the given order. -/
def ResolverState.topologicalSort (st : ResolverState) (order : List Path) : Except ResolveError (List Path) :=
  match DepthFirst.sort st.edges st.paths.length order with
  | .ok sortedPaths => .ok sortedPaths
  | .error (.cycle path) =>
    .error (.include { filePath := path, message := "circular dependency detected during topological sort" })
  | .error .outOfFuel => .error .outOfFuel  -- never: the search has as much fuel as there are paths

/-- `ResolveMultiple`, when ranging over the nodes of the graph gives `order`: the sorted paths, and the graph. -/
def resolveMultiple (maxIncludeDepth : Int) (order : ResolverState → List Path) (paths : List Path) :
    Except ResolveError (List Path) × ResolverState :=
  match resolveRoots fs basePath maxIncludeDepth paths {} with
  | (.error e, st) => (.error e, st)
  | (.ok (), st) => (st.topologicalSort (order st), st)

end Resolve

end Jupiter.Manager
