/-
Which files `FileProvider.GetSecret` reads in a tree with symbolic links.

The path that a name stands for is compared with the base path as it is written, and `os.Stat` and `os.ReadFile` follow
its links afterwards. For the root as base path the comparison fails for every file.
-/
import Jupiter.Manager.Symlinks
import Jupiter.Security.Secrets

namespace Jupiter.Security

open Jupiter.Manager

/-- A tree with links, and what `os.Stat` and `os.ReadFile` tell of a file in it, by its canonical path. -/
structure SecretTree where
  tree : LinkedTree
  file : Path → File

namespace SecretTree

open FileProvider (path within check)

/-- Where the path leads. The kernel follows 40 links. -/
def resolve (t : SecretTree) (p : Path) : Except String Path := t.tree.root.resolveLinks 40 [] p

def files (t : SecretTree) : Files := fun p =>
  match t.resolve p with
  | .error _ => none
  | .ok q =>
    match t.tree.root.find q with
    | some (.file _) => some (t.file q)
    | _ => some { regular := false, perm := 0, content := "" }

/-- A regular file that only its owner can read. -/
def IsSecret (t : SecretTree) (q : Path) : Prop :=
  (∃ content, t.tree.root.find q = some (.file content)) ∧ (t.file q).regular = true ∧
    ((t.file q).perm = 0o600 ∨ (t.file q).perm = 0o400)

/-- `GetSecret` goes on to read the file. -/
def Reads (t : SecretTree) (base : Path) (name : String) : Prop := check base t.files false name = .ok ()

/-- The path ends with a file, not with a link to one. -/
def EndsInFile (t : SecretTree) (p : Path) : Prop :=
  ∃ d last content, t.resolve p.dir = .ok d ∧ p.getLast? = some last ∧
    t.tree.root.find (d ++ [last]) = some (.file content)

/-- Whatever is read is a secret inside the base directory, links resolved, and not a link. -/
def Confined (t : SecretTree) (base real : Path) : Prop :=
  ∀ name, t.Reads base name → ∃ q, t.resolve (path base name) = .ok q ∧ real <+: q ∧
    t.EndsInFile (path base name) ∧ t.IsSecret q

/-- The secrets in the base directory itself are read under their names. -/
def ReadsOwn (t : SecretTree) (base real : Path) : Prop :=
  ∀ name, Path.segments name = [name] → t.IsSecret (real ++ [name]) → t.Reads base name

/-- A path below the base path that leads to a secret does not end in a link, and its directory, links resolved, is
inside the base directory. -/
def NoLinkOut (t : SecretTree) (base real : Path) : Prop :=
  ∀ name q, within base (path base name) = true →
    t.resolve (path base name) = .ok q → t.IsSecret q →
    ∀ d last, t.resolve (path base name).dir = .ok d → (path base name).getLast? = some last →
      real <+: d ∧ ∀ target, t.tree.root.find (d ++ [last]) ≠ some (.symlink target)

variable {t : SecretTree} {base real p q : Path} {name : String} {top entries : Entries}

theorem check_eq_ok {files : Files} : check base files false name = .ok () ↔
    within base (path base name) = true ∧ ∃ file,
      files (path base name) = some file ∧ file.regular = true ∧ (file.perm = 0o600 ∨ file.perm = 0o400) := by
  unfold check
  by_cases hin : within base (path base name) = true
  · rw [if_pos hin]
    cases hfile : files (path base name) with
    | none => simp
    | some file =>
      by_cases hregular : file.regular = true <;> by_cases hperm : file.perm = 0o600 ∨ file.perm = 0o400 <;>
        simp_all [or_iff_not_imp_left]
  · simp [hin]

theorem reads_iff : t.Reads base name ↔ within base (path base name) = true ∧
    ∃ q, t.resolve (path base name) = .ok q ∧ t.IsSecret q := by
  rw [Reads, check_eq_ok]
  refine and_congr_right fun _ => ?_
  unfold files IsSecret
  cases t.resolve (path base name) with
  | error e => simp
  | ok q =>
    rcases hfind : t.tree.root.find q with _ | ⟨content⟩ | target | entries <;> simp [hfind]

/-- A path that leads to a file ends in a file of its directory or in a link. -/
theorem resolve_file (hroot : t.tree.root = .dir top) (hq : t.resolve p = .ok q) {content : Content}
    (hfile : t.tree.root.find q = some (.file content)) :
    ∃ d last, t.resolve p.dir = .ok d ∧ p.getLast? = some last ∧
      (q = d ++ [last] ∨ ∃ target, t.tree.root.find (d ++ [last]) = some (.symlink target)) := by
  have hstart : t.tree.root.find [] = some (.dir top) := by rw [Node.find, hroot]
  rcases List.eq_nil_or_concat p with rfl | ⟨p, last, rfl⟩
  · cases hq
    cases hstart.symm.trans hfile
  · rw [List.concat_eq_append] at hq ⊢
    rcases Node.resolveLinks_extends last hroot 40 [] p ⟨top, hstart⟩ with
      ⟨d, entries, next, hd, hdir, hext⟩ | ⟨⟨e, herr⟩, -⟩
    · refine ⟨d, last, by rw [Path.dir, List.dropLast_concat]; exact hd, List.getLast?_concat, ?_⟩
      have hstep := hext.symm.trans hq
      simp only [Node.walkSymlinks] at hstep
      split at hstep
      · cases hstep
        cases hdir.symm.trans hfile
      · split at hstep
        · cases hstep
          obtain ⟨entries', hup⟩ := Node.find_dir_dir hdir
          cases hup.symm.trans hfile
        · split at hstep
          · cases hstep
          · rename_i target hlink
            exact .inr ⟨target, hlink⟩
          · cases hstep
            exact .inl rfl
          · cases hstep
            exact .inl rfl
    · cases herr.symm.trans hq

theorem resolve_concat (hroot : t.tree.root = .dir top) (hreal : t.resolve p = .ok real) {content : Content}
    (hfile : t.tree.root.find (real ++ [name]) = some (.file content)) :
    t.resolve (p ++ [name]) = .ok (real ++ [name]) := by
  obtain ⟨entries, hdir⟩ := Node.find_dir_of_find hfile
  have hname := t.tree.named.find hfile name (by simp)
  rcases Node.resolveLinks_extends name hroot 40 [] p ⟨top, by rw [Node.find, hroot]⟩ with
    ⟨d, entries', next, hd, -, hext⟩ | ⟨-, hnot⟩
  · cases hd.symm.trans hreal
    refine hext.trans ?_
    simp_all [Node.walkSymlinks]
  · exact absurd hdir (hnot real entries hreal)

theorem path_of_secret (base real : Path) (h : t.IsSecret (real ++ [name])) (hname : Path.segments name = [name]) :
    path base name = base ++ [name] := by
  obtain ⟨⟨content, hfile⟩, -⟩ := h
  have hnamed := t.tree.named.find hfile name (by simp)
  simp_all [path, Path.clean]

/-- For a base path that is a directory, links resolved: what is read are secrets inside it and no links, and its own
secrets are read, exactly when no path below it leads to a secret by a link in the last place or out of it, and it is
not the root or the root has no secrets of its own. -/
theorem secrets_confined_iff (hroot : t.tree.root = .dir top) (hreal : t.resolve base = .ok real)
    (hdir : t.tree.root.find real = some (.dir entries)) :
    t.Confined base real ∧ t.ReadsOwn base real ↔
      t.NoLinkOut base real ∧ (base = [] → ∀ name, Path.segments name = [name] → ¬ t.IsSecret [name]) := by
  constructor
  · rintro ⟨hconfined, hown⟩
    constructor
    · intro name q hin hq hsecret d last hd hlast
      obtain ⟨q', hq', hinside, ⟨d', last', content, hd', hlast', hfile⟩, -⟩ :=
        hconfined name (reads_iff.2 ⟨hin, q, hq, hsecret⟩)
      cases hq'.symm.trans hq
      cases hd'.symm.trans hd
      cases hlast'.symm.trans hlast
      refine ⟨?_, fun target hlink => by cases hfile.symm.trans hlink⟩
      obtain ⟨⟨_, hqfile⟩, -⟩ := hsecret
      obtain ⟨d', last', hd', hlast', heq | ⟨target, hlink⟩⟩ := resolve_file hroot hq hqfile
      · cases hd'.symm.trans hd
        cases hlast'.symm.trans hlast
        subst heq
        rcases List.prefix_concat_iff.1 hinside with heq | hinside
        · rw [heq, hfile] at hdir
          cases hdir
        · exact hinside
      · cases hd'.symm.trans hd
        cases hlast'.symm.trans hlast
        cases hfile.symm.trans hlink
    · rintro rfl name hname hsecret
      cases hreal
      have hin := (reads_iff.1 (hown name hname hsecret)).1
      rw [path_of_secret [] [] hsecret hname] at hin
      simp [within] at hin
  · rintro ⟨hlinks, hnotRoot⟩
    constructor
    · intro name hreads
      obtain ⟨hin, q, hq, hsecret⟩ := reads_iff.1 hreads
      obtain ⟨⟨content, hfile⟩, -⟩ := id hsecret
      obtain ⟨d, last, hd, hlast, hend⟩ := resolve_file hroot hq hfile
      obtain ⟨hinside, hnolink⟩ := hlinks name q hin hq hsecret d last hd hlast
      rcases hend with rfl | ⟨target, hlink⟩
      · exact ⟨_, hq, hinside.trans (List.prefix_append ..), ⟨d, last, content, hd, hlast, hfile⟩, hsecret⟩
      · exact absurd hlink (hnolink target)
    · intro name hname hsecret
      obtain ⟨⟨content, hfile⟩, -⟩ := id hsecret
      have hpath := path_of_secret base real hsecret hname
      refine reads_iff.2 ⟨?_, _, hpath ▸ resolve_concat hroot hreal hfile, hsecret⟩
      by_cases hbase : base = []
      · subst hbase
        cases hreal
        exact absurd hsecret (hnotRoot rfl name hname)
      · rw [hpath]
        simp [within, hbase]

def oneSecret (linked : Bool) : SecretTree where
  tree :=
    { root := .dir (.cons "secrets" (.dir (.cons "key" (if linked then .symlink "/key" else .file []) .nil))
        (if linked then .cons "key" (.file []) .nil else .nil))
      distinct := by cases linked <;> simp [Node.Distinct, Entries.Distinct, Entries.names]
      named := by cases linked <;> simp [Node.Named, Entries.Named] }
  file _ := { regular := true, perm := 0o600, content := "secret" }

theorem find_oneSecret {q : Path} {node : Node} (h : (oneSecret false).tree.root.find q = some node)
    (hleaf : ∀ entries, node ≠ .dir entries) : q = ["secrets", "key"] ∧ node = .file [] := by
  rcases q with _ | ⟨a, _ | ⟨b, _ | ⟨c, q⟩⟩⟩ <;> simp [oneSecret, Node.find, Entries.find] at h
  · exact absurd h.symm (hleaf _)
  · exact absurd h.2.symm (hleaf _)
  · simp [← h.1, ← h.2.1, ← h.2.2]

theorem secrets_confined_oneSecret :
    (oneSecret false).Confined ["secrets"] ["secrets"] ∧ (oneSecret false).ReadsOwn ["secrets"] ["secrets"] := by
  refine (secrets_confined_iff rfl rfl rfl).2 ⟨?_, fun h => by cases h⟩
  rintro name q - hq ⟨⟨content, hfile⟩, -⟩ d last hd hlast
  have hlink : ∀ p target, (oneSecret false).tree.root.find p ≠ some (.symlink target) := by
    intro p target h
    cases (find_oneSecret h (by simp)).2
  refine ⟨?_, hlink _⟩
  obtain ⟨d', last', hd', hlast', rfl | ⟨target, h⟩⟩ := resolve_file rfl hq hfile
  · cases hd'.symm.trans hd
    cases (List.append_inj' (find_oneSecret hfile (by simp)).1 rfl : d = ["secrets"] ∧ _).1
    exact List.prefix_refl _
  · exact absurd h (hlink _ target)

/-- The link is read and leads out of the directory; and below the root nothing is read. -/
theorem link_out_is_read :
    ¬ (oneSecret true).Confined ["secrets"] ["secrets"] ∧ ¬ (oneSecret true).ReadsOwn [] [] := by
  constructor
  · intro h
    obtain ⟨q, hq, hinside, -⟩ := h "key" rfl
    cases hq
    exact absurd hinside (by decide)
  · intro h
    cases h "key" (by decide) ⟨⟨_, rfl⟩, rfl, .inl rfl⟩

end SecretTree

end Jupiter.Security
