/-
`pkg/security/secrets/env.go`: secrets in environment variables.

A secret is looked up under the prefix and its name in upper case with underscores. `ListSecrets` goes the other way,
for every variable the prefix matches: lower case, and hyphens for underscores.

Texts are Lean strings, and the case mapping of Unicode is a parameter.
-/
import Jupiter.Go.Value
import Jupiter.Lib.Table

namespace Jupiter.Security

open Jupiter.Go Jupiter.Lib

/-! ## The environment -/

/-- `unicode.ToUpper` and `unicode.ToLower`, which `strings` applies to every character: Lean's own on ASCII, and a
hyphen is the lower case of nothing else. -/
structure Casing where
  toUpper : Char → Char
  toLower : Char → Char
  ascii : ∀ c, c.toNat < 128 → toUpper c = c.toUpper ∧ toLower c = c.toLower
  hyphen : ∀ c, toLower c = '-' → c = '-'

/-- The variables of a process, as the `os` package keeps them. -/
structure Environment where
  vars : List (String × String)
  distinct : (Table.keys vars).Nodup
  plain : ∀ x ∈ vars, '=' ∉ x.1.toList

namespace Environment

def entry (x : String × String) : String := x.1 ++ "=" ++ x.2

/-- `os.Environ`. -/
def environ (env : Environment) : List String := env.vars.map entry

/-- `os.Getenv`: a variable without a name is not found. -/
def getenv (env : Environment) (key : String) : String :=
  if key = "" then "" else (env.vars.lookup key).getD ""

end Environment

/-! ## The provider -/

structure EnvProvider where
  envPrefix : String

namespace EnvProvider

def replace (c c' : Char) (s : List Char) : List Char := s.map fun x => if x = c then c' else x

section Provider

variable (casing : Casing) (p : EnvProvider)

def secretNameToEnvVar (name : String) : String :=
  p.envPrefix ++ String.ofList ((replace '-' '_' name.toList).map casing.toUpper)

def envVarToSecretName (envVar : String) : String :=
  String.ofList ((replace '_' '-' (Strings.trimPrefix envVar p.envPrefix).toList).map casing.toLower)

def getSecret (env : Environment) (name : String) : Except String String :=
  let envVar := p.secretNameToEnvVar casing name
  let value := env.getenv envVar
  if value = "" then .error ("secret not found in environment: " ++ name ++ " (env var: " ++ envVar ++ ")")
  else .ok value

def listed (entry : String) : Option String :=
  if !Strings.startsWith entry p.envPrefix then none
  else if '=' ∉ entry.toList then none
  else some (p.envVarToSecretName casing (String.ofList (entry.toList.takeWhile (· ≠ '='))))

def listSecrets (env : Environment) : List String := env.environ.filterMap (p.listed casing)

/-! ## Names that come back -/

def Separator (c : Char) : Prop := c = '-' ∨ c = '_'

instance (c : Char) : Decidable (Separator c) := inferInstanceAs (Decidable (_ ∨ _))

def spelled (c : Char) : Char := if Separator c then '_' else casing.toUpper (casing.toLower c)

/-- Both separators, or two characters with one lower case. -/
def SameLetter (c c' : Char) : Prop :=
  Separator c ∧ Separator c' ∨ ¬Separator c ∧ ¬Separator c' ∧ casing.toLower c = casing.toLower c'

/-- The name is not empty, and after the prefix there is no hyphen in it and nothing but upper case. -/
def WellNamed (name : String) : Prop :=
  name ≠ "" ∧ ∃ rest, name = p.envPrefix ++ rest ∧ ∀ c ∈ rest.toList, c ≠ '-' ∧ casing.toUpper (casing.toLower c) = c

/-- Another variable, under the name as a lookup spells it, has the same value. -/
def Shadowed (env : Environment) (x : String × String) : Prop :=
  ∃ other, other ≠ x.1 ∧ other ≠ "" ∧ (other, x.2) ∈ env.vars ∧
    other = p.envPrefix ++ String.ofList ((Strings.trimPrefix x.1 p.envPrefix).toList.map (spelled casing))

def Matches (x : String × String) : Prop := Strings.startsWith (Environment.entry x) p.envPrefix = true

end Provider

section Spelling

variable {casing : Casing} {p : EnvProvider}

theorem toLower_hyphen : casing.toLower '-' = '-' := (casing.ascii '-' (by decide)).2

theorem toUpper_underscore : casing.toUpper '_' = '_' := (casing.ascii '_' (by decide)).1

theorem toLower_eq_hyphen_iff {c : Char} : casing.toLower c = '-' ↔ c = '-' :=
  ⟨casing.hyphen c, fun h => by rw [h, toLower_hyphen]⟩

/-- The character a secret's name has for one of a variable's. -/
def folded (casing : Casing) (c : Char) : Char := casing.toLower (if c = '_' then '-' else c)

theorem folded_of_separator {c : Char} (h : Separator c) : folded casing c = '-' := by
  rcases h with rfl | rfl
  · exact toLower_hyphen
  · exact toLower_hyphen

theorem folded_of_letter {c : Char} (h : ¬Separator c) : folded casing c = casing.toLower c := by
  rw [folded, if_neg (fun hc => h (.inr hc))]

theorem folded_eq_hyphen_iff {c : Char} : folded casing c = '-' ↔ Separator c := by
  by_cases h : Separator c
  · exact iff_of_true (folded_of_separator h) h
  · rw [folded_of_letter h, toLower_eq_hyphen_iff]
    exact iff_of_false (fun hc => h (.inl hc)) h

theorem toUpper_folded (c : Char) :
    casing.toUpper (if folded casing c = '-' then '_' else folded casing c) = spelled casing c := by
  by_cases h : Separator c
  · rw [if_pos (folded_eq_hyphen_iff.2 h), spelled, if_pos h, toUpper_underscore]
  · rw [if_neg (mt folded_eq_hyphen_iff.1 h), spelled, if_neg h, folded_of_letter h]

theorem spelled_eq_self_iff {c : Char} :
    spelled casing c = c ↔ c ≠ '-' ∧ casing.toUpper (casing.toLower c) = c := by
  by_cases h : Separator c
  · rw [spelled, if_pos h]
    rcases h with rfl | rfl
    · exact iff_of_false (by decide) (fun h => h.1 rfl)
    · refine iff_of_true rfl ⟨by decide, ?_⟩
      rw [(casing.ascii '_' (by decide)).2]
      exact toUpper_underscore
  · rw [spelled, if_neg h]
    exact (and_iff_right fun hc => h (.inl hc)).symm

theorem folded_eq_iff {c c' : Char} : folded casing c = folded casing c' ↔ SameLetter casing c c' := by
  by_cases h : Separator c
  · rw [folded_of_separator h, eq_comm, folded_eq_hyphen_iff]
    exact ⟨fun h' => .inl ⟨h, h'⟩, fun hs => hs.elim And.right fun hl => absurd h hl.1⟩
  · by_cases h' : Separator c'
    · rw [folded_of_separator h', folded_eq_hyphen_iff]
      exact iff_of_false h fun hs => hs.elim (fun hl => h hl.1) fun hl => hl.2.1 h'
    · rw [folded_of_letter h, folded_of_letter h']
      exact ⟨fun heq => .inr ⟨h, h', heq⟩, fun hs => hs.elim (fun hl => absurd hl.1 h) fun hl => hl.2.2⟩

theorem secretNameToEnvVar_envVarToSecretName (name : String) :
    p.secretNameToEnvVar casing (p.envVarToSecretName casing name) =
      p.envPrefix ++ String.ofList ((Strings.trimPrefix name p.envPrefix).toList.map (spelled casing)) := by
  unfold secretNameToEnvVar envVarToSecretName replace
  rw [String.toList_ofList, List.map_map, List.map_map, List.map_map]
  congr 2
  exact List.map_congr_left fun c _ => toUpper_folded c

theorem envVarToSecretName_eq_iff {name name' : String} :
    p.envVarToSecretName casing name = p.envVarToSecretName casing name' ↔
      List.Forall₂ (SameLetter casing) (Strings.trimPrefix name p.envPrefix).toList
        (Strings.trimPrefix name' p.envPrefix).toList := by
  unfold envVarToSecretName replace
  rw [String.ofList_inj, List.map_map, List.map_map, ← List.forall₂_eq_eq_eq, List.forall₂_map_left_iff,
    List.forall₂_map_right_iff]
  exact ⟨fun h => h.imp fun _ _ => folded_eq_iff.1, fun h => h.imp fun _ _ => folded_eq_iff.2⟩

theorem map_spelled_eq_self_iff {rest : String} :
    String.ofList (rest.toList.map (spelled casing)) = rest ↔
      ∀ c ∈ rest.toList, c ≠ '-' ∧ casing.toUpper (casing.toLower c) = c := by
  have hmap : rest.toList.map (spelled casing) = rest.toList.map id ↔ ∀ c ∈ rest.toList, spelled casing c = c :=
    List.map_inj_left
  rw [List.map_id] at hmap
  rw [← String.toList_inj, String.toList_ofList, hmap]
  exact forall₂_congr fun c _ => spelled_eq_self_iff

theorem envVar_eq_iff {name : String} (hne : name ≠ "") :
    p.envPrefix ++ String.ofList ((Strings.trimPrefix name p.envPrefix).toList.map (spelled casing)) = name ↔
      WellNamed casing p name := by
  constructor
  · intro h
    obtain ⟨rest, rfl⟩ : ∃ rest, name = p.envPrefix ++ rest := ⟨_, h.symm⟩
    rw [Strings.trimPrefix_append, String.append_right_inj] at h
    exact ⟨hne, rest, rfl, map_spelled_eq_self_iff.1 h⟩
  · rintro ⟨-, rest, rfl, hrest⟩
    rw [Strings.trimPrefix_append, map_spelled_eq_self_iff.2 hrest]

end Spelling

/-! ## Variables -/

section Variables

variable {casing : Casing} {p : EnvProvider} {env : Environment} {x : String × String}

theorem listed_entry (hplain : '=' ∉ x.1.toList) :
    p.listed casing (Environment.entry x) =
      if Strings.startsWith (Environment.entry x) p.envPrefix then some (p.envVarToSecretName casing x.1)
      else none := by
  have hlist : (Environment.entry x).toList = x.1.toList ++ '=' :: x.2.toList := by
    simp [Environment.entry]
  unfold listed
  rw [hlist, Strings.takeWhile_ne _ hplain, String.ofList_toList]
  by_cases h : Strings.startsWith (Environment.entry x) p.envPrefix = true
  · simp [h]
  · simp [h]

theorem getenv_eq_iff {key value : String} (hvalue : value ≠ "") :
    env.getenv key = value ↔ key ≠ "" ∧ (key, value) ∈ env.vars := by
  rw [← Table.lookup_eq_some_iff_mem env.distinct, Environment.getenv]
  by_cases hkey : key = ""
  · rw [if_pos hkey]
    exact iff_of_false (Ne.symm hvalue) fun h => h.1 hkey
  · rw [if_neg hkey]
    cases env.vars.lookup key with
    | none => exact iff_of_false (Ne.symm hvalue) fun h => by cases h.2
    | some v =>
      rw [Option.getD_some, Option.some.injEq]
      exact (and_iff_right hkey).symm

theorem getSecret_eq_ok_iff {name value : String} (hvalue : value ≠ "") :
    p.getSecret casing env name = .ok value ↔ env.getenv (p.secretNameToEnvVar casing name) = value := by
  unfold getSecret
  dsimp only
  split
  · rename_i hempty
    rw [hempty]
    exact iff_of_false (by simp) (Ne.symm hvalue)
  · rw [Except.ok.injEq]

/-- The name a variable with a value is listed under leads back to it, or to another variable of the same value. -/
theorem getSecret_listed_iff (hx : x ∈ env.vars) (hvalue : x.2 ≠ "") :
    p.getSecret casing env (p.envVarToSecretName casing x.1) = .ok x.2 ↔
      WellNamed casing p x.1 ∨ Shadowed casing p env x := by
  rw [getSecret_eq_ok_iff hvalue, getenv_eq_iff hvalue, secretNameToEnvVar_envVarToSecretName]
  by_cases heq : p.envPrefix ++ String.ofList ((Strings.trimPrefix x.1 p.envPrefix).toList.map (spelled casing)) = x.1
  · rw [heq]
    constructor
    · rintro ⟨hne, -⟩
      exact .inl ((envVar_eq_iff hne).1 heq)
    · rintro (hnamed | ⟨other, hother, -, -, rfl⟩)
      · exact ⟨hnamed.1, hx⟩
      · exact absurd heq hother
  · constructor
    · rintro ⟨hne, hmem⟩
      exact .inr ⟨_, heq, hne, hmem, rfl⟩
    · rintro (hnamed | ⟨other, -, hne, hmem, rfl⟩)
      · exact absurd ((envVar_eq_iff hnamed.1).2 hnamed) heq
      · exact ⟨hne, hmem⟩

theorem listSecrets_eq (casing : Casing) (p : EnvProvider) (env : Environment) :
    p.listSecrets casing env = env.vars.filterMap fun x => p.listed casing (Environment.entry x) := by
  rw [listSecrets, Environment.environ, List.filterMap_map]
  rfl

end Variables

/-- In every environment and for every prefix: the names listed lead back to the values of the variables, and no two
variables are listed under one name, exactly when every variable with a value that the prefix matches is well named, or
shadowed by one of the same value, and no two are alike letter for letter. -/
theorem listed_retrievable_iff (casing : Casing) (p : EnvProvider) (env : Environment) :
    p.listSecrets casing env = env.vars.filterMap (fun x => p.listed casing (Environment.entry x)) ∧
    (((∀ x ∈ env.vars, ∀ name, p.listed casing (Environment.entry x) = some name → x.2 ≠ "" →
        p.getSecret casing env name = .ok x.2) ∧
      ∀ x ∈ env.vars, ∀ y ∈ env.vars, x.1 ≠ y.1 → ∀ name, p.listed casing (Environment.entry x) = some name →
        p.listed casing (Environment.entry y) ≠ some name) ↔
    ((∀ x ∈ env.vars, Matches p x → x.2 ≠ "" → WellNamed casing p x.1 ∨ Shadowed casing p env x) ∧
      ∀ x ∈ env.vars, ∀ y ∈ env.vars, x.1 ≠ y.1 → Matches p x → Matches p y →
        ¬List.Forall₂ (SameLetter casing) (Strings.trimPrefix x.1 p.envPrefix).toList
          (Strings.trimPrefix y.1 p.envPrefix).toList)) := by
  refine ⟨listSecrets_eq casing p env, ?_⟩
  have hlisted (x) (hx : x ∈ env.vars) {name : String} :
      p.listed casing (Environment.entry x) = some name ↔ Matches p x ∧ p.envVarToSecretName casing x.1 = name := by
    rw [listed_entry (env.plain x hx), Option.ite_none_right_eq_some, Option.some.injEq]
    rfl
  refine and_congr (forall₂_congr fun x hx => ?_) (forall₂_congr fun x hx => forall₂_congr fun y hy => ?_)
  · constructor
    · intro h hmatches hvalue
      exact (getSecret_listed_iff hx hvalue).1 (h _ ((hlisted x hx).2 ⟨hmatches, rfl⟩) hvalue)
    · intro h name hname hvalue
      obtain ⟨hmatches, rfl⟩ := (hlisted x hx).1 hname
      exact (getSecret_listed_iff hx hvalue).2 (h hmatches hvalue)
  · refine imp_congr_right fun _ => ?_
    constructor
    · intro h hmatches hmatches' halike
      refine h _ ((hlisted x hx).2 ⟨hmatches, rfl⟩) ((hlisted y hy).2 ⟨hmatches', ?_⟩)
      exact (envVarToSecretName_eq_iff.2 halike).symm
    · intro h name hname hname'
      obtain ⟨hmatches, rfl⟩ := (hlisted x hx).1 hname
      obtain ⟨hmatches', heq⟩ := (hlisted y hy).1 hname'
      exact h hmatches hmatches' (envVarToSecretName_eq_iff.1 heq.symm)

theorem toLower_eq_hyphen {c : Char} (h : c.toLower = '-') : c = '-' := by
  unfold Char.toLower at h
  split at h
  · -- The lower case of a letter is above it.
    rename_i hupper
    have hval : c.val + 32 = 45 := congrArg Char.val h
    have hlow : (65 : UInt32).toNat ≤ c.val.toNat := UInt32.le_iff_toNat_le.1 hupper.1
    have hhigh : c.val.toNat ≤ (90 : UInt32).toNat := UInt32.le_iff_toNat_le.1 hupper.2
    rw [← UInt32.toNat_inj, UInt32.toNat_add] at hval
    simp only [UInt32.reduceToNat] at hval hlow hhigh
    omega
  · exact h

/-- The case mapping of ASCII, which leaves everything else alone. -/
def asciiCasing : Casing := ⟨Char.toUpper, Char.toLower, fun _ _ => ⟨rfl, rfl⟩, fun _ => toLower_eq_hyphen⟩

/-- A variable that is not all upper case is listed and cannot be retrieved; two variables are listed under one name. -/
theorem listed_not_retrievable :
    (∃ env : Environment, env.vars = [("MERCATOR_SECRET_Token", "x")] ∧
      listSecrets asciiCasing ⟨"MERCATOR_SECRET_"⟩ env = ["token"] ∧
      getSecret asciiCasing ⟨"MERCATOR_SECRET_"⟩ env "token" =
        .error "secret not found in environment: token (env var: MERCATOR_SECRET_TOKEN)") ∧
    ∃ env : Environment, env.vars = [("MERCATOR_SECRET_TOKEN", "x"), ("MERCATOR_SECRET_Token", "y")] ∧
      listSecrets asciiCasing ⟨"MERCATOR_SECRET_"⟩ env = ["token", "token"] := by
  refine ⟨⟨⟨_, by decide, by decide⟩, rfl, ?_, ?_⟩, ⟨_, by decide, by decide⟩, rfl, ?_⟩
  · decide +kernel
  · rfl
  · decide +kernel

end EnvProvider

end Jupiter.Security
