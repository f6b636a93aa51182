/-
# What compiler configurations declare

Specification, section 4.3: a configuration is flagged when its `paths` are a non-empty
object or its `baseUrl` moves the base, and keys match as prefixes.

A compiler configuration at the root declares aliases by the keys of `paths`, and a base
directory by `baseUrl`. Only the stems of the keys are kept, that is, what is left of them
without the stars at the end, and only stems that are not empty. Two things follow:

* a configuration is not reported when its base is the project itself and its keys are
  nothing but stars (`ImportGraph.alias_config_reported`);
* aliases cover the specifiers that begin with a stem, whether or not the key had a star
  (`Graph.isInternal_iff_keyCovers`).
-/

import Strata.Proofs.Failure.Blame
import Mathlib.Data.List.DropRight

namespace Strata

namespace Text

/-- What is left without a character at the end, however often it stands there. -/
theorem dropTrailing_eq_iff {c : Char} {cs front : List Char} :
    dropTrailing (· == c) cs = front ↔
      ∃ back, cs = front ++ back ∧ (∀ x ∈ back, x = c) ∧ front.getLast? ≠ some c := by
  constructor
  · rintro rfl
    refine ⟨cs.rtakeWhile (· == c), List.rdropWhile_append_rtakeWhile.symm, fun x hx => ?_,
      fun hlast => ?_⟩
    · have hx : (x == c) = true := List.mem_rtakeWhile_imp (p := (· == c)) hx
      exact beq_iff_eq.1 hx
    · exact absurd (eq_false_of_getLast?_dropTrailing hlast) (by simp)
  · rintro ⟨back, rfl, hback, hfront⟩
    unfold dropTrailing
    rw [List.reverse_append, List.dropWhile_append_of_pos (by simpa using hback)]
    exact dropTrailing_eq_self fun x hx => beq_eq_false_iff_ne.2 fun heq => hfront (heq ▸ hx)

end Text

namespace Graph

open Text

/-- What a document says under a name in its compiler options. -/
def compilerOption? (json : Json) (name : String) : Option Json :=
  (json.field? "compilerOptions").bind (Json.field? name)

/-- The keys of `paths`; none when that is no object. -/
def pathKeys (json : Json) : List String :=
  (((compilerOption? json "paths").bind Json.members?).getD []).map Prod.fst

/-- The base directory is another one than the project itself. -/
def MovesBase (json : Json) : Prop :=
  ∃ baseUrl, (compilerOption? json "baseUrl").bind Json.text? = some baseUrl ∧
    trim baseUrl ∉ ["", ".", "./"]

/-- A text of nothing but stars. -/
def OnlyStars (key : String) : Prop := ∀ x ∈ key.toList, x = '*'

instance : DecidablePred OnlyStars := fun key => List.decidableBAll (· = '*') key.toList

/-- A specifier begins with a stem, or is the stem without the slashes at its end. -/
def Extends (stem specifier : List Char) : Prop :=
  stem <+: specifier ∨
    ∃ slashes, stem = specifier ++ slashes ∧ (∀ x ∈ slashes, x = '/') ∧
      specifier.getLast? ≠ some '/'

/-- What is left of a key without the stars at its end. -/
def IsStem (stem : List Char) (key : String) : Prop :=
  ∃ stars, key.toList = stem ++ stars ∧ (∀ x ∈ stars, x = '*') ∧ stem.getLast? ≠ some '*'

/-- A key covers the specifiers that extend its stem, unless that is empty. -/
def KeyCovers (key specifier : String) : Prop :=
  ∃ stem, IsStem stem key ∧ stem ≠ [] ∧ Extends stem specifier.toList

/-- A key with stars at its end matches what extends its stem; a key without stars matches
itself and what is below it. -/
def KeyMatches (key specifier : String) : Prop :=
  (∃ stem, IsStem stem key ∧ stem ≠ key.toList ∧ Extends stem specifier.toList) ∨
    '*' ∉ key.toList ∧ (specifier = key ∨ (key ++ "/").toList <+: specifier.toList)

/-- A configuration of the project says this. -/
def Configures (files : Files) (root : Path) (file : String) (json : Json) : Prop :=
  ∃ text, files.readText (root.child file) = .ok text ∧
    (Json.parse? (Json.strict text)).bind (Json.free? Json.maxDepth) = some json

namespace AliasConfig

/-- The declared alias of a key is its stem, so every key has exactly one. -/
theorem isStem_iff {stem : List Char} {key : String} :
    IsStem stem key ↔ (aliasOfKey key).toList = stem := by
  rw [aliasOfKey, String.toList_ofList, dropTrailing_eq_iff]
  rfl

/-- Only a key of nothing but stars has an empty alias. -/
theorem aliasOfKey_eq_empty_iff {key : String} : aliasOfKey key = "" ↔ OnlyStars key := by
  rw [← String.toList_eq_nil_iff, ← isStem_iff]
  constructor
  · rintro ⟨stars, heq, hstars, -⟩ x hx
    rw [heq] at hx
    exact hstars x hx
  · exact fun h => ⟨key.toList, rfl, h, by simp⟩

/-- An alias covers the specifiers that extend it. -/
theorem aliasCovers_iff {declared specifier : String} :
    InternalNames.aliasCovers declared specifier = true ↔
      Extends declared.toList specifier.toList := by
  rw [InternalNames.aliasCovers, Bool.or_eq_true, beq_iff_eq, startsWith,
    List.isPrefixOf_iff_prefix, or_comm, eq_comm, dropTrailing_eq_iff]
  rfl

/-- The aliases of a configuration are the stems of its keys, as far as they are not empty. -/
theorem mem_aliases_ofJson {file declared : String} {json : Json} :
    declared ∈ (ofJson file json).aliases ↔
      ∃ key ∈ pathKeys json, aliasOfKey key = declared ∧ declared ≠ "" := by
  have haliases : (ofJson file json).aliases =
      ordered (((pathKeys json).map aliasOfKey).filter fun k => !k.isEmpty) := rfl
  rw [haliases, mem_ordered, List.mem_filter, List.mem_map]
  simp only [Bool.not_eq_true', String.isEmpty_eq_false_iff]
  constructor
  · rintro ⟨⟨key, hkey, heq⟩, hne⟩
    exact ⟨key, hkey, heq, hne⟩
  · rintro ⟨key, hkey, heq, hne⟩
    exact ⟨⟨key, hkey, heq⟩, hne⟩

/-- A configuration declares aliases when a key of `paths` is more than stars, or when `baseUrl`
names another directory than the project itself. -/
theorem declaresAliases_ofJson {file : String} {json : Json} :
    (ofJson file json).declaresAliases = true ↔
      (∃ key ∈ pathKeys json, ¬ OnlyStars key) ∨ MovesBase json := by
  have haliases : (ofJson file json).aliases ≠ [] ↔ ∃ key ∈ pathKeys json, ¬ OnlyStars key := by
    simp only [ne_eq, List.eq_nil_iff_forall_not_mem, not_forall, not_not, mem_aliases_ofJson,
      ← aliasOfKey_eq_empty_iff]
    constructor
    · rintro ⟨_, key, hkey, rfl, hne⟩
      exact ⟨key, hkey, hne⟩
    · rintro ⟨key, hkey, hne⟩
      exact ⟨_, key, hkey, rfl, hne⟩
  have hbase : ((ofJson file json).baseUrl.any fun b => !isProjectItself b) = true ↔
      MovesBase json := by
    have hbaseUrl : (ofJson file json).baseUrl =
        (compilerOption? json "baseUrl").bind Json.text? := rfl
    rw [hbaseUrl, MovesBase]
    cases (compilerOption? json "baseUrl").bind Json.text? <;> simp [isProjectItself]
  rw [declaresAliases, Bool.or_eq_true, hbase, ← haliases]
  simp

variable {files : Files} {root : Path} {configs : List AliasConfig}

/-- A configuration file that can be read is read as what it says. -/
theorem read_of_configures {file : String} {json : Json} (h : Configures files root file json) :
    read files root file = .ok (some (ofJson file json)) := by
  obtain ⟨text, htext, hjson⟩ := h
  unfold read ofText?
  rw [htext]
  dsimp only
  rw [hjson]
  rfl

/-- What is read of a configuration file is what the file says. -/
theorem exists_of_read {file : String} {config : AliasConfig}
    (h : read files root file = .ok (some config)) :
    ∃ json, Configures files root file json ∧ config = ofJson file json := by
  unfold read at h
  split at h
  · rename_i text htext
    obtain ⟨json, hjson, rfl⟩ := Option.map_eq_some_iff.1 (Except.ok.inj h)
    exact ⟨json, ⟨text, htext, hjson⟩, rfl⟩
  · cases h
  · cases h

/-- What is read from some files is, of one of them, what it says. -/
theorem filter_of_reads {names : List String} {found : List (Option AliasConfig)}
    (h : List.Forall₂ (fun name config => read files root name = .ok config) names found)
    (file : String) :
    (found.filterMap id).filter (fun config => config.file == file) =
      ((names.zip found).filter fun p => p.1 == file).filterMap Prod.snd := by
  induction h with
  | nil => rfl
  | @cons name config names found hread _ ih =>
    have hfile : ∀ c, config = some c → c.file = name := fun c hc => by
      obtain ⟨json, -, rfl⟩ := exists_of_read (hc ▸ hread)
      rfl
    cases config with
    | none => by_cases hname : name = file <;> simpa [hname] using ih
    | some c =>
      have hc : c.file = name := hfile c rfl
      by_cases hname : name = file <;> simpa [hname, hc] using ih

/-- **The configurations of one file** are the one that it holds. -/
theorem filter_readAll (h : readAll files root = .ok configs) {file : String}
    (hfile : file ∈ aliasConfigFiles) {json : Json} (hjson : Configures files root file json) :
    configs.filter (fun config => config.file == file) = [ofJson file json] := by
  obtain ⟨found, hfound, h⟩ := bind_eq_ok h
  obtain rfl := Except.ok.inj h
  have hread := read_of_configures hjson
  have hall := mapM_eq_ok.1 hfound
  rw [filter_of_reads hall]
  simp only [aliasConfigFiles, List.forall₂_cons_left_iff, List.forall₂_nil_left_iff] at hall
  obtain ⟨a, _, ha, ⟨b, _, hb, ⟨c, _, hc, rfl, rfl⟩, rfl⟩, rfl⟩ := hall
  simp only [aliasConfigFiles, List.mem_cons, List.not_mem_nil, or_false] at hfile
  rcases hfile with rfl | rfl | rfl
  · obtain rfl := Except.ok.inj (ha.symm.trans hread)
    rfl
  · obtain rfl := Except.ok.inj (hb.symm.trans hread)
    rfl
  · obtain rfl := Except.ok.inj (hc.symm.trans hread)
    rfl

/-- **The configurations of a project** are those of its files. -/
theorem mem_readAll_iff (h : readAll files root = .ok configs) {config : AliasConfig} :
    config ∈ configs ↔
      ∃ file ∈ aliasConfigFiles, ∃ json, Configures files root file json ∧
        config = ofJson file json := by
  constructor
  · intro hconfig
    obtain ⟨found, hfound, hreads⟩ := bind_eq_ok h
    obtain rfl := Except.ok.inj hreads
    obtain ⟨_, hsome, rfl⟩ := List.mem_filterMap.1 hconfig
    obtain ⟨file, hfile, hread⟩ := exists_of_mem_mapM hfound hsome
    obtain ⟨json, hjson⟩ := exists_of_read hread
    exact ⟨file, hfile, json, hjson⟩
  · rintro ⟨file, hfile, json, hjson, rfl⟩
    have hmem : ofJson file json ∈ configs.filter fun config => config.file == file := by
      rw [filter_readAll h hfile hjson]
      exact List.mem_singleton_self _
    exact (List.mem_filter.1 hmem).1

end AliasConfig

/-- The aliases of a project cover what the keys of its configurations cover. -/
theorem exists_alias_iff {files : Files} {root : Path} {configs : List AliasConfig}
    (h : AliasConfig.readAll files root = .ok configs) {specifier : String} :
    (∃ declared ∈ configs.flatMap AliasConfig.aliases,
      InternalNames.aliasCovers declared specifier = true) ↔
      ∃ file ∈ aliasConfigFiles, ∃ json, Configures files root file json ∧
        ∃ key ∈ pathKeys json, KeyCovers key specifier := by
  constructor
  · rintro ⟨declared, hmem, hcovers⟩
    obtain ⟨config, hconfig, hdeclared⟩ := List.mem_flatMap.1 hmem
    obtain ⟨file, hfile, json, hjson, rfl⟩ := (AliasConfig.mem_readAll_iff h).1 hconfig
    obtain ⟨key, hkey, rfl, hne⟩ := AliasConfig.mem_aliases_ofJson.1 hdeclared
    exact ⟨file, hfile, json, hjson, key, hkey, _, AliasConfig.isStem_iff.2 rfl,
      mt String.toList_eq_nil_iff.1 hne, AliasConfig.aliasCovers_iff.1 hcovers⟩
  · rintro ⟨file, hfile, json, hjson, key, hkey, stem, hstem, hne, hextends⟩
    obtain rfl := AliasConfig.isStem_iff.1 hstem
    have hconfig := (AliasConfig.mem_readAll_iff h).2 ⟨file, hfile, json, hjson, rfl⟩
    have hdeclared : AliasConfig.aliasOfKey key ∈ (AliasConfig.ofJson file json).aliases :=
      AliasConfig.mem_aliases_ofJson.2 ⟨key, hkey, rfl, mt String.toList_eq_nil_iff.2 hne⟩
    exact ⟨_, List.mem_flatMap.2 ⟨_, hconfig, hdeclared⟩, AliasConfig.aliasCovers_iff.2 hextends⟩

/-- **Beside the conventions, the source root and its directories, the keys decide**: a
specifier is internal exactly when some key of a configuration covers it. Source: specification,
section 4.3, internal-looking specifiers. -/
theorem isInternal_iff_keyCovers {files : Files} {root : Path} {c : Contract}
    {below all : List FoundFile} {configs : List AliasConfig} {sources : List SourceFile}
    (hconfigs : AliasConfig.readAll files root = .ok configs) {specifier : String}
    (hconventional : ∀ start ∈ ["@/", "~/", "#/"], ¬ start.toList <+: specifier.toList)
    (hroot : ¬ (c.sourceRoot ++ "/").toList <+: specifier.toList)
    (hdirectory : InternalNames.firstSegment specifier ∉
      sourceDirectories (c.sourceDirectory root) below) :
    (surroundingsOf c root below all configs sources).names.isInternal specifier = true ↔
      ∃ file ∈ aliasConfigFiles, ∃ json, Configures files root file json ∧
        ∃ key ∈ pathKeys json, KeyCovers key specifier := by
  set names := (surroundingsOf c root below all configs sources).names with hnames
  have hconventional : InternalNames.hasConventionalAlias specifier = false := by
    refine List.any_eq_false.2 fun start hstart h => hconventional start hstart ?_
    exact List.isPrefixOf_iff_prefix.1 h
  have hroot : startsWith (names.sourceRoot ++ "/") specifier = false :=
    Bool.eq_false_iff.2 fun h => hroot (List.isPrefixOf_iff_prefix.1 h)
  have hdirectory : names.sourceDirectories.contains (InternalNames.firstSegment specifier) =
      false := by
    rw [Bool.eq_false_iff, ne_eq, List.contains_iff_mem]
    exact hdirectory
  rw [InternalNames.isInternal, hconventional, hroot, hdirectory, Bool.and_false, Bool.or_false,
    Bool.false_or, Bool.false_or, List.any_eq_true]
  exact exists_alias_iff hconfigs

/-! ### A project with one configuration -/

/-- A project with one file, which imports a package, and a configuration. -/
def configured (config : String) : Files where
  top :=
    .directory
      [("src", .directory [("app.ts", .file (some "import 'library';"))]),
       ("tsconfig.json", .file (some config))]
  workingDirectory := ⟨"/"⟩

/-- The one configuration of the project is its `tsconfig.json`. -/
theorem configures_configured_iff {config file : String} (hfile : file ∈ aliasConfigFiles)
    {json : Json} :
    Configures (configured config) ⟨"/"⟩ file json ↔
      file = "tsconfig.json" ∧
        (Json.parse? (Json.strict config)).bind (Json.free? Json.maxDepth) = some json := by
  simp only [aliasConfigFiles, List.mem_cons, List.not_mem_nil, or_false] at hfile
  constructor
  · rintro ⟨text, htext, hjson⟩
    rcases hfile with rfl | rfl | rfl
    · obtain rfl : config = text := Except.ok.inj htext
      exact ⟨rfl, hjson⟩
    · cases htext
    · cases htext
  · rintro ⟨rfl, hjson⟩
    exact ⟨config, rfl, hjson⟩

/-- A configuration with a key of nothing but a star. -/
def starKey : String := r#"{"compilerOptions":{"paths":{"*":["src/*"]}}}"#

/-- A configuration with a key without a star. -/
def exactKey : String := r#"{"compilerOptions":{"paths":{"lib":["src/lib.ts"]}}}"#

/-- A configuration with comments and trailing commas, a base directory that is the project
itself, and keys of both kinds. -/
def mixedKeys : String :=
  "// aliases\n" ++
    r#"{"compilerOptions":{"baseUrl":" ./ ","paths":{"*":["src/*"],"libra*":["src/libra*"],},}}"#

/-- The keys of a configuration that is read. -/
theorem exists_configures (config : String) (keys : List String)
    (h : ((Json.parse? (Json.strict config)).bind (Json.free? Json.maxDepth)).map pathKeys =
      some keys) :
    ∃ json, Configures (configured config) ⟨"/"⟩ "tsconfig.json" json ∧ pathKeys json = keys := by
  obtain ⟨json, hjson, hkeys⟩ := Option.map_eq_some_iff.1 h
  exact ⟨json, (configures_configured_iff List.mem_cons_self).2 ⟨rfl, hjson⟩, hkeys⟩

/-- The configuration with comments and trailing commas is read, with both of its keys. -/
theorem exists_configures_mixedKeys :
    ∃ json, Configures (configured mixedKeys) ⟨"/"⟩ "tsconfig.json" json ∧
      pathKeys json = ["*", "libra*"] :=
  exists_configures mixedKeys ["*", "libra*"] (by decide +kernel)

/-- A package that is covered by the second key only is internal. -/
theorem isInternal_iff_keyCovers_mixedKeys :
    ∃ below all configs, (configured mixedKeys).walk (Contract.standard.sourceDirectory ⟨"/"⟩) =
        .ok below ∧ (configured mixedKeys).walk ⟨"/"⟩ = .ok all ∧
      AliasConfig.readAll (configured mixedKeys) ⟨"/"⟩ = .ok configs ∧
      (surroundingsOf .standard ⟨"/"⟩ below all configs []).names.isInternal "library" = true := by
  obtain ⟨json, hjson, hkeys⟩ := exists_configures_mixedKeys
  have hkey : "libra*" ∈ pathKeys json := hkeys ▸ List.mem_cons_of_mem _ List.mem_cons_self
  have hcovers : KeyCovers "libra*" "library" :=
    ⟨"libra".toList, ⟨['*'], rfl, List.forall_mem_singleton.2 rfl, by decide⟩, by decide,
      .inl (by decide)⟩
  exact ⟨_, _, _, rfl, rfl, rfl, (isInternal_iff_keyCovers rfl (by decide) (by decide)
    (by decide +kernel)).2 ⟨_, List.mem_cons_self, json, hjson, _, hkey, hcovers⟩⟩

/-- **A key without a star covers more than it matches**: `lib` covers the package `library`. -/
theorem exact_key_covers_package :
    ∃ below all configs, (configured exactKey).walk (Contract.standard.sourceDirectory ⟨"/"⟩) =
        .ok below ∧ (configured exactKey).walk ⟨"/"⟩ = .ok all ∧
      AliasConfig.readAll (configured exactKey) ⟨"/"⟩ = .ok configs ∧
      (surroundingsOf .standard ⟨"/"⟩ below all configs []).names.isInternal "library" = true ∧
      (∀ start ∈ ["@/", "~/", "#/", "src/"], ¬ start.toList <+: "library".toList) ∧
      InternalNames.firstSegment "library" ∉
        sourceDirectories (Contract.standard.sourceDirectory ⟨"/"⟩) below ∧
      ∀ file ∈ aliasConfigFiles, ∀ json, Configures (configured exactKey) ⟨"/"⟩ file json →
        ∀ key ∈ pathKeys json, ¬ KeyMatches key "library" := by
  refine ⟨_, _, _, rfl, rfl, rfl, by decide +kernel, by decide, by decide +kernel, ?_⟩
  intro file hfile json hjson key hkey
  obtain ⟨-, hjson⟩ := (configures_configured_iff hfile).1 hjson
  have hkeys : ((Json.parse? (Json.strict exactKey)).bind (Json.free? Json.maxDepth)).map
      pathKeys = some ["lib"] := by decide +kernel
  rw [hjson, Option.map_some, Option.some_inj] at hkeys
  rw [hkeys, List.mem_singleton] at hkey
  subst hkey
  rintro (⟨stem, hstem, hne, -⟩ | ⟨-, h⟩)
  · exact hne (AliasConfig.isStem_iff.1 hstem ▸ by decide)
  · revert h
    decide

/-! ### What is reported -/

/-- A configuration is reported exactly when it declares aliases. -/
theorem isSome_aliasConfigViolation (config : AliasConfig) :
    (aliasConfigViolation? config).isSome = config.declaresAliases := by
  unfold aliasConfigViolation?
  cases config.declaresAliases <;> rfl

/-- The violations about one file are those of its configurations. -/
theorem filter_aliasConfigViolations (configs : List AliasConfig) (file : String) :
    (configs.filterMap aliasConfigViolation?).filter (fun v => v.file == file) =
      (configs.filter fun config => config.file == file).filterMap aliasConfigViolation? := by
  rw [List.filter_filterMap, List.filterMap_filter]
  refine List.filterMap_congr fun config _ => ?_
  cases hv : aliasConfigViolation? config with
  | none => simp
  | some v =>
    rw [← file_of_aliasConfigViolation hv]
    by_cases hfile : v.file = file <;> simp [hfile]

end Graph

namespace ImportGraph

open Strata.Graph Diagnosis

variable {files : Files} {root : Path} {c : Contract} {g : ImportGraph}

/-- The violations of a graph about one compiler configuration. -/
def reported (g : ImportGraph) (file : String) : List Violation :=
  (ofRule .pathAliasConfig g.violations).filter fun v => v.file == file

/-- Whatever else a graph reports, what it reports about one file by this rule are the
violations of the configurations with this name. -/
theorem reported_ofRecords (c : Contract) (configs : List AliasConfig) (nodes : Array Node)
    (records : List ImportRecord) (file : String) :
    ((ofRecords c configs nodes records).reported file).Perm
      ((configs.filter fun config => config.file == file).filterMap aliasConfigViolation?) := by
  have hrules : ∀ v ∈ configs.filterMap aliasConfigViolation?,
      v.ruleId = Rule.pathAliasConfig.id := fun v hv => by
    obtain ⟨config, -, hv⟩ := List.mem_filterMap.1 hv
    obtain ⟨_, _, rfl⟩ := aliasConfigViolation_eq hv
    rfl
  have hperm : (ofRule .pathAliasConfig (ofRecords c configs nodes records).violations).Perm
      (ofRule .pathAliasConfig (configs.filterMap aliasConfigViolation?)) :=
    assembled_ofRecords.ofRule_perm (.head _) List.mem_cons_self
  rw [ofRule_eq_self hrules] at hperm
  rw [← filter_aliasConfigViolations]
  exact hperm.filter _

/-- The violations about a configuration are those of what it says. -/
theorem reported_eq (hsource : files.isDirectory (c.sourceDirectory root) = true)
    (h : build files root c = .ok g) {file : String} (hfile : file ∈ aliasConfigFiles)
    {json : Json} (hjson : Configures files root file json) :
    g.reported file = (aliasConfigViolation? (AliasConfig.ofJson file json)).toList := by
  obtain ⟨hnone, -⟩ | ⟨entries, all, configs, -, -, hconfigs, rfl⟩ := build_cases h
  · exact absurd (hsource.symm.trans hnone) Bool.noConfusion
  · suffices hgraph : ∀ nodes records, (ofRecords c configs nodes records).reported file =
        (aliasConfigViolation? (AliasConfig.ofJson file json)).toList from hgraph _ _
    intro nodes records
    have hperm := reported_ofRecords c configs nodes records file
    rw [AliasConfig.filter_readAll hconfigs hfile hjson] at hperm
    cases hv : aliasConfigViolation? (AliasConfig.ofJson file json) with
    | none => exact List.perm_nil.1 (by simpa [hv] using hperm)
    | some v => exact List.perm_singleton.1 (by simpa [hv] using hperm)

/-- **A configuration is reported once, or not at all**: once when some key is more than stars
or the base directory is moved. That is what it declares, except for keys of nothing but stars
beside a base directory that is the project itself. Source: specification, section 4.3,
path-alias configuration. -/
theorem alias_config_reported (hsource : files.isDirectory (c.sourceDirectory root) = true)
    (h : build files root c = .ok g) {file : String} (hfile : file ∈ aliasConfigFiles)
    {json : Json} (hjson : Configures files root file json) :
    ((g.reported file).length = 1 ↔
      (∃ key ∈ pathKeys json, ¬ OnlyStars key) ∨ MovesBase json) ∧
    (g.reported file = [] ↔ ¬ ((∃ key ∈ pathKeys json, ¬ OnlyStars key) ∨ MovesBase json)) ∧
    (((g.reported file).length = 1 ↔ pathKeys json ≠ [] ∨ MovesBase json) ↔
      ¬ (pathKeys json ≠ [] ∧ (∀ key ∈ pathKeys json, OnlyStars key) ∧ ¬ MovesBase json)) := by
  have hreported := reported_eq hsource h hfile hjson
  have hdeclares : (AliasConfig.ofJson file json).declaresAliases = true ↔ _ :=
    AliasConfig.declaresAliases_ofJson
  rw [← isSome_aliasConfigViolation] at hdeclares
  have hone : (g.reported file).length = 1 ↔
      (∃ key ∈ pathKeys json, ¬ OnlyStars key) ∨ MovesBase json := by
    rw [← hdeclares, hreported]
    cases aliasConfigViolation? (AliasConfig.ofJson file json) <;> simp
  have hnone : g.reported file = [] ↔ ¬ (g.reported file).length = 1 := by
    rw [hreported]
    cases aliasConfigViolation? (AliasConfig.ofJson file json) <;> simp
  refine ⟨hone, hnone.trans (not_congr hone), ?_⟩
  rw [hone]
  have hkeys : (∃ key ∈ pathKeys json, ¬ OnlyStars key) → pathKeys json ≠ [] :=
    fun ⟨key, hkey, _⟩ => List.ne_nil_of_mem hkey
  -- beside a base that is moved the keys do not matter
  by_cases hbase : MovesBase json
  · simp [hbase]
  · simp only [hbase, or_false, not_false_eq_true, and_true]
    constructor
    · rintro hiff ⟨hne, hstars⟩
      obtain ⟨key, hkey, hmore⟩ := hiff.2 hne
      exact hmore (hstars key hkey)
    · intro hnot
      refine ⟨hkeys, fun hne => ?_⟩
      by_contra hall
      refine hnot ⟨hne, fun key hkey => ?_⟩
      by_contra hmore
      exact hall ⟨key, hkey, hmore⟩

/-- A key of stars does not matter beside another one, and neither does a base directory that
is the project itself. -/
theorem alias_config_reported_mixedKeys :
    ∃ g json, build (configured mixedKeys) ⟨"/"⟩ .standard = .ok g ∧
      Configures (configured mixedKeys) ⟨"/"⟩ "tsconfig.json" json ∧
      pathKeys json = ["*", "libra*"] ∧ (g.reported "tsconfig.json").length = 1 := by
  obtain ⟨json, hjson, hkeys⟩ := exists_configures_mixedKeys
  have hkey : "libra*" ∈ pathKeys json := hkeys ▸ List.mem_cons_of_mem _ List.mem_cons_self
  have hsource : (configured mixedKeys).isDirectory (Contract.standard.sourceDirectory ⟨"/"⟩) =
      true := rfl
  have hbuild : ∃ g, build (configured mixedKeys) ⟨"/"⟩ .standard = .ok g := ⟨_, rfl⟩
  obtain ⟨g, hbuild⟩ := hbuild
  exact ⟨g, json, hbuild, hjson, hkeys,
    (alias_config_reported hsource hbuild List.mem_cons_self hjson).1.2
      (.inl ⟨_, hkey, by decide⟩)⟩

/-- **A key of nothing but stars is not reported.** -/
theorem star_key_not_reported :
    ∃ g json, build (configured starKey) ⟨"/"⟩ .standard = .ok g ∧
      (configured starKey).isDirectory (Contract.standard.sourceDirectory ⟨"/"⟩) = true ∧
      Configures (configured starKey) ⟨"/"⟩ "tsconfig.json" json ∧ pathKeys json = ["*"] ∧
      g.reported "tsconfig.json" = [] := by
  obtain ⟨json, hjson, hkeys⟩ := exists_configures starKey ["*"] (by decide +kernel)
  have hsource : (configured starKey).isDirectory (Contract.standard.sourceDirectory ⟨"/"⟩) =
      true := rfl
  have hbuild : ∃ g, build (configured starKey) ⟨"/"⟩ .standard = .ok g := ⟨_, rfl⟩
  obtain ⟨g, hbuild⟩ := hbuild
  refine ⟨g, json, hbuild, hsource, hjson, hkeys, ?_⟩
  obtain ⟨json', hjson', hconfig⟩ := Option.map_eq_some_iff.1
    (show (((Json.parse? (Json.strict starKey)).bind (Json.free? Json.maxDepth)).map
      fun json => aliasConfigViolation? (AliasConfig.ofJson "tsconfig.json" json)) = some none by
      decide +kernel)
  have hsame := ((configures_configured_iff List.mem_cons_self).1 hjson).2
  obtain rfl := Option.some_inj.1 (hsame.symm.trans hjson')
  rw [reported_eq hsource hbuild List.mem_cons_self hjson, hconfig]
  rfl

end ImportGraph

end Strata
