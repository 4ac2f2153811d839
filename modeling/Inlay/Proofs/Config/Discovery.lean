import Inlay.Civet.Discovery
import Inlay.Config.Basic
import Inlay.Proofs.Files.Nearest

/-!
# Finding a configuration never fails

A configuration is taken from the nearest file, and from no other one.  If that file cannot be read
or parsed, there is one warning, and what counts is the configuration that says nothing, also where
a file further up could be read.  The same holds of the parse options of a Civet file, which are
looked for from its directory on.  `discovery_takes_nearest_file` states both.
-/

namespace Inlay

open FileTree (NearestFile HoldsNone AgreeUpTo)

variable {files other : FileTree} {start filename : String}

namespace Config

/-! ## Configurations -/

/-- What is found of a configuration at or above a path. -/
inductive Finds (files : FileTree) (start : String) : Discovered → Prop
  | nothing (h : files.HoldsNone start [fileName]) : Finds files start {}
  | loaded {passed : List String} {directory name text : String} {config : Config}
      (nearest : files.NearestFile start [fileName] passed directory name)
      (read : files.read? (Path.join directory name) = some text)
      (parsed : ofText? text = some config) : Finds files start { config }
  | broken {passed : List String} {directory name : String}
      (nearest : files.NearestFile start [fileName] passed directory name)
      (h : ∀ text, files.read? (Path.join directory name) = some text → ofText? text = none) :
      Finds files start { warning := some .configIgnored }

theorem load?_eq_some_iff {path : String} {config : Config} :
    load? files path = some config ↔
      ∃ text, files.read? path = some text ∧ ofText? text = some config := by
  rw [load?, Option.bind_eq_some_iff]

theorem load?_eq_none_iff {path : String} :
    load? files path = none ↔ ∀ text, files.read? path = some text → ofText? text = none := by
  rw [load?, Option.bind_eq_none_iff]

theorem finds_discover (files : FileTree) (start : String) :
    Finds files start (discover files start) := by
  unfold discover
  cases hfind : find? files start with
  | none => exact .nothing (FileTree.nearest?_eq_none_iff.1 hfind)
  | some path =>
    obtain ⟨passed, directory, name, hnearest, rfl⟩ := FileTree.nearest?_eq_some_iff.1 hfind
    dsimp only
    cases hload : load? files (Path.join directory name) with
    | none => exact .broken hnearest (load?_eq_none_iff.1 hload)
    | some config =>
      obtain ⟨text, hread, hparsed⟩ := load?_eq_some_iff.1 hload
      exact .loaded hnearest hread hparsed

theorem find?_of_nearest {passed : List String} {directory name : String}
    (h : files.NearestFile start [fileName] passed directory name) :
    find? files start = some (Path.join directory name) :=
  FileTree.nearest?_eq_some_iff.2 ⟨passed, directory, name, h, rfl⟩

theorem discover_of_finds {found : Discovered} (h : Finds files start found) :
    discover files start = found := by
  cases h with
  | nothing h =>
    have hfind : find? files start = none := FileTree.nearest?_eq_none_iff.2 h
    rw [discover, hfind]
  | loaded nearest read parsed =>
    rw [discover, find?_of_nearest nearest]
    dsimp only
    rw [load?_eq_some_iff.2 ⟨_, read, parsed⟩]
  | broken nearest h =>
    rw [discover, find?_of_nearest nearest]
    dsimp only
    rw [load?_eq_none_iff.2 h]

theorem discover_eq_iff {found : Discovered} :
    discover files start = found ↔ Finds files start found :=
  ⟨fun h => h ▸ finds_discover files start, discover_of_finds⟩

/-- Nothing above the nearest file counts. -/
theorem discover_congr {passed : List String} {directory name : String}
    (nearest : files.NearestFile start [fileName] passed directory name)
    (hsame : AgreeUpTo files other [fileName] passed directory) :
    discover other start = discover files start := by
  have hread : other.read? (Path.join directory name) = files.read? (Path.join directory name) :=
    FileTree.read?_congr (hsame directory List.mem_cons_self name nearest.mem)
  rw [discover, discover, find?_of_nearest nearest, find?_of_nearest (nearest.congr hsame)]
  dsimp only
  rw [load?, load?, hread]

end Config

namespace Civet

/-! ## Parse options -/

/-- The nearest file of parse options for a file, which is looked for from its directory on. -/
def NearestOptions (files : FileTree) (filename : String) (passed : List String)
    (directory name : String) : Prop :=
  ∃ parent, Path.parent? filename = some parent ∧
    files.NearestFile parent configNames passed directory name

/-- What the search for the parse options of a file gives, and what it reports. -/
inductive FindsOptions (files : FileTree) (filename : String) : Run Notice (Option Json) → Prop
  | nothing
    (h : ∀ parent, Path.parent? filename = some parent → files.HoldsNone parent configNames) :
      FindsOptions files filename ⟨[], .ok none⟩
  | loaded {passed : List String} {directory name text : String} {config : Json}
      (nearest : NearestOptions files filename passed directory name)
      (read : files.read? (Path.join directory name) = some text)
      (parsed : Json.parse? text = some config) :
      FindsOptions files filename ⟨[], .ok (config.field? "parseOptions")⟩
  | malformed {passed : List String} {directory name text : String}
      (nearest : NearestOptions files filename passed directory name)
      (read : files.read? (Path.join directory name) = some text)
      (h : Json.parse? text = none) :
      FindsOptions files filename ⟨[.warned .civetConfigMalformed], .ok none⟩
  | unreadable {passed : List String} {directory name : String}
      (nearest : NearestOptions files filename passed directory name)
      (h : files.read? (Path.join directory name) = none) :
      FindsOptions files filename ⟨[.warned .civetConfigUnreadable], .ok none⟩

theorem configFile?_eq_none_iff : configFile? files filename = none ↔
    ∀ parent, Path.parent? filename = some parent → files.HoldsNone parent configNames := by
  show (Path.parent? filename).bind _ = none ↔ _
  simp only [Option.bind_eq_none_iff, FileTree.nearest?_eq_none_iff]

theorem configFile?_eq_some_iff {path : String} : configFile? files filename = some path ↔
    ∃ passed directory name, NearestOptions files filename passed directory name ∧
      Path.join directory name = path := by
  show (Path.parent? filename).bind _ = some path ↔ _
  simp only [Option.bind_eq_some_iff, FileTree.nearest?_eq_some_iff, NearestOptions]
  constructor
  · rintro ⟨parent, hparent, passed, directory, name, hnearest, hpath⟩
    exact ⟨passed, directory, name, ⟨parent, hparent, hnearest⟩, hpath⟩
  · rintro ⟨passed, directory, name, ⟨parent, hparent, hnearest⟩, hpath⟩
    exact ⟨parent, hparent, passed, directory, name, hnearest, hpath⟩

theorem configFile?_of_nearest {passed : List String} {directory name : String}
    (h : NearestOptions files filename passed directory name) :
    configFile? files filename = some (Path.join directory name) :=
  configFile?_eq_some_iff.2 ⟨passed, directory, name, h, rfl⟩

theorem findsOptions_parseOptions (files : FileTree) (filename : String) :
    FindsOptions files filename (parseOptions files filename) := by
  unfold parseOptions
  cases hfind : configFile? files filename with
  | none => exact .nothing (configFile?_eq_none_iff.1 hfind)
  | some path =>
    obtain ⟨passed, directory, name, hnearest, rfl⟩ := configFile?_eq_some_iff.1 hfind
    dsimp only
    cases hread : files.read? (Path.join directory name) with
    | none => exact .unreadable hnearest hread
    | some text =>
      dsimp only
      cases hparse : Json.parse? text with
      | none => exact .malformed hnearest hread hparse
      | some config => exact .loaded hnearest hread hparse

theorem parseOptions_of_finds {run : Run Notice (Option Json)}
    (h : FindsOptions files filename run) : parseOptions files filename = run := by
  cases h with
  | nothing h =>
    rw [parseOptions, configFile?_eq_none_iff.2 h]
    rfl
  | loaded nearest read parsed =>
    rw [parseOptions, configFile?_of_nearest nearest]
    dsimp only
    rw [read]
    dsimp only
    rw [parsed]
    rfl
  | malformed nearest read h =>
    rw [parseOptions, configFile?_of_nearest nearest]
    dsimp only
    rw [read]
    dsimp only
    rw [h]
    rfl
  | unreadable nearest h =>
    rw [parseOptions, configFile?_of_nearest nearest]
    dsimp only
    rw [h]
    rfl

theorem parseOptions_eq_iff {run : Run Notice (Option Json)} :
    parseOptions files filename = run ↔ FindsOptions files filename run :=
  ⟨fun h => h ▸ findsOptions_parseOptions files filename, parseOptions_of_finds⟩

theorem parseOptions_congr {passed : List String} {directory name : String}
    (nearest : NearestOptions files filename passed directory name)
    (hsame : AgreeUpTo files other configNames passed directory) :
    parseOptions other filename = parseOptions files filename := by
  obtain ⟨parent, hparent, hnearest⟩ := nearest
  have hread : other.read? (Path.join directory name) = files.read? (Path.join directory name) :=
    FileTree.read?_congr (hsame directory List.mem_cons_self name hnearest.mem)
  rw [parseOptions, parseOptions, configFile?_of_nearest ⟨parent, hparent, hnearest⟩,
    configFile?_of_nearest ⟨parent, hparent, hnearest.congr hsame⟩]
  dsimp only
  rw [hread]

end Civet

/-! ## Both searches -/

/-- The configuration and the parse options are what the nearest file says.  A directory of its name
is passed, but no file is passed because it cannot be read or parsed: what lies above the nearest
one makes no difference. -/
theorem discovery_takes_nearest_file (files : FileTree) :
    (∀ start,
      (∀ found, Config.discover files start = found ↔ Config.Finds files start found) ∧
      ∀ passed directory name,
        files.NearestFile start [Config.fileName] passed directory name →
        ∀ other, AgreeUpTo files other [Config.fileName] passed directory →
          Config.discover other start = Config.discover files start) ∧
    ∀ filename,
      (∀ run, Civet.parseOptions files filename = run ↔ Civet.FindsOptions files filename run) ∧
      ∀ passed directory name,
        Civet.NearestOptions files filename passed directory name →
        ∀ other, AgreeUpTo files other Civet.configNames passed directory →
          Civet.parseOptions other filename = Civet.parseOptions files filename := by
  constructor
  · intro start
    refine ⟨fun found => Config.discover_eq_iff, ?_⟩
    intro passed directory name hnearest other hsame
    exact Config.discover_congr hnearest hsame
  · intro filename
    refine ⟨fun run => Civet.parseOptions_eq_iff, ?_⟩
    intro passed directory name hnearest other hsame
    exact Civet.parseOptions_congr hnearest hsame

/-- A tree with a directory that has the name of a configuration, a broken configuration above it,
and a third one above that; and with a broken file of parse options below a good one. -/
def shadowedFiles (above : FileContent) : FileTree :=
  { workingDirectory := []
    nodes := [
      (["app"], .directory), (["app", "web"], .directory),
      (["app", "web", "vernis.config.json"], .directory),
      (["app", "vernis.config.json"], .file .binary),
      (["vernis.config.json"], .file above),
      (["app", "web", "civet.config.json"], .file (.text "nope")),
      (["app", "civetconfig.json"], .file (.text "{}"))] }

theorem node?_shadowedFiles {path : String} (above : FileContent)
    (habsolute : Path.isAbsolute path = true) (hpath : path ≠ "") :
    (shadowedFiles above).node? path =
      ((shadowedFiles above).walk [] (Path.parts path)).bind (shadowedFiles above).nodeAt? := by
  rw [FileTree.node?, FileTree.placeOf?, if_neg hpath, if_pos habsolute]

theorem configs_shadowedFiles (above : FileContent) :
    (shadowedFiles above).node? (Path.join "/app/web" Config.fileName) = some .directory ∧
      (shadowedFiles above).node? (Path.join "/app" Config.fileName) = some (.file .binary) := by
  have hweb : Path.join "/app/web" Config.fileName = "/app/web/vernis.config.json" :=
    Path.join_eq_append (by decide) (by decide) _
  have happ : Path.join "/app" Config.fileName = "/app/vernis.config.json" :=
    Path.join_eq_append (by decide) (by decide) _
  rw [hweb, happ, node?_shadowedFiles above (by simp [Path.isAbsolute]) (by simp),
    node?_shadowedFiles above (by simp [Path.isAbsolute]) (by simp)]
  simp [Path.parts, Text.pieces, FileTree.walk, FileTree.isDirectoryAt, FileTree.nodeAt?,
    shadowedFiles]

theorem options_shadowedFiles (above : FileContent) :
    (shadowedFiles above).node? (Path.join "/app/web" "civetconfig.json") = none ∧
      (shadowedFiles above).node? (Path.join "/app/web" "civet.config.json") =
        some (.file (.text "nope")) := by
  have hfirst : Path.join "/app/web" "civetconfig.json" = "/app/web/civetconfig.json" :=
    Path.join_eq_append (by decide) (by decide) _
  have hsecond : Path.join "/app/web" "civet.config.json" = "/app/web/civet.config.json" :=
    Path.join_eq_append (by decide) (by decide) _
  rw [hfirst, hsecond, node?_shadowedFiles above (by simp [Path.isAbsolute]) (by simp),
    node?_shadowedFiles above (by simp [Path.isAbsolute]) (by simp)]
  simp [Path.parts, Text.pieces, FileTree.walk, FileTree.isDirectoryAt, FileTree.nodeAt?,
    shadowedFiles]

/-- Below a broken file nothing else is looked for, whatever the file above it holds. -/
theorem discovery_stops_at_broken_file :
    Config.discover (shadowedFiles (.text "{}")) "/app/web" = { warning := some .configIgnored } ∧
      Config.discover (shadowedFiles .binary) "/app/web" =
        Config.discover (shadowedFiles (.text "{}")) "/app/web" ∧
      Civet.parseOptions (shadowedFiles (.text "{}")) "/app/web/App.civet" =
        ⟨[.warned .civetConfigMalformed], .ok none⟩ := by
  have hup : Path.parent? "/app/web" = some "/app" := by
    simp [Path.parent?, Path.componentIndices, Path.isComponent, Path.upTo, Path.parts, Text.pieces]
  have hparent : Path.parent? "/app/web/App.civet" = some "/app/web" := by
    simp [Path.parent?, Path.componentIndices, Path.isComponent, Path.upTo, Path.parts, Text.pieces]
  have hmalformed : Json.parse? "nope" = none := by rfl
  obtain ⟨hweb, happ⟩ := configs_shadowedFiles (.text "{}")
  obtain ⟨hweb', happ'⟩ := configs_shadowedFiles .binary
  obtain ⟨hfirst, hsecond⟩ := options_shadowedFiles (.text "{}")
  have hconfig : (shadowedFiles (.text "{}")).NearestFile "/app/web" [Config.fileName] ["/app/web"]
      "/app" Config.fileName :=
    { climb := .up hup (.stay _)
      passed := by simp [FileTree.HoldsFile, hweb]
      preferred := ⟨[], [], rfl, by simp⟩
      holds := ⟨_, happ⟩ }
  have hoptions : Civet.NearestOptions (shadowedFiles (.text "{}")) "/app/web/App.civet" []
      "/app/web" "civet.config.json" :=
    ⟨_, hparent,
      { climb := .stay _
        passed := by simp
        preferred := ⟨["civetconfig.json"], [], rfl, by simp [FileTree.HoldsFile, hfirst]⟩
        holds := ⟨_, hsecond⟩ }⟩
  have hsame : AgreeUpTo (shadowedFiles (.text "{}")) (shadowedFiles .binary) [Config.fileName]
      ["/app/web"] "/app" := by
    simp [AgreeUpTo, hweb, hweb', happ, happ']
  obtain ⟨hconfigs, hparse⟩ := discovery_takes_nearest_file (shadowedFiles (.text "{}"))
  refine ⟨((hconfigs _).1 _).2 (.broken hconfig ?_), (hconfigs _).2 _ _ _ hconfig _ hsame,
    ((hparse _).1 _).2 (.malformed hoptions ?_ hmalformed)⟩
  · simp [FileTree.read?, happ]
  · simp [FileTree.read?, hsecond]

end Inlay
