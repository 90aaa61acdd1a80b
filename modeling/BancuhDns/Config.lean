import BancuhDns.Fetch

/-!
# The configuration

A configuration names three kinds of sources, each with the format of its lines.
It is written as a YAML document whose sources are texts, relative ones against
the place the configuration itself was fetched from; resolving them either gives
every source a `BancuhDns.FileOrUrl` or fails as a whole.

The URL crate, the YAML crate and the file system are a parameter,
`BancuhDns.Platform`.
-/

namespace BancuhDns

/-! ### Files and URLs -/

/-- A file or a URL. -/
inductive FileOrUrl where
  /-- A URL. -/
  | url (u : Url)
  /-- A file. -/
  | file (p : PathBuf)
  deriving DecidableEq

/-- `FileOrUrl::to_fetch`. -/
def FileOrUrl.toFetch : FileOrUrl → Fetch
  | .url u => .http u
  | .file p => .file p

/-! ### The raw configuration -/

/-- The formats of a blacklist. -/
inductive BlacklistFormat where
  | hosts
  | domains
  deriving DecidableEq

/-- The formats of a whitelist. -/
inductive WhitelistFormat where
  | hosts
  | domains
  | zone
  deriving DecidableEq

/-- The formats of a list of overrides. -/
inductive OverrideFormat where
  | cname
  deriving DecidableEq

/-- A source as the configuration writes it. -/
structure RawSource (T : Type) where
  /-- The format of its lines. -/
  format : T
  /-- Where it is, as written. -/
  path : Text

/-- The configuration as written. -/
structure RawConfig where
  /-- The blacklists. -/
  blacklist : List (RawSource BlacklistFormat)
  /-- The whitelists. -/
  whitelist : List (RawSource WhitelistFormat)
  /-- The overrides. -/
  overrides : List (RawSource OverrideFormat)

/-! ### Resolving a source -/

/-- An error of the URL crate. -/
structure UrlParseError where
  /-- What the crate reports. -/
  message : Text
  deriving DecidableEq

/-- An error of the YAML crate. -/
structure YamlError where
  /-- What the crate reports. -/
  message : Text
  deriving DecidableEq

/-- The crates and the file system that reading a configuration calls. -/
structure Platform where
  /-- `Url::parse`. -/
  parseUrl : Text → Option Url
  /-- `Url::join`. -/
  joinUrl : Url → Text → Except UrlParseError Url
  /-- `Path::parent`. -/
  parent : PathBuf → Option PathBuf
  /-- `Path::join`. -/
  joinPath : PathBuf → Text → PathBuf
  /-- `Path::exists`. -/
  pathExists : PathBuf → Bool
  /-- `serde_yaml::from_str`. -/
  fromYaml : Text → Except YamlError RawConfig

/-- An error of `Source::try_from_raw_source`. -/
inductive FromRawSourceError where
  /-- The path does not join the URL of the configuration. -/
  | invalidUrl (e : UrlParseError)
  /-- The configuration's path has no parent. -/
  | invalidPath
  /-- There is no such file next to the configuration. -/
  | fileNotExists
  deriving DecidableEq

/-- `FileOrUrl::from_str`, which never fails: what is no URL is a path. -/
def FileOrUrl.fromStr (pf : Platform) (s : Text) : FileOrUrl :=
  match pf.parseUrl s with
  | some u => .url u
  | none => .file ⟨s⟩

/-- A source, resolved. -/
structure Source (T : Type) where
  /-- The format of its lines. -/
  format : T
  /-- Where it is. -/
  fileOrUrl : FileOrUrl

/-- `Source::try_from_raw_source`. -/
def Source.tryFromRawSource {T : Type} (pf : Platform) (configUrl : FileOrUrl)
    (source : RawSource T) : Except FromRawSourceError (Source T) := do
  let fileOrUrl ←
    -- a relative path is one next to the configuration
    if startsWith "./".toList source.path then
      match configUrl with
      | .url u =>
        match pf.joinUrl u source.path with
        | .ok url => .ok (.url url)
        | .error e => .error (.invalidUrl e)
      | .file p =>
        match pf.parent p with
        | none => .error .invalidPath
        | some dir =>
          let path := pf.joinPath dir source.path
          if pf.pathExists path then .ok (.file path) else .error .fileNotExists
    else .ok (FileOrUrl.fromStr pf source.path)
  return { format := source.format, fileOrUrl := fileOrUrl }

/-! ### The configuration -/

/-- The configuration, its sources resolved. -/
structure Config where
  /-- The blacklists. -/
  blacklist : List (Source BlacklistFormat)
  /-- The whitelists. -/
  whitelist : List (Source WhitelistFormat)
  /-- The overrides. -/
  overrides : List (Source OverrideFormat)

/-- An error of `Config::load`. -/
inductive LoadConfigError where
  /-- The configuration could not be fetched. -/
  | fetch (e : FetchError)
  /-- The configuration is not the YAML document expected. -/
  | yaml (e : YamlError)
  /-- A source could not be resolved. -/
  | fromSource (e : FromRawSourceError)
  deriving DecidableEq

/-- `Config::try_from_raw_config`: the three loops, in order. -/
def Config.tryFromRawConfig (pf : Platform) (configUrl : FileOrUrl) (raw : RawConfig) :
    Except FromRawSourceError Config := do
  let blacklist ← raw.blacklist.mapM (Source.tryFromRawSource pf configUrl)
  let whitelist ← raw.whitelist.mapM (Source.tryFromRawSource pf configUrl)
  let overrides ← raw.overrides.mapM (Source.tryFromRawSource pf configUrl)
  return { blacklist := blacklist, whitelist := whitelist, overrides := overrides }

/-- `Config::load`. -/
def Config.load (pf : Platform) (env : Env) (configUrl : FileOrUrl) :
    Except LoadConfigError Config :=
  match configUrl.toFetch.fetch env with
  | .error e => .error (.fetch e)
  | .ok content =>
    match pf.fromYaml content with
    | .error e => .error (.yaml e)
    | .ok raw =>
      match Config.tryFromRawConfig pf configUrl raw with
      | .error e => .error (.fromSource e)
      | .ok config => .ok config

end BancuhDns
