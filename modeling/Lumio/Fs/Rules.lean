import Lumio.Fs.Interface

/-!
# Synchronisation rules

Which paths are synchronised: the hard exclusions come before the rules of the user, and those before the
defaults. A compiled glob is a predicate on texts; a directory is matched with and without a trailing slash.
-/

namespace Lumio.Fs

open Lumio.Protocol

abbrev GlobMatcher := List Char → Bool

/-- What the rules take from `globset`: the matcher of a pattern, if the pattern is well formed. -/
class GlobBuilder where
  build : List Char → Option GlobMatcher

def defaultIncludes : List String := ["**"]

def defaultExcludes : List String :=
  [".git/**", ".hg/**", ".svn/**", "node_modules/**", ".venv/**", "venv/**", "target/**", "build/**", "dist/**",
    ".next/**", ".cache/**", "**/__pycache__/**", "**/.pytest_cache/**", "**/.mypy_cache/**", "**/.ruff_cache/**",
    "**/*.log", "**/*.sock", "**/*.pid", "**/.DS_Store", "**/.fns_state.json"]

def hardInternalExcludes : List String :=
  [".fns_state.json", "**/.fns_state.json", ".fns-case-probe-*", "**/.fns-case-probe-*", ".fns-tmp-*",
    "**/.fns-tmp-*", ".fns-delete-*", "**/.fns-delete-*", ".fns-rename-*", "**/.fns-rename-*", ".fns-internal/**",
    "**/.fns-internal/**"]

def hardSecretExcludes : List String :=
  [".env", "**/.env", ".env.*", "**/.env.*", "*.pem", "**/*.pem", "*.key", "**/*.key", ".ssh/**", "**/.ssh/**",
    "id_rsa", "**/id_rsa", "id_ed25519", "**/id_ed25519", ".aws/credentials", "**/.aws/credentials",
    ".config/gcloud/application_default_credentials.json", "**/.config/gcloud/application_default_credentials.json",
    ".azure/accessTokens.json", "**/.azure/accessTokens.json", ".azure/msal_token_cache.json",
    "**/.azure/msal_token_cache.json", ".kube/config", "**/.kube/config", ".docker/config.json",
    "**/.docker/config.json"]

def safeEnvBasenames : List String := [".env.example", ".env.sample", ".env.template"]

/-- The secret patterns up to here are those a safe basename is exempt from. -/
def envSecretPatternCount : Nat := 4

def invalidRuleReason : String := "invalid glob pattern"

structure SyncRuleConfig where
  includes : List String
  excludes : List String
  protectSecrets : Bool
deriving DecidableEq

def SyncRuleConfig.default : SyncRuleConfig := ⟨[], [], true⟩

inductive RuleSource where
  | hardInternal
  | hardSecurity
  | userExclude
  | userInclude
  | defaultExclude
  | defaultInclude
deriving DecidableEq

structure RuleDecision where
  included : Bool
  source : RuleSource
deriving DecidableEq

structure SyncRules where
  hardInternal : List GlobMatcher
  hardEnvSecrets : List GlobMatcher
  hardOtherSecrets : List GlobMatcher
  userExcludes : List GlobMatcher
  userIncludes : List GlobMatcher
  defaultExcludes : List GlobMatcher
  defaultIncludes : List GlobMatcher
  userIncludePrefixes : List (List Char)
  protectSecrets : Bool

/-! ## Texts -/

def matchesAny (globs : List GlobMatcher) (path : List Char) (isDir : Bool) : Bool :=
  globs.any (· path) || (isDir && globs.any (· (path ++ ['/'])))

def basename (path : List Char) : List Char := (path.reverse.takeWhile (· ≠ '/')).reverse

def hasSafeEnvBasename (path : List Char) : Bool := safeEnvBasenames.any (·.toList = basename path)

/-- The path with `.env` for its safe basename. -/
def safeEnvAlias (path : List Char) : Option (List Char) :=
  if hasSafeEnvBasename path then some (path.take (path.length - (basename path).length) ++ ".env".toList) else none

def matchesUserRule (globs : List GlobMatcher) (path : List Char) (isDir : Bool) : Bool :=
  matchesAny globs path isDir || (safeEnvAlias path).any fun other => matchesAny globs other isDir

/-- The part of a pattern before its first special character. -/
def literalPrefix (pattern : List Char) : List Char :=
  pattern.takeWhile fun c => !(c = '*' || c = '?' || c = '[' || c = '\x7b')

def isAncestor (path literal : List Char) : Bool :=
  let trimmed := (literal.reverse.dropWhile (· = '/')).reverse
  !trimmed.isEmpty && (path = trimmed || (path ++ ['/']).isPrefixOf trimmed)

/-! ## Compiling and deciding -/

def compileGlobs [GlobBuilder] (patterns : List (List Char)) : Except FsError (List GlobMatcher) :=
  (patterns.zipIdx).mapM fun (pattern, index) =>
    match GlobBuilder.build pattern with
    | some glob => .ok glob
    | none => .error (.invalidRule index invalidRuleReason)

def SyncRules.compile [GlobBuilder] (config : SyncRuleConfig) : Except FsError SyncRules := do
  let texts (patterns : List String) := patterns.map String.toList
  pure {
    hardInternal := ← compileGlobs (texts hardInternalExcludes)
    hardEnvSecrets := ← compileGlobs (texts (hardSecretExcludes.take envSecretPatternCount))
    hardOtherSecrets := ← compileGlobs (texts (hardSecretExcludes.drop envSecretPatternCount))
    userExcludes := ← compileGlobs (texts config.excludes)
    userIncludes := ← compileGlobs (texts config.includes)
    defaultExcludes := ← compileGlobs (texts Fs.defaultExcludes)
    defaultIncludes := ← compileGlobs (texts Fs.defaultIncludes)
    userIncludePrefixes := (texts config.includes).map literalPrefix
    protectSecrets := config.protectSecrets }

def SyncRules.decide (rules : SyncRules) (path : WorkspacePath) (isDir : Bool) : RuleDecision :=
  let value := path.chars
  if matchesAny rules.hardInternal value isDir then ⟨false, .hardInternal⟩
  else if rules.protectSecrets && (matchesAny rules.hardOtherSecrets value isDir ||
      (!hasSafeEnvBasename value && matchesAny rules.hardEnvSecrets value isDir)) then ⟨false, .hardSecurity⟩
  else if matchesUserRule rules.userExcludes value isDir then ⟨false, .userExclude⟩
  else if matchesUserRule rules.userIncludes value isDir then ⟨true, .userInclude⟩
  else if matchesAny rules.defaultExcludes value isDir then ⟨false, .defaultExclude⟩
  else ⟨matchesAny rules.defaultIncludes value isDir, .defaultInclude⟩

def SyncRules.shouldDescend (rules : SyncRules) (path : WorkspacePath) : Bool :=
  let decision := rules.decide path true
  match decision.source with
  | .hardInternal | .hardSecurity | .userExclude => false
  | _ =>
    if decision.included then true
    else if decision.source = .defaultExclude then
      rules.userIncludePrefixes.any fun literal => isAncestor path.chars literal
    else false

/-- The filter of the watcher, which does not know what the path is: it must be included as either. -/
def SyncRules.acceptsWatched (rules : SyncRules) (path : WorkspacePath) : Bool :=
  (rules.decide path false).included && (rules.decide path true).included

end Lumio.Fs
