import Lumio.Lib.Machine
import Lumio.Lib.Utf8
import Lumio.Proxy.Value

/-!
# Takeover of the Codex configuration

Lumio edits `config.toml` and `auth.json`, and keeps what they held before in one slot for each. A takeover and a
restore are sequences of file operations, and the process can end after any of them. Every single operation is atomic.
-/

namespace Lumio.Desktop

open Lumio.Proxy

abbrev Bytes := List UInt8

structure TakeoverRequest where
  model : Text
  apiKey : Text
  baseUrl : Text
deriving DecidableEq

inductive TakeoverFile where
  | config
  | auth
deriving DecidableEq

namespace TakeoverFile

theorem forall_iff {p : TakeoverFile → Prop} : (∀ f, p f) ↔ p .config ∧ p .auth :=
  ⟨fun h => ⟨h .config, h .auth⟩, fun h f => by cases f; exacts [h.1, h.2]⟩

instance {p : TakeoverFile → Prop} [DecidablePred p] : Decidable (∀ f, p f) := decidable_of_iff _ forall_iff.symm

end TakeoverFile

structure Manifest where
  configSha256 : Text
  authSha256 : Text
  appliedAt : Text
  model : Text
deriving DecidableEq

/-- The formats of the files, which the crates `toml_edit`, `serde_json` and `sha2` read and write. -/
class ConfigFormats where
  Doc : Type
  parseToml : Text → Option Doc
  /-- `doc[path] = value`, which fails where a part of the path is no table -/
  setValue : List Text → Text → Doc → Option Doc
  docBytes : Doc → Bytes
  fromSlice : Bytes → Option Value
  prettyBytes : Value → Bytes
  sha256 : Bytes → Text
  encodeManifest : Manifest → Bytes
  decodeManifest : Bytes → Option Manifest

inductive OriginalState where
  | present
  | absent
deriving DecidableEq

/-- The state of a file before the takeover: its bytes, or a marker that it was not there. -/
structure SnapshotSlot where
  content : Option Bytes
  absent : Bool
deriving DecidableEq

namespace SnapshotSlot

def empty : SnapshotSlot := ⟨none, false⟩

def recorded (slot : SnapshotSlot) : Option OriginalState :=
  if slot.content.isSome then some .present else if slot.absent then some .absent else none

end SnapshotSlot

structure TakeoverDisk where
  file : TakeoverFile → Option Bytes
  slot : TakeoverFile → SnapshotSlot
  manifest : Option Bytes

inductive FileOp where
  | writeSnapshot (f : TakeoverFile) (bytes : Bytes)
  | markAbsent (f : TakeoverFile)
  | writeFile (f : TakeoverFile) (bytes : Bytes)
  | writeManifest (bytes : Bytes)
  | writeBack (f : TakeoverFile) (bytes : Bytes)
  | removeFile (f : TakeoverFile)
  | removeManifest
  | removeSnapshot (f : TakeoverFile)
  | removeMarker (f : TakeoverFile)
deriving DecidableEq

namespace SnapshotSlot

/-- A state that is recorded is not recorded again. -/
def recordOnce (slot : SnapshotSlot) (f : TakeoverFile) (current : Option Bytes) : List FileOp :=
  if slot.recorded.isSome then []
  else
    match current with
    | some bytes => [.writeSnapshot f bytes]
    | none => [.markAbsent f]

def discard (f : TakeoverFile) : List FileOp := [.removeSnapshot f, .removeMarker f]

def restoreOne (slot : SnapshotSlot) (f : TakeoverFile) : OriginalState → List FileOp
  | .present => slot.content.toList.map (.writeBack f)
  | .absent => [.removeFile f]

end SnapshotSlot

inductive TakeoverHealth where
  | notApplied
  | healthy
  | conflicted
deriving DecidableEq

section Formats

variable [ConfigFormats]

open ConfigFormats

def renderConfig (existing : Option Bytes) (request : TakeoverRequest) : Option Bytes := do
  let text ← match existing with
    | some bytes => if (Utf8.decode bytes).2 = [] then some (Utf8.decode bytes).1 else none
    | none => some []
  let doc ← parseToml text
  let doc ← setValue ["model".toList] request.model doc
  let doc ← setValue ["model_provider".toList] "lumio".toList doc
  let provider := fun (key : String) => ["model_providers".toList, "lumio".toList, key.toList]
  let doc ← setValue (provider "name") "Lumio Codex".toList doc
  let doc ← setValue (provider "base_url") request.baseUrl doc
  let doc ← setValue (provider "wire_api") "responses".toList doc
  let doc ← setValue (provider "env_key") "OPENAI_API_KEY".toList doc
  return docBytes doc

def insertMember (key : String) (value : Value) (members : List (String × Value)) : List (String × Value) :=
  if members.any (·.1 = key) then members.map fun m => if m.1 = key then (key, value) else m
  else members ++ [(key, value)]

def renderAuth (existing : Option Bytes) (apiKey : Text) : Option Bytes := do
  let value ← match existing with
    | some (b :: bytes) => fromSlice (b :: bytes)
    | _ => some (.object [])
  match value with
  | .object members => some (prettyBytes (.object (insertMember "OPENAI_API_KEY" (.string apiKey) members)))
  | _ => none

namespace TakeoverDisk

/-- The file operations of `apply_takeover`; `none` if it fails before the first. -/
def applyTakeover (d : TakeoverDisk) (request : TakeoverRequest) (now : Text) : Option (List FileOp) := do
  let configOutput ← renderConfig (d.file .config) request
  let authOutput ← renderAuth (d.file .auth) request.apiKey
  return (d.slot .config).recordOnce .config (d.file .config) ++ (d.slot .auth).recordOnce .auth (d.file .auth) ++
    [FileOp.writeFile .config configOutput, .writeFile .auth authOutput,
      .writeManifest (encodeManifest ⟨sha256 configOutput, sha256 authOutput, now, request.model⟩)]

def restoreRecorded (d : TakeoverDisk) (f : TakeoverFile) : List FileOp :=
  match (d.slot f).recorded with
  | some state => (d.slot f).restoreOne f state
  | none => []

/-- The file operations of `restore`. -/
def restore (d : TakeoverDisk) : Option (List FileOp) :=
  if (d.slot .config).recorded.isNone ∧ (d.slot .auth).recorded.isNone then none
  else some (d.restoreRecorded .config ++ d.restoreRecorded .auth ++
    .removeManifest :: (SnapshotSlot.discard .config ++ SnapshotSlot.discard .auth))

def checkTakeover (d : TakeoverDisk) : TakeoverHealth :=
  match d.manifest with
  | none =>
    if (d.slot .config).recorded.isSome ∨ (d.slot .auth).recorded.isSome then .conflicted else .notApplied
  | some bytes =>
    match decodeManifest bytes with
    | none => .conflicted
    | some manifest =>
      if (d.file .config).map sha256 = some manifest.configSha256 ∧
          (d.file .auth).map sha256 = some manifest.authSha256 then .healthy
      else .conflicted

end TakeoverDisk

/-! ## Runs -/

/-- `before` is no part of the program: what a file held before Lumio's first write to it since it was restored last. -/
structure TakeoverWorld where
  disk : TakeoverDisk
  before : TakeoverFile → Option (Option Bytes)

/-- The user edits a file only while it holds no write of Lumio. A call performs so many of its file operations. -/
inductive TakeoverEvent where
  | applyTakeover (request : TakeoverRequest) (now : Text) (operations : Nat)
  | restore (operations : Nat)
  | checkTakeover
  | edit (f : TakeoverFile) (content : Option Bytes)
deriving DecidableEq

inductive TakeoverOutcome where
  | applied
  | restored
  | failed
  | stopped
  | health (health : TakeoverHealth)
  | edited
  | refused
deriving DecidableEq

namespace TakeoverWorld

def setFile (s : TakeoverWorld) (f : TakeoverFile) (content : Option Bytes) : TakeoverWorld :=
  { s with disk := { s.disk with file := Function.update s.disk.file f content } }

def setSlot (s : TakeoverWorld) (f : TakeoverFile) (slot : SnapshotSlot) : TakeoverWorld :=
  { s with disk := { s.disk with slot := Function.update s.disk.slot f slot } }

def setBefore (s : TakeoverWorld) (f : TakeoverFile) (content : Option (Option Bytes)) : TakeoverWorld :=
  { s with before := Function.update s.before f content }

def setManifest (s : TakeoverWorld) (manifest : Option Bytes) : TakeoverWorld :=
  { s with disk := { s.disk with manifest := manifest } }

def execute (s : TakeoverWorld) : FileOp → TakeoverWorld
  | .writeSnapshot f bytes => s.setSlot f { s.disk.slot f with content := some bytes }
  | .markAbsent f => s.setSlot f { s.disk.slot f with absent := true }
  | .writeFile f bytes => (s.setBefore f (some ((s.before f).getD (s.disk.file f)))).setFile f (some bytes)
  | .writeManifest bytes => s.setManifest (some bytes)
  | .writeBack f bytes => (s.setBefore f none).setFile f (some bytes)
  | .removeFile f => (s.setBefore f none).setFile f none
  | .removeManifest => s.setManifest none
  | .removeSnapshot f => s.setSlot f { s.disk.slot f with content := none }
  | .removeMarker f => s.setSlot f { s.disk.slot f with absent := false }

def executeAll (s : TakeoverWorld) (operations : List FileOp) : TakeoverWorld := operations.foldl execute s

def reached (s : TakeoverWorld) : TakeoverEvent → List FileOp
  | .applyTakeover request now operations => ((s.disk.applyTakeover request now).getD []).take operations
  | .restore operations => (s.disk.restore.getD []).take operations
  | .checkTakeover => []
  | .edit _ _ => []

def finish (operations : Nat) (done : TakeoverOutcome) : Option (List FileOp) → TakeoverOutcome
  | none => .failed
  | some all => if all.length ≤ operations then done else .stopped

def step (s : TakeoverWorld) : TakeoverEvent → TakeoverWorld × TakeoverOutcome
  | .applyTakeover request now operations =>
    (s.executeAll (s.reached (.applyTakeover request now operations)),
      finish operations .applied (s.disk.applyTakeover request now))
  | .restore operations =>
    (s.executeAll (s.reached (.restore operations)), finish operations .restored s.disk.restore)
  | .checkTakeover => (s, .health s.disk.checkTakeover)
  | .edit f content => if (s.before f).isNone then (s.setFile f content, .edited) else (s, .refused)

def initial (files : TakeoverFile → Option Bytes) : TakeoverWorld :=
  ⟨⟨files, fun _ => .empty, none⟩, fun _ => none⟩

end TakeoverWorld

def takeoverMachine : Machine TakeoverWorld TakeoverEvent TakeoverOutcome := ⟨TakeoverWorld.step⟩

end Formats

end Lumio.Desktop
