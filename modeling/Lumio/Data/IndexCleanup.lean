import Lumio.Data.Rollouts
import Lumio.Lib.Utf8

/-!
# Cleanup of the session index

The session index has a line for each conversation. A cleanup collects the conversations that are still there, from the
names and the records of rollout files and from the tables of the databases, and takes those confirmed lines out of the
index whose conversation it has not found.
-/

namespace Lumio.Data

open Proxy (Value SerdeJson)

/-! ## Where conversations are found -/

/-- A file below the session directories; `fault` is what reading it ends with, also where it is no text. -/
structure SessionFile where
  name : Text
  text : Text
  fault : Option IoFault

inductive Cell where
  | null
  | text (text : Text)
  | other

structure ReferenceDatabase where
  fails : Bool
  column : String → String → Option (List Cell)

/-- The session files in the order of their paths, unless a directory cannot be read, and the databases. -/
structure CodexHome where
  sessionFiles : Option (List SessionFile)
  databases : List ReferenceDatabase

def threadColumns : List (String × String) :=
  [("threads", "id"), ("local_thread_catalog", "thread_id"), ("automation_runs", "thread_id"), ("inbox_items", "thread_id"),
    ("sessions", "id"), ("messages", "session_id"), ("thread_dynamic_tools", "thread_id"), ("thread_goals", "thread_id"),
    ("thread_spawn_edges", "parent_thread_id"), ("thread_spawn_edges", "child_thread_id"), ("stage1_outputs", "thread_id"),
    ("agent_job_items", "assigned_thread_id")]

def rolloutPrefix : Text := "rollout-".toList

def rolloutSuffix : Text := ".jsonl".toList

def isRolloutFile (file : SessionFile) : Bool := rolloutPrefix.isPrefixOf file.name && rolloutSuffix.isSuffixOf file.name

/-- The end of a text that takes so many bytes; there is none that begins inside a character. -/
def endOfBytes (n : Nat) : Text → Option Text
  | [] => if n = 0 then some [] else none
  | c :: text => if Text.byteLength (c :: text) = n then some (c :: text) else endOfBytes n text

def isHexDigit (c : Char) : Bool := ('0' ≤ c && c ≤ '9') || ('a' ≤ c && c ≤ 'f') || ('A' ≤ c && c ≤ 'F')

def isUuid (candidate : Text) : Bool :=
  candidate.zipIdx.all fun (c, index) => if index = 8 || index = 13 || index = 18 || index = 23 then c = '-' else isHexDigit c

/-- The outer option is empty where the slice begins inside a character, which stops the program. -/
def rolloutThreadIdFromFilename (name : Text) : Option (Option Text) :=
  match (Text.stripPrefix rolloutPrefix name).filter rolloutSuffix.isSuffixOf with
  | none => some none
  | some rest =>
    let stem := rest.take (rest.length - rolloutSuffix.length)
    if Text.byteLength stem < 36 then some none
    else (endOfBytes 36 stem).map fun candidate => if isUuid candidate then some candidate else none

inductive Stop where
  | failed
  | panicked
deriving DecidableEq

def collectAll {α : Type} (find : α → Except Stop (List Text)) : List α → Except Stop (List Text)
  | [] => .ok []
  | x :: xs =>
    match find x with
    | .error stop => .error stop
    | .ok found =>
      match collectAll find xs with
      | .error stop => .error stop
      | .ok more => .ok (found ++ more)

section Records

variable [SerdeJson]

/-- The id of a session record, unless it is blank. -/
def sessionMetaId (line : Text) : Option Text :=
  (((SerdeJson.fromStr line).bind sessionPayload).bind fun payload => (Value.object payload).str "id").filter
    fun id => !(Text.trim id).isEmpty

def sessionMetaIds (text : Text) : List Text :=
  (Text.splitInclusive text).filterMap fun segment => sessionMetaId (splitLineEnding segment).1

/-- A file that is locked is found by its name only. -/
def rolloutIds (file : SessionFile) : Except Stop (List Text) :=
  match rolloutThreadIdFromFilename file.name with
  | none => .error .panicked
  | some named =>
    match file.fault with
    | some .locked => .ok named.toList
    | some .failed => .error .failed
    | none => .ok (named.toList ++ sessionMetaIds file.text)

end Records

/-- `SELECT DISTINCT … WHERE COALESCE(…, '') <> ''`, read as texts. -/
def columnIds : List Cell → Option (List Text)
  | [] => some []
  | .null :: cells => columnIds cells
  | .text text :: cells => (columnIds cells).map fun ids => if text.isEmpty then ids else text :: ids
  | .other :: _ => none

def sqliteThreadIds (db : ReferenceDatabase) : Except Stop (List Text) :=
  if db.fails then .error .failed
  else
    collectAll (fun column =>
      match (db.column column.1 column.2).map columnIds with
      | none => .ok []
      | some none => .error .failed
      | some (some ids) => .ok ids) threadColumns

variable [SerdeJson]

def collectLiveThreadIds (home : CodexHome) : Except Stop (List Text) :=
  match home.sessionFiles with
  | none => .error .failed
  | some files =>
    match collectAll rolloutIds (files.filter isRolloutFile) with
    | .error stop => .error stop
    | .ok ids =>
      match collectAll sqliteThreadIds home.databases with
      | .error stop => .error stop
      | .ok more => .ok (ids ++ more)

/-! ## Lines of the index -/

structure SessionIndexCleanupCandidate where
  id : Text
  threadName : Text
  updatedAt : Text

/-- A line of the known shape has these three members and no other. -/
def knownSessionIndexCandidate (line : Text) : Option SessionIndexCleanupCandidate :=
  match SerdeJson.fromStr line with
  | some (.object members) =>
    let record := Value.object members
    if members.length = 3 then
      (record.str "id").bind fun id =>
        (record.str "thread_name").bind fun threadName =>
          (record.str "updated_at").bind fun updatedAt =>
            if (Text.trim id).isEmpty || (Text.trim updatedAt).isEmpty then none
            else some { id := Text.trim id, threadName, updatedAt }
    else none
  | _ => none

def segmentCandidate (segment : Text) : Option SessionIndexCleanupCandidate :=
  knownSessionIndexCandidate (splitLineEnding segment).1

structure SessionIndexPlan where
  originalBytes : List UInt8
  originalText : Text
  candidates : List SessionIndexCleanupCandidate

inductive IndexRead where
  | missing
  | unreadable
  | bytes (bytes : List UInt8)

inductive CleanupError where
  | appRunning
  | lockHeld
  | threads
  | index
  | indexMissing
  | changedSincePreview
  | notCandidates
  | backup
  | changedBeforeWrite
  | write
deriving DecidableEq

def planSessionIndexCleanup (live : List Text) : IndexRead → Except CleanupError SessionIndexPlan
  | .missing => .error .indexMissing
  | .unreadable => .error .index
  | .bytes originalBytes =>
    match Utf8.decode originalBytes with
    | (originalText, []) => .ok
        { originalBytes, originalText
          candidates := ((Text.splitInclusive originalText).filterMap segmentCandidate).filter fun candidate =>
            candidate.id ∉ live }
    | (_, _ :: _) => .error .index

def isSelected (selected : List Text) (segment : Text) : Bool :=
  match segmentCandidate segment with
  | some candidate => decide (candidate.id ∈ selected)
  | none => false

def filteredSessionIndexText (plan : SessionIndexPlan) (selected : List Text) : Text × Nat :=
  (Text.splitInclusive plan.originalText).foldl (fun (nextText, removedEntries) segment =>
    if isSelected selected segment then (nextText, removedEntries + 1)
    else (nextText ++ (splitLineEnding segment).1 ++ (splitLineEnding segment).2, removedEntries)) ([], 0)

/-! ## The cleanup -/

structure Surroundings where
  home : CodexHome
  /-- The home directory is that of the application, which must not run. -/
  ownHome : Bool
  running : Bool
  lockHeld : Bool
  index : IndexRead
  /-- The fault of the backup, and whether its directory was made before. -/
  backupFault : Option Bool
  /-- What is in the index before the write. -/
  meanwhile : Option (List UInt8)
  started : Bool
  writeFails : Bool

inductive CleanupOutcome where
  | ok (prunedEntries : Nat) (backup : Bool)
  | error (error : CleanupError) (backup : Bool)
  | panicked
deriving DecidableEq

/-- How a cleanup ends, and what it has put in the place of the index. -/
structure Cleanup where
  outcome : CleanupOutcome
  written : Option (List UInt8)

def refuse (error : CleanupError) (backup : Bool) : Cleanup := ⟨.error error backup, none⟩

def selectedIds (confirmed : List Text) : List Text := (confirmed.map Text.trim).filter fun id => !id.isEmpty

/-- Backup, second look and write. -/
def replaceIndex (around : Surroundings) (plan : SessionIndexPlan) (selected : List Text) : Cleanup :=
  let (nextText, removedEntries) := filteredSessionIndexText plan selected
  if removedEntries = 0 then ⟨.ok 0 false, none⟩
  else
    match around.backupFault with
    | some made => refuse .backup made
    | none =>
      match around.meanwhile with
      | none => refuse .index true
      | some currentBytes =>
        if currentBytes ≠ plan.originalBytes then refuse .changedBeforeWrite true
        else if around.ownHome && around.started then refuse .appRunning true
        else if around.writeFails then refuse .write true
        else ⟨.ok removedEntries true, some (Utf8.encode nextText)⟩

def applySessionIndexCleanup (sha256Hex : List UInt8 → Text) (around : Surroundings) (expected : Text) (confirmed : List Text) :
    Cleanup :=
  if around.ownHome && around.running then refuse .appRunning false
  else if around.lockHeld then refuse .lockHeld false
  else
    match collectLiveThreadIds around.home with
    | .error .panicked => ⟨.panicked, none⟩
    | .error .failed => refuse .threads false
    | .ok live =>
      match planSessionIndexCleanup live around.index with
      | .error error => refuse error false
      | .ok plan =>
        if sha256Hex plan.originalBytes ≠ expected then refuse .changedSincePreview false
        else if ∃ id ∈ selectedIds confirmed, id ∉ plan.candidates.map SessionIndexCleanupCandidate.id then
          refuse .notCandidates false
        else replaceIndex around plan (selectedIds confirmed)

end Lumio.Data
