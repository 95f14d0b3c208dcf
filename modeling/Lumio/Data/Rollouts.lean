import Lumio.Proxy.Value

/-!
# Rollout files

A rollout file has one JSON record in each line. Its session records name the provider of the session; a provider sync
rewrites those that name another one.
-/

namespace Lumio.Data

open Proxy (Value SerdeJson)

/-- Writes a member of an object: in its place if the key is there, else at the end. -/
def insertMember (key : String) (value : Value) (members : List (String × Value)) : List (String × Value) :=
  if members.any (·.1 = key) then members.map fun m => if m.1 = key then (key, value) else m
  else members ++ [(key, value)]

def splitLineEnding (segment : Text) : Text × Text :=
  if "\r\n".toList.isSuffixOf segment then (segment.dropLast.dropLast, "\r\n".toList)
  else if "\n".toList.isSuffixOf segment then (segment.dropLast, "\n".toList)
  else (segment, [])

def asciiLower (text : Text) : Text := text.map Char.toLower

def replaceChar (old new : Char) (text : Text) : Text := text.map fun c => if c = old then new else c

def toDesktopWorkspacePath (value : Text) : Option Text :=
  let stripped := Text.trim value
  if stripped.isEmpty then none
  else if "\\\\?\\unc\\".toList.isPrefixOf (asciiLower stripped) then
    some ("\\\\".toList ++ replaceChar '/' '\\' (stripped.drop 8))
  else if "\\\\?\\".toList.isPrefixOf stripped then some (replaceChar '\\' '/' (stripped.drop 4))
  else some stripped

structure RolloutRewrite where
  nextText : Text := []
  rewriteNeeded : Bool := false
  threadId : Option Text := none
  cwd : Option Text := none
  sessionMetaCount : Nat := 0

variable [SerdeJson]

def sessionPayload (record : Value) : Option (List (String × Value)) :=
  if record.str "type" = some "session_meta".toList then
    match record.get "payload" with
    | some (.object payload) => some payload
    | _ => none
  else none

/-- Reads one session record. A record of another provider is written anew. -/
def RolloutRewrite.session (targetProvider line : Text) (members payload : List (String × Value))
    (rewrite : RolloutRewrite) : RolloutRewrite × Text :=
  let next := { rewrite with
    sessionMetaCount := rewrite.sessionMetaCount + 1
    threadId := rewrite.threadId.or ((Value.object payload).str "id")
    cwd := rewrite.cwd.or (((Value.object payload).str "cwd").bind toDesktopWorkspacePath) }
  if (Value.object payload).str "model_provider" = some targetProvider then (next, line)
  else
    let payload := insertMember "model_provider" (.string targetProvider) payload
    ({ next with rewriteNeeded := true },
      SerdeJson.toText (.object (insertMember "payload" (.object payload) members)))

def RolloutRewrite.line (targetProvider line : Text) (rewrite : RolloutRewrite) : RolloutRewrite × Text :=
  if (Text.trim line).isEmpty then (rewrite, line)
  else
    match SerdeJson.fromStr line with
    | some (.object members) =>
      match sessionPayload (.object members) with
      | some payload => rewrite.session targetProvider line members payload
      | none => (rewrite, line)
    | _ => (rewrite, line)

def RolloutRewrite.segment (targetProvider : Text) (rewrite : RolloutRewrite) (segment : Text) : RolloutRewrite :=
  let (line, lineEnding) := splitLineEnding segment
  let (rewrite, nextLine) := rewrite.line targetProvider line
  { rewrite with nextText := rewrite.nextText ++ nextLine ++ lineEnding }

def rewriteRolloutSessionMetaProviders (text targetProvider : Text) : RolloutRewrite :=
  (Text.splitInclusive text).foldl (RolloutRewrite.segment targetProvider) {}

structure SessionChange where
  path : Text
  originalText : Text
  nextText : Text
  threadId : Option Text
  cwd : Option Text
  hasUserEvent : Bool
  rewriteNeeded : Bool

/-- A fault of an I/O operation: the file is locked by someone else, or anything else. -/
inductive IoFault where
  | locked
  | failed
deriving DecidableEq

/-- The change of one file; a file without a session record has none. -/
def sessionChange (targetProvider path text : Text) : Option SessionChange :=
  let rewrite := rewriteRolloutSessionMetaProviders text targetProvider
  if rewrite.sessionMetaCount = 0 then none
  else some
    { path
      originalText := text
      nextText := rewrite.nextText
      threadId := rewrite.threadId
      cwd := rewrite.cwd
      hasUserEvent := Text.contains "\"user_message\"".toList text || Text.contains "\"user_input\"".toList text
      rewriteNeeded := rewrite.rewriteNeeded }

/-- The changes of all rollout files. A locked file is left out; another fault ends the sync. -/
def collectSessionChanges (faults : Text → Option IoFault) (files : Text → Option Text) (targetProvider : Text) :
    List Text → Option (List SessionChange)
  | [] => some []
  | path :: paths =>
    match faults path with
    | some .locked => collectSessionChanges faults files targetProvider paths
    | some .failed => none
    | none =>
      match files path with
      | none => none
      | some text =>
        match collectSessionChanges faults files targetProvider paths with
        | none => none
        | some changes => some ((sessionChange targetProvider path text).toList ++ changes)

end Lumio.Data
