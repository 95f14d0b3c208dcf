import Lumio.Data.Rollouts

/-!
# The global state file

The desktop application keeps its workspace roots in a JSON file. A provider sync writes their paths in one form and
without repetitions.
-/

namespace Lumio.Data

open Proxy (Value SerdeJson)

mutual

/-- Equality of values; the order of members does not matter. -/
def sameValue : Value → Value → Bool
  | .null, .null => true
  | .bool a, .bool b => a = b
  | .number a _, .number b _ => a = b
  | .string a, .string b => a = b
  | .array a, .array b => sameItems a b
  | .object a, .object b => a.length = b.length && sameMembers a b
  | _, _ => false

def sameItems : List Value → List Value → Bool
  | [], [] => true
  | a :: as, b :: bs => sameValue a b && sameItems as bs
  | _, _ => false

def sameMembers : List (String × Value) → List (String × Value) → Bool
  | [], _ => true
  | (key, a) :: as, bs =>
    (match bs.find? (·.1 = key) with
      | some b => sameValue a b.2
      | none => false) && sameMembers as bs

end

def pathArray : Value → List Text
  | .array items => (items.filterMap Value.asStr).filter fun item => !(Text.trim item).isEmpty
  | .string item => if (Text.trim item).isEmpty then [] else [item]
  | _ => []

def comparablePath (path : Text) : Text :=
  asciiLower (((replaceChar '/' '\\' path).reverse.dropWhile (· = '\\')).reverse)

def dedupePaths (paths : List Text) : List Text :=
  (paths.foldl (fun (seen, result) path =>
    match toDesktopWorkspacePath path with
    | none => (seen, result)
    | some desktop =>
      if comparablePath desktop ∈ seen then (seen, result)
      else (comparablePath desktop :: seen, result ++ [desktop])) (([], []) : List Text × List Text)).2

def pathValues (paths : List Text) : Value := .array (paths.map .string)

def resolvedKeys (members : List (String × Value)) : List (String × Value) :=
  members.foldl (fun next member =>
    insertMember ((toDesktopWorkspacePath member.1.toList).map String.ofList |>.getD member.1) member.2 next) []

def activeRoots (value : Value) : Value :=
  match value, dedupePaths (pathArray value) with
  | .array _, normalized => pathValues normalized
  | _, first :: _ => .string first
  | value, [] => value

def openTargets (members : List (String × Value)) : Value :=
  match (Value.object members).get "perPath" with
  | some (.object perPath) => .object (insertMember "perPath" (.object (resolvedKeys perPath)) members)
  | _ => .object members

def normalizedGlobalState (state : Value) : List (String × Value) :=
  let part (key : String) (f : Value → Option Value) := (((state.get key).bind f).map (key, ·)).toList
  part "electron-saved-workspace-roots" (fun value => some (pathValues (dedupePaths (pathArray value)))) ++
  part "project-order" (fun value => some (pathValues (dedupePaths (pathArray value)))) ++
  part "active-workspace-roots" (fun value => some (activeRoots value)) ++
  part "electron-workspace-root-labels" (fun value =>
    match value with
    | .object members => some (.object (resolvedKeys members))
    | _ => none) ++
  part "open-in-target-preferences" (fun value =>
    match value with
    | .object members => some (openTargets members)
    | _ => none)

def countGlobalStateUpdates (state : Value) : Nat :=
  (normalizedGlobalState state).countP fun (key, value) =>
    match state.get key with
    | some old => !sameValue old value
    | none => true

variable [SerdeJson]

/-- `none` if the file is not JSON; a file that is not an object counts as empty. -/
def loadGlobalState : Option Text → Option Value
  | none => some (.object [])
  | some text =>
    match SerdeJson.fromStr text with
    | none => none
    | some (.object members) => some (.object members)
    | some _ => some (.object [])

def loadProjectlessThreadIds (file : Option Text) : Option (List Text) :=
  (loadGlobalState file).map fun state =>
    (((state.get "projectless-thread-ids").bind Value.asArray).getD []).filterMap fun item =>
      item.asStr.filter fun id => !(Text.trim id).isEmpty

def updatedGlobalState (print : Value → Text) (state : Value) : Option Text :=
  if countGlobalStateUpdates state = 0 then none
  else
    match state with
    | .object members =>
      some (print (.object ((normalizedGlobalState state).foldl
        (fun members entry => insertMember entry.1 entry.2 members) members)))
    | _ => none

end Lumio.Data
