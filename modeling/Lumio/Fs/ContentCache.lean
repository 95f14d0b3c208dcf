import Lumio.Fs.Interface
import Lumio.Lib.Machine
import Lumio.Lib.Prog

/-!
# The content cache

Contents are kept in files that are named by their hashes. Every way into the cache writes a temporary file first and then
commits it: the file takes the place under its hash if that is free, and goes if what lies there is the content already.
Whatever else lies there stays, and the commit fails.
-/

namespace Lumio.Fs.Content

open Protocol Prog

class Blake3 where
  digest : List Nat → WorkspaceContentHash

structure ContentDescriptor where
  contentHash : WorkspaceContentHash
  size : Nat
  metadata : WorkspaceFileMetadata
  fingerprint : FileFingerprint
deriving DecidableEq

inductive ContentError where
  | fs (error : FsError)
  | unstableFile (path : WorkspacePath)
deriving DecidableEq

/-- An import that has been begun and takes pieces: the bytes of its temporary file, those that the hasher has taken, and
their number. -/
structure StagedContentImport where
  expected : WorkspaceContentHash
  expectedSize : Nat
  file : List Nat
  hashed : List Nat
  written : Nat
  written_eq : written = hashed.length
  written_le : written ≤ expectedSize

structure SealedContentImport where
  expected : WorkspaceContentHash
  size : Nat
  file : List Nat

inductive OpenImport where
  | staged (staged : StagedContentImport)
  | sealed (sealed : SealedContentImport)

/-- What a reader yields, piece by piece, and whether it fails then. -/
structure Reader where
  chunks : List (List Nat)
  fails : Bool

/-- What one attempt to stage an entry sees: the entry before, the opened file, and the entry after. -/
structure Attempt where
  before : Except FsError (Option ObservedEntry)
  opened : Except FsError Reader
  after : Except FsError (Option ObservedEntry)

structure Looks where
  first : Except FsError (Option ObservedEntry)
  attempts : Attempt × Attempt

def syntheticFingerprint (size : Nat) : FileFingerprint := { fileId := 0, size, modifiedAtNs := 0, changedAtNs := 0 }

def present : Except FsError (Option ObservedEntry) → Except FsError ObservedEntry
  | .ok (some entry) => .ok entry
  | .ok none => .error (.io "stage missing entry")
  | .error error => .error error

section

variable [Blake3]

open Blake3 (digest)

/-- The blobs, the rows of the hash cache, the open imports, and the operation that fails if it is performed. -/
structure ContentCache where
  blobs : WorkspaceContentHash → Option (List Nat)
  hashes : WorkspacePath → Option (FileFingerprint × WorkspaceContentHash)
  imports : Nat → Option OpenImport
  failing : Option String

abbrev CacheM := EStateM ContentError ContentCache

def perform (operation : String) : CacheM Unit := do
  if (← get).failing = some operation then throw (.fs (.io operation)) else pure ()

def lift {α : Type} : Except FsError α → CacheM α
  | .ok a => pure a
  | .error error => throw (.fs error)

/-! ## Blobs -/

def blobMatches (hash : WorkspaceContentHash) (size : Nat) : CacheM Bool := do
  perform "stat content cache"
  match (← get).blobs hash with
  | none => pure false
  | some content =>
    if content.length ≠ size then pure false
    else do
      perform "open content cache"
      perform "read content cache"
      pure (digest content = hash)

/-- The look at the final path, of which any failure counts as a path that is free. -/
def finalPathStat : String := "stat final path"

def commitTemporary (temporary : List Nat) (hash : WorkspaceContentHash) (size : Nat) : CacheM Unit := do
  let cache ← get
  if (cache.blobs hash).isSome ∧ cache.failing ≠ some finalPathStat then do
    if ← blobMatches hash size then pure () else throw (.fs .contentMismatch)
  else do
    perform "commit content cache"
    modify fun cache => { cache with blobs := Function.update cache.blobs hash (some temporary) }

/-- An empty piece ends the content. -/
def streamChunks (fails : Bool) : List (List Nat) → List Nat → CacheM (List Nat)
  | [], total => if fails then throw (.fs (.io "read workspace content")) else pure total
  | chunk :: chunks, total =>
    if chunk = [] then pure total
    else if maxBlobBytes < total.length + chunk.length then throw (.fs .sizeMismatch)
    else do
      perform "write content cache"
      streamChunks fails chunks (total ++ chunk)

def streamReader (reader : Reader) : CacheM (List Nat) := do
  perform "create content staging"
  let content ← streamChunks reader.fails reader.chunks []
  perform "flush content cache"
  perform "sync content cache"
  pure content

/-! ## Entries of the workspace -/

def streamObserved (opened : Except FsError Reader) (observed : ObservedEntry) : CacheM (List Nat) := do
  if observed.kind = .symlink then streamReader ⟨[observed.symlinkTarget.getD []], false⟩
  else streamReader (← lift opened)

def lookupHash (path : WorkspacePath) (fingerprint : FileFingerprint) : CacheM (Option WorkspaceContentHash) := do
  perform "read hash cache"
  match (← get).hashes path with
  | some (stored, hash) => pure (if stored = fingerprint then some hash else none)
  | none => pure none

def setHash (operation : String) (path : WorkspacePath) (row : Option (FileFingerprint × WorkspaceContentHash)) :
    CacheM Unit := do
  perform operation
  modify fun cache => { cache with hashes := Function.update cache.hashes path row }

/-- A file that changes while it is read is read once more. -/
def stageAttempts (path : WorkspacePath) : List Attempt → CacheM ContentDescriptor
  | [] => throw (.unstableFile path)
  | attempt :: attempts => do
    let before ← lift (present attempt.before)
    let content ← streamObserved attempt.opened before
    let after ← lift (present attempt.after)
    if before.fingerprint ≠ after.fingerprint then stageAttempts path attempts
    else do
      commitTemporary content (digest content) content.length
      setHash "write hash cache" path (some (after.fingerprint, digest content))
      pure ⟨digest content, content.length, after.metadata, after.fingerprint⟩

def stageWorkspaceEntry (path : WorkspacePath) (looks : Looks) : CacheM ContentDescriptor := do
  let attempts := [looks.attempts.1, looks.attempts.2]
  let observed ← lift (present looks.first)
  match ← lookupHash path observed.fingerprint with
  | none => stageAttempts path attempts
  | some hash => do
    if ← blobMatches hash observed.metadata.size then
      pure ⟨hash, observed.metadata.size, observed.metadata, observed.fingerprint⟩
    else do
      setHash "invalidate hash cache" path none
      stageAttempts path attempts

/-! ## Imports -/

def importedDescriptor (hash : WorkspaceContentHash) (size : Nat) : ContentDescriptor :=
  ⟨hash, size, { size, modifiedAtMs := 0, executable := false }, syntheticFingerprint size⟩

def commitImport (content : List Nat) (hash : WorkspaceContentHash) (size : Nat) : CacheM ContentDescriptor := do
  commitTemporary content hash size
  pure (importedDescriptor hash size)

/-- `import` -/
def importContent (expected : WorkspaceContentHash) (size : Nat) (reader : Reader) : CacheM ContentDescriptor := do
  let content ← streamReader reader
  if content.length ≠ size then throw (.fs .sizeMismatch)
  else if digest content ≠ expected then throw (.fs .contentMismatch)
  else commitImport content expected size

def setImport (handle : Nat) (entry : Option OpenImport) : CacheM Unit :=
  modify fun cache => { cache with imports := Function.update cache.imports handle entry }

def beginStagedImport (handle : Nat) (expected : WorkspaceContentHash) (size : Nat) : CacheM Unit := do
  if maxBlobBytes < size then throw (.fs .sizeMismatch)
  else do
    perform "create content staging"
    setImport handle (some (.staged ⟨expected, size, [], [], 0, rfl, Nat.zero_le size⟩))

/-- A piece of which `kept` bytes are in the file if its writing fails. The import stays open then. -/
def writeChunk (handle : Nat) (staged : StagedContentImport) (bytes : List Nat) (kept : Nat) : CacheM Unit := do
  if h : staged.written + bytes.length ≤ staged.expectedSize ∧ staged.written + bytes.length ≤ maxBlobBytes then do
    if (← get).failing = some "write content staging" then do
      setImport handle (some (.staged { staged with file := staged.file ++ bytes.take kept }))
      throw (.fs (.io "write content staging"))
    else
      setImport handle (some (.staged { staged with
        file := staged.file ++ bytes
        hashed := staged.hashed ++ bytes
        written := staged.written + bytes.length
        written_eq := by rw [List.length_append, staged.written_eq]
        written_le := h.1 }))
  else throw (.fs .sizeMismatch)

/-- An import that is sealed is used up, whatever comes of it. -/
def sealImport (handle : Nat) (staged : StagedContentImport) : CacheM Unit := do
  setImport handle none
  if staged.written ≠ staged.expectedSize then throw (.fs .sizeMismatch)
  else if digest staged.hashed ≠ staged.expected then throw (.fs .contentMismatch)
  else do
    perform "flush content staging"
    perform "sync content staging"
    setImport handle (some (.sealed ⟨staged.expected, staged.expectedSize, staged.file⟩))

inductive Request where
  | stageWorkspaceEntry (path : WorkspacePath) (looks : Looks)
  | importContent (expected : WorkspaceContentHash) (size : Nat) (reader : Reader)
  | beginStagedImport (handle : Nat) (expected : WorkspaceContentHash) (size : Nat)
  | writeChunk (handle : Nat) (bytes : List Nat) (kept : Nat)
  | sealImport (handle : Nat)
  | commit (handle : Nat)
  | drop (handle : Nat)

/-- What a request answers. One for an import that is not open does nothing. -/
def Request.run : Request → CacheM (Option ContentDescriptor)
  | .stageWorkspaceEntry path looks => some <$> Content.stageWorkspaceEntry path looks
  | .importContent expected size reader => some <$> Content.importContent expected size reader
  | .beginStagedImport handle expected size => do
    Content.beginStagedImport handle expected size
    pure none
  | .writeChunk handle bytes kept => do
    match (← get).imports handle with
    | some (.staged staged) => Content.writeChunk handle staged bytes kept
    | _ => pure ()
    pure none
  | .sealImport handle => do
    match (← get).imports handle with
    | some (.staged staged) => Content.sealImport handle staged
    | _ => pure ()
    pure none
  | .commit handle => do
    match (← get).imports handle with
    | some (.sealed sealed) => do
      setImport handle none
      some <$> commitImport sealed.file sealed.expected sealed.size
    | _ => pure none
  | .drop handle => do
    setImport handle none
    pure none

/-- A request, and the operation that fails during it. -/
abbrev Call := Request × Option String

def contentMachine : Machine ContentCache Call (Except ContentError (Option ContentDescriptor)) where
  step cache call :=
    match call.1.run { cache with failing := call.2 } with
    | .ok answer after => (after, .ok answer)
    | .error error after => (after, .error error)

/-! ## Steps that change nothing -/

section

variable {α : Type} {cache : ContentCache} {hash : WorkspaceContentHash} {size : Nat} {path : WorkspacePath}
  {fingerprint : FileFingerprint}

section

omit [Blake3]

theorem perform_keeps (operation : String) : Keeps (fun cache => cache) (perform operation) := by
  refine .bind .get fun cache => ?_
  split
  · exact .throw _
  · exact .pure _

theorem lift_keeps (result : Except FsError α) : Keeps (fun cache => cache) (lift result) := by
  cases result with
  | ok a => exact .pure a
  | error error => exact .throw _

theorem streamReader_keeps (reader : Reader) : Keeps (fun cache => cache) (streamReader reader) := by
  have chunks (chunks : List (List Nat)) (total : List Nat) :
      Keeps (fun cache => cache) (streamChunks reader.fails chunks total) := by
    induction chunks generalizing total with
    | nil =>
      simp only [streamChunks]
      split
      · exact .throw _
      · exact .pure _
    | cons chunk chunks ih =>
      simp only [streamChunks]
      split
      · exact .pure _
      split
      · exact .throw _
      · exact .bind (perform_keeps _) fun _ => ih _
  exact .bind (perform_keeps _) fun _ => .bind (chunks _ _) fun _ => .bind (perform_keeps _) fun _ =>
    .bind (perform_keeps _) fun _ => .pure _

theorem streamObserved_keeps (opened : Except FsError Reader) (observed : ObservedEntry) :
    Keeps (fun cache => cache) (streamObserved opened observed) := by
  unfold streamObserved
  split
  · exact streamReader_keeps _
  · exact .bind (lift_keeps _) fun _ => streamReader_keeps _

theorem lookupHash_wp : wp (lookupHash path fingerprint)
    (fun found after => after = cache ∧ ∀ hash, found = some hash → cache.hashes path = some (fingerprint, hash))
    (fun _ after => after = cache) cache := by
  refine (perform_keeps _).wp_check (fun _ => ?_) fun _ => rfl
  rw [wp_bind, wp_get]
  split
  · rename_i stored hash hrow
    refine ⟨rfl, fun found hfound => ?_⟩
    split at hfound
    · rename_i hsame
      cases hfound
      rw [hrow, hsame]
    · cases hfound
  · exact ⟨rfl, fun _ h => by cases h⟩

end

/-! ## Blobs that are what their names say -/

def ContentCache.Intact (cache : ContentCache) (hash : WorkspaceContentHash) (size : Nat) : Prop :=
  ∃ content, cache.blobs hash = some content ∧ digest content = hash ∧ content.length = size

/-- Blobs stay as they are, and those that come are what their names say. -/
structure Grows (before after : ContentCache) : Prop where
  stays : ∀ hash content, before.blobs hash = some content → after.blobs hash = some content
  comes : ∀ hash content, before.blobs hash = none → after.blobs hash = some content → digest content = hash

theorem Grows.of_blobs {before after : ContentCache} (h : after.blobs = before.blobs) : Grows before after where
  stays _ _ hblob := by rw [h, hblob]
  comes _ _ hnone hsome := by
    rw [h, hnone] at hsome
    cases hsome

theorem Grows.trans {a b c : ContentCache} (hab : Grows a b) (hbc : Grows b c) : Grows a c where
  stays hash content h := hbc.stays hash content (hab.stays hash content h)
  comes hash content hnone hsome := by
    cases hb : b.blobs hash with
    | none => exact hbc.comes hash content hb hsome
    | some stored =>
      rw [hbc.stays hash stored hb] at hsome
      cases hsome
      exact hab.comes hash _ hnone hb

theorem ContentCache.Intact.grows {after : ContentCache} (h : cache.Intact hash size) (hgrows : Grows cache after) :
    after.Intact hash size := by
  obtain ⟨content, hblob, hcontent⟩ := h
  exact ⟨content, hgrows.stays hash content hblob, hcontent⟩

theorem blobMatches_wp : wp (blobMatches hash size)
    (fun found after => after = cache ∧ (found = true → cache.Intact hash size)) (fun _ after => after = cache) cache := by
  refine (perform_keeps _).wp_check (fun _ => ?_) fun _ => rfl
  rw [wp_bind, wp_get]
  split
  · exact ⟨rfl, fun h => by cases h⟩
  · rename_i content hblob
    split
    · exact ⟨rfl, fun h => by cases h⟩
    · rename_i hlength
      refine (perform_keeps _).wp_check (fun _ => (perform_keeps _).wp_check (fun _ => ?_) fun _ => rfl) fun _ => rfl
      exact ⟨rfl, fun h => ⟨content, hblob, of_decide_eq_true h, not_not.mp hlength⟩⟩

/-- The temporary file of the import is what was expected. -/
def SealedContentImport.Sound (sealed : SealedContentImport) : Prop :=
  digest sealed.file = sealed.expected ∧ sealed.file.length = sealed.size

def ContentCache.SealsSound (cache : ContentCache) : Prop :=
  ∀ handle sealed, cache.imports handle = some (.sealed sealed) → sealed.Sound

structure ContentCache.Safe (cache : ContentCache) : Prop where
  looks : cache.failing ≠ some finalPathStat
  seals : cache.SealsSound

/-- A commit that looks at the final path replaces no blob. -/
structure Commits (cache after : ContentCache) : Prop where
  grows : cache.failing ≠ some finalPathStat → Grows cache after
  hashes : after.hashes = cache.hashes
  imports : after.imports = cache.imports
  failing : after.failing = cache.failing

theorem commitTemporary_wp {content : List Nat} (hdigest : digest content = hash) (hlength : content.length = size) :
    wp (commitTemporary content hash size) (fun _ after => Commits cache after ∧ after.Intact hash size)
      (fun _ after => after = cache) cache := by
  rw [commitTemporary, wp_bind, wp_get]
  split
  · refine wp_seq blobMatches_wp ?_
    rintro found after ⟨rfl, hfound⟩
    split
    · rename_i htrue
      exact ⟨⟨fun _ => .of_blobs rfl, rfl, rfl, rfl⟩, hfound htrue⟩
    · rfl
  · rename_i hfree
    refine (perform_keeps _).wp_check (fun _ => ?_) fun _ => rfl
    refine ⟨⟨fun hlooks => ⟨fun other stored h => ?_, fun other stored hnone hsome => ?_⟩, rfl, rfl, rfl⟩,
      ⟨content, Function.update_self .., hdigest, hlength⟩⟩
    · have hne : other ≠ hash := by
        rintro rfl
        exact hfree ⟨by rw [h]; rfl, hlooks⟩
      rw [← h]
      exact Function.update_of_ne hne _ _
    · by_cases hother : other = hash
      · subst hother
        simp only [Function.update_self, Option.some.injEq] at hsome
        rw [← hsome, hdigest]
      · simp only [Function.update_of_ne hother, hnone] at hsome
        cases hsome

/-! ## Hashes that are those of the entries -/

/-- What a row of the hash cache may mean. -/
abbrev Meaning := WorkspacePath → FileFingerprint → WorkspaceContentHash → Prop

def ContentCache.Holds (cache : ContentCache) (valid : Meaning) : Prop :=
  ∀ path fingerprint hash, cache.hashes path = some (fingerprint, hash) → valid path fingerprint hash

def Attempt.Reads (attempt : Attempt) (valid : FileFingerprint → WorkspaceContentHash → Prop) : Prop :=
  ∀ before after, present attempt.before = .ok before → present attempt.after = .ok after →
    before.fingerprint = after.fingerprint →
      Returns (fun content => valid after.fingerprint (digest content)) (streamObserved attempt.opened before)

def Request.Reads (valid : Meaning) : Request → Prop
  | .stageWorkspaceEntry path looks => looks.attempts.1.Reads (valid path) ∧ looks.attempts.2.Reads (valid path)
  | _ => True

variable {valid : Meaning} {sound : Prop}

/-- What a sound request does to the blobs of a safe cache, and any request to the rows of the hash cache. -/
structure Kept (valid : Meaning) (sound : Prop) (before after : ContentCache) : Prop where
  safe : sound → before.Safe → Grows before after ∧ after.Safe
  hashes : before.Holds valid → after.Holds valid

theorem Kept.of_eq {before after : ContentCache} (hblobs : after.blobs = before.blobs) (hhashes : after.hashes = before.hashes)
    (hfailing : after.failing = before.failing) (hseals : sound → before.SealsSound → after.SealsSound) :
    Kept valid sound before after where
  safe hsound h := ⟨.of_blobs hblobs, ⟨by rw [hfailing]; exact h.looks, hseals hsound h.seals⟩⟩
  hashes h path := by rw [hhashes]; exact h path

theorem Kept.refl (cache : ContentCache) : Kept valid sound cache cache := .of_eq rfl rfl rfl fun _ h => h

theorem Kept.trans {a b c : ContentCache} (hab : Kept valid sound a b) (hbc : Kept valid sound b c) : Kept valid sound a c where
  safe hsound h :=
    have hb := hab.safe hsound h
    have hc := hbc.safe hsound hb.2
    ⟨hb.1.trans hc.1, hc.2⟩
  hashes h := hbc.hashes (hab.hashes h)

theorem Commits.kept {after : ContentCache} (h : Commits cache after) : Kept valid sound cache after where
  safe _ hsafe := ⟨h.grows hsafe.looks,
    ⟨by rw [h.failing]; exact hsafe.looks, fun handle => by rw [h.imports]; exact hsafe.seals handle⟩⟩
  hashes hholds path := by rw [h.hashes]; exact hholds path

theorem setHash_wp (operation : String) {row : Option (FileFingerprint × WorkspaceContentHash)}
    (hrow : ∀ fingerprint hash, row = some (fingerprint, hash) → valid path fingerprint hash) :
    wp (setHash operation path row) (fun _ after => Kept valid sound cache after ∧ after.blobs = cache.blobs)
      (fun _ => Kept valid sound cache) cache := by
  refine (perform_keeps _).wp_check (fun _ => ⟨⟨fun _ hsafe => ⟨.of_blobs rfl, hsafe.1, hsafe.2⟩, ?_⟩, rfl⟩) fun _ => .refl _
  intro h other fingerprint hash hother
  by_cases hpath : other = path
  · subst hpath
    simp only [Function.update_self] at hother
    exact hrow fingerprint hash hother
  · simp only [Function.update_of_ne hpath] at hother
    exact h other fingerprint hash hother

def Describes (valid : FileFingerprint → WorkspaceContentHash → Prop) (descriptor : ContentDescriptor)
    (cache : ContentCache) : Prop :=
  cache.Intact descriptor.contentHash descriptor.size ∧ valid descriptor.fingerprint descriptor.contentHash

theorem stageAttempts_wp {attempts : List Attempt} (h : ∀ attempt ∈ attempts, attempt.Reads (valid path)) :
    wp (stageAttempts path attempts) (fun descriptor after => Kept valid sound cache after ∧ Describes (valid path) descriptor after)
      (fun _ => Kept valid sound cache) cache := by
  induction attempts with
  | nil => exact .refl _
  | cons attempt attempts ih =>
    cases hbefore : present attempt.before with
    | error error =>
      simp only [stageAttempts, hbefore, lift, wp_bind, wp_throw]
      exact .refl _
    | ok before =>
      simp only [stageAttempts, hbefore, lift, wp_bind, wp_pure]
      cases hafter : present attempt.after with
      | error error =>
        refine wp_mono (streamObserved_keeps _ _ cache) ?_ ?_
        · rintro content after rfl
          exact .refl _
        · rintro error after rfl
          exact .refl _
      | ok after =>
        by_cases hsame : before.fingerprint = after.fingerprint
        · have hreads := h attempt (by simp) before after hbefore hafter hsame
          refine wp_mono (wp_and (streamObserved_keeps _ _ cache) (hreads cache)) ?_ ?_
          · rintro content reached ⟨rfl, hvalid⟩
            simp only [hsame, ne_eq, not_true_eq_false, if_false, wp_pure, wp_bind]
            refine wp_mono (commitTemporary_wp rfl rfl) ?_ ?_
            · rintro - committed ⟨hcommits, hintact⟩
              have hkept : Kept valid sound reached committed := hcommits.kept
              rw [wp_bind]
              refine wp_mono (setHash_wp _ ?_) (fun _ final hfinal => ?_) fun _ _ hfinal => hkept.trans hfinal
              · rintro fingerprint hash h
                cases h
                exact hvalid
              · exact ⟨hkept.trans hfinal.1, hintact.grows (.of_blobs hfinal.2), hvalid⟩
            · rintro - committed rfl
              exact .refl _
          · rintro error reached ⟨rfl, -⟩
            exact .refl _
        · refine wp_mono (streamObserved_keeps _ _ cache) ?_ ?_
          · rintro content reached rfl
            simp only [ne_eq, hsame, not_false_eq_true, if_true, wp_bind, wp_pure]
            exact ih fun attempt hmem => h attempt (by simp [hmem])
          · rintro error reached rfl
            exact .refl _

theorem stageWorkspaceEntry_wp {looks : Looks} (hholds : cache.Holds valid)
    (h : (Request.stageWorkspaceEntry path looks).Reads valid) :
    wp (stageWorkspaceEntry path looks)
      (fun descriptor after => Kept valid sound cache after ∧ Describes (valid path) descriptor after)
      (fun _ => Kept valid sound cache) cache := by
  have attempts (reached : ContentCache) : wp (stageAttempts path [looks.attempts.1, looks.attempts.2])
      (fun descriptor after => Kept valid sound reached after ∧ Describes (valid path) descriptor after)
      (fun _ => Kept valid sound reached) reached := stageAttempts_wp (by simpa [Request.Reads] using h)
  cases hfirst : present looks.first with
  | error error =>
    simp only [stageWorkspaceEntry, hfirst, lift, wp_bind, wp_throw]
    exact .refl _
  | ok observed =>
    simp only [stageWorkspaceEntry, hfirst, lift, wp_bind, wp_pure]
    refine wp_mono lookupHash_wp ?_ ?_
    · rintro found reached ⟨rfl, hfound⟩
      cases found with
      | none => exact attempts reached
      | some hash =>
        rw [wp_bind]
        refine wp_mono blobMatches_wp ?_ ?_
        · rintro found after ⟨rfl, hmatches⟩
          split
          · rename_i htrue
            exact ⟨.refl _, hmatches htrue, hholds path _ hash (hfound hash rfl)⟩
          · refine wp_seq (setHash_wp _ fun _ _ h => by cases h) ?_
            rintro _ after ⟨hkept, -⟩
            exact wp_mono (attempts after) (fun _ _ h => ⟨hkept.trans h.1, h.2⟩) fun _ _ h => hkept.trans h
        · rintro error after rfl
          exact .refl _
    · rintro error reached rfl
      exact .refl _

/-- Only a sealed import that comes has to be sound. -/
theorem setImport_kept (handle : Nat) {entry : Option OpenImport}
    (hentry : sound → ∀ sealed, entry = some (.sealed sealed) → sealed.Sound) :
    Kept valid sound cache { cache with imports := Function.update cache.imports handle entry } := by
  refine .of_eq rfl rfl rfl fun hsound hseals other sealed hsealed => ?_
  by_cases hother : other = handle
  · subst hother
    simp only [Function.update_self] at hsealed
    exact hentry hsound sealed hsealed
  · simp only [Function.update_of_ne hother] at hsealed
    exact hseals other sealed hsealed

theorem setImport_moves (handle : Nat) {entry : Option OpenImport}
    (hentry : sound → ∀ sealed, entry = some (.sealed sealed) → sealed.Sound) :
    Moves (Kept valid sound) (setImport handle entry) := fun _ => setImport_kept handle hentry

theorem beginStagedImport_moves (handle : Nat) : Moves (Kept valid sound) (beginStagedImport handle hash size) := by
  intro cache
  unfold beginStagedImport
  split
  · exact .refl _
  · exact (perform_keeps _).wp_check (fun _ => setImport_moves _ (fun _ _ h => by cases h) _) fun _ => .refl _

theorem writeChunk_moves (handle : Nat) (staged : StagedContentImport) (bytes : List Nat) (kept : Nat) :
    Moves (Kept valid sound) (writeChunk handle staged bytes kept) := by
  intro cache
  unfold writeChunk
  split
  · rw [wp_bind, wp_get]
    split
    · exact setImport_kept _ fun _ _ h => by cases h
    · exact setImport_kept _ fun _ _ h => by cases h
  · exact .refl _

theorem sealImport_moves (handle : Nat) (staged : StagedContentImport) (hfile : sound → staged.file = staged.hashed) :
    Moves (Kept valid sound) (sealImport handle staged) := by
  refine Moves.bind Kept.trans (setImport_moves _ fun _ _ h => by cases h) fun _ cache => ?_
  split
  · exact .refl _
  rename_i hlength
  split
  · exact .refl _
  rename_i hdigest
  refine (perform_keeps _).wp_check (fun _ => (perform_keeps _).wp_check (fun _ => ?_) fun _ => .refl _) fun _ => .refl _
  refine setImport_kept _ fun hsound sealed hsealed => ?_
  cases hsealed
  rw [SealedContentImport.Sound, hfile hsound, ← staged.written_eq]
  exact ⟨not_not.mp hdigest, not_not.mp hlength⟩

theorem commitImport_wp {content : List Nat} (hdigest : digest content = hash) (hlength : content.length = size) :
    wp (commitImport content hash size)
      (fun descriptor after => Kept valid sound cache after ∧ after.Intact descriptor.contentHash descriptor.size)
      (fun _ => Kept valid sound cache) cache := by
  rw [commitImport, wp_bind]
  refine wp_mono (commitTemporary_wp hdigest hlength) ?_ ?_
  · rintro - after ⟨hcommits, hintact⟩
    exact ⟨hcommits.kept, hintact⟩
  · rintro error after rfl
    exact .refl _

theorem commitImport_hashes (content : List Nat) (hash : WorkspaceContentHash) (size : Nat) :
    Keeps (·.hashes) (commitImport content hash size) := by
  have performed (operation : String) : Keeps (fun cache : ContentCache => cache.hashes) (perform operation) :=
    (perform_keeps operation).comp fun _ _ h => congrArg _ h
  have matched : Keeps (fun cache : ContentCache => cache.hashes) (blobMatches hash size) := fun cache =>
    wp_mono blobMatches_wp (fun _ _ h => congrArg _ h.1) fun _ _ h => congrArg _ h
  refine .bind (.bind .get fun cache => ?_) fun _ => .pure _
  split
  · refine .bind matched fun found => ?_
    split
    · exact .pure _
    · exact .throw _
  · exact .bind (performed _) fun _ => .modify fun _ => rfl

/-- A descriptor that answers a request is that of a blob, and that of the entry if it is for one of the workspace. -/
structure Answered (valid : Meaning) (request : Request) (answer : Option ContentDescriptor) (safe : Prop)
    (cache : ContentCache) : Prop where
  blob : safe → ∀ descriptor, answer = some descriptor → cache.Intact descriptor.contentHash descriptor.size
  entry : ∀ descriptor path looks, answer = some descriptor → request = .stageWorkspaceEntry path looks →
    valid path descriptor.fingerprint descriptor.contentHash

/-- The temporary file holds what the hasher has taken. -/
def OpenImport.whole : OpenImport → Bool
  | .staged begun => decide (begun.file = begun.hashed)
  | .sealed _ => true

/-- The import that the request seals holds nothing but what was hashed. -/
def Request.SoundIn (request : Request) (cache : ContentCache) : Prop :=
  match request with
  | .sealImport handle => (cache.imports handle).all OpenImport.whole = true
  | _ => True

instance Request.decidableSoundIn (cache : ContentCache) : (request : Request) → Decidable (request.SoundIn cache)
  | .sealImport handle => inferInstanceAs (Decidable ((cache.imports handle).all OpenImport.whole = true))
  | .stageWorkspaceEntry .. | .importContent .. | .beginStagedImport .. | .writeChunk .. | .commit .. | .drop .. =>
    inferInstanceAs (Decidable True)

theorem Request.run_wp (request : Request) (hholds : cache.Holds valid) (hreads : request.Reads valid) :
    wp request.run (fun answer after => Kept valid (request.SoundIn cache) cache after ∧
        Answered valid request answer (request.SoundIn cache ∧ cache.Safe) after)
      (fun _ => Kept valid (request.SoundIn cache) cache) cache := by
  have silent {sound safe : Prop} {m : CacheM Unit} (hm : Moves (Kept valid sound) m) (reached : ContentCache) :
      wp (do m; pure none) (fun answer after => Kept valid sound reached after ∧ Answered valid request answer safe after)
        (fun _ => Kept valid sound reached) reached := by
    exact wp_seq (hm reached) fun _ after hkept => ⟨hkept, ⟨fun _ _ h => (by cases h), fun _ _ _ h => by cases h⟩⟩
  have unchanged {sound : Prop} : Moves (Kept valid sound) (pure () : CacheM Unit) := fun _ => .refl _
  cases request with
  | stageWorkspaceEntry path looks =>
    rw [Request.run, wp_map]
    refine wp_mono (stageWorkspaceEntry_wp hholds hreads) ?_ fun _ _ h => h
    rintro descriptor after ⟨hkept, hintact, hvalid⟩
    refine ⟨hkept, fun _ answer hanswer => ?_, fun answer _ _ hanswer hrequest => ?_⟩
    · cases hanswer
      exact hintact
    · cases hanswer
      cases hrequest
      exact hvalid
  | importContent expected size reader =>
    rw [Request.run, wp_map]
    refine (streamReader_keeps _).wp_check (fun content => ?_) fun _ => .refl _
    split
    · exact .refl _
    rename_i hlength
    split
    · exact .refl _
    rename_i hdigest
    refine wp_mono (commitImport_wp (not_not.mp hdigest) (not_not.mp hlength)) ?_ fun _ _ h => h
    rintro descriptor after ⟨hkept, hintact⟩
    refine ⟨hkept, fun _ answer hanswer => ?_, fun _ _ _ _ h => by cases h⟩
    cases hanswer
    exact hintact
  | beginStagedImport handle expected size => exact silent (beginStagedImport_moves handle) cache
  | writeChunk handle bytes kept =>
    rw [Request.run, wp_bind, wp_get]
    split
    · exact silent (writeChunk_moves handle _ bytes kept) cache
    · exact silent unchanged cache
  | sealImport handle =>
    rw [Request.run, wp_bind, wp_get]
    split
    · rename_i staged hstaged
      refine silent (sealImport_moves handle staged fun hsound => ?_) cache
      rw [Request.SoundIn, hstaged] at hsound
      exact of_decide_eq_true hsound
    · exact silent unchanged cache
  | commit handle =>
    rw [Request.run, wp_bind, wp_get]
    split
    · rename_i sealed hsealed
      refine wp_seq (setImport_moves handle (fun _ _ h => by cases h) cache) fun _ reached hreached => ?_
      rw [wp_map]
      by_cases hsound : sealed.Sound
      · refine wp_mono (commitImport_wp hsound.1 hsound.2) ?_ fun _ _ h => hreached.trans h
        rintro descriptor after ⟨hkept, hintact⟩
        refine ⟨hreached.trans hkept, fun _ answer hanswer => ?_, fun _ _ _ _ h => by cases h⟩
        cases hanswer
        exact hintact
      · -- a file that is not what was expected is committed all the same
        have htorn (hsafe : cache.Safe) : False := hsound (hsafe.seals handle sealed hsealed)
        have hkept (after : ContentCache) (h : after.hashes = reached.hashes) :
            Kept valid ((Request.commit handle).SoundIn cache) cache after :=
          ⟨fun _ hsafe => (htorn hsafe).elim, fun hrows path => by rw [h]; exact hreached.hashes hrows path⟩
        exact wp_mono (commitImport_hashes _ _ _ reached)
          (fun _ after h => ⟨hkept after h, fun hsafe => (htorn hsafe.2).elim, fun _ _ _ _ h => by cases h⟩)
          fun _ after h => hkept after h
    · exact silent unchanged cache
  | drop handle => exact silent (setImport_moves handle fun _ _ h => by cases h) cache

/-! ## Runs -/

theorem step_kept {call : Call} (hholds : cache.Holds valid) (hreads : call.1.Reads valid) :
    Kept valid (call.1.SoundIn cache) { cache with failing := call.2 } (contentMachine.step cache call).1 ∧
      ∀ answer, (contentMachine.step cache call).2 = .ok answer → Answered valid call.1 answer
        (call.1.SoundIn cache ∧ ContentCache.Safe { cache with failing := call.2 }) (contentMachine.step cache call).1 := by
  have hrun := Request.run_wp call.1 (show ContentCache.Holds { cache with failing := call.2 } valid from hholds) hreads
  unfold wp at hrun
  simp only [contentMachine]
  split at hrun
  · rename_i answer after heq
    rw [heq]
    refine ⟨hrun.1, fun other hother => ?_⟩
    cases hother
    exact hrun.2
  · rename_i error after heq
    rw [heq]
    exact ⟨hrun, fun _ h => by cases h⟩

/-- No look at the final path fails, and no import is sealed whose file holds other bytes than those that were hashed. -/
structure CommitsWhatWasHashed (cache : ContentCache) (call : Call) : Prop where
  looks : call.2 ≠ some finalPathStat
  sound : call.1.SoundIn cache

instance decidableCommits (cache : ContentCache) (call : Call) : Decidable (CommitsWhatWasHashed cache call) :=
  decidable_of_iff (call.2 ≠ some finalPathStat ∧ call.1.SoundIn cache) ⟨fun h => ⟨h.1, h.2⟩, fun h => ⟨h.looks, h.sound⟩⟩

theorem reads_any (request : Request) : request.Reads fun _ _ _ => True := by
  cases request with
  | stageWorkspaceEntry path looks => exact ⟨fun _ _ _ _ _ => .any _, fun _ _ _ _ _ => .any _⟩
  | _ => trivial

/-- Whatever the directory of the blobs holds and whatever else fails, no request replaces or removes a blob, the blobs that
come are what their names say, and a descriptor is that of a blob from its answer on. -/
theorem blobs_sound {start : ContentCache} {calls : List Call} (hseals : start.SealsSound)
    (hmeets : contentMachine.Meets CommitsWhatWasHashed start calls) :
    Grows start (contentMachine.run start calls) ∧
      ∀ e ∈ contentMachine.log start calls, ∀ descriptor, e.answer = .ok (some descriptor) →
        (contentMachine.run start calls).Intact descriptor.contentHash descriptor.size := by
  have hrun := Machine.invariant (I := fun cache log => cache.SealsSound ∧ Grows start cache ∧
    ∀ e ∈ log, ∀ descriptor, e.answer = .ok (some descriptor) → cache.Intact descriptor.contentHash descriptor.size)
    ?_ hmeets ⟨hseals, .of_blobs rfl, fun _ h => by cases h⟩
  · exact hrun.2
  rintro cache past call hcall ⟨hsound, hgrown, hpast⟩
  have hany : cache.Holds fun _ _ _ => True := fun _ _ _ _ => trivial
  obtain ⟨hkept, hanswered⟩ := step_kept hany (reads_any call.1)
  have hsafe : ContentCache.Safe { cache with failing := call.2 } := ⟨hcall.looks, hsound⟩
  obtain ⟨hgrows, hafter⟩ := hkept.safe hcall.sound hsafe
  have hgrows : Grows cache (contentMachine.step cache call).1 := ⟨hgrows.stays, hgrows.comes⟩
  refine ⟨hafter.seals, hgrown.trans hgrows, fun e he descriptor hanswer => ?_⟩
  rcases List.mem_append.mp he with he | he
  · exact (hpast e he descriptor hanswer).grows hgrows
  · obtain rfl := List.mem_singleton.mp he
    exact (hanswered _ hanswer).blob ⟨hcall.sound, hsafe⟩ descriptor rfl

def HashOf (contents : WorkspacePath → FileFingerprint → List Nat) (path : WorkspacePath) (fingerprint : FileFingerprint)
    (hash : WorkspaceContentHash) : Prop :=
  hash = digest (contents path fingerprint)

/-- If the fingerprints of an entry tell its contents apart, every descriptor of the entry has the hash of the content that
its fingerprint stands for, also where it comes from the hash cache. -/
theorem hashes_honest {contents : WorkspacePath → FileFingerprint → List Nat} {start : ContentCache}
    {calls : List Call} (hholds : start.Holds (HashOf contents))
    (hreads : ∀ call ∈ calls, call.1.Reads (HashOf contents)) :
    (contentMachine.run start calls).Holds (HashOf contents) ∧
      ∀ e ∈ contentMachine.log start calls, ∀ path looks descriptor, e.call.1 = .stageWorkspaceEntry path looks →
        e.answer = .ok (some descriptor) → descriptor.contentHash = digest (contents path descriptor.fingerprint) := by
  have hmeets : contentMachine.Meets (fun _ call => call.1.Reads (HashOf contents)) start calls := by
    intro e he
    obtain ⟨pre, post, hsplit, -⟩ := Machine.exists_before he
    exact hreads e.call (by simp [hsplit])
  refine Machine.invariant (I := fun cache log => cache.Holds (HashOf contents) ∧
    ∀ e ∈ log, ∀ path looks descriptor, e.call.1 = .stageWorkspaceEntry path looks →
      e.answer = .ok (some descriptor) → descriptor.contentHash = digest (contents path descriptor.fingerprint))
    ?_ hmeets ⟨hholds, fun _ h => by cases h⟩
  rintro cache past call hcall ⟨hrows, hpast⟩
  obtain ⟨hkept, hanswered⟩ := step_kept hrows hcall
  refine ⟨hkept.hashes hrows, fun e he path looks descriptor hrequest hanswer => ?_⟩
  rcases List.mem_append.mp he with he | he
  · exact hpast e he path looks descriptor hrequest hanswer
  · obtain rfl := List.mem_singleton.mp he
    exact (hanswered _ hanswer).entry descriptor path looks rfl hrequest

/-! ## Imports in pieces -/

variable {handle : Nat} {expected : WorkspaceContentHash}

omit [Blake3] in
theorem perform_eq (hfailing : cache.failing = none) (operation : String) : perform operation cache = .ok () cache := by
  unfold perform
  rw [bind_of_ok get_apply, if_neg (by simp [hfailing])]
  rfl

omit [Blake3] in
theorem streamChunks_eq (hfailing : cache.failing = none) : ∀ {chunks : List (List Nat)} {total : List Nat},
    (∀ chunk ∈ chunks, chunk ≠ []) → total.length + chunks.flatten.length ≤ maxBlobBytes →
      streamChunks false chunks total cache = .ok (total ++ chunks.flatten) cache
  | [], total, _, _ => by simp [streamChunks, pure, EStateM.pure]
  | chunk :: chunks, total, hchunks, hmax => by
    simp only [List.flatten_cons, List.length_append] at hmax
    have hnext : ¬maxBlobBytes < total.length + chunk.length := by omega
    rw [streamChunks, if_neg (hchunks chunk (by simp)), if_neg hnext, bind_of_ok (perform_eq hfailing _),
      streamChunks_eq hfailing (fun other hmem => hchunks other (by simp [hmem]))
        (by rw [List.length_append]; omega)]
    simp

def inPieces (handle : Nat) (expected : WorkspaceContentHash) (size : Nat) (pieces : List (List Nat)) :
    List Call :=
  (.beginStagedImport handle expected size, none) ::
    (pieces.map fun piece => (.writeChunk handle piece 0, none)) ++ [(.sealImport handle, none)]

theorem step_of_ok {answer : Option ContentDescriptor} {after : ContentCache} (cache : ContentCache) (call : Call)
    (h : call.1.run { cache with failing := call.2 } = .ok answer after) :
    contentMachine.step cache call = (after, .ok answer) := by
  simp only [contentMachine, h]

theorem step_of_error {error : ContentError} {after : ContentCache} (cache : ContentCache) (call : Call)
    (h : call.1.run { cache with failing := call.2 } = .error error after) :
    contentMachine.step cache call = (after, .error error) := by
  simp only [contentMachine, h]

def ContentCache.withImport (cache : ContentCache) (handle : Nat) (entry : Option OpenImport) : ContentCache :=
  { cache with failing := none, imports := Function.update cache.imports handle entry }

section

omit [Blake3]

theorem withImport_imports (entry : Option OpenImport) : (cache.withImport handle entry).imports handle = entry :=
  Function.update_self ..

theorem withImport_withImport (first second : Option OpenImport) :
    (cache.withImport handle first).withImport handle second = cache.withImport handle second := by
  simp only [ContentCache.withImport, Function.update_idem]

theorem setImport_eq (first second : Option OpenImport) :
    setImport handle second (cache.withImport handle first) = .ok () (cache.withImport handle second) :=
  congrArg (EStateM.Result.ok ()) (withImport_withImport first second)

end

/-- An import in whose file the pieces are. -/
def stagedPieces (expected : WorkspaceContentHash) (size : Nat) (content : List Nat) (h : content.length ≤ size) :
    StagedContentImport :=
  ⟨expected, size, content, content, content.length, rfl, h⟩

theorem step_writeChunk {content bytes : List Nat} {h : content.length ≤ size} (hsize : (content ++ bytes).length ≤ size)
    (hmax : size ≤ maxBlobBytes) :
    (contentMachine.step (cache.withImport handle (some (.staged (stagedPieces expected size content h))))
        (.writeChunk handle bytes 0, none)).1 =
      cache.withImport handle (some (.staged (stagedPieces expected size (content ++ bytes) hsize))) := by
  have hlength : content.length + bytes.length ≤ size := by rwa [← List.length_append]
  have hwrite : writeChunk handle (stagedPieces expected size content h) bytes 0
      (cache.withImport handle (some (.staged (stagedPieces expected size content h)))) =
      .ok () (cache.withImport handle (some (.staged (stagedPieces expected size (content ++ bytes) hsize)))) := by
    unfold writeChunk
    rw [dif_pos ⟨hlength, Nat.le_trans hlength hmax⟩, bind_of_ok get_apply, if_neg (by simp [ContentCache.withImport]),
      setImport_eq]
    simp [stagedPieces]
  have hrun : (Request.writeChunk handle bytes 0).run
      (cache.withImport handle (some (.staged (stagedPieces expected size content h)))) =
      .ok none (cache.withImport handle (some (.staged (stagedPieces expected size (content ++ bytes) hsize)))) := by
    rw [Request.run, bind_of_ok get_apply]
    simp only [withImport_imports]
    rw [bind_of_ok hwrite]
    rfl
  rw [step_of_ok _ _ hrun]

theorem run_writes (cache : ContentCache) (handle : Nat) (expected : WorkspaceContentHash) (hmax : size ≤ maxBlobBytes) :
    ∀ (pieces : List (List Nat)) (content : List Nat) (h : content.length ≤ size)
      (hall : (content ++ pieces.flatten).length ≤ size),
      contentMachine.run (cache.withImport handle (some (.staged (stagedPieces expected size content h))))
          (pieces.map fun piece => (.writeChunk handle piece 0, none)) =
        cache.withImport handle (some (.staged (stagedPieces expected size (content ++ pieces.flatten) hall)))
  | [], content, h, hall => by simp [Machine.run]
  | piece :: pieces, content, h, hall => by
    have hnext : (content ++ piece).length ≤ size := by
      simp only [List.flatten_cons, List.length_append] at hall ⊢
      omega
    have hrest : ((content ++ piece) ++ pieces.flatten).length ≤ size := by
      rwa [List.append_assoc, ← List.flatten_cons]
    rw [List.map_cons, Machine.run, step_writeChunk hnext hmax, run_writes cache handle expected hmax pieces _ hnext hrest]
    simp only [List.flatten_cons, List.append_assoc]

theorem blobMatches_eq {stored : List Nat} (hfailing : cache.failing = none) (hblob : cache.blobs hash = some stored) :
    blobMatches hash size cache = .ok (decide (stored.length = size ∧ digest stored = hash)) cache := by
  unfold blobMatches
  rw [bind_of_ok (perform_eq hfailing _), bind_of_ok get_apply]
  simp only [hblob]
  by_cases hlength : stored.length = size
  · rw [if_neg (not_not.mpr hlength), bind_of_ok (perform_eq hfailing _), bind_of_ok (perform_eq hfailing _)]
    simp [hlength, pure, EStateM.pure]
  · rw [if_pos hlength]
    simp [hlength, pure, EStateM.pure]

theorem commitImport_free {content : List Nat} (hfailing : cache.failing = none) (hfree : cache.blobs hash = none) :
    commitImport content hash size cache =
      .ok (importedDescriptor hash size) { cache with blobs := Function.update cache.blobs hash (some content) } := by
  have hcommit : commitTemporary content hash size cache =
      .ok () { cache with blobs := Function.update cache.blobs hash (some content) } := by
    unfold commitTemporary
    rw [bind_of_ok get_apply, hfree, if_neg (by simp), bind_of_ok (perform_eq hfailing _)]
    rfl
  exact bind_of_ok hcommit

theorem commitImport_taken {content stored : List Nat} (hfailing : cache.failing = none)
    (hblob : cache.blobs hash = some stored) :
    commitImport content hash size cache =
      if stored.length = size ∧ digest stored = hash then .ok (importedDescriptor hash size) cache
      else .error (.fs .contentMismatch) cache := by
  have hcommit : commitTemporary content hash size cache =
      if stored.length = size ∧ digest stored = hash then .ok () cache else .error (.fs .contentMismatch) cache := by
    unfold commitTemporary
    rw [bind_of_ok get_apply, hblob, if_pos (by simp [hfailing]), bind_of_ok (blobMatches_eq hfailing hblob)]
    by_cases hintact : stored.length = size ∧ digest stored = hash
    · rw [if_pos (decide_eq_true hintact), if_pos hintact]
      rfl
    · rw [if_neg (by simp [hintact]), if_neg hintact]
      rfl
  split_ifs at hcommit ⊢
  · exact bind_of_ok hcommit
  · exact bind_of_error hcommit

theorem run_importContent {pieces : List (List Nat)} (cache : ContentCache) (expected : WorkspaceContentHash)
    (hfailing : cache.failing = none) (hpieces : ∀ piece ∈ pieces, piece ≠ [])
    (hlength : pieces.flatten.length = size) (hmax : size ≤ maxBlobBytes) :
    importContent expected size ⟨pieces, false⟩ cache =
      if digest pieces.flatten = expected then commitImport pieces.flatten expected size cache
      else .error (.fs .contentMismatch) cache := by
  have hread : streamReader ⟨pieces, false⟩ cache = .ok pieces.flatten cache := by
    unfold streamReader
    rw [bind_of_ok (perform_eq hfailing _), bind_of_ok (streamChunks_eq hfailing hpieces (by simp [hlength, hmax])),
      bind_of_ok (perform_eq hfailing _), bind_of_ok (perform_eq hfailing _)]
    rfl
  unfold importContent
  rw [bind_of_ok hread, if_neg (not_not.mpr hlength)]
  by_cases hdigest : digest pieces.flatten = expected
  · rw [if_pos hdigest, if_neg (not_not.mpr hdigest)]
  · rw [if_neg hdigest, if_pos hdigest]
    rfl

theorem step_sealImport {content : List Nat} (hlength : content.length = size) :
    (contentMachine.step (cache.withImport handle (some (.staged (stagedPieces expected size content (Nat.le_of_eq hlength)))))
        (.sealImport handle, none)).1 =
      cache.withImport handle (if digest content = expected then some (.sealed ⟨expected, size, content⟩) else none) := by
  have hrun : (Request.sealImport handle).run
      (cache.withImport handle (some (.staged (stagedPieces expected size content (Nat.le_of_eq hlength))))) =
      (sealImport handle (stagedPieces expected size content (Nat.le_of_eq hlength)) >>= fun _ => pure none)
        (cache.withImport handle (some (.staged (stagedPieces expected size content (Nat.le_of_eq hlength))))) := by
    rw [Request.run, bind_of_ok get_apply]
    simp only [withImport_imports]
  have hwritten : (stagedPieces expected size content (Nat.le_of_eq hlength)).written =
    (stagedPieces expected size content (Nat.le_of_eq hlength)).expectedSize := hlength
  by_cases hdigest : digest content = expected
  · have hsame : digest (stagedPieces expected size content (Nat.le_of_eq hlength)).hashed =
      (stagedPieces expected size content (Nat.le_of_eq hlength)).expected := hdigest
    have hsealed : sealImport handle (stagedPieces expected size content (Nat.le_of_eq hlength))
        (cache.withImport handle (some (.staged (stagedPieces expected size content (Nat.le_of_eq hlength))))) =
        .ok () (cache.withImport handle (some (.sealed ⟨expected, size, content⟩))) := by
      unfold sealImport
      rw [bind_of_ok (setImport_eq _ _), if_neg (not_not.mpr hwritten), if_neg (not_not.mpr hsame),
        bind_of_ok (perform_eq rfl _), bind_of_ok (perform_eq rfl _), setImport_eq]
      rfl
    rw [step_of_ok _ _ (hrun.trans (bind_of_ok hsealed)), if_pos hdigest]
  · have hother : digest (stagedPieces expected size content (Nat.le_of_eq hlength)).hashed ≠
      (stagedPieces expected size content (Nat.le_of_eq hlength)).expected := hdigest
    have hfails : sealImport handle (stagedPieces expected size content (Nat.le_of_eq hlength))
        (cache.withImport handle (some (.staged (stagedPieces expected size content (Nat.le_of_eq hlength))))) =
        .error (.fs .contentMismatch) (cache.withImport handle none) := by
      unfold sealImport
      rw [bind_of_ok (setImport_eq _ _), if_neg (not_not.mpr hwritten), if_pos hother]
      rfl
    rw [step_of_error _ _ (hrun.trans (bind_of_error hfails)), if_neg hdigest]

theorem run_commit (cache : ContentCache) (handle : Nat) (sealed : SealedContentImport) :
    (Request.commit handle).run (cache.withImport handle (some (.sealed sealed))) =
      (some <$> commitImport sealed.file sealed.expected sealed.size) (cache.withImport handle none) := by
  rw [Request.run, bind_of_ok get_apply]
  simp only [withImport_imports]
  exact bind_of_ok (setImport_eq _ _)

theorem step_commits {reached : ContentCache} {content : List Nat} (start : ContentCache) (call : Call)
    (hrun : call.1.run { start with failing := call.2 } = (some <$> commitImport content hash size) reached)
    (hfailing : reached.failing = none) :
    (contentMachine.step start call).1.blobs =
        (if (reached.blobs hash).isSome then reached.blobs else Function.update reached.blobs hash (some content)) ∧
      ∀ descriptor, (contentMachine.step start call).2 = .ok (some descriptor) ↔
        descriptor = importedDescriptor hash size ∧ (reached.blobs hash = none ∨ reached.Intact hash size) := by
  simp only [contentMachine, hrun, Functor.map, EStateM.map, ContentCache.Intact]
  cases hblob : reached.blobs hash with
  | none => simp [commitImport_free hfailing hblob, eq_comm]
  | some stored =>
    rw [commitImport_taken hfailing hblob]
    by_cases hintact : stored.length = size ∧ digest stored = hash
    · simp [hintact, eq_comm]
    · rw [if_neg hintact]
      rw [and_comm] at hintact
      simp [hintact]

/-- A content goes in piece by piece as it does in one, with the same answer and the same blobs after it, and it does so exactly
if it has the hash that is expected and nothing else lies under this hash. -/
theorem import_in_pieces (cache : ContentCache) (handle : Nat) (expected : WorkspaceContentHash) (pieces : List (List Nat))
    (hpieces : ∀ piece ∈ pieces, piece ≠ []) (hlength : pieces.flatten.length = size)
    (hmax : size ≤ maxBlobBytes) :
    let staged := contentMachine.step (contentMachine.run cache (inPieces handle expected size pieces)) (.commit handle, none)
    let whole := contentMachine.step cache (.importContent expected size ⟨pieces, false⟩, none)
    staged.1.blobs = whole.1.blobs ∧
      (∀ descriptor, staged.2 = .ok (some descriptor) ↔ whole.2 = .ok (some descriptor)) ∧
      ((∃ descriptor, whole.2 = .ok (some descriptor)) ↔
        digest pieces.flatten = expected ∧ (cache.blobs expected = none ∨ cache.Intact expected size)) := by
  have hbegin : Content.beginStagedImport handle expected size { cache with failing := none } =
      .ok () (cache.withImport handle (some (.staged (stagedPieces expected size [] (Nat.zero_le size))))) := by
    unfold Content.beginStagedImport
    rw [if_neg (by omega), bind_of_ok (perform_eq rfl _)]
    rfl
  have hwrites := run_writes cache handle expected hmax pieces [] (Nat.zero_le size) (by simp [hlength])
  have hrun : contentMachine.run cache (inPieces handle expected size pieces) =
      cache.withImport handle (if digest pieces.flatten = expected then
        some (.sealed ⟨expected, size, pieces.flatten⟩) else none) := by
    rw [inPieces, List.cons_append, Machine.run, step_of_ok _ _ (bind_of_ok hbegin), Machine.run_append, hwrites]
    exact step_sealImport hlength
  have himport := run_importContent { cache with failing := none } expected rfl hpieces hlength hmax
  by_cases hdigest : digest pieces.flatten = expected
  · rw [if_pos hdigest] at hrun
    rw [if_pos hdigest] at himport
    have hcommit := run_commit cache handle ⟨expected, size, pieces.flatten⟩
    have hstaged := step_commits (cache.withImport handle (some (.sealed ⟨expected, size, pieces.flatten⟩)))
      (.commit handle, none) hcommit rfl
    have hmap : (Request.importContent expected size ⟨pieces, false⟩).run { cache with failing := none } =
        (some <$> commitImport pieces.flatten expected size) { cache with failing := none } := by
      simp only [Request.run, Functor.map, EStateM.map, himport]
    have hwhole := step_commits cache (.importContent expected size ⟨pieces, false⟩, none) hmap rfl
    rw [hrun]
    refine ⟨hstaged.1.trans hwhole.1.symm, fun descriptor => (hstaged.2 descriptor).trans (hwhole.2 descriptor).symm, ?_⟩
    simp only [hwhole.2, hdigest, exists_eq_left, true_and]
    exact Iff.rfl
  · rw [if_neg hdigest] at hrun
    rw [if_neg hdigest] at himport
    have hwhole := step_of_error cache (.importContent expected size ⟨pieces, false⟩, none)
      (by simp only [Request.run, Functor.map, EStateM.map, himport]; rfl)
    have hcommit : (Request.commit handle).run (cache.withImport handle none) = .ok none (cache.withImport handle none) := by
      rw [Request.run, bind_of_ok get_apply]
      simp only [withImport_imports]
      rfl
    rw [hrun, step_of_ok _ _ hcommit, hwhole]
    simp [ContentCache.withImport, hdigest]

end

end

/-! ## An entry that is staged -/

namespace Sample

scoped instance sum : Blake3 := ⟨List.sum⟩

theorem path_valid : pathError ['a'] = none := by decide

def path : WorkspacePath := ⟨['a'], path_valid⟩

def entry : ObservedEntry := ⟨path, .file, ⟨2, 0, false⟩, syntheticFingerprint 2, none⟩

def attempt : Attempt := ⟨.ok (some entry), .ok ⟨[[1, 2]], false⟩, .ok (some entry)⟩

def empty : ContentCache := ⟨fun _ => none, fun _ => none, fun _ => none, none⟩

def calls : List Call := List.replicate 2 (.stageWorkspaceEntry path ⟨.ok (some entry), attempt, attempt⟩, none)

theorem attempt_reads : attempt.Reads (HashOf (fun _ _ => [1, 2]) path) := by
  intro before after hbefore hafter _
  obtain rfl : entry = before := Except.ok.inj hbefore
  obtain rfl : entry = after := Except.ok.inj hafter
  have hchunks : Returns (· = [1, 2]) (streamChunks false [[1, 2]] []) := .after fun _ => .pure rfl
  have hreader : Returns (· = [1, 2]) (streamReader ⟨[[1, 2]], false⟩) :=
    .after fun _ => hchunks.bind fun content hcontent => .after fun _ => .after fun _ => .pure hcontent
  refine fun s => wp_mono (hreader s) ?_ fun _ _ h => h
  rintro content - rfl
  rfl

theorem hashes_honest_twice : (contentMachine.run empty calls).Holds (HashOf fun _ _ => [1, 2]) ∧
    ∀ e ∈ contentMachine.log empty calls, ∀ path looks descriptor, e.call.1 = .stageWorkspaceEntry path looks →
      e.answer = .ok (some descriptor) → descriptor.contentHash = 3 := by
  have hholds : empty.Holds (HashOf fun _ _ => [1, 2]) := fun _ _ _ h => by cases h
  have hreads : ∀ call ∈ calls, call.1.Reads (HashOf fun _ _ => [1, 2]) := by
    intro call hcall
    obtain rfl := List.eq_of_mem_replicate hcall
    exact ⟨attempt_reads, attempt_reads⟩
  exact hashes_honest hholds hreads

/-- A piece whose write fails halfway is written once more, and its import is given up; the content comes with the next one. -/
def tornCalls : List Call :=
  [(.beginStagedImport 0 3 2, none), (.writeChunk 0 [1, 2] 1, some "write content staging"), (.writeChunk 0 [1, 2] 0, none),
    (.drop 0, none), (.beginStagedImport 1 3 2, none), (.writeChunk 1 [1, 2] 0, none), (.sealImport 1, none), (.commit 1, none)]

theorem blobs_sound_torn : Grows empty (contentMachine.run empty tornCalls) ∧
    ∀ e ∈ contentMachine.log empty tornCalls, ∀ descriptor, e.answer = .ok (some descriptor) →
      (contentMachine.run empty tornCalls).Intact descriptor.contentHash descriptor.size := by
  exact blobs_sound (fun _ _ h => by cases h) (by decide +kernel)

theorem import_in_pieces_two : ∃ descriptor,
    (contentMachine.step empty (.importContent 3 2 ⟨[[1], [2]], false⟩, none)).2 = .ok (some descriptor) :=
  (import_in_pieces empty 0 3 [[1], [2]] (by decide) rfl (by decide)).2.2.mpr ⟨rfl, .inl rfl⟩

end Sample

end Lumio.Fs.Content
