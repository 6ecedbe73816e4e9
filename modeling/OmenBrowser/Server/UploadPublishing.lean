import OmenBrowser.Server.UploadLedger

/- Publishing an upload (`server/src/upload.rs`).

   The upload is planned, written to a temporary file that is renamed to its name (or renamed from
   the file it was staged in), and recorded; only then are the uploads of the plan evicted. What was
   written is removed again when a step up to the recording fails.

   Correspondence (Rust ↔ Lean):
     `store_upload_with_policy_indexed_and_commit`        ↔ `storeUpload`
     the closure whose outcome is `write_result`          ↔ `writeUpload`
     from `let pending = StoredUpload { .. }` on, in both ↔ `recordAndEvict`
   The identity's lock is held throughout. The last sync of the directory is ignored. -/
namespace Omen.Server
open Wire Sql Ints Omen.Protocol

variable {α : Type}

structure StoredUpload where
  path : UploadPath
  bytes : Nat
  evicted : List UploadPath

/-- The plan to go by, or why there is none. -/
def acceptedPlan : UploadQuotaDecision → Except ServerError UploadQuotaPlan
  | .accepted plan => .ok plan
  | .disabled => .error (.message "uploads are disabled by server policy")
  | .tooLarge quotaBytes incomingBytes =>
    .error (.message s!"upload is too large for quota: {incomingBytes} > {quotaBytes}")

variable (faults : Faults) (identity : Bytes)

def ensureSafeIdentityDir : Uploading Unit :=
  if faults.file (.ensureDir identity) then Act.throw .io else pure ()

variable (readings : Readings)

def createTempPath (identity : Bytes) : Uploading UploadPath := fun s =>
  let found := freePath s.taken
    (fun sequence => tempUploadPath identity readings.processId (readings.nanos sequence) sequence)
    1000 s.tempSequence
  match found.1 with
  | some path => (.ok path, { s with tempSequence := found.2 })
  | none => (.error (.message "could not allocate unique upload temporary path"),
      { s with tempSequence := found.2 })

def writeUpload (temp path : UploadPath) (bytes : Bytes) :
    Act (Disk UploadPath) ServerError Unit := do
  Disk.create .io (faults.file (.create temp)) temp
  Disk.append .io (faults.file (.write temp)) faults.written temp bytes
  Disk.sync .io (faults.file (.flush temp))
  Disk.sync .io (faults.file (.syncFile temp))
  Disk.rename .io (faults.file (.rename temp)) temp path
  Disk.sync .io (faults.file (.syncDir path.identity))

/-- The loop over the evicted files: those that were removed, and what is left. -/
def evictFiles (path : UploadPath) :
    List UploadPath → Disk UploadPath → List UploadPath × Disk UploadPath
  | [], disk => ([], disk)
  | old :: rest, disk =>
    if old = path ∨ faults.file (.remove old) = true ∨ disk.read old = none then
      evictFiles path rest disk
    else
      let removed := evictFiles path rest (disk.erase old)
      (old :: removed.1, removed.2)

def UploadServer.erase (s : UploadServer) (path : UploadPath) : UploadServer :=
  { s with disk := s.disk.erase path }

def recordAndEvict (evict : List UploadPath) (path : UploadPath) (bytes : Nat)
    (commit : StoredUpload → Uploading Unit) : Uploading StoredUpload := do
  (commit { path, bytes, evicted := evict }).undoing (·.erase path)
  let evicted ← onDisk (fun disk =>
    let removed := evictFiles faults path evict disk
    (.ok removed.1, removed.2))
  pure { path, bytes, evicted }

/-- Everything before the first byte is written: the plan, the name, and the temporary file. -/
def prepareUpload (identity : Bytes) (filenameHint : String) (incomingBytes : Nat)
    (planner : Nat → Uploading UploadQuotaDecision) :
    Uploading (UploadQuotaPlan × UploadPath × UploadPath) := do
  let decision ← planner incomingBytes
  let plan ← Act.lift (acceptedPlan decision)
  ensureSafeIdentityDir faults identity
  let path ← Act.read (fun s => nextUploadPath s.taken identity filenameHint readings.millis)
  let temp ← createTempPath readings identity
  pure (plan, path, temp)

def storeUpload (identity : Bytes) (filenameHint : String) (bytes : Bytes)
    (planner : Nat → Uploading UploadQuotaDecision) (commit : StoredUpload → Uploading Unit) :
    Uploading StoredUpload := do
  let (plan, path, temp) ← prepareUpload faults readings identity filenameHint bytes.length planner
  (onDisk (writeUpload faults temp path bytes)).undoing (fun s => (s.erase temp).erase path)
  recordAndEvict faults plan.evict path bytes.length commit

/-! Channel uploads. -/

def createChannelUploadStage : Uploading UploadPath := do
  ensureSafeIdentityDir faults identity
  let found ← Act.read (fun s => freePath s.taken (stagePath identity) 32 s.tempSequence)
  Act.modify (fun s => { s with tempSequence := found.2 })
  match found.1 with
  | none => Act.throw (.message "could not allocate a unique Channel upload staging file")
  | some path => do
    onDisk (Disk.create .io (faults.file (.create path)) path)
    pure path

/-- The staged file is where and as long as it has to be. -/
def checkStaged (stagedPath : UploadPath) (incomingBytes : Nat) : Uploading Unit :=
  let refused : Uploading Unit := do
    Act.modify (·.erase stagedPath)
    Act.throw (.message "Channel upload staging file failed ownership or length validation")
  if stagedPath.identity ≠ identity then refused
  else if faults.file (.metadata stagedPath) then Act.throw .io
  else do
    let content ← Act.read (fun s => s.disk.read stagedPath)
    match content with
    | none => Act.throw .io
    | some bytes => if bytes.length ≠ incomingBytes then refused else pure ()

section
variable (identity : Bytes) (filenameHint : String) (stagedPath : UploadPath) (incomingBytes : Nat)
  (planner : Nat → Uploading UploadQuotaDecision)

/-- Everything before the staged file is renamed: the plan, its checks, and the name. -/
def prepareStaged : Uploading (UploadQuotaPlan × UploadPath) := do
  let decision ← planner incomingBytes
  let plan ← Act.lift (acceptedPlan decision)
  ensureSafeIdentityDir faults identity
  checkStaged faults identity stagedPath incomingBytes
  let path ← Act.read (fun s => nextUploadPath s.taken identity filenameHint readings.millis)
  pure (plan, path)

/-- `commit_staged_upload_with_policy_indexed_and_commit`. -/
def commitStagedUpload (commit : StoredUpload → Uploading Unit) : Uploading StoredUpload := do
  let (plan, path) ← prepareStaged faults readings identity filenameHint stagedPath incomingBytes
    planner
  (onDisk (Disk.rename .io (faults.file (.rename stagedPath)) stagedPath path)).undoing
    (·.erase stagedPath)
  (onDisk (Disk.sync .io (faults.file (.syncDir identity)))).undoing (·.erase path)
  recordAndEvict faults plan.evict path incomingBytes commit

end

end Omen.Server
