import OmenBrowser.Server.Uploads

/- The index over the uploaded files (`server/src/store.rs`).

   The first time a user's uploads are planned after a start, the rows of the index are compared
   with the directory: a row whose file is missing, of another size or in another place, and a file
   no row names, are discrepancies, and while there is one nothing is planned. From then on the
   index is trusted. A plan names the oldest uploads that have to go for the new one to fit.

   Correspondence (Rust/SQL ↔ Lean):
     `ORDER BY created_at, resource_id`        ↔ `UploadFileRow.compareAge`
     `INSERT OR REPLACE INTO upload_files`     ↔ `Table.upsert` of all columns
     `verified_upload_ledgers`                 ↔ `UploadServer.verified`
   The lists of a report are not sorted. A length is far below `i64::MAX`, so storing it is exact. -/
namespace Omen.Server
open Wire Sql Ints Omen.Protocol UploadFileRow

variable {α : Type}

/-! Operations that may fail. -/

variable (faults : Faults)

def storeOp (op : StoreOp) (x : Uploading α) : Uploading α :=
  match faults.store op with
  | some e => Act.throw (.sqlite e)
  | none => x

def onDisk (x : Act (Disk UploadPath) ServerError α) : Uploading α :=
  Act.zoom UploadServer.disk (fun disk s => { s with disk }) x

/-- A transaction on the rooms, users and events; one that fails leaves them as they were. -/
def onLedger (x : Txn Database ServerError α) : Uploading α := fun s =>
  match x s.database with
  | .ok (a, database) => (.ok a, { s with database })
  | .error e => (.error e, s)

/-! The rows of a user. -/

/-- `ORDER BY created_at, resource_id`. -/
def UploadFileRow.compareAge (a b : UploadFileRow) : Ordering :=
  (compare a.createdAt b.createdAt).then (compareBytes (utf8 a.resourceId) (utf8 b.resourceId))

variable (s : UploadServer) (actorUserId : UserId)

/-- The user's uploads, oldest first. -/
def UploadServer.entries : List UploadFileRow :=
  orderBy compareAge (s.uploads.rows.filter (fun r => r.actorUserId == actorUserId))

theorem UploadServer.mem_entries {s : UploadServer} {actorUserId : UserId} {r : UploadFileRow} :
    r ∈ s.entries actorUserId ↔ r ∈ s.uploads.rows ∧ r.actorUserId = actorUserId := by
  unfold UploadServer.entries
  rw [mem_orderBy, List.mem_filter, beq_iff_eq]

/-- Lengths added up, as far as they fit. -/
def totalBytes (lengths : List Nat) : Nat := lengths.foldl saturatingCount 0

/-! Reconciliation. -/

inductive Discrepancy where
  | missing
  | mismatched
  | misplaced
  deriving DecidableEq, Repr

structure UploadLedgerReconciliation where
  trackedFiles : Nat
  trackedBytes : Nat
  diskFiles : Nat
  diskBytes : Nat
  missingPaths : List UploadPath
  mismatchedPaths : List UploadPath
  orphanPaths : List UploadPath
  misplacedPaths : List UploadPath

/-- What is wrong with the file of a row. -/
def UploadFileRow.discrepancy (r : UploadFileRow) (identity : Bytes) (disk : Disk UploadPath) :
    Option Discrepancy :=
  if r.path.identity ≠ identity then some .misplaced
  else match disk.read r.path with
    | none => some .missing
    | some bytes => if bytes.length ≠ r.byteLen then some .mismatched else none

/-- The files in an identity's directory. -/
def filesOf (disk : Disk UploadPath) (identity : Bytes) : List (Disk.File UploadPath) :=
  disk.rows.filter (fun f => f.path.identity == identity)

def reconciliation (tracked : List UploadFileRow) (identity : Bytes) (disk : Disk UploadPath) :
    UploadLedgerReconciliation :=
  let found (d : Discrepancy) : List UploadPath :=
    (tracked.filter (fun r => r.discrepancy identity disk == some d)).map path
  let files := filesOf disk identity
  { trackedFiles := tracked.length
    trackedBytes := totalBytes (tracked.map byteLen)
    diskFiles := files.length
    diskBytes := totalBytes (files.map (fun f => f.bytes.length))
    missingPaths := found .missing
    mismatchedPaths := found .mismatched
    orphanPaths := (files.map Disk.File.path).filter (fun p =>
      !(tracked.map path).contains p)
    misplacedPaths := found .misplaced }

variable (identity : Bytes)

def reconcileUploadLedger : Uploading UploadLedgerReconciliation :=
  storeOp faults .tracked do
    let s ← Act.read id
    let looked := (s.entries actorUserId).map path ++
      (filesOf s.disk identity).map Disk.File.path
    if faults.file (.readDir identity) ∨ looked.any (fun p => faults.file (.metadata p)) = true then
      Act.throw .io
    else pure (reconciliation (s.entries actorUserId) identity s.disk)

def UploadLedgerReconciliation.isClean (report : UploadLedgerReconciliation) : Bool :=
  report.missingPaths.isEmpty && report.mismatchedPaths.isEmpty && report.orphanPaths.isEmpty &&
    report.misplacedPaths.isEmpty

def notCleanText (report : UploadLedgerReconciliation) : String :=
  let user := actorUserId.toNat
  let missing := report.missingPaths.length
  let mismatched := report.mismatchedPaths.length
  let orphan := report.orphanPaths.length
  let misplaced := report.misplacedPaths.length
  s!"upload ledger for user {user} is not clean (missing={missing}, mismatched={mismatched}, " ++
    s!"orphan={orphan}, unsafe={misplaced}); stop the server, run `omenchatd doctor`, and resolve " ++
    "discrepancies before accepting uploads"

/-! Plans. -/

structure UploadLedgerQuotaPlan where
  currentBytes : Nat
  evictPaths : List UploadPath

/-- The rows that go, oldest first, until what remains is within the quota. -/
def evictedRows (quotaBytes : Nat) : Nat → List UploadFileRow → List UploadFileRow
  | _, [] => []
  | remaining, r :: rows =>
    if remaining ≤ quotaBytes then []
    else r :: evictedRows quotaBytes (remaining - r.byteLen) rows

theorem evictedRows_subset {quotaBytes remaining : Nat} {rows : List UploadFileRow} :
    evictedRows quotaBytes remaining rows ⊆ rows := by
  induction rows generalizing remaining with
  | nil => exact fun _ h => h
  | cons r rows ih =>
    unfold evictedRows
    split
    · exact List.nil_subset _
    · exact List.cons_subset_cons r ih

def quotaPlan (rows : List UploadFileRow) (incomingBytes quotaBytes : Nat) : UploadLedgerQuotaPlan :=
  let currentBytes := totalBytes (rows.map byteLen)
  { currentBytes
    evictPaths := (evictedRows quotaBytes (saturatingCount currentBytes incomingBytes) rows).map
      path }

/-- The ledger is trusted, or found clean and trusted from now on. -/
def verifyUploadLedger :
    Uploading Unit := do
  let verified ← Act.read UploadServer.verified
  if verified.contains actorUserId then pure ()
  else do
    let report ← reconcileUploadLedger faults actorUserId identity
    if report.isClean then
      Act.modify (fun s => { s with verified := actorUserId :: s.verified })
    else Act.throw (.message (notCleanText actorUserId report))

def planUploadFromIndex (incomingBytes quotaBytes : Nat) : Uploading UploadLedgerQuotaPlan := do
  verifyUploadLedger faults actorUserId identity
  storeOp faults .entries
    (Act.read (fun s => quotaPlan (s.entries actorUserId) incomingBytes quotaBytes))

structure UploadQuotaPlan where
  currentBytes : Nat
  incomingBytes : Nat
  quotaBytes : Nat
  evict : List UploadPath

inductive UploadQuotaDecision where
  | disabled
  | tooLarge (quotaBytes incomingBytes : Nat)
  | accepted (plan : UploadQuotaPlan)

def planUploadWithIndex (quotaBytes incomingBytes : Nat) (indexed : UploadLedgerQuotaPlan) :
    UploadQuotaDecision :=
  if quotaBytes = 0 then .disabled
  else if incomingBytes > quotaBytes then .tooLarge quotaBytes incomingBytes
  else .accepted
    { currentBytes := indexed.currentBytes
      incomingBytes
      quotaBytes
      evict := indexed.evictPaths }

/-! Writes. -/

def UploadServer.setUpload (row : UploadFileRow) : UploadServer :=
  { s with
    uploads := s.uploads.upsert row (fun r => { row with resourceId := r.resourceId })
      (fun _ => rfl) }

def recordUploadFile (row : UploadFileRow) : Uploading Unit :=
  storeOp faults .record (Act.modify (·.setUpload row))

/-- `DELETE FROM upload_files WHERE actor_user_id = ? AND path IN (..) AND resource_id != ?`. -/
def UploadServer.dropUploads (retainedResourceId : String) (paths : List UploadPath) :
    UploadServer :=
  { s with uploads := s.uploads.deleteWhere (fun r =>
      r.actorUserId == actorUserId && paths.contains r.path && r.resourceId != retainedResourceId) }

def removeEvictedUploadRecords (retainedResourceId : String) (evicted : List UploadPath) :
    Uploading Unit :=
  storeOp faults .removeEvicted (Act.modify (·.dropUploads actorUserId retainedResourceId evicted))

def UploadServer.invalidateUploadLedger : UploadServer :=
  { s with verified := s.verified.filter (fun userId => userId != actorUserId) }

end Omen.Server
