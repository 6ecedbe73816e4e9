import Mathlib.Data.List.Infix
import OmenBrowser.Lib.Outcome
import OmenBrowser.Lib.Text
import OmenBrowser.Lib.Wire

/- Update notices of followed pages (`browser/update_pointer.rs`).

   A publisher announces by a pointer that a page has changed. A pointer is admitted as a notice if
   it is valid, if one of the followed targets matches it, if no notice with its key is there, and if
   its publisher has not had too many notices admitted lately. Notices expire, and each operation
   that has a clock removes a few of those that have.

   Correspondence (Rust ↔ Lean):
     `NomadNetUpdatePointer::validate_at`, `encode_at`   ↔ `validateAt`, `encodeAt`
     what `NomadNetUpdateFollowTarget::new` lets through ↔ `FollowTarget`
     `NomadNetUpdateFollowTarget::matches`               ↔ `FollowTarget.matched`
     `NomadNetUpdateAdmissionOwner`                      ↔ `AdmissionOwner`
     `follow`, `unfollow`, `admit`, `prune_at`, `clear`  ↔ `follow`, `unfollow`, `admitPointer`, `pruneAt`,
                                                           `clear`
   `serde_json::to_vec` is a parameter. -/
namespace Omen.Browser
open Wire Outcome

def updatePointerProtocol : String := "omenbrowser.nomadnet.update-pointer"
def updatePointerVersion : Nat := 1
def updatePointerMaxEncodedBytes : Nat := 2 * 1024
def updatePointerDestinationBytes : Nat := 32
def updatePointerPathMaxBytes : Nat := 512
def updatePointerRevisionMaxBytes : Nat := 128
def updatePointerTitleMaxBytes : Nat := 256
def updatePointerClockSkewSecs : Nat := 5 * 60
def updatePointerMaxLifetimeSecs : Nat := 30 * 24 * 60 * 60
def updateFollowMaxItems : Nat := 64
def updateFollowMaxAccountedBytes : Nat := 64 * 1024
def updateNoticeMaxItems : Nat := 128
def updateNoticeMaxAccountedBytes : Nat := 64 * 1024
def updatePublisherWindowSecs : Nat := 10 * 60
def updateMaxPerPublisherWindow : Nat := 8
def updateRateRecordMaxItems : Nat := 512
def updatePruneBatch : Nat := 8

/-- `u64::saturating_add`. -/
def saturatingAdd (a b : Nat) : Nat := min (a + b) (2 ^ 64 - 1)

/-! Pointers. -/

/-- What a publisher announces: a page in a new revision, for a time. -/
structure UpdatePointer where
  protocol : String
  version : Nat
  destination : String
  pagePath : String
  revisionOrContentHash : String
  title : String
  publishedAtUnix : Nat
  expiresAtUnix : Nat
  deriving DecidableEq

/-- Why a pointer is refused. -/
inductive UpdatePointerError where
  | tooLarge
  | malformed
  | unsupportedProtocol
  | invalidDestination
  | invalidPagePath
  | invalidRevision
  | invalidTitle
  | publishedInFuture
  | invalidExpiry
  | expired
  deriving DecidableEq

variable (value : String)

/-- 32 hexadecimal digits, in lower case. -/
def isCanonicalDestination : Bool :=
  decide (value.utf8ByteSize = updatePointerDestinationBytes) &&
    value.toList.all fun c => c.isDigit || ('a' ≤ c && c ≤ 'f')

/-- An absolute path without a query, a fragment or a step out of its directory. -/
def isCanonicalPagePath : Bool :=
  let cs := value.toList
  if value.isEmpty ∨ value.utf8ByteSize > updatePointerPathMaxBytes ∨ cs.head? ≠ some '/' ∨
      cs.any (fun c => c ∈ ['?', '#', '\\']) ∨ ['/', '/'] <:+: cs ∨ cs.any Text.isControl then
    false
  else
    ((cs.splitOn '/').drop 1).all fun segment => !(segment = ['.'] || segment = ['.', '.'])

/-- A short name of plain characters. -/
def isValidRevision : Bool :=
  !value.isEmpty && decide (value.utf8ByteSize ≤ updatePointerRevisionMaxBytes) &&
    value.toList.all fun c => c.isAlphanum || c ∈ ['-', '_', '.', ':']

namespace UpdatePointer

variable (p : UpdatePointer)

/-- `validate_at`: each part of the pointer, then its times against the clock. -/
def validateAt (now : Nat) : Except UpdatePointerError Unit := do
  refuse (p.protocol ≠ updatePointerProtocol ∨ p.version ≠ updatePointerVersion)
    .unsupportedProtocol
  refuse (!isCanonicalDestination p.destination) .invalidDestination
  refuse (!isCanonicalPagePath p.pagePath) .invalidPagePath
  refuse (!isValidRevision p.revisionOrContentHash) .invalidRevision
  refuse (p.title.isEmpty ∨ p.title.utf8ByteSize > updatePointerTitleMaxBytes ∨
    p.title.toList.any Text.isControl) .invalidTitle
  refuse (p.publishedAtUnix > saturatingAdd now updatePointerClockSkewSecs)
    .publishedInFuture
  refuse (p.expiresAtUnix ≤ p.publishedAtUnix ∨
    p.expiresAtUnix - p.publishedAtUnix > updatePointerMaxLifetimeSecs) .invalidExpiry
  refuse (saturatingAdd p.expiresAtUnix updatePointerClockSkewSecs < now) .expired

/-- The pointer as it is sent, if it is valid now and not too long. -/
def encodeAt (toVec : UpdatePointer → Option Bytes) (p : UpdatePointer) (now : Nat) :
    Except UpdatePointerError Bytes := do
  p.validateAt now
  match toVec p with
  | none => .error .malformed
  | some encoded =>
    if encoded.length > updatePointerMaxEncodedBytes then .error .tooLarge else pure encoded

/-- Two pointers to one revision of a page are the same news. -/
def deduplicationKey : String × String × String :=
  (p.destination, p.pagePath, p.revisionOrContentHash)

end UpdatePointer

/-- Why a target is not followed, or a pointer not admitted. -/
inductive AdmissionError where
  | pointer (error : UpdatePointerError)
  | invalidFollowTarget
  | followCapacity
  | invalidPublisher
  | notFollowed
  | duplicate
  | rateLimited
  | rateCapacity
  | noticeCapacity
  deriving DecidableEq

/-! Targets. -/

/-- A destination, or one of its pages. -/
structure FollowTarget where
  destination : String
  pagePath : Option String
  destination_canonical : isCanonicalDestination destination = true
  pagePath_canonical : ∀ path ∈ pagePath, isCanonicalPagePath path = true
  deriving DecidableEq

namespace FollowTarget

variable (target : FollowTarget)

/-- The target follows the node, or this page of it. -/
def matched (p : UpdatePointer) : Bool :=
  decide (target.destination = p.destination) &&
    target.pagePath.all fun path => decide (path = p.pagePath)

/-- What the target is charged. -/
def accountedBytes : Nat :=
  target.destination.utf8ByteSize + (target.pagePath.map String.utf8ByteSize).getD 0

end FollowTarget

/-! Notices. -/

/-- Whether the publisher was proved. -/
inductive PublisherEvidence where
  | authenticated
  | unverified
  deriving DecidableEq

/-- A pointer that was admitted, with what it is charged. -/
structure UpdateNotice where
  pointer : UpdatePointer
  publisherDestination : String
  publisherEvidence : PublisherEvidence
  receivedAtUnix : Nat
  accountedBytes : Nat
  deriving DecidableEq

/-- An admission, for the rate of its publisher. -/
structure PublisherRateRecord where
  publisherDestination : String
  admittedAtUnix : Nat
  deriving DecidableEq

/-- What is followed, the notices for it and the latest admissions. -/
structure AdmissionOwner where
  followed : List FollowTarget
  followedAccountedBytes : Nat
  notices : List UpdateNotice
  noticeAccountedBytes : Nat
  rateRecords : List PublisherRateRecord
  deriving DecidableEq

/-- What a loop over a list takes out, with at most so many removals, and what it leaves. -/
def removeUpTo {α : Type} (p : α → Bool) : Nat → List α → List α × List α
  | _, [] => ([], [])
  | 0, xs => ([], xs)
  | budget + 1, x :: xs =>
    if p x then
      let later := removeUpTo p budget xs
      (x :: later.1, later.2)
    else
      let later := removeUpTo p (budget + 1) xs
      (later.1, x :: later.2)

namespace AdmissionOwner

def empty : AdmissionOwner :=
  { followed := [], followedAccountedBytes := 0, notices := [], noticeAccountedBytes := 0
    rateRecords := [] }

variable (owner : AdmissionOwner) (target : FollowTarget)

/-- A target more, if it is new and there is room. -/
def follow : Except AdmissionError Bool × AdmissionOwner :=
  if target ∈ owner.followed then (.ok false, owner)
  else if owner.followed.length ≥ updateFollowMaxItems ∨
      owner.followedAccountedBytes + target.accountedBytes > updateFollowMaxAccountedBytes then
    (.error .followCapacity, owner)
  else
    (.ok true,
      { owner with
        followed := owner.followed ++ [target]
        followedAccountedBytes := owner.followedAccountedBytes + target.accountedBytes })

/-- Bytes that are given back one after the other. -/
def release (total : Nat) (removed : List UpdateNotice) : Nat :=
  removed.foldl (fun total notice => total - notice.accountedBytes) total

/-- A target less, and every notice for what it followed. -/
def unfollow : Bool × AdmissionOwner :=
  if target ∈ owner.followed then
    (true,
      { owner with
        followed := owner.followed.erase target
        followedAccountedBytes := owner.followedAccountedBytes - target.accountedBytes
        notices := owner.notices.filter fun notice => !target.matched notice.pointer
        noticeAccountedBytes := release owner.noticeAccountedBytes
          (owner.notices.filter fun notice => target.matched notice.pointer) })
  else (false, owner)

/-- At most a batch of what has expired goes at a time, the notices first. -/
def pruneAt (now : Nat) : Nat × AdmissionOwner :=
  let notices := removeUpTo (fun notice => notice.pointer.expiresAtUnix ≤ now) updatePruneBatch
    owner.notices
  let rateCutoff := now - updatePublisherWindowSecs
  let records := removeUpTo (fun record => record.admittedAtUnix < rateCutoff)
    (updatePruneBatch - notices.1.length) owner.rateRecords
  (notices.1.length + records.1.length,
    { owner with
      notices := notices.2
      noticeAccountedBytes := release owner.noticeAccountedBytes notices.1
      rateRecords := records.2 })

variable (toVec : UpdatePointer → Option Bytes)

section
variable (owner : AdmissionOwner) (pointer : UpdatePointer) (publisherDestination : String)
  (evidence : PublisherEvidence) (receivedAt : Nat)

/-- The rest of `admitPointer`, after it has pruned. -/
def admitPruned : Except AdmissionError AdmissionOwner := do
  (pointer.validateAt receivedAt).mapError .pointer
  refuse (pointer.expiresAtUnix ≤ receivedAt) (.pointer .expired)
  refuse (!isCanonicalDestination publisherDestination) .invalidPublisher
  refuse (!owner.followed.any fun target => target.matched pointer) .notFollowed
  refuse (owner.notices.any fun notice =>
    notice.pointer.deduplicationKey = pointer.deduplicationKey) .duplicate
  let windowStart := receivedAt - updatePublisherWindowSecs
  -- the window of one publisher, then the records of all
  refuse ((owner.rateRecords.filter fun record =>
    record.publisherDestination = publisherDestination ∧
      record.admittedAtUnix ≥ windowStart).length ≥ updateMaxPerPublisherWindow) .rateLimited
  refuse (owner.rateRecords.length ≥ updateRateRecordMaxItems) .rateCapacity
  let encoded ← (pointer.encodeAt toVec receivedAt).mapError .pointer
  let accountedBytes := encoded.length + publisherDestination.utf8ByteSize
  refuse (owner.notices.length ≥ updateNoticeMaxItems ∨
    owner.noticeAccountedBytes + accountedBytes > updateNoticeMaxAccountedBytes) .noticeCapacity
  pure
    { owner with
      noticeAccountedBytes := owner.noticeAccountedBytes + accountedBytes
      notices := owner.notices ++
        [{ pointer, publisherDestination, publisherEvidence := evidence
           receivedAtUnix := receivedAt, accountedBytes }]
      rateRecords := owner.rateRecords ++
        [{ publisherDestination, admittedAtUnix := receivedAt }] }

/-- `admit_pointer`: what has expired goes in any case. -/
def admitPointer : Except AdmissionError Unit × AdmissionOwner :=
  let pruned := (owner.pruneAt receivedAt).2
  match pruned.admitPruned toVec pointer publisherDestination evidence receivedAt with
  | .error e => (.error e, pruned)
  | .ok admitted => (.ok (), admitted)

end

/-- Everything is forgotten. -/
def clear (_owner : AdmissionOwner) : AdmissionOwner := empty

end AdmissionOwner
end Omen.Browser
