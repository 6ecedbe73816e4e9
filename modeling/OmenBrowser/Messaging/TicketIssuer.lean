import Mathlib.Algebra.Order.Ring.Rat
import Mathlib.Data.List.MinMax
import Mathlib.Tactic.Linarith
import OmenBrowser.Lib.Act
import OmenBrowser.Lib.Outcome
import OmenBrowser.Lib.Txn
import OmenBrowser.Lib.Wire

/- Reply tickets and the file they are kept in (`runtime/native_lxmf/tickets.rs`).

   A preparation loads the file, decides whether the peer is to be sent a ticket, and saves what it
   decided before it hands the ticket out. Nothing is kept in memory in between, so the system is
   the file.

   Correspondence (Rust ↔ Lean):
     `f64`, finite                  ↔ `ℚ`: times are exact here
     `&str`, `String` of a peer     ↔ its bytes
     `BTreeMap`                     ↔ `Std.ExtTreeMap`
     `Iterator::min_by`             ↔ `List.argmin`, which takes the first of equals too
     `serde_json`                   ↔ `Json`, a parameter
     `OsRng.fill_bytes`             ↔ the `random` bytes of a preparation
     an I/O error                   ↔ `Fault`, which says where it occurred
   The temporary file of a save, modes and symbolic links are not modelled: they matter only in
   that a load or a save may fail. -/
namespace Omen.Messaging
open Wire Outcome Act

def lxmfTicketBytes : Nat := 16
def lxmfTicketExpirySecs : ℚ := 21 * 24 * 60 * 60
def lxmfTicketRenewSecs : ℚ := 14 * 24 * 60 * 60
def lxmfTicketIntervalSecs : ℚ := 24 * 60 * 60
def lxmfTicketGraceSecs : ℚ := 5 * 24 * 60 * 60
def issuedTicketMaxPeers : Nat := 256
def issuedTicketFileMaxBytes : Nat := 128 * 1024
def issuedTicketStateVersion : Nat := 1

/-- A refusal with its text, or a fault of the disk. -/
inductive AppError where
  | runtime (text : String)
  | io
  deriving DecidableEq

/-- What came of a request for a ticket. -/
inductive NativeLxmfTicketIssueState where
  | notRequested
  | includedNew
  | includedReused
  | suppressedInterval
  deriving DecidableEq

/-- A ticket, and when it stops being good. -/
structure NativeLxmfReplyTicket where
  ticket : Bytes
  expires : ℚ
  deriving DecidableEq

/-- What came of the request, and the ticket to include. -/
structure NativeLxmfTicketIssueDecision where
  state : NativeLxmfTicketIssueState
  ticket : Option NativeLxmfReplyTicket
  deriving DecidableEq

/-- The ticket a peer has, and when it was last told. -/
structure IssuedTicketEntry where
  ticket : Bytes
  expires : ℚ
  lastIncludedAt : ℚ
  deriving DecidableEq

abbrev IssuedTicketPeers := Std.ExtTreeMap Bytes IssuedTicketEntry

/-- What the file holds. -/
structure IssuedTicketState where
  version : Nat
  peers : IssuedTicketPeers

def IssuedTicketState.default : IssuedTicketState := ⟨issuedTicketStateVersion, ∅⟩

/-- How the state is written as a file. -/
structure Json where
  toVec : IssuedTicketState → Option Bytes
  fromSlice : Bytes → Option IssuedTicketState

/-- What is written is read back. -/
def Json.Reads (json : Json) : Prop :=
  ∀ state bytes, json.toVec state = some bytes → json.fromSlice bytes = some state

/-- Where a preparation is disturbed: at the gate, while it loads, while it saves and before the
    file is replaced, and after that. -/
inductive Fault where
  | gate
  | load
  | stage
  | directorySync
  deriving DecidableEq

/-- The saved file, if there is one. -/
abbrev Saved := Option Bytes

/-! Validation. -/

def isAsciiHexdigit (byte : UInt8) : Bool :=
  (48 ≤ byte && byte ≤ 57) || (65 ≤ byte && byte ≤ 70) || (97 ≤ byte && byte ≤ 102)

def toAsciiLowercase (bytes : Bytes) : Bytes :=
  bytes.map fun byte => if 65 ≤ byte ∧ byte ≤ 90 then byte + 32 else byte

/-- A peer is 32 hexadecimal digits. -/
def validatePeerHash (peerHash : Bytes) : Except AppError Unit :=
  refuse (peerHash.length ≠ 32 ∨ ¬peerHash.all isAsciiHexdigit)
    (.runtime "LXMF ticket peer must be a 32-character hexadecimal destination")

/-- A ticket of sixteen bytes that was good for no longer than a new one when it was last told. -/
def validateEntry (peer : Bytes × IssuedTicketEntry) : Except AppError Unit := do
  validatePeerHash peer.1
  refuse (peer.2.ticket.length ≠ lxmfTicketBytes ∨ peer.2.expires < 0 ∨ peer.2.lastIncludedAt < 0 ∨
      peer.2.expires > peer.2.lastIncludedAt + lxmfTicketExpirySecs)
    (.runtime "LXMF ticket state contains an invalid entry")

/-- A known version, not too many peers, and every entry valid. -/
def validateState (state : IssuedTicketState) : Except AppError Unit := do
  refuse (state.version ≠ issuedTicketStateVersion)
    (.runtime "LXMF ticket state version is unsupported")
  refuse (state.peers.size > issuedTicketMaxPeers)
    (.runtime "LXMF ticket state exceeds its peer limit")
  state.peers.toList.forM validateEntry

/-! The file. -/

variable (json : Json)

/-- What a saved file says. -/
def readSaved : Saved → Except AppError IssuedTicketState
  | none => .ok .default
  | some bytes => do
    refuse (bytes.length > issuedTicketFileMaxBytes)
      (.runtime "LXMF ticket state exceeds the 131072 byte limit")
    match json.fromSlice bytes with
    | none => .error (.runtime "LXMF ticket state is invalid JSON")
    | some state => do
      validateState state
      .ok state

variable (fault : Option Fault)

/-- A file that is not there holds nothing; one that cannot be read is an error. -/
def loadState : Act Saved AppError IssuedTicketState := do
  lift (refuse (fault = some .load) .io)
  let saved ← read id
  lift (readSaved json saved)

variable (state : IssuedTicketState)

/-- The file of a state, within its size. -/
def encodeState : Except AppError Bytes :=
  match json.toVec state with
  | none => .error (.runtime "LXMF ticket state encoding failed")
  | some bytes => do
    refuse (bytes.length > issuedTicketFileMaxBytes)
      (.runtime "LXMF ticket state encoding exceeds its byte limit")
    .ok bytes

/-- The file is written aside and put in the place of the old one. -/
def saveState : Act Saved AppError Unit := do
  let bytes ← lift (encodeState json state)
  lift (refuse (fault = some .stage) .io)
  modify fun _ => some bytes
  -- the file is replaced by now
  lift (refuse (fault = some .directorySync) .io)

/-! Preparations. -/

/-- Peers of which the tickets have not run out for long. -/
def retainLive (now : ℚ) (peers : IssuedTicketPeers) : IssuedTicketPeers :=
  peers.filter fun _ entry => entry.expires + lxmfTicketGraceSecs ≥ now

variable (peers : IssuedTicketPeers) (peerHash : Bytes) (now : ℚ)

/-- Whether the peer was sent a ticket a short while ago. -/
def suppressed : Bool :=
  match peers[peerHash]? with
  | some entry => now - entry.lastIncludedAt < lxmfTicketIntervalSecs
  | none => false

/-- A ticket that is good for as long as any. -/
def freshTicket (random : Bytes) : NativeLxmfReplyTicket × NativeLxmfTicketIssueState :=
  (⟨random, now + lxmfTicketExpirySecs⟩, .includedNew)

variable (random : Bytes)

/-- A ticket that is good for long enough is told again. -/
def chooseTicket : NativeLxmfReplyTicket × NativeLxmfTicketIssueState :=
  match peers[peerHash]? with
  | some entry =>
    if entry.expires - now > lxmfTicketRenewSecs then
      (⟨entry.ticket, entry.expires⟩, .includedReused)
    else freshTicket now random
  | none => freshTicket now random

/-- The peer that was included the longest time ago. -/
def oldest : Option Bytes :=
  (peers.toList.argmin fun peer => peer.2.lastIncludedAt).map Prod.fst

/-- A new peer takes the place of the oldest one where there is no room. -/
def makeRoom : Except AppError IssuedTicketPeers :=
  if peers.contains peerHash = false ∧ peers.size ≥ issuedTicketMaxPeers then
    match oldest peers with
    | none => .error (.runtime "LXMF ticket peer eviction failed")
    | some peer => .ok (peers.erase peer)
  else .ok peers

/-- The state is read, a ticket chosen and the state saved before the ticket is told. -/
def prepareBlocking :
    Act Saved AppError NativeLxmfTicketIssueDecision := do
  let loaded ← loadState json fault
  let peers := retainLive now loaded.peers
  if suppressed peers peerHash now then
    pure ⟨.suppressedInterval, none⟩
  else do
    let (ticket, issueState) := chooseTicket peers peerHash now random
    let kept ← lift (makeRoom peers peerHash)
    let state : IssuedTicketState :=
      { loaded with peers := kept.insert peerHash ⟨ticket.ticket, ticket.expires, now⟩ }
    lift (validateState state)
    saveState json fault state
    pure ⟨issueState, some ticket⟩

/-- A call of `prepare`, with what the outside adds to it. -/
structure Preparation where
  peerHash : Bytes
  requested : Bool
  now : ℚ
  random : Bytes
  fault : Option Fault
  random_length : random.length = lxmfTicketBytes

/-- The peer a preparation is for. -/
def Preparation.peer (p : Preparation) : Bytes := toAsciiLowercase p.peerHash

/-- Nothing is read where no ticket was asked for. -/
def prepare (p : Preparation) : Act Saved AppError NativeLxmfTicketIssueDecision :=
  if p.requested = false then
    pure ⟨.notRequested, none⟩
  else do
    lift (validatePeerHash p.peerHash)
    lift (refuse (p.now < 0) (.runtime "LXMF ticket issue time is invalid"))
    lift (refuse (p.fault = some .gate) (.runtime "LXMF ticket persistence gate closed"))
    prepareBlocking json p.fault p.peer p.now p.random

def step (saved : Saved) (p : Preparation) :
    Except AppError NativeLxmfTicketIssueDecision × Saved :=
  prepare json p saved

/-! What a preparation does. -/

variable {json} {saved : Saved} {p : Preparation}

/-- The ticket a preparation hands out, if it comes to that. -/
def Preparation.choice (p : Preparation) (loaded : IssuedTicketState) :
    NativeLxmfReplyTicket × NativeLxmfTicketIssueState :=
  chooseTicket (retainLive p.now loaded.peers) p.peer p.now p.random

/-- The state it saves before. -/
def Preparation.issued (p : Preparation) (loaded : IssuedTicketState) (kept : IssuedTicketPeers) :
    IssuedTicketState :=
  { loaded with
    peers := kept.insert p.peer ⟨(p.choice loaded).1.ticket, (p.choice loaded).1.expires, p.now⟩ }

/-- A preparation writes: what it loads, the peers it keeps, and the file it leaves. -/
structure Writes (json : Json) (saved : Saved) (p : Preparation) (loaded : IssuedTicketState)
    (kept : IssuedTicketPeers) (bytes : Bytes) : Prop where
  time : 0 ≤ p.now
  loads : readSaved json saved = .ok loaded
  asked : suppressed (retainLive p.now loaded.peers) p.peer p.now = false
  room : makeRoom (retainLive p.now loaded.peers) p.peer = .ok kept
  valid : validateState (p.issued loaded kept) = .ok ()
  encoded : json.toVec (p.issued loaded kept) = some bytes
  fits : bytes.length ≤ issuedTicketFileMaxBytes

/-- A preparation that leaves the file hands nothing out. -/
def Idle (r : Except AppError NativeLxmfTicketIssueDecision × Saved) (saved : Saved) : Prop :=
  r.2 = saved ∧ ∀ decision, r.1 = .ok decision → decision.ticket = none

theorem idle_error (e : AppError) (saved : Saved) : Idle (.error e, saved) saved :=
  ⟨rfl, fun _ h => nomatch h⟩

theorem idle_none (state : NativeLxmfTicketIssueState) (saved : Saved) :
    Idle (.ok ⟨state, none⟩, saved) saved := by
  refine ⟨rfl, fun decision h => ?_⟩
  cases h
  rfl

theorem encodeState_ok {state : IssuedTicketState} {bytes : Bytes} :
    encodeState json state = .ok bytes ↔
      json.toVec state = some bytes ∧ bytes.length ≤ issuedTicketFileMaxBytes := by
  unfold encodeState
  cases json.toVec state with
  | none => simp
  | some written =>
    rw [refuse_bind_ok, not_lt, Except.ok.injEq, Option.some.injEq]
    constructor
    · rintro ⟨hfits, rfl⟩
      exact ⟨rfl, hfits⟩
    · rintro ⟨rfl, hfits⟩
      exact ⟨hfits, rfl⟩

theorem loadState_cases (saved : Saved) :
    (∃ e, loadState json fault saved = (.error e, saved)) ∨
      ∃ loaded, readSaved json saved = .ok loaded ∧
        loadState json fault saved = (.ok loaded, saved) := by
  unfold loadState
  by_cases hload : fault = some .load
  · subst hload
    exact .inl ⟨.io, rfl⟩
  · rw [refuse, if_neg hload, lift_bind, read_bind]
    cases hread : readSaved json saved with
    | error e => exact .inl ⟨e, congrArg (·, saved) hread⟩
    | ok loaded => exact .inr ⟨loaded, rfl, congrArg (·, saved) hread⟩

/-- A save fails before the file is replaced, or it has replaced it. -/
theorem saveState_cases (fault : Option Fault) (state : IssuedTicketState) (saved : Saved) :
    (∃ e, saveState json fault state saved = (.error e, saved)) ∨
      ∃ bytes, encodeState json state = .ok bytes ∧
        (saveState json fault state saved = (.ok (), some bytes) ∨
          fault = some .directorySync ∧
            saveState json fault state saved = (.error .io, some bytes)) := by
  unfold saveState
  cases hencoded : encodeState json state with
  | error e => exact .inl ⟨e, rfl⟩
  | ok bytes =>
    by_cases hstage : fault = some .stage
    · subst hstage
      exact .inl ⟨.io, rfl⟩
    · refine .inr ⟨bytes, rfl, ?_⟩
      rw [lift_bind, refuse, if_neg hstage, lift_bind, modify_bind]
      by_cases hsync : fault = some .directorySync
      · rw [refuse, if_pos hsync]
        exact .inr ⟨hsync, rfl⟩
      · rw [refuse, if_neg hsync]
        exact .inl rfl

/-- What a preparation can do once it is under way. -/
theorem prepareBlocking_cases (json : Json) (p : Preparation) (htime : 0 ≤ p.now) (saved : Saved) :
    Idle (prepareBlocking json p.fault p.peer p.now p.random saved) saved ∨
      ∃ loaded kept bytes, Writes json saved p loaded kept bytes ∧
        (prepareBlocking json p.fault p.peer p.now p.random saved =
            (.ok ⟨(p.choice loaded).2, some (p.choice loaded).1⟩, some bytes) ∨
          p.fault = some .directorySync ∧
            prepareBlocking json p.fault p.peer p.now p.random saved = (.error .io, some bytes)) := by
  rcases loadState_cases p.fault saved with ⟨e, hload⟩ | ⟨loaded, hread, hload⟩
  · unfold prepareBlocking
    rw [bind_error hload]
    exact .inl (idle_error e saved)
  by_cases hasked : suppressed (retainLive p.now loaded.peers) p.peer p.now = true
  · unfold prepareBlocking
    rw [bind_ok hload]
    simp only [hasked, if_true]
    exact .inl (idle_none _ _)
  -- what is left is to make room, to validate and to save
  have hrun : prepareBlocking json p.fault p.peer p.now p.random saved =
      (do
        let kept ← lift (makeRoom (retainLive p.now loaded.peers) p.peer)
        lift (validateState (p.issued loaded kept))
        saveState json p.fault (p.issued loaded kept)
        pure ⟨(p.choice loaded).2, some (p.choice loaded).1⟩ :
        Act Saved AppError NativeLxmfTicketIssueDecision) saved := by
    unfold prepareBlocking
    rw [bind_ok hload]
    simp only [hasked]
    rfl
  rw [hrun]
  cases hroom : makeRoom (retainLive p.now loaded.peers) p.peer with
  | error e => exact .inl (idle_error e saved)
  | ok kept =>
    rw [lift_bind]
    cases hvalid : validateState (p.issued loaded kept) with
    | error e => exact .inl (idle_error e saved)
    | ok _ =>
      rw [lift_bind]
      rcases @saveState_cases json p.fault (p.issued loaded kept) saved with
        ⟨e, hsave⟩ | ⟨bytes, hencoded, hsave⟩
      · rw [bind_error hsave]
        exact .inl (idle_error e saved)
      · obtain ⟨hvec, hfits⟩ := encodeState_ok.mp hencoded
        refine .inr ⟨loaded, kept, bytes,
          ⟨htime, hread, Bool.eq_false_iff.mpr hasked, hroom, hvalid, hvec, hfits⟩, ?_⟩
        rcases hsave with hsave | ⟨hsync, hsave⟩
        · rw [bind_ok hsave]
          exact .inl rfl
        · rw [bind_error hsave]
          exact .inr ⟨hsync, rfl⟩

/-- What a preparation can do. -/
theorem prepare_cases (json : Json) (p : Preparation) (saved : Saved) :
    Idle (prepare json p saved) saved ∨
      ∃ loaded kept bytes, Writes json saved p loaded kept bytes ∧
        (prepare json p saved =
            (.ok ⟨(p.choice loaded).2, some (p.choice loaded).1⟩, some bytes) ∨
          p.fault = some .directorySync ∧ prepare json p saved = (.error .io, some bytes)) := by
  unfold prepare
  split
  · exact .inl (idle_none _ _)
  cases validatePeerHash p.peerHash with
  | error e => exact .inl (idle_error e saved)
  | ok _ =>
    by_cases htime : p.now < 0
    · rw [lift_bind, refuse, if_pos htime]
      exact .inl (idle_error _ _)
    rw [lift_bind, refuse, if_neg htime, lift_bind]
    by_cases hgate : p.fault = some .gate
    · rw [refuse, if_pos hgate]
      exact .inl (idle_error _ _)
    rw [refuse, if_neg hgate, lift_bind]
    exact prepareBlocking_cases json p (not_lt.mp htime) saved

end Omen.Messaging
