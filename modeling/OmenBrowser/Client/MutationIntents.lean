import OmenBrowser.Client.Codec
import OmenBrowser.Lib.Pruning
import OmenBrowser.Protocol.Durable
import OmenBrowser.Server.Store

/- The client's journal of outbound mutations (`chat/mutation_intents.rs`).

   An intent is written before the mutation is handed to a transport, and is kept until the
   server's answer is known and old. Its request is stored as the encoded frame and its canonical
   hash; a load decodes the frame and checks everything it can against the other columns. The file
   of the client instance (`chat/client_instance.rs`) is replaced under the journal's write lock.

   Correspondence (Rust ↔ Lean):
     `MutationIntentStore`, `ClientInstanceIdStore`   ↔ `IntentStore`
     `persist_prepared_with_id`                       ↔ `persistPreparedWithId`
     `load_intent`, `decode_stored_intent`            ↔ `loadIntent`, `decodeStoredIntent`
     `transition`, `remove_rejected_uncertain`        ↔ `transition`, `removeRejectedUncertain`
     `recover_nonterminal`, `prune_terminal`          ↔ `recoverNonterminal`, `pruneTerminal`
     `rotate_client_instance_if_quiescent_with`       ↔ `rotateClientInstanceIfQuiescentWith`
   The hash function and the serializer are parameters. -/
namespace Omen.Client
open Wire Sql Ints Omen.Protocol Outcome
open Omen.Server (Rmpv Stop compareBytes frameToValueRef)

def maxOutboundMutationIntents : Int := 4096
def maxOutboundMutationIntentBytes : Int := 16 * 1024 * 1024
def maxOutboundMutationIntentBytesEach : Nat := 64 * 1024
def chatServerDestinationMaxBytes : Nat := 4 * 1024
def maxIntentIdentityHashBytes : Nat := 64
def maxCorrelationIdBytes : Nat := 256
def maxIntentLifetimeSeconds : Int := 30 * 24 * 60 * 60

inductive OutboundMutationState where
  | prepared
  | sentUncertain
  | acknowledged
  | conflict
  | expired
  | abandoned
  deriving DecidableEq

/-- `state as i64`. -/
def OutboundMutationState.code : OutboundMutationState → Int
  | .prepared => 0
  | .sentUncertain => 1
  | .acknowledged => 2
  | .conflict => 3
  | .expired => 4
  | .abandoned => 5

def OutboundMutationState.ofCode : Int → Option OutboundMutationState
  | 0 => some .prepared
  | 1 => some .sentUncertain
  | 2 => some .acknowledged
  | 3 => some .conflict
  | 4 => some .expired
  | 5 => some .abandoned
  | _ => none

/-- `state IN (0, 1)`. -/
def nonterminalCode (state : Int) : Bool := state == 0 || state == 1

/-- `state IN (2, 3, 4, 5)`. -/
def terminalCode (state : Int) : Bool := state == 2 || state == 3 || state == 4 || state == 5

structure OutboundMutationIntent where
  serverDestination : String
  authenticatedIdentityHash : Bytes
  clientInstanceId : ClientInstanceId
  mutationId : MutationId
  requestHash : RequestHash
  op : ChatOp
  roomId : Option UInt32
  body : FrameBody
  state : OutboundMutationState
  createdAt : Int
  expiresAt : Int
  correlationId : Option String

structure PrepareOutboundMutation where
  serverDestination : String
  authenticatedIdentityHash : Bytes
  clientInstanceId : ClientInstanceId
  op : ChatOp
  roomId : Option UInt32
  body : FrameBody
  createdAt : Int
  expiresAt : Int
  correlationId : Option String

inductive IntentTransition where
  | updated (intent : OutboundMutationIntent)
  | missing
  | stateMismatch (current : OutboundMutationState)

inductive IntentRemoval where
  | removed (intent : OutboundMutationIntent)
  | missing
  | stateMismatch (current : OutboundMutationState)

structure IntentLimits where
  items : Int
  bytes : Int
  eachBytes : Nat

def productionIntentLimits : IntentLimits :=
  { items := maxOutboundMutationIntents
    bytes := maxOutboundMutationIntentBytes
    eachBytes := maxOutboundMutationIntentBytesEach }

inductive IntentError where
  | failed (text : String)
  | context (text : String) (cause : IntentError)
  | durable (error : DurableMutationError)
  | protocol (error : ProtocolError)
  | codec (error : Stop CodecError)
  | statement (error : Sql.Error)
  | settings (text : String)
  | interrupted

/-! The tables. -/

/-- A row of `mutation_intents`. -/
structure IntentRow where
  mutationId : MutationId
  clientInstanceId : Bytes
  serverDestination : String
  authenticatedIdentityHash : Bytes
  requestHash : Bytes
  op : Int
  roomId : Option Int
  requestFrame : Bytes
  state : Int
  createdAt : Int
  expiresAt : Int
  correlationId : Option String
  retainedBytes : Int

/-- The journal, and the file of the client instance. -/
structure IntentStore where
  intents : Table IntentRow.mutationId
  clientInstanceId : Option ClientInstanceId

def IntentStore.default : IntentStore := ⟨Table.empty, none⟩

variable (row : IntentRow)

/-- `INSERT`, with the table's checks. -/
def insertIntent (s : IntentStore) : Except Sql.Error IntentStore :=
  if row.clientInstanceId.length = 16 ∧ row.requestHash.length = 32 ∧ 0 ≤ row.retainedBytes then
    (s.intents.insert row).map (fun intents => { s with intents })
  else .error .constraintFailed

/-- `SUM(retained_bytes)` fails on overflow. -/
def retainedSum (rows : List IntentRow) : Except IntentError Int :=
  let bytes := (rows.map IntentRow.retainedBytes).sum
  if bytes > i64Max then .error (.statement .integerOverflow) else .ok bytes

/-! Checks of a request. -/

/-- `String::len` of an optional text. -/
def optionalLength (text : Option String) : Nat := text.elim 0 (fun t => (utf8 t).length)

def validateIntentFields (serverDestination : String) (identityHash : Bytes)
    (correlationId : Option String) (createdAt expiresAt : Int) : Except IntentError Unit := do
  refuse (utf8 serverDestination = [] ∨
      (utf8 serverDestination).length > chatServerDestinationMaxBytes)
    (.failed "OMENchat mutation intent server destination is invalid")
  refuse (identityHash = [] ∨ identityHash.length > maxIntentIdentityHashBytes)
    (.failed "OMENchat mutation intent identity binding is invalid")
  refuse (optionalLength correlationId > maxCorrelationIdBytes)
    (.failed "OMENchat mutation intent correlation id is too large")
  refuse (expiresAt ≤ createdAt ∨ saturatingSub expiresAt createdAt > maxIntentLifetimeSeconds)
    (.failed "OMENchat mutation intent expiry is invalid")

/-- The operations that are journalled. -/
def eligibleForIntent : ChatOp → Bool
  | .roomMessage | .roomAction | .roomNotice | .roomReaction | .roomMessageRevision | .roomPin
  | .nicknameColourSet | .partRoom | .command => true
  | _ => false

def validatePrepareRequest (request : PrepareOutboundMutation) (limits : IntentLimits) :
    Except IntentError Unit := do
  refuse (limits.items ≤ 0 ∨ limits.bytes ≤ 0 ∨ limits.eachBytes = 0)
    (.failed "OMENchat mutation intent limits are invalid")
  refuse (eligibleForIntent request.op = false)
    (.failed "OMENchat operation is not eligible for durable mutation intent")
  validateIntentFields request.serverDestination request.authenticatedIdentityHash
    request.correlationId request.createdAt request.expiresAt

/-- The bytes an intent is charged for: its texts, its three identifiers and its frame. -/
def intentBytes (serverDestination : String) (identityHash : Bytes) (correlationId : Option String)
    (frameBytes : Nat) : Option Int := do
  let bytes ← checkedAdd (utf8 serverDestination).length identityHash.length
  let bytes ← checkedAdd bytes (16 + 16 + 32)
  let bytes ← checkedAdd bytes frameBytes
  let bytes ← checkedAdd bytes (optionalLength correlationId)
  toI64 bytes

/-- An `Option` whose absence is an error. -/
def orFailed {α : Type} (value : Option α) (text : String) : Except IntentError α :=
  value.elim (.error (.failed text)) .ok

/-! Loading. -/

def validateStoredLengths : Except IntentError Unit :=
  refuse (row.clientInstanceId.length ≠ 16 ∨
      ¬(1 ≤ (utf8 row.serverDestination).length ∧
        (utf8 row.serverDestination).length ≤ chatServerDestinationMaxBytes) ∨
      ¬(1 ≤ row.authenticatedIdentityHash.length ∧
        row.authenticatedIdentityHash.length ≤ maxIntentIdentityHashBytes) ∨
      row.requestHash.length ≠ 32 ∨
      ¬(1 ≤ row.requestFrame.length ∧ row.requestFrame.length ≤ maxOutboundMutationIntentBytesEach) ∨
      ¬(optionalLength row.correlationId ≤ maxCorrelationIdBytes) ∨
      ¬(1 ≤ row.retainedBytes ∧ row.retainedBytes ≤ maxOutboundMutationIntentBytesEach))
    (.failed "stored OMENchat mutation intent exceeds fixed recovery bounds")

def storedOp (op : Int) : Except IntentError ChatOp := do
  if op < 0 then throw (.context "negative stored operation" (.failed "out of range"))
  (ChatOp.tryFrom op.toNat).mapError .protocol

def storedRoomId : Option Int → Except IntentError (Option UInt32)
  | none => .ok none
  | some roomId =>
    match toU32 roomId with
    | some roomId => .ok (some roomId)
    | none => .error (.context "invalid stored room id" (.failed "out of range"))

/-- Both sides name their encoder alike, and both write the same array. -/
def encodeFrame (rmpv : Rmpv) (frame : Frame) : Except CodecError Bytes :=
  (rmpv.writeValueRef (frameToValueRef frame)).mapError .encode

section Journal
variable (rmpv : Rmpv) (sha256 : Bytes → RequestHash)

def decodeStoredIntent (row : IntentRow) : Except IntentError OutboundMutationIntent := do
  let clientInstanceId ←
    (Identifier.tryFrom "client_instance_id" 16 row.clientInstanceId).mapError .durable
  let requestHash ← (Identifier.tryFrom "request_hash" 32 row.requestHash).mapError .durable
  let op ← storedOp row.op
  let roomId ← storedRoomId row.roomId
  let state ← orFailed (OutboundMutationState.ofCode row.state)
    "invalid stored OMENchat mutation intent state"
  -- the columns repeat what the frame says, and the hash is made again
  let frame ← (decodeFrame rmpv row.requestFrame).mapError
    (.context "decode stored mutation intent" ∘ .codec)
  refuse (frame.seq ≠ 0 ∨ frame.op ≠ op ∨ frame.roomId ≠ roomId)
    (.failed "stored OMENchat mutation intent metadata does not match its frame")
  let actualHash ← (canonicalMutationRequestHash sha256 op roomId frame.body).mapError .durable
  refuse (actualHash ≠ requestHash)
    (.failed "stored OMENchat mutation intent hash does not match its frame")
  validateIntentFields row.serverDestination row.authenticatedIdentityHash row.correlationId
    row.createdAt row.expiresAt
  -- the column that the sums of the table are made of
  let actualRetainedBytes ← orFailed
    (intentBytes row.serverDestination row.authenticatedIdentityHash row.correlationId
      row.requestFrame.length)
    "stored OMENchat mutation intent retained-byte overflow"
  refuse (actualRetainedBytes ≠ row.retainedBytes)
    (.failed "stored OMENchat mutation intent retained-byte accounting is invalid")
  pure { serverDestination := row.serverDestination
         authenticatedIdentityHash := row.authenticatedIdentityHash
         clientInstanceId
         mutationId := row.mutationId
         requestHash
         op
         roomId
         body := frame.body
         state
         createdAt := row.createdAt
         expiresAt := row.expiresAt
         correlationId := row.correlationId }

def loadRow (row : IntentRow) : Except IntentError OutboundMutationIntent := do
  validateStoredLengths row
  decodeStoredIntent rmpv sha256 row

variable (s : IntentStore) (mutationId : MutationId)

def loadIntent : Except IntentError (Option OutboundMutationIntent) :=
  match s.intents.find? mutationId with
  | none => .ok none
  | some row => (loadRow rmpv sha256 row).map some

/-! Persisting. -/

variable (request : PrepareOutboundMutation)

def PrepareOutboundMutation.frame : Frame :=
  Frame.new request.op 0 request.roomId request.body

/-- The intent that is returned for a request. -/
def PrepareOutboundMutation.prepared (mutationId : MutationId) (requestHash : RequestHash) :
    OutboundMutationIntent :=
  { serverDestination := request.serverDestination
    authenticatedIdentityHash := request.authenticatedIdentityHash
    clientInstanceId := request.clientInstanceId
    mutationId
    requestHash
    op := request.op
    roomId := request.roomId
    body := request.body
    state := .prepared
    createdAt := request.createdAt
    expiresAt := request.expiresAt
    correlationId := request.correlationId }

/-- The checks before the transaction, the row to be written and the intent to be returned. -/
def prepareIntentRow (mutationId : MutationId) (limits : IntentLimits) :
    Except IntentError (IntentRow × OutboundMutationIntent) := do
  validatePrepareRequest request limits
  let requestHash ← (canonicalMutationRequestHash sha256 request.op request.roomId
    request.body).mapError (.context "canonicalize OMENchat mutation intent" ∘ .durable)
  -- written without a look at what a reader accepts
  let requestFrame ← (encodeFrame rmpv request.frame).mapError
    (.context "encode OMENchat mutation intent" ∘ .codec ∘ .failed)
  let retainedBytes ← orFailed
    (intentBytes request.serverDestination request.authenticatedIdentityHash request.correlationId
      requestFrame.length)
    "OMENchat mutation intent retained-byte overflow"
  refuse (requestFrame.length > limits.eachBytes ∨ retainedBytes > limits.eachBytes)
    (.failed s!"OMENchat mutation intent exceeds the {limits.eachBytes}-byte per-intent limit")
  pure
    ({ mutationId
       clientInstanceId := request.clientInstanceId.bytes
       serverDestination := request.serverDestination
       authenticatedIdentityHash := request.authenticatedIdentityHash
       requestHash := requestHash.bytes
       op := request.op.code.toNat
       roomId := request.roomId.map (fun roomId => (roomId.toNat : Int))
       requestFrame
       state := 0
       createdAt := request.createdAt
       expiresAt := request.expiresAt
       correlationId := request.correlationId
       retainedBytes },
     request.prepared mutationId requestHash)

/-- The transaction that admits a row. -/
def admitIntentRow (row : IntentRow) (limits : IntentLimits) : Txn IntentStore IntentError Unit := do
  let items ← Txn.query (fun s : IntentStore => (s.intents.rows.length : Int))
  let bytes ← Txn.statement (fun s : IntentStore => (retainedSum s.intents.rows).map (fun n => (n, s)))
  if saturatingAdd items 1 > limits.items ∨
      saturatingAdd bytes row.retainedBytes > limits.bytes then
    Txn.abort (.failed
      "OMENchat mutation intent capacity is exhausted; uncertain intents were preserved")
  else
    Txn.statement (fun s => ((insertIntent row s).mapError .statement).map (fun s => ((), s)))

def persistPreparedWithId (mutationId : MutationId) (limits : IntentLimits) (s : IntentStore) :
    Except IntentError OutboundMutationIntent × IntentStore :=
  match prepareIntentRow rmpv sha256 request mutationId limits with
  | .error e => (.error e, s)
  | .ok (row, intent) =>
    let admitted := Txn.atomically (admitIntentRow row limits) s
    (admitted.1.map (fun _ => intent), admitted.2)

/-! Transitions. -/

def allowedTransition : OutboundMutationState → OutboundMutationState → Bool
  | .prepared, .sentUncertain | .prepared, .expired | .prepared, .abandoned => true
  | .sentUncertain, .acknowledged | .sentUncertain, .conflict | .sentUncertain, .expired
  | .sentUncertain, .abandoned => true
  | _, _ => false

/-- `WHERE mutation_id = ?1 AND state = ?2`. -/
def IntentRow.isIn (row : IntentRow) (mutationId : MutationId) (state : OutboundMutationState) :
    Bool :=
  row.mutationId == mutationId && row.state == state.code

def setIntentState (expected next : OutboundMutationState) (s : IntentStore) : IntentStore :=
  { s with
    intents := s.intents.updateWhere (fun row => row.isIn mutationId expected)
      (fun row => { row with state := next.code }) (fun _ => rfl) }

def transition (expected next : OutboundMutationState) (s : IntentStore) :
    Except IntentError IntentTransition × IntentStore :=
  if allowedTransition expected next = false then
    (.error (.failed "invalid OMENchat mutation intent state transition"), s)
  else
    let changed := s.intents.rows.countP (fun row => row.isIn mutationId expected)
    let s' := setIntentState mutationId expected next s
    let answer := loadIntent rmpv sha256 s' mutationId
    if changed = 1 then
      (answer >>= fun intent => (orFailed intent
        "updated OMENchat mutation intent disappeared").map .updated, s')
    else
      (answer.map (fun intent => intent.elim .missing (fun i => .stateMismatch i.state)), s')

def removeRejectedBody : Txn IntentStore IntentError IntentRemoval := do
  let stored ← Txn.statement (fun s : IntentStore =>
    (loadIntent rmpv sha256 s mutationId).map (fun intent => (intent, s)))
  match stored with
  | none => pure .missing
  | some intent =>
    if intent.state ≠ .sentUncertain then pure (.stateMismatch intent.state)
    else
      let changed ← Txn.query (fun s : IntentStore =>
        s.intents.rows.countP (fun row => row.isIn mutationId .sentUncertain))
      Txn.execute (fun s : IntentStore =>
        { s with intents := s.intents.deleteWhere (fun row => row.isIn mutationId .sentUncertain) })
      if changed ≠ 1 then
        Txn.abort (.failed "uncertain OMENchat mutation intent changed during rejection removal")
      else pure (.removed intent)

def removeRejectedUncertain (s : IntentStore) : Except IntentError IntentRemoval × IntentStore :=
  Txn.atomically (removeRejectedBody rmpv sha256 mutationId) s

/-! Recovery and pruning. -/

/-- `ORDER BY created_at, mutation_id`. -/
def byCreation (a b : IntentRow) : Ordering :=
  (compare a.createdAt b.createdAt).then (compareBytes a.mutationId.bytes b.mutationId.bytes)

def IntentRow.nonterminal (row : IntentRow) : Bool := nonterminalCode row.state

/-- One turn of the loop. -/
def recoverIntent :
    Except IntentError OutboundMutationIntent := do
  orFailed (← loadIntent rmpv sha256 s mutationId)
    "OMENchat mutation intent disappeared during recovery"

def recoverNonterminal : Except IntentError (List OutboundMutationIntent) := do
  let nonterminal := s.intents.rows.filter IntentRow.nonterminal
  let retainedBytes ← retainedSum nonterminal
  refuse ((nonterminal.length : Int) > maxOutboundMutationIntents ∨
      retainedBytes > maxOutboundMutationIntentBytes)
    (.failed "stored OMENchat nonterminal mutation intents exceed recovery bounds")
  let ids := ((s.intents.batch byCreation IntentRow.nonterminal
    (maxOutboundMutationIntents + 1).toNat)).map IntentRow.mutationId
  refuse ((ids.length : Int) > maxOutboundMutationIntents)
    (.failed "stored OMENchat nonterminal mutation intent count exceeds recovery bounds")
  ids.mapM (recoverIntent rmpv sha256 s)

/-- The rows that one pruning deletes. -/
def prunedIntents (now : Int) (s : IntentStore) : List IntentRow :=
  s.intents.batch byCreation (fun row => terminalCode row.state &&
    decide (row.createdAt < saturatingSub now maxIntentLifetimeSeconds)) 128

def pruneTerminal (now : Int) (s : IntentStore) : Nat × IntentStore :=
  ((prunedIntents now s).length,
    { s with intents := s.intents.deleteRows (prunedIntents now s) })

/-! The client instance. -/

def replaceExpected (expected replacement : ClientInstanceId) (current : Option ClientInstanceId) :
    Except IntentError ClientInstanceId :=
  if expected = replacement then
    .error (.settings "OMENchat client instance replacement must be different")
  else
    match current with
    | none => .error (.settings "OMENchat client instance is missing during rotation")
    | some current =>
      if current ≠ expected then
        .error (.settings "OMENchat client instance changed before rotation")
      else .ok replacement

def rotateClientInstanceIfQuiescentWith (expected replacement : ClientInstanceId)
    (s : IntentStore) : Except IntentError ClientInstanceId × IntentStore :=
  if s.intents.rows.countP IntentRow.nonterminal ≠ 0 then
    (.error (.failed
      "OMENchat client instance cannot rotate while prepared or uncertain intents exist"), s)
  else
    match replaceExpected expected replacement s.clientInstanceId with
    | .error e => (.error (.context "rotate OMENchat client instance" e), s)
    | .ok replaced => (.ok replaced, { s with clientInstanceId := some replaced })

/-- `load_or_create`, with the identifier it would draw. -/
def loadOrCreateInstance (generated : ClientInstanceId) (s : IntentStore) :
    ClientInstanceId × IntentStore :=
  match s.clientInstanceId with
  | some existing => (existing, s)
  | none => (generated, { s with clientInstanceId := some generated })

end Journal
end Omen.Client
