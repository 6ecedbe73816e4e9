import OmenBrowser.Interface.AccessCode
import OmenBrowser.Lib.Delimited
import OmenBrowser.Lib.Txn

/- The receive loop of a network interface (`omen-ifac-tcp/src/lib.rs`).

   Bytes are read from a connection and appended to a buffer. The frames in it, from flag to flag,
   are cut out, and what a frame holds is handed on or reported. What is left must be short enough
   to be kept until the next read; if it is not, all of it is thrown away.

   Correspondence (Rust ↔ Lean):
     `append_tcp_bytes`                     ↔ `appendTcpBytes`
     `enforce_retained_frame_limit`         ↔ `enforceRetainedFrameLimit`
     `Hdlc::find`                           ↔ `find`
     the `while let` of the task            ↔ `readFrame`, `takeFrame`, `takeFrames`
     `Ok(n)` of the read                    ↔ `receive`
     `IfacTcpRuntimeStatus`, `mark_status`, `add_status_traffic` ↔ under the same names
   `Hdlc::decode` and `Packet::deserialize` are parameters of a link. The packet channel takes what
   it is sent, and the connection is open all along. -/
namespace Omen.Interface
open Wire Kdf Delimited Machine List

def tcpReadBufferBytes : Nat := 64 * 1024
def maxHdlcAccumulationBytes : Nat := defaultMtu * 2 + 128
def maxHdlcTemporaryBufferBytes : Nat := maxHdlcAccumulationBytes + tcpReadBufferBytes

/-- What opens a frame and closes it. -/
def hdlcFlag : UInt8 := 0x7e

def appendTcpBytes (frameBuffer bytes : Bytes) : Bool × Bytes :=
  if bytes.length > tcpReadBufferBytes ∨
      frameBuffer.length + bytes.length > maxHdlcTemporaryBufferBytes then
    (false, [])
  else (true, frameBuffer ++ bytes)

def enforceRetainedFrameLimit (frameBuffer : Bytes) : Bool × Bytes :=
  if frameBuffer.length > maxHdlcAccumulationBytes then (false, []) else (true, frameBuffer)

variable (bytes : Bytes)

/-- The positions of the first two flags. -/
def find : Option (Nat × Nat) :=
  match bytes.idxOf? hdlcFlag with
  | none => none
  | some start =>
    match (bytes.drop (start + 1)).idxOf? hdlcFlag with
    | none => none
    | some next => some (start, start + 1 + next)

structure IfacTcpRuntimeStatus where
  endpoint : String
  state : String
  lastError : Option String
  bytesRx : Nat
  bytesTx : Nat
  deriving DecidableEq

namespace IfacTcpRuntimeStatus

variable (status : IfacTcpRuntimeStatus)

def addTraffic (rx tx : Nat) : IfacTcpRuntimeStatus :=
  { status with
    bytesRx := min (status.bytesRx + rx) (2 ^ 64 - 1)
    bytesTx := min (status.bytesTx + tx) (2 ^ 64 - 1) }

def mark (state : String) (error : Option String) (rx tx : Nat) : IfacTcpRuntimeStatus :=
  { status with
    state
    lastError := error
    bytesRx := min (status.bytesRx + rx) (2 ^ 64 - 1)
    bytesTx := min (status.bytesTx + tx) (2 ^ 64 - 1) }

end IfacTcpRuntimeStatus

/-- What a receive loop reads its frames with. -/
structure Link (Packet : Type) where
  hdlcDecode : Bytes → Option Bytes
  hmac : Hmac
  ifac : IfacContext
  deserialize : Bytes → Option Packet

structure Receiver (Packet : Type) where
  frameBuffer : Bytes
  handedOn : List Packet
  status : IfacTcpRuntimeStatus

variable {Packet : Type} (link : Link Packet)

namespace Link

def readFrame (frame : Bytes) : Option Packet :=
  (link.hdlcDecode frame).bind fun output =>
    ((link.ifac.decodeInbound link.hmac output).toOption).bind link.deserialize

variable (r : Receiver Packet)

/-- One frame. -/
def takeFrame (frame : Bytes) : Receiver Packet :=
  match link.readFrame frame with
  | some packet => { r with handedOn := r.handedOn ++ [packet] }
  | none => { r with status := r.status.mark "connected" (some "ifac packet decode failed") 0 0 }

/-- The frames in the buffer, as many as there may be. -/
def takeFrames : Nat → Receiver Packet → Receiver Packet
  | 0, r => r
  | fuel + 1, r =>
    match find r.frameBuffer with
    | none => r
    | some (start, stop) =>
      let r := link.takeFrame r ((r.frameBuffer.take (stop + 1)).drop start)
      takeFrames fuel { r with frameBuffer := r.frameBuffer.drop (stop + 1) }

/-- One read, and whether its bytes were taken. -/
def receive (bytes : Bytes) : Bool × Receiver Packet :=
  let r := { r with status := r.status.addTraffic bytes.length 0 }
  match appendTcpBytes r.frameBuffer bytes with
  | (false, frameBuffer) =>
    (false,
      { r with
        frameBuffer
        status := r.status.mark "connected" (some "temporary HDLC buffer limit exceeded") 0 0 })
  | (true, frameBuffer) =>
    let r := link.takeFrames frameBuffer.length { r with frameBuffer }
    (true, { r with frameBuffer := (enforceRetainedFrameLimit r.frameBuffer).2 })

end Link

/-! Finding frames. -/

theorem find_none {bytes : Bytes} (h : find bytes = none) : bytes.count hdlcFlag ≤ 1 := by
  unfold find at h
  split at h
  · next hstart =>
    rw [count_eq_zero.mpr (idxOf?_eq_none_iff.mp hstart)]
    exact Nat.zero_le 1
  · next start hstart =>
    split at h
    · next hnext =>
      obtain ⟨noise, later, rfl, hnoise, rfl⟩ := idxOf?_split hstart
      have hlater : hdlcFlag ∉ later := by
        have hdrop : (noise ++ hdlcFlag :: later).drop (noise.length + 1) = later := by
          rw [drop_append, drop_eq_nil_of_le (Nat.le_succ _)]
          simp
        rw [hdrop] at hnext
        exact idxOf?_eq_none_iff.mp hnext
      rw [count_append, count_cons_self, count_eq_zero.mpr hnoise,
        count_eq_zero.mpr hlater]
    · cases h

/-- The first two flags make a frame, and no flag stands before it. -/
theorem find_some {bytes : Bytes} {start stop : Nat} (h : find bytes = some (start, stop)) :
    ∃ noise frame later, bytes = noise ++ (frame ++ later) ∧ hdlcFlag ∉ noise ∧
      IsFrame hdlcFlag frame ∧ start = noise.length ∧ stop + 1 = (noise ++ frame).length := by
  unfold find at h
  split at h
  · cases h
  · next first hstart =>
    split at h
    · cases h
    · next second hnext =>
      cases h
      obtain ⟨noise, tail, rfl, hnoise, rfl⟩ := idxOf?_split hstart
      have hdrop : (noise ++ hdlcFlag :: tail).drop (noise.length + 1) = tail := by
        rw [drop_append, drop_eq_nil_of_le (Nat.le_succ _)]
        simp
      rw [hdrop] at hnext
      obtain ⟨body, later, rfl, hbody, rfl⟩ := idxOf?_split hnext
      refine ⟨noise, hdlcFlag :: (body ++ [hdlcFlag]), later, by simp, hnoise, ⟨body, hbody, rfl⟩,
        rfl, ?_⟩
      simp only [length_append, length_cons, length_nil]
      omega

/-! One read. -/

namespace Link
variable {link}

variable (r : Receiver Packet) (frame : Bytes)

@[simp] theorem takeFrame_frameBuffer : (link.takeFrame r frame).frameBuffer = r.frameBuffer := by
  unfold takeFrame
  split <;> rfl

@[simp] theorem takeFrame_handedOn :
    (link.takeFrame r frame).handedOn = r.handedOn ++ (link.readFrame frame).toList := by
  unfold takeFrame
  split <;> simp_all

/-- All frames of the buffer are read, and what they leave stays. -/
theorem takeFrames_eq {fuel : Nat} {r : Receiver Packet} (h : r.frameBuffer.length ≤ fuel) :
    (link.takeFrames fuel r).frameBuffer = rest hdlcFlag r.frameBuffer ∧
      (link.takeFrames fuel r).handedOn =
        r.handedOn ++ (frames hdlcFlag r.frameBuffer).filterMap link.readFrame := by
  induction fuel generalizing r with
  | zero =>
    have hnil : r.frameBuffer = [] := length_eq_zero_iff.mp (Nat.le_zero.mp h)
    simp [takeFrames, hnil, rest, frames, feed_nil]
  | succ fuel ih =>
    unfold takeFrames
    split
    · next hfind =>
      have hfeed : feed hdlcFlag [] r.frameBuffer = ([], r.frameBuffer) :=
        feed_settled (find_none hfind)
      simp [rest, frames, hfeed]
    · next start stop hfind =>
      obtain ⟨noise, frame, later, hbuffer, hnoise, hframe, rfl, hstop⟩ := find_some hfind
      have htake : (r.frameBuffer.take (stop + 1)).drop noise.length = frame := by
        rw [hbuffer, hstop, ← append_assoc, take_left, drop_left]
      have hdrop : r.frameBuffer.drop (stop + 1) = later := by
        rw [hbuffer, hstop, ← append_assoc, drop_left]
      have hlen : later.length ≤ fuel := by
        rw [hbuffer] at h
        simp only [length_append] at h hstop
        omega
      have hfeed := feed_noise hnoise hframe later
      have hlater := ih
        (r := { link.takeFrame r frame with frameBuffer := later }) hlen
      simp only [htake, takeFrame_frameBuffer, hdrop]
      refine ⟨?_, ?_⟩
      · rw [hlater.1, hbuffer]
        simp only [rest, hfeed]
      · rw [hlater.2, hbuffer]
        simp only [frames, hfeed, filterMap_cons, takeFrame_handedOn]
        cases link.readFrame frame with
        | none | some => simp

/-- A read that is short enough is taken whole, and all frames it completes are read. -/
theorem receive_eq {r : Receiver Packet} {bytes : Bytes}
    (hshort : r.frameBuffer.length ≤ maxHdlcAccumulationBytes)
    (hread : bytes.length ≤ tcpReadBufferBytes) :
    (link.receive r bytes).1 = true ∧
      (link.receive r bytes).2.frameBuffer =
        (enforceRetainedFrameLimit (rest hdlcFlag (r.frameBuffer ++ bytes))).2 ∧
      (link.receive r bytes).2.handedOn =
        r.handedOn ++ (frames hdlcFlag (r.frameBuffer ++ bytes)).filterMap link.readFrame := by
  have happend : appendTcpBytes r.frameBuffer bytes = (true, r.frameBuffer ++ bytes) := by
    unfold appendTcpBytes maxHdlcTemporaryBufferBytes
    rw [if_neg (by omega)]
  have htaken := @takeFrames_eq Packet link _
    { r with
      frameBuffer := r.frameBuffer ++ bytes
      status := r.status.addTraffic bytes.length 0 } (Nat.le_refl _)
  unfold receive
  simp only [happend, htaken]
  exact ⟨trivial, trivial, trivial⟩

/-- What is kept after a read is short. -/
theorem length_enforceRetainedFrameLimit (frameBuffer : Bytes) :
    (enforceRetainedFrameLimit frameBuffer).2.length ≤ maxHdlcAccumulationBytes := by
  unfold enforceRetainedFrameLimit
  split
  · exact Nat.zero_le _
  · next h => exact Nat.le_of_not_lt h

end Link

/-! Reads of a connection. -/

/-- What a read leaves is short enough to be kept, or no frame has begun in it. -/
def SparesFrame (r : Receiver Packet) (bytes : Bytes) : Prop :=
  (rest hdlcFlag (r.frameBuffer ++ bytes)).length ≤ maxHdlcAccumulationBytes ∨
    hdlcFlag ∉ rest hdlcFlag (r.frameBuffer ++ bytes)

/-- What a receiver has made of bytes: their frames are read, and of their rest only bytes in front
    of the first flag are gone. -/
structure Reassembles (link : Link Packet) (before : List Packet) (bytes : Bytes)
    (r : Receiver Packet) : Prop where
  short : r.frameBuffer.length ≤ maxHdlcAccumulationBytes
  handed : r.handedOn = before ++ (frames hdlcFlag bytes).filterMap link.readFrame
  buffered : ∃ gone, hdlcFlag ∉ gone ∧ rest hdlcFlag bytes = gone ++ r.frameBuffer

theorem Reassembles.start {link : Link Packet} {r : Receiver Packet} (hempty : r.frameBuffer = []) :
    Reassembles link r.handedOn [] r := by
  refine ⟨?_, ?_, [], not_mem_nil, ?_⟩
  · rw [hempty]
    exact Nat.zero_le _
  · simp [frames, feed_nil]
  · rw [hempty]
    rfl

section
variable {link : Link Packet} {before : List Packet} {taken : Bytes} {r : Receiver Packet}
  (h : Reassembles link before taken r)
include h

theorem Reassembles.settled : r.frameBuffer.count hdlcFlag ≤ 1 := by
  obtain ⟨gone, -, hrest⟩ := h.buffered
  have hcount : (feed hdlcFlag [] taken).2.count hdlcFlag = _ := count_rest [] taken (by simp)
  have hle : (gone ++ r.frameBuffer).count hdlcFlag ≤ 1 := by
    rw [← hrest]
    unfold rest
    omega
  rw [count_append] at hle
  omega

/-- What more bytes complete and leave, by the buffer. -/
theorem Reassembles.more (bytes : Bytes) : frames hdlcFlag (taken ++ bytes) =
        frames hdlcFlag taken ++ frames hdlcFlag (r.frameBuffer ++ bytes) ∧
      ∃ gone, hdlcFlag ∉ gone ∧
        rest hdlcFlag (taken ++ bytes) = gone ++ rest hdlcFlag (r.frameBuffer ++ bytes) := by
  obtain ⟨gone, hgone, hrest⟩ := h.buffered
  obtain ⟨hframes, gone', hgone', hleft⟩ := feed_prefix hgone r.frameBuffer bytes
  rw [feed_rest h.settled] at hframes hleft
  unfold rest at hrest ⊢
  unfold frames
  rw [feed_append, hrest, hframes, hleft]
  exact ⟨rfl, gone', hgone', rfl⟩

end

namespace Link
variable {link}

/-- The step lemma. -/
theorem receive_reassembles {before : List Packet} {taken bytes : Bytes} {r : Receiver Packet}
    (hr : Reassembles link before taken r) (hread : bytes.length ≤ tcpReadBufferBytes)
    (hspares : SparesFrame r bytes) :
    Reassembles link before (taken ++ bytes) (link.receive r bytes).2 := by
  obtain ⟨-, hbuffer, hhanded⟩ := @receive_eq Packet link _ _ hr.short hread
  obtain ⟨hframes, gone, hgone, hrest⟩ := hr.more bytes
  refine ⟨?_, ?_, ?_⟩
  · rw [hbuffer]
    exact length_enforceRetainedFrameLimit _
  · rw [hhanded, hr.handed, hframes, filterMap_append, append_assoc]
  · rw [hbuffer, hrest]
    unfold enforceRetainedFrameLimit
    split
    · next hlong =>
      refine ⟨gone ++ rest hdlcFlag (r.frameBuffer ++ bytes), ?_, (append_nil _).symm⟩
      intro hmem
      rcases mem_append.mp hmem with hmem | hmem
      · exact hgone hmem
      · rcases hspares with hle | hno
        · omega
        · exact hno hmem
    · exact ⟨gone, hgone, rfl⟩

/-- A run from an empty buffer reassembles its reads. -/
theorem run_reassembles {r : Receiver Packet} {reads : List Bytes} (hempty : r.frameBuffer = [])
    (hreads : ∀ bytes ∈ reads, bytes.length ≤ tcpReadBufferBytes)
    (hspares : Machine.Meets link.receive SparesFrame r reads) :
    Reassembles link r.handedOn reads.flatten (run link.receive r reads).2 := by
  suffices hrun : ∀ (taken : Bytes) (s : Receiver Packet), Reassembles link r.handedOn taken s →
      Machine.Meets link.receive SparesFrame s reads →
      Reassembles link r.handedOn (taken ++ reads.flatten) (run link.receive s reads).2 by
    exact hrun [] r (.start hempty) hspares
  clear hempty hspares
  induction reads with
  | nil =>
    intro taken s hs _
    simpa [run] using hs
  | cons bytes reads ih =>
    intro taken s hs hm
    have hnext := receive_reassembles hs (hreads bytes mem_cons_self) hm.1
    have hlater := ih (fun b hb => hreads b (mem_cons_of_mem _ hb)) _ _ hnext hm.2
    rw [flatten_cons, ← append_assoc]
    exact hlater

/-- Every read is taken whole, and what is kept for the next one is short. -/
theorem run_bounded {r : Receiver Packet} {reads : List Bytes}
    (hshort : r.frameBuffer.length ≤ maxHdlcAccumulationBytes)
    (hreads : ∀ bytes ∈ reads, bytes.length ≤ tcpReadBufferBytes) :
    Machine.Meets link.receive (fun s bytes => (link.receive s bytes).1 = true ∧
      (link.receive s bytes).2.frameBuffer.length ≤ maxHdlcAccumulationBytes) r reads := by
  have hkept : ∀ (s : Receiver Packet) (bytes : Bytes),
      s.frameBuffer.length ≤ maxHdlcAccumulationBytes → bytes.length ≤ tcpReadBufferBytes →
      (link.receive s bytes).2.frameBuffer.length ≤ maxHdlcAccumulationBytes := by
    intro s bytes hs hb
    rw [(receive_eq hs hb).2.1]
    exact length_enforceRetainedFrameLimit _
  have hsmall : Machine.Meets link.receive (fun _ bytes => bytes.length ≤ tcpReadBufferBytes) r
      reads := meets_of_forall hreads
  refine meets_of_invariant (I := fun s =>
    s.frameBuffer.length ≤ maxHdlcAccumulationBytes) hkept ?_ hsmall hshort
  intro s bytes hs hb
  exact ⟨(receive_eq hs hb).1, hkept s bytes hs hb⟩

/-! Frames short enough for any cut. -/

/-- Each frame and the noise before it fit into what is kept. -/
def FitsBuffer (parts : List (Bytes × Bytes)) (last : Bytes) : Prop :=
  (∀ part ∈ parts, part.1.length + part.2.length ≤ maxHdlcAccumulationBytes + 1) ∧
    last.length ≤ maxHdlcAccumulationBytes

/-- Wherever such a stream is cut, little is left over. -/
theorem length_rest_of_cut {parts : List (Bytes × Bytes)} {last taken later : Bytes}
    (hsound : Sound hdlcFlag parts) (hfits : FitsBuffer parts last)
    (hcut : taken ++ later = stream parts last) :
    (rest hdlcFlag taken).length ≤ maxHdlcAccumulationBytes := by
  induction parts generalizing taken with
  | nil =>
    have hle : (feed hdlcFlag [] taken).2.length ≤ _ := length_rest [] taken
    have hlen := congrArg length hcut
    have hlast := hfits.2
    simp only [stream, flatMap_nil, nil_append, length_append] at hlen
    simp only [length_nil] at hle
    unfold rest
    omega
  | cons part parts ih =>
    obtain ⟨heven, hframe⟩ := hsound part mem_cons_self
    by_cases hinside : taken.length < (part.1 ++ part.2).length
    · have hle : (feed hdlcFlag [] taken).2.length ≤ _ := length_rest [] taken
      have hpart := hfits.1 part mem_cons_self
      simp only [length_append, length_nil] at hinside hle
      unfold rest
      omega
    · rw [stream_cons, ← append_assoc] at hcut
      obtain ⟨after, rfl⟩ : part.1 ++ part.2 <+: taken :=
        prefix_of_prefix_length_le ⟨_, hcut.symm⟩ ⟨_, rfl⟩ (Nat.le_of_not_lt hinside)
      rw [append_assoc] at hcut
      have hrest : hdlcFlag ∉ (feed hdlcFlag [] part.1).2 :=
        flag_notMem_rest not_mem_nil heven
      have hfeed : rest hdlcFlag (part.1 ++ part.2 ++ after) = rest hdlcFlag after := by
        unfold rest
        rw [feed_append, feed_append, feed_frame hrest hframe]
      rw [hfeed]
      exact ih (fun part hmem => hsound part (mem_cons_of_mem _ hmem))
        ⟨fun part hmem => hfits.1 part (mem_cons_of_mem _ hmem), hfits.2⟩
        (append_cancel_left hcut)

/-- Every cut of such a stream spares its frames. -/
theorem sparesFrame_of_stream {r : Receiver Packet} {reads : List Bytes}
    {parts : List (Bytes × Bytes)} {last : Bytes} (hempty : r.frameBuffer = [])
    (hreads : ∀ bytes ∈ reads, bytes.length ≤ tcpReadBufferBytes)
    (hsound : Sound hdlcFlag parts) (hfits : FitsBuffer parts last)
    (hstream : reads.flatten = stream parts last) :
    Machine.Meets link.receive SparesFrame r reads := by
  suffices hrun : ∀ (taken : Bytes) (s : Receiver Packet), Reassembles link r.handedOn taken s →
      taken ++ reads.flatten = stream parts last →
      Machine.Meets link.receive SparesFrame s reads by
    exact hrun [] r (.start hempty) hstream
  clear hempty hstream
  induction reads with
  | nil =>
    intro taken s _ _
    trivial
  | cons bytes reads ih =>
    intro taken s hs hcut
    rw [flatten_cons, ← append_assoc] at hcut
    have hspares : SparesFrame s bytes := by
      obtain ⟨-, gone, -, hrest⟩ := hs.more bytes
      have hlen := length_rest_of_cut hsound hfits hcut
      rw [hrest, length_append] at hlen
      exact .inl (by omega)
    exact ⟨hspares, ih (fun b hb => hreads b (mem_cons_of_mem _ hb)) _ _
      (receive_reassembles hs (hreads bytes mem_cons_self) hspares) hcut⟩

/-- A receiver on a new connection. -/
def start (status : IfacTcpRuntimeStatus) : Receiver Packet :=
  { frameBuffer := [], handedOn := [], status }

/-- Every read is taken and what is kept is short. Where no read ends with too much of an unfinished
    frame, what is handed on is what the frames of the whole stream hold, and from every empty
    buffer on, the frames of a well-formed stream are all read, each in its place. Streams whose
    frames fit are never cut short. -/
theorem stream_reassembled (link : Link Packet) (status : IfacTcpRuntimeStatus) (reads : List Bytes)
    (hreads : ∀ bytes ∈ reads, bytes.length ≤ tcpReadBufferBytes) :
    Machine.Meets link.receive (fun s bytes => (link.receive s bytes).1 = true ∧
        (link.receive s bytes).2.frameBuffer.length ≤ maxHdlcAccumulationBytes)
      (start status) reads ∧
      (Machine.Meets link.receive SparesFrame (start status) reads →
        (run link.receive (start status) reads).2.handedOn =
            (frames hdlcFlag reads.flatten).filterMap link.readFrame ∧
          ∀ before after parts last, reads = before ++ after →
            (run link.receive (start status) before).2.frameBuffer = [] →
            after.flatten = stream parts last → Sound hdlcFlag parts →
            (run link.receive (start status) reads).2.handedOn =
              (run link.receive (start status) before).2.handedOn ++
                ((parts.flatMap fun part => frames hdlcFlag part.1 ++ [part.2]) ++
                  frames hdlcFlag last).filterMap link.readFrame) ∧
      ∀ parts last, reads.flatten = stream parts last → Sound hdlcFlag parts →
        FitsBuffer parts last →
        Machine.Meets link.receive SparesFrame (start status) reads := by
  refine ⟨run_bounded (Nat.zero_le _) hreads, ?_, ?_⟩
  · intro hspares
    refine ⟨(run_reassembles rfl hreads hspares).handed, ?_⟩
    intro before after parts last hsplit hempty hstream hsound
    subst hsplit
    have hlater := run_reassembles hempty (fun b hb => hreads b (mem_append_right before hb))
      (meets_append hspares)
    rw [run_append, hlater.handed, hstream, frames_stream last hsound]
  · intro parts last hstream hsound hfits
    exact sparesFrame_of_stream rfl hreads hsound hfits hstream

/-- Escaped bytes, by the framing. -/
def escape : Bytes :=
  bytes.flatMap fun b => if b = 0x7e ∨ b = 0x7d then [0x7d, b ^^^ 0x20] else [b]

def unescape : Bytes → Option Bytes
  | [] => some []
  | b :: bs =>
    if b = 0x7d then
      match bs with
      | [] => none
      | e :: es => (unescape es).map ((e ^^^ 0x20) :: ·)
    else (unescape bs).map (b :: ·)

/-- A link with the pinned packet on it, the packet handed on as its bytes. -/
def vectorLink : Link Bytes :=
  { hdlcDecode := fun frame => unescape ((frame.drop 1).dropLast)
    hmac := IfacContext.vectorMac
    ifac := IfacContext.vectorContext
    deserialize := some }

def vectorFrame : Bytes := hdlcFlag :: (escape IfacContext.vectorSent ++ [hdlcFlag])

def vectorStatus : IfacTcpRuntimeStatus :=
  { endpoint := "127.0.0.1:4242", state := "connected", lastError := none, bytesRx := 0
    bytesTx := 0 }

/-- A frame in two reads, noise before it and between it and the next. -/
theorem stream_reassembled_vector :
    (run vectorLink.receive (start vectorStatus)
      [[1, 2] ++ vectorFrame.take 7, vectorFrame.drop 7 ++ [3], vectorFrame]).2.handedOn =
      [IfacContext.vectorPacket, IfacContext.vectorPacket] := by
  have hrun := ((stream_reassembled vectorLink vectorStatus
    [[1, 2] ++ vectorFrame.take 7, vectorFrame.drop 7 ++ [3], vectorFrame]
    (by decide +kernel)).2.1
    ⟨.inl (by decide +kernel), .inl (by decide +kernel), .inl (by decide +kernel), trivial⟩).1
  rw [hrun]
  decide +kernel

/-- Noise is kept as long as it is short. -/
theorem run_quiet {r : Receiver Packet} {reads : List Bytes}
    (hquiet : hdlcFlag ∉ r.frameBuffer) (hreads : ∀ bytes ∈ reads, hdlcFlag ∉ bytes)
    (hsmall : ∀ bytes ∈ reads, bytes.length ≤ tcpReadBufferBytes)
    (hshort : r.frameBuffer.length + reads.flatten.length ≤ maxHdlcAccumulationBytes) :
    (run link.receive r reads).2.frameBuffer = r.frameBuffer ++ reads.flatten ∧
      (run link.receive r reads).2.handedOn = r.handedOn := by
  induction reads generalizing r with
  | nil => simp [run]
  | cons bytes reads ih =>
    simp only [flatten_cons, length_append] at hshort
    have hnone : hdlcFlag ∉ r.frameBuffer ++ bytes := by
      intro hmem
      rcases mem_append.mp hmem with hmem | hmem
      · exact hquiet hmem
      · exact hreads bytes mem_cons_self hmem
    have hfeed : feed hdlcFlag [] (r.frameBuffer ++ bytes) = ([], r.frameBuffer ++ bytes) :=
      feed_quiet hnone
    obtain ⟨-, hbuffer, hhanded⟩ := @receive_eq Packet link r bytes (by omega)
      (hsmall bytes mem_cons_self)
    simp only [rest, frames, hfeed, filterMap_nil, append_nil] at hbuffer hhanded
    rw [enforceRetainedFrameLimit, if_neg (by rw [length_append]; omega)] at hbuffer
    dsimp only at hbuffer
    have hlater := ih (hbuffer ▸ hnone) (fun b hb => hreads b (mem_cons_of_mem _ hb))
      (fun b hb => hsmall b (mem_cons_of_mem _ hb))
      (by rw [hbuffer, length_append]; omega)
    rw [hbuffer, hhanded, append_assoc] at hlater
    exact hlater

/-- Noise a little shorter than what is kept. -/
def longNoise : List Bytes :=
  replicate 8 (replicate 65536 0) ++ [replicate 112 0]

theorem mem_longNoise {bytes : Bytes} (h : bytes ∈ longNoise) :
    bytes.length ≤ tcpReadBufferBytes ∧ hdlcFlag ∉ bytes := by
  rcases mem_append.mp h with hmem | hmem
  · obtain rfl := eq_of_mem_replicate hmem
    rw [length_replicate]
    exact ⟨by decide, fun hflag => absurd (eq_of_mem_replicate hflag) (by decide)⟩
  · obtain rfl := mem_singleton.mp hmem
    rw [length_replicate]
    exact ⟨by decide, fun hflag => absurd (eq_of_mem_replicate hflag) (by decide)⟩

theorem length_longNoise : longNoise.flatten.length = 524400 := by
  rw [longNoise, flatten_append, length_append, length_flatten, map_replicate,
    length_replicate, flatten_singleton, length_replicate]
  rfl

/-- A receiver behind the noise. -/
theorem run_longNoise :
    (run vectorLink.receive (start vectorStatus) longNoise).2.frameBuffer =
        longNoise.flatten ∧
      (run vectorLink.receive (start vectorStatus) longNoise).2.handedOn = [] := by
  have hempty : (start vectorStatus : Receiver Bytes).frameBuffer = [] := rfl
  have hnothing : (start vectorStatus : Receiver Bytes).handedOn = [] := rfl
  have hrun := @run_quiet Bytes vectorLink (start vectorStatus) longNoise
    (by rw [hempty]; exact not_mem_nil) (fun b hb => (mem_longNoise hb).2)
    (fun b hb => (mem_longNoise hb).1) (by rw [length_longNoise, hempty]; decide)
  rw [hempty, nil_append, hnothing] at hrun
  exact hrun

theorem notMem_longNoise : hdlcFlag ∉ longNoise.flatten := by
  intro hmem
  obtain ⟨bytes, hbytes, hflag⟩ := mem_flatten.mp hmem
  exact (mem_longNoise hbytes).2 hflag

theorem vectorFrame_isFrame : IsFrame hdlcFlag vectorFrame :=
  ⟨escape IfacContext.vectorSent, by decide +kernel, rfl⟩

section
variable {r : Receiver Bytes} {noise : Bytes} (hbuffer : r.frameBuffer = noise)
  (hnoise : hdlcFlag ∉ noise) (hlong : noise.length = 524400) (hhanded : r.handedOn = [])
include hbuffer hnoise hlong hhanded

/-- Behind noise that is kept, two frames in one read are found. -/
theorem receive_whole : (vectorLink.receive r (vectorFrame ++ vectorFrame)).2.handedOn =
      [IfacContext.vectorPacket, IfacContext.vectorPacket] := by
  have hshort : r.frameBuffer.length ≤ maxHdlcAccumulationBytes := by
    rw [hbuffer, hlong]
    decide
  obtain ⟨-, -, hread⟩ := @receive_eq Bytes vectorLink r (vectorFrame ++ vectorFrame) hshort
    (by decide +kernel)
  have hframes : frames hdlcFlag (noise ++ (vectorFrame ++ vectorFrame)) =
      [vectorFrame, vectorFrame] := by
    unfold frames
    rw [feed_noise hnoise vectorFrame_isFrame, feed_frame not_mem_nil vectorFrame_isFrame]
  rw [hread, hbuffer, hhanded, hframes]
  decide +kernel

/-- A read that ends within the first of them loses both. -/
theorem receive_cut : (vectorLink.receive (vectorLink.receive r (vectorFrame.take 20)).2
      (vectorFrame.drop 20 ++ vectorFrame)).2.handedOn = [] := by
  have hshort : r.frameBuffer.length ≤ maxHdlcAccumulationBytes := by
    rw [hbuffer, hlong]
    decide
  obtain ⟨-, hcleared, hnothing⟩ := @receive_eq Bytes vectorLink r (vectorFrame.take 20) hshort
    (by decide +kernel)
  have hfeed : feed hdlcFlag [] (noise ++ vectorFrame.take 20) =
      ([], noise ++ vectorFrame.take 20) := by
    apply feed_settled
    rw [nil_append, count_append, count_eq_zero.mpr hnoise]
    decide +kernel
  have htake : (vectorFrame.take 20).length = 20 := by decide +kernel
  rw [hbuffer] at hcleared hnothing
  simp only [rest, frames, hfeed, hhanded, filterMap_nil, append_nil] at hcleared hnothing
  rw [enforceRetainedFrameLimit, if_pos (by rw [length_append, hlong, htake]; decide)]
    at hcleared
  obtain ⟨-, -, hread⟩ := @receive_eq Bytes vectorLink
    (vectorLink.receive r (vectorFrame.take 20)).2 (vectorFrame.drop 20 ++ vectorFrame)
    (by rw [hcleared]; exact Nat.zero_le _) (by decide +kernel)
  rw [hread, hcleared, hnothing]
  decide +kernel

end

theorem receive_one (r : Receiver Bytes) (bytes : Bytes) :
    (run vectorLink.receive r [bytes]).2 = (vectorLink.receive r bytes).2 := rfl

theorem receive_two (r : Receiver Bytes) (bytes later : Bytes) :
    (run vectorLink.receive r [bytes, later]).2 =
      (vectorLink.receive (vectorLink.receive r bytes).2 later).2 := rfl

/-- Two cuts of one stream: behind noise that is kept, a read that ends within a frame loses that
    frame and all later ones. -/
theorem cut_loses_frames :
    (longNoise ++ [vectorFrame.take 20, vectorFrame.drop 20 ++ vectorFrame]).flatten =
        (longNoise ++ [vectorFrame ++ vectorFrame]).flatten ∧
      (run vectorLink.receive (start vectorStatus)
        (longNoise ++ [vectorFrame ++ vectorFrame])).2.handedOn =
          [IfacContext.vectorPacket, IfacContext.vectorPacket] ∧
      (run vectorLink.receive (start vectorStatus)
        (longNoise ++ [vectorFrame.take 20, vectorFrame.drop 20 ++ vectorFrame])).2.handedOn =
          [] := by
  obtain ⟨hbuffer, hhanded⟩ := run_longNoise
  refine ⟨?_, ?_, ?_⟩
  · simp only [flatten_append, flatten_cons, flatten_nil, append_nil,
      take_append_drop, ← append_assoc]
  · rw [run_append, receive_one]
    exact receive_whole hbuffer notMem_longNoise length_longNoise hhanded
  · rw [run_append, receive_two]
    exact receive_cut hbuffer notMem_longNoise length_longNoise hhanded

end Link
end Omen.Interface
