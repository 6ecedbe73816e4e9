import OmenBrowser.Interface.FrameReceiver

/- The send loop of a network interface (`omen-ifac-tcp/src/lib.rs`), and what the receive loop at
   the other end makes of it.

   A packet that cannot be serialized, masked or framed is reported and left out. A frame that is not
   written to its end closes the connection. So what is on the way is whole frames and the beginning
   of one, and however it is cut into reads, the receiver hands on what was written, each packet once
   and in order (`packets_arrive`).

   Correspondence (Rust ↔ Lean):
     `packet_buffer`, `hdlc_buffer` of both tasks ↔ the limits of `Packet::serialize`, `Hdlc::encode`
                                                    and `Hdlc::decode`
     the `recv` of the task                       ↔ `transmit`
   `Packet::serialize` and `Hdlc::encode` are parameters, and what a write comes to is given. -/
namespace Omen.Interface
open Wire Kdf Delimited Machine List

def hdlcEncodeBufferBytes : Nat := defaultMtu * 2 + 128
def hdlcDecodeBufferBytes : Nat := defaultMtu + 64

structure Sender (Packet : Type) where
  serialize : Packet → Option Bytes
  hmac : Hmac
  ifac : IfacContext
  hdlcEncode : Bytes → Option Bytes

/-- What `write_all` and `flush` come to; a write that fails has written less than the frame. -/
inductive WriteResult where
  | flushed
  | writeFailed (written : Nat) (error : String)
  | flushFailed (error : String)

structure Transmitter where
  written : Bytes
  status : IfacTcpRuntimeStatus
  stopped : Bool

variable {Packet : Type}

namespace Sender
variable (sender : Sender Packet)

def frame (packet : Packet) : Except String Bytes := do
  let output ← (sender.serialize packet).elim (.error "packet serialize failed") .ok
  let raw ← (sender.ifac.encodeOutbound sender.hmac output).mapError
    fun _ => "ifac packet encode failed"
  (sender.hdlcEncode raw).elim (.error "hdlc encode failed") .ok

/-- One message, and the packet if its frame was written. -/
def transmit (t : Transmitter) (message : Packet × WriteResult) : Option Packet × Transmitter :=
  if t.stopped then (none, t)
  else
    match sender.frame message.1, message.2 with
    | .error e, _ => (none, { t with status := t.status.mark "connected" (some e) 0 0 })
    | .ok frame, .flushed =>
      (some message.1,
        { t with written := t.written ++ frame, status := t.status.addTraffic 0 frame.length })
    | .ok frame, .writeFailed written error =>
      (none, ⟨t.written ++ frame.dropLast.take written,
        t.status.mark "closed" (some s!"tcp write failed: {error}") 0 0, true⟩)
    | .ok frame, .flushFailed error =>
      (some message.1, ⟨t.written ++ frame,
        t.status.mark "closed" (some s!"tcp flush failed: {error}") 0 0, true⟩)

def start (status : IfacTcpRuntimeStatus) : Transmitter := ⟨[], status, false⟩

/-- Both ends have one access code, and each reads what the other writes. -/
structure Matches (link : Link Packet) : Prop where
  hmac : sender.hmac = link.hmac
  ifac : sender.ifac = link.ifac
  serialized : ∀ packet raw, sender.serialize packet = some raw → 2 ≤ raw.length ∧
    raw.length ≤ defaultMtu ∧ raw.headD 0 &&& 0x80 = 0 ∧ link.deserialize raw = some packet
  encoded : ∀ raw frame, sender.hdlcEncode raw = some frame →
    IsFrame hdlcFlag frame ∧ frame.length ≤ hdlcEncodeBufferBytes
  decoded : ∀ raw frame, sender.hdlcEncode raw = some frame → raw.length ≤ hdlcDecodeBufferBytes →
    link.hdlcDecode frame = some raw

end Sender

/-! One frame. -/

variable {sender : Sender Packet} {link : Link Packet} {t : Transmitter} {sent : List Packet}
  {frame : Bytes}

theorem IfacContext.length_encodeOutbound {hmac : Hmac} {c : IfacContext} {packet raw : Bytes}
    (h : c.encodeOutbound hmac packet = .ok raw) : raw.length = packet.length + c.size := by
  unfold encodeOutbound at h
  split at h
  · obtain ⟨mask, hmask, h⟩ := Outcome.bind_ok.mp h
    have hlength := Hmac.length_expand (mask_ok hmask)
    cases h
    rw [length_mapIdx, length_zip, hlength]
    simp only [length_cons, length_append, length_signTail]
    omega
  · cases h

theorem elim_ok {α : Type} {o : Option α} {e : String} {a : α} :
    o.elim (.error e) .ok = Except.ok a ↔ o = some a := by
  cases o <;> simp

/-- A frame is read back as its packet. -/
theorem Sender.frame_read (hmatch : sender.Matches link) {packet : Packet}
    (h : sender.frame packet = .ok frame) : IsFrame hdlcFlag frame ∧
      frame.length ≤ hdlcEncodeBufferBytes ∧ link.readFrame frame = some packet := by
  obtain ⟨output, houtput, h⟩ := Outcome.bind_ok.mp h
  obtain ⟨raw, hraw, hframe⟩ := Outcome.bind_ok.mp h
  replace hraw := Outcome.mapError_ok.mp hraw
  obtain ⟨hshort, hlong, hclear, hpacket⟩ := hmatch.serialized packet output (elim_ok.mp houtput)
  obtain ⟨hone, hlength⟩ := hmatch.encoded raw frame (elim_ok.mp hframe)
  have hfits : raw.length ≤ hdlcDecodeBufferBytes := by
    have hsize := sender.ifac.size_le
    rw [IfacContext.length_encodeOutbound hraw]
    unfold hdlcDecodeBufferBytes
    omega
  obtain ⟨again, hagain, hdecoded⟩ := IfacContext.decodeInbound_encodeOutbound hshort hclear
    (IfacContext.encodeOutbound_fits hraw)
  cases hagain.symm.trans hraw
  refine ⟨hone, hlength, ?_⟩
  unfold Link.readFrame
  rw [hmatch.decoded raw frame (elim_ok.mp hframe) hfits, Option.bind_some, ← hmatch.ifac,
    ← hmatch.hmac, hdecoded]
  exact hpacket

/-! Runs. -/

/-- What was written: the frames of what was sent, and where the loop has stopped the beginning of one. -/
def Written (link : Link Packet) (t : Transmitter) (sent : List Packet) : Prop :=
  ∃ (frames : List Bytes) (last : Bytes), t.written = stream (frames.map fun frame => ([], frame)) last ∧
    (∀ frame ∈ frames, IsFrame hdlcFlag frame ∧ frame.length ≤ hdlcEncodeBufferBytes) ∧
    frames.filterMap link.readFrame = sent ∧
    last.count hdlcFlag ≤ 1 ∧ last.length ≤ hdlcEncodeBufferBytes ∧ (t.stopped = false → last = [])

theorem Written.wrote (h : Written link t sent) (hopen : t.stopped = false)
    (hmatch : sender.Matches link) {packet : Packet} (hframe : sender.frame packet = .ok frame)
    {t' : Transmitter} (hwritten : t'.written = t.written ++ frame) :
    Written link t' (sent ++ [packet]) := by
  obtain ⟨frames, last, hstream, hframes, hsent, -, -, hlast⟩ := h
  obtain ⟨hone, hlength, hread⟩ := Sender.frame_read hmatch hframe
  refine ⟨frames ++ [frame], [], ?_, ?_, ?_, Nat.zero_le 1, Nat.zero_le _, fun _ => rfl⟩
  · rw [hwritten, hstream, hlast hopen]
    simp [stream]
  · intro other hother
    rcases mem_append.mp hother with hother | hother
    · exact hframes other hother
    · rw [mem_singleton.mp hother]
      exact ⟨hone, hlength⟩
  · rw [filterMap_append, hsent, filterMap_cons_some hread, filterMap_nil]

/-- The step lemma. -/
theorem Written.transmit (hmatch : sender.Matches link) (h : Written link t sent)
    (message : Packet × WriteResult) :
    Written link (sender.transmit t message).2 (sent ++ (sender.transmit t message).1.toList) := by
  unfold Sender.transmit
  split
  · rwa [Option.toList_none, append_nil]
  · next hopen =>
    replace hopen : t.stopped = false := Bool.eq_false_iff.mpr hopen
    split
    · rwa [Option.toList_none, append_nil]
    · next hframe _ => exact h.wrote hopen hmatch hframe rfl
    · next written error hframe _ =>
      obtain ⟨frames, last, hstream, hframes, hsent, -, -, hlast⟩ := h
      obtain ⟨⟨body, hbody, rfl⟩, hlength, -⟩ := Sender.frame_read hmatch hframe
      rw [Option.toList_none, append_nil]
      refine ⟨frames, ((hdlcFlag :: (body ++ [hdlcFlag])).dropLast).take written, ?_, hframes, hsent,
        ?_, ?_, fun hopen => by cases hopen⟩
      · simp only [hstream, hlast hopen, stream, append_nil]
      · refine ((take_sublist _ _).count_le hdlcFlag).trans ?_
        rw [← cons_append, dropLast_concat, count_cons_self, count_eq_zero.mpr hbody]
      · exact ((take_sublist _ _).trans (dropLast_sublist _)).length_le.trans hlength
    · next hframe _ => exact h.wrote hopen hmatch hframe rfl

/-- The run lemma. -/
theorem Written.run (hmatch : sender.Matches link) (h : Written link t sent)
    (messages : List (Packet × WriteResult)) :
    Written link (run sender.transmit t messages).2
      (sent ++ (run sender.transmit t messages).1.filterMap Prod.snd) := by
  induction messages generalizing t sent with
  | nil => rwa [Machine.run, filterMap_nil, append_nil]
  | cons message messages ih =>
    have hlater := ih (h.transmit hmatch message)
    unfold Machine.run
    cases hsent : (sender.transmit t message).1 with
    | none =>
      rw [hsent, Option.toList_none, append_nil] at hlater
      simpa [hsent] using hlater
    | some packet =>
      rw [hsent, Option.toList_some, append_assoc] at hlater
      simpa [hsent] using hlater

/-- Whatever fails on the way and however the bytes are cut, what has arrived is what was sent, in
order, up to what is still on the way. -/
theorem packets_arrive (hmatch : sender.Matches link) (status status' : IfacTcpRuntimeStatus)
    (messages : List (Packet × WriteResult)) (reads : List Bytes) (inFlight : Bytes)
    (hreads : ∀ bytes ∈ reads, bytes.length ≤ tcpReadBufferBytes)
    (hcut : reads.flatten ++ inFlight = (run sender.transmit (Sender.start status) messages).2.written) :
    (run link.receive (Link.start status') reads).2.handedOn <+:
        (run sender.transmit (Sender.start status) messages).1.filterMap Prod.snd ∧
      (inFlight = [] → (run link.receive (Link.start status') reads).2.handedOn =
        (run sender.transmit (Sender.start status) messages).1.filterMap Prod.snd) := by
  have hstart : Written link (Sender.start status) [] :=
    ⟨[], [], rfl, forall_mem_nil _, rfl, Nat.zero_le 1, Nat.zero_le _, fun _ => rfl⟩
  obtain ⟨frames, last, hstream, hframes, hsent, hbegun, hshort, -⟩ := hstart.run hmatch messages
  have hsound : Sound hdlcFlag (frames.map fun frame => ([], frame)) := by
    intro part hpart
    obtain ⟨frame, hframe, rfl⟩ := mem_map.mp hpart
    exact ⟨by simp, (hframes frame hframe).1⟩
  have hfits : Link.FitsBuffer (frames.map fun frame => ([], frame)) last := by
    refine ⟨fun part hpart => ?_, hshort⟩
    obtain ⟨frame, hframe, rfl⟩ := mem_map.mp hpart
    rw [length_nil, Nat.zero_add]
    exact Nat.le_succ_of_le (hframes frame hframe).2
  -- what is on the way is read byte by byte
  have hall : ∀ bytes ∈ reads ++ inFlight.map ([·]), bytes.length ≤ tcpReadBufferBytes := by
    intro bytes hbytes
    rcases mem_append.mp hbytes with hbytes | hbytes
    · exact hreads bytes hbytes
    · obtain ⟨byte, -, rfl⟩ := mem_map.mp hbytes
      exact (by decide : 1 ≤ tcpReadBufferBytes)
  have hflat : (reads ++ inFlight.map ([·])).flatten =
      stream (frames.map fun frame => ([], frame)) last := by
    rw [flatten_append, ← flatMap_def, flatMap_singleton', hcut, hstream]
  have hspares : Meets link.receive SparesFrame (Link.start status') _ :=
    Link.sparesFrame_of_stream rfl hall hsound hfits hflat
  have hhanded := (Link.run_reassembles rfl hreads (meets_front hspares)).handed
  have hwhole : Delimited.frames hdlcFlag (reads.flatten ++ inFlight) = frames := by
    have hnone : Delimited.frames hdlcFlag last = [] := congrArg Prod.fst (feed_settled hbegun)
    rw [hcut, hstream, frames_stream last hsound, hnone, append_nil, flatMap_map]
    exact flatMap_singleton' frames
  have hfront : Delimited.frames hdlcFlag reads.flatten <+: frames := by
    rw [← hwhole, Delimited.frames, Delimited.frames, feed_append]
    exact prefix_append _ _
  rw [nil_append] at hsent
  rw [← hsent, hhanded]
  refine ⟨hfront.filterMap _, fun hnothing => ?_⟩
  rw [hnothing, append_nil] at hwhole
  rw [hwhole]
  rfl

/-! The pinned packet, sent and received. -/

def vectorSender : Sender Bytes :=
  { serialize := fun raw =>
      if 2 ≤ raw.length ∧ raw.length ≤ defaultMtu ∧ raw.headD 0 &&& 0x80 = 0 then some raw else none
    hmac := IfacContext.vectorMac
    ifac := IfacContext.vectorContext
    hdlcEncode := fun raw =>
      let frame := hdlcFlag :: (Link.escape raw ++ [hdlcFlag])
      if frame.length ≤ hdlcEncodeBufferBytes then some frame else none }

theorem unescape_escape (raw : Bytes) : Link.unescape (Link.escape raw) = some raw := by
  induction raw with
  | nil => rfl
  | cons b raw ih =>
    show Link.unescape ((if b = 0x7e ∨ b = 0x7d then [0x7d, b ^^^ 0x20] else [b]) ++
      Link.escape raw) = _
    split
    · have hback : b ^^^ 0x20 ^^^ 0x20 = b := by
        rw [UInt8.xor_assoc, UInt8.xor_self, UInt8.xor_zero]
      simp only [cons_append, nil_append, Link.unescape, ih, hback]
      rfl
    · next hplain =>
      rw [not_or] at hplain
      rw [singleton_append, Link.unescape.eq_def]
      dsimp only
      rw [if_neg hplain.2, ih]
      rfl

theorem flag_notMem_escape (raw : Bytes) : hdlcFlag ∉ Link.escape raw := by
  intro hmem
  obtain ⟨b, -, hb⟩ := mem_flatMap.mp hmem
  split at hb
  · next hescaped => rcases hescaped with rfl | rfl <;> exact absurd hb (by decide)
  · next hplain => exact hplain (.inl (mem_singleton.mp hb).symm)

theorem vectorSender_matches : vectorSender.Matches Link.vectorLink where
  hmac := rfl
  ifac := rfl
  serialized packet raw h := by
    obtain ⟨⟨hshort, hlong, hclear⟩, rfl⟩ := Option.ite_some_none_eq_some.mp h
    exact ⟨hshort, hlong, hclear, rfl⟩
  encoded raw frame h := by
    obtain ⟨hlength, rfl⟩ := Option.ite_some_none_eq_some.mp h
    exact ⟨⟨_, flag_notMem_escape raw, rfl⟩, hlength⟩
  decoded raw frame h _ := by
    obtain ⟨-, rfl⟩ := Option.ite_some_none_eq_some.mp h
    show Link.unescape (Link.escape raw ++ [hdlcFlag]).dropLast = some raw
    rw [dropLast_concat]
    exact unescape_escape raw

/-- A packet, one that cannot be serialized, and one of which the connection takes five bytes. -/
def vectorMessages : List (Bytes × WriteResult) :=
  [(IfacContext.vectorPacket, .flushed), ([1], .flushed),
    (IfacContext.vectorPacket, .writeFailed 5 "reset")]

theorem packets_arrive_vector :
    let written := (run vectorSender.transmit (Sender.start Link.vectorStatus) vectorMessages).2.written
    (run Link.vectorLink.receive (Link.start Link.vectorStatus)
      [written.take 7, written.drop 7]).2.handedOn = [IfacContext.vectorPacket] := by
  intro written
  have harrived := (packets_arrive vectorSender_matches Link.vectorStatus Link.vectorStatus
    vectorMessages [written.take 7, written.drop 7] [] (by decide +kernel) (by decide +kernel)).2 rfl
  rw [harrived]
  decide +kernel

end Omen.Interface
