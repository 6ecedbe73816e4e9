import OmenBrowser.Lib.Outcome
import OmenBrowser.Lib.Wire

/- Frames of an attachment sent over a Channel
   (`omenchat-protocol/src/channel_attachment.rs`).

   A frame is a magic, a version, its kind, the length of the resource id, a part of fixed length,
   the id itself, and, of a data frame, the payload. `decode` reads the kinds at their offsets;
   what it accepts is what `encode` writes. The sender cuts an attachment into chunks that fit
   behind the header of a data frame.

   Correspondence (Rust ↔ Lean):
     `raw[a..b]`                              ↔ `(raw.drop a).take (b - a)`
     the `match self { .. }` before the id    ↔ `ChannelAttachmentFrame.fixedPart`
     the loop that reads and sends chunks     ↔ `chunks`, `dataFrames` -/
namespace Omen.Protocol
open Wire Option

variable {frame : ChannelAttachmentFrame} {raw : Bytes}

def channelAttachmentMaxResourceIdBytes : Nat := 128

/-- `OCAT`. -/
def channelAttachmentMagic : Bytes := [0x4f, 0x43, 0x41, 0x54]
def channelAttachmentVersion : UInt8 := 1

/-- The SHA-256 of the whole attachment. -/
abbrev AttachmentDigest := Vector UInt8 32

/-- The messages of an upload over a channel: begun, a piece of it, ended or given up. -/
inductive ChannelAttachmentFrame where
  | start (resourceId : String) (totalBytes : UInt64)
  | data (resourceId : String) (offset : UInt64) (bytes : Bytes)
  | finish (resourceId : String) (totalBytes : UInt64) (digest : AttachmentDigest)
  | cancel (resourceId : String)
  deriving DecidableEq

inductive ChannelAttachmentError where
  | invalid
  | invalidResourceId
  | payloadTooLarge
  deriving DecidableEq, Repr

namespace ChannelAttachmentFrame

def kind : ChannelAttachmentFrame → UInt8
  | .start _ _ => 1
  | .data _ _ _ => 2
  | .finish _ _ _ => 3
  | .cancel _ => 4

def resourceId : ChannelAttachmentFrame → String
  | .start resourceId _ => resourceId
  | .data resourceId _ _ => resourceId
  | .finish resourceId _ _ => resourceId
  | .cancel resourceId => resourceId

/-- What stands before the id. -/
def fixedPart : ChannelAttachmentFrame → Bytes
  | .start _ totalBytes => be 8 totalBytes.toNat
  | .data _ offset _ => be 8 offset.toNat
  | .finish _ totalBytes digest => be 8 totalBytes.toNat ++ digest.toList
  | .cancel _ => []

/-- Only a piece has bytes behind its header. -/
def payload : ChannelAttachmentFrame → Bytes
  | .data _ _ bytes => bytes
  | _ => []

/-- A frame as it is written, whatever its id. -/
def layout (frame : ChannelAttachmentFrame) : Bytes :=
  channelAttachmentMagic ++ (channelAttachmentVersion :: frame.kind ::
    (be 2 (utf8 frame.resourceId).length ++
      (frame.fixedPart ++ (utf8 frame.resourceId ++ frame.payload))))

/-- `encode`: the header, the resource id and the payload, if each is within its limit. -/
def encode (frame : ChannelAttachmentFrame) (maxPayload : Nat) :
    Except ChannelAttachmentError Bytes :=
  let id := utf8 frame.resourceId
  if id = [] ∨ id.length > channelAttachmentMaxResourceIdBytes then .error .invalidResourceId
  else if frame.layout.length > maxPayload then .error .payloadTooLarge
  else .ok frame.layout

/-- Where the id of a frame of this kind starts. -/
def idOffset (kind : UInt8) : Option Nat :=
  if kind = 1 ∨ kind = 2 then some 16
  else if kind = 3 then some 48
  else if kind = 4 then some 8
  else none

/-- `read_u64(&raw[8..16])`. -/
def readTotal (raw : Bytes) : UInt64 := UInt64.ofNat (ofBe ((raw.drop 8).take 8))

/-- `digest.copy_from_slice(&raw[16..48])`. -/
def readDigest (raw : Bytes) : AttachmentDigest := Vector.ofFn fun i => raw.getD (16 + i) 0

/-- The frame of this kind, with the parts at their offsets. -/
def parts (raw : Bytes) (kind : UInt8) (resourceId : String) (idEnd : Nat) : ChannelAttachmentFrame :=
  if kind = 1 then .start resourceId (readTotal raw)
  else if kind = 2 then .data resourceId (readTotal raw) (raw.drop idEnd)
  else if kind = 3 then .finish resourceId (readTotal raw) (readDigest raw)
  else .cancel resourceId

/-- `decode`: the magic and the version first, then the id of the length that the header gives; only
a piece goes on behind it. -/
def decode (raw : Bytes) : Except ChannelAttachmentError ChannelAttachmentFrame :=
  if raw.length < 8 ∨ raw.take 4 ≠ channelAttachmentMagic ∨
      raw.getD 4 0 ≠ channelAttachmentVersion then .error .invalid
  else
    let kind := raw.getD 5 0
    let idLen := ofBe ((raw.drop 6).take 2)
    if idLen = 0 ∨ idLen > channelAttachmentMaxResourceIdBytes then .error .invalidResourceId
    else
      match idOffset kind with
      | none => .error .invalid
      | some fixed =>
        let idEnd := fixed + idLen
        if raw.length < idEnd ∨ (kind ≠ 2 ∧ raw.length ≠ idEnd) then .error .invalid
        else
          match asStr ((raw.drop fixed).take idLen) with
          | none => .error .invalidResourceId
          | some resourceId => .ok (parts raw kind resourceId idEnd)

/-- `data_header_len`: what a piece takes beside its bytes. -/
def dataHeaderLen (resourceId : String) : Except ChannelAttachmentError Nat :=
  if utf8 resourceId = [] ∨ (utf8 resourceId).length > channelAttachmentMaxResourceIdBytes then
    .error .invalidResourceId
  else .ok (16 + (utf8 resourceId).length)

/-! What the decoder accepts. -/

/-- An id that can be written. -/
def ValidId (resourceId : String) : Prop :=
  utf8 resourceId ≠ [] ∧ (utf8 resourceId).length ≤ channelAttachmentMaxResourceIdBytes

theorem encode_ok {maxPayload : Nat} :
    frame.encode maxPayload = .ok raw ↔
      ValidId frame.resourceId ∧ raw = frame.layout ∧ raw.length ≤ maxPayload := by
  unfold encode ValidId
  by_cases hid : utf8 frame.resourceId = [] ∨
      (utf8 frame.resourceId).length > channelAttachmentMaxResourceIdBytes
  · rw [if_pos hid]
    refine ⟨nofun, ?_⟩
    rintro ⟨⟨hne, hle⟩, _⟩
    rcases hid with h | h
    · exact absurd h hne
    · omega
  · have hvalid : utf8 frame.resourceId ≠ [] ∧
        (utf8 frame.resourceId).length ≤ channelAttachmentMaxResourceIdBytes :=
      ⟨fun h => hid (.inl h), Nat.le_of_not_lt fun h => hid (.inr h)⟩
    rw [if_neg hid]
    by_cases hlen : frame.layout.length > maxPayload
    · rw [if_pos hlen]
      refine ⟨nofun, ?_⟩
      rintro ⟨_, rfl, hle⟩
      omega
    · rw [if_neg hlen]
      constructor
      · intro h
        cases h
        exact ⟨hvalid, rfl, Nat.le_of_not_lt hlen⟩
      · rintro ⟨_, rfl, _⟩
        rfl

theorem idLength_lt {resourceId : String} (h : ValidId resourceId) :
    (utf8 resourceId).length < 256 ^ 2 := by
  have := h.2
  unfold channelAttachmentMaxResourceIdBytes at this
  omega

theorem idLength_pos {resourceId : String} (h : ValidId resourceId) :
    0 < (utf8 resourceId).length := List.length_pos_of_ne_nil h.1

/-- The header of a frame, byte by byte. -/
theorem layout_eq (frame : ChannelAttachmentFrame) :
    ∃ a b, be 2 (utf8 frame.resourceId).length = [a, b] ∧
      frame.layout = 0x4f :: 0x43 :: 0x41 :: 0x54 :: 1 :: frame.kind :: a :: b ::
        (frame.fixedPart ++ (utf8 frame.resourceId ++ frame.payload)) := ⟨_, _, rfl, rfl⟩

theorem idOffset_kind (frame : ChannelAttachmentFrame) :
    idOffset frame.kind = some (8 + frame.fixedPart.length) := by
  cases frame with
  | finish resourceId totalBytes digest => simp [fixedPart, kind, idOffset]
  | _ => simp [fixedPart, kind, idOffset]

theorem readTotal_be {a b c d e f g h : UInt8} {value : UInt64} {rest : Bytes} :
    readTotal (a :: b :: c :: d :: e :: f :: g :: h :: (be 8 value.toNat ++ rest)) = value := by
  have hread : (((a :: b :: c :: d :: e :: f :: g :: h :: (be 8 value.toNat ++ rest)).drop 8).take 8)
      = be 8 value.toNat := by
    show (be 8 value.toNat ++ rest).take 8 = _
    rw [List.take_append_of_le_length (by rw [length_be]), List.take_of_length_le (by rw [length_be])]
  unfold readTotal
  rw [hread, ofBe_be_of_lt value.toNat_lt, UInt64.ofNat_toNat]

/-- The digest of a frame is read from behind its eight bytes of size. -/
theorem readDigest_append {header size rest : Bytes} {digest : AttachmentDigest}
    (hheader : header.length = 8) (hsize : size.length = 8) :
    readDigest (header ++ (size ++ (digest.toList ++ rest))) = digest := by
  apply Vector.ext
  intro i hi
  rw [readDigest, Vector.getElem_ofFn, List.getD_eq_getElem?_getD, List.getElem?_append_right (by simp; omega),
    List.getElem?_append_right (by simp; omega), List.getElem?_append_left (by simp; omega),
    List.getElem?_eq_getElem (by simp; omega), getD_some]
  simp only [hheader, hsize]
  have hindex : 16 + i - 8 - 8 = i := by omega
  simp [hindex]

/-- The parts of a written frame are the frame's. -/
theorem parts_layout (frame : ChannelAttachmentFrame) :
    parts frame.layout frame.kind frame.resourceId
      (8 + frame.fixedPart.length + (utf8 frame.resourceId).length) = frame := by
  obtain ⟨a, b, _, hlayout⟩ := layout_eq frame
  rw [hlayout]
  cases frame with
  | start resourceId totalBytes =>
    show start resourceId (readTotal _) = _
    rw [show (start resourceId totalBytes).fixedPart = be 8 totalBytes.toNat from rfl, readTotal_be]
  | data resourceId offset bytes =>
    show data resourceId (readTotal _) _ = _
    have hfixed : (data resourceId offset bytes).fixedPart = be 8 offset.toNat := rfl
    have hrest : (be 8 offset.toNat ++ (utf8 resourceId ++ bytes)).drop
        (8 + (utf8 resourceId).length) = bytes := by
      rw [← List.append_assoc, List.drop_left' (by simp)]
    rw [hfixed, readTotal_be, length_be, Nat.add_assoc, ← List.drop_drop]
    exact congrArg _ hrest
  | finish resourceId totalBytes digest =>
    have hfixed : (finish resourceId totalBytes digest).fixedPart =
      be 8 totalBytes.toNat ++ digest.toList := rfl
    have hdigest : readDigest (([0x4f, 0x43, 0x41, 0x54, 1, 3, a, b] : Bytes) ++
        (be 8 totalBytes.toNat ++ (digest.toList ++ (utf8 resourceId ++ [])))) = digest :=
      readDigest_append rfl (length_be 8 totalBytes.toNat)
    rw [hfixed, List.append_assoc]
    show finish resourceId (readTotal _) (readDigest _) = _
    rw [readTotal_be]
    exact congrArg (finish resourceId totalBytes) hdigest
  | cancel resourceId => rfl

/-- A written frame is read as it was. -/
theorem decode_layout (hid : ValidId frame.resourceId) : decode frame.layout = .ok frame := by
  obtain ⟨a, b, hlen, hlayout⟩ := layout_eq frame
  have hlength : frame.layout.length = 8 + frame.fixedPart.length +
      (utf8 frame.resourceId).length + frame.payload.length := by
    rw [hlayout]
    simp only [List.length_cons, List.length_append]
    omega
  have hread : ofBe ((frame.layout.drop 6).take 2) = (utf8 frame.resourceId).length := by
    rw [← ofBe_be_of_lt (idLength_lt hid), hlen, hlayout]
    rfl
  have hname : (frame.layout.drop (8 + frame.fixedPart.length)).take (utf8 frame.resourceId).length
      = utf8 frame.resourceId := by
    rw [hlayout, ← List.drop_drop]
    show ((frame.fixedPart ++ (utf8 frame.resourceId ++ frame.payload)).drop
      frame.fixedPart.length).take _ = _
    rw [List.drop_left, List.take_left]
  have hheader : ¬(frame.layout.length < 8 ∨ frame.layout.take 4 ≠ channelAttachmentMagic ∨
      frame.layout.getD 4 0 ≠ channelAttachmentVersion) := by
    rintro (h | h | h)
    · omega
    · exact h (by rw [hlayout]; rfl)
    · exact h (by rw [hlayout]; rfl)
  have hkind : frame.layout.getD 5 0 = frame.kind := by rw [hlayout]; rfl
  have hbound : ¬((utf8 frame.resourceId).length = 0 ∨
      (utf8 frame.resourceId).length > channelAttachmentMaxResourceIdBytes) := by
    have := idLength_pos hid
    have := hid.2
    omega
  have hend : ¬(frame.layout.length < 8 + frame.fixedPart.length + (utf8 frame.resourceId).length ∨
      (frame.kind ≠ 2 ∧
        frame.layout.length ≠ 8 + frame.fixedPart.length + (utf8 frame.resourceId).length)) := by
    rintro (h | ⟨hk, h⟩)
    · omega
    · apply h
      rw [hlength]
      cases frame with
      | data => exact absurd rfl hk
      | _ => rfl
  unfold decode
  simp only [if_neg hheader, hread, if_neg hbound, hkind, idOffset_kind, if_neg hend, hname,
    asStr_utf8, parts_layout]

/-- Eight bytes read as a number are written as these bytes. -/
theorem be_readTotal (h : 16 ≤ raw.length) : be 8 (readTotal raw).toNat = (raw.drop 8).take 8 := by
  have hlen : ((raw.drop 8).take 8).length = 8 := by simp; omega
  have hlt : ofBe ((raw.drop 8).take 8) < 2 ^ 64 := by
    have := ofBe_lt ((raw.drop 8).take 8)
    rw [hlen] at this
    exact this
  unfold readTotal
  rw [UInt64.toNat_ofNat_of_lt' hlt]
  calc be 8 (ofBe ((raw.drop 8).take 8))
      = be ((raw.drop 8).take 8).length (ofBe ((raw.drop 8).take 8)) := by rw [hlen]
    _ = (raw.drop 8).take 8 := be_ofBe _

theorem toList_readDigest (h : 48 ≤ raw.length) :
    (readDigest raw).toList = (raw.drop 16).take 32 := by
  apply List.ext_getElem
  · simp
    omega
  · intro i hi _
    have hi : i < 32 := by simpa using hi
    simp [readDigest, List.getElem?_eq_getElem (show 16 + i < raw.length by omega)]

/-- The parts at the offsets of the kind are the fixed part and the payload of what is read. -/
theorem parts_ok {raw : Bytes} {kind : UInt8} {fixed idEnd : Nat} {resourceId : String}
    (hfixed : idOffset kind = some fixed) (hle : fixed ≤ idEnd) (hlen : idEnd ≤ raw.length)
    (hend : kind ≠ 2 → raw.length = idEnd) :
    (parts raw kind resourceId idEnd).kind = kind ∧
      (parts raw kind resourceId idEnd).resourceId = resourceId ∧
      (parts raw kind resourceId idEnd).fixedPart = (raw.drop 8).take (fixed - 8) ∧
      (parts raw kind resourceId idEnd).payload = raw.drop idEnd := by
  have hnone (hkind : kind ≠ 2) : raw.drop idEnd = [] :=
    List.drop_eq_nil_of_le (hend hkind).le
  unfold idOffset at hfixed
  split at hfixed
  · next hkind =>
    cases hfixed
    rcases hkind with rfl | rfl
    · exact ⟨rfl, rfl, be_readTotal (by omega), (hnone (by decide)).symm⟩
    · exact ⟨rfl, rfl, be_readTotal (by omega), rfl⟩
  · split at hfixed
    · next hkind =>
      cases hfixed
      obtain rfl := hkind
      refine ⟨rfl, rfl, ?_, (hnone (by decide)).symm⟩
      show be 8 (readTotal raw).toNat ++ (readDigest raw).toList = _
      rw [be_readTotal (by omega), toList_readDigest (by omega)]
      have hsplit := List.take_add (l := raw.drop 8) (i := 8) (j := 32)
      rw [List.drop_drop] at hsplit
      exact hsplit.symm
    · split at hfixed
      · next hkind =>
        cases hfixed
        obtain rfl := hkind
        exact ⟨rfl, rfl, rfl, (hnone (by decide)).symm⟩
      · cases hfixed

/-- The id stands behind the eight bytes of the header. -/
theorem le_idOffset {kind : UInt8} {fixed : Nat} (h : idOffset kind = some fixed) : 8 ≤ fixed := by
  unfold idOffset at h
  split at h
  · rw [← some.inj h]
    decide
  · split at h
    · rw [← some.inj h]
      decide
    · split at h
      · rw [← some.inj h]
      · cases h

/-- Of at least eight bytes the first eight, one by one. -/
theorem exists_header (h : 8 ≤ raw.length) :
    ∃ b₀ b₁ b₂ b₃ b₄ b₅ b₆ b₇ rest, raw = b₀ :: b₁ :: b₂ :: b₃ :: b₄ :: b₅ :: b₆ :: b₇ :: rest := by
  match raw, h with
  | b₀ :: b₁ :: b₂ :: b₃ :: b₄ :: b₅ :: b₆ :: b₇ :: rest, _ =>
    exact ⟨b₀, b₁, b₂, b₃, b₄, b₅, b₆, b₇, rest, rfl⟩

/-- What is read is what was written. -/
theorem decode_ok (h : decode raw = .ok frame) : ValidId frame.resourceId ∧ raw = frame.layout := by
  unfold decode at h
  split at h
  · cases h
  · next hheader =>
    simp only [not_or, not_lt, not_not] at hheader
    obtain ⟨hlen8, hmagic, hversion⟩ := hheader
    simp only at h
    split at h
    · cases h
    · next hbound =>
      split at h
      · cases h
      · next fixed hfixed =>
        split at h
        · cases h
        · next hend =>
          split at h
          · cases h
          · next resourceId hname =>
            cases h
            simp only [not_or, not_and, not_lt, not_not] at hend hbound
            obtain ⟨hkind, hid, hpart, hpayload⟩ := @parts_ok _ _ _ _ resourceId hfixed
              (Nat.le_add_right _ _) hend.1 hend.2
            have hname := asStr_some.mp hname
            have hfixed8 := le_idOffset hfixed
            have hidlen : (utf8 resourceId).length = ofBe ((raw.drop 6).take 2) := by
              rw [hname, List.length_take, List.length_drop]
              omega
            refine ⟨?_, ?_⟩
            · rw [hid]
              refine ⟨?_, by omega⟩
              intro hnil
              rw [hnil] at hidlen
              exact hbound.1 hidlen.symm
            · -- the header, then the three parts behind it
              have hrest : raw.drop 8 = (raw.drop 8).take (fixed - 8) ++
                  (utf8 resourceId ++ raw.drop (fixed + ofBe ((raw.drop 6).take 2))) := by
                have hafter : fixed = 8 + (fixed - 8) := by omega
                have hsecond : raw.drop fixed =
                    utf8 resourceId ++ raw.drop (fixed + ofBe ((raw.drop 6).take 2)) := by
                  rw [hname, ← List.drop_drop]
                  exact (List.take_append_drop _ _).symm
                rw [← hsecond]
                conv_rhs => rw [hafter, ← List.drop_drop, Nat.add_sub_cancel_left]
                exact (List.take_append_drop _ _).symm
              unfold layout
              rw [hkind, hid, hpart, hpayload, ← hrest, hidlen]
              obtain ⟨b₀, b₁, b₂, b₃, b₄, b₅, b₆, b₇, rest, rfl⟩ := exists_header hlen8
              have hcode : be 2 (ofBe [b₆, b₇]) = [b₆, b₇] := be_ofBe [b₆, b₇]
              have hversion : b₄ = channelAttachmentVersion := hversion
              rw [← hmagic, ← hversion]
              show _ = [b₀, b₁, b₂, b₃] ++ (b₄ :: b₅ :: (be 2 (ofBe [b₆, b₇]) ++ rest))
              rw [hcode]
              rfl

/-! Cutting an attachment. -/

/-- Chunks of this size, the last one maybe shorter. -/
def chunks (size : Nat) : Nat → Bytes → List Bytes
  | 0, _ => []
  | fuel + 1, bytes =>
    if bytes = [] then [] else bytes.take size :: chunks size fuel (bytes.drop size)

/-- The data frames of chunks, each at the offset behind the one before. -/
def dataFrames (resourceId : String) : Nat → List Bytes → List ChannelAttachmentFrame
  | _, [] => []
  | offset, chunk :: rest =>
    .data resourceId (UInt64.ofNat offset) chunk ::
      dataFrames resourceId (offset + chunk.length) rest

/-- What data frames carry, each of which has to start where the one before ended. -/
def reassemble (resourceId : String) : Nat → List ChannelAttachmentFrame → Option Bytes
  | _, [] => some []
  | offset, .data id at_ bytes :: frames =>
    if id = resourceId ∧ at_.toNat = offset then
      (reassemble resourceId (offset + bytes.length) frames).map (bytes ++ ·)
    else none
  | _, _ => none

section
variable {resourceId : String} {size fuel limit header offset : Nat} {bytes chunk : Bytes}

theorem chunks_flatten (hsize : 0 < size) (hfuel : bytes.length ≤ fuel) :
    (chunks size fuel bytes).flatten = bytes := by
  induction fuel generalizing bytes with
  | zero => exact (List.length_eq_zero_iff.mp (Nat.le_zero.mp hfuel)).symm
  | succ fuel ih =>
    unfold chunks
    split
    · next h => exact h.symm
    · next h =>
      rw [List.flatten_cons, ih (by rw [List.length_drop]; omega)]
      exact List.take_append_drop _ _

theorem length_of_mem_chunks (h : chunk ∈ chunks size fuel bytes) : chunk.length ≤ size := by
  induction fuel generalizing bytes with
  | zero => cases h
  | succ fuel ih =>
    unfold chunks at h
    split at h
    · cases h
    · rcases List.mem_cons.mp h with rfl | h
      · rw [List.length_take]
        exact Nat.min_le_left _ _
      · exact ih h

theorem dataHeaderLen_ok :
    dataHeaderLen resourceId = .ok header ↔
      ValidId resourceId ∧ header = 16 + (utf8 resourceId).length := by
  unfold dataHeaderLen ValidId
  split
  · next h =>
    refine ⟨nofun, ?_⟩
    rintro ⟨⟨hne, hle⟩, _⟩
    rcases h with h | h
    · exact absurd h hne
    · omega
  · next h =>
    rw [Except.ok.injEq, eq_comm]
    refine (and_iff_right ⟨fun hnil => h (.inl hnil), Nat.le_of_not_lt fun hlt => h (.inr hlt)⟩).symm

/-- A data frame is its header and its payload. -/
theorem data_length (at_ : UInt64) :
    (data resourceId at_ bytes).layout.length = 16 + (utf8 resourceId).length + bytes.length := by
  obtain ⟨a, b, _, hlayout⟩ := layout_eq (data resourceId at_ bytes)
  rw [hlayout]
  show (0x4f :: 0x43 :: 0x41 :: 0x54 :: 1 :: _ :: a :: b ::
    (be 8 at_.toNat ++ (utf8 resourceId ++ bytes)) : Bytes).length = _
  simp only [List.length_cons, List.length_append, length_be]
  omega

/-- The frames of chunks that fit are encoded, and read back as they were. -/
theorem dataFrames_encode (hid : ValidId resourceId)
    (hfit : 16 + (utf8 resourceId).length + size ≤ limit) {cut : List Bytes}
    (hcut : ∀ chunk ∈ cut, chunk.length ≤ size) :
    (dataFrames resourceId offset cut).mapM (encode · limit) =
        .ok ((dataFrames resourceId offset cut).map layout) ∧
      ((dataFrames resourceId offset cut).map layout).mapM decode =
        .ok (dataFrames resourceId offset cut) := by
  have hframe : ∀ frame ∈ dataFrames resourceId offset cut,
      ValidId frame.resourceId ∧ frame.layout.length ≤ limit := by
    induction cut generalizing offset with
    | nil => nofun
    | cons chunk cut ih =>
      intro frame hmem
      rcases List.mem_cons.mp hmem with rfl | hmem
      · have := hcut chunk List.mem_cons_self
        exact ⟨hid, by rw [data_length]; omega⟩
      · exact ih (fun c hc => hcut c (List.mem_cons_of_mem _ hc)) frame hmem
  constructor
  · exact Outcome.mapM_of_ok fun frame hmem =>
      encode_ok.mpr ⟨(hframe frame hmem).1, rfl, (hframe frame hmem).2⟩
  · have hmap := Outcome.mapM_of_ok (f := decode ∘ layout) (g := id) (ε := ChannelAttachmentError)
      fun frame hmem => decode_layout (hframe frame hmem).1
    rwa [List.map_id, ← List.mapM_map] at hmap

/-- Frames at running offsets carry what was cut. -/
theorem reassemble_dataFrames {cut : List Bytes} (h : offset + cut.flatten.length < 2 ^ 64) :
    reassemble resourceId offset (dataFrames resourceId offset cut) = some cut.flatten := by
  induction cut generalizing offset with
  | nil => rfl
  | cons chunk cut ih =>
    rw [List.flatten_cons, List.length_append] at h
    have hoffset : (UInt64.ofNat offset).toNat = offset :=
      UInt64.toNat_ofNat_of_lt' (by show offset < 2 ^ 64; omega)
    unfold dataFrames reassemble
    rw [if_pos ⟨rfl, hoffset⟩, ih (by omega), map_some, List.flatten_cons]

/-- One more frame, where the others ended. -/
theorem reassemble_concat {frames : List ChannelAttachmentFrame} {at_ : UInt64} {whole : Bytes}
    (h : reassemble resourceId offset frames = some whole) (hat : at_.toNat = offset + whole.length) :
    reassemble resourceId offset (frames ++ [.data resourceId at_ bytes]) = some (whole ++ bytes) := by
  induction frames generalizing offset whole with
  | nil =>
    cases h
    show reassemble resourceId offset [.data resourceId at_ bytes] = _
    unfold reassemble
    rw [if_pos ⟨rfl, hat⟩]
    exact congrArg some (List.append_nil bytes)
  | cons frame frames ih =>
    cases frame with
    | data id start part =>
      rw [List.cons_append]
      unfold reassemble at h ⊢
      split at h
      · next hstart =>
        obtain ⟨rest, hrest, rfl⟩ := map_eq_some_iff.mp h
        rw [List.length_append] at hat
        rw [if_pos hstart, ih hrest (by omega), map_some, List.append_assoc]
      · cases h
    | start | finish | cancel => cases h

end

/-- Frames and what they are written as determine each other, a data frame is its header and its
payload, and an attachment that is cut into chunks that fit behind the header is put together
again. -/
theorem channel_attachment_framing :
    (∀ (frame : ChannelAttachmentFrame) maxPayload raw,
      frame.encode maxPayload = .ok raw → decode raw = .ok frame) ∧
    (∀ raw (frame : ChannelAttachmentFrame) maxPayload, decode raw = .ok frame →
      raw.length ≤ maxPayload → frame.encode maxPayload = .ok raw) ∧
    (∀ resourceId offset bytes maxPayload,
      (∀ e, dataHeaderLen resourceId = .error e →
        (data resourceId offset bytes).encode maxPayload = .error e) ∧
      (∀ header, dataHeaderLen resourceId = .ok header →
        (maxPayload < header + bytes.length →
          (data resourceId offset bytes).encode maxPayload = .error .payloadTooLarge) ∧
        (header + bytes.length ≤ maxPayload →
          ∃ raw, (data resourceId offset bytes).encode maxPayload = .ok raw ∧
            raw.length = header + bytes.length))) ∧
    (∀ resourceId header limit size (attachment : Bytes), dataHeaderLen resourceId = .ok header →
      0 < size → size ≤ limit - header → attachment.length < 2 ^ 64 →
      ∃ raws frames,
        (dataFrames resourceId 0 (chunks size attachment.length attachment)).mapM (encode · limit) =
          .ok raws ∧
        raws.mapM decode = .ok frames ∧ reassemble resourceId 0 frames = some attachment) := by
  refine ⟨?_, ?_, ?_, ?_⟩
  · intro frame maxPayload raw h
    obtain ⟨hid, rfl, _⟩ := encode_ok.mp h
    exact decode_layout hid
  · intro raw frame maxPayload h hle
    obtain ⟨hid, rfl⟩ := decode_ok h
    exact encode_ok.mpr ⟨hid, rfl, hle⟩
  · intro resourceId offset bytes maxPayload
    constructor
    · intro e h
      unfold dataHeaderLen at h
      split at h
      · next hbad =>
        cases h
        exact if_pos hbad
      · cases h
    · intro header h
      obtain ⟨hid, rfl⟩ := dataHeaderLen_ok.mp h
      have hlen : (data resourceId offset bytes).layout.length =
          16 + (utf8 resourceId).length + bytes.length := data_length offset
      constructor
      · intro hlt
        have hbad : ¬(utf8 resourceId = [] ∨
            (utf8 resourceId).length > channelAttachmentMaxResourceIdBytes) := by
          have := hid.2
          rintro (h | h)
          · exact hid.1 h
          · omega
        exact (if_neg hbad).trans (if_pos (by rw [hlen]; exact hlt))
      · intro hle
        exact ⟨_, encode_ok.mpr ⟨hid, rfl, by rw [hlen]; exact hle⟩, hlen⟩
  · intro resourceId header limit size attachment h hpos hsize hlt
    obtain ⟨hid, rfl⟩ := dataHeaderLen_ok.mp h
    -- the pieces are short enough for the frame, and together they are the attachment
    have hflatten := chunks_flatten hpos (le_refl attachment.length)
    have hcut : ∀ chunk ∈ chunks size attachment.length attachment, chunk.length ≤ size :=
      fun chunk hc => length_of_mem_chunks hc
    obtain ⟨hencode, hdecode⟩ := @dataFrames_encode _ size limit 0 hid (by omega) _ hcut
    refine ⟨_, _, hencode, hdecode, ?_⟩
    rw [reassemble_dataFrames (by rw [hflatten]; omega), hflatten]

/-- Five bytes in chunks of two, behind a header of seventeen. -/
theorem channel_attachment_framing_five :
    ∃ raws frames,
      (dataFrames "u" 0 (chunks 2 5 [1, 2, 3, 4, 5])).mapM (encode · 19) = .ok raws ∧
      raws.mapM decode = .ok frames ∧ reassemble "u" 0 frames = some [1, 2, 3, 4, 5] :=
  channel_attachment_framing.2.2.2 "u" 17 19 2 [1, 2, 3, 4, 5] (by decide +kernel) (by decide)
    (by decide) (by decide)

end ChannelAttachmentFrame

end Omen.Protocol
