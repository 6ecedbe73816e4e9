import Mathlib.Tactic.IntervalCases
import OmenBrowser.Lib.Hkdf
import OmenBrowser.Lib.Outcome

/- Access codes of a network interface (`omen-ifac-tcp/src/lib.rs`).

   A packet leaves with a code between its header and its body: the tail of a signature of the
   packet. Header and body are masked by bytes derived from the code, and the top bit of the first
   byte says that a code is there. The receiver takes the code, derives the mask, and signs what it
   gets.

   Correspondence (Rust ↔ Lean):
     `IfacContext`                          ↔ `IfacContext`
     `encode_outbound`, `decode_inbound`    ↔ `encodeOutbound`, `decodeInbound`
     `sign_tail`, `mask`                    ↔ `signTail`, `mask`
     `DEFAULT_MTU`                          ↔ `defaultMtu`
   Signing is a parameter, deterministic and with 64 bytes of output, and so is the message
   authentication code under the key derivation. -/
namespace Omen.Interface
open Wire Kdf List

def defaultMtu : Nat := 262144

/-- `PrivateIdentity::sign`. -/
structure Signer where
  sign : Bytes → Bytes
  length_sign : ∀ data, (sign data).length = 64

variable {m₀ m₁ : UInt8} {body codeMask bodyMask packet : Bytes}

structure IfacContext where
  key : Bytes
  identity : Signer
  size : Nat
  size_pos : 1 ≤ size
  size_le : size ≤ 64

namespace IfacContext
variable (hmac : Hmac) (c : IfacContext)

/-- The last bytes of the signature. -/
def signTail (data : Bytes) : Bytes :=
  let signature := c.identity.sign data
  signature.drop (signature.length - c.size)

def mask (ifac : Bytes) (length : Nat) : Except String Bytes :=
  match hmac.expand (hmac.extract c.key ifac) [] length with
  | none => .error "ifac mask derivation failed"
  | some mask => .ok mask

def encodeOutbound (raw : Bytes) : Except String Bytes :=
  match raw with
  | first :: second :: body => do
    let ifac := c.signTail raw
    let masked := (first ||| 0x80) :: second :: (ifac ++ body)
    let mask ← c.mask hmac ifac masked.length
    pure ((masked.zip mask).mapIdx fun index (byte, m) =>
      if index = 0 then (byte ^^^ m) ||| 0x80
      else if index = 1 ∨ index > c.size + 1 then byte ^^^ m
      else byte)
  | _ => .error "raw packet too short"

def decodeInbound (raw : Bytes) : Except String Bytes := do
  Outcome.refuse (raw.length < 2 + c.size) "ifac packet too short"
  Outcome.refuse (raw.headD 0 &&& 0x80 = 0) "missing ifac flag"
  let ifac := (raw.drop 2).take c.size
  let mask ← c.mask hmac ifac raw.length
  let unmasked := (raw.zip mask).mapIdx fun index (byte, m) =>
    if index ≤ 1 ∨ index > c.size + 1 then byte ^^^ m else byte
  let packet := (unmasked.headD 0 &&& 0x7f) :: ((unmasked.drop 1).take 1 ++ unmasked.drop (2 + c.size))
  Outcome.refuse (c.signTail packet ≠ ifac) "ifac signature mismatch"
  pure packet

/-! Masks. -/

variable {hmac c}

theorem length_signTail (data : Bytes) : (c.signTail data).length = c.size := by
  have hle := c.size_le
  simp only [signTail, length_drop, c.identity.length_sign]
  omega

variable {code ifac mask : Bytes} {b : UInt8}

theorem mask_ok {length : Nat} (h : c.mask hmac ifac length = .ok mask) :
    hmac.expand (hmac.extract c.key ifac) [] length = some mask := by
  unfold IfacContext.mask at h
  split at h
  · cases h
  · next hsome =>
    cases h
    exact hsome

/-- A mask is derived for so many bytes and no more. -/
theorem exists_mask_iff (ifac : Bytes) (length : Nat) :
    (∃ mask, c.mask hmac ifac length = .ok mask) ↔ length ≤ Hmac.maxOutputBytes := by
  unfold IfacContext.mask
  cases h : hmac.expand (hmac.extract c.key ifac) [] length with
  | none =>
    have := (Hmac.expand_eq_none hmac).mp h
    exact iff_of_false (by simp) (by omega)
  | some mask =>
    have hno : ¬Hmac.maxOutputBytes < length := by
      rw [← Hmac.expand_eq_none hmac, h]
      simp
    exact iff_of_true ⟨mask, rfl⟩ (by omega)

/-- A mask that is applied outside the code leaves the code. -/
theorem mapIdx_zip_code {f : Nat → UInt8 × UInt8 → UInt8} {b₀ b₁ : UInt8}
    (hcode : code.length = codeMask.length) (hkeep : ∀ i < code.length, ∀ p, f (i + 2) p = p.1)
    (hmask : ∀ i, code.length + 1 < i → ∀ p, f i p = p.1 ^^^ p.2) :
    ((b₀ :: b₁ :: (code ++ body)).zip (m₀ :: m₁ :: (codeMask ++ bodyMask))).mapIdx f =
      f 0 (b₀, m₀) :: f 1 (b₁, m₁) :: (code ++ zipWith (· ^^^ ·) body bodyMask) := by
  rw [zip_cons_cons, zip_cons_cons, zip_append hcode, mapIdx_cons,
    mapIdx_cons, mapIdx_append]
  have hleft : (code.zip codeMask).mapIdx (fun i p => f (i + 1 + 1) p) = code := by
    apply ext_getElem
    · simp [hcode]
    · intro i hi _
      have hlt : i < code.length := by simpa [hcode] using hi
      simp [hkeep i hlt]
  have hright : (body.zip bodyMask).mapIdx (fun i p => f (i + (code.zip codeMask).length + 1 + 1) p) =
      zipWith (· ^^^ ·) body bodyMask := by
    apply ext_getElem
    · simp
    · intro i _ _
      have hlen : (code.zip codeMask).length = code.length := by simp [hcode]
      simp only [getElem_mapIdx, getElem_zip, getElem_zipWith]
      exact hmask _ (by omega) _
  exact congrArg (fun l => f 0 (b₀, m₀) :: f 1 (b₁, m₁) :: l) (congrArg₂ (· ++ ·) hleft hright)

theorem zipWith_xor_cancel {bytes : Bytes} (h : bytes.length = mask.length) :
    zipWith (· ^^^ ·) (zipWith (· ^^^ ·) bytes mask) mask = bytes := by
  induction bytes generalizing mask with
  | nil => simp
  | cons b bytes ih =>
    cases mask with
    | nil => simp at h
    | cons m mask =>
      simp only [zipWith_cons_cons, UInt8.xor_assoc, UInt8.xor_self, UInt8.xor_zero]
      rw [ih (by simpa using h)]

/-- A mask has a part for each part of a packet. -/
theorem mask_parts {code body : Nat} (h : mask.length = 2 + code + body) :
    ∃ m₀ m₁ codeMask bodyMask, mask = m₀ :: m₁ :: (codeMask ++ bodyMask) ∧
      codeMask.length = code ∧ bodyMask.length = body := by
  match mask, h with
  | m₀ :: m₁ :: rest, h =>
    have hrest : rest.length = code + body := by simp at h; omega
    refine ⟨m₀, m₁, rest.take code, rest.drop code, by rw [take_append_drop], ?_, ?_⟩
    · rw [length_take]
      omega
    · rw [length_drop]
      omega
  | [_], h => simp at h; omega
  | [], h => simp at h; omega

/-! The flag. -/

theorem flag_clear_iff (b : UInt8) : b &&& 0x80 = 0 ↔ b.toBitVec[7] = false := by
  constructor
  · intro h
    have hbit := congrArg (fun v : UInt8 => v.toBitVec[7]) h
    simpa using hbit
  · intro h
    apply UInt8.toBitVec_inj.mp
    apply BitVec.eq_of_getLsbD_eq
    intro i hi
    interval_cases i <;> simp [h]

/-- The first byte of a packet comes back from under the mask and the flag. -/
theorem first_of_flagged (m : UInt8) (h : b &&& 0x80 = 0) :
    ((((b ||| 0x80) ^^^ m) ||| 0x80) ^^^ m) &&& 0x7f = b := by
  have htop := (flag_clear_iff b).mp h
  apply UInt8.toBitVec_inj.mp
  apply BitVec.eq_of_getLsbD_eq
  intro i hi
  interval_cases i <;> simp [htop]

theorem flagged_of_first (m : UInt8) (h : b &&& 0x80 ≠ 0) :
    ((((b ^^^ m) &&& 0x7f) ||| 0x80) ^^^ m) ||| 0x80 = b := by
  have htop : b.toBitVec[7] = true := by simpa [flag_clear_iff] using h
  apply UInt8.toBitVec_inj.mp
  apply BitVec.eq_of_getLsbD_eq
  intro i hi
  interval_cases i <;> simp [htop]

theorem flag_set (b : UInt8) : (b ||| 0x80) &&& 0x80 ≠ 0 := by
  simp [flag_clear_iff]

/-! One packet. -/

theorem encodeOutbound_of_mask {p₀ p₁ : UInt8} (hcode : codeMask.length = c.size)
    (hmask : c.mask hmac (c.signTail (p₀ :: p₁ :: body)) (2 + c.size + body.length) =
      .ok (m₀ :: m₁ :: (codeMask ++ bodyMask))) :
    c.encodeOutbound hmac (p₀ :: p₁ :: body) = .ok ((((p₀ ||| 0x80) ^^^ m₀) ||| 0x80) ::
      (p₁ ^^^ m₁) :: (c.signTail (p₀ :: p₁ :: body) ++ zipWith (· ^^^ ·) body bodyMask)) := by
  have hsize := length_signTail (c := c) (p₀ :: p₁ :: body)
  have hlen : ((p₀ ||| 0x80) :: p₁ :: (c.signTail (p₀ :: p₁ :: body) ++ body)).length =
      2 + c.size + body.length := by
    simp only [length_cons, length_append, hsize]
    omega
  unfold encodeOutbound
  simp only [hlen, hmask]
  apply congrArg Except.ok
  rw [mapIdx_zip_code (hsize.trans hcode.symm)]
  · rfl
  · intro i hi p
    rw [hsize] at hi
    rw [if_neg (by omega), if_neg (by omega)]
  · intro i hi p
    rw [hsize] at hi
    rw [if_neg (by omega), if_pos (by omega)]

theorem decodeInbound_of_mask {r₀ r₁ : UInt8} (hlength : code.length = c.size)
    (hcode : codeMask.length = c.size) (hflag : r₀ &&& 0x80 ≠ 0)
    (hmask : c.mask hmac code (2 + c.size + body.length) = .ok (m₀ :: m₁ :: (codeMask ++ bodyMask)))
    (hpacket : packet =
      ((r₀ ^^^ m₀) &&& 0x7f) :: (r₁ ^^^ m₁) :: zipWith (· ^^^ ·) body bodyMask) :
    c.decodeInbound hmac (r₀ :: r₁ :: (code ++ body)) =
      if c.signTail packet = code then .ok packet else .error "ifac signature mismatch" := by
  have hlen : (r₀ :: r₁ :: (code ++ body)).length = 2 + c.size + body.length := by
    simp only [length_cons, length_append, hlength]
    omega
  have htake : (drop 2 (r₀ :: r₁ :: (code ++ body))).take c.size = code := by
    rw [← hlength]
    exact take_left
  have hunmasked : ((r₀ :: r₁ :: (code ++ body)).zip (m₀ :: m₁ :: (codeMask ++ bodyMask))).mapIdx
      (fun index (byte, m) => if index ≤ 1 ∨ index > c.size + 1 then byte ^^^ m else byte) =
      (r₀ ^^^ m₀) :: (r₁ ^^^ m₁) :: (code ++ zipWith (· ^^^ ·) body bodyMask) := by
    rw [mapIdx_zip_code (hlength.trans hcode.symm)]
    · rfl
    · intro i hi p
      rw [hlength] at hi
      exact if_neg (by omega)
    · intro i hi p
      rw [hlength] at hi
      exact if_pos (by omega)
  have hdropped : ((r₀ ^^^ m₀) :: (r₁ ^^^ m₁) ::
      (code ++ zipWith (· ^^^ ·) body bodyMask)).drop (2 + c.size) =
      zipWith (· ^^^ ·) body bodyMask := by
    rw [← hlength, Nat.add_comm]
    exact drop_left
  unfold decodeInbound
  simp only [Outcome.refuse, hlen, htake, hmask, headD_cons, hflag, if_false,
    show ¬2 + c.size + body.length < 2 + c.size by omega, bind, Except.bind]
  rw [hunmasked, hdropped]
  simp only [headD_cons, drop_succ_cons, drop_zero, take_succ_cons,
    take_zero, singleton_append, ← hpacket]
  by_cases hsign : c.signTail packet = code
  · rw [if_neg (not_not.mpr hsign), if_pos hsign]
    rfl
  · rw [if_pos hsign, if_neg hsign]

/-- A derived mask has the parts of the packet it is for. -/
theorem mask_split {body : Nat} (h : c.mask hmac ifac (2 + c.size + body) = .ok mask) :
    ∃ m₀ m₁ codeMask bodyMask, c.mask hmac ifac (2 + c.size + body) =
        .ok (m₀ :: m₁ :: (codeMask ++ bodyMask)) ∧
      codeMask.length = c.size ∧ bodyMask.length = body := by
  obtain ⟨m₀, m₁, codeMask, bodyMask, hparts, hcode, hbody⟩ :=
    mask_parts (Hmac.length_expand (mask_ok h))
  exact ⟨m₀, m₁, codeMask, bodyMask, by rw [h, hparts], hcode, hbody⟩

/-- What a packet is sent as is read back as the packet, where the mask reaches as far. -/
theorem decodeInbound_encodeOutbound (hshort : 2 ≤ packet.length)
    (hclear : packet.headD 0 &&& 0x80 = 0) (hfits : packet.length + c.size ≤ Hmac.maxOutputBytes) :
    ∃ sent, c.encodeOutbound hmac packet = .ok sent ∧ c.decodeInbound hmac sent = .ok packet := by
  match packet, hshort with
  | p₀ :: p₁ :: body, _ =>
    have hlen : 2 + c.size + body.length ≤ Hmac.maxOutputBytes := by
      simp only [length_cons] at hfits
      omega
    obtain ⟨mask, hmask⟩ : ∃ mask, c.mask hmac (c.signTail (p₀ :: p₁ :: body)) _ = .ok mask :=
      (exists_mask_iff _ _).mpr hlen
    obtain ⟨m₀, m₁, codeMask, bodyMask, hmask, hcode, hbody⟩ := mask_split hmask
    refine ⟨_, encodeOutbound_of_mask hcode hmask, ?_⟩
    have hmasked : (zipWith (· ^^^ ·) body bodyMask).length = body.length := by
      simp [hbody]
    have hpacket : p₀ :: p₁ :: body =
        (((((p₀ ||| 0x80) ^^^ m₀) ||| 0x80) ^^^ m₀) &&& 0x7f) :: ((p₁ ^^^ m₁) ^^^ m₁) ::
          zipWith (· ^^^ ·) (zipWith (· ^^^ ·) body bodyMask) bodyMask := by
      rw [first_of_flagged (b := p₀) m₀ hclear, UInt8.xor_assoc, UInt8.xor_self, UInt8.xor_zero,
        zipWith_xor_cancel hbody.symm]
    rw [decodeInbound_of_mask (length_signTail _) hcode (flag_set _) (hmasked ▸ hmask) hpacket]
    exact if_pos rfl

/-- A packet that is sent has a mask as long as itself and the code. -/
theorem encodeOutbound_fits {sent : Bytes} (h : c.encodeOutbound hmac packet = .ok sent) :
    packet.length + c.size ≤ Hmac.maxOutputBytes := by
  unfold encodeOutbound at h
  split at h
  · next first second body =>
    obtain ⟨mask, hmask, -⟩ := Outcome.bind_ok.mp h
    have hle := (exists_mask_iff _ _).mp ⟨mask, hmask⟩
    simp only [length_cons, length_append, length_signTail] at hle ⊢
    omega
  · cases h

/-- What is accepted is what the accepted packet is sent as. -/
theorem encodeOutbound_decodeInbound {received : Bytes}
    (h : c.decodeInbound hmac received = .ok packet) :
    c.encodeOutbound hmac packet = .ok received := by
  have hopen := h
  unfold decodeInbound at hopen
  simp only [↓Outcome.refuse_bind_ok, Outcome.bind_ok] at hopen
  obtain ⟨hlong, hflag, mask, hmask, -⟩ := hopen
  match received, hlong with
  | [], hlong => exact absurd (by simp : ([] : Bytes).length < 2 + c.size) hlong
  | [r₀], hlong => exact absurd (by simp; omega) hlong
  | r₀ :: r₁ :: rest, hlong =>
    replace hflag : r₀ &&& 0x80 ≠ 0 := hflag
    have hrest : c.size ≤ rest.length := by
      simp only [length_cons] at hlong
      omega
    obtain ⟨code, body, rfl, hlength⟩ : ∃ code body, rest = code ++ body ∧ code.length = c.size :=
      ⟨rest.take c.size, rest.drop c.size, (take_append_drop _ _).symm, by simp [hrest]⟩
    have htake : (drop 2 (r₀ :: r₁ :: (code ++ body))).take c.size = code := by
      rw [← hlength]
      exact take_left
    have hlen : (r₀ :: r₁ :: (code ++ body)).length = 2 + c.size + body.length := by
      simp only [length_cons, length_append, hlength]
      omega
    rw [htake, hlen] at hmask
    obtain ⟨m₀, m₁, codeMask, bodyMask, hmask, hcode, hbody⟩ := mask_split hmask
    rw [decodeInbound_of_mask hlength hcode hflag hmask rfl] at h
    split at h
    · next hsign =>
      cases h
      have hmasked : (zipWith (· ^^^ ·) body bodyMask).length = body.length := by
        simp [hbody]
      rw [encodeOutbound_of_mask hcode (by rw [hsign, hmasked]; exact hmask), hsign,
        flagged_of_first m₀ hflag, UInt8.xor_assoc, UInt8.xor_self, UInt8.xor_zero,
        zipWith_xor_cancel hbody.symm]
    · cases h

/-- A packet that may stand in a frame is sent and read back exactly where the packet and its code
    are no longer than the longest mask, and what is accepted is what is sent. -/
theorem access_code_round_trip (hmac : Hmac) (c : IfacContext) :
    (∀ packet : Bytes, 2 ≤ packet.length → packet.length ≤ defaultMtu →
      packet.headD 0 &&& 0x80 = 0 →
      ((∃ sent, c.encodeOutbound hmac packet = .ok sent ∧
        c.decodeInbound hmac sent = .ok packet) ↔ packet.length + c.size ≤ 255 * 32)) ∧
      ∀ received packet, c.decodeInbound hmac received = .ok packet →
        c.encodeOutbound hmac packet = .ok received := by
  refine ⟨?_, fun _ _ h => encodeOutbound_decodeInbound h⟩
  intro packet hshort _ hclear
  constructor
  · intro ⟨sent, hsent, _⟩
    exact encodeOutbound_fits hsent
  · intro hfits
    exact decodeInbound_encodeOutbound hshort hclear hfits

/-- The packet of the pinned vector. -/
def vectorPacket : Bytes :=
  [0x01, 0x02, 0x00, 0x11, 0x22, 0x33, 0x44, 0x55, 0x66, 0x77, 0x88, 0x99, 0xaa, 0xbb, 0xcc, 0xdd,
    0xee, 0xff, 0x09, 0x6f, 0x6d, 0x65, 0x6e, 0x2d, 0x69, 0x66, 0x61, 0x63, 0x2d, 0x76, 0x65, 0x63,
    0x74, 0x6f, 0x72]

def vectorSent : Bytes :=
  [0xe2, 0x2a, 0x38, 0xb1, 0x88, 0x97, 0xfb, 0x59, 0x17, 0x1f, 0x8f, 0x7e, 0xd9, 0x06, 0xf0, 0x16,
    0x0b, 0x06, 0xea, 0xd3, 0x80, 0x0d, 0xf5, 0x92, 0x54, 0x66, 0x2f, 0xdc, 0xea, 0x8c, 0x9d, 0xcf,
    0x8c, 0x27, 0x87, 0x3d, 0x83, 0x9b, 0x60, 0x8f, 0xd3, 0x0b, 0x20, 0x25, 0x51, 0xe7, 0xc7, 0x78,
    0x19, 0x22, 0xa7]

/-- The code of the pinned vector, at the end of a signature. -/
def vectorContext : IfacContext :=
  { key := []
    identity :=
      { sign := fun _ => replicate 48 0 ++ (vectorSent.drop 2).take 16
        length_sign := fun _ => by decide }
    size := 16
    size_pos := by decide
    size_le := by decide }

/-- The two blocks the mask of the pinned vector is taken from. -/
def vectorMac : Hmac :=
  { code := fun _ message =>
      if message.getLast? = some 1 then
        [0x63, 0x28, 0x00, 0x00, 0x00, 0x00, 0x00, 0x00, 0x00, 0x00, 0x00, 0x00, 0x00, 0x00, 0x00, 0x00,
    0x00, 0x00, 0xea, 0xc2, 0xa2, 0x3e, 0xb1, 0xc7, 0x32, 0x11, 0xa7, 0x45, 0x40, 0x37, 0x51, 0x12]
      else
        [0x62, 0xd8, 0x8e, 0x52, 0xee, 0xfe, 0x0e, 0xa2, 0xba, 0x6d, 0x41, 0x46, 0x7c, 0x91, 0xa2, 0x1b,
    0x6d, 0x4d, 0xd5, 0x00, 0x00, 0x00, 0x00, 0x00, 0x00, 0x00, 0x00, 0x00, 0x00, 0x00, 0x00, 0x00]
    length_code := fun _ message => by split <;> rfl }

theorem access_code_round_trip_vector :
    vectorContext.encodeOutbound vectorMac vectorPacket = .ok vectorSent ∧
      ∃ sent, vectorContext.encodeOutbound vectorMac vectorPacket = .ok sent ∧
        vectorContext.decodeInbound vectorMac sent = .ok vectorPacket :=
  ⟨by decide +kernel,
    ((access_code_round_trip vectorMac vectorContext).1 vectorPacket (by decide) (by decide)
      (by decide)).mpr (by decide)⟩

/-- A packet far below the frame limit has no mask, whatever the key. -/
theorem long_packet_not_sent :
    (replicate 8160 (1 : UInt8)).length ≤ defaultMtu ∧
      (replicate 8160 (1 : UInt8)).headD 0 &&& 0x80 = 0 ∧
      ∀ (hmac : Hmac) (c : IfacContext) (sent : Bytes),
        c.encodeOutbound hmac (replicate 8160 1) ≠ .ok sent := by
  refine ⟨by decide +kernel, by decide, ?_⟩
  intro hmac c sent hsent
  have hfits := encodeOutbound_fits hsent
  have hpos := c.size_pos
  simp only [length_replicate, Hmac.maxOutputBytes] at hfits
  omega

end IfacContext
end Omen.Interface
