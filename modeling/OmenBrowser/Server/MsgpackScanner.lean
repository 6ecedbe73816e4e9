import OmenBrowser.Lib.Ints
import OmenBrowser.Server.Codec

/- `MsgpackScanner` with its offset and its `usize` arithmetic.

   The scanner exists twice in the repository, in `server/src/protocol/codec.rs` and
   in the client's `msgpack.rs`, with one `match` over the markers and one error type
   each; both are parameters here (`arm`, `fail`). The scan works on the whole
   slice, moves an offset, counts its depth upwards and recurses on fuel.

   An operation on lengths, offsets, counts or depths that leaves the range of a
   64-bit `usize` stops the scan as `Stop.overflow`, whatever the source does there
   (`saturating_add`, `saturating_mul`, `checked_add` with an error, plain `+`, shifts).
   `validate_refines` shows that this stop is never reached, nor the end of the fuel,
   and that what is left is `validateMsgpackWithLimits` over unbounded numbers. -/
namespace Omen.Server
open Wire

variable {bytes : Bytes}

/-- Why a scan ends before the end of the value. -/
inductive Stop (ε : Type) where
  | failed (error : ε)
  | overflow
  | outOfFuel
  deriving DecidableEq

structure MsgpackScanner where
  bytes : Bytes
  offset : Nat
  values : Nat

namespace MsgpackScanner
variable {ε : Type} (fail : String → ε) (limits : ScanLimits) (arm : UInt8 → Arm)

def usizeAdd (a b : Nat) : Except (Stop ε) Nat :=
  if a + b ≤ Ints.u64Max then .ok (a + b) else .error .overflow

def usizeMul (a b : Nat) : Except (Stop ε) Nat :=
  if a * b ≤ Ints.u64Max then .ok (a * b) else .error .overflow

def take (s : MsgpackScanner) (len : Nat) : Except (Stop ε) (Bytes × MsgpackScanner) := do
  let stop ← usizeAdd s.offset len
  if stop ≤ s.bytes.length then
    pure ((s.bytes.drop s.offset).take len, { s with offset := stop })
  else .error (.failed (fail "truncated MessagePack value"))

def skip (s : MsgpackScanner) (len : Nat) : Except (Stop ε) MsgpackScanner := do
  let taken ← s.take fail len
  pure taken.2

/-- `value = (value << 8) | byte`, byte by byte. -/
def foldBytes : Bytes → Nat → Except (Stop ε) Nat
  | [], value => pure value
  | byte :: bytes, value => do
    let shifted ← usizeMul value 256
    let value ← usizeAdd shifted byte.toNat
    foldBytes bytes value

def readUint (s : MsgpackScanner) (width : Nat) : Except (Stop ε) (Nat × MsgpackScanner) := do
  let taken ← s.take fail width
  let value ← foldBytes taken.1 0
  pure (value, taken.2)

def scalar (s : MsgpackScanner) (len : Nat) : Except (Stop ε) MsgpackScanner :=
  if len > limits.maxScalarBytes then .error (.failed (fail "MessagePack scalar limit exceeded"))
  else s.skip fail len

/-- `for _ in 0..items`. -/
def items (value : MsgpackScanner → Except (Stop ε) MsgpackScanner) :
    Nat → MsgpackScanner → Except (Stop ε) MsgpackScanner
  | 0, s => pure s
  | n + 1, s => do
    let s ← value s
    items value n s

section
variable (value : Nat → MsgpackScanner → Except (Stop ε) MsgpackScanner) (depth : Nat)
  (s : MsgpackScanner)

/-- The source adds one to the depth again for each item; with no item it does not. -/
def container (n : Nat) : Except (Stop ε) MsgpackScanner :=
  if n > limits.maxContainerItems then
    .error (.failed (fail "MessagePack container limit exceeded"))
  else
    items (fun s => do
      let below ← usizeAdd depth 1
      value below s) n s

def runArm : Arm → Except (Stop ε) MsgpackScanner
  | .accept => pure s
  | .reserved => .error (.failed (fail "reserved MessagePack marker"))
  | .skip len => s.skip fail len
  | .scalar len => s.scalar fail limits len
  | .container n => container fail limits value depth s n
  | .readScalar width extra => do
    let (len, s) ← s.readUint fail width
    s.scalar fail limits (← usizeAdd len extra)
  | .readContainer width factor => do
    let (len, s) ← s.readUint fail width
    container fail limits value depth s (← usizeMul len factor)

end

def value : Nat → Nat → MsgpackScanner → Except (Stop ε) MsgpackScanner
  | 0, _, _ => .error .outOfFuel
  | fuel + 1, depth, s =>
    if depth > limits.maxNestingDepth then
      .error (.failed (fail "MessagePack nesting limit exceeded"))
    else do
      let values ← usizeAdd s.values 1
      if values > limits.maxTotalValues then
        .error (.failed (fail "MessagePack value limit exceeded"))
      else do
        let (marker, s) ← take fail { s with values } 1
        runArm fail limits (value fuel) depth s (arm (marker.headD 0))

def validate (fuel : Nat) (bytes : Bytes) (maxBytes : Nat) : Except (Stop ε) Unit :=
  if bytes.length > maxBytes then .error (.failed (fail "MessagePack byte limit exceeded"))
  else do
    let s ← value fail limits arm fuel 0 ⟨bytes, 0, 0⟩
    if s.offset ≠ bytes.length then .error (.failed (fail "trailing MessagePack data"))
    else pure ()

/-! The machine scanner against the scanner over unbounded numbers. -/

/-- Both end well with related results, or both fail with one text. -/
inductive Agree {α β : Type} (R : α → β → Prop) :
    Except (Stop ε) α → Except CodecError β → Prop where
  | ok {a : α} {b : β} (h : R a b) : Agree R (.ok a) (.ok b)
  | failed (text : String) : Agree R (.error (.failed (fail text))) (.error (.decode text))

variable {fail limits arm}

theorem Agree.bind {α β γ δ : Type} {R : α → β → Prop} {Q : γ → δ → Prop}
    {x : Except (Stop ε) α} {y : Except CodecError β} {f : α → Except (Stop ε) γ}
    {g : β → Except CodecError δ} (h : Agree fail R x y)
    (hfg : ∀ a b, R a b → Agree fail Q (f a) (g b)) :
    Agree fail Q (x >>= f) (y >>= g) := by
  cases h with
  | ok h => exact hfg _ _ h
  | failed text => exact .failed text

/-- Errors with one text stay errors with one text under any renaming of them. -/
theorem Agree.mapError_eq {ε' : Type} {R : Unit → Unit → Prop} {x : Except (Stop ε) Unit}
    {y : Except CodecError Unit} {f : Stop ε → ε'} {g : CodecError → ε'} (h : Agree fail R x y)
    (hfg : ∀ text, f (.failed (fail text)) = g (.decode text)) : x.mapError f = y.mapError g := by
  cases h with
  | ok _ => rfl
  | failed text => exact congrArg Except.error (hfg text)

theorem usizeAdd_ok {a b : Nat} (h : a + b ≤ Ints.u64Max) :
    (usizeAdd a b : Except (Stop ε) Nat) = .ok (a + b) := if_pos h

theorem usizeMul_ok {a b : Nat} (h : a * b ≤ Ints.u64Max) :
    (usizeMul a b : Except (Stop ε) Nat) = .ok (a * b) := if_pos h

theorem shift_le {v b p limit : Nat} (hb : b < 256) (hp : 0 < p) (h : (v + 1) * (p * 256) ≤ limit) :
    v * 256 + b ≤ limit ∧ (v * 256 + b + 1) * p ≤ limit := by
  have hle : v * 256 + b + 1 ≤ (v + 1) * 256 := by omega
  have hnext : (v * 256 + b + 1) * p ≤ limit := by
    refine le_trans (Nat.mul_le_mul_right _ hle) ?_
    rwa [Nat.mul_assoc, Nat.mul_comm 256]
  exact ⟨Nat.le_of_succ_le ((Nat.le_mul_of_pos_right _ hp).trans hnext), hnext⟩

/-- No shift leaves the range while the bytes fit. -/
theorem foldBytes_ok : ∀ (bs : Bytes) (v : Nat), (v + 1) * 256 ^ bs.length ≤ Ints.u64Max →
    (foldBytes bs v : Except (Stop ε) Nat) = .ok (v * 256 ^ bs.length + ofBe bs) := by
  intro bs
  induction bs with
  | nil =>
    intro v _
    simp [foldBytes, ofBe, pure, Except.pure]
  | cons b bs ih =>
    intro v h
    rw [List.length_cons, pow_succ] at h
    obtain ⟨hadd, hnext⟩ := shift_le b.toNat_lt (Nat.pow_pos (by decide)) h
    rw [foldBytes, usizeMul_ok ((Nat.le_add_right _ _).trans hadd)]
    show (do let value ← usizeAdd (v * 256) b.toNat; foldBytes bs value) = _
    rw [usizeAdd_ok hadd]
    show foldBytes bs (v * 256 + b.toNat) = _
    rw [ih _ hnext, ofBe, List.length_cons, pow_succ]
    congr 1
    ring

/-- The scanner's position as the bytes left. -/
def rest (s : MsgpackScanner) : Scanner := ⟨s.bytes.drop s.offset, s.values⟩

/-- The scanner stands inside the slice, behind at least one byte for each value counted. -/
structure Inside (bytes : Bytes) (s : MsgpackScanner) : Prop where
  slice : s.bytes = bytes
  offset : s.offset ≤ bytes.length
  values : s.values ≤ s.offset

/-- `s'` stands where `t` does, no further back than `low`. -/
structure At (bytes : Bytes) (low : Nat) (s' : MsgpackScanner) (t : Scanner) : Prop where
  inside : Inside bytes s'
  low : low ≤ s'.offset
  rest : s'.rest = t

/-- A scan that ends no further back than `high` ends no further back than `low`. -/
theorem Agree.lower {low high : Nat} {x : Except (Stop ε) MsgpackScanner}
    {y : Except CodecError Scanner} (h : low ≤ high) (hxy : Agree fail (At bytes high) x y) :
    Agree fail (At bytes low) x y := by
  cases hxy with
  | ok hat => exact .ok ⟨hat.inside, h.trans hat.low, hat.rest⟩
  | failed text => exact .failed text

section
variable {bytes : Bytes} {s : MsgpackScanner}
  (hslice : bytes.length ≤ Ints.i64Max.toNat)
include hslice

section
variable (h : Inside bytes s) {len : Nat} (hlen : len ≤ 2 ^ 34)
include h hlen

/-- Inside a slice, an offset moves by any 32-bit length, doubled and with some bytes more. -/
theorem take_agree :
    Agree fail (fun p q => p.1 = q.1 ∧ p.1.length = len ∧ At bytes (s.offset + len) p.2 q.2)
      (s.take fail len) (s.rest.take len) := by
  have hmax : s.offset + len ≤ Ints.u64Max := by
    have := h.offset
    unfold Ints.i64Max at hslice
    unfold Ints.u64Max
    omega
  unfold take Scanner.take
  rw [usizeAdd_ok hmax]
  show Agree fail _ (if s.offset + len ≤ s.bytes.length then _ else _) _
  have hrest : s.rest.rest.length = s.bytes.length - s.offset := List.length_drop
  have ho : s.offset ≤ s.bytes.length := h.slice ▸ h.offset
  by_cases hle : s.offset + len ≤ s.bytes.length
  · have htake : take? len s.rest.rest = some (s.rest.rest.take len, s.rest.rest.drop len) :=
      if_pos (by omega)
    rw [if_pos hle, htake]
    refine .ok ⟨rfl, ?_, ⟨h.slice, h.slice ▸ hle, ?_⟩, Nat.le_refl _, ?_⟩
    · rw [List.length_take, List.length_drop]
      omega
    · exact h.values.trans (Nat.le_add_right _ _)
    · simp only [rest, List.drop_drop]
  · have htake : take? len s.rest.rest = none := if_neg (by omega)
    rw [if_neg hle, htake]
    exact .failed _

theorem skip_agree : Agree fail (At bytes s.offset) (s.skip fail len) (s.rest.skip len) := by
  have hskip : s.rest.skip len = (s.rest.take len >>= fun p => pure p.2) := by
    unfold Scanner.skip
    cases s.rest.take len <;> rfl
  rw [hskip]
  refine (take_agree hslice h hlen).bind fun p q hpq => .ok ?_
  exact ⟨hpq.2.2.inside, (Nat.le_add_right _ _).trans hpq.2.2.low, hpq.2.2.rest⟩

theorem scalar_agree :
    Agree fail (At bytes s.offset) (s.scalar fail limits len) (s.rest.scalar limits len) := by
  unfold scalar Scanner.scalar
  by_cases hle : len > limits.maxScalarBytes
  · rw [if_pos hle, if_pos hle]
    exact .failed _
  · rw [if_neg hle, if_neg hle]
    exact skip_agree hslice h hlen

end

/-- A length of at most four bytes is read without loss. -/
theorem readUint_agree (h : Inside bytes s) {w : Nat} (hw : w ≤ 4) :
    Agree fail (fun p q => p.1 = q.1 ∧ p.1 < 2 ^ 32 ∧ At bytes s.offset p.2 q.2)
      (s.readUint fail w) (s.rest.readUint w) := by
  have hread : s.rest.readUint w = (s.rest.take w >>= fun p => pure (ofBe p.1, p.2)) := by
    unfold Scanner.readUint
    cases s.rest.take w <;> rfl
  rw [hread]
  refine (take_agree hslice h (by omega)).bind fun p q hpq => ?_
  obtain ⟨hbytes, hlen, hat⟩ := hpq
  have hpow : 256 ^ p.1.length ≤ 2 ^ 32 := by
    rw [hlen]
    exact Nat.pow_le_pow_right (by decide) hw
  have hfold : (foldBytes p.1 0 : Except (Stop ε) Nat) = .ok (ofBe p.1) := by
    rw [foldBytes_ok p.1 0 ?_, Nat.zero_mul, Nat.zero_add]
    rw [Nat.zero_add, Nat.one_mul]
    exact hpow.trans (by decide)
  rw [hfold]
  refine .ok ⟨congrArg ofBe hbytes, (ofBe_lt p.1).trans_le hpow, hat.inside, ?_, hat.rest⟩
  exact (Nat.le_add_right _ _).trans hat.low

end

/-- Items one after the other, each from where the one before ended. -/
theorem items_agree {low : Nat} {value : MsgpackScanner → Except (Stop ε) MsgpackScanner}
    {scan : Scanner → Except CodecError Scanner} (hvalue : ∀ s, Inside bytes s → low ≤ s.offset →
      Agree fail (At bytes s.offset) (value s) (scan s.rest)) :
    ∀ (n : Nat) (s : MsgpackScanner), Inside bytes s → low ≤ s.offset →
      Agree fail (At bytes s.offset) (items value n s) (Scanner.items scan n s.rest) := by
  intro n
  induction n with
  | zero =>
    intro s h _
    exact .ok ⟨h, Nat.le_refl _, rfl⟩
  | succ n ih =>
    intro s h hlow
    have hitems : Scanner.items scan (n + 1) s.rest =
        (scan s.rest >>= fun t => Scanner.items scan n t) := by
      rw [Scanner.items]
      cases scan s.rest <;> rfl
    rw [hitems]
    refine (hvalue s h hlow).bind fun s₁ t hat => ?_
    rw [← hat.rest]
    exact (ih s₁ hat.inside (hlow.trans hat.low)).lower hat.low

end MsgpackScanner

/-- The lengths and widths an arm fixes are small. -/
def Arm.bounded : Arm → Bool
  | .accept | .reserved => true
  | .skip len => len ≤ 17
  | .scalar len => len ≤ 31
  | .container n => n ≤ 30
  | .readScalar width extra => width ≤ 4 && extra ≤ 1
  | .readContainer width factor => width ≤ 4 && factor ≤ 2

theorem arm_bounded (marker : UInt8) : (arm marker).bounded = true := by
  have h : ∀ n < 256, (arm (UInt8.ofNat n)).bounded = true := by decide +kernel
  have := h marker.toNat marker.toNat_lt
  rwa [UInt8.ofNat_toNat] at this

namespace MsgpackScanner
variable {ε : Type} {fail : String → ε} {limits : ScanLimits}

section
variable {bytes : Bytes} {low depth : Nat} {value : Nat → MsgpackScanner → Except (Stop ε) MsgpackScanner}
  {scan : Scanner → Except CodecError Scanner}
  (hslice : bytes.length ≤ Ints.i64Max.toNat) (hdepth : depth + 1 ≤ low)
  (hvalue : ∀ s, Inside bytes s → low ≤ s.offset →
    Agree fail (At bytes s.offset) (value (depth + 1) s) (scan s.rest))
include hslice hdepth hvalue

/-- The depth never exceeds the offset, so adding one to it does not overflow. -/
theorem container_agree {s : MsgpackScanner} (h : Inside bytes s) (hlow : low ≤ s.offset) (n : Nat) :
    Agree fail (At bytes s.offset) (container fail limits value depth s n)
      (s.rest.container limits scan n) := by
  have hbelow : (usizeAdd depth 1 : Except (Stop ε) Nat) = .ok (depth + 1) := by
    refine usizeAdd_ok ?_
    have := h.offset
    unfold Ints.i64Max at hslice
    unfold Ints.u64Max
    omega
  unfold container Scanner.container
  by_cases hn : n > limits.maxContainerItems
  · rw [if_pos hn, if_pos hn]
    exact .failed _
  · rw [if_neg hn, if_neg hn, hbelow]
    exact items_agree hvalue n s h hlow

/-- One case for each arm. -/
theorem runArm_agree (limits : ScanLimits) {s : MsgpackScanner} (h : Inside bytes s)
    (hlow : low ≤ s.offset) {a : Arm}
    (ha : a.bounded = true) :
    Agree fail (At bytes s.offset) (runArm fail limits value depth s a)
      (s.rest.runArm limits scan a) := by
  cases a with
  | accept => exact .ok ⟨h, Nat.le_refl _, rfl⟩
  | reserved => exact .failed _
  | skip len =>
    have hlen : len ≤ 17 := of_decide_eq_true ha
    exact skip_agree hslice h (by omega)
  | scalar len =>
    have hlen : len ≤ 31 := of_decide_eq_true ha
    exact scalar_agree hslice h (by omega)
  | container n => exact container_agree hslice hdepth hvalue h hlow n
  | readScalar width extra =>
    simp only [Arm.bounded, Bool.and_eq_true, decide_eq_true_eq] at ha
    have hrun : s.rest.runArm limits scan (.readScalar width extra) =
        (s.rest.readUint width >>= fun p => p.2.scalar limits (p.1 + extra)) := by
      rw [Scanner.runArm]
      cases s.rest.readUint width <;> rfl
    rw [hrun]
    refine (readUint_agree hslice h ha.1).bind fun p q hpq => ?_
    obtain ⟨hlen, hlt, hat⟩ := hpq
    -- a declared length has 32 bits at most, with the type byte of an extension on top
    have hadd : (usizeAdd p.1 extra : Except (Stop ε) Nat) = .ok (p.1 + extra) := by
      refine usizeAdd_ok ?_
      unfold Ints.u64Max
      omega
    show Agree fail _ (usizeAdd p.1 extra >>= fun len => p.2.scalar fail limits len) _
    rw [hadd, ← hlen, ← hat.rest]
    exact (scalar_agree hslice hat.inside (by omega)).lower hat.low
  | readContainer width factor =>
    simp only [Arm.bounded, Bool.and_eq_true, decide_eq_true_eq] at ha
    have hrun : s.rest.runArm limits scan (.readContainer width factor) =
        (s.rest.readUint width >>= fun p => p.2.container limits scan (p.1 * factor)) := by
      rw [Scanner.runArm]
      cases s.rest.readUint width <;> rfl
    rw [hrun]
    refine (readUint_agree hslice h ha.1).bind fun p q hpq => ?_
    obtain ⟨hlen, hlt, hat⟩ := hpq
    -- twice a count of 32 bits
    have hmul : (usizeMul p.1 factor : Except (Stop ε) Nat) = .ok (p.1 * factor) := by
      refine usizeMul_ok ((Nat.mul_le_mul hlt.le ha.2).trans ?_)
      decide
    show Agree fail _ (usizeMul p.1 factor >>= fun n => container fail limits value depth p.2 n) _
    rw [hmul, ← hlen, ← hat.rest]
    exact (container_agree hslice hdepth hvalue hat.inside (hlow.trans hat.low) _).lower hat.low

end

/-- The marker: either nothing is left, or one byte is taken. -/
theorem take_marker (fail : String → ε) (s : MsgpackScanner)
    (hslice : bytes.length ≤ Ints.i64Max.toNat) (hbytes : s.bytes = bytes)
    (hoffset : s.offset ≤ bytes.length) :
    (s.rest.rest = [] ∧ s.take fail 1 = .error (.failed (fail "truncated MessagePack value"))) ∨
    ∃ marker, s.rest.rest = marker :: bytes.drop (s.offset + 1) ∧ s.offset + 1 ≤ bytes.length ∧
      s.take fail 1 = .ok ([marker], { s with offset := s.offset + 1 }) := by
  subst hbytes
  have hadd : (usizeAdd s.offset 1 : Except (Stop ε) Nat) = .ok (s.offset + 1) := by
    refine usizeAdd_ok ?_
    unfold Ints.i64Max at hslice
    unfold Ints.u64Max
    omega
  have htake : s.take fail 1 = if s.offset + 1 ≤ s.bytes.length then
      .ok ((s.bytes.drop s.offset).take 1, { s with offset := s.offset + 1 })
      else .error (.failed (fail "truncated MessagePack value")) := by
    unfold take
    rw [hadd]
    rfl
  by_cases hlt : s.offset < s.bytes.length
  · have hdrop := List.drop_eq_getElem_cons hlt
    refine .inr ⟨s.bytes[s.offset], hdrop, hlt, ?_⟩
    rw [htake, if_pos (Nat.succ_le_of_lt hlt), hdrop]
    rfl
  · refine .inl ⟨List.drop_eq_nil_of_le (Nat.not_lt.mp hlt), ?_⟩
    rw [htake, if_neg (fun hle => hlt (Nat.lt_of_succ_le hle))]

section
variable (fail : String → ε) (limits : ScanLimits) (hslice : bytes.length ≤ Ints.i64Max.toNat)
  {arm : UInt8 → Arm} (harm : ∀ marker, arm marker = Server.arm marker)
include hslice harm

/-- The scan of one value, with fuel for every byte left. -/
theorem value_agree : ∀ (fuel depth : Nat) (s : MsgpackScanner), Inside bytes s → depth ≤ s.offset →
      bytes.length < s.offset + fuel →
      Agree fail (At bytes s.offset) (value fail limits arm fuel depth s)
        (Scanner.value limits (limits.maxNestingDepth + 1 - depth) s.rest) := by
  -- on the fuel: a value takes its marker, so what is left of the slice shrinks with the fuel
  intro fuel
  induction fuel with
  | zero =>
    intro depth s h _ hfuel
    exact absurd h.offset (Nat.not_le.mpr hfuel)
  | succ fuel ih =>
    intro depth s h hdepth hfuel
    rw [value]
    by_cases hnest : depth > limits.maxNestingDepth
    · rw [if_pos hnest, Nat.sub_eq_zero_of_le hnest]
      exact .failed _
    · have hlevels : limits.maxNestingDepth + 1 - depth = limits.maxNestingDepth - depth + 1 := by
        omega
      -- no more values are counted than bytes were passed
      have hcount : (usizeAdd s.values 1 : Except (Stop ε) Nat) = .ok (s.values + 1) := by
        refine usizeAdd_ok ?_
        have := h.values
        have := h.offset
        unfold Ints.i64Max at hslice
        unfold Ints.u64Max
        omega
      rw [if_neg hnest, hlevels, hcount, Scanner.value]
      show Agree fail _ (if s.values + 1 > limits.maxTotalValues then _ else _)
        (if s.values + 1 > limits.maxTotalValues then _ else _)
      by_cases hmany : s.values + 1 > limits.maxTotalValues
      · rw [if_pos hmany, if_pos hmany]
        exact .failed _
      · rw [if_neg hmany, if_neg hmany]
        have hm := take_marker fail { s with values := s.values + 1 } hslice h.slice h.offset
        obtain ⟨hrest, htake⟩ | ⟨marker, hrest, hlen, htake⟩ := hm
        · have hnil : s.rest.rest = [] := hrest
          simp only [htake, hnil]
          exact .failed _
        · have hcons : s.rest.rest = marker :: bytes.drop (s.offset + 1) := hrest
          have hin : Inside bytes ⟨bytes, s.offset + 1, s.values + 1⟩ :=
            ⟨rfl, hlen, Nat.succ_le_succ h.values⟩
          have hlevel : limits.maxNestingDepth - depth = limits.maxNestingDepth + 1 - (depth + 1) := by
            omega
          have hbelow : ∀ s', Inside bytes s' → s.offset + 1 ≤ s'.offset →
              Agree fail (At bytes s'.offset) (value fail limits arm fuel (depth + 1) s')
                (Scanner.value limits (limits.maxNestingDepth - depth) s'.rest) := by
            intro s' h' hlow
            rw [hlevel]
            exact ih (depth + 1) s' h' ((Nat.succ_le_succ hdepth).trans hlow) (by omega)
          have hstep := runArm_agree hslice (Nat.succ_le_succ hdepth) hbelow limits hin
            (Nat.le_refl _) (arm_bounded marker)
          rw [← harm] at hstep
          simp only [htake, hcons]
          rw [h.slice, ← harm]
          exact hstep.lower (Nat.le_succ _)

/-- The machine scanner over a slice is the scanner over unbounded numbers: fuel for each
byte is enough, and no operation leaves its range. -/
theorem validate_refines {fuel : Nat} (hfuel : bytes.length < fuel) (maxBytes : Nat) :
    Agree fail (fun _ _ => True) (validate fail limits arm fuel bytes maxBytes)
      (validateMsgpackWithLimits bytes maxBytes limits) := by
  unfold validate validateMsgpackWithLimits
  by_cases hsize : bytes.length > maxBytes
  · rw [if_pos hsize, if_pos hsize]
    exact .failed _
  · rw [if_neg hsize, if_neg hsize]
    have hscan := value_agree fail limits hslice harm fuel 0 ⟨bytes, 0, 0⟩
      ⟨rfl, Nat.zero_le _, Nat.le_refl _⟩ (Nat.zero_le _) (by simpa using hfuel)
    have hbind := hscan.bind (Q := fun _ _ => True)
      (f := fun s => if s.offset ≠ bytes.length then
        .error (.failed (fail "trailing MessagePack data")) else pure ())
      (g := fun t => if t.rest = [] then .ok () else .error (.decode "trailing MessagePack data"))
      fun s t hat => by
        have hend : t.rest = [] ↔ s.offset = bytes.length := by
          rw [← hat.rest, rest, hat.inside.slice, List.drop_eq_nil_iff]
          have := hat.inside.offset
          omega
        by_cases h : s.offset = bytes.length
        · rw [if_neg (not_not.mpr h), if_pos (hend.mpr h)]
          exact .ok trivial
        · rw [if_pos h, if_neg (fun hnil => h (hend.mp hnil))]
          exact .failed _
    refine cast (congrArg _ ?_) hbind
    simp only [Nat.sub_zero, rest, List.drop_zero]
    cases Scanner.value limits (limits.maxNestingDepth + 1) ⟨bytes, 0⟩ <;> rfl

end

end MsgpackScanner
end Omen.Server
