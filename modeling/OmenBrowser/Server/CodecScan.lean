import OmenBrowser.Server.Codec

/- The limit scanner agrees with the format.

   `MsgpackScanner` walks the bytes with its own `match` over the markers and never
   builds a value. `value_ok` is its specification: it accepts exactly the bytes that
   parse as one value whose scalars and containers are within the limits, and it
   counts exactly that value's nodes. `validateMsgpack_ok` reads this for a frame:
   the accepted byte strings are those of one value within every limit. -/
namespace Omen.Server
open Wire Msgpack

variable {bytes : Bytes}

/-- The scanner's arm for a form. -/
def armOf : Form → Arm
  | .posFixint _ | .negFixint _ | .nil | .boolean _ => .accept
  | .reserved => .reserved
  | .uint w | .int w | .float w => .skip w
  | .fixext n => .skip (n + 1)
  | .fixstr n => .scalar n
  | .str w | .bin w => .readScalar w 0
  | .ext w => .readScalar w 1
  | .fixarray n => .container n
  | .array w => .readContainer w 1
  | .fixmap n => .container (n * 2)
  | .map w => .readContainer w 2

/-- The scanner's `match marker` follows the format on all 256 markers. -/
theorem arm_eq (marker : UInt8) : arm marker = armOf (form marker) := by
  have h : ∀ n < 256, arm (UInt8.ofNat n) = armOf (form (UInt8.ofNat n)) := by decide +kernel
  have := h marker.toNat marker.toNat_lt
  rwa [UInt8.ofNat_toNat] at this

variable {v : Value} {maxBytes : Nat}

namespace Scanner
variable {limits : ScanLimits} {s s' : Scanner}

variable {len n w : Nat}

theorem take_ok {a : Bytes} :
    s.take len = .ok (a, s') ↔ take? len s.rest = some (a, s'.rest) ∧ s'.values = s.values := by
  unfold take
  obtain ⟨rest, values⟩ := s'
  cases h : take? len s.rest with
  | none => simp
  | some p => cases p; simp [and_assoc, eq_comm]

theorem skip_ok :
    s.skip len = .ok s' ↔
      (∃ a, take? len s.rest = some (a, s'.rest)) ∧ s'.values = s.values := by
  unfold skip
  cases h : s.take len with
  | error e =>
    simp only [reduceCtorEq, false_iff, not_and]
    intro ⟨a, ha⟩ hv
    rw [take_ok.mpr ⟨ha, hv⟩] at h
    cases h
  | ok p =>
    obtain ⟨a, s₁⟩ := p
    obtain ⟨ht, hv⟩ := take_ok.mp h
    simp only [Except.ok.injEq]
    refine ⟨?_, ?_⟩
    · intro he
      subst he
      exact ⟨⟨a, ht⟩, hv⟩
    · intro ⟨⟨a', ha'⟩, hv'⟩
      have := take_ok.mpr ⟨ha', hv'⟩
      rw [h] at this
      exact (Prod.mk.inj (Except.ok.inj this)).2

theorem readUint_ok :
    s.readUint w = .ok (n, s') ↔
      Msgpack.readUint w s.rest = some (n, s'.rest) ∧ s'.values = s.values := by
  unfold readUint Msgpack.readUint take
  obtain ⟨rest, values⟩ := s'
  cases h : take? w s.rest with
  | none => simp
  | some p => cases p; simp [and_assoc, eq_comm]

/-- A number can be read wherever its bytes can be taken. -/
theorem exists_readUint {bs r : Bytes} :
    (∃ n, Msgpack.readUint w bs = some (n, r)) ↔ ∃ a, take? w bs = some (a, r) := by
  refine ⟨?_, ?_⟩
  · intro ⟨n, h⟩
    obtain ⟨a, ha, _⟩ := map_fst_some h
    exact ⟨a, ha⟩
  · intro ⟨a, ha⟩
    exact ⟨ofBe a, by rw [Msgpack.readUint, ha, Option.map_some]⟩

theorem scalar_ok :
    s.scalar limits len = .ok s' ↔ len ≤ limits.maxScalarBytes ∧
      (∃ a, take? len s.rest = some (a, s'.rest)) ∧ s'.values = s.values := by
  unfold scalar
  by_cases h : len > limits.maxScalarBytes
  · rw [if_pos h]
    simp only [reduceCtorEq, false_iff, not_and]
    omega
  · rw [if_neg h, skip_ok]
    simp only [Nat.not_lt.mp h, true_and]

/-- `scan` accepts what `p` reads, if the value is within the limits, and counts it. -/
def Agrees (limits : ScanLimits) (scan : Scanner → Except CodecError Scanner)
    (p : Bytes → Option (Value × Bytes)) : Prop :=
  ∀ s s', scan s = .ok s' ↔ ∃ v, p s.rest = some (v, s'.rest) ∧
    v.Within limits.maxContainerItems limits.maxScalarBytes ∧
    s'.values = s.values + v.nodes ∧ s'.values ≤ limits.maxTotalValues

section
variable {scan : Scanner → Except CodecError Scanner} {p : Bytes → Option (Value × Bytes)}
  (hscan : Agrees limits scan p)
include hscan

/-- Items in a row: the count goes up by the nodes of all of them. -/
theorem items_ok : ∀ (n : Nat) (s s' : Scanner), s.values ≤ limits.maxTotalValues →
    (items scan n s = .ok s' ↔ ∃ vs, parseN p n s.rest = some (vs, s'.rest) ∧
      WithinAll limits.maxContainerItems limits.maxScalarBytes vs ∧
      s'.values = s.values + nodesAll vs ∧ s'.values ≤ limits.maxTotalValues) := by
  -- on the number of items; the scanner and the reader take one off together
  intro n
  induction n with
  | zero =>
    intro s s' hs
    obtain ⟨rest, values⟩ := s
    obtain ⟨rest', values'⟩ := s'
    simp only [items, parseN, Except.ok.injEq, Scanner.mk.injEq, Option.some.injEq, Prod.mk.injEq]
    refine ⟨?_, ?_⟩
    · intro ⟨hr, hv⟩
      exact ⟨[], ⟨rfl, hr⟩, trivial, hv.symm, hv ▸ hs⟩
    · intro ⟨vs, ⟨hn, hr⟩, _, hv, _⟩
      subst hn
      exact ⟨hr, hv.symm⟩
  | succ n ih =>
    intro s s' hs
    rw [items, parseN]
    refine ⟨?_, ?_⟩
    · intro h
      split at h
      · next s₁ h₁ =>
        obtain ⟨v, hp, hw, hv, hm⟩ := (hscan s s₁).mp h₁
        obtain ⟨vs, hps, hws, hvs, hms⟩ := (ih s₁ s' hm).mp h
        refine ⟨v :: vs, ?_, ⟨hw, hws⟩, ?_, hms⟩
        · simp only [hp, hps, Option.map_some]
        · rw [nodesAll, hvs, hv, Nat.add_assoc]
      · cases h
    · intro ⟨vs, h, hw, hv, hm⟩
      split at h
      · cases h
      · next v bs hp =>
        obtain ⟨vs', hps, rfl⟩ := map_fst_some (f := fun vs => v :: vs) h
        rw [nodesAll] at hv
        have h₁ : scan s = .ok ⟨bs, s.values + v.nodes⟩ :=
          (hscan s _).mpr ⟨v, hp, hw.1, rfl, by dsimp only; omega⟩
        rw [h₁]
        exact (ih _ s' (by dsimp only; omega)).mpr ⟨vs', hps, hw.2, by dsimp only; omega, hm⟩

theorem container_ok (hs : s.values ≤ limits.maxTotalValues) :
    s.container limits scan n = .ok s' ↔ n ≤ limits.maxContainerItems ∧
      ∃ vs, parseN p n s.rest = some (vs, s'.rest) ∧
        WithinAll limits.maxContainerItems limits.maxScalarBytes vs ∧
        s'.values = s.values + nodesAll vs ∧ s'.values ≤ limits.maxTotalValues := by
  unfold container
  by_cases h : n > limits.maxContainerItems
  · rw [if_pos h]
    simp only [reduceCtorEq, false_iff, not_and]
    omega
  · rw [if_neg h, items_ok hscan n s s' hs]
    simp only [Nat.not_lt.mp h, true_and]

end

/-! One arm against one form. -/

/-- What a reader of one form yields within the limits, the form itself being counted. -/
def FormRead (limits : ScanLimits) (o : Option (Value × Bytes)) (s s' : Scanner) : Prop :=
  ∃ v, o = some (v, s'.rest) ∧ v.Within limits.maxContainerItems limits.maxScalarBytes ∧
    s'.values + 1 = s.values + v.nodes ∧ s'.values ≤ limits.maxTotalValues

/-- A form without operands. -/
theorem formRead_const (hn : v.nodes = 1)
    (hw : v.Within limits.maxContainerItems limits.maxScalarBytes)
    (hs : s.values ≤ limits.maxTotalValues) : FormRead limits (some (v, s.rest)) s s' ↔ s = s' := by
  obtain ⟨rest, values⟩ := s
  obtain ⟨rest', values'⟩ := s'
  refine ⟨?_, ?_⟩
  · intro ⟨v', he, _, hv, _⟩
    cases he
    rw [hn] at hv
    obtain rfl : values' = values := Nat.succ.inj hv
    rfl
  · intro he
    obtain ⟨rfl, rfl⟩ := Scanner.mk.inj he
    exact ⟨v, rfl, hw, by rw [hn], hs⟩

/-- A form whose operand is not a container. -/
theorem formRead_leaf {α : Type} {o : Option (α × Bytes)} {g : α → Value} {P : Prop}
    (hn : ∀ a, (g a).nodes = 1)
    (hw : ∀ a, o = some (a, s'.rest) →
      ((g a).Within limits.maxContainerItems limits.maxScalarBytes ↔ P))
    (hs : s.values ≤ limits.maxTotalValues) :
    FormRead limits (o.map (fun q => (g q.1, q.2))) s s' ↔
      P ∧ (∃ a, o = some (a, s'.rest)) ∧ s'.values = s.values := by
  refine ⟨?_, ?_⟩
  · intro ⟨v, he, hv, hc, _⟩
    obtain ⟨a, ho, rfl⟩ := map_fst_some he
    rw [hn] at hc
    exact ⟨(hw a ho).mp hv, ⟨a, ho⟩, Nat.succ.inj hc⟩
  · intro ⟨hp, ⟨a, ho⟩, hc⟩
    refine ⟨g a, ?_, (hw a ho).mpr hp, ?_, hc ▸ hs⟩
    · rw [ho, Option.map_some]
    · rw [hn, hc]

/-- A form whose operands are items. -/
theorem formRead_items {o : Option (List Value × Bytes)} {g : List Value → Value}
    (hn : ∀ vs, (g vs).nodes = 1 + nodesAll vs)
    (hw : ∀ vs, o = some (vs, s'.rest) →
      ((g vs).Within limits.maxContainerItems limits.maxScalarBytes ↔
        n ≤ limits.maxContainerItems ∧
          WithinAll limits.maxContainerItems limits.maxScalarBytes vs)) :
    FormRead limits (o.map (fun q => (g q.1, q.2))) s s' ↔
      n ≤ limits.maxContainerItems ∧ ∃ vs, o = some (vs, s'.rest) ∧
        WithinAll limits.maxContainerItems limits.maxScalarBytes vs ∧
        s'.values = s.values + nodesAll vs ∧ s'.values ≤ limits.maxTotalValues := by
  refine ⟨?_, ?_⟩
  · intro ⟨v, he, hv, hc, hm⟩
    obtain ⟨vs, ho, rfl⟩ := map_fst_some he
    obtain ⟨hle, hvs⟩ := (hw vs ho).mp hv
    rw [hn] at hc
    exact ⟨hle, vs, ho, hvs, by omega, hm⟩
  · intro ⟨hle, vs, ho, hvs, hc, hm⟩
    refine ⟨g vs, ?_, (hw vs ho).mpr ⟨hle, hvs⟩, ?_, hm⟩
    · rw [ho, Option.map_some]
    · rw [hn]
      omega

/-- A form that starts with a length: the scanner reads the same one. -/
theorem formRead_length {k : Nat × Bytes → Option (Value × Bytes)}
    (next : Nat → Scanner → Except CodecError Scanner)
    (hnext : ∀ n s₁, Msgpack.readUint w s.rest = some (n, s₁.rest) → s₁.values = s.values →
      (next n s₁ = .ok s' ↔ FormRead limits (k (n, s₁.rest)) s₁ s')) :
    (match s.readUint w with
      | .ok (n, s₁) => next n s₁
      | .error e => .error e) = .ok s' ↔
      FormRead limits ((Msgpack.readUint w s.rest).bind k) s s' := by
  cases h : s.readUint w with
  | ok q =>
    obtain ⟨n, s₁⟩ := q
    obtain ⟨hu, hv⟩ := readUint_ok.mp h
    rw [hu, Option.bind_some]
    refine (hnext n s₁ hu hv).trans ?_
    unfold FormRead
    rw [hv]
  | error e =>
    simp only [reduceCtorEq, false_iff]
    intro ⟨v, he, _⟩
    obtain ⟨⟨n, r⟩, hu, _⟩ := Option.bind_eq_some_iff.mp he
    have hok : s.readUint w = .ok (n, ⟨r, s.values⟩) := readUint_ok.mpr ⟨hu, rfl⟩
    rw [hok] at h
    cases h

/-- An extension's type byte is the first of its bytes. -/
theorem take?_tagged (n : Nat) (bs : Bytes) :
    ((take? 1 bs).bind fun t => (take? n t.2).map fun q => (Value.ext (t.1.headD 0) q.1, q.2)) =
      (take? (n + 1) bs).map (fun q => (Value.ext (q.1.headD 0) q.1.tail, q.2)) := by
  cases bs with
  | nil => rfl
  | cons b bs =>
    by_cases h : n ≤ bs.length
    · simp [take?, h]
    · simp [take?, h]

section
variable {scan : Scanner → Except CodecError Scanner} {p : Bytes → Option (Value × Bytes)}
  (hscan : Agrees limits scan p)
include hscan

/-- One case for each form. A fixed-width extension is skipped without a check, and its 17
bytes are within any scalar limit of that size. -/
theorem runArm_ok {f : Form} (hf : f.Valid) (hfix : 17 ≤ limits.maxScalarBytes)
    (hs : s.values ≤ limits.maxTotalValues) :
    s.runArm limits scan (armOf f) = .ok s' ↔ FormRead limits (readForm p s.rest f) s s' := by
  -- forms without operands
  have const : ∀ v : Value, v.nodes = 1 → v.Within limits.maxContainerItems limits.maxScalarBytes →
      ((Except.ok s : Except CodecError Scanner) = .ok s' ↔
        FormRead limits (some (v, s.rest)) s s') := by
    intro v hn hw
    rw [formRead_const hn hw hs, Except.ok.injEq]
  cases f with
  | posFixint n | negFixint n | nil | boolean b => exact const _ rfl trivial
  | reserved =>
    simp only [armOf, runArm, readForm, reduceCtorEq, false_iff]
    intro ⟨v, he, _⟩
    cases he
  | uint w =>
    rw [readForm, formRead_leaf (g := fun n : Nat => Value.integer n) (P := True)
      (fun _ => rfl) (fun _ _ => Iff.rfl) hs, armOf, runArm, skip_ok, true_and, exists_readUint]
  | int w =>
    rw [readForm, formRead_leaf (g := fun n => Value.integer (signed w n)) (P := True)
      (fun _ => rfl) (fun _ _ => Iff.rfl) hs, armOf, runArm, skip_ok, true_and, exists_readUint]
  | float w =>
    rw [readForm, formRead_leaf (g := Value.float) (P := True) (fun _ => rfl)
      (fun _ _ => Iff.rfl) hs, armOf, runArm, skip_ok, true_and]
  | fixext n =>
    have hn : n ≤ 16 := by
      simp only [Form.Valid] at hf
      omega
    rw [readForm, take?_tagged, formRead_leaf (g := fun a : Bytes => Value.ext (a.headD 0) a.tail)
      (P := True) (fun _ => rfl) ?_ hs, armOf, runArm, skip_ok, true_and]
    intro a ha
    have := (take?_some.mp ha).2
    simp only [Value.Within, List.length_tail, iff_true]
    omega
  | fixstr n =>
    rw [readForm, formRead_leaf (g := Value.string) (P := n ≤ limits.maxScalarBytes)
      (fun _ => rfl) ?_ hs, armOf, runArm, scalar_ok]
    intro a ha
    rw [Value.Within, (take?_some.mp ha).2]
  | str w =>
    refine formRead_length (fun n s₁ => s₁.scalar limits (n + 0)) fun n s₁ _ hv => ?_
    rw [formRead_leaf (g := Value.string) (P := n ≤ limits.maxScalarBytes)
      (fun _ => rfl) ?_ (hv ▸ hs), scalar_ok, Nat.add_zero]
    intro a ha
    rw [Value.Within, (take?_some.mp ha).2]
  | bin w =>
    refine formRead_length (fun n s₁ => s₁.scalar limits (n + 0)) fun n s₁ _ hv => ?_
    rw [formRead_leaf (g := Value.binary) (P := n ≤ limits.maxScalarBytes)
      (fun _ => rfl) ?_ (hv ▸ hs), scalar_ok, Nat.add_zero]
    intro a ha
    rw [Value.Within, (take?_some.mp ha).2]
  | ext w =>
    refine formRead_length (fun n s₁ => s₁.scalar limits (n + 1)) fun n s₁ _ hv => ?_
    rw [take?_tagged, formRead_leaf (g := fun a : Bytes => Value.ext (a.headD 0) a.tail)
      (P := n + 1 ≤ limits.maxScalarBytes) (fun _ => rfl) ?_ (hv ▸ hs), scalar_ok]
    intro a ha
    have := (take?_some.mp ha).2
    simp only [Value.Within, List.length_tail, this, Nat.add_sub_cancel]
  | fixarray n =>
    rw [readForm, formRead_items (g := Value.array) (n := n) (fun _ => rfl) ?_, armOf, runArm,
      container_ok hscan hs]
    intro vs hvs
    rw [Value.Within, parseN_length hvs]
  | array w =>
    refine formRead_length (fun n s₁ => s₁.container limits scan (n * 1)) fun n s₁ _ hv => ?_
    rw [formRead_items (g := Value.array) (n := n) (fun _ => rfl) ?_, Nat.mul_one,
      container_ok hscan (hv ▸ hs)]
    intro vs hvs
    rw [Value.Within, parseN_length hvs]
  | fixmap n =>
    rw [readForm, formRead_items (g := Value.map) (n := n * 2) (fun _ => rfl) ?_, armOf, runArm,
      container_ok hscan hs, Nat.mul_comm]
    intro vs hvs
    rw [Value.Within, parseN_length hvs, Nat.mul_comm]
  | map w =>
    refine formRead_length (fun n s₁ => s₁.container limits scan (n * 2)) fun n s₁ _ hv => ?_
    rw [formRead_items (g := Value.map) (n := n * 2) (fun _ => rfl) ?_,
      container_ok hscan (hv ▸ hs), Nat.mul_comm]
    intro vs hvs
    rw [Value.Within, parseN_length hvs, Nat.mul_comm]

end

/-- The scanner accepts exactly what the reader reads within the limits. -/
theorem value_ok (limits : ScanLimits) (hfix : 17 ≤ limits.maxScalarBytes) :
    ∀ levels, Agrees limits (value limits levels) (parse levels) := by
  intro levels
  induction levels with
  | zero =>
    intro s s'
    simp [value, parse]
  | succ levels ih =>
    intro s s'
    obtain ⟨rest, values⟩ := s
    simp only [value]
    by_cases hm : values + 1 > limits.maxTotalValues
    · -- the value itself is one too many
      rw [if_pos hm]
      simp only [reduceCtorEq, false_iff, not_exists, not_and]
      intro v _ _ hv
      have := nodes_pos v
      omega
    · rw [if_neg hm]
      cases rest with
      | nil => simp [parse]
      | cons marker bs =>
        simp only [arm_eq]
        rw [runArm_ok ih (form_valid marker) hfix (by dsimp only; omega)]
        unfold FormRead
        simp only [parse]
        refine exists_congr fun v => and_congr_right fun _ => and_congr_right fun _ => ?_
        omega

end Scanner

/-! What the bytes that are accepted must be. -/

/-- One value, with nothing after it, within the limits. -/
structure ReadsWithin (maxBytes : Nat) (limits : ScanLimits) (bytes : Bytes) (v : Value) : Prop where
  size : bytes.length ≤ maxBytes
  parses : parse (limits.maxNestingDepth + 1) bytes = some (v, [])
  within : v.Within limits.maxContainerItems limits.maxScalarBytes
  values : v.nodes ≤ limits.maxTotalValues

theorem validate_reads {limits : ScanLimits} (hfix : 17 ≤ limits.maxScalarBytes) :
    validateMsgpackWithLimits bytes maxBytes limits = .ok () ↔
      ∃ v, ReadsWithin maxBytes limits bytes v := by
  have hscan := Scanner.value_ok limits hfix (limits.maxNestingDepth + 1) ⟨bytes, 0⟩
  unfold validateMsgpackWithLimits
  refine ⟨?_, ?_⟩
  · intro h
    by_cases hsize : bytes.length > maxBytes
    · rw [if_pos hsize] at h
      cases h
    · rw [if_neg hsize] at h
      split at h
      · cases h
      · next s hs =>
        split at h
        · next hnil =>
          obtain ⟨v, hp, hw, hv, hm⟩ := (hscan s).mp hs
          rw [hnil] at hp
          rw [hv, Nat.zero_add] at hm
          exact ⟨v, Nat.not_lt.mp hsize, hp, hw, hm⟩
        · cases h
  · intro ⟨v, hv⟩
    rw [if_neg (Nat.not_lt.mpr hv.size)]
    have hs := (hscan ⟨[], v.nodes⟩).mpr
      ⟨v, hv.parses, hv.within, (Nat.zero_add _).symm, hv.values⟩
    split
    · next e he =>
      rw [hs] at he
      cases he
    · next s he =>
      rw [hs] at he
      cases he
      rfl

/-- What is written of a value respects the limits. -/
structure WritesWithin (maxBytes : Nat) (limits : ScanLimits) (bytes : Bytes) (v : Value) : Prop where
  size : bytes.length ≤ maxBytes
  within : v.Within limits.maxContainerItems limits.maxScalarBytes
  values : v.nodes ≤ limits.maxTotalValues
  depth : v.depth ≤ limits.maxNestingDepth

/-- A value's own bytes are read within the limits exactly when they respect them, and then as
the value itself. -/
theorem readsWithin_write {limits : ScanLimits} {w : Value} (hfits : v.Fits) :
    ReadsWithin maxBytes limits (write v) w ↔ w = v ∧ WritesWithin maxBytes limits (write v) v := by
  refine ⟨?_, ?_⟩
  · intro hw
    -- with fuel enough for both, the reader gives the value written and the value scanned
    have hown := parse_write v (limits.maxNestingDepth + 1 + v.depth) [] hfits (by omega)
    rw [List.append_nil, parse_mono (Nat.le_add_right _ _) hw.parses] at hown
    cases hown
    exact ⟨rfl, hw.size, hw.within, hw.values, Nat.le_of_lt_succ (parse_reads hw.parses).depth⟩
  · rintro ⟨rfl, hl⟩
    refine ⟨hl.size, ?_, hl.within, hl.values⟩
    rw [← List.append_nil (write _)]
    exact parse_write _ _ [] hfits (Nat.lt_succ_of_le hl.depth)

/-- One value, with nothing after it, within every limit of a frame. -/
structure FrameBytes (bytes : Bytes) (v : Value) : Prop where
  size : bytes.length ≤ maxFrameBytes
  parses : parse (maxNestingDepth + 1) bytes = some (v, [])
  within : v.Within maxContainerItems maxScalarBytes
  values : v.nodes ≤ maxTotalValues

theorem frameBytes_iff : FrameBytes bytes v ↔ ReadsWithin maxFrameBytes frameLimits bytes v :=
  ⟨fun h => ⟨h.size, h.parses, h.within, h.values⟩, fun h => ⟨h.size, h.parses, h.within, h.values⟩⟩

theorem validateMsgpack_ok : validateMsgpack bytes = .ok () ↔ ∃ v, FrameBytes bytes v :=
  (validate_reads (by decide)).trans (exists_congr fun _ => frameBytes_iff.symm)

end Omen.Server
