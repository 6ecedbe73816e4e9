import OmenBrowser.Lib.MsgpackNode
import OmenBrowser.Server.CodecScan
import OmenBrowser.Server.MsgpackScanner

/- The limit scanner accepts exactly one complete value within the limits, for any limits.

   `value_exact` is stated over `Node`, the value as it is written, because the
   scanner measures forms and not values: data of a declared length is held against
   the scalar limit, and an operand of a fixed width (a number, an extension of 1, 2,
   4, 8 or 16 bytes) is not. `scanner_exact` joins this with `validate_refines`, so
   that it speaks of the scan with fuel and `usize` arithmetic. -/
namespace Omen.Server
open Wire Msgpack List

namespace Scanner
variable {limits : ScanLimits} {s s' : Scanner}
  {w : Nat}

/-- `s.rest` starts with an encoded value within the limits, `levels` deep at most, and `s'`
stands behind it with its values counted. -/
structure Passes (limits : ScanLimits) (levels : Nat) (s s' : Scanner) (node : Node) : Prop where
  valid : node.Valid
  bytes : s.rest = node.bytes ++ s'.rest
  containers : node.ContainersWithin limits.maxContainerItems
  data : node.DataWithin limits.maxScalarBytes
  depth : node.depth < levels
  counted : s'.values = s.values + node.values
  values : s'.values ≤ limits.maxTotalValues

/-- `scan` accepts what starts with a node within the limits. -/
def Exact (limits : ScanLimits) (levels : Nat) (scan : Scanner → Except CodecError Scanner) : Prop :=
  ∀ s s', scan s = .ok s' ↔ ∃ node, Passes limits levels s s' node

section
variable {scan : Scanner → Except CodecError Scanner} {levels : Nat}
  (hscan : Exact limits levels scan)
include hscan

theorem items_node : ∀ (n : Nat) (s s' : Scanner), s.values ≤ limits.maxTotalValues →
    (items scan n s = .ok s' ↔ ∃ nodes : List Node, nodes.length = n ∧ Node.ValidAll nodes ∧
      s.rest = Node.bytesAll nodes ++ s'.rest ∧
      Node.ContainersWithinAll limits.maxContainerItems nodes ∧
      Node.DataWithinAll limits.maxScalarBytes nodes ∧ Node.depthAll nodes ≤ levels ∧
      s'.values = s.values + Node.valuesAll nodes ∧ s'.values ≤ limits.maxTotalValues) := by
  -- on the number of items; the values counted so far go from one item to the next
  intro n
  induction n with
  | zero =>
    intro s s' hs
    obtain ⟨rest, values⟩ := s
    obtain ⟨rest', values'⟩ := s'
    simp only [items, Except.ok.injEq, Scanner.mk.injEq]
    refine ⟨?_, ?_⟩
    · rintro ⟨hr, hv⟩
      subst hr hv
      exact ⟨[], rfl, trivial, rfl, trivial, trivial, Nat.zero_le _, rfl, hs⟩
    · rintro ⟨nodes, hlen, _, hb, _, _, _, hv, _⟩
      obtain rfl := length_eq_zero_iff.mp hlen
      exact ⟨hb, hv.symm⟩
  | succ n ih =>
    intro s s' hs
    rw [items]
    refine ⟨?_, ?_⟩
    · intro h
      split at h
      · next s₁ h₁ =>
        obtain ⟨node, hn⟩ := (hscan s s₁).mp h₁
        obtain ⟨nodes, hlen, hv, hb, hc, hd, hdep, hcnt, hm⟩ := (ih s₁ s' hn.values).mp h
        refine ⟨node :: nodes, ?_, ⟨hn.valid, hv⟩, ?_, ⟨hn.containers, hc⟩, ⟨hn.data, hd⟩, ?_, ?_, hm⟩
        · rw [length_cons, hlen]
        · rw [hn.bytes, hb, Node.bytesAll, append_assoc]
        · exact Nat.max_le.mpr ⟨hn.depth, hdep⟩
        · rw [hcnt, hn.counted, Node.valuesAll, Nat.add_assoc]
      · cases h
    · rintro ⟨nodes, hlen, hv, hb, hc, hd, hdep, hcnt, hm⟩
      cases nodes with
      | nil => cases hlen
      | cons node nodes =>
        rw [Node.bytesAll, append_assoc] at hb
        rw [Node.depthAll] at hdep
        rw [Node.valuesAll] at hcnt
        have h₁ : scan s = .ok ⟨Node.bytesAll nodes ++ s'.rest, s.values + node.values⟩ := by
          refine (hscan s _).mpr ⟨node, hv.1, hb, hc.1, hd.1, by omega, rfl, ?_⟩
          dsimp only
          omega
        rw [h₁]
        refine (ih _ s' (by dsimp only; omega)).mpr
          ⟨nodes, Nat.succ.inj hlen, hv.2, rfl, hc.2, hd.2, by omega, ?_, hm⟩
        dsimp only
        omega

theorem container_node {n : Nat} (hs : s.values ≤ limits.maxTotalValues) :
    s.container limits scan n = .ok s' ↔ n ≤ limits.maxContainerItems ∧
      ∃ nodes : List Node, nodes.length = n ∧ Node.ValidAll nodes ∧
        s.rest = Node.bytesAll nodes ++ s'.rest ∧
        Node.ContainersWithinAll limits.maxContainerItems nodes ∧
        Node.DataWithinAll limits.maxScalarBytes nodes ∧ Node.depthAll nodes ≤ levels ∧
        s'.values = s.values + Node.valuesAll nodes ∧ s'.values ≤ limits.maxTotalValues := by
  unfold container
  by_cases h : n > limits.maxContainerItems
  · rw [if_pos h]
    simp only [reduceCtorEq, false_iff, not_and]
    omega
  · rw [if_neg h, items_node hscan n s s' hs]
    simp only [Nat.not_lt.mp h, true_and]

end

/-! One arm against one kind of node. -/

/-- An operand of a fixed width. -/
theorem skip_node :
    s.skip w = .ok s' ↔
      ∃ operand : Bytes, operand.length = w ∧ s.rest = operand ++ s'.rest ∧ s'.values = s.values := by
  rw [skip_ok]
  simp only [take?_some]
  refine ⟨?_, ?_⟩
  · intro ⟨⟨a, hb, hl⟩, hv⟩
    exact ⟨a, hl, hb, hv⟩
  · intro ⟨a, hl, hb, hv⟩
    exact ⟨⟨a, hb, hl⟩, hv⟩

theorem scalar_node {n : Nat} :
    s.scalar limits n = .ok s' ↔ n ≤ limits.maxScalarBytes ∧
      ∃ payload : Bytes, payload.length = n ∧ s.rest = payload ++ s'.rest ∧ s'.values = s.values := by
  unfold scalar
  by_cases h : n > limits.maxScalarBytes
  · rw [if_pos h]
    simp only [reduceCtorEq, false_iff, not_and]
    omega
  · rw [if_neg h, skip_node]
    simp only [Nat.not_lt.mp h, true_and]

/-- A header is read, and the scan goes on with the length it declares. -/
theorem header_node {next : Nat → Scanner → Except CodecError Scanner} :
    (match s.readUint w with
      | .ok (n, s₁) => next n s₁
      | .error e => .error e) = .ok s' ↔
      ∃ (header rest : Bytes), header.length = w ∧ s.rest = header ++ rest ∧
        next (ofBe header) ⟨rest, s.values⟩ = .ok s' := by
  unfold readUint take
  cases h : take? w s.rest with
  | none =>
    simp only [reduceCtorEq, false_iff, not_exists, not_and]
    intro header rest hl hb
    rw [take?_some.mpr ⟨hb, hl⟩] at h
    cases h
  | some p =>
    obtain ⟨a, r⟩ := p
    obtain ⟨hb, hl⟩ := take?_some.mp h
    refine ⟨?_, ?_⟩
    · intro h
      exact ⟨a, r, hl, hb, h⟩
    · intro ⟨header, rest, hl', hb', h'⟩
      obtain ⟨rfl, rfl⟩ := append_inj (hb.symm.trans hb') (hl.trans hl'.symm)
      exact h'

/-! What it takes for a node of each kind to start with a marker. -/

variable {marker : UInt8} {bs : Bytes} {values levels : Nat}

theorem exists_fixed : (∃ m operand, Passes limits (levels + 1) ⟨marker :: bs, values⟩ s' (.fixed m operand)) ↔
    ∃ operand : Bytes, (form marker).fixedWidth = some operand.length ∧ bs = operand ++ s'.rest ∧
      s'.values = values + 1 ∧ s'.values ≤ limits.maxTotalValues := by
  refine ⟨?_, ?_⟩
  · intro ⟨m, operand, h⟩
    obtain ⟨rfl, hb⟩ := cons.inj h.bytes
    exact ⟨operand, h.valid, hb, h.counted, h.values⟩
  · intro ⟨operand, hv, hb, hc, hm⟩
    exact ⟨marker, operand, hv, congrArg (marker :: ·) hb, trivial, trivial, Nat.succ_pos _, hc, hm⟩

theorem exists_data :
    (∃ m header payload, Passes limits (levels + 1) ⟨marker :: bs, values⟩ s' (.data m header payload)) ↔
    ∃ header payload : Bytes, (form marker).dataLength header = some payload.length ∧
      bs = header ++ (payload ++ s'.rest) ∧ payload.length ≤ limits.maxScalarBytes ∧
      s'.values = values + 1 ∧ s'.values ≤ limits.maxTotalValues := by
  refine ⟨?_, ?_⟩
  · intro ⟨m, header, payload, h⟩
    obtain ⟨rfl, hb⟩ := cons.inj h.bytes
    rw [append_eq, append_assoc] at hb
    exact ⟨header, payload, h.valid, hb, h.data, h.counted, h.values⟩
  · intro ⟨header, payload, hv, hb, hd, hc, hm⟩
    refine ⟨marker, header, payload, hv, ?_, trivial, hd, Nat.succ_pos _, hc, hm⟩
    rw [hb, Node.bytes, cons_append, append_assoc]

theorem exists_container :
    (∃ m header nodes, Passes limits (levels + 1) ⟨marker :: bs, values⟩ s' (.container m header nodes)) ↔
    ∃ (header : Bytes) (nodes : List Node), (form marker).itemCount header = some nodes.length ∧
      Node.ValidAll nodes ∧ bs = header ++ (Node.bytesAll nodes ++ s'.rest) ∧
      nodes.length ≤ limits.maxContainerItems ∧
      Node.ContainersWithinAll limits.maxContainerItems nodes ∧
      Node.DataWithinAll limits.maxScalarBytes nodes ∧ Node.depthAll nodes ≤ levels ∧
      s'.values = values + 1 + Node.valuesAll nodes ∧ s'.values ≤ limits.maxTotalValues := by
  refine ⟨?_, ?_⟩
  · intro ⟨m, header, nodes, h⟩
    obtain ⟨rfl, hb⟩ := cons.inj h.bytes
    rw [append_eq, append_assoc] at hb
    have hc := h.counted
    rw [Node.values, ← Nat.add_assoc] at hc
    exact ⟨header, nodes, h.valid.1, h.valid.2, hb, h.containers.1, h.containers.2, h.data,
      Nat.le_of_lt_succ h.depth, hc, h.values⟩
  · intro ⟨header, nodes, hn, hv, hb, hle, hcs, hd, hdep, hc, hm⟩
    refine ⟨marker, header, nodes, ⟨hn, hv⟩, ?_, ⟨hle, hcs⟩, hd, Nat.lt_succ_of_le hdep, ?_, hm⟩
    · rw [hb, Node.bytes, cons_append, append_assoc]
    · rw [hc, Node.values, Nat.add_assoc]

section
variable {scan : Scanner → Except CodecError Scanner} (hs : values + 1 ≤ limits.maxTotalValues)
include hs

theorem skip_fixed : skip ⟨bs, values + 1⟩ w = .ok s' ↔
    ∃ operand : Bytes, w = operand.length ∧ bs = operand ++ s'.rest ∧
      s'.values = values + 1 ∧ s'.values ≤ limits.maxTotalValues := by
  rw [skip_node]
  refine exists_congr fun operand => ?_
  refine ⟨?_, ?_⟩
  · intro ⟨hl, hb, hv⟩
    exact ⟨hl.symm, hb, hv, hv ▸ hs⟩
  · intro ⟨hl, hb, hv, _⟩
    exact ⟨hl.symm, hb, hv⟩

/-- Data behind a header of `w` bytes; the marker has the length itself when `w` is `0`. -/
theorem scalar_data (len : Bytes → Nat) :
    (∃ (header rest : Bytes), header.length = w ∧ bs = header ++ rest ∧
      scalar limits ⟨rest, values + 1⟩ (len header) = .ok s') ↔
    ∃ header payload : Bytes, (if header.length = w then some (len header) else none) = some payload.length ∧
      bs = header ++ (payload ++ s'.rest) ∧ payload.length ≤ limits.maxScalarBytes ∧
      s'.values = values + 1 ∧ s'.values ≤ limits.maxTotalValues := by
  refine exists_congr fun header => ?_
  refine ⟨?_, ?_⟩
  · intro ⟨rest, hl, hb, h⟩
    obtain ⟨hle, payload, hp, hr, hv⟩ := scalar_node.mp h
    refine ⟨payload, ?_, hr ▸ hb, hp ▸ hle, hv, hv ▸ hs⟩
    rw [if_pos hl, hp]
  · intro ⟨payload, hp, hb, hle, hv, _⟩
    split at hp
    · next hl =>
      have hp := Option.some.inj hp
      exact ⟨_, hl, hb, scalar_node.mpr ⟨hp ▸ hle, payload, hp.symm, rfl, hv⟩⟩
    · cases hp

theorem container_items (hscan : Exact limits levels scan) (count : Bytes → Nat) :
    (∃ (header rest : Bytes), header.length = w ∧ bs = header ++ rest ∧
      container limits scan ⟨rest, values + 1⟩ (count header) = .ok s') ↔
    ∃ (header : Bytes) (nodes : List Node),
      (if header.length = w then some (count header) else none) = some nodes.length ∧
      Node.ValidAll nodes ∧ bs = header ++ (Node.bytesAll nodes ++ s'.rest) ∧
      nodes.length ≤ limits.maxContainerItems ∧
      Node.ContainersWithinAll limits.maxContainerItems nodes ∧
      Node.DataWithinAll limits.maxScalarBytes nodes ∧ Node.depthAll nodes ≤ levels ∧
      s'.values = values + 1 + Node.valuesAll nodes ∧ s'.values ≤ limits.maxTotalValues := by
  refine exists_congr fun header => ?_
  refine ⟨?_, ?_⟩
  · intro ⟨rest, hl, hb, h⟩
    obtain ⟨hle, nodes, hn, hv, hr, hc⟩ := (container_node hscan hs).mp h
    refine ⟨nodes, ?_, hv, hr ▸ hb, hn ▸ hle, hc⟩
    rw [if_pos hl, hn]
  · intro ⟨nodes, hn, hv, hb, hle, hc⟩
    split at hn
    · next hl =>
      have hn := Option.some.inj hn
      exact ⟨_, hl, hb, (container_node hscan hs).mpr ⟨hn ▸ hle, nodes, hn.symm, hv, rfl, hc⟩⟩
    · cases hn

end

/-- A length the marker has needs no header. -/
theorem no_header {P : Bytes → Prop} :
    P bs ↔ ∃ (header rest : Bytes), header.length = 0 ∧ bs = header ++ rest ∧ P rest := by
  refine ⟨?_, ?_⟩
  · intro h
    exact ⟨[], bs, rfl, rfl, h⟩
  · intro ⟨header, rest, hl, hb, h⟩
    obtain rfl := length_eq_zero_iff.mp hl
    exact hb ▸ h

/-- One case for each form: the arm reads the one kind of node its form has. -/
theorem runArm_node {scan : Scanner → Except CodecError Scanner} (hscan : Exact limits levels scan)
    (hs : values + 1 ≤ limits.maxTotalValues) :
    runArm limits scan ⟨bs, values + 1⟩ (armOf (form marker)) = .ok s' ↔
      ∃ node, Passes limits (levels + 1) ⟨marker :: bs, values⟩ s' node := by
  rw [Node.exists_iff, exists_fixed, exists_data, exists_container]
  generalize form marker = f
  cases f with
  | posFixint n | negFixint n | nil | boolean b =>
    simp only [Form.fixedWidth, Form.dataLength, Form.itemCount, reduceCtorEq, false_and,
      exists_false, or_false, Option.some.injEq]
    exact skip_fixed (w := 0) hs
  | reserved => simp [armOf, runArm, Form.fixedWidth, Form.dataLength, Form.itemCount]
  | uint w | int w | float w | fixext n =>
    simp only [Form.fixedWidth, Form.dataLength, Form.itemCount, reduceCtorEq, false_and,
      exists_false, or_false, Option.some.injEq]
    exact skip_fixed hs
  | fixstr n =>
    simp only [Form.fixedWidth, Form.itemCount, reduceCtorEq, false_and, exists_false, or_false,
      false_or]
    exact (no_header (P := fun rest => scalar limits ⟨rest, values + 1⟩ n = .ok s')).trans
      (scalar_data hs fun _ => n)
  | str w | bin w | ext w =>
    simp only [Form.fixedWidth, Form.itemCount, reduceCtorEq, false_and, exists_false, or_false,
      false_or]
    exact header_node.trans (scalar_data hs _)
  | fixarray n | fixmap n =>
    simp only [Form.fixedWidth, Form.dataLength, reduceCtorEq, false_and, exists_false, false_or]
    exact (no_header (P := fun rest => container limits scan ⟨rest, values + 1⟩ _ = .ok s')).trans
      (container_items hs hscan fun _ => _)
  | array w =>
    simp only [Form.fixedWidth, Form.dataLength, reduceCtorEq, false_and, exists_false, false_or]
    refine header_node.trans ((container_items hs hscan fun header => ofBe header * 1).trans ?_)
    simp only [Nat.mul_one, Form.itemCount]
  | map w =>
    simp only [Form.fixedWidth, Form.dataLength, reduceCtorEq, false_and, exists_false, false_or]
    exact header_node.trans (container_items hs hscan _)

/-- The scanner accepts exactly a value within the limits, whatever the limits are. -/
theorem value_exact (limits : ScanLimits) :
    ∀ levels, Exact limits levels (value limits levels) := by
  -- on the levels left: the items of a container have one level less
  intro levels
  induction levels with
  | zero =>
    intro s s'
    simp only [value, reduceCtorEq, false_iff, not_exists]
    intro node h
    exact Nat.not_lt_zero _ h.depth
  | succ levels ih =>
    intro s s'
    obtain ⟨rest, values⟩ := s
    simp only [value]
    by_cases hm : values + 1 > limits.maxTotalValues
    · rw [if_pos hm]
      simp only [reduceCtorEq, false_iff, not_exists]
      intro node h
      -- a node counts itself
      have hpos : 1 ≤ node.values := by cases node <;> simp [Node.values]
      have hc := h.counted
      have hv := h.values
      dsimp only at hc
      omega
    · rw [if_neg hm]
      cases rest with
      | nil =>
        simp only [reduceCtorEq, false_iff, not_exists]
        intro node h
        have hb := h.bytes
        cases node <;> cases hb
      | cons marker bs =>
        simp only [arm_eq]
        exact runArm_node ih (Nat.not_lt.mp hm)

end Scanner

/-- The bytes of a slice; Rust allocates no more than `isize::MAX`. -/
structure Slice where
  bytes : Bytes
  length_le : bytes.length ≤ Ints.i64Max.toNat

/-- The node is a complete encoding of exactly these bytes, within the limits. `Scalars` says
which scalars the scalar limit is held against. -/
structure Encodes (limits : ScanLimits) (Scalars : Nat → Node → Prop) (bytes : Bytes) (node : Node) :
    Prop where
  valid : node.Valid
  bytes : node.bytes = bytes
  containers : node.ContainersWithin limits.maxContainerItems
  scalars : Scalars limits.maxScalarBytes node
  values : node.values ≤ limits.maxTotalValues
  depth : node.depth ≤ limits.maxNestingDepth

theorem validateMsgpackWithLimits_ok {bytes : Bytes} {maxBytes : Nat} {limits : ScanLimits} :
    validateMsgpackWithLimits bytes maxBytes limits = .ok () ↔
      bytes.length ≤ maxBytes ∧ ∃ node, Encodes limits (fun n => Node.DataWithin n) bytes node := by
  have hscan := Scanner.value_exact limits (limits.maxNestingDepth + 1) ⟨bytes, 0⟩
  unfold validateMsgpackWithLimits
  refine ⟨?_, ?_⟩
  · intro h
    by_cases hsize : bytes.length > maxBytes
    · rw [if_pos hsize] at h
      cases h
    · rw [if_neg hsize] at h
      refine ⟨Nat.not_lt.mp hsize, ?_⟩
      split at h
      · cases h
      · next s hs =>
        split at h
        · next hnil =>
          obtain ⟨node, hn⟩ := (hscan s).mp hs
          have hbytes := hn.bytes
          have hcount := hn.counted
          rw [hnil, append_nil] at hbytes
          rw [Nat.zero_add] at hcount
          exact ⟨node, hn.valid, hbytes.symm, hn.containers, hn.data, hcount ▸ hn.values,
            Nat.le_of_lt_succ hn.depth⟩
        · cases h
  · intro ⟨hsize, node, hn⟩
    have hs := (hscan ⟨[], node.values⟩).mpr ⟨node, hn.valid, by rw [hn.bytes, append_nil],
      hn.containers, hn.scalars, Nat.lt_succ_of_le hn.depth, (Nat.zero_add _).symm, hn.values⟩
    rw [if_neg (Nat.not_lt.mpr hsize), hs]
    rfl

/-- The scan ends on every slice, no operation on lengths, offsets, counts or depths leaves its
range, and it accepts exactly one complete value within the limits. The scalar limit is held
against data of a declared length; from 17 bytes on that is every scalar. -/
theorem scanner_exact (slice : Slice) (maxBytes : Nat) (limits : ScanLimits) :
    ∃ outcome : Except CodecError Unit,
      (∀ fuel, slice.bytes.length < fuel →
        MsgpackScanner.validate .decode limits arm fuel slice.bytes maxBytes =
          outcome.mapError .failed) ∧
      (outcome = .ok () ↔ slice.bytes.length ≤ maxBytes ∧
        ∃ node, Encodes limits (fun n => Node.DataWithin n) slice.bytes node) ∧
      (17 ≤ limits.maxScalarBytes → (outcome = .ok () ↔ slice.bytes.length ≤ maxBytes ∧
        ∃ node, Encodes limits (fun n => Node.ScalarsWithin n) slice.bytes node)) := by
  refine ⟨validateMsgpackWithLimits slice.bytes maxBytes limits, ?_, validateMsgpackWithLimits_ok, ?_⟩
  · intro fuel hfuel
    have hrun := MsgpackScanner.validate_refines CodecError.decode limits slice.length_le
      (fun _ => rfl) hfuel maxBytes
    have hsame := hrun.mapError_eq (f := id) (g := Stop.failed) fun _ => rfl
    rw [← hsame]
    cases MsgpackScanner.validate CodecError.decode limits arm fuel slice.bytes maxBytes <;> rfl
  · intro hscalar
    rw [validateMsgpackWithLimits_ok]
    refine and_congr_right fun _ => exists_congr fun node => ?_
    refine ⟨?_, ?_⟩
    · intro ⟨hv, hb, hc, hd, hn, hdep⟩
      exact ⟨hv, hb, hc, (Node.scalarsWithin_iff hscalar node hv).mpr hd, hn, hdep⟩
    · intro ⟨hv, hb, hc, hd, hn, hdep⟩
      exact ⟨hv, hb, hc, (Node.scalarsWithin_iff hscalar node hv).mp hd, hn, hdep⟩

/-- Under a scalar limit of one byte, an extension of one byte and its type is accepted when
the marker has its length, though it has two bytes, and refused when a header has it. -/
theorem fixext_passes_scalar_limit :
    MsgpackScanner.validate CodecError.decode ⟨1, 4, 4, 4⟩ arm 4 [0xd4, 0, 0] 4 = .ok () ∧
    (¬ ∃ node, Encodes ⟨1, 4, 4, 4⟩ (fun n => Node.ScalarsWithin n) [0xd4, 0, 0] node) ∧
    MsgpackScanner.validate CodecError.decode ⟨1, 4, 4, 4⟩ arm 5 [0xc7, 1, 0, 0] 4 =
      .error (.failed (CodecError.decode "MessagePack scalar limit exceeded")) := by
  refine ⟨by decide +kernel, ?_, by decide +kernel⟩
  intro ⟨node, hn⟩
  have hbytes := hn.bytes
  have hvalid := hn.valid
  cases node with
  | fixed marker operand =>
    obtain ⟨rfl, rfl⟩ := cons.inj hbytes
    exact absurd (show 2 ≤ 1 from hn.scalars) (by decide)
  | data marker header payload =>
    obtain ⟨rfl, _⟩ := cons.inj hbytes
    cases hvalid
  | container marker header items =>
    obtain ⟨rfl, _⟩ := cons.inj hbytes
    cases hvalid.1

end Omen.Server
