import OmenBrowser.Lib.Msgpack

/- MessagePack as it stands on the wire: one node for each encoded value.

   `Value` forgets how a value was written; a `Node` keeps the marker and the bytes
   of the declared length, so that its bytes are the encoding itself, short or not.
   Three kinds of node cover every marker: an operand whose width the marker fixes,
   data whose length is declared, and a container whose number of items is declared.
   A map's items are its keys and values, alternating. -/
namespace Msgpack
open Wire

inductive Node where
  | fixed (marker : UInt8) (operand : Bytes)
  /-- `header` holds the declared length, and is empty when the marker has it. -/
  | data (marker : UInt8) (header payload : Bytes)
  | container (marker : UInt8) (header : Bytes) (items : List Node)

/-- The operand's width, of a form whose marker fixes it. A fixed-width extension has its
type byte in front of the data. -/
def Form.fixedWidth : Form → Option Nat
  | .posFixint _ | .negFixint _ | .nil | .boolean _ => some 0
  | .uint w | .int w | .float w => some w
  | .fixext n => some (n + 1)
  | _ => none

/-- The number of bytes of data a header declares. An extension's type byte is not in the
declared length. -/
def Form.dataLength (header : Bytes) : Form → Option Nat
  | .fixstr n => if header.length = 0 then some n else none
  | .str w | .bin w => if header.length = w then some (ofBe header) else none
  | .ext w => if header.length = w then some (ofBe header + 1) else none
  | _ => none

/-- The number of items a header declares; an entry of a map is two. -/
def Form.itemCount (header : Bytes) : Form → Option Nat
  | .fixarray n => if header.length = 0 then some n else none
  | .array w => if header.length = w then some (ofBe header) else none
  | .fixmap n => if header.length = 0 then some (n * 2) else none
  | .map w => if header.length = w then some (ofBe header * 2) else none
  | _ => none

mutual
def Node.bytes : Node → Bytes
  | .fixed marker operand => marker :: operand
  | .data marker header payload => marker :: (header ++ payload)
  | .container marker header items => marker :: (header ++ Node.bytesAll items)
def Node.bytesAll : List Node → Bytes
  | [] => []
  | n :: ns => n.bytes ++ Node.bytesAll ns
end

mutual
/-- The node is complete: everything its marker and header announce is there. -/
def Node.Valid : Node → Prop
  | .fixed marker operand => (form marker).fixedWidth = some operand.length
  | .data marker header payload => (form marker).dataLength header = some payload.length
  | .container marker header items =>
    (form marker).itemCount header = some items.length ∧ Node.ValidAll items
def Node.ValidAll : List Node → Prop
  | [] => True
  | n :: ns => n.Valid ∧ Node.ValidAll ns
end

mutual
/-- The number of values, a container's items included. -/
def Node.values : Node → Nat
  | .container _ _ items => 1 + Node.valuesAll items
  | _ => 1
def Node.valuesAll : List Node → Nat
  | [] => 0
  | n :: ns => n.values + Node.valuesAll ns
end

mutual
/-- How deep containers nest. -/
def Node.depth : Node → Nat
  | .container _ _ items => Node.depthAll items
  | _ => 0
def Node.depthAll : List Node → Nat
  | [] => 0
  | n :: ns => max (n.depth + 1) (Node.depthAll ns)
end

mutual
/-- Every container has at most `limit` items. -/
def Node.ContainersWithin (limit : Nat) : Node → Prop
  | .container _ _ items => items.length ≤ limit ∧ Node.ContainersWithinAll limit items
  | _ => True
def Node.ContainersWithinAll (limit : Nat) : List Node → Prop
  | [] => True
  | n :: ns => n.ContainersWithin limit ∧ Node.ContainersWithinAll limit ns
end

mutual
/-- Data of a declared length has at most `limit` bytes. -/
def Node.DataWithin (limit : Nat) : Node → Prop
  | .fixed _ _ => True
  | .data _ _ payload => payload.length ≤ limit
  | .container _ _ items => Node.DataWithinAll limit items
def Node.DataWithinAll (limit : Nat) : List Node → Prop
  | [] => True
  | n :: ns => n.DataWithin limit ∧ Node.DataWithinAll limit ns
end

mutual
/-- Every scalar has at most `limit` bytes, those of a fixed width too. -/
def Node.ScalarsWithin (limit : Nat) : Node → Prop
  | .fixed _ operand => operand.length ≤ limit
  | .data _ _ payload => payload.length ≤ limit
  | .container _ _ items => Node.ScalarsWithinAll limit items
def Node.ScalarsWithinAll (limit : Nat) : List Node → Prop
  | [] => True
  | n :: ns => n.ScalarsWithin limit ∧ Node.ScalarsWithinAll limit ns
end

/-- A property of some node, by the kind of the node. -/
theorem Node.exists_iff {P : Node → Prop} : (∃ n, P n) ↔ (∃ marker operand, P (.fixed marker operand)) ∨
    (∃ marker header payload, P (.data marker header payload)) ∨
    ∃ marker header items, P (.container marker header items) := by
  refine ⟨?_, ?_⟩
  · intro ⟨n, h⟩
    cases n with
    | fixed marker operand => exact .inl ⟨marker, operand, h⟩
    | data marker header payload => exact .inr (.inl ⟨marker, header, payload, h⟩)
    | container marker header items => exact .inr (.inr ⟨marker, header, items, h⟩)
  · intro h
    obtain ⟨m, o, h⟩ | ⟨m, hd, p, h⟩ | ⟨m, hd, is, h⟩ := h
    · exact ⟨_, h⟩
    · exact ⟨_, h⟩
    · exact ⟨_, h⟩

/-- No operand of a fixed width is longer than a 16-byte extension with its type. -/
theorem fixedWidth_le (marker : UInt8) {n : Nat} (h : (form marker).fixedWidth = some n) : n ≤ 17 := by
  have hall : ∀ m < 256, ((form (UInt8.ofNat m)).fixedWidth.getD 0) ≤ 17 := by decide +kernel
  have := hall marker.toNat marker.toNat_lt
  rw [UInt8.ofNat_toNat, h] at this
  exact this

mutual
/-- From 17 bytes on, the limit on data is a limit on every scalar. -/
theorem Node.scalarsWithin_iff {limit : Nat} (h : 17 ≤ limit) :
    ∀ n : Node, n.Valid → (n.ScalarsWithin limit ↔ n.DataWithin limit)
  | .fixed marker operand, hv => by
    have := fixedWidth_le marker hv
    simp only [ScalarsWithin, DataWithin, iff_true]
    omega
  | .data _ _ _, _ => Iff.rfl
  | .container _ _ items, hv => Node.scalarsWithinAll_iff h items hv.2
theorem Node.scalarsWithinAll_iff {limit : Nat} (h : 17 ≤ limit) :
    ∀ ns : List Node, ValidAll ns → (ScalarsWithinAll limit ns ↔ DataWithinAll limit ns)
  | [], _ => Iff.rfl
  | n :: ns, hv =>
    and_congr (Node.scalarsWithin_iff h n hv.1) (Node.scalarsWithinAll_iff h ns hv.2)
end

end Msgpack
