import OmenBrowser.Lib.Wire

/- The MessagePack format: values, the shortest-form writer, and the reader.

   A marker byte names a `Form`; `parse` reads the form's operands and, for a
   container, its items. `write` picks for every value the shortest form that can
   hold it. A map's keys and values are kept as one list, alternating, as they
   stand on the wire. The fuel of `parse` bounds the nesting depth.

   `parse_write` is the round trip: a value whose integers and lengths fit the
   format reads back as itself, whatever follows it. `Value.nodes`, `Value.depth`
   and `Value.Within` are the measures a reader with resource limits checks. -/
namespace Msgpack
open Wire List Option

variable {w len : Nat} {marker : UInt8}

inductive Value where
  | nil
  | boolean (b : Bool)
  | integer (n : Int)
  | float (bits : Bytes)
  | string (bytes : Bytes)
  | binary (bytes : Bytes)
  | array (items : List Value)
  | map (items : List Value)
  | ext (tag : UInt8) (bytes : Bytes)

/-- What a marker byte announces. A width is the number of bytes of the length or
number that follows the marker. -/
inductive Form where
  | posFixint (n : Nat)
  | negFixint (n : Int)
  | nil
  | reserved
  | boolean (b : Bool)
  | uint (width : Nat)
  | int (width : Nat)
  | float (width : Nat)
  | fixstr (len : Nat)
  | str (width : Nat)
  | bin (width : Nat)
  | fixext (len : Nat)
  | ext (width : Nat)
  | fixarray (len : Nat)
  | array (width : Nat)
  | fixmap (len : Nat)
  | map (width : Nat)
  deriving DecidableEq, Repr

/-- The form a marker byte names. -/
def form (marker : UInt8) : Form :=
  match marker.toNat with
  | 0xc0 => .nil
  | 0xc1 => .reserved
  | 0xc2 => .boolean false
  | 0xc3 => .boolean true
  | 0xc4 => .bin 1
  | 0xc5 => .bin 2
  | 0xc6 => .bin 4
  | 0xc7 => .ext 1
  | 0xc8 => .ext 2
  | 0xc9 => .ext 4
  | 0xca => .float 4
  | 0xcb => .float 8
  | 0xcc => .uint 1
  | 0xcd => .uint 2
  | 0xce => .uint 4
  | 0xcf => .uint 8
  | 0xd0 => .int 1
  | 0xd1 => .int 2
  | 0xd2 => .int 4
  | 0xd3 => .int 8
  | 0xd4 => .fixext 1
  | 0xd5 => .fixext 2
  | 0xd6 => .fixext 4
  | 0xd7 => .fixext 8
  | 0xd8 => .fixext 16
  | 0xd9 => .str 1
  | 0xda => .str 2
  | 0xdb => .str 4
  | 0xdc => .array 2
  | 0xdd => .array 4
  | 0xde => .map 2
  | 0xdf => .map 4
  | n =>
    if n < 0x80 then .posFixint n
    else if n < 0x90 then .fixmap (n - 0x80)
    else if n < 0xa0 then .fixarray (n - 0x90)
    else if n < 0xc0 then .fixstr (n - 0xa0)
    else .negFixint (n - 256)

/-! The reader. -/

/-- A big-endian unsigned number of `w` bytes. -/
def readUint (w : Nat) (bs : Bytes) : Option (Nat × Bytes) :=
  (take? w bs).map (fun p => (ofBe p.1, p.2))

/-- The two's complement value of an unsigned number of `w` bytes. -/
def signed (w n : Nat) : Int := if 2 * n < 256 ^ w then n else (n : Int) - 256 ^ w

/-- `n` items in a row. -/
def parseN (p : Bytes → Option (Value × Bytes)) : Nat → Bytes → Option (List Value × Bytes)
  | 0, bs => some ([], bs)
  | n + 1, bs =>
    match p bs with
    | none => none
    | some (v, bs') => (parseN p n bs').map (fun q => (v :: q.1, q.2))

/-- The operands of a form; `p` reads one item of a container. -/
def readForm (p : Bytes → Option (Value × Bytes)) (bs : Bytes) : Form → Option (Value × Bytes)
  | .posFixint n => some (.integer n, bs)
  | .negFixint n => some (.integer n, bs)
  | .nil => some (.nil, bs)
  | .reserved => none
  | .boolean b => some (.boolean b, bs)
  | .uint w => (readUint w bs).map (fun q => (.integer q.1, q.2))
  | .int w => (readUint w bs).map (fun q => (.integer (signed w q.1), q.2))
  | .float w => (take? w bs).map (fun q => (.float q.1, q.2))
  | .fixstr n => (take? n bs).map (fun q => (.string q.1, q.2))
  | .str w => (readUint w bs).bind (fun l => (take? l.1 l.2).map (fun q => (.string q.1, q.2)))
  | .bin w => (readUint w bs).bind (fun l => (take? l.1 l.2).map (fun q => (.binary q.1, q.2)))
  | .fixext n => (take? 1 bs).bind (fun t =>
      (take? n t.2).map (fun q => (.ext (t.1.headD 0) q.1, q.2)))
  | .ext w => (readUint w bs).bind (fun l => (take? 1 l.2).bind (fun t =>
      (take? l.1 t.2).map (fun q => (.ext (t.1.headD 0) q.1, q.2))))
  | .fixarray n => (parseN p n bs).map (fun q => (.array q.1, q.2))
  | .array w => (readUint w bs).bind (fun l => (parseN p l.1 l.2).map (fun q => (.array q.1, q.2)))
  | .fixmap n => (parseN p (2 * n) bs).map (fun q => (.map q.1, q.2))
  | .map w => (readUint w bs).bind (fun l =>
      (parseN p (2 * l.1) l.2).map (fun q => (.map q.1, q.2)))

/-- Read one value, nested at most `fuel` deep. -/
def parse : Nat → Bytes → Option (Value × Bytes)
  | 0, _ => none
  | _ + 1, [] => none
  | fuel + 1, marker :: bs => readForm (parse fuel) bs (form marker)

/-! The writer. -/

/-- Shortest-form integer. -/
def writeInt (n : Int) : Bytes :=
  if 0 ≤ n then
    if n < 0x80 then [UInt8.ofNat n.toNat]
    else if n < 0x100 then 0xcc :: be 1 n.toNat
    else if n < 0x10000 then 0xcd :: be 2 n.toNat
    else if n < 0x100000000 then 0xce :: be 4 n.toNat
    else 0xcf :: be 8 n.toNat
  else
    if -0x20 ≤ n then [UInt8.ofNat (n + 0x100).toNat]
    else if -0x80 ≤ n then 0xd0 :: be 1 (n + 0x100).toNat
    else if -0x8000 ≤ n then 0xd1 :: be 2 (n + 0x10000).toNat
    else if -0x80000000 ≤ n then 0xd2 :: be 4 (n + 0x100000000).toNat
    else 0xd3 :: be 8 (n + 0x10000000000000000).toNat

def strHeader (len : Nat) : Bytes :=
  if len < 0x20 then [UInt8.ofNat (0xa0 + len)]
  else if len < 0x100 then 0xd9 :: be 1 len
  else if len < 0x10000 then 0xda :: be 2 len
  else 0xdb :: be 4 len

def binHeader (len : Nat) : Bytes :=
  if len < 0x100 then 0xc4 :: be 1 len
  else if len < 0x10000 then 0xc5 :: be 2 len
  else 0xc6 :: be 4 len

def arrayHeader (len : Nat) : Bytes :=
  if len < 0x10 then [UInt8.ofNat (0x90 + len)]
  else if len < 0x10000 then 0xdc :: be 2 len
  else 0xdd :: be 4 len

def mapHeader (len : Nat) : Bytes :=
  if len < 0x10 then [UInt8.ofNat (0x80 + len)]
  else if len < 0x10000 then 0xde :: be 2 len
  else 0xdf :: be 4 len

def extHeader (len : Nat) : Bytes :=
  if len = 1 then [0xd4]
  else if len = 2 then [0xd5]
  else if len = 4 then [0xd6]
  else if len = 8 then [0xd7]
  else if len = 16 then [0xd8]
  else if len < 0x100 then 0xc7 :: be 1 len
  else if len < 0x10000 then 0xc8 :: be 2 len
  else 0xc9 :: be 4 len

mutual
/-- Shortest-form MessagePack. -/
def write : Value → Bytes
  | .nil => [0xc0]
  | .boolean false => [0xc2]
  | .boolean true => [0xc3]
  | .integer n => writeInt n
  | .float bits => (if bits.length = 4 then 0xca else 0xcb) :: bits
  | .string b => strHeader b.length ++ b
  | .binary b => binHeader b.length ++ b
  | .array vs => arrayHeader vs.length ++ writeAll vs
  | .map vs => mapHeader (vs.length / 2) ++ writeAll vs
  | .ext t b => extHeader b.length ++ t :: b
def writeAll : List Value → Bytes
  | [] => []
  | v :: vs => write v ++ writeAll vs
end

/-! Measures. -/

mutual
/-- The number of values, a container's items included. -/
def Value.nodes : Value → Nat
  | .array vs => 1 + nodesAll vs
  | .map vs => 1 + nodesAll vs
  | _ => 1
def nodesAll : List Value → Nat
  | [] => 0
  | v :: vs => v.nodes + nodesAll vs
end

mutual
/-- How deep containers nest. -/
def Value.depth : Value → Nat
  | .array vs => depthAll vs
  | .map vs => depthAll vs
  | _ => 0
/-- One more than the deepest item; `0` for no items. -/
def depthAll : List Value → Nat
  | [] => 0
  | v :: vs => max (v.depth + 1) (depthAll vs)
end

mutual
/-- Every container has at most `items` items, every scalar at most `scalar` bytes. An
extension counts its type byte. -/
def Value.Within (items scalar : Nat) : Value → Prop
  | .string b => b.length ≤ scalar
  | .binary b => b.length ≤ scalar
  | .ext _ b => b.length + 1 ≤ scalar
  | .array vs => vs.length ≤ items ∧ WithinAll items scalar vs
  | .map vs => vs.length ≤ items ∧ WithinAll items scalar vs
  | _ => True
def WithinAll (items scalar : Nat) : List Value → Prop
  | [] => True
  | v :: vs => v.Within items scalar ∧ WithinAll items scalar vs
end

mutual
/-- The format can hold the value: its integers have 64 bits, its lengths 32. -/
def Value.Fits : Value → Prop
  | .nil => True
  | .boolean _ => True
  | .integer n => -0x8000000000000000 ≤ n ∧ n < 0x10000000000000000
  | .float bits => bits.length = 4 ∨ bits.length = 8
  | .string b => b.length < 0x100000000
  | .binary b => b.length < 0x100000000
  | .ext _ b => b.length < 0x100000000
  | .array vs => vs.length < 0x100000000 ∧ FitsAll vs
  | .map vs => vs.length % 2 = 0 ∧ vs.length / 2 < 0x100000000 ∧ FitsAll vs
def FitsAll : List Value → Prop
  | [] => True
  | v :: vs => v.Fits ∧ FitsAll vs
end

mutual
/-- The bytes a value must take at least: one a value, and every payload byte. -/
def Value.payload : Value → Nat
  | .string b => 1 + b.length
  | .binary b => 1 + b.length
  | .ext _ b => 1 + b.length
  | .array vs => 1 + payloadAll vs
  | .map vs => 1 + payloadAll vs
  | _ => 1
def payloadAll : List Value → Nat
  | [] => 0
  | v :: vs => v.payload + payloadAll vs
end

/-! The round trip. -/

theorem form_posFixint : ∀ n < 0x80, form (UInt8.ofNat n) = .posFixint n := by decide

theorem form_negFixint : ∀ n < 0x20, form (UInt8.ofNat (0xe0 + n)) = .negFixint (n - 0x20) := by
  decide

theorem form_fixstr : ∀ n < 0x20, form (UInt8.ofNat (0xa0 + n)) = .fixstr n := by decide

theorem form_fixarray : ∀ n < 0x10, form (UInt8.ofNat (0x90 + n)) = .fixarray n := by decide

theorem form_fixmap : ∀ n < 0x10, form (UInt8.ofNat (0x80 + n)) = .fixmap n := by decide

theorem readUint_be {n : Nat} (h : n < 256 ^ w) (r : Bytes) :
    readUint w (be w n ++ r) = some (n, r) := by
  simp [readUint, take?_be, ofBe_be_of_lt h]

theorem signed_neg {n : Int} (hl : -(256 ^ w : Int) ≤ 2 * n) :
    signed w (n + 256 ^ w).toNat = n := by
  have hpos : (0 : Int) < 256 ^ w := Int.pow_pos (by decide)
  have hcast : ((n + 256 ^ w).toNat : Int) = n + 256 ^ w := Int.toNat_of_nonneg (by omega)
  have hge : ¬ 2 * (n + 256 ^ w).toNat < 256 ^ w := by
    intro hlt
    have : (2 * ((n + 256 ^ w).toNat : Int)) < 256 ^ w := by exact_mod_cast hlt
    omega
  rw [signed, if_neg hge, hcast]
  omega

theorem parse_marker {fuel : Nat} {bs : Bytes} {f : Form} (h : form marker = f) :
    parse (fuel + 1) (marker :: bs) = readForm (parse fuel) bs f := by
  rw [← h]; rfl

variable (fuel : Nat)

/-- An unsigned number in a form with a `w`-byte operand. -/
theorem parse_uint {n : Nat} (hm : form marker = .uint w) (h : n < 256 ^ w) (r : Bytes) :
    parse (fuel + 1) (marker :: be w n ++ r) = some (.integer n, r) := by
  rw [cons_append, parse_marker hm]
  simp only [readForm, readUint_be h, map_some]

/-- A negative number in a form with a `w`-byte operand. -/
theorem parse_int {n : Int} (hm : form marker = .int w) (hl : -(256 ^ w : Int) ≤ 2 * n) (hn : n < 0)
    (r : Bytes) :
    parse (fuel + 1) (marker :: be w (n + 256 ^ w).toNat ++ r) = some (.integer n, r) := by
  have hlt : (n + 256 ^ w).toNat < 256 ^ w := by
    have : ((n + 256 ^ w).toNat : Int) < 256 ^ w := by
      rw [Int.toNat_of_nonneg (by omega)]; omega
    exact_mod_cast this
  rw [cons_append, parse_marker hm]
  simp only [readForm, readUint_be hlt, map_some, signed_neg hl]

theorem parse_writeInt {n : Int} (h : (Value.integer n).Fits) (r : Bytes) :
    parse (fuel + 1) (writeInt n ++ r) = some (.integer n, r) := by
  obtain ⟨hlo, hhi⟩ := h
  unfold writeInt
  -- one case for each width the writer may have chosen
  split
  · next hn =>
    obtain ⟨m, rfl⟩ := Int.eq_ofNat_of_zero_le hn
    simp only [Int.toNat_natCast] at *
    split
    · rw [singleton_append, parse_marker (form_posFixint m (by omega))]
      rfl
    · split
      · exact parse_uint fuel (w := 1) rfl (by omega) r
      · split
        · exact parse_uint fuel (w := 2) rfl (by omega) r
        · split
          · exact parse_uint fuel (w := 4) rfl (by omega) r
          · exact parse_uint fuel (w := 8) rfl (by omega) r
  · next hn =>
    split
    · have hk : (n + 0x100).toNat = 0xe0 + (n + 0x20).toNat := by omega
      rw [singleton_append, hk, parse_marker (form_negFixint (n + 0x20).toNat (by omega)),
        Int.toNat_of_nonneg (by omega)]
      simp only [readForm, Int.add_sub_cancel]
    · split
      · exact parse_int fuel (w := 1) rfl (by omega) (by omega) r
      · split
        · exact parse_int fuel (w := 2) rfl (by omega) (by omega) r
        · split
          · exact parse_int fuel (w := 4) rfl (by omega) (by omega) r
          · exact parse_int fuel (w := 8) rfl (by omega) (by omega) r

/-- A form with a `w`-byte length: what is read behind the length depends on the form alone. -/
theorem parse_length {f : Form} (g : Nat → Bytes → Option (Value × Bytes)) (hm : form marker = f)
    (hg : ∀ bs, readForm (parse fuel) bs f = (readUint w bs).bind fun l => g l.1 l.2)
    (h : len < 256 ^ w) (r : Bytes) : parse (fuel + 1) (marker :: be w len ++ r) = g len r := by
  rw [cons_append, parse_marker hm, hg, readUint_be h, bind_some]

section Headers
variable (h : len < 0x100000000)
include h

theorem parse_strHeader (r : Bytes) :
    parse (fuel + 1) (strHeader len ++ r) = (take? len r).map (fun q => (.string q.1, q.2)) := by
  have wide {marker : UInt8} {w : Nat} (hm : form marker = .str w) (hlt : len < 256 ^ w) :=
    parse_length fuel (fun len r => (take? len r).map fun q => (.string q.1, q.2)) hm
      (fun _ => rfl) hlt r
  unfold strHeader
  split
  · next hl => rw [singleton_append, parse_marker (form_fixstr len hl)]; rfl
  · split
    · exact wide (w := 1) rfl (by omega)
    · split
      · exact wide (w := 2) rfl (by omega)
      · exact wide (w := 4) rfl (by omega)

theorem parse_binHeader (r : Bytes) :
    parse (fuel + 1) (binHeader len ++ r) = (take? len r).map (fun q => (.binary q.1, q.2)) := by
  have wide {marker : UInt8} {w : Nat} (hm : form marker = .bin w) (hlt : len < 256 ^ w) :=
    parse_length fuel (fun len r => (take? len r).map fun q => (.binary q.1, q.2)) hm
      (fun _ => rfl) hlt r
  unfold binHeader
  split
  · exact wide (w := 1) rfl (by omega)
  · split
    · exact wide (w := 2) rfl (by omega)
    · exact wide (w := 4) rfl (by omega)

theorem parse_arrayHeader (r : Bytes) :
    parse (fuel + 1) (arrayHeader len ++ r) =
      (parseN (parse fuel) len r).map (fun q => (.array q.1, q.2)) := by
  have wide {marker : UInt8} {w : Nat} (hm : form marker = .array w) (hlt : len < 256 ^ w) :=
    parse_length fuel (fun len r => (parseN (parse fuel) len r).map fun q => (.array q.1, q.2)) hm
      (fun _ => rfl) hlt r
  unfold arrayHeader
  split
  · next hl => rw [singleton_append, parse_marker (form_fixarray len hl)]; rfl
  · split
    · exact wide (w := 2) rfl (by omega)
    · exact wide (w := 4) rfl (by omega)

theorem parse_mapHeader (r : Bytes) :
    parse (fuel + 1) (mapHeader len ++ r) =
      (parseN (parse fuel) (2 * len) r).map (fun q => (.map q.1, q.2)) := by
  have wide {marker : UInt8} {w : Nat} (hm : form marker = .map w) (hlt : len < 256 ^ w) :=
    parse_length fuel (fun len r => (parseN (parse fuel) (2 * len) r).map fun q => (.map q.1, q.2)) hm
      (fun _ => rfl) hlt r
  unfold mapHeader
  split
  · next hl => rw [singleton_append, parse_marker (form_fixmap len hl)]; rfl
  · split
    · exact wide (w := 2) rfl (by omega)
    · exact wide (w := 4) rfl (by omega)

end Headers

theorem parse_ext (t : UInt8) {b : Bytes} (h : b.length < 0x100000000) (r : Bytes) :
    parse (fuel + 1) (extHeader b.length ++ t :: (b ++ r)) = some (.ext t b, r) := by
  have htag : take? 1 (t :: (b ++ r)) = some ([t], b ++ r) := take?_some.mpr ⟨rfl, rfl⟩
  have hbody : (take? 1 (t :: (b ++ r))).bind (fun q =>
      (take? b.length q.2).map fun l => (Value.ext (q.1.headD 0) l.1, l.2)) = some (.ext t b, r) := by
    rw [htag, bind_some, take?_append, map_some, headD_cons]
  -- a length with a marker of its own, and one that is written behind the marker
  have fixed : ∀ {marker : UInt8}, form marker = .fixext b.length →
      parse (fuel + 1) ([marker] ++ t :: (b ++ r)) = some (.ext t b, r) := by
    intro marker hm
    rw [singleton_append, parse_marker hm]
    exact hbody
  have wide : ∀ {marker : UInt8} {w : Nat}, form marker = .ext w → b.length < 256 ^ w →
      parse (fuel + 1) (marker :: be w b.length ++ t :: (b ++ r)) = some (.ext t b, r) :=
    fun hm hlt => (parse_length fuel (fun len bs => (take? 1 bs).bind fun q =>
      (take? len q.2).map fun l => (.ext (q.1.headD 0) l.1, l.2)) hm (fun _ => rfl) hlt _).trans hbody
  unfold extHeader
  split
  · next hl => exact fixed (by rw [hl]; rfl)
  · split
    · next hl => exact fixed (by rw [hl]; rfl)
    · split
      · next hl => exact fixed (by rw [hl]; rfl)
      · split
        · next hl => exact fixed (by rw [hl]; rfl)
        · split
          · next hl => exact fixed (by rw [hl]; rfl)
          · split
            · exact wide (w := 1) rfl (by omega)
            · split
              · exact wide (w := 2) rfl (by omega)
              · exact wide (w := 4) rfl (by omega)

mutual
/-- A value the format can hold reads back as itself, whatever follows it. -/
theorem parse_write (v : Value) (fuel : Nat) (r : Bytes) (hf : v.Fits) (hd : v.depth < fuel) :
    parse fuel (write v ++ r) = some (v, r) := by
  obtain ⟨fuel, rfl⟩ : ∃ f, fuel = f + 1 := ⟨fuel - 1, by omega⟩
  cases v with
  | nil => rfl
  | boolean b => cases b <;> rfl
  | integer n => exact parse_writeInt fuel hf r
  | float bits =>
    rw [write, cons_append]
    rcases hf with hl | hl
    · rw [if_pos hl, parse_marker (show form 0xca = .float 4 from rfl)]
      simp only [readForm, ← hl, take?_append, map_some]
    · rw [if_neg (by omega), parse_marker (show form 0xcb = .float 8 from rfl)]
      simp only [readForm, ← hl, take?_append, map_some]
  | string b =>
    rw [write, append_assoc, parse_strHeader fuel hf, take?_append, map_some]
  | binary b =>
    rw [write, append_assoc, parse_binHeader fuel hf, take?_append, map_some]
  | ext t b =>
    rw [write, append_assoc, cons_append]
    exact parse_ext fuel t hf r
  | array vs =>
    rw [write, append_assoc, parse_arrayHeader fuel hf.1,
      parseN_writeAll vs fuel r hf.2 (by simp only [Value.depth] at hd; omega), map_some]
  | map vs =>
    -- keys and values alternate, so a map of `n` entries is read as `2 * n` values
    have heven : 2 * (vs.length / 2) = vs.length := by have := hf.1; omega
    rw [write, append_assoc, parse_mapHeader fuel hf.2.1, heven,
      parseN_writeAll vs fuel r hf.2.2 (by simp only [Value.depth] at hd; omega), map_some]
theorem parseN_writeAll (vs : List Value) (fuel : Nat) (r : Bytes) (hf : FitsAll vs)
    (hd : depthAll vs ≤ fuel) :
    parseN (parse fuel) vs.length (writeAll vs ++ r) = some (vs, r) := by
  cases vs with
  | nil => rfl
  | cons v vs =>
    simp only [depthAll] at hd
    rw [writeAll, append_assoc, length_cons, parseN,
      parse_write v fuel _ hf.1 (by omega)]
    simp only [parseN_writeAll vs fuel r hf.2 (by omega), map_some]
end

end Msgpack
