import OmenBrowser.Lib.Msgpack

/- What the MessagePack reader accepts.

   `parse_reads` is the one case analysis over the forms: a value that was read fits
   the format, nests less deep than the fuel, and its shortest form is no longer than
   the bytes it was read from. `parse_mono` says that more fuel reads the same value,
   and `payload_le_write` bounds the shortest form from below. -/
namespace Msgpack
open Wire List Option

variable {r bs : Bytes} {w n len : Nat} {p q : Bytes → Option (Value × Bytes)}

/-! The markers. -/

/-- The operand widths and embedded lengths the format has. -/
def Form.Valid : Form → Prop
  | .posFixint n => n < 0x80
  | .negFixint n => -0x20 ≤ n ∧ n < 0
  | .uint w | .int w => w = 1 ∨ w = 2 ∨ w = 4 ∨ w = 8
  | .float w => w = 4 ∨ w = 8
  | .fixstr n => n < 0x20
  | .str w | .bin w | .ext w => w = 1 ∨ w = 2 ∨ w = 4
  | .fixext n => n = 1 ∨ n = 2 ∨ n = 4 ∨ n = 8 ∨ n = 16
  | .fixarray n | .fixmap n => n < 0x10
  | .array w | .map w => w = 2 ∨ w = 4
  | .nil | .reserved | .boolean _ => True

theorem form_valid (marker : UInt8) : (form marker).Valid := by
  have hlt : marker.toNat < 256 := marker.toNat_lt
  unfold form
  split
  case h_33 =>
    -- the markers that carry a length or a number themselves
    simp only [imp_false] at *
    split_ifs <;> simp only [Form.Valid] <;> omega
  all_goals simp [Form.Valid]

/-- What a reader that converts its result read. -/
theorem map_fst_some {α β : Type} {o : Option (α × Bytes)} {f : α → β} {b : β}
    (h : o.map (fun q => (f q.1, q.2)) = some (b, r)) : ∃ a, o = some (a, r) ∧ b = f a := by
  obtain ⟨⟨a, r'⟩, ho, he⟩ := map_eq_some_iff.mp h
  simp only [Prod.mk.injEq] at he
  exact ⟨a, by rw [ho, he.2], he.1.symm⟩

theorem readUint_some (h : readUint w bs = some (n, r)) :
    n < 256 ^ w ∧ bs.length = w + r.length := by
  obtain ⟨a, ht, rfl⟩ := map_fst_some h
  obtain ⟨rfl, rfl⟩ := take?_some.mp ht
  refine ⟨ofBe_lt a, ?_⟩
  rw [length_append]

/-! The shortest form is shortest. -/

theorem length_writeInt_unsigned (hw : w = 1 ∨ w = 2 ∨ w = 4 ∨ w = 8) (hn : n < 256 ^ w) :
    (writeInt n).length ≤ 1 + w := by
  rw [writeInt, if_pos (by omega)]
  split_ifs
  all_goals
    simp only [length_cons, length_nil, length_be]
    rcases hw with rfl | rfl | rfl | rfl <;> omega

theorem length_writeInt_le (n : Int) : (writeInt n).length ≤ 9 := by
  unfold writeInt
  split_ifs <;> simp

theorem length_binHeader_le (len : Nat) : (binHeader len).length ≤ 5 := by
  unfold binHeader
  split_ifs <;> simp

theorem length_writeInt_signed {n : Int} (hw : w = 1 ∨ w = 2 ∨ w = 4 ∨ w = 8)
    (hlo : -(256 ^ w : Int) ≤ 2 * n) (hhi : 2 * n < 256 ^ w) : (writeInt n).length ≤ 1 + w := by
  unfold writeInt
  split_ifs
  all_goals
    simp only [length_cons, length_nil, length_be]
    rcases hw with rfl | rfl | rfl | rfl <;> omega

theorem signed_range (h : n < 256 ^ w) :
    -(256 ^ w : Int) ≤ 2 * signed w n ∧ 2 * signed w n < 256 ^ w := by
  have hc : (n : Int) < 256 ^ w := by exact_mod_cast h
  unfold signed
  split
  · next hs =>
    have : (2 * n : Int) < 256 ^ w := by exact_mod_cast hs
    omega
  · next hs =>
    have : (256 ^ w : Int) ≤ 2 * n := by exact_mod_cast Nat.not_lt.mp hs
    omega

section
variable (hw : w = 1 ∨ w = 2 ∨ w = 4) (h : len < 256 ^ w)
include hw h

theorem length_strHeader : (strHeader len).length ≤ 1 + w := by
  unfold strHeader
  split_ifs
  all_goals
    simp only [length_cons, length_nil, length_be]
    rcases hw with rfl | rfl | rfl <;> omega

theorem length_binHeader : (binHeader len).length ≤ 1 + w := by
  unfold binHeader
  split_ifs
  all_goals
    simp only [length_cons, length_be]
    rcases hw with rfl | rfl | rfl <;> omega

theorem length_extHeader : (extHeader len).length ≤ 1 + w := by
  unfold extHeader
  split_ifs
  all_goals
    simp only [length_cons, length_nil, length_be]
    rcases hw with rfl | rfl | rfl <;> omega

end

theorem length_arrayHeader (hw : w = 2 ∨ w = 4) (h : len < 256 ^ w) :
    (arrayHeader len).length ≤ 1 + w := by
  unfold arrayHeader
  split_ifs
  all_goals
    simp only [length_cons, length_nil, length_be]
    rcases hw with rfl | rfl <;> omega

theorem length_mapHeader (hw : w = 2 ∨ w = 4) (h : len < 256 ^ w) :
    (mapHeader len).length ≤ 1 + w := by
  unfold mapHeader
  split_ifs
  all_goals
    simp only [length_cons, length_nil, length_be]
    rcases hw with rfl | rfl <;> omega

theorem pow_width_le (hw : w = 1 ∨ w = 2 ∨ w = 4) : 256 ^ w ≤ 0x100000000 := by
  rcases hw with rfl | rfl | rfl <;> decide

/-! What was read. -/

theorem parseN_length {vs : List Value} (h : parseN p n bs = some (vs, r)) : vs.length = n := by
  induction n generalizing bs vs with
  | zero =>
    cases h
    rfl
  | succ n ih =>
    rw [parseN] at h
    split at h
    · cases h
    · next v bs' _ =>
      obtain ⟨vs', hn, rfl⟩ := map_fst_some (f := fun vs => v :: vs) h
      rw [length_cons, ih hn]

theorem nodes_pos (v : Value) : 0 < v.nodes := by
  cases v <;> simp only [Value.nodes] <;> omega

/-- Of a value read with fuel `fuel`, off `bs` with `r` left over. -/
structure Reads (fuel : Nat) (bs : Bytes) (v : Value) (r : Bytes) : Prop where
  fits : v.Fits
  depth : v.depth < fuel
  length : (write v).length + r.length ≤ bs.length

/-- The same of items read in a row. -/
structure ReadsAll (fuel n : Nat) (bs : Bytes) (vs : List Value) (r : Bytes) : Prop where
  count : vs.length = n
  fits : FitsAll vs
  depth : depthAll vs ≤ fuel
  length : (writeAll vs).length + r.length ≤ bs.length

theorem parseN_reads {fuel : Nat} (hp : ∀ bs v r, p bs = some (v, r) → Reads fuel bs v r) :
    ∀ n bs vs r, parseN p n bs = some (vs, r) → ReadsAll fuel n bs vs r := by
  intro n
  induction n with
  | zero =>
    intro bs vs r h
    cases h
    exact ⟨rfl, trivial, Nat.zero_le _, by simp [writeAll]⟩
  | succ n ih =>
    intro bs vs r h
    rw [parseN] at h
    split at h
    · cases h
    · next v bs' hv =>
      obtain ⟨vs', hn, rfl⟩ := map_fst_some (f := fun vs => v :: vs) h
      have first := hp _ _ _ hv
      have others := ih _ _ _ hn
      refine ⟨?_, ⟨first.fits, others.fits⟩, ?_, ?_⟩
      · rw [length_cons, others.count]
      · have := first.depth
        have := others.depth
        simp only [depthAll]
        omega
      · have := first.length
        have := others.length
        rw [writeAll, length_append]
        omega

/-- Bytes behind their length. -/
theorem prefixedBytes_some {g : Bytes → Value} {v : Value}
    (h : (readUint w bs).bind (fun l => (take? l.1 l.2).map (fun q => (g q.1, q.2))) = some (v, r)) :
    ∃ a, v = g a ∧ a.length < 256 ^ w ∧ w + a.length + r.length = bs.length := by
  obtain ⟨⟨n, r₁⟩, hn, h⟩ := bind_eq_some_iff.mp h
  obtain ⟨a, ht, rfl⟩ := map_fst_some h
  obtain ⟨rfl, rfl⟩ := take?_some.mp ht
  obtain ⟨hlt, hlen⟩ := readUint_some hn
  refine ⟨a, rfl, hlt, ?_⟩
  simp only [length_append] at hlen
  omega

/-- The bytes of an extension, behind its type. -/
theorem extBytes_some {n : Nat} {v : Value} (h : (take? 1 bs).bind (fun t =>
      (take? n t.2).map (fun q => (.ext (t.1.headD 0) q.1, q.2))) = some (v, r)) :
    ∃ t a, v = .ext t a ∧ a.length = n ∧ 1 + a.length + r.length = bs.length := by
  obtain ⟨⟨t, r₁⟩, ht, h⟩ := bind_eq_some_iff.mp h
  obtain ⟨a, ha, rfl⟩ := map_fst_some (f := fun a => Value.ext (t.headD 0) a) h
  obtain ⟨rfl, htl⟩ := take?_some.mp ht
  obtain ⟨rfl, rfl⟩ := take?_some.mp ha
  refine ⟨t.headD 0, a, rfl, rfl, ?_⟩
  simp only [length_append]
  omega

/-- Items behind their number. -/
theorem prefixedItems_some {fuel k : Nat} {g : List Value → Value} {v : Value}
    (hp : ∀ bs v r, p bs = some (v, r) → Reads fuel bs v r)
    (h : (readUint w bs).bind (fun l => (parseN p (k * l.1) l.2).map (fun q => (g q.1, q.2))) =
      some (v, r)) :
    ∃ n vs bs', v = g vs ∧ n < 256 ^ w ∧ w + bs'.length = bs.length ∧
      ReadsAll fuel (k * n) bs' vs r := by
  obtain ⟨⟨n, bs'⟩, hn, h⟩ := bind_eq_some_iff.mp h
  obtain ⟨vs, hvs, rfl⟩ := map_fst_some h
  obtain ⟨hlt, hlen⟩ := readUint_some hn
  exact ⟨n, vs, bs', rfl, hlt, by omega, parseN_reads hp _ _ _ _ hvs⟩

/-! A value of each kind, off bytes that have room for its header and its content. -/

section
variable {fuel n : Nat} {bs bs' r a : Bytes} {vs : List Value}

theorem reads_integer {n : Int} (hlo : -0x8000000000000000 ≤ n) (hhi : n < 0x10000000000000000)
    (hlen : (writeInt n).length + r.length ≤ bs.length) : Reads (fuel + 1) bs (.integer n) r := by
  refine ⟨⟨hlo, hhi⟩, Nat.succ_pos _, ?_⟩
  rw [write]
  exact hlen

theorem reads_fixint {n : Int} {marker : UInt8} (hlo : -0x20 ≤ n) (hhi : n < 0x80) :
    Reads (fuel + 1) (marker :: bs) (.integer n) bs := by
  have hone : (writeInt n).length = 1 := by
    unfold writeInt
    by_cases hn : 0 ≤ n
    · rw [if_pos hn, if_pos hhi, length_cons, length_nil]
    · rw [if_neg hn, if_pos hlo, length_cons, length_nil]
  refine reads_integer (by omega) (by omega) ?_
  rw [hone, length_cons]
  omega

theorem reads_unsigned {w : Nat} {marker : UInt8} (hf : w = 1 ∨ w = 2 ∨ w = 4 ∨ w = 8)
    (h : readUint w bs = some (n, r)) : Reads (fuel + 1) (marker :: bs) (.integer n) r := by
  obtain ⟨hlt, hlen⟩ := readUint_some h
  have hle : 256 ^ w ≤ 0x10000000000000000 := by
    rcases hf with rfl | rfl | rfl | rfl <;> decide
  have := length_writeInt_unsigned hf hlt
  refine reads_integer (by omega) (by omega) ?_
  rw [length_cons]
  omega

theorem reads_signed {w : Nat} {marker : UInt8} (hf : w = 1 ∨ w = 2 ∨ w = 4 ∨ w = 8)
    (h : readUint w bs = some (n, r)) :
    Reads (fuel + 1) (marker :: bs) (.integer (signed w n)) r := by
  obtain ⟨hlt, hlen⟩ := readUint_some h
  obtain ⟨hlo, hhi⟩ := signed_range hlt
  have hle : (256 ^ w : Int) ≤ 0x10000000000000000 := by
    rcases hf with rfl | rfl | rfl | rfl <;> decide
  have := length_writeInt_signed hf hlo hhi
  refine reads_integer (by omega) (by omega) ?_
  rw [length_cons]
  omega

theorem reads_string (hlt : a.length < 0x100000000)
    (hlen : (strHeader a.length).length + a.length + r.length ≤ bs.length) :
    Reads (fuel + 1) bs (.string a) r := by
  refine ⟨hlt, Nat.succ_pos _, ?_⟩
  rw [write, length_append]
  exact hlen

theorem reads_binary (hlt : a.length < 0x100000000)
    (hlen : (binHeader a.length).length + a.length + r.length ≤ bs.length) :
    Reads (fuel + 1) bs (.binary a) r := by
  refine ⟨hlt, Nat.succ_pos _, ?_⟩
  rw [write, length_append]
  exact hlen

theorem reads_ext {t : UInt8} (hlt : a.length < 0x100000000)
    (hlen : (extHeader a.length).length + (a.length + 1) + r.length ≤ bs.length) :
    Reads (fuel + 1) bs (.ext t a) r := by
  refine ⟨hlt, Nat.succ_pos _, ?_⟩
  rw [write, length_append, length_cons]
  exact hlen

theorem length_fixext (hf : (Form.fixext n).Valid) : n ≤ 16 ∧ (extHeader n).length = 1 := by
  have hn : n = 1 ∨ n = 2 ∨ n = 4 ∨ n = 8 ∨ n = 16 := hf
  rcases hn with rfl | rfl | rfl | rfl | rfl <;> exact ⟨by decide, rfl⟩

theorem reads_array (items : ReadsAll fuel n bs' vs r) (hlt : n < 0x100000000)
    (hlen : (arrayHeader n).length + bs'.length ≤ bs.length) :
    Reads (fuel + 1) bs (.array vs) r := by
  obtain ⟨rfl, hfits, hdepth, hitems⟩ := items
  refine ⟨⟨hlt, hfits⟩, Nat.lt_succ_of_le hdepth, ?_⟩
  rw [write, length_append]
  omega

theorem reads_map (items : ReadsAll fuel (2 * n) bs' vs r) (hlt : n < 0x100000000)
    (hlen : (mapHeader n).length + bs'.length ≤ bs.length) :
    Reads (fuel + 1) bs (.map vs) r := by
  obtain ⟨hcount, hfits, hdepth, hitems⟩ := items
  have hhalf : vs.length / 2 = n := by omega
  refine ⟨⟨by omega, hhalf ▸ hlt, hfits⟩, Nat.lt_succ_of_le hdepth, ?_⟩
  rw [write, length_append, hhalf]
  omega

end

/-- One case for each form: the operands bound the value's size. -/
theorem readForm_reads {fuel : Nat} (hp : ∀ bs v r, p bs = some (v, r) → Reads fuel bs v r)
    {marker : UInt8} {v : Value} {f : Form} (hf : f.Valid) (h : readForm p bs f = some (v, r)) :
    Reads (fuel + 1) (marker :: bs) v r := by
  -- values without operands, then numbers, then byte strings, then containers
  cases f with
  | posFixint n =>
    cases h
    have hn : n < 0x80 := hf
    exact reads_fixint (by omega) (by omega)
  | negFixint n =>
    cases h
    have hn : -0x20 ≤ n ∧ n < 0 := hf
    exact reads_fixint hn.1 (by omega)
  | nil =>
    cases h
    exact ⟨trivial, Nat.succ_pos _, by simp [write]; omega⟩
  | reserved => cases h
  | boolean b =>
    cases h
    exact ⟨trivial, Nat.succ_pos _, by cases b <;> simp [write] <;> omega⟩
  | uint w =>
    obtain ⟨n, hn, rfl⟩ := map_fst_some (f := fun n : Nat => Value.integer n) h
    exact reads_unsigned hf hn
  | int w =>
    obtain ⟨n, hn, rfl⟩ := map_fst_some (f := fun n => Value.integer (signed w n)) h
    exact reads_signed hf hn
  | float w =>
    obtain ⟨a, ht, rfl⟩ := map_fst_some h
    obtain ⟨rfl, rfl⟩ := take?_some.mp ht
    refine ⟨hf, Nat.succ_pos _, ?_⟩
    simp only [write, length_cons, length_append]
    omega
  | fixstr n =>
    obtain ⟨a, ht, rfl⟩ := map_fst_some h
    obtain ⟨rfl, rfl⟩ := take?_some.mp ht
    have hn : a.length < 0x20 := hf
    refine reads_string (by omega) ?_
    rw [strHeader, if_pos hn]
    simp only [length_cons, length_append, length_nil]
    omega
  | str w =>
    obtain ⟨a, rfl, hlt, hlen⟩ := prefixedBytes_some h
    have := pow_width_le hf
    have := length_strHeader hf hlt
    refine reads_string (by omega) ?_
    rw [length_cons]
    omega
  | bin w =>
    obtain ⟨a, rfl, hlt, hlen⟩ := prefixedBytes_some h
    have := pow_width_le hf
    have := length_binHeader hf hlt
    refine reads_binary (by omega) ?_
    rw [length_cons]
    omega
  | fixext n =>
    obtain ⟨t, a, rfl, rfl, hlen⟩ := extBytes_some h
    obtain ⟨hlt, hone⟩ := length_fixext hf
    refine reads_ext (by omega) ?_
    rw [hone, length_cons]
    omega
  | ext w =>
    obtain ⟨⟨n, r₁⟩, hn, h⟩ := bind_eq_some_iff.mp h
    obtain ⟨t, a, rfl, rfl, hrest⟩ := extBytes_some h
    obtain ⟨hlt, hlen⟩ := readUint_some hn
    have := pow_width_le hf
    have := length_extHeader hf hlt
    refine reads_ext (by omega) ?_
    rw [length_cons]
    dsimp only at hrest
    omega
  | fixarray n =>
    obtain ⟨vs, hvs, rfl⟩ := map_fst_some h
    have hn : n < 0x10 := hf
    refine reads_array (parseN_reads hp _ _ _ _ hvs) (by omega) ?_
    rw [arrayHeader, if_pos hn]
    simp only [length_cons, length_nil]
    omega
  | array w =>
    obtain ⟨n, vs, bs', rfl, hlt, hlen, items⟩ := prefixedItems_some (k := 1) hp
      (by simp only [Nat.one_mul]; exact h)
    rw [Nat.one_mul] at items
    have := pow_width_le (Or.inr hf)
    have := length_arrayHeader hf hlt
    refine reads_array items (by omega) ?_
    rw [length_cons]
    omega
  | fixmap n =>
    obtain ⟨vs, hvs, rfl⟩ := map_fst_some h
    have hn : n < 0x10 := hf
    refine reads_map (n := n) (parseN_reads hp _ _ _ _ hvs) (by omega) ?_
    rw [mapHeader, if_pos hn]
    simp only [length_cons, length_nil]
    omega
  | map w =>
    obtain ⟨n, vs, bs', rfl, hlt, hlen, items⟩ := prefixedItems_some (k := 2) hp h
    have := pow_width_le (Or.inr hf)
    have := length_mapHeader hf hlt
    refine reads_map items (by omega) ?_
    rw [length_cons]
    omega

/-- What the reader accepts fits the format, and no form of it is shorter than its
shortest form. -/
theorem parse_reads : ∀ {fuel : Nat} {bs : Bytes} {v : Value} {r : Bytes},
    parse fuel bs = some (v, r) → Reads fuel bs v r
  | 0, _, _, _, h => by cases h
  | _ + 1, [], _, _, h => by cases h
  | _ + 1, marker :: _, _, _, h =>
    readForm_reads (fun _ _ _ => parse_reads) (form_valid marker) h

/-! More fuel reads the same. -/

theorem parseN_mono (hpq : ∀ bs x, p bs = some x → q bs = some x) :
    ∀ n bs x, parseN p n bs = some x → parseN q n bs = some x := by
  intro n
  induction n with
  | zero => exact fun _ _ h => h
  | succ n ih =>
    intro bs x h
    rw [parseN] at h ⊢
    split at h
    · cases h
    · next v bs' hv =>
      obtain ⟨y, hy, rfl⟩ := map_eq_some_iff.mp h
      rw [hpq _ _ hv]
      exact map_eq_some_iff.mpr ⟨y, ih _ _ hy, rfl⟩

theorem readForm_mono (hpq : ∀ bs x, p bs = some x → q bs = some x) {x : Value × Bytes} :
    ∀ {f : Form}, readForm p bs f = some x → readForm q bs f = some x := by
  have items := parseN_mono hpq
  intro f h
  cases f with
  | fixarray n | fixmap n =>
    obtain ⟨y, hy, rfl⟩ := map_eq_some_iff.mp h
    exact map_eq_some_iff.mpr ⟨y, items _ _ _ hy, rfl⟩
  | array w | map w =>
    obtain ⟨l, hl, h⟩ := bind_eq_some_iff.mp h
    obtain ⟨y, hy, rfl⟩ := map_eq_some_iff.mp h
    exact bind_eq_some_iff.mpr ⟨l, hl, map_eq_some_iff.mpr ⟨y, items _ _ _ hy, rfl⟩⟩
  | _ => exact h

theorem parse_mono : ∀ {fuel fuel' : Nat} {bs : Bytes} {x : Value × Bytes}, fuel ≤ fuel' →
    parse fuel bs = some x → parse fuel' bs = some x
  | 0, _, _, _, _, h => by cases h
  | _ + 1, _, [], _, _, h => by cases h
  | _ + 1, 0, _ :: _, _, hle, _ => by omega
  | _ + 1, _ + 1, _ :: _, _, hle, h =>
    readForm_mono (fun _ _ => parse_mono (Nat.le_of_succ_le_succ hle)) h

/-! The shortest form from below. -/

mutual
theorem payload_le_write (v : Value) : v.payload ≤ (write v).length := by
  cases v with
  | nil => exact Nat.le_refl 1
  | boolean b => cases b <;> exact Nat.le_refl 1
  | integer n =>
    simp only [write, writeInt, Value.payload]
    split_ifs <;> simp only [length_cons] <;> omega
  | float bits =>
    simp only [write, Value.payload, length_cons]
    omega
  | string b =>
    rw [write, strHeader, Value.payload, length_append]
    split_ifs <;> simp only [length_cons] <;> omega
  | binary b =>
    rw [write, binHeader, Value.payload, length_append]
    split_ifs <;> simp only [length_cons] <;> omega
  | array vs =>
    have := payloadAll_le_writeAll vs
    rw [write, arrayHeader, Value.payload, length_append]
    split_ifs <;> simp only [length_cons] <;> omega
  | map vs =>
    have := payloadAll_le_writeAll vs
    rw [write, mapHeader, Value.payload, length_append]
    split_ifs <;> simp only [length_cons] <;> omega
  | ext t b =>
    rw [write, Value.payload, length_append, length_cons]
    omega
theorem payloadAll_le_writeAll (vs : List Value) : payloadAll vs ≤ (writeAll vs).length := by
  cases vs with
  | nil => exact Nat.le_refl 0
  | cons v vs =>
    have := payload_le_write v
    have := payloadAll_le_writeAll vs
    rw [writeAll, payloadAll, length_append]
    omega
end

end Msgpack
