import Harvest.Base64
import Mathlib.Tactic.SplitIfs

/-!
# Reading back base64

Bytes are read back from their symbols (`Base64.decode_encode`), and texts from their bytes
(`textOf?_bytesOf`).  Nothing is read but what is written (`Base64.wire_decode`): padding, foreign
symbols and bits that no byte uses are flaws, so that some bytes have one text only
(`Base64.decode_eq_ok_iff`).

One proof follows the encoder and the other one the decoder: three bytes or four symbols at a time
while others follow, and the last ones through `decodeLast`.
-/

namespace Harvest

/-! ### Texts as bytes -/

theorem textOf?_bytesOf (s : String) : textOf? (bytesOf s) = some s := by
  have hbytes : (⟨(bytesOf s).toArray⟩ : ByteArray) = s.toByteArray := by
    rw [bytesOf, Array.toArray_toList]
  rw [textOf?, hbytes, String.fromUTF8?, dif_pos s.isValidUTF8]
  rfl

theorem bytesOf_of_textOf? {bytes : List UInt8} {s : String} (h : textOf? bytes = some s) :
    bytesOf s = bytes := by
  unfold textOf? String.fromUTF8? at h
  split_ifs at h
  cases h
  rfl

theorem bytesOf_inj {a b : String} : bytesOf a = bytesOf b ↔ a = b := by
  refine ⟨fun h => ?_, congrArg bytesOf⟩
  rw [← Option.some.injEq, ← textOf?_bytesOf, h, textOf?_bytesOf]

/-- The byte of a character below 128. -/
def asciiByte (c : Char) : UInt8 := c.val.toUInt8

theorem bytesOf_ofList {cs : List Char} (h : ∀ c ∈ cs, c.utf8Size = 1) :
    bytesOf (String.ofList cs) = cs.map asciiByte := by
  rw [bytesOf, String.toByteArray_ofList]
  induction cs with
  | nil => simp [List.utf8Encode_nil]
  | cons c cs ih =>
    have hhead := String.utf8EncodeChar_eq_singleton (h c List.mem_cons_self)
    have htail := ih fun d hd => h d (List.mem_cons_of_mem _ hd)
    rw [List.utf8Encode_cons, List.utf8Encode_singleton, hhead, List.map_cons, ← htail]
    simp [asciiByte]

namespace Base64

/-! ### Symbols -/

/-- The byte of a value's symbol. -/
def symbolByte (n : Nat) : UInt8 := asciiByte (symbolOf n)

theorem valueOf?_symbolByte {n : Nat} (h : n < 64) : valueOf? (symbolByte n) = some n := by
  revert n
  decide

theorem symbolByte_ne_pad {n : Nat} (h : n < 64) : symbolByte n ≠ pad := by
  revert n
  decide

theorem utf8Size_symbolOf {n : Nat} (h : n < 64) : (symbolOf n).utf8Size = 1 := by
  revert n
  decide

theorem value_symbolByte {n : Nat} (h : n < 64) (offset : Nat) :
    value (symbolByte n) offset = .ok n := by
  rw [value, valueOf?_symbolByte h]

theorem exists_of_mem_encode {bs : List UInt8} {c : Char} (h : c ∈ encode bs) :
    ∃ n < 64, c = symbolOf n := by
  fun_induction encode bs with
  | case1 a b d rest n ih =>
    have ha := a.toNat_lt
    have hb := b.toNat_lt
    have hd := d.toNat_lt
    simp only [List.mem_cons] at h
    rcases h with h | h | h | h | h
    · exact ⟨_, by omega, h⟩
    · exact ⟨_, Nat.mod_lt _ (by decide), h⟩
    · exact ⟨_, Nat.mod_lt _ (by decide), h⟩
    · exact ⟨_, Nat.mod_lt _ (by decide), h⟩
    · exact ih h
  | case2 a b n =>
    have ha := a.toNat_lt
    have hb := b.toNat_lt
    simp only [List.mem_cons, List.not_mem_nil, or_false] at h
    rcases h with h | h | h
    · exact ⟨_, by omega, h⟩
    · exact ⟨_, Nat.mod_lt _ (by decide), h⟩
    · exact ⟨_, by omega, h⟩
  | case3 a =>
    have ha := a.toNat_lt
    simp only [List.mem_cons, List.not_mem_nil, or_false] at h
    rcases h with h | h
    · exact ⟨_, by omega, h⟩
    · exact ⟨_, by omega, h⟩
  | case4 => cases h

/-! ### Reading back -/

/-- The bytes of an encoded text. -/
def wire (bs : List UInt8) : List UInt8 := (encode bs).map asciiByte

theorem valueOf?_of_mem_wire {bs : List UInt8} {b : UInt8} (h : b ∈ wire bs) :
    (valueOf? b).isSome := by
  obtain ⟨c, hc, rfl⟩ := List.mem_map.1 h
  obtain ⟨n, hn, rfl⟩ := exists_of_mem_encode hc
  exact Option.isSome_iff_exists.2 ⟨n, valueOf?_symbolByte hn⟩

theorem trailing?_wire (bs : List UInt8) : trailing? (wire bs) = none := by
  unfold trailing?
  split_ifs with h
  · rw [Option.filter_eq_none_iff]
    intro b hb
    have hsome := valueOf?_of_mem_wire (List.mem_of_getLast? hb)
    simp [Option.isSome_iff_ne_none.1 hsome]
  · rfl

theorem lastValues_symbols (start : Nat) {vs : List Nat} (hvs : ∀ v ∈ vs, v < 64) (i : Nat) :
    lastValues start i none (vs.map symbolByte) = .ok (vs, false) := by
  induction vs generalizing i with
  | nil => rfl
  | cons v vs ih =>
    have hv := hvs v List.mem_cons_self
    have hrest := ih (fun w hw => hvs w (List.mem_cons_of_mem _ hw)) (i + 1)
    rw [List.map_cons, lastValues, if_neg (symbolByte_ne_pad hv)]
    simp only [value_symbolByte hv, hrest]
    rfl

theorem decodeLast_symbols (start : Nat) {vs : List Nat} (hvs : ∀ v ∈ vs, v < 64)
    (hlen : 2 ≤ vs.length) :
    decodeLast start (vs.map symbolByte) =
      (match vs with
      | [v, w] =>
        if w % 16 ≠ 0 then .error (.lastSymbol (symbolByte w) (start + 1))
        else .ok [(v * 4 + w / 16).toUInt8]
      | [v, w, x] =>
        if x % 4 ≠ 0 then .error (.lastSymbol (symbolByte x) (start + 2))
        else .ok [((v * 1024 + w * 16 + x / 4) / 256).toUInt8,
          ((v * 1024 + w * 16 + x / 4) % 256).toUInt8]
      | v :: w :: x :: y :: _ =>
        let n := v * 262144 + w * 4096 + x * 64 + y
        .ok [(n / 65536).toUInt8, (n / 256 % 256).toUInt8, (n % 256).toUInt8]
      | _ => .ok []) := by
  have hlast := lastValues_symbols start hvs 0
  rw [decodeLast, hlast]
  obtain _ | ⟨v, _ | ⟨w, _ | ⟨x, _ | ⟨y, rest⟩⟩⟩⟩ := vs
  · simp at hlen
  · simp at hlen
  · by_cases h : w % 16 = 0 <;> simp [h, bind, Except.bind, pure, Except.pure, throw,
      throwThe, MonadExceptOf.throw]
  · by_cases h : x % 4 = 0 <;> simp [h, bind, Except.bind, pure, Except.pure, throw,
      throwThe, MonadExceptOf.throw]
  · simp [bind, Except.bind, pure, Except.pure]

theorem toUInt8_toNat {n : Nat} {a : UInt8} (h : n = a.toNat) : n.toUInt8 = a := by
  rw [h, Nat.toUInt8_eq, UInt8.ofNat_toNat]

theorem decodeFrom_cons {start v w x y : Nat} (hv : v < 64) (hw : w < 64) (hx : x < 64)
    (hy : y < 64) {bs out : List UInt8} (hbs : bs ≠ []) (h : decodeFrom (start + 4) bs = .ok out) :
    decodeFrom start (symbolByte v :: symbolByte w :: symbolByte x :: symbolByte y :: bs) =
      .ok (((v * 262144 + w * 4096 + x * 64 + y) / 65536).toUInt8 ::
        ((v * 262144 + w * 4096 + x * 64 + y) / 256 % 256).toUInt8 ::
          ((v * 262144 + w * 4096 + x * 64 + y) % 256).toUInt8 :: out) := by
  obtain ⟨e, rest, rfl⟩ := List.exists_cons_of_ne_nil hbs
  simp [decodeFrom, value_symbolByte hv, value_symbolByte hw, value_symbolByte hx,
    value_symbolByte hy, h, bind, Except.bind, pure, Except.pure]

theorem wire_ne_nil {bs : List UInt8} (h : bs ≠ []) : wire bs ≠ [] := by
  obtain _ | ⟨a, _ | ⟨b, _ | ⟨d, rest⟩⟩⟩ := bs
  · exact absurd rfl h
  all_goals simp [wire, encode]

theorem decodeFrom_wire (start : Nat) (bs : List UInt8) : decodeFrom start (wire bs) = .ok bs := by
  fun_induction encode bs generalizing start with
  | case1 a b d rest n ih =>
    have ha := a.toNat_lt
    have hb := b.toNat_lt
    have hd := d.toNat_lt
    -- four symbols hold the 24 bits of three bytes
    have hn : n / 262144 * 262144 + n / 4096 % 64 * 4096 + n / 64 % 64 * 64 + n % 64 = n := by
      have h64 : n / 64 / 64 = n / 4096 := Nat.div_div_eq_div_mul n 64 64
      have h4096 : n / 4096 / 64 = n / 262144 := Nat.div_div_eq_div_mul n 4096 64
      omega
    have hbytes :
        [(n / 65536).toUInt8, (n / 256 % 256).toUInt8, (n % 256).toUInt8] = [a, b, d] := by
      rw [toUInt8_toNat (a := a) (by omega), toUInt8_toNat (a := b) (by omega),
        toUInt8_toNat (a := d) (by omega)]
    simp only [List.cons.injEq, and_true] at hbytes
    obtain ⟨hn1, hn2, hn3⟩ := hbytes
    have hvs : ∀ v ∈ [n / 262144, n / 4096 % 64, n / 64 % 64, n % 64], v < 64 := by
      simp only [List.forall_mem_cons, List.not_mem_nil, false_imp_iff, implies_true, and_true]
      omega
    -- the last symbols are read apart from the others, as they may be fewer than four
    by_cases hrest : rest = []
    · subst hrest
      have hlast := decodeLast_symbols start hvs (by simp)
      simp only [hn, hn1, hn2, hn3] at hlast
      exact hlast
    · have hcons := decodeFrom_cons (hvs (n / 262144) (by simp)) (hvs (n / 4096 % 64) (by simp))
        (hvs (n / 64 % 64) (by simp)) (hvs (n % 64) (by simp)) (wire_ne_nil hrest) (ih (start + 4))
      simp only [hn, hn1, hn2, hn3] at hcons
      exact hcons
  | case2 a b n =>
    have ha := a.toNat_lt
    have hb := b.toNat_lt
    have hvs : ∀ v ∈ [n / 1024, n / 16 % 64, n % 16 * 4], v < 64 := by
      simp only [List.forall_mem_cons, List.not_mem_nil, false_imp_iff, implies_true, and_true]
      omega
    have hlast := decodeLast_symbols start hvs (by simp)
    have hn : n / 1024 * 1024 + n / 16 % 64 * 16 + n % 16 * 4 / 4 = n := by omega
    have hn1 : (n / 256).toUInt8 = a := toUInt8_toNat (by omega)
    have hn2 : (n % 256).toUInt8 = b := toUInt8_toNat (by omega)
    simp only [hn, hn1, hn2, if_neg (show ¬ n % 16 * 4 % 4 ≠ 0 by omega)] at hlast
    exact hlast
  | case3 a =>
    have ha := a.toNat_lt
    have hvs : ∀ v ∈ [a.toNat / 4, a.toNat % 4 * 16], v < 64 := by
      simp only [List.forall_mem_cons, List.not_mem_nil, false_imp_iff, implies_true, and_true]
      omega
    have hlast := decodeLast_symbols start hvs (by simp)
    have ha1 : (a.toNat / 4 * 4 + a.toNat % 4 * 16 / 16).toUInt8 = a := toUInt8_toNat (by omega)
    simp only [ha1, if_neg (show ¬ a.toNat % 4 * 16 % 16 ≠ 0 by omega)] at hlast
    exact hlast
  | case4 => rfl

theorem bytesOf_encode (bs : List UInt8) : bytesOf (String.ofList (encode bs)) = wire bs := by
  refine bytesOf_ofList fun c hc => ?_
  obtain ⟨n, hn, rfl⟩ := exists_of_mem_encode hc
  exact utf8Size_symbolOf hn

/-- **Bytes are read back from their symbols.** -/
theorem decode_encode (bs : List UInt8) :
    decode (bytesOf (String.ofList (encode bs))) = .ok bs := by
  rw [bytesOf_encode, decode, trailing?_wire]
  exact decodeFrom_wire 0 bs

/-! ### Nothing else is read -/

theorem exists_of_bind_eq_ok {α β : Type} {x : Except Flaw α} {f : α → Except Flaw β} {b : β}
    (h : x >>= f = .ok b) : ∃ a, x = .ok a ∧ f a = .ok b := by
  cases x with
  | error e => cases h
  | ok a => exact ⟨a, rfl, h⟩

theorem symbolByte_of_valueOf? {b : UInt8} {n : Nat} (h : valueOf? b = some n) :
    n < 64 ∧ symbolByte n = b := by
  have hall : ∀ m < 256, ∀ n ∈ valueOf? (UInt8.ofNat m), n < 64 ∧ symbolByte n = UInt8.ofNat m := by
    decide +kernel
  have hb := hall b.toNat b.toNat_lt
  rw [UInt8.ofNat_toNat] at hb
  exact hb n h

theorem symbolByte_of_value {b : UInt8} {n offset : Nat} (h : value b offset = .ok n) :
    n < 64 ∧ symbolByte n = b := by
  unfold value at h
  cases hvalue : valueOf? b with
  | none =>
    rw [hvalue] at h
    cases h
  | some m =>
    rw [hvalue] at h
    cases h
    exact symbolByte_of_valueOf? hvalue

/-- Behind padding comes nothing but padding. -/
theorem padded_of_lastValues {start i p : Nat} {bs : List UInt8} {vs : List Nat} {padded : Bool}
    (h : lastValues start i (some p) bs = .ok (vs, padded)) : padded = true := by
  induction bs generalizing i with
  | nil =>
    cases h
    rfl
  | cons b bs ih =>
    rw [lastValues] at h
    split_ifs at h
    exact ih h

theorem eq_map_of_lastValues {start i : Nat} {bs : List UInt8} {vs : List Nat}
    (h : lastValues start i none bs = .ok (vs, false)) :
    (∀ v ∈ vs, v < 64) ∧ bs = vs.map symbolByte := by
  induction bs generalizing i vs with
  | nil =>
    cases h
    exact ⟨nofun, rfl⟩
  | cons b bs ih =>
    rw [lastValues] at h
    split_ifs at h
    · cases padded_of_lastValues h
    · obtain ⟨v, hvalue, h⟩ := exists_of_bind_eq_ok h
      obtain ⟨⟨ws, padded⟩, hlast, h⟩ := exists_of_bind_eq_ok h
      cases h
      obtain ⟨hv, hb⟩ := symbolByte_of_value hvalue
      obtain ⟨hws, rfl⟩ := ih hlast
      exact ⟨List.forall_mem_cons.2 ⟨hv, hws⟩, by rw [List.map_cons, hb]⟩

theorem toNat_toUInt8 {n : Nat} (h : n < 256) : n.toUInt8.toNat = n := by
  rw [Nat.toUInt8_eq, UInt8.toNat_ofNat', Nat.mod_eq_of_lt h]

theorem wire_one {v w : Nat} (hv : v < 64) (hw : w < 64) (hlast : w % 16 = 0) :
    wire [(v * 4 + w / 16).toUInt8] = [symbolByte v, symbolByte w] := by
  have hbyte := toNat_toUInt8 (n := v * 4 + w / 16) (by omega)
  simp only [wire, encode, List.map_cons, List.map_nil, symbolByte, hbyte]
  rw [show (v * 4 + w / 16) / 4 = v by omega, show (v * 4 + w / 16) % 4 * 16 = w by omega]

theorem wire_two {v w x : Nat} (hv : v < 64) (hw : w < 64) (hx : x < 64) (hlast : x % 4 = 0) :
    wire [((v * 1024 + w * 16 + x / 4) / 256).toUInt8,
        ((v * 1024 + w * 16 + x / 4) % 256).toUInt8] =
      [symbolByte v, symbolByte w, symbolByte x] := by
  have hfirst := toNat_toUInt8 (n := (v * 1024 + w * 16 + x / 4) / 256) (by omega)
  have hsecond := toNat_toUInt8 (n := (v * 1024 + w * 16 + x / 4) % 256) (by omega)
  simp only [wire, encode, List.map_cons, List.map_nil, symbolByte, hfirst, hsecond]
  rw [Nat.div_add_mod' (v * 1024 + w * 16 + x / 4) 256]
  rw [show (v * 1024 + w * 16 + x / 4) / 1024 = v by omega,
    show (v * 1024 + w * 16 + x / 4) / 16 % 64 = w by omega,
    show (v * 1024 + w * 16 + x / 4) % 16 * 4 = x by omega]

theorem wire_three {v w x y : Nat} (hv : v < 64) (hw : w < 64) (hx : x < 64) (hy : y < 64)
    (rest : List UInt8) :
    wire (((v * 262144 + w * 4096 + x * 64 + y) / 65536).toUInt8 ::
        ((v * 262144 + w * 4096 + x * 64 + y) / 256 % 256).toUInt8 ::
          ((v * 262144 + w * 4096 + x * 64 + y) % 256).toUInt8 :: rest) =
      symbolByte v :: symbolByte w :: symbolByte x :: symbolByte y :: wire rest := by
  have hn : v * 262144 + w * 4096 + x * 64 + y < 16777216 := by omega
  have hv' : (v * 262144 + w * 4096 + x * 64 + y) / 262144 = v := by omega
  have hw' : (v * 262144 + w * 4096 + x * 64 + y) / 4096 % 64 = w := by omega
  have hx' : (v * 262144 + w * 4096 + x * 64 + y) / 64 % 64 = x := by omega
  have hy' : (v * 262144 + w * 4096 + x * 64 + y) % 64 = y := by omega
  generalize v * 262144 + w * 4096 + x * 64 + y = n at *
  have hfirst := toNat_toUInt8 (n := n / 65536) (by omega)
  have hsecond := toNat_toUInt8 (n := n / 256 % 256) (by omega)
  have hthird := toNat_toUInt8 (n := n % 256) (by omega)
  have hwhole : n / 65536 * 65536 + n / 256 % 256 * 256 + n % 256 = n := by omega
  simp only [wire, encode, List.map_cons, symbolByte, hfirst, hsecond, hthird, hwhole, hv', hw',
    hx', hy']

theorem wire_decodeLast {start : Nat} {bs out : List UInt8} (hlen : bs.length ≤ 4)
    (h : decodeLast start bs = .ok out) : wire out = bs := by
  -- two symbols at least, and no padding
  obtain ⟨vs, hvs, rfl, hlength⟩ : ∃ vs : List Nat, (∀ v ∈ vs, v < 64) ∧
      bs = vs.map symbolByte ∧ 2 ≤ vs.length := by
    obtain ⟨⟨vs, padded⟩, hlast, hrest⟩ := exists_of_bind_eq_ok h
    by_cases hshort : vs.length < 2
    · simp [hshort, bind, Except.bind, throw, throwThe, MonadExceptOf.throw] at hrest
    cases padded with
    | true => simp [hshort, bind, Except.bind, throw, throwThe, MonadExceptOf.throw] at hrest
    | false =>
      obtain ⟨hvs, hbs⟩ := eq_map_of_lastValues hlast
      exact ⟨vs, hvs, hbs, Nat.le_of_not_lt hshort⟩
  rw [decodeLast_symbols start hvs hlength] at h
  rw [List.length_map] at hlen
  obtain _ | ⟨v, _ | ⟨w, _ | ⟨x, _ | ⟨y, _ | ⟨z, rest⟩⟩⟩⟩⟩ := vs
  · simp at hlength
  · simp at hlength
  · simp only [List.forall_mem_cons] at hvs
    dsimp only at h
    split_ifs at h with hlast
    cases h
    exact wire_one hvs.1 hvs.2.1 (Classical.not_not.1 hlast)
  · simp only [List.forall_mem_cons] at hvs
    dsimp only at h
    split_ifs at h with hlast
    cases h
    exact wire_two hvs.1 hvs.2.1 hvs.2.2.1 (Classical.not_not.1 hlast)
  · simp only [List.forall_mem_cons] at hvs
    cases h
    exact wire_three hvs.1 hvs.2.1 hvs.2.2.1 hvs.2.2.2.1 []
  · simp only [List.length_cons] at hlen
    omega

theorem wire_decodeFrom {start : Nat} {bs out : List UInt8} (h : decodeFrom start bs = .ok out) :
    wire out = bs := by
  fun_induction decodeFrom start bs generalizing out with
  | case1 start a b c d e rest ih =>
    obtain ⟨v, ha, h⟩ := exists_of_bind_eq_ok h
    obtain ⟨w, hb, h⟩ := exists_of_bind_eq_ok h
    obtain ⟨x, hc, h⟩ := exists_of_bind_eq_ok h
    obtain ⟨y, hd, h⟩ := exists_of_bind_eq_ok h
    obtain ⟨bs, hrest, h⟩ := exists_of_bind_eq_ok h
    cases h
    obtain ⟨hv, rfl⟩ := symbolByte_of_value ha
    obtain ⟨hw, rfl⟩ := symbolByte_of_value hb
    obtain ⟨hx, rfl⟩ := symbolByte_of_value hc
    obtain ⟨hy, rfl⟩ := symbolByte_of_value hd
    rw [wire_three hv hw hx hy, ih hrest]
  | case2 start =>
    cases h
    rfl
  | case3 start bs hlong hnil =>
    refine wire_decodeLast ?_ h
    obtain _ | ⟨a, _ | ⟨b, _ | ⟨c, _ | ⟨d, _ | ⟨e, rest⟩⟩⟩⟩⟩ := bs
    case cons.cons.cons.cons.cons => exact (hlong _ _ _ _ _ _ rfl).elim
    all_goals simp

/-- **Nothing is read but what is written.** -/
theorem wire_decode {bs out : List UInt8} (h : decode bs = .ok out) : wire out = bs := by
  unfold decode at h
  split at h
  · cases h
  · exact wire_decodeFrom h

/-- A text is read as some bytes if and only if it is the one that is written for them. -/
theorem decode_eq_ok_iff {s : String} {bs : List UInt8} :
    decode (bytesOf s) = .ok bs ↔ s = String.ofList (encode bs) := by
  constructor
  · intro h
    rw [← bytesOf_inj, bytesOf_encode, wire_decode h]
  · rintro rfl
    exact decode_encode bs

end Base64

end Harvest
