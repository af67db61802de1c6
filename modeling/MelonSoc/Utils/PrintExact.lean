import MelonSoc.Lib.Numerals
import MelonSoc.Utils.Print

set_option autoImplicit false

/-! # What is printed

A format is a row of parts, each with the argument it takes. `printf` prints the parts one after
the other, every number in its canonical representation, with two exceptions: the smallest `int`
has no negation, so `print_dec` calls itself with it for ever, and after a `%` at the end of the
format the NUL is taken for a conversion and the loop goes on behind it.
-/

namespace MelonSoc

namespace Print

/-! ## What a format asks for -/

/-- One part of a format, with its argument. -/
inductive Item
  | lit (c : Byte)
  | str (s : List Byte)
  | hex (v : BitVec 32)
  | dec (v : BitVec 32)
  | unsigned (v : BitVec 32)
  | ulonglong (v : BitVec 64)
  | char (v : BitVec 32)
  | dangling
  deriving DecidableEq

/-- After a `%` these characters begin a conversion. -/
def Converts (d : Byte) (f : List Byte) : Prop :=
  d = ascii 's' ∨ d = ascii 'x' ∨ d = ascii 'd' ∨ d = ascii 'u' ∨ d = ascii 'c' ∨
    d = ascii 'l' ∧ ∃ g, f = ascii 'l' :: ascii 'u' :: g

/-- The part `x` stands in front of the format `f`, and its argument in front of `args`; behind it
come `f'` and `args'`. -/
inductive Takes : List Byte → List Arg → Item → List Byte → List Arg → Prop
  | lit {c : Byte} {f : List Byte} {args : List Arg} (h : c ≠ ascii '%') :
      Takes (c :: f) args (.lit c) f args
  | str {s f : List Byte} {args : List Arg} (h : 0#8 ∈ s) :
      Takes (ascii '%' :: ascii 's' :: f) (.str s :: args) (.str s) f args
  | hex {v : BitVec 32} {f : List Byte} {args : List Arg} :
      Takes (ascii '%' :: ascii 'x' :: f) (.word v :: args) (.hex v) f args
  | dec {v : BitVec 32} {f : List Byte} {args : List Arg} :
      Takes (ascii '%' :: ascii 'd' :: f) (.word v :: args) (.dec v) f args
  | unsigned {v : BitVec 32} {f : List Byte} {args : List Arg} :
      Takes (ascii '%' :: ascii 'u' :: f) (.word v :: args) (.unsigned v) f args
  | ulonglong {v : BitVec 64} {f : List Byte} {args : List Arg} :
      Takes (ascii '%' :: ascii 'l' :: ascii 'l' :: ascii 'u' :: f) (.dword v :: args)
        (.ulonglong v) f args
  | char {v : BitVec 32} {f : List Byte} {args : List Arg} :
      Takes (ascii '%' :: ascii 'c' :: f) (.word v :: args) (.char v) f args
  | other {d : Byte} {f : List Byte} {args : List Arg} (h : ¬Converts d f) :
      Takes (ascii '%' :: d :: f) args (.lit d) f args

/-- The parts of a format, with arguments that match them. -/
inductive Items : List Byte → List Arg → List Item → Prop
  | nil {args : List Arg} : Items [] args []
  | dangling {args : List Arg} : Items [ascii '%'] args [.dangling]
  | cons {f f' : List Byte} {args args' : List Arg} {x : Item} {xs : List Item}
      (h : Takes f args x f' args') (hs : Items f' args' xs) : Items f args (x :: xs)

/-- The digit of a character. -/
def digitValue (c : Byte) : Nat :=
  if c ≤ ascii '9' then c.toNat - (ascii '0').toNat else c.toNat - (ascii 'A').toNat + 10

/-- The canonical decimal representation of `n`: decimal digits without a zero in front, whose
value is `n`. -/
structure Decimal (n : Nat) (cs : List Byte) : Prop where
  digits : ∀ c ∈ cs, ascii '0' ≤ c ∧ c ≤ ascii '9'
  canonical : Numerals.Canonical 10 n (cs.map digitValue)

/-- The decimal representation of a signed number. -/
def SignedDecimal (z : Int) (cs : List Byte) : Prop :=
  if z < 0 then ∃ ds, cs = ascii '-' :: ds ∧ Decimal z.natAbs ds else Decimal z.natAbs cs

/-- The hexadecimal representation of `n` with eight digits. -/
structure Hexadecimal (n : Nat) (cs : List Byte) : Prop where
  length : cs.length = 8
  digits : ∀ c ∈ cs, c ∈ hexTable
  value : Numerals.value 16 (cs.map digitValue) = n

/-- What a part prints. -/
def Item.Renders : Item → List Byte → Prop
  | .lit c, out => out = [c]
  | .str s, out => out = s.takeWhile (· != 0#8)
  | .hex v, out => Hexadecimal v.toNat out
  | .dec v, out => SignedDecimal v.toInt out
  | .unsigned v, out => Decimal v.toNat out
  | .ulonglong v, out => Decimal v.toNat out
  | .char v, out => out = [v.setWidth 8]
  | .dangling, out => out = []

def Renders : List Item → List Byte → Prop
  | [], out => out = []
  | x :: xs, out => ∃ o rest, out = o ++ rest ∧ x.Renders o ∧ Renders xs rest

/-- `INT_MIN`. -/
def intMin : BitVec 32 := 0x80000000#32

/-- The parts that do not go wrong. -/
def Item.Safe : Item → Prop
  | .dec v => v ≠ intMin
  | .dangling => False
  | _ => True

/-- What the code does for a part. -/
def Item.print (fuel : Nat) : Item → Except Stop (List Byte)
  | .lit c => .ok [c]
  | .str s => printString s
  | .hex v => .ok (printHex v)
  | .dec v => printDec fuel v
  | .unsigned v => printUnsigned 12 v
  | .ulonglong v => printUnsigned 24 v
  | .char v => .ok [v.setWidth 8]
  | .dangling => .error .pastEnd

/-! ## Characters and digits -/

/-- The character of a decimal digit. -/
def decChar (d : Nat) : Byte := ascii '0' + BitVec.ofNat 8 d

theorem decChar_range {d : Nat} (h : d < 10) : ascii '0' ≤ decChar d ∧ decChar d ≤ ascii '9' := by
  interval_cases d <;> exact ⟨by decide, by decide⟩

theorem digitValue_decChar {d : Nat} (h : d < 10) : digitValue (decChar d) = d := by
  interval_cases d <;> rfl

/-- Characters are read back as the digits they were made from. -/
theorem read_back {g : Nat → Byte} {ds : List Nat} (h : ∀ d ∈ ds, digitValue (g d) = d) :
    (ds.map g).map digitValue = ds := by
  rw [List.map_map]
  exact (List.map_congr_left h).trans (List.map_id ds)

/-- The numeral of a number, as characters. -/
theorem decimal_written (n : Nat) : Decimal n ((Numerals.written 10 n).map decChar) := by
  have hcan : Numerals.Canonical 10 n (Numerals.written 10 n) :=
    Numerals.canonical_written (by decide)
  constructor
  · intro c hc
    have ⟨d, hd, heq⟩ := List.mem_map.mp hc
    rw [← heq]
    exact decChar_range (hcan.digits d hd)
  · rw [read_back fun d hd => digitValue_decChar (hcan.digits d hd)]
    exact hcan

theorem eq_decChar {c : Byte} (h : ascii '0' ≤ c ∧ c ≤ ascii '9') : decChar (digitValue c) = c := by
  have hlow : (ascii '0').toNat ≤ c.toNat := h.1
  have hzero : (ascii '0').toNat = 48 := rfl
  apply BitVec.eq_of_toNat_eq
  rw [decChar, digitValue, if_pos h.2, BitVec.toNat_add, BitVec.toNat_ofNat, hzero]
  have hlt := c.isLt
  omega

/-- A number has one canonical representation. -/
theorem Decimal.unique {n : Nat} {cs : List Byte} (h : Decimal n cs) :
    cs = (Numerals.written 10 n).map decChar := by
  rw [← h.canonical.unique (by decide), List.map_map]
  have hback : ∀ c ∈ cs, (decChar ∘ digitValue) c = id c := fun c hc => eq_decChar (h.digits c hc)
  exact ((List.map_congr_left hback).trans (List.map_id cs)).symm

theorem hexTable_get {d : Nat} (h : d < 16) :
    hexTable.getD d 0#8 ∈ hexTable ∧ digitValue (hexTable.getD d 0#8) = d := by
  interval_cases d <;> exact ⟨by decide, by decide⟩

theorem printHexDigits_eq (v : BitVec 32) (k : Nat) :
    printHexDigits v k = (Numerals.fixed 16 v.toNat k).map (hexTable.getD · 0#8) := by
  induction k with
  | zero => rfl
  | succ k ih =>
      have hidx : ((v >>> (4 * k)) % 16#32).toNat = v.toNat / 16 ^ k % 16 := by
        rw [BitVec.toNat_umod, BitVec.toNat_ushiftRight, Nat.shiftRight_eq_div_pow, Nat.pow_mul]
        rfl
      rw [printHexDigits, Numerals.fixed, List.map_cons, ih, hidx]

theorem hexadecimal_printHex (v : BitVec 32) : Hexadecimal v.toNat (printHex v) := by
  have hdigits := Numerals.fixed_digits (b := 16) (n := v.toNat) (by decide) 8
  rw [printHex, printHexDigits_eq]
  refine ⟨?_, fun c hc => ?_, ?_⟩
  · rw [List.length_map, Numerals.fixed_length]
  · have ⟨d, hd, heq⟩ := List.mem_map.mp hc
    rw [← heq]
    exact (hexTable_get (hdigits d hd)).1
  · rw [read_back fun d hd => (hexTable_get (hdigits d hd)).2, Numerals.value_fixed]
    exact Nat.mod_eq_of_lt v.isLt

/-! ## The loops -/

theorem bind_ok {α β : Type} (a : α) (f : α → Except Stop β) : (Except.ok a >>= f) = f a := rfl

theorem bind_error {α β : Type} (e : Stop) (f : α → Except Stop β) :
    ((Except.error e : Except Stop α) >>= f) = .error e := rfl

/-- A digit that `print_dec` stores, and the rest of the value. -/
theorem signed_step {v : BitVec 32} (h : v.msb = false) :
    v.sdiv 10#32 = v / 10#32 ∧ v.srem 10#32 = v % 10#32 := by
  have hten : (10#32).msb = false := rfl
  constructor
  · rw [BitVec.sdiv_eq, h, hten]
    rfl
  · rw [BitVec.srem_eq, h, hten]

theorem div_msb {v : BitVec 32} (h : v.msb = false) : (v / 10#32).msb = false := by
  rw [BitVec.msb_eq_false_iff_two_mul_lt] at h ⊢
  rw [BitVec.toNat_udiv, show (10#32).toNat = 10 from rfl]
  omega

theorem toNat_ne_zero {w : Nat} {v : BitVec w} (h : v ≠ 0#w) : 0 < v.toNat := by
  apply Nat.pos_of_ne_zero
  intro hz
  exact h (BitVec.eq_of_toNat_eq (hz.trans BitVec.toNat_zero.symm))

theorem digits_step {n : Nat} (h : 0 < n) :
    (Nat.digits 10 n).length = (Nat.digits 10 (n / 10)).length + 1 ∧
      (Nat.digits 10 n).reverse = (Nat.digits 10 (n / 10)).reverse ++ [n % 10] := by
  rw [Nat.digits_def' (by decide) h]
  exact ⟨rfl, List.reverse_cons⟩

/-- The first loop of `print_dec` stores the digits, the most significant one last. The induction
is on the room in the buffer. -/
theorem decDigits_eq (room : Nat) (v : BitVec 32) (buf : List Byte) (hv : v.msb = false)
    (hgo : v ≠ 0#32 ∨ buf ≠ []) (hroom : (Nat.digits 10 v.toNat).length ≤ room) :
    decDigits room v buf =
      .ok ((Nat.digits 10 v.toNat).reverse.map (BitVec.ofNat 8) ++ buf) := by
  induction room generalizing v buf with
  | zero =>
      have hz : v = 0#32 := by
        by_contra hne
        have := (digits_step (toNat_ne_zero hne)).1
        omega
      have hbuf : buf ≠ [] := hgo.resolve_left fun hne => hne hz
      subst hz
      simp [decDigits, hbuf]
  | succ room ih =>
      by_cases hz : v = 0#32
      · have hbuf : buf ≠ [] := hgo.resolve_left fun hne => hne hz
        subst hz
        simp [decDigits, hbuf]
      · have hstep := digits_step (toNat_ne_zero hz)
        have hquot : (v / 10#32).toNat = v.toNat / 10 := BitVec.toNat_udiv
        have hdigit : (v % 10#32).setWidth 8 = BitVec.ofNat 8 (v.toNat % 10) := by
          apply BitVec.eq_of_toNat_eq
          rw [BitVec.toNat_setWidth, BitVec.toNat_umod, BitVec.toNat_ofNat]
          rfl
        rw [decDigits, if_pos (.inl hz), (signed_step hv).1, (signed_step hv).2, hdigit,
          ih _ _ (div_msb hv) (.inr (List.cons_ne_nil _ _)) (by rw [hquot]; omega), hquot,
          hstep.2, List.map_append, List.append_assoc]
        rfl

/-- The loop of `%u` and `%llu`. -/
theorem storeDigits_eq {w : Nat} (hw : 8 ≤ w) (room : Nat) (v : BitVec w) (buf : List Byte)
    (hroom : (Nat.digits 10 v.toNat).length ≤ room) :
    storeDigits room v buf = .ok ((Nat.digits 10 v.toNat).reverse.map decChar ++ buf) := by
  have hpow : 2 ^ 8 ≤ 2 ^ w := Nat.pow_le_pow_right (by decide) hw
  induction room generalizing v buf with
  | zero =>
      have hz : v = 0#w := by
        by_contra hne
        have := (digits_step (toNat_ne_zero hne)).1
        omega
      subst hz
      simp [storeDigits]
  | succ room ih =>
      by_cases hz : v = 0#w
      · subst hz
        simp [storeDigits]
      · have hstep := digits_step (toNat_ne_zero hz)
        have hten : (10#w).toNat = 10 := by
          rw [BitVec.toNat_ofNat]
          exact Nat.mod_eq_of_lt (by omega)
        have hpos : 0#w < v := by
          rw [BitVec.lt_def, BitVec.toNat_zero]
          exact toNat_ne_zero hz
        have hquot : (v / 10#w).toNat = v.toNat / 10 := by rw [BitVec.toNat_udiv, hten]
        have hchar : (v % 10#w + (ascii '0').setWidth w).setWidth 8 = decChar (v.toNat % 10) := by
          have hascii : ((ascii '0').setWidth w).toNat = 48 := by
            rw [BitVec.toNat_setWidth]
            exact Nat.mod_eq_of_lt (by omega)
          apply BitVec.eq_of_toNat_eq
          rw [BitVec.toNat_setWidth, BitVec.toNat_add, BitVec.toNat_umod, hten, hascii, decChar,
            BitVec.toNat_add, BitVec.toNat_ofNat, show (ascii '0').toNat = 48 from rfl]
          rw [Nat.mod_eq_of_lt (a := v.toNat % 10 + 48) (by omega)]
          omega
        rw [storeDigits, if_pos hpos, hchar, ih _ _ (by rw [hquot]; omega), hquot, hstep.2,
          List.map_append, List.append_assoc]
        rfl

/-! ## The parts of a format -/

theorem printUnsigned_decimal {w size : Nat} (hw : 8 ≤ w) (v : BitVec w)
    (hsize : v.toNat < 10 ^ size) :
    ∃ out, printUnsigned size v = .ok out ∧ Decimal v.toNat out := by
  refine ⟨_, ?_, decimal_written v.toNat⟩
  by_cases hz : v = 0#w
  · subst hz
    rw [printUnsigned, if_pos rfl, BitVec.toNat_zero]
    rfl
  · have hne : v.toNat ≠ 0 := Nat.ne_of_gt (toNat_ne_zero hz)
    rw [printUnsigned, if_neg hz, storeDigits_eq hw size v []
      ((Nat.digits_length_le_iff (by decide) _).mpr hsize), List.append_nil, Numerals.written,
      if_neg hne]

/-- A number that is not negative. -/
theorem printDec_nonneg (fuel : Nat) {v : BitVec 32} (hv : v.msb = false) :
    printDec (fuel + 1) v = .ok ((Numerals.written 10 v.toNat).map decChar) := by
  have hslt : v.slt 0#32 = false := by rw [BitVec.slt_zero_eq_msb, hv]
  rw [printDec, hslt, if_neg (by decide)]
  by_cases hz : v = 0#32
  · subst hz
    rfl
  · have hne : v.toNat ≠ 0 := Nat.ne_of_gt (toNat_ne_zero hz)
    have hlen : (Nat.digits 10 v.toNat).length ≤ 12 :=
      (Nat.digits_length_le_iff (by decide) _).mpr (Nat.lt_trans v.isLt (by decide))
    rw [decDigits_eq 12 v [] hv (.inl hz) hlen, List.append_nil, Numerals.written, if_neg hne]
    show Except.ok (List.map _ (List.map _ _)) = _
    rw [List.map_map]
    rfl

/-- The negation of a negative number other than the smallest one. -/
theorem neg_of_neg {v : BitVec 32} (hv : v.msb = true) (hne : v ≠ intMin) :
    (-v).msb = false ∧ (-v).toNat = v.toInt.natAbs ∧ v.toInt < 0 := by
  have hlt := v.isLt
  have hmsb : 2 ^ 31 ≤ v.toNat := by
    rw [BitVec.msb_eq_true_iff_two_mul_ge] at hv
    omega
  have hnat : v.toNat ≠ 2 ^ 31 := fun h => hne (BitVec.eq_of_toNat_eq h)
  have hneg : (-v).toNat = 2 ^ 32 - v.toNat := by
    rw [BitVec.toNat_neg]
    exact Nat.mod_eq_of_lt (by omega)
  have hint : v.toInt = (v.toNat : Int) - 2 ^ 32 := by
    rw [BitVec.toInt_eq_toNat_cond, if_neg (by omega)]
    rfl
  refine ⟨?_, ?_, ?_⟩
  · rw [BitVec.msb_eq_false_iff_two_mul_lt, hneg]
    omega
  · rw [hneg, hint]
    omega
  · rw [hint]
    omega

theorem printDec_signed {v : BitVec 32} (hne : v ≠ intMin) :
    ∃ out, SignedDecimal v.toInt out ∧ ∀ fuel, 2 ≤ fuel → printDec fuel v = .ok out := by
  by_cases hv : v.msb = true
  · have ⟨hmsb, hnat, hlt⟩ := neg_of_neg hv hne
    refine ⟨ascii '-' :: (Numerals.written 10 (-v).toNat).map decChar, ?_, fun fuel hfuel => ?_⟩
    · rw [SignedDecimal, if_pos hlt, ← hnat]
      exact ⟨_, rfl, decimal_written _⟩
    · have ⟨n, hn⟩ := Nat.exists_eq_add_of_le hfuel
      have hslt : v.slt 0#32 = true := by rw [BitVec.slt_zero_eq_msb, hv]
      rw [hn, Nat.add_comm, printDec, if_pos hslt, printDec_nonneg n hmsb]
      rfl
  · have hmsb : v.msb = false := by simpa using hv
    have hint : v.toInt = v.toNat := BitVec.toInt_eq_toNat_of_msb hmsb
    refine ⟨(Numerals.written 10 v.toNat).map decChar, ?_, fun fuel hfuel => ?_⟩
    · rw [SignedDecimal, hint, if_neg (by omega), Int.natAbs_natCast]
      exact decimal_written _
    · have ⟨n, hn⟩ := Nat.exists_eq_add_of_le hfuel
      rw [hn, Nat.add_comm]
      exact printDec_nonneg (n + 1) hmsb

/-- `-INT_MIN` is `INT_MIN`. -/
theorem printDec_intMin (fuel : Nat) : printDec fuel intMin = .error .outOfFuel := by
  induction fuel with
  | zero => rfl
  | succ fuel ih =>
      have hneg : -intMin = intMin := rfl
      have hslt : intMin.slt 0#32 = true := rfl
      rw [printDec, if_pos hslt, hneg, ih]
      rfl

theorem printString_eq {s : List Byte} (h : 0#8 ∈ s) :
    printString s = .ok (s.takeWhile (· != 0#8)) := by
  induction s with
  | nil => exact absurd h List.not_mem_nil
  | cons c s ih =>
      by_cases hc : c = 0#8
      · simp [printString, hc]
      · have hs : 0#8 ∈ s := (List.mem_cons.mp h).resolve_left (Ne.symm hc)
        rw [printString, if_neg hc, ih hs, List.takeWhile_cons_of_pos (by simpa using hc)]
        rfl

/-- A string argument has an end. -/
def Item.Terminated : Item → Prop
  | .str s => 0#8 ∈ s
  | _ => True

theorem Takes.terminated {f f' : List Byte} {args args' : List Arg} {x : Item}
    (h : Takes f args x f' args') : x.Terminated := by
  cases h with
  | str h => exact h
  | _ => exact trivial

/-- A part that does not go wrong is printed as it should be. -/
theorem Item.print_renders {x : Item} (ht : x.Terminated) (hs : x.Safe) :
    ∃ out, x.Renders out ∧ ∀ fuel, 2 ≤ fuel → x.print fuel = .ok out := by
  cases x with
  | lit c => exact ⟨[c], rfl, fun _ _ => rfl⟩
  | str s => exact ⟨_, rfl, fun _ _ => printString_eq ht⟩
  | hex v => exact ⟨_, hexadecimal_printHex v, fun _ _ => rfl⟩
  | dec v => exact printDec_signed hs
  | unsigned v =>
      have hlt : v.toNat < 10 ^ 12 := Nat.lt_trans v.isLt (by decide)
      have ⟨out, hout, hdec⟩ := printUnsigned_decimal (by decide) v hlt
      exact ⟨out, hdec, fun _ _ => hout⟩
  | ulonglong v =>
      have hlt : v.toNat < 10 ^ 24 := Nat.lt_trans v.isLt (by decide)
      have ⟨out, hout, hdec⟩ := printUnsigned_decimal (by decide) v hlt
      exact ⟨out, hdec, fun _ _ => hout⟩
  | char v => exact ⟨_, rfl, fun _ _ => rfl⟩
  | dangling => exact absurd hs id

/-- A part that is printed at all does not go wrong. -/
theorem Item.safe_of_print {x : Item} {fuel : Nat} {out : List Byte}
    (h : x.print fuel = .ok out) : x.Safe := by
  cases x with
  | dec v =>
      rintro rfl
      rw [Item.print, printDec_intMin] at h
      cases h
  | dangling => cases h
  | _ => exact trivial

/-! ## The loop over the format -/

theorem fetch_of_drop {mem t : List Byte} {c : Byte} {i : Nat} (h : mem.drop i = c :: t) :
    fetch mem i = .ok c ∧ mem.drop (i + 1) = t := by
  have hget : mem[i]? = some c := by
    rw [← Nat.add_zero i, ← List.getElem?_drop, h]
    rfl
  refine ⟨?_, ?_⟩
  · rw [fetch, hget]
  · rw [← List.drop_drop, h]
    rfl

theorem fetch_past {mem : List Byte} {i : Nat} (h : mem.drop i = []) :
    fetch mem i = .error .pastEnd := by
  rw [fetch, List.getElem?_eq_none (List.drop_eq_nil_iff.mp h)]

/-- The characters that begin the conversions differ. -/
theorem isLlu_of_ne {mem : List Byte} {i : Nat} {d : Byte} (h : d ≠ ascii 'l') :
    isLlu mem i d = .ok false := by
  rw [isLlu, if_neg h]

/-- The test for `%llu` looks no further than the NUL. -/
theorem isLlu_false {mem f : List Byte} {i : Nat} {d : Byte} (hno : ¬Converts d f)
    (hmem : mem.drop i = d :: f ++ [0#8]) : isLlu mem i d = .ok false := by
  by_cases hd : d = ascii 'l'
  · have hnext := (fetch_of_drop hmem).2
    rw [isLlu, if_pos hd]
    cases f with
    | nil =>
        rw [(fetch_of_drop hnext).1, bind_ok, if_neg (by decide)]
    | cons c g =>
        have ⟨hc, hrest⟩ := fetch_of_drop hnext
        rw [hc, bind_ok]
        by_cases hl : c = ascii 'l'
        · rw [if_pos hl]
          cases g with
          | nil =>
              rw [(fetch_of_drop hrest).1]
              rfl
          | cons e g =>
              have hu : (e == ascii 'u') = false := by
                rw [beq_eq_false_iff_ne]
                rintro rfl
                exact hno (.inr (.inr (.inr (.inr (.inr ⟨hd, g, by rw [hl]⟩)))))
              rw [(fetch_of_drop hrest).1, bind_ok, hu]
        · rw [if_neg hl]
  · exact isLlu_of_ne hd

theorem isLlu_true {mem f : List Byte} {i : Nat}
    (hmem : mem.drop i = ascii 'l' :: ascii 'l' :: ascii 'u' :: f) :
    isLlu mem i (ascii 'l') = .ok true ∧ mem.drop (i + 2 + 1) = f := by
  have hfirst := (fetch_of_drop hmem).2
  have ⟨hl, hsecond⟩ := fetch_of_drop hfirst
  have ⟨hu, hthird⟩ := fetch_of_drop hsecond
  refine ⟨?_, hthird⟩
  rw [isLlu, if_pos rfl, hl, bind_ok, if_pos rfl, hu]
  rfl

/-- What stands behind a `%` is printed, and the loop goes on behind the conversion. -/
theorem conversion_takes {f f' mem : List Byte} {args args' : List Arg} {x : Item} {i : Nat}
    (h : Takes (ascii '%' :: f) args x f' args') (hmem : mem.drop i = f ++ [0#8]) :
    ∃ j, mem.drop (j + 1) = f' ++ [0#8] ∧
      ∀ fuel, conversion fuel mem i args = (x.print fuel).map (·, j, args') := by
  cases h with
  | lit h => exact absurd rfl h
  | str h =>
      have ⟨hget, hrest⟩ := fetch_of_drop hmem
      refine ⟨i, hrest, fun fuel => ?_⟩
      rw [conversion, hget, bind_ok, if_pos rfl]
      rfl
  | hex =>
      have ⟨hget, hrest⟩ := fetch_of_drop hmem
      refine ⟨i, hrest, fun fuel => ?_⟩
      rw [conversion, hget, bind_ok, if_neg (by decide), if_pos rfl]
      rfl
  | dec =>
      have ⟨hget, hrest⟩ := fetch_of_drop hmem
      refine ⟨i, hrest, fun fuel => ?_⟩
      rw [conversion, hget, bind_ok, if_neg (by decide), if_neg (by decide), if_pos rfl]
      rfl
  | unsigned =>
      have ⟨hget, hrest⟩ := fetch_of_drop hmem
      refine ⟨i, hrest, fun fuel => ?_⟩
      rw [conversion, hget, bind_ok, if_neg (by decide), if_neg (by decide), if_neg (by decide),
        if_pos rfl]
      rfl
  | ulonglong =>
      have hget := (fetch_of_drop hmem).1
      have ⟨hllu, hrest⟩ := isLlu_true hmem
      refine ⟨i + 2, hrest, fun fuel => ?_⟩
      rw [conversion, hget, bind_ok, if_neg (by decide), if_neg (by decide), if_neg (by decide),
        if_neg (by decide), hllu, bind_ok, if_pos rfl]
      rfl
  | char =>
      have ⟨hget, hrest⟩ := fetch_of_drop hmem
      refine ⟨i, hrest, fun fuel => ?_⟩
      rw [conversion, hget, bind_ok, if_neg (by decide), if_neg (by decide), if_neg (by decide),
        if_neg (by decide), isLlu_of_ne (by decide), bind_ok, if_neg (by decide), if_pos rfl]
      rfl
  | other hno =>
      have ⟨hget, hrest⟩ := fetch_of_drop hmem
      have hllu := isLlu_false hno hmem
      simp only [Converts, not_or] at hno
      have ⟨hs, hx, hd, hu, hc, _⟩ := hno
      refine ⟨i, hrest, fun fuel => ?_⟩
      rw [conversion, hget, bind_ok, if_neg hs, if_neg hx, if_neg hd, if_neg hu, hllu, bind_ok,
        if_neg (by decide), if_neg hc]
      rfl

/-- **One turn of the loop.** A part is printed and its argument is used up. -/
theorem printf_takes {f f' mem : List Byte} {args args' : List Arg} {x : Item} {i : Nat}
    (h : Takes f args x f' args') (hnul : ∀ c ∈ f, c ≠ 0#8) (hmem : mem.drop i = f ++ [0#8]) :
    ∃ j, mem.drop j = f' ++ [0#8] ∧
      ∀ fuel, printf (fuel + 1) mem i args =
        x.print fuel >>= fun out => (printf fuel mem j args').map (out ++ ·) := by
  have hpercent : ∀ g, f = ascii '%' :: g → ∃ j, mem.drop j = f' ++ [0#8] ∧
      ∀ fuel, printf (fuel + 1) mem i args =
        x.print fuel >>= fun out => (printf fuel mem j args').map (out ++ ·) := by
    rintro g rfl
    have ⟨hget, hrest⟩ := fetch_of_drop hmem
    have ⟨j, hj, hconv⟩ := conversion_takes h hrest
    refine ⟨j + 1, hj, fun fuel => ?_⟩
    rw [printf, hget, bind_ok, if_neg (by decide), if_pos rfl, hconv]
    cases x.print fuel with
    | error e => rfl
    | ok out => rfl
  cases h with
  | lit hc =>
      have ⟨hget, hrest⟩ := fetch_of_drop hmem
      refine ⟨i + 1, hrest, fun fuel => ?_⟩
      rw [printf, hget, bind_ok, if_neg (hnul _ List.mem_cons_self), if_neg hc]
      rfl
  | _ => exact hpercent _ rfl

theorem Takes.sub {f f' : List Byte} {args args' : List Arg} {x : Item}
    (h : Takes f args x f' args') : ∀ c ∈ f', c ∈ f := by
  cases h <;> intro c hc <;> simp [hc]

/-- Behind the NUL there is nothing to read. -/
theorem printf_behind {mem : List Byte} {args : List Arg} {i : Nat} (hmem : mem.drop i = [])
    (fuel : Nat) :
    printf fuel mem i args = .error (if fuel = 0 then .outOfFuel else .pastEnd) := by
  cases fuel with
  | zero => rfl
  | succ fuel =>
      rw [printf, fetch_past hmem, if_neg (Nat.succ_ne_zero fuel)]
      rfl

/-- A `%` at the end takes the NUL for a conversion, and the loop goes on behind it. -/
theorem printf_dangling {mem : List Byte} {args : List Arg} {i : Nat}
    (hmem : mem.drop i = [ascii '%', 0#8]) (fuel : Nat) :
    printf fuel mem i args = .error (if fuel ≤ 1 then .outOfFuel else .pastEnd) := by
  have ⟨hget, hrest⟩ := fetch_of_drop hmem
  have ⟨hnul, hend⟩ := fetch_of_drop hrest
  cases fuel with
  | zero => rfl
  | succ fuel =>
      rw [printf, hget, bind_ok, if_neg (by decide), if_pos rfl, conversion, hnul, bind_ok,
        if_neg (by decide), if_neg (by decide), if_neg (by decide), if_neg (by decide),
        isLlu_of_ne (by decide), bind_ok, if_neg (by decide), if_neg (by decide), bind_ok]
      show (printf fuel mem (i + 1 + 1) args >>= _) = _
      rw [printf_behind hend, bind_error]
      by_cases hz : fuel = 0
      · rw [if_pos hz, if_pos (by omega)]
      · rw [if_neg hz, if_neg (by omega)]

/-- The whole format, by induction on its parts. -/
theorem printf_renders {f mem : List Byte} {args : List Arg} {xs : List Item} {i : Nat}
    (h : Items f args xs) (hnul : ∀ c ∈ f, c ≠ 0#8) (hsafe : ∀ x ∈ xs, x.Safe)
    (hmem : mem.drop i = f ++ [0#8]) :
    ∃ out, Renders xs out ∧ ∀ fuel, xs.length + 3 ≤ fuel → printf fuel mem i args = .ok out := by
  induction h generalizing i with
  | nil =>
      refine ⟨[], rfl, fun fuel hfuel => ?_⟩
      have hfuel' : fuel = (fuel - 1) + 1 := by omega
      rw [hfuel', printf, (fetch_of_drop hmem).1, bind_ok, if_pos rfl]
  | dangling => exact absurd (hsafe _ List.mem_cons_self) id
  | cons htakes hrest ih =>
      have ⟨j, hj, hstep⟩ := printf_takes htakes hnul hmem
      have ⟨out, hout, hprint⟩ :=
        Item.print_renders htakes.terminated (hsafe _ List.mem_cons_self)
      have ⟨rest, hrenders, hmore⟩ := ih (fun c hc => hnul c (htakes.sub c hc))
        (fun x hx => hsafe x (List.mem_cons_of_mem _ hx)) hj
      refine ⟨out ++ rest, ⟨out, rest, rfl, hout, hrenders⟩, fun fuel hfuel => ?_⟩
      rw [List.length_cons] at hfuel
      have hfuel' : fuel = (fuel - 1) + 1 := by omega
      rw [hfuel', hstep, hprint _ (by omega), hmore _ (by omega)]
      rfl

/-- A format that is printed has no part that goes wrong. -/
theorem safe_of_printf {f mem : List Byte} {args : List Arg} {xs : List Item} {i fuel : Nat}
    {out : List Byte} (h : Items f args xs) (hnul : ∀ c ∈ f, c ≠ 0#8)
    (hmem : mem.drop i = f ++ [0#8]) (hrun : printf fuel mem i args = .ok out) :
    ∀ x ∈ xs, x.Safe := by
  induction h generalizing i fuel out with
  | nil => exact fun x hx => absurd hx List.not_mem_nil
  | dangling =>
      rw [printf_dangling hmem] at hrun
      cases hrun
  | @cons _ _ _ _ x _ htakes hrest ih =>
      have ⟨j, hj, hstep⟩ := printf_takes htakes hnul hmem
      cases fuel with
      | zero => cases hrun
      | succ fuel =>
          rw [hstep] at hrun
          cases hx : x.print fuel with
          | error e =>
              rw [hx] at hrun
              cases hrun
          | ok o =>
              rw [hx, bind_ok] at hrun
              cases hmore : printf fuel mem j _ with
              | error e =>
                  rw [hmore] at hrun
                  cases hrun
              | ok rest =>
                  have htail := ih (fun c hc => hnul c (htakes.sub c hc)) hj hmore
                  intro y hy
                  rcases List.mem_cons.mp hy with rfl | hy
                  · exact Item.safe_of_print hx
                  · exact htail y hy

/-! ## The result -/

/-- A call of `printf` ends, reads nothing behind the NUL of the format, stores nothing outside its
buffers and prints every part of the format as it should. -/
def Exact (fmt : List Byte) (args : List Arg) (xs : List Item) : Prop :=
  ∃ out, Renders xs out ∧ ∃ n, ∀ fuel, n ≤ fuel → printf fuel (fmt ++ [0#8]) 0 args = .ok out

/-- **`printf` is exact if and only if** no `%d` is given the smallest `int` and the format does
not end in the middle of a conversion. -/
theorem printf_exact_iff {fmt : List Byte} {args : List Arg} {xs : List Item}
    (hnul : ∀ c ∈ fmt, c ≠ 0#8) (hargs : Items fmt args xs) :
    Exact fmt args xs ↔ ∀ x ∈ xs, x.Safe := by
  constructor
  · rintro ⟨out, -, n, hrun⟩
    exact safe_of_printf (i := 0) hargs hnul rfl (hrun n (Nat.le_refl n))
  · intro hsafe
    have ⟨out, hout, hrun⟩ := printf_renders (i := 0) hargs hnul hsafe rfl
    exact ⟨out, hout, _, hrun⟩

/-- `printf("%u%%", 7)`. -/
theorem printf_exact_percent :
    Exact [ascii '%', ascii 'u', ascii '%', ascii '%'] [.word 7#32]
      [.unsigned 7#32, .lit (ascii '%')] := by
  have hargs : Items [ascii '%', ascii 'u', ascii '%', ascii '%'] [.word 7#32]
      [.unsigned 7#32, .lit (ascii '%')] :=
    .cons .unsigned (.cons (.other (by simp [Converts]; decide)) .nil)
  refine (printf_exact_iff (by decide) hargs).mpr ?_
  intro x hx
  rcases List.mem_pair.mp hx with rfl | rfl
  · exact trivial
  · exact trivial

/-- `printf("%d", INT_MIN)` does not end, and `printf("%")` reads behind the NUL. -/
theorem printf_inexact :
    (Items [ascii '%', ascii 'd'] [.word intMin] [.dec intMin] ∧
      ¬Exact [ascii '%', ascii 'd'] [.word intMin] [.dec intMin]) ∧
    Items [ascii '%'] [] [.dangling] ∧ ¬Exact [ascii '%'] [] [.dangling] := by
  have hdec : Items [ascii '%', ascii 'd'] [.word intMin] [.dec intMin] := .cons .dec .nil
  refine ⟨⟨hdec, ?_⟩, .dangling, ?_⟩
  · rintro ⟨out, -, n, hrun⟩
    exact safe_of_printf (i := 0) hdec (by decide) rfl (hrun n (Nat.le_refl n)) _
      List.mem_cons_self rfl
  · rintro ⟨out, -, n, hrun⟩
    have hfull := hrun n (Nat.le_refl n)
    rw [printf_dangling rfl] at hfull
    cases hfull


end Print

end MelonSoc
