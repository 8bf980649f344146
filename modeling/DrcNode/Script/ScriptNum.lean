import DrcNode.Script.Stack
import DrcNode.Wire.Decode
import Mathlib.Data.Nat.Digits.Lemmas

/-!
# Script numbers

A number is written to the stack with its absolute value in bytes, least significant first, and its
sign in the highest bit of the last byte, in as few bytes as possible. Here that is read back: the
bytes of a number stand for the number, and bytes in the shortest form are those of the number they
stand for. The least `int64` has no negation, and writing it panics.

## Main results

* `scriptNum_roundTrips_iff`.

Source: `txscript/scriptnum.go`.
-/

namespace DrcNode

open List Nat Int Int64 BitVec ScriptNum

/-! ### Writing -/

/-- `(scriptNum).Bytes`: little-endian, with the sign in the highest bit of the last byte. -/
def scriptNumBytes (n : Int) : List UInt8 :=
  let magnitude := (Nat.digits 256 n.natAbs).map UInt8.ofNat
  match magnitude.getLast? with
  | none => []
  | some last =>
      let sign : UInt8 := if n < 0 then 0x80 else 0
      if last &&& 0x80 ≠ 0 then magnitude ++ [sign] else magnitude.dropLast ++ [last ||| sign]

theorem toInt_shiftRight_eight (n : Int64) : (n >>> 8).toInt = n.toInt / 256 := by
  rw [← toInt_toBitVec, Int64.toBitVec_shiftRight, sshiftRight_eq', toInt_sshiftRight,
    Int.shiftRight_eq_div_pow]
  rfl

/-- The loop of `scriptNum.Bytes` writes the digits of the number to the base 256. -/
theorem scriptNumDigits_eq {rounds : Nat} {n : Int64} (hn : 0 ≤ n.toInt)
    (hlt : n.toInt < 256 ^ rounds) :
    scriptNumDigits rounds n = (Nat.digits 256 n.toInt.natAbs).map UInt8.ofNat := by
  induction rounds generalizing n with
  | zero =>
    have hz : n.toInt = 0 := by omega
    rw [hz]
    rfl
  | succ rounds ih =>
    rw [scriptNumDigits]
    have hnt := toInt_shiftRight_eight n
    by_cases hp : 0 < n.toInt
    · have hp' : 0 < n := lt_iff_toInt_lt.2 hp
      have hb : n.toNatClampNeg = n.toInt.natAbs := by
        rw [Int64.toNatClampNeg]
        omega
      have hd : (n >>> 8).toInt.natAbs = n.toInt.natAbs / 256 := by omega
      rw [if_pos hp', digits_def' (by decide) (by omega), map_cons, hb, ih (by omega) ?_, hd]
      omega
    · have hz : n.toInt = 0 := by omega
      have hno : ¬0 < n := fun h => hp (lt_iff_toInt_lt.1 h)
      rw [if_neg hno, hz]
      rfl

/-- **The engine and the script builder push the same bytes for a number.** -/
theorem ScriptNum.bytes_eq_scriptNumBytes {n : Int64} (h : n ≠ Int64.minValue) :
    bytes n = .ok (scriptNumBytes n.toInt) := by
  have hle := n.toInt_lt
  have hge : -2 ^ 63 < n.toInt := by
    refine lt_of_le_of_ne n.le_toInt fun heq => h (Int64.toInt_inj.1 ?_)
    rw [← heq]
    rfl
  by_cases hz : n = 0
  · subst hz
    rfl
  have hne : n.toInt ≠ 0 := fun heq => hz (Int64.toInt_inj.1 heq)
  have hn : n < 0 ↔ n.toInt < 0 := lt_iff_toInt_lt
  have hng : (-n).toInt = -n.toInt := by
    rw [Int64.toInt_neg]
    exact bmod_eq_of_le (by omega) (by omega)
  -- the loop runs on the absolute value
  have hdi : ∀ m : Int64, 0 ≤ m.toInt → m.toInt.natAbs = n.toInt.natAbs →
      scriptNumDigits 8 m = (Nat.digits 256 n.toInt.natAbs).map UInt8.ofNat := by
    intro m hm ha
    rw [scriptNumDigits_eq hm (by omega), ha]
  have hd : (Nat.digits 256 n.toInt.natAbs).map UInt8.ofNat ≠ [] := by
    rw [Ne, map_eq_nil_iff, digits_eq_nil_iff_eq_zero]
    omega
  have hl := getLast?_eq_some_getLast hd
  by_cases hlt : n < 0
  · have hlt' := hn.1 hlt
    simp only [bytes, scriptNumBytes, hlt, hlt', decide_true, if_true,
      hdi (-n) (by omega) (by omega), hl]
    split_ifs <;> rfl
  · have hlt' : ¬n.toInt < 0 := fun h => hlt (hn.2 h)
    simp only [bytes, scriptNumBytes, hlt, hlt', decide_false, Bool.false_eq_true, if_false,
      hdi n (by omega) rfl, hl]
    split_ifs
    · rfl
    · rw [UInt8.or_zero, dropLast_append_getLast hd]

/-! ### Digits -/

theorem ofLeBytes_map_ofNat {digits : List Nat} (h : ∀ d ∈ digits, d < 256) :
    ofLeBytes (digits.map UInt8.ofNat) = Nat.ofDigits 256 digits := by
  induction digits with
  | nil => rfl
  | cons d digits ih =>
    rw [forall_mem_cons] at h
    rw [map_cons, ofLeBytes, ih h.2, ofDigits_cons, UInt8.toNat_ofNat', mod_eq_of_lt h.1]

variable {bytes init : List UInt8} {last : UInt8}

theorem map_digits_ofLeBytes (hl : bytes.getLast? = some last) (hne : last ≠ 0) :
    (Nat.digits 256 (ofLeBytes bytes)).map UInt8.ofNat = bytes := by
  have hb : (bytes.map UInt8.toNat).map UInt8.ofNat = bytes := by
    rw [map_map]
    exact (map_congr_left fun b _ => UInt8.ofNat_toNat).trans (map_id bytes)
  have hlt : ∀ d ∈ bytes.map UInt8.toNat, d < 256 := by
    intro d hd
    obtain ⟨b, -, rfl⟩ := mem_map.1 hd
    exact b.toNat_lt
  have hv := ofLeBytes_map_ofNat hlt
  rw [hb] at hv
  rw [hv, digits_ofDigits 256 (by decide) _ hlt, hb]
  intro hn
  rw [getLast_map, (getLast_eq_iff_getLast?_eq_some _).2 hl]
  exact fun hz => hne (UInt8.toNat_inj.1 hz)

theorem toNat_and_0x7f (b : UInt8) : (b &&& 0x7f).toNat = b.toNat % 128 := by
  exact and_two_pow_sub_one_eq_mod _ 7

theorem and_0x80_ne_zero_iff {b : UInt8} : b &&& 0x80 ≠ 0 ↔ 128 ≤ b.toNat := by
  have hlt : b < 0x80 ↔ ¬128 ≤ b.toNat := UInt8.lt_iff_toNat_lt.trans not_le.symm
  rw [and_0x80]
  simp [hlt]

theorem length_scriptNumBytes_le {val : Int} {k : Nat} (h : val.natAbs < 256 ^ k) :
    (scriptNumBytes val).length ≤ k + 1 := by
  have hln : ((Nat.digits 256 val.natAbs).map UInt8.ofNat).length ≤ k := by
    rw [length_map]
    exact (digits_length_le_iff (by decide) val.natAbs).2 h
  rw [scriptNumBytes]
  generalize (Nat.digits 256 val.natAbs).map UInt8.ofNat = magnitude at hln ⊢
  cases hl : magnitude.getLast? with
  | none => exact zero_le _
  | some last =>
    dsimp only
    split_ifs <;> simp <;> omega

theorem length_scriptNumBytes_toInt_le (val : Int64) : (scriptNumBytes val.toInt).length ≤ 9 := by
  refine length_scriptNumBytes_le (k := 8) ?_
  have h₁ := val.toInt_lt
  have h₂ := val.le_toInt
  omega

/-! ### Reading -/

/-- The absolute value that bytes stand for, without the sign in the last one. -/
def scriptNumMagnitude (init : List UInt8) (last : UInt8) : Nat :=
  ofLeBytes (init ++ [last &&& 0x7f])

/-- The number that bytes stand for. -/
def scriptNumValue (v : List UInt8) : Int :=
  match v.getLast? with
  | none => 0
  | some last =>
      if last &&& 0x80 ≠ 0 then -(scriptNumMagnitude v.dropLast last : Int)
      else scriptNumMagnitude v.dropLast last

theorem scriptNumMagnitude_eq :
    scriptNumMagnitude init last = ofLeBytes init + 256 ^ init.length * (last.toNat % 128) := by
  rw [scriptNumMagnitude, ofLeBytes_concat, toNat_and_0x7f]

theorem scriptNumMagnitude_lt : scriptNumMagnitude init last < 256 ^ init.length * 128 := by
  have hi := ofLeBytes_lt init
  have hl : last.toNat % 128 + 1 ≤ 128 := mod_lt _ (by decide)
  have hle := Nat.mul_le_mul_left (256 ^ init.length) hl
  rw [scriptNumMagnitude_eq]
  rw [Nat.mul_add] at hle
  omega

theorem scriptNumValue_concat : scriptNumValue (init ++ [last]) =
    if last &&& 0x80 ≠ 0 then -(scriptNumMagnitude init last : Int)
    else scriptNumMagnitude init last := by
  simp [scriptNumValue]

theorem toNat_shiftLeft64 {val i : Nat} (hv : val < 256) (hi : i < 8) :
    (shiftLeft64 (Int64.ofNat val) (8 * i % 256)).toBitVec.toNat = 256 ^ i * val := by
  have hs : (Int64.ofNat (8 * i)).toBitVec.smod 64 = BitVec.ofNat 64 (8 * i) := by
    interval_cases i <;> decide
  have hp : 2 ^ (8 * i) = 256 ^ i := pow_mul 2 8 i
  have hle : 256 ^ i ≤ 256 ^ 7 := Nat.pow_le_pow_right (by decide) (by omega)
  have hlt : val * 256 ^ i < 2 ^ 64 := by
    calc val * 256 ^ i ≤ 255 * 256 ^ 7 := Nat.mul_le_mul (by omega) hle
      _ < 2 ^ 64 := by norm_num
  rw [mod_eq_of_lt (show 8 * i < 256 by omega), shiftLeft64, if_pos (by omega),
    Int64.toBitVec_shiftLeft, hs, BitVec.shiftLeft_eq', toNat_shiftLeft,
    toNat_ofNat, mod_eq_of_lt (show 8 * i < 2 ^ 64 by omega), Nat.shiftLeft_eq, hp]
  change val % 2 ^ 64 * 256 ^ i % 2 ^ 64 = _
  rw [mod_eq_of_lt (show val < 2 ^ 64 by omega), mod_eq_of_lt hlt, Nat.mul_comm]

/-- The loop of `makeScriptNum` adds up the bytes. -/
theorem toNat_scriptNumLoop {i : Nat} {result : Int64} (hi : i + bytes.length ≤ 8)
    (hr : result.toBitVec.toNat < 256 ^ i) :
    (scriptNumLoop i result bytes).toBitVec.toNat =
      result.toBitVec.toNat + 256 ^ i * ofLeBytes bytes := by
  induction bytes generalizing i result with
  | nil => rw [scriptNumLoop, ofLeBytes, Nat.mul_zero, Nat.add_zero]
  | cons val bytes ih =>
    rw [length_cons] at hi
    have hv := val.toNat_lt
    have hp : 256 ^ i = 2 ^ (8 * i) := (pow_mul 2 8 i).symm
    have hn : (result ||| shiftLeft64 (Int64.ofNat val.toNat) (8 * i % 256)).toBitVec.toNat =
        256 ^ i * val.toNat + result.toBitVec.toNat := by
      rw [Int64.toBitVec_or, toNat_or, toNat_shiftLeft64 hv (by omega), Nat.or_comm, hp,
        two_pow_add_eq_or_of_lt (hp ▸ hr)]
    rw [scriptNumLoop, ih (by omega), hn, ofLeBytes]
    · ring
    · rw [hn]
      have hle := Nat.mul_le_mul_left (256 ^ i) (show val.toNat + 1 ≤ 256 by omega)
      rw [Nat.mul_add] at hle
      omega

theorem toNat_and_not {x : Int64} {i : Nat} (hi : i < 8) (hx : x.toBitVec.toNat < 2 ^ (8 * i + 8)) :
    (x &&& ~~~shiftLeft64 0x80 (8 * i % 256)).toBitVec.toNat =
      x.toBitVec.toNat % 2 ^ (8 * i + 7) := by
  have hs : (shiftLeft64 0x80 (8 * i % 256)).toBitVec = BitVec.ofNat 64 (2 ^ (8 * i + 7)) := by
    interval_cases i <;> decide
  refine eq_of_testBit_eq fun j => ?_
  rw [Int64.toBitVec_and, Int64.toBitVec_not, hs, testBit_mod_two_pow, testBit_toNat,
    testBit_toNat, getLsbD_and, getLsbD_not, getLsbD_ofNat]
  have hj : 8 * i + 8 ≤ j → x.toBitVec.getLsbD j = false := fun hle => by
    exact testBit_lt_two_pow (hx.trans_le (Nat.pow_le_pow_right (by decide) hle))
  by_cases hle : 8 * i + 8 ≤ j
  · rw [hj hle, Bool.false_and, Bool.and_false]
  · have h64 : j < 64 := by omega
    by_cases heq : 8 * i + 7 = j
    · simp [heq]
    · simp [heq, h64, show j < 8 * i + 7 by omega]

theorem toInt_eq_of_toNat_lt {x : Int64} (h : x.toBitVec.toNat < 2 ^ 63) :
    x.toInt = x.toBitVec.toNat :=
  toInt_eq_toNat_of_lt (by omega)

section

variable (hi : init.length < 8)
include hi

theorem toNat_scriptNumLoop_concat :
    (scriptNumLoop 0 0 (init ++ [last])).toBitVec.toNat = ofLeBytes (init ++ [last]) := by
  have hl := @toNat_scriptNumLoop (init ++ [last]) 0 0
    (by rw [length_append, length_singleton]; omega) (by decide)
  rw [hl, toBitVec_zero, BitVec.toNat_zero, Nat.zero_add, pow_zero, Nat.one_mul]

theorem scriptNumMagnitude_lt_of_length : scriptNumMagnitude init last < 2 ^ 63 := by
  have hlt := @scriptNumMagnitude_lt init last
  have hle : 256 ^ init.length ≤ 256 ^ 7 := Nat.pow_le_pow_right (by decide) (by omega)
  omega

theorem toInt_scriptNumLoop (hs : ¬last &&& 0x80 ≠ 0) :
    (scriptNumLoop 0 0 (init ++ [last])).toInt = scriptNumMagnitude init last := by
  have hlt := @scriptNumMagnitude_lt_of_length init last hi
  rw [and_0x80_ne_zero_iff] at hs
  have hm : (scriptNumLoop 0 0 (init ++ [last])).toBitVec.toNat = scriptNumMagnitude init last := by
    rw [toNat_scriptNumLoop_concat hi, ofLeBytes_concat, scriptNumMagnitude_eq,
      mod_eq_of_lt (by omega)]
  rw [toInt_eq_of_toNat_lt (by omega), hm]

theorem toInt_neg_scriptNumLoop : (-(scriptNumLoop 0 0 (init ++ [last]) &&&
      ~~~shiftLeft64 0x80 (8 * init.length % 256))).toInt = -scriptNumMagnitude init last := by
  have hl := @toNat_scriptNumLoop_concat init last hi
  have hlt := @scriptNumMagnitude_lt_of_length init last hi
  have ha : ofLeBytes (init ++ [last]) < 256 ^ (init.length + 1) := by
    have := ofLeBytes_lt (init ++ [last])
    rwa [length_append, length_singleton] at this
  have hp : 2 ^ (8 * init.length) = 256 ^ init.length := pow_mul 2 8 init.length
  have hm : (scriptNumLoop 0 0 (init ++ [last]) &&&
      ~~~shiftLeft64 0x80 (8 * init.length % 256)).toBitVec.toNat =
        scriptNumMagnitude init last := by
    rw [toNat_and_not hi, hl]
    · rw [ofLeBytes_concat, scriptNumMagnitude_eq, pow_add, hp, mod_mul,
        add_mul_mod_self_left, mod_eq_of_lt (ofLeBytes_lt init),
        add_mul_div_left _ _ (by positivity), div_eq_of_lt (ofLeBytes_lt init), zero_add]
      rfl
    · rw [hl, pow_add, hp]
      simpa [pow_succ] using ha
  rw [Int64.toInt_neg, toInt_eq_of_toNat_lt (by omega), hm]
  exact bmod_eq_of_le (by omega) (by omega)

end

/-- The number that `makeScriptNum` returns, for at most eight bytes. -/
theorem makeScriptNum_eq_ok_iff {requireMinimal : Bool} {scriptNumLen : Nat} {n : Int64}
    (hb : bytes.length ≤ 8) :
    makeScriptNum bytes requireMinimal scriptNumLen = .ok n ↔ bytes.length ≤ scriptNumLen ∧
      (requireMinimal = true → checkMinimalDataEncoding bytes = .ok ()) ∧
      n.toInt = scriptNumValue bytes := by
  obtain ⟨m, hm, hv⟩ : ∃ m : Int64, m.toInt = scriptNumValue bytes ∧
      ∀ n, makeScriptNum bytes requireMinimal scriptNumLen = .ok n ↔ bytes.length ≤ scriptNumLen ∧
        (requireMinimal = true → checkMinimalDataEncoding bytes = .ok ()) ∧ m = n := by
    obtain rfl | ⟨init, last, rfl⟩ := bytes.eq_nil_or_concat
    · exact ⟨0, rfl, fun n => by
        cases requireMinimal <;> simp [makeScriptNum, checkMinimalDataEncoding, -bind_pure_comp]⟩
    have hi : init.length < 8 := by simpa [concat_eq_append] using hb
    rw [concat_eq_append, scriptNumValue_concat]
    by_cases hs : last &&& 0x80 ≠ 0
    · refine ⟨_, (toInt_neg_scriptNumLoop hi).trans (if_pos hs).symm, fun n => ?_⟩
      cases requireMinimal <;> simp [makeScriptNum, hs, Unique.exists_iff, -bind_pure_comp]
    · refine ⟨_, (toInt_scriptNumLoop hi hs).trans (if_neg hs).symm, fun n => ?_⟩
      cases requireMinimal <;> simp [makeScriptNum, hs, Unique.exists_iff, -bind_pure_comp]
  rw [hv, ← hm, ← Int64.toInt_inj, eq_comm (a := n.toInt)]

/-! ### There and back -/

theorem checkMinimalDataEncoding_concat : checkMinimalDataEncoding (init ++ [last]) = .ok () ↔
    last.toNat % 128 ≠ 0 ∨ ∃ before ∈ init.getLast?, 128 ≤ before.toNat := by
  have hl : last &&& 0x7f ≠ 0 ↔ last.toNat % 128 ≠ 0 := by
    rw [Ne, ← UInt8.toNat_inj, toNat_and_0x7f]
    rfl
  rw [checkMinimalDataEncoding]
  obtain rfl | ⟨init, before, rfl⟩ := init.eq_nil_or_concat
  · simp [hl]
  · simp [hl, and_0x80_ne_zero_iff]

theorem toNat_or_0x80 {b : UInt8} (hb : b.toNat < 128) : (b ||| 0x80).toNat = b.toNat + 128 := by
  rw [UInt8.toNat_or, Nat.or_comm, Nat.add_comm]
  exact (two_pow_add_eq_or_of_lt (i := 7) hb 1).symm

theorem natAbs_scriptNumValue_concat :
    (scriptNumValue (init ++ [last])).natAbs = scriptNumMagnitude init last := by
  rw [scriptNumValue_concat]
  split_ifs
  · rw [natAbs_neg, natAbs_natCast]
  · rw [natAbs_natCast]

theorem scriptNumValue_eq {n : Int} (hm : scriptNumMagnitude init last = n.natAbs)
    (hs : 128 ≤ last.toNat ↔ n < 0) : scriptNumValue (init ++ [last]) = n := by
  rw [scriptNumValue_concat, hm]
  simp only [and_0x80_ne_zero_iff, hs]
  split_ifs <;> omega

theorem scriptNumValue_neg_iff (hp : scriptNumMagnitude init last ≠ 0) :
    scriptNumValue (init ++ [last]) < 0 ↔ 128 ≤ last.toNat := by
  rw [scriptNumValue_concat]
  simp only [and_0x80_ne_zero_iff]
  split_ifs with h <;> omega

theorem scriptNumBytes_of_digits {n : Int}
    (h : (Nat.digits 256 n.natAbs).map UInt8.ofNat = init ++ [last]) :
    scriptNumBytes n = if 128 ≤ last.toNat then init ++ [last] ++ [if n < 0 then 0x80 else 0]
      else init ++ [last ||| if n < 0 then 0x80 else 0] := by
  simp [scriptNumBytes, h, and_0x80_ne_zero_iff]

/-- The bytes of a number are in the shortest form, and stand for the number. -/
theorem scriptNumValue_scriptNumBytes (n : Int) : scriptNumValue (scriptNumBytes n) = n ∧
    checkMinimalDataEncoding (scriptNumBytes n) = .ok () := by
  by_cases hn : n = 0
  · subst hn
    exact ⟨rfl, rfl⟩
  obtain ⟨init, last, hdi, hl⟩ : ∃ init last,
      (Nat.digits 256 n.natAbs).map UInt8.ofNat = init ++ [last] ∧ last.toNat ≠ 0 := by
    have hne : Nat.digits 256 n.natAbs ≠ [] :=
      digits_ne_nil_iff_ne_zero.2 (natAbs_ne_zero.2 hn)
    refine ⟨(Nat.digits 256 n.natAbs).dropLast.map UInt8.ofNat,
      UInt8.ofNat ((Nat.digits 256 n.natAbs).getLast hne), ?_, ?_⟩
    · rw [← map_singleton, ← map_append, dropLast_append_getLast]
    · rw [UInt8.toNat_ofNat', mod_eq_of_lt (digits_lt_base (by decide) (getLast_mem hne))]
      exact getLast_digit_ne_zero 256 (natAbs_ne_zero.2 hn)
  have hv := @ofLeBytes_map_ofNat (Nat.digits 256 n.natAbs)
    fun d hd => digits_lt_base (by decide) hd
  rw [hdi, ofDigits_digits] at hv
  rw [scriptNumBytes_of_digits hdi]
  have hlt := last.toNat_lt
  by_cases hh : 128 ≤ last.toNat
  · rw [if_pos hh]
    refine ⟨scriptNumValue_eq ?_ ?_, checkMinimalDataEncoding_concat.2
      (.inr ⟨last, getLast?_concat, hh⟩)⟩
    · rw [scriptNumMagnitude_eq, hv]
      split_ifs <;> rfl
    · split_ifs with hng <;> simp [hng]
  · have hor : (last ||| if n < 0 then 0x80 else 0).toNat =
        last.toNat + if n < 0 then 128 else 0 := by
      split_ifs
      · exact toNat_or_0x80 (by omega)
      · rw [UInt8.or_zero, add_zero]
    rw [ofLeBytes_concat] at hv
    rw [if_neg hh]
    refine ⟨scriptNumValue_eq ?_ ?_, checkMinimalDataEncoding_concat.2 (.inl ?_)⟩
    · rw [scriptNumMagnitude_eq, hor, ← hv]
      congr 2
      split_ifs <;> omega
    · rw [hor]
      split_ifs <;> omega
    · rw [hor]
      split_ifs <;> omega

theorem scriptNumBytes_scriptNumValue (h : checkMinimalDataEncoding bytes = .ok ()) :
    scriptNumBytes (scriptNumValue bytes) = bytes := by
  obtain rfl | ⟨init, last, rfl⟩ := bytes.eq_nil_or_concat
  · rfl
  rw [concat_eq_append] at h ⊢
  have hlt := last.toNat_lt
  have hp : ∀ {k m : Nat}, m ≠ 0 → 0 < 256 ^ k * m := fun hm =>
    Nat.mul_pos (Nat.pow_pos (by decide)) (Nat.pos_of_ne_zero hm)
  by_cases hl : last.toNat % 128 = 0
  · obtain ⟨before, hb, hh⟩ := (checkMinimalDataEncoding_concat.1 h).resolve_left (not_not.2 hl)
    have hd := map_digits_ofLeBytes hb (by rintro rfl; exact absurd hh (by decide))
    obtain ⟨init, rfl⟩ := getLast?_eq_some_iff.1 hb
    have hma : scriptNumMagnitude (init ++ [before]) last = ofLeBytes (init ++ [before]) := by
      rw [scriptNumMagnitude_eq, hl, Nat.mul_zero, Nat.add_zero]
    have hs := @scriptNumValue_neg_iff (init ++ [before]) last (by
      have := hp (k := init.length) (show before.toNat ≠ 0 by omega)
      rw [hma, ofLeBytes_concat]
      omega)
    rw [← hma, ← natAbs_scriptNumValue_concat] at hd
    rw [scriptNumBytes_of_digits hd, if_pos hh]
    simp only [hs, append_cancel_left_eq, List.cons.injEq, and_true, ← UInt8.toNat_inj]
    split_ifs
    · change 128 = last.toNat
      omega
    · change 0 = last.toNat
      omega
  · have ha := toNat_and_0x7f last
    have hs := @scriptNumValue_neg_iff init last (by
      have := hp (k := init.length) hl
      rw [scriptNumMagnitude_eq]
      omega)
    have hd := @map_digits_ofLeBytes (init ++ [last &&& 0x7f]) _ getLast?_concat
      (by rw [Ne, ← UInt8.toNat_inj, ha]; exact hl)
    rw [← scriptNumMagnitude, ← natAbs_scriptNumValue_concat] at hd
    rw [scriptNumBytes_of_digits hd, if_neg (by omega)]
    simp only [hs, append_cancel_left_eq, List.cons.injEq, and_true, ← UInt8.toNat_inj]
    split_ifs
    · rw [toNat_or_0x80 (by omega), ha]
      omega
    · rw [UInt8.or_zero, ha]
      omega

/-- Bytes in the shortest form are few when they stand for a small number. -/
theorem length_le_of_natAbs_lt {k : Nat} (h : checkMinimalDataEncoding bytes = .ok ())
    (hlt : (scriptNumValue bytes).natAbs < 256 ^ k * 128) : bytes.length ≤ k + 1 := by
  obtain rfl | ⟨init, last, rfl⟩ := bytes.eq_nil_or_concat
  · exact zero_le _
  rw [concat_eq_append] at h hlt ⊢
  rw [natAbs_scriptNumValue_concat, scriptNumMagnitude_eq] at hlt
  rw [length_append, length_singleton]
  by_contra! hlo
  obtain hl | ⟨before, hb, hh⟩ := checkMinimalDataEncoding_concat.1 h
  · have hle := Nat.mul_le_mul (Nat.pow_le_pow_right (show 0 < 256 by decide)
      (show k + 1 ≤ init.length by omega)) (one_le_iff_ne_zero.2 hl)
    omega
  · obtain ⟨init, rfl⟩ := getLast?_eq_some_iff.1 hb
    rw [length_append, length_singleton] at hlo
    have hle := Nat.mul_le_mul (Nat.pow_le_pow_right (show 0 < 256 by decide)
      (show k ≤ init.length by omega)) hh
    rw [ofLeBytes_concat] at hlt
    omega

theorem natAbs_scriptNumValue_lt : (scriptNumValue bytes).natAbs * 2 < 256 ^ bytes.length := by
  obtain rfl | ⟨init, last, rfl⟩ := bytes.eq_nil_or_concat
  · decide
  rw [concat_eq_append, natAbs_scriptNumValue_concat, length_append, length_singleton]
  have := @scriptNumMagnitude_lt init last
  omega

/-- The numbers that opcodes read have 32 bits. -/
theorem abs_toInt_lt {requireMinimal : Bool} {n : Int64}
    (h : makeScriptNum bytes requireMinimal defaultScriptNumLen = .ok n) :
    -2 ^ 31 < n.toInt ∧ n.toInt < 2 ^ 31 := by
  have hl : bytes.length ≤ 4 := by
    obtain ⟨_, hl, -⟩ := Checked.bind_eq_ok.1 h
    exact requireScript_eq_ok.1 hl
  obtain ⟨-, -, hn⟩ := (makeScriptNum_eq_ok_iff (by omega)).1 h
  have hlt := @natAbs_scriptNumValue_lt bytes
  have hle : 256 ^ bytes.length ≤ 256 ^ 4 := Nat.pow_le_pow_right (by decide) hl
  omega

theorem scriptNumInt32_eq {requireMinimal : Bool} {n : Int64}
    (h : makeScriptNum bytes requireMinimal defaultScriptNumLen = .ok n) :
    scriptNumInt32 n = n.toInt := by
  have := abs_toInt_lt h
  rw [scriptNumInt32, if_neg (by omega), if_neg (by omega)]

theorem scriptNumValue_of_sign (hl : bytes.getLast? = some last) (hs : last &&& 0x80 = 0) :
    scriptNumValue bytes = ofLeBytes bytes := by
  obtain ⟨init, rfl⟩ := getLast?_eq_some_iff.1 hl
  have hlt : ¬128 ≤ last.toNat := fun h => and_0x80_ne_zero_iff.2 h hs
  rw [scriptNumValue_concat, if_neg (not_not.2 hs), scriptNumMagnitude_eq, ofLeBytes_concat,
    mod_eq_of_lt (by omega)]

/-- The bytes of a number can be written and read back. -/
def ScriptNum.RoundTrips (n : Int64) : Prop :=
  ∃ v, ScriptNum.bytes n = .ok v ∧ checkMinimalDataEncoding v = .ok () ∧
    ∀ requireMinimal, makeScriptNum v requireMinimal 9 = .ok n

/-- **Script numbers.** All numbers but the least `int64` are written and read back, and at most
eight bytes in the shortest form are those of the number that is read. -/
theorem scriptNum_roundTrips_iff (n : Int64) : (ScriptNum.RoundTrips n ↔ n ≠ Int64.minValue) ∧
    ∀ v scriptNumLen, v.length ≤ 8 → makeScriptNum v true scriptNumLen = .ok n →
      ScriptNum.bytes n = .ok v := by
  refine ⟨⟨?_, fun hmi => ?_⟩, fun v scriptNumLen hl h => ?_⟩
  · rintro ⟨v, hv, -⟩ rfl
    have hp : ScriptNum.bytes Int64.minValue = .error (.panic .indexOutOfRange) := by
      decide +kernel
    rw [hp] at hv
    cases hv
  · obtain ⟨hva, hm⟩ := scriptNumValue_scriptNumBytes n.toInt
    have hl : (scriptNumBytes n.toInt).length ≤ 8 := by
      refine length_le_of_natAbs_lt (k := 7) hm ?_
      have hlt := n.toInt_lt
      have hge : n.toInt ≠ -2 ^ 63 := fun heq => hmi (Int64.toInt_inj.1 heq)
      have hle := n.le_toInt
      rw [hva]
      omega
    exact ⟨_, bytes_eq_scriptNumBytes hmi, hm, fun requireMinimal =>
      (makeScriptNum_eq_ok_iff hl).2 ⟨by omega, fun _ => hm, hva.symm⟩⟩
  · obtain ⟨-, hm, hn⟩ := (makeScriptNum_eq_ok_iff hl).1 h
    have hlt := @natAbs_scriptNumValue_lt v
    have hle : 256 ^ v.length ≤ 256 ^ 8 := Nat.pow_le_pow_right (by decide) hl
    have hmi : n ≠ Int64.minValue := by
      rintro rfl
      rw [← hn] at hlt
      exact absurd (hlt.trans_le hle) (by decide)
    rw [bytes_eq_scriptNumBytes hmi, hn, scriptNumBytes_scriptNumValue (hm rfl)]

/-- The negation of the least number is the number itself. -/
theorem bytes_minValue_panics :
    ScriptNum.bytes Int64.minValue = .error (.panic .indexOutOfRange) := by
  decide +kernel

end DrcNode
