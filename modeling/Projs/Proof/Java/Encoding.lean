import Projs.Proof.Java.Utf8

namespace Projs.Java

theorem ofNat_toNat_byte {number : Nat} (fits : number < 0x100) :
    (UInt8.ofNat number).toNat = number := UInt8.toNat_ofNat_of_lt' fits

/-- A sequence that has begun takes its last continuation byte. -/
theorem decodeFrom_last {low high value bits : Nat} {rest : List UInt8} (small : bits < 0x40)
    (above : low ≤ 0x80 + bits) (below : 0x80 + bits ≤ high) :
    decodeFrom (some ⟨1, low, high, value⟩) (UInt8.ofNat (0x80 + bits) :: rest) =
      codeUnits (value * 0x40 + bits) ++ decodeFrom none rest := by
  have number := ofNat_toNat_byte (show 0x80 + bits < 0x100 by omega)
  have same : value * 0x40 + (0x80 + bits - 0x80) = value * 0x40 + bits := by omega
  rw [decodeFrom, decodeByte]
  simp only [number, if_pos (And.intro above below), Nat.le_refl, if_true, same]

/-- A sequence that has begun takes a continuation byte and goes on. -/
theorem decodeFrom_more {owed low high value bits : Nat} {rest : List UInt8} (small : bits < 0x40)
    (above : low ≤ 0x80 + bits) (below : 0x80 + bits ≤ high) :
    decodeFrom (some ⟨owed + 2, low, high, value⟩) (UInt8.ofNat (0x80 + bits) :: rest) =
      decodeFrom (some ⟨owed + 1, 0x80, 0xBF, value * 0x40 + bits⟩) rest := by
  have number := ofNat_toNat_byte (show 0x80 + bits < 0x100 by omega)
  have same : value * 0x40 + (0x80 + bits - 0x80) = value * 0x40 + bits := by omega
  have owes : ¬ owed + 2 ≤ 1 := by omega
  rw [decodeFrom, decodeByte]
  simp only [number, if_pos (And.intro above below), if_neg owes, same, List.nil_append]
  rfl

/-- The bytes of a code point are decoded to its code units. -/
theorem decodeFrom_bytesUtf8 {codePoint : Nat} (fits : codePoint < 0x110000)
    (rest : List UInt8) :
    decodeFrom none (bytesUtf8 codePoint ++ rest) =
      codeUnits codePoint ++ decodeFrom none rest := by
  unfold bytesUtf8
  split
  · next one =>
      have number := ofNat_toNat_byte (show codePoint < 0x100 by omega)
      have units : codeUnits codePoint = [UInt16.ofNat codePoint] := by
        rw [codeUnits, if_pos (by omega), if_neg (by omega)]
      rw [List.singleton_append, decodeFrom, decodeByte, decodeLead, number, if_pos one, units]
  split
  · next two =>
      have number := ofNat_toNat_byte (show 0xC0 + codePoint / 0x40 < 0x100 by omega)
      have begun : decodeLead (UInt8.ofNat (0xC0 + codePoint / 0x40)) =
          ([], some ⟨1, 0x80, 0xBF, codePoint / 0x40⟩) := by
        rw [decodeLead, number, if_neg (by omega), if_pos (by omega), Nat.add_sub_cancel_left]
      rw [List.cons_append, decodeFrom, decodeByte, begun, List.nil_append, List.singleton_append,
        decodeFrom_last (by omega) (by omega) (by omega), Nat.div_add_mod']
  split
  · next three =>
      have number := ofNat_toNat_byte (show 0xE0 + codePoint / 0x1000 < 0x100 by omega)
      have begun : decodeLead (UInt8.ofNat (0xE0 + codePoint / 0x1000)) = ([], some
          ⟨2, if 0xE0 + codePoint / 0x1000 = 0xE0 then 0xA0 else 0x80, 0xBF,
            codePoint / 0x1000⟩) := by
        rw [decodeLead, number, if_neg (by omega), if_neg (by omega), if_pos (by omega),
          Nat.add_sub_cancel_left]
      have above : (if 0xE0 + codePoint / 0x1000 = 0xE0 then 0xA0 else 0x80) ≤
          0x80 + codePoint / 0x40 % 0x40 := by
        split <;> omega
      have value : (codePoint / 0x1000 * 0x40 + codePoint / 0x40 % 0x40) * 0x40 +
          codePoint % 0x40 = codePoint := by omega
      rw [List.cons_append, decodeFrom, decodeByte, begun, List.nil_append, List.cons_append,
        decodeFrom_more (by omega) above (by omega), List.singleton_append,
        decodeFrom_last (by omega) (by omega) (by omega), value]
  · next four =>
      have number := ofNat_toNat_byte (show 0xF0 + codePoint / 0x40000 < 0x100 by omega)
      have begun : decodeLead (UInt8.ofNat (0xF0 + codePoint / 0x40000)) = ([], some
          ⟨3, if 0xF0 + codePoint / 0x40000 = 0xF0 then 0x90 else 0x80,
            if 0xF0 + codePoint / 0x40000 = 0xF4 then 0x8F else 0xBF, codePoint / 0x40000⟩) := by
        rw [decodeLead, number, if_neg (by omega), if_neg (by omega), if_neg (by omega),
          if_pos (by omega), Nat.add_sub_cancel_left]
      have above : (if 0xF0 + codePoint / 0x40000 = 0xF0 then 0x90 else 0x80) ≤
          0x80 + codePoint / 0x1000 % 0x40 := by
        split <;> omega
      have below : 0x80 + codePoint / 0x1000 % 0x40 ≤
          (if 0xF0 + codePoint / 0x40000 = 0xF4 then 0x8F else 0xBF) := by
        split <;> omega
      have value : ((codePoint / 0x40000 * 0x40 + codePoint / 0x1000 % 0x40) * 0x40 +
          codePoint / 0x40 % 0x40) * 0x40 + codePoint % 0x40 = codePoint := by omega
      rw [List.cons_append, decodeFrom, decodeByte, begun, List.nil_append, List.cons_append,
        decodeFrom_more (by omega) above below, List.cons_append,
        decodeFrom_more (by omega) (by omega) (by omega), List.singleton_append,
        decodeFrom_last (by omega) (by omega) (by omega), value]

theorem isHighSurrogate_iff (unit : JavaChar) :
    isHighSurrogate unit = true ↔ 0xD800 ≤ unit.toNat ∧ unit.toNat < 0xDC00 := by
  simp [isHighSurrogate, UInt16.le_iff_toNat_le, UInt16.lt_iff_toNat_lt]

theorem isLowSurrogate_iff (unit : JavaChar) :
    isLowSurrogate unit = true ↔ 0xDC00 ≤ unit.toNat ∧ unit.toNat < 0xE000 := by
  simp [isLowSurrogate, UInt16.le_iff_toNat_le, UInt16.lt_iff_toNat_lt]

/-- A code unit is encoded on its own, or a question mark in its place. -/
theorem decodeFrom_unit (unit : JavaChar) (rest : List UInt8) :
    decodeFrom none (bytesUtf8 (if encodesUtf8 [unit] then codePointOf [unit] else 0x3F) ++ rest) =
      (if encodesUtf8 [unit] then [unit] else [0x3F]) ++ decodeFrom none rest := by
  have small := unit.toNat_lt
  cases known : encodesUtf8 [unit] with
  | true =>
      have alone : ¬ (0xD800 ≤ unit.toNat ∧ unit.toNat < 0xE000) := by
        rw [encodesUtf8, Bool.not_eq_true', Bool.or_eq_false_iff, Bool.eq_false_iff,
          Bool.eq_false_iff, Ne, Ne, isHighSurrogate_iff, isLowSurrogate_iff] at known
        omega
      have units : codeUnits unit.toNat = [unit] := by
        rw [codeUnits, if_pos small, if_neg alone, UInt16.ofNat_toNat]
      have decoded := decodeFrom_bytesUtf8 (show unit.toNat < 0x110000 by omega) rest
      rw [units] at decoded
      exact decoded
  | false =>
      have mark : decodeFrom none (bytesUtf8 0x3F ++ rest) = 0x3F :: decodeFrom none rest :=
        decodeFrom_bytesUtf8 (by decide) rest
      exact mark

/-- Two surrogates are encoded together. -/
theorem decodeFrom_pair {high low : JavaChar} (first : isHighSurrogate high)
    (second : isLowSurrogate low) (rest : List UInt8) :
    decodeFrom none (bytesUtf8 (codePointOf [high, low]) ++ rest) =
      high :: low :: decodeFrom none rest := by
  rw [isHighSurrogate_iff] at first
  rw [isLowSurrogate_iff] at second
  have point : codePointOf [high, low] =
      0x10000 + (high.toNat - 0xD800) * 0x400 + (low.toNat - 0xDC00) := rfl
  have upper : 0xD800 + (codePointOf [high, low] - 0x10000) / 0x400 = high.toNat := by
    omega
  have lower : 0xDC00 + (codePointOf [high, low] - 0x10000) % 0x400 = low.toNat := by
    omega
  have units : codeUnits (codePointOf [high, low]) = [high, low] := by
    rw [codeUnits, if_neg (by omega), upper, lower, UInt16.ofNat_toNat,
      UInt16.ofNat_toNat]
  have fits : codePointOf [high, low] < 0x110000 := by
    omega
  rw [decodeFrom_bytesUtf8 fits rest, units]
  rfl

theorem decodeUtf8_encodeUtf8 (text : JavaString) : decodeUtf8 (encodeUtf8 text) =
    (characters text).flatMap fun character =>
      if encodesUtf8 character then character else [0x3F] := by
  unfold decodeUtf8 encodeUtf8
  fun_induction characters text with
  | case1 => rfl
  | case2 unit =>
      rw [List.flatMap_singleton, List.flatMap_singleton]
      have decoded := decodeFrom_unit unit []
      rwa [List.append_nil, show decodeFrom none [] = [] from rfl, List.append_nil] at decoded
  | case3 first second rest pair ih =>
      rw [List.flatMap_cons, List.flatMap_cons, ← ih]
      exact decodeFrom_pair pair.1 pair.2 _
  | case4 first second rest single ih =>
      rw [List.flatMap_cons, List.flatMap_cons, decodeFrom_unit, ih]

/-- The charset UTF-8. -/
def utf8 : Charset where
  encodes := encodesUtf8
  encode := encodeUtf8
  decode := decodeUtf8
  ascii unit small := by
    have number : unit.toNat < 0x80 := small
    rw [encodesUtf8, Bool.not_eq_true', Bool.or_eq_false_iff, Bool.eq_false_iff, Bool.eq_false_iff,
      Ne, Ne, isHighSurrogate_iff, isLowSurrogate_iff]
    omega
  decode_encode := decodeUtf8_encodeUtf8

theorem characters_cons_of_not_high {unit : JavaChar} (single : isHighSurrogate unit = false)
    (text : JavaString) : characters (unit :: text) = [unit] :: characters text := by
  cases text with
  | nil => rfl
  | cons second rest =>
      rw [characters, if_neg]
      rintro ⟨high, -⟩
      rw [single] at high
      cases high

/-- A code unit that is no surrogate is never joined to another one. -/
theorem characters_append_cons {unit : JavaChar} (high : isHighSurrogate unit = false)
    (low : isLowSurrogate unit = false) (front back : JavaString) :
    characters (front ++ unit :: back) = characters front ++ [unit] :: characters back := by
  fun_induction characters front with
  | case1 => exact characters_cons_of_not_high high back
  | case2 first =>
      change characters (first :: unit :: back) = [first] :: [unit] :: characters back
      rw [characters, if_neg, characters_cons_of_not_high high]
      rintro ⟨-, joined⟩
      rw [low] at joined
      cases joined
  | case3 first second rest pair ih =>
      rw [List.cons_append, List.cons_append, characters, if_pos pair, ih]
      rfl
  | case4 first second rest single ih =>
      rw [List.cons_append, List.cons_append, characters, if_neg single, ← List.cons_append, ih]
      rfl

namespace Charset
variable (charset : Charset)

/-- This is what arrives of a text: a question mark stands for each character that is missing. -/
def sent (text : JavaString) : JavaString :=
  (characters text).flatMap fun character => if charset.encodes character then character else [0x3F]

/-- The charset has every character of the text. -/
def EncodesAll (text : JavaString) : Prop :=
  ∀ character ∈ characters text, charset.encodes character = true

instance (text : JavaString) : Decidable (charset.EncodesAll text) :=
  inferInstanceAs (Decidable (∀ character ∈ characters text, charset.encodes character = true))

theorem not_surrogate_of_ascii {unit : JavaChar} (ascii : unit < 0x80) :
    isHighSurrogate unit = false ∧ isLowSurrogate unit = false := by
  have number : unit.toNat < 0x80 := ascii
  rw [Bool.eq_false_iff, Bool.eq_false_iff, Ne, Ne, isHighSurrogate_iff, isLowSurrogate_iff]
  omega

theorem sent_append_cons {unit : JavaChar} (ascii : unit < 0x80) (front back : JavaString) :
    charset.sent (front ++ unit :: back) = charset.sent front ++ unit :: charset.sent back := by
  obtain ⟨high, low⟩ := not_surrogate_of_ascii ascii
  rw [sent, characters_append_cons high low, List.flatMap_append, List.flatMap_cons,
    if_pos (charset.ascii unit ascii)]
  rfl

/-- A text arrives as it is exactly when the charset has all of its characters. -/
theorem sent_eq_iff (text : JavaString) : charset.sent text = text ↔ charset.EncodesAll text := by
  have question : charset.encodes [0x3F] = true := charset.ascii 0x3F (by decide)
  unfold sent EncodesAll
  fun_induction characters text with
  | case1 => simp
  | case2 unit =>
      rw [List.flatMap_singleton, List.forall_mem_singleton]
      split
      · next known => exact iff_of_true rfl known
      · next missing =>
          refine iff_of_false (fun same => missing ?_) missing
          rwa [← same]
  | case3 first second rest pair ih =>
      have others : _ ↔ _ := ih
      rw [List.flatMap_cons, List.forall_mem_cons, ← others]
      split
      · next known => simp [known]
      · next missing =>
          refine iff_of_false (fun same => ?_) fun both => missing both.1
          have high : first = 0x3F := (List.cons_eq_cons.mp same).1.symm
          rw [high] at pair
          exact absurd pair.1 (by decide)
  | case4 first second rest single ih =>
      have others : _ ↔ _ := ih
      rw [List.flatMap_cons, List.forall_mem_cons, ← others]
      split
      · next known => simp [known]
      · next missing =>
          refine iff_of_false (fun same => missing ?_) fun both => missing both.1
          rw [← (List.cons_eq_cons.mp same).1]
          exact question

theorem mem_of_mem_sent {unit : JavaChar} {text : JavaString} (member : unit ∈ charset.sent text)
    (other : unit ≠ 0x3F) : unit ∈ text := by
  unfold sent at member
  fun_induction characters text with
  | case1 => exact member
  | case2 first =>
      rw [List.flatMap_singleton] at member
      split at member
      · exact member
      · exact absurd (List.mem_singleton.mp member) other
  | case3 first second rest pair ih =>
      rw [List.flatMap_cons, List.mem_append] at member
      rcases member with here | later
      · split at here
        · exact List.mem_append_left rest here
        · exact absurd (List.mem_singleton.mp here) other
      · exact List.mem_cons_of_mem _ (List.mem_cons_of_mem _ (ih later))
  | case4 first second rest single ih =>
      rw [List.flatMap_cons, List.mem_append] at member
      rcases member with here | later
      · split at here
        · rw [List.mem_singleton.mp here]
          exact List.mem_cons_self
        · exact absurd (List.mem_singleton.mp here) other
      · exact List.mem_cons_of_mem _ (ih later)

/-- The first character of ASCII that arrives was sent first, if it is no question mark. -/
theorem sent_eq_cons {unit : JavaChar} {text rest : JavaString}
    (arrived : charset.sent text = unit :: rest) (ascii : unit < 0x80) (other : unit ≠ 0x3F) :
    ∃ behind, text = unit :: behind ∧ charset.sent behind = rest := by
  have single : ∀ (first : JavaChar) (behind : JavaString),
      characters (first :: behind) = [first] :: characters behind →
      charset.sent (first :: behind) = unit :: rest →
      ∃ later, first :: behind = unit :: later ∧ charset.sent later = rest := by
    intro first behind split arrived
    rw [sent, split, List.flatMap_cons] at arrived
    by_cases known : charset.encodes [first] = true
    · rw [if_pos known] at arrived
      obtain ⟨same, others⟩ := List.cons_eq_cons.mp arrived
      exact ⟨behind, by rw [same], others⟩
    · rw [if_neg known] at arrived
      exact absurd (List.cons_eq_cons.mp arrived).1.symm other
  cases text with
  | nil => cases arrived
  | cons first text =>
      cases text with
      | nil => exact single first [] rfl arrived
      | cons second text =>
          by_cases pair : isHighSurrogate first ∧ isLowSurrogate second
          · exfalso
            rw [sent, characters, if_pos pair, List.flatMap_cons] at arrived
            by_cases known : charset.encodes [first, second] = true
            · rw [if_pos known] at arrived
              have same : first = unit := (List.cons_eq_cons.mp arrived).1
              have low := (not_surrogate_of_ascii ascii).1
              rw [← same, pair.1] at low
              cases low
            · rw [if_neg known] at arrived
              exact other (List.cons_eq_cons.mp arrived).1.symm
          · exact single first (second :: text) (if_neg pair) arrived

end Charset

end Projs.Java
