import Mathlib.Algebra.Group.Nat.Defs
import Projs.Proof.Asm.QuotedString

namespace Projs.Asm

variable {c : UInt8} {following : Option UInt8}

/-- A control character with a letter is one of a few. -/
theorem mem_escapes {letter : UInt8} (found : escapeLetter c = some letter) :
    (c, letter) ∈ escapes := by
  obtain ⟨escape, first, rfl⟩ := Option.map_eq_some_iff.mp found
  have holds := List.find?_some first
  have same : escape.1 = c := of_decide_eq_true holds
  rw [← same]
  exact List.mem_of_find?_eq_some first

theorem escapeLetter_of_plain (plain : isPlain c = true) : escapeLetter c = none := by
  cases found : escapeLetter c with
  | none => rfl
  | some letter =>
      have among := mem_escapes found
      simp only [escapes, List.mem_cons, Prod.mk.injEq, List.not_mem_nil, or_false] at among
      rcases among with ⟨rfl, -⟩ | ⟨rfl, -⟩ | ⟨rfl, -⟩ | ⟨rfl, -⟩ | ⟨rfl, -⟩ | ⟨rfl, -⟩ |
        ⟨rfl, -⟩ | ⟨rfl, -⟩ <;> exact absurd plain (by decide)

/-- The letter of a control character is read as that character. -/
theorem escapeLetter_read {letter : UInt8} (found : escapeLetter c = some letter) :
    letter ≠ 0 ∧ fromBackslash letter = ([c], .start) := by
  have among := mem_escapes found
  simp only [escapes, List.mem_cons, Prod.mk.injEq, List.not_mem_nil, or_false] at among
  rcases among with ⟨rfl, rfl⟩ | ⟨rfl, rfl⟩ | ⟨rfl, rfl⟩ | ⟨rfl, rfl⟩ | ⟨rfl, rfl⟩ |
    ⟨rfl, rfl⟩ | ⟨rfl, rfl⟩ | ⟨rfl, rfl⟩ <;> exact ⟨by decide, rfl⟩

/-- The size that the first pass counts is the size that the second pass writes. -/
theorem length_quotedChar (c : UInt8) (following : Option UInt8) :
    (quotedChar c following).length = quotedSize c following := by
  rw [quotedChar, quotedSize]
  by_cases special : c = BQUOTE ∨ c = BACKSLASH
  · have other : ¬ (c = SQUOTE ∨ c = DQUOTE) := by
      rcases special with rfl | rfl <;> decide
    rw [if_pos special, if_neg other, if_pos special]
    rfl
  · rw [if_neg special, if_neg special]
    by_cases plain : isPlain c = true
    · rw [escapeLetter_of_plain plain, if_pos plain, if_pos plain, ite_self]
      rfl
    · have other : ¬ (c = SQUOTE ∨ c = DQUOTE) := by
        rintro (rfl | rfl) <;> exact plain (by decide)
      rw [if_neg other, if_neg plain, if_neg plain]
      cases escapeLetter c with
      | some letter => rfl
      | none =>
          simp only [List.length_append, List.length_cons, List.length_nil,
            apply_ite List.length, Option.isSome_none, Bool.false_eq_true, if_false, Nat.zero_add]
          omega

/-- The plan of the first pass over a whole string. -/
theorem planFrom_eq (plan : QuotePlan) (str : List UInt8) :
    (planFrom plan str).qlen = plan.qlen + (quotedFrom str).length ∧
      ((planFrom plan str).sqOk = true ↔
        plan.sqOk = true ∧ ∀ c ∈ str, c ≠ SQUOTE ∧ isPlain c = true) ∧
      ((planFrom plan str).dqOk = true ↔
        plan.dqOk = true ∧ ∀ c ∈ str, c ≠ DQUOTE ∧ isPlain c = true) := by
  induction str generalizing plan with
  | nil => exact ⟨rfl, by simp [planFrom], by simp [planFrom]⟩
  | cons c rest inductionHypothesis =>
      obtain ⟨size, single, double⟩ := inductionHypothesis
        { sqOk := plan.sqOk && c != SQUOTE && isPlain c
          dqOk := plan.dqOk && c != DQUOTE && isPlain c
          qlen := plan.qlen + quotedSize c rest.head? }
      rw [planFrom]
      refine ⟨?_, ?_, ?_⟩
      · rw [size, quotedFrom, List.length_append, length_quotedChar]
        exact Nat.add_assoc _ _ _
      · rw [single]
        simp only [Bool.and_eq_true, bne_iff_ne, List.forall_mem_cons, and_assoc]
      · rw [double]
        simp only [Bool.and_eq_true, bne_iff_ne, List.forall_mem_cons, and_assoc]

/-- The digit for a small number. -/
def octalDigit (digit : Nat) : UInt8 := UInt8.ofNat (digit + 48)

theorem toNat_octalDigit {digit : Nat} (small : digit < 8) :
    (octalDigit digit).toNat = digit + 48 := by
  rw [octalDigit, UInt8.toNat_ofNat']
  exact Nat.mod_eq_of_lt (by omega)

theorem isOctal_iff : isOctal c = true ↔ 48 ≤ c.toNat ∧ c.toNat ≤ 55 := by
  rw [isOctal, decide_eq_true_iff, UInt8.le_iff_toNat_le, UInt8.le_iff_toNat_le]
  rfl

theorem isOctal_octalDigit {digit : Nat} (small : digit < 8) :
    isOctal (octalDigit digit) = true := by
  rw [isOctal_iff, toNat_octalDigit small]
  omega

theorem octalDigit_ne_zero {digit : Nat} (small : digit < 8) : octalDigit digit ≠ 0 := by
  intro null
  have size := toNat_octalDigit small
  rw [null] at size
  exact absurd size.symm (Nat.succ_ne_zero _)

/-- A digit behind the backslash starts an octal sequence. -/
theorem fromBackslash_octalDigit {digit : Nat} (small : digit < 8) :
    fromBackslash (octalDigit digit) = ([], .oct 2 digit) := by
  obtain rfl | rfl | rfl | rfl | rfl | rfl | rfl | rfl : digit = 0 ∨ digit = 1 ∨ digit = 2 ∨
      digit = 3 ∨ digit = 4 ∨ digit = 5 ∨ digit = 6 ∨ digit = 7 := by omega
  all_goals rfl

variable {tail : List UInt8}

/-- What one character adds to what has been dequoted. -/
def prepended (front : List UInt8) (count : Nat) (found : Option (List UInt8 × Nat)) :
    Option (List UInt8 × Nat) :=
  found.map fun found => (front ++ found.1, found.2 + count)

theorem prepended_prepended (first second : List UInt8) (left right : Nat)
    (found : Option (List UInt8 × Nat)) :
    prepended first left (prepended second right found) =
      prepended (first ++ second) (right + left) found := by
  rw [prepended, prepended, prepended, Option.map_map]
  congr 1
  funext found
  exact Prod.ext (List.append_assoc _ _ _).symm (Nat.add_assoc _ _ _)

theorem withDigit_octalDigit {digit : Nat} (small : digit < 8) (ndig nval : Nat) :
    (Reading.oct ndig nval).withDigit (octalDigit digit) = .oct (ndig - 1) (nval * 8 + digit) := by
  rw [Reading.withDigit, toNat_octalDigit small, Nat.add_sub_cancel, Nat.shiftLeft_eq]

theorem read_octalDigit {digit : Nat} (small : digit < 8) (ndig nval : Nat) :
    (Reading.oct ndig nval).read (octalDigit digit) =
      if ndig - 1 = 0 then ([UInt8.ofNat (nval * 8 + digit)], some .start)
      else ([], some (.oct (ndig - 1) (nval * 8 + digit))) := by
  have sequence : (Reading.oct ndig nval).ahead ≥ 3 := Nat.le_refl 3
  have accepted : (Reading.oct ndig nval).isDigit (octalDigit digit) = true :=
    isOctal_octalDigit small
  rw [read_sequence sequence, if_pos accepted, withDigit_octalDigit small]
  rfl

/-- The second digit of an octal sequence. -/
theorem dequote_octalDigit {digit : Nat} (small : digit < 8) (nval : Nat) :
    dequote (.oct 2 nval) (octalDigit digit :: tail) =
      prepended [] 1 (dequote (.oct 1 (nval * 8 + digit)) tail) := by
  have read := read_octalDigit small 2 nval
  rw [dequote_cons (octalDigit_ne_zero small) (congrArg Prod.snd read), read]
  rfl

/-- The third digit ends an octal sequence. -/
theorem dequote_lastDigit {digit : Nat} (small : digit < 8) (nval : Nat) :
    dequote (.oct 1 nval) (octalDigit digit :: tail) =
      prepended [UInt8.ofNat (nval * 8 + digit)] 1 (dequote .start tail) := by
  have read := read_octalDigit small 1 nval
  rw [dequote_cons (octalDigit_ne_zero small) (congrArg Prod.snd read), read]
  rfl

/-- A character that is no digit ends an octal sequence. -/
theorem dequote_noDigit (ndig nval : Nat) (other : isOctal (tail.head?.getD 0) = false) :
    dequote (.oct ndig nval) tail = prepended [UInt8.ofNat nval] 0 (dequote .start tail) := by
  cases tail with
  | nil => rfl
  | cons c rest =>
      have noDigit : ¬ (Reading.oct ndig nval).isDigit c = true := Bool.eq_false_iff.mp other
      have read := read_other noDigit rfl
      have start : Reading.start.read c = fromStart c := rfl
      rw [dequote, dequote]
      by_cases null : c = 0
      · rw [if_pos null, if_pos null]
        rfl
      · rw [if_neg null, if_neg null, read, start]
        simp only
        cases (fromStart c).2 with
        | none => rfl
        | some next =>
            simp only [prepended, Option.map_map]
            congr 1

/-- The digits of a character. -/
theorem octalDigits (c : UInt8) :
    (c >>> 6) + '0'.toUInt8 = octalDigit (c.toNat / 64) ∧
      ((c >>> 3) &&& 7) + '0'.toUInt8 = octalDigit (c.toNat / 8 % 8) ∧
      (c &&& 7) + '0'.toUInt8 = octalDigit (c.toNat % 8) := by
  have size : c.toNat < 256 := c.toNat_lt
  have zero : ('0'.toUInt8).toNat = 48 := rfl
  have high : (c >>> 6).toNat = c.toNat / 64 := Nat.shiftRight_eq_div_pow c.toNat 6
  have shifted : (c >>> 3).toNat = c.toNat / 8 := Nat.shiftRight_eq_div_pow c.toNat 3
  have middle : ((c >>> 3) &&& 7).toNat = c.toNat / 8 % 8 := by
    rw [UInt8.toNat_and, shifted]
    exact Nat.and_two_pow_sub_one_eq_mod _ 3
  have low : (c &&& 7).toNat = c.toNat % 8 := by
    rw [UInt8.toNat_and]
    exact Nat.and_two_pow_sub_one_eq_mod _ 3
  refine ⟨?_, ?_, ?_⟩
  · apply UInt8.toNat_inj.mp
    rw [toNat_octalDigit (by omega), UInt8.toNat_add, high, zero]
    omega
  · apply UInt8.toNat_inj.mp
    rw [toNat_octalDigit (by omega), UInt8.toNat_add, middle, zero]
    omega
  · apply UInt8.toNat_inj.mp
    rw [toNat_octalDigit (by omega), UInt8.toNat_add, low, zero]
    omega

/-- A backslash and one character behind it. -/
theorem dequote_backslash {escaped : UInt8} {bytes : List UInt8} {next : Reading}
    (some : escaped ≠ 0) (read : fromBackslash escaped = (bytes, next)) :
    dequote .start (BACKSLASH :: escaped :: tail) = prepended bytes 2 (dequote next tail) := by
  have slash : BACKSLASH ≠ 0 := by decide
  have second : (Reading.backslash.read escaped).2 = Option.some next := by
    change Option.some (fromBackslash escaped).2 = _
    rw [read]
  have out : (Reading.backslash.read escaped).1 = bytes := congrArg Prod.fst read
  have first : (Reading.start.read BACKSLASH).2 = Option.some .backslash := rfl
  rw [dequote_cons slash first, dequote_cons some second, out]
  exact prepended_prepended [] bytes 1 1 _

theorem dequote_threeDigits (c : UInt8) :
    dequote .start (BACKSLASH :: octalDigit (c.toNat / 64) :: octalDigit (c.toNat / 8 % 8) ::
      octalDigit (c.toNat % 8) :: tail) = prepended [c] 4 (dequote .start tail) := by
  have size : c.toNat < 256 := c.toNat_lt
  have value : (c.toNat / 64 * 8 + c.toNat / 8 % 8) * 8 + c.toNat % 8 = c.toNat := by omega
  have first : c.toNat / 64 < 8 := by omega
  have second : c.toNat / 8 % 8 < 8 := by omega
  have third : c.toNat % 8 < 8 := by omega
  rw [dequote_backslash (octalDigit_ne_zero first) (fromBackslash_octalDigit first),
    dequote_octalDigit second, dequote_lastDigit third, value, UInt8.ofNat_toNat,
    prepended_prepended, prepended_prepended]
  rfl

theorem dequote_twoDigits {c : UInt8} (small : c.toNat < 64)
    (other : isOctal (tail.head?.getD 0) = false) :
    dequote .start (BACKSLASH :: octalDigit (c.toNat / 8 % 8) :: octalDigit (c.toNat % 8) :: tail) =
      prepended [c] 3 (dequote .start tail) := by
  have value : c.toNat / 8 % 8 * 8 + c.toNat % 8 = c.toNat := by omega
  have first : c.toNat / 8 % 8 < 8 := by omega
  have second : c.toNat % 8 < 8 := by omega
  rw [dequote_backslash (octalDigit_ne_zero first) (fromBackslash_octalDigit first),
    dequote_octalDigit second, dequote_noDigit _ _ other, value, UInt8.ofNat_toNat,
    prepended_prepended, prepended_prepended]
  rfl

theorem dequote_oneDigit {c : UInt8} (small : c.toNat < 8)
    (other : isOctal (tail.head?.getD 0) = false) :
    dequote .start (BACKSLASH :: octalDigit (c.toNat % 8) :: tail) =
      prepended [c] 2 (dequote .start tail) := by
  have value : c.toNat % 8 = c.toNat := Nat.mod_eq_of_lt small
  rw [value, dequote_backslash (octalDigit_ne_zero small) (fromBackslash_octalDigit small),
    dequote_noDigit _ _ other, UInt8.ofNat_toNat, prepended_prepended]
  rfl

/-- A written character is read back, also by the digits that the next character allows. -/
theorem dequote_quotedChar (c : UInt8) (following : Option UInt8)
    (allowed : isOctal (tail.head?.getD 0) = true → isOctal (following.getD 0) = true) :
    dequote .start (quotedChar c following ++ tail) =
      prepended [c] (quotedChar c following).length (dequote .start tail) := by
  rw [quotedChar]
  by_cases special : c = BQUOTE ∨ c = BACKSLASH
  · have read : c ≠ 0 ∧ fromBackslash c = ([c], .start) := by
      rcases special with rfl | rfl <;> exact ⟨by decide, rfl⟩
    rw [if_pos special]
    exact dequote_backslash read.1 read.2
  · rw [if_neg special]
    cases found : escapeLetter c with
    | some letter =>
        obtain ⟨some, read⟩ := escapeLetter_read found
        exact dequote_backslash some read
    | none =>
        simp only
        by_cases plain : isPlain c = true
        · have some : c ≠ 0 := by
            rintro rfl
            exact absurd plain (by decide)
          have start : Reading.start.read c = ([c], Option.some .start) := by
            change fromStart c = _
            rw [fromStart, if_neg fun slash => special (.inr slash),
              if_neg fun closing => special (.inl closing)]
          rw [if_pos plain]
          exact (dequote_cons some (congrArg Prod.snd start) tail).trans
            (by rw [start]; rfl)
        · obtain ⟨first, second, third⟩ := octalDigits c
          rw [if_neg plain, first, second, third, octalWidth]
          by_cases octal : isOctal (following.getD 0) = true
          · rw [if_pos octal, if_pos (by decide), if_pos (by decide)]
            exact dequote_threeDigits c
          · have other : isOctal (tail.head?.getD 0) = false :=
              Bool.eq_false_iff.mpr fun digit => octal (allowed digit)
            have wide : c > 63 ↔ 63 < c.toNat := UInt8.lt_iff_toNat_lt
            have long : c > 7 ↔ 7 < c.toNat := UInt8.lt_iff_toNat_lt
            rw [if_neg octal]
            by_cases three : 63 < c.toNat
            · rw [if_pos (wide.mpr three), if_pos (long.mpr (by omega))]
              exact dequote_threeDigits c
            · rw [if_neg fun above => three (wide.mp above)]
              by_cases two : 7 < c.toNat
              · rw [if_pos (long.mpr two)]
                exact dequote_twoDigits (by omega) other
              · rw [if_neg fun above => two (long.mp above)]
                exact dequote_oneDigit (by omega) other

/-- What follows a character starts with an octal digit only when the next character is one. -/
theorem head_quotedFrom (str rest : List UInt8)
    (digit : isOctal ((quotedFrom str ++ BQUOTE :: rest).head?.getD 0) = true) :
    isOctal (str.head?.getD 0) = true := by
  have slash : ¬ isOctal BACKSLASH = true := by decide
  have closing : ¬ isOctal BQUOTE = true := by decide
  cases str with
  | nil => exact absurd digit closing
  | cons c str =>
      rw [quotedFrom, quotedChar] at digit
      by_cases special : c = BQUOTE ∨ c = BACKSLASH
      · rw [if_pos special] at digit
        exact absurd digit slash
      · rw [if_neg special] at digit
        cases found : escapeLetter c with
        | some letter =>
            rw [found] at digit
            exact absurd digit slash
        | none =>
            rw [found] at digit
            simp only at digit
            by_cases plain : isPlain c = true
            · rw [if_pos plain] at digit
              exact digit
            · rw [if_neg plain] at digit
              exact absurd digit slash

/-- The string between backquotes stands for what was quoted. -/
theorem dequote_quotedFrom (str rest : List UInt8) :
    dequote .start (quotedFrom str ++ BQUOTE :: rest) = some (str, (quotedFrom str).length) := by
  induction str with
  | nil => rfl
  | cons c str inductionHypothesis =>
      rw [quotedFrom, List.append_assoc,
        dequote_quotedChar c str.head? (head_quotedFrom str rest), inductionHypothesis, prepended,
        List.length_append, Nat.add_comm (quotedChar c str.head?).length]
      rfl

/-- Between plain quotes the characters stand for themselves. -/
theorem between_eq {bq : UInt8} (str rest : List UInt8)
    (plain : ∀ c ∈ str, c ≠ bq ∧ isPlain c = true) :
    between bq (str ++ bq :: rest) = some (str, str.length) := by
  induction str with
  | nil => exact if_pos (.inr rfl)
  | cons c str inductionHypothesis =>
      obtain ⟨first, others⟩ := List.forall_mem_cons.mp plain
      have some : c ≠ 0 := by
        rintro rfl
        exact absurd first.2 (by decide)
      rw [List.cons_append, between, if_neg fun ended => ended.elim some first.1,
        inductionHypothesis others]
      rfl

/-- A quoted string holds no null. -/
theorem null_notMem_quotedChar (c : UInt8) (following : Option UInt8) :
    0 ∉ quotedChar c following := by
  obtain ⟨first, second, third⟩ := octalDigits c
  have size : c.toNat < 256 := c.toNat_lt
  have slash : (0 : UInt8) ≠ BACKSLASH := by decide
  have high := (octalDigit_ne_zero (show c.toNat / 64 < 8 by omega)).symm
  have middle := (octalDigit_ne_zero (show c.toNat / 8 % 8 < 8 by omega)).symm
  have low := (octalDigit_ne_zero (show c.toNat % 8 < 8 by omega)).symm
  rw [quotedChar]
  by_cases special : c = BQUOTE ∨ c = BACKSLASH
  · have some : (0 : UInt8) ≠ c := by
      rcases special with rfl | rfl <;> decide
    rw [if_pos special]
    simp [slash, some]
  · rw [if_neg special]
    cases found : escapeLetter c with
    | some letter => simp [slash, (escapeLetter_read found).1.symm]
    | none =>
        simp only
        by_cases plain : isPlain c = true
        · have some : (0 : UInt8) ≠ c := by
            rintro rfl
            exact absurd plain (by decide)
          rw [if_pos plain]
          simp [some]
        · rw [if_neg plain, first, second, third]
          simp only [List.mem_append, List.mem_singleton, List.mem_ite_nil_right, slash, high,
            middle, low, and_false, or_false, not_false_eq_true]

theorem null_notMem_quotedFrom (str : List UInt8) : 0 ∉ quotedFrom str := by
  induction str with
  | nil => exact List.not_mem_nil
  | cons c str inductionHypothesis =>
      rw [quotedFrom, List.mem_append]
      exact not_or.mpr ⟨null_notMem_quotedChar c str.head?, inductionHypothesis⟩

/-- A string without control characters is put between plain quotes. -/
theorem meaning_plain {bq : UInt8} (quote : bq = SQUOTE ∨ bq = DQUOTE) (str behind : List UInt8)
    (plain : ∀ c ∈ str, c ≠ bq ∧ isPlain c = true) :
    0 ∉ [bq] ++ str ++ [bq] ∧
      meaning ([bq] ++ str ++ [bq] ++ 0 :: behind) =
        some (str, ([bq] ++ str ++ [bq]).length - 1) := by
  have other : bq ≠ BQUOTE ∧ (0 : UInt8) ≠ bq := by
    rcases quote with rfl | rfl <;> decide
  constructor
  · intro null
    simp only [List.mem_append, List.mem_singleton, other.2, false_or, or_false] at null
    exact absurd (plain 0 null).2 (by decide)
  · have body : [bq] ++ str ++ [bq] ++ 0 :: behind = bq :: (str ++ bq :: 0 :: behind) := by simp
    rw [body, meaning, if_neg other.1, between_eq str _ plain]
    simp

theorem meaning_escaped (str behind : List UInt8) :
    0 ∉ [BQUOTE] ++ quotedFrom str ++ [BQUOTE] ∧
      meaning ([BQUOTE] ++ quotedFrom str ++ [BQUOTE] ++ 0 :: behind) =
        some (str, ([BQUOTE] ++ quotedFrom str ++ [BQUOTE]).length - 1) := by
  have other : (0 : UInt8) ≠ BQUOTE := by decide
  constructor
  · simp only [List.mem_append, List.mem_singleton, other, null_notMem_quotedFrom, or_false,
      not_false_eq_true]
  · have body : [BQUOTE] ++ quotedFrom str ++ [BQUOTE] ++ 0 :: behind =
        BQUOTE :: (quotedFrom str ++ BQUOTE :: 0 :: behind) := by simp
    rw [body, meaning, if_pos rfl, dequote_quotedFrom]
    simp

/-- The assertion of the quoting holds, and the quoted string means what was quoted. -/
theorem nasmQuote_meaning (str behind : List UInt8) :
    ∃ quoted, nasmQuote str = .ok (quoted ++ [0]) ∧ 0 ∉ quoted ∧
      (quoted.head? = some SQUOTE ∨ quoted.head? = some DQUOTE ∨ quoted.head? = some BQUOTE) ∧
      meaning (quoted ++ 0 :: behind) = some (str, quoted.length - 1) := by
  obtain ⟨size, single, double⟩ := planFrom_eq { sqOk := true, dqOk := true, qlen := 0 } str
  rw [nasmQuote]
  generalize planFrom { sqOk := true, dqOk := true, qlen := 0 } str = plan at *
  by_cases sqOk : plan.sqOk = true
  · obtain ⟨terminated, means⟩ := meaning_plain (.inl rfl) str behind (single.mp sqOk).2
    refine ⟨[SQUOTE] ++ str ++ [SQUOTE], ?_, terminated, .inl rfl, means⟩
    rw [if_pos (.inl sqOk), if_pos sqOk, List.append_assoc _ [SQUOTE]]
    rfl
  · by_cases dqOk : plan.dqOk = true
    · obtain ⟨terminated, means⟩ := meaning_plain (.inr rfl) str behind (double.mp dqOk).2
      refine ⟨[DQUOTE] ++ str ++ [DQUOTE], ?_, terminated, .inr (.inl rfl), means⟩
      rw [if_pos (.inr dqOk), if_neg sqOk, List.append_assoc _ [DQUOTE]]
      rfl
    · obtain ⟨terminated, means⟩ := meaning_escaped str behind
      refine ⟨[BQUOTE] ++ quotedFrom str ++ [BQUOTE], ?_, terminated, .inr (.inr rfl), means⟩
      have length : ([BQUOTE] ++ quotedFrom str ++ [BQUOTE, 0]).length = plan.qlen + 3 := by
        rw [size, List.length_append, List.length_append]
        change 1 + (quotedFrom str).length + 2 = 0 + (quotedFrom str).length + 3
        omega
      rw [if_neg (not_or.mpr ⟨sqOk, dqOk⟩), if_pos length, List.append_assoc _ [BQUOTE]]
      rfl

/-- Every string, also one with nulls in it, is quoted as a C string that is turned back into it,
and the end pointer points at the last quote. -/
theorem nasmUnquote_nasmQuote (str behind : List UInt8) :
    ∃ quoted result, nasmQuote str = .ok (quoted ++ [0]) ∧ 0 ∉ quoted ∧
      nasmUnquote (quoted ++ 0 :: behind) = .ok result ∧ result.length = str.length ∧
      result.mem.take str.length = str ∧ result.ep = some (quoted.length - 1) := by
  obtain ⟨quoted, written, terminated, head, means⟩ := nasmQuote_meaning str behind
  have null : 0 ∈ quoted ++ 0 :: behind := List.mem_append_right _ List.mem_cons_self
  have first : (quoted ++ 0 :: behind).head? = some SQUOTE ∨
      (quoted ++ 0 :: behind).head? = some DQUOTE ∨
      (quoted ++ 0 :: behind).head? = some BQUOTE := by
    cases quoted with
    | nil => simp at head
    | cons bq rest => exact head
  obtain ⟨bytes, last, result, same, unquoted, size, taken, place, -⟩ :=
    nasmUnquote_inPlace (quoted ++ 0 :: behind) null first
  rw [means] at same
  cases same
  exact ⟨quoted, result, written, terminated, unquoted, size, taken, place⟩

end Projs.Asm
