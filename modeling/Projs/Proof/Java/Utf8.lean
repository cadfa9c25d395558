import Projs.Construction.Java.Charset

namespace Projs.Java

/-- The line feed is one byte and one code unit. -/
def lineFeeds (text : JavaString) : Nat := text.count 0x0A

@[simp] theorem lineFeeds_append (first second : JavaString) :
    lineFeeds (first ++ second) = lineFeeds first + lineFeeds second := List.count_append

/-- A code unit is a line feed only for the number ten. -/
theorem ofNat_ne_lineFeed (number : Nat) (high : 10 < number) (fits : number < 0x10000) :
    UInt16.ofNat number ≠ 0x0A := by
  intro same
  have numbers := congrArg UInt16.toNat same
  rw [UInt16.toNat_ofNat_of_lt' fits] at numbers
  have ten : (0x0A : UInt16).toNat = 10 := rfl
  omega

/-- A code point of more than one byte has no line feed. -/
theorem lineFeeds_codeUnits {codePoint : Nat} (high : 0x80 ≤ codePoint)
    (fits : codePoint < 0x110000) : lineFeeds (codeUnits codePoint) = 0 := by
  unfold codeUnits lineFeeds
  split
  · split
    · rfl
    · exact List.count_eq_zero_of_not_mem
        (by simpa using (ofNat_ne_lineFeed _ (by omega) (by omega)).symm)
  · have first := ofNat_ne_lineFeed (0xD800 + (codePoint - 0x10000) / 0x400) (by omega) (by omega)
    have second := ofNat_ne_lineFeed (0xDC00 + (codePoint - 0x10000) % 0x400) (by omega) (by omega)
    apply List.count_eq_zero_of_not_mem
    simp only [List.mem_cons, List.not_mem_nil, or_false, not_or]
    exact ⟨first.symm, second.symm⟩

/-- The code point of a sequence that has begun will need more than one byte, and it will exist. -/
inductive Pending.Sound : Pending → Prop
  | one {value : Nat} (least : 2 ≤ value) (most : value < 0x4400) :
      Sound ⟨1, 0x80, 0xBF, value⟩
  | two {low value : Nat} (start : 0x80 ≤ low) (least : 1 ≤ value ∨ 0xA0 ≤ low)
      (most : value < 0x110) : Sound ⟨2, low, 0xBF, value⟩
  | three {low high value : Nat} (start : 0x80 ≤ low) (stop : high ≤ 0xBF)
      (least : 1 ≤ value ∨ 0x90 ≤ low) (most : value * 0x40 + (high - 0x80) < 0x110) :
      Sound ⟨3, low, high, value⟩

theorem Pending.Sound.le_low {pending : Pending} (sound : pending.Sound) : 0x80 ≤ pending.low := by
  cases sound with
  | one => exact Nat.le_refl _
  | two start => exact start
  | three start => exact start

theorem eq_lineFeed_iff (byte : UInt8) : byte = 0x0A ↔ byte.toNat = 10 := by
  rw [← UInt8.toNat_inj]
  rfl

/-- A lead byte is decoded to a line feed only when it is one. -/
theorem decodeLead_spec (byte : UInt8) :
    lineFeeds (decodeLead byte).1 = (if byte = 0x0A then 1 else 0) ∧
      ∀ pending ∈ (decodeLead byte).2, pending.Sound := by
  have small := byte.toNat_lt
  simp only [eq_lineFeed_iff, decodeLead]
  by_cases ascii : byte.toNat < 0x80
  · rw [if_pos ascii]
    refine ⟨?_, nofun⟩
    by_cases feed : byte.toNat = 10
    · rw [feed]
      rfl
    · rw [if_neg feed]
      apply List.count_eq_zero_of_not_mem
      rw [List.mem_singleton]
      intro same
      have numbers := congrArg UInt16.toNat same
      rw [UInt16.toNat_ofNat_of_lt' (Nat.lt_trans ascii (by decide))] at numbers
      exact feed numbers.symm
  rw [if_neg ascii, if_neg (by omega : ¬ byte.toNat = 10)]
  by_cases two : 0xC2 ≤ byte.toNat ∧ byte.toNat < 0xE0
  · rw [if_pos two]
    refine ⟨rfl, ?_⟩
    rintro _ ⟨⟩
    exact .one (by omega) (by omega)
  rw [if_neg two]
  by_cases three : 0xE0 ≤ byte.toNat ∧ byte.toNat < 0xF0
  · rw [if_pos three]
    refine ⟨rfl, ?_⟩
    rintro _ ⟨⟩
    exact .two (by split <;> omega) (by split <;> omega) (by omega)
  rw [if_neg three]
  by_cases four : 0xF0 ≤ byte.toNat ∧ byte.toNat < 0xF5
  · rw [if_pos four]
    refine ⟨rfl, ?_⟩
    rintro _ ⟨⟩
    exact .three (by split <;> omega) (by split <;> omega) (by split <;> omega)
      (by split <;> omega)
  rw [if_neg four]
  exact ⟨rfl, nofun⟩

/-- A byte is decoded to a line feed only when it is one, within a sequence too. -/
theorem decodeByte_spec {pending : Option Pending} (byte : UInt8)
    (sound : ∀ sequence ∈ pending, sequence.Sound) :
    lineFeeds (decodeByte pending byte).1 = (if byte = 0x0A then 1 else 0) ∧
      ∀ next ∈ (decodeByte pending byte).2, next.Sound := by
  cases pending with
  | none => exact decodeLead_spec byte
  | some sequence =>
      have kinds := sound sequence rfl
      have malformed (text : JavaString) : lineFeeds (replacement :: text) = lineFeeds text :=
        List.count_cons_of_ne (by decide)
      simp only [decodeByte]
      by_cases continues : sequence.low ≤ byte.toNat ∧ byte.toNat ≤ sequence.high
      · have other : ¬ byte = 0x0A := by
          have low := kinds.le_low
          rw [eq_lineFeed_iff]
          omega
        rw [if_pos continues, if_neg other]
        cases kinds with
        | @one value least most =>
            have low : 0x80 ≤ byte.toNat := continues.1
            have high : byte.toNat ≤ 0xBF := continues.2
            have feeds : lineFeeds (codeUnits (value * 0x40 + (byte.toNat - 0x80))) = 0 :=
              lineFeeds_codeUnits (by omega) (by omega)
            simp only [Nat.le_refl, if_true]
            exact ⟨feeds, nofun⟩
        | @two low value start least most =>
            have above : low ≤ byte.toNat := continues.1
            have high : byte.toNat ≤ 0xBF := continues.2
            have next : Pending.Sound ⟨1, 0x80, 0xBF, value * 0x40 + (byte.toNat - 0x80)⟩ :=
              .one (by omega) (by omega)
            refine ⟨rfl, ?_⟩
            rintro _ ⟨⟩
            exact next
        | @three low high value start stop least most =>
            have above : low ≤ byte.toNat := continues.1
            have below : byte.toNat ≤ high := continues.2
            have next : Pending.Sound ⟨2, 0x80, 0xBF, value * 0x40 + (byte.toNat - 0x80)⟩ :=
              .two (Nat.le_refl _) (by omega) (by omega)
            refine ⟨rfl, ?_⟩
            rintro _ ⟨⟩
            exact next
      · rw [if_neg continues, malformed]
        exact decodeLead_spec byte

/-- A text has the line feeds of its bytes, well formed or not. -/
theorem lineFeeds_decodeUtf8 (bytes : List UInt8) :
    lineFeeds (decodeUtf8 bytes) = bytes.count 0x0A := by
  suffices general : ∀ pending : Option Pending, (∀ sequence ∈ pending, sequence.Sound) →
      lineFeeds (decodeFrom pending bytes) = bytes.count 0x0A from general none nofun
  induction bytes with
  | nil =>
      intro pending _
      cases pending <;> rfl
  | cons byte rest ih =>
      intro pending sound
      obtain ⟨feeds, next⟩ := decodeByte_spec byte sound
      rw [decodeFrom, lineFeeds_append, feeds, ih _ next, List.count_cons]
      simp only [beq_iff_eq]
      omega

theorem length_codeUnits_le (codePoint : Nat) : (codeUnits codePoint).length ≤ 2 := by
  unfold codeUnits
  split
  · split <;> simp
  · simp

/-- A sequence that has begun will give a code unit at least for its first byte. -/
def credit (pending : Option Pending) : Nat := if pending.isSome then 1 else 0

theorem decodeLead_length (byte : UInt8) :
    (decodeLead byte).1.length + credit (decodeLead byte).2 = 1 := by
  simp only [decodeLead]
  repeat' split
  all_goals rfl

theorem decodeByte_length (pending : Option Pending) (byte : UInt8) :
    (decodeByte pending byte).1.length + credit (decodeByte pending byte).2 ≤
      1 + credit pending := by
  have lead := decodeLead_length byte
  cases pending with
  | none => exact Nat.le_of_eq lead
  | some sequence =>
      have begun : credit (some sequence) = 1 := rfl
      rw [begun]
      simp only [decodeByte]
      split
      · split
        · have complete : credit none = 0 := rfl
          have units := length_codeUnits_le (sequence.value * 0x40 + (byte.toNat - 0x80))
          simp only [complete]
          omega
        · exact Nat.le_succ 1
      · simp only [List.length_cons]
        omega

/-- A text is not longer than its bytes, well formed or not. -/
theorem length_decodeUtf8_le (bytes : List UInt8) :
    (decodeUtf8 bytes).length ≤ bytes.length := by
  suffices general : ∀ pending : Option Pending,
      (decodeFrom pending bytes).length ≤ bytes.length + credit pending from general none
  induction bytes with
  | nil =>
      intro pending
      cases pending with
      | none => exact Nat.le_refl 0
      | some sequence => exact Nat.le_refl 1
  | cons byte rest ih =>
      intro pending
      have first := decodeByte_length pending byte
      have later := ih (decodeByte pending byte).2
      rw [decodeFrom, List.length_append, List.length_cons]
      omega

end Projs.Java
