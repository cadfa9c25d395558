import Projs.Proof.Java.Encoding
import Projs.Construction.JavaUtiler.FormRules

namespace Projs.JavaUtiler
open Java

/-- An escape stands somewhere in the text. -/
def Escaped (text : JavaString) : Prop := ∃ tail ∈ text.tails, (escape tail).isSome

instance (text : JavaString) : Decidable (Escaped text) :=
  inferInstanceAs (Decidable (∃ tail ∈ text.tails, (escape tail).isSome))

theorem escaped_cons {character : JavaChar} {text : JavaString} :
    Escaped (character :: text) ↔ (escape (character :: text)).isSome ∨ Escaped text := by
  simp [Escaped]

/-- Fewer than three characters hold no escape. -/
theorem not_escaped_of_length_lt {text : JavaString} (short : text.length < 3) :
    ¬ Escaped text := by
  match text with
  | [] => decide
  | [_] => simp [Escaped, escape]
  | [_, _] => simp [Escaped, escape]
  | _ :: _ :: _ :: _ => exact absurd short (by simp)

/-- Decoding never makes a text longer, and an escape makes it shorter. -/
theorem length_percentDecode (bytes : List UInt8) (text : JavaString) :
    (percentDecode bytes text).length ≤ bytes.length + text.length ∧
      (Escaped text → (percentDecode bytes text).length < bytes.length + text.length) := by
  have decoded := length_decodeUtf8_le bytes
  fun_induction percentDecode bytes text with
  | case1 bytes => exact ⟨decoded, fun inside => absurd inside (not_escaped_of_length_lt (by simp))⟩
  | case2 bytes character =>
      refine ⟨?_, fun inside => absurd inside (not_escaped_of_length_lt (by simp))⟩
      rw [List.length_append]
      omega
  | case3 bytes first second =>
      refine ⟨?_, fun inside => absurd inside (not_escaped_of_length_lt (by simp))⟩
      rw [List.length_append]
      omega
  | case4 bytes sign high low rest byte remains read ih =>
      have later := (ih (length_decodeUtf8_le _)).1
      rw [List.length_append, List.length_singleton] at later
      simp only [List.length_cons]
      omega
  | case5 bytes sign high low rest unread ih =>
      obtain ⟨most, fewer⟩ := ih (length_decodeUtf8_le [])
      rw [escaped_cons, unread]
      simp only [List.length_append, List.length_cons, List.length_nil] at most fewer ⊢
      refine ⟨by omega, ?_⟩
      rintro (here | later)
      · cases here
      · have strict := fewer later
        omega

/-- A text without escapes is decoded to itself. -/
theorem percentDecode_of_not_escaped (bytes : List UInt8) (text : JavaString)
    (plain : ¬ Escaped text) : percentDecode bytes text = decodeUtf8 bytes ++ text := by
  fun_induction percentDecode bytes text with
  | case1 bytes => rw [List.append_nil]
  | case2 | case3 => rfl
  | case4 bytes sign high low rest byte remains read ih =>
      rw [escaped_cons, read] at plain
      exact absurd (Or.inl rfl) plain
  | case5 bytes sign high low rest unread ih =>
      rw [escaped_cons] at plain
      rw [ih fun later => plain (Or.inr later)]
      rfl

theorem length_decodeComponent_le (text : JavaString) :
    (decodeComponent text).length ≤ text.length := by
  have most := (length_percentDecode [] (plusToSpace text)).1
  rwa [List.length_nil, Nat.zero_add, plusToSpace, List.length_map] at most

theorem plusToSpace_eq_iff (text : JavaString) : plusToSpace text = text ↔ 0x2B ∉ text := by
  induction text with
  | nil => simp [plusToSpace]
  | cons character text ih =>
      have kept : (if character = 0x2B then 0x20 else character) = character ↔
          0x2B ≠ character := by
        split
        · next plus =>
            rw [plus]
            exact iff_of_false (by decide) fun other => other rfl
        · next other => exact iff_of_true rfl (Ne.symm other)
      rw [plusToSpace, List.map_cons, List.cons_eq_cons, kept, List.mem_cons, not_or]
      exact and_congr_right fun _ => ih

/-- A component means itself when it has no plus sign and no escape, and only then. -/
theorem decodeComponent_eq_iff (text : JavaString) :
    decodeComponent text = text ↔ 0x2B ∉ text ∧ ¬ Escaped text := by
  have empty : decodeUtf8 [] = [] := rfl
  unfold decodeComponent
  constructor
  · intro same
    have whole : ¬ Escaped (plusToSpace text) := by
      intro inside
      have fewer := (length_percentDecode [] (plusToSpace text)).2 inside
      rw [same, plusToSpace, List.length_map, List.length_nil, Nat.zero_add] at fewer
      exact Nat.lt_irrefl _ fewer
    rw [percentDecode_of_not_escaped _ _ whole, empty, List.nil_append] at same
    rw [same] at whole
    exact ⟨(plusToSpace_eq_iff text).mp same, whole⟩
  · rintro ⟨plain, whole⟩
    rw [(plusToSpace_eq_iff text).mpr plain, percentDecode_of_not_escaped _ _ whole, empty,
      List.nil_append]

theorem hexValue_ascii {character : JavaChar} (digit : (hexValue character).isSome) :
    character < 0x80 ∧ character ≠ 0x3F := by
  rw [UInt16.lt_iff_toNat_lt, Ne, ← UInt16.toNat_inj]
  change character.toNat < 0x80 ∧ ¬ character.toNat = 0x3F
  simp only [hexValue] at digit
  split at digit
  · omega
  split at digit
  · omega
  split at digit
  · omega
  · cases digit

/-- An escape is a percent sign with two digits. -/
theorem escape_isSome_iff {text : JavaString} : (escape text).isSome ↔
    ∃ high low rest, text = 0x25 :: high :: low :: rest ∧
      (hexValue high).isSome ∧ (hexValue low).isSome := by
  constructor
  · intro found
    match text with
    | [] => cases found
    | [_] => cases found
    | [_, _] => cases found
    | sign :: high :: low :: rest =>
        rw [escape] at found
        by_cases percent : sign = 0x25
        · rw [if_pos percent] at found
          refine ⟨high, low, rest, by rw [percent], ?_⟩
          cases first : hexValue high with
          | none =>
              rw [first] at found
              cases found
          | some one =>
              cases second : hexValue low with
              | none =>
                  rw [first, second] at found
                  cases found
              | some two => exact ⟨rfl, rfl⟩
        · rw [if_neg percent] at found
          cases found
  · rintro ⟨high, low, rest, rfl, first, second⟩
    obtain ⟨one, first⟩ := Option.isSome_iff_exists.mp first
    obtain ⟨two, second⟩ := Option.isSome_iff_exists.mp second
    rw [escape, if_pos rfl, first, second]
    rfl

theorem escaped_cons_of_ne {character : JavaChar} {text : JavaString} (other : character ≠ 0x25) :
    Escaped (character :: text) ↔ Escaped text := by
  rw [escaped_cons, escape_isSome_iff]
  refine or_iff_right ?_
  rintro ⟨high, low, rest, same, -⟩
  exact other (List.cons_eq_cons.mp same).1

/-- A question mark is no part of an escape, so what arrives has no escape that was not sent. -/
theorem escaped_of_escaped_sent (charset : Charset) (text : JavaString)
    (arrived : Escaped (charset.sent text)) : Escaped text := by
  have short (character : JavaString) (single : character.length < 3) :
      ¬ Escaped (if charset.encodes character then character else [0x3F]) := by
    split
    · exact not_escaped_of_length_lt single
    · exact not_escaped_of_length_lt (by decide)
  unfold Charset.sent at arrived
  fun_induction characters text with
  | case1 => exact arrived
  | case2 unit =>
      rw [List.flatMap_singleton] at arrived
      exact absurd arrived (short [unit] (by simp))
  | case3 first second rest pair ih =>
      have firstOther : first ≠ 0x25 := by
        rintro rfl
        exact absurd pair.1 (by decide)
      have secondOther : second ≠ 0x25 := by
        rintro rfl
        exact absurd pair.2 (by decide)
      rw [escaped_cons_of_ne firstOther, escaped_cons_of_ne secondOther]
      rw [List.flatMap_cons] at arrived
      split at arrived
      · exact ih ((escaped_cons_of_ne secondOther).mp ((escaped_cons_of_ne firstOther).mp arrived))
      · exact ih ((escaped_cons_of_ne (by decide)).mp arrived)
  | case4 first second rest single ih =>
      rw [List.flatMap_cons] at arrived
      rw [escaped_cons]
      by_cases known : charset.encodes [first] = true
      · rw [if_pos known, List.singleton_append, escaped_cons] at arrived
        rcases arrived with here | later
        · left
          obtain ⟨high, low, behind, same, one, two⟩ := escape_isSome_iff.mp here
          obtain ⟨sign, arrived⟩ := List.cons_eq_cons.mp same
          obtain ⟨after, whole, arrived⟩ := charset.sent_eq_cons arrived
            (hexValue_ascii one).1 (hexValue_ascii one).2
          obtain ⟨last, rfl, -⟩ := charset.sent_eq_cons arrived
            (hexValue_ascii two).1 (hexValue_ascii two).2
          rw [whole, sign]
          exact escape_isSome_iff.mpr ⟨high, low, last, rfl, one, two⟩
        · exact Or.inr (ih later)
      · rw [if_neg known] at arrived
        exact Or.inr (ih ((escaped_cons_of_ne (by decide)).mp arrived))

end Projs.JavaUtiler
