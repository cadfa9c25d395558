import Projs.Proof.Asm.Unquote

namespace Projs.Asm

/-- The bytes between plain quotes, and the place of the end. -/
def between (bq : UInt8) : List UInt8 → Option (List UInt8 × Nat)
  | [] => none
  | c :: rest =>
      if c = 0 ∨ c = bq then some ([], 0)
      else (between bq rest).map fun found => (c :: found.1, found.2 + 1)

/-- What a quoted string stands for, and the place of its end. -/
def meaning : List UInt8 → Option (List UInt8 × Nat)
  | [] => none
  | bq :: rest =>
      (if bq = BQUOTE then dequote .start rest else between bq rest).map
        fun found => (found.1, found.2 + 1)

variable {str out rest : List UInt8} {u : Unquote} {c : UInt8}

/-- Plain quotes end where the search for the end stops. -/
theorem skipPlain_eq (bq : UInt8) (rest : List UInt8) :
    skipPlain bq rest = (between bq rest).map Prod.snd := by
  induction rest with
  | nil => rfl
  | cons c rest inductionHypothesis =>
      rw [skipPlain, between]
      split
      · rfl
      · rw [inductionHypothesis, Option.map_map, Option.map_map]
        rfl

theorem not_quote_of_isHex (digit : isHex c = true) : c ≠ BACKSLASH ∧ c ≠ BQUOTE := by
  constructor
  · rintro rfl
    exact absurd digit (by decide)
  · rintro rfl
    exact absurd digit (by decide)

theorem not_quote_of_isOctal (digit : isOctal c = true) : c ≠ BACKSLASH ∧ c ≠ BQUOTE := by
  constructor
  · rintro rfl
    exact absurd digit (by decide)
  · rintro rfl
    exact absurd digit (by decide)

/-- The only state of the search besides the first one is the one behind a backslash. -/
def Reading.afterBackslash : Reading → Bool
  | .backslash => true
  | _ => false

theorem fromBackslash_after (c : UInt8) : (fromBackslash c).2.afterBackslash = false := by
  rw [fromBackslash]
  split
  · rfl
  · repeat' split
    all_goals rfl

/-- A digit leads to no state that the search tells apart. -/
theorem read_digit {reading : Reading} (digit : reading.isDigit c = true) :
    (c ≠ BACKSLASH ∧ c ≠ BQUOTE) ∧
      ∃ next, (reading.read c).2 = some next ∧ next.afterBackslash = false := by
  have shape : reading.ahead ≥ 3 ∧ (c ≠ BACKSLASH ∧ c ≠ BQUOTE) ∧
      (reading.withDigit c).afterBackslash = false := by
    cases reading with
    | start => cases digit
    | backslash => cases digit
    | oct ndig nval => exact ⟨Nat.le_refl 3, not_quote_of_isOctal digit, rfl⟩
    | hex name digits ndig nval => exact ⟨Nat.le_add_left 3 digits, not_quote_of_isHex digit, rfl⟩
    | ucs name digits ndig nval => exact ⟨Nat.le_add_left 3 digits, not_quote_of_isHex digit, rfl⟩
  obtain ⟨sequence, plain, after⟩ := shape
  refine ⟨plain, ?_⟩
  rw [read_sequence sequence, if_pos digit]
  split
  · exact ⟨_, rfl, rfl⟩
  · exact ⟨_, rfl, after⟩

theorem read_other {reading : Reading} (other : ¬ reading.isDigit c = true)
    (inner : reading.afterBackslash = false) :
    reading.read c = (reading.flush ++ (fromStart c).1, (fromStart c).2) := by
  cases reading with
  | backslash => cases inner
  | start => rfl
  | oct ndig nval =>
      have sequence : (Reading.oct ndig nval).ahead ≥ 3 := Nat.le_refl 3
      exact (read_sequence sequence).trans (if_neg other)
  | hex name digits ndig nval =>
      have sequence : (Reading.hex name digits ndig nval).ahead ≥ 3 := Nat.le_add_left 3 digits
      exact (read_sequence sequence).trans (if_neg other)
  | ucs name digits ndig nval =>
      have sequence : (Reading.ucs name digits ndig nval).ahead ≥ 3 := Nat.le_add_left 3 digits
      exact (read_sequence sequence).trans (if_neg other)

theorem dequote_cons {reading next : Reading} (some : c ≠ 0)
    (follows : (reading.read c).2 = Option.some next) (rest : List UInt8) :
    dequote reading (c :: rest) =
      (dequote next rest).map fun found => ((reading.read c).1 ++ found.1, found.2 + 1) := by
  rw [dequote, if_neg some, follows]

/-- The search and the dequoting end at the same place. -/
theorem skipBackquoted_eq (reading : Reading) (rest : List UInt8) :
    skipBackquoted reading.afterBackslash rest = (dequote reading rest).map Prod.snd := by
  induction rest generalizing reading with
  | nil => rfl
  | cons c rest inductionHypothesis =>
      by_cases null : c = 0
      · rw [skipBackquoted, dequote, if_pos null, if_pos null]
        rfl
      · have goesOn (next : Reading) (follows : (reading.read c).2 = some next) :
            (skipBackquoted next.afterBackslash rest).map (· + 1) =
              (dequote reading (c :: rest)).map Prod.snd := by
          rw [dequote_cons null follows, inductionHypothesis, Option.map_map, Option.map_map]
          rfl
        rw [skipBackquoted, if_neg null]
        by_cases escaped : reading.afterBackslash = true
        · rw [if_pos escaped]
          cases reading with
          | backslash =>
              have after := goesOn (fromBackslash c).2 rfl
              rw [fromBackslash_after] at after
              exact after
          | start => cases escaped
          | oct ndig nval => cases escaped
          | hex name digits ndig nval => cases escaped
          | ucs name digits ndig nval => cases escaped
        · rw [if_neg escaped]
          by_cases digit : reading.isDigit c = true
          · obtain ⟨⟨plain, inner⟩, next, follows, after⟩ := read_digit digit
            have step := goesOn next follows
            rw [after] at step
            rw [if_neg plain, if_neg inner]
            exact step
          · have read := read_other digit (Bool.eq_false_iff.mpr escaped)
            by_cases slash : c = BACKSLASH
            · have follows : (reading.read c).2 = some .backslash := by
                rw [read, fromStart, if_pos slash]
              rw [if_pos slash]
              exact goesOn .backslash follows
            · by_cases closing : c = BQUOTE
              · have ended : (reading.read c).2 = none := by
                  rw [read, fromStart, if_neg slash, if_pos closing]
                rw [if_neg slash, if_pos closing, dequote, if_neg null, ended]
                rfl
              · have follows : (reading.read c).2 = some .start := by
                  rw [read, fromStart, if_neg slash, if_neg closing]
                rw [if_neg slash, if_neg closing]
                exact goesOn .start follows

/-- A string that ends has a meaning. -/
theorem exists_dequote (reading : Reading) (terminated : 0 ∈ rest) :
    ∃ found, dequote reading rest = some found := by
  induction rest generalizing reading with
  | nil => cases terminated
  | cons c rest inductionHypothesis =>
      rw [dequote]
      split
      · exact ⟨_, rfl⟩
      · next some =>
          have behind : 0 ∈ rest := (List.mem_cons.mp terminated).resolve_left (Ne.symm some)
          cases (reading.read c).2 with
          | none => exact ⟨_, rfl⟩
          | some next =>
              obtain ⟨found, dequoted⟩ := inductionHypothesis next behind
              exact ⟨_, congrArg (Option.map _) dequoted⟩

theorem exists_between (bq : UInt8) (terminated : 0 ∈ rest) :
    ∃ found, between bq rest = some found := by
  induction rest with
  | nil => cases terminated
  | cons c rest inductionHypothesis =>
      rw [between]
      split
      · exact ⟨_, rfl⟩
      · next inner =>
          have behind : 0 ∈ rest :=
            (List.mem_cons.mp terminated).resolve_left fun null => inner (.inl null.symm)
          obtain ⟨found, moved⟩ := inductionHypothesis behind
          exact ⟨_, congrArg (Option.map _) moved⟩

/-- Between plain quotes every character is moved one place to the front. -/
theorem movePlain_eq {bq : UInt8} (memory : u.having str out = u) (ahead : out.length < u.p)
    (unread : str.drop u.p = rest) {bytes : List UInt8} {length : Nat}
    (found : between bq rest = some (bytes, length)) {steps : Nat}
    (enough : rest.length ≤ steps) :
    ∃ v, movePlain bq steps u = .ok v ∧ v.q = (out ++ bytes).length ∧ v.p = u.p + length ∧
      v.mem = out ++ bytes ++ 0 :: str.drop ((out ++ bytes).length + 1) ∧
      (out ++ bytes).length < v.p := by
  induction rest generalizing u out bytes length steps with
  | nil => cases found
  | cons c rest inductionHypothesis =>
      obtain ⟨left, rfl⟩ : ∃ left, steps = left + 1 :=
        ⟨steps - 1, by rw [List.length_cons] at enough; omega⟩
      have here : str[u.p]? = some c := by
        rw [← List.head?_drop, unread, List.head?_cons]
      have inside : u.p < str.length := (List.getElem?_eq_some_iff.mp here).1
      have read : byteAt u u.p = .ok c := by
        rw [← memory]
        exact byteAt_having (Nat.le_of_lt ahead) here
      rw [between] at found
      by_cases ended : c = 0 ∨ c = bq
      · rw [if_pos ended] at found
        cases found
        have written : put (u.having str out) 0 = .ok (u.having str (out ++ [0])) :=
          put_having 0 (by omega)
        rw [memory] at written
        refine ⟨{ u.having str (out ++ [0]) with q := u.q }, ?_, ?_, rfl, ?_, ?_⟩
        · rw [movePlain, read]
          change (if c = 0 ∨ c = bq then Except.map _ (put u 0) else _) = _
          rw [if_pos ended, written]
          rfl
        · rw [List.append_nil]
          exact (congrArg Unquote.q memory).symm
        · change out ++ [0] ++ str.drop (out ++ [0]).length = _
          rw [List.append_nil, List.append_assoc, List.length_append]
          rfl
        · rw [List.append_nil]
          exact ahead
      · rw [if_neg ended] at found
        obtain ⟨others, later, same⟩ := Option.map_eq_some_iff.mp found
        cases same
        let next := u.advanced.having str (out ++ [c])
        have written : put (u.advanced.having str out) c = .ok next := put_having c (by omega)
        rw [having_advanced memory] at written
        have further : (out ++ [c]).length < next.p := by
          change (out ++ [c]).length < u.p + 1
          rw [List.length_append, List.length_singleton]
          exact Nat.succ_lt_succ ahead
        have tail : str.drop next.p = rest := by
          change str.drop (u.p + 1) = rest
          rw [← List.drop_drop, unread]
          rfl
        obtain ⟨v, moved, length, place, kept, behind⟩ :=
          inductionHypothesis rfl further tail later (Nat.le_of_succ_le_succ enough)
        have joined : out ++ [c] ++ others.1 = out ++ c :: others.1 := List.append_assoc _ _ _
        rw [joined] at length kept behind
        refine ⟨v, ?_, length, ?_, kept, behind⟩
        · rw [movePlain, read]
          change (if c = 0 ∨ c = bq then _ else put u.advanced c >>= _) = _
          rw [if_neg ended, written]
          exact moved
        · rw [place]
          exact Nat.add_right_comm _ _ _

/-- What is written in front leaves the end of the string as it was. -/
theorem having_front {bytes : List UInt8} (memory : u.having str bytes = u) (last : Nat)
    (behind : bytes.length < last) :
    u.q = bytes.length ∧ u.mem.take bytes.length = bytes ∧ u.mem.drop last = str.drop last := by
  rw [← memory]
  refine ⟨rfl, List.take_left, ?_⟩
  change (bytes ++ str.drop bytes.length).drop last = str.drop last
  rw [List.drop_append, List.drop_eq_nil_of_le (Nat.le_of_lt behind), List.drop_drop,
    List.nil_append]
  congr 1
  omega

theorem drop_terminated {bytes : List UInt8} {last : Nat} (behind : bytes.length < last) :
    (bytes ++ 0 :: str.drop (bytes.length + 1)).drop last = str.drop last := by
  have front : bytes ++ 0 :: str.drop (bytes.length + 1) =
      (bytes ++ [0]) ++ str.drop (bytes ++ [0]).length := by
    rw [List.append_assoc, List.length_append]
    rfl
  have size : (bytes ++ [0]).length ≤ last := by
    rw [List.length_append]
    exact behind
  rw [front, List.drop_append, List.drop_eq_nil_of_le size, List.drop_drop, List.nil_append]
  congr 1
  omega

/-- A quoted string is turned back in its own memory: the result is what the string stands for, the
loops end, nothing from the end of the string on is written, and the end is where the search for it
stops. -/
theorem nasmUnquote_inPlace (str : List UInt8) (terminated : 0 ∈ str)
    (quoted : str.head? = some SQUOTE ∨ str.head? = some DQUOTE ∨ str.head? = some BQUOTE) :
    ∃ bytes last result, meaning str = some (bytes, last) ∧ nasmUnquote str = .ok result ∧
      result.length = bytes.length ∧ result.mem.take bytes.length = bytes ∧
      result.ep = some last ∧ nasmSkipString str = some last ∧ bytes.length < last ∧
      result.mem.drop last = str.drop last := by
  cases str with
  | nil => cases terminated
  | cons bq rest =>
      simp only [List.head?_cons, Option.some.injEq] at quoted
      have some : bq ≠ 0 := by
        rintro rfl
        exact absurd quoted (by decide)
      have behind : 0 ∈ rest := (List.mem_cons.mp terminated).resolve_left (Ne.symm some)
      let u : Unquote :=
        { mem := bq :: rest, p := 1, q := 0, escp := 0, state := .start, ndig := 0, nval := 0 }
      have enough : 2 * rest.length ≤ 2 * (bq :: rest).length + 1 := by
        rw [List.length_cons]
        omega
      rw [meaning, nasmUnquote, if_neg some, nasmSkipString]
      by_cases back : bq = BQUOTE
      · obtain ⟨⟨bytes, length⟩, found⟩ := exists_dequote .start behind
        have tracks : Tracks (bq :: rest) u .start [] := ⟨rfl, rfl, Nat.le_refl 1⟩
        obtain ⟨v, ended, memory, place, before⟩ := unquoteFrom_eq tracks rfl found enough
        have skipped := skipBackquoted_eq .start rest
        rw [found] at skipped
        have plain : ¬ (bq = SQUOTE ∨ bq = DQUOTE) := by
          rw [back]
          decide
        have last : v.p = length + 1 := place.trans (Nat.add_comm _ _)
        rw [last] at before
        obtain ⟨size, taken, left⟩ := having_front memory (length + 1) before
        rw [if_pos back, if_neg plain, if_pos back, if_neg plain, if_pos back, found, ended]
        refine ⟨bytes, length + 1, _, rfl, rfl, size, taken, congrArg Option.some last, ?_, before,
          left⟩
        change (skipBackquoted Reading.start.afterBackslash rest).map _ = _
        rw [skipped]
        rfl
      · have plain : bq = SQUOTE ∨ bq = DQUOTE := by
          rcases quoted with single | double | both
          · exact .inl single
          · exact .inr double
          · exact absurd both back
        obtain ⟨⟨bytes, length⟩, found⟩ := exists_between bq behind
        have fewer : rest.length ≤ 2 * (bq :: rest).length + 1 := by omega
        have whole : u.having (bq :: rest) [] = u := rfl
        obtain ⟨v, ended, size, place, memory, before⟩ :=
          movePlain_eq whole Nat.one_pos rfl found fewer
        have last : v.p = length + 1 := place.trans (Nat.add_comm _ _)
        rw [List.nil_append] at size memory before
        rw [last] at before
        rw [if_neg back, if_pos plain, if_pos plain, skipPlain_eq, found, ended]
        refine ⟨bytes, length + 1, _, rfl, rfl, size, ?_, congrArg Option.some last, rfl, before,
          ?_⟩
        · change v.mem.take bytes.length = bytes
          rw [memory]
          exact List.take_left
        · change v.mem.drop (length + 1) = _
          rw [memory]
          exact drop_terminated before

theorem nasmUnquote_inPlace_hex :
    0 ∈ ([96, 92, 120, 52, 49, 96, 0] : List UInt8) ∧
      ∃ bytes last result, meaning [96, 92, 120, 52, 49, 96, 0] = some (bytes, last) ∧
        nasmUnquote [96, 92, 120, 52, 49, 96, 0] = .ok result ∧ result.length = bytes.length ∧
        result.mem.take bytes.length = bytes ∧ result.ep = some last ∧
        nasmSkipString [96, 92, 120, 52, 49, 96, 0] = some last ∧ bytes.length < last ∧
        result.mem.drop last = ([96, 92, 120, 52, 49, 96, 0] : List UInt8).drop last :=
  ⟨by decide, nasmUnquote_inPlace [96, 92, 120, 52, 49, 96, 0] (by decide) (.inr (.inr rfl))⟩

end Projs.Asm
