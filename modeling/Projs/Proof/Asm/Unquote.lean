import Mathlib.Algebra.Group.Nat.Defs
import Mathlib.Tactic.Common
import Projs.Construction.Asm.Quote
import Projs.Library.LabelledMachine

namespace Projs.Asm
open LabelledMachine

/-- What has been read of an escape sequence, with the character behind the backslash and the
number of digits. -/
inductive Reading where
  | start
  | backslash
  | oct (ndig nval : Nat)
  | hex (name : UInt8) (digits ndig nval : Nat)
  | ucs (name : UInt8) (digits ndig nval : Nat)

/-- The bytes of a sequence that ends. -/
def Reading.flush : Reading → List UInt8
  | .start | .backslash => []
  | .oct _ nval => [UInt8.ofNat nval]
  | .hex name digits _ nval => if 0 < digits then [UInt8.ofNat nval] else [name]
  | .ucs name digits _ nval => if 0 < digits then emitUtf8 nval else [name]

/-- A character outside of a sequence; the closing quote has nothing behind it. -/
def fromStart (c : UInt8) : List UInt8 × Option Reading :=
  if c = BACKSLASH then ([], some .backslash)
  else if c = BQUOTE then ([], none)
  else ([c], some .start)

/-- The character behind a backslash. -/
def fromBackslash (c : UInt8) : List UInt8 × Reading :=
  match escapeValue c with
  | some value => ([value], .start)
  | none =>
      if c = 'u'.toUInt8 then ([], .ucs c 0 4 0)
      else if c = 'U'.toUInt8 then ([], .ucs c 0 8 0)
      else if c = 'x'.toUInt8 ∨ c = 'X'.toUInt8 then ([], .hex c 0 2 0)
      else if isOctal c then ([], .oct 2 (c.toNat - 48))
      else ([c], .start)

/-- A sequence with one more digit. -/
def Reading.withDigit : Reading → UInt8 → Reading
  | .oct ndig nval, c => .oct (ndig - 1) (nval <<< 3 + (c.toNat - 48))
  | .hex name digits ndig nval, c => .hex name (digits + 1) (ndig - 1) (nval <<< 4 + numvalue c)
  | .ucs name digits ndig nval, c =>
      .ucs name (digits + 1) (ndig - 1) ((nval <<< 4 + numvalue c) % 2 ^ 32)
  | reading, _ => reading

def Reading.isDigit : Reading → UInt8 → Bool
  | .oct _ _, c => isOctal c
  | .hex _ _ _ _, c => isHex c
  | .ucs _ _ _ _, c => isHex c
  | _, _ => false

/-- The number of digits that can follow. -/
def Reading.ndig : Reading → Nat
  | .oct ndig _ => ndig
  | .hex _ _ ndig _ => ndig
  | .ucs _ _ ndig _ => ndig
  | _ => 0

/-- One character is read; the last digit ends a sequence, and so does what is no digit. -/
def Reading.read (reading : Reading) (c : UInt8) : List UInt8 × Option Reading :=
  match reading with
  | .backslash => ((fromBackslash c).1, some (fromBackslash c).2)
  | reading =>
      if reading.isDigit c then
        if (reading.withDigit c).ndig = 0 then ((reading.withDigit c).flush, some .start)
        else ([], some (reading.withDigit c))
      else (reading.flush ++ (fromStart c).1, (fromStart c).2)

/-- The bytes between backquotes, written to memory of their own, and the place of the end. -/
def dequote : Reading → List UInt8 → Option (List UInt8 × Nat)
  | _, [] => none
  | reading, c :: rest =>
      if c = 0 then some (reading.flush, 0)
      else
        match (reading.read c).2 with
        | none => some ((reading.read c).1, 0)
        | some next =>
            (dequote next rest).map fun found => ((reading.read c).1 ++ found.1, found.2 + 1)

/-- The memory that holds some bytes in front of what it held before. -/
def Unquote.having (u : Unquote) (str out : List UInt8) : Unquote :=
  { u with mem := out ++ str.drop out.length, q := out.length }

variable {str out : List UInt8} {u : Unquote} {reading : Reading}

theorem put_having (c : UInt8) (room : out.length < str.length) :
    put (u.having str out) c = .ok (u.having str (out ++ [c])) := by
  have size : (out ++ str.drop out.length).length = str.length := by
    rw [List.length_append, List.length_drop]
    omega
  have written : (out ++ str.drop out.length).set out.length c =
      out ++ [c] ++ str.drop (out ++ [c]).length := by
    rw [List.set_append_right _ _ (Nat.le_refl _), Nat.sub_self, List.drop_eq_getElem_cons room,
      List.set_cons_zero, List.length_append, List.append_assoc]
    rfl
  have here : (u.having str out).q < (u.having str out).mem.length := by
    change out.length < (out ++ str.drop out.length).length
    rw [size]
    exact room
  have moved : (u.having str (out ++ [c])).q = out.length + 1 := by
    change (out ++ [c]).length = _
    rw [List.length_append]
    rfl
  let mem := (out ++ str.drop out.length).set out.length c
  rw [put, if_pos here]
  change Except.ok { u with mem, q := out.length + 1 } = _
  simp only [mem, written, ← moved]
  rfl

theorem putAll_having (bytes : List UInt8) (room : out.length + bytes.length ≤ str.length) :
    putAll (u.having str out) bytes = .ok (u.having str (out ++ bytes)) := by
  induction bytes generalizing out with
  | nil =>
      rw [List.append_nil]
      rfl
  | cons c rest inductionHypothesis =>
      rw [List.length_cons] at room
      have left : (out ++ [c]).length + rest.length ≤ str.length := by
        rw [List.length_append, List.length_singleton]
        omega
      rw [putAll, List.foldlM_cons, put_having c (by omega)]
      have follows := inductionHypothesis left
      rw [List.append_assoc] at follows
      exact follows

/-- What has not been written over can still be read. -/
theorem byteAt_having {place : Nat} {c : UInt8} (unread : out.length ≤ place)
    (there : str[place]? = some c) : byteAt (u.having str out) place = .ok c := by
  have kept : (out ++ str.drop out.length)[place]? = some c := by
    rw [List.getElem?_append_right unread, List.getElem?_drop, ← there]
    congr 1
    omega
  rw [byteAt]
  change (match (out ++ str.drop out.length)[place]? with | some c => _ | none => _) = _
  rw [kept]

/-- The variables of the loop show what has been read. -/
def Reading.Shows (str : List UInt8) (u : Unquote) : Reading → Prop
  | .start => u.state = .start
  | .backslash => u.state = .backslash
  | .oct ndig nval => u.state = .oct ∧ u.ndig = ndig ∧ u.nval = nval
  | .hex name digits ndig nval => u.state = .hex ∧ u.ndig = ndig ∧ u.nval = nval ∧
      u.escp + digits = u.p ∧ 0 < u.escp ∧ str[u.escp - 1]? = some name
  | .ucs name digits ndig nval => u.state = .ucs ∧ u.ndig = ndig ∧ u.nval = nval ∧
      u.escp + digits = u.p ∧ 0 < u.escp ∧ str[u.escp - 1]? = some name ∧ nval < 16 ^ digits

/-- The number of characters by which the reading is ahead of the writing. -/
def Reading.ahead : Reading → Nat
  | .start => 1
  | .backslash => 2
  | .oct _ _ => 3
  | .hex _ digits _ _ => digits + 3
  | .ucs _ digits _ _ => digits + 3

/-- A code point with few digits has few bytes. -/
theorem length_emitUtf8_le {v digits : Nat} (small : v < 16 ^ digits) :
    (emitUtf8 v).length ≤ digits + 2 := by
  have bounds : (digits < 1 → v < 16 ^ 0) ∧ (digits < 2 → v < 16 ^ 1) ∧ (digits < 3 → v < 16 ^ 2) ∧
      (digits < 4 → v < 16 ^ 3) := by
    refine ⟨fun few => ?_, fun few => ?_, fun few => ?_, fun few => ?_⟩ <;>
      exact Nat.lt_of_lt_of_le small (Nat.pow_le_pow_right (by decide) (Nat.le_of_lt_succ few))
  rw [emitUtf8]
  repeat' split
  all_goals
    simp only [List.length_nil, List.length_cons]
    omega

theorem Reading.Shows.length_flush (shows : reading.Shows str u) :
    reading.flush.length < reading.ahead := by
  cases reading with
  | start => exact Nat.one_pos
  | backslash => exact Nat.two_pos
  | oct ndig nval => exact Nat.lt_add_of_pos_left Nat.two_pos
  | hex name digits ndig nval =>
      rw [Reading.flush]
      split <;> exact Nat.lt_add_left _ (Nat.lt_add_of_pos_left Nat.two_pos)
  | ucs name digits ndig nval =>
      have few := length_emitUtf8_le shows.2.2.2.2.2.2
      rw [Reading.flush]
      split
      · exact Nat.lt_succ_of_le few
      · exact Nat.lt_add_left _ (Nat.lt_add_of_pos_left Nat.two_pos)

/-- A sequence that ends is written behind the rest. -/
theorem putEscape_having (shows : reading.Shows str u) (ahead : out.length + reading.ahead ≤ u.p)
    (inside : u.p ≤ str.length) :
    putEscape (u.having str out) = .ok (u.having str (out ++ reading.flush)) := by
  have few := shows.length_flush
  cases reading with
  | start =>
      have state : (u.having str out).state = .start := shows
      rw [putEscape, state, Reading.flush, List.append_nil]
  | backslash =>
      have state : (u.having str out).state = .backslash := shows
      rw [putEscape, state, Reading.flush, List.append_nil]
  | oct ndig nval =>
      obtain ⟨state, -, rfl⟩ := shows
      have same : (u.having str out).state = .oct := state
      rw [putEscape, same]
      exact put_having _ (by rw [Reading.ahead] at ahead; omega)
  | hex name digits ndig nval =>
      obtain ⟨state, -, rfl, place, positive, named⟩ := shows
      have same : (u.having str out).state = .hex := state
      rw [Reading.ahead] at ahead
      rw [putEscape, same, Reading.flush]
      change (if u.escp < u.p then _ else _) = _
      by_cases some : 0 < digits
      · rw [if_pos (by omega), if_pos some]
        exact put_having _ (by omega)
      · rw [if_neg (by omega), if_neg some]
        change (byteAt (u.having str out) (u.escp - 1) >>= fun c => put (u.having str out) c) = _
        rw [byteAt_having (by omega) named]
        exact put_having _ (by omega)
  | ucs name digits ndig nval =>
      obtain ⟨state, -, rfl, place, positive, named, -⟩ := shows
      have same : (u.having str out).state = .ucs := state
      rw [Reading.ahead] at ahead
      rw [Reading.flush, Reading.ahead] at few
      rw [putEscape, same, Reading.flush]
      change (if u.escp < u.p then _ else _) = _
      by_cases some : 0 < digits
      · rw [if_pos some] at few
        rw [if_pos (by omega), if_pos some]
        change putAll (u.having str out) (emitUtf8 u.nval) = _
        exact putAll_having _ (by omega)
      · rw [if_neg (by omega), if_neg some]
        change (byteAt (u.having str out) (u.escp - 1) >>= fun c => put (u.having str out) c) = _
        rw [byteAt_having (by omega) named]
        exact put_having _ (by omega)

/-- The loop has written some bytes, and the rest of the string is still in its place. -/
structure Tracks (str : List UInt8) (u : Unquote) (reading : Reading) (out : List UInt8) :
    Prop where
  memory : u.having str out = u
  shows : reading.Shows str u
  ahead : out.length + reading.ahead ≤ u.p

/-- The loop comes to the next character, or it ends at this one. -/
def Reaches (str : List UInt8) (steps least : Nat) (u : Unquote) (out : List UInt8) :
    Option Reading → Prop
  | some next => ∃ v left, least ≤ left ∧ unquoteFrom steps u = unquoteFrom left v ∧
      Tracks str v next out ∧ v.p = u.p + 1
  | none => ∃ v, unquoteFrom steps u = .ok v ∧ v.having str out = v ∧ v.p = u.p ∧
      out.length < v.p

variable {c : UInt8}

theorem Reaches.of_eq {steps least first : Nat} {v : Unquote} {next : Option Reading}
    (reaches : Reaches str steps least v out next)
    (same : unquoteFrom first u = unquoteFrom steps v) (place : v.p = u.p) :
    Reaches str first least u out next := by
  cases next with
  | none =>
      obtain ⟨final, ended, kept, last, behind⟩ := reaches
      exact ⟨final, same.trans ended, kept, last.trans place, behind⟩
  | some next =>
      obtain ⟨final, left, enough, follows, tracks, last⟩ := reaches
      exact ⟨final, left, enough, same.trans follows, tracks, last.trans (congrArg _ place)⟩

theorem Reaches.of_least {steps least first : Nat} {next : Option Reading}
    (reaches : Reaches str steps least u out next) (fewer : first ≤ least) :
    Reaches str steps first u out next := by
  cases next with
  | none => exact reaches
  | some next =>
      obtain ⟨final, left, enough, follows, tracks, last⟩ := reaches
      exact ⟨final, left, Nat.le_trans fewer enough, follows, tracks, last⟩

/-- The pointer has moved over a character. -/
def Unquote.advanced (u : Unquote) : Unquote := { u with p := u.p + 1 }

theorem unquoteStep_start (state : u.state = .start) :
    unquoteStep u c = if c = BACKSLASH then .ok ({ u with state := .backslash }, false)
      else if c = BQUOTE then .ok ({ u with p := u.p - 1 }, true)
      else (put u c).map fun u => (u, false) := by
  rw [unquoteStep, state]

theorem unquoteStep_backslash (state : u.state = .backslash) :
    unquoteStep u c = (backslashStep u c).map fun u => (u, false) := by
  rw [unquoteStep, state]

/-- The character that is read next has not been written over. -/
theorem Tracks.byteAt (tracks : Tracks str u reading out) (here : str[u.p]? = some c) :
    Asm.byteAt u u.p = .ok c := by
  have ahead := tracks.ahead
  rw [← tracks.memory]
  exact byteAt_having (Nat.le_trans (Nat.le_add_right _ _) ahead) here

theorem Tracks.unquoteFrom (tracks : Tracks str u reading out) (here : str[u.p]? = some c)
    (some : c ≠ 0) (steps : Nat) :
    Asm.unquoteFrom (steps + 1) u = (unquoteStep u.advanced c >>= fun stepped =>
      if stepped.2 then .ok stepped.1 else Asm.unquoteFrom steps stepped.1) := by
  rw [Asm.unquoteFrom, tracks.byteAt here]
  exact if_neg some

/-- The memory stays as it is when the pointer moves. -/
theorem having_advanced (memory : u.having str out = u) :
    u.advanced.having str out = u.advanced :=
  congrArg Unquote.advanced memory

theorem unquoteFrom_start (tracks : Tracks str u .start out) (here : str[u.p]? = some c)
    (some : c ≠ 0) (steps : Nat) :
    Reaches str (steps + 1) steps u (out ++ (fromStart c).1) (fromStart c).2 := by
  have ahead := tracks.ahead
  have memory := having_advanced tracks.memory
  have inside : u.p < str.length := (List.getElem?_eq_some_iff.mp here).1
  have stepped := tracks.unquoteFrom here some steps
  rw [unquoteStep_start (u := u.advanced) tracks.shows] at stepped
  rw [Reading.ahead] at ahead
  rw [fromStart]
  split
  · next escaped =>
      rw [if_pos escaped] at stepped
      refine ⟨_, steps, Nat.le_refl _, stepped, ⟨?_, rfl, ?_⟩, rfl⟩
      · rw [List.append_nil]
        exact congrArg (fun v : Unquote => { v with state := .backslash }) memory
      · rw [List.append_nil, Reading.ahead]
        exact Nat.succ_le_succ ahead
  · next unescaped =>
      rw [if_neg unescaped] at stepped
      split
      · next closing =>
          rw [if_pos closing] at stepped
          rw [List.append_nil]
          exact ⟨u, stepped, tracks.memory, rfl, ahead⟩
      · next inner =>
          have written : put (u.advanced.having str out) c =
              .ok (u.advanced.having str (out ++ [c])) := put_having c (by omega)
          rw [memory] at written
          rw [if_neg inner, written] at stepped
          refine ⟨_, steps, Nat.le_refl _, stepped, ⟨rfl, tracks.shows, ?_⟩, rfl⟩
          rw [List.length_append, List.length_singleton, Reading.ahead]
          exact Nat.succ_le_succ ahead

theorem unquoteFrom_backslash (tracks : Tracks str u .backslash out) (here : str[u.p]? = some c)
    (some : c ≠ 0) (steps : Nat) :
    Reaches str (steps + 1) steps u (out ++ (fromBackslash c).1)
      (Option.some (fromBackslash c).2) := by
  have ahead := tracks.ahead
  let v : Unquote := { u.advanced with state := .start, escp := u.p + 1, nval := 0 }
  have memory : v.having str out = v :=
    congrArg (fun v : Unquote => { v.advanced with state := .start, escp := u.p + 1, nval := 0 })
      tracks.memory
  have inside : u.p < str.length := (List.getElem?_eq_some_iff.mp here).1
  have stepped := tracks.unquoteFrom here some steps
  rw [Reading.ahead] at ahead
  have written (value : UInt8) : put v value = .ok (v.having str (out ++ [value])) := by
    have room : put (v.having str out) value = .ok (v.having str (out ++ [value])) :=
      put_having value (by omega)
    rw [memory] at room
    exact room
  have single (value : UInt8) :
      Tracks str (v.having str (out ++ [value])) .start (out ++ [value]) := by
    refine ⟨rfl, rfl, ?_⟩
    change (out ++ [value]).length + 1 ≤ u.p + 1
    rw [List.length_append, List.length_singleton]
    omega
  have named : 0 < u.p + 1 ∧ str[u.p + 1 - 1]? = Option.some c := ⟨Nat.succ_pos _, here⟩
  rw [unquoteStep_backslash (u := u.advanced) tracks.shows] at stepped
  rw [fromBackslash]
  cases found : escapeValue c with
  | some value =>
      have escaped : backslashStep u.advanced c = put v value := by
        rw [backslashStep, found]
        rfl
      rw [escaped, written] at stepped
      exact ⟨_, steps, Nat.le_refl _, stepped, single value, rfl⟩
  | none =>
      have unfolded : backslashStep u.advanced c =
          if c = 'u'.toUInt8 then .ok { v with state := .ucs, ndig := 4 }
          else if c = 'U'.toUInt8 then .ok { v with state := .ucs, ndig := 8 }
          else if c = 'x'.toUInt8 ∨ c = 'X'.toUInt8 then .ok { v with state := .hex, ndig := 2 }
          else if isOctal c then .ok { v with state := .oct, ndig := 2, nval := c.toNat - 48 }
          else put v c := by
        rw [backslashStep, found]
        rfl
      rw [unfolded] at stepped
      have goesOn (state : UnqState) (ndig nval : Nat) (next : Reading)
          (step : unquoteFrom (steps + 1) u = unquoteFrom steps { v with state, ndig, nval })
          (shows : next.Shows str { v with state, ndig, nval }) (three : next.ahead = 3) :
          Reaches str (steps + 1) steps u (out ++ []) (Option.some next) := by
        rw [List.append_nil]
        refine ⟨_, steps, Nat.le_refl _, step, ⟨?_, shows, ?_⟩, rfl⟩
        · exact congrArg (fun v : Unquote => { v with state, ndig, nval }) memory
        · rw [three]
          exact Nat.succ_le_succ ahead
      simp only
      split
      · next short =>
          rw [if_pos short] at stepped
          exact goesOn .ucs 4 0 _ stepped ⟨rfl, rfl, rfl, rfl, named.1, named.2, Nat.one_pos⟩ rfl
      · next notShort =>
          rw [if_neg notShort] at stepped
          split
          · next long =>
              rw [if_pos long] at stepped
              exact goesOn .ucs 8 0 _ stepped
                ⟨rfl, rfl, rfl, rfl, named.1, named.2, Nat.one_pos⟩ rfl
          · next notLong =>
              rw [if_neg notLong] at stepped
              split
              · next hex =>
                  rw [if_pos hex] at stepped
                  exact goesOn .hex 2 0 _ stepped ⟨rfl, rfl, rfl, rfl, named.1, named.2⟩ rfl
              · next notHex =>
                  rw [if_neg notHex] at stepped
                  split
                  · next octal =>
                      rw [if_pos octal] at stepped
                      exact goesOn .oct 2 (c.toNat - 48) _ stepped ⟨rfl, rfl, rfl⟩ rfl
                  · next other =>
                      rw [if_neg other, written] at stepped
                      exact ⟨_, steps, Nat.le_refl _, stepped, single c, rfl⟩

theorem numvalue_lt (digit : isHex c = true) : numvalue c < 16 := by
  have cases : (48 ≤ c.toNat ∧ c.toNat ≤ 57) ∨ (65 ≤ c.toNat ∧ c.toNat ≤ 70) ∨
      (97 ≤ c.toNat ∧ c.toNat ≤ 102) := by
    have ranges := of_decide_eq_true digit
    simp only [UInt8.le_iff_toNat_le] at ranges
    exact ranges
  have low : 'a'.toUInt8 ≤ c ↔ 97 ≤ c.toNat := UInt8.le_iff_toNat_le
  have high : 'A'.toUInt8 ≤ c ↔ 65 ≤ c.toNat := UInt8.le_iff_toNat_le
  rw [numvalue]
  by_cases lower : 97 ≤ c.toNat
  · rw [if_pos (low.mpr lower)]
    omega
  · rw [if_neg fun above => lower (low.mp above)]
    by_cases upper : 65 ≤ c.toNat
    · rw [if_pos (high.mpr upper)]
      omega
    · rw [if_neg fun above => upper (high.mp above)]
      omega

/-- The digits of the escape sequences are treated in one way. -/
theorem unquoteStep_digit (shows : reading.Shows str u) (sequence : reading.ahead ≥ 3) :
    ∃ nval, unquoteStep u.advanced c =
        (digitStep u.advanced (reading.isDigit c) nval).map (fun u => (u, false)) ∧
      (reading.isDigit c = true → (reading.withDigit c).Shows str
        { u.advanced with nval, ndig := u.ndig - 1 }) ∧
      (reading.withDigit c).ndig = u.ndig - 1 ∧
      (reading.withDigit c).ahead ≤ reading.ahead + 1 := by
  cases reading with
  | start => exact absurd sequence (by decide)
  | backslash => exact absurd sequence (by decide)
  | oct ndig nval =>
      obtain ⟨state, rfl, rfl⟩ := shows
      refine ⟨u.nval <<< 3 + (c.toNat - 48), ?_, fun _ => ⟨state, rfl, rfl⟩, rfl, Nat.le_succ _⟩
      have same : u.advanced.state = .oct := state
      rw [unquoteStep, same]
      rfl
  | hex name digits ndig nval =>
      obtain ⟨state, rfl, rfl, place, positive, named⟩ := shows
      refine ⟨u.nval <<< 4 + numvalue c, ?_, fun _ => ⟨state, rfl, rfl, ?_, positive, named⟩, rfl,
        Nat.le_of_eq (Nat.add_right_comm _ _ _)⟩
      · have same : u.advanced.state = .hex := state
        rw [unquoteStep, same]
        rfl
      · exact congrArg (· + 1) place
  | ucs name digits ndig nval =>
      obtain ⟨state, rfl, rfl, place, positive, named, small⟩ := shows
      refine ⟨(u.nval <<< 4 + numvalue c) % 2 ^ 32, ?_,
        fun digit => ⟨state, rfl, rfl, ?_, positive, named, ?_⟩, rfl,
        Nat.le_of_eq (Nat.add_right_comm _ _ _)⟩
      · have same : u.advanced.state = .ucs := state
        rw [unquoteStep, same]
        rfl
      · exact congrArg (· + 1) place
      · have value := numvalue_lt digit
        apply Nat.lt_of_le_of_lt (Nat.mod_le _ _)
        rw [Nat.shiftLeft_eq, Nat.pow_succ]
        omega

theorem read_sequence (sequence : reading.ahead ≥ 3) :
    reading.read c = if reading.isDigit c then
        if (reading.withDigit c).ndig = 0 then ((reading.withDigit c).flush, some .start)
        else ([], some (reading.withDigit c))
      else (reading.flush ++ (fromStart c).1, (fromStart c).2) := by
  cases reading with
  | start => exact absurd sequence (by decide)
  | backslash => exact absurd sequence (by decide)
  | oct ndig nval => rfl
  | hex name digits ndig nval => rfl
  | ucs name digits ndig nval => rfl

/-- A sequence that has been written leaves the loop in its first state. -/
theorem tracks_flushed (shows : reading.Shows str u) (ahead : out.length + reading.ahead ≤ u.p) :
    Tracks str { u.having str (out ++ reading.flush) with state := .start } .start
      (out ++ reading.flush) := by
  have few := shows.length_flush
  refine ⟨rfl, rfl, ?_⟩
  rw [List.length_append, Reading.ahead]
  exact Nat.le_trans (by omega) ahead

theorem unquoteFrom_digit (tracks : Tracks str u reading out) (sequence : reading.ahead ≥ 3)
    (here : str[u.p]? = some c) (some : c ≠ 0) (steps : Nat) :
    Reaches str (steps + 2) steps u (out ++ (reading.read c).1) (reading.read c).2 := by
  have ahead := tracks.ahead
  have memory := tracks.memory
  have inside : u.p < str.length := (List.getElem?_eq_some_iff.mp here).1
  have stepped := tracks.unquoteFrom here some (steps + 1)
  obtain ⟨nval, unfolded, shown, ndig, further⟩ :=
    unquoteStep_digit (c := c) tracks.shows sequence
  rw [unfolded, digitStep] at stepped
  rw [read_sequence sequence]
  by_cases digit : reading.isDigit c = true
  · let v : Unquote := { u.advanced with nval, ndig := u.ndig - 1 }
    have shows : (reading.withDigit c).Shows str v := shown digit
    have same : v.having str out = v :=
      congrArg (fun u : Unquote => { u.advanced with nval, ndig := u.ndig - 1 }) memory
    have reach : out.length + (reading.withDigit c).ahead ≤ v.p := by
      change _ ≤ u.p + 1
      omega
    rw [if_pos digit] at stepped ⊢
    change unquoteFrom (steps + 2) u = (Except.map _ (if v.ndig = 0 then _ else _) >>= _) at stepped
    by_cases last : (reading.withDigit c).ndig = 0
    · have written := putEscape_having shows reach inside
      rw [same] at written
      rw [if_pos (ndig.symm.trans last)] at stepped
      change unquoteFrom (steps + 2) u =
        (Except.map _ (Except.map _ (putEscape v)) >>= _) at stepped
      rw [written] at stepped
      rw [if_pos last]
      exact ⟨_, steps + 1, Nat.le_succ _, stepped, tracks_flushed shows reach, rfl⟩
    · rw [if_neg fun none => last (ndig.trans none)] at stepped
      rw [if_neg last]
      refine ⟨v, steps + 1, Nat.le_succ _, stepped, ?_, rfl⟩
      rw [List.append_nil]
      exact ⟨same, shows, reach⟩
  · have written := putEscape_having tracks.shows ahead (Nat.le_of_lt inside)
    rw [memory] at written
    rw [if_neg digit] at stepped ⊢
    change unquoteFrom (steps + 2) u = (Except.map _ (Except.map _ (putEscape u)) >>= _) at stepped
    rw [written] at stepped
    have again := unquoteFrom_start (c := c) (tracks_flushed tracks.shows ahead) here some steps
    rw [List.append_assoc] at again
    exact again.of_eq stepped rfl

/-- At most two steps of the loop read one character. -/
theorem unquoteFrom_read (tracks : Tracks str u reading out) (here : str[u.p]? = some c)
    (some : c ≠ 0) (steps : Nat) :
    Reaches str (steps + 2) steps u (out ++ (reading.read c).1) (reading.read c).2 := by
  cases reading with
  | start => exact (unquoteFrom_start tracks here some (steps + 1)).of_least (Nat.le_succ steps)
  | backslash =>
      exact (unquoteFrom_backslash tracks here some (steps + 1)).of_least (Nat.le_succ steps)
  | oct ndig nval => exact unquoteFrom_digit tracks (Nat.le_refl 3) here some steps
  | hex name digits ndig nval =>
      exact unquoteFrom_digit tracks (Nat.le_add_left 3 digits) here some steps
  | ucs name digits ndig nval =>
      exact unquoteFrom_digit tracks (Nat.le_add_left 3 digits) here some steps

/-- The loop writes in the memory of the string what is written elsewhere. -/
theorem unquoteFrom_eq {rest : List UInt8} (tracks : Tracks str u reading out)
    (unread : str.drop u.p = rest) {bytes : List UInt8} {length : Nat}
    (found : dequote reading rest = some (bytes, length)) {steps : Nat}
    (enough : 2 * rest.length ≤ steps) :
    ∃ v, unquoteFrom steps u = .ok v ∧ v.having str (out ++ bytes) = v ∧ v.p = u.p + length ∧
      (out ++ bytes).length < v.p := by
  induction rest generalizing u reading out bytes length steps with
  | nil => cases found
  | cons c rest inductionHypothesis =>
      obtain ⟨left, rfl⟩ : ∃ left, steps = left + 2 :=
        ⟨steps - 2, by rw [List.length_cons] at enough; omega⟩
      have here : str[u.p]? = some c := by
        rw [← List.head?_drop, unread, List.head?_cons]
      have inside : u.p < str.length := (List.getElem?_eq_some_iff.mp here).1
      have ahead := tracks.ahead
      rw [dequote] at found
      by_cases null : c = 0
      · rw [if_pos null] at found
        cases found
        have written := putEscape_having tracks.shows ahead (Nat.le_of_lt inside)
        have few := tracks.shows.length_flush
        rw [tracks.memory] at written
        refine ⟨u.having str (out ++ reading.flush), ?_, rfl, rfl, ?_⟩
        · rw [unquoteFrom, tracks.byteAt here]
          exact (if_pos null).trans written
        · change (out ++ reading.flush).length < u.p
          rw [List.length_append]
          omega
      · have reached := unquoteFrom_read tracks here null left
        rw [if_neg null] at found
        cases next : (reading.read c).2 with
        | none =>
            rw [next] at found reached
            cases found
            exact reached
        | some following =>
            rw [next] at found reached
            obtain ⟨others, later, same⟩ := Option.map_eq_some_iff.mp found
            cases same
            obtain ⟨v, steps, more, follows, tracked, place⟩ := reached
            have unread : str.drop v.p = rest := by
              rw [place, ← List.drop_drop, unread]
              rfl
            have fewer : 2 * rest.length ≤ steps := by
              rw [List.length_cons] at enough
              omega
            obtain ⟨final, ended, kept, last, behind⟩ :=
              inductionHypothesis tracked unread later fewer
            rw [List.append_assoc] at kept behind
            refine ⟨final, follows.trans ended, kept, ?_, behind⟩
            rw [last, place]
            exact Nat.add_right_comm _ _ _

end Projs.Asm
