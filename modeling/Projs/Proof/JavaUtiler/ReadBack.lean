import Mathlib.Data.Set.Operations
import Projs.Construction.JavaUtiler.PostMan
import Projs.Proof.Java.Encoding
import Projs.Proof.Java.Text
import Projs.Proof.JavaUtiler.Component

namespace Projs.JavaUtiler
open Java Tokens

/-- A text with no ampersand, plus sign or escape is read as it is. -/
def MeansItself (text : JavaString) : Prop := 0x26 ∉ text ∧ 0x2B ∉ text ∧ ¬ Escaped text

/-- A value may hold an equals sign, but a key may not. -/
def PlainEntry (entry : JavaString × JavaString) : Prop :=
  MeansItself entry.1 ∧ 0x3D ∉ entry.1 ∧ MeansItself entry.2

/-- The text behind an entry begins with an ampersand, unless it was the last entry. -/
def behind (entries : List (JavaString × JavaString)) : JavaString :=
  if entries = [] then [] else 0x26 :: queryStr entries

@[simp] theorem queryStr_nil : queryStr [] = [] := rfl

theorem queryStr_cons (key value : JavaString) (entries : List (JavaString × JavaString)) :
    queryStr ((key, value) :: entries) = key ++ 0x3D :: (value ++ behind entries) := by
  have equals : literal "=" = [0x3D] := rfl
  have ampersand : literal "&" = [0x26] := rfl
  cases entries with
  | nil => simp [queryStr, joining, behind, equals]
  | cons entry entries => simp [queryStr, joining, behind, equals, ampersand]

/-- A front of a text ends with it, or before a character that is no part of the form. -/
def FrontOf (front text : JavaString) : Prop :=
  ∃ back, text = front ++ back ∧ ∀ character ∈ back.head?, character ≠ 0x3D ∧ character ≠ 0x26

theorem frontOf_self (text : JavaString) : FrontOf text text :=
  ⟨[], (List.append_nil text).symm, nofun⟩

/-- A text without a character ends before it; when it is long enough, it ends just there. -/
theorem append_eq_of_not_mem {first second front back : JavaString} {character : JavaChar}
    (same : first ++ second = front ++ character :: back) (absent : character ∉ first)
    (long : front.length ≤ first.length) : first = front ∧ second = character :: back := by
  rcases List.append_eq_append_iff.mp same with ⟨between, longer, later⟩ | ⟨between, longer, later⟩
  · have none : between = [] := by
      rw [longer, List.length_append] at long
      exact List.length_eq_zero_iff.mp (by omega)
    subst none
    exact ⟨(longer.trans (List.append_nil _)).symm, later⟩
  · cases between with
    | nil => exact ⟨longer.trans (List.append_nil _), later.symm⟩
    | cons symbol between =>
        cases later
        exact absurd (by simp [longer]) absent

/-- The first entry is read from a first piece behind a gap of ampersands. -/
theorem parseForm_eq_cons {text : JavaString} {entry : JavaString × JavaString}
    {entries : List (JavaString × JavaString)} (read : parseForm text = entry :: entries) :
    ∃ gap piece rest, text = gap ++ (piece ++ rest) ∧ (∀ symbol ∈ gap, symbol = 0x26) ∧
      0x26 ∉ piece ∧ (∀ symbol ∈ rest.head?, symbol = 0x26) ∧ entryOf piece = entry ∧
      parseForm rest = entries := by
  have renders := renders_tokens (fun character : JavaChar => character == 0x26) text
  unfold parseForm at read
  generalize found : tokens (fun character : JavaChar => character == 0x26) text = pieces at *
  cases renders with
  | gap => cases read
  | @word gap piece rest pieces separates filled plain ends others =>
      obtain ⟨first, later⟩ := List.cons_eq_cons.mp read
      refine ⟨gap, piece, rest, rfl, by simpa using separates, ?_, by simpa using ends, first, ?_⟩
      · intro inside
        exact absurd (plain 0x26 inside) (by decide)
      · rw [parseForm, ← others.tokens_eq] at *
        exact later

/-- A piece with an equals sign is a key with a value. -/
theorem entryOf_key_value (key value : JavaString) (plain : 0x3D ∉ key) :
    entryOf (key ++ 0x3D :: value) = (decodeComponent key, decodeComponent value) := by
  have other := bne_of_not_mem plain
  rw [entryOf, List.takeWhile_append_of_pos other, List.dropWhile_append_of_pos other]
  simp

/-- A piece without an equals sign is a key alone. -/
theorem entryOf_key (key : JavaString) (plain : 0x3D ∉ key) :
    (entryOf key).1 = decodeComponent key := by
  rw [entryOf, List.takeWhile_eq_self_iff.mpr (bne_of_not_mem plain)]

/-- A text that is long enough to be the key, and does not reach its equals sign, is the key. -/
theorem key_eq {key gap first second rest : JavaString}
    (same : gap ++ (first ++ second) = key ++ 0x3D :: rest) (gaps : 0x3D ∉ gap)
    (absent : 0x3D ∉ first) (long : key.length ≤ first.length) :
    gap = [] ∧ first = key ∧ second = 0x3D :: rest := by
  rw [← List.append_assoc] at same
  obtain ⟨keys, later⟩ := append_eq_of_not_mem same (by simp [gaps, absent])
    (by rw [List.length_append]; omega)
  have none : gap = [] := by
    have lengths := congrArg List.length keys
    rw [List.length_append] at lengths
    exact List.length_eq_zero_iff.mp (by omega)
  subst none
  exact ⟨rfl, keys, later⟩

/-- A text that is long enough to be the value, and has no ampersand, is the value. -/
theorem value_eq {value first rest after : JavaString} (same : first ++ rest = value ++ after)
    (plain : 0x26 ∉ first) (starts : ∀ symbol ∈ after.head?, symbol = 0x26)
    (long : value.length ≤ first.length) : first = value ∧ rest = after := by
  cases after with
  | nil =>
      have lengths := congrArg List.length same
      simp only [List.length_append, List.length_nil] at lengths
      have none : rest = [] := List.length_eq_zero_iff.mp (by omega)
      subst none
      exact ⟨by simpa using same, rfl⟩
  | cons symbol after =>
      cases starts symbol rfl
      exact append_eq_of_not_mem same plain long

/-- When an entry is read from a piece at the front of its own text, the gap before it is empty and
the piece is the entry as it was written. -/
theorem piece_eq {key value gap piece rest after : JavaString}
    (same : gap ++ (piece ++ rest) = key ++ 0x3D :: (value ++ after))
    (gaps : ∀ symbol ∈ gap, symbol = 0x26) (plain : 0x26 ∉ piece)
    (ends : ∀ symbol ∈ rest.head?, symbol ≠ 0x3D) (starts : ∀ symbol ∈ after.head?, symbol = 0x26)
    (read : entryOf piece = (key, value)) :
    gap = [] ∧ 0x3D ∉ key ∧ piece = key ++ 0x3D :: value ∧ rest = after := by
  have noEquals : (0x3D : JavaChar) ∉ gap := by
    intro inside
    exact absurd (gaps 0x3D inside) (by decide)
  by_cases inside : (0x3D : JavaChar) ∈ piece
  · obtain ⟨first, second, rfl, absent⟩ := List.eq_append_cons_of_mem inside
    rw [entryOf_key_value first second absent] at read
    cases read
    rw [List.append_assoc] at same
    obtain ⟨none, keys, later⟩ := key_eq same noEquals absent (length_decodeComponent_le first)
    have values : second ++ rest = decodeComponent second ++ after := by simpa using later
    have noAmpersand : 0x26 ∉ second := fun found => plain (by simp [found])
    obtain ⟨whole, others⟩ :=
      value_eq values noAmpersand starts (length_decodeComponent_le second)
    exact ⟨none, keys ▸ absent, by rw [← keys, ← whole], others⟩
  · -- Without an equals sign, the piece would end just where the text goes on with one.
    have keys : key = decodeComponent piece := by rw [← entryOf_key piece inside, read]
    have long : key.length ≤ piece.length := keys ▸ length_decodeComponent_le piece
    obtain ⟨_, _, later⟩ := key_eq same noEquals inside long
    exact absurd rfl (ends 0x3D (by rw [later]; rfl))

/-- An entry that is read from its own text is plain. -/
theorem plainEntry_iff {key value : JavaString} :
    PlainEntry (key, value) ↔ 0x3D ∉ key ∧ 0x26 ∉ key ++ 0x3D :: value ∧
      entryOf (key ++ 0x3D :: value) = (key, value) := by
  unfold PlainEntry MeansItself
  constructor
  · rintro ⟨⟨noAmpersand, keys⟩, plain, noOther, values⟩
    refine ⟨plain, by simp [noAmpersand, noOther], ?_⟩
    rw [entryOf_key_value key value plain, (decodeComponent_eq_iff key).mpr keys,
      (decodeComponent_eq_iff value).mpr values]
  · rintro ⟨plain, alone, read⟩
    rw [entryOf_key_value key value plain, Prod.mk.injEq, decodeComponent_eq_iff,
      decodeComponent_eq_iff] at read
    simp only [List.mem_append, List.mem_cons, not_or] at alone
    exact ⟨⟨alone.1, read.1⟩, plain, alone.2.2, read.2⟩

theorem behind_starts (entries : List (JavaString × JavaString)) :
    ∀ symbol ∈ (behind entries).head?, symbol = 0x26 := by
  intro symbol first
  unfold behind at first
  split at first
  · cases first
  · exact (Option.some.inj first).symm

theorem parseForm_behind (entries : List (JavaString × JavaString)) :
    parseForm (behind entries) = parseForm (queryStr entries) := by
  unfold behind
  split
  · next none => rw [none, queryStr_nil]
  · rw [parseForm, tokens_cons_separator _ rfl, ← parseForm]

/-- A front of the text behind an entry is a front of the other entries, behind an ampersand. -/
theorem FrontOf.inner {rest : JavaString} {entries : List (JavaString × JavaString)}
    (fronts : FrontOf rest (behind entries)) :
    ∃ front, FrontOf front (queryStr entries) ∧ parseForm rest = parseForm front ∧
      (front = queryStr entries → rest = behind entries) := by
  obtain ⟨back, same, kinds⟩ := fronts
  by_cases none : entries = []
  · subst none
    obtain ⟨rfl, rfl⟩ := List.append_eq_nil_iff.mp same.symm
    exact ⟨[], frontOf_self [], rfl, fun _ => rfl⟩
  · have begins : behind entries = 0x26 :: queryStr entries := if_neg none
    rw [begins] at same ⊢
    cases rest with
    | nil =>
        cases same
        exact absurd rfl (kinds 0x26 rfl).2
    | cons symbol front =>
        obtain ⟨rfl, others⟩ := List.cons_eq_cons.mp same
        refine ⟨front, ⟨back, others, kinds⟩, ?_, congrArg _⟩
        rw [parseForm, tokens_cons_separator _ rfl, ← parseForm]

/-- The entries are read from a front of their text exactly when it is the whole text and every
entry is plain. -/
theorem parseForm_eq_iff (entries : List (JavaString × JavaString)) {front : JavaString}
    (fronts : FrontOf front (queryStr entries)) :
    parseForm front = entries ↔
      front = queryStr entries ∧ ∀ entry ∈ entries, PlainEntry entry := by
  induction entries generalizing front with
  | nil =>
      obtain ⟨back, same, _⟩ := fronts
      obtain ⟨rfl, rfl⟩ := List.append_eq_nil_iff.mp same.symm
      simp [parseForm]
  | cons entry entries ih =>
      obtain ⟨key, value⟩ := entry
      obtain ⟨back, same, kinds⟩ := fronts
      rw [queryStr_cons] at same ⊢
      rw [List.forall_mem_cons]
      constructor
      · intro read
        obtain ⟨gap, piece, rest, rfl, gaps, plain, ends, first, later⟩ := parseForm_eq_cons read
        have next : ∀ symbol ∈ (rest ++ back).head?, symbol ≠ 0x3D := by
          cases rest with
          | nil => exact fun symbol member => (kinds symbol member).1
          | cons symbol rest =>
              rintro _ ⟨⟩
              rw [ends symbol rfl]
              decide
        rw [List.append_assoc, List.append_assoc] at same
        obtain ⟨rfl, noEquals, rfl, others⟩ :=
          piece_eq same.symm gaps plain next (behind_starts entries) first
        have rests : FrontOf rest (behind entries) := ⟨back, others.symm, kinds⟩
        obtain ⟨front, fronts, equal, whole⟩ := rests.inner
        obtain ⟨all, plains⟩ := (ih fronts).mp (equal.symm.trans later)
        refine ⟨?_, plainEntry_iff.mpr ⟨noEquals, plain, first⟩, plains⟩
        rw [List.nil_append, List.append_assoc, List.cons_append, whole all]
      · rintro ⟨rfl, plain, others⟩
        obtain ⟨_, alone, read⟩ := plainEntry_iff.mp plain
        have letters : ∀ symbol ∈ key ++ 0x3D :: value, (symbol == 0x26) = false := by
          intro symbol inside
          rw [beq_eq_false_iff_ne]
          rintro rfl
          exact alone inside
        have shape : key ++ 0x3D :: (value ++ behind entries) =
            (key ++ 0x3D :: value) ++ behind entries := by simp
        rw [shape, parseForm, tokens_word_append (by simp) letters
          (by simpa using behind_starts entries), List.map_cons, read, ← parseForm,
          parseForm_behind, (ih (frontOf_self _)).mpr ⟨rfl, others⟩]

/-- The constructor of a URL cuts white space off at the end, and then a fragment. -/
def cutQuery (text : JavaString) : JavaString :=
  (text.rdropWhile fun character => character ≤ 0x20).takeWhile fun character => character != 0x23

theorem query_get (base : BaseUrl) (params : Params) :
    (get base params).query = some (cutQuery (queryStr params.entries)) := by
  obtain ⟨text, noMark, noHash⟩ := base
  have mark : literal "?" = [0x3F] := rfl
  have marks := bne_of_not_mem noMark
  have hashes := bne_of_not_mem noHash
  have file : ((get ⟨text, noMark, noHash⟩ params).url.rdropWhile
      fun character => character ≤ 0x20).takeWhile (fun character => character != 0x23) =
        text ++ 0x3F :: cutQuery (queryStr params.entries) := by
    simp only [get, mark, List.singleton_append]
    rw [rdropWhile_append_cons _ _ (by decide), List.takeWhile_append_of_pos hashes,
      List.takeWhile_cons_of_pos (by decide), ← cutQuery]
  simp only [Request.query, file]
  rw [if_pos (by simp), List.dropWhile_append_of_pos marks]
  simp

/-- A query is cut at a hash or at white space. -/
theorem frontOf_cutQuery (text : JavaString) : FrontOf (cutQuery text) text := by
  let trimmed := text.rdropWhile fun character => character ≤ 0x20
  let fragment := trimmed.dropWhile fun character => character != 0x23
  let white := text.rtakeWhile fun character => character ≤ 0x20
  have cut : cutQuery text ++ fragment = trimmed := List.takeWhile_append_dropWhile
  have whole : trimmed ++ white = text := List.rdropWhile_append_rtakeWhile
  refine ⟨fragment ++ white, by rw [← List.append_assoc, cut, whole], ?_⟩
  intro character first
  cases found : fragment with
  | nil =>
      rw [found, List.nil_append] at first
      have low := List.mem_rtakeWhile_imp (List.mem_of_mem_head? first)
      constructor <;> rintro rfl <;> exact absurd low (by decide)
  | cons symbol rest =>
      have hash := List.head?_dropWhile_not (fun character : JavaChar => character != 0x23) trimmed
      rw [show trimmed.dropWhile _ = symbol :: rest from found] at hash
      have equal : symbol = 0x23 := by simpa using hash
      rw [found, equal] at first
      cases first
      decide

theorem cutQuery_eq_iff (text : JavaString) :
    cutQuery text = text ↔ 0x23 ∉ text ∧ ∀ character ∈ text.getLast?, 0x20 < character := by
  have hashes : text.takeWhile (fun character => character != 0x23) = text ↔ 0x23 ∉ text := by
    rw [List.takeWhile_eq_self_iff]
    refine ⟨?_, bne_of_not_mem⟩
    intro others inside
    exact absurd (others 0x23 inside) (by decide)
  have ends : (text.rdropWhile fun character => character ≤ 0x20) = text ↔
      ∀ character ∈ text.getLast?, 0x20 < character := by
    rw [List.rdropWhile_eq_self_iff]
    cases text using List.reverseRecOn with
    | nil => simp
    | append_singleton text last => simp
  rw [← hashes, ← ends]
  constructor
  · intro same
    have shorter := List.rdropWhile_prefix (fun character : JavaChar => character ≤ 0x20)
      (l := text)
    have longer := List.takeWhile_prefix (fun character : JavaChar => character != 0x23)
      (l := text.rdropWhile fun character => character ≤ 0x20)
    rw [← cutQuery, same] at longer
    have trimmed := shorter.eq_of_length_le longer.length_le
    rw [cutQuery, trimmed] at same
    exact ⟨same, trimmed⟩
  · rintro ⟨plain, trimmed⟩
    rw [cutQuery, trimmed, plain]

/-- The last parameter does not end with white space. -/
def EndsPlain (entries : List (JavaString × JavaString)) : Prop :=
  ∀ entry ∈ entries.getLast?, ∀ character ∈ entry.2.getLast?, 0x20 < character

/-- No key or value has an ampersand, a plus sign, a hash, an escape or a character that the charset
has not, no key has an equals sign, and the last value does not end with white space. -/
structure Readable (charset : Charset) (params : Params) : Prop where
  plain : ∀ entry ∈ params.entries, PlainEntry entry
  whole : ∀ entry ∈ params.entries, 0x23 ∉ entry.1 ∧ 0x23 ∉ entry.2
  ends : EndsPlain params.entries
  encodes : ∀ entry ∈ params.entries, charset.EncodesAll entry.1 ∧ charset.EncodesAll entry.2

theorem not_mem_queryStr_iff (entries : List (JavaString × JavaString)) :
    0x23 ∉ queryStr entries ↔ ∀ entry ∈ entries, 0x23 ∉ entry.1 ∧ 0x23 ∉ entry.2 := by
  induction entries with
  | nil => simp
  | cons entry entries ih =>
      obtain ⟨key, value⟩ := entry
      have others : 0x23 ∉ behind entries ↔ 0x23 ∉ queryStr entries := by
        unfold behind
        split
        · next none => rw [none, queryStr_nil]
        · simp
      rw [queryStr_cons, List.forall_mem_cons, ← ih, ← others]
      simp [not_or, and_assoc]

theorem getLast?_queryStr (entries : List (JavaString × JavaString)) :
    (∀ character ∈ (queryStr entries).getLast?, 0x20 < character) ↔ EndsPlain entries := by
  induction entries with
  | nil => simp [EndsPlain]
  | cons entry entries ih =>
      obtain ⟨key, value⟩ := entry
      cases entries with
      | nil =>
          have alone : queryStr [(key, value)] = key ++ 0x3D :: value := by
            simp [queryStr_cons, behind]
          have high : (0x20 : JavaChar) < 0x3D := by decide
          rw [alone]
          cases found : value.getLast? <;>
            simp [EndsPlain, List.getLast?_append, List.getLast?_cons, found, high]
      | cons other entries =>
          have filled : queryStr (other :: entries) ≠ [] := by
            obtain ⟨first, text⟩ := other
            simp [queryStr_cons]
          have shape : queryStr ((key, value) :: other :: entries) =
              (key ++ 0x3D :: (value ++ [0x26])) ++ queryStr (other :: entries) := by
            rw [queryStr_cons key value]
            simp [behind]
          have last : EndsPlain ((key, value) :: other :: entries) ↔
              EndsPlain (other :: entries) := by
            simp [EndsPlain, List.getLast?_cons_cons]
          rw [last, ← ih, shape, List.getLast?_append_of_ne_nil _ filled]

section Sent
variable {charset : Charset}

/-- An entry as it arrives. -/
def sentEntry (charset : Charset) (entry : JavaString × JavaString) : JavaString × JavaString :=
  (charset.sent entry.1, charset.sent entry.2)

/-- The signs between keys and values arrive, so that each key and value arrives on its own. -/
theorem sent_queryStr (entries : List (JavaString × JavaString)) :
    charset.sent (queryStr entries) = queryStr (entries.map (sentEntry charset)) := by
  induction entries with
  | nil => rfl
  | cons entry entries ih =>
      obtain ⟨key, value⟩ := entry
      have others : charset.sent (value ++ behind entries) =
          charset.sent value ++ behind (entries.map (sentEntry charset)) := by
        unfold behind
        by_cases none : entries = []
        · rw [if_pos none, if_pos (by rw [none, List.map_nil]), List.append_nil, List.append_nil]
        · rw [if_neg none, if_neg (by rwa [List.map_eq_nil_iff]),
            charset.sent_append_cons (by decide), ih]
      rw [queryStr_cons, charset.sent_append_cons (by decide), others, List.map_cons, sentEntry,
        queryStr_cons]

theorem MeansItself.sent {text : JavaString} (plain : MeansItself text) :
    MeansItself (charset.sent text) :=
  ⟨fun inside => plain.1 (charset.mem_of_mem_sent inside (by decide)),
    fun inside => plain.2.1 (charset.mem_of_mem_sent inside (by decide)),
    fun inside => plain.2.2 (escaped_of_escaped_sent charset text inside)⟩

theorem PlainEntry.sent {entry : JavaString × JavaString} (plain : PlainEntry entry) :
    PlainEntry (sentEntry charset entry) :=
  ⟨plain.1.sent, fun inside => plain.2.1 (charset.mem_of_mem_sent inside (by decide)),
    plain.2.2.sent⟩

/-- Plain entries are read back from a body exactly when all of their characters arrive. -/
theorem parseBody_eq_iff {entries : List (JavaString × JavaString)}
    (plain : ∀ entry ∈ entries, PlainEntry entry) :
    parseBody charset (charset.encode (queryStr entries)) = entries ↔
      ∀ entry ∈ entries, charset.EncodesAll entry.1 ∧ charset.EncodesAll entry.2 := by
  have arrives : ∀ entry ∈ entries.map (sentEntry charset), PlainEntry entry := by
    rw [List.forall_mem_map]
    exact fun entry member => (plain entry member).sent
  have read : parseBody charset (charset.encode (queryStr entries)) =
      entries.map (sentEntry charset) := by
    rw [parseBody, charset.decode_encode, ← Charset.sent, sent_queryStr]
    exact (parseForm_eq_iff _ (frontOf_self _)).mpr ⟨rfl, arrives⟩
  have fixed := List.map_inj_left (f := sentEntry charset) (g := id) (l := entries)
  rw [List.map_id] at fixed
  rw [read, fixed]
  refine forall₂_congr fun entry _ => ?_
  rw [← charset.sent_eq_iff, ← charset.sent_eq_iff]
  exact Prod.ext_iff

/-- The entries are what a reader of both requests finds. -/
def ReadsBack (charset : Charset) (base : BaseUrl) (params : Params) : Prop :=
  ((request charset (literal "get") base params).bind Request.query).map parseForm =
      some params.entries ∧
    ((request charset (literal "post") base params).bind Request.body).map (parseBody charset) =
      some params.entries

theorem request_get (base : BaseUrl) (params : Params) :
    request charset (literal "get") base params = some (get base params) := if_pos rfl

theorem request_post (base : BaseUrl) (params : Params) :
    request charset (literal "post") base params = some (post charset base params) := by
  rw [request, if_neg (by decide), if_pos rfl]

theorem readsBack_iff_readable (base : BaseUrl) (params : Params) :
    ReadsBack charset base params ↔ Readable charset params := by
  have reads := parseForm_eq_iff params.entries (frontOf_cutQuery (queryStr params.entries))
  rw [cutQuery_eq_iff, not_mem_queryStr_iff, getLast?_queryStr] at reads
  rw [ReadsBack, request_get, request_post, Option.bind_some, Option.bind_some, query_get]
  simp only [post, Option.map_some, Option.some.injEq]
  rw [reads]
  constructor
  · rintro ⟨⟨⟨whole, ends⟩, plain⟩, body⟩
    exact ⟨plain, whole, ends, (parseBody_eq_iff plain).mp body⟩
  · rintro ⟨plain, whole, ends, encodes⟩
    exact ⟨⟨⟨whole, ends⟩, plain⟩, (parseBody_eq_iff plain).mpr encodes⟩

/-- Requests that read back to the same entries have the same parameters. -/
theorem params_eq_of_readsBack {base : BaseUrl} {params other : Params} {method : JavaString}
    (known : method = literal "get" ∨ method = literal "post")
    (reads : ReadsBack charset base params) (others : ReadsBack charset base other)
    (same : request charset method base params = request charset method base other) :
    params = other := by
  have entries : params.entries = other.entries := by
    rcases known with rfl | rfl
    · rw [ReadsBack, same] at reads
      exact Option.some.inj (reads.1.symm.trans others.1)
    · rw [ReadsBack, same] at reads
      exact Option.some.inj (reads.2.symm.trans others.2)
  cases params
  cases other
  cases entries
  rfl

end Sent

/-- Whatever the default charset is, both requests read back to the parameters exactly when these
are readable, and readable parameters have requests of their own. -/
theorem readsBack_iff (charset : Charset) (base : BaseUrl) :
    (∀ params, ReadsBack charset base params ↔ Readable charset params) ∧
      Set.InjOn (request charset (literal "get") base) {params | Readable charset params} ∧
      Set.InjOn (request charset (literal "post") base) {params | Readable charset params} := by
  have reads := @readsBack_iff_readable charset base
  refine ⟨reads, ?_, ?_⟩
  · intro params readable other others same
    exact params_eq_of_readsBack (Or.inl rfl) ((reads params).mpr readable)
      ((reads other).mpr others) same
  · intro params readable other others same
    exact params_eq_of_readsBack (Or.inr rfl) ((reads params).mpr readable)
      ((reads other).mpr others) same

/-- The value of one parameter spells a second one. -/
def spelled : Params where
  entries := [(literal "a", literal "1&b=2")]
  distinct := by decide

def two : Params where
  entries := [(literal "a", literal "1"), (literal "b", literal "2")]
  distinct := by decide

def home : BaseUrl where
  text := literal "http://h/"
  plain := by decide

/-- One parameter and two have the same requests, so that the one is not read back. -/
theorem spelled_not_readsBack :
    spelled.entries ≠ two.entries ∧
      (∀ method, request utf8 method home spelled = request utf8 method home two) ∧
      ¬ ReadsBack utf8 home spelled := by
  refine ⟨by decide, ?_, ?_⟩
  · intro method
    have same : queryStr spelled.entries = queryStr two.entries := by decide
    simp only [request, get, post, same]
  · rw [readsBack_iff_readable]
    intro readable
    exact absurd (readable.plain _ List.mem_cons_self).2.2.1 (by decide)

end Projs.JavaUtiler
