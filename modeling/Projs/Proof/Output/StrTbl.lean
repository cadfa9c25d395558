import Projs.Construction.Output.StrTbl
import Projs.Proof.Nasmlib.HashRun

namespace Projs.Output
open Nasmlib ProbeTable

/-- The strings lie behind each other from a first index on. -/
def laid : Nat → List CString → List (CString × StrtblEntry)
  | _, [] => []
  | start, str :: rest =>
      (str, ⟨start, str.bytes ++ [0]⟩) :: laid (start + (str.bytes.length + 1)) rest

/-- The bytes of strings with their terminating nulls. -/
def total (strings : List CString) : Nat := (strings.map fun str => str.bytes.length + 1).sum

theorem laid_append (start : Nat) (strings : List CString) (str : CString) :
    laid start (strings ++ [str]) =
      laid start strings ++ [(str, ⟨start + total strings, str.bytes ++ [0]⟩)] := by
  induction strings generalizing start with
  | nil => rfl
  | cons first strings inductionHypothesis =>
      rw [List.cons_append, laid, laid, inductionHypothesis, List.cons_append, total, total,
        List.map_cons, List.sum_cons, Nat.add_assoc]

theorem mem_laid {start : Nat} {strings : List CString} {entry : CString × StrtblEntry}
    (member : entry ∈ laid start strings) :
    entry.1 ∈ strings ∧ entry.2.str = entry.1.bytes ++ [0] ∧ start ≤ entry.2.index ∧
      entry.2.index + entry.2.str.length ≤ start + total strings := by
  induction strings generalizing start with
  | nil => exact absurd member List.not_mem_nil
  | cons first strings inductionHypothesis =>
      have sum : total (first :: strings) = first.bytes.length + 1 + total strings := by
        rw [total, List.map_cons, List.sum_cons, total]
      obtain rfl | member := List.mem_cons.mp member
      · refine ⟨List.mem_cons_self .., rfl, Nat.le_refl _, ?_⟩
        rw [List.length_append, List.length_singleton, sum]
        change start + (first.bytes.length + 1) ≤ _
        omega
      · obtain ⟨listed, text, above, below⟩ := inductionHypothesis member
        exact ⟨List.mem_cons_of_mem _ listed, text, by omega, by omega⟩

theorem exists_laid {start : Nat} {strings : List CString} {str : CString}
    (member : str ∈ strings) :
    ∃ entry ∈ laid start strings, entry.1 = str := by
  induction strings generalizing start with
  | nil => exact absurd member List.not_mem_nil
  | cons first strings inductionHypothesis =>
      obtain rfl | member := List.mem_cons.mp member
      · exact ⟨_, List.mem_cons_self .., rfl⟩
      · obtain ⟨entry, listed, same⟩ := inductionHypothesis member
        exact ⟨entry, List.mem_cons_of_mem _ listed, same⟩

/-- An entry lies over a place of the buffer. -/
def Covers (se : StrtblEntry) (place : Nat) : Prop :=
  se.index ≤ place ∧ place < se.index + se.str.length

theorem laid_covers {start : Nat} {strings : List CString} {place : Nat} (above : start ≤ place)
    (below : place < start + total strings) :
    ∃ entry ∈ laid start strings, Covers entry.2 place := by
  induction strings generalizing start with
  | nil =>
      rw [total, List.map_nil, List.sum_nil] at below
      omega
  | cons first strings inductionHypothesis =>
      rw [total, List.map_cons, List.sum_cons, ← total] at below
      by_cases here : place < start + (first.bytes.length + 1)
      · refine ⟨_, List.mem_cons_self .., above, ?_⟩
        rw [List.length_append, List.length_singleton]
        exact here
      · obtain ⟨entry, listed, covers⟩ := inductionHypothesis (Nat.not_lt.mp here) (by omega)
        exact ⟨entry, List.mem_cons_of_mem _ listed, covers⟩

/-- Two entries have no place in common. -/
def Apart (first second : CString × StrtblEntry) : Prop :=
  ∀ place, Covers first.2 place → ¬ Covers second.2 place

theorem laid_apart (start : Nat) (strings : List CString) :
    (laid start strings).Pairwise Apart := by
  induction strings generalizing start with
  | nil => exact List.Pairwise.nil
  | cons first strings inductionHypothesis =>
      apply List.Pairwise.cons
      · intro entry member place here there
        have above := (mem_laid member).2.2.1
        have before := here.2
        have after := there.1
        rw [List.length_append, List.length_singleton] at before
        change place < start + (first.bytes.length + 1) at before
        omega
      · exact inductionHypothesis _

/-- Copies of entries that lie apart leave every entry in its place, in whatever order. -/
theorem memcpy_foldlM {size : Nat} (entries : List (CString × StrtblEntry))
    (apart : entries.Pairwise Apart)
    (inside : ∀ entry ∈ entries, entry.2.index + entry.2.str.length ≤ size)
    (buf : Nat → Option UInt8) :
    ∃ written, (entries.map Prod.snd).foldlM (memcpy size) buf = some written ∧
      (∀ place, (∀ entry ∈ entries, ¬ Covers entry.2 place) → written place = buf place) ∧
      ∀ entry ∈ entries, ∀ place, Covers entry.2 place →
        written place = entry.2.str[place - entry.2.index]? := by
  induction entries generalizing buf with
  | nil => exact ⟨buf, rfl, fun _ _ => rfl, fun _ member => absurd member List.not_mem_nil⟩
  | cons first entries inductionHypothesis =>
      obtain ⟨others, rest⟩ := List.pairwise_cons.mp apart
      let copied : Nat → Option UInt8 := fun place =>
        if first.2.index ≤ place ∧ place < first.2.index + first.2.str.length then
          first.2.str[place - first.2.index]?
        else buf place
      have copy : memcpy size buf first.2 = some copied :=
        if_pos (inside first (List.mem_cons_self ..))
      obtain ⟨written, ran, kept, placed⟩ := inductionHypothesis rest
        (fun entry member => inside entry (List.mem_cons_of_mem _ member)) copied
      refine ⟨written, ?_, fun place free => ?_, fun entry member place covers => ?_⟩
      · rw [List.map_cons, List.foldlM_cons, copy]
        exact ran
      · rw [kept place fun entry member => free entry (List.mem_cons_of_mem _ member)]
        exact if_neg (free first (List.mem_cons_self ..))
      · obtain rfl | member := List.mem_cons.mp member
        · rw [kept place fun other member => others other member place covers]
          exact if_pos covers
        · exact placed entry member place covers

/-- A string table has its distinct strings laid one behind the other, the empty one first. -/
structure Tabled (tbl : NasmStrtbl) (strings : List CString) : Prop where
  sound : ∃ power, Sound exactKeying tbl.hash (laid 0 strings) power
  size : tbl.size = total strings
  nodup : strings.Nodup

theorem firstEntry_laid {start : Nat} {strings : List CString} {str : CString} :
    firstEntry exactKeying.same (laid start strings) str = none ↔ str ∉ strings := by
  rw [firstEntry_eq_none_iff]
  constructor
  · intro absent member
    obtain ⟨entry, listed, same⟩ := exists_laid member
    exact absent entry listed (congrArg CString.bytes same)
  · intro absent entry listed same
    apply absent
    have equal : entry.1 = str := by
      cases entry with
      | mk key data =>
          cases key
          cases str
          cases same
          rfl
    exact equal ▸ (mem_laid listed).1

/-- A string of the table is found at its index. -/
theorem Tabled.find_found {tbl : NasmStrtbl} {strings : List CString} (tabled : Tabled tbl strings)
    {str : CString} (member : str ∈ strings) :
    ∃ place node, hashFind tbl.hash str = some (.found place) ∧
      tbl.hash.table place = some node ∧ (str, node.data) ∈ laid 0 strings := by
  obtain ⟨power, sound⟩ := tabled.sound
  obtain ⟨entry, listed, rfl⟩ := exists_laid member
  obtain ⟨place, node, ended, -, holds, same⟩ := sound.find_found listed rfl
  exact ⟨place, node, ended, holds, by rw [← same] at listed ⊢; exact listed⟩

theorem Tabled.absent {tbl : NasmStrtbl} {strings : List CString} (tabled : Tabled tbl strings)
    {str : CString} (absent : str ∉ strings) :
    ∃ hi, hashFind tbl.hash str = some (.missing hi) ∧ ∀ se, ∃ hash place more,
      hashAdd tbl.hash hi str se = some (hash, place) ∧
        Sound exactKeying hash (laid 0 strings ++ [(str, se)]) more := by
  obtain ⟨power, sound⟩ := tabled.sound
  have others : ∀ entry ∈ laid 0 strings, exactKeying.classOf entry.1 ≠ exactKeying.classOf str :=
    firstEntry_eq_none_iff.mp (firstEntry_laid.mpr absent)
  obtain ⟨index, ended, free, passed⟩ := sound.find_missing others
  refine ⟨_, ended, fun se => ?_⟩
  obtain ⟨hash, place, more, added, kept, -⟩ := sound.add se others free passed
  exact ⟨hash, place, more, added, kept⟩

/-- An addition puts a new string behind the others. -/
theorem Tabled.add {tbl : NasmStrtbl} {strings : List CString} (tabled : Tabled tbl strings)
    (str : CString) : ∃ after index, strtblAdd tbl str = some (after, index) ∧
      Tabled after (if str ∈ strings then strings else strings ++ [str]) := by
  by_cases member : str ∈ strings
  · obtain ⟨place, node, ended, holds, -⟩ := tabled.find_found member
    refine ⟨tbl, node.data.index, ?_, ?_⟩
    · rw [strtblAdd, ended]
      change (tbl.hash.table place).bind _ = _
      rw [holds]
      rfl
    · rw [if_pos member]
      exact tabled
  · obtain ⟨hi, ended, adds⟩ := tabled.absent member
    obtain ⟨hash, place, more, added, kept⟩ := adds ⟨tbl.size, str.bytes ++ [0]⟩
    refine ⟨⟨tbl.size + (str.bytes.length + 1), hash⟩, tbl.size, ?_, ?_⟩
    · rw [strtblAdd, ended]
      change (hashAdd tbl.hash hi str _).bind _ = _
      rw [added]
      rfl
    · rw [if_neg member]
      refine ⟨⟨more, ?_⟩, ?_, List.nodup_append.mpr ⟨tabled.nodup, List.nodup_singleton _, ?_⟩⟩
      · rw [laid_append, Nat.zero_add, ← tabled.size]
        exact kept
      · rw [total, List.map_append, List.sum_append, ← total, ← tabled.size]
        rfl
      · intro one here other there
        rw [List.mem_singleton.mp there]
        exact fun same => member (same ▸ here)

theorem tabled_init : ∃ tbl, strtblInit = some tbl ∧ Tabled tbl [emptyString] := by
  obtain ⟨hash, made, sound⟩ :
      ∃ hash : HashTable StrtblEntry, hashInit (2 ^ 8) = some hash ∧ Sound exactKeying hash [] 8 :=
    sound_init exactKeying 8
  have start : Tabled ⟨0, hash⟩ [] := ⟨⟨8, sound⟩, rfl, List.nodup_nil⟩
  obtain ⟨tbl, index, added, tabled⟩ := start.add emptyString
  refine ⟨tbl, ?_, tabled⟩
  have large : HASH_LARGE = 2 ^ 8 := rfl
  rw [strtblInit, large, made]
  change (strtblAdd ⟨0, hash⟩ emptyString).bind _ = _
  rw [added]
  rfl

/-- Strings are added one after another to a new table. -/
def strtblAddAll (strs : List CString) : Option NasmStrtbl := do
  strs.foldlM (fun tbl str => (strtblAdd tbl str).map Prod.fst) (← strtblInit)

theorem strtblAddAll_tabled (strs : List CString) :
    ∃ tbl strings, strtblAddAll strs = some tbl ∧ Tabled tbl strings ∧
      ∀ str, str ∈ strings ↔ str ∈ emptyString :: strs := by
  obtain ⟨start, made, tabled⟩ := tabled_init
  have whole : ∀ strs, strtblAddAll strs =
      strs.foldlM (fun tbl str => (strtblAdd tbl str).map Prod.fst) start := by
    intro strs
    rw [strtblAddAll, made]
    rfl
  rw [whole]
  induction strs using List.reverseRecOn with
  | nil => exact ⟨start, _, rfl, tabled, fun _ => Iff.rfl⟩
  | append_singleton strs str inductionHypothesis =>
      obtain ⟨tbl, strings, ran, tabled, members⟩ := inductionHypothesis
      obtain ⟨after, index, added, kept⟩ := tabled.add str
      refine ⟨after, _, ?_, kept, fun other => ?_⟩
      · rw [List.foldlM_append, ran]
        change ((strtblAdd tbl str).map Prod.fst).bind some = _
        rw [added]
        rfl
      · rw [← List.cons_append, List.mem_append, ← members, List.mem_singleton]
        split
        · next known => exact ⟨Or.inl, fun either => either.elim id fun same => same ▸ known⟩
        · rw [List.mem_append, List.mem_singleton]

/-- The generated table has every string once with its terminating null, at the index where it is
found, and every byte of it is written; a string that was not added is not found. -/
theorem strtblGenerate_find (strs : List CString) :
    ∃ tbl strings buf, strtblAddAll strs = some tbl ∧ strtblGenerate tbl = some buf ∧
      strings.Nodup ∧ (∀ str, str ∈ strings ↔ str ∈ emptyString :: strs) ∧
      tbl.size = total strings ∧ (∀ place, place < tbl.size → (buf place).isSome = true) ∧
      ∀ str, (str ∈ strings → ∃ index, strtblFind tbl str = some index ∧
          ∀ offset, offset ≤ str.bytes.length →
            buf (index + offset) = (str.bytes ++ [0])[offset]?) ∧
        (str ∉ strings → strtblFind tbl str = some STRTBL_NONE) := by
  obtain ⟨tbl, strings, ran, tabled, members⟩ := strtblAddAll_tabled strs
  obtain ⟨power, sound⟩ := tabled.sound
  have listed := sound.iterate_some
  have apart := (listed.pairwise_iff fun apart place here there => apart place there here).mpr
    (laid_apart 0 strings)
  have inside : ∀ entry ∈ laid 0 strings, entry.2.index + entry.2.str.length ≤ tbl.size := by
    intro entry member
    have below := (mem_laid member).2.2.2
    rw [tabled.size]
    omega
  obtain ⟨buf, copied, -, placed⟩ := memcpy_foldlM _ apart
    (fun entry member => inside entry (listed.mem_iff.mp member)) fun _ => none
  refine ⟨tbl, strings, buf, ran, ?_, tabled.nodup, members, tabled.size, ?_, fun str => ⟨?_, ?_⟩⟩
  · exact copied
  · intro place below
    obtain ⟨entry, member, covers⟩ : ∃ entry ∈ laid 0 strings, Covers entry.2 place :=
      laid_covers (Nat.zero_le _) (by rw [Nat.zero_add, ← tabled.size]; exact below)
    have after := covers.1
    have before := covers.2
    rw [placed entry (listed.mem_iff.mpr member) place covers,
      List.getElem?_eq_getElem (by omega)]
    rfl
  · intro member
    obtain ⟨place, node, ended, holds, lies⟩ := tabled.find_found member
    refine ⟨node.data.index, ?_, fun offset within => ?_⟩
    · rw [strtblFind, ended]
      change (tbl.hash.table place).map _ = _
      rw [holds]
      rfl
    · obtain ⟨-, text, -, -⟩ := mem_laid lies
      change node.data.str = str.bytes ++ [0] at text
      rw [placed (str, node.data) (listed.mem_iff.mpr lies) (node.data.index + offset) ⟨?_, ?_⟩]
      · rw [← text, Nat.add_sub_cancel_left]
      · exact Nat.le_add_right _ _
      · rw [text, List.length_append, List.length_singleton]
        change node.data.index + offset < node.data.index + _
        omega
  · intro absent
    obtain ⟨hi, ended, -⟩ := tabled.absent absent
    rw [strtblFind, ended]
    rfl

end Projs.Output
