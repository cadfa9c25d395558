import Projs.Construction.Java.Text

namespace Projs.Java

theorem bne_of_not_mem {character : JavaChar} {text : JavaString} (absent : character ∉ text) :
    ∀ symbol ∈ text, (symbol != character) = true := by
  intro symbol inside
  rw [bne_iff_ne]
  rintro rfl
  exact absent inside

/-- To replace a character by nothing is to delete it. -/
theorem replace_nil (target : JavaChar) (text : JavaString) :
    replace target [] text = text.filter fun character => character != target := by
  induction text with
  | nil => rfl
  | cons character text ih =>
      rw [replace, List.flatMap_cons, ← replace, ih]
      by_cases same : character = target <;> simp [same]

section Replace
variable {target replacement : JavaString}

theorem replaceText_cons (character : JavaChar) (text : JavaString) :
    replaceText target replacement (character :: text) =
      if target.isPrefixOf (character :: text) then
        replacement ++ replaceFrom target replacement (target.length - 1) text
      else character :: replaceText target replacement text := rfl

/-- A text goes on unchanged at a character that begins no target. -/
theorem replaceText_cons_of_ne {first : JavaChar} {rest : JavaString} {character : JavaChar}
    (text : JavaString) (other : first ≠ character) :
    replaceText (first :: rest) replacement (character :: text) =
      character :: replaceText (first :: rest) replacement text := by
  rw [replaceText_cons, if_neg]
  simp [List.isPrefixOf, other]

/-- Two texts are replaced apart when no target begins in the first and ends in the second. -/
theorem replaceFrom_append {first second : JavaString}
    (apart : ∀ tail, tail <:+ first → tail ≠ [] → target <+: tail ++ second → target <+: tail)
    (skip : Nat) (inside : skip ≤ first.length) :
    replaceFrom target replacement skip (first ++ second) =
      replaceFrom target replacement skip first ++ replaceText target replacement second := by
  induction first generalizing skip with
  | nil =>
      rw [Nat.le_zero.mp inside]
      rfl
  | cons character first ih =>
      have later := ih fun tail suffix => apart tail (suffix.trans (List.suffix_cons _ _))
      cases skip with
      | succ skip => exact later skip (Nat.le_of_succ_le_succ inside)
      | zero =>
          have same : target.isPrefixOf (character :: (first ++ second)) =
              target.isPrefixOf (character :: first) := by
            rw [Bool.eq_iff_iff, List.isPrefixOf_iff_prefix, List.isPrefixOf_iff_prefix]
            constructor
            · exact apart _ List.suffix_rfl (List.cons_ne_nil _ _)
            · exact fun before => before.trans (List.prefix_append _ second)
          rw [List.cons_append, replaceFrom, replaceFrom, same]
          by_cases found : target.isPrefixOf (character :: first)
          · have fits := (List.isPrefixOf_iff_prefix.mp found).length_le
            rw [List.length_cons] at fits
            rw [if_pos found, if_pos found, later _ (by omega), List.append_assoc]
          · rw [if_neg found, if_neg found, later 0 (Nat.zero_le _), List.cons_append]

theorem replaceText_append {first second : JavaString}
    (apart : ∀ tail, tail <:+ first → tail ≠ [] → target <+: tail ++ second → target <+: tail) :
    replaceText target replacement (first ++ second) =
      replaceText target replacement first ++ replaceText target replacement second :=
  replaceFrom_append apart 0 (Nat.zero_le _)

/-- A text is unchanged when a character of the target is missing. -/
theorem replaceText_of_not_mem {character : JavaChar} {text : JavaString}
    (part : character ∈ target) (absent : character ∉ text) :
    replaceText target replacement text = text := by
  induction text with
  | nil => rfl
  | cons first text ih =>
      have missing : ¬ target.isPrefixOf (first :: text) := by
        rw [List.isPrefixOf_iff_prefix]
        exact fun before => absent (before.subset part)
      rw [replaceText_cons, if_neg missing, ih fun inside => absent (List.mem_cons_of_mem _ inside)]

/-- A replacement leaves every character in the text that neither of its texts has. -/
theorem mem_replaceFrom_iff {character : JavaChar} (kept : character ∉ target)
    (other : character ∉ replacement) (filled : target ≠ []) (skip : Nat) (text : JavaString) :
    character ∈ replaceFrom target replacement skip text ↔ character ∈ text.drop skip := by
  induction text generalizing skip with
  | nil => cases skip <;> simp [replaceFrom]
  | cons first text ih =>
      cases skip with
      | succ skip => exact ih skip
      | zero =>
          rw [replaceFrom]
          split
          · next found =>
              have positive := List.length_pos_iff.mpr filled
              obtain ⟨rest, whole⟩ := List.isPrefixOf_iff_prefix.mp found
              have dropped : text.drop (target.length - 1) = rest := by
                have lengths : target.length = target.length - 1 + 1 := by omega
                rw [← List.drop_succ_cons (a := first), ← lengths, ← whole, List.drop_left]
              rw [List.mem_append, ih, dropped, List.drop_zero, ← whole, List.mem_append]
              simp [kept, other]
          · rw [List.mem_cons, ih, List.drop_zero, List.drop_zero, List.mem_cons]

theorem mem_replaceText_iff {character : JavaChar} {text : JavaString} (kept : character ∉ target)
    (other : character ∉ replacement) (filled : target ≠ []) :
    character ∈ replaceText target replacement text ↔ character ∈ text :=
  mem_replaceFrom_iff kept other filled 0 text

end Replace

/-- A text begins a piece as far as it has no separator. -/
theorem splitOn_append {separator : JavaChar} {front : JavaString} (text : JavaString)
    (absent : separator ∉ front) :
    ∃ piece pieces, (front ++ text).splitOn separator = (front ++ piece) :: pieces := by
  induction front with
  | nil => exact List.exists_cons_of_ne_nil (List.splitOn_ne_nil separator text)
  | cons first front ih =>
      rw [List.mem_cons, not_or] at absent
      obtain ⟨piece, pieces, same⟩ := ih absent.2
      have differs : ¬ (first == separator) = true := by simpa using Ne.symm absent.1
      refine ⟨piece, pieces, ?_⟩
      rw [List.cons_append, List.splitOn_cons_eq_if_modifyHead, if_neg differs, same]
      rfl

/-- A text that does not end with the separator has no empty piece at its end. -/
theorem split_concat {separator last : JavaChar} (front : JavaString) (other : last ≠ separator) :
    split separator (front ++ [last]) = (front ++ [last]).splitOn separator := by
  have filled : ∀ piece ∈ ((front ++ [last]).splitOn separator).getLast?, piece ≠ [] := by
    induction front with
    | nil =>
        rw [List.nil_append, List.splitOn_eq_singleton (by simpa using other.symm)]
        rintro _ ⟨⟩
        exact List.cons_ne_nil _ _
    | cons first front ih =>
        obtain ⟨piece, pieces, same⟩ :=
          List.exists_cons_of_ne_nil (List.splitOn_ne_nil separator (front ++ [last]))
        rw [List.cons_append, List.splitOn_cons_eq_if_modifyHead]
        rw [same] at ih ⊢
        split
        · rwa [List.getLast?_cons_cons]
        · cases pieces with
          | nil =>
              rintro _ ⟨⟩
              exact List.cons_ne_nil _ _
          | cons next pieces => rwa [List.modifyHead_cons, List.getLast?_cons_cons]
  rw [split_of_ne_nil _ (by simp), List.rdropWhile_eq_self_iff]
  intro pieces
  simpa using filled _ (List.getLast?_eq_some_getLast pieces)

/-- White space is dropped at the end only behind a character that is none. -/
theorem rdropWhile_append_cons {kind : JavaChar → Bool} (front text : JavaString)
    {character : JavaChar} (stays : ¬ kind character) :
    (front ++ character :: text).rdropWhile kind = front ++ character :: text.rdropWhile kind := by
  induction text using List.reverseRecOn with
  | nil => rw [List.rdropWhile_concat_neg _ _ _ stays, List.rdropWhile_nil]
  | append_singleton text last ih =>
      have shape : front ++ character :: (text ++ [last]) =
          (front ++ character :: text) ++ [last] := by simp
      rw [shape, List.rdropWhile_concat, List.rdropWhile_concat, ih]
      split <;> simp

theorem dropWhile_append_cons {kind : JavaChar → Bool} (front text : JavaString)
    {character : JavaChar} (stays : ¬ kind character) :
    (front ++ character :: text).dropWhile kind = front.dropWhile kind ++ character :: text := by
  rw [List.dropWhile_append, List.dropWhile_cons_of_neg stays]
  split
  · next none => rw [List.isEmpty_iff.mp none, List.nil_append]
  · rfl

/-- Only white space is trimmed to nothing. -/
theorem trim_of_blank {text : JavaString} (blank : ∀ character ∈ text, character ≤ 0x20) :
    trim text = [] := by
  have dropped : (text.dropWhile fun character => character ≤ 0x20) = [] := by
    simpa using blank
  rw [trim, dropped, List.rdropWhile_nil]

/-- A text is trimmed to what stands behind the white space, up to a character that is none, just
when that begins without white space and has only white space behind it. -/
theorem trim_eq_iff {before front after : JavaString} {last : JavaChar}
    (blank : ∀ character ∈ before, character ≤ 0x20) (stays : 0x20 < last) :
    trim (before ++ (front ++ last :: after)) = front ++ [last] ↔
      (∀ character ∈ (front ++ [last]).head?, 0x20 < character) ∧
        ∀ character ∈ after, character ≤ 0x20 := by
  have kept : ¬ decide (last ≤ 0x20) = true := by simpa using stays
  have ends : (after.rdropWhile fun character => character ≤ 0x20) = [] ↔
      ∀ character ∈ after, character ≤ 0x20 := by simp
  rw [trim, List.dropWhile_append_of_pos (by simpa using blank), dropWhile_append_cons _ _ kept,
    rdropWhile_append_cons _ _ kept, ← ends]
  have whole (high : ∀ character ∈ (front ++ [last]).head?, 0x20 < character) :
      (front.dropWhile fun character => character ≤ 0x20) = front := by
    cases front with
    | nil => rfl
    | cons symbol front =>
        rw [List.dropWhile_cons_of_neg]
        simpa using high symbol rfl
  constructor
  · intro same
    have high : ∀ character ∈ (front ++ [last]).head?, 0x20 < character := by
      rw [← same]
      have starts := List.head?_dropWhile_not (fun character : JavaChar => character ≤ 0x20) front
      intro character first
      cases found : front.dropWhile fun character => character ≤ 0x20 with
      | nil =>
          rw [found] at first
          cases first
          exact stays
      | cons symbol rest =>
          rw [found] at first starts
          cases first
          simpa using starts
    rw [whole high] at same
    exact ⟨high, (List.cons_eq_cons.mp (List.append_cancel_left same)).2⟩
  · rintro ⟨high, none⟩
    rw [whole high, none]

theorem idxOf?_append_cons {front : JavaString} {character : JavaChar} (back : JavaString)
    (absent : character ∉ front) :
    (front ++ character :: back).idxOf? character = some front.length := by
  induction front with
  | nil => simp [List.idxOf?_cons]
  | cons first front ih =>
      rw [List.mem_cons, not_or] at absent
      have differs : (first == character) = false := beq_eq_false_iff_ne.mpr (Ne.symm absent.1)
      rw [List.cons_append, List.idxOf?_cons, differs, ih absent.2]
      rfl

theorem eq_append_cons_last {text : JavaString} {character : JavaChar}
    (inside : character ∈ text) :
    ∃ front back, text = front ++ character :: back ∧ character ∉ back := by
  obtain ⟨back, front, same, absent⟩ := List.eq_append_cons_of_mem (List.mem_reverse.mpr inside)
  refine ⟨front.reverse, back.reverse, ?_, by simpa using absent⟩
  rw [← List.reverse_reverse text, same]
  simp

/-- The part of a text before its last character of a kind is found by its index. -/
theorem lastIndexOf_split {front back : JavaString} {character : JavaChar}
    (absent : character ∉ back) :
    lastIndexOf character (front ++ character :: back) = front.length := by
  have found : (front ++ character :: back).reverse.idxOf? character = some back.length := by
    have shape : (front ++ character :: back).reverse =
        back.reverse ++ character :: front.reverse := by simp
    rw [shape, idxOf?_append_cons _ (by simpa using absent), List.length_reverse]
  rw [lastIndexOf, found]
  simp only [List.length_append, List.length_cons]
  omega

theorem lastIndexOf_of_not_mem {text : JavaString} {character : JavaChar}
    (absent : character ∉ text) : lastIndexOf character text = -1 := by
  have missing : text.reverse.idxOf? character = none := by simpa using absent
  rw [lastIndexOf, missing]

/-- The last character of a kind stands behind the first character, or it is missing there. -/
theorem lastIndexOf_pos_iff {text : JavaString} {character : JavaChar} :
    0 < lastIndexOf character text ↔ character ∈ text.tail := by
  by_cases inside : character ∈ text
  · obtain ⟨front, back, rfl, absent⟩ := eq_append_cons_last inside
    rw [lastIndexOf_split absent]
    cases front with
    | nil => simpa using absent
    | cons first front => simp
  · rw [lastIndexOf_of_not_mem inside]
    exact iff_of_false (by decide) fun later => inside (List.mem_of_mem_tail later)

theorem substringTo_split (front back : JavaString) :
    substringTo front.length (front ++ back) = .ok front := by
  have inside : (0 : Int) ≤ front.length ∧ (front.length : Int) ≤ (front ++ back).length := by
    rw [List.length_append]
    omega
  rw [substringTo, if_pos inside, Int.toNat_natCast, List.take_left]

end Projs.Java
