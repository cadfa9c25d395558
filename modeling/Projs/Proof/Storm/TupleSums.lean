import Mathlib.Algebra.BigOperators.Group.List.Basic
import Mathlib.Algebra.Ring.Int.Defs
import Projs.Proof.Storm.Conservation

namespace Projs.Storm
open Java

/-- A new counter executes the tuples in order. -/
def counted (tuples : List WordTuple) : CountMap := tuples.foldl MyCountBolt.execute fun _ => none

/-- These are the numbers that a word is sent with. -/
def numsOf (word : JavaString) (tuples : List WordTuple) : List Int :=
  (tuples.filter fun tuple => tuple.word = word).map WordTuple.num

/-- An `Integer` has 32 bits. -/
def WordTuple.Fits (tuple : WordTuple) : Prop := -2 ^ 31 ≤ tuple.num ∧ tuple.num < 2 ^ 31

instance (tuple : WordTuple) : Decidable tuple.Fits := inferInstanceAs (Decidable (_ ∧ _))

/-- The map knows the words of the tuples, each with the sum of its numbers. -/
def SumsNums (tuples : List WordTuple) : Prop :=
  ∀ word, counted tuples word =
    if word ∈ tuples.map WordTuple.word then some (wrapInt (numsOf word tuples).sum) else none

/-- The tuples give the same map in every order. -/
def OrderFree (tuples : List WordTuple) : Prop :=
  ∀ other, other.Perm tuples → counted other = counted tuples

/-- Two tuples of a word give the same map as one tuple with their sum in the place of the first. -/
def MergeFree (tuples : List WordTuple) : Prop :=
  ∀ front first middle second back, tuples = front ++ first :: (middle ++ second :: back) →
    first.word = second.word →
    counted (front ++ ⟨first.word, wrapInt (first.num + second.num)⟩ :: (middle ++ back)) =
      counted tuples

@[simp] theorem numsOf_append (word : JavaString) (front back : List WordTuple) :
    numsOf word (front ++ back) = numsOf word front ++ numsOf word back := by
  simp [numsOf]

theorem numsOf_cons_self (tuple : WordTuple) (rest : List WordTuple) :
    numsOf tuple.word (tuple :: rest) = tuple.num :: numsOf tuple.word rest := by
  simp [numsOf]

theorem numsOf_cons_other {word : JavaString} {tuple : WordTuple} (rest : List WordTuple)
    (other : tuple.word ≠ word) : numsOf word (tuple :: rest) = numsOf word rest := by
  simp [numsOf, other]

/-- A word is among the tuples when it is sent with a number. -/
theorem mem_words_iff (word : JavaString) (tuples : List WordTuple) :
    word ∈ tuples.map WordTuple.word ↔ numsOf word tuples ≠ [] := by
  simp [numsOf]

/-- The number of a known word grows by the numbers that it is sent with. -/
theorem foldl_of_known (tuples : List WordTuple) {map : CountMap} {word : JavaString} {total : Int}
    (known : map word = some (wrapInt total)) :
    tuples.foldl MyCountBolt.execute map word =
      some (wrapInt (total + (numsOf word tuples).sum)) := by
  induction tuples generalizing map total with
  | nil => simpa [numsOf] using known
  | cons tuple rest ih =>
      rw [List.foldl_cons]
      by_cases own : tuple.word = word
      · subst own
        have next : MyCountBolt.execute map tuple tuple.word =
            some (wrapInt (total + tuple.num)) := by
          simp only [MyCountBolt.execute, known, Function.update_self, wrapInt, Int.bmod_add_bmod]
        rw [ih next, numsOf_cons_self, List.sum_cons, Int.add_assoc]
      · have same : MyCountBolt.execute map tuple word = some (wrapInt total) := by
          rw [execute_of_ne map own, known]
        rw [ih same, numsOf_cons_other rest own]

/-- The counter starts a new word at one, whatever number it is sent with first. -/
theorem counted_eq (tuples : List WordTuple) (word : JavaString) :
    counted tuples word = (numsOf word tuples).head?.map fun first =>
      wrapInt (1 + ((numsOf word tuples).sum - first)) := by
  suffices general : ∀ map : CountMap, map word = none →
      tuples.foldl MyCountBolt.execute map word = (numsOf word tuples).head?.map fun first =>
        wrapInt (1 + ((numsOf word tuples).sum - first)) from general _ rfl
  induction tuples with
  | nil => exact fun map new => new
  | cons tuple rest ih =>
      intro map new
      rw [List.foldl_cons]
      by_cases own : tuple.word = word
      · subst own
        have next : MyCountBolt.execute map tuple tuple.word = some (wrapInt 1) := by
          simp only [MyCountBolt.execute, new, Function.update_self]
          rfl
        rw [foldl_of_known rest next, numsOf_cons_self, List.head?_cons, List.sum_cons,
          Option.map_some]
        congr 2
        omega
      · have same : MyCountBolt.execute map tuple word = none := by
          rw [execute_of_ne map own, new]
        rw [ih _ same, numsOf_cons_other rest own]

/-- Every word is sent with the number one first. -/
def FirstIsOne (tuples : List WordTuple) : Prop :=
  ∀ word, ∀ first ∈ (numsOf word tuples).head?, first = 1

/-- Every word is sent with one number only. -/
def SameNums (tuples : List WordTuple) : Prop :=
  ∀ word, ∀ first ∈ numsOf word tuples, ∀ second ∈ numsOf word tuples, first = second

/-- Every word is sent with zero behind its first number. -/
def LaterAreZero (tuples : List WordTuple) : Prop :=
  ∀ word, ∀ later ∈ (numsOf word tuples).tail, later = 0

/-- Numbers of 32 bits that wrap to the same number are equal. -/
theorem eq_of_wrapInt_eq {first second : Int} (left : -2 ^ 31 ≤ first ∧ first < 2 ^ 31)
    (right : -2 ^ 31 ≤ second ∧ second < 2 ^ 31) (same : wrapInt first = wrapInt second) :
    first = second := by
  rwa [wrapInt_of_range left.1 left.2, wrapInt_of_range right.1 right.2] at same

theorem numsOf_fits {tuples : List WordTuple} (fits : ∀ tuple ∈ tuples, tuple.Fits)
    {word : JavaString} {num : Int} (member : num ∈ numsOf word tuples) :
    -2 ^ 31 ≤ num ∧ num < 2 ^ 31 := by
  obtain ⟨tuple, found, same⟩ := List.mem_map.mp member
  rw [← same]
  exact fits tuple (List.mem_filter.mp found).1

theorem numsOf_perm {first second : List WordTuple} (perm : first.Perm second)
    (word : JavaString) : (numsOf word first).Perm (numsOf word second) :=
  (perm.filter _).map _

/-- The sums are right exactly when every word is first sent with one. -/
theorem sumsNums_iff {tuples : List WordTuple} (fits : ∀ tuple ∈ tuples, tuple.Fits) :
    SumsNums tuples ↔ FirstIsOne tuples := by
  refine forall_congr' fun word => ?_
  simp only [counted_eq, mem_words_iff]
  cases nums : numsOf word tuples with
  | nil => simp
  | cons first rest =>
      have range := numsOf_fits fits (nums ▸ List.mem_cons_self : first ∈ numsOf word tuples)
      have regroup : (first :: rest).sum - first = rest.sum := by
        rw [List.sum_cons]
        omega
      rw [if_pos (List.cons_ne_nil _ _), List.head?_cons, Option.map_some, Option.some.injEq,
        regroup, List.sum_cons]
      constructor
      · intro same other found
        cases found
        exact (eq_of_wrapInt_eq (by omega) range ((Int.bmod_add_cancel_right _).mp same)).symm
      · intro one
        rw [one first rfl]

/-- Any number of a word can come first. -/
theorem exists_perm_counted {tuples : List WordTuple} {word : JavaString} {num : Int}
    (member : num ∈ numsOf word tuples) :
    ∃ other, other.Perm tuples ∧
      counted other word = some (wrapInt (1 + ((numsOf word tuples).sum - num))) := by
  obtain ⟨tuple, found, same⟩ := List.mem_map.mp member
  obtain ⟨inside, own⟩ := List.mem_filter.mp found
  have perm := (List.perm_cons_erase inside).symm
  refine ⟨_, perm, ?_⟩
  have own : tuple.word = word := by simpa using own
  rw [counted_eq, (numsOf_perm perm word).sum_eq, ← own, numsOf_cons_self, same]
  rfl

/-- The order does not matter exactly when every word is sent with one number only. -/
theorem orderFree_iff {tuples : List WordTuple} (fits : ∀ tuple ∈ tuples, tuple.Fits) :
    OrderFree tuples ↔ SameNums tuples := by
  constructor
  · intro free word first left second right
    obtain ⟨other, perm, begins⟩ := exists_perm_counted left
    obtain ⟨another, permuted, starts⟩ := exists_perm_counted right
    rw [free other perm] at begins
    rw [free another permuted, begins, Option.some.injEq] at starts
    apply eq_of_wrapInt_eq (numsOf_fits fits left) (numsOf_fits fits right)
    exact (Int.bmod_sub_cancel_left _).mp ((Int.bmod_add_cancel_left _).mp starts)
  · intro same other perm
    funext word
    have nums := numsOf_perm perm word
    rw [counted_eq, counted_eq, nums.sum_eq]
    cases found : numsOf word other with
    | nil =>
        rw [found] at nums
        rw [nums.nil_eq]
    | cons first rest =>
        have inside : first ∈ numsOf word tuples := nums.subset (found ▸ List.mem_cons_self)
        obtain ⟨head, tail, split⟩ := List.exists_cons_of_ne_nil (List.ne_nil_of_mem inside)
        rw [split, List.head?_cons, List.head?_cons,
          same word first inside head (split ▸ List.mem_cons_self)]

/-- The merged tuples send a word with the sum in the place of its first number. -/
theorem numsOf_merge (front middle back : List WordTuple) (first second : WordTuple)
    (same : first.word = second.word) (total : Int) :
    numsOf first.word (front ++ first :: (middle ++ second :: back)) =
        numsOf first.word front ++ first.num ::
          (numsOf first.word middle ++ second.num :: numsOf first.word back) ∧
      numsOf first.word (front ++ ⟨first.word, total⟩ :: (middle ++ back)) =
        numsOf first.word front ++
          total :: (numsOf first.word middle ++ numsOf first.word back) := by
  have merged := numsOf_cons_self ⟨first.word, total⟩ (middle ++ back)
  have behind : numsOf first.word (second :: back) = second.num :: numsOf first.word back := by
    rw [same, numsOf_cons_self]
  simp only [numsOf_append, numsOf_cons_self, behind] at merged ⊢
  exact ⟨trivial, by rw [merged]⟩

/-- Merging leaves the other words alone. -/
theorem counted_merge_other (front middle back : List WordTuple) {first second : WordTuple}
    {word : JavaString} (left : first.word ≠ word) (right : second.word ≠ word) (total : Int) :
    counted (front ++ ⟨first.word, total⟩ :: (middle ++ back)) word =
      counted (front ++ first :: (middle ++ second :: back)) word := by
  have merged : numsOf word (⟨first.word, total⟩ :: (middle ++ back)) =
      numsOf word (middle ++ back) := numsOf_cons_other _ left
  simp only [counted_eq, numsOf_append, numsOf_cons_other _ left, numsOf_cons_other _ right,
    merged]

/-- Merging is right exactly when it does not take a number away behind the first one. -/
theorem counted_merge_iff {front middle back : List WordTuple} {first second : WordTuple}
    (same : first.word = second.word) (fits : second.Fits) :
    counted (front ++ ⟨first.word, wrapInt (first.num + second.num)⟩ :: (middle ++ back)) =
        counted (front ++ first :: (middle ++ second :: back)) ↔
      (numsOf first.word front = [] → second.num = 0) := by
  obtain ⟨sent, merged⟩ := numsOf_merge front middle back first second same
    (wrapInt (first.num + second.num))
  have own : counted (front ++ ⟨first.word, wrapInt (first.num + second.num)⟩ :: (middle ++ back))
        first.word = counted (front ++ first :: (middle ++ second :: back)) first.word ↔
      (numsOf first.word front = [] → second.num = 0) := by
    rw [counted_eq, counted_eq, sent, merged]
    cases numsOf first.word front with
    | nil =>
        simp only [List.nil_append, List.head?_cons, Option.map_some, Option.some.injEq,
          List.sum_cons, List.sum_append, forall_const]
        constructor
        · intro wrapped
          apply eq_of_wrapInt_eq fits (by omega)
          have left : 1 + (wrapInt (first.num + second.num) + ((numsOf first.word middle).sum +
              (numsOf first.word back).sum) - wrapInt (first.num + second.num)) =
                1 + (numsOf first.word middle).sum + (numsOf first.word back).sum + 0 := by omega
          have right : 1 + (first.num + ((numsOf first.word middle).sum +
              (second.num + (numsOf first.word back).sum)) - first.num) =
                1 + (numsOf first.word middle).sum + (numsOf first.word back).sum + second.num := by
            omega
          rw [left, right] at wrapped
          exact ((Int.bmod_add_cancel_left _).mp wrapped).symm
        · intro zero
          congr 1
          omega
    | cons head tail =>
        simp only [List.cons_append, List.head?_cons, Option.map_some, Option.some.injEq,
          List.sum_cons, List.sum_append]
        refine iff_of_true ?_ nofun
        have left : 1 + (head + (tail.sum + (wrapInt (first.num + second.num) +
            ((numsOf first.word middle).sum + (numsOf first.word back).sum))) - head) =
              1 + tail.sum + (numsOf first.word middle).sum + (numsOf first.word back).sum +
                wrapInt (first.num + second.num) := by omega
        have right : 1 + (head + (tail.sum + (first.num + ((numsOf first.word middle).sum +
            (second.num + (numsOf first.word back).sum)))) - head) =
              1 + tail.sum + (numsOf first.word middle).sum + (numsOf first.word back).sum +
                (first.num + second.num) := by omega
        rw [left, right]
        exact Int.add_bmod_bmod
  constructor
  · intro maps
    exact own.mp (congrFun maps first.word)
  · intro condition
    funext word
    by_cases found : first.word = word
    · rw [← found]
      exact own.mpr condition
    · exact counted_merge_other front middle back found (same ▸ found) _

/-- A later number of a word is sent by a tuple behind the first one of the word. -/
theorem exists_later {tuples : List WordTuple} {word : JavaString} {num : Int}
    (later : num ∈ (numsOf word tuples).tail) :
    ∃ front first middle second back, tuples = front ++ first :: (middle ++ second :: back) ∧
      first.word = word ∧ second.word = word ∧ second.num = num ∧ numsOf word front = [] := by
  cases found : tuples.filter fun tuple => tuple.word = word with
  | nil =>
      rw [numsOf, found] at later
      cases later
  | cons first others =>
      obtain ⟨front, rest, split, absent, own, remaining⟩ := List.filter_eq_cons_iff.mp found
      rw [numsOf, found, List.map_cons, List.tail_cons, ← remaining] at later
      obtain ⟨second, member, same⟩ := List.mem_map.mp later
      obtain ⟨inside, named⟩ := List.mem_filter.mp member
      obtain ⟨middle, back, behind⟩ := List.append_of_mem inside
      refine ⟨front, first, middle, second, back, ?_, ?_, ?_, same, ?_⟩
      · rw [split, behind]
      · simpa using own
      · simpa using named
      · rw [numsOf, List.filter_eq_nil_iff.mpr absent, List.map_nil]

/-- Merging does not matter exactly when every word is sent with zero behind its first number. -/
theorem mergeFree_iff {tuples : List WordTuple} (fits : ∀ tuple ∈ tuples, tuple.Fits) :
    MergeFree tuples ↔ LaterAreZero tuples := by
  constructor
  · intro free word num later
    obtain ⟨front, first, middle, second, back, split, named, own, same, absent⟩ :=
      exists_later later
    have inside : second ∈ tuples := by simp [split]
    have merged := free front first middle second back split (named.trans own.symm)
    rw [split, counted_merge_iff (named.trans own.symm) (fits second inside), named] at merged
    rw [← same]
    exact merged absent
  · intro zero front first middle second back split same
    have inside : second ∈ tuples := by simp [split]
    rw [split, counted_merge_iff same (fits second inside)]
    intro absent
    apply zero first.word
    obtain ⟨sent, _⟩ := numsOf_merge front middle back first second same 0
    rw [split, sent, absent, List.nil_append, List.tail_cons]
    exact List.mem_append_right _ List.mem_cons_self

/-- A counter sums what it is sent exactly when every word is first sent with one, gives the same
map in every order exactly when every word is sent with one number only, and allows tuples to be
merged exactly when every word is sent with zero behind its first number. -/
theorem counted_sums_iff {tuples : List WordTuple} (fits : ∀ tuple ∈ tuples, tuple.Fits) :
    (SumsNums tuples ↔ FirstIsOne tuples) ∧ (OrderFree tuples ↔ SameNums tuples) ∧
      (MergeFree tuples ↔ LaterAreZero tuples) :=
  ⟨sumsNums_iff fits, orderFree_iff fits, mergeFree_iff fits⟩

/-- Two words are sent in turn, both with one first. -/
def repeatedWords : List WordTuple :=
  [⟨literal "a", 1⟩, ⟨literal "b", 1⟩, ⟨literal "a", 5⟩, ⟨literal "b", 0⟩, ⟨literal "a", -2⟩]

theorem counted_sums_iff_repeatedWords :
    (∀ tuple ∈ repeatedWords, tuple.Fits) ∧ SumsNums repeatedWords ∧ ¬ OrderFree repeatedWords ∧
      ¬ MergeFree repeatedWords := by
  have fits : ∀ tuple ∈ repeatedWords, tuple.Fits := by decide
  obtain ⟨sums, order, merge⟩ := counted_sums_iff fits
  refine ⟨fits, sums.mpr ?_, ?_, ?_⟩
  · intro word first found
    obtain ⟨tuple, inside, _⟩ := List.mem_map.mp (List.mem_of_mem_head? found)
    obtain ⟨member, named⟩ := List.mem_filter.mp inside
    have every : ∀ tuple ∈ repeatedWords, (numsOf tuple.word repeatedWords).head? = some 1 := by
      decide
    rw [← of_decide_eq_true named, every tuple member] at found
    exact (Option.some.inj found).symm
  · intro free
    exact absurd (order.mp free (literal "a") 1 (by decide) 5 (by decide)) (by decide)
  · intro free
    exact absurd (merge.mp free (literal "a") 5 (by decide)) (by decide)

/-- A word that is sent once with two is counted once. -/
theorem two_not_summed :
    counted [⟨literal "a", 2⟩] (literal "a") = some 1 ∧ ¬ SumsNums [⟨literal "a", 2⟩] := by
  have one : counted [⟨literal "a", 2⟩] (literal "a") = some 1 := by decide
  refine ⟨one, ?_⟩
  intro sums
  have summed := sums (literal "a")
  rw [one] at summed
  exact absurd summed (by decide)

end Projs.Storm
