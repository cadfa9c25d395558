import Projs.Construction.Hdfs.HdfsTest
import Projs.Proof.Java.Utf8

namespace Projs.Hdfs
open Java

/-- These are the bytes of the file. -/
def content (pieces : List Piece) : List UInt8 := pieces.flatMap Piece.bytes

@[simp] theorem content_nil : content [] = [] := rfl

@[simp] theorem content_cons (piece : Piece) (rest : List Piece) :
    content (piece :: rest) = piece.bytes ++ content rest := rfl

/-- This is the text that is printed for a file in these pieces. -/
def printed (platform : Platform) (pieces : List Piece) : JavaString :=
  (readFile platform (some (stream pieces))).out

/-- The printed text is the file's text, up to one line separator at the end. -/
def PrintsFile (platform : Platform) (pieces : List Piece) : Prop :=
  printed platform pieces = decodeUtf8 (content pieces) ∨
    printed platform pieces = decodeUtf8 (content pieces) ++ lineSeparator platform ∨
      printed platform pieces ++ lineSeparator platform = decodeUtf8 (content pieces)

/-- The loop prints the text of every piece as a line of its own. -/
theorem readLoop_stream (platform : Platform) (console : Console) (buff : List UInt8)
    (pieces : List Piece) :
    (readLoop platform console buff (stream pieces)).out =
      console.out ++ pieces.flatMap fun piece =>
        decodeUtf8 piece.bytes ++ lineSeparator platform := by
  induction pieces generalizing console buff with
  | nil => simp [stream, readLoop]
  | cons piece rest ih =>
      have later := ih (console.println platform (decodeUtf8 piece.bytes))
        (piece.bytes ++ buff.drop piece.bytes.length)
      have behind : stream (piece :: rest) = .bytes piece :: stream rest := rfl
      rw [behind, readLoop, List.take_left', later, List.flatMap_cons, Console.println,
        List.append_assoc]
      rfl

theorem printed_eq (platform : Platform) (pieces : List Piece) :
    printed platform pieces =
      pieces.flatMap fun piece => decodeUtf8 piece.bytes ++ lineSeparator platform := by
  rw [printed, readFile, readLoop_stream]
  rfl

theorem lineFeeds_lineSeparator (platform : Platform) : lineFeeds (lineSeparator platform) = 1 := by
  cases platform <;> rfl

/-- The printed text has one line feed for each piece besides those of the file. -/
theorem lineFeeds_printed (platform : Platform) (pieces : List Piece) :
    lineFeeds (printed platform pieces) =
      lineFeeds (decodeUtf8 (content pieces)) + pieces.length := by
  rw [printed_eq, lineFeeds_decodeUtf8]
  induction pieces with
  | nil => rfl
  | cons piece rest ih =>
      rw [List.flatMap_cons, lineFeeds_append, lineFeeds_append, lineFeeds_decodeUtf8,
        lineFeeds_lineSeparator, ih, content_cons, List.count_append, List.length_cons]
      omega

/-- A file that one read finds whole is printed with a line separator, and an empty one is not. -/
theorem printsFile_of_length_le {platform : Platform} {pieces : List Piece}
    (whole : pieces.length ≤ 1) : PrintsFile platform pieces := by
  unfold PrintsFile
  rw [printed_eq]
  cases pieces with
  | nil => exact .inl rfl
  | cons piece rest =>
      rw [List.length_cons] at whole
      rw [List.eq_nil_of_length_eq_zero (by omega : rest.length = 0)]
      right
      left
      simp

/-- The line separators behind two pieces or more are too many. -/
theorem length_le_of_printsFile {platform : Platform} {pieces : List Piece}
    (prints : PrintsFile platform pieces) : pieces.length ≤ 1 := by
  have feeds := lineFeeds_printed platform pieces
  have separator := lineFeeds_lineSeparator platform
  rcases prints with same | same | same
  · rw [same] at feeds
    omega
  · rw [same, lineFeeds_append] at feeds
    omega
  · rw [← same, lineFeeds_append] at feeds
    omega

/-- There is only one way to cut a file into at most one piece. -/
theorem cutting_unique {first second : List Piece} (same : content first = content second)
    (left : first.length ≤ 1) (right : second.length ≤ 1) : first = second := by
  match first, second, left, right with
  | [], [], _, _ => rfl
  | [], piece :: rest, _, _ =>
      exact absurd (List.append_eq_nil_iff.mp same.symm).1 piece.filled
  | piece :: rest, [], _, _ => exact absurd (List.append_eq_nil_iff.mp same).1 piece.filled
  | [⟨bytes, _, _⟩], [⟨others, _, _⟩], _, _ =>
      have equal : bytes = others := by simpa using same
      subst equal
      rfl

/-- The printed text is the file's exactly when one read finds all of it; then there is only one
way to cut the file, and only one text. -/
theorem printsFile_iff (platform : Platform) (pieces : List Piece) :
    (PrintsFile platform pieces ↔ pieces.length ≤ 1) ∧
      ∀ other, content other = content pieces → pieces.length ≤ 1 → other.length ≤ 1 →
        printed platform other = printed platform pieces := by
  refine ⟨⟨length_le_of_printsFile, printsFile_of_length_le⟩, ?_⟩
  intro other same left right
  rw [cutting_unique same right left]

/-- The two bytes of one character can come in two pieces. -/
def splitCharacter : List Piece :=
  [⟨[0xC3], by decide, by decide⟩, ⟨[0xA9], by decide, by decide⟩]

/-- A character in two pieces is printed as two malformed ones, with a line separator between. -/
theorem splitCharacter_not_printed :
    decodeUtf8 (content splitCharacter) = [0x00E9] ∧
      printed .unix splitCharacter = [replacement, 0x0A, replacement, 0x0A] ∧
      ¬ PrintsFile .unix splitCharacter := by
  refine ⟨by decide, by decide, ?_⟩
  intro prints
  exact absurd (length_le_of_printsFile prints) (by decide)

end Projs.Hdfs
