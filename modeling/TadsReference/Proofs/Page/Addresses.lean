import Mathlib.Data.List.Chain
import TadsReference.Page.Address

/-!
# Where links lead

A link from one page to another climbs to the root of the site and goes down from there. Its
segments are followed as those of a URL: two dots lead to the directory around the current one,
a single dot stays there, and everything else, even an empty segment, goes one directory down.
-/

namespace TadsReference

/-- Whether no slash follows a dot. In such a text no directory is called by dots alone. -/
def Undotted (text : List Char) : Prop :=
  text.IsChain fun first second => first = '.' → second ≠ '/'

/-- Whether no slash follows a dot can be checked character by character. -/
instance : DecidablePred Undotted :=
  fun text => inferInstanceAs (Decidable (text.IsChain _))

namespace Undotted

variable {text first second : List Char}

/-- A text without slashes has none behind a dot. -/
theorem of_no_slash (absent : '/' ∉ text) : Undotted text := by
  induction text with
  | nil => exact List.isChain_nil
  | cons character rest ih =>
      simp only [List.mem_cons, not_or] at absent
      cases rest with
      | nil => exact List.isChain_singleton _
      | cons next others =>
          simp only [List.mem_cons, not_or] at absent ih
          exact List.isChain_cons_cons.mpr ⟨fun _ same => absent.2.1 same.symm, ih absent.2⟩

theorem cons {character : Char} (other : character ≠ '.') (undotted : Undotted text) :
    Undotted (character :: text) := by
  cases text with
  | nil => exact List.isChain_singleton _
  | cons next others =>
      exact List.isChain_cons_cons.mpr ⟨fun same => absurd same other, undotted⟩

theorem prepend (absent : '.' ∉ first) (undotted : Undotted second) :
    Undotted (first ++ second) := by
  induction first with
  | nil => exact undotted
  | cons character rest ih =>
      simp only [List.mem_cons, not_or] at absent
      exact (ih absent.2).cons (Ne.symm absent.1)

/-- Two texts can be joined where the second does not begin with a slash. -/
theorem append (left : Undotted first) (right : Undotted second)
    (other : second.head? ≠ some '/') : Undotted (first ++ second) := by
  apply List.IsChain.append left right
  rintro last _ character begins _ rfl
  exact other begins

theorem of_append (whole : Undotted (first ++ second)) : Undotted first :=
  (List.isChain_append.mp whole).1

end Undotted

namespace Page

/-- The directory to which a segment leads from another one. -/
def follow (directory : List (List Char)) (segment : List Char) : List (List Char) :=
  if segment = ['.', '.'] then directory.dropLast
  else if segment = ['.'] then directory
  else directory ++ [segment]

/-- The path to which a link on a page leads, followed segment by segment from the directory of
the page. -/
def resolve (source link : String) : String :=
  let directory := (source.toList.splitOn '/').dropLast
  String.ofList (['/'].intercalate ((link.toList.splitOn '/').foldl follow directory))

/-! ### Segments -/

theorem length_splitOn (text : List Char) : (text.splitOn '/').length = text.count '/' + 1 := by
  induction text with
  | nil => simp
  | cons character rest ih =>
      rw [List.splitOn_cons_eq_if_modifyHead, List.count_cons]
      split <;> simp [ih]

/-- A climb of some steps is divided into as many segments of two dots, in front of those of the
text behind it. -/
theorem splitOn_climb (count : Nat) (text : List Char) :
    ((List.replicate count ['.', '.', '/']).flatten ++ text).splitOn '/' =
      List.replicate count ['.', '.'] ++ text.splitOn '/' := by
  induction count with
  | zero => simp
  | succ count ih =>
      have plain : '/' ∉ ['.', '.'] := by simp
      have first := List.splitOn_append_cons_self_of_not_mem plain
        ((List.replicate count ['.', '.', '/']).flatten ++ text)
      simpa [List.replicate_succ, ih] using first

theorem foldl_follow_climb (directory : List (List Char)) :
    (List.replicate directory.length ['.', '.']).foldl follow directory = [] := by
  generalize count : directory.length = length
  induction length generalizing directory with
  | zero => simpa using count
  | succ length ih =>
      rw [List.replicate_succ, List.foldl_cons]
      apply ih
      simp [follow, count]

theorem foldl_follow_plain {segments : List (List Char)} (directory : List (List Char))
    (plain : ∀ segment ∈ segments, segment ≠ ['.'] ∧ segment ≠ ['.', '.']) :
    segments.foldl follow directory = directory ++ segments := by
  induction segments generalizing directory with
  | nil => simp
  | cons segment segments ih =>
      have here := plain segment List.mem_cons_self
      rw [List.foldl_cons, ih _ fun other later => plain other (List.mem_cons_of_mem _ later)]
      simp [follow, here]

/-- A segment stands in the text that segments are joined to, with a slash behind it or at the
end. -/
theorem infix_of_mem_intercalate {segments : List (List Char)} {segment : List Char}
    (member : segment ∈ segments) :
    segment ++ ['/'] <:+: ['/'].intercalate segments ++ ['/'] := by
  induction segments with
  | nil => contradiction
  | cons first others ih =>
      cases others with
      | nil =>
          obtain rfl : segment = first := by simpa using member
          simp
      | cons second others =>
          have shape : ['/'].intercalate (first :: second :: others) ++ ['/'] =
              (first ++ ['/']) ++ (['/'].intercalate (second :: others) ++ ['/']) := by
            simp [List.intercalate]
          rw [shape]
          rcases List.mem_cons.mp member with rfl | later
          · exact (List.prefix_append _ _).isInfix
          · exact (ih later).trans (List.suffix_append _ _).isInfix

/-- No segment of a text consists of dots alone, if no slash follows a dot in it. -/
theorem plain_of_undotted {text segment : List Char} (undotted : Undotted (text ++ ['/']))
    (member : segment ∈ text.splitOn '/') : segment ≠ ['.'] ∧ segment ≠ ['.', '.'] := by
  have inside := infix_of_mem_intercalate member
  rw [List.intercalate_splitOn] at inside
  have chain : Undotted (segment ++ ['/']) := List.IsChain.infix undotted inside
  constructor
  · rintro rfl
    simp [Undotted] at chain
  · rintro rfl
    simp [Undotted] at chain

/-! ### Links -/

theorem toList_relativeLink (source target extension : String) :
    (relativeLink source target extension).toList =
      (List.replicate (source.toList.count '/') ['.', '.', '/']).flatten ++
        (target ++ "." ++ extension).toList := by
  simp [relativeLink, String.toList_join, List.flatMap_def]

/-- A link leads to its target, if the extension ends in neither a dot nor a slash and the target
has no directory that is called by dots alone. The climb ends at the root, and the segments of the
target lead down from there. -/
theorem resolve_relativeLink (source target extension : String)
    (undotted : Undotted ((target ++ "." ++ extension).toList ++ ['/'])) :
    resolve source (relativeLink source target extension) = target ++ "." ++ extension := by
  have depth : (source.toList.splitOn '/').dropLast.length = source.toList.count '/' := by
    simp [length_splitOn]
  simp only [resolve, toList_relativeLink, splitOn_climb, List.foldl_append, ← depth,
    foldl_follow_climb]
  rw [foldl_follow_plain [] fun _ member => plain_of_undotted undotted member]
  simp [List.intercalate_splitOn, String.append_assoc]

end Page

end TadsReference
