/-!
# The beginning and the end of a text

Taking a known beginning or end off a text, and splitting a text at its slashes or into its lines.  The
blanks around a text can be taken off as well.
-/

namespace Downlevel

namespace Text

/-- What follows a beginning in a list, if the list begins with it. -/
def afterFront? {α : Type} [DecidableEq α] : List α → List α → Option (List α)
  | [], rest => some rest
  | _ :: _, [] => none
  | a :: front, b :: rest => if a = b then afterFront? front rest else none

/-- The rest of a list behind a beginning puts the list together again. -/
theorem afterFront?_eq_some_iff {α : Type} [DecidableEq α] {front text rest : List α} :
    afterFront? front text = some rest ↔ text = front ++ rest := by
  induction front generalizing text with
  | nil => simp [afterFront?, eq_comm]
  | cons a front ih =>
      cases text with
      | nil => simp [afterFront?]
      | cons b text =>
          by_cases h : a = b
          · simp [afterFront?, h, ih]
          · simp [afterFront?, h, Ne.symm h]

/-- What stands in front of an end, if a list ends with it. -/
def beforeBack? {α : Type} [DecidableEq α] (back text : List α) : Option (List α) :=
  (afterFront? back.reverse text.reverse).map List.reverse

/-- What stands in front of an end puts the list together again. -/
theorem beforeBack?_eq_some_iff {α : Type} [DecidableEq α] {back text rest : List α} :
    beforeBack? back text = some rest ↔ text = rest ++ back := by
  simp only [beforeBack?, Option.map_eq_some_iff, afterFront?_eq_some_iff]
  constructor
  · rintro ⟨found, h, rfl⟩
    simpa using congrArg List.reverse h
  · rintro rfl
    exact ⟨rest.reverse, by simp, by simp⟩

/-- What follows a beginning in a text, if the text begins with it. -/
def after? (front text : String) : Option String :=
  (afterFront? front.toList text.toList).map String.ofList

/-- What stands in front of an end, if a text ends with it. -/
def before? (back text : String) : Option String :=
  (beforeBack? back.toList text.toList).map String.ofList

/-- Whether a text ends with another one. -/
def endsIn (back text : String) : Bool :=
  (before? back text).isSome

/-- Whether a text begins with a character. -/
def beginsWith (c : Char) (text : String) : Bool :=
  text.toList.head? = some c

/-- A text begins with a character exactly if that is the first one. -/
theorem beginsWith_iff {c : Char} {text : String} :
    beginsWith c text = true ↔ ∃ rest, text.toList = c :: rest := by
  simp [beginsWith, List.head?_eq_some_iff]

/-- The parts of a text between slashes.  The current part is collected in reverse in `part`, the
parts before it in `done`. -/
def splitSlashesFrom (done : List (List Char)) (part : List Char) : List Char → List (List Char)
  | [] => (part.reverse :: done).reverse
  | c :: rest =>
      if c = '/' then splitSlashesFrom (part.reverse :: done) [] rest
      else splitSlashesFrom done (c :: part) rest

/-- The parts of a text between slashes; there is always one more than there are slashes. -/
def splitSlashes (text : List Char) : List (List Char) :=
  splitSlashesFrom [] [] text

end Text

namespace Text

/-- The characters that Unicode counts as white space. -/
def isBlank (c : Char) : Bool :=
  let n := c.toNat
  (9 ≤ n && n ≤ 13) || n = 0x20 || n = 0x85 || n = 0xa0 || n = 0x1680 ||
    (0x2000 ≤ n && n ≤ 0x200a) || n = 0x2028 || n = 0x2029 || n = 0x202f || n = 0x205f ||
    n = 0x3000

/-- A text without the blanks at its beginning and its end. -/
def trim (text : List Char) : List Char :=
  ((text.dropWhile isBlank).reverse.dropWhile isBlank).reverse

/-- The parts of a text between line feeds.  The current part is collected in reverse in `part`, the
parts before it in `done`. -/
def splitLinesFrom (done : List (List Char)) (part : List Char) : List Char → List (List Char)
  | [] => (part.reverse :: done).reverse
  | c :: rest =>
      if c = '\n' then splitLinesFrom (part.reverse :: done) [] rest
      else splitLinesFrom done (c :: part) rest

/-- The parts of a text between line feeds; there is always one more than there are line feeds. -/
def splitLines (text : List Char) : List (List Char) :=
  splitLinesFrom [] [] text

/-- Whether two texts are the same but for the case of the letters of the English alphabet. -/
def sameIgnoringCase (a b : String) : Bool :=
  a.toList.map Char.toLower = b.toList.map Char.toLower

end Text

end Downlevel
