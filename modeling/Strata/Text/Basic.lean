/-
# Text, read as a list of characters

Everything the library decides about text it decides on `List Char`; a `String`
is opened with `toList` at the edge of an operation and closed with `ofList`.

| operation | what it does |
| --- | --- |
| `isBlank` | membership in the Unicode property `White_Space` |
| `trim`, `words` | cut blanks from both ends; the maximal runs without blanks |
| `splitOn`, `lines` | the pieces between separators; the lines of a text |
| `dropPrefix?` | what is left after a given beginning |

Blanks are the 25 characters of `White_Space`, which is more than the four that
`Char.isWhitespace` knows.
-/

namespace Strata
namespace Text

/-- White space: U+0009 to U+000D, the space, U+0085, U+00A0, U+1680, U+2000 to
U+200A, U+2028, U+2029, U+202F, U+205F and U+3000. -/
def isBlank (c : Char) : Bool :=
  let n := c.toNat
  (9 ≤ n && n ≤ 13) || n == 0x20 || n == 0x85 || n == 0xa0 || n == 0x1680 ||
    (0x2000 ≤ n && n ≤ 0x200a) || n == 0x2028 || n == 0x2029 || n == 0x202f ||
    n == 0x205f || n == 0x3000

/-- Blanks cut from the front. -/
def trimStart (cs : List Char) : List Char := cs.dropWhile isBlank

/-- What is left when the longest run at the end that satisfies `p` is cut. -/
def dropTrailing (p : Char → Bool) (cs : List Char) : List Char :=
  (cs.reverse.dropWhile p).reverse

/-- Blanks cut from both ends. -/
def trimChars (cs : List Char) : List Char := dropTrailing isBlank (trimStart cs)

/-- Blanks cut from both ends. -/
def trim (s : String) : String := String.ofList (trimChars s.toList)

/-- Nothing is dropped from a text whose last character is kept. -/
theorem dropTrailing_eq_self {p : Char → Bool} {cs : List Char}
    (h : ∀ c, cs.getLast? = some c → p c = false) : dropTrailing p cs = cs := by
  unfold dropTrailing
  cases hcs : cs.reverse with
  | nil => simpa using hcs
  | cons c back =>
    have hlast : cs.getLast? = some c := by rw [List.getLast?_eq_head?_reverse, hcs]; rfl
    rw [List.dropWhile_cons_of_neg (by simp [h c hlast]), ← hcs, List.reverse_reverse]

/-- Dropping characters at the end leaves a beginning of the text. -/
theorem dropTrailing_prefix (p : Char → Bool) (cs : List Char) : dropTrailing p cs <+: cs := by
  have hsuffix := List.dropWhile_suffix p (l := cs.reverse)
  rwa [← List.reverse_prefix, List.reverse_reverse] at hsuffix

/-- What is kept ends with what is not cut. -/
theorem eq_false_of_getLast?_dropTrailing {p : Char → Bool} {cs : List Char} {x : Char}
    (h : (dropTrailing p cs).getLast? = some x) : p x = false := by
  rw [dropTrailing, List.getLast?_reverse] at h
  have hfirst := List.head?_dropWhile_not p cs.reverse
  rw [h] at hfirst
  exact hfirst

/-- Trimmed at its start, a text begins with no blank. -/
theorem isBlank_head?_trimStart {cs : List Char} {x : Char}
    (h : (trimStart cs).head? = some x) : isBlank x = false := by
  have hfirst := List.head?_dropWhile_not isBlank cs
  rw [← trimStart, h] at hfirst
  exact hfirst

/-- A text begins with no blank once its blanks are cut. -/
theorem isBlank_head?_trimChars {cs : List Char} {x : Char}
    (h : (trimChars cs).head? = some x) : isBlank x = false := by
  obtain ⟨rest, hrest⟩ := List.head?_eq_some_iff.1 h
  obtain ⟨more, hmore⟩ := dropTrailing_prefix isBlank (trimStart cs)
  rw [← trimChars, hrest, List.cons_append] at hmore
  exact isBlank_head?_trimStart (hmore ▸ rfl : (trimStart cs).head? = some x)

/-- A text without blanks at its ends is trimmed already. -/
theorem trimChars_eq_self {cs : List Char} (h : ∀ c, cs.head? = some c → isBlank c = false)
    (k : ∀ c, cs.getLast? = some c → isBlank c = false) : trimChars cs = cs := by
  have hstart : trimStart cs = cs := by
    cases cs with
    | nil => rfl
    | cons c cs => exact List.dropWhile_cons_of_neg (by simp [h c rfl])
  rw [trimChars, hstart]
  exact dropTrailing_eq_self k

/-- Trimming makes no text longer. -/
theorem length_trimStart_le (cs : List Char) : (trimStart cs).length ≤ cs.length :=
  (List.dropWhile_sublist isBlank).length_le

/-- Dropping characters at the end makes no text longer. -/
theorem length_dropTrailing_le (p : Char → Bool) (cs : List Char) :
    (dropTrailing p cs).length ≤ cs.length := by
  have h := (List.dropWhile_sublist p (l := cs.reverse)).length_le
  rw [List.length_reverse] at h
  rwa [dropTrailing, List.length_reverse]

/-- A blank in front is cut. -/
theorem trimChars_cons_ne {c : Char} (h : isBlank c = true) (cs : List Char) :
    trimChars (c :: cs) ≠ c :: cs := by
  intro heq
  have hstart : trimStart (c :: cs) = trimStart cs := List.dropWhile_cons_of_pos h
  have hlen : (trimChars (c :: cs)).length ≤ cs.length := by
    rw [trimChars, hstart]
    exact Nat.le_trans (length_dropTrailing_le isBlank _) (length_trimStart_le cs)
  rw [heq, List.length_cons] at hlen
  omega

/-- A blank at the end is cut. -/
theorem trimChars_concat_ne {c : Char} (h : isBlank c = true) (cs : List Char) :
    trimChars (cs ++ [c]) ≠ cs ++ [c] := by
  intro heq
  have hstart : trimStart (cs ++ [c]) = cs ++ [c] := by
    refine (List.dropWhile_sublist isBlank).eq_of_length_le ?_
    calc (cs ++ [c]).length = (trimChars (cs ++ [c])).length := by rw [heq]
      _ ≤ (trimStart (cs ++ [c])).length := length_dropTrailing_le isBlank _
  have hend : dropTrailing isBlank (cs ++ [c]) = dropTrailing isBlank cs := by
    unfold dropTrailing
    rw [List.reverse_append, List.reverse_singleton, List.singleton_append,
      List.dropWhile_cons_of_pos h]
  have hlen := length_dropTrailing_le isBlank cs
  rw [← hend, ← hstart, ← trimChars, heq, List.length_append, List.length_singleton] at hlen
  omega

/-- True when nothing is left of the text once its blanks are cut. -/
def isBlankText (s : String) : Bool := s.toList.all isBlank

/-- Puts a character in front of the first piece. -/
def extendFirst (c : Char) : List (List Char) → List (List Char)
  | [] => [[c]]
  | piece :: pieces => (c :: piece) :: pieces

/-- The pieces between the characters that satisfy `sep`: one more piece than
there are such characters, some of them perhaps empty. -/
def splitWhere (sep : Char → Bool) (cs : List Char) : List (List Char) :=
  cs.foldr (fun c pieces => if sep c then [] :: pieces else extendFirst c pieces) [[]]

/-- The pieces between the occurrences of one character. -/
def splitOn (sep : Char) : List Char → List (List Char) := splitWhere (· == sep)

theorem splitWhere_cons (sep : Char → Bool) (c : Char) (cs : List Char) :
    splitWhere sep (c :: cs) =
      if sep c then [] :: splitWhere sep cs else extendFirst c (splitWhere sep cs) := rfl

/-- There is always a first piece, even of the empty text. -/
theorem splitWhere_ne_nil (sep : Char → Bool) (cs : List Char) : splitWhere sep cs ≠ [] := by
  cases cs with
  | nil => simp [splitWhere]
  | cons c cs =>
    rw [splitWhere_cons]
    split
    · simp
    · cases splitWhere sep cs <;> simp [extendFirst]

/-- A text without separators is one piece. -/
theorem splitWhere_eq_singleton {sep : Char → Bool} {cs : List Char}
    (h : ∀ c ∈ cs, sep c = false) : splitWhere sep cs = [cs] := by
  induction cs with
  | nil => rfl
  | cons c cs ih =>
    rw [splitWhere_cons, ih fun d hd => h d (List.mem_cons_of_mem c hd),
      h c List.mem_cons_self]
    rfl

/-- **A separator cuts.** The pieces of two texts with a separator between them
are the pieces of the one and the pieces of the other. -/
theorem splitWhere_append_cons {sep : Char → Bool} {x : Char} (hx : sep x = true)
    (xs ys : List Char) :
    splitWhere sep (xs ++ x :: ys) = splitWhere sep xs ++ splitWhere sep ys := by
  induction xs with
  | nil => rw [List.nil_append, splitWhere_cons, if_pos hx]; rfl
  | cons c xs ih =>
    rw [List.cons_append, splitWhere_cons, splitWhere_cons, ih]
    split
    · rfl
    · obtain ⟨piece, pieces, h⟩ := List.exists_cons_of_ne_nil (splitWhere_ne_nil sep xs)
      rw [h]
      rfl

/-- What stands behind the last separator goes on with what is written behind
the text, unless that has separators of its own. -/
theorem exists_splitWhere_append {sep : Char → Bool} {ys : List Char}
    (h : ∀ c ∈ ys, sep c = false) (xs : List Char) :
    ∃ pieces last, splitWhere sep xs = pieces ++ [last] ∧
      splitWhere sep (xs ++ ys) = pieces ++ [last ++ ys] := by
  induction xs with
  | nil => exact ⟨[], [], rfl, splitWhere_eq_singleton h⟩
  | cons c xs ih =>
    obtain ⟨pieces, last, hxs, hall⟩ := ih
    rw [List.cons_append, splitWhere_cons, splitWhere_cons, hxs, hall]
    split
    · exact ⟨[] :: pieces, last, rfl, rfl⟩
    · cases pieces with
      | nil => exact ⟨[], c :: last, rfl, rfl⟩
      | cons piece pieces => exact ⟨(c :: piece) :: pieces, last, rfl, rfl⟩

/-- A piece holds no separator. -/
theorem eq_false_of_mem_splitWhere {sep : Char → Bool} {cs piece : List Char}
    (h : piece ∈ splitWhere sep cs) : ∀ c ∈ piece, sep c = false := by
  induction cs generalizing piece with
  | nil =>
    obtain rfl := List.mem_singleton.1 h
    exact fun c hc => absurd hc List.not_mem_nil
  | cons c cs ih =>
    obtain ⟨first, rest, hsplit⟩ := List.exists_cons_of_ne_nil (splitWhere_ne_nil sep cs)
    rw [splitWhere_cons, hsplit] at h
    rw [hsplit] at ih
    split at h
    · rcases List.mem_cons.1 h with rfl | hmem
      · exact fun c hc => absurd hc List.not_mem_nil
      · exact ih hmem
    · rename_i hc
      rcases List.mem_cons.1 h with rfl | hmem
      · exact List.forall_mem_cons.2 ⟨Bool.eq_false_iff.2 hc, ih List.mem_cons_self⟩
      · exact ih (List.mem_cons_of_mem first hmem)

/-- The maximal runs without blanks, in order. -/
def wordsOf (cs : List Char) : List (List Char) :=
  (splitWhere isBlank cs).filter (fun w => !w.isEmpty)

/-- `xs` written one after the other with `sep` between neighbours. -/
def joinChars (sep : List Char) : List (List Char) → List Char
  | [] => []
  | [x] => x
  | x :: y :: rest => x ++ sep ++ joinChars sep (y :: rest)

/-- `xs` written one after the other with `sep` between neighbours. -/
def join (sep : String) (xs : List String) : String :=
  String.ofList (joinChars sep.toList (xs.map String.toList))

theorem joinChars_cons {sep : List Char} (x : List Char) {rest : List (List Char)}
    (h : rest ≠ []) : joinChars sep (x :: rest) = x ++ sep ++ joinChars sep rest := by
  obtain ⟨y, rest, rfl⟩ := List.exists_cons_of_ne_nil h
  rfl

/-- Joined runs of pieces have one more separator between them. -/
theorem joinChars_append {sep : List Char} {xs ys : List (List Char)} (hxs : xs ≠ [])
    (hys : ys ≠ []) : joinChars sep (xs ++ ys) = joinChars sep xs ++ sep ++ joinChars sep ys := by
  induction xs with
  | nil => exact absurd rfl hxs
  | cons x xs ih =>
    by_cases hnil : xs = []
    · subst hnil
      exact joinChars_cons x hys
    · rw [List.cons_append, joinChars_cons x (by simp [hnil]), joinChars_cons x hnil, ih hnil]
      simp only [List.append_assoc]

/-- Joining puts the separator between neighbours, and nothing else. -/
theorem join_eq_intercalate (sep : String) (xs : List String) :
    join sep xs = sep.intercalate xs := by
  match xs with
  | [] => rfl
  | [x] => simp [join, joinChars]
  | x :: y :: rest =>
    rw [String.intercalate_cons_cons, ← join_eq_intercalate sep (y :: rest)]
    simp [join, joinChars, String.append_assoc]

/-- **Splitting undoes joining**, when no piece holds the separator. -/
theorem splitOn_joinChars {sep : Char} {xs : List (List Char)} (hxs : xs ≠ [])
    (h : ∀ x ∈ xs, sep ∉ x) : splitOn sep (joinChars [sep] xs) = xs := by
  have hpiece : ∀ x ∈ xs, splitOn sep x = [x] := by
    intro x hx
    refine splitWhere_eq_singleton fun c hc => ?_
    have hne : c ≠ sep := fun heq => h x hx (heq ▸ hc)
    simpa using hne
  induction xs with
  | nil => exact absurd rfl hxs
  | cons x xs ih =>
    by_cases hnil : xs = []
    · subst hnil
      exact hpiece x List.mem_cons_self
    · have hrest := ih hnil (fun y hy => h y (List.mem_cons_of_mem x hy)) fun y hy =>
        hpiece y (List.mem_cons_of_mem x hy)
      rw [joinChars_cons x hnil, List.append_assoc, List.singleton_append]
      calc splitOn sep (x ++ sep :: joinChars [sep] xs)
          = splitOn sep x ++ splitOn sep (joinChars [sep] xs) :=
            splitWhere_append_cons (by simp) _ _
        _ = x :: xs := by rw [hpiece x List.mem_cons_self, hrest]; rfl

/-- Joining undoes splitting. -/
theorem joinChars_splitOn (sep : Char) (cs : List Char) :
    joinChars [sep] (splitOn sep cs) = cs := by
  induction cs with
  | nil => rfl
  | cons c cs ih =>
    obtain ⟨piece, pieces, hsplit⟩ := List.exists_cons_of_ne_nil (splitWhere_ne_nil (· == sep) cs)
    rw [splitOn, hsplit] at ih
    rw [splitOn, splitWhere_cons, hsplit]
    split
    · rename_i hsep
      rw [joinChars_cons [] (by simp), ih]
      simpa using (beq_iff_eq.1 hsep).symm
    · rw [← ih]
      cases pieces <;> rfl

/-- A line that ended in a line feed, without the carriage return before it. -/
def dropReturn (line : List Char) : List Char :=
  if line.getLast? = some '\r' then line.dropLast else line

/-- Closes a list of pieces to lines: every piece but the last was ended by a
line feed, and a last piece that is empty is no line. -/
def closeLines : List (List Char) → List (List Char)
  | [] => []
  | [last] => if last.isEmpty then [] else [last]
  | line :: rest => dropReturn line :: closeLines rest

/-- The lines of a text: a line feed ends a line, and one carriage return
before it belongs to the end. A carriage return elsewhere is a character of
its line. -/
def linesOf (cs : List Char) : List (List Char) := closeLines (splitOn '\n' cs)

/-- The numbers of the lines that satisfy a condition, counted from one. -/
def linesWhere (p : List Char → Bool) (source : String) : List Nat :=
  ((linesOf source.toList).zipIdx 1).filterMap fun l => if p l.1 then some l.2 else none

/-- What follows `start` in `cs`, when `cs` begins with it. -/
def dropPrefix? : (start cs : List Char) → Option (List Char)
  | [], cs => some cs
  | _ :: _, [] => none
  | x :: start, c :: cs => if x = c then dropPrefix? start cs else none

/-- True when the text begins with `start`. -/
def startsWith (start : String) (s : String) : Bool := start.toList.isPrefixOf s.toList

/-- True when the text ends with `finish`. -/
def endsWith (finish : String) (s : String) : Bool := finish.toList.isSuffixOf s.toList

/-- True when `piece` occurs somewhere in the characters. -/
def occursIn (piece : List Char) : List Char → Bool
  | [] => piece.isEmpty
  | c :: cs => piece.isPrefixOf (c :: cs) || occursIn piece cs

/-- True when `piece` occurs somewhere in the text. -/
def contains (piece : String) (s : String) : Bool := occursIn piece.toList s.toList

/-- Every backslash written as a slash. -/
def forwardSlashes (cs : List Char) : List Char := cs.map fun c => if c = '\\' then '/' else c

theorem forwardSlashes_append (xs ys : List Char) :
    forwardSlashes (xs ++ ys) = forwardSlashes xs ++ forwardSlashes ys := List.map_append

/-- Where no backslash is left, nothing changes any more. -/
theorem forwardSlashes_forwardSlashes (cs : List Char) :
    forwardSlashes (forwardSlashes cs) = forwardSlashes cs := by
  unfold forwardSlashes
  rw [List.map_map]
  refine List.map_congr_left fun c _ => ?_
  by_cases h : c = '\\' <;> simp [h]

/-- A text without backslashes is kept. -/
theorem forwardSlashes_eq_self {cs : List Char} (h : '\\' ∉ cs) : forwardSlashes cs = cs := by
  have hkeep : ∀ c ∈ cs, (if c = '\\' then '/' else c) = id c := by
    intro c hc
    have hne : c ≠ '\\' := fun heq => h (heq ▸ hc)
    exact if_neg hne
  rw [forwardSlashes, List.map_congr_left hkeep, List.map_id]

/-- Slashes are turned in each piece of its own. -/
theorem forwardSlashes_joinChars (xs : List (List Char)) :
    forwardSlashes (joinChars ['/'] xs) = joinChars ['/'] (xs.map forwardSlashes) := by
  induction xs with
  | nil => rfl
  | cons x xs ih =>
    by_cases hnil : xs = []
    · subst hnil
      rfl
    · rw [List.map_cons, joinChars_cons x hnil, joinChars_cons _ (by simpa using hnil),
        forwardSlashes_append, forwardSlashes_append, ih]
      rfl

/-- The ASCII digits. -/
def isDecimal (c : Char) : Bool := '0' ≤ c && c ≤ '9'

/-- The value of a list of ASCII digits, read from the left. -/
def decimalValue (cs : List Char) : Nat :=
  cs.foldl (fun n c => 10 * n + (c.toNat - '0'.toNat)) 0

/-- The number that a non-empty list of ASCII digits writes. -/
def decimal? (cs : List Char) : Option Nat :=
  if cs.isEmpty || !cs.all isDecimal then none else some (decimalValue cs)

/-- The 64-bit natural number that a text writes; a plus sign may stand in
front. -/
def natural64? (s : String) : Option UInt64 :=
  let digits :=
    match s.toList with
    | '+' :: rest => rest
    | cs => cs
  match decimal? digits with
  | some n => if n < UInt64.size then some (UInt64.ofNat n) else none
  | none => none

end Text
end Strata
