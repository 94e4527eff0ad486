/-!
# Pieces of a text

A text cut at the characters of a class, or around a marker.

* `pieces`: the pieces, empty ones included; `pieces_ne_nil` says that there is at least one.
* `words`: the pieces that are not empty.
* `splitOnce`: what stands around the first occurrence of a marker.
-/

namespace TypedBindings.Text

/-- The pieces of a text between the characters that break it. -/
def pieces (isBreak : Char → Bool) : List Char → List (List Char)
  | [] => [[]]
  | c :: rest =>
    if isBreak c then [] :: pieces isBreak rest else (pieces isBreak rest).modifyHead (c :: ·)

/-- The pieces that are not empty. -/
def words (isBreak : Char → Bool) (cs : List Char) : List (List Char) :=
  (pieces isBreak cs).filter (!·.isEmpty)

variable {isBreak : Char → Bool}

theorem pieces_ne_nil (cs : List Char) : pieces isBreak cs ≠ [] := by
  induction cs with
  | nil => simp [pieces]
  | cons c rest ih =>
    rw [pieces]
    split
    · simp
    · cases h : pieces isBreak rest with
      | nil => exact absurd h ih
      | cons w ws => simp

/-- No piece has a character that breaks texts. -/
theorem not_isBreak_of_mem_pieces {cs w : List Char} (hw : w ∈ pieces isBreak cs) :
    ∀ c ∈ w, isBreak c = false := by
  induction cs generalizing w with
  | nil => simp_all [pieces]
  | cons c rest ih =>
    rw [pieces] at hw
    split at hw
    · rcases List.mem_cons.1 hw with rfl | hw
      · simp
      · exact ih hw
    · rename_i hc
      cases h : pieces isBreak rest with
      | nil => simp [h] at hw
      | cons v vs =>
        rw [h, List.modifyHead_cons] at hw
        rcases List.mem_cons.1 hw with rfl | hw
        · intro d hd
          rcases List.mem_cons.1 hd with rfl | hd
          · simpa using hc
          · exact ih (w := v) (by simp [h]) d hd
        · exact ih (by simp [h, hw])

/-- A character that breaks texts divides the pieces before it from those behind it. -/
theorem pieces_append {c : Char} (hc : isBreak c = true) (front back : List Char) :
    pieces isBreak (front ++ c :: back) = pieces isBreak front ++ pieces isBreak back := by
  induction front with
  | nil => simp [pieces, hc]
  | cons d rest ih =>
    rw [List.cons_append, pieces, pieces]
    split
    · rw [ih, List.cons_append]
    · rw [ih]
      cases h : pieces isBreak rest with
      | nil => exact absurd h (pieces_ne_nil rest)
      | cons w ws => rfl

theorem pieces_of_no_break {cs : List Char} (h : ∀ c ∈ cs, isBreak c = false) :
    pieces isBreak cs = [cs] := by
  induction cs with
  | nil => rfl
  | cons c rest ih =>
    rw [pieces, h c List.mem_cons_self, ih fun d hd => h d (List.mem_cons_of_mem _ hd)]
    rfl

/-- A character that breaks texts belongs to no word. -/
theorem words_append {c : Char} (hc : isBreak c = true) (front back : List Char) :
    words isBreak (front ++ c :: back) = words isBreak front ++ words isBreak back := by
  unfold words
  rw [pieces_append hc, List.filter_append]

theorem words_cons {c : Char} (hc : isBreak c = true) (cs : List Char) :
    words isBreak (c :: cs) = words isBreak cs := words_append hc [] cs

/-- A text without a break is one word. -/
theorem words_of_no_break {cs : List Char} (hne : cs ≠ []) (h : ∀ c ∈ cs, isBreak c = false) :
    words isBreak cs = [cs] := by
  unfold words
  rw [pieces_of_no_break h]
  simp [hne]

/-! ## Around a marker -/

/-- What stands in front of the first occurrence of a marker, and what stands behind it. -/
def splitOnce (marker : List Char) : List Char → Option (List Char × List Char)
  | [] => if marker = [] then some ([], []) else none
  | c :: rest =>
    if marker.isPrefixOf (c :: rest) then some ([], (c :: rest).drop marker.length)
    else (splitOnce marker rest).map fun (head, tail) => (c :: head, tail)

/-- A marker is found behind a text that does not have its first character. -/
theorem splitOnce_append {c : Char} {head : List Char} (hhead : c ∉ head)
    (marker tail : List Char) :
    splitOnce (c :: marker) (head ++ c :: marker ++ tail) = some (head, tail) := by
  induction head with
  | nil => simp [splitOnce]
  | cons d rest ih =>
    obtain ⟨hne, hrest⟩ := List.ne_and_not_mem_of_not_mem_cons hhead
    have hnot : (c :: marker).isPrefixOf (d :: (rest ++ c :: marker ++ tail)) = false := by
      simp [List.isPrefixOf, hne]
    rw [List.cons_append, List.cons_append, splitOnce, hnot, ih hrest]
    rfl

end TypedBindings.Text
