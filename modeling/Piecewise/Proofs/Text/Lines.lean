import Piecewise.Text.Lines

/-!
# The line of a character

Where a character stands in a text, the newlines before it tell the number of its line, and what
follows the last of them is where the line begins. A carriage return before a newline is left out of
a line, and no other character is.
-/

namespace Piecewise.Text

/-- A text after which a new line starts: nothing, or a text that ends with a newline. -/
def EndsLine (cs : List Char) : Prop := cs = [] ∨ ∃ up, cs = up ++ ['\n']

/-- A text at which a line is over: nothing, a newline, or a carriage return that stands directly
before one. -/
inductive LineOver : List Char → Prop
  | text : LineOver []
  | newline (below : List Char) : LineOver ('\n' :: below)
  | returned (below : List Char) : LineOver ('\r' :: '\n' :: below)

section Lines

variable {c : Char} {here rest : List Char}

/-- A character that ends no line stands at the front of the first line. -/
theorem lines_cons (hc : c ≠ '\n') (hreturn : c = '\r' → rest.head? ≠ some '\n') :
    lines (c :: rest) = ((c :: (lines rest).headD []) :: (lines rest).tail) := by
  rw [lines]
  · cases lines rest <;> rfl
  · exact hc
  · rintro behind rfl rfl
    exact hreturn rfl rfl

/-- A newline ends as many lines as there are newlines up to it, whatever follows. -/
theorem lines_append_newline (up : List Char) :
    ∃ closed : List (List Char), closed.length = up.count '\n' + 1 ∧
      ∀ rest, lines (up ++ '\n' :: rest) = closed ++ lines rest := by
  fun_induction lines up with
  | case1 => exact ⟨[[]], rfl, fun rest => rfl⟩
  | case2 up ih =>
    obtain ⟨closed, hlength, hlines⟩ := ih
    refine ⟨[] :: closed, by simp [hlength], fun rest => ?_⟩
    rw [List.cons_append, lines, hlines rest]
    rfl
  | case3 up ih =>
    obtain ⟨closed, hlength, hlines⟩ := ih
    refine ⟨[] :: closed, by simp [hlength], fun rest => ?_⟩
    rw [List.cons_append, List.cons_append, lines, hlines rest]
    rfl
  | case4 d up hd hreturn _ ih | case5 d up hd hreturn _ _ _ ih =>
    obtain ⟨closed, hlength, hlines⟩ := ih
    have hcount : (d :: up).count '\n' = up.count '\n' := List.count_cons_of_ne hd
    by_cases halone : d = '\r' ∧ up = []
    · obtain ⟨rfl, rfl⟩ := halone
      exact ⟨[[]], rfl, fun rest => rfl⟩
    · obtain ⟨first, more, rfl⟩ := List.exists_cons_of_length_eq_add_one hlength
      refine ⟨(d :: first) :: more, by rw [hcount]; exact hlength, fun rest => ?_⟩
      rw [List.cons_append, lines_cons hd, hlines rest]
      · rfl
      · rintro rfl hhead
        cases up with
        | nil => exact halone ⟨rfl, rfl⟩
        | cons e up =>
          cases hhead
          exact hreturn up rfl rfl

/-- The first line of a text is at its front and goes on until it is over. -/
theorem headD_lines (cs : List Char) :
    ∃ behind, cs = (lines cs).headD [] ++ behind ∧ '\n' ∉ (lines cs).headD [] ∧
      LineOver behind := by
  fun_induction lines cs with
  | case1 => exact ⟨[], rfl, List.not_mem_nil, .text⟩
  | case2 rest ih => exact ⟨_, rfl, List.not_mem_nil, .newline rest⟩
  | case3 rest ih => exact ⟨_, rfl, List.not_mem_nil, .returned rest⟩
  | case4 d rest hd hreturn hnil ih =>
    have hne : '\n' ≠ d := fun h => hd h.symm
    obtain ⟨behind, hrest, _, hover⟩ := ih
    rw [hnil] at hrest
    exact ⟨behind, congrArg (d :: ·) hrest, by simpa using hne, hover⟩
  | case5 d rest hd hreturn line more hlines ih =>
    have hne : '\n' ≠ d := fun h => hd h.symm
    obtain ⟨behind, hrest, hline, hover⟩ := ih
    rw [hlines] at hrest hline
    exact ⟨behind, congrArg (d :: ·) hrest, by simpa [hne] using hline, hover⟩

/-- A line goes on from what stands at its beginning to a character, and from there until it is
over. -/
theorem lines_of_character (rest : List Char) (hhere : '\n' ∉ here) (hc : c ≠ '\n')
    (hreturn : c ≠ '\r') :
    ∃ tail behind more, rest = tail ++ behind ∧ '\n' ∉ tail ∧ LineOver behind ∧
      lines (here ++ c :: rest) = (here ++ c :: tail) :: more := by
  induction here with
  | nil =>
    obtain ⟨behind, hrest, hmem, hover⟩ := headD_lines rest
    exact ⟨_, behind, _, hrest, hmem, hover, lines_cons hc fun h => absurd h hreturn⟩
  | cons d here ih =>
    obtain ⟨hd, hlater⟩ := List.ne_and_not_mem_of_not_mem_cons hhere
    obtain ⟨tail, behind, more, hrest, hmem, hover, hlines⟩ := ih hlater
    refine ⟨tail, behind, more, hrest, hmem, hover, ?_⟩
    rw [List.cons_append, lines_cons (Ne.symm hd), hlines]
    · rfl
    · rintro _ hhead
      cases here with
      | nil => exact hc (Option.some.inj hhead)
      | cons e here =>
        cases hhead
        exact hlater List.mem_cons_self

end Lines

/-- A text is what ends its lines before the last one, and its last line. -/
theorem exists_lastLine (before : List Char) :
    ∃ above here, before = above ++ here ∧ EndsLine above ∧ '\n' ∉ here ∧
      here.length = (before.reverse.takeWhile (· ≠ '\n')).length := by
  refine ⟨(before.reverse.dropWhile (· ≠ '\n')).reverse,
    (before.reverse.takeWhile (· ≠ '\n')).reverse, ?_, ?_, ?_, List.length_reverse⟩
  · rw [← List.reverse_append, List.takeWhile_append_dropWhile, List.reverse_reverse]
  · cases hdrop : before.reverse.dropWhile (· ≠ '\n') with
    | nil => exact Or.inl rfl
    | cons d up =>
      have hhead := List.head?_dropWhile_not (· ≠ '\n') before.reverse
      rw [hdrop] at hhead
      have hd : d = '\n' := by simpa using hhead
      subst hd
      exact Or.inr ⟨up.reverse, List.reverse_cons⟩
  · intro hmem
    have hall := List.all_eq_true.mp List.all_takeWhile _ (List.mem_reverse.mp hmem)
    simp at hall

/-- The line of a character: it begins behind the last newline before the character, goes on until
it is over, and its number is one more than the newlines before. -/
theorem line?_of_character {text : String} {before rest : List Char} {c : Char}
    (htext : text.toList = before ++ c :: rest) (hc : c ≠ '\n') (hreturn : c ≠ '\r') :
    ∃ above here tail behind, before = above ++ here ∧ EndsLine above ∧ '\n' ∉ here ∧
      here.length = (before.reverse.takeWhile (· ≠ '\n')).length ∧
      rest = tail ++ behind ∧ '\n' ∉ tail ∧ LineOver behind ∧
      line? text (1 + before.count '\n') = some (here ++ c :: tail) := by
  obtain ⟨above, here, rfl, habove, hhere, hlength⟩ := exists_lastLine before
  obtain ⟨tail, behind, more, hrest, htail, hover, hlines⟩ :=
    lines_of_character rest hhere hc hreturn
  refine ⟨above, here, tail, behind, rfl, habove, hhere, hlength, hrest, htail, hover, ?_⟩
  rw [Nat.add_comm, line?, htext, List.append_assoc, List.count_append,
    List.count_eq_zero.mpr hhere, Nat.add_zero]
  rcases habove with rfl | ⟨up, rfl⟩
  · rw [List.nil_append, hlines]
    rfl
  · obtain ⟨closed, hclosed, hclose⟩ := lines_append_newline up
    have hcount : (up ++ ['\n']).count '\n' = closed.length := by simp [hclosed]
    rw [List.append_assoc, List.singleton_append, hclose, hlines, hcount,
      List.getElem?_append_right (Nat.le_refl _), Nat.sub_self]
    rfl

end Piecewise.Text
