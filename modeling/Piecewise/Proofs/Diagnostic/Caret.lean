import Piecewise.Diagnostic.Report
import Piecewise.Proofs.Text.Lines
import Piecewise.Proofs.Token.Places

/-!
# The caret of a report

Two accounts of a place meet in a report. Cutting a source into tokens counts characters, and only a
newline starts a line; a report cuts the source into lines again, leaves the indent and the white
space at the end of a line out, and counts columns from what is left. They agree: the caret stands
as far to the right as the character whose place the diagnostic names.
-/

namespace Piecewise

section Trimmed

variable {c : Char} {left right : List Char}

theorem trimEnd_append_cons (hc : Text.isBlank c = false) (left right : List Char) :
    Text.trimEnd (left ++ c :: right) = left ++ c :: Text.trimEnd right := by
  have hreverse : (left ++ c :: right).reverse = right.reverse ++ c :: left.reverse := by simp
  rw [Text.trimEnd, Text.trimEnd, hreverse, List.dropWhile_append]
  cases hdrop : right.reverse.dropWhile Text.isBlank with
  | nil => simp [hc]
  | cons d more => simp

/-- What is cut from the end of a text is white space. -/
theorem exists_trimEnd (cs : List Char) :
    ∃ cut, cs = Text.trimEnd cs ++ cut ∧ ∀ d ∈ cut, Text.isBlank d = true := by
  refine ⟨(cs.reverse.takeWhile Text.isBlank).reverse, ?_, fun d hd => ?_⟩
  · rw [Text.trimEnd, ← List.reverse_append, List.takeWhile_append_dropWhile, List.reverse_reverse]
  · exact List.all_eq_true.mp List.all_takeWhile d (List.mem_reverse.mp hd)

/-- An indent ends before a character that is no space and no tab. -/
theorem exists_indent (hc : isIndent c = false) (here : List Char) :
    ∃ indent left, here = indent ++ left ∧ (∀ d ∈ indent, isIndent d = true) ∧
      ∀ right, (here ++ c :: right).dropWhile isIndent = left ++ c :: right := by
  refine ⟨here.takeWhile isIndent, here.dropWhile isIndent, List.takeWhile_append_dropWhile.symm,
    List.all_eq_true.mp List.all_takeWhile, fun right => ?_⟩
  rw [List.dropWhile_append]
  cases here.dropWhile isIndent with
  | nil => simp [hc]
  | cons d more => simp

theorem padLeft_singleton (fill : Char) (n : Nat) (c : Char) :
    padLeft fill (n + 1) [c] = List.replicate n fill ++ [c] := rfl

/-- The number of a line is written without a newline. -/
theorem newline_notMem_number (n : Nat) : '\n' ∉ (toString n).toList := by
  intro hmem
  rw [Nat.toString_eq_repr, Nat.toList_repr] at hmem
  exact absurd (Nat.isDigit_of_mem_toDigits (by decide) (by decide) hmem) (by decide)

end Trimmed

/-- The line of a source in which a character stands at a place, taken apart as a report shows it:
without the indent before and without the white space that is cut from its end. -/
structure ShownLine (source : Source) (p : Position) where
  above : List Char
  indent : List Char
  left : List Char
  character : Char
  right : List Char
  cut : List Char
  behind : List Char
  text : source.text.toList = above ++ (indent ++ left ++ character :: (right ++ cut)) ++ behind
  place : p = placeAfter source.name (above ++ (indent ++ left))
  starts : Text.EndsLine above
  ended : Text.LineOver behind
  single : '\n' ∉ indent ++ left ++ character :: (right ++ cut)
  indent_spaces : ∀ d ∈ indent, isIndent d = true
  cut_blank : ∀ d ∈ cut, Text.isBlank d = true

namespace ShownLine

variable {source : Source} {p : Position} (line : ShownLine source p)

def number (_ : ShownLine source p) : List Char := (toString p.line).toList

/-- A bar behind as many spaces as the number and one more take. -/
def bar : List Char := List.replicate (line.number.length + 1) ' ' ++ ['|']

def numbered : List Char :=
  line.number ++ " | ".toList ++ (line.left ++ line.character :: line.right)

/-- The bar again, and a caret at the end of dashes. -/
def caret : List Char := line.bar ++ ' ' :: (List.replicate line.left.length '-' ++ ['^'])

/-- How many characters stand before the character of the place in the row of its line. -/
def offset : Nat := line.number.length + 3 + line.left.length

theorem getElem?_numbered : line.numbered[line.offset]? = some line.character := by
  have hbefore : (line.number ++ " | ".toList ++ line.left).length = line.offset := by
    simp only [offset, List.length_append]
    rfl
  rw [numbered, ← List.append_assoc, List.getElem?_append_right (Nat.le_of_eq hbefore), hbefore,
    Nat.sub_self]
  rfl

/-- The caret stands at the offset of the character, and there is no other. -/
theorem getElem?_caret (k : Nat) : line.caret[k]? = some '^' ↔ k = line.offset := by
  have hcaret : line.caret =
      (line.bar ++ ' ' :: List.replicate line.left.length '-') ++ ['^'] := by simp [caret]
  have hbefore : (line.bar ++ ' ' :: List.replicate line.left.length '-').length = line.offset := by
    simp only [bar, offset, List.length_append, List.length_cons, List.length_replicate,
      List.length_nil]
    omega
  have hnone : '^' ∉ line.bar ++ ' ' :: List.replicate line.left.length '-' := by
    simp [bar, List.mem_replicate]
  rw [hcaret]
  constructor
  · intro hk
    rcases Nat.lt_trichotomy k line.offset with hlt | rfl | hgt
    · rw [List.getElem?_append_left (by rw [hbefore]; exact hlt)] at hk
      exact absurd (List.mem_of_getElem? hk) hnone
    · rfl
    · rw [List.getElem?_append_right (by rw [hbefore]; exact Nat.le_of_lt hgt), hbefore] at hk
      obtain ⟨i, hi⟩ := Nat.exists_eq_add_of_lt hgt
      rw [show k - line.offset = i + 1 by omega] at hk
      cases hk
  · rintro rfl
    rw [List.getElem?_append_right (Nat.le_of_eq hbefore), hbefore, Nat.sub_self]
    rfl

/-- Each row is a line of its own. -/
theorem newline_notMem_rows : '\n' ∉ line.bar ∧ '\n' ∉ line.numbered ∧ '\n' ∉ line.caret := by
  have hnumber : '\n' ∉ line.number := newline_notMem_number p.line
  have hbar : '\n' ∉ line.bar := by simp [bar, List.mem_replicate]
  have hline := line.single
  simp only [List.mem_append, List.mem_cons, not_or] at hline
  refine ⟨hbar, ?_, ?_⟩
  · simp [numbered, hnumber, hline]
  · simp [caret, hbar, List.mem_replicate]

end ShownLine

/-- Where a character stands that is not blank, a report shows its line with the caret below. -/
theorem exists_shownLine {source : Source} {before rest : List Char} {c : Char} {p : Position}
    (htext : source.text.toList = before ++ c :: rest) (hp : p = placeAfter source.name before)
    (hc : Text.isBlank c = false) :
    ∃ (line : ShownLine source p) (shown : List Char), line.character = c ∧
      Text.line? source.text p.line = some shown ∧
      excerpt p shown = [line.bar, line.numbered, line.caret] := by
  have hne : ∀ {d}, Text.isBlank d = true → c ≠ d := fun hd h => by simp [h, hd] at hc
  have hnewline : c ≠ '\n' := hne (by decide)
  have hindent : isIndent c = false := by
    simp [isIndent, hne (d := ' ') (by decide), hne (d := '\t') (by decide)]
  obtain ⟨above, here, tail, behind, rfl, habove, hhere, hlength, rfl, htail, hover, hline⟩ :=
    Text.line?_of_character htext hnewline (hne (by decide))
  obtain ⟨indent, left, rfl, hspaces, hdrop⟩ := exists_indent hindent here
  obtain ⟨cut, htrim, hcut⟩ := exists_trimEnd tail
  have hcolumn : p.column = 1 + (indent ++ left).length := by rw [hp, placeAfter, hlength]
  have hnumber : p.line = 1 + (above ++ (indent ++ left)).count '\n' := by rw [hp, placeAfter]
  let line : ShownLine source p :=
    { above, indent, left, character := c, right := Text.trimEnd tail, cut, behind
      text := by rw [htext, ← htrim]; simp
      place := hp
      starts := habove
      ended := hover
      single := by
        rw [← htrim]
        simp only [List.mem_append, List.mem_cons, not_or] at hhere ⊢
        exact ⟨hhere, Ne.symm hnewline, htail⟩
      indent_spaces := hspaces
      cut_blank := hcut }
  refine ⟨line, _, rfl, hnumber ▸ hline, ?_⟩
  have hremoved : (indent ++ left ++ c :: tail).length - (left ++ c :: tail).length =
      indent.length := by
    simp only [List.length_append, List.length_cons]
    omega
  have harrows : max 1 (p.column - indent.length) = left.length + 1 := by
    rw [hcolumn, List.length_append]
    omega
  simp only [excerpt, hdrop, hremoved, harrows, trimEnd_append_cons hc, padLeft_singleton]
  simp [ShownLine.bar, ShownLine.numbered, ShownLine.caret, ShownLine.number, line]

/-- What is joined with a text that ends a line ends a line. -/
theorem endsLine_append (s : String) : Text.EndsLine (s ++ "\n").toList :=
  Or.inr ⟨s.toList, String.toList_append⟩

/-- A report at a place ends with the rows for the line of that place. -/
theorem toList_report {sources : List Source} {p : Position} {shown : List Char}
    (hline : p.line? sources = some shown) (fault : Fault) :
    ∃ front, Text.EndsLine front ∧ ((fault.at p).report sources).toList =
      front ++ (excerpt p shown).flatMap fun row => row ++ ['\n'] := by
  have hreport : ∃ above : String, (fault.at p).report sources = above ++ "\n" ++
      String.ofList ((excerpt p shown).flatMap fun row => row ++ ['\n']) := by
    simp only [Diagnostic.report, Fault.at, hline]
    exact ⟨_, by rw [← String.append_assoc]⟩
  obtain ⟨above, habove⟩ := hreport
  exact ⟨_, endsLine_append above, by rw [habove, String.toList_append, String.toList_ofList]⟩

/-- The caret of a report stands under the character at whose place a token starts, or at which
cutting the source into tokens stopped. The report ends with three rows: a bar, the number and the
line, and the caret; counted from the left, the caret stands at the offset at which the character
stands in the row above. -/
theorem caret_under_character {source : Source} {sources : List Source} {p : Position}
    (hfirst : sources.find? (fun other => other.name = source.name) = some source)
    (hplace : source.Starts p ∨ ∃ d, source.tokens = .error d ∧ d.position = some p)
    (fault : Fault) :
    ∃ (line : ShownLine source p) (front : List Char),
      (∀ before c rest, source.text.toList = before ++ c :: rest →
        p = placeAfter source.name before → line.character = c) ∧
      Text.EndsLine front ∧
      ((fault.at p).report sources).toList =
        front ++ (line.bar ++ ['\n'] ++ (line.numbered ++ ['\n'] ++ (line.caret ++ ['\n']))) ∧
      ('\n' ∉ line.bar ∧ '\n' ∉ line.numbered ∧ '\n' ∉ line.caret) ∧
      line.numbered[line.offset]? = some line.character ∧
      ∀ k, line.caret[k]? = some '^' ↔ k = line.offset := by
  have hcharacter : ∃ before c rest, source.text.toList = before ++ c :: rest ∧
      p = placeAfter source.name before ∧ Text.isBlank c = false := by
    rcases hplace with hstarts | ⟨d, herror, hposition⟩
    · exact character_of_starts hstarts
    · obtain ⟨before, c, rest, htext, rfl, hc⟩ := character_of_error herror
      exact ⟨before, c, rest, htext, (Option.some.inj hposition).symm, hc⟩
  obtain ⟨before, c, rest, htext, hp, hc⟩ := hcharacter
  obtain ⟨line, shown, rfl, hline, hrows⟩ := exists_shownLine htext hp hc
  have hfile : p.file = source.name := by rw [hp, placeAfter]
  have hshown : p.line? sources = some shown := by
    rw [Position.line?, hfile, hfirst]
    exact hline
  obtain ⟨front, hfront, hreport⟩ := toList_report hshown fault
  refine ⟨line, front, ?_, hfront, ?_, line.newline_notMem_rows, line.getElem?_numbered,
    line.getElem?_caret⟩
  · intro before' c' rest' htext' hp'
    exact (character_unique (htext.symm.trans htext') (hp.symm.trans hp')).2
  · rw [hreport, hrows]
    simp only [List.flatMap_cons, List.flatMap_nil, List.append_nil]

section Tabbed

/-- A line with a tab before it, behind an empty line, and a space and a carriage return at its
end. -/
def tabbed : Source := ⟨"tabbed", "\n\tor ? \r\nx"⟩

/-- The question mark, with which no token starts, stands in the fifth column. -/
def tabbedFault : Diagnostic := (Fault.unrecognisedToken "?").at ⟨2, 5, "tabbed"⟩

theorem caret_under_character_tabbed :
    tabbed.tokens = .error tabbedFault ∧
      ∃ (line : ShownLine tabbed ⟨2, 5, "tabbed"⟩) (front : List Char), Text.EndsLine front ∧
        (tabbedFault.report [tabbed]).toList =
          front ++ (line.bar ++ ['\n'] ++ (line.numbered ++ ['\n'] ++ (line.caret ++ ['\n']))) ∧
        line.numbered[line.offset]? = some '?' ∧ line.caret[line.offset]? = some '^' := by
  have hfirst : [tabbed].find? (fun other => other.name = tabbed.name) = some tabbed := by rfl
  have htokens : tabbed.tokens = .error tabbedFault := by rfl
  obtain ⟨line, front, hunique, hfront, hreport, _, hnumbered, hcaret⟩ :=
    caret_under_character hfirst (Or.inr ⟨tabbedFault, htokens, rfl⟩) (.unrecognisedToken "?")
  have hcharacter : line.character = '?' :=
    hunique "\n\tor ".toList '?' " \r\nx".toList (by rfl) (by rfl)
  exact ⟨htokens, line, front, hfront, hreport, hcharacter ▸ hnumbered, (hcaret _).mpr rfl⟩

example : tabbedFault.report [tabbed] =
    "Error: UnrecognisedToken\nunrecognised token: \"?\"\n-> tabbed:2:5\n" ++
      "  |\n2 | or ?\n  | ---^\n" := by decide +kernel

end Tabbed

end Piecewise
