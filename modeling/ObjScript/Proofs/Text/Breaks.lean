import Mathlib.Data.List.Basic
import ObjScript.Eval.Interpreter
import ObjScript.Text.Escape

/-!
# Line breaks in output

Turning `\n` escapes into line feeds does not respect every cut of a text: a cut may run through an escape.  It does
where the first part is sealed, which means that it does not end in a backslash (`expandBreaks_append`).  Whole lines
and the mark of a failed run are sealed, and whole lines never end with the mark, expanded or not.
-/

namespace ObjScript.Text

/-- The text does not end within an escape. -/
def Sealed (s : String) : Prop :=
  s.toList.getLast? ≠ some '\\'

instance (s : String) : Decidable (Sealed s) :=
  inferInstanceAs (Decidable (_ ≠ _))

/-- The text ends with the mark of a failed run. -/
def Marked (s : String) : Prop :=
  failureMark.toList <:+ s.toList

instance (s : String) : Decidable (Marked s) :=
  inferInstanceAs (Decidable (_ <:+ _))

/-- The lines one after the other, each with its line feed. -/
def ofLines (lines : List String) : String :=
  String.ofList (lines.flatMap fun line => line.toList ++ ['\n'])

/-! ### Cuts -/

/-- A character stays as it is unless an escape begins with it. -/
private theorem expandBreakChars_cons {c : Char} {rest : List Char} (h : c = '\\' → rest.head? ≠ some 'n') :
    expandBreakChars (c :: rest) = c :: expandBreakChars rest := by
  rw [expandBreakChars]
  rintro tail rfl rfl
  exact h rfl rfl

/-- A cut that does not run through an escape. -/
private theorem expandBreakChars_append (cs ds : List Char) (h : cs.getLast? = some '\\' → ds.head? ≠ some 'n') :
    expandBreakChars (cs ++ ds) = expandBreakChars cs ++ expandBreakChars ds := by
  fun_induction expandBreakChars cs with
  | case1 rest ih =>
    have hrest : rest.getLast? = some '\\' → ds.head? ≠ some 'n' := by
      intro hlast
      exact h (by simp [List.getLast?_cons, hlast])
    simp [expandBreakChars, ih hrest]
  | case2 c rest hescape ih =>
    have hrest : rest.getLast? = some '\\' → ds.head? ≠ some 'n' := by
      intro hlast
      exact h (by simp [List.getLast?_cons, hlast])
    have hc : c = '\\' → (rest ++ ds).head? ≠ some 'n' := by
      intro hc
      -- if `c` is the last character, then the cut is what would make an escape of it
      cases rest with
      | nil => exact h (by simp [hc])
      | cons d tail =>
        intro hhead
        simp only [List.cons_append, List.head?_cons, Option.some.injEq] at hhead
        exact hescape tail hc (by rw [hhead])
    rw [List.cons_append, expandBreakChars_cons hc, ih hrest, List.cons_append]
  | case3 => rfl

theorem expandBreaks_append {s : String} (hs : Sealed s) (t : String) :
    expandBreaks (s ++ t) = expandBreaks s ++ expandBreaks t := by
  apply String.toList_inj.1
  simp [expandBreaks, expandBreakChars_append _ _ fun h => absurd h hs]

/-- A text that begins with a line feed can be put behind any other. -/
private theorem expandBreaks_append_of_break (s : String) {t : String} (ht : t.toList.head? = some '\n') :
    expandBreaks (s ++ t) = expandBreaks s ++ expandBreaks t := by
  have hcut : t.toList.head? ≠ some 'n' := by
    rw [ht]
    decide
  apply String.toList_inj.1
  simp [expandBreaks, expandBreakChars_append _ _ fun _ => hcut]

/-! ### Sealed texts -/

theorem Sealed.append {s t : String} (hs : Sealed s) (ht : Sealed t) : Sealed (s ++ t) := by
  unfold Sealed at *
  rw [String.toList_append, List.getLast?_append]
  cases h : t.toList.getLast? with
  | none => exact hs
  | some c => rwa [h] at ht

theorem sealed_failureMark : Sealed failureMark := by
  decide

/-- Whole lines are empty or end in a line feed. -/
private theorem ofLines_cases (lines : List String) : ofLines lines = "" ∨ ∃ s, ofLines lines = s ++ "\n" := by
  rcases lines.eq_nil_or_concat with rfl | ⟨before, line, rfl⟩
  · exact .inl rfl
  · refine .inr ⟨ofLines before ++ line, ?_⟩
    apply String.toList_inj.1
    simp [ofLines]

theorem sealed_ofLines (lines : List String) : Sealed (ofLines lines) := by
  rcases ofLines_cases lines with h | ⟨s, h⟩
  · rw [h]
    decide
  · simp [h, Sealed]

/-! ### The mark of a failed run -/

theorem marked_append (s : String) : Marked (s ++ failureMark) := by
  simp [Marked]

theorem expandBreaks_append_mark (s : String) : expandBreaks (s ++ failureMark) = expandBreaks s ++ failureMark :=
  expandBreaks_append_of_break s (by decide)

/-- What ends in a line feed does not end with the mark. -/
private theorem not_marked_append_break (s : String) : ¬ Marked (s ++ "\n") := by
  intro h
  obtain ⟨before, h⟩ := h
  have hlast := congrArg List.getLast? h
  simp [failureMark] at hlast

theorem not_marked_ofLines (lines : List String) : ¬ Marked (ofLines lines) := by
  rcases ofLines_cases lines with h | ⟨s, h⟩
  · rw [h]
    decide
  · rw [h]
    exact not_marked_append_break s

theorem not_marked_expandBreaks (lines : List String) : ¬ Marked (expandBreaks (ofLines lines)) := by
  rcases ofLines_cases lines with h | ⟨s, h⟩
  · rw [h]
    decide
  · have hexpand : expandBreaks (s ++ "\n") = expandBreaks s ++ "\n" := 
      expandBreaks_append_of_break s (by decide)
    rw [h, hexpand]
    exact not_marked_append_break _

end ObjScript.Text
