/-!
# Characters by number

A text is walked along from its start to the character with a given number, so that no list of its
characters has to be made.  What is found is the same as in that list (`charAt?_eq_getElem?`).
-/

namespace ObjScript.Text

/-- The character with this number, counted from 0. -/
def charAt? (s : String) (i : Nat) : Option Char :=
  let p := s.startPos.nextn i
  if h : p = s.endPos then none else some (p.get h)

/-- The characters are those of the text read as a list. -/
theorem charAt?_eq_getElem? (s : String) (i : Nat) : charAt? s i = s.toList[i]? := by
  have h := (String.splits_startPos s).nextn i
  have hhead : s.toList[i]? = (s.toList.drop i).head? := by simp
  rw [hhead]
  by_cases hend : s.startPos.nextn i = s.endPos
  · have hdrop : s.toList.drop i = [] := by
      simpa using congrArg String.toList (h.eq_endPos_iff.1 hend)
    simp [charAt?, hend, hdrop]
  · obtain ⟨rest, hrest⟩ := h.exists_eq_singleton_append hend
    have hdrop : s.toList.drop i = (s.startPos.nextn i).get hend :: rest.toList := by
      simpa using congrArg String.toList hrest
    simp [charAt?, hend, hdrop]

end ObjScript.Text
