import ObjScript.Prompt.Highlight
import ObjScript.Proofs.Token.Tiles

/-!
# Highlighting loses nothing

A token is looked for by its text, from the end of the fragment before it.  The text may occur earlier than where the
token was cut out, but never later; so what was found ends at the end of the token's lexeme or before
(`exists_extent?`), and the search for the next token begins no later than its lexeme.  This bound is all that the
runs over the tokens carry along, once for any line (`located_of_tiles`) and once for a line without line feeds, in
which the column of a token is the number of characters before it (`painted_of_tiles`).  The main statement is
`highlighting_loses_nothing`.
-/

namespace ObjScript

open ObjScript.Text

/-- The token has a text, as all but the end token, empty strings and empty words do. -/
def Token.isVisible (t : Token) : Bool :=
  !(t.is .eof || t.text.isEmpty)

namespace Prompt

variable {line before raw rest word a b : List Char} {tokens : List Token} {unhandled : List String} {t : Token}
  {cursor start stop : Nat}

/-- Every token with a text is found, the line having been dealt with up to a place, and what is found begins there
or later. -/
inductive Located (line : List Char) : Nat → List Token → Prop where
  | nil {cursor : Nat} : Located line cursor []
  | skip {cursor : Nat} {t : Token} {tokens : List Token} : t.isVisible = false → Located line cursor tokens →
      Located line cursor (t :: tokens)
  | token {cursor start stop : Nat} {t : Token} {tokens : List Token} : t.isVisible = true →
      extent? line t cursor = some (start, stop) → cursor ≤ start → start ≤ stop → stop ≤ line.length →
      Located line stop tokens → Located line cursor (t :: tokens)

/-- What the fragment of a token holds, with what follows it in the line: all of a string from its `@` or opening
quote on, and of any other token the text at the end. -/
inductive Covers : Kind → String → List Char → List Char → Prop where
  | string {lead body close rest : List Char} : lead = [] ∨ lead = ['@'] → doubleQuote ∉ body →
      close = [doubleQuote] ∨ close = [] ∧ rest = [] →
      Covers .string (String.ofList body) (lead ++ doubleQuote :: body ++ close) rest
  | text {kind : Kind} {text : String} {raw rest : List Char} : kind ≠ .string → text.toList <:+ raw →
      Covers kind text raw rest

/-- With `before` dealt with already, the rest of the line falls into these fragments: one for each of the tokens, in
their order, of the token's style and at the token's column, and unstyled ones between them. -/
inductive Painted : List Char → List Char → List Token → List Fragment → Prop where
  | done {before : List Char} : Painted before [] [] []
  | gap {before text rest : List Char} {tokens : List Token} {fragments : List Fragment} :
      Painted (before ++ text) rest tokens fragments → Painted before (text ++ rest) tokens (⟨"", text⟩ :: fragments)
  | token {before text rest : List Char} {t : Token} {tokens : List Token} {fragments : List Fragment} :
      t.pos = ⟨1, before.length + 1⟩ → Covers t.kind t.text text rest →
      Painted (before ++ text) rest tokens fragments →
      Painted before (text ++ rest) (t :: tokens) (⟨style t.kind, text⟩ :: fragments)

/-! ### Searching -/

private theorem find?_of_prefix (h : word <+: line) : find? word line = some 0 := by
  cases line with
  | nil =>
    rw [List.prefix_nil.1 h]
    rfl
  | cons c line => rw [find?, if_pos (List.isPrefixOf_iff_prefix.2 h)]

/-- A word that occurs is found there or earlier. -/
private theorem exists_find? (a word b : List Char) :
    ∃ i ≤ a.length, find? word (a ++ (word ++ b)) = some i ∧ word <+: (a ++ (word ++ b)).drop i := by
  induction a with
  | nil => exact ⟨0, Nat.le_refl _, find?_of_prefix (List.prefix_append word b), List.prefix_append word b⟩
  | cons c a ih =>
    by_cases hprefix : word <+: c :: (a ++ (word ++ b))
    · exact ⟨0, Nat.zero_le _, find?_of_prefix hprefix, hprefix⟩
    · obtain ⟨i, hi, hfind, hword⟩ := ih
      refine ⟨i + 1, Nat.succ_le_succ hi, ?_, hword⟩
      rw [List.cons_append, find?, if_neg fun h => hprefix (List.isPrefixOf_iff_prefix.1 h), hfind]
      rfl

/-- A search that starts no later than the word occurs ends there or earlier. -/
private theorem exists_findFrom? (h : start ≤ a.length) (word b : List Char) :
    ∃ i, findFrom? word (a ++ (word ++ b)) start = some i ∧ start ≤ i ∧ i ≤ a.length ∧
      word <+: (a ++ (word ++ b)).drop i := by
  have hdrop : (a ++ (word ++ b)).drop start = a.drop start ++ (word ++ b) := List.drop_append_of_le_length h
  obtain ⟨i, hi, hfind, hword⟩ := exists_find? (a.drop start) word b
  rw [List.length_drop] at hi
  refine ⟨start + i, ?_, Nat.le_add_right start i, by omega, ?_⟩
  · rw [findFrom?, if_neg (by rw [List.length_append]; omega), hdrop, hfind]
    rfl
  · rw [← List.drop_drop, hdrop]
    exact hword

private theorem find?_eq_none {c : Char} (h : c ∉ line) : find? [c] line = none := by
  induction line with
  | nil => rfl
  | cons d line ih =>
    obtain ⟨hd, hline⟩ := List.ne_and_not_mem_of_not_mem_cons h
    have hprefix : ¬ [c] <+: d :: line := fun hp => hd (List.cons_prefix_cons.1 hp).1
    rw [find?, if_neg fun hp => hprefix (List.isPrefixOf_iff_prefix.1 hp), ih hline]
    rfl

/-- A character is found at its first occurrence. -/
private theorem findFrom?_char {c : Char} (h : start ≤ a.length) (hc : c ∉ a.drop start) (b : List Char) :
    findFrom? [c] (a ++ c :: b) start = some a.length := by
  obtain ⟨i, hfind, hstart, hi, hword⟩ := exists_findFrom? h [c] b
  refine hfind.trans (congrArg some (Nat.le_antisymm hi (Nat.le_of_not_lt fun hlt => hc ?_)))
  -- before its occurrence the character is not there
  have hget : (a ++ ([c] ++ b))[i]? = some c := by
    obtain ⟨later, hlater⟩ := hword
    rw [← List.head?_drop, ← hlater]
    rfl
  rw [List.getElem?_append_left hlt] at hget
  refine List.mem_of_getElem? (i := i - start) ?_
  rw [List.getElem?_drop, Nat.add_sub_cancel' hstart]
  exact hget

/-! ### Stretches of a line -/

private theorem slice_append_slice {middle : Nat} (hstart : start ≤ middle) (hstop : middle ≤ stop)
    (line : List Char) :
    slice line start middle ++ slice line middle stop = slice line start stop := by
  have hlength : stop - start = (middle - start) + (stop - middle) := by omega
  have hmiddle : start + (middle - start) = middle := Nat.add_sub_cancel' hstart
  unfold slice
  rw [hlength, List.take_add, List.drop_drop, hmiddle]

private theorem slice_append_drop (h : start ≤ stop) (line : List Char) :
    slice line start stop ++ line.drop stop = line.drop start := by
  have hstop : start + (stop - start) = stop := Nat.add_sub_cancel' h
  have hcut := List.take_append_drop (stop - start) (line.drop start)
  rwa [List.drop_drop, hstop] at hcut

private theorem take_append_slice (h : start ≤ stop) (line : List Char) :
    line.take start ++ slice line start stop = line.take stop := by
  have hstop : start + (stop - start) = stop := Nat.add_sub_cancel' h
  have hcut := List.take_add (l := line) (i := start) (j := stop - start)
  rw [hstop] at hcut
  exact hcut.symm

private theorem slice_length_append (before raw rest : List Char) :
    slice (before ++ (raw ++ rest)) before.length (before.length + raw.length) = raw := by
  unfold slice
  rw [List.drop_left, Nat.add_sub_cancel_left, List.take_left]

/-! ### The extent of one token -/

/-- A token that is no string is found where its text occurs or earlier. -/
private theorem extent?_of_text (hkind : t.kind ≠ .string) (hstart : max cursor (t.pos.column - 1) ≤ a.length)
    (b : List Char) :
    ∃ stop, extent? (a ++ (t.text.toList ++ b)) t cursor = some (max cursor (t.pos.column - 1), stop) ∧
      max cursor (t.pos.column - 1) ≤ stop ∧ stop ≤ a.length + t.text.toList.length ∧
      t.text.toList <:+ slice (a ++ (t.text.toList ++ b)) (max cursor (t.pos.column - 1)) stop := by
  obtain ⟨i, hfind, hi, hle, hword⟩ := exists_findFrom? hstart t.text.toList b
  refine ⟨i + t.text.toList.length, ?_, by omega, by omega, ?_⟩
  · have his : ¬ t.is .string = true := by simpa [Token.is] using hkind
    rw [extent?, if_neg his, hfind]
    rfl
  · have hfound : slice (a ++ (t.text.toList ++ b)) i (i + t.text.toList.length) = t.text.toList := by
      unfold slice
      rw [Nat.add_sub_cancel_left, ← List.prefix_iff_eq_take.1 hword]
    rw [← slice_append_slice hi (Nat.le_add_right _ _), hfound]
    exact List.suffix_append _ _

/-- Past its opening quote a string ends with its closing quote, or with the line. -/
private theorem closing {body close : List Char} (hbody : doubleQuote ∉ body)
    (hclose : close = [doubleQuote] ∨ close = [] ∧ rest = [])
    (opened : List Char) : (match findFrom? [doubleQuote] (opened ++ (body ++ close ++ rest)) opened.length with
      | some i => i + 1
      | none => (opened ++ (body ++ close ++ rest)).length) = opened.length + body.length + close.length := by
  rcases hclose with rfl | ⟨rfl, rfl⟩
  · have hopened : opened.length ≤ (opened ++ body).length := by simp
    have hfind := findFrom?_char (c := doubleQuote) hopened (by simpa) rest
    have hline : opened ++ (body ++ [doubleQuote] ++ rest) = opened ++ body ++ doubleQuote :: rest := by simp
    rw [hline, hfind, List.length_append]
    rfl
  · have hfind : findFrom? [doubleQuote] (opened ++ (body ++ [] ++ [])) opened.length = none := by
      rw [findFrom?, if_neg (by simp), List.drop_left, find?_eq_none (by simpa)]
      rfl
    rw [hfind]
    simp

/-- A string is found where its opening quote is or earlier, and it ends with its closing quote or earlier.  If there
is no quote from the start of the search to the opening quote, then it is found exactly. -/
private theorem extent?_of_string {body close : List Char} (hkind : t.kind = .string)
    (hstart : max cursor (t.pos.column - 1) ≤ a.length) (hbody : doubleQuote ∉ body)
    (hclose : close = [doubleQuote] ∨ close = [] ∧ rest = []) :
    ∃ stop, extent? (a ++ (doubleQuote :: (body ++ close ++ rest))) t cursor =
        some (max cursor (t.pos.column - 1), stop) ∧
      max cursor (t.pos.column - 1) ≤ stop ∧ stop ≤ a.length + 1 + body.length + close.length ∧
      (doubleQuote ∉ a.drop (max cursor (t.pos.column - 1)) → stop = a.length + 1 + body.length + close.length) := by
  obtain ⟨i, hopen, hi, hle, -⟩ := exists_findFrom? hstart [doubleQuote] (body ++ close ++ rest)
  have his : t.is .string = true := by simp [Token.is, hkind]
  unfold extent?
  rw [if_pos his]
  dsimp only
  rw [List.singleton_append] at hopen
  rw [hopen, Option.map_some, Option.getD_some]
  rcases Nat.lt_or_eq_of_le hle with hlt | rfl
  · -- another quote comes first, and the opening quote is taken for the closing one at the latest
    obtain ⟨j, hj, hij, hja, -⟩ := exists_findFrom? (Nat.succ_le_of_lt hlt) [doubleQuote] (body ++ close ++ rest)
    rw [List.singleton_append] at hj
    rw [hj]
    refine ⟨j + 1, rfl, by omega, by omega, fun hquote => ?_⟩
    have hfirst := findFrom?_char hstart hquote (body ++ close ++ rest)
    rw [hopen] at hfirst
    exact absurd (Option.some.inj hfirst) (Nat.ne_of_lt hlt)
  · have hstop := closing hbody hclose (a ++ [doubleQuote])
    rw [List.length_append, List.length_singleton, List.append_assoc, List.singleton_append] at hstop
    refine ⟨a.length + 1 + body.length + close.length, ?_, by omega, Nat.le_refl _, fun _ => rfl⟩
    rw [← hstop]
    cases findFrom? [doubleQuote] (a ++ doubleQuote :: (body ++ close ++ rest)) (a.length + 1) <;> rfl

/-- The text of a token that is no string ends its lexeme or comes before the end. -/
private theorem exists_text_of_written {kind : Kind} {text : String} (h : Written kind text raw rest)
    (hkind : kind ≠ .string) :
    ∃ lead, raw = lead ++ text.toList := by
  cases h with
  | string => exact absurd rfl hkind
  | directive d => exact ⟨['#'], rfl⟩
  | @word _ lead word => exact ⟨lead, by rw [String.toList_ofList]⟩
  | whole => exact ⟨[], by rw [String.toList_ofList]; rfl⟩
  | decimal => exact ⟨[], by rw [String.toList_ofList]; rfl⟩
  | symbol s => exact ⟨[], rfl⟩

/-- The parts of a string. -/
private theorem exists_parts_of_written {kind : Kind} {text : String} (h : Written kind text raw rest)
    (hkind : kind = .string) :
    ∃ lead body close, raw = lead ++ doubleQuote :: body ++ close ∧ text = String.ofList body ∧
      (lead = [] ∨ lead = ['@']) ∧ doubleQuote ∉ body ∧ (close = [doubleQuote] ∨ close = [] ∧ rest = []) := by
  cases h with
  | @string lead body close _ hlead hbody hclose => exact ⟨lead, body, close, rfl, rfl, hlead, hbody, hclose⟩
  | word _ _ _ hword => rw [hkind] at hword; cases hword
  | _ => cases hkind

private theorem unmarked_eq_string_iff {kind : Kind} : kind.unmarked = .string ↔ kind = .string := by
  cases kind <;> simp [Kind.unmarked]

/-- A token that starts where `before` ends is found, and what was found ends with its lexeme or earlier.  If its
column says how long `before` is, then its fragment is what it should be. -/
private theorem exists_extent? (hw : Written t.kind.unmarked t.text raw rest)
    (hcolumn : t.pos.column ≤ before.length + 1)
    (hcursor : cursor ≤ before.length) :
    ∃ stop, extent? (before ++ (raw ++ rest)) t cursor = some (max cursor (t.pos.column - 1), stop) ∧
      max cursor (t.pos.column - 1) ≤ stop ∧ stop ≤ before.length + raw.length ∧
      (t.pos.column = before.length + 1 →
        Covers t.kind t.text (slice (before ++ (raw ++ rest)) before.length stop)
          ((before ++ (raw ++ rest)).drop stop)) := by
  have hstart : max cursor (t.pos.column - 1) ≤ before.length := by omega
  have hexact : t.pos.column = before.length + 1 → max cursor (t.pos.column - 1) = before.length := by omega
  by_cases hkind : t.kind = .string
  · obtain ⟨lead, body, close, rfl, htext, hlead, hbody, hclose⟩ :=
      exists_parts_of_written hw (unmarked_eq_string_iff.2 hkind)
    have hline : before ++ (lead ++ doubleQuote :: body ++ close ++ rest) =
        before ++ lead ++ doubleQuote :: (body ++ close ++ rest) := by simp
    have hlength : (before ++ lead).length + 1 + body.length + close.length =
        before.length + (lead ++ doubleQuote :: body ++ close).length := by
      simp only [List.length_append, List.length_cons]
      omega
    obtain ⟨stop, hextent, hle, hstop, hfound⟩ := extent?_of_string (a := before ++ lead) hkind
      (Nat.le_trans hstart (by simp)) hbody hclose
    rw [hlength] at hstop hfound
    refine ⟨stop, by rw [hline]; exact hextent, hle, hstop, fun h => ?_⟩
    have hquote : doubleQuote ∉ (before ++ lead).drop (max cursor (t.pos.column - 1)) := by
      rw [hexact h, List.drop_left]
      rcases hlead with rfl | rfl <;> decide
    rw [hfound hquote, slice_length_append, ← List.drop_drop, List.drop_left, List.drop_left, hkind, htext]
    exact .string hlead hbody hclose
  · obtain ⟨lead, rfl⟩ := exists_text_of_written hw fun h => hkind (unmarked_eq_string_iff.1 h)
    have hline : before ++ (lead ++ t.text.toList ++ rest) = before ++ lead ++ (t.text.toList ++ rest) := by simp
    obtain ⟨stop, hextent, hle, hstop, hfound⟩ := extent?_of_text (a := before ++ lead) hkind
      (Nat.le_trans hstart (by simp)) rest
    rw [hline]
    refine ⟨stop, hextent, hle, by simpa [Nat.add_assoc] using hstop, fun h => .text hkind ?_⟩
    rwa [hexact h] at hfound

/-! ### The fragments of a line -/

private theorem column_past_le (before : List Char) : (Pos.past before).column ≤ before.length + 1 := by
  have h := (List.takeWhile_prefix (· ≠ '\n') (l := before.reverse)).length_le
  rw [List.length_reverse] at h
  change 1 + _ ≤ before.length + 1
  omega

private theorem past_of_notMem (h : '\n' ∉ before) : Pos.past before = ⟨1, before.length + 1⟩ := by
  have hall : before.reverse.takeWhile (· ≠ '\n') = before.reverse := by
    refine List.takeWhile_eq_self_iff.2 fun c hc => decide_eq_true ?_
    rintro rfl
    exact h (List.mem_reverse.1 hc)
  unfold Pos.past
  rw [List.count_eq_zero.2 h, hall, List.length_reverse, Nat.add_comm 1 before.length]

private theorem fragmentsFrom_of_not_isVisible (h : t.isVisible = false) :
    fragmentsFrom line cursor (t :: tokens) = fragmentsFrom line cursor tokens := by
  rw [fragmentsFrom, if_pos (by simpa only [Token.isVisible, Bool.not_eq_false'] using h)]

private theorem fragmentsFrom_of_extent? (h : t.isVisible = true)
    (hextent : extent? line t cursor = some (start, stop)) :
    fragmentsFrom line cursor (t :: tokens) = (if cursor < start then [⟨"", slice line cursor start⟩] else []) ++
      ⟨style t.kind, slice line start stop⟩ :: fragmentsFrom line stop tokens := by
  have hshown : ¬ (t.is .eof || t.text.isEmpty) = true := by
    unfold Token.isVisible at h
    simpa using h
  rw [fragmentsFrom, if_neg hshown, hextent]

private theorem located_of_tiles (h : Tiles before rest tokens unhandled) (hcursor : cursor ≤ before.length) :
    Located (before ++ rest) cursor tokens := by
  induction h generalizing cursor with
  | done => exact .skip rfl .nil
  | @gap before raw rest _ _ _ _ ih | @setAside before raw rest _ _ _ _ _ ih =>
    rw [← List.append_assoc]
    exact ih (Nat.le_trans hcursor (by simp))
  | @token before raw rest t tokens _ hw hpos _ ih =>
    cases hvisible : t.isVisible with
    | false =>
      rw [← List.append_assoc]
      exact .skip hvisible (ih (Nat.le_trans hcursor (by simp)))
    | true =>
      obtain ⟨stop, hextent, hle, hstop, -⟩ := exists_extent? hw (hpos ▸ column_past_le before) hcursor
      rw [← List.append_assoc] at hextent ⊢
      refine .token hvisible hextent (Nat.le_max_left ..) hle ?_ (ih (by simpa using hstop))
      simp only [List.length_append]
      omega

/-- Where all tokens are found, the fragments put together are what was left of the line. -/
private theorem Located.flatMap_text (h : Located line cursor tokens) (hcursor : cursor ≤ line.length) :
    (fragmentsFrom line cursor tokens).flatMap Fragment.text = line.drop cursor := by
  induction h with
  | @nil cursor =>
    unfold fragmentsFrom
    split
    · simp
    · next h => rw [List.drop_of_length_le (Nat.le_of_not_lt h)]; rfl
  | @skip cursor t tokens hvisible _ ih =>
    rw [fragmentsFrom_of_not_isVisible hvisible]
    exact ih hcursor
  | @token cursor start stop t tokens hvisible hextent hstart hstop hlength _ ih =>
    rw [fragmentsFrom_of_extent? hvisible hextent, List.flatMap_append, List.flatMap_cons, ih hlength,
      slice_append_drop hstop, ← slice_append_drop hstart]
    split
    · simp
    · next h => simp [slice, Nat.sub_eq_zero_of_le (Nat.le_of_not_lt h)]

/-- An unstyled fragment for what lies before the next token, if there is anything. -/
private theorem Painted.skip {fragments : List Fragment} (h : cursor ≤ start)
    (hpainted : Painted (line.take start) (line.drop start) tokens fragments) :
    Painted (line.take cursor) (line.drop cursor) tokens
      ((if cursor < start then [⟨"", slice line cursor start⟩] else []) ++ fragments) := by
  split
  · rw [← slice_append_drop h]
    refine .gap ?_
    rwa [take_append_slice h]
  · next hlt =>
    obtain rfl : cursor = start := Nat.le_antisymm h (Nat.le_of_not_lt hlt)
    exact hpainted

private theorem painted_of_tiles (h : Tiles before rest tokens unhandled) (hline : '\n' ∉ before ++ rest)
    (hcursor : cursor ≤ before.length) :
    Painted ((before ++ rest).take cursor) ((before ++ rest).drop cursor) (tokens.filter Token.isVisible)
      (fragmentsFrom (before ++ rest) cursor tokens) := by
  induction h generalizing cursor with
  | @done before =>
    have heof : fragmentsFrom (before ++ []) cursor [Token.eof (Pos.past before)] =
        if cursor < before.length then [⟨"", before.drop cursor⟩] else [] := by
      rw [List.append_nil]
      rfl
    rw [heof, List.append_nil]
    split
    · have hgap : Painted (before.take cursor) (before.drop cursor ++ []) [] [⟨"", before.drop cursor⟩] := .gap .done
      rw [List.append_nil] at hgap
      exact hgap
    · next hlt =>
      rw [List.drop_of_length_le (Nat.le_of_not_lt hlt)]
      exact .done
  | @gap before raw rest _ _ _ _ ih | @setAside before raw rest _ _ _ _ _ ih =>
    rw [← List.append_assoc] at hline ⊢
    exact ih hline (Nat.le_trans hcursor (by simp))
  | @token before raw rest t tokens _ hw hpos _ ih =>
    cases hvisible : t.isVisible with
    | false =>
      rw [← List.append_assoc] at hline ⊢
      rw [List.filter_cons_of_neg (Bool.eq_false_iff.1 hvisible), fragmentsFrom_of_not_isVisible hvisible]
      exact ih hline (Nat.le_trans hcursor (by simp))
    | true =>
      have hplace : t.pos = ⟨1, before.length + 1⟩ :=
        hpos.trans (past_of_notMem fun h => hline (List.mem_append_left _ h))
      have hcolumn : t.pos.column = before.length + 1 := by rw [hplace]
      obtain ⟨stop, hextent, hle, hstop, hcovers⟩ := exists_extent? hw (Nat.le_of_eq hcolumn) hcursor
      have hstart : max cursor (t.pos.column - 1) = before.length := by omega
      rw [hstart] at hextent hle
      rw [List.filter_cons_of_pos hvisible, fragmentsFrom_of_extent? hvisible hextent]
      refine .skip hcursor ?_
      have htake := take_append_slice hle (before ++ (raw ++ rest))
      rw [← slice_append_drop hle]
      refine .token (by rwa [List.take_left]) (hcovers hcolumn) ?_
      rw [htake, ← List.append_assoc]
      rw [← List.append_assoc] at hline
      exact ih hline (by simpa using hstop)

private theorem tiles_line (line : List Char) :
    Tiles [] line (tokenize (String.ofList line)).tokens (unhandledTexts (lexemes line)) := by
  have h := (tiles_placeTokens [] line).markClass (classNames [] (placeTokens Pos.start (lexemes line)))
  unfold tokenize scanTokens
  rw [String.toList_ofList]
  exact h

private theorem located_line (line : List Char) : Located line 0 (tokenize (String.ofList line)).tokens :=
  located_of_tiles (tiles_line line) (Nat.le_refl 0)

/-- A line that is not empty has the fragments that the run over its tokens gives. -/
private theorem highlightLine_eq (hline : line ≠ []) :
    highlightLine line = fragmentsFrom line 0 (tokenize (String.ofList line)).tokens := by
  have hlocated := (located_line line).flatMap_text (Nat.zero_le line.length)
  have hne : fragmentsFrom line 0 (tokenize (String.ofList line)).tokens ≠ [] := by
    intro h
    rw [h] at hlocated
    exact hline hlocated.symm
  unfold highlightLine
  rw [if_neg (by simpa using hline)]
  dsimp only
  rw [if_neg (by simpa using hne)]

/-- **Highlighting loses nothing.**  The fragments of a line, put together, are the line, and every token with a text
is found.  In a line without line feeds each of these tokens has, in order, a fragment of its own, which has the
token's style and starts at the token's column; the fragment of a string holds the string from its `@` or opening
quote to its closing quote, or to the end of the line. -/
theorem highlighting_loses_nothing (line : List Char) :
    (highlightLine line).flatMap Fragment.text = line ∧
    Located line 0 (tokenize (String.ofList line)).tokens ∧
    ('\n' ∉ line →
      Painted [] line ((tokenize (String.ofList line)).tokens.filter Token.isVisible) (highlightLine line)) := by
  refine ⟨?_, located_line line, fun hbreaks => ?_⟩
  · by_cases hline : line = []
    · rw [hline]
      rfl
    · rw [highlightLine_eq hline]
      exact (located_line line).flatMap_text (Nat.zero_le line.length)
  · by_cases hline : line = []
    · -- an empty line has one empty fragment
      have hnone : (tokenize (String.ofList [])).tokens.filter Token.isVisible = [] := by
        unfold tokenize scanTokens
        rw [String.toList_ofList, lexemes]
        rfl
      rw [hline, hnone]
      have hdone : Painted ([] ++ []) [] [] [] := .done
      exact hdone.gap
    · rw [highlightLine_eq hline]
      exact painted_of_tiles (tiles_line line) hbreaks (Nat.le_refl 0)

end Prompt

end ObjScript
