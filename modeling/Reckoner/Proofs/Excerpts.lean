import Mathlib.Data.List.DropRight
import Reckoner.Proofs.Blame
import Reckoner.Proofs.Lines

namespace Reckoner

def AtLineEnd (after : List Char) : Prop :=
  after = [] ∨ after.head? = some '\n'

instance (after : List Char) : Decidable (AtLineEnd after) :=
  inferInstanceAs (Decidable (_ ∨ _))

/-- The line breaks of a text are line feeds, and carriage returns before a line feed or at its
end. -/
def PlainBreaks : List Char → Prop
  | [] => True
  | c :: cs =>
    (isLineBreak c = true → c = '\n' ∨ c = '\r' ∧ AtLineEnd cs) ∧ PlainBreaks cs

instance decidablePlainBreaks : (cs : List Char) → Decidable (PlainBreaks cs)
  | [] => .isTrue trivial
  | _ :: cs =>
    have := decidablePlainBreaks cs
    inferInstanceAs (Decidable (_ ∧ _))

def dropReturns (line : List Char) : List Char :=
  line.rdropWhile (· == '\r')

def lastLine (text : List Char) : List Char :=
  text.rtakeWhile (· != '\n')

def firstLine (text : List Char) : List Char :=
  text.takeWhile (· != '\n')

section
variable {line u v cs after : List Char}

theorem dropLineEnd_unbroken (h : '\n' ∉ line) : dropLineEnd line = dropReturns line := by
  have hreverse : line.reverse.dropWhile (· = '\n') = line.reverse := by
    cases hline : line.reverse with
    | nil => rfl
    | cons c cs =>
      have hc : c ≠ '\n' := by
        rintro rfl
        exact h (List.mem_reverse.mp (by simp [hline]))
      simp [hc]
  rw [dropLineEnd, hreverse, dropReturns, List.rdropWhile]
  rfl

theorem dropLineEnd_feed (h : '\n' ∉ line) : dropLineEnd (line ++ ['\n']) = dropReturns line := by
  rw [← dropLineEnd_unbroken h]
  simp [dropLineEnd]

/-- Where something else starts the end of a line, no carriage return before it is dropped. -/
theorem dropReturns_append (h : ∃ c ∈ v.head?, c ≠ '\r') :
    dropReturns (u ++ v) = u ++ dropReturns v := by
  obtain ⟨c, hc, hne⟩ := h
  obtain ⟨rest, rfl⟩ := List.head?_eq_some_iff.mp hc
  have hkept : ¬ ((c :: rest).reverse.dropWhile (· == '\r')).isEmpty = true := by
    simp [hne]
  simp only [dropReturns, List.rdropWhile, List.reverse_append, List.dropWhile_append,
    if_neg hkept, List.reverse_reverse]

theorem dropReturns_solid (h : Solid line) : dropReturns line = line := by
  obtain ⟨_, c, hc, hblank⟩ := h
  obtain ⟨init, rfl⟩ := List.getLast?_eq_some_iff.mp hc
  have hne : c ≠ '\r' := by
    rintro rfl
    cases hblank
  simp [dropReturns, hne]

@[simp] theorem lastLine_feed : lastLine (u ++ '\n' :: v) = lastLine v := by
  have hreverse : (u ++ '\n' :: v).reverse = v.reverse ++ '\n' :: u.reverse := by simp
  have hstop : ('\n' :: u.reverse).takeWhile (· != '\n') = [] := rfl
  rw [lastLine, lastLine, List.rtakeWhile, List.rtakeWhile, hreverse, List.takeWhile_append, hstop,
    List.append_nil]
  split
  next hlength => rw [(List.takeWhile_prefix _).eq_of_length hlength]
  next => rfl

theorem lastLine_append (h : '\n' ∉ v) : lastLine (u ++ v) = lastLine u ++ v := by
  refine rtakeWhile_append_of_pos (fun c hc => bne_iff_ne.mpr ?_) u
  rintro rfl
  exact h hc

theorem lastLine_of_not_mem (h : '\n' ∉ v) : lastLine v = v :=
  lastLine_append (u := []) h

theorem not_mem_firstLine : '\n' ∉ firstLine u := by
  intro hfeed
  have := List.mem_takeWhile_imp hfeed
  cases this

theorem firstLine_of_not_mem (h : '\n' ∉ v) : firstLine v = v := by
  refine List.takeWhile_eq_self_iff.mpr fun c hc => bne_iff_ne.mpr ?_
  rintro rfl
  exact h hc

theorem firstLine_append (h : '\n' ∈ u) : firstLine (u ++ v) = firstLine u := by
  have hshort : ¬ (u.takeWhile (· != '\n')).length = u.length := by
    intro hlength
    have hall := (List.takeWhile_prefix _).eq_of_length hlength
    exact not_mem_firstLine (hall.symm ▸ h)
  rw [firstLine, List.takeWhile_append, if_neg hshort]
  rfl

theorem linesFrom_plain {c : Char} (hplain : PlainBreaks (c :: cs)) (hafter : AtLineEnd after)
    (hc : c ≠ '\n') (line : List Char) :
    linesFrom line (c :: (cs ++ after)) = linesFrom (c :: line) (cs ++ after) := by
  cases hbreak : isLineBreak c with
  | false =>
    have hreturn : c ≠ '\r' := by
      rintro rfl
      cases hbreak
    rw [linesFrom_cons (fun h => absurd h hreturn), if_neg (by simp [hbreak])]
  | true =>
    obtain ⟨rfl, hnext⟩ := (hplain.1 hbreak).resolve_left hc
    have hend : AtLineEnd (cs ++ after) := by
      cases cs with
      | nil => exact hafter
      | cons d cs => exact hnext.imp (by simp) id
    obtain hempty | hfeed := hend
    · rw [hempty]
      rfl
    · obtain ⟨rest, hrest⟩ := List.head?_eq_some_iff.mp hfeed
      rw [hrest, linesFrom_pair, linesFrom_cons (by simp)]
      rfl

/-- Where the breaks before it are plain, a line with a number stands between line feeds. -/
theorem line_of_plainBreaks (hplain : PlainBreaks cs) (hafter : AtLineEnd after)
    (hline : '\n' ∉ line) :
    dropLineEnd ((linesFrom line (cs ++ after))[cs.count '\n']?.getD []) =
      dropReturns (lastLine (line.reverse ++ cs)) := by
  induction cs generalizing line with
  | nil =>
    have hback : '\n' ∉ line.reverse := fun h => hline (List.mem_reverse.mp h)
    rw [List.nil_append, List.append_nil, lastLine_of_not_mem hback, List.count_nil]
    obtain rfl | hfeed := hafter
    · rw [← dropLineEnd_unbroken hback, linesFrom]
      cases line <;> rfl
    · obtain ⟨rest, rfl⟩ := List.head?_eq_some_iff.mp hfeed
      rw [← dropLineEnd_feed hback, linesFrom_cons (by simp)]
      simp [isLineBreak]
  | cons c cs ih =>
    by_cases hc : c = '\n'
    · subst hc
      rw [List.count_cons_self, lastLine_feed, List.cons_append, linesFrom_cons (by simp)]
      exact ih hplain.2 List.not_mem_nil
    · have hnext : '\n' ∉ c :: line := by simp [Ne.symm hc, hline]
      rw [List.count_cons_of_ne hc, List.cons_append, linesFrom_plain hplain hafter hc,
        ih hplain.2 hnext]
      simp

end

/-- A line of a text with its number, and the carets that are put under it from a column on. -/
structure Excerpt where
  number : ℕ
  column : ℕ
  line : List Char
  carets : ℕ

def Excerpt.render (x : Excerpt) (message sourceName : String) : String :=
  let digits := natChars x.number
  let margin := String.ofList (List.replicate (digits.length + 1) ' ')
  let underline := List.replicate (x.column - 1) ' ' ++ List.replicate x.carets '^'
  "\n".intercalate
    ["error: " ++ message,
     margin ++ "--> " ++ sourceName ++ ":" ++ intText x.number ++ ":" ++ intText x.column,
     margin ++ "|",
     String.ofList digits ++ " | " ++ String.ofList x.line,
     margin ++ "| " ++ String.ofList underline]

/-- The excerpt of a text for a part of it: the line that stands between the line feeds around the
start of the part, and carets under what of the part is on this line, at least one. -/
def excerptOf (before part after : List Char) : Excerpt where
  number := 1 + before.count '\n'
  column := 1 + (lastLine before).length
  line := dropReturns (lastLine before ++ firstLine (part ++ after))
  carets := max 1 (dropReturns (firstLine part)).length

def shownExcerpt (source : String) (span : Span) : Excerpt where
  number := span.start.line
  column := span.start.column
  line := sourceLine source span.start.line
  carets := caretCount (sourceLine source span.start.line) span

section
variable {source : String} {span : Span} {before part after : List Char}

theorem Span.Marks.number (h : span.Marks before part after) :
    span.start.line = 1 + before.count '\n' := by
  rw [h.start, advance_start]

theorem Span.Marks.column (h : span.Marks before part after) :
    span.start.column = 1 + (lastLine before).length := by
  rw [h.start, advance_start]
  rfl

/-- The part of a text up to the end of the line on which another part starts. -/
def throughLine (before part after : List Char) : List Char :=
  before ++ firstLine (part ++ after)

theorem sourceLine_eq (htext : source.toList = before ++ part ++ after)
    (hplain : PlainBreaks (throughLine before part after)) :
    sourceLine source (1 + before.count '\n') =
      dropReturns (lastLine before ++ firstLine (part ++ after)) := by
  have hsplit : source.toList =
      throughLine before part after ++ (part ++ after).dropWhile (· != '\n') := by
    rw [htext, throughLine, firstLine, List.append_assoc, List.append_assoc,
      List.takeWhile_append_dropWhile]
  have hafter : AtLineEnd ((part ++ after).dropWhile (· != '\n')) := by
    have hstop := List.head?_dropWhile_not (· != '\n') (part ++ after)
    cases hrest : (part ++ after).dropWhile (· != '\n') with
    | nil => exact .inl rfl
    | cons c rest =>
      rw [hrest] at hstop
      exact .inr (by simpa using hstop)
  have hcount : (throughLine before part after).count '\n' = before.count '\n' := by
    rw [throughLine, List.count_append, List.count_eq_zero.mpr not_mem_firstLine, Nat.add_zero]
  have hline := line_of_plainBreaks hplain hafter (List.not_mem_nil : '\n' ∉ [])
  rw [hcount, List.reverse_nil, List.nil_append, throughLine,
    lastLine_append not_mem_firstLine] at hline
  rw [sourceLine, if_neg (by omega), linesWithBreaks, hsplit, Nat.add_sub_cancel_left]
  exact hline

theorem caretCount_of_line (h : span.Marks before part after) (shown : List Char)
    (hpart : '\n' ∉ part) :
    caretCount shown span = max 1 (dropReturns (firstLine part)).length := by
  have hline : span.stop.line = span.start.line := by
    rw [h.number, h.stop, advance_start, List.count_append, List.count_eq_zero.mpr hpart]
    rfl
  have hcolumn : span.stop.column = 1 + (lastLine before).length + part.length := by
    have hlast : lastLine (before ++ part) = lastLine before ++ part := lastLine_append hpart
    rw [h.stop, advance_start, ← lastLine, hlast, List.length_append, Nat.add_assoc]
  have hkept : dropReturns part = part := by
    obtain hsolid | ⟨rfl, _⟩ := h.solid
    · exact dropReturns_solid hsolid
    · rfl
  rw [caretCount, if_pos hline, hcolumn, h.column, Nat.add_sub_cancel_left,
    firstLine_of_not_mem hpart, hkept]

theorem caretCount_of_lines (h : span.Marks before part after) (hpart : '\n' ∈ part) :
    caretCount (dropReturns (lastLine before ++ firstLine (part ++ after))) span =
      max 1 (dropReturns (firstLine part)).length := by
  have hline : span.stop.line ≠ span.start.line := by
    have hpositive := List.count_pos_iff.mpr hpart
    rw [h.number, h.stop, advance_start, List.count_append]
    simp only
    omega
  have hhead : ∃ c ∈ (firstLine part).head?, c ≠ '\r' := by
    obtain ⟨⟨c, hc, hblank⟩, _⟩ := h.solid.resolve_right fun hnone => by simp [hnone.1] at hpart
    obtain ⟨rest, rfl⟩ := List.head?_eq_some_iff.mp hc
    have hfeed : c ≠ '\n' := by
      rintro rfl
      cases hblank
    refine ⟨c, by simp [firstLine, hfeed], ?_⟩
    rintro rfl
    cases hblank
  rw [caretCount, if_neg hline, h.column, firstLine_append hpart, dropReturns_append hhead,
    List.length_append, Nat.add_comm _ 1, ← Nat.add_assoc, Nat.add_sub_cancel_left]

/-- Where the line breaks up to the end of its line are plain, an error is shown with the excerpt of
the part that it blames. -/
theorem shownExcerpt_eq (htext : source.toList = before ++ part ++ after)
    (h : span.Marks before part after) (hplain : PlainBreaks (throughLine before part after)) :
    shownExcerpt source span = excerptOf before part after := by
  have hline := sourceLine_eq htext hplain
  have hcarets : caretCount (dropReturns (lastLine before ++ firstLine (part ++ after))) span =
      max 1 (dropReturns (firstLine part)).length := by
    by_cases hpart : '\n' ∈ part
    · exact caretCount_of_lines h hpart
    · exact caretCount_of_line h _ hpart
  rw [shownExcerpt, excerptOf, h.number, h.column, hline, hcarets]

theorem carets_pos : 0 < (shownExcerpt source span).carets := by
  unfold shownExcerpt caretCount
  simp only
  split <;> omega

end

def ResolveError.report? (sourceName source : String) : ResolveError → Option String
  | .lexical e => some (e.report sourceName source)
  | .grammatical (.rejected e) => some (e.report sourceName source)
  | .evaluation (.failed e) => some (e.report sourceName source)
  | _ => none

theorem report?_eq {e : ResolveError} {span : Span} (h : e.span? = some span) :
    ∃ message, e.message? = some message ∧ ∀ sourceName source,
      e.report? sourceName source =
        some ((shownExcerpt source span).render message sourceName) := by
  match e, h with
  | .lexical e, h => cases h; exact ⟨e.message, rfl, fun _ _ => rfl⟩
  | .grammatical (.rejected e), h => cases h; exact ⟨e.message, rfl, fun _ _ => rfl⟩
  | .evaluation (.failed e), h => cases h; exact ⟨e.message, rfl, fun _ _ => rfl⟩

/-- Every error with a place in its text blames a part of it and is shown with an excerpt: with the
number and the column at which this part starts, counted by line feeds, and at least one caret under
that column. Where the line breaks up to the end of this line are line feeds, alone or behind a
carriage return, the excerpt shows the line between the line feeds, and the carets are as many as
the characters of the part on it. -/
theorem error_shown_in_excerpt {s : Session} {source : String} {e : ResolveError} {span : Span}
    (h : s.resolve source = .error e) (hspan : e.span? = some span) :
    ∃ before part after message x, source.toList = before ++ part ++ after ∧
      span.start.offset = before.length ∧ span.stop.offset = before.length + part.length ∧
      e.message? = some message ∧
      (∀ sourceName, e.report? sourceName source = some (Excerpt.render x message sourceName)) ∧
      x.number = 1 + before.count '\n' ∧ x.column = 1 + (lastLine before).length ∧ 0 < x.carets ∧
      (PlainBreaks (throughLine before part after) → x = excerptOf before part after) := by
  obtain ⟨before, part, after, htext, hmarks⟩ := resolve_marks h hspan
  obtain ⟨message, hmessage, hreport⟩ := report?_eq hspan
  refine ⟨before, part, after, message, shownExcerpt source span, htext, ?_, ?_, hmessage,
    fun sourceName => hreport sourceName source, hmarks.number, hmarks.column, carets_pos,
    shownExcerpt_eq htext hmarks⟩
  · rw [hmarks.start, offset_advance]
  · rw [hmarks.stop, offset_advance, List.length_append]

def splitCall : String :=
  "2*\r\n ln(1,\r\n 2)"

def splitCallError : ResolveError :=
  .evaluation (.failed ⟨.arity "ln" 1 2, ⟨⟨2, 2, 5⟩, ⟨3, 4, 15⟩⟩⟩)

theorem error_of_resolve {source : String} {e : ResolveError} (h : resolve source = .error e) :
    (⟨defaultPrecision, []⟩ : Session).resolve source = .error e :=
  map_eq_error h

theorem splitCall_shown :
    (⟨defaultPrecision, []⟩ : Session).resolve splitCall = .error splitCallError ∧
      splitCallError.span? = some ⟨⟨2, 2, 5⟩, ⟨3, 4, 15⟩⟩ ∧
      splitCallError.report? "<expr>" splitCall =
        some ("error: function 'ln' expects 1 argument, got 2\n" ++
          "  --> <expr>:2:2\n  |\n2 |  ln(1,\n  |  ^^^^^") := by
  have hresolve : (⟨defaultPrecision, []⟩ : Session).resolve splitCall = .error splitCallError :=
    error_of_resolve (by decide +kernel)
  refine ⟨hresolve, rfl, ?_⟩
  obtain ⟨before, part, after, message, x, htext, hstart, hstop, hmessage, hreport, _, _, _, hx⟩ :=
    error_shown_in_excerpt hresolve rfl
  have hpart : part.length = 10 := by
    simp only at hstart hstop
    omega
  rw [List.append_assoc] at htext
  have hbefore : before = splitCall.toList.take 5 := by
    rw [htext, List.take_left' hstart.symm]
  have hrest : part ++ after = splitCall.toList.drop 5 := by
    rw [htext, List.drop_left' hstart.symm]
  have hblamed : part = (splitCall.toList.drop 5).take 10 := by
    rw [← hrest, List.take_left' hpart]
  have hbehind : after = (splitCall.toList.drop 5).drop 10 := by
    rw [← hrest, List.drop_left' hpart]
  cases hmessage
  rw [hreport, hx (by rw [hbefore, hblamed, hbehind]; decide +kernel), hbefore, hblamed, hbehind]
  decide +kernel

/-- A form feed is a blank within a line, but the line that is shown is cut there. -/
theorem formFeed_shows_other_line :
    (⟨defaultPrecision, []⟩ : Session).resolve "1\x0c+\n$" =
        .error (.lexical ⟨.unexpected '$', ⟨2, 1, 4⟩⟩) ∧
      LexError.report ⟨.unexpected '$', ⟨2, 1, 4⟩⟩ "<expr>" "1\x0c+\n$" =
        "error: unexpected character '$'\n  --> <expr>:2:1\n  |\n2 | +\n  | ^" ∧
      (excerptOf "1\x0c+\n".toList ['$'] []).render "unexpected character '$'" "<expr>" =
        "error: unexpected character '$'\n  --> <expr>:2:1\n  |\n2 | $\n  | ^" :=
  ⟨error_of_resolve (by decide +kernel), by decide +kernel, by decide +kernel⟩

end Reckoner
