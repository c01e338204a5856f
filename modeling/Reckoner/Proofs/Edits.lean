import Reckoner.Proofs.Diagnosis

namespace Reckoner

/-- The same diagnostic, one line further down. -/
def Diagnostic.below (d : Diagnostic) : Diagnostic :=
  { d with range := { d.range with line := d.range.line + 1 } }

/-- A diagnostic where it comes to when a line is put before the line with that number. -/
def Diagnostic.pushed (number : ℕ) (d : Diagnostic) : Diagnostic :=
  if d.range.line < number then d else d.below

section
variable {s : Session} {number : ℕ} {text : String} {lines before after : List String}

@[simp] theorem ofError?_below (number : ℕ) (text : String) (e : ResolveError) :
    Diagnostic.ofError? (number + 1) text e =
      (Diagnostic.ofError? number text e).map Diagnostic.below := by
  match e with
  | .lexical e => rfl
  | .grammatical (.rejected e) => rfl
  | .grammatical (.fault f) => rfl
  | .evaluation (.failed e) => rfl
  | .evaluation (.program e) => rfl
  | .evaluation (.malformed text) => rfl
  | .evaluation (.fault f) => rfl
  | .session e => rfl

theorem checkLine_below (s : Session) (number : ℕ) (text : String) :
    checkLine s (number + 1) text =
      (checkLine s number text).map fun (next, found) => (next, found.map Diagnostic.below) := by
  unfold checkLine
  split
  · rfl
  · cases s.resolve text with
    | ok r => rfl
    | error e =>
      simp
      cases Diagnostic.ofError? number text e <;> rfl

theorem checkLines_below (s : Session) (number : ℕ) (lines : List String) :
    checkLines s (number + 1) lines =
      (checkLines s number lines).map (List.map Diagnostic.below) := by
  induction lines generalizing s number with
  | nil => rfl
  | cons text lines ih =>
    rw [checkLines_cons, checkLines_cons, checkLine_below]
    cases checkLine s number text with
    | error e => rfl
    | ok r =>
      obtain ⟨next, here⟩ := r
      simp only [map_ok, ih next (number + 1)]
      cases checkLines next (number + 1) lines with
      | error e => rfl
      | ok found => cases here <;> rfl

theorem checkLine_comment (hcomment : isComment text = true) (s : Session) (number : ℕ) :
    checkLine s number text = .ok (s, none) := by
  rw [checkLine, if_pos hcomment]

theorem checkLines_comment (hcomment : isComment text = true) (s : Session) (number : ℕ)
    (lines : List String) :
    checkLines s number (text :: lines) = checkLines s (number + 1) lines := by
  rw [checkLines_cons, checkLine_comment hcomment]
  exact map_nil_append _

theorem checkLines_insert (hcomment : isComment text = true) (s : Session)
    (before after : List String) :
    checkLines s 0 (before ++ text :: after) =
      (checkLines s 0 (before ++ after)).map (List.map (Diagnostic.pushed before.length)) := by
  rw [checkLines_append, checkLines_append, checkLines_comment hcomment, checkLines_below,
    Nat.zero_add]
  cases hbefore : checkLines s 0 before with
  | error e => rfl
  | ok first =>
    rw [except_bind_eq, except_bind_eq, ok_bind, ok_bind]
    cases hafter : checkLines (checkedSession s 0 before) before.length after with
    | error e => rfl
    | ok last =>
      have hfirst : first.map (Diagnostic.pushed before.length) = first := by
        refine (List.map_congr_left fun d hd => ?_).trans (List.map_id first)
        have := (checkLines_lines hbefore d hd).2
        exact if_pos (by omega)
      have hlast : last.map (Diagnostic.pushed before.length) = last.map Diagnostic.below := by
        refine List.map_congr_left fun d hd => ?_
        have := (checkLines_lines hafter d hd).1
        exact if_neg (by omega)
      simp [hfirst, hlast]

end

def joinLines (lines : List String) : String :=
  "\n".intercalate lines

section
variable {lines : List String}

/-- An empty line at the end is no line of the document, but nothing is found in it. -/
theorem checkLines_joinLines (h : ∀ text ∈ lines, ∀ c ∈ text.toList, isLineBreak c = false)
    (s : Session) (number : ℕ) :
    checkLines s number (splitLines (joinLines lines)) = checkLines s number lines := by
  induction lines generalizing s number with
  | nil => rfl
  | cons text lines ih =>
    obtain ⟨htext, hlines⟩ := List.forall_mem_cons.mp h
    by_cases hlast : lines = []
    · subst hlast
      have hjoined : joinLines [text] = text := rfl
      rw [hjoined, splitLines_single htext]
      split
      next hempty =>
        rw [hempty, checkLines_comment (by decide)]
        rfl
      next => rfl
    · have hjoined : joinLines (text :: lines) = text ++ "\n" ++ joinLines lines :=
        String.intercalate_cons_of_ne_nil hlast
      rw [hjoined, splitLines_line htext, checkLines_cons, checkLines_cons]
      simp only [ih hlines]

theorem checkLines_prefix {s : Session} {rest : List String} {found : List Diagnostic}
    (h : checkLines s 0 (lines ++ rest) = .ok found) :
    checkLines s 0 lines = .ok (found.filter fun d => d.range.line < lines.length) := by
  rw [checkLines_append, Nat.zero_add] at h
  obtain ⟨first, hfirst, h⟩ := bind_eq_ok h
  obtain ⟨last, hlast, rfl⟩ := map_eq_ok h
  have hkept : (first.filter fun d => d.range.line < lines.length) = first := by
    refine List.filter_eq_self.mpr fun d hd => decide_eq_true ?_
    simpa using (checkLines_lines hfirst d hd).2
  have hdropped : (last.filter fun d => d.range.line < lines.length) = [] := by
    refine List.filter_eq_nil_iff.mpr fun d hd => ?_
    simpa using (checkLines_lines hlast d hd).1
  rw [List.filter_append, hkept, hdropped, List.append_nil, hfirst]

end

/-- A document that goes on behind its last line has the same diagnostics in its lines, and if its
check breaks off, so does that of the longer document, with the same error. A comment that is put
between lines pushes the diagnostics below it by one line, and changes no other one and nothing else
in them. -/
theorem diagnostics_local :
    (∀ first last : String,
      (∀ found, checkDocument (first ++ "\n" ++ last) = .ok found →
        checkDocument first =
          .ok (found.filter fun d => d.range.line < (splitLines first).length)) ∧
      ∀ e, checkDocument first = .error e →
        checkDocument (first ++ "\n" ++ last) = .error e) ∧
    ∀ before text after,
      (∀ line ∈ before ++ text :: after, ∀ c ∈ line.toList, isLineBreak c = false) →
      isComment text = true →
      checkDocument (joinLines (before ++ text :: after)) =
        (checkDocument (joinLines (before ++ after))).map
          (List.map (Diagnostic.pushed before.length)) := by
  refine ⟨fun first last => ?_, fun before text after hlines hcomment => ?_⟩
  · obtain ⟨seam, _, hsplit⟩ := splitLines_joined first last
    rw [List.append_assoc] at hsplit
    have hwhole : checkDocument (first ++ "\n" ++ last) =
        checkLines startSession 0 (splitLines first ++ (seam ++ splitLines last)) := by
      rw [checkDocument, hsplit]
      rfl
    refine ⟨fun found h => checkLines_prefix (hwhole ▸ h), fun e h => ?_⟩
    have hfirst : checkLines startSession 0 (splitLines first) = .error e := h
    rw [hwhole, checkLines_append, hfirst]
    rfl
  · have hrest : ∀ line ∈ before ++ after, ∀ c ∈ line.toList, isLineBreak c = false := by
      intro line hline
      refine hlines line ?_
      rcases List.mem_append.mp hline with hline | hline
      · exact List.mem_append_left _ hline
      · exact List.mem_append_right _ (List.mem_cons_of_mem _ hline)
    rw [checkDocument, checkDocument, checkLines_joinLines hlines, checkLines_joinLines hrest,
      checkLines_insert hcomment]

def refusedSign : Diagnostic :=
  ⟨⟨0, 2, 3⟩, "unexpected character '$'", .error⟩

def unknownName (line : ℕ) : Diagnostic :=
  ⟨⟨line, 0, 1⟩, "undefined variable 'y'", .warning⟩

/-- The first document ends with a carriage return, which makes one break with the line feed. -/
theorem splitBreak_local :
    checkDocument ("1 $\r" ++ "\n" ++ "y") = .ok [refusedSign, unknownName 1] ∧
      checkDocument "1 $\r" = .ok [refusedSign] ∧
      (∀ line ∈ ["1 $"] ++ " # note" :: ["y"], ∀ c ∈ line.toList, isLineBreak c = false) ∧
      isComment " # note" = true ∧
      checkDocument (joinLines (["1 $"] ++ ["y"])) = .ok [refusedSign, unknownName 1] ∧
      checkDocument (joinLines (["1 $"] ++ " # note" :: ["y"])) =
        .ok [refusedSign, unknownName 2] := by
  have hlines : ∀ line ∈ ["1 $"] ++ " # note" :: ["y"], ∀ c ∈ line.toList,
      isLineBreak c = false := by
    simp [isLineBreak]
  have hcomment : isComment " # note" = true := by decide
  have hfound : checkLines startSession 0 ["1 $", "y"] = .ok [refusedSign, unknownName 1] := by
    decide +kernel
  have hsplit : splitLines ("1 $\r" ++ "\n" ++ "y") = ["1 $", "y"] := by decide +kernel
  have hwhole : checkDocument ("1 $\r" ++ "\n" ++ "y") = .ok [refusedSign, unknownName 1] := by
    rw [checkDocument, hsplit]
    exact hfound
  have hjoined : splitLines (joinLines (["1 $"] ++ ["y"])) = ["1 $", "y"] := by decide +kernel
  have hplain : checkDocument (joinLines (["1 $"] ++ ["y"])) =
      .ok [refusedSign, unknownName 1] := by
    rw [checkDocument, hjoined]
    exact hfound
  have hlength : (splitLines "1 $\r").length = 1 := by decide +kernel
  have hfirst := (diagnostics_local.1 "1 $\r" "y").1 _ hwhole
  have hinserted := diagnostics_local.2 ["1 $"] " # note" ["y"] hlines hcomment
  rw [hlength] at hfirst
  rw [hplain] at hinserted
  exact ⟨hwhole, hfirst, hlines, hcomment, hplain, hinserted⟩

end Reckoner
