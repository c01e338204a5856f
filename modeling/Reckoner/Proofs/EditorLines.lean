import Reckoner.Proofs.DiagnosticRanges

namespace Reckoner

def isEditorBreak (c : Char) : Bool :=
  c == '\n' || c == '\r'

/-- A character that ends a line of a document, but none of an editor. -/
def isStrayBreak (c : Char) : Bool :=
  isLineBreak c && !isEditorBreak c

/-- The line of an editor behind a text; a carriage return and the line feed after it end one. -/
def editorLine : List Char → ℕ
  | [] => 0
  | '\r' :: '\n' :: rest => editorLine rest + 1
  | c :: rest => if isEditorBreak c then editorLine rest + 1 else editorLine rest

/-- What of a text stands on the line of an editor behind it. -/
def editorTail (text : List Char) : List Char :=
  text.rtakeWhile fun c => !isEditorBreak c

def endedLines (text : List Char) : ℕ :=
  editorLine text + text.countP isStrayBreak

section
variable {c : Char} {line text cs : List Char}

theorem editorLine_cons (h : c = '\r' → cs.head? ≠ some '\n') :
    editorLine (c :: cs) = if isEditorBreak c then editorLine cs + 1 else editorLine cs := by
  rw [editorLine.eq_def]
  split
  next heq => cases heq
  next heq =>
    obtain ⟨rfl, rfl⟩ := List.cons.inj heq
    exact absurd rfl (h rfl)
  next heq =>
    obtain ⟨rfl, rfl⟩ := List.cons.inj heq
    rfl

@[simp] theorem not_isEditorBreak (h : isLineBreak c = false) : isEditorBreak c = false := by
  by_contra hbreak
  simp only [isEditorBreak, Bool.not_eq_false, Bool.or_eq_true, beq_iff_eq] at hbreak
  rcases hbreak with rfl | rfl <;> cases h

theorem countP_isStrayBreak (h : ∀ c ∈ text, isLineBreak c = false) :
    text.countP isStrayBreak = 0 := by
  refine List.countP_eq_zero.mpr fun c hc => ?_
  simp [isStrayBreak, h c hc]

@[simp] theorem endedLines_pair (cs : List Char) :
    endedLines ('\r' :: '\n' :: cs) = endedLines cs + 1 := by
  have hreturn : isStrayBreak '\r' = false := rfl
  have hfeed : isStrayBreak '\n' = false := rfl
  rw [endedLines, editorLine, List.countP_cons_of_neg (by simp [hreturn]),
    List.countP_cons_of_neg (by simp [hfeed]), endedLines]
  omega

theorem endedLines_break (hbreak : isLineBreak c = true) (h : c = '\r' → cs.head? ≠ some '\n') :
    endedLines (c :: cs) = endedLines cs + 1 := by
  rw [endedLines, endedLines, editorLine_cons h]
  cases heditor : isEditorBreak c with
  | true =>
    rw [if_pos rfl, List.countP_cons_of_neg (by simp [isStrayBreak, heditor])]
    omega
  | false =>
    rw [if_neg (by simp), List.countP_cons_of_pos (by simp [isStrayBreak, heditor, hbreak])]
    omega

theorem endedLines_unbroken (hline : ∀ c ∈ line, isLineBreak c = false) (cs : List Char) :
    endedLines (line ++ cs) = endedLines cs := by
  induction line with
  | nil => rfl
  | cons c line ih =>
    obtain ⟨hc, hline⟩ := List.forall_mem_cons.mp hline
    have hnext : c = '\r' → (line ++ cs).head? ≠ some '\n' := by
      rintro rfl
      cases hc
    rw [List.cons_append, endedLines, editorLine_cons hnext,
      if_neg (by simp [hc]), List.countP_cons_of_neg (by simp [isStrayBreak, hc]),
      ← endedLines, ih hline]

/-- Characters that are no breaks end no line. -/
theorem editorLine_append (h : ∀ c ∈ text, isLineBreak c = false) (cs : List Char) :
    editorLine (cs ++ text) = editorLine cs := by
  have hnext : ∀ {c : Char} {rest : List Char}, (∀ tail, c = '\r' → rest = '\n' :: tail → False) →
      c = '\r' → (rest ++ text).head? ≠ some '\n' := by
    intro c rest hpair hreturn hfeed
    cases rest with
    | nil => nomatch h '\n' (List.mem_of_head? hfeed)
    | cons d rest =>
      cases hfeed
      exact hpair rest hreturn rfl
  fun_induction editorLine cs with
  | case1 =>
    have hnone := endedLines_unbroken h []
    rw [List.append_nil, endedLines] at hnone
    exact Nat.eq_zero_of_add_eq_zero_right hnone
  | case2 rest ih => rw [List.cons_append, List.cons_append, editorLine, ih]
  | case3 c rest hpair hbreak ih =>
    rw [List.cons_append, editorLine_cons (hnext hpair), if_pos hbreak, ih]
  | case4 c rest hpair hbreak ih =>
    rw [List.cons_append, editorLine_cons (hnext hpair), if_neg hbreak, ih]

theorem endedLines_append (h : ∀ c ∈ text, isLineBreak c = false) (cs : List Char) :
    endedLines (cs ++ text) = endedLines cs := by
  rw [endedLines, endedLines, editorLine_append h, List.countP_append, countP_isStrayBreak h,
    Nat.add_zero]

theorem editorTail_append (h : ∀ c ∈ text, isLineBreak c = false) (cs : List Char) :
    editorTail (cs ++ text) = editorTail cs ++ text :=
  rtakeWhile_append_of_pos (fun c hc => by simp [h c hc]) cs

end

/-- The lines of a text before one of its lines: as many as end there, the last of them with a
break. -/
theorem linesFrom_ended {line cs whole : List Char} {front rest : List (List Char)}
    (hline : ∀ c ∈ line, isLineBreak c = false) (h : linesFrom line cs = front ++ whole :: rest) :
    endedLines front.flatten = front.length ∧
      ∀ c ∈ front.flatten.getLast?, isLineBreak c = true := by
  -- The last break of the lines behind a line, or its own where there are none.
  have hlast : ∀ {line last : List Char} {c : Char}, isLineBreak c = true →
      (∀ d ∈ last.getLast?, isLineBreak d = true) →
      ∀ d ∈ ((c :: line).reverse ++ last).getLast?, isLineBreak d = true := by
    intro line last c hc hrest d hd
    rw [List.reverse_cons, List.getLast?_append, List.getLast?_concat, Option.mem_def,
      Option.or_eq_some_iff] at hd
    obtain hd | ⟨_, hd⟩ := hd
    · exact hrest d hd
    · obtain rfl := Option.some.inj hd
      exact hc
  fun_induction linesFrom line cs generalizing front with
  | case1 line hempty => simp at h
  | case2 line hsome =>
    obtain ⟨rfl, _⟩ | ⟨_, _, h⟩ := List.cons_eq_append_iff.mp h
    · exact ⟨rfl, by simp⟩
    · simp at h
  | case3 line cs ih =>
    obtain ⟨rfl, _⟩ | ⟨front, rfl, hrest⟩ := List.cons_eq_append_iff.mp h
    · exact ⟨rfl, by simp⟩
    · obtain ⟨hcount, hbreak⟩ := ih (by simp) hrest
      refine ⟨?_, by rw [List.flatten_cons]; exact hlast rfl hbreak⟩
      rw [List.flatten_cons, List.reverse_cons, List.reverse_cons, List.append_assoc,
        List.append_assoc, endedLines_unbroken (unbroken_reverse hline), List.singleton_append,
        List.singleton_append, endedLines_pair, hcount, List.length_cons]
  | case4 line c cs hpair hbreak ih =>
    obtain ⟨rfl, _⟩ | ⟨front, rfl, hrest⟩ := List.cons_eq_append_iff.mp h
    · exact ⟨rfl, by simp⟩
    · obtain ⟨hcount, hends⟩ := ih (by simp) hrest
      -- What is behind the break is what is left of the text, which starts with no line feed.
      have hnext : c = '\r' → front.flatten.head? ≠ some '\n' := by
        intro hreturn hfeed
        have hwhole := linesFrom_flatten [] cs
        rw [hrest, List.flatten_append] at hwhole
        cases hfront : front.flatten with
        | nil => simp [hfront] at hfeed
        | cons d tail =>
          rw [hfront] at hfeed hwhole
          cases hfeed
          exact hpair _ hreturn hwhole.symm
      refine ⟨?_, by rw [List.flatten_cons]; exact hlast hbreak hends⟩
      rw [List.flatten_cons, List.reverse_cons, List.append_assoc,
        endedLines_unbroken (unbroken_reverse hline), List.singleton_append,
        endedLines_break hbreak hnext, hcount, List.length_cons]
  | case5 line c cs hpair hbreak ih =>
    exact ih (List.forall_mem_cons.mpr ⟨by simpa using hbreak, hline⟩) h

theorem dropBreak_prefix (line : List Char) : dropBreak line <+: line := by
  obtain ⟨back, rfl⟩ : ∃ back, line = back.reverse := ⟨line.reverse, line.reverse_reverse.symm⟩
  rw [dropBreak, List.reverse_reverse]
  split
  next rest => exact ⟨['\r', '\n'], by simp⟩
  next c rest _ =>
    split
    · exact ⟨[c], by simp⟩
    · exact List.prefix_rfl
  next => exact List.prefix_rfl

def textBefore (source : String) (number offset : ℕ) : List Char :=
  ((linesWithBreaks source).take number).flatten ++
    ((linesWithBreaks source)[number]?.getD []).take offset

section
variable {source text : String} {before after : List String} {offset : ℕ}

/-- Before a character of a line stand the lines before, each with the break that ends it, and the
line up to the character. -/
theorem textBefore_eq (h : splitLines source = before ++ text :: after)
    (hoffset : offset ≤ text.length) :
    ∃ front behind, textBefore source before.length offset = front ++ text.toList.take offset ∧
      source.toList = front ++ text.toList ++ behind ∧ endedLines front = before.length ∧
      ∀ c ∈ front.getLast?, isLineBreak c = true := by
  obtain ⟨front, rest, hlines, hbefore, hrest⟩ := List.map_eq_append_iff.mp h
  obtain ⟨whole, rest, rfl, htext, -⟩ := List.map_eq_cons_iff.mp hrest
  have hlength : before.length = front.length := by rw [← hbefore, List.length_map]
  have hchars : text.toList = dropBreak whole := by rw [← htext, String.toList_ofList]
  obtain ⟨ending, hwhole⟩ : text.toList <+: whole := hchars ▸ dropBreak_prefix whole
  obtain ⟨hended, hlast⟩ := linesFrom_ended (by simp) hlines
  have hsource := linesFrom_flatten [] source.toList
  refine ⟨front.flatten, ending ++ rest.flatten, ?_, ?_, by rw [hended, hlength], hlast⟩
  · have hinside : offset ≤ text.toList.length := hoffset
    rw [textBefore, hlines, hlength, List.take_left, List.getElem?_append_right (le_refl _),
      Nat.sub_self, List.getElem?_cons_zero, Option.getD_some, ← hwhole,
      List.take_append_of_le_length hinside]
  · rw [← linesWithBreaks, hlines] at hsource
    simpa [← hwhole] using hsource.symm

theorem rtakeWhile_ended {front : List Char} (h : ∀ c ∈ front.getLast?, isLineBreak c = true) :
    front.rtakeWhile (fun c => !isLineBreak c) = [] := by
  cases front using List.reverseRecOn with
  | nil => rfl
  | append_singleton front c =>
    have hbreak : isLineBreak c = true := h c (by simp)
    exact List.rtakeWhile_concat_neg _ _ _ (by simp [hbreak])

theorem editorTail_ended {front : List Char} (h : ∀ c ∈ front.getLast?, isLineBreak c = true) :
    editorTail front = [] ↔ ∀ c ∈ editorTail front, isStrayBreak c = false := by
  refine ⟨fun hnone => by simp [hnone], fun hplain => ?_⟩
  cases front using List.reverseRecOn with
  | nil => rfl
  | append_singleton front c =>
    have hbreak : isLineBreak c = true := h c (by simp)
    cases heditor : isEditorBreak c with
    | true => exact List.rtakeWhile_concat_neg _ _ _ (by simp [heditor])
    | false =>
      have htail : editorTail (front ++ [c]) = editorTail front ++ [c] :=
        List.rtakeWhile_concat_pos _ _ _ (by simp [heditor])
      have hstray := hplain c (by simp [htail])
      simp [isStrayBreak, hbreak, heditor] at hstray

end

section
variable {range : LineRange} {line part : List Char} {offset : ℕ}

theorem LineRange.Selects.inside (h : range.Selects line offset part) : offset ≤ line.length := by
  by_cases hpart : part = []
  · exact (h.behind hpart).le
  · by_contra hbehind
    have hnone := h.selected
    rw [List.drop_eq_nil_of_le (by omega), List.take_nil] at hnone
    exact hpart hnone.symm

theorem LineRange.Selects.split (h : range.Selects line offset part) :
    line = line.take offset ++ part ++ (line.drop offset).drop part.length := by
  have hrest := List.take_append_drop part.length (line.drop offset)
  rw [h.selected] at hrest
  rw [List.append_assoc, hrest, List.take_append_drop]

end

section
variable {s : Session} {number : ℕ} {source text : String} {found : List Diagnostic}

theorem found_at (h : checkDocument source = .ok found) {d : Diagnostic} (hd : d ∈ found) :
    ∃ before text after e, splitLines source = before ++ text :: after ∧
      before.length = d.range.line ∧
      (checkedSession startSession 0 before).resolve text = .error e ∧
      Diagnostic.ofError? d.range.line text e = some d := by
  have hnumber : d.range.line < (splitLines source).length := by
    have := (checkLines_lines h d hd).2
    omega
  have hsplit : splitLines source = (splitLines source).take d.range.line ++
      (splitLines source)[d.range.line] :: (splitLines source).drop (d.range.line + 1) := by
    rw [← List.drop_eq_getElem_cons hnumber, List.take_append_drop]
  have hlength : ((splitLines source).take d.range.line).length = d.range.line :=
    List.length_take_of_le hnumber.le
  have hlines := h
  rw [checkDocument, hsplit] at hlines
  obtain ⟨_, next, here, _, hline, hhere⟩ := checkLines_split hlines
  rw [hlength] at hline hhere
  have hkept : d ∈ here.toList := hhere ▸ List.mem_filter.mpr ⟨hd, by simp⟩
  obtain rfl : here = some d := by simpa using hkept
  obtain ⟨e, he, hfound⟩ := checkLine_found hline
  exact ⟨_, _, _, e, hsplit, hlength, he, hfound⟩

end

/-- Every diagnostic of a document is that of one of its lines and starts where the part that is at
fault stands in the document. It stands as many lines further down than in an editor as there are
breaks before it that an editor does not know, and it starts behind the last break of any kind:
at the same character as in an editor exactly where no such break is before it on the line of the
editor. -/
theorem diagnostics_beside_editor {source : String} {found : List Diagnostic}
    (h : checkDocument source = .ok found) :
    ∀ d ∈ found, ∃ before text after e part behind,
      splitLines source = before ++ text :: after ∧ before.length = d.range.line ∧
      (checkedSession startSession 0 before).resolve text = .error e ∧
      e.message? = some d.message ∧
      Offends (checkedSession startSession 0 before) text e d.severity d.range.start part ∧
      let place := textBefore source d.range.line d.range.start
      source.toList = place ++ part ++ behind ∧
      d.range.line = editorLine place + place.countP isStrayBreak ∧
      d.range.start = (place.rtakeWhile fun c => !isLineBreak c).length ∧
      (d.range.start = (editorTail place).length ↔
        ∀ c ∈ editorTail place, isStrayBreak c = false) := by
  intro d hd
  obtain ⟨before, text, after, e, hsplit, hnumber, he, hfound⟩ := found_at h hd
  have hunbroken : ∀ c ∈ text.toList, isLineBreak c = false :=
    splitLines_unbroken (by rw [hsplit]; simp)
  have hfeed : '\n' ∉ text.toList := fun hmem => nomatch hunbroken '\n' hmem
  have hp : (checkedSession startSession 0 before).precision ≤ maxPrecision := by
    rw [checkedSession_precision]
    decide
  obtain ⟨offset, part, hoffends, hselects⟩ := diagnostic_selects hp hfeed he hfound
  obtain rfl : d.range.start = offset := hselects.start
  have hmessage := ofError?_message d.range.line text e
  rw [hfound] at hmessage
  obtain ⟨front, behind, hplace, hsource, hended, hlast⟩ := textBefore_eq hsplit hselects.inside
  rw [hnumber] at hplace
  have hup : ∀ c ∈ text.toList.take d.range.start, isLineBreak c = false :=
    fun c hc => hunbroken c (List.mem_of_mem_take hc)
  have hlength : (text.toList.take d.range.start).length = d.range.start :=
    List.length_take_of_le hselects.inside
  refine ⟨before, text, after, e, part,
    (text.toList.drop d.range.start).drop part.length ++ behind, hsplit, hnumber, he,
    hmessage.symm, hoffends, ?_, ?_, ?_, ?_⟩
  · have hcut := hselects.split
    rw [hsource, hplace]
    nth_rewrite 1 [hcut]
    simp only [List.append_assoc]
  · rw [← endedLines, hplace, endedLines_append hup, hended, hnumber]
  · rw [hplace, rtakeWhile_append_of_pos (by simpa using hup), rtakeWhile_ended hlast,
      List.nil_append, hlength]
  · rw [hplace, editorTail_append hup, List.length_append, hlength, List.forall_mem_append,
      ← editorTail_ended hlast, ← List.length_eq_zero_iff]
    have hplain : ∀ c ∈ text.toList.take d.range.start, isStrayBreak c = false :=
      fun c hc => by simp [isStrayBreak, hup c hc]
    exact ⟨fun heq => ⟨by omega, hplain⟩, fun hnone => by omega⟩

def brokenSheet : String :=
  "1 $\r\ny\rx\x0c z"

theorem brokenSheet_beside :
    checkDocument brokenSheet = .ok [⟨⟨0, 2, 3⟩, "unexpected character '$'", .error⟩,
        ⟨⟨1, 0, 1⟩, "undefined variable 'y'", .warning⟩,
        ⟨⟨2, 0, 1⟩, "undefined variable 'x'", .warning⟩,
        ⟨⟨3, 1, 2⟩, "undefined variable 'z'", .warning⟩] ∧
      ∃ part behind, brokenSheet.toList = "1 $\r\ny\rx\x0c ".toList ++ part ++ behind ∧
        3 = editorLine "1 $\r\ny\rx\x0c ".toList + 1 ∧
        1 ≠ (editorTail "1 $\r\ny\rx\x0c ".toList).length := by
  have hsplit : splitLines brokenSheet = ["1 $", "y", "x", " z"] := by decide +kernel
  have hcheck : checkDocument brokenSheet = .ok [⟨⟨0, 2, 3⟩, "unexpected character '$'", .error⟩,
      ⟨⟨1, 0, 1⟩, "undefined variable 'y'", .warning⟩,
      ⟨⟨2, 0, 1⟩, "undefined variable 'x'", .warning⟩,
      ⟨⟨3, 1, 2⟩, "undefined variable 'z'", .warning⟩] := by
    rw [checkDocument, hsplit]
    decide +kernel
  obtain ⟨_, _, _, _, part, behind, _, _, _, _, _, htext, hline, _, hstart⟩ :=
    diagnostics_beside_editor hcheck ⟨⟨3, 1, 2⟩, "undefined variable 'z'", .warning⟩ (by simp)
  have hplace : textBefore brokenSheet 3 1 = "1 $\r\ny\rx\x0c ".toList := by decide +kernel
  have hstray : ("1 $\r\ny\rx\x0c ".toList).countP isStrayBreak = 1 := by decide +kernel
  simp only [hplace] at htext hline hstart
  rw [hstray] at hline
  refine ⟨hcheck, part, behind, htext, hline, fun hsame => ?_⟩
  have hnone := hstart.mp hsame '\x0c' (by decide +kernel)
  cases hnone

/-- The form feed is a blank on the line of an editor, but the sign behind it is said to be on the
next line. -/
theorem formFeed_moves_line :
    checkDocument "1\x0c$" = .ok [⟨⟨1, 0, 1⟩, "unexpected character '$'", .error⟩] ∧
      "1\x0c$".toList = ['1', '\x0c'] ++ ['$'] ∧
      editorLine ['1', '\x0c'] = 0 ∧ (editorTail ['1', '\x0c']).length = 2 := by
  have hsplit : splitLines "1\x0c$" = ["1", "$"] := by decide +kernel
  refine ⟨?_, rfl, by decide, by decide +kernel⟩
  rw [checkDocument, hsplit]
  decide +kernel

end Reckoner
