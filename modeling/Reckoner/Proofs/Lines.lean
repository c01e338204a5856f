import Mathlib.Data.List.DropRight
import Reckoner.Text.Blank

namespace Reckoner

theorem rtakeWhile_append_of_pos {p : Char → Bool} {v : List Char} (h : ∀ c ∈ v, p c = true)
    (u : List Char) : (u ++ v).rtakeWhile p = u.rtakeWhile p ++ v := by
  rw [List.rtakeWhile, List.rtakeWhile, List.reverse_append,
    List.takeWhile_append_of_pos fun c hc => h c (List.mem_reverse.mp hc), List.reverse_append,
    List.reverse_reverse]

@[simp] theorem linesFrom_pair (line cs : List Char) :
    linesFrom line ('\r' :: '\n' :: cs) = ('\n' :: '\r' :: line).reverse :: linesFrom [] cs := by
  rw [linesFrom]

theorem linesFrom_cons {c : Char} {cs : List Char} (h : c = '\r' → cs.head? ≠ some '\n')
    (line : List Char) :
    linesFrom line (c :: cs) =
      if isLineBreak c then (c :: line).reverse :: linesFrom [] cs
      else linesFrom (c :: line) cs := by
  rw [linesFrom.eq_def]
  split
  next heq => cases heq
  next heq =>
    obtain ⟨rfl, rfl⟩ := List.cons.inj heq
    exact absurd rfl (h rfl)
  next heq =>
    obtain ⟨rfl, rfl⟩ := List.cons.inj heq
    rfl

/-- A character that is no break goes to the line that is being read. -/
theorem linesFrom_other {c : Char} (h : isLineBreak c = false) (line cs : List Char) :
    linesFrom line (c :: cs) = linesFrom (c :: line) cs := by
  have hnext : c = '\r' → cs.head? ≠ some '\n' := by
    rintro rfl
    cases h
  rw [linesFrom_cons hnext, if_neg (by simp [h])]

/-- Lines with their breaks make up the text. -/
theorem linesFrom_flatten (line cs : List Char) :
    (linesFrom line cs).flatten = line.reverse ++ cs := by
  fun_induction linesFrom line cs with
  | case1 line hempty =>
    obtain rfl := List.isEmpty_iff.mp hempty
    rfl
  | case2 line hsome => simp
  | case3 line cs ih => simp [ih]
  | case4 line c cs hpair hbreak ih => simp [ih]
  | case5 line c cs hpair hbreak ih => simp [ih]

section
variable {line : List Char}

theorem unbroken_reverse (h : ∀ c ∈ line, isLineBreak c = false) :
    ∀ c ∈ line.reverse, isLineBreak c = false :=
  fun c hc => h c (List.mem_reverse.mp hc)

theorem dropBreak_unbroken (h : ∀ c ∈ line, isLineBreak c = false) :
    dropBreak line.reverse = line.reverse := by
  rw [dropBreak, List.reverse_reverse]
  split
  next rest =>
    have := h '\n' (by simp)
    cases this
  next c rest hno => rw [if_neg (by simp [h c (by simp)])]
  next => rfl

@[simp] theorem dropBreak_pair (line : List Char) :
    dropBreak ('\n' :: '\r' :: line).reverse = line.reverse := by
  rw [dropBreak, List.reverse_reverse]
  rfl

theorem dropBreak_break {c : Char} (hc : isLineBreak c = true)
    (h : ∀ c ∈ line, isLineBreak c = false) : dropBreak (c :: line).reverse = line.reverse := by
  rw [dropBreak, List.reverse_reverse]
  split
  next rest heq =>
    obtain ⟨_, rfl⟩ := List.cons.inj heq
    have := h '\r' (by simp)
    cases this
  next d rest hno heq =>
    obtain ⟨rfl, rfl⟩ := List.cons.inj heq
    rw [if_pos hc]
  next heq => cases heq

end

/-- No line of a text has a break in it. -/
theorem linesFrom_unbroken {line cs : List Char} (hline : ∀ c ∈ line, isLineBreak c = false) :
    ∀ whole ∈ linesFrom line cs, ∀ c ∈ dropBreak whole, isLineBreak c = false := by
  have hnone : ∀ c ∈ ([] : List Char), isLineBreak c = false := fun _ h => nomatch h
  fun_induction linesFrom line cs with
  | case1 line hempty => simp
  | case2 line hsome =>
    refine List.forall_mem_singleton.mpr ?_
    rw [dropBreak_unbroken hline]
    exact unbroken_reverse hline
  | case3 line rest ih =>
    refine List.forall_mem_cons.mpr ⟨?_, ih hnone⟩
    rw [dropBreak_pair]
    exact unbroken_reverse hline
  | case4 line c rest _ hbreak ih =>
    refine List.forall_mem_cons.mpr ⟨?_, ih hnone⟩
    rw [dropBreak_break hbreak hline]
    exact unbroken_reverse hline
  | case5 line c rest _ hbreak ih =>
    refine ih (List.forall_mem_cons.mpr ⟨?_, hline⟩)
    simpa using hbreak

theorem splitLines_unbroken {source text : String} (h : text ∈ splitLines source) :
    ∀ c ∈ text.toList, isLineBreak c = false := by
  obtain ⟨whole, hwhole, rfl⟩ := List.mem_map.mp h
  rw [String.toList_ofList]
  exact linesFrom_unbroken (by simp) whole hwhole

/-- A line feed behind an unbroken line ends this line. -/
theorem linesFrom_feed {line : List Char} (hline : ∀ c ∈ line, isLineBreak c = false)
    (cs : List Char) :
    (linesFrom line ('\n' :: cs)).map dropBreak =
      line.reverse :: (linesFrom [] cs).map dropBreak := by
  have hfeed : isLineBreak '\n' = true := rfl
  rw [linesFrom_cons (by simp), if_pos hfeed, List.map_cons, dropBreak_break hfeed hline]

/-- The lines of two texts with a line feed between them. There may be an empty line at the seam:
where the first text ends with a break of its own, which does not make one break with the feed. -/
theorem linesFrom_joined {line : List Char} (hline : ∀ c ∈ line, isLineBreak c = false)
    (cs rest : List Char) :
    ∃ seam, (seam = [] ∨ seam = [[]]) ∧
      (linesFrom line (cs ++ '\n' :: rest)).map dropBreak =
        (linesFrom line cs).map dropBreak ++ seam ++ (linesFrom [] rest).map dropBreak := by
  fun_induction linesFrom line cs with
  | case1 line hempty =>
    obtain rfl := List.isEmpty_iff.mp hempty
    exact ⟨[[]], .inr rfl, linesFrom_feed hline rest⟩
  | case2 line hsome =>
    refine ⟨[], .inl rfl, ?_⟩
    rw [List.nil_append, linesFrom_feed hline, List.map_singleton, dropBreak_unbroken hline]
    rfl
  | case3 line cs ih =>
    obtain ⟨seam, hseam, hlines⟩ := ih (by simp)
    refine ⟨seam, hseam, ?_⟩
    rw [List.cons_append, List.cons_append, linesFrom_pair, List.map_cons, hlines]
    rfl
  | case4 line c cs hpair hbreak ih =>
    by_cases hseam : c = '\r' ∧ cs = []
    · obtain ⟨rfl, rfl⟩ := hseam
      refine ⟨[], .inl rfl, ?_⟩
      rw [List.cons_append, List.nil_append, linesFrom_pair, List.map_cons, List.map_cons,
        dropBreak_pair, dropBreak_break hbreak hline]
      rfl
    · obtain ⟨seam, hseam', hlines⟩ := ih (by simp)
      refine ⟨seam, hseam', ?_⟩
      have hnext : c = '\r' → (cs ++ '\n' :: rest).head? ≠ some '\n' := by
        rintro rfl hfeed
        cases cs with
        | nil => exact hseam ⟨rfl, rfl⟩
        | cons d cs =>
          cases hfeed
          exact hpair cs rfl rfl
      rw [List.cons_append, linesFrom_cons hnext, if_pos hbreak, List.map_cons, hlines]
      rfl
  | case5 line c cs hpair hbreak ih =>
    have hunbroken : isLineBreak c = false := by simpa using hbreak
    obtain ⟨seam, hseam, hlines⟩ := ih (List.forall_mem_cons.mpr ⟨hunbroken, hline⟩)
    refine ⟨seam, hseam, ?_⟩
    rw [List.cons_append, linesFrom_other hunbroken, hlines]

theorem splitLines_eq (source : String) :
    splitLines source = ((linesFrom [] source.toList).map dropBreak).map String.ofList := by
  rw [List.map_map]
  rfl

theorem splitLines_joined (first last : String) :
    ∃ seam, (seam = [] ∨ seam = [""]) ∧
      splitLines (first ++ "\n" ++ last) = splitLines first ++ seam ++ splitLines last := by
  have hnone : ∀ c ∈ ([] : List Char), isLineBreak c = false := by simp
  obtain ⟨seam, hseam, hlines⟩ := linesFrom_joined hnone first.toList last.toList
  have hchars : (first ++ "\n" ++ last).toList = first.toList ++ '\n' :: last.toList := by
    simp [String.toList_append]
  refine ⟨seam.map String.ofList, hseam.imp (by rintro rfl; rfl) (by rintro rfl; rfl), ?_⟩
  simp only [splitLines_eq, hchars, hlines, List.map_append]

/-- Characters that are no breaks go to the line that is being read. -/
theorem linesFrom_line {text : List Char} (h : ∀ c ∈ text, isLineBreak c = false)
    (line cs : List Char) : linesFrom line (text ++ cs) = linesFrom (text.reverse ++ line) cs := by
  induction text generalizing line with
  | nil => rfl
  | cons c text ih =>
    obtain ⟨hc, htext⟩ := List.forall_mem_cons.mp h
    rw [List.cons_append, linesFrom_other hc, ih htext]
    simp

theorem splitLines_line {text : String} (h : ∀ c ∈ text.toList, isLineBreak c = false)
    (rest : String) : splitLines (text ++ "\n" ++ rest) = text :: splitLines rest := by
  have hchars : (text ++ "\n" ++ rest).toList = text.toList ++ '\n' :: rest.toList := by
    simp [String.toList_append]
  rw [splitLines_eq, splitLines_eq, hchars, linesFrom_line h, List.append_nil,
    linesFrom_feed (unbroken_reverse h), List.map_cons, List.reverse_reverse, String.ofList_toList]

/-- An empty text has no line, not an empty one. -/
theorem splitLines_single {text : String} (h : ∀ c ∈ text.toList, isLineBreak c = false) :
    splitLines text = if text = "" then [] else [text] := by
  have hlines := linesFrom_line h [] []
  rw [List.append_nil, List.append_nil] at hlines
  rw [splitLines_eq, hlines, linesFrom]
  by_cases hempty : text = ""
  · subst hempty
    rfl
  · rw [if_neg (by simpa using hempty), if_neg hempty, List.map_singleton,
      dropBreak_unbroken (unbroken_reverse h)]
    simp

end Reckoner
