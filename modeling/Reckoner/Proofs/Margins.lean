import Mathlib.Data.List.DropRight
import Reckoner.Proofs.Relocation

namespace Reckoner

theorem breaks_of_blank {blanks : List Char} (h : ∀ c ∈ blanks, isBlank c = true) :
    Breaks blanks :=
  fun c hc => blank_apart (h c (List.mem_of_mem_head? hc))

theorem scan_blanks {blanks : List Char} (h : ∀ c ∈ blanks, isBlank c = true) (p : Position)
    (cs : List Char) : scan p (blanks ++ cs) = scan (p.advance blanks) cs := by
  induction blanks generalizing p with
  | nil => rfl
  | cons c blanks ih =>
    rw [List.cons_append, scan_blank (h c (by simp)),
      ih (fun d hd => h d (List.mem_cons_of_mem _ hd))]
    rfl

/-- A text is read as the same tokens at any other place. -/
theorem Lexes.elsewhere {p : Position} {cs : List Char} {tokens : List Token}
    (h : Lexes p cs tokens) (q : Position) :
    ∃ moved, Lexes q cs moved ∧
      moved.map (Token.moved .forget) = tokens.map (Token.moved .forget) := by
  induction h generalizing q with
  | stop p => exact ⟨_, .stop q, rfl⟩
  | @blank p c cs tokens hblank _ ih =>
    obtain ⟨moved, hmoved, hsame⟩ := ih (q.next c)
    exact ⟨moved, .blank hblank hmoved, hsame⟩
  | @word p kind word rest tokens hword hends _ ih =>
    obtain ⟨moved, hmoved, hsame⟩ := ih (q.advance word)
    exact ⟨_, .word hword hends hmoved, by rw [List.map_cons, List.map_cons, hsame]; rfl⟩

/-- It is refused for the same reason there. -/
theorem LexFails.elsewhere {p : Position} {cs : List Char} {e : LexError} (h : LexFails p cs e)
    (q : Position) : ∃ moved, LexFails q cs moved ∧ moved.moved .forget = e.moved .forget := by
  induction h generalizing q with
  | stop h => exact ⟨_, .stop h, rfl⟩
  | @blank p c cs e hblank _ ih =>
    obtain ⟨moved, hmoved, hsame⟩ := ih (q.next c)
    exact ⟨moved, .blank hblank hmoved, hsame⟩
  | @word p kind word rest e hword hends _ ih =>
    obtain ⟨moved, hmoved, hsame⟩ := ih (q.advance word)
    exact ⟨moved, .word hword hends hmoved, hsame⟩

theorem scan_margin {tail : List Char} (htail : ∀ c ∈ tail, isBlank c = true) (p q : Position)
    (cs : List Char) : unplaced (scan p (cs ++ tail)) = unplaced (scan q cs) := by
  have hbreaks : Breaks tail := breaks_of_blank htail
  rcases lexes_or_fails q cs with ⟨tokens, h⟩ | ⟨e, h⟩
  · obtain ⟨moved, hmoved, hsame⟩ := h.elsewhere p
    have hend := Lexes.blanks htail (.stop ((p.advance cs).advance tail))
    rw [List.append_nil] at hend
    obtain ⟨body, rfl, -⟩ := hmoved.body
    have hjoined := hmoved.join hbreaks hend
    rw [List.dropLast_concat] at hjoined
    rw [scan_of_lexes h, scan_of_lexes hjoined]
    simp [unplaced, ← hsame]
    rfl
  · obtain ⟨moved, hmoved, hsame⟩ := h.elsewhere p
    rw [scan_of_lexFails h, scan_of_lexFails (hmoved.append hbreaks)]
    exact congrArg Except.error hsame

theorem exists_margins (cs : List Char) :
    ∃ lead tail, cs = lead ++ (trimChars cs ++ tail) ∧ (∀ c ∈ lead, isBlank c = true) ∧
      ∀ c ∈ tail, isBlank c = true := by
  refine ⟨cs.takeWhile isBlank, (cs.dropWhile isBlank).rtakeWhile isBlank, ?_,
    fun c hc => List.mem_takeWhile_imp hc, fun c hc => List.mem_rtakeWhile_imp hc⟩
  have hend : trimChars cs ++ (cs.dropWhile isBlank).rtakeWhile isBlank = cs.dropWhile isBlank := by
    rw [trimChars, List.rtakeWhile, ← List.reverse_append, List.takeWhile_append_dropWhile,
      List.reverse_reverse]
  rw [hend, List.takeWhile_append_dropWhile]

/-- A text is read as it is without the blanks at its ends. -/
theorem alike_trim (text : String) : Alike (trim text) text := by
  obtain ⟨lead, tail, htext, hlead, htail⟩ := exists_margins text.toList
  unfold Alike tokenize
  rw [htext, scan_blanks hlead, scan_margin htail _ .start, trim, String.toList_ofList]

end Reckoner
