import Mathlib.Data.List.Basic
import Reckoner.Scan

namespace Reckoner

def Digits (ds : List Char) : Prop :=
  ∀ c ∈ ds, isDigit c = true

/-- The spellings of a number: digits, digits with a point after them or among them, and a point
with digits after it. -/
inductive IsLiteral : List Char → Prop
  | whole {d : Char} {ds : List Char} (h : Digits (d :: ds)) : IsLiteral (d :: ds)
  | pointed {d : Char} {ds es : List Char} (h : Digits (d :: ds)) (hes : Digits es) :
      IsLiteral (d :: ds ++ '.' :: es)
  | fraction {d : Char} {ds : List Char} (h : Digits (d :: ds)) : IsLiteral ('.' :: d :: ds)

theorem ne_point_of_isDigit {c : Char} (h : isDigit c = true) : c ≠ '.' := by
  rintro rfl
  exact absurd h (by decide)

/-- What may come in a number from some place on, where a point may have been seen before. -/
inductive NumberTail : Bool → List Char → Prop
  | nil {seenPoint : Bool} : NumberTail seenPoint []
  | digit {seenPoint : Bool} {c : Char} {cs : List Char} (hc : isDigit c = true)
      (h : NumberTail seenPoint cs) : NumberTail seenPoint (c :: cs)
  | point {cs : List Char} (h : NumberTail true cs) : NumberTail false ('.' :: cs)

theorem numberTail_digits {ds es : List Char} {seenPoint : Bool} (hds : Digits ds)
    (hes : NumberTail seenPoint es) : NumberTail seenPoint (ds ++ es) := by
  induction ds with
  | nil => exact hes
  | cons d ds ih =>
    obtain ⟨hd, hds⟩ := List.forall_mem_cons.mp hds
    exact .digit hd (ih hds)

theorem NumberTail.digits {cs : List Char} (h : NumberTail true cs) : Digits cs := by
  generalize hseen : true = seenPoint at h
  induction h with
  | nil => exact fun _ hc => nomatch hc
  | digit hc _ ih => exact List.forall_mem_cons.mpr ⟨hc, ih hseen⟩
  | point => cases hseen

theorem NumberTail.whole_or_pointed {seenPoint : Bool} {cs : List Char}
    (h : NumberTail seenPoint cs) :
    Digits cs ∨ ∃ ds es, cs = ds ++ '.' :: es ∧ Digits ds ∧ Digits es := by
  induction h with
  | nil => exact .inl fun _ hc => nomatch hc
  | digit hc _ ih =>
    rcases ih with hds | ⟨ds, es, rfl, hds, hes⟩
    · exact .inl (List.forall_mem_cons.mpr ⟨hc, hds⟩)
    · exact .inr ⟨_ :: ds, es, rfl, List.forall_mem_cons.mpr ⟨hc, hds⟩, hes⟩
  | point h => exact .inr ⟨[], _, rfl, (fun _ hc => nomatch hc), h.digits⟩

theorem IsLiteral.numberTail {word : List Char} (h : IsLiteral word) : NumberTail false word := by
  cases h with
  | whole h => simpa using numberTail_digits h .nil
  | pointed h hes => exact numberTail_digits h (.point (by simpa using numberTail_digits hes .nil))
  | fraction h => exact .point (by simpa using numberTail_digits h .nil)

def startsNumber (c : Char) (cs : List Char) : Bool :=
  isDigit c || (c == '.' && startsWithDigit cs)

theorem IsLiteral.startsNumber {c : Char} {cs : List Char} (h : IsLiteral (c :: cs))
    (rest : List Char) : startsNumber c (cs ++ rest) = true := by
  generalize hword : c :: cs = word at h
  cases h with
  | whole h | pointed h =>
    cases hword
    simp [Reckoner.startsNumber, h c (by simp)]
  | @fraction d ds h =>
    cases hword
    simp [Reckoner.startsNumber, startsWithDigit, h d (by simp)]

theorem isLiteral_of_numberTail {c : Char} {cs rest : List Char} (h : NumberTail false (c :: cs))
    (hends : ∀ d ∈ rest.head?, isDigit d = false) (hstart : startsNumber c (cs ++ rest) = true) :
    IsLiteral (c :: cs) := by
  cases h with
  | digit hc h =>
    rcases h.whole_or_pointed with hds | ⟨ds, es, rfl, hds, hes⟩
    · exact .whole (List.forall_mem_cons.mpr ⟨hc, hds⟩)
    · exact .pointed (List.forall_mem_cons.mpr ⟨hc, hds⟩) hes
  | point h =>
    have hdigit : startsWithDigit (cs ++ rest) = true := by
      simpa [startsNumber, show isDigit '.' = false by decide] using hstart
    cases cs with
    | cons d cs => exact .fraction h.digits
    | nil =>
      cases rest with
      | nil => cases hdigit
      | cons d rest =>
        have hstop : isDigit d = false := hends d rfl
        rw [show isDigit d = true from hdigit] at hstop
        cases hstop

theorem takeNumber_numberTail {seenPoint : Bool} {word rest : List Char}
    (h : NumberTail seenPoint word) (hends : ∀ d ∈ rest.head?, isDigit d = false ∧ d ≠ '.')
    (p : Position) : takeNumber seenPoint p (word ++ rest) = .ok (word, rest) := by
  induction h generalizing p with
  | nil =>
    cases rest with
    | nil => rfl
    | cons d rest =>
      obtain ⟨hdigit, hpoint⟩ := hends d rfl
      rw [List.nil_append, takeNumber, if_neg (by simp [hdigit]), if_neg hpoint]
  | digit hc _ ih =>
    rw [List.cons_append, takeNumber, if_pos hc, ih]
    rfl
  | point _ ih =>
    rw [List.cons_append, takeNumber, if_neg (by decide), if_pos rfl, if_neg (by decide), ih]
    rfl

theorem IsLiteral.head {c : Char} {cs : List Char} (h : IsLiteral (c :: cs)) :
    isDigit c = true ∨ c = '.' := by
  have hstart := h.startsNumber []
  simp only [Reckoner.startsNumber, Bool.or_eq_true, Bool.and_eq_true, beq_iff_eq] at hstart
  exact hstart.imp id And.left

theorem IsLiteral.ne_nil {word : List Char} (h : IsLiteral word) : word ≠ [] := by
  cases h <;> simp

theorem takeNumber_secondPoint {seenPoint : Bool} {word : List Char} (h : NumberTail seenPoint word)
    (hpoint : seenPoint = true ∨ '.' ∈ word) (p : Position) (rest : List Char) :
    takeNumber seenPoint p (word ++ '.' :: rest) = .error ⟨.secondPoint, p.advance word⟩ := by
  induction h generalizing p with
  | nil =>
    obtain rfl := hpoint.resolve_right (by simp)
    rfl
  | @digit seenPoint c cs hc _ ih =>
    have hrest : seenPoint = true ∨ '.' ∈ cs :=
      hpoint.imp_right fun h => (List.mem_cons.mp h).resolve_left (ne_point_of_isDigit hc).symm
    rw [List.cons_append, takeNumber, if_pos hc, ih hrest]
    rfl
  | point _ ih =>
    rw [List.cons_append, takeNumber, if_neg (by decide), if_pos rfl, if_neg (by decide),
      ih (.inl rfl)]
    rfl

/-- Any text goes on as a number for some while: up to what cannot go on with one, or up to a second
point. -/
theorem numberTail_extent (seenPoint : Bool) (cs : List Char) :
    ∃ word rest, cs = word ++ rest ∧ NumberTail seenPoint word ∧
      ((∀ d ∈ rest.head?, isDigit d = false ∧ d ≠ '.') ∨
        rest.head? = some '.' ∧ (seenPoint = true ∨ '.' ∈ word)) := by
  induction cs generalizing seenPoint with
  | nil => exact ⟨[], [], rfl, .nil, .inl (fun _ hd => nomatch hd)⟩
  | cons c cs ih =>
    by_cases hdigit : isDigit c = true
    · obtain ⟨word, rest, rfl, htail, hends⟩ := ih seenPoint
      exact ⟨c :: word, rest, rfl, .digit hdigit htail,
        hends.imp_right (And.imp_right (Or.imp_right (List.mem_cons_of_mem c)))⟩
    · by_cases hpoint : c = '.'
      · subst hpoint
        cases seenPoint with
        | true => exact ⟨[], _, rfl, .nil, .inr ⟨rfl, .inl rfl⟩⟩
        | false =>
          obtain ⟨word, rest, rfl, htail, hends⟩ := ih true
          exact ⟨'.' :: word, rest, rfl, .point htail,
            hends.imp_right (And.imp_right fun _ => .inr List.mem_cons_self)⟩
      · refine ⟨[], c :: cs, rfl, .nil, .inl ?_⟩
        rintro d ⟨⟩
        exact ⟨by simpa using hdigit, hpoint⟩

/-- Where a number may start there is one, and it goes up to what cannot go on with it, or up to a
second point. -/
theorem literal_extent {c : Char} {cs : List Char} (hstart : startsNumber c cs = true) :
    ∃ word rest, c :: cs = word ++ rest ∧ IsLiteral word ∧
      ((∀ d ∈ rest.head?, isDigit d = false ∧ d ≠ '.') ∨ rest.head? = some '.' ∧ '.' ∈ word) := by
  obtain ⟨word, rest, hcs, htail, hends⟩ := numberTail_extent false (c :: cs)
  have hends : (∀ d ∈ rest.head?, isDigit d = false ∧ d ≠ '.') ∨
      rest.head? = some '.' ∧ '.' ∈ word :=
    hends.imp_right fun ⟨hpoint, hseen⟩ => ⟨hpoint, hseen.resolve_left (by decide)⟩
  have hdigit : ∀ d ∈ rest.head?, isDigit d = false := by
    intro d hd
    rcases hends with hends | ⟨hpoint, -⟩
    · exact (hends d hd).1
    · cases hpoint.symm.trans hd
      decide
  cases word with
  | nil =>
    obtain rfl : c :: cs = rest := hcs
    rcases hends with hends | ⟨-, hpoint⟩
    · obtain ⟨hdigit, hpoint⟩ := hends c rfl
      simp [startsNumber, hdigit, hpoint] at hstart
    · cases hpoint
  | cons d ds =>
    rw [List.cons_append] at hcs
    obtain ⟨rfl, rfl⟩ := List.cons.inj hcs
    exact ⟨c :: ds, rest, rfl, isLiteral_of_numberTail htail hdigit hstart, hends⟩

end Reckoner
