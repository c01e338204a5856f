import Mathlib.Data.List.DropRight
import Mathlib.Data.List.Induction
import Reckoner.Proofs.Lexemes

namespace Reckoner

/-- A place in a text says by its line how many line feeds come before it, and by its column how
many characters have come since the last of them. -/
structure Position.In (text : List Char) (p : Position) : Prop where
  inside : p.offset ≤ text.length
  line : p.line = 1 + (text.take p.offset).count '\n'
  column : p.column = 1 + ((text.take p.offset).rtakeWhile (· != '\n')).length

def Span.slice (span : Span) (text : List Char) : List Char :=
  (text.take span.stop.offset).drop span.start.offset

/-- A token stands in a text where its span says, and means what it is written as. -/
structure Token.Stands (text : List Char) (token : Token) : Prop where
  start : token.span.start.In text
  stop : token.span.stop.In text
  forward : token.span.start.offset ≤ token.span.stop.offset
  slice : token.span.slice text = token.raw.toList
  value : token.value.toList = plainSpelling token.raw.toList

def Span.contains (span : Span) (i : ℕ) : Prop :=
  span.start.offset ≤ i ∧ i < span.stop.offset

/-- From an offset on, the tokens stand in a text one after another, and the rest of it is blank. -/
structure Covers (first : ℕ) (text : List Char) (tokens : List Token) : Prop where
  stands : ∀ token ∈ tokens, token.Stands text
  after : ∀ token ∈ tokens, first ≤ token.span.start.offset
  ordered : tokens.Pairwise fun a b => a.span.stop.offset ≤ b.span.start.offset
  blank : ∀ i, first ≤ i → (hi : i < text.length) →
    (∀ token ∈ tokens, ¬ token.span.contains i) → isBlank text[i] = true

/-- There is one end of the input, which comes last and is an empty span at the end of the text; the
tokens before it are words. -/
def EndsOnce (text : List Char) (tokens : List Token) : Prop :=
  ∃ body last, tokens = body ++ [last] ∧
    (∀ token ∈ body, token.kind ≠ .endOfInput ∧ WrittenAs token.kind token.raw.toList) ∧
    last.kind = .endOfInput ∧ last.raw = "" ∧ last.span.start = last.span.stop ∧
    last.span.stop.offset = text.length

theorem advance_start (cs : List Char) :
    Position.start.advance cs =
      ⟨1 + cs.count '\n', 1 + (cs.rtakeWhile (· != '\n')).length, cs.length⟩ := by
  induction cs using List.reverseRecOn with
  | nil => rfl
  | append_singleton cs c ih =>
    rw [advance_append, ih]
    by_cases hc : c = '\n'
    · subst hc
      simp [Position.advance, Position.next, List.rtakeWhile_concat_neg, Nat.add_assoc]
    · simp [Position.advance, Position.next, hc, List.rtakeWhile_concat_pos, Nat.add_assoc]

@[simp]
theorem offset_advance (cs : List Char) : (Position.start.advance cs).offset = cs.length := by
  rw [advance_start]

@[simp] theorem offset_advance_from (p : Position) (cs : List Char) :
    (p.advance cs).offset = p.offset + cs.length := by
  induction cs generalizing p with
  | nil => rfl
  | cons c cs ih =>
    have hnext : (p.next c).offset = p.offset + 1 := by
      unfold Position.next
      split <;> rfl
    rw [Position.advance, List.foldl_cons, ← Position.advance, ih, hnext, List.length_cons]
    omega

theorem in_of_advance (cs rest : List Char) : (Position.start.advance cs).In (cs ++ rest) := by
  rw [advance_start]
  exact ⟨by simp, by simp, by simp⟩

theorem Covers.skip_blank {first : ℕ} {text : List Char} {tokens : List Token}
    (hfirst : first < text.length) (hblank : isBlank text[first] = true)
    (h : Covers (first + 1) text tokens) : Covers first text tokens where
  stands := h.stands
  after := fun token ht => Nat.le_of_succ_le (h.after token ht)
  ordered := h.ordered
  blank := by
    intro i hi hlt houtside
    rcases Nat.eq_or_lt_of_le hi with rfl | hi
    · exact hblank
    · exact h.blank i hi hlt houtside

theorem Covers.cons {first : ℕ} {text : List Char} {token : Token} {tokens : List Token}
    (hstands : token.Stands text) (hfirst : token.span.start.offset = first)
    (h : Covers token.span.stop.offset text tokens) : Covers first text (token :: tokens) where
  stands := List.forall_mem_cons.mpr ⟨hstands, h.stands⟩
  after := by
    subst hfirst
    refine List.forall_mem_cons.mpr ⟨le_rfl, fun t ht => ?_⟩
    exact hstands.forward.trans (h.after t ht)
  ordered := List.pairwise_cons.mpr ⟨h.after, h.ordered⟩
  blank := by
    intro i hi hlt houtside
    obtain ⟨hnot, hothers⟩ := List.forall_mem_cons.mp houtside
    refine h.blank i ?_ hlt hothers
    by_contra hbefore
    exact hnot ⟨hfirst ▸ hi, Nat.lt_of_not_le hbefore⟩

theorem Covers.stop (text : List Char) :
    Covers text.length text [.at .endOfInput [] [] (Position.start.advance text)] where
  stands := by
    have hplaced : (Position.start.advance text).In text := by
      simpa using in_of_advance text []
    rintro token ht
    rw [List.mem_singleton.mp ht]
    refine ⟨hplaced, hplaced, le_rfl, ?_, rfl⟩
    simp [Span.slice, Position.advance]
  after := by
    rintro token ht
    rw [List.mem_singleton.mp ht]
    exact (offset_advance text).ge
  ordered := List.pairwise_singleton _ _
  blank := fun i hi hlt => absurd hlt (Nat.not_lt.mpr hi)

theorem span_wordToken (done word : List Char) (kind : TokenKind) :
    (wordToken kind word (Position.start.advance done)).span =
      ⟨Position.start.advance done, Position.start.advance (done ++ word)⟩ := by
  rw [advance_append]
  rfl

theorem stands_of_word (done word rest : List Char) (kind : TokenKind) :
    (wordToken kind word (Position.start.advance done)).Stands (done ++ word ++ rest) where
  start := by
    rw [span_wordToken, List.append_assoc]
    exact in_of_advance done (word ++ rest)
  stop := by
    rw [span_wordToken]
    exact in_of_advance (done ++ word) rest
  forward := by
    rw [span_wordToken]
    simp
  slice := by
    rw [span_wordToken, Span.slice, offset_advance, offset_advance, List.take_left,
      List.drop_left]
    simp [wordToken]
  value := by
    simp [wordToken]

/-- The tokens of a text cover it from where the part of it starts that is still to be read. -/
theorem Lexes.covers {p : Position} {cs : List Char} {tokens : List Token} (h : Lexes p cs tokens)
    (done : List Char) (hp : p = Position.start.advance done) :
    Covers done.length (done ++ cs) tokens := by
  induction h generalizing done with
  | stop p =>
    rw [hp, List.append_nil]
    exact .stop done
  | @blank p c cs tokens hblank _ ih =>
    have hrest := ih (done ++ [c]) (by rw [advance_append, ← hp]; rfl)
    rw [List.append_assoc, List.length_append] at hrest
    exact hrest.skip_blank (by simp) (by simpa using hblank)
  | @word p kind word rest tokens hword hends _ ih =>
    have hrest := ih (done ++ word) (by rw [advance_append, ← hp])
    subst hp
    rw [← List.append_assoc]
    refine .cons (stands_of_word done word rest kind) ?_ ?_
    · rw [span_wordToken, offset_advance]
    · rwa [span_wordToken, offset_advance]

theorem WrittenAs.inner {word : List Char} : ¬ WrittenAs .endOfInput word := by
  rintro ⟨⟩

theorem Lexes.endsOnce {cs : List Char} {tokens : List Token} (h : Lexes .start cs tokens) :
    EndsOnce cs tokens := by
  obtain ⟨body, rfl, hbody⟩ := h.body
  refine ⟨body, _, rfl, fun token ht => ?_, rfl, rfl, rfl, offset_advance cs⟩
  obtain ⟨kind, word, q, hword, rfl⟩ := hbody token ht
  have hraw : (wordToken kind word q).raw.toList = word := String.toList_ofList
  refine ⟨?_, by rwa [hraw]⟩
  rintro rfl
  exact hword.inner

/-- Where a scan succeeds, its tokens cover the text: they stand in it in their order, where their
spans say, all else is blank, and the end of the input is the last of them. Where it fails, the
error stands at a character of the text, and the text before it is covered by the tokens of its own
scan, up to a number that was started, if any. -/
theorem tokenize_covers (source : String) :
    match tokenize source with
    | .ok tokens => Covers 0 source.toList tokens ∧ EndsOnce source.toList tokens
    | .error e => e.position.In source.toList ∧ e.position.offset < source.length ∧
      ∃ before word tokens, source.toList.take e.position.offset = before ++ word ∧
        tokenize (String.ofList before) = .ok tokens ∧ Covers 0 before tokens ∧
        EndsOnce before tokens ∧ (word = [] ∨ IsLiteral word) := by
  cases h : tokenize source with
  | ok tokens =>
    have hlexes : Lexes .start source.toList tokens := scan_eq_ok_iff.mp h
    exact ⟨hlexes.covers [] rfl, hlexes.endsOnce⟩
  | error e =>
    obtain ⟨before, word, after, tokens, hsource, hafter, hlexes, hword, hposition⟩ :=
      (scan_eq_error_iff.mp h).read
    simp only [← String.length_toList, hsource, hposition]
    refine ⟨in_of_advance _ _, ?_, before, word, tokens, ?_, ?_,
      hlexes.covers [] rfl, hlexes.endsOnce, hword⟩
    · have hlength : (before ++ word ++ after).length = (before ++ word).length + after.length :=
        List.length_append
      rw [offset_advance, hlength]
      exact Nat.lt_add_of_pos_right (List.length_pos_iff.mpr hafter)
    · rw [offset_advance, List.take_left]
    · exact tokenize_of_lexes String.toList_ofList hlexes

end Reckoner
