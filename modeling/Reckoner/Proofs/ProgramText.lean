import Reckoner.Proofs.Blame
import Reckoner.Proofs.Printing
import Reckoner.Proofs.Relocation

namespace Reckoner

/-- A node without its place, and without the text that it was written as. -/
def Token.bare (node : Token) : Token :=
  ⟨node.kind, node.value, "", ⟨.start, .start⟩, node.argc⟩

section
variable {a b : Token} {stack : List Number}

theorem applyUnary_spelled (hspan : a.span = b.span) (f : Number → Except NumericError Number)
    (h : 1 ≤ stack.length) : applyUnary a f stack = applyUnary b f stack := by
  match stack, h with
  | x :: stack, _ => simp only [applyUnary, hspan]

theorem applyBinary_spelled (hspan : a.span = b.span)
    (f : Number → Number → Except NumericError Number) (h : 2 ≤ stack.length) :
    applyBinary a f stack = applyBinary b f stack := by
  match stack, h with
  | y :: x :: stack, _ => simp only [applyBinary, hspan]

theorem applyCall_spelled (hspan : a.span = b.span) (hvalue : a.value = b.value)
    (hargc : a.argc = b.argc) (h : a.argc ≤ stack.length) :
    applyCall a stack = applyCall b stack := by
  unfold applyCall
  rw [← hvalue, ← hargc, ← hspan]
  cases findBuiltin? a.value with
  | none => rfl
  | some builtin =>
    simp only
    split
    · rfl
    next harity =>
      rw [not_not.mp harity, Builtin.arity] at h
      cases hrule : builtin.rule with
      | unary f =>
        rw [hrule] at h
        exact applyUnary_spelled hspan f h
      | binary f =>
        rw [hrule] at h
        exact applyBinary_spelled hspan f h

theorem step_bare {env : Environment} {node : Token} (hn : node.IsNode)
    (h : node.takes ≤ stack.length) :
    env.step node.bare stack = (env.step node stack).mapError (EvaluationError.moved .forget) := by
  have hkind : node.bare.kind = (node.moved .forget).kind := rfl
  have hvalue : node.bare.value = (node.moved .forget).value := rfl
  have hspan : node.bare.span = (node.moved .forget).span := rfl
  rw [← step_moved]
  unfold Token.takes at h
  unfold Environment.step
  rw [hkind, hvalue, moved_kind, moved_value]
  cases hn with
  | number hk => simp only [hk]
  | name hk => simp only [hk]; rfl
  | negation hk =>
    simp only [hk] at h ⊢
    exact applyUnary_spelled hspan _ h
  | call hk =>
    simp only [hk] at h ⊢
    exact applyCall_spelled hspan rfl rfl h
  | factorial hs =>
    simp only [hs.1, if_pos hs.2] at h ⊢
    exact applyUnary_spelled hspan _ h
  | binary op hs =>
    have hmark : node.value ≠ "!" := by
      rw [hs.2]
      cases op <;> decide
    simp only [hs.1, if_neg hmark] at h ⊢
    cases binaryOperation? env.precision node.value with
    | none => rfl
    | some f => exact applyBinary_spelled hspan f h

theorem execute_bare {env : Environment} {program : List Token} {depth : Nat}
    (hnodes : ∀ node ∈ program, node.IsNode) (hd : depthAfter? stack.length program = some depth) :
    env.execute (program.map Token.bare) stack =
      (env.execute program stack).mapError (EvaluationError.moved .forget) := by
  induction program generalizing stack with
  | nil => rfl
  | cons node rest ih =>
    rw [depthAfter?] at hd
    split at hd
    next htakes =>
      have hnode : node.IsNode := hnodes node (by simp)
      have hyields : Yields _ (env.step node stack) := step_yields hnode htakes
      rw [List.map_cons, execute_cons, execute_cons, step_bare hnode htakes]
      cases hnext : env.step node stack with
      | error e => rfl
      | ok next =>
        rw [hnext] at hyields
        have hlen : next.length = stack.length - node.takes + 1 := hyields
        rw [← hlen] at hd
        exact ih (fun n hn => hnodes n (List.mem_cons_of_mem _ hn)) hd
    next => cases hd

/-- What a balanced program is run to depends on its bare nodes only, but for the place of an
error. -/
theorem evaluate_bare {program : List Token} {depth : Nat}
    (hnodes : ∀ node ∈ program, node.IsNode) (hd : depthAfter? 0 program = some depth)
    (env : Environment) :
    env.evaluate (program.map Token.bare) =
      (env.evaluate program).mapError (EvaluationError.moved .forget) := by
  have hrun : env.execute (program.map Token.bare) [] =
      (env.execute program []).mapError (EvaluationError.moved .forget) := execute_bare hnodes hd
  unfold Environment.evaluate
  rw [hrun]
  match env.execute program [] with
  | .error e => rfl
  | .ok [] => rfl
  | .ok [x] => rfl
  | .ok (_ :: _ :: _) => rfl

end

inductive Token.Legible (node : Token) : Prop
  | number (hk : node.kind = .number) (h : IsLiteral node.value.toList) (hargc : node.argc = 0)
  | name (hk : node.kind = .identifier) (h : isName node.value = true) (hargc : node.argc = 0)
  | negation (hk : node.kind = .negation) (h : node.value = negationKey) (hargc : node.argc = 0)
  | call (hk : node.kind = .call) (h : isName node.value = true)
  | sign (hk : node.kind = .operator) {c : Char} (hc : c ∈ operatorSigns)
      (h : node.value = String.ofList [c]) (hargc : node.argc = 0)

/-- A bare node as its word shows it: a negation looks like a variable. -/
def Token.shown (node : Token) : Token :=
  ⟨if node.kind = .negation then .identifier else node.kind, node.value, "", ⟨.start, .start⟩,
    node.argc⟩

/-- The kind of node that a word shows, from its first letter on. -/
def shownKind : List Char → TokenKind
  | [] => .endOfInput
  | c :: cs =>
    if isLetter c then if '/' ∈ cs then .call else .identifier
    else if isDigit c || c == '.' then .number
    else .operator

/-- Reads a word: a call has its number of arguments behind a slash, any other node has none. -/
def readWord (word : List Char) : Token :=
  if shownKind word = .call then
    ⟨.call, String.ofList (word.takeWhile (· ≠ '/')), "", ⟨.start, .start⟩,
      Nat.ofDigitChars 10 ((word.dropWhile (· ≠ '/')).drop 1) 0⟩
  else ⟨shownKind word, String.ofList word, "", ⟨.start, .start⟩, 0⟩

theorem isName_chars {name : String} (h : isName name = true) :
    ∃ c cs, name.toList = c :: cs ∧ isLetter c = true ∧ ∀ d ∈ name.toList, isNameChar d = true := by
  unfold isName at h
  split at h
  · cases h
  next c cs hname =>
    rw [Bool.and_eq_true, List.all_eq_true] at h
    exact ⟨c, cs, hname, h.1, by rw [hname]; exact h.2⟩

theorem slash_not_mem_name {name : String} (h : isName name = true) : '/' ∉ name.toList := by
  obtain ⟨_, _, _, _, hall⟩ := isName_chars h
  exact fun hmem => absurd (hall '/' hmem) (by decide)

section
variable {node : Token}

theorem toList_word_call (hk : node.kind = .call) :
    node.word.toList = node.value.toList ++ '/' :: natChars node.argc := by
  simp [Token.word, hk, intText, intChars]

@[simp] theorem word_other (hk : node.kind ≠ .call) : node.word = node.value := by
  rw [Token.word, if_neg hk]

@[simp] theorem shownKind_name {name : String} (h : isName name = true) :
    shownKind name.toList = .identifier := by
  obtain ⟨c, cs, hname, hc, _⟩ := isName_chars h
  have hslash := slash_not_mem_name h
  rw [hname] at hslash ⊢
  rw [shownKind, if_pos hc, if_neg fun hmem => hslash (List.mem_cons_of_mem _ hmem)]

theorem readWord_plain (hk : node.kind ≠ .call) (hargc : node.argc = 0)
    (hkind : shownKind node.value.toList = node.shown.kind) :
    readWord node.word.toList = node.shown := by
  have hshown : node.shown.kind ≠ .call := by
    simp only [Token.shown]
    split
    · decide
    · exact hk
  rw [word_other hk, readWord, hkind, if_neg hshown, String.ofList_toList, Token.shown, hargc]

@[simp]
theorem shownKind_literal {word : List Char} (h : IsLiteral word) : shownKind word = .number := by
  obtain ⟨c, cs, rfl⟩ := List.exists_cons_of_ne_nil h.ne_nil
  have hletter : ¬ isLetter c = true := by
    rcases h.head with hc | rfl
    · simp [isLetter_of_isDigit hc]
    · decide
  have hstart : (isDigit c || c == '.') = true := by simpa using h.head
  rw [shownKind, if_neg hletter, if_pos hstart]

@[simp] theorem shownKind_sign {c : Char} (h : c ∈ operatorSigns) : shownKind [c] = .operator := by
  simp only [operatorSigns, List.mem_cons, List.not_mem_nil, or_false] at h
  rcases h with rfl | rfl | rfl | rfl | rfl | rfl | rfl <;> decide

theorem readWord_call {name : String} (h : isName name = true) (argc : Nat) :
    readWord (name.toList ++ '/' :: natChars argc) =
      ⟨.call, name, "", ⟨.start, .start⟩, argc⟩ := by
  have hkind : shownKind (name.toList ++ '/' :: natChars argc) = .call := by
    obtain ⟨c, cs, hname, hc, _⟩ := isName_chars h
    rw [hname, List.cons_append, shownKind, if_pos hc, if_pos (by simp)]
  have hname : ∀ c ∈ name.toList, decide (c ≠ '/') = true := by
    intro c hc
    simp only [decide_eq_true_eq]
    rintro rfl
    exact slash_not_mem_name h hc
  rw [readWord, if_pos hkind, List.takeWhile_append_of_pos hname, List.dropWhile_append_of_pos hname]
  simp

theorem Token.Legible.readWord (h : node.Legible) : readWord node.word.toList = node.shown := by
  cases h with
  | number hk h hargc =>
    exact readWord_plain (by simp [hk]) hargc (by simp [Token.shown, hk, h])
  | name hk h hargc =>
    exact readWord_plain (by simp [hk]) hargc (by simp [Token.shown, hk, h])
  | negation hk h hargc =>
    have hname : shownKind node.value.toList = .identifier := shownKind_name (by rw [h]; decide)
    exact readWord_plain (by simp [hk]) hargc (by simp [Token.shown, hk, hname])
  | call hk h =>
    rw [toList_word_call hk, readWord_call h, Token.shown]
    simp [hk]
  | sign hk hc h hargc =>
    exact readWord_plain (by simp [hk]) hargc (by simp [Token.shown, hk, h, hc])

theorem Token.Legible.not_blank (h : node.Legible) : ' ' ∉ node.word.toList := by
  have hblank : isBlank ' ' = true := by decide
  have hname : ∀ {name : String}, isName name = true → ' ' ∉ name.toList := by
    intro name hn hmem
    obtain ⟨_, _, _, _, hall⟩ := isName_chars hn
    exact absurd (hall ' ' hmem) (by decide)
  cases h with
  | number hk h hargc =>
    intro hmem
    rw [word_other (by simp [hk])] at hmem
    rw [h.not_blank ' ' hmem] at hblank
    cases hblank
  | name hk h hargc =>
    simpa [hk] using hname h
  | negation hk h hargc =>
    have hkey : ' ' ∉ negationKey.toList := by decide
    simpa [hk, h] using hkey
  | call hk h =>
    rw [toList_word_call hk]
    intro hmem
    rcases List.mem_append.mp hmem with hmem | hmem
    · exact hname h hmem
    rcases List.mem_cons.mp hmem with hslash | hmem
    · cases hslash
    · exact absurd (isPlainDigit_of_mem_natChars hmem) (by decide)
  | @sign hk c hc h hargc =>
    have hne : ' ' ≠ c := by
      rintro rfl
      exact absurd hc (by decide)
    simp [hk, h, hne]

end

/-- The nodes of a program that its text shows. -/
def readText (text : String) : List Token :=
  (text.toList.splitOn ' ').map readWord

/-- The text of a program can be read back, but for the difference of negations and variables. -/
theorem readText_programText {program : List Token} (hne : program ≠ [])
    (h : ∀ node ∈ program, node.Legible) :
    readText (programText program) = program.map Token.shown := by
  have hwords : ∀ word ∈ (program.map Token.word).map String.toList, ' ' ∉ word := by
    intro word hword
    simp only [List.mem_map] at hword
    obtain ⟨_, ⟨node, hnode, rfl⟩, rfl⟩ := hword
    exact (h node hnode).not_blank
  rw [readText, programText, String.toList_intercalate,
    show " ".toList = [' '] from rfl, List.splitOn_intercalate ' ' hwords (by simpa using hne),
    List.map_map, List.map_map]
  exact List.map_congr_left fun node hnode => (h node hnode).readWord

theorem Token.IsNode.not_punctuation {node : Token} (h : node.IsNode) :
    node.kind ≠ .openParen ∧ node.kind ≠ .closeParen ∧ node.kind ≠ .comma ∧
      node.kind ≠ .endOfInput := by
  cases h with
  | number hk | name hk | negation hk | call hk => simp [hk]
  | factorial hs => simp [hs.1]
  | binary op hs => simp [hs.1]

theorem WrittenAs.legible {kind : TokenKind} {word : List Char} (h : WrittenAs kind word)
    (p : Position) (hn : (wordToken kind word p).IsNode) : (wordToken kind word p).Legible := by
  have hscanned := h.scanned p
  obtain ⟨hopen, hclose, hcomma, _⟩ := hn.not_punctuation
  cases h with
  | number h =>
    refine .number rfl ?_ rfl
    rw [wordToken, plainSpelling_literal h]
    simpa using h
  | identifier hc hcs => exact .name rfl (hscanned.name rfl) rfl
  | operator hc =>
    obtain ⟨sign, hsign, hvalue⟩ := hscanned.sign rfl
    exact .sign rfl hsign hvalue rfl
  | openParen => exact absurd rfl hopen
  | closeParen => exact absurd rfl hclose
  | comma => exact absurd rfl hcomma

section
variable {source : String} {e : Expression}

theorem balanced_of_parse (h : Expression.parse source = .ok e) :
    (∀ node ∈ e.program, node.IsNode) ∧ depthAfter? 0 e.program = some 1 := by
  obtain ⟨_, tree, _, _, hprogram⟩ := sentence_of_parse h
  have hdepth := depthAfter_postorder tree 0 []
  rw [List.append_nil] at hdepth
  rw [hprogram]
  exact ⟨isNode_of_mem_postorder tree, hdepth⟩

theorem legible_of_parse (h : Expression.parse source = .ok e) :
    ∀ node ∈ e.program, node.Legible := by
  intro node hnode
  have hisNode := (balanced_of_parse h).1 node hnode
  obtain ⟨tokens, tree, htokens, hsentence, hprogram⟩ := sentence_of_parse h
  rw [hprogram] at hnode
  cases hsentence.nodes node hnode with
  | token hmem =>
    obtain ⟨body, rfl, hbody⟩ := (scan_eq_ok_iff.mp htokens).body
    rcases List.mem_append.mp hmem with hmem | hmem
    · obtain ⟨kind, word, p, hword, rfl⟩ := hbody node hmem
      exact hword.legible p hisNode
    · rw [List.mem_singleton.mp hmem] at hisNode
      exact absurd rfl hisNode.not_punctuation.2.2.2
  | negation => exact .negation rfl rfl rfl
  | @call before inside after callee opening closing args htext hn =>
    have hcallee : callee ∈ tokens := by simp [htext]
    exact .call rfl (((tokenize_shape htokens).scanned hcallee (by rw [hn]; decide)).name hn)

end

def Token.isNegation (node : Token) : Bool :=
  node.kind == .negation

def Token.isNamesake (node : Token) : Bool :=
  node.kind == .identifier && node.value == negationKey

theorem sum_takes {program : List Token} {depth final : Nat}
    (h : depthAfter? depth program = some final) :
    (program.map Token.takes).sum + final = depth + program.length := by
  induction program generalizing depth with
  | nil =>
    cases h
    simp
  | cons node rest ih =>
    rw [depthAfter?] at h
    split at h
    next htakes =>
      have hrest := ih h
      rw [List.map_cons, List.sum_cons, List.length_cons]
      omega
    next => cases h

theorem takes_shown (node : Token) :
    node.takes = node.shown.takes + if node.isNegation then 1 else 0 := by
  cases hk : node.kind <;> simp [Token.takes, Token.shown, Token.isNegation, hk]

theorem sum_takes_shown (program : List Token) :
    (program.map Token.takes).sum =
      ((program.map Token.shown).map Token.takes).sum + program.countP Token.isNegation := by
  induction program with
  | nil => rfl
  | cons node rest ih =>
    simp only [List.map_cons, List.sum_cons, List.countP_cons, ih, takes_shown node]
    omega

theorem countP_shown {program : List Token} (h : ∀ node ∈ program, node.Legible) :
    (program.map Token.shown).countP Token.isNamesake =
      program.countP Token.isNegation + program.countP Token.isNamesake := by
  induction program with
  | nil => rfl
  | cons node rest ih =>
    have hnode : (if node.shown.isNamesake then 1 else 0) =
        (if node.isNegation then 1 else 0) + if node.isNamesake then 1 else 0 := by
      cases h node (by simp) with
      | negation hk hv _ => simp [Token.isNamesake, Token.isNegation, Token.shown, hk, hv]
      | number hk | name hk | call hk | sign hk =>
        simp [Token.isNamesake, Token.isNegation, Token.shown, hk]
    rw [List.map_cons, List.countP_cons, List.countP_cons, List.countP_cons, hnode,
      ih fun n hn => h n (List.mem_cons_of_mem _ hn)]
    omega

theorem ne_nil_of_depth {program : List Token} (h : depthAfter? 0 program = some 1) :
    program ≠ [] := by
  rintro rfl
  cases h

section
variable {p q : List Token}

/-- The balance of a program tells how many of its nodes are negations. -/
theorem countP_isNegation (hshown : p.map Token.shown = q.map Token.shown)
    (hp : depthAfter? 0 p = some 1) (hq : depthAfter? 0 q = some 1) :
    p.countP Token.isNegation = q.countP Token.isNegation := by
  have hlength : p.length = q.length := by simpa using congrArg List.length hshown
  -- Each negation takes one operand more than the variable that it looks like.
  have hsum := sum_takes hp
  have hsum' := sum_takes hq
  rw [sum_takes_shown] at hsum hsum'
  rw [hshown] at hsum
  omega

theorem kind_of_shown {node : Token} (h : node.Legible) (hnone : node.isNamesake = false) :
    node.kind = if node.shown.isNamesake then .negation else node.shown.kind := by
  cases h with
  | negation hk hv _ => simp [Token.isNamesake, Token.shown, hk, hv]
  | name hk =>
    have hv : node.value ≠ negationKey := by simpa [Token.isNamesake, hk] using hnone
    simp [Token.isNamesake, Token.shown, hk, hv]
  | number hk | call hk | sign hk => simp [Token.isNamesake, Token.shown, hk]

/-- A program without negations, or without a variable that is named like them, has the same kinds
of nodes as any other program of its text. -/
theorem kinds_of_shown (hshown : p.map Token.shown = q.map Token.shown)
    (hp : ∀ node ∈ p, node.Legible) (hq : ∀ node ∈ q, node.Legible)
    (hcount : p.countP Token.isNegation = q.countP Token.isNegation)
    (h : p.countP Token.isNegation = 0 ∨ p.countP Token.isNamesake = 0) :
    p.map Token.kind = q.map Token.kind := by
  -- All words `neg` show variables in the first case, and negations in the second.
  rcases h with hnone | hnone
  · have plain : ∀ {r : List Token}, r.countP Token.isNegation = 0 →
        r.map Token.kind = (r.map Token.shown).map Token.kind := by
      intro r hr
      rw [List.map_map]
      refine List.map_congr_left fun node hnode => ?_
      have hk : ¬ node.kind = .negation := by
        simpa [Token.isNegation] using List.countP_eq_zero.mp hr node hnode
      exact (if_neg hk).symm
    have hother : q.countP Token.isNegation = 0 := hcount.symm.trans hnone
    rw [plain hnone, plain hother, hshown]
  · have hother : q.countP Token.isNamesake = 0 := by
      have hp' := countP_shown hp
      have hq' := countP_shown hq
      rw [hshown] at hp'
      omega
    have named : ∀ {r : List Token}, (∀ node ∈ r, node.Legible) →
        r.countP Token.isNamesake = 0 → r.map Token.kind = (r.map Token.shown).map
          fun node => if node.isNamesake then .negation else node.kind := by
      intro r hr hzero
      rw [List.map_map]
      refine List.map_congr_left fun node hnode => kind_of_shown (hr node hnode) ?_
      simpa using List.countP_eq_zero.mp hzero node hnode
    rw [named hp hnone, named hq hother, hshown]

theorem bare_of_shown (hshown : p.map Token.shown = q.map Token.shown)
    (hkinds : p.map Token.kind = q.map Token.kind) : p.map Token.bare = q.map Token.bare := by
  have paired : ∀ r : List Token, r.map Token.bare =
      ((r.map Token.kind).zip (r.map Token.shown)).map fun (kind, node) => { node with kind } := by
    intro r
    rw [List.zip_map', List.map_map]
    rfl
  rw [paired p, paired q, hshown, hkinds]

end

/-- Two programs of the same text, both of accepted texts, differ in nothing that the words show,
and in no more than which of the words `neg` are negations: there are equally many in both. Unless
both negations and a variable of that name are in one of them, these are the same words; and where
they are, the programs have the same value or the same error with every precision and all
variables, whose place may be another one. -/
theorem text_determines_value {source other : String} {e f : Expression}
    (he : Expression.parse source = .ok e) (hf : Expression.parse other = .ok f)
    (htext : programText e.program = programText f.program) :
    e.program.map Token.shown = f.program.map Token.shown ∧
    e.program.countP Token.isNegation = f.program.countP Token.isNegation ∧
    (e.program.countP Token.isNegation = 0 ∨ e.program.countP Token.isNamesake = 0 →
      e.program.map Token.kind = f.program.map Token.kind) ∧
    (e.program.map Token.kind = f.program.map Token.kind → ∀ env : Environment,
      (env.evaluate e.program).mapError (EvaluationError.moved .forget) =
        (env.evaluate f.program).mapError (EvaluationError.moved .forget)) := by
  obtain ⟨hnodes, hdepth⟩ := balanced_of_parse he
  obtain ⟨hnodes', hdepth'⟩ := balanced_of_parse hf
  have hread := readText_programText (ne_nil_of_depth hdepth) (legible_of_parse he)
  have hread' := readText_programText (ne_nil_of_depth hdepth') (legible_of_parse hf)
  have hshown : e.program.map Token.shown = f.program.map Token.shown := by
    rw [← hread, ← hread', htext]
  have hcount := countP_isNegation hshown hdepth hdepth'
  refine ⟨hshown, hcount,
    kinds_of_shown hshown (legible_of_parse he) (legible_of_parse hf) hcount, ?_⟩
  intro hkinds env
  rw [← evaluate_bare hnodes hdepth, ← evaluate_bare hnodes' hdepth', bare_of_shown hshown hkinds]

def writtenProduct : Expression :=
  ⟨"-x×2",
   [.written .identifier "x" 1, (Token.written .operator "-" 0).toNegation,
    .written .number "2" 3, .at .operator ['*'] ['×'] ⟨1, 3, 2⟩], none⟩

def spacedProduct : Expression :=
  ⟨"y = (-x) * 2",
   [.written .identifier "x" 6, (Token.written .operator "-" 5).toNegation,
    .written .number "2" 11, .written .operator "*" 9], some (.written .identifier "y" 0)⟩

theorem writtenProduct_determined :
    Expression.parse "-x×2" = .ok writtenProduct ∧
      Expression.parse "y = (-x) * 2" = .ok spacedProduct ∧
      programText writtenProduct.program = programText spacedProduct.program ∧
      ∀ env : Environment,
        (env.evaluate writtenProduct.program).mapError (EvaluationError.moved .forget) =
          (env.evaluate spacedProduct.program).mapError (EvaluationError.moved .forget) := by
  have hwritten : Expression.parse "-x×2" = .ok writtenProduct :=
    eq_ok_of_toOption (by decide +kernel)
  have hspaced : Expression.parse "y = (-x) * 2" = .ok spacedProduct :=
    eq_ok_of_toOption (by decide +kernel)
  have htext : programText writtenProduct.program = programText spacedProduct.program := by
    decide +kernel
  obtain ⟨_, _, hkinds, hvalue⟩ := text_determines_value hwritten hspaced htext
  exact ⟨hwritten, hspaced, htext, hvalue (hkinds (.inr (by decide)))⟩

def namesakeEnvironment : Environment :=
  (⟨defaultPrecision, [("neg", .natural 1)]⟩ : Session).environment

/-- With a variable `neg` and a negation, two texts whose programs have the same text can have
different values. -/
theorem namesake_misleads :
    ∃ e f, Expression.parse "neg - -neg" = .ok e ∧ Expression.parse "-neg - neg" = .ok f ∧
      programText e.program = "neg neg neg -" ∧ programText f.program = "neg neg neg -" ∧
      namesakeEnvironment.evaluate e.program = .ok (.natural 2) ∧
      namesakeEnvironment.evaluate f.program = .ok (.natural (-2)) := by
  refine ⟨⟨"neg - -neg", [.written .identifier "neg" 0, .written .identifier "neg" 7,
      (Token.written .operator "-" 6).toNegation, .written .operator "-" 4], none⟩,
    ⟨"-neg - neg", [.written .identifier "neg" 1, (Token.written .operator "-" 0).toNegation,
      .written .identifier "neg" 7, .written .operator "-" 5], none⟩,
    eq_ok_of_toOption (by decide +kernel), eq_ok_of_toOption (by decide +kernel), rfl, rfl,
    eq_ok_of_toOption (by decide +kernel), eq_ok_of_toOption (by decide +kernel)⟩

end Reckoner
