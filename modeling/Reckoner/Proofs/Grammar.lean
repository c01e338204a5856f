import Reckoner.Expression
import Reckoner.Proofs.Results

namespace Reckoner

inductive BinarySign where
  | plus
  | minus
  | times
  | over
  | power
deriving DecidableEq, Repr

def BinarySign.text : BinarySign → String
  | .plus => "+"
  | .minus => "-"
  | .times => "*"
  | .over => "/"
  | .power => "^"

def Token.IsSign (token : Token) (text : String) : Prop :=
  token.kind = .operator ∧ token.value = text

instance (token : Token) (text : String) : Decidable (token.IsSign text) :=
  inferInstanceAs (Decidable (_ ∧ _))

/-- An expression. Its nodes keep the tokens they are written with; of the parentheses only the one
that closes a call is kept, and of the signs before an operand only the minus. -/
inductive Tree where
  | number (token : Token) (isNumber : token.kind = .number)
  | name (token : Token) (isName : token.kind = .identifier)
  | negation (sign : Token) (isMinus : sign.IsSign "-") (operand : Tree)
  | factorial (sign : Token) (isMark : sign.IsSign "!") (operand : Tree)
  | binary (op : BinarySign) (sign : Token) (isOp : sign.IsSign op.text) (left right : Tree)
  | call (callee closing : Token) (isName : callee.kind = .identifier)
      (isClosing : closing.kind = .closeParen) (args : List Tree)

mutual

/-- The nodes of a tree, each after its operands. A minus sign becomes a negation, and a call goes
from its name to its closing parenthesis and carries the number of its arguments. -/
@[simp] def Tree.postorder : Tree → List Token
  | .number token _ => [token]
  | .name token _ => [token]
  | .negation sign _ operand =>
    operand.postorder ++ [⟨.negation, "neg", sign.raw, sign.span, 0⟩]
  | .factorial sign _ operand => operand.postorder ++ [sign]
  | .binary _ sign _ left right => left.postorder ++ right.postorder ++ [sign]
  | .call callee closing _ _ args =>
    postorders args ++
      [⟨.call, callee.value, callee.raw, ⟨callee.span.start, closing.span.stop⟩, args.length⟩]

@[simp] def postorders : List Tree → List Token
  | [] => []
  | tree :: trees => tree.postorder ++ postorders trees

end

@[simp] theorem postorders_append (trees others : List Tree) :
    postorders (trees ++ others) = postorders trees ++ postorders others := by
  induction trees with
  | nil => rfl
  | cons tree trees ih =>
    rw [List.cons_append, postorders, postorders, ih, List.append_assoc]

theorem postorders_concat (trees : List Tree) (tree : Tree) :
    postorders (trees ++ [tree]) = postorders trees ++ tree.postorder := by
  simp

/-- The levels of the grammar, from the loosest to the tightest. -/
inductive Level where
  | sum
  | product
  | signed
  | power
  | marked
  | primary
deriving DecidableEq, Repr

def Level.rank : Level → Nat
  | .sum => 0
  | .product => 1
  | .signed => 2
  | .power => 3
  | .marked => 4
  | .primary => 5

/-- The level of an operation written with a sign between its operands. -/
def BinarySign.level : BinarySign → Level
  | .plus => .sum
  | .minus => .sum
  | .times => .product
  | .over => .product
  | .power => .power

def BinarySign.leftLevel : BinarySign → Level
  | .plus => .sum
  | .minus => .sum
  | .times => .product
  | .over => .product
  | .power => .marked

def BinarySign.rightLevel : BinarySign → Level
  | .plus => .product
  | .minus => .product
  | .times => .signed
  | .over => .signed
  | .power => .signed

mutual

/-- The token lists that spell a tree at a level. What spells it at a tighter level may stand at a
looser one; an operand in parentheses is primary whatever it holds. -/
inductive Spells (lenient : Bool) : Level → List Token → Tree → Prop
  | number (token : Token) (h : token.kind = .number) :
      Spells lenient .primary [token] (.number token h)
  | name (token : Token) (h : token.kind = .identifier) :
      Spells lenient .primary [token] (.name token h)
  | group {opening closing : Token} {ts : List Token} {tree : Tree} :
      opening.kind = .openParen → closing.kind = .closeParen → Spells lenient .sum ts tree →
      Spells lenient .primary (opening :: ts ++ [closing]) tree
  | emptyCall {callee opening closing : Token} {signs : List Token}
      (h : callee.kind = .identifier) (hc : closing.kind = .closeParen) :
      opening.kind = .openParen → (∀ sign ∈ signs, lenient = true ∧ sign.IsSign "+") →
      Spells lenient .primary (callee :: opening :: signs ++ [closing])
        (.call callee closing h hc [])
  | call {callee opening closing : Token} {ts us : List Token} {args : List Tree} {last : Tree}
      (h : callee.kind = .identifier) (hc : closing.kind = .closeParen) :
      opening.kind = .openParen → SpellsArguments lenient ts args → Spells lenient .sum us last →
      Spells lenient .primary (callee :: opening :: ts ++ us ++ [closing])
        (.call callee closing h hc (args ++ [last]))
  | factorial {sign : Token} {ts : List Token} {tree : Tree} (h : sign.IsSign "!") :
      Spells lenient .marked ts tree →
      Spells lenient .marked (ts ++ [sign]) (.factorial sign h tree)
  | binary (op : BinarySign) {sign : Token} {ts us : List Token} {left right : Tree}
      (h : sign.IsSign op.text) :
      Spells lenient op.leftLevel ts left → Spells lenient op.rightLevel us right →
      Spells lenient op.level (ts ++ sign :: us) (.binary op sign h left right)
  | negation {sign : Token} {ts : List Token} {tree : Tree} (h : sign.IsSign "-") :
      Spells lenient .signed ts tree → Spells lenient .signed (sign :: ts) (.negation sign h tree)
  | plus {sign : Token} {ts : List Token} {tree : Tree} :
      sign.IsSign "+" → Spells lenient .signed ts tree → Spells lenient .signed (sign :: ts) tree
  | loosen {level tight : Level} {ts : List Token} {tree : Tree} :
      level.rank ≤ tight.rank → Spells lenient tight ts tree → Spells lenient level ts tree

/-- The arguments of a call but the last one, each with the comma after it. -/
inductive SpellsArguments (lenient : Bool) : List Token → List Tree → Prop
  | nil : SpellsArguments lenient [] []
  | concat {ts us : List Token} {args : List Tree} {tree : Tree} {comma : Token} :
      SpellsArguments lenient ts args → Spells lenient .sum us tree → comma.kind = .comma →
      SpellsArguments lenient (ts ++ us ++ [comma]) (args ++ [tree])

end

/-- A token that neither ends the input nor assigns. -/
def Token.Inner (token : Token) : Prop :=
  token.kind ≠ .endOfInput ∧ ¬ token.IsSign "="

theorem Token.inner_of_kind {token : Token} {kind : TokenKind} (hk : token.kind = kind)
    (hstop : kind ≠ .endOfInput) (hsign : kind ≠ .operator) : token.Inner :=
  ⟨by rw [hk]; exact hstop, fun h => hsign (hk.symm.trans h.1)⟩

theorem Token.IsSign.inner {token : Token} {text : String} (h : token.IsSign text)
    (ht : text ≠ "=") : token.Inner :=
  ⟨by rw [h.1]; decide, fun ha => ht (h.2.symm.trans ha.2)⟩

mutual

theorem Spells.inner {lenient : Bool} {level : Level} {ts : List Token} {tree : Tree} :
    Spells lenient level ts tree → ∀ token ∈ ts, token.Inner
  | .number _ h => by
    intro token ht
    rw [List.mem_singleton.mp ht]
    exact Token.inner_of_kind h (by decide) (by decide)
  | .name _ h => by
    intro token ht
    rw [List.mem_singleton.mp ht]
    exact Token.inner_of_kind h (by decide) (by decide)
  | .group ho hc hs => by
    intro token ht
    simp only [List.cons_append, List.mem_cons, List.mem_append, List.not_mem_nil, or_false] at ht
    rcases ht with rfl | ht | rfl
    · exact Token.inner_of_kind ho (by decide) (by decide)
    · exact hs.inner token ht
    · exact Token.inner_of_kind hc (by decide) (by decide)
  | .emptyCall hn hc ho hsigns => by
    intro token ht
    simp only [List.cons_append, List.mem_cons, List.mem_append, List.not_mem_nil, or_false] at ht
    rcases ht with rfl | rfl | ht | rfl
    · exact Token.inner_of_kind hn (by decide) (by decide)
    · exact Token.inner_of_kind ho (by decide) (by decide)
    · exact (hsigns token ht).2.inner (by decide)
    · exact Token.inner_of_kind hc (by decide) (by decide)
  | .call hn hc ho ha hs => by
    intro token ht
    simp only [List.cons_append, List.mem_cons, List.mem_append, List.not_mem_nil, or_false] at ht
    rcases ht with rfl | rfl | (ht | ht) | rfl
    · exact Token.inner_of_kind hn (by decide) (by decide)
    · exact Token.inner_of_kind ho (by decide) (by decide)
    · exact ha.inner token ht
    · exact hs.inner token ht
    · exact Token.inner_of_kind hc (by decide) (by decide)
  | .factorial hsign hs => by
    intro token ht
    rcases List.mem_append.mp ht with hl | hr
    · exact hs.inner token hl
    · rw [List.mem_singleton.mp hr]
      exact hsign.inner (by decide)
  | .binary op hsign hl hr => by
    intro token ht
    rcases List.mem_append.mp ht with h | h
    · exact hl.inner token h
    · rcases List.mem_cons.mp h with rfl | h
      · exact hsign.inner (by cases op <;> decide)
      · exact hr.inner token h
  | .negation hsign hs => by
    intro token ht
    rcases List.mem_cons.mp ht with rfl | h
    · exact hsign.inner (by decide)
    · exact hs.inner token h
  | .plus hsign hs => by
    intro token ht
    rcases List.mem_cons.mp ht with rfl | h
    · exact hsign.inner (by decide)
    · exact hs.inner token h
  | .loosen _ hs => hs.inner

theorem SpellsArguments.inner {lenient : Bool} {ts : List Token} {args : List Tree} :
    SpellsArguments lenient ts args → ∀ token ∈ ts, token.Inner
  | .nil => by simp
  | .concat ha hs hc => by
    intro token ht
    simp only [List.mem_append, List.mem_singleton] at ht
    rcases ht with (ht | ht) | rfl
    · exact ha.inner token ht
    · exact hs.inner token ht
    · exact Token.inner_of_kind hc (by decide) (by decide)

end

theorem Spells.ne_nil {lenient : Bool} {level : Level} {ts : List Token} {tree : Tree} :
    Spells lenient level ts tree → ts ≠ []
  | .number _ _ => by simp
  | .name _ _ => by simp
  | .group _ _ _ => by simp
  | .emptyCall _ _ _ _ => by simp
  | .call _ _ _ _ _ => by simp
  | .factorial _ _ => by simp
  | .binary _ _ _ _ => by simp
  | .negation _ _ => by simp
  | .plus _ _ => by simp
  | .loosen _ hs => hs.ne_nil

/-- A token of the first line that stands for what it is written as. -/
def Token.written (kind : TokenKind) (text : String) (offset : Nat) : Token :=
  .at kind text.toList text.toList ⟨1, offset + 1, offset⟩

theorem exists_spellsArguments {lenient : Bool} {args : List Tree} :
    ∀ {read : List Tree}, (∃ ts, SpellsArguments lenient ts read) →
      (∀ tree ∈ args, ∃ ts, Spells lenient .primary ts tree) →
      ∃ ts, SpellsArguments lenient ts (read ++ args) := by
  induction args with
  | nil =>
    intro read hread _
    simpa using hread
  | cons tree args ih =>
    intro read ⟨ts, hread⟩ hargs
    obtain ⟨us, htree⟩ := hargs tree (by simp)
    have hnext : SpellsArguments lenient (ts ++ us ++ [.written .comma "," 0]) (read ++ [tree]) :=
      .concat hread (.loosen (by decide) htree) rfl
    have hrest := ih ⟨_, hnext⟩ (fun t ht => hargs t (List.mem_cons_of_mem _ ht))
    simpa using hrest

theorem Spells.primary_group {lenient : Bool} {level : Level} {ts : List Token} {tree : Tree}
    (h : Spells lenient level ts tree) :
    Spells lenient .primary (.written .openParen "(" 0 :: ts ++ [.written .closeParen ")" 0])
      tree :=
  .group rfl rfl (.loosen (Nat.zero_le _) h)

mutual

/-- Every tree has a spelling: one with all its operands in parentheses. -/
theorem exists_spells (lenient : Bool) :
    ∀ tree : Tree, ∃ ts, Spells lenient .primary ts tree
  | .number token hk => ⟨[token], .number token hk⟩
  | .name token hk => ⟨[token], .name token hk⟩
  | .negation sign hs operand => by
    obtain ⟨ts, h⟩ := exists_spells lenient operand
    exact ⟨_, (Spells.negation hs (.loosen (by decide) h)).primary_group⟩
  | .factorial sign hs operand => by
    obtain ⟨ts, h⟩ := exists_spells lenient operand
    exact ⟨_, (Spells.factorial hs (.loosen (by decide) h)).primary_group⟩
  | .binary op sign hs left right => by
    obtain ⟨ts, hl⟩ := exists_spells lenient left
    obtain ⟨us, hr⟩ := exists_spells lenient right
    exact ⟨_, (Spells.binary op hs (.loosen (by cases op <;> decide) hl)
      (.loosen (by cases op <;> decide) hr)).primary_group⟩
  | .call callee closing hn hc args => by
    have hargs := exists_spells_all lenient args
    rcases List.eq_nil_or_concat args with rfl | ⟨first, last, rfl⟩
    · have hempty : Spells lenient .primary (callee :: .written .openParen "(" 0 :: [] ++ [closing])
          (.call callee closing hn hc []) := .emptyCall hn hc rfl (by simp)
      exact ⟨_, hempty⟩
    · rw [List.concat_eq_append] at hargs ⊢
      obtain ⟨us, hlast⟩ := hargs last (by simp)
      obtain ⟨ts, hfirst⟩ := exists_spellsArguments ⟨[], SpellsArguments.nil⟩
        (fun tree ht => hargs tree (List.mem_append_left _ ht))
      have hcall : Spells lenient .primary
          (callee :: .written .openParen "(" 0 :: ts ++ us ++ [closing])
          (.call callee closing hn hc (first ++ [last])) :=
        .call hn hc rfl hfirst (.loosen (by decide) hlast)
      exact ⟨_, hcall⟩

theorem exists_spells_all (lenient : Bool) :
    ∀ (trees : List Tree), ∀ tree ∈ trees, ∃ ts, Spells lenient .primary ts tree
  | [] => by simp
  | first :: rest => by
    intro tree ht
    rcases List.mem_cons.mp ht with heq | ht
    · rw [heq]
      exact exists_spells lenient first
    · exact exists_spells_all lenient rest tree ht

end

/-- Whole inputs: an expression, or a name, an assignment sign and an expression, and then the end
of the input. -/
inductive Sentence (lenient : Bool) : List Token → Option Token → Tree → Prop
  | expression {ts : List Token} {tree : Tree} {stop : Token} :
      Spells lenient .sum ts tree → stop.kind = .endOfInput →
      Sentence lenient (ts ++ [stop]) none tree
  | assignment {name sign stop : Token} {ts : List Token} {tree : Tree} :
      name.kind = .identifier → sign.IsSign "=" → Spells lenient .sum ts tree →
      stop.kind = .endOfInput →
      Sentence lenient (name :: sign :: ts ++ [stop]) (some name) tree

end Reckoner
