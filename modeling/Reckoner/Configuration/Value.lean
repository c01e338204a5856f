import Reckoner.Datum

namespace Reckoner

/-- A text that is no configuration, or an integer with more digits than an integer may have. -/
inductive ConfigurationError where
  | malformed
  | integerTooLong
deriving DecidableEq, Repr

def isGap (c : Char) : Bool :=
  c == ' ' || c == '\t'

def dropGap (cs : List Char) : List Char :=
  cs.dropWhile isGap

def isForbidden (c : Char) : Bool :=
  (c.toNat < 0x20 && c != '\t') || c.toNat == 0x7f

def hexValue? (c : Char) : Option Nat :=
  if '0' ≤ c ∧ c ≤ '9' then some (c.toNat - '0'.toNat)
  else if 'a' ≤ c ∧ c ≤ 'f' then some (c.toNat - 'a'.toNat + 10)
  else if 'A' ≤ c ∧ c ≤ 'F' then some (c.toNat - 'A'.toNat + 10)
  else none

def readDigits? (base : Nat) (cs : List Char) : Option Nat :=
  cs.foldlM (fun n c => (hexValue? c).bind fun d => if d < base then some (n * base + d) else none)
    0

/-- The character whose code point has exactly `width` hexadecimal digits at the front. -/
def takeCodePoint (width : Nat) (cs : List Char) : Option (Char × List Char) :=
  match readDigits? 16 (cs.take width) with
  | some n =>
    if width ≤ cs.length ∧ n.isValidChar then some (Char.ofNat n, cs.drop width) else none
  | none => none

/-- The escapes of one character after the backslash. -/
def simpleEscape? (c : Char) : Option Char :=
  if c = '"' ∨ c = '\\' then some c
  else if c = 'b' then some '\x08'
  else if c = 't' then some '\t'
  else if c = 'n' then some '\n'
  else if c = 'f' then some '\x0c'
  else if c = 'r' then some '\r'
  else none

def takeEscaped : List Char → Option (Char × List Char)
  | [] => none
  | c :: rest =>
    match simpleEscape? c with
    | some d => some (d, rest)
    | none =>
      if c = 'u' then takeCodePoint 4 rest
      else if c = 'U' then takeCodePoint 8 rest
      else none

theorem takeCodePoint_length {width : Nat} {cs rest : List Char} {c : Char}
    (h : takeCodePoint width cs = some (c, rest)) : rest.length ≤ cs.length := by
  unfold takeCodePoint at h
  split at h
  · split at h
    · cases h
      simp
    · cases h
  · cases h

theorem takeEscaped_length {cs rest : List Char} {c : Char}
    (h : takeEscaped cs = some (c, rest)) : rest.length < cs.length := by
  cases cs with
  | nil => cases h
  | cons d cs =>
    refine Nat.lt_succ_of_le ?_
    simp only [takeEscaped] at h
    split at h
    · cases h
      exact Nat.le_refl _
    · split at h
      · exact takeCodePoint_length h
      · split at h
        · exact takeCodePoint_length h
        · cases h

def takeString : List Char → Option (List Char × List Char)
  | [] => none
  | c :: cs =>
    if c = '"' then some ([], cs)
    else if c = '\\' then
      match h : takeEscaped cs with
      | none => none
      | some (d, rest) =>
        have := takeEscaped_length h
        (takeString rest).map fun (text, rest) => (d :: text, rest)
    else if isForbidden c then none
    else (takeString cs).map fun (text, rest) => (c :: text, rest)
termination_by cs => cs.length

def takeLiteral : List Char → Option (List Char × List Char)
  | [] => none
  | c :: cs =>
    if c = '\'' then some ([], cs)
    else if isForbidden c then none
    else (takeLiteral cs).map fun (text, rest) => (c :: text, rest)

def isKeyChar (c : Char) : Bool :=
  c.isAlphanum || c == '_' || c == '-'

def takeKey (cs : List Char) : Option (String × List Char) :=
  match cs with
  | '"' :: rest => (takeString rest).map fun (text, rest) => (String.ofList text, rest)
  | '\'' :: rest => (takeLiteral rest).map fun (text, rest) => (String.ofList text, rest)
  | _ =>
    match cs.takeWhile isKeyChar with
    | [] => none
    | key => some (String.ofList key, cs.dropWhile isKeyChar)

theorem takeString_length {cs text rest : List Char} (h : takeString cs = some (text, rest)) :
    rest.length < cs.length := by
  fun_induction takeString cs generalizing text rest with
  | case1 => cases h
  | case2 => cases h; exact Nat.lt_succ_self _
  | case3 => cases h
  | case4 cs _ d rest' he hlt ih =>
    obtain ⟨⟨_, _⟩, hr, he⟩ := Option.map_eq_some_iff.mp h
    cases he
    have := ih hr
    simp only [List.length_cons]
    omega
  | case5 => cases h
  | case6 c cs _ _ _ ih =>
    obtain ⟨⟨_, _⟩, hr, he⟩ := Option.map_eq_some_iff.mp h
    cases he
    exact Nat.lt_succ_of_lt (ih hr)

theorem takeLiteral_length {cs text rest : List Char} (h : takeLiteral cs = some (text, rest)) :
    rest.length < cs.length := by
  induction cs generalizing text rest with
  | nil => cases h
  | cons c cs ih =>
    simp only [takeLiteral] at h
    split at h
    · cases h
      exact Nat.lt_succ_self _
    · split at h
      · cases h
      · obtain ⟨⟨_, _⟩, hr, he⟩ := Option.map_eq_some_iff.mp h
        cases he
        exact Nat.lt_succ_of_lt (ih hr)

theorem takeKey_length {cs rest : List Char} {key : String}
    (h : takeKey cs = some (key, rest)) : rest.length < cs.length := by
  unfold takeKey at h
  split at h
  · obtain ⟨⟨_, _⟩, hr, he⟩ := Option.map_eq_some_iff.mp h
    cases he
    exact Nat.lt_succ_of_lt (takeString_length hr)
  · obtain ⟨⟨_, _⟩, hr, he⟩ := Option.map_eq_some_iff.mp h
    cases he
    exact Nat.lt_succ_of_lt (takeLiteral_length hr)
  · split at h
    · cases h
    next key hne =>
      cases h
      have hlen := congrArg List.length (List.takeWhile_append_dropWhile (p := isKeyChar) (l := cs))
      have hpos : 0 < (cs.takeWhile isKeyChar).length := List.length_pos_iff.mpr hne
      rw [List.length_append] at hlen
      omega

/-- What follows a word, if a text starts with it. -/
def afterWord? (word : String) (cs : List Char) : Option (List Char) :=
  if word.toList.isPrefixOf cs then some (cs.drop word.length) else none

/-- Digits to a base with single low lines between them; the first character is no low line. -/
def takeDigits (base : Nat) : List Char → List Char × List Char
  | [] => ([], [])
  | c :: cs =>
    if (readDigits? base [c]).isSome then
      match cs with
      | '_' :: d :: rest =>
        if (readDigits? base [d]).isSome then
          let (digits, rest) := takeDigits base (d :: rest)
          (c :: digits, rest)
        else ([c], cs)
      | cs =>
        let (digits, rest) := takeDigits base cs
        (c :: digits, rest)
    else ([], c :: cs)

def takeBased (cs : List Char) : Option (Datum × List Char) :=
  let read := fun base rest =>
    match takeDigits base rest with
    | ([], _) => none
    | (digits, rest) => (readDigits? base digits).map fun n => (Datum.integer n, rest)
  match cs with
  | '0' :: 'x' :: rest => read 16 rest
  | '0' :: 'o' :: rest => read 8 rest
  | '0' :: 'b' :: rest => read 2 rest
  | _ => none

/-- The digits before the point: a zero, or digits that start with none. -/
def takeWhole (cs : List Char) : List Char × List Char :=
  match cs with
  | '0' :: rest => (['0'], rest)
  | _ => takeDigits 10 cs

def takeDecimals (cs : List Char) : Option (List Char) × List Char :=
  match cs with
  | '.' :: rest =>
    match takeDigits 10 rest with
    | ([], _) => (none, cs)
    | (digits, rest) => (some digits, rest)
  | _ => (none, cs)

/-- An exponent, where its mark is followed by digits. -/
def takeExponent (cs : List Char) : Option Int × List Char :=
  match cs with
  | mark :: rest =>
    if mark = 'e' ∨ mark = 'E' then
      let (negative, rest) := takeSign rest
      match takeDigits 10 rest with
      | ([], _) => (none, cs)
      | (digits, rest) => (some (withSign negative (Nat.ofDigitChars 10 digits 0)), rest)
    else (none, cs)
  | [] => (none, cs)

/-- A number as it is written to base ten: the digits before the point, those after it and the
exponent, each of the last two only where there is one. -/
structure Numeral where
  negative : Bool
  whole : List Char
  decimals : Option (List Char)
  exponent : Option Int

def takeNumeral (cs : List Char) : Option (Numeral × List Char) :=
  let (negative, body) := takeSign cs
  match takeWhole body with
  | ([], _) => none
  | (whole, rest) =>
    let (decimals, rest) := takeDecimals rest
    let (exponent, rest) := takeExponent rest
    some (⟨negative, whole, decimals, exponent⟩, rest)

/-- An integer, or the nearest float where there are decimals or an exponent. -/
def Numeral.value (n : Numeral) : Except ConfigurationError Datum :=
  let decimals := n.decimals.getD []
  let coefficient := Nat.ofDigitChars 10 (n.whole ++ decimals) 0
  if n.decimals.isSome || n.exponent.isSome then
    let exponent := n.exponent.getD 0 - decimals.length
    .ok (.double (ExtendedDouble.ofScientific n.negative coefficient exponent))
  else if n.whole.length ≤ maxIntegerDigits then
    .ok (.integer (withSign n.negative coefficient))
  else .error .integerTooLong

def takeSpecial (cs : List Char) : Option (Datum × List Char) :=
  let (negative, body) := takeSign cs
  match afterWord? "inf" body, afterWord? "nan" body with
  | some rest, _ => some (.double (.infinite negative), rest)
  | none, some rest => some (.double .notANumber, rest)
  | none, none => none

/-- An opening bracket with nothing but its closing one after it. -/
def takeEmptyArray (cs : List Char) : Option (Datum × List Char) :=
  match cs with
  | '[' :: rest =>
    match dropGap rest with
    | ']' :: rest => some (.foreign "list", rest)
    | _ => none
  | _ => none

def takeTruth (cs : List Char) : Option (Datum × List Char) :=
  match afterWord? "true" cs, afterWord? "false" cs with
  | some rest, _ => some (.boolean true, rest)
  | none, some rest => some (.boolean false, rest)
  | none, none => none

def takeText (cs : List Char) : Option (Datum × List Char) :=
  match cs with
  | '"' :: rest => (takeString rest).map fun (text, rest) => (.text (String.ofList text), rest)
  | '\'' :: rest => (takeLiteral rest).map fun (text, rest) => (.text (String.ofList text), rest)
  | _ => none

def takeValue (cs : List Char) : Except ConfigurationError (Datum × List Char) :=
  match (takeText cs).or ((takeTruth cs).or ((takeEmptyArray cs).or (takeBased cs))) with
  | some found => .ok found
  | none =>
    match takeNumeral cs, takeSpecial cs with
    | some (numeral, rest), _ => numeral.value.map fun d => (d, rest)
    | none, some found => .ok found
    | none, none => .error .malformed

end Reckoner
