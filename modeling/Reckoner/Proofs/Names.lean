import Reckoner.Proofs.Exactness
import Reckoner.Proofs.Resolution

namespace Reckoner

/-- The scanner reads a text as one identifier, whose value is the whole text. -/
def ReadAsName (name : String) : Prop :=
  ∃ word stop, tokenize name = .ok [word, stop] ∧ word.kind = .identifier ∧ word.value = name ∧
    stop.kind = .endOfInput

section
variable {s : Session} {name : String} {value : Datum} {x : Number}

theorem isName_iff : isName name = true ↔ ReadAsName name := by
  constructor
  · intro h
    unfold isName at h
    split at h
    · cases h
    next c cs hchars =>
      obtain ⟨hc, hall⟩ := Bool.and_eq_true_iff.mp h
      have hcs : ∀ d ∈ cs, isNameChar d = true :=
        fun d hd => List.all_eq_true.mp hall d (List.mem_cons_of_mem _ hd)
      have hlexes : Lexes .start ((c :: cs) ++ []) _ :=
        .word (.identifier hc hcs) (endsBefore_nil .identifier) (.stop _)
      rw [List.append_nil] at hlexes
      refine ⟨_, _, tokenize_of_lexes hchars hlexes, rfl, ?_, rfl⟩
      rw [wordToken, plainSpelling_identifier cs hc, ← hchars]
      exact String.ofList_toList
  · rintro ⟨word, stop, htokens, hkind, rfl, _⟩
    exact ((tokenize_shape htokens).scanned (by simp) (by rw [hkind]; decide)).name hkind

theorem set_refused_iff :
    (∃ refused, s.set name value = .error (.invalidName refused)) ↔ isName name = false := by
  unfold Session.set
  cases hname : isName name with
  | true =>
    cases Number.ofDatum value <;> simp
  | false => simp

/-- A variable is read back under its name, before a constant of this name. -/
theorem resolve_name (hp : s.precision ≤ maxPrecision) (hname : isName name = true)
    (hbound : s.get? name = some x) : s.resolve name = .ok (s, x) := by
  obtain ⟨word, stop, htokens, hkind, hvalue, hstop⟩ := isName_iff.mp hname
  have hsentence : Sentence false ([word] ++ [stop]) none (.name word hkind) :=
    .expression (.loosen (by decide) (.name word hkind)) hstop
  refine resolve_of_eval hp htokens hsentence ?_
  have hlookup : s.environment.lookup word.value = some x := by rw [hvalue]; exact hbound
  simp only [Tree.eval, hlookup]

end

/-- Nothing but names is bound. -/
def Session.Named (s : Session) : Prop :=
  ∀ name ∈ s.bindings.map Prod.fst, isName name = true

section
variable {s s' : Session} {name : String} {x : Number}

theorem Session.Named.bound (h : s.Named) (hbound : s.get? name = some x) :
    isName name = true := by
  by_contra hname
  have hnone : s.get? name = none := Table.get?_eq_none fun hmem => hname (h name hmem)
  rw [hbound] at hnone
  cases hnone

theorem Session.Named.store {subject : Option String} (h : s.Named)
    (hsubject : ∀ name ∈ subject, isName name = true) (value : Option Number) :
    (s.store subject value).Named := by
  match subject, value with
  | none, _ => exact h
  | some subject, some x =>
    intro name hname
    rcases Table.mem_keys_set.mp hname with rfl | hname
    · exact hsubject name rfl
    · exact h name hname
  | some subject, none =>
    exact fun name hname => h name (((s.bindings.erase_sublist subject).map Prod.fst).subset hname)

theorem set_named {value : Datum} (h : s.set name value = .ok (s', x)) :
    isName name = true := by
  by_contra hname
  rw [Session.set, if_neg hname] at h
  cases h

theorem target_named {source : String} {e : Expression} (h : Expression.parse source = .ok e) :
    ∀ name ∈ e.target.map Token.value, isName name = true := by
  intro name hname
  obtain ⟨target, htarget, rfl⟩ := Option.map_eq_some_iff.mp hname
  obtain ⟨tokens, tree, htokens, hsentence, _⟩ := sentence_of_parse h
  rw [htarget] at hsentence
  exact target_isName (tokenize_shape htokens) hsentence

theorem setAll_named {bindings : List (String × Datum)} (hs : s.Named)
    (h : s.setAll bindings = .ok s') : s'.Named := by
  induction bindings generalizing s with
  | nil =>
    cases h
    exact hs
  | cons entry rest ih =>
    obtain ⟨name, value⟩ := entry
    rw [Session.setAll] at h
    split at h
    next next x hset =>
      refine ih ?_ h
      rw [set_eq_store hset]
      exact hs.store (by simpa using set_named hset) _
    · cases h

theorem create_named {precision : Int} {bindings : List (String × Datum)}
    (h : Session.create precision bindings = .ok s) : s.Named := by
  unfold Session.create at h
  split at h
  · cases h
  · exact setAll_named (by simp [Session.Named]) h

end

section
variable {desk next : Desk} {action : Action}

/-- A step that succeeds binds a name, or unsets one that was bound. -/
theorem subject_named (hsound : desk.Sound) (hnamed : desk.session.Named) {reply : Reply}
    (h : desk.act action = (next, .ok reply)) :
    ∀ name ∈ desk.subject? action, isName name = true := by
  cases action with
  | set name value =>
    rw [Desk.act] at h
    split at h
    next s x hset => simpa [Desk.subject?] using set_named hset
    · cases h
  | unset name =>
    rw [Desk.act, Session.unset] at h
    split at h
    next s hunset =>
      split at hunset
      next hhas =>
        obtain ⟨x, hx⟩ := Option.isSome_iff_exists.mp hhas
        simpa [Desk.subject?] using hnamed.bound hx
      · cases hunset
    · cases h
  | process source => simp [Desk.subject?]
  | run index =>
    intro name hname
    obtain ⟨e, he, hname⟩ := Option.bind_eq_some_iff.mp hname
    exact target_named (hsound.parsed e (List.mem_of_getElem? he)) name hname
  | resolve source =>
    intro name hname
    rw [Desk.subject?] at hname
    split at hname
    next e hparse => exact target_named hparse name hname
    · cases hname

theorem act_named (hsound : desk.Sound) (h : desk.session.Named) (action : Action) :
    (desk.act action).1.session.Named := by
  cases hact : desk.act action with
  | mk next result =>
    cases result with
    | error failure =>
      rw [act_error hact]
      exact h
    | ok reply =>
      rw [(act_ok hact).1]
      exact h.store (subject_named hsound h hact) _

theorem after_named (hsound : desk.Sound) (h : desk.session.Named) (history : List Action) :
    (desk.after history).session.Named := by
  induction history generalizing desk with
  | nil => exact h
  | cons action rest ih => exact ih (act_sound hsound) (act_named hsound h action)

end

/-- A value can be set under exactly the texts that are read as one name. What was set under it is
read back, and the same holds of all that is bound after any history of a session, in every session
of a precision that decimal arithmetic allows. The value of a processed expression can always be
stored under its target. -/
theorem names_read_back :
    (∀ (s : Session) (name : String) (value : Datum),
      (∃ refused, s.set name value = .error (.invalidName refused)) ↔ ¬ ReadAsName name) ∧
    (∀ (s : Session) (name : String) (value : Datum) (x : Number),
      s.precision ≤ maxPrecision → ReadAsName name → Number.ofDatum value = .ok x →
      ∃ s', s.set name value = .ok (s', x) ∧ s'.resolve name = .ok (s', x)) ∧
    (∀ (precision : Int) (bindings : List (String × Datum)) (s : Session) (history : List Action),
      Session.create precision bindings = .ok s → s.precision ≤ maxPrecision →
      let now := ((⟨s, []⟩ : Desk).after history).session
      ∀ name x, now.get? name = some x → now.resolve name = .ok (now, x)) ∧
    ∀ (s : Session) (source : String) (e : Expression) (x : Number),
      Expression.parse source = .ok e → s.evaluate e = .ok x → ∃ s', s.run e = .ok (s', x) := by
  refine ⟨fun s name value => ?_, fun s name value x hp hname hx => ?_,
    fun precision bindings s history hcreate hp name x hbound => ?_,
    fun s source e x hparse hvalue => ?_⟩
  · rw [set_refused_iff, ← isName_iff, Bool.not_eq_true]
  · have hname := isName_iff.mpr hname
    refine ⟨_, set_coerced hname hx s, resolve_name ?_ hname ?_⟩
    · rw [store_precision]
      exact hp
    · exact (Table.get?_set s.bindings name name x).trans (if_pos rfl)
  · have hsound : (⟨s, []⟩ : Desk).Sound := create_sound hcreate
    have hnamed := after_named hsound (create_named hcreate) history
    refine resolve_name ?_ (hnamed.bound hbound) hbound
    rw [after_precision]
    exact hp
  · obtain ⟨s', hassign⟩ := assign_accepted hparse s x
    refine ⟨s', ?_⟩
    simp only [Session.run, hvalue, hassign]

/-- A session in which a variable hides a constant. -/
def hidingSession : Session :=
  ⟨28, [("pi", .natural 3)]⟩

def successor : Expression :=
  ⟨"pi = pi + 1", [.written .identifier "pi" 5, .written .number "1" 10,
    .written .operator "+" 8], some (.written .identifier "pi" 0)⟩

theorem hidingSession_read_back :
    hidingSession.precision ≤ maxPrecision ∧ ReadAsName "sin" ∧
      (∃ s, hidingSession.set "sin" (.integer 2) = .ok (s, .natural 2) ∧
        s.resolve "sin" = .ok (s, .natural 2)) ∧
      Session.create 28 [("pi", .integer 3)] = .ok hidingSession ∧
      (let now := ((⟨hidingSession, []⟩ : Desk).after [.resolve "pi = pi + 1"]).session
       now.resolve "pi" = .ok (now, .natural 4)) ∧
      Expression.parse "pi = pi + 1" = .ok successor ∧
      hidingSession.evaluate successor = .ok (.natural 4) ∧
      ∃ s, hidingSession.run successor = .ok (s, .natural 4) := by
  have hp : hidingSession.precision ≤ maxPrecision := by decide
  have hname : ReadAsName "sin" := isName_iff.mp (by decide)
  have hcreate : Session.create 28 [("pi", .integer 3)] = .ok hidingSession := rfl
  have hbound : ((⟨hidingSession, []⟩ : Desk).after [.resolve "pi = pi + 1"]).session.get? "pi" =
      some (.natural 4) := by decide +kernel
  have hparse : Expression.parse "pi = pi + 1" = .ok successor := by decide +kernel
  have hvalue : hidingSession.evaluate successor = .ok (.natural 4) :=
    eq_ok_of_toOption (by decide +kernel)
  obtain ⟨_, hset, hafter, hstore⟩ := names_read_back
  exact ⟨hp, hname, hset hidingSession "sin" (.integer 2) _ hp hname rfl, hcreate,
    hafter _ _ _ _ hcreate hp "pi" _ hbound, hparse, hvalue, hstore _ _ _ _ hparse hvalue⟩

/-- A session that is created with a precision beyond the largest one binds a name and cannot read
it. -/
theorem wideSession_forgets :
    Session.create 1000000000000000000 [] = .ok ⟨1000000000000000000, []⟩ ∧
      ReadAsName "x" ∧
      (⟨1000000000000000000, []⟩ : Session).set "x" (.integer 1) =
        .ok (⟨1000000000000000000, [("x", .natural 1)]⟩, .natural 1) ∧
      (⟨1000000000000000000, [("x", .natural 1)]⟩ : Session).resolve "x" =
        .error (.evaluation (.fault .precisionTooLarge)) := by
  have hparse : Expression.parse "x" = .ok ⟨"x", [.written .identifier "x" 0], none⟩ := by
    decide +kernel
  refine ⟨rfl, isName_iff.mp (by decide), rfl, ?_⟩
  rw [Session.resolve, hparse]
  rfl

end Reckoner
