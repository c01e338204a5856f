import Reckoner.Proofs.History
import Reckoner.Proofs.TreeEvaluation

namespace Reckoner

/-- The names that a program looks up; the names of calls are none of them. -/
def namesRead (program : List Token) : List String :=
  (program.filter fun token => token.kind = .identifier).map Token.value

theorem mem_namesRead_of_mem {program : List Token} {token : Token} (h : token ∈ program)
    (hk : token.kind = .identifier) : token.value ∈ namesRead program :=
  List.mem_map.mpr ⟨token, List.mem_filter.mpr ⟨h, decide_eq_true hk⟩, rfl⟩

section
variable {env other : Environment}

theorem step_reads (hp : env.precision = other.precision) {token : Token}
    (h : token.kind = .identifier → env.lookup token.value = other.lookup token.value)
    (stack : List Number) : env.step token stack = other.step token stack := by
  unfold Environment.step
  rw [hp]
  split
  next => rfl
  next hk =>
    have hvalue : env.value? token.value = other.value? token.value := by
      unfold Environment.value?
      rw [h hk]
    rw [hvalue]
  all_goals rfl

theorem execute_reads (hp : env.precision = other.precision) {program : List Token}
    (h : ∀ name ∈ namesRead program, env.lookup name = other.lookup name) (stack : List Number) :
    env.execute program stack = other.execute program stack := by
  induction program generalizing stack with
  | nil => rfl
  | cons token rest ih =>
    have hstep := step_reads hp (fun hk => h _ (mem_namesRead_of_mem List.mem_cons_self hk)) stack
    have hrest : ∀ name ∈ namesRead rest, env.lookup name = other.lookup name := by
      intro name hname
      obtain ⟨read, hmem, rfl⟩ := List.mem_map.mp hname
      obtain ⟨hmem, hk⟩ := List.mem_filter.mp hmem
      exact h _ (mem_namesRead_of_mem (List.mem_cons_of_mem _ hmem) (of_decide_eq_true hk))
    rw [execute_cons, execute_cons, hstep]
    cases other.step token stack with
    | error e => rfl
    | ok next => exact ih hrest next

theorem evaluate_reads (hp : env.precision = other.precision) {program : List Token}
    (h : ∀ name ∈ namesRead program, env.lookup name = other.lookup name) :
    env.evaluate program = other.evaluate program := by
  unfold Environment.evaluate
  rw [execute_reads hp h]

end

/-- What a resolution returns, apart from what it leaves behind. -/
def Session.outcome (s : Session) (e : Expression) : Except ResolveError Number :=
  (s.run e).map Prod.snd

/-- The session that a resolution leaves behind, whether or not it fails. -/
def Session.after (s : Session) (e : Expression) : Session :=
  match s.run e with
  | .ok (next, _) => next
  | .error _ => s

def Expression.targetName? (e : Expression) : Option String :=
  e.target.map Token.value

/-- Neither expression reads what the other one assigns, and they do not assign the same name. -/
structure Independent (e f : Expression) : Prop where
  targets : ∀ name, e.targetName? = some name → f.targetName? ≠ some name
  first : ∀ name, e.targetName? = some name → name ∉ namesRead f.program
  second : ∀ name, f.targetName? = some name → name ∉ namesRead e.program

theorem Independent.symm {e f : Expression} (h : Independent e f) : Independent f e :=
  ⟨fun name hf he => h.targets name he hf, h.second, h.first⟩

section
variable {s t : Session} {e f : Expression}

theorem session_evaluate_reads (hp : s.precision = t.precision)
    (h : ∀ name ∈ namesRead e.program, s.get? name = t.get? name) :
    s.evaluate e = t.evaluate e := by
  have hvalue : s.environment.evaluate e.program = t.environment.evaluate e.program :=
    evaluate_reads hp h
  unfold Session.evaluate
  rw [hp, hvalue]

/-- Whether a value can be assigned does not depend on the session. -/
theorem assign_outcome (s t : Session) (e : Expression) (x : Number) :
    (s.assign e x).map (fun _ => x) = (t.assign e x).map fun _ => x := by
  cases htarget : e.target with
  | none => simp [Session.assign, htarget]
  | some target =>
    by_cases hname : isName target.value = true
    · simp [assign_named htarget hname]
    · simp [assign_misnamed htarget hname]

theorem outcome_eq (s : Session) (e : Expression) :
    s.outcome e = s.evaluate e >>= fun x => (s.assign e x).map fun _ => x := by
  unfold Session.outcome Session.run
  cases s.evaluate e with
  | error error => rfl
  | ok x => cases h : s.assign e x <;> simp [h]

theorem outcome_reads (hp : s.precision = t.precision)
    (h : ∀ name ∈ namesRead e.program, s.get? name = t.get? name) : s.outcome e = t.outcome e := by
  rw [outcome_eq, outcome_eq, session_evaluate_reads hp h]
  cases t.evaluate e with
  | error error => rfl
  | ok x => exact assign_outcome s t e x

theorem after_error {error : ResolveError} (h : s.outcome e = .error error) : s.after e = s := by
  unfold Session.outcome at h
  unfold Session.after
  cases hrun : s.run e with
  | error _ => rfl
  | ok r => simp [hrun] at h

theorem after_ok {x : Number} (h : s.outcome e = .ok x) :
    s.after e = s.store e.targetName? (some x) := by
  unfold Session.outcome at h
  unfold Session.after
  cases hrun : s.run e with
  | error _ => simp [hrun] at h
  | ok r =>
    rw [hrun] at h
    cases h
    exact run_eq_store hrun

@[simp] theorem after_precision_eq (s : Session) (e : Expression) :
    (s.after e).precision = s.precision := by
  cases h : s.outcome e with
  | error error => rw [after_error h]
  | ok x => rw [after_ok h, store_precision]

theorem get?_store_some (s : Session) (subject : Option String) (x : Number) (name : String) :
    (s.store subject (some x)).get? name =
      if subject = some name then some x else s.get? name := by
  cases subject with
  | none => simp [Session.store]
  | some own => simp [Session.store, Session.get?]

/-- The binding of a name after a resolution: the value, if it is the target of a resolution that
succeeds, and else what it was. -/
theorem get?_after (s : Session) (e : Expression) (name : String) :
    (s.after e).get? name =
      if e.targetName? = some name then ((s.outcome e).toOption <|> s.get? name)
      else s.get? name := by
  cases h : s.outcome e with
  | error error =>
    rw [after_error h]
    split <;> rfl
  | ok x =>
    rw [after_ok h, get?_store_some]
    rfl

theorem outcome_after (h : Independent e f) (s : Session) :
    (s.after e).outcome f = s.outcome f := by
  refine outcome_reads (after_precision_eq s e) fun name hname => ?_
  rw [get?_after, if_neg]
  exact fun htarget => h.first name htarget hname

theorem after_comm (h : Independent e f) (s : Session) (name : String) :
    ((s.after e).after f).get? name = ((s.after f).after e).get? name := by
  simp only [get?_after, outcome_after h, outcome_after h.symm]
  by_cases he : e.targetName? = some name
  · rw [if_neg (h.targets name he), if_pos he, if_neg (h.targets name he), if_pos he]
  · rw [if_neg he, if_neg he]

end

/-- Sessions of one precision that agree on the names which an expression reads give it the same
outcome. Independent expressions have the same outcomes and leave the same bindings in either order,
whether or not one of them fails. -/
theorem resolution_reads_names :
    (∀ {s t : Session} {e : Expression}, s.precision = t.precision →
      (∀ name ∈ namesRead e.program, s.get? name = t.get? name) → s.outcome e = t.outcome e) ∧
    ∀ {e f : Expression}, Independent e f → ∀ s : Session,
      (s.after e).outcome f = s.outcome f ∧ (s.after f).outcome e = s.outcome e ∧
        ((s.after e).after f).precision = ((s.after f).after e).precision ∧
        ∀ name, ((s.after e).after f).get? name = ((s.after f).after e).get? name := by
  refine ⟨outcome_reads, fun h s => ⟨outcome_after h s, outcome_after h.symm s, ?_, after_comm h s⟩⟩
  rw [after_precision_eq, after_precision_eq, after_precision_eq, after_precision_eq]

def maximumExpression : Expression :=
  ⟨"m = max(a, e)", [.written .identifier "a" 8, .written .identifier "e" 11,
    ⟨.call, "max", "max", ⟨⟨1, 5, 4⟩, ⟨1, 14, 13⟩⟩, 2⟩], some (.written .identifier "m" 0)⟩

def failingExpression : Expression :=
  ⟨"n = a/0", [.written .identifier "a" 4, .written .number "0" 6, .written .operator "/" 5],
    some (.written .identifier "n" 0)⟩

def smallerSession : Session :=
  ⟨28, [("a", .natural 2)]⟩

/-- The same with a variable that has the name of a function. -/
def largerSession : Session :=
  ⟨28, [("max", .natural 9), ("a", .natural 2)]⟩

theorem maximum_reads_names :
    Expression.parse "m = max(a, e)" = .ok maximumExpression ∧
      Expression.parse "n = a/0" = .ok failingExpression ∧
      smallerSession.outcome maximumExpression = largerSession.outcome maximumExpression ∧
      Independent maximumExpression failingExpression ∧
      (smallerSession.after maximumExpression).outcome failingExpression =
        smallerSession.outcome failingExpression ∧
      ((smallerSession.after failingExpression).after maximumExpression).get? "m" =
        ((smallerSession.after maximumExpression).after failingExpression).get? "m" := by
  have hnames : ∀ name ∈ namesRead maximumExpression.program,
      smallerSession.get? name = largerSession.get? name := by decide
  have hindependent : Independent maximumExpression failingExpression := by
    refine ⟨?_, ?_, ?_⟩
    · rintro name ⟨⟩
      decide
    · rintro name ⟨⟩
      decide
    · rintro name ⟨⟩
      decide
  obtain ⟨hfirst, _, _, hbindings⟩ := resolution_reads_names.2 hindependent smallerSession
  exact ⟨by decide +kernel, by decide +kernel, resolution_reads_names.1 rfl hnames, hindependent,
    hfirst, (hbindings "m").symm⟩

end Reckoner
