import Mathlib.Data.List.Nodup
import Reckoner.Proofs.Results
import Reckoner.Session

namespace Reckoner

section
variable {α : Type} {t : Table α}

@[simp] theorem Table.mem_keys_set {name other : String} {value : α} :
    other ∈ (t.set name value).map Prod.fst ↔ other = name ∨ other ∈ t.map Prod.fst := by
  induction t with
  | nil => simp [Table.set]
  | cons entry rest ih =>
    obtain ⟨key, old⟩ := entry
    by_cases hk : key = name
    · subst hk
      simp [Table.set]
    · simp only [Table.set, if_neg hk, List.map_cons, List.mem_cons, ih]
      tauto

theorem Table.nodup_set (name : String) (value : α) (h : (t.map Prod.fst).Nodup) :
    ((t.set name value).map Prod.fst).Nodup := by
  induction t with
  | nil => simp [Table.set]
  | cons entry rest ih =>
    obtain ⟨key, old⟩ := entry
    rw [List.map_cons, List.nodup_cons] at h
    by_cases hk : key = name
    · subst hk
      simpa [Table.set] using h
    · simp only [Table.set, if_neg hk, List.map_cons, List.nodup_cons]
      refine ⟨?_, ih h.2⟩
      rw [Table.mem_keys_set]
      rintro (heq | hmem)
      · exact hk heq
      · exact h.1 hmem

theorem Table.erase_sublist (t : Table α) (name : String) : (t.erase name).Sublist t := by
  induction t with
  | nil => exact .slnil
  | cons entry rest ih =>
    obtain ⟨key, value⟩ := entry
    rw [Table.erase]
    split
    · exact List.sublist_cons_self _ _
    · exact ih.cons_cons _

theorem Table.nodup_erase (name : String) (h : (t.map Prod.fst).Nodup) :
    ((t.erase name).map Prod.fst).Nodup :=
  ((t.erase_sublist name).map Prod.fst).nodup h

theorem Table.get?_eq_none {name : String} (h : name ∉ t.map Prod.fst) : t.get? name = none := by
  induction t with
  | nil => rfl
  | cons entry rest ih =>
    obtain ⟨key, value⟩ := entry
    rw [List.map_cons, List.mem_cons, not_or] at h
    rw [Table.get?, if_neg (Ne.symm h.1), ih h.2]

theorem Table.get?_erase (name other : String) (h : (t.map Prod.fst).Nodup) :
    (t.erase name).get? other = if name = other then none else t.get? other := by
  induction t with
  | nil => simp [Table.erase, Table.get?]
  | cons entry rest ih =>
    obtain ⟨key, value⟩ := entry
    rw [List.map_cons, List.nodup_cons] at h
    by_cases hk : key = name
    · subst hk
      rw [Table.erase, if_pos rfl, Table.get?]
      split
      next heq =>
        rw [← heq]
        exact Table.get?_eq_none h.1
      · rfl
    · rw [Table.erase, if_neg hk, Table.get?, Table.get?, ih h.2]
      by_cases ho : key = other
      · rw [if_pos ho, if_pos ho, if_neg (by rw [← ho]; exact Ne.symm hk)]
      · rw [if_neg ho, if_neg ho]

end

/-- A session, and the expressions that were processed in it. -/
structure Desk where
  session : Session
  kept : List Expression

inductive Action where
  | set (name : String) (value : Datum)
  | unset (name : String)
  | process (source : String)
  | run (index : Nat)
  | resolve (source : String)

/-- What a step returns: a number, nothing, or the place at which an expression is kept. -/
inductive Reply where
  | value (x : Number)
  | done
  | kept (index : Nat)
deriving DecidableEq

inductive Failure where
  | refused (e : SessionError)
  | unbound (f : Fault)
  | unresolved (source : String) (e : ResolveError)
  | missing
deriving DecidableEq

/-- The outcome of a resolution, whose error is shown in its source. -/
def Desk.resolved (desk : Desk) (source : String) :
    Except ResolveError (Session × Number) → Desk × Except Failure Reply
  | .ok (s, x) => (⟨s, desk.kept⟩, .ok (.value x))
  | .error e => (desk, .error (.unresolved source e))

def Desk.act (desk : Desk) : Action → Desk × Except Failure Reply
  | .set name value =>
    match desk.session.set name value with
    | .ok (s, x) => (⟨s, desk.kept⟩, .ok (.value x))
    | .error e => (desk, .error (.refused e))
  | .unset name =>
    match desk.session.unset name with
    | .ok s => (⟨s, desk.kept⟩, .ok .done)
    | .error f => (desk, .error (.unbound f))
  | .process source =>
    match Expression.parse source with
    | .ok e => (⟨desk.session, desk.kept ++ [e]⟩, .ok (.kept desk.kept.length))
    | .error e => (desk, .error (.unresolved source e.toResolveError))
  | .run index =>
    match desk.kept[index]? with
    | some e => desk.resolved e.source (desk.session.run e)
    | none => (desk, .error .missing)
  | .resolve source => desk.resolved source (desk.session.resolve source)

/-- The desk after a history, whose failing steps it survives. -/
def Desk.after (desk : Desk) : List Action → Desk
  | [] => desk
  | action :: rest => (desk.act action).1.after rest

/-- The name whose binding a step may change. -/
def Desk.subject? (desk : Desk) : Action → Option String
  | .set name _ => some name
  | .unset name => some name
  | .process _ => none
  | .run index => desk.kept[index]?.bind fun e => e.target.map Token.value
  | .resolve source =>
    match Expression.parse source with
    | .ok e => e.target.map Token.value
    | .error _ => none

def Reply.value? : Reply → Option Number
  | .value x => some x
  | _ => none

/-- The session in which a name is bound to a value, or to none. -/
def Session.store (s : Session) : Option String → Option Number → Session
  | none, _ => s
  | some name, some x => { s with bindings := s.bindings.set name x }
  | some name, none => { s with bindings := s.bindings.erase name }

section
variable {s s' : Session} {x : Number}

@[simp] theorem store_precision (s : Session) (subject : Option String) (value : Option Number) :
    (s.store subject value).precision = s.precision := by
  match subject, value with
  | none, _ => rfl
  | some _, some _ => rfl
  | some _, none => rfl

theorem nodup_store (subject : Option String) (value : Option Number)
    (h : (s.bindings.map Prod.fst).Nodup) :
    ((s.store subject value).bindings.map Prod.fst).Nodup := by
  match subject, value with
  | none, _ => exact h
  | some name, some x => exact Table.nodup_set name x h
  | some name, none => exact Table.nodup_erase name h

/-- Only the binding of the name changes, and it holds the value. -/
theorem get?_store (subject : Option String) (value : Option Number) (other : String)
    (h : (s.bindings.map Prod.fst).Nodup) :
    (s.store subject value).get? other = if subject = some other then value else s.get? other := by
  match subject, value with
  | none, _ => simp [Session.store]
  | some name, some x =>
    simp [Session.store, Session.get?]
  | some name, none =>
    simp only [Session.store, Session.get?, Table.get?_erase name other h, Option.some.injEq]

theorem set_coerced {name : String} {value : Datum} (hname : isName name = true)
    (hx : Number.ofDatum value = .ok x) (s : Session) :
    s.set name value = .ok (s.store (some name) (some x), x) := by
  rw [Session.set, if_pos hname, hx]
  rfl

theorem set_misnamed {name : String} (hname : ¬ isName name = true) (s : Session) (value : Datum) :
    s.set name value = .error (.invalidName name) :=
  if_neg hname

theorem assign_named {e : Expression} {target : Token} (htarget : e.target = some target)
    (hname : isName target.value = true) (s : Session) (x : Number) :
    s.assign e x = .ok (s.store (some target.value) (some x)) := by
  have hx : Number.ofDatum (.number x) = .ok x := rfl
  simp only [Session.assign, htarget, set_coerced hname hx]

theorem assign_misnamed {e : Expression} {target : Token} (htarget : e.target = some target)
    (hname : ¬ isName target.value = true) (s : Session) (x : Number) :
    s.assign e x = .error (.session (.invalidName target.value)) := by
  simp only [Session.assign, htarget, set_misnamed hname]

theorem set_eq_store {name : String} {value : Datum} (h : s.set name value = .ok (s', x)) :
    s' = s.store (some name) (some x) := by
  unfold Session.set at h
  split at h
  · split at h <;> cases h
    rfl
  · cases h

theorem unset_eq_store {name : String} (h : s.unset name = .ok s') :
    s' = s.store (some name) none := by
  unfold Session.unset at h
  split at h
  · cases h
    rfl
  · cases h

theorem set_number {name : String} {r : Session × Number}
    (h : s.set name (.number x) = .ok r) : r.1 = s.store (some name) (some x) := by
  unfold Session.set at h
  split at h
  · cases h
    rfl
  · cases h

theorem run_eq_store {e : Expression} (h : s.run e = .ok (s', x)) :
    s' = s.store (e.target.map Token.value) (some x) := by
  unfold Session.run at h
  split at h
  · cases h
  next value hvalue =>
    unfold Session.assign at h
    cases htarget : e.target with
    | none =>
      simp only [htarget] at h
      cases h
      rfl
    | some target =>
      simp only [htarget] at h
      cases hset : s.set target.value (.number value) with
      | error e' => simp [hset] at h
      | ok r =>
        simp only [hset] at h
        cases h
        exact set_number hset

end

/-- A name has one binding, and what is kept was read from its source. -/
structure Desk.Sound (desk : Desk) : Prop where
  keys : (desk.session.bindings.map Prod.fst).Nodup
  parsed : ∀ e ∈ desk.kept, Expression.parse e.source = .ok e

theorem parse_source {source : String} {e : Expression} (h : Expression.parse source = .ok e) :
    e.source = source := by
  unfold Expression.parse at h
  split at h
  · cases h
  next tokens _ =>
    split at h
    · cases h
    next e' he =>
      cases h
      unfold Expression.ofTokens at he
      split at he
      split at he
      · cases he
      next first rest _ =>
        split at he
        · split at he <;> cases he
        · cases hrun : Conversion.start.run (first :: rest) with
          | error _ => simp [hrun] at he
          | ok program =>
            rw [hrun] at he
            cases he
            rfl

section
variable {desk next : Desk} {action : Action}

theorem resolved_error {source : String} {result : Except ResolveError (Session × Number)}
    {failure : Failure} (h : desk.resolved source result = (next, .error failure)) :
    next = desk := by
  cases result with
  | ok r => cases h
  | error e =>
    cases h
    rfl

theorem resolved_ok {source : String} {result : Except ResolveError (Session × Number)}
    {reply : Reply} (h : desk.resolved source result = (next, .ok reply)) :
    ∃ x, result = .ok (next.session, x) ∧ next.kept = desk.kept ∧ reply = .value x := by
  cases result with
  | ok r =>
    cases h
    exact ⟨r.2, rfl, rfl, rfl⟩
  | error e => cases h

/-- A step that fails changes nothing. -/
theorem act_error {failure : Failure} (h : desk.act action = (next, .error failure)) :
    next = desk := by
  cases action with
  | set name value =>
    rw [Desk.act] at h
    split at h <;> cases h
    rfl
  | unset name =>
    rw [Desk.act] at h
    split at h <;> cases h
    rfl
  | process source =>
    rw [Desk.act] at h
    split at h <;> cases h
    rfl
  | run index =>
    rw [Desk.act] at h
    split at h
    · exact resolved_error h
    · cases h
      rfl
  | resolve source => exact resolved_error h

/-- What a step does: it stores the value that it returns under its subject, and may keep one more
expression. -/
theorem act_ok {reply : Reply} (h : desk.act action = (next, .ok reply)) :
    next.session = desk.session.store (desk.subject? action) reply.value? ∧
      ∃ new, next.kept = desk.kept ++ new ∧ ∀ e ∈ new, Expression.parse e.source = .ok e := by
  have hsame : ∃ new, desk.kept = desk.kept ++ new ∧
      ∀ e ∈ new, Expression.parse e.source = .ok e := ⟨[], by simp, by simp⟩
  cases action with
  | set name value =>
    rw [Desk.act] at h
    split at h
    next s x hset =>
      cases h
      exact ⟨set_eq_store hset, hsame⟩
    · cases h
  | unset name =>
    rw [Desk.act] at h
    split at h
    next s hunset =>
      cases h
      exact ⟨unset_eq_store hunset, hsame⟩
    · cases h
  | process source =>
    rw [Desk.act] at h
    split at h
    next e he =>
      cases h
      refine ⟨rfl, [e], rfl, ?_⟩
      intro e' hmem
      rw [List.mem_singleton.mp hmem, parse_source he]
      exact he
    · cases h
  | run index =>
    rw [Desk.act] at h
    split at h
    next e he =>
      obtain ⟨x, hrun, hkept, rfl⟩ := resolved_ok h
      rw [hkept, Desk.subject?, he]
      exact ⟨run_eq_store hrun, hsame⟩
    · cases h
  | resolve source =>
    rw [Desk.act] at h
    obtain ⟨x, hresolve, hkept, rfl⟩ := resolved_ok h
    unfold Session.resolve at hresolve
    rw [hkept, Desk.subject?]
    split at hresolve
    · cases hresolve
    next e he =>
      rw [he]
      exact ⟨run_eq_store hresolve, hsame⟩

theorem act_sound (h : desk.Sound) : (desk.act action).1.Sound := by
  cases hact : desk.act action with
  | mk next result =>
    cases result with
    | error failure =>
      rw [act_error hact]
      exact h
    | ok reply =>
      obtain ⟨hsession, new, hkept, hnew⟩ := act_ok hact
      refine ⟨?_, ?_⟩
      · rw [hsession]
        exact nodup_store _ _ h.keys
      · intro e he
        rw [hkept] at he
        rcases List.mem_append.mp he with he | he
        · exact h.parsed e he
        · exact hnew e he

theorem after_sound {actions : List Action} (h : desk.Sound) : (desk.after actions).Sound := by
  induction actions generalizing desk with
  | nil => exact h
  | cons action rest ih => exact ih (act_sound h)

@[simp] theorem act_precision (desk : Desk) (action : Action) :
    (desk.act action).1.session.precision = desk.session.precision := by
  cases hact : desk.act action with
  | mk next result =>
    cases result with
    | error failure => rw [act_error hact]
    | ok reply => rw [(act_ok hact).1, store_precision]

@[simp] theorem after_precision (desk : Desk) (actions : List Action) :
    (desk.after actions).session.precision = desk.session.precision := by
  induction actions generalizing desk with
  | nil => rfl
  | cons action rest ih => rw [Desk.after, ih, act_precision]

theorem act_kept (desk : Desk) (action : Action) :
    ∃ new, (desk.act action).1.kept = desk.kept ++ new := by
  cases hact : desk.act action with
  | mk next result =>
    cases result with
    | error failure => exact ⟨[], by rw [act_error hact, List.append_nil]⟩
    | ok reply =>
      obtain ⟨_, new, hkept, _⟩ := act_ok hact
      exact ⟨new, hkept⟩

/-- What is kept stays where it is. -/
theorem after_kept {actions : List Action} {index : ℕ} {e : Expression}
    (h : desk.kept[index]? = some e) : (desk.after actions).kept[index]? = some e := by
  induction actions generalizing desk with
  | nil => exact h
  | cons action rest ih =>
    obtain ⟨new, hkept⟩ := act_kept desk action
    apply ih
    rw [hkept]
    obtain ⟨hlt, _⟩ := List.getElem?_eq_some_iff.mp h
    rw [List.getElem?_append_left hlt]
    exact h

@[simp] theorem after_append (desk : Desk) (actions others : List Action) :
    desk.after (actions ++ others) = (desk.after actions).after others := by
  induction actions generalizing desk with
  | nil => rfl
  | cons action rest ih => exact ih _

/-- A text that is processed is kept under the index that is returned. -/
theorem kept_of_process {source : String} {index : ℕ}
    (h : (desk.act (.process source)).2 = .ok (.kept index)) :
    ∃ e, Expression.parse source = .ok e ∧
      (desk.act (.process source)).1.kept[index]? = some e := by
  unfold Desk.act at h ⊢
  simp only at h ⊢
  split at h
  next e he =>
    cases h
    exact ⟨e, he, by simp⟩
  · cases h

/-- An expression that is kept is resolved as its source is. -/
theorem run_eq_resolve {index : ℕ} {e : Expression} (h : desk.Sound)
    (he : desk.kept[index]? = some e) : desk.act (.run index) = desk.act (.resolve e.source) := by
  have hparse := h.parsed e (List.mem_of_getElem? he)
  simp only [Desk.act, he, Session.resolve, hparse]

end

theorem setAll_nodup {s s' : Session} {bindings : List (String × Datum)}
    (hs : (s.bindings.map Prod.fst).Nodup) (h : s.setAll bindings = .ok s') :
    (s'.bindings.map Prod.fst).Nodup := by
  induction bindings generalizing s with
  | nil =>
    cases h
    exact hs
  | cons entry rest ih =>
    obtain ⟨name, value⟩ := entry
    rw [Session.setAll] at h
    split at h
    next next x hset =>
      refine ih ?_ h
      rw [set_eq_store hset]
      exact nodup_store _ _ hs
    · cases h

theorem create_sound {precision : Int} {bindings : List (String × Datum)} {s : Session}
    (h : Session.create precision bindings = .ok s) : (⟨s, []⟩ : Desk).Sound := by
  unfold Session.create at h
  split at h
  · cases h
  · exact ⟨setAll_nodup (by simp) h, by simp⟩

/-- After any history of a session, an expression that was processed at any moment of it gives the
reply of its source text and leaves what that would leave; a step that fails leaves all as it was;
and a step that succeeds changes no binding but its own, which then holds the number that the step
returns, or none if it was unset. -/
theorem history_consistent {precision : Int} {bindings : List (String × Datum)} {s : Session}
    (h : Session.create precision bindings = .ok s) (history : List Action) :
    (∀ earlier source later index, history = earlier ++ .process source :: later →
      (((⟨s, []⟩ : Desk).after earlier).act (.process source)).2 = .ok (.kept index) →
      ((⟨s, []⟩ : Desk).after history).act (.run index) =
        ((⟨s, []⟩ : Desk).after history).act (.resolve source)) ∧
    (∀ action next failure,
      ((⟨s, []⟩ : Desk).after history).act action = (next, .error failure) →
      next = (⟨s, []⟩ : Desk).after history) ∧
    ∀ action next reply,
      ((⟨s, []⟩ : Desk).after history).act action = (next, .ok reply) →
      next.session.precision = s.precision ∧
      ∀ name, next.session.get? name =
        if ((⟨s, []⟩ : Desk).after history).subject? action = some name then reply.value?
        else ((⟨s, []⟩ : Desk).after history).session.get? name := by
  have hsound : ((⟨s, []⟩ : Desk).after history).Sound := after_sound (create_sound h)
  refine ⟨?_, fun _ _ _ hact => act_error hact, ?_⟩
  · intro earlier source later index hhistory hprocess
    obtain ⟨e, hparse, hkept⟩ := kept_of_process hprocess
    have hlater : ((⟨s, []⟩ : Desk).after history).kept[index]? = some e := by
      rw [hhistory, after_append, Desk.after]
      exact after_kept hkept
    have hrun := run_eq_resolve hsound hlater
    rw [parse_source hparse] at hrun
    exact hrun
  · intro action next reply hact
    obtain ⟨hsession, _⟩ := act_ok hact
    refine ⟨?_, fun name => ?_⟩
    · rw [hsession, store_precision, after_precision]
    · rw [hsession]
      exact get?_store _ _ name hsound.keys

/-- A session in which `x` is 2. -/
def doublingSession : Session :=
  ⟨28, [("x", .natural 2)]⟩

/-- The resolution of `n = n*x` fails until `n` is set, and then doubles it. -/
def doublingHistory : List Action :=
  [.process "n = n*x", .run 0, .set "n" (.integer 3), .run 0, .set "pi" (.integer 4)]

theorem doubling_consistent :
    Session.create 28 [("x", .integer 2)] = .ok doublingSession ∧
      ((⟨doublingSession, []⟩ : Desk).after doublingHistory).act (.run 0) =
        ((⟨doublingSession, []⟩ : Desk).after doublingHistory).act (.resolve "n = n*x") ∧
      (((⟨doublingSession, []⟩ : Desk).after doublingHistory).act (.run 0)).2 =
        .ok (.value (.natural 12)) ∧
      (((⟨doublingSession, []⟩ : Desk).after doublingHistory).act (.run 0)).1.session.get? "n" =
        some (.natural 12) := by
  have hcreate : Session.create 28 [("x", .integer 2)] = .ok doublingSession := rfl
  obtain ⟨hkept, _, hstored⟩ := history_consistent hcreate doublingHistory
  have hvalue : (((⟨doublingSession, []⟩ : Desk).after doublingHistory).act (.run 0)).2 =
      .ok (.value (.natural 12)) := by decide +kernel
  have hsubject : ((⟨doublingSession, []⟩ : Desk).after doublingHistory).subject? (.run 0) =
      some "n" := by decide +kernel
  refine ⟨hcreate, hkept [] "n = n*x" _ 0 rfl (by decide +kernel), hvalue, ?_⟩
  have hbinding := (hstored (.run 0) _ _ (Prod.ext rfl hvalue)).2 "n"
  rw [if_pos hsubject] at hbinding
  exact hbinding

end Reckoner
