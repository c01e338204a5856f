import Reckoner.Proofs.Steps
import Reckoner.Settings

namespace Reckoner

theorem Table.mem_of_get? {α : Type} {t : Table α} {name : String} {value : α}
    (h : t.get? name = some value) : (name, value) ∈ t := by
  induction t with
  | nil => cases h
  | cons entry rest ih =>
    obtain ⟨key, old⟩ := entry
    simp only [Table.get?] at h
    split at h
    next hkey =>
      obtain rfl := Option.some.inj h
      rw [hkey]
      exact List.mem_cons_self
    next => exact List.mem_cons_of_mem _ (ih h)

theorem Table.mem_set {α : Type} {t : Table α} {name : String} {value : α} {entry : String × α}
    (h : entry ∈ t.set name value) : entry = (name, value) ∨ entry ∈ t := by
  induction t with
  | nil => exact .inl (List.mem_singleton.mp h)
  | cons first rest ih =>
    obtain ⟨key, old⟩ := first
    simp only [Table.set] at h
    split at h
    next hkey =>
      obtain rfl | hrest := List.mem_cons.mp h
      · exact .inl (by rw [hkey])
      · exact .inr (List.mem_cons_of_mem _ hrest)
    next =>
      obtain rfl | hrest := List.mem_cons.mp h
      · exact .inr List.mem_cons_self
      · exact (ih hrest).imp_right (List.mem_cons_of_mem _)

/-- The values that a configuration or a command line can give. Of an array and a table only the
type is left. -/
inductive Datum.Configured : Datum → Prop
  | text (s : String) : Configured (.text s)
  | integer (n : Int) : Configured (.integer n)
  | double (x : ExtendedDouble) : Configured (.double x)
  | boolean (b : Bool) : Configured (.boolean b)
  | array : Configured (.foreign "list")
  | table : Configured (.foreign "dict")

section
variable {cs rest : List Char} {value : Datum}

theorem takeText_configured (h : takeText cs = some (value, rest)) : value.Configured := by
  unfold takeText at h
  split at h
  · obtain ⟨⟨text, _⟩, _, he⟩ := Option.map_eq_some_iff.mp h
    cases he
    exact .text _
  · obtain ⟨⟨text, _⟩, _, he⟩ := Option.map_eq_some_iff.mp h
    cases he
    exact .text _
  · cases h

theorem takeTruth_configured (h : takeTruth cs = some (value, rest)) : value.Configured := by
  unfold takeTruth at h
  split at h <;> cases h <;> exact .boolean _

theorem takeEmptyArray_configured (h : takeEmptyArray cs = some (value, rest)) :
    value.Configured := by
  unfold takeEmptyArray at h
  split at h
  · split at h <;> cases h
    exact .array
  · cases h

theorem takeBased_configured (h : takeBased cs = some (value, rest)) : value.Configured := by
  have hinteger : ∀ {found : Option Int} {behind : List Char},
      (found.map fun n => (Datum.integer n, behind)) = some (value, rest) → value.Configured := by
    intro found behind hfound
    obtain ⟨n, _, he⟩ := Option.map_eq_some_iff.mp hfound
    cases he
    exact .integer _
  simp only [takeBased] at h
  split at h
  · split at h
    · cases h
    · exact hinteger h
  · split at h
    · cases h
    · exact hinteger h
  · split at h
    · cases h
    · exact hinteger h
  · cases h

theorem Numeral.value_configured {n : Numeral} (h : n.value = .ok value) : value.Configured := by
  simp only [Numeral.value] at h
  split at h
  · cases h
    exact .double _
  · split at h <;> cases h
    exact .integer _

theorem takeSpecial_configured (h : takeSpecial cs = some (value, rest)) : value.Configured := by
  simp only [takeSpecial] at h
  split at h <;> cases h <;> exact .double _

theorem takeValue_configured (h : takeValue cs = .ok (value, rest)) : value.Configured := by
  unfold takeValue at h
  split at h
  next found hfound =>
    cases h
    rcases Option.or_eq_some_iff.mp hfound with htext | ⟨-, hfound⟩
    · exact takeText_configured htext
    rcases Option.or_eq_some_iff.mp hfound with htruth | ⟨-, hfound⟩
    · exact takeTruth_configured htruth
    rcases Option.or_eq_some_iff.mp hfound with harray | ⟨-, hbased⟩
    · exact takeEmptyArray_configured harray
    · exact takeBased_configured hbased
  · split at h
    next numeral _ _ =>
      cases hvalue : numeral.value with
      | error e =>
        rw [hvalue] at h
        cases h
      | ok d =>
        rw [hvalue] at h
        cases h
        exact numeral.value_configured hvalue
    next hspecial =>
      cases h
      exact takeSpecial_configured hspecial
    · cases h

end

/-- All values of an item are such values, at any depth. -/
inductive Item.Plain : Item → Prop
  | value {d : Datum} (h : d.Configured) : Plain (.value d)
  | table {declared : Bool} {items : List (String × Item)} (h : ∀ entry ∈ items, Plain entry.2) :
      Plain (.table declared items)

def Table.Plain (items : Table Item) : Prop :=
  ∀ entry ∈ items, entry.2.Plain

section
variable {items next : Table Item} {name : String} {item : Item}

theorem Table.Plain.nil : Table.Plain [] := by
  intro entry h
  cases h

theorem Table.Plain.get? (h : items.Plain) (hitem : items.get? name = some item) : item.Plain :=
  h _ (Table.mem_of_get? hitem)

theorem Table.Plain.set (h : items.Plain) (hitem : item.Plain) :
    Table.Plain (items.set name item) := by
  intro entry hentry
  obtain rfl | hold := Table.mem_set hentry
  · exact hitem
  · exact h _ hold

theorem Item.Plain.inner {declared : Bool} {inner : Table Item}
    (h : (Item.table declared inner).Plain) : inner.Plain := by
  cases h with
  | table h => exact h

theorem declare_plain {path : List String} (h : items.Plain)
    (hnext : declare path items = some next) : next.Plain := by
  fun_induction declare path items generalizing next with
  | case1 items =>
    obtain rfl := Option.some.inj hnext
    exact h
  | case2 items name hnone =>
    obtain rfl := Option.some.inj hnext
    exact h.set (.table Table.Plain.nil)
  | case3 items name inner hinner =>
    obtain rfl := Option.some.inj hnext
    exact h.set (.table (h.get? hinner).inner)
  | case4 => cases hnext
  | case5 items name nextName path hnone ih =>
    obtain ⟨inner, hinner, rfl⟩ := Option.map_eq_some_iff.mp hnext
    exact h.set (.table (ih Table.Plain.nil hinner))
  | case6 items name nextName path declared inner hinner ih =>
    obtain ⟨opened, hopened, rfl⟩ := Option.map_eq_some_iff.mp hnext
    exact h.set (.table (ih (h.get? hinner).inner hopened))
  | case7 => cases hnext

theorem assign_plain {key : String} {value : Datum} {path : List String} (h : items.Plain)
    (hvalue : value.Configured) (hnext : assign key value path items = some next) :
    next.Plain := by
  fun_induction assign key value path items generalizing next with
  | case1 => cases hnext
  | case2 items hfree =>
    obtain rfl := Option.some.inj hnext
    exact h.set (.value hvalue)
  | case3 items name path declared inner hinner ih =>
    obtain ⟨filled, hfilled, rfl⟩ := Option.map_eq_some_iff.mp hnext
    exact h.set (.table (ih (h.get? hinner).inner hfilled))
  | case4 => cases hnext

end

theorem readLine_configured {cs : List Char} {key : String} {value : Datum}
    (h : ConfigurationLine.read cs = .ok (.pair key value)) : value.Configured := by
  unfold ConfigurationLine.read at h
  split at h
  · cases h
  split at h
  · split at h
    · split at h <;> cases h
    · cases h
  split at h
  · cases h
  split at h
  · split at h
    next hvalue =>
      split at h <;> cases h
      exact takeValue_configured hvalue
    · cases h
  · cases h

/-- A line adds nothing to a configuration but such a value. -/
theorem step_plain {document next : Document} {line : List Char} (h : document.items.Plain)
    (hnext : document.step line = .ok next) : next.items.Plain := by
  unfold Document.step at hnext
  split at hnext
  · cases hnext
  next read hread =>
    split at hnext
    next extended hextend =>
      cases hnext
      cases read with
      | blank =>
        obtain rfl := Option.some.inj hextend
        exact h
      | header path =>
        obtain ⟨items, hitems, rfl⟩ := Option.map_eq_some_iff.mp hextend
        exact declare_plain h hitems
      | pair key value =>
        obtain ⟨items, hitems, rfl⟩ := Option.map_eq_some_iff.mp hextend
        exact assign_plain h (readLine_configured hread) hitems
    · cases hnext

theorem steps_plain {document last : Document} {lines : List (List Char)}
    (h : document.items.Plain) (hlast : lines.foldlM Document.step document = .ok last) :
    last.items.Plain := by
  induction lines generalizing document with
  | nil =>
    cases hlast
    exact h
  | cons line lines ih =>
    rw [List.foldlM_cons] at hlast
    obtain ⟨next, hnext, hlast⟩ := bind_eq_ok hlast
    exact ih (step_plain h hnext) hlast

theorem readConfiguration_plain {text : String} {items : Table Item}
    (h : readConfiguration text = .ok items) : items.Plain := by
  obtain ⟨last, hlast, rfl⟩ := map_eq_ok h
  exact steps_plain Table.Plain.nil hlast

theorem tableItems_plain {items : Table Item} (h : items.Plain) (name : String) :
    (tableItems name items).Plain := by
  unfold tableItems
  split
  next hinner => exact (h.get? hinner).inner
  · exact Table.Plain.nil

theorem Item.Plain.toDatum {item : Item} (h : item.Plain) : item.toDatum.Configured := by
  cases h with
  | value h => exact h
  | table _ => exact .table

/-- Where a variable comes from: the configuration, or a definition of the command line. -/
theorem addDefinitions_mem {bindings next : Table Datum} {texts : List String}
    (h : addDefinitions bindings texts = .ok next) {entry : String × Datum}
    (hentry : entry ∈ next) :
    entry ∈ bindings ∨
      ∃ text ∈ texts, ∃ value, readDefinition text = .ok (entry.1, value) ∧
        entry.2 = .text value := by
  induction texts generalizing bindings with
  | nil =>
    cases h
    exact .inl hentry
  | cons text texts ih =>
    simp only [addDefinitions] at h
    split at h
    · cases h
    next name value hread =>
      obtain hold | ⟨other, hother, found⟩ := ih h
      · obtain rfl | hold := Table.mem_set hold
        · exact .inr ⟨text, List.mem_cons_self, value, hread, rfl⟩
        · exact .inl hold
      · exact .inr ⟨other, List.mem_cons_of_mem _ hother, found⟩

/-- A definition without an equals sign ends the reading. -/
theorem addDefinitions_error {bindings : Table Datum} {texts : List String} {e : SetupError}
    (h : addDefinitions bindings texts = .error e) : ∃ text ∈ texts, e = .definition text := by
  induction texts generalizing bindings with
  | nil => cases h
  | cons text texts ih =>
    simp only [addDefinitions] at h
    split at h
    next e' hread =>
      cases h
      unfold readDefinition at hread
      split at hread
      · cases hread
      · cases hread
        exact ⟨text, List.mem_cons_self, rfl⟩
    · obtain ⟨other, hother, he⟩ := ih h
      exact ⟨other, List.mem_cons_of_mem _ hother, he⟩

end Reckoner
