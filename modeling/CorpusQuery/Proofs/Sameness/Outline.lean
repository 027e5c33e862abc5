import CorpusQuery.Phrase.Outline

/-!
An outline loses nothing: a phrase can be told from its outline (`Phrase.outline_injective`). A row
names the form of its phrase, and the forms of a category have different names or are told apart by
their attributes (`Form.eq_of_shown`). The shape of the tree is in the depths and in the fields. The
parts of a phrase lie one deeper than the phrase and are listed slot by slot, and no two slots of a
form have a field in common; so the first row behind the parts of a slot is never one more of them
(`Tree.rowsBefore_ne`), and a tree and what stands behind it can be told from their rows
(`Tree.legible`).
-/

set_option autoImplicit false
set_option relaxedAutoImplicit false

namespace CorpusQuery

/-! ### Names of attributes -/

@[simp] theorem ValueType.name_inj {first second : ValueType} :
    first.name = second.name ↔ first = second := by
  cases first <;> cases second <;> decide

@[simp] theorem Parity.name_inj {first second : Parity} :
    first.name = second.name ↔ first = second := by
  cases first <;> cases second <;> decide

@[simp] theorem MatchFlag.name_inj {first second : MatchFlag} :
    first.name = second.name ↔ first = second := by
  cases first <;> cases second <;> decide

@[simp] theorem Arrangement.name_inj {first second : Arrangement} :
    first.name = second.name ↔ first = second := by
  cases first <;> cases second <;> decide

@[simp] theorem Cardinality.name_inj {first second : Cardinality} :
    first.name = second.name ↔ first = second := by
  cases first <;> cases second <;> decide

@[simp] theorem EdgeEnd.name_inj {first second : EdgeEnd} :
    first.name = second.name ↔ first = second := by
  cases first <;> cases second <;> decide

@[simp] theorem Greed.name_inj {first second : Greed} :
    first.name = second.name ↔ first = second := by
  cases first <;> cases second <;> decide

@[simp] theorem Bound.name_inj {first second : Bound} :
    first.name = second.name ↔ first = second := by
  cases first <;> cases second <;> decide

@[simp] theorem BindingModifier.name_inj {first second : BindingModifier} :
    first.name = second.name ↔ first = second := by
  cases first <;> cases second <;> decide

@[simp] theorem Direction.name_inj {first second : Direction} :
    first.name = second.name ↔ first = second := by
  cases first <;> cases second <;> decide

@[simp] theorem UnaryOperator.name_inj {first second : UnaryOperator} :
    first.name = second.name ↔ first = second := by
  cases first <;> cases second <;> decide

/-- Conjunctions and disjunctions have no name, but each is alone in its family. -/
@[simp] theorem BinaryOperator.names_inj {first second : BinaryOperator} :
    first.family.name = second.family.name ∧ first.name? = second.name? ↔ first = second := by
  cases first <;> cases second <;> decide

@[simp] theorem Target.names_inj {first second : Target} :
    first.kindName = second.kindName ∧ first.name = second.name ↔ first = second := by
  cases first <;> cases second <;> simp [kindName, name]

@[simp] theorem Numeral.names_inj {first second : Numeral} :
    first.name = second.name ∧ first.text = second.text ↔ first = second := by
  cases first <;> cases second <;> simp [name, text]

theorem Numeral.name_ne_family (numeral : Numeral) (family : Family) :
    numeral.name ≠ family.name := by
  cases numeral <;> cases family <;> simp [name, Family.name]

@[simp] theorem Attribute.ofOption_inj {first second : Option String} :
    Attribute.ofOption first = .ofOption second ↔ first = second := by
  cases first <;> cases second <;> simp [ofOption]

/-! ### Forms -/

namespace Form

section

variable {form other : Form .expression}

/-- Only numbers are called like a numeral. -/
theorem exists_number_of_kindName {numeral : Numeral} (h : form.kindName = numeral.name) :
    ∃ other, form = .number other := by
  cases form with
  | number other => exact ⟨other, rfl⟩
  | binary operator => exact absurd h.symm (numeral.name_ne_family _)
  | _ => cases numeral <;> simp [kindName, Numeral.name] at h

/-- Only binary operators are called like their families. -/
theorem exists_binary_of_kindName {family : Family} (h : form.kindName = family.name) :
    ∃ other, form = .binary other := by
  cases form with
  | number numeral => exact absurd h (numeral.name_ne_family _)
  | binary other => exact ⟨other, rfl⟩
  | _ => cases family <;> simp [kindName, Family.name] at h

theorem eq_of_shown_expression {size otherSize : Nat} (hname : form.kindName = other.kindName)
    (hattributes : form.attributes size = other.attributes otherSize) : form = other := by
  cases form with
  | number numeral =>
    obtain ⟨other, rfl⟩ := exists_number_of_kindName hname.symm
    have htext : numeral.text = other.text := by simpa [attributes] using hattributes
    exact congrArg number (Numeral.names_inj.mp ⟨hname, htext⟩)
  | binary operator =>
    obtain ⟨other, rfl⟩ := exists_binary_of_kindName hname.symm
    have hfirst := congrArg List.head? hattributes
    have hoperator : operator.name? = other.name? := by
      simpa [attributes, Option.map_inj_right] using hfirst
    exact congrArg binary (BinaryOperator.names_inj.mp ⟨hname, hoperator⟩)
  | _ =>
    cases other with
    | number => exact absurd (exists_number_of_kindName hname) (by simp)
    | binary => exact absurd (exists_binary_of_kindName hname) (by simp)
    | _ =>
      first
      | rfl
      | (simp [kindName] at hname; done)
      | simp_all [attributes, Option.map_inj_right]

end

variable {category : Category}

/-- What a row shows of a form tells the forms of a category apart, whatever parts there are. -/
theorem eq_of_shown {form other : Form category} {size otherSize : Nat}
    (hname : form.kindName = other.kindName)
    (hattributes : form.attributes size = other.attributes otherSize) : form = other := by
  cases category with
  | expression => exact eq_of_shown_expression hname hattributes
  | _ =>
    cases form <;> cases other <;> first
      | rfl
      | (simp [kindName] at hname; done)
      | simp_all [attributes, List.map_inj_right, Option.map_inj_right]

theorem nodup_slots (form : Form category) : (form.slots.map Slot.field).Nodup := by
  cases form <;> simp

end Form

/-! ### Where a tree ends in the rows -/

namespace Role

/-- The fields in which the first row of a tree can stand, a phrase standing in the field given. -/
def fields (field : String) : Role → List String
  | .phrase _ => [field]
  | .parts slots => slots.map Slot.field

/-- Rows that can stand behind a tree at a depth: the first of them is no more of the tree. -/
def EndsBefore (depth : Nat) (rows : List Row) : Role → Prop
  | .phrase _ => ∀ row ∈ rows.head?, row.depth ≤ depth
  | .parts slots => (slots.map Slot.field).Nodup ∧ ∀ row ∈ rows.head?,
      row.depth ≤ depth ∧ (row.depth = depth → row.field ∉ slots.map Slot.field)

end Role

namespace Tree

variable {depth : Nat} {field : String} {rows otherRows : List Row}

/-- The first row is that of a phrase of the tree at its depth or, if there is none, the first row
behind the tree. -/
theorem mem_head?_rowsBefore {role : Role} (tree : Tree role) {row : Row}
    (h : row ∈ (tree.rowsBefore depth field rows).head?) :
    (row.depth = depth ∧ row.field ∈ role.fields field) ∨ row ∈ rows.head? := by
  induction tree generalizing field rows with
  | phrase form span parts =>
    cases h
    exact .inl ⟨rfl, List.mem_singleton_self _⟩
  | nil => exact .inr h
  | one part rest ihpart ihrest | present part rest ihpart ihrest =>
    rcases ihpart h with ⟨hdepth, hfield⟩ | hrest
    · exact .inl ⟨hdepth, List.mem_cons.mpr (.inl (List.mem_singleton.mp hfield))⟩
    · exact (ihrest hrest).imp_left (And.imp_right (List.mem_cons_of_mem _))
  | more part rest ihpart ihrest =>
    rcases ihpart h with ⟨hdepth, hfield⟩ | hrest
    · exact .inl ⟨hdepth, List.mem_cons.mpr (.inl (List.mem_singleton.mp hfield))⟩
    · exact ihrest hrest
  | absent rest ih | done rest ih =>
    exact (ih h).imp_left (And.imp_right (List.mem_cons_of_mem _))

/-- The parts of a phrase lie deeper than anything that can stand behind the phrase. -/
theorem endsBefore_parts {category : Category} (form : Form category)
    (h : Role.EndsBefore depth rows (.phrase category)) :
    Role.EndsBefore (depth + 1) rows (.parts form.slots) := by
  refine ⟨form.nodup_slots, fun row hrow ↦ ?_⟩
  have hle := h row hrow
  exact ⟨by omega, fun heq ↦ by omega⟩

section

variable {slot : Slot} {slots : List Slot}

/-- A part ends before the other parts of its phrase. -/
theorem endsBefore_phrase {category : Category} (rest : Parts slots)
    (h : Role.EndsBefore depth rows (.parts slots)) :
    Role.EndsBefore depth (rest.rowsBefore depth field rows) (.phrase category) := by
  intro row hrow
  rcases mem_head?_rowsBefore rest hrow with ⟨hdepth, -⟩ | hrow
  · exact Nat.le_of_eq hdepth
  · exact (h.2 row hrow).1

theorem endsBefore_tail (h : Role.EndsBefore depth rows (.parts (slot :: slots))) :
    Role.EndsBefore depth rows (.parts slots) :=
  ⟨(List.nodup_cons.mp h.1).2, fun row hrow ↦ ⟨(h.2 row hrow).1, fun hdepth hmem ↦
    (h.2 row hrow).2 hdepth (List.mem_cons_of_mem _ hmem)⟩⟩

/-- What stands behind the parts of a slot does not begin with one more of them. -/
theorem rowsBefore_ne {category : Category} (rest : Parts slots) (part : Phrase category)
    (h : Role.EndsBefore depth rows (.parts (slot :: slots))) :
    rest.rowsBefore depth field rows ≠ part.rowsBefore depth slot.field otherRows := by
  intro heq
  cases part with
  | phrase form span parts =>
    have hfirst := congrArg List.head? heq
    rcases mem_head?_rowsBefore rest hfirst with ⟨-, hfield⟩ | hrow
    · exact (List.nodup_cons.mp h.1).1 hfield
    · exact (h.2 _ hrow).2 rfl List.mem_cons_self

end

/-- A tree is legible if its rows tell what it is and where they end, whatever rows stand behind
them. -/
def Legible {role : Role} (tree : Tree role) : Prop :=
  ∀ {other : Tree role} {depth : Nat} {field : String} {rows otherRows : List Row},
    role.EndsBefore depth rows → role.EndsBefore depth otherRows →
      tree.rowsBefore depth field rows = other.rowsBefore depth field otherRows →
        tree = other ∧ rows = otherRows

/-- What is read of a legible part ends where the other parts begin. -/
theorem Legible.behind {category : Category} {slots : List Slot} {part otherPart : Phrase category}
    {rest otherRest : Parts slots} {name : String} (hpart : part.Legible) (hrest : rest.Legible)
    (hends : Role.EndsBefore depth rows (.parts slots))
    (hotherEnds : Role.EndsBefore depth otherRows (.parts slots))
    (h : part.rowsBefore depth name (rest.rowsBefore depth field rows) =
      otherPart.rowsBefore depth name (otherRest.rowsBefore depth field otherRows)) :
    part = otherPart ∧ rest = otherRest ∧ rows = otherRows := by
  obtain ⟨heq, hrows⟩ :=
    hpart (endsBefore_phrase rest hends) (endsBefore_phrase otherRest hotherEnds) h
  exact ⟨heq, hrest hends hotherEnds hrows⟩

theorem legible {role : Role} (tree : Tree role) : tree.Legible := by
  induction tree with
  | phrase form span parts ih =>
    intro other _ _ _ _ hends hotherEnds h
    cases other with
    | phrase otherForm otherSpan otherParts =>
      simp only [rowsBefore, List.cons.injEq, Row.mk.injEq] at h
      obtain ⟨⟨-, -, hname, rfl, hattributes⟩, hparts⟩ := h
      obtain rfl := Form.eq_of_shown hname hattributes
      obtain ⟨rfl, hrows⟩ :=
        ih (endsBefore_parts form hends) (endsBefore_parts form hotherEnds) hparts
      exact ⟨rfl, hrows⟩
  | nil =>
    intro other _ _ _ _ _ _ h
    cases other
    exact ⟨rfl, h⟩
  | one part rest ihpart ihrest =>
    intro other _ _ _ _ hends hotherEnds h
    cases other with
    | one otherPart otherRest =>
      obtain ⟨rfl, rfl, hrows⟩ :=
        ihpart.behind ihrest (endsBefore_tail hends) (endsBefore_tail hotherEnds) h
      exact ⟨rfl, hrows⟩
  | absent rest ih =>
    intro other _ _ _ _ hends hotherEnds h
    cases other with
    | absent otherRest =>
      obtain ⟨rfl, hrows⟩ := ih (endsBefore_tail hends) (endsBefore_tail hotherEnds) h
      exact ⟨rfl, hrows⟩
    | present otherPart otherRest => exact absurd h (rowsBefore_ne rest otherPart hends)
  | present part rest ihpart ihrest =>
    intro other _ _ _ _ hends hotherEnds h
    cases other with
    | absent otherRest => exact absurd h.symm (rowsBefore_ne otherRest part hotherEnds)
    | present otherPart otherRest =>
      obtain ⟨rfl, rfl, hrows⟩ :=
        ihpart.behind ihrest (endsBefore_tail hends) (endsBefore_tail hotherEnds) h
      exact ⟨rfl, hrows⟩
  | done rest ih =>
    intro other _ _ _ _ hends hotherEnds h
    cases other with
    | done otherRest =>
      obtain ⟨rfl, hrows⟩ := ih (endsBefore_tail hends) (endsBefore_tail hotherEnds) h
      exact ⟨rfl, hrows⟩
    | more otherPart otherRest => exact absurd h (rowsBefore_ne rest otherPart hends)
  | more part rest ihpart ihrest =>
    intro other _ _ _ _ hends hotherEnds h
    cases other with
    | done otherRest => exact absurd h.symm (rowsBefore_ne otherRest part hotherEnds)
    | more otherPart otherRest =>
      -- Behind a part of this slot there may be more of them: the slots stay as they are.
      obtain ⟨rfl, rfl, hrows⟩ := ihpart.behind ihrest hends hotherEnds h
      exact ⟨rfl, hrows⟩

end Tree

/-- Phrases of a category that have the same outline are the same phrase. -/
theorem Phrase.outline_injective {category : Category} :
    Function.Injective (outline : Phrase category → List Row) := by
  intro phrase other h
  have hends : Role.EndsBefore 0 [] (.phrase category) := fun _ hrow ↦ nomatch hrow
  exact (phrase.legible hends hends h).1

end CorpusQuery
