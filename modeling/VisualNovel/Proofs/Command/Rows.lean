import VisualNovel.Command.Reading

/-
  What a row gives. It is made by a reader that a game adds, or it is a label or a command of the
  script's own language (`Factory.read_makes`). A command carries the row it was read from
  (`Factory.read_context`), and what keeps a row from being read is an error of a table or of a
  command that names this row, or what a reader that a game adds says (`Factory.read_faults`).
-/

namespace VisualNovel

/-- The row that an error of a table is about. -/
def TableError.context : TableError → RowContext
  | missingColumn context _ => context
  | emptyCell context _ => context
  | unparseable context _ _ _ => context
  | malformed context _ => context

/-- The row that an error of a command is about. -/
def CommandError.context : CommandError → RowContext
  | unknownTag context _ => context
  | invalidLabel context _ => context
  | invalidArgument context _ _ => context
  | construction context _ _ => context

/-- The row that an error is about, if it is one of a table or of a command. -/
def Error.row? : Error → Option RowContext
  | table error => some error.context
  | command error => some error.context
  | _ => none

namespace Command

open Table (Column Row)

/-- If something cannot be made out of a row, the error is about this row. -/
def FaultsIn {α : Type} (r : Row) (result : Except Error α) : Prop :=
  ∀ e, result = .error e → e.row? = some r.context

section Faults

variable {α β : Type} {r : Row}

theorem FaultsIn.ok (value : α) : FaultsIn r (.ok value) := fun _ h => nomatch h

theorem FaultsIn.fault (tag : Tag) (f : ArgumentFault) :
    FaultsIn r (Command.fault r tag f : Except Error α) := by
  intro e h
  rw [← Except.error.inj h]
  rfl

theorem FaultsIn.error {e : Error} (h : e.row? = some r.context) :
    FaultsIn r (.error e : Except Error α) := by
  intro e' h'
  rw [← Except.error.inj h', h]

theorem FaultsIn.bind {result : Except Error α} (h : FaultsIn r result) {next : α → Except Error β}
    (hnext : ∀ value, FaultsIn r (next value)) : FaultsIn r (result >>= next) := by
  cases result with
  | ok value => exact hnext value
  | error e => exact FaultsIn.error (h e rfl)

theorem FaultsIn.map {result : Except Error α} (h : FaultsIn r result) (g : α → β) :
    FaultsIn r (result.map g) := by
  cases result with
  | ok value => exact FaultsIn.ok (g value)
  | error e => exact FaultsIn.error (h e rfl)

/-! ## Arguments -/

theorem requiredText_faults (tag : Tag) (column : Column) :
    FaultsIn r (requiredText r tag column) := by
  unfold requiredText
  split
  · exact FaultsIn.ok _
  · exact FaultsIn.fault _ _

theorem requiredLabel_faults (tag : Tag) (column : Column) :
    FaultsIn r (requiredLabel r tag column) := by
  refine (requiredText_faults tag column).bind fun raw => ?_
  split
  · exact FaultsIn.ok _
  · exact FaultsIn.error rfl

theorem parsed_faults (parse : String → Except ExpressionError α) (tag : Tag) (column : Column) :
    FaultsIn r (parsed? parse r tag column) := by
  unfold parsed?
  split
  · exact FaultsIn.ok _
  · split
    · exact FaultsIn.ok _
    · exact FaultsIn.fault _ _

theorem orFault_faults (tag : Tag) (f : ArgumentFault) (value? : Option α) :
    FaultsIn r (orFault r tag f value?) := by
  cases value? with
  | some value => exact FaultsIn.ok value
  | none => exact FaultsIn.fault tag f

theorem requiredCondition_faults (tag : Tag) : FaultsIn r (requiredCondition r tag) :=
  (parsed_faults _ _ _).bind fun _ => orFault_faults _ _ _

theorem cell_faults [Table.CellValue α] (column : String) :
    FaultsIn r (r.parse column : Except Error α) := by
  unfold Row.parse
  split
  · exact FaultsIn.error rfl
  · split
    · exact FaultsIn.error rfl
    · unfold Row.convert
      split
      · exact FaultsIn.ok _
      · exact FaultsIn.error rfl

theorem readLoopCount_faults : FaultsIn r (readLoopCount r) := by
  unfold readLoopCount
  split
  · exact FaultsIn.ok _
  · exact (cell_faults _).map some

/-! ## Commands -/

/-- Every command of the script's own language faults in its row. -/
theorem Tag.read_faults (s : Settings) (tag : Tag) : FaultsIn r (tag.read s r) := by
  have hlayer : ∀ kind, FaultsIn r (readLayer kind s r) := fun kind =>
    (requiredText_faults _ _).bind fun _ => FaultsIn.ok _
  have hsound : ∀ track, FaultsIn r (readSound track s r) := fun track =>
    (requiredText_faults _ _).bind fun _ => FaultsIn.ok _
  cases tag with
  | character => exact (requiredText_faults _ _).bind fun _ => FaultsIn.ok _
  | background => exact hlayer .background
  | event => exact hlayer .event
  | sprite => exact hlayer .sprite
  | se => exact hsound .se
  | bgm => exact hsound .bgm
  | ambience => exact hsound .ambience
  | param =>
    exact (parsed_faults _ _ _).bind fun _ => (orFault_faults _ _ _).bind fun _ => FaultsIn.ok _
  | ifStart => exact (requiredCondition_faults _).map _
  | elseIf => exact (requiredCondition_faults _).map _
  | selection =>
    exact (requiredText_faults _ _).bind fun _ => (requiredLabel_faults _ _).bind fun _ =>
      (parsed_faults _ _ _).bind fun _ => FaultsIn.ok _
  | jump =>
    exact (requiredLabel_faults _ _).bind fun _ => (parsed_faults _ _ _).bind fun _ =>
      FaultsIn.ok _
  | sendMessage => exact (requiredText_faults _ _).bind fun _ => FaultsIn.ok _
  | tween =>
    exact (requiredText_faults _ _).bind fun _ => (requiredText_faults _ _).bind fun _ =>
      readLoopCount_faults.bind fun _ => FaultsIn.ok _
  | _ => exact FaultsIn.ok _

theorem readLabel_faults (name : String) : FaultsIn r (readLabel r name) := by
  unfold readLabel
  split
  · exact FaultsIn.ok _
  · exact FaultsIn.error rfl

end Faults

/-! ## Rows -/

/-- How a row is read that is not passed over: by a reader that the game adds under its name, as a
    label, as a command of the script's own language, or not at all, as nothing has its name. -/
inductive Factory.Makes (f : Factory) (s : Settings) (r : Row) : Except Error Action → Prop
  | host (name : String) (reader : HostReader) (hname : text? r .command = some name)
      (hreader : f.custom.lookup name = some reader) :
    Makes f s r ((reader r s).map fun a => .host a.1)
  | label (name : String) (hname : text? r .command = some name) : Makes f s r (readLabel r name)
  | own (tag : Tag) : Makes f s r (tag.read s r)
  | unknown (name : String) : Makes f s r (.error (.command (.unknownTag r.context name)))

theorem Factory.readAction_makes (f : Factory) (s : Settings) (r : Row) :
    f.readAction s r = .ok none ∨
      ∃ result, f.Makes s r result ∧ f.readAction s r = result.map some := by
  unfold Factory.readAction
  split
  · rename_i name hname
    unfold Factory.readNamed
    split
    · exact Or.inl rfl
    split
    · rename_i reader hreader
      refine Or.inr ⟨_, .host name reader hname hreader, ?_⟩
      cases reader r s <;> rfl
    split
    · exact Or.inr ⟨_, .label name hname, rfl⟩
    split
    · exact Or.inr ⟨_, .own _, rfl⟩
    · exact Or.inr ⟨_, .unknown name, rfl⟩
  · split
    · exact Or.inr ⟨_, .own _, rfl⟩
    · exact Or.inl rfl

/-- A command was made of its row. -/
theorem Factory.makes_of_read {f : Factory} {s : Settings} {r : Row} {c : Command}
    (h : f.read s r = .ok (some c)) : f.Makes s r (.ok c.action) := by
  unfold Factory.read at h
  rcases f.readAction_makes s r with hnone | ⟨result, hmakes, heq⟩
  · rw [hnone] at h
    cases h
  · rw [heq] at h
    cases result with
    | error e => cases h
    | ok action =>
      obtain rfl := Option.some.inj (Except.ok.inj h)
      exact hmakes

/-- What keeps a row from being read came about in reading it. -/
theorem Factory.makes_of_error {f : Factory} {s : Settings} {r : Row} {e : Error}
    (h : f.read s r = .error e) : f.Makes s r (.error e) := by
  unfold Factory.read at h
  rcases f.readAction_makes s r with hnone | ⟨result, hmakes, heq⟩
  · rw [hnone] at h
    cases h
  · rw [heq] at h
    cases result with
    | error e' =>
      obtain rfl := Except.error.inj h
      exact hmakes
    | ok action => cases h

/-- The reader that the game adds under the name of a row refuses the row. -/
def Factory.Refuses (f : Factory) (s : Settings) (r : Row) (e : Error) : Prop :=
  ∃ name reader, text? r .command = some name ∧ f.custom.lookup name = some reader ∧
    reader r s = .error e

/-- A row that cannot be read has an error about it, or the one that the game's own reader of the
    row gives. -/
theorem Factory.read_faults {f : Factory} {s : Settings} {r : Row} {e : Error}
    (h : f.read s r = .error e) : e.row? = some r.context ∨ f.Refuses s r e := by
  have hmakes := Factory.makes_of_error h
  generalize hresult : (Except.error e : Except Error Action) = result at hmakes
  cases hmakes with
  | host name reader hname hreader =>
    refine Or.inr ⟨name, reader, hname, hreader, ?_⟩
    cases hread : reader r s with
    | error e' =>
      rw [hread] at hresult
      rw [Except.error.inj hresult]
    | ok a =>
      rw [hread] at hresult
      cases hresult
  | label name => exact Or.inl (readLabel_faults name e hresult.symm)
  | own tag => exact Or.inl (Tag.read_faults s tag e hresult.symm)
  | unknown name =>
    obtain rfl := Except.error.inj hresult
    exact Or.inl rfl

/-- The readers that a game adds fault in the row that they read. -/
def Factory.FaultsInRows (f : Factory) : Prop :=
  ∀ name reader, f.custom.lookup name = some reader → ∀ r s, FaultsIn r (reader r s)

theorem Factory.Refuses.row {f : Factory} {s : Settings} {r : Row} {e : Error}
    (h : f.Refuses s r e) (hf : f.FaultsInRows) : e.row? = some r.context := by
  obtain ⟨name, reader, -, hreader, he⟩ := h
  exact hf name reader hreader r s e he

/-- A command carries the row it was read from. -/
theorem Factory.read_context {f : Factory} {s : Settings} {r : Row} {c : Command}
    (h : f.read s r = .ok (some c)) : c.context = r.context := by
  unfold Factory.read at h
  cases hread : f.readAction s r with
  | error e =>
    rw [hread] at h
    cases h
  | ok a =>
    rw [hread] at h
    obtain ⟨action, -, rfl⟩ := Option.map_eq_some_iff.mp (Except.ok.inj h)
    rfl

end Command

end VisualNovel
